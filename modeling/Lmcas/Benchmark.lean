import Lmcas.Lib.Fallible
import Mathlib.Data.List.Basic

/-!
# The verification of a benchmark

The `verify` branch that every `run.py` has, with the functions of
`benchmark.py` it calls.  A command is run by a shell.  What comes back is the
standard output, decoded as UTF-8; the exit status is not looked at, and a
command that cannot be started has an empty output.  Command lines and outputs
are printed on the way, which fails where the standard output of the
interpreter cannot encode them.
-/

namespace Lmcas.Benchmark

open Lmcas.Lib.Fallible

/-! ## Running commands -/

/-- What a command that has been started comes to. -/
structure Completed where
  stdout : ByteArray
  status : Nat

/-- An executable, as a function of the command line; `none` if it cannot be
started. -/
abbrev Executable := String → Option Completed

/-- `communicate ()` with a shell that runs the command.  The shell reports a
missing command on its standard error and exits with status 127. -/
def Executable.shell (executable : Executable) (cmd : String) :
    Completed :=
  (executable cmd).getD ⟨ByteArray.empty, 127⟩

/-- The exceptions that end the script: text that is no UTF-8, text that the
standard output or the shell's argument cannot encode, a null character in the
command, the assertion. -/
inductive PyException where
  | unicodeDecodeError
  | unicodeEncodeError
  | valueError
  | assertionError
deriving DecidableEq, Repr

/-- Are all the characters in ASCII? -/
def isAscii (text : String) : Bool :=
  text.toList.all fun char => decide (char.toNat < 128)

/-- The encodings of the interpreter that runs the script.  In the locale `C`
both are those of ASCII; every encoding has the ASCII characters. -/
structure Interpreter where
  /-- Can `sys.stdout` encode the text? -/
  encodes : String → Bool
  encodes_ascii : ∀ text, isAscii text = true → encodes text = true
  /-- Can a command line with the text be encoded for the shell? -/
  fsEncodes : String → Bool

/-- `print` writes its arguments one after the other, with blanks between them
and a newline behind them. -/
def Interpreter.print (python : Interpreter) (pieces : List String) :
    Except PyException Unit :=
  if pieces.all python.encodes then .ok () else .error .unicodeEncodeError

/-- `bytes.decode ("utf-8")`. -/
def decode (bytes : ByteArray) : Except PyException String :=
  match String.fromUTF8? bytes with
  | some text => .ok text
  | none => .error .unicodeDecodeError

/-- `Popen` with `shell=True`, and `communicate ()`.  The command line is
encoded first and must then have no null byte. -/
def Interpreter.popen (python : Interpreter) (executable : Executable)
    (cmd : String) : Except PyException Completed :=
  if python.fsEncodes cmd = false then .error .unicodeEncodeError
  else if '\x00' ∈ cmd.toList then .error .valueError
  else .ok (executable.shell cmd)

section

variable (python : Interpreter)

/-- `execute`: runs the command, decodes what it prints and prints that
again. -/
def execute (executable : Executable) (cmd : String) :
    Except PyException String := do
  python.print ["Running:\t", " ", cmd, "\n"]
  let completed ← python.popen executable cmd
  let output ← decode completed.stdout
  python.print ["Output:\t", " ", output, "\n"]
  .ok output

/-- `original_run` and `debloated_run`. -/
def run (executable : Executable) (bin arg : String) :
    Except PyException String :=
  execute python executable (bin ++ " " ++ arg)

/-- `original` and `debloated`: the outputs of the cases, in order. -/
def outputs (executable : Executable) (bin : String) :
    List String → Except PyException (List String)
  | [] => .ok []
  | arg :: args =>
      match run python executable bin arg with
      | .error exception => .error exception
      | .ok output =>
          match outputs executable bin args with
          | .error exception => .error exception
          | .ok rest => .ok (output :: rest)

end

/-! ## The verdict -/

/-- The message that `verify` prints. -/
inductive Verdict where
  | success
  | failed
deriving DecidableEq, Repr

/-- What `verify` prints at the end. -/
def Verdict.message : Verdict → String
  | .success => "Verification success!"
  | .failed => "Verification failed!"

/-- The loop of `verify`. -/
def compareOutputs : List String → List String → Verdict
  | original :: originals, debloated :: debloateds =>
      if original ≠ debloated then .failed
      else compareOutputs originals debloateds
  | _, _ => .success

/-- `verify`, from the outputs of the two lists of executables. -/
def verify (python : Interpreter) (originals debloateds : List String) :
    Except PyException Verdict :=
  if originals.length = 0 ∨ debloateds.length = 0 ∨
      originals.length ≠ debloateds.length then
    .error .assertionError
  else do
    let verdict := compareOutputs originals debloateds
    python.print [verdict.message, "\n"]
    .ok verdict

/-- The `verify` branch of a `run.py`; the value that `benchmark.verify`
returns is not used. -/
def verifyBranch (python : Interpreter) (original debloated : Executable)
    (originalBin debloatedBin : String)
    (originalCases debloatedCases : List String) :
    Except PyException Verdict :=
  match outputs python original originalBin originalCases with
  | .error exception => .error exception
  | .ok originals =>
      match outputs python debloated debloatedBin debloatedCases with
      | .error exception => .error exception
      | .ok debloateds => verify python originals debloateds

/-- How the interpreter ends: its status and the verdict it has printed. -/
structure Ended where
  status : Nat
  verdict : Option Verdict
deriving DecidableEq, Repr

/-- How the process of the script ends: an exception gives status 1, a verdict
0, whichever it is. -/
def endProcess (branch : Except PyException Verdict) : Ended :=
  match branch with
  | .ok verdict => ⟨0, some verdict⟩
  | .error _ => ⟨1, none⟩

/-! ## What is compared -/

/-- The bytes that a case writes. -/
def caseStdout (executable : Executable) (bin arg : String) :
    ByteArray :=
  (executable.shell (bin ++ " " ++ arg)).stdout

/-- Python decodes just the bytes that are the UTF-8 of a text. -/
theorem decode_ok_iff {bytes : ByteArray} {text : String} :
    decode bytes = .ok text ↔ text.toByteArray = bytes := by
  unfold decode String.fromUTF8?
  by_cases valid : bytes.IsValidUTF8
  · simp only [valid, dif_pos, Except.ok.injEq]
    constructor
    · rintro rfl
      rfl
    · rintro rfl
      rfl
  · simp only [valid, dif_neg, not_false_eq_true, reduceCtorEq, false_iff]
    rintro rfl
    exact valid text.isValidUTF8

/-- A case that comes through: its command line can be printed and handed to
the shell, and its output decoded and printed. -/
structure Runs (python : Interpreter) (executable : Executable)
    (bin arg : String) : Prop where
  printed : python.encodes (bin ++ " " ++ arg) = true
  encoded : python.fsEncodes (bin ++ " " ++ arg) = true
  whole : '\x00' ∉ (bin ++ " " ++ arg).toList
  output : ∃ text : String,
    text.toByteArray = caseStdout executable bin arg ∧
      python.encodes text = true

section

variable {python : Interpreter}

/-- Text of the script itself is ASCII. -/
theorem print_ok_iff {pieces : List String} {label text : String}
    (shape : pieces = [label, " ", text, "\n"])
    (ascii : isAscii label = true) :
    python.print pieces = .ok () ↔ python.encodes text = true := by
  have blank : python.encodes " " = true :=
    python.encodes_ascii " " (by decide +kernel)
  have newline : python.encodes "\n" = true :=
    python.encodes_ascii "\n" (by decide +kernel)
  subst shape
  simp [Interpreter.print, python.encodes_ascii label ascii, blank, newline]

/-- A command is started if the file system's encoding has its characters and it
has no null. -/
theorem popen_ok_iff {executable : Executable} {cmd : String}
    {completed : Completed} :
    python.popen executable cmd = .ok completed ↔
      python.fsEncodes cmd = true ∧ '\x00' ∉ cmd.toList ∧
        executable.shell cmd = completed := by
  unfold Interpreter.popen
  split
  · simp [*]
  · split <;> simp_all

/-- A case that does not raise an exception has come through. -/
theorem run_ok_iff {executable : Executable} {bin arg output : String} :
    run python executable bin arg = .ok output ↔
      Runs python executable bin arg ∧
        output.toByteArray = caseStdout executable bin arg := by
  have running : isAscii "Running:\t" = true := by decide +kernel
  have shown : isAscii "Output:\t" = true := by decide +kernel
  unfold run execute
  simp only [bind_eq_ok_iff, popen_ok_iff, decode_ok_iff, Unique.exists_iff,
    print_ok_iff rfl running, print_ok_iff rfl shown]
  constructor
  · rintro ⟨printed, completed, ⟨encoded, whole, rfl⟩, text, decoded,
      shown, same⟩
    cases same
    exact ⟨⟨printed, encoded, whole, output, decoded, shown⟩, decoded⟩
  · rintro ⟨runs, bytes⟩
    obtain ⟨text, decoded, shown⟩ := runs.output
    have same : text = output :=
      String.toByteArray_inj.mp (decoded.trans bytes.symm)
    subst same
    exact ⟨runs.printed, _, ⟨runs.encoded, runs.whole, rfl⟩, text, bytes,
      shown, rfl⟩

/-- Decoded outputs are the bytes written. -/
theorem outputs_ok_iff
    {executable : Executable} {bin : String} {args outs : List String} :
    outputs python executable bin args = .ok outs ↔
      (∀ arg ∈ args, Runs python executable bin arg) ∧
        outs.map String.toByteArray =
          args.map (caseStdout executable bin) := by
  induction args generalizing outs with
  | nil =>
      rw [outputs, Except.ok.injEq, List.map_nil, List.map_eq_nil_iff]
      simp only [List.not_mem_nil, false_imp_iff, implies_true, true_and]
      exact eq_comm
  | cons arg args inductionHypothesis =>
      have shape : outputs python executable bin (arg :: args) =
          (run python executable bin arg >>= fun output =>
            (outputs python executable bin args).map (output :: ·)) := by
        rw [outputs]
        cases run python executable bin arg <;>
          cases outputs python executable bin args <;> rfl
      rw [shape]
      simp only [bind_eq_ok_iff, map_eq_ok_iff, run_ok_iff,
        inductionHypothesis, List.forall_mem_cons, List.map_cons]
      constructor
      · rintro ⟨output, ⟨runs, here⟩, rest, ⟨allRun, there⟩, rfl⟩
        exact ⟨⟨runs, allRun⟩, by rw [List.map_cons, here, there]⟩
      · rintro ⟨⟨runs, allRun⟩, bytes⟩
        cases outs with
        | nil => cases bytes
        | cons output rest =>
            obtain ⟨here, there⟩ := List.cons.inj bytes
            exact ⟨output, ⟨runs, here⟩, rest, ⟨allRun, there⟩, rfl⟩

/-- The cases of an executable run without an exception if and only if every
one comes through. -/
theorem exists_outputs_ok_iff
    {executable : Executable} {bin : String} {args : List String} :
    (∃ outs, outputs python executable bin args = .ok outs) ↔
      ∀ arg ∈ args, Runs python executable bin arg := by
  simp only [outputs_ok_iff, exists_and_left, and_iff_left_iff_imp]
  intro runs
  induction args with
  | nil => exact ⟨[], rfl⟩
  | cons arg args inductionHypothesis =>
      obtain ⟨first, others⟩ := List.forall_mem_cons.mp runs
      obtain ⟨output, here, -⟩ := first.output
      obtain ⟨rest, there⟩ := inductionHypothesis others
      exact ⟨output :: rest, by rw [List.map_cons, List.map_cons, here, there]⟩

end

/-- The loop of `verify` compares all outputs. -/
theorem compareOutputs_eq_success_iff
    {originals debloateds : List String}
    (length : originals.length = debloateds.length) :
    compareOutputs originals debloateds = .success ↔
      originals = debloateds := by
  induction originals generalizing debloateds with
  | nil =>
      cases debloateds with
      | nil => exact iff_of_true rfl rfl
      | cons _ _ => exact nomatch length
  | cons original originals inductionHypothesis =>
      cases debloateds with
      | nil => exact nomatch length
      | cons debloated debloateds =>
          unfold compareOutputs
          by_cases same : original = debloated
          · simp [same, inductionHypothesis (Nat.succ.inj length)]
          · simp [same]

/-- Lists of one length have the same images just if they agree pair by pair. -/
theorem map_eq_map_iff_forall_zip
    {Left Right Value : Type} {f : Left → Value} {g : Right → Value}
    {left : List Left} {right : List Right}
    (length : left.length = right.length) :
    left.map f = right.map g ↔
      ∀ pair ∈ left.zip right, f pair.1 = g pair.2 := by
  induction left generalizing right with
  | nil =>
      cases right with
      | nil => simp
      | cons _ _ => exact nomatch length
  | cons first left inductionHypothesis =>
      cases right with
      | nil => exact nomatch length
      | cons second right =>
          simp [inductionHypothesis (Nat.succ.inj length)]

/-- All cases of both executables come through. -/
def AllRun (python : Interpreter) (original debloated : Executable)
    (originalBin debloatedBin : String)
    (originalCases debloatedCases : List String) : Prop :=
  (∀ arg ∈ originalCases, Runs python original originalBin arg) ∧
    ∀ arg ∈ debloatedCases, Runs python debloated debloatedBin arg

/-- The message of the verdict can be printed by every interpreter. -/
theorem verify_eq (python : Interpreter) {originals debloateds : List String}
    (nonempty : originals.length ≠ 0)
    (length : originals.length = debloateds.length) :
    verify python originals debloateds =
      .ok (compareOutputs originals debloateds) := by
  have ascii (verdict : Verdict) : isAscii verdict.message = true := by
    cases verdict <;> decide +kernel
  have newline : python.encodes "\n" = true :=
    python.encodes_ascii "\n" (by decide +kernel)
  have accepted : ¬ (originals.length = 0 ∨ debloateds.length = 0 ∨
      originals.length ≠ debloateds.length) := by
    omega
  rw [verify, if_neg accepted]
  simp [Interpreter.print, newline, python.encodes_ascii _ (ascii _), bind,
    Except.bind]

/--
The branch ends with a verdict exactly if all cases come through.  It reports
success exactly if moreover the two executables write the same bytes in every
case.
-/
theorem verify_verdict {python : Interpreter}
    {original debloated : Executable} {originalBin debloatedBin : String}
    {originalCases debloatedCases : List String}
    (nonempty : originalCases ≠ [])
    (length : originalCases.length = debloatedCases.length) :
    ((∃ verdict,
        endProcess (verifyBranch python original debloated originalBin
          debloatedBin originalCases debloatedCases) =
            ⟨0, some verdict⟩) ↔
      AllRun python original debloated originalBin debloatedBin
        originalCases debloatedCases) ∧
    (endProcess (verifyBranch python original debloated originalBin
        debloatedBin originalCases debloatedCases) =
          ⟨0, some .success⟩ ↔
      AllRun python original debloated originalBin debloatedBin
          originalCases debloatedCases ∧
        ∀ pair ∈ originalCases.zip debloatedCases,
          caseStdout original originalBin pair.1 =
            caseStdout debloated debloatedBin pair.2) := by
  unfold AllRun
  rw [← exists_outputs_ok_iff, ← exists_outputs_ok_iff]
  rcases ranOriginal : outputs python original originalBin originalCases with
    exception | originals
  · simp [verifyBranch, ranOriginal, endProcess]
  rcases ranDebloated :
      outputs python debloated debloatedBin debloatedCases with
    exception | debloateds
  · simp [verifyBranch, ranOriginal, ranDebloated, endProcess]
  have bytesOriginal := (outputs_ok_iff.mp ranOriginal).2
  have bytesDebloated := (outputs_ok_iff.mp ranDebloated).2
  have lengthOriginal : originals.length = originalCases.length := by
    simpa using congrArg List.length bytesOriginal
  have lengthDebloated : debloateds.length = debloatedCases.length := by
    simpa using congrArg List.length bytesDebloated
  have positive : originals.length ≠ 0 := by
    rw [lengthOriginal]
    exact fun zero => nonempty (List.length_eq_zero_iff.mp zero)
  have sameLength : originals.length = debloateds.length := by
    rw [lengthOriginal, lengthDebloated, length]
  have branch : verifyBranch python original debloated originalBin
      debloatedBin originalCases debloatedCases =
        .ok (compareOutputs originals debloateds) := by
    simp only [verifyBranch, ranOriginal, ranDebloated,
      verify_eq python positive sameLength]
  have injective : Function.Injective String.toByteArray :=
    fun _ _ => String.toByteArray_inj.mp
  have same : originals = debloateds ↔
      ∀ pair ∈ originalCases.zip debloatedCases,
        caseStdout original originalBin pair.1 =
          caseStdout debloated debloatedBin pair.2 := by
    rw [← map_eq_map_iff_forall_zip length, ← bytesOriginal,
      ← bytesDebloated]
    exact (List.map_injective_iff.mpr injective).eq_iff.symm
  rw [branch]
  constructor
  · simp [endProcess]
  · rw [← same, ← compareOutputs_eq_success_iff sameLength]
    simp [endProcess]

/-- An executable that writes a text whatever its arguments are. -/
def writes (text : String) (status : Nat) : Executable :=
  fun _ => some ⟨text.toByteArray, status⟩

/-- The encodings of the locale `C`. -/
def posix : Interpreter where
  encodes := isAscii
  encodes_ascii _ ascii := ascii
  fsEncodes := isAscii

/-- The case of `wc`. -/
theorem verify_verdict_wc :
    ((∃ verdict,
        endProcess (verifyBranch posix (writes "3" 0) (writes "3" 0) "wc_orig"
          "wc_cu" ["-l test.txt"] ["test.txt"]) = ⟨0, some verdict⟩) ↔
      AllRun posix (writes "3" 0) (writes "3" 0) "wc_orig" "wc_cu"
        ["-l test.txt"] ["test.txt"]) ∧
    (endProcess (verifyBranch posix (writes "3" 0) (writes "3" 0) "wc_orig"
        "wc_cu" ["-l test.txt"] ["test.txt"]) = ⟨0, some .success⟩ ↔
      AllRun posix (writes "3" 0) (writes "3" 0) "wc_orig" "wc_cu"
          ["-l test.txt"] ["test.txt"] ∧
        ∀ pair ∈ ["-l test.txt"].zip ["test.txt"],
          caseStdout (writes "3" 0) "wc_orig" pair.1 =
            caseStdout (writes "3" 0) "wc_cu" pair.2) :=
  verify_verdict (by decide) rfl

/-- A debloated program that writes the same and fails passes the
verification. -/
theorem verify_ignores_status :
    endProcess (verifyBranch posix (writes "3" 0) (writes "3" 139) "wc_orig"
        "wc_cu" ["-l test.txt"] ["test.txt"]) = ⟨0, some .success⟩ ∧
      ((writes "3" 0).shell "wc_orig -l test.txt").status ≠
        ((writes "3" 139).shell "wc_cu test.txt").status := by
  have original : outputs posix (writes "3" 0) "wc_orig" ["-l test.txt"] =
      .ok ["3"] := by
    refine outputs_ok_iff.mpr ⟨List.forall_mem_singleton.mpr ?_, rfl⟩
    exact ⟨by decide +kernel, by decide +kernel, by decide +kernel,
      "3", rfl, by decide +kernel⟩
  have debloated : outputs posix (writes "3" 139) "wc_cu" ["test.txt"] =
      .ok ["3"] := by
    refine outputs_ok_iff.mpr ⟨List.forall_mem_singleton.mpr ?_, rfl⟩
    exact ⟨by decide +kernel, by decide +kernel, by decide +kernel,
      "3", rfl, by decide +kernel⟩
  refine ⟨?_, by decide⟩
  have same : ["3"].length = ["3"].length := rfl
  unfold verifyBranch
  rw [original, debloated]
  simp only [verify_eq posix (by decide) same]
  decide

end Lmcas.Benchmark
