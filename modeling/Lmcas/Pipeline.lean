import Lmcas.Lib.CString
import Lmcas.Lib.Provenance

/-!
# The analysis pipeline

`runAnalysis_automated.sh`, from the bitcode file to the two executables that
`run.py verify` compares.  The script has no `set -e`: a command that fails
leaves its output as it was, and the next command reads whatever is there.
The directories it writes to stay when it is done.

The words of the command line hold no blanks and no pattern characters, which
the shell would split or expand.
-/

namespace Lmcas.Pipeline

open Lmcas.Lib.CString Lmcas.Lib.Provenance

/-! ## Names -/

/-- `basename path suffix`. -/
def basename (path suffix : Word) : Word :=
  let stripped := path.reverse.dropWhile (· = '/')
  let base := (stripped.takeWhile (· ≠ '/')).reverse
  if stripped = [] then ['/']
  else if suffix <:+ base ∧ base ≠ suffix then
    base.take (base.length - suffix.length)
  else base

/-- `${name##*.}`. -/
def extension (name : Word) : Word :=
  (name.reverse.takeWhile (· ≠ '.')).reverse

/-- The variable `app` of the script. -/
def appOf (file : Word) : Word :=
  basename file ('.' :: extension (basename file []))

/-- What the program has gone through; the suffix of its files. -/
inductive Stage where
  | orig
  | cc
  | cp
  | ps
  | cu
deriving DecidableEq, Repr

/-- All of them. -/
def stages : List Stage := [.orig, .cc, .cp, .ps, .cu]

/-- The files that the partial interpreter dumps. -/
inductive Dump where
  | gbls
  | primitiveLocals
  | customizedLocals
  | ptrToStructLocals
  | ptrToPrimitiveLocals
  | stringVarsLcl
  | stringVarsGbls
  | bbs
deriving DecidableEq, Repr

/-- In the order in which constant conversion names them. -/
def dumps : List Dump :=
  [.gbls, .primitiveLocals, .customizedLocals, .ptrToStructLocals,
    .ptrToPrimitiveLocals, .stringVarsLcl, .stringVarsGbls, .bbs]

/-- The files of one program.  In `debloate_${app}` are `${app}_orig.bc` and
its successors, `${app}_orig_neck.ll`, the dumps, the object files
`${app}_orig.o` and so on, and the executables `${app}_orig` and so on; in
`benchmarks/binaries` the two executables that are compared. -/
inductive Name where
  | bitcode (stage : Stage)
  | neck
  | dump (dump : Dump)
  | object (stage : Stage)
  | linked (stage : Stage)
  | compared (stage : Stage)
deriving DecidableEq, Repr

namespace Name

/-- Is the file in `benchmarks/binaries`? -/
def isCompared : Name → Bool
  | .compared _ => true
  | _ => false

/-- Is the file one that the interpreter writes? -/
def isDump : Name → Bool
  | .dump _ => true
  | _ => false

end Name

/-! ## Commands -/

/-- The two runs of the interpreter. -/
inductive KleeRun where
  | dumpFile
  | dumpBbs
deriving DecidableEq, Repr

/-- How the executables are linked, by what the command line adds. -/
inductive Linker where
  | clangIbverbs
  | clangDl
  | gccPthread
  | gcc
  | clangPcap
deriving DecidableEq, Repr

/-- The commands of the script that make files. -/
inductive Command where
  | cpBitcode
  | neck
  | klee (run : KleeRun)
  | sed (dump : Dump)
  | optDebloat
  | optPropagate
  | optStrip
  | optCleanUp
  | llc (stage : Stage)
  | link (linker : Linker) (stage : Stage)
  | cpBinary (stage : Stage)
deriving DecidableEq, Repr

/-- The inputs of an invocation that commands read. -/
inductive Leaf where
  | bitcodeFile
  | args
  | bitcodeName
  | app
deriving DecidableEq, Repr

/-- What a linker reads: `clang` the bitcode, `gcc` the object file. -/
def Linker.input (stage : Stage) : Linker → Name
  | .clangIbverbs | .clangDl | .clangPcap => .bitcode stage
  | .gccPthread | .gcc => .object stage

/-- The reads and writes of a command.  `dumped` are the files that a run of
the interpreter writes. -/
def Command.step (dumped : KleeRun → List Dump) :
    Command → Step Command Leaf Name
  | .cpBitcode =>
      { tool := .cpBitcode, operands := [.leaf .bitcodeFile]
        targets := [.bitcode .orig] }
  | .neck =>
      { tool := .neck, operands := [.file (.bitcode .orig)]
        targets := [.neck] }
  | .klee run =>
      { tool := .klee run, operands := [.file .neck, .leaf .args]
        targets := (dumped run).map .dump }
  | .sed dump =>
      { tool := .sed dump, operands := [.leaf .bitcodeName, .file (.dump dump)]
        targets := [.dump dump] }
  | .optDebloat =>
      { tool := .optDebloat, operands := [.leaf .app, .file .neck]
        options := dumps.map .dump
        targets := [.bitcode .cc] }
  | .optPropagate =>
      { tool := .optPropagate, operands := [.file (.bitcode .cc)]
        targets := [.bitcode .cp] }
  | .optStrip =>
      { tool := .optStrip, operands := [.file (.bitcode .cp)]
        targets := [.bitcode .ps] }
  | .optCleanUp =>
      { tool := .optCleanUp, operands := [.file (.bitcode .ps)]
        targets := [.bitcode .cu] }
  | .llc stage =>
      { tool := .llc stage, operands := [.file (.bitcode stage)]
        targets := [.object stage] }
  | .link linker stage =>
      { tool := .link linker stage, operands := [.file (linker.input stage)]
        targets := [.linked stage] }
  | .cpBinary stage =>
      { tool := .cpBinary stage, operands := [.file (.linked stage)]
        targets := [.compared stage] }

/-- `[[ $app == *"text"* ]]`. -/
def hasText (app : Word) (text : String) : Bool :=
  decide (text.toList <:+: app)

/-- Lines 69 to 118. -/
def debloating : List Command :=
  [.cpBitcode, .neck, .klee .dumpFile, .klee .dumpBbs, .sed .stringVarsLcl,
    .sed .stringVarsGbls, .optDebloat, .optPropagate, .optStrip, .optCleanUp]

/-- Lines 127 to 188, with the flags that the script sets on the way. -/
def generation (tcpdumpFlg objdumpFlg sortFlg knockd : Bool) :
    List Command :=
  (if tcpdumpFlg then stages.map (.link .clangIbverbs) else []) ++
    ((if objdumpFlg then stages.map (.link .clangDl) else []) ++
      ((if !tcpdumpFlg && !objdumpFlg then stages.map .llc else []) ++
        -- the block for `sort` does not link the program it has cleaned up
        ((if sortFlg then [.orig, .cc, .cp, .ps].map (.link .gccPthread) else []) ++
          ((if !sortFlg && !tcpdumpFlg && !objdumpFlg then
              stages.map (.link .gcc) else []) ++
            if knockd then stages.map (.link .clangPcap) else []))))

/-- The commands before the verification, in order. -/
def commands (app : Word) : List Command :=
  debloating ++
    generation (hasText app "tcpdump")
      (hasText app "objdump" || hasText app "readelf")
      (hasText app "sort") (hasText app "knockd")

/-- Lines 247 and 248. -/
def collection : List Command := [.cpBinary .orig, .cpBinary .cu]

/-! ## Invocations -/

/-- An invocation, with what its commands come to. -/
structure Invocation where
  file : Word
  args : Word
  succeeds : Command → Bool
  dumped : KleeRun → List Dump

/-- The files of a directory. -/
abbrev Files := Store Command Leaf Name

/-- The files of every program. -/
abbrev Workspace := Word → Files

namespace Invocation

variable (invocation : Invocation)

/-- The name that the script works with. -/
def app : Word := appOf invocation.file

/-- The steps of the commands that succeed. -/
def steps (list : List Command) : List (Step Command Leaf Name) :=
  (list.filter invocation.succeeds).map (Command.step invocation.dumped)

/-- Up to the executables. -/
def build (run : Nat) (files : Files) : Files :=
  applyAll run files (invocation.steps (commands invocation.app))

/-- The two tests with `test -f`. -/
def bothLinked (run : Nat) (files : Files) : Bool :=
  !(invocation.build run files (.linked .orig)).isMissing &&
    !(invocation.build run files (.linked .cu)).isMissing

/-- The files after one run of the script. -/
def collect (run : Nat) (files : Files) : Files :=
  if invocation.bothLinked run files then
    applyAll run (invocation.build run files) (invocation.steps collection)
  else invocation.build run files

/-- Otherwise the script prints its usage. -/
def started : Bool :=
  decide (invocation.file ≠ [] ∧ invocation.args ≠ [])

/-- A run touches the directory of its own application. -/
def run (run : Nat) (workspace : Workspace) : Workspace :=
  if invocation.started then
    Function.update workspace invocation.app
      (invocation.collect run (workspace invocation.app))
  else workspace

/-- Does the invocation come to `run.py verify` in `benchmarks/${app}`? -/
def reachesVerify (benchmark : Word → Bool) (run : Nat)
    (workspace : Workspace) : Bool :=
  invocation.started &&
    invocation.bothLinked run (workspace invocation.app) &&
    benchmark invocation.app

/-- The executables that `run.py verify` then compares. -/
def verified (run : Nat) (workspace : Workspace) (stage : Stage) :
    Content Command Leaf Name :=
  invocation.run run workspace invocation.app (.compared stage)

end Invocation

/-- Invocations one after the other; the head of the list is the last one. -/
def after (initial : Word → Name → Bool) : List Invocation → Workspace
  | [] => fun app name => if initial app name then .old name else .missing
  | invocation :: earlier =>
      invocation.run earlier.length (after initial earlier)

/-! ## Provenance along a history -/

namespace Invocation

variable {invocation : Invocation} {run : Nat}

theorem steps_append (list rest : List Command) :
    invocation.steps (list ++ rest) =
      invocation.steps list ++ invocation.steps rest := by
  simp [steps]

/-- The files are those that all commands of the run have made. -/
theorem collect_eq (files : Files) :
    invocation.collect run files =
      applyAll run files
        (invocation.steps
          (commands invocation.app ++
            if invocation.bothLinked run files then collection else [])) := by
  unfold collect
  split
  · rw [steps_append, applyAll_append, build]
  · rw [List.append_nil, build]

/-- The step of a history. -/
theorem run_before {workspace : Workspace}
    (before : ∀ app file, Before run (workspace app file)) :
    ∀ app file, Before (run + 1) (invocation.run run workspace app file) := by
  intro app file
  unfold Invocation.run
  split
  · by_cases own : app = invocation.app
    · subst own
      rw [Function.update_self, collect_eq]
      exact before_applyAll (before invocation.app) _ file
    · rw [Function.update_of_ne own]
      exact (before app file).mono (Nat.le_succ run)
  · exact (before app file).mono (Nat.le_succ run)

end Invocation

/-- Whatever the earlier invocations have left is older than this one. -/
theorem after_before (initial : Word → Name → Bool)
    (history : List Invocation) :
    ∀ app file, Before history.length (after initial history app file) := by
  induction history with
  | nil =>
      intro app file earlier came
      simp only [after] at came
      split at came <;> cases came
  | cons invocation earlier inductionHypothesis =>
      exact Invocation.run_before inductionHypothesis

/-! ## The condition -/

namespace Invocation

variable {invocation : Invocation}

/-- Is a file up to date after these commands, the last one first?  The last
success that writes it has read files that were up to date then, or that are
inputs of the invocation; a dump may also be missing. -/
def upToDateAfter (invocation : Invocation) (absent : Name → Bool)
    (latestFirst : List Command) (file : Name) : Bool :=
  supported absent
    ((latestFirst.filter invocation.succeeds).map
      (Command.step invocation.dumped)) file

/-- Tracing an executable that is compared back through the commands of the
invocation.  Of the files of earlier invocations only their absence counts. -/
def upToDate (invocation : Invocation) (workspace : Workspace)
    (stage : Stage) : Bool :=
  invocation.upToDateAfter
    (fun file => (workspace invocation.app file).isMissing)
    (commands invocation.app ++ collection).reverse (.compared stage)

/-- What is verified is from this run just if it is up to date. -/
theorem verified_fromRun_iff {run : Nat} {benchmark : Word → Bool}
    {workspace : Workspace}
    (before : ∀ app file, Before run (workspace app file))
    (reaches : invocation.reachesVerify benchmark run workspace = true)
    (stage : Stage) :
    FromRun run (invocation.verified run workspace stage) ↔
      invocation.upToDate workspace stage = true := by
  simp only [reachesVerify, Bool.and_eq_true] at reaches
  obtain ⟨⟨started, bothLinked⟩, -⟩ := reaches
  unfold verified Invocation.run
  rw [if_pos started, Function.update_self, collect_eq, if_pos bothLinked,
    fromRun_applyAll_iff (before invocation.app), upToDate, upToDateAfter,
    List.filter_reverse, List.map_reverse, steps]

end Invocation

/-! ## When the executables are of the invocation -/

/-- The commands behind the bitcode of a stage. -/
def Stage.chain : Stage → List Command
  | .orig => [.cpBitcode]
  | .cc => [.cpBitcode, .neck, .optDebloat]
  | .cp => [.cpBitcode, .neck, .optDebloat, .optPropagate]
  | .ps => [.cpBitcode, .neck, .optDebloat, .optPropagate, .optStrip]
  | .cu =>
      [.cpBitcode, .neck, .optDebloat, .optPropagate, .optStrip, .optCleanUp]

/-- How a program of this name is linked at a stage, the last way first.  Most
names have `gcc` alone; those with `sort` have `gcc -pthread`, but not for the
program that has been cleaned up. -/
def linkers (app : Word) (stage : Stage) : List Linker :=
  (if hasText app "knockd" then [.clangPcap] else []) ++
    ((if !hasText app "sort" && !hasText app "tcpdump" &&
          !(hasText app "objdump" || hasText app "readelf") then
        [.gcc] else []) ++
      ((if hasText app "sort" && stage ≠ .cu then [.gccPthread] else []) ++
        ((if hasText app "objdump" || hasText app "readelf" then
            [.clangDl] else []) ++
          if hasText app "tcpdump" then [.clangIbverbs] else [])))

namespace Invocation

variable (invocation : Invocation) (absent : Name → Bool)

/-- A dump of this invocation, or none: a run of the interpreter that succeeds
has written it, or it was absent when the invocation began and the script has
not inserted its line into an empty file. -/
def dumpReady (invocation : Invocation) (absent : Name → Bool)
    (dump : Dump) : Prop :=
  (∃ run, invocation.succeeds (.klee run) = true ∧
      dump ∈ invocation.dumped run) ∨
    absent (.dump dump) = true ∧
      ¬ ((dump = .stringVarsLcl ∨ dump = .stringVarsGbls) ∧
        invocation.succeeds (.sed dump) = true)

/-- Every command behind the bitcode succeeds.  Behind any but the original
program the dumps count too. -/
def bitcodeReady (stage : Stage) : Prop :=
  (∀ command ∈ stage.chain, invocation.succeeds command = true) ∧
    (stage ≠ .orig → ∀ dump ∈ dumps, invocation.dumpReady absent dump)

/-- The object file is written only for names without `tcpdump`, `objdump` and
`readelf`. -/
def objectReady (stage : Stage) : Prop :=
  (hasText invocation.app "tcpdump" = false ∧
      hasText invocation.app "objdump" = false ∧
      hasText invocation.app "readelf" = false) ∧
    invocation.succeeds (.llc stage) = true ∧
      invocation.bitcodeReady absent stage

/-- What the linker reads is of this invocation. -/
def inputReady (stage : Stage) : Linker → Prop
  | .clangIbverbs | .clangDl | .clangPcap => invocation.bitcodeReady absent stage
  | .gccPthread | .gcc => invocation.objectReady absent stage

/-- Of these ways to link, the last one first, the first that succeeds has read
a file of this invocation. -/
def linkedBy (stage : Stage) (ways : List Linker) : Prop :=
  ∃ linker,
    ways.find? (fun linker => invocation.succeeds (.link linker stage)) =
      some linker ∧
    invocation.inputReady absent stage linker

/-- The executable that is compared is linked and copied by this invocation,
from its own files. -/
def executableReady (stage : Stage) : Prop :=
  invocation.succeeds (.cpBinary stage) = true ∧
    invocation.linkedBy absent stage (linkers invocation.app stage)

end Invocation

/-! ## The condition in terms of the commands -/

namespace Invocation

variable {invocation : Invocation} {absent : Name → Bool}

@[simp]
theorem upToDateAfter_nil {file : Name} :
    invocation.upToDateAfter absent [] file = false := rfl

/-- The last command that writes a file decides whether it is up to date. -/
theorem upToDateAfter_cons {command : Command} {earlier : List Command}
    {file : Name} :
    invocation.upToDateAfter absent (command :: earlier) file =
      if invocation.succeeds command = true ∧
          file ∈ (command.step invocation.dumped).targets then
        (command.step invocation.dumped).operands.all
            (Source.admitted (invocation.upToDateAfter absent earlier)) &&
          (command.step invocation.dumped).options.all fun option =>
            (absent option &&
              !written ((earlier.filter invocation.succeeds).map
                (Command.step invocation.dumped)) option) ||
              invocation.upToDateAfter absent earlier option
      else invocation.upToDateAfter absent earlier file := by
  by_cases succeeds : invocation.succeeds command = true
  · simp only [upToDateAfter, succeeds, supported, List.filter_cons_of_pos,
      List.map_cons, true_and]
    rfl
  · simp [upToDateAfter, succeeds]

/-- A command writes the file, whatever the interpreter dumps. -/
abbrev Writes (command : Command) (file : Name) : Prop :=
  file ∈ (command.step fun _ => []).targets

theorem mem_targets_iff {command : Command} {file : Name}
    {dumped : KleeRun → List Dump} (named : file.isDump = false) :
    file ∈ (command.step dumped).targets ↔ Writes command file := by
  cases command with
  | klee run =>
      have kept : file ∉ (dumped run).map Name.dump := by
        intro member
        obtain ⟨dump, -, rfl⟩ := List.mem_map.mp member
        cases named
      exact iff_of_false kept List.not_mem_nil
  | _ => rfl

/-- A command that does not write a file leaves it as up to date as it was. -/
theorem upToDateAfter_of_not_writes {command : Command}
    {earlier : List Command} {file : Name} (named : file.isDump = false)
    (kept : ¬ Writes command file) :
    invocation.upToDateAfter absent (command :: earlier) file =
      invocation.upToDateAfter absent earlier file := by
  rw [upToDateAfter_cons, if_neg]
  rintro ⟨-, written⟩
  exact kept ((mem_targets_iff named).mp written)

/-- So do several of them. -/
theorem upToDateAfter_append_of_not_writes {list earlier : List Command}
    {file : Name} (named : file.isDump = false)
    (kept : ∀ command ∈ list, ¬ Writes command file) :
    invocation.upToDateAfter absent (list ++ earlier) file =
      invocation.upToDateAfter absent earlier file := by
  induction list with
  | nil => rfl
  | cons command list inductionHypothesis =>
      rw [List.cons_append,
        upToDateAfter_of_not_writes named (kept command List.mem_cons_self)]
      exact inductionHypothesis fun other member =>
        kept other (List.mem_cons_of_mem command member)

/-- What no command writes is not up to date. -/
theorem upToDateAfter_eq_false {list : List Command} {file : Name}
    (named : file.isDump = false)
    (kept : ∀ command ∈ list, ¬ Writes command file) :
    invocation.upToDateAfter absent list file = false := by
  rw [← List.append_nil list,
    upToDateAfter_append_of_not_writes named kept, upToDateAfter_nil]

/-- What one command alone writes is traced through that command. -/
theorem upToDateAfter_of_writes {command : Command} {earlier : List Command}
    {file : Name} (named : file.isDump = false) (writes : Writes command file)
    (alone : ∀ other ∈ earlier, ¬ Writes other file) :
    invocation.upToDateAfter absent (command :: earlier) file =
      (invocation.succeeds command &&
        ((command.step invocation.dumped).operands.all
            (Source.admitted (invocation.upToDateAfter absent earlier)) &&
          (command.step invocation.dumped).options.all fun option =>
            (absent option &&
              !written ((earlier.filter invocation.succeeds).map
                (Command.step invocation.dumped)) option) ||
              invocation.upToDateAfter absent earlier option)) := by
  rw [upToDateAfter_cons]
  by_cases succeeds : invocation.succeeds command = true
  · rw [if_pos ⟨succeeds, (mem_targets_iff named).mpr writes⟩, succeeds,
      Bool.true_and]
  · rw [if_neg fun written => succeeds written.1,
      upToDateAfter_eq_false named alone, Bool.eq_false_iff.mpr succeeds,
      Bool.false_and]

/-- The commands before constant conversion, the last one first. -/
def interpretation : List Command :=
  [.sed .stringVarsGbls, .sed .stringVarsLcl, .klee .dumpBbs,
    .klee .dumpFile, .neck, .cpBitcode]

/-- The commands up to the constant conversion. -/
def conversion : List Command := .optDebloat :: interpretation

theorem exists_kleeRun {holds : KleeRun → Prop} :
    (∃ run, holds run) ↔ holds .dumpFile ∨ holds .dumpBbs := by
  constructor
  · rintro ⟨run, held⟩
    cases run with
    | dumpFile => exact .inl held
    | dumpBbs => exact .inr held
  · rintro (held | held)
    · exact ⟨.dumpFile, held⟩
    · exact ⟨.dumpBbs, held⟩

/-- The bitcode with the neck is up to date if it was copied and the pass has
run. -/
theorem neck_upToDate_iff :
    invocation.upToDateAfter absent interpretation .neck = true ↔
      invocation.succeeds .neck = true ∧
        invocation.succeeds .cpBitcode = true := by
  simp [interpretation, upToDateAfter_cons, Command.step, Source.admitted]

/-- A dump is written by the run of KLEE that leaves it, or by `sed`. -/
theorem dump_written_iff {dump : Dump} :
    written ((interpretation.filter invocation.succeeds).map
        (Command.step invocation.dumped)) (.dump dump) = true ↔
      (∃ run, invocation.succeeds (.klee run) = true ∧
          dump ∈ invocation.dumped run) ∨
        (dump = .stringVarsLcl ∨ dump = .stringVarsGbls) ∧
          invocation.succeeds (.sed dump) = true := by
  simp [written, interpretation, exists_kleeRun, Command.step]
  grind

/-- Inserting the line changes nothing: what is inserted into has to be of
this invocation. -/
theorem dump_upToDate_iff {dump : Dump}
    (neck : invocation.upToDateAfter absent interpretation .neck = true) :
    invocation.upToDateAfter absent interpretation (.dump dump) = true ↔
      ∃ run, invocation.succeeds (.klee run) = true ∧
        dump ∈ invocation.dumped run := by
  obtain ⟨necked, copied⟩ := neck_upToDate_iff.mp neck
  simp [interpretation, upToDateAfter_cons, exists_kleeRun, Command.step,
    Source.admitted, necked, copied]
  grind

/-- In these terms a dump is ready: it is up to date, or absent before and
after. -/
theorem dumpReady_iff {dump : Dump}
    (neck : invocation.upToDateAfter absent interpretation .neck = true) :
    ((absent (.dump dump) &&
        !written ((interpretation.filter invocation.succeeds).map
          (Command.step invocation.dumped)) (.dump dump)) ||
      invocation.upToDateAfter absent interpretation (.dump dump)) = true ↔
      invocation.dumpReady absent dump := by
  rw [Bool.or_eq_true, Bool.and_eq_true, Bool.not_eq_true',
    dump_upToDate_iff neck, ← Bool.not_eq_true, dump_written_iff, dumpReady]
  constructor
  · rintro (⟨absent, unwritten⟩ | interpreted)
    · exact .inr ⟨absent, fun sed => unwritten (.inr sed)⟩
    · exact .inl interpreted
  · rintro (interpreted | ⟨absent, untouched⟩)
    · exact .inr interpreted
    · by_cases interpreted : ∃ run, invocation.succeeds (.klee run) = true ∧
        dump ∈ invocation.dumped run
      · exact .inr interpreted
      · exact .inl ⟨absent, fun written => written.elim interpreted untouched⟩

/-- The converted bitcode is up to date if the commands to it succeed and the
dumps are ready. -/
theorem cc_upToDate_iff :
    invocation.upToDateAfter absent conversion (.bitcode .cc) = true ↔
      (∀ command ∈ [.cpBitcode, .neck, .optDebloat],
        invocation.succeeds command = true) ∧
        ∀ dump ∈ dumps, invocation.dumpReady absent dump := by
  rw [conversion,
    upToDateAfter_of_writes rfl List.mem_cons_self (by decide)]
  by_cases neck :
      invocation.upToDateAfter absent interpretation .neck = true
  · have ⟨necked, copied⟩ := neck_upToDate_iff.mp neck
    simp [Command.step, Source.admitted, neck, necked, copied,
      ← dumpReady_iff neck]
  · have failed : ¬ (invocation.succeeds .neck = true ∧
        invocation.succeeds .cpBitcode = true) :=
      fun succeeded => neck (neck_upToDate_iff.mpr succeeded)
    simp only [Command.step, List.all_cons, Source.admitted, neck,
      Bool.false_and, Bool.and_false, Bool.false_eq_true, false_iff]
    intro succeeded
    exact failed ⟨succeeded.1 _ (by simp), succeeded.1 _ (by simp)⟩

/-- Every bitcode is traced back through its chain. -/
theorem bitcode_upToDate_iff {stage : Stage} :
    invocation.upToDateAfter absent debloating.reverse (.bitcode stage) = true ↔
      invocation.bitcodeReady absent stage := by
  have reversed : debloating.reverse =
      .optCleanUp :: .optStrip :: .optPropagate :: conversion := rfl
  rw [reversed]
  cases stage with
  | orig =>
      simp (disch := decide) [conversion, interpretation,
        upToDateAfter_of_not_writes, upToDateAfter_of_writes, Command.step,
        Source.admitted, bitcodeReady, Stage.chain]
  | cc =>
      simp (disch := decide) [upToDateAfter_of_not_writes, cc_upToDate_iff,
        bitcodeReady, Stage.chain]
  | cp | ps | cu =>
      simp (disch := decide) [upToDateAfter_of_not_writes,
        upToDateAfter_of_writes, cc_upToDate_iff, Command.step,
        Source.admitted, bitcodeReady, Stage.chain]
      grind

/-! ### The blocks of the generation -/

/-- A block of the script has one command for each stage, which reads one file
and writes another. -/
structure IsBlock (command : Stage → Command) (source target : Stage → Name) :
    Prop where
  reads : ∀ dumped stage,
    ((command stage).step dumped).operands = [.file (source stage)] ∧
      ((command stage).step dumped).options = []
  writes : ∀ dumped stage,
    ((command stage).step dumped).targets = [target stage]
  injective : Function.Injective target
  apart : ∀ stage other, source stage ≠ target other

/-- The calls of `llc` are a block. -/
theorem isBlock_llc : IsBlock .llc .bitcode .object where
  reads _ _ := ⟨rfl, rfl⟩
  writes _ _ := rfl
  injective _ _ := Name.object.inj
  apart _ _ := Name.noConfusion

/-- So are those of one linker. -/
theorem isBlock_link (linker : Linker) :
    IsBlock (.link linker) (fun stage => linker.input stage) .linked where
  reads _ _ := ⟨rfl, rfl⟩
  writes _ _ := rfl
  injective _ _ := Name.linked.inj
  apart _ _ := by cases linker <;> exact Name.noConfusion

section Blocks

variable {command : Stage → Command} {source target : Stage → Name}
  {list : List Stage} {earlier : List Command} {stage : Stage} {flag : Bool}

/-- The commands that a block runs, the last one first. -/
abbrev blockOf (flag : Bool) (list : List Stage) (command : Stage → Command) :
    List Command :=
  (if flag then list.map command else []).reverse

/-- A block leaves the files of another kind alone. -/
theorem upToDateAfter_block_of_not_writes {file : Name}
    (named : file.isDump = false)
    (kept : ∀ stage, ¬ Writes (command stage) file) :
    invocation.upToDateAfter absent (blockOf flag list command ++ earlier) file =
      invocation.upToDateAfter absent earlier file := by
  refine upToDateAfter_append_of_not_writes named fun other member => ?_
  cases flag with
  | false => cases member
  | true =>
      obtain ⟨stage, -, rfl⟩ := List.mem_map.mp (List.mem_reverse.mp member)
      exact kept stage

/-- Behind a block the file of a stage comes from the block, if the stage is in
it and its command succeeds. -/
theorem upToDateAfter_block (block : IsBlock command source target)
    (named : ∀ stage, (source stage).isDump = false) :
    invocation.upToDateAfter absent (blockOf flag list command ++ earlier)
        (target stage) =
      if (flag = true ∧ stage ∈ list) ∧
          invocation.succeeds (command stage) = true then
        invocation.upToDateAfter absent earlier (source stage)
      else invocation.upToDateAfter absent earlier (target stage) := by
  have kept (other stage : Stage) :
      ¬ Writes (command other) (source stage) := by
    rw [Writes, block.writes, List.mem_singleton]
    exact block.apart stage other
  cases flag with
  | false => simp [blockOf]
  | true =>
      induction list using List.reverseRecOn with
      | nil => simp [blockOf]
      | append_singleton list last inductionHypothesis =>
          have shape : blockOf true (list ++ [last]) command =
              command last :: blockOf true list command := by
            simp [blockOf]
          rw [shape, List.cons_append, upToDateAfter_cons,
            (block.reads _ _).1, (block.reads _ _).2, block.writes,
            inductionHypothesis]
          by_cases same : stage = last
          · subst same
            simp only [List.mem_singleton, and_true, List.mem_append,
              or_true, true_and, List.all_cons, List.all_nil, Bool.and_true,
              Source.admitted,
              upToDateAfter_block_of_not_writes (named stage)
                fun other => kept other stage]
            split <;> simp [*]
          · have other : target stage ≠ target last :=
              fun equal => same (block.injective equal)
            simp [other, same]

end Blocks

section Linking

variable {stage : Stage} {earlier : List Command} {list : List Stage}
  {flag : Bool} {ways : List Linker}

/-- A block that links puts its linker in front of the others. -/
theorem linked_upToDate_iff {linker : Linker}
    (input : invocation.upToDateAfter absent earlier (linker.input stage) =
      true ↔ invocation.inputReady absent stage linker)
    (behind : invocation.upToDateAfter absent earlier (.linked stage) = true ↔
      invocation.linkedBy absent stage ways) :
    invocation.upToDateAfter absent
        (blockOf flag list (.link linker) ++ earlier) (.linked stage) = true ↔
      invocation.linkedBy absent stage
        ((if flag && decide (stage ∈ list) then [linker] else []) ++ ways) := by
  rw [upToDateAfter_block (isBlock_link linker)
    fun _ => by cases linker <;> rfl]
  by_cases inside : flag = true ∧ stage ∈ list
  · have chosen : (flag && decide (stage ∈ list)) = true := by
      simpa using inside
    rw [if_pos chosen]
    by_cases succeeds : invocation.succeeds (.link linker stage) = true
    · rw [if_pos ⟨inside, succeeds⟩, input]
      simp [linkedBy, succeeds]
    · rw [if_neg fun both => succeeds both.2, behind]
      simp [linkedBy, succeeds]
  · have passed : (flag && decide (stage ∈ list)) = false := by
      simpa using inside
    rw [if_neg fun both => inside both.1, behind, passed]
    simp

end Linking

/-! ### All the blocks -/

section Through

variable {stage : Stage} {earlier : List Command} {list : List Stage}
  {flag : Bool} {linker : Linker}

theorem bitcode_behind_link :
    invocation.upToDateAfter absent
        (blockOf flag list (.link linker) ++ earlier) (.bitcode stage) =
      invocation.upToDateAfter absent earlier (.bitcode stage) :=
  upToDateAfter_block_of_not_writes rfl fun _ => by simp [Writes, Command.step]

theorem bitcode_behind_llc :
    invocation.upToDateAfter absent (blockOf flag list .llc ++ earlier)
        (.bitcode stage) =
      invocation.upToDateAfter absent earlier (.bitcode stage) :=
  upToDateAfter_block_of_not_writes rfl fun _ => by simp [Writes, Command.step]

theorem object_behind_link :
    invocation.upToDateAfter absent
        (blockOf flag list (.link linker) ++ earlier) (.object stage) =
      invocation.upToDateAfter absent earlier (.object stage) :=
  upToDateAfter_block_of_not_writes rfl fun _ => by simp [Writes, Command.step]

theorem linked_behind_llc :
    invocation.upToDateAfter absent (blockOf flag list .llc ++ earlier)
        (.linked stage) =
      invocation.upToDateAfter absent earlier (.linked stage) :=
  upToDateAfter_block_of_not_writes rfl fun _ => by simp [Writes, Command.step]

/-- Nothing is linked and no object file is written before the generation. -/
theorem debloating_upToDate_eq_false {file : Name} (named : file.isDump = false)
    (behind : (∃ stage, file = .linked stage) ∨ ∃ stage, file = .object stage) :
    invocation.upToDateAfter absent debloating.reverse file = false := by
  refine upToDateAfter_eq_false named ?_
  rcases behind with ⟨stage, rfl⟩ | ⟨stage, rfl⟩ <;>
    simp [debloating, Writes, Command.step]

end Through

/-- The blocks of the script, the last command first. -/
theorem reverse_commands (app : Word) :
    (commands app).reverse =
      blockOf (hasText app "knockd") stages (.link .clangPcap) ++
        (blockOf (!hasText app "sort" && !hasText app "tcpdump" &&
            !(hasText app "objdump" || hasText app "readelf"))
            stages (.link .gcc) ++
          (blockOf (hasText app "sort") [.orig, .cc, .cp, .ps]
              (.link .gccPthread) ++
            (blockOf (!hasText app "tcpdump" &&
                !(hasText app "objdump" || hasText app "readelf"))
                stages .llc ++
              (blockOf (hasText app "objdump" || hasText app "readelf")
                  stages (.link .clangDl) ++
                (blockOf (hasText app "tcpdump") stages (.link .clangIbverbs) ++
                  debloating.reverse))))) := by
  simp [commands, generation, blockOf]

theorem mem_stages (stage : Stage) : stage ∈ stages := by
  cases stage <;> decide

/-- An object is up to date if its `llc` was called and has succeeded, and its
bitcode is. -/
theorem object_upToDate_iff {stage : Stage} :
    invocation.upToDateAfter absent
        (blockOf (!hasText invocation.app "tcpdump" &&
            !(hasText invocation.app "objdump" ||
              hasText invocation.app "readelf")) stages .llc ++
          (blockOf (hasText invocation.app "objdump" ||
              hasText invocation.app "readelf") stages (.link .clangDl) ++
            (blockOf (hasText invocation.app "tcpdump") stages
                (.link .clangIbverbs) ++
              debloating.reverse))) (.object stage) = true ↔
      invocation.objectReady absent stage := by
  rw [upToDateAfter_block isBlock_llc fun _ => rfl, bitcode_behind_link,
    bitcode_behind_link, object_behind_link, object_behind_link,
    debloating_upToDate_eq_false rfl (.inr ⟨stage, rfl⟩)]
  simp [objectReady, ← bitcode_upToDate_iff, mem_stages]
  grind

/-- The ways to link, as the blocks have them. -/
theorem linkers_eq (app : Word) (stage : Stage) :
    linkers app stage =
      (if hasText app "knockd" && decide (stage ∈ stages) then
          [.clangPcap] else []) ++
        ((if (!hasText app "sort" && !hasText app "tcpdump" &&
                !(hasText app "objdump" || hasText app "readelf")) &&
              decide (stage ∈ stages) then [.gcc] else []) ++
          ((if hasText app "sort" &&
                decide (stage ∈ [Stage.orig, .cc, .cp, .ps]) then
              [.gccPthread] else []) ++
            ((if (hasText app "objdump" || hasText app "readelf") &&
                  decide (stage ∈ stages) then [.clangDl] else []) ++
              ((if hasText app "tcpdump" && decide (stage ∈ stages) then
                  [.clangIbverbs] else []) ++ [])))) := by
  cases stage <;> simp [linkers, stages]

/-- The executable is traced back through the blocks. -/
theorem linked_upToDate_iff_linkers {stage : Stage} :
    invocation.upToDateAfter absent (commands invocation.app).reverse
        (.linked stage) = true ↔
      invocation.linkedBy absent stage (linkers invocation.app stage) := by
  have nothing : invocation.upToDateAfter absent debloating.reverse
      (.linked stage) = true ↔ invocation.linkedBy absent stage [] := by
    rw [debloating_upToDate_eq_false rfl (.inl ⟨stage, rfl⟩)]
    simp [linkedBy]
  rw [linkers_eq, reverse_commands]
  refine linked_upToDate_iff ?bitcodePcap
    (linked_upToDate_iff ?object (linked_upToDate_iff ?objectPthread ?clang))
  case clang =>
    rw [linked_behind_llc]
    exact linked_upToDate_iff
      (by rw [Linker.input, bitcode_behind_link]; exact bitcode_upToDate_iff)
      (linked_upToDate_iff bitcode_upToDate_iff nothing)
  case objectPthread => exact object_upToDate_iff
  case object =>
    rw [Linker.input, object_behind_link]
    exact object_upToDate_iff
  case bitcodePcap =>
    rw [Linker.input, bitcode_behind_link, bitcode_behind_link,
      bitcode_behind_llc, bitcode_behind_link, bitcode_behind_link]
    exact bitcode_upToDate_iff

/-- No command before the verification writes what is compared. -/
theorem commands_not_writes_compared {app : Word} {stage : Stage} :
    ∀ command ∈ (commands app).reverse, ¬ Writes command (.compared stage) := by
  intro command member writes
  have copies : command = .cpBinary stage := by
    cases command <;> simp_all [Writes, Command.step]
  subst copies
  rw [reverse_commands] at member
  simp [blockOf, debloating] at member

/-- The copy that is compared is as up to date as the executable. -/
theorem copied_upToDate {earlier : List Command} {stage : Stage}
    (alone : ∀ command ∈ earlier, ¬ Writes command (.compared stage)) :
    invocation.upToDateAfter absent (.cpBinary stage :: earlier)
        (.compared stage) =
      (invocation.succeeds (.cpBinary stage) &&
        invocation.upToDateAfter absent earlier (.linked stage)) := by
  rw [upToDateAfter_of_writes rfl List.mem_cons_self alone]
  simp [Command.step, Source.admitted]

/-- The trace of an executable that is compared ends in the inputs exactly if
it is ready. -/
theorem upToDate_iff {workspace : Workspace} {stage : Stage}
    (collected : stage = .orig ∨ stage = .cu) :
    invocation.upToDate workspace stage = true ↔
      invocation.executableReady
        (fun file => (workspace invocation.app file).isMissing) stage := by
  have copied : invocation.upToDate workspace stage =
      (invocation.succeeds (.cpBinary stage) &&
        invocation.upToDateAfter
          (fun file => (workspace invocation.app file).isMissing)
          (commands invocation.app).reverse (.linked stage)) := by
    rw [upToDate, List.reverse_append]
    rcases collected with rfl | rfl
    · exact (upToDateAfter_of_not_writes rfl (by decide)).trans
        (copied_upToDate commands_not_writes_compared)
    · refine (copied_upToDate fun command member => ?_).trans
        (congrArg _ (upToDateAfter_of_not_writes rfl (by decide)))
      rcases List.mem_cons.mp member with rfl | earlier
      · decide
      · exact commands_not_writes_compared command earlier
  rw [copied, Bool.and_eq_true, linked_upToDate_iff_linkers, executableReady]

/-- A name with none of the texts the script looks for: every command on the
way has to succeed. -/
theorem executableReady_iff_of_plain {stage : Stage}
    (plain : ∀ text ∈ ["tcpdump", "objdump", "readelf", "sort", "knockd"],
      hasText invocation.app text = false) :
    invocation.executableReady absent stage ↔
      (∀ command ∈ stage.chain ++
          [.llc stage, .link .gcc stage, .cpBinary stage],
        invocation.succeeds command = true) ∧
        (stage ≠ .orig → ∀ dump ∈ dumps, invocation.dumpReady absent dump) := by
  have ways : linkers invocation.app stage = [.gcc] := by
    simp [linkers, plain]
  have object : invocation.objectReady absent stage ↔
      invocation.succeeds (.llc stage) = true ∧
        invocation.bitcodeReady absent stage := by
    simp [objectReady, plain]
  rw [executableReady, linkedBy, ways]
  simp only [List.find?_singleton, Option.ite_none_right_eq_some,
    Option.some.injEq, bitcodeReady, List.forall_mem_append,
    List.forall_mem_cons] at object ⊢
  constructor
  · rintro ⟨copied, linker, ⟨linked, rfl⟩, ready⟩
    obtain ⟨compiled, chain, dumped⟩ := object.mp ready
    exact ⟨⟨chain, compiled, linked, copied, by simp⟩, dumped⟩
  · rintro ⟨⟨chain, compiled, linked, copied, -⟩, dumped⟩
    exact ⟨copied, .gcc, ⟨linked, rfl⟩, object.mpr ⟨compiled, chain, dumped⟩⟩

end Invocation

/-- The files of the program that are not there when the last invocation
begins. -/
def absentIn (invocation : Invocation) (initial : Word → Name → Bool)
    (history : List Invocation) (file : Name) : Bool :=
  (after initial history invocation.app file).isMissing

/-- In every history the executables that are compared are of the invocation
that compares them exactly if both are ready. -/
theorem pipeline_verified_iff (initial : Word → Name → Bool)
    (benchmark : Word → Bool) (history : List Invocation)
    (invocation : Invocation)
    (reaches : invocation.reachesVerify benchmark history.length
      (after initial history) = true) :
    (FromRun history.length
        (invocation.verified history.length (after initial history) .orig) ∧
      FromRun history.length
        (invocation.verified history.length (after initial history) .cu)) ↔
      invocation.executableReady (absentIn invocation initial history) .orig ∧
        invocation.executableReady (absentIn invocation initial history) .cu := by
  have before := after_before initial history
  rw [Invocation.verified_fromRun_iff before reaches,
    Invocation.verified_fromRun_iff before reaches,
    Invocation.upToDate_iff (.inl rfl), Invocation.upToDate_iff (.inr rfl)]
  rfl

/-- `wc` with `-l`, where the interpreter writes every dump if it succeeds. -/
def countLines (succeeds : Command → Bool) : Invocation where
  file := "bitcode/wc.bc".toList
  args := "-l".toList
  succeeds := succeeds
  dumped
    | .dumpFile => dumps.dropLast
    | .dumpBbs => [.bbs]

/-- The runs of KLEE. -/
def isKlee : Command → Bool
  | .klee _ => true
  | _ => false

theorem countLines_app {succeeds : Command → Bool} :
    (countLines succeeds).app = "wc".toList := by
  have base : appOf "bitcode/wc.bc".toList = "wc".toList := by decide +kernel
  exact base

/-- Where all commands succeed every executable is ready. -/
theorem countLines_ready {absent : Name → Bool} {stage : Stage} :
    (countLines fun _ => true).executableReady absent stage := by
  have bitcode : (countLines fun _ => true).bitcodeReady absent stage := by
    refine ⟨fun _ _ => rfl, fun _ dump _ => .inl ?_⟩
    cases dump with
    | bbs => exact ⟨.dumpBbs, rfl, by decide⟩
    | _ => exact ⟨.dumpFile, rfl, by decide⟩
  have object : (countLines fun _ => true).objectReady absent stage := by
    unfold Invocation.objectReady
    rw [countLines_app]
    exact ⟨by decide +kernel, rfl, bitcode⟩
  have ways : linkers (countLines fun _ => true).app stage = [.gcc] := by
    rw [countLines_app]
    cases stage <;> decide +kernel
  refine ⟨rfl, .gcc, ?_, object⟩
  rw [ways]
  rfl

/-- The second of two runs that succeed, with the dumps of the first still
there. -/
theorem pipeline_verified_iff_twice :
    FromRun 1 ((countLines fun _ => true).verified 1
        (after (fun _ _ => false) [countLines fun _ => true]) .orig) ∧
      FromRun 1 ((countLines fun _ => true).verified 1
        (after (fun _ _ => false) [countLines fun _ => true]) .cu) :=
  (pipeline_verified_iff (fun _ _ => false) (· == "wc".toList)
    [countLines fun _ => true] (countLines fun _ => true)
    (by decide +kernel)).mpr
    ⟨countLines_ready, countLines_ready⟩

/-- The interpreter fails the second time: the executable that is compared is
made from the dumps of the first. -/
theorem pipeline_stale_dumps :
    (countLines fun command => !isKlee command).reachesVerify
        (· == "wc".toList) 1
        (after (fun _ _ => false) [countLines fun _ => true]) = true ∧
      ¬ FromRun 1 ((countLines fun command => !isKlee command).verified 1
        (after (fun _ _ => false) [countLines fun _ => true]) .cu) := by
  have before := after_before (fun _ _ => false) [countLines fun _ => true]
  have reaches : (countLines fun command => !isKlee command).reachesVerify
      (· == "wc".toList) 1
      (after (fun _ _ => false) [countLines fun _ => true]) = true := by
    decide +kernel
  refine ⟨reaches, fun fromRun => ?_⟩
  have upToDate :=
    (Invocation.verified_fromRun_iff before reaches .cu).mp fromRun
  exact absurd upToDate (by decide +kernel)

end Lmcas.Pipeline
