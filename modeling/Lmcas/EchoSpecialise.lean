import Lmcas.Echo

/-!
# Specialising `echo`

`main` cut at its neck, for options that use up all words.  The words that
stand behind the options in the whole run may send the scan to `just_echo` by
the loop condition or by a jump round the neck, and the variables behind the
label are the same in both cases.
-/

namespace Lmcas.Echo

open Lmcas.Lib.CString
open Lmcas.Lib.Neck

/-! ## Cutting at the neck -/

/-- What a run shows: the message it ends with, or the characters it writes
and its status. -/
inductive Outcome where
  | usage
  | version
  | finished (stdout : List Char) (status : Nat)
deriving DecidableEq, Repr

/-- The character that an event writes. -/
def Event.written : Event → Option Char
  | .putchar c => some c
  | _ => none

/-- What a run shows to its user. -/
def Run.outcome : Run → Outcome
  | .usage => .usage
  | .version => .version
  | .returned events status =>
      .finished (events.filterMap Event.written) status

/-- `main` from the neck on. -/
def resume (vars : Vars) : Outcome :=
  .finished (justEcho vars) 0

/-- The option loop as `main` enters it. -/
def scan (posixlyCorrect : Bool) (args : List Word) : Scanned :=
  let vars : Vars := ⟨args, true, false, posixlyCorrect⟩
  if allowOptions posixlyCorrect args then scanOptions vars args
  else ⟨[], vars, false⟩

/-- `main`, cut at its neck.  A run that jumps to `just_echo` is over without
having come to the neck. -/
def program (posixlyCorrect : Bool) : Staged (List Word) Vars Outcome where
  configure args :=
    if allowOptions posixlyCorrect args && args == ["--help".toList] then
      .error .usage
    else if allowOptions posixlyCorrect args &&
        args == ["--version".toList] then
      .error .version
    else if (scan posixlyCorrect args).jumped then
      .error (resume (scan posixlyCorrect args).vars)
    else .ok (scan posixlyCorrect args).vars
  resume := resume

/-- Reading options writes nothing. -/
theorem filterMap_written_of_options {events : List Event}
    (options : ∀ event ∈ events, ∃ word, event = .option word) :
    events.filterMap Event.written = [] := by
  rw [List.filterMap_eq_nil_iff]
  intro event member
  rcases options event member with ⟨word, rfl⟩
  rfl

/-- What is put is written. -/
theorem filterMap_written_putchar (chars : List Char) :
    (chars.map Event.putchar).filterMap Event.written = chars := by
  rw [List.filterMap_map]
  exact List.filterMap_some

/-- Up to the neck only options are read. -/
theorem scan_events (posixlyCorrect : Bool) (args : List Word) :
    ∀ event ∈ (scan posixlyCorrect args).events,
      ∃ word, event = .option word := by
  unfold scan
  dsimp only
  split
  · exact scanOptions_events _ args
  · intro event member
    cases member

/-- What a run writes comes from the part behind the neck, on both ways to
it. -/
theorem outcome_returned {scanned : Scanned}
    (options : ∀ event ∈ scanned.events, ∃ word, event = .option word) :
    (Run.returned
      (scanned.events ++
        (if scanned.jumped then [] else [.kleeDumpMemory]) ++
        (justEcho scanned.vars).map .putchar) 0).outcome =
      resume scanned.vars := by
  have written := filterMap_written_of_options options
  have neck : (if scanned.jumped then [] else [.kleeDumpMemory] :
      List Event).filterMap Event.written = [] := by
    cases scanned.jumped <;> rfl
  simp only [Run.outcome, List.filterMap_append, written, neck,
    filterMap_written_putchar, List.nil_append, resume]

/-- The program cut at its neck shows what `main` shows. -/
theorem outcome_main (posixlyCorrect : Bool) (args : List Word) :
    (main posixlyCorrect args).outcome =
      (program posixlyCorrect).full args := by
  have returned := outcome_returned (scan_events posixlyCorrect args)
  unfold main Staged.full program
  dsimp only
  split
  · rfl
  split
  · rfl
  refine Eq.trans returned ?_
  cases (scan posixlyCorrect args).jumped <;> rfl

/-! ## Words behind the options -/

/-- The scan stops at a word that is no option word. -/
theorem scanOptions_vars_of_stop (vars : Vars) {words : List Word}
    (stop : ∀ word ∈ words.head?, isOptionWord word = false) :
    (scanOptions vars words).vars = { vars with args := words } := by
  cases words with
  | nil => rfl
  | cons word rest =>
      have refused := stop word rfl
      unfold isOptionWord at refused
      unfold scanOptions
      split at refused
      · rw [if_neg (Bool.eq_false_iff.mp refused)]
      · rfl

/-- The letters of an option leave the words alone. -/
theorem foldl_handleLetter_args (letters : Word) (vars : Vars)
    (args : List Word) :
    letters.foldl handleLetter { vars with args := args } =
      { letters.foldl handleLetter vars with args := args } := by
  induction letters generalizing vars with
  | nil => rfl
  | cons letter rest inductionHypothesis =>
      have same : handleLetter { vars with args := args } letter =
          { handleLetter vars letter with args := args } := by
        unfold handleLetter
        split <;> rfl
      rw [List.foldl_cons, List.foldl_cons, same, inductionHypothesis]

/-- The scan does not read the words from the variables. -/
theorem scanOptions_args (vars : Vars) (args words : List Word) :
    scanOptions { vars with args := args } words =
      scanOptions vars words := by
  induction words generalizing vars with
  | nil => rfl
  | cons word rest inductionHypothesis =>
      unfold scanOptions
      split
      · simp only [foldl_handleLetter_args, inductionHypothesis]
      · rfl

/-- An option word is handled, whatever stands behind it. -/
theorem scanOptions_of_option (vars : Vars) {word : Word}
    (option : isOptionWord word = true) :
    ∃ handled : Vars, ∀ rest,
      (scanOptions vars (word :: rest)).vars =
          (scanOptions handled rest).vars ∧
        (scanOptions vars (word :: rest)).jumped =
          (scanOptions handled rest).jumped := by
  unfold isOptionWord at option
  split at option
  · rename_i temp
    refine ⟨temp.foldl handleLetter vars, fun rest => ?_⟩
    simp only [scanOptions, if_pos option, and_self]
  · cases option

/-- Words behind option words are left over where the scan stops at the
first of them. -/
theorem scanOptions_append {vars : Vars} {options words : List Word}
    (consumed : (scanOptions vars options).vars.args = [])
    (stop : ∀ word ∈ words.head?, isOptionWord word = false) :
    (scanOptions vars (options ++ words)).vars =
      { (scanOptions vars options).vars with args := words } := by
  induction options generalizing vars with
  | nil => exact scanOptions_vars_of_stop vars stop
  | cons word rest inductionHypothesis =>
      cases option : isOptionWord word with
      | true =>
          rcases scanOptions_of_option vars option with ⟨handled, same⟩
          rw [(same rest).1] at consumed ⊢
          rw [List.cons_append, (same (rest ++ words)).1]
          exact inductionHypothesis consumed
      | false =>
          have here : ∀ first ∈ (word :: rest).head?,
              isOptionWord first = false := by
            intro first equal
            cases equal
            exact option
          rw [scanOptions_vars_of_stop vars here] at consumed
          cases consumed

/-! ## The neck -/

/-- `argc` and `argv` present other words. -/
def Presents (words : List Word) (neck resumed : Vars) : Prop :=
  resumed = { neck with args := words }

/-- `main` prints a message for its only word. -/
def printsMessage (posixlyCorrect : Bool) (args : List Word) : Prop :=
  allowOptions posixlyCorrect args = true ∧
    (args = ["--help".toList] ∨ args = ["--version".toList])

/-- A run that reaches the neck prints no message and is there in the scanned
state. -/
theorem scan_of_reaches {posixlyCorrect : Bool} {args : List Word}
    {neck : Vars} (reached : (program posixlyCorrect).Reaches args neck) :
    ¬ printsMessage posixlyCorrect args ∧
      (scan posixlyCorrect args).vars = neck := by
  simp only [Staged.Reaches, program, Bool.and_eq_true, beq_iff_eq]
    at reached
  split at reached
  · cases reached
  split at reached
  · cases reached
  split at reached
  · cases reached
  rename_i noHelp noVersion _
  refine ⟨?_, Except.ok.inj reached⟩
  rintro ⟨allowed, help | version⟩
  · exact noHelp ⟨allowed, help⟩
  · exact noVersion ⟨allowed, version⟩

/-- A run without a message goes on from the scanned state. -/
theorem full_of_scan {posixlyCorrect : Bool} {args : List Word}
    (noMessage : ¬ printsMessage posixlyCorrect args) :
    (program posixlyCorrect).full args =
      resume (scan posixlyCorrect args).vars := by
  have noHelp : ¬ (allowOptions posixlyCorrect args = true ∧
      args = ["--help".toList]) :=
    fun help => noMessage ⟨help.1, Or.inl help.2⟩
  have noVersion : ¬ (allowOptions posixlyCorrect args = true ∧
      args = ["--version".toList]) :=
    fun version => noMessage ⟨version.1, Or.inr version.2⟩
  simp only [Staged.full, program, Bool.and_eq_true, beq_iff_eq,
    if_neg noHelp, if_neg noVersion]
  cases (scan posixlyCorrect args).jumped <;> rfl

/-- Where the neck is reached without a word left over, options were
allowed, and none of the words was left in front of the neck. -/
theorem allowed_of_consumed {posixlyCorrect : Bool} {options : List Word}
    (nonempty : options ≠ [])
    (consumed : (scan posixlyCorrect options).vars.args = []) :
    allowOptions posixlyCorrect options = true := by
  cases allowed : allowOptions posixlyCorrect options with
  | true => rfl
  | false =>
      have untouched : (scan posixlyCorrect options).vars.args = options := by
        simp [scan, allowed]
      exact absurd (untouched.symm.trans consumed) nonempty

/-- Whether options are allowed depends on the first word. -/
theorem allowOptions_append {posixlyCorrect : Bool} {options : List Word}
    (nonempty : options ≠ []) (words : List Word) :
    allowOptions posixlyCorrect (options ++ words) =
      allowOptions posixlyCorrect options := by
  rw [allowOptions, allowOptions, List.head?_append_of_ne_nil _ nonempty]

/-- More words do not make a message out of none. -/
theorem ne_singleton_of_append {options words : List Word} {word : Word}
    (nonempty : options ≠ []) (distinct : options ≠ [word]) :
    options ++ words ≠ [word] := by
  intro equal
  rcases options with _ | ⟨first, rest⟩
  · exact nonempty rfl
  · injection equal with here nothing
    rw [here, (List.append_eq_nil_iff.mp nothing).1] at distinct
    exact distinct rfl

/-- Options that print no message print none in front of other words. -/
theorem not_printsMessage_append {posixlyCorrect : Bool}
    {options : List Word} (nonempty : options ≠ [])
    (noMessage : ¬ printsMessage posixlyCorrect options)
    (words : List Word) :
    ¬ printsMessage posixlyCorrect (options ++ words) := by
  rintro ⟨allowed, message⟩
  rw [allowOptions_append nonempty] at allowed
  rcases message with help | version
  · exact ne_singleton_of_append nonempty
      (fun help => noMessage ⟨allowed, Or.inl help⟩) help
  · exact ne_singleton_of_append nonempty
      (fun version => noMessage ⟨allowed, Or.inr version⟩) version

/--
Specialising `echo` on option words is sound for all words behind them, if
the first of these is no option word itself.
-/
theorem echo_soundAt {posixlyCorrect : Bool} {options words : List Word}
    {neck : Vars} (nonempty : options ≠ [])
    (reached : (program posixlyCorrect).Reaches options neck)
    (consumed : neck.args = [])
    (stop : ∀ word ∈ words.head?, isOptionWord word = false) :
    (program posixlyCorrect).SoundAt (Presents words) options
      (options ++ words) := by
  rcases scan_of_reaches reached with ⟨noMessage, scanned⟩
  rw [← scanned] at consumed
  have allowed := allowed_of_consumed nonempty consumed
  have allowed' : allowOptions posixlyCorrect (options ++ words) = true :=
    (allowOptions_append nonempty words).trans allowed
  have left : (scan posixlyCorrect (options ++ words)).vars =
      { neck with args := words } := by
    rw [← scanned]
    simp only [scan, if_pos allowed, if_pos allowed'] at consumed ⊢
    have start := scanOptions_args ⟨options, true, false, posixlyCorrect⟩
      (options ++ words) (options ++ words)
    exact (congrArg Scanned.vars start).trans
      (scanOptions_append consumed stop)
  rw [Staged.soundAt_iff_of_reaches reached]
  rintro resumed rfl
  rw [full_of_scan (not_printsMessage_append nonempty noMessage words), left]
  rfl

/-- `echo -n -e` with the words `-x` and `-n`, where the whole run jumps. -/
theorem echo_soundAt_dash_x :
    (program false).SoundAt (Presents ["-x".toList, "-n".toList])
      ["-ne".toList] ["-ne".toList, "-x".toList, "-n".toList] := by
  have reached : (program false).Reaches ["-ne".toList]
      ⟨[], false, true, false⟩ := rfl
  exact echo_soundAt (List.cons_ne_nil _ _) reached rfl (by decide)

end Lmcas.Echo
