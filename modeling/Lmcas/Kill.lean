import Lmcas.Lib.GetoptCalls
import Lmcas.Lib.Neck
import Lmcas.System

/-!
# `kill`

The annotated `main` of `kill`.  A digit option that does not come from the
first word is taken for a negative process id: the loop steps `optind` back
and jumps to `no_more_options`, past `klee_dump_memory`.

`operand2sig` is a parameter.  It turns the name or number of a signal into
its number and returns a negative number for everything else.
-/

namespace Lmcas.Kill

open Lmcas.Lib.CString
open Lmcas.Lib.Getopt
open Lmcas.Lib.Iteration
open Lmcas.Lib.Neck
open Lmcas.Lib.OptionLoop
open Lmcas.System

/-- `short_options[]`: every digit and most capital letters, so that `-9` and
`-HUP` are read as options. -/
def shortOptions : Word :=
  "0::1::2::3::4::5::6::7::8::9::".toList ++
    "A::B::C::D::E::F::G::H::I::J::K::M::".toList ++
    "N::O::P::Q::R::S::T::U::V::W::X::Y::Z::".toList ++
    "Lln:s:t".toList

/-- `long_options[]`. -/
def longOptions : List LongOption :=
  [⟨"list".toList, .no, .char 'l'⟩,
    ⟨"signal".toList, .required, .char 's'⟩,
    ⟨"table".toList, .no, .char 't'⟩,
    getoptHelpOptionDecl,
    getoptVersionOptionDecl]

/-- How `main` calls `getopt_long`. -/
def optionConfig (posixlyCorrect : Bool) : Config :=
  getoptInitialize shortOptions longOptions posixlyCorrect

/-- `SIGTERM`, the signal that is sent by default. -/
def sigterm : Int := 15

/-! ## The option loop -/

/-- The local variables of `main` that the options set; `signum` is -1 until
then. -/
structure Vars where
  list : Bool
  table : Bool
  signum : Int
deriving DecidableEq, Repr

/-- The loop's state: the scan, the variables, and whether the loop has been
left by `goto no_more_options`. -/
structure Options where
  scan : State
  vars : Vars
  jumped : Bool
deriving DecidableEq, Repr

/-- The cases `'n'` and `'s'`, with the text of `optarg`. -/
def setSignal (operand2sig : Word → Int) (optarg : Word) (vars : Vars) :
    Except Early Vars :=
  if 0 ≤ vars.signum then .error (.usage exitFailure)
  else if operand2sig optarg < 0 then .error (.usage exitFailure)
  else .ok { vars with signum := operand2sig optarg }

/-- The case `'l'`. -/
def setList (vars : Vars) : Except Early Vars :=
  if vars.list then .error (.usage exitFailure)
  else .ok { vars with list := true }

/-- The cases `-SIGNAL`: the argument must start at the third character of
the word just read, and `optarg--` takes the option letter in again. -/
def signalText (scan : State) : Option Word :=
  let word := scan.argv[scan.optind - 1]?
  let optarg : Option CStr :=
    match scan.optarg with
    | some pointer => some pointer
    | none => word.map fun obj => obj.ptr.add obj.chars.length
  if optarg = word.map (fun obj => obj.ptr.add 2) then
    optarg.map (·.pred.text)
  else none

/-- The digits and letters that stand for a signal. -/
def isSignalLetter (optc : Char) : Bool :=
  optc.isDigit || (optc.isUpper && optc != 'L')

/-- The cases of the `switch` behind the test of `optind`. -/
def handle (operand2sig : Word → Int) (optc : Char) (scan : State)
    (vars : Vars) : Except Early Vars :=
  if isSignalLetter optc then
    match signalText scan with
    | none => .error (.usage exitFailure)
    | some text => setSignal operand2sig text vars
  else
    match optc with
    | 'n' | 's' =>
        setSignal operand2sig ((scan.optarg.map CStr.text).getD []) vars
    | 'L' | 't' => setList { vars with table := true }
    | 'l' => setList vars
    | _ => .error (.usage exitFailure)

/-- The option is a digit and does not come from the first word. -/
def isProcessId (ret : Ret) (scan : State) : Bool :=
  match ret with
  | .val (.char optc) => optc.isDigit && scan.optind != 2
  | _ => false

/-- A turn of the loop; where the word may be a process it jumps out. -/
def optionsBody (operand2sig : Word → Int) (config : Config)
    (options : Options) : Turn Options Early :=
  match getoptLong config options.scan with
  | (.eof, scan) => .leave { options with scan := scan }
  | (ret, scan) =>
      if isProcessId ret scan then
        .leave
          { options with
            scan := { scan with optind := scan.optind - 1 }
            jumped := true }
      else
        match ret with
        | .val (.char optc) =>
            match handle operand2sig optc scan options.vars with
            | .ok vars => .again { options with scan := scan, vars := vars }
            | .error early => .exit early
        | ret => .exit (endingCase exitFailure ret)

variable {operand2sig : Word → Int} {config : Config}

/-- Everything one turn can do. -/
theorem optionsBody_cases (options : Options) :
    ((getoptLong config options.scan).1 = .eof ∧
      optionsBody operand2sig config options =
        .leave
          { options with scan := (getoptLong config options.scan).2 }) ∨
    ((getoptLong config options.scan).1 ≠ .eof ∧
      isProcessId (getoptLong config options.scan).1
        (getoptLong config options.scan).2 = true ∧
      optionsBody operand2sig config options =
        .leave
          { options with
            scan :=
              { (getoptLong config options.scan).2 with
                optind :=
                  (getoptLong config options.scan).2.optind - 1 }
            jumped := true }) ∨
    (∃ optc vars,
      (getoptLong config options.scan).1 = .val (.char optc) ∧
      isProcessId (getoptLong config options.scan).1
        (getoptLong config options.scan).2 = false ∧
      handle operand2sig optc (getoptLong config options.scan).2
        options.vars = .ok vars ∧
      optionsBody operand2sig config options =
        .again
          { options with
            scan := (getoptLong config options.scan).2
            vars := vars }) ∨
    (∃ early, optionsBody operand2sig config options = .exit early) := by
  unfold optionsBody
  rcases getoptLong config options.scan with ⟨ret, scan⟩
  cases ret with
  | eof => exact Or.inl ⟨rfl, rfl⟩
  | nonopt => exact Or.inr (Or.inr (Or.inr ⟨_, rfl⟩))
  | unrecognized => exact Or.inr (Or.inr (Or.inr ⟨_, rfl⟩))
  | val value =>
      refine Or.inr ?_
      by_cases processId : isProcessId (.val value) scan
      · exact Or.inl ⟨nofun, processId, by simp only [if_pos processId]⟩
      · refine Or.inr ?_
        have option : isProcessId (.val value) scan = false :=
          Bool.eq_false_iff.mpr processId
        simp only [option, Bool.false_eq_true, if_false]
        cases value with
        | enum value => exact Or.inr ⟨_, rfl⟩
        | char optc =>
            rcases handled :
                handle operand2sig optc scan options.vars with early | vars
            · exact Or.inr ⟨early, by simp only [handled]⟩
            · exact Or.inl ⟨optc, vars, rfl, trivial, handled,
                by simp only [handled]⟩

/-- What a turn that goes on has done. -/
theorem again_cases {options next : Options}
    (turn : optionsBody operand2sig config options = .again next) :
    ∃ optc,
      (getoptLong config options.scan).1 = .val (.char optc) ∧
      isProcessId (getoptLong config options.scan).1
        (getoptLong config options.scan).2 = false ∧
      handle operand2sig optc (getoptLong config options.scan).2
        options.vars = .ok next.vars ∧
      next.scan = (getoptLong config options.scan).2 ∧
      next.jumped = options.jumped := by
  rcases @optionsBody_cases operand2sig config options with
    ⟨_, turn'⟩ | ⟨_, _, turn'⟩ |
      ⟨optc, vars, ret, option, handled, turn'⟩ | ⟨_, turn'⟩
  · exact nomatch turn.symm.trans turn'
  · exact nomatch turn.symm.trans turn'
  · cases turn.symm.trans turn'
    exact ⟨optc, ret, option, handled, rfl, rfl⟩
  · exact nomatch turn.symm.trans turn'

/-- What a turn that leaves the loop has done: `getopt_long` is at its end, or
the word is that of a process. -/
theorem leave_cases {options final : Options}
    (turn : optionsBody operand2sig config options = .leave final) :
    ((getoptLong config options.scan).1 = .eof ∧
      final =
        { options with scan := (getoptLong config options.scan).2 }) ∨
    ((getoptLong config options.scan).1 ≠ .eof ∧
      isProcessId (getoptLong config options.scan).1
        (getoptLong config options.scan).2 = true ∧
      final.jumped = true) := by
  rcases @optionsBody_cases operand2sig config options with
    ⟨eof, turn'⟩ | ⟨notEof, processId, turn'⟩ | ⟨_, _, _, _, _, turn'⟩ |
      ⟨_, turn'⟩
  · cases turn.symm.trans turn'
    exact Or.inl ⟨eof, rfl⟩
  · cases turn.symm.trans turn'
    exact Or.inr ⟨notEof, processId, rfl⟩
  · exact nomatch turn.symm.trans turn'
  · exact nomatch turn.symm.trans turn'

/-- A turn that goes on has read an option. -/
theorem notEof_of_again {options next : Options}
    (turn : optionsBody operand2sig config options = .again next) :
    (getoptLong config options.scan).1 ≠ .eof := by
  rcases again_cases turn with ⟨optc, ret, _⟩
  rw [ret]
  nofun

/-- The loop, with the scan's invariant and measure. -/
def optionsLoop (operand2sig : Word → Int) (config : Config) :
    Loop Options Early where
  body := optionsBody operand2sig config
  Invariant options := Placed options.scan
  measure options := options.scan.unread
  keeps := by
    intro options next placed turn
    rcases again_cases turn with ⟨_, _, _, _, scan, _⟩
    rw [scan]
    exact (getoptLong_advanced config placed
      (notEof_of_again turn)).placed
  lowers := by
    intro options next placed turn
    rcases again_cases turn with ⟨_, _, _, _, scan, _⟩
    rw [scan]
    exact (getoptLong_advanced config placed
      (notEof_of_again turn)).unread

/-- The variables and the scan before the loop. -/
def initial (program : Word) (words : List Word) : Options :=
  ⟨start (argvOf (program :: words)), ⟨false, false, -1⟩, false⟩

/-- The first state of `getopt` is in place. -/
theorem placed_initial (program : Word) (words : List Word) :
    Placed (initial program words).scan :=
  placed_start (List.cons_ne_nil _ _)

/-- The option loop of `main`. -/
def scanWords (operand2sig : Word → Int) (config : Config)
    (program : Word) (words : List Word) : Ending Options Early :=
  (optionsLoop operand2sig config).exec (initial program words)
    (placed_initial program words)

/-- The loop comes to the ending that its turns lead to. -/
theorem scanWords_eq_iff
    {program : Word} {words : List Word}
    {ending : Ending Options Early} :
    scanWords operand2sig config program words = ending ↔
      Ends (optionsBody operand2sig config) (initial program words)
        ending :=
  (optionsLoop operand2sig config).exec_eq_iff _ ending

/-! ## From `no_more_options` on -/

/-- The two calls that `main` ends in. -/
inductive Call where
  | listSignals (table : Bool) (argv : Option (List Word))
  | sendSignals (signum : Int) (argv : List Word)
deriving DecidableEq, Repr

/-- The last test and the choice of the call. -/
def chooseCall (vars : Vars) (scan : State) : Except Early Call :=
  if vars.list = false ∧ scan.argc ≤ scan.optind then
    .error (.usage exitFailure)
  else if vars.list then
    .ok (.listSignals vars.table
      (if scan.optind < scan.argc then some (operands scan) else none))
  else .ok (.sendSignals vars.signum (operands scan))

/-- What stands behind the label `no_more_options`. -/
def noMoreOptions (vars : Vars) (scan : State) : Except Early Call :=
  if vars.signum < 0 then
    chooseCall { vars with signum := sigterm } scan
  else if vars.list then .error (.usage exitFailure)
  else chooseCall vars scan

/-- What can be seen of a run, in order. -/
inductive Event where
  | kleeDumpMemory
  | call (call : Call)
deriving DecidableEq, Repr

/-- How `main` ends: before its last call, or with it. -/
inductive Run where
  | ended (early : Early)
  | called (events : List Event)
deriving DecidableEq, Repr

/-- `main`, up to the call of `send_signals` or `list_signals`. -/
def main (operand2sig : Word → Int) (posixlyCorrect : Bool)
    (program : Word) (words : List Word) : Run :=
  match scanWords operand2sig (optionConfig posixlyCorrect) program words with
  | .exited early => .ended early
  | .left options =>
      match noMoreOptions options.vars options.scan with
      | .error early => .ended early
      | .ok call =>
          .called
            ((if options.jumped then [] else [.kleeDumpMemory]) ++
              [.call call])

/-! ## Passing the neck -/

/-- `klee_dump_memory` is called once, in front of the last call. -/
def NeckOnce (events : List Event) : Prop :=
  OnceBetween (fun _ => False) (fun event => ∃ call, event = .call call)
    .kleeDumpMemory events

/-- In the scan from `state` on, every digit option comes from the first
word of the vector. -/
def DigitsFirst (config : Config) (state : State) : Prop :=
  ∀ before, Scan config state before →
    isProcessId (getoptLong config before).1
      (getoptLong config before).2 = false

/-- Where `getopt_long` is at its end there is nothing left to check. -/
theorem digitsFirst_of_eof {state : State}
    (eof : (getoptLong config state).1 = .eof) :
    DigitsFirst config state := by
  intro before scan
  cases scan_of_eof eof scan
  rw [eof]
  rfl

/-- The condition is one on the call and on those after it. -/
theorem digitsFirst_iff {state : State}
    (notEof : (getoptLong config state).1 ≠ .eof) :
    DigitsFirst config state ↔
      isProcessId (getoptLong config state).1
          (getoptLong config state).2 = false ∧
        DigitsFirst config (getoptLong config state).2 := by
  constructor
  · intro first
    refine ⟨first state .refl, ?_⟩
    intro before scan
    exact first before ((scan_cases notEof).mpr (Or.inr scan))
  · rintro ⟨here, later⟩ before scan
    rcases (scan_cases notEof).mp scan with equal | rest
    · cases equal
      exact here
    · exact later before rest

/-- The loop is left by the jump, unless all digit options come first. -/
theorem jumped_iff {options final : Options}
    (ends : Ends (optionsBody operand2sig config) options (.left final))
    (inside : options.jumped = false) :
    final.jumped = false ↔ DigitsFirst config options.scan := by
  generalize ending : Ending.left final = result at ends
  induction ends with
  | again turn _ inductionHypothesis =>
      rcases again_cases turn with ⟨_, _, option, _, scan, jumped⟩
      rw [digitsFirst_iff (notEof_of_again turn),
        inductionHypothesis (jumped.trans inside) ending, scan]
      exact (and_iff_right option).symm
  | leave turn =>
      cases ending
      rcases leave_cases turn with ⟨eof, rfl⟩ | ⟨notEof, processId, jumped⟩
      · exact iff_of_true inside (digitsFirst_of_eof eof)
      · rw [jumped, digitsFirst_iff notEof, processId]
        simp
  | exit turn => exact nomatch ending

/-- A run that gets to its last call has left the loop. -/
theorem main_called
    {posixlyCorrect : Bool} {program : Word} {words : List Word}
    {events : List Event}
    (called : main operand2sig posixlyCorrect program words =
      .called events) :
    ∃ options call,
      scanWords operand2sig (optionConfig posixlyCorrect) program words =
        .left options ∧
      noMoreOptions options.vars options.scan = .ok call ∧
      events =
        (if options.jumped then [] else [.kleeDumpMemory]) ++
          [.call call] := by
  unfold main at called
  split at called
  · exact nomatch called
  · rename_i options left
    split at called
    · exact nomatch called
    · rename_i call chosen
      cases called
      exact ⟨options, call, left, chosen, rfl⟩

/--
The last call is made behind one call of `klee_dump_memory` exactly in the
runs on an argument vector whose digit options all come from its first word.
-/
theorem kill_neckOnce_iff
    {posixlyCorrect : Bool} {program : Word} {words : List Word}
    {events : List Event}
    (called : main operand2sig posixlyCorrect program words =
      .called events) :
    NeckOnce events ↔
      DigitsFirst (optionConfig posixlyCorrect)
        (start (argvOf (program :: words))) := by
  rcases main_called called with ⟨options, call, left, _, rfl⟩
  have jumped := jumped_iff (scanWords_eq_iff.mp left) rfl
  rw [← show (initial program words).scan =
    start (argvOf (program :: words)) from rfl, ← jumped]
  cases fellThrough : options.jumped with
  | false =>
      simp only [Bool.false_eq_true, if_false, iff_true]
      refine ⟨[], [.call call], rfl, ?_, ?_⟩
      · intro event member
        exact nomatch member
      · intro event member
        exact ⟨call, List.mem_singleton.mp member⟩
  | true =>
      simp only [if_true, Bool.true_eq_false, iff_false]
      intro once
      exact nomatch List.mem_singleton.mp once.mem

/-- `kill -9 12`. -/
theorem kill_neckOnce_iff_signal_first :
    NeckOnce [.kleeDumpMemory, .call (.sendSignals 9 ["12".toList])] ↔
      DigitsFirst (optionConfig false)
        (start (argvOf ["kill".toList, "-9".toList, "12".toList])) :=
  @kill_neckOnce_iff (fun word => if word = ['9'] then 9 else -1) false
    "kill".toList ["-9".toList, "12".toList] _ (by decide +kernel)

/-- `kill -9 -12`: the group gets its signal past the neck. -/
theorem kill_group_misses_neck :
    main (fun word => if word = ['9'] then 9 else -1) false "kill".toList
        ["-9".toList, "-12".toList] =
          .called [.call (.sendSignals 9 ["-12".toList])] ∧
      ¬ NeckOnce [.call (.sendSignals 9 ["-12".toList])] := by
  refine ⟨by decide +kernel, ?_⟩
  intro once
  exact absurd once.mem (by decide)

end Lmcas.Kill
