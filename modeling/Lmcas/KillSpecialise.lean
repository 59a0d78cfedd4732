import Lmcas.KillSignals
import Mathlib.Tactic.IntervalCases

/-!
# `kill` resumed from its neck

What specialising `kill` on its options does to the process ids behind them.
Negative ids look like digit options.  The full run stops at the first one
that follows its options, jumps, and sends nothing to the ids in front of it,
because `getopt_long` has skipped them and has not moved them to the end yet.
The resumed run sends to all of them.
-/

namespace Lmcas.Kill

open Lmcas.Lib.CString
open Lmcas.Lib.Getopt
open Lmcas.Lib.Iteration
open Lmcas.Lib.Neck
open Lmcas.Lib.OptionLoop
open Lmcas.System

/-! ## Operands behind the options -/

section

variable {operand2sig : Word → Int} {config : Config}

theorem body_of_eof {options : Options} {scan : State}
    (call : getoptLong config options.scan = (.eof, scan)) :
    optionsBody operand2sig config options =
      .leave { options with scan := scan } := by
  simp only [optionsBody, call]

/-- A turn that reads the word of a process steps back and jumps. -/
theorem body_of_processId {options : Options} {scan : State}
    {optc : Char}
    (call : getoptLong config options.scan = (.val (.char optc), scan))
    (isId : isProcessId (.val (.char optc)) scan = true) :
    optionsBody operand2sig config options =
      .leave
        { options with
          scan := { scan with optind := scan.optind - 1 }
          jumped := true } := by
  simp only [optionsBody, call, isId, if_true]

/-- A turn that reads an option goes on. -/
theorem body_of_option {options : Options} {scan : State}
    {optc : Char} {vars : Vars}
    (call : getoptLong config options.scan = (.val (.char optc), scan))
    (option : isProcessId (.val (.char optc)) scan = false)
    (handled : handle operand2sig optc scan options.vars = .ok vars) :
    optionsBody operand2sig config options =
      .again { options with scan := scan, vars := vars } := by
  simp only [optionsBody, call, option, Bool.false_eq_true, if_false,
    handled]

/-- The handler reads the word just read, and no word behind it. -/
theorem handle_extend (added : List StrObj) {scan : State}
    (inside : scan.optind - 1 < scan.argc) (optc : Char) (vars : Vars) :
    handle operand2sig optc (scan.extend added) vars =
      handle operand2sig optc scan vars := by
  have word : (scan.extend added).argv[
      (scan.extend added).optind - 1]? =
        scan.argv[scan.optind - 1]? :=
    List.getElem?_append_left inside
  have text : signalText (scan.extend added) = signalText scan := by
    unfold signalText
    rw [word]
    rfl
  unfold handle
  rw [text]
  rfl

end

theorem optstring_optionConfig (posixlyCorrect : Bool) :
    (optionConfig posixlyCorrect).optstring = shortOptions := by
  cases posixlyCorrect <;> decide +kernel

theorem ordering_optionConfig :
    (optionConfig false).ordering = .permute := by
  decide +kernel

/-- Only `-n` and `-s` take the next word as their argument. -/
theorem requiredLetter {optc : Char}
    (required : shortArg shortOptions optc = some .required) :
    optc = 'n' ∨ optc = 's' := by
  have letters : (shortOptions.all fun c =>
      shortArg shortOptions c ≠ some .required || c = 'n' || c = 's') =
        true := by
    decide +kernel
  have letter := List.all_eq_true.mp letters optc (shortArg_mem required)
  simpa [required] using letter

theorem requiredOption :
    ∀ option ∈ longOptions, option.hasArg = .required →
      option.val = .char 's' := by
  decide +kernel

/-- The options whose argument may be the next word are `-n` and `-s`. -/
theorem takesArgument_cases {posixlyCorrect : Bool} {optc : Char}
    (takes : TakesArgument (optionConfig posixlyCorrect)
      (.val (.char optc))) :
    optc = 'n' ∨ optc = 's' := by
  rcases takes with ⟨char, equal, required⟩ | ⟨option, member, equal, required⟩
  · cases equal
    rw [optstring_optionConfig] at required
    exact requiredLetter required
  · have table : (optionConfig posixlyCorrect).longopts =
        longOptions := by
      cases posixlyCorrect <;> decide +kernel
    rw [table] at member
    have val := requiredOption option member required
    rw [val] at equal
    cases equal
    exact Or.inr rfl

/-- `--` is not taken for the argument of an option that is handled. -/
theorem argument_ne_dashDash {operand2sig : Word → Int}
    (notSignal : operand2sig ['-', '-'] < 0)
    {posixlyCorrect : Bool} {optc : Char} {scan : State}
    {vars vars' : Vars} {next : StrObj}
    (takes : TakesArgument (optionConfig posixlyCorrect)
      (.val (.char optc)))
    (optarg : scan.optarg = some next.ptr)
    (handled : handle operand2sig optc scan vars = .ok vars') :
    next.chars ≠ ['-', '-'] := by
  intro dashes
  have signal : setSignal operand2sig next.chars vars = .ok vars' := by
    rcases takesArgument_cases takes with rfl | rfl
    · simpa [handle, isSignalLetter, optarg] using handled
    · simpa [handle, isSignalLetter, optarg] using handled
  unfold setSignal at signal
  rw [dashes] at signal
  rw [if_pos notSignal, ite_self] at signal
  exact nomatch signal

/-- A decimal integer, possibly negative. -/
def isInteger (word : Word) : Bool :=
  match word with
  | '-' :: digits => !digits.isEmpty && digits.all Char.isDigit
  | digits => !digits.isEmpty && digits.all Char.isDigit

/-- A number that looks like an option is negative. -/
theorem negative_of_option {word : Word}
    (integer : isInteger word = true) (option : nonoption word = false) :
    ∃ digit digits, word = '-' :: digit :: digits ∧
      digit.isDigit = true := by
  unfold nonoption at option
  split at option
  · rename_i digit digits
    refine ⟨digit, digits, rfl, ?_⟩
    simp only [isInteger, List.isEmpty_cons, Bool.not_false,
      List.all_cons, Bool.true_and, Bool.and_eq_true] at integer
    exact integer.1
  · exact nomatch option

theorem digit_mem {digit : Char} (isDigit : digit.isDigit = true) :
    digit ∈ "0123456789".toList := by
  have range : 48 ≤ digit.toNat ∧ digit.toNat ≤ 57 := by
    simpa [Char.isDigit, UInt32.le_iff_toNat_le] using isDigit
  rcases range with ⟨low, high⟩
  rw [← Char.ofNat_toNat digit]
  generalize digit.toNat = code at low high
  interval_cases code <;> decide

theorem shortArg_digit {digit : Char} (isDigit : digit.isDigit = true) :
    shortArg shortOptions digit = some .optional := by
  have digits : ("0123456789".toList.all fun c =>
      shortArg shortOptions c = some .optional) = true := by
    decide +kernel
  exact of_decide_eq_true
    (List.all_eq_true.mp digits digit (digit_mem isDigit))

/-- `getopt_long` reads a negative number as a short option. -/
theorem element_negative {digit : Char} (digits : Word)
    (isDigit : digit.isDigit = true) :
    element ('-' :: digit :: digits) = .short digit := by
  have noDash : digit ≠ '-' := by
    rintro rfl
    exact absurd isDigit (by decide)
  simp [element, noDash]

/-- A negative id is read as a digit option that takes the whole word. -/
theorem shortOption_digit {digit : Char} (isDigit : digit.isDigit = true)
    (posixlyCorrect : Bool) (front : State) (rest : CStr) :
    ∃ after,
      shortOption (optionConfig posixlyCorrect) front digit rest =
        (.val (.char digit), after) ∧
      after.argv = front.argv ∧ after.optind = front.optind + 1 := by
  have kind : shortArg (optionConfig posixlyCorrect).optstring digit =
      some .optional := by
    rw [optstring_optionConfig]
    exact shortArg_digit isDigit
  refine ⟨_, Prod.ext ?_ rfl, ?_⟩
  · by_cases empty : rest.text = []
    · simp only [shortOption, kind, if_pos empty]
    · simp only [shortOption, kind, if_neg empty]
  · by_cases empty : rest.text = []
    · simp only [shortOption, kind, if_pos empty, and_self]
    · simp only [shortOption, kind, if_neg empty, and_self]

theorem drop_length_takeWhile
    (words : List StrObj) (holds : StrObj → Bool) :
    words.drop (words.takeWhile holds).length =
      words.dropWhile holds := by
  have joined := congrArg (List.drop (words.takeWhile holds).length)
    (@List.takeWhile_append_dropWhile _ holds words)
  rw [List.drop_left] at joined
  exact joined.symm

/-- The first word that a `takeWhile` leaves over. -/
theorem getElem?_length_takeWhile
    {words : List StrObj} {holds : StrObj → Bool} {obj : StrObj}
    {rest : List StrObj}
    (dropped : words.dropWhile holds = obj :: rest) :
    words[(words.takeWhile holds).length]? = some obj := by
  rw [← List.head?_drop, drop_length_takeWhile, dropped]
  rfl

section

variable {operand2sig : Word → Int} {options : Options}
  {added : List StrObj}

/-- Behind a last `--`, and where no id is negative, every id is left
over. -/
theorem leaves_all_ids
    (placed : Placed options.scan) (drained : Drained options.scan)
    (clear : LastIsDashDash options.scan ∨
      options.scan.optind = options.scan.argc ∧
        ∀ obj ∈ added, nonoption obj.chars) :
    ∃ final,
      optionsBody operand2sig (optionConfig false)
        { options with scan := options.scan.extend added } =
          .leave final ∧
      final.vars = options.vars ∧
      final.scan.argv.drop final.scan.optind = added := by
  have call : ∃ after,
      getoptLong (optionConfig false) (options.scan.extend added) =
        (.eof, after) ∧
      after.argv = options.scan.argv ++ added ∧
      after.optind = options.scan.argc := by
    rcases clear with dashed | ⟨atEnd, integers⟩
    · exact getoptLong_extend_lastIsDashDash added (optionConfig false)
        placed drained.boundary drained.noneSkipped dashed
    · exact getoptLong_extend_atEnd added ordering_optionConfig placed
        drained.boundary drained.noneSkipped atEnd integers
  rcases call with ⟨after, call, argv, optind⟩
  refine ⟨_, body_of_eof call, rfl, ?_⟩
  show after.argv.drop after.optind = added
  rw [argv, optind]
  exact List.drop_left

/-- At the first negative id the loop jumps, and the ids in front of it are
not left over. -/
theorem leaves_from_negative
    (placed : Placed options.scan) (drained : Drained options.scan)
    (more : 2 ≤ options.scan.argc)
    (atEnd : options.scan.optind = options.scan.argc)
    (ids : ∀ obj ∈ added, isInteger obj.chars = true)
    (negative : ¬ ∀ obj ∈ added, nonoption obj.chars) :
    ∃ final,
      optionsBody operand2sig (optionConfig false)
        { options with scan := options.scan.extend added } =
          .leave final ∧
      final.vars = options.vars ∧
      final.scan.argv.drop final.scan.optind =
        added.dropWhile (nonoption ·.chars) := by
  rcases dropped : added.dropWhile (nonoption ·.chars) with
    _ | ⟨obj, rest⟩
  · exact absurd (List.dropWhile_eq_nil_iff.mp dropped) negative
  have found := getElem?_length_takeWhile dropped
  have option : nonoption obj.chars = false := by
    have head := List.head?_dropWhile_not
      (fun obj : StrObj => nonoption obj.chars) added
    rw [dropped] at head
    simpa using head
  rcases negative_of_option
      (ids obj (List.mem_of_getElem? found)) option with
    ⟨digit, digits, chars, isDigit⟩
  have kind : element obj.chars = .short digit := by
    rw [chars]
    exact element_negative digits isDigit
  rcases getoptLong_extend_option added ordering_optionConfig placed
      drained.boundary drained.noneSkipped atEnd found kind with
    ⟨front, frontArgv, frontOptind, call⟩
  rcases shortOption_digit isDigit false front (obj.ptr.add 2) with
    ⟨after, read, argv, optind⟩
  have isId : isProcessId (.val (.char digit)) after = true := by
    have late : after.optind ≠ 2 := by omega
    simp [isProcessId, isDigit, late]
  refine ⟨_, body_of_processId (call.trans read) isId, rfl, ?_⟩
  show after.argv.drop (after.optind - 1) = _
  rw [argv, optind, frontArgv, frontOptind, Nat.add_sub_cancel,
    State.argc, List.drop_append, List.drop_of_length_le (by omega),
    Nat.add_sub_cancel_left, drop_length_takeWhile]
  rfl

end

/-- A scan of options, and the same scan with ids behind the options. -/
structure Related (first added : List StrObj)
    (options options' : Options) : Prop where
  placed : Placed options.scan
  more : 2 ≤ options.scan.argc
  unread : LastUnread first options.scan
  extended : options' =
    { options with scan := options.scan.extend added }

/-- A turn of the run on the options alone is one of the run with the processes
behind them. -/
theorem Related.step
    {operand2sig : Word → Int} (notSignal : operand2sig ['-', '-'] < 0)
    {first added : List StrObj} {options options' next : Options}
    (related : Related first added options options')
    (turn : optionsBody operand2sig (optionConfig false) options =
      .again next) :
    ∃ next',
      optionsBody operand2sig (optionConfig false) options' =
        .again next' ∧
      Related first added next next' := by
  rcases related with ⟨placed, more, unread, rfl⟩
  have notEof := notEof_of_again turn
  rcases again_cases turn with
    ⟨optc, ret, option, handled, scan, jumped⟩
  have recognized :
      (getoptLong (optionConfig false) options.scan).1 ≠
        .unrecognized := by
    rw [ret]
    nofun
  have advanced := getoptLong_advanced _ placed notEof
  have extended := getoptLong_extend added _ placed notEof recognized
  have inside : next.scan.optind - 1 < next.scan.argc := by
    have bound := advanced.placed.optind_le
    have argc := advanced.argc
    rw [scan]
    omega
  rw [ret, ← scan] at extended
  rw [ret, ← scan] at option
  rw [← scan] at handled
  refine ⟨{ next with scan := next.scan.extend added }, ?_, ?_⟩
  · rw [@body_of_option _ _
      { options with scan := options.scan.extend added } _ _ next.vars
      extended option ((handle_extend added inside _ _).trans handled)]
    rw [← jumped]
  · refine
      { placed := by rw [scan]; exact advanced.placed
        more := by rw [scan, advanced.argc]; exact more
        unread := ?_
        extended := rfl }
    rw [scan]
    apply unread.called placed notEof
    intro word takes optarg
    rw [ret] at takes
    rw [← scan] at optarg
    exact argument_ne_dashDash notSignal takes optarg handled

/-- A loop that ends past all its options ends past them with ids behind
them, and leaves over all ids or those from the first negative one on. -/
def LeavesOver (first added : List StrObj)
    (options : Options) (ending : Ending Options Early) : Prop :=
  options.jumped = false → operands options.scan = [] →
    ∃ final, ending = .left final ∧ final.vars = options.vars ∧
      ((EndsInDashDash first ∨ ∀ obj ∈ added, nonoption obj.chars) →
        final.scan.argv.drop final.scan.optind = added) ∧
      (¬ (EndsInDashDash first ∨ ∀ obj ∈ added, nonoption obj.chars) →
        final.scan.argv.drop final.scan.optind =
          added.dropWhile (nonoption ·.chars))

/-- Where the one run leaves the loop the other does, at the first process. -/
theorem Related.leave
    {operand2sig : Word → Int}
    {first added : List StrObj} {options options' final : Options}
    (integers : ∀ obj ∈ added, isInteger obj.chars = true)
    (related : Related first added options options')
    (turn : optionsBody operand2sig (optionConfig false) options =
      .leave final) :
    ∃ ending',
      Ends (optionsBody operand2sig (optionConfig false)) options'
        ending' ∧
      LeavesOver first added final ending' := by
  rcases related with ⟨placed, more, unread, rfl⟩
  have ends := (optionsLoop operand2sig (optionConfig false)).exec_ends
    { options with scan := options.scan.extend added }
    (placed_extend added placed)
  rcases leave_cases turn with ⟨eof, rfl⟩ | ⟨_, _, jumped⟩
  swap
  · exact ⟨_, ends, fun inside => absurd (jumped.symm.trans inside) nofun⟩
  by_cases empty : operands
      (getoptLong (optionConfig false) options.scan).2 = []
  swap
  · exact ⟨_, ends, fun _ noOperand => absurd noOperand empty⟩
  have drained := drained_of_eof placed eof
    ((operands_eq_nil_iff _).mp empty)
  by_cases clear : EndsInDashDash first ∨
      ∀ obj ∈ added, nonoption obj.chars
  · have clear' : LastIsDashDash options.scan ∨
        options.scan.optind = options.scan.argc ∧
          ∀ obj ∈ added, nonoption obj.chars := by
      rcases unread.drained drained with ⟨_, ahead⟩ | ⟨open', atEnd⟩
      · exact Or.inl ahead
      · exact Or.inr ⟨atEnd, clear.resolve_left open'⟩
    rcases @leaves_all_ids operand2sig _ _ placed drained clear' with
      ⟨final, turn', vars, leftOver⟩
    exact ⟨.left final, .leave turn', fun _ _ =>
      ⟨final, rfl, vars, fun _ => leftOver,
        fun unclear => absurd clear unclear⟩⟩
  · have atEnd : options.scan.optind = options.scan.argc := by
      rcases unread.drained drained with ⟨dashed, _⟩ | ⟨_, atEnd⟩
      · exact absurd (Or.inl dashed) clear
      · exact atEnd
    rcases @leaves_from_negative operand2sig _ _ placed drained more
        atEnd integers (fun integers' => clear (Or.inr integers')) with
      ⟨final, turn', vars, leftOver⟩
    exact ⟨.left final, .leave turn', fun _ _ =>
      ⟨final, rfl, vars, fun holds => absurd holds clear,
        fun _ => leftOver⟩⟩

/-- With ids behind them, the options do what they do without, and the loop
leaves over the ids, or the ids from the first negative one on. -/
theorem scanWords_append
    {operand2sig : Word → Int} (notSignal : operand2sig ['-', '-'] < 0)
    {name : Word} {words ids : List Word} {options : Options}
    (nonempty : words ≠ [])
    (left : scanWords operand2sig (optionConfig false) name words =
      .left options)
    (inside : options.jumped = false)
    (noOperand : operands options.scan = [])
    (integers : ∀ id ∈ ids, isInteger id = true) :
    ∃ final,
      scanWords operand2sig (optionConfig false) name (words ++ ids) =
        .left final ∧
      final.vars = options.vars ∧
      ((words.getLast? = some ['-', '-'] ∨ ∀ id ∈ ids, nonoption id) →
        operands final.scan = ids) ∧
      (¬ (words.getLast? = some ['-', '-'] ∨ ∀ id ∈ ids, nonoption id) →
        operands final.scan = ids.dropWhile nonoption) := by
  rcases argvOf_append (name :: words) ids with ⟨added, argv, chars⟩
  have integers' : ∀ obj ∈ added, isInteger obj.chars = true := by
    intro obj member
    apply integers
    rw [← chars]
    exact List.mem_map_of_mem member
  have nonoptions : (∀ id ∈ ids, nonoption id = true) ↔
      ∀ obj ∈ added, nonoption obj.chars = true := by
    rw [← chars]
    exact List.forall_mem_map
  have length : 2 ≤ (argvOf (name :: words)).length := by
    have positive := List.length_pos_iff.mpr nonempty
    rw [length_argvOf, List.length_cons]
    omega
  have related : Related (argvOf (name :: words)) added
      (initial name words) (initial name (words ++ ids)) :=
    { placed := placed_start (List.cons_ne_nil _ _)
      more := length
      unread := lastUnread_start length
      extended := by
        unfold initial
        rw [← List.cons_append, argv, start_append] }
  rcases Ends.simulate _ _ (Related (argvOf (name :: words)) added)
      (LeavesOver (argvOf (name :: words)) added)
      (fun _ _ _ related turn => related.step notSignal turn)
      (fun _ _ _ related turn => related.leave integers' turn)
      related (scanWords_eq_iff.mp left) with ⟨ending, ends, leftOver⟩
  rcases leftOver inside noOperand with ⟨final, rfl, vars, whole, part⟩
  rw [endsInDashDash_argvOf nonempty, ← nonoptions] at whole part
  refine ⟨final, scanWords_eq_iff.mpr ends, vars, ?_, ?_⟩
  · intro clear
    rw [operands, whole clear, chars]
  · intro unclear
    rw [operands, part unclear, ← chars, List.dropWhile_map]
    rfl

/-! ## Soundness of the neck -/

/-- `argc`, `argv` and `optind` present the words, and nothing else has
changed. -/
structure Presents (name : Word) (words : List Word)
    (neck resumed : Neck) : Prop where
  vars : resumed.vars = neck.vars
  argv : resumed.scan.argv.map StrObj.chars = name :: words
  optind : resumed.scan.optind = 1

/-- The signal that `main` sends if it sends one. -/
def chosenSignal (vars : Vars) : Int :=
  if vars.signum < 0 then sigterm else vars.signum

/-- Without `-l` and `-t`, the end of `main` sends the signal to the words
left over. -/
theorem outcome_eq_killCalls
    (succeeds : List (Int × Int) → Bool) {vars : Vars} (scan : State)
    (noList : vars.list = false) :
    outcome succeeds (noMoreOptions vars scan) =
      killCalls (chosenSignal vars) (operands scan) := by
  have choose : ∀ vars : Vars, vars.list = false →
      outcome succeeds (chooseCall vars scan) =
        killCalls vars.signum (operands scan) := by
    intro vars noList
    by_cases empty : scan.argc ≤ scan.optind
    · rw [(operands_eq_nil_iff scan).mpr empty]
      simp [chooseCall, noList, empty, outcome, killCalls]
    · simp [chooseCall, noList, empty, outcome, sendSignals_calls]
  unfold noMoreOptions chosenSignal
  split
  · exact choose _ noList
  · rw [noList, if_neg (by decide)]
    exact choose _ noList

/-- No call is made just if no word is a number. -/
theorem killCalls_eq_nil_iff (signum : Int) (words : List Word) :
    killCalls signum words = [] ↔
      ∀ word ∈ words, processId word = none := by
  simp [killCalls, List.filterMap_eq_nil_iff]

theorem killCalls_append (signum : Int) (left right : List Word) :
    killCalls signum (left ++ right) =
      killCalls signum left ++ killCalls signum right :=
  List.filterMap_append

/-- Behind the loop a run is as its variables and the rest of the words say. -/
theorem full_of_left
    {operand2sig : Word → Int} {posixlyCorrect : Bool}
    {succeeds : List (Int × Int) → Bool} {name : Word}
    {words : List Word} {options : Options}
    (left : scanWords operand2sig (optionConfig posixlyCorrect) name
      words = .left options) :
    (program operand2sig posixlyCorrect succeeds name).full words =
      outcome succeeds (noMoreOptions options.vars options.scan) := by
  cases jumped : options.jumped with
  | true => exact Staged.full_of_stopped (configure_of_jumped left jumped)
  | false => exact Staged.full_of_reaches (configure_of_left left jumped)

/--
Specialising `kill` on its options keeps all its calls of `kill`, exactly if
the options end in `--`, or no id is negative, or every id in front of the
first negative one is out of the range of process ids.
-/
theorem kill_soundAt_iff
    {operand2sig : Word → Int} (notSignal : operand2sig ['-', '-'] < 0)
    {succeeds : List (Int × Int) → Bool} {name : Word}
    {words ids : List Word} {neck : Neck}
    (nonempty : words ≠ [])
    (reached : (program operand2sig false succeeds name).Reaches words
      neck)
    (noOperand : operands neck.scan = [])
    (noList : neck.vars.list = false)
    (integers : ∀ id ∈ ids, isInteger id = true) :
    (program operand2sig false succeeds name).SoundAt
        (Presents name ids) words (words ++ ids) ↔
      words.getLast? = some ['-', '-'] ∨
        (∀ id ∈ ids, nonoption id) ∨
        ∀ id ∈ ids.takeWhile nonoption, processId id = none := by
  rcases scanWords_append notSignal nonempty (left_of_reaches reached) rfl
      noOperand integers with ⟨final, left, vars, whole, part⟩
  have noList' : final.vars.list = false := by
    rw [vars]
    exact noList
  have full : (program operand2sig false succeeds name).full
      (words ++ ids) =
        killCalls (chosenSignal neck.vars) (operands final.scan) := by
    rw [full_of_left left, outcome_eq_killCalls succeeds _ noList', vars]
  have resumes : ∀ resumed, Presents name ids neck resumed →
      (program operand2sig false succeeds name).resume resumed =
        killCalls (chosenSignal neck.vars) ids := by
    intro resumed presents
    have leftOver : operands resumed.scan = ids := by
      rw [operands, presents.optind, List.map_drop, presents.argv]
      rfl
    show outcome succeeds
      (noMoreOptions resumed.vars resumed.scan) = _
    rw [presents.vars, outcome_eq_killCalls succeeds _ noList, leftOver]
  have sound : (program operand2sig false succeeds name).SoundAt
      (Presents name ids) words (words ++ ids) ↔
        killCalls (chosenSignal neck.vars) ids =
          killCalls (chosenSignal neck.vars) (operands final.scan) := by
    rw [Staged.soundAt_iff_of_reaches reached, full]
    constructor
    · intro agrees
      have presented : Presents name ids neck
          ⟨neck.vars, start (argvOf (name :: ids))⟩ :=
        { vars := rfl
          argv := map_chars_argvOf _
          optind := rfl }
      rw [← resumes _ presented]
      exact agrees _ presented
    · intro equal resumed presents
      rw [resumes resumed presents, equal]
  rw [sound, ← or_assoc]
  by_cases clear : words.getLast? = some ['-', '-'] ∨
      ∀ id ∈ ids, nonoption id
  · rw [whole clear]
    exact iff_of_true rfl (Or.inl clear)
  · rw [part clear, or_iff_right clear, ← killCalls_eq_nil_iff
      (chosenSignal neck.vars)]
    have split := killCalls_append (chosenSignal neck.vars)
      (ids.takeWhile nonoption) (ids.dropWhile nonoption)
    rw [List.takeWhile_append_dropWhile] at split
    rw [split, List.append_left_eq_self]

/-- `kill -9`, at its neck. -/
def signalNine : Neck :=
  ⟨⟨false, false, 9⟩,
    ⟨argvOf ["kill".toList, "-9".toList], 2, none, none, 2, 2⟩⟩

/-- `operand2sig`, as far as the runs below need it. -/
def operand2sigNine (word : Word) : Int :=
  if word = ['9'] then 9 else -1

/-- `kill -9` reaches this neck. -/
theorem reaches_signalNine :
    (program operand2sigNine false (fun _ => true) "kill".toList).configure
      ["-9".toList] = .ok signalNine := by
  decide +kernel

/-- `kill -9 12`. -/
theorem kill_soundAt_iff_positive :
    (program operand2sigNine false (fun _ => true) "kill".toList).SoundAt
        (Presents "kill".toList ["12".toList]) ["-9".toList]
        (["-9".toList] ++ ["12".toList]) ↔
      ["-9".toList].getLast? = some ['-', '-'] ∨
        (∀ id ∈ ["12".toList], nonoption id) ∨
        ∀ id ∈ ["12".toList].takeWhile nonoption, processId id = none :=
  @kill_soundAt_iff operand2sigNine (by decide) (fun _ => true) "kill".toList
    ["-9".toList] ["12".toList] signalNine (by decide) reaches_signalNine
    (by decide +kernel) rfl (by decide)

/-- `kill -9 12 -34`: the full run sends nothing to 12. -/
theorem kill_positive_before_negative :
    ¬ (program operand2sigNine false (fun _ => true)
        "kill".toList).SoundAt
        (Presents "kill".toList ["12".toList, "-34".toList])
        ["-9".toList] (["-9".toList] ++ ["12".toList, "-34".toList]) := by
  intro sound
  have agrees := sound signalNine
    ⟨⟨false, false, 9⟩,
      start (argvOf ["kill".toList, "12".toList, "-34".toList])⟩
    reaches_signalNine ⟨rfl, rfl, rfl⟩
  revert agrees
  decide +kernel

end Lmcas.Kill
