import Lmcas.Lib.GetoptEnd

/-!
# Scans that return operands in order

With a leading `-` in the option string every operand is returned where it
stands.  Nothing is ever skipped, so what a call does at a word boundary is
read off the word at `optind`.
-/

namespace Lmcas.Lib.Getopt

open Lmcas.Lib.CString

/-- A state in which no operand has been skipped. -/
structure Ordered (state : State) : Prop extends Placed state where
  noneSkipped : state.firstNonopt = state.lastNonopt

/-- The first state. -/
theorem ordered_start {argv : List StrObj} (nonempty : argv ≠ []) :
    Ordered (start argv) where
  toPlaced := placed_start nonempty
  noneSkipped := rfl

theorem Ordered.cleared {state : State} (ordered : Ordered state) :
    Ordered state.cleared where
  toPlaced := ordered.toPlaced.cleared
  noneSkipped := ordered.noneSkipped

/-- More words keep the order. -/
theorem ordered_extend {state : State} (added : List StrObj)
    (ordered : Ordered state) : Ordered (state.extend added) where
  toPlaced := placed_extend added ordered.toPlaced
  noneSkipped := ordered.noneSkipped

variable {config : Config} {state : State}

theorem atWord_inPlace (order : config.ordering ≠ .permute)
    (placed : Placed state) (boundary : state.pending = none)
    {obj : StrObj} (found : state.argv[state.optind]? = some obj) :
    AtWord config state state.cleared obj :=
  ⟨boundary, settle_inPlace order placed.cleared, found⟩

/-- Behind the last word there is nothing to read. -/
theorem getoptLong_none (order : config.ordering ≠ .permute)
    (ordered : Ordered state) (boundary : state.pending = none)
    (noWord : state.argv[state.optind]? = none) :
    getoptLong config state = (.eof, state.cleared) := by
  have exhausted : Call config state _ :=
    .exhausted boundary (settle_inPlace order ordered.toPlaced.cleared)
      noWord
  rw [exhausted.getoptLong_eq]
  exact finish_of_first_eq_last ordered.noneSkipped

/-- An operand is returned as the argument of the option `1`. -/
theorem getoptLong_operand (order : config.ordering = .returnInOrder)
    (placed : Placed state) (boundary : state.pending = none)
    {obj : StrObj} (found : state.argv[state.optind]? = some obj)
    (operand : nonoption obj.chars = true) :
    getoptLong config state =
      (.nonopt,
        { state with
          optarg := some obj.ptr
          optind := state.optind + 1 }) := by
  have inPlace : config.ordering ≠ .permute := by
    rw [order]
    nofun
  have inOrder : config.ordering ≠ .requireOrder := by
    rw [order]
    nofun
  have atWord := atWord_inPlace inPlace placed boundary found
  exact (Call.operand atWord ((element_operand_iff _).mpr operand)
    inOrder).getoptLong_eq

/-- `--` is passed over. -/
theorem getoptLong_terminator (order : config.ordering ≠ .permute)
    (ordered : Ordered state) (boundary : state.pending = none)
    {obj : StrObj} (found : state.argv[state.optind]? = some obj)
    (terminator : obj.chars = ['-', '-']) :
    ∃ after, getoptLong config state = (.eof, after) ∧
      after.argv = state.argv ∧ after.optind = state.optind + 1 := by
  have atWord := atWord_inPlace order ordered.toPlaced boundary found
  rw [(Call.terminator atWord
      ((element_terminator_iff _).mpr terminator)).getoptLong_eq,
    dashDash_of_first_eq_last ordered.cleared.noneSkipped]
  by_cases last : state.optind + 1 = state.argc
  · exact ⟨_, finish_of_first_eq_last last, rfl, last.symm⟩
  · exact ⟨_, finish_of_first_ne_last last, rfl, rfl⟩

/-- The scan ends at the end of the vector or behind a `--`. -/
theorem cases_of_eof (order : config.ordering = .returnInOrder)
    (placed : Placed state)
    (eof : (getoptLong config state).1 = .eof) :
    state.argv[state.optind]? = none ∨
      ∃ obj, state.argv[state.optind]? = some obj ∧
        obj.chars = ['-', '-'] := by
  have inPlace : config.ordering ≠ .permute := by
    rw [order]
    nofun
  have does := getoptLong_does config state
  generalize getoptLong config state = call at does eof
  cases does with
  | halfway _ => exact absurd eof (shortOption_ne_eof _ _ _ _)
  | exhausted _ settled noWord =>
      rw [settle_inPlace inPlace placed.cleared] at settled
      subst settled
      exact .inl noWord
  | terminator atWord kind =>
      obtain rfl := atWord.front_eq inPlace placed
      exact .inr ⟨_, atWord.found, (element_terminator_iff _).mp kind⟩
  | long _ _ => exact absurd eof (processLongOption_ne_eof _ _ _)
  | short _ _ => exact absurd eof (shortOption_ne_eof _ _ _ _)
  | operand _ _ _ => cases eof
  | stopped _ _ require => exact nomatch order.symm.trans require

/-- The last call leaves the words as they are. -/
theorem argv_of_eof (order : config.ordering = .returnInOrder)
    (ordered : Ordered state)
    (eof : (getoptLong config state).1 = .eof) :
    (getoptLong config state).2.argv = state.argv ∧
      state.optind ≤ (getoptLong config state).2.optind := by
  have inPlace : config.ordering ≠ .permute := by
    rw [order]
    nofun
  have boundary := pending_eq_none_of_eof eof
  rcases cases_of_eof order ordered.toPlaced eof with
    noWord | ⟨obj, found, terminator⟩
  · rw [getoptLong_none inPlace ordered boundary noWord]
    exact ⟨rfl, Nat.le_refl _⟩
  · rcases getoptLong_terminator inPlace ordered boundary found terminator
      with ⟨after, called, argv, optind⟩
    rw [called]
    exact ⟨argv, optind ▸ Nat.le_succ _⟩

/-- Behind an operand the scan is at a word boundary. -/
theorem pending_of_nonopt (placed : Placed state)
    (nonopt : (getoptLong config state).1 = .nonopt) :
    (getoptLong config state).2.pending = none := by
  have does := getoptLong_does config state
  generalize getoptLong config state = call at does nonopt
  cases does with
  | halfway _ => exact absurd nonopt (shortOption_ne_nonopt _ _ _ _)
  | exhausted _ _ _ => cases nonopt
  | terminator _ _ => cases nonopt
  | long _ _ => exact absurd nonopt (processLongOption_ne_nonopt _ _ _)
  | short _ _ => exact absurd nonopt (shortOption_ne_nonopt _ _ _ _)
  | operand atWord _ _ => exact atWord.pending placed
  | stopped _ _ _ => cases nonopt

theorem AtWord.optind_lt {front : State} {obj : StrObj}
    (atWord : AtWord config state front obj) (placed : Placed state) :
    state.optind < state.argc := by
  have settling := atWord.settling placed
  exact Nat.lt_of_le_of_lt settling.forward
    (Nat.lt_of_lt_of_eq atWord.inside settling.argc)

/-- A call that reads something had a word to read. -/
theorem optind_lt_of_not_eof (placed : Placed state)
    (notEof : (getoptLong config state).1 ≠ .eof) :
    state.optind < state.argc := by
  have does := getoptLong_does config state
  generalize getoptLong config state = call at does notEof
  cases does with
  | halfway pending => exact placed.pending_lt (by rw [pending]; rfl)
  | exhausted _ _ _ => exact absurd rfl notEof
  | terminator _ _ => exact absurd rfl notEof
  | long atWord _ => exact atWord.optind_lt placed
  | short atWord _ => exact atWord.optind_lt placed
  | operand atWord _ _ => exact atWord.optind_lt placed
  | stopped _ _ _ => exact absurd rfl notEof

/-! ## Options that need an argument -/

/-- A call on a short option. -/
theorem getoptLong_short (order : config.ordering ≠ .permute)
    (placed : Placed state) (boundary : state.pending = none)
    {obj : StrObj} (found : state.argv[state.optind]? = some obj)
    {char : Char} (short : element obj.chars = .short char) :
    getoptLong config state =
      shortOption config state.cleared char (obj.ptr.add 2) :=
  (Call.short (atWord_inPlace order placed boundary found)
    short).getoptLong_eq

theorem shortOption_pending_of_required {char : Char} {rest : CStr}
    (required : shortArg config.optstring char = some .required) :
    (shortOption config state char rest).2.pending = none := by
  have does := shortOption_does config state char rest
  generalize shortOption config state char rest = call at does
  cases does with
  | halfway _ _ noArgument => exact absurd required noArgument
  | ended _ readOff => exact readOff.pending
  | attached _ => exact pending_eq_none_of_null rfl
  | separate _ _ => exact pending_eq_none_of_null rfl

/-! ## Arguments that are words of their own -/

/-- A short option whose argument is a word has taken two. -/
theorem shortOption_wordArgument {char : Char} {rest argument : CStr}
    (inside : rest.off ≠ 0) (cleared : state.optarg = none)
    (found : (shortOption config state char rest).2.optarg = some argument)
    (whole : argument.off = 0) :
    (shortOption config state char rest).2.optind = state.optind + 2 ∧
      (shortOption config state char rest).2.pending = none := by
  have does := shortOption_does config state char rest
  generalize shortOption config state char rest = call at does found
  cases does with
  | halfway _ _ _ => exact nomatch cleared.symm.trans found
  | ended _ _ => exact nomatch cleared.symm.trans found
  | attached _ =>
      cases found
      exact absurd whole inside
  | separate _ _ => exact ⟨rfl, pending_eq_none_of_null rfl⟩

/-- So has a long one. -/
theorem processLongOption_wordArgument {name argument : CStr}
    (cleared : state.optarg = none)
    (found : (processLongOption config state name).2.optarg = some argument)
    (whole : argument.off = 0) :
    (processLongOption config state name).2.optind = state.optind + 2 ∧
      (processLongOption config state name).2.pending = none := by
  have does := processLongOption_does config state name
  generalize processLongOption config state name = call at does found
  cases does with
  | rejected _ => exact nomatch cleared.symm.trans found
  | plain _ => exact nomatch cleared.symm.trans found
  | attached _ behind =>
      cases found
      exact absurd whole behind
  | separate _ _ _ => exact ⟨rfl, pending_eq_none_of_null rfl⟩

/-- A call that takes the next word for the argument of an option is through
with two words. -/
theorem getoptLong_wordArgument (order : config.ordering ≠ .permute)
    (placed : Placed state) {value : OptVal} {argument : CStr}
    (option : (getoptLong config state).1 = .val value)
    (found : (getoptLong config state).2.optarg = some argument)
    (whole : argument.off = 0) :
    (getoptLong config state).2.optind = state.optind + 2 ∧
      (getoptLong config state).2.pending = none := by
  have does := getoptLong_does config state
  generalize getoptLong config state = call at does option found
  cases does with
  | halfway pending =>
      exact shortOption_wordArgument (off_ne_zero_of_pending pending) rfl
        found whole
  | exhausted _ _ _ => cases option
  | terminator _ _ => cases option
  | long atWord _ =>
      obtain rfl := atWord.front_eq order placed
      exact processLongOption_wordArgument rfl found whole
  | short atWord _ =>
      obtain rfl := atWord.front_eq order placed
      exact shortOption_wordArgument (Nat.succ_ne_zero _) rfl found whole
  | operand _ _ _ => cases option
  | stopped _ _ _ => cases option

/-- A call keeps the order. -/
theorem Ordered.called (order : config.ordering ≠ .permute)
    (ordered : Ordered state)
    (notEof : (getoptLong config state).1 ≠ .eof) :
    Ordered (getoptLong config state).2 where
  toPlaced := (getoptLong_advanced config ordered.toPlaced notEof).placed
  noneSkipped :=
    getoptLong_noneSkipped order ordered.toPlaced notEof ordered.noneSkipped

/-- At a word boundary `optind` can be moved on. -/
theorem Ordered.moved {optind : Nat} (ordered : Ordered state)
    (boundary : state.pending = none) (forward : state.lastNonopt ≤ optind)
    (inside : optind ≤ state.argc) :
    Ordered { state with optind := optind } where
  first_le := ordered.first_le
  last_le := forward
  optind_le := inside
  pending_lt := by
    have settled : ({ state with optind := optind } : State).pending = none :=
      boundary
    rw [settled]
    nofun
  noneSkipped := ordered.noneSkipped

end Lmcas.Lib.Getopt
