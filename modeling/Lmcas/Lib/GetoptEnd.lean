import Lmcas.Lib.GetoptExtend
import Mathlib.Data.List.TakeWhile

/-!
# How a scan ends

A scan that ends with no operand left over has read every word, or has read
every word but a last `--`.  In both cases the state before the last call is
a word boundary with no skipped operand, and operands added to the argument
vector are exactly what the same scan leaves over.
-/

namespace Lmcas.Lib.Getopt

open Lmcas.Lib.CString

/-- Only two dashes end the options. -/
theorem element_terminator_iff (word : Word) :
    element word = .terminator ↔ word = ['-', '-'] := by
  constructor
  · intro equal
    unfold element at equal
    split at equal <;> simp_all
  · rintro rfl
    rfl

theorem element_operand_iff (word : Word) :
    element word = .operand ↔ nonoption word = true := by
  match word with
  | [] => simp [element, nonoption]
  | [char] =>
      by_cases dash : char = '-'
      · subst dash
        simp [element, nonoption]
      · simp [element, nonoption]
  | first :: second :: rest =>
      by_cases dash : first = '-'
      · subst dash
        by_cases dash' : second = '-'
        · subst dash'
          cases rest <;> simp [element, nonoption]
        · cases rest <;> simp [element, nonoption, dash']
      · simp [element, nonoption, dash]

/-! ## The last call -/

/-- The next word is a `--` that ends the argument vector. -/
def LastIsDashDash (state : State) : Prop :=
  state.optind + 1 = state.argc ∧
    ∃ obj, state.argv[state.optind]? = some obj ∧
      obj.chars = ['-', '-']

/-- Every word is read: the scan is at the end of the argument vector, or at
a last `--`, and no operand was skipped. -/
structure Drained (state : State) : Prop where
  boundary : state.pending = none
  noneSkipped : state.firstNonopt = state.lastNonopt
  atEnd : state.optind = state.argc ∨ LastIsDashDash state

/-- If no operand has been skipped, none was there. -/
theorem skipNonoptions_eq_of_first_eq_last {state : State}
    (le : state.firstNonopt ≤ state.optind)
    (equal : (skipNonoptions state).firstNonopt =
      (skipNonoptions state).lastNonopt) :
    state.firstNonopt = state.optind ∧
      skipNonoptions state =
        { state with lastNonopt := state.optind } := by
  have total : state.firstNonopt = state.optind +
      ((state.argv.drop state.optind).takeWhile
        (nonoption ·.chars)).length := equal
  have zero : ((state.argv.drop state.optind).takeWhile
      (nonoption ·.chars)).length = 0 := by omega
  refine ⟨by omega, ?_⟩
  simp only [skipNonoptions, zero, Nat.add_zero]

/-- Settling with nothing skipped afterwards does not touch the vector. -/
theorem settle_permute_eq_of_first_eq_last {state : State}
    (placed : Placed state)
    (equal : (settle .permute state).firstNonopt =
      (settle .permute state).lastNonopt) :
    state.firstNonopt = state.lastNonopt ∧
      settle .permute state =
        { state with
          firstNonopt := state.optind
          lastNonopt := state.optind } := by
  have first := placed.first_le
  have last := placed.last_le
  simp only [settle, repair_eq_of_placed placed] at equal ⊢
  have skip := skipNonoptions_eq_of_first_eq_last
    (by rw [arrange_optind]; exact arrange_first_le placed) equal
  rw [arrange_optind] at skip
  rcases skip with ⟨moved, skipped⟩
  rw [skipped]
  by_cases swap : state.firstNonopt ≠ state.lastNonopt ∧
      state.lastNonopt ≠ state.optind
  · have arranged : arrange state = exchange state := if_pos swap
    rw [arranged, exchange_firstNonopt] at moved
    exact absurd (by omega) swap.1
  · have arranged : arrange state =
        if state.lastNonopt ≠ state.optind then
          { state with firstNonopt := state.optind }
        else state := if_neg swap
    rw [arranged] at moved ⊢
    by_cases behind : state.lastNonopt ≠ state.optind
    · have same : state.firstNonopt = state.lastNonopt := by
        by_contra distinct
        exact swap ⟨distinct, behind⟩
      exact ⟨same, by rw [if_pos behind]⟩
    · have here : state.lastNonopt = state.optind := not_not.mp behind
      rw [if_neg behind] at moved ⊢
      refine ⟨moved.trans here.symm, ?_⟩
      rw [← moved]

/-- With no operand before it `--` is passed and the rest is operands. -/
theorem dashDash_of_first_eq_last {state : State}
    (equal : state.firstNonopt = state.lastNonopt) :
    dashDash state =
      { state with
        firstNonopt := state.optind + 1
        lastNonopt := state.argc
        optind := state.argc } := by
  simp only [dashDash, equal, ne_eq, not_true_eq_false, false_and,
    if_false, if_true]
  rfl

theorem finish_of_first_ne_last {state : State}
    (distinct : state.firstNonopt ≠ state.lastNonopt) :
    finish state = (.eof, { state with optind := state.firstNonopt }) :=
  congrArg (Prod.mk Ret.eof) (if_pos distinct)

theorem finish_of_first_eq_last {state : State}
    (equal : state.firstNonopt = state.lastNonopt) :
    finish state = (.eof, state) :=
  congrArg (Prod.mk Ret.eof) (if_neg (not_not.mpr equal))

/-- With an operand skipped before it, `--` leaves an operand over. -/
theorem finish_dashDash_of_first_ne_last {state : State}
    (first_lt : state.firstNonopt < state.lastNonopt)
    (last_le : state.lastNonopt ≤ state.optind)
    (inside : state.optind < state.argc) :
    (finish (dashDash state)).2.optind <
      (finish (dashDash state)).2.argc := by
  have swap : state.firstNonopt ≠ state.lastNonopt ∧
      state.lastNonopt ≠ state.optind + 1 := by omega
  have argc := @exchange_argc
    { state with optind := state.optind + 1 } inside
  have dashed : dashDash state =
      { exchange { state with optind := state.optind + 1 } with
        lastNonopt := state.argc, optind := state.argc } := by
    simp only [dashDash, if_pos swap, argc]
    rfl
  have ne : state.firstNonopt + (state.optind + 1 - state.lastNonopt) ≠
      state.argc := by omega
  rw [dashed, finish_of_first_ne_last ne]
  calc state.firstNonopt + (state.optind + 1 - state.lastNonopt)
      < state.argc := by omega
    _ = (exchange { state with optind := state.optind + 1 }).argc :=
        argc.symm

/-- Where `--` leaves no operand it is the last word. -/
theorem lastIsDashDash_of_noOperand {state : State} {obj : StrObj}
    (found : state.argv[state.optind]? = some obj)
    (terminator : element obj.chars = .terminator)
    (first_le : state.firstNonopt ≤ state.lastNonopt)
    (last_le : state.lastNonopt ≤ state.optind)
    (noOperand : (finish (dashDash state)).2.argc ≤
      (finish (dashDash state)).2.optind) :
    state.firstNonopt = state.lastNonopt ∧ LastIsDashDash state := by
  have inside : state.optind < state.argc :=
    (List.getElem?_eq_some_iff.mp found).1
  have equal : state.firstNonopt = state.lastNonopt := by
    by_contra distinct
    have less := finish_dashDash_of_first_ne_last
      (Nat.lt_of_le_of_ne first_le distinct) last_le inside
    exact Nat.not_le_of_lt less noOperand
  refine ⟨equal, ?_, obj, found, (element_terminator_iff _).mp terminator⟩
  by_contra more
  rw [dashDash_of_first_eq_last equal] at noOperand
  simp only [finish, ne_eq, more, not_false_eq_true, if_true]
    at noOperand
  have argc : state.argc ≤ state.optind + 1 := noOperand
  exact more (Nat.le_antisymm inside argc)

theorem eq_of_first_eq_last {state : State}
    (equal : state.firstNonopt = state.lastNonopt) :
    state =
      { state with
        firstNonopt := state.lastNonopt
        lastNonopt := state.lastNonopt } := by
  rcases state with ⟨argv, optind, optarg, nextchar, first, last⟩
  cases equal
  rfl

/-- Without permutation settling does nothing. -/
theorem settle_inPlace {ordering : Ordering} (order : ordering ≠ .permute)
    {state : State} (placed : Placed state) :
    settle ordering state = state := by
  have repaired := repair_eq_of_placed placed
  cases ordering with
  | permute => exact absurd rfl order
  | returnInOrder => exact repaired
  | requireOrder => exact repaired

/-- Settling that finds no operand only moves the marks. -/
theorem settle_eq_of_first_eq_last (ordering : Ordering) {state : State}
    (placed : Placed state)
    (equal : (settle ordering state).firstNonopt =
      (settle ordering state).lastNonopt) :
    state.firstNonopt = state.lastNonopt ∧
      ∃ place, settle ordering state =
        { state with firstNonopt := place, lastNonopt := place } := by
  by_cases order : ordering = .permute
  · subst order
    have settled := settle_permute_eq_of_first_eq_last placed equal
    exact ⟨settled.1, _, settled.2⟩
  · rw [settle_inPlace order placed] at equal ⊢
    exact ⟨equal, state.lastNonopt, eq_of_first_eq_last equal⟩

/-- Settling with nothing skipped afterwards is undone. -/
theorem drained_of_settled {config : Config} {state : State}
    (placed : Placed state) (boundary : state.pending = none)
    (equal : (settle config.ordering state.cleared).firstNonopt =
      (settle config.ordering state.cleared).lastNonopt)
    (atEnd : (settle config.ordering state.cleared).optind =
        (settle config.ordering state.cleared).argc ∨
      LastIsDashDash (settle config.ordering state.cleared)) :
    Drained state := by
  rcases settle_eq_of_first_eq_last config.ordering placed.cleared equal
    with ⟨noneSkipped, place, settled⟩
  rw [settled] at atEnd
  exact ⟨boundary, noneSkipped, atEnd⟩

/-- A scan that leaves no operand over is drained. -/
theorem drained_of_eof {config : Config} {state : State}
    (placed : Placed state)
    (eof : (getoptLong config state).1 = .eof)
    (noOperand : (getoptLong config state).2.argc ≤
      (getoptLong config state).2.optind) :
    Drained state := by
  have does := getoptLong_does config state
  generalize getoptLong config state = call at does eof noOperand
  cases does with
  | halfway _ => exact absurd eof (shortOption_ne_eof _ _ _ _)
  | exhausted boundary settled noWord =>
      have settling := settle_settled config.ordering placed.cleared
      subst settled
      have atEnd := List.getElem?_eq_none_iff.mp noWord
      refine drained_of_settled placed boundary ?_
        (Or.inl (Nat.le_antisymm settling.optind_le atEnd))
      by_contra distinct
      rw [finish_of_first_ne_last distinct] at noOperand
      have skipped :=
        Nat.lt_of_le_of_ne settling.first_le distinct
      have inside := Nat.le_trans settling.last_le settling.optind_le
      exact Nat.not_lt_of_le noOperand (Nat.lt_of_lt_of_le skipped inside)
  | terminator atWord kind =>
      have settling := atWord.settling placed
      rcases lastIsDashDash_of_noOperand atWord.found kind
          settling.first_le settling.last_le noOperand with
        ⟨equal, dashed⟩
      rw [← atWord.settled] at equal dashed
      exact drained_of_settled placed atWord.boundary equal (Or.inr dashed)
  | long _ _ => exact absurd eof (processLongOption_ne_eof _ _ _)
  | short _ _ => exact absurd eof (shortOption_ne_eof _ _ _ _)
  | operand _ _ _ => cases eof
  | stopped atWord _ _ =>
      exact absurd noOperand (Nat.not_le_of_lt atWord.inside)

/-! ## Operands behind a drained scan -/

variable (added : List StrObj)

theorem arrange_of_first_eq_last {state : State}
    (equal : state.firstNonopt = state.lastNonopt) :
    arrange state = { state with firstNonopt := state.optind } := by
  have noSwap : ¬ (state.firstNonopt ≠ state.lastNonopt ∧
      state.lastNonopt ≠ state.optind) := fun swap => swap.1 equal
  have arranged : arrange state =
      if state.lastNonopt ≠ state.optind then
        { state with firstNonopt := state.optind }
      else state := if_neg noSwap
  rw [arranged]
  by_cases behind : state.lastNonopt ≠ state.optind
  · rw [if_pos behind]
  · rcases state with ⟨argv, optind, optarg, nextchar, first, last⟩
    rw [if_neg behind]
    cases equal
    cases not_not.mp behind
    rfl

theorem skipNonoptions_of_option {state : State} {obj : StrObj}
    (found : state.argv[state.optind]? = some obj)
    (option : nonoption obj.chars = false) :
    skipNonoptions state =
      { state with lastNonopt := state.optind } := by
  have head : state.argv.drop state.optind =
      obj :: state.argv.drop (state.optind + 1) := by
    rw [List.drop_eq_getElem?_toList_append, found]
    rfl
  simp only [skipNonoptions, head, List.takeWhile_cons, option,
    Bool.false_eq_true, if_false, List.length_nil, Nat.add_zero]

/-- With nothing skipped, an option word at `optind` stops the settling. -/
theorem settle_of_option (ordering : Ordering)
    {state : State} {obj : StrObj}
    (placed : Placed state)
    (noneSkipped : state.firstNonopt = state.lastNonopt)
    (found : state.argv[state.optind]? = some obj)
    (option : nonoption obj.chars = false) :
    ∃ place, place ≤ state.optind ∧
      settle ordering state =
        { state with firstNonopt := place, lastNonopt := place } := by
  have last := placed.last_le
  have idle := eq_of_first_eq_last noneSkipped
  unfold settle
  rw [repair_eq_of_placed placed]
  cases ordering with
  | permute =>
      refine ⟨state.optind, Nat.le_refl _, ?_⟩
      simp only
      rw [arrange_of_first_eq_last noneSkipped]
      exact skipNonoptions_of_option found option
  | returnInOrder => exact ⟨state.lastNonopt, last, idle⟩
  | requireOrder => exact ⟨state.lastNonopt, last, idle⟩

/-- More words leave a state in place. -/
theorem placed_extend {state : State} (placed : Placed state) :
    Placed (state.extend added) where
  first_le := placed.first_le
  last_le := placed.last_le
  optind_le := by
    rw [extend_argc]
    exact Nat.le_add_right_of_le placed.optind_le
  pending_lt := by
    intro pending
    rw [extend_argc]
    exact Nat.lt_add_right _ (placed.pending_lt pending)

/-- Behind a last `--` everything added is an operand. -/
theorem getoptLong_extend_lastIsDashDash
    (config : Config) {state : State}
    (placed : Placed state) (boundary : state.pending = none)
    (noneSkipped : state.firstNonopt = state.lastNonopt)
    (dashed : LastIsDashDash state) :
    ∃ after, getoptLong config (state.extend added) = (.eof, after) ∧
      after.argv = state.argv ++ added ∧
      after.optind = state.argc := by
  rcases dashed with ⟨atEnd, obj, found, chars⟩
  have found' := getElem?_append_of_some added found
  have option : nonoption obj.chars = false := by
    rw [chars]
    rfl
  rcases settle_of_option config.ordering
      (placed_extend added placed).cleared noneSkipped found' option with
    ⟨place, _, settled⟩
  have terminator : Call config (state.extend added) _ :=
    .terminator ⟨boundary, settled, found'⟩
      ((element_terminator_iff _).mpr chars)
  rw [terminator.getoptLong_eq]
  rw [dashDash_of_first_eq_last rfl]
  by_cases last : added = []
  · subst last
    refine ⟨_, finish_of_first_eq_last ?_, rfl, ?_⟩
    · simpa [State.argc, State.extend, State.cleared] using atEnd
    · simp [State.argc, State.extend, State.cleared]
  · have positive : 0 < added.length := List.length_pos_iff.mpr last
    refine ⟨_, finish_of_first_ne_last ?_, rfl, atEnd⟩
    have argc := extend_argc added state
    show state.optind + 1 ≠ (state.extend added).argc
    omega

/-- At the end of a permuting scan the added operands are skipped, up to the
first added option word. -/
theorem settle_extend_atEnd {state : State}
    (placed : Placed state)
    (noneSkipped : state.firstNonopt = state.lastNonopt)
    (atEnd : state.optind = state.argc) :
    settle .permute (state.extend added) =
      { state.extend added with
        firstNonopt := state.argc
        optind := state.argc +
          (added.takeWhile (nonoption ·.chars)).length
        lastNonopt := state.argc +
          (added.takeWhile (nonoption ·.chars)).length } := by
  have repaired := repair_eq_of_placed (placed_extend added placed)
  have arranged := arrange_of_first_eq_last noneSkipped
  have drop : (state.argv ++ added).drop state.argv.length = added :=
    List.drop_left
  have here : state.optind = state.argv.length := atEnd
  show skipNonoptions (arrange (repair (state.extend added))) = _
  rw [repaired, arrange_extend added (Nat.le_of_eq atEnd), arranged]
  simp only [skipNonoptions, State.extend, State.argc, here, drop]

/-- Operands behind the end of a permuting scan are left over, in order. -/
theorem getoptLong_extend_atEnd
    {config : Config} (order : config.ordering = .permute)
    {state : State} (placed : Placed state)
    (boundary : state.pending = none)
    (noneSkipped : state.firstNonopt = state.lastNonopt)
    (atEnd : state.optind = state.argc)
    (operands : ∀ obj ∈ added, nonoption obj.chars) :
    ∃ after, getoptLong config (state.extend added) = (.eof, after) ∧
      after.argv = state.argv ++ added ∧
      after.optind = state.argc := by
  have nonoptions : added.takeWhile (nonoption ·.chars) = added :=
    List.takeWhile_eq_self_iff.mpr operands
  have settled := settle_extend_atEnd added placed.cleared
    noneSkipped atEnd
  rw [← order, nonoptions] at settled
  have exhausted : Call config (state.extend added) _ :=
    .exhausted boundary settled
      (by simp [State.extend, State.cleared, State.argc])
  rw [exhausted.getoptLong_eq]
  by_cases last : added = []
  · subst last
    exact ⟨_, finish_of_first_eq_last rfl, rfl, rfl⟩
  · have positive : 0 < added.length := List.length_pos_iff.mpr last
    refine ⟨_, finish_of_first_ne_last ?_, rfl, rfl⟩
    exact Nat.ne_of_lt (Nat.lt_add_of_pos_right positive)

/-- Behind the end of a permuting scan the first added option word is read,
with the added operands in front of it skipped and not yet moved. -/
theorem getoptLong_extend_option
    {config : Config} (order : config.ordering = .permute)
    {state : State} (placed : Placed state)
    (boundary : state.pending = none)
    (noneSkipped : state.firstNonopt = state.lastNonopt)
    (atEnd : state.optind = state.argc)
    {obj : StrObj} {char : Char}
    (found : added[(added.takeWhile (nonoption ·.chars)).length]? =
      some obj)
    (option : element obj.chars = .short char) :
    ∃ front : State, front.argv = state.argv ++ added ∧
      front.optind = state.argc +
        (added.takeWhile (nonoption ·.chars)).length ∧
      getoptLong config (state.extend added) =
        shortOption config front char (obj.ptr.add 2) := by
  have settled := settle_extend_atEnd added placed.cleared
    noneSkipped atEnd
  rw [← order] at settled
  have found' : (state.argv ++ added)[state.argc +
      (added.takeWhile (nonoption ·.chars)).length]? = some obj := by
    rw [← found, State.argc]
    exact List.getElem?_append_right (Nat.le_add_right _ _) |>.trans
      (by rw [Nat.add_sub_cancel_left])
  have short : Call config (state.extend added) _ :=
    .short ⟨boundary, settled, found'⟩ option
  exact ⟨_, rfl, rfl, short.getoptLong_eq⟩

/-! ## Scans that do not permute -/

/-- Where the words are not permuted the call looks at the word of the index. -/
theorem AtWord.front_eq {config : Config} {state front : State}
    {obj : StrObj} (atWord : AtWord config state front obj)
    (order : config.ordering ≠ .permute) (placed : Placed state) :
    state.cleared = front := by
  rw [← atWord.settled]
  exact (settle_inPlace order placed.cleared).symm

/-- What a call leaves alone without permutation. -/
structure InPlace (before after : State) : Prop where
  argv : after.argv = before.argv
  firstNonopt : after.firstNonopt = before.firstNonopt
  lastNonopt : after.lastNonopt = before.lastNonopt

theorem Consumed.inPlace {limit : Nat} {before after : State}
    (consumed : Consumed limit before.cleared after) :
    InPlace before after where
  argv := consumed.argv
  firstNonopt := consumed.firstNonopt
  lastNonopt := consumed.lastNonopt

/-- A call that does not permute leaves the words and the marks alone. -/
theorem getoptLong_inPlace
    {config : Config} (order : config.ordering ≠ .permute)
    {state : State} (placed : Placed state)
    (notEof : (getoptLong config state).1 ≠ .eof) :
    InPlace state (getoptLong config state).2 := by
  have does := getoptLong_does config state
  generalize getoptLong config state = call at does notEof
  cases does with
  | halfway pending =>
      have inside : state.cleared.optind < state.cleared.argc :=
        placed.pending_lt (by rw [pending]; rfl)
      exact (shortOption_consumed config _ _ _ inside).inPlace
  | exhausted _ _ _ => exact absurd rfl notEof
  | terminator _ _ => exact absurd rfl notEof
  | long atWord _ =>
      obtain rfl := atWord.front_eq order placed
      exact (processLongOption_consumed config _ _ atWord.inside).inPlace
  | short atWord _ =>
      obtain rfl := atWord.front_eq order placed
      exact (shortOption_consumed config _ _ _ atWord.inside).inPlace
  | operand atWord _ _ =>
      obtain rfl := atWord.front_eq order placed
      exact ⟨rfl, rfl, rfl⟩
  | stopped _ _ _ => exact absurd rfl notEof

/-- Without permutation no operand is ever skipped. -/
theorem getoptLong_noneSkipped
    {config : Config} (order : config.ordering ≠ .permute)
    {state : State} (placed : Placed state)
    (notEof : (getoptLong config state).1 ≠ .eof)
    (noneSkipped : state.firstNonopt = state.lastNonopt) :
    (getoptLong config state).2.firstNonopt =
      (getoptLong config state).2.lastNonopt := by
  have inPlace := getoptLong_inPlace order placed notEof
  rw [inPlace.firstNonopt, inPlace.lastNonopt]
  exact noneSkipped

/-- With `POSIXLY_CORRECT` the first operand ends the scan where it
stands. -/
theorem getoptLong_extend_atEnd_requireOrder
    {config : Config} (order : config.ordering = .requireOrder)
    {state : State} (placed : Placed state)
    (boundary : state.pending = none)
    (noneSkipped : state.firstNonopt = state.lastNonopt)
    (atEnd : state.optind = state.argc)
    (operands : ∀ obj ∈ added, nonoption obj.chars) :
    ∃ after, getoptLong config (state.extend added) = (.eof, after) ∧
      after.argv = state.argv ++ added ∧
      after.optind = state.argc := by
  have inPlace : config.ordering ≠ .permute := by
    rw [order]
    nofun
  have still : settle config.ordering (state.extend added).cleared =
      (state.extend added).cleared :=
    settle_inPlace inPlace (placed_extend added placed).cleared
  have here : state.optind = state.argv.length := atEnd
  rcases added with _ | ⟨obj, rest⟩
  · have exhausted : Call config (state.extend []) _ :=
      .exhausted boundary still
        (by simp [State.extend, State.cleared, here])
    rw [exhausted.getoptLong_eq]
    exact ⟨_, finish_of_first_eq_last noneSkipped, rfl, atEnd⟩
  · have found : (state.extend (obj :: rest)).cleared.argv[
        (state.extend (obj :: rest)).cleared.optind]? = some obj := by
      simp [State.extend, State.cleared, here]
    have operand : element obj.chars = .operand :=
      (element_operand_iff _).mpr (operands obj List.mem_cons_self)
    have stopped : Call config (state.extend (obj :: rest)) _ :=
      .stopped ⟨boundary, still, found⟩ operand order
    exact ⟨_, stopped.getoptLong_eq, rfl, atEnd⟩

/-- The scan passes over nothing: it permutes, or has skipped nothing. -/
def Orderly (config : Config) (state : State) : Prop :=
  config.ordering = .permute ∨
    config.ordering = .requireOrder ∧
      state.firstNonopt = state.lastNonopt

/-- A call keeps the order of what is still to be read. -/
theorem Orderly.called {config : Config} {state : State}
    (orderly : Orderly config state) (placed : Placed state)
    (notEof : (getoptLong config state).1 ≠ .eof) :
    Orderly config (getoptLong config state).2 := by
  rcases orderly with permute | ⟨require, noneSkipped⟩
  · exact Or.inl permute
  · refine Or.inr ⟨require, ?_⟩
    apply getoptLong_noneSkipped ?_ placed notEof noneSkipped
    rw [require]
    nofun

/-- The operands added behind a drained scan are left over, in order. -/
theorem Orderly.extend_drained {config : Config} {state : State}
    (orderly : Orderly config state) (placed : Placed state)
    (drained : Drained state)
    (operands : ∀ obj ∈ added, nonoption obj.chars) :
    ∃ after, getoptLong config (state.extend added) = (.eof, after) ∧
      after.argv = state.argv ++ added ∧
      after.optind = state.argc := by
  rcases drained with ⟨boundary, noneSkipped, atEnd | dashed⟩
  · rcases orderly with permute | ⟨require, _⟩
    · exact getoptLong_extend_atEnd added permute placed boundary
        noneSkipped atEnd operands
    · exact getoptLong_extend_atEnd_requireOrder added require placed
        boundary noneSkipped atEnd operands
  · exact getoptLong_extend_lastIsDashDash added config placed boundary
      noneSkipped dashed

end Lmcas.Lib.Getopt
