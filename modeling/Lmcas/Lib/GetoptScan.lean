import Lmcas.Lib.GetoptSteps

/-!
# What one call of `getopt_long` does to its state

`Placed` is the invariant of the scan: the skipped operands lie before
`optind`, and a word scanned half way is the word at `optind`.  Every call
that does not end the scan keeps it, moves `optind` only forward and lowers
`unread`, the amount of text still to be read, so that a loop around
`getopt_long` ends.
-/

namespace Lmcas.Lib.Getopt

open Lmcas.Lib.CString

/-- The invariant of the scan. -/
structure Placed (state : State) : Prop where
  first_le : state.firstNonopt ≤ state.lastNonopt
  last_le : state.lastNonopt ≤ state.optind
  optind_le : state.optind ≤ state.argc
  pending_lt : state.pending.isSome → state.optind < state.argc

/-- The first state. -/
theorem placed_start {argv : List StrObj} (nonempty : argv ≠ []) :
    Placed (start argv) where
  first_le := Nat.le_refl _
  last_le := Nat.le_refl _
  optind_le := List.length_pos_iff.mpr nonempty
  pending_lt := nofun

/-- The room taken by words: one place for each character and NUL. -/
def weight (words : List StrObj) : Nat :=
  (words.map fun obj => obj.chars.length + 1).sum

/-- The amount of text the scan has not read yet. -/
def State.unread (state : State) : Nat :=
  match state.pending with
  | some (_, rest) =>
      rest.text.length + 1 + weight (state.argv.drop (state.optind + 1))
  | none => weight (state.argv.drop state.optind)

@[simp]
theorem weight_cons (obj : StrObj) (rest : List StrObj) :
    weight (obj :: rest) = obj.chars.length + 1 + weight rest := by
  simp [weight]

theorem length_le_weight (words : List StrObj) :
    words.length ≤ weight words := by
  induction words with
  | nil => exact Nat.le_refl _
  | cons obj rest inductionHypothesis =>
      simp only [List.length_cons, weight_cons]
      omega

/-- The weight of what is ahead is that of the word and of what is behind it. -/
theorem weight_drop_of_getElem?
    {words : List StrObj} {index : Nat} {obj : StrObj}
    (found : words[index]? = some obj) :
    weight (words.drop index) =
      obj.chars.length + 1 + weight (words.drop (index + 1)) := by
  rw [List.drop_eq_getElem?_toList_append, found]
  simp

theorem weight_drop_le
    (words : List StrObj) {low high : Nat} (le : low ≤ high) :
    weight (words.drop high) ≤ weight (words.drop low) := by
  induction le with
  | refl => exact Nat.le_refl _
  | @step high _ inductionHypothesis =>
      refine Nat.le_trans ?_ inductionHypothesis
      rcases found : words[high]? with _ | obj
      · have short : words.length ≤ high :=
          List.getElem?_eq_none_iff.mp found
        rw [List.drop_eq_nil_of_le (Nat.le_succ_of_le short)]
        exact Nat.zero_le _
      · have split := weight_drop_of_getElem? found
        exact Nat.le_trans (Nat.le_add_left _ _)
          (Nat.le_of_eq split.symm)

/-! ## Exchanging and skipping operands -/

@[simp]
theorem exchange_firstNonopt (state : State) :
    (exchange state).firstNonopt =
      state.firstNonopt + (state.optind - state.lastNonopt) :=
  rfl

/-- The exchange moves words only before the index. -/
theorem exchange_argv_of_le {state : State}
    (le : state.optind ≤ state.argc) :
    ∃ front, front.length = state.optind ∧
      (exchange state).argv = front ++ state.argv.drop state.optind := by
  unfold State.argc at le
  by_cases swap : state.firstNonopt < state.lastNonopt ∧
      state.lastNonopt < state.optind
  · refine ⟨_, ?_, by simp only [exchange, if_pos swap]; rfl⟩
    simp only [List.length_append, List.length_take, List.length_drop]
    omega
  · refine ⟨state.argv.take state.optind,
      List.length_take_of_le le, ?_⟩
    simp only [exchange, if_neg swap, List.take_append_drop]

theorem exchange_drop {state : State}
    (le : state.optind ≤ state.argc) :
    (exchange state).argv.drop state.optind =
      state.argv.drop state.optind := by
  rcases exchange_argv_of_le le with ⟨front, length, argv⟩
  rw [argv, ← length, List.drop_left]

theorem exchange_argc {state : State}
    (le : state.optind ≤ state.argc) :
    (exchange state).argc = state.argc := by
  rcases exchange_argv_of_le le with ⟨front, length, argv⟩
  unfold State.argc at *
  rw [argv, List.length_append, List.length_drop]
  omega

/-- The state a call reaches before it looks at the word at `optind`. -/
structure Settled (before after : State) : Prop where
  first_le : after.firstNonopt ≤ after.lastNonopt
  last_le : after.lastNonopt ≤ after.optind
  optind_le : after.optind ≤ after.argc
  forward : before.optind ≤ after.optind
  argc : after.argc = before.argc
  nextchar : after.nextchar = before.nextchar
  unread : weight (after.argv.drop after.optind) ≤
    weight (before.argv.drop before.optind)

/-- Skipping moves the index on and changes no word. -/
theorem skipNonoptions_settled {before after : State}
    (first_le : after.firstNonopt ≤ after.optind)
    (optind_le : after.optind ≤ after.argc)
    (forward : before.optind ≤ after.optind)
    (argc : after.argc = before.argc)
    (nextchar : after.nextchar = before.nextchar)
    (unread : weight (after.argv.drop after.optind) ≤
      weight (before.argv.drop before.optind)) :
    Settled before (skipNonoptions after) := by
  have skipped :
      ((after.argv.drop after.optind).takeWhile
        (nonoption ·.chars)).length ≤ after.argc - after.optind := by
    have bound :=
      ( List.takeWhile_prefix (l := after.argv.drop after.optind)
        (nonoption ·.chars)).length_le
    simpa [State.argc] using bound
  constructor
  case first_le =>
    exact Nat.le_trans first_le (Nat.le_add_right _ _)
  case last_le => exact Nat.le_refl _
  case optind_le =>
    show after.optind + _ ≤ after.argc
    omega
  case forward =>
    exact Nat.le_trans forward (Nat.le_add_right _ _)
  case argc => exact argc
  case nextchar => exact nextchar
  case unread =>
    exact Nat.le_trans
      (weight_drop_le after.argv (Nat.le_add_right _ _)) unread

/-- Marks that are in place need no repair. -/
theorem repair_eq_of_placed {state : State} (placed : Placed state) :
    repair state = state := by
  have last := placed.last_le
  have first := Nat.le_trans placed.first_le last
  simp [repair, Nat.min_eq_left last, Nat.min_eq_left first]

@[simp]
theorem arrange_optind (state : State) :
    (arrange state).optind = state.optind := by
  unfold arrange
  split
  · rfl
  · split <;> rfl

@[simp]
theorem arrange_nextchar (state : State) :
    (arrange state).nextchar = state.nextchar := by
  unfold arrange
  split
  · rfl
  · split <;> rfl

theorem arrange_first_le {state : State} (placed : Placed state) :
    (arrange state).firstNonopt ≤ state.optind := by
  have first := placed.first_le
  have last := placed.last_le
  unfold arrange
  split
  · rw [exchange_firstNonopt]
    omega
  · split
    · exact Nat.le_refl _
    · exact Nat.le_trans first last

theorem arrange_argc {state : State}
    (le : state.optind ≤ state.argc) :
    (arrange state).argc = state.argc := by
  unfold arrange
  split
  · exact exchange_argc le
  · split <;> rfl

theorem arrange_drop {state : State}
    (le : state.optind ≤ state.argc) :
    (arrange state).argv.drop state.optind =
      state.argv.drop state.optind := by
  unfold arrange
  split
  · exact exchange_drop le
  · split <;> rfl

/-- Settling keeps the state in place and adds nothing to what is ahead. -/
theorem settle_settled {state : State} (ordering : Ordering)
    (placed : Placed state) :
    Settled state (settle ordering state) := by
  have inside := placed.optind_le
  have idle : Settled state state :=
    { first_le := placed.first_le
      last_le := placed.last_le
      optind_le := inside
      forward := Nat.le_refl _
      argc := rfl
      nextchar := rfl
      unread := Nat.le_refl _ }
  unfold settle
  rw [repair_eq_of_placed placed]
  cases ordering with
  | permute =>
      apply skipNonoptions_settled
      · rw [arrange_optind]
        exact arrange_first_le placed
      · rw [arrange_optind, arrange_argc inside]
        exact inside
      · exact Nat.le_of_eq (arrange_optind state).symm
      · exact arrange_argc inside
      · exact arrange_nextchar state
      · rw [arrange_optind]
        exact Nat.le_of_eq (congrArg weight (arrange_drop inside))
  | returnInOrder => exact idle
  | requireOrder => exact idle

/-! ## Reading an option -/

/--
What handling an option does to the state, when at most `limit` places of
text are left after it.
-/
structure Consumed (limit : Nat) (before after : State) : Prop where
  argv : after.argv = before.argv
  firstNonopt : after.firstNonopt = before.firstNonopt
  lastNonopt : after.lastNonopt = before.lastNonopt
  forward : before.optind ≤ after.optind
  optind_le : after.optind ≤ after.argc
  pending_lt : after.pending.isSome → after.optind < after.argc
  unread : after.unread ≤ limit

/-- An option that is consumed leaves the state in place. -/
theorem Consumed.placed {limit : Nat} {before after : State}
    (consumed : Consumed limit before after)
    (first_le : before.firstNonopt ≤ before.lastNonopt)
    (last_le : before.lastNonopt ≤ before.optind) :
    Placed after where
  first_le := by
    rw [consumed.firstNonopt, consumed.lastNonopt]
    exact first_le
  last_le := by
    rw [consumed.lastNonopt]
    exact Nat.le_trans last_le consumed.forward
  optind_le := consumed.optind_le
  pending_lt := consumed.pending_lt

theorem unread_of_pending_eq_none {state : State}
    (pending : state.pending = none) :
    state.unread = weight (state.argv.drop state.optind) := by
  simp [State.unread, pending]

/-- A state that stands at a word boundary behind `before`. -/
theorem consumed_of_boundary {limit : Nat} {before after : State}
    (argv : after.argv = before.argv)
    (firstNonopt : after.firstNonopt = before.firstNonopt)
    (lastNonopt : after.lastNonopt = before.lastNonopt)
    (pending : after.pending = none)
    (forward : before.optind < after.optind)
    (optind_le : after.optind ≤ before.argc)
    (unread :
      weight (before.argv.drop (before.optind + 1)) ≤ limit) :
    Consumed limit before after where
  argv := argv
  firstNonopt := firstNonopt
  lastNonopt := lastNonopt
  forward := Nat.le_of_lt forward
  optind_le := by
    unfold State.argc
    rw [argv]
    exact optind_le
  pending_lt := by simp [pending]
  unread := by
    rw [unread_of_pending_eq_none pending, argv]
    exact Nat.le_trans (weight_drop_le before.argv forward) unread

/-- A short option takes its letter, and its argument if it has one. -/
theorem shortOption_consumed
    (config : Config) (state : State) (char : Char) (rest : CStr)
    (inside : state.optind < state.argc) :
    Consumed
      (rest.text.length + weight (state.argv.drop (state.optind + 1)))
      state (shortOption config state char rest).2 := by
  have behind : weight (state.argv.drop (state.optind + 1)) ≤
      rest.text.length + weight (state.argv.drop (state.optind + 1)) :=
    Nat.le_add_left _ _
  have does := shortOption_does config state char rest
  generalize shortOption config state char rest = call at does
  cases does with
  | halfway _ more _ =>
      rcases text : rest.text with _ | ⟨next, tail⟩
      · exact absurd text more
      · exact
          { argv := rfl
            firstNonopt := rfl
            lastNonopt := rfl
            forward := Nat.le_refl _
            optind_le := Nat.le_of_lt inside
            pending_lt := fun _ => inside
            unread := by simp [State.unread, State.pending, text] }
  | ended _ readOff =>
      exact consumed_of_boundary rfl rfl rfl readOff.pending
        (Nat.lt_succ_self _) inside behind
  | attached _ =>
      exact consumed_of_boundary rfl rfl rfl (pending_eq_none_of_null rfl)
        (Nat.lt_succ_self _) inside behind
  | separate _ found =>
      have more : state.optind + 1 < state.argc :=
        (List.getElem?_eq_some_iff.mp found).1
      exact consumed_of_boundary rfl rfl rfl (pending_eq_none_of_null rfl)
        (Nat.lt_succ_of_lt (Nat.lt_succ_self _)) more behind

/-- A long option takes its word, and its argument if it has one. -/
theorem processLongOption_consumed
    (config : Config) (state : State) (name : CStr)
    (inside : state.optind < state.argc) :
    Consumed (weight (state.argv.drop (state.optind + 1)))
      state (processLongOption config state name).2 := by
  have does := processLongOption_does config state name
  generalize processLongOption config state name = call at does
  cases does with
  | rejected readOff =>
      exact consumed_of_boundary rfl rfl rfl readOff.pending
        (Nat.lt_succ_self _) inside (Nat.le_refl _)
  | plain _ =>
      exact consumed_of_boundary rfl rfl rfl (pending_eq_none_of_null rfl)
        (Nat.lt_succ_self _) inside (Nat.le_refl _)
  | attached _ _ =>
      exact consumed_of_boundary rfl rfl rfl (pending_eq_none_of_null rfl)
        (Nat.lt_succ_self _) inside (Nat.le_refl _)
  | separate _ _ found =>
      have more : state.optind + 1 < state.argc :=
        (List.getElem?_eq_some_iff.mp found).1
      exact consumed_of_boundary rfl rfl rfl (pending_eq_none_of_null rfl)
        (Nat.lt_succ_of_lt (Nat.lt_succ_self _)) more (Nat.le_refl _)

/-! ## One call -/

theorem Placed.cleared {state : State} (placed : Placed state) :
    Placed state.cleared where
  first_le := placed.first_le
  last_le := placed.last_le
  optind_le := placed.optind_le
  pending_lt := placed.pending_lt

/-- What a call that does not end the scan does to a placed state. -/
structure Advanced (before after : State) : Prop where
  placed : Placed after
  argc : after.argc = before.argc
  forward : before.optind ≤ after.optind
  unread : after.unread < before.unread

theorem pending_congr {left right : State}
    (nextchar : left.nextchar = right.nextchar) :
    left.pending = right.pending := by
  simp [State.pending, nextchar]

section

variable {config : Config} {state front : State} {obj : StrObj}

theorem AtWord.inside (atWord : AtWord config state front obj) :
    front.optind < front.argc :=
  (List.getElem?_eq_some_iff.mp atWord.found).1

theorem AtWord.settling (atWord : AtWord config state front obj)
    (placed : Placed state) : Settled state.cleared front := by
  rw [← atWord.settled]
  exact settle_settled config.ordering placed.cleared

theorem AtWord.pending (atWord : AtWord config state front obj)
    (placed : Placed state) : front.pending = none :=
  (pending_congr (atWord.settling placed).nextchar).trans atWord.boundary

/-- The word read, and all behind it, has not been read before. -/
theorem AtWord.unread (atWord : AtWord config state front obj)
    (placed : Placed state) :
    obj.chars.length + 1 + weight (front.argv.drop (front.optind + 1)) ≤
      state.unread := by
  rw [← weight_drop_of_getElem? atWord.found,
    unread_of_pending_eq_none atWord.boundary]
  exact (atWord.settling placed).unread

/-- What is consumed is read off. -/
theorem Consumed.advanced {limit : Nat} {after : State}
    (consumed : Consumed limit front after)
    (atWord : AtWord config state front obj) (placed : Placed state)
    (lower : limit <
      obj.chars.length + 1 + weight (front.argv.drop (front.optind + 1))) :
    Advanced state after where
  placed :=
    consumed.placed (atWord.settling placed).first_le
      (atWord.settling placed).last_le
  argc :=
    (congrArg List.length consumed.argv).trans
      (atWord.settling placed).argc
  forward := Nat.le_trans (atWord.settling placed).forward consumed.forward
  unread :=
    Nat.lt_of_le_of_lt consumed.unread
      (Nat.lt_of_lt_of_le lower (atWord.unread placed))

/-- A call that is not at the end leaves less to read. -/
theorem getoptLong_advanced (config : Config) (placed : Placed state)
    (notEof : (getoptLong config state).1 ≠ .eof) :
    Advanced state (getoptLong config state).2 := by
  have does := getoptLong_does config state
  generalize getoptLong config state = call at does notEof
  cases does with
  | @halfway char rest pending =>
      have inside : state.optind < state.argc :=
        placed.pending_lt (by rw [pending]; rfl)
      have consumed :=
        shortOption_consumed config state.cleared char rest inside
      exact
        { placed := consumed.placed placed.first_le placed.last_le
          argc := congrArg List.length consumed.argv
          forward := consumed.forward
          unread := by
            refine Nat.lt_of_le_of_lt consumed.unread ?_
            simp only [State.unread, pending]
            exact Nat.add_lt_add_right (Nat.lt_succ_self _) _ }
  | exhausted _ _ _ => exact absurd rfl notEof
  | terminator _ _ => exact absurd rfl notEof
  | long atWord _ =>
      apply (processLongOption_consumed config _ _ atWord.inside).advanced
        atWord placed
      exact Nat.lt_add_of_pos_left (Nat.succ_pos _)
  | short atWord _ =>
      apply (shortOption_consumed config _ _ _ atWord.inside).advanced
        atWord placed
      simp only [CStr.text_add, StrObj.text_ptr, List.length_drop]
      omega
  | @operand front obj atWord _ _ =>
      have consumed :
          Consumed (weight (front.argv.drop (front.optind + 1))) front
            { front with
              optarg := some obj.ptr
              optind := front.optind + 1 } :=
        consumed_of_boundary rfl rfl rfl (atWord.pending placed)
          (Nat.lt_succ_self _) atWord.inside (Nat.le_refl _)
      apply consumed.advanced atWord placed
      exact Nat.lt_add_of_pos_left (Nat.succ_pos _)
  | stopped _ _ _ => exact absurd rfl notEof

end

end Lmcas.Lib.Getopt
