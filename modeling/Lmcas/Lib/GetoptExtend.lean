import Lmcas.Lib.GetoptScan

/-!
# `getopt_long` on an argument vector with words added at the end

A call that returns an option or an operand reads no word behind the ones it
consumes.  The same call on a longer argument vector therefore returns the
same value and leaves the same state, with the added words still in place.
-/

namespace Lmcas.Lib.Getopt

open Lmcas.Lib.CString

/-- The state with words added at the end of the argument vector. -/
def State.extend (state : State) (added : List StrObj) : State :=
  { state with argv := state.argv ++ added }

variable (added : List StrObj)

/-- The added words stand behind the others. -/
@[simp]
theorem extend_argv (state : State) :
    (state.extend added).argv = state.argv ++ added :=
  rfl

/-- The index stays. -/
@[simp]
theorem extend_optind (state : State) :
    (state.extend added).optind = state.optind :=
  rfl

/-- The argument of an option stays. -/
@[simp]
theorem extend_optarg (state : State) :
    (state.extend added).optarg = state.optarg :=
  rfl

/-- The count grows by the added words. -/
@[simp]
theorem extend_argc (state : State) :
    (state.extend added).argc = state.argc + added.length :=
  List.length_append

/-- The first state on a longer argument list is the extended one. -/
theorem start_append (argv : List StrObj) :
    start (argv ++ added) = (start argv).extend added :=
  rfl

/-! ## Settling -/

/-- The exchange moves only words before the index, which the added ones are
not. -/
theorem exchange_extend {state : State}
    (le : state.optind ≤ state.argc) :
    exchange (state.extend added) = (exchange state).extend added := by
  unfold State.argc at le
  by_cases swap : state.firstNonopt < state.lastNonopt ∧
      state.lastNonopt < state.optind
  · have first : state.firstNonopt ≤ state.argv.length := by omega
    have last : state.lastNonopt ≤ state.argv.length := by omega
    simp [exchange, State.extend, swap,
      List.take_append_of_le_length first,
      List.take_append_of_le_length last,
      List.take_append_of_le_length le,
      List.drop_append_of_le_length le]
  · simp [exchange, State.extend, swap]

/-- So does the bookkeeping around it. -/
theorem arrange_extend {state : State}
    (le : state.optind ≤ state.argc) :
    arrange (state.extend added) = (arrange state).extend added := by
  by_cases swap : state.firstNonopt ≠ state.lastNonopt ∧
      state.lastNonopt ≠ state.optind
  · have left : arrange (state.extend added) =
        exchange (state.extend added) := if_pos swap
    have right : arrange state = exchange state := if_pos swap
    rw [left, right, exchange_extend added le]
  · have left : arrange (state.extend added) =
        if state.lastNonopt ≠ state.optind then
          { state.extend added with firstNonopt := state.optind }
        else state.extend added := if_neg swap
    have right : arrange state =
        if state.lastNonopt ≠ state.optind then
          { state with firstNonopt := state.optind }
        else state := if_neg swap
    rw [left, right]
    split <;> rfl

/-- Where the skipping stops at an option, it stops there on the longer list
too. -/
theorem skipNonoptions_extend {state : State}
    (le : state.optind ≤ state.argc)
    (stops : (skipNonoptions state).optind < state.argc) :
    skipNonoptions (state.extend added) =
      (skipNonoptions state).extend added := by
  have drop :
      (state.argv ++ added).drop state.optind =
        state.argv.drop state.optind ++ added :=
    List.drop_append_of_le_length le
  have proper :
      ((state.argv.drop state.optind).takeWhile
        (nonoption ·.chars)).length ≠
        (state.argv.drop state.optind).length := by
    have bound : state.optind +
        ((state.argv.drop state.optind).takeWhile
          (nonoption ·.chars)).length < state.argv.length := stops
    rw [List.length_drop]
    omega
  simp only [skipNonoptions, State.extend, drop,
    List.takeWhile_append, if_neg proper]

/-- With that the scan settles on the same word. -/
theorem settle_extend (ordering : Ordering) {state : State}
    (placed : Placed state)
    (stops : (settle ordering state).optind < state.argc) :
    settle ordering (state.extend added) =
      (settle ordering state).extend added := by
  have inside := placed.optind_le
  have repaired := repair_eq_of_placed placed
  have repaired' : repair (state.extend added) = state.extend added :=
    congrArg (State.extend · added) repaired
  cases ordering with
  | permute =>
      simp only [settle, repaired, repaired'] at stops ⊢
      rw [arrange_extend added inside]
      apply skipNonoptions_extend
      · rw [arrange_optind, arrange_argc inside]
        exact inside
      · rw [arrange_argc inside]
        exact stops
  | returnInOrder => exact repaired'.trans (by simp [settle, repaired])
  | requireOrder => exact repaired'.trans (by simp [settle, repaired])

/-! ## Options -/

/-- A word that is there stays where it is. -/
theorem getElem?_append_of_some {words : List StrObj} {index : Nat}
    {obj : StrObj} (found : words[index]? = some obj) :
    (words ++ added)[index]? = some obj := by
  have inside : index < words.length :=
    (List.getElem?_eq_some_iff.mp found).1
  rw [List.getElem?_append_left inside, found]

/-- A short option that is recognized, with its argument in place, is read the
same way. -/
theorem shortOption_extend
    (config : Config) (state : State) (char : Char) (rest : CStr)
    (recognized :
      (shortOption config state char rest).1 ≠ .unrecognized) :
    shortOption config (state.extend added) char rest =
      ((shortOption config state char rest).1,
        (shortOption config state char rest).2.extend added) := by
  unfold shortOption at recognized ⊢
  rcases kind : shortArg config.optstring char with _ | _ | _ | _
  · simp [kind] at recognized
  · rfl
  · by_cases empty : rest.text = []
    · simp only [kind, if_pos empty] at recognized ⊢
      rcases found : state.argv[state.optind + 1]? with _ | obj
      · simp [found] at recognized
      · simp [State.extend, getElem?_append_of_some added found]
    · simp [State.extend, empty]
  · by_cases empty : rest.text = []
    · simp [State.extend, empty]
    · simp [State.extend, empty]

/-- So is a long option. -/
theorem processLongOption_extend
    (config : Config) (state : State) (name : CStr)
    (recognized :
      (processLongOption config state name).1 ≠ .unrecognized) :
    processLongOption config (state.extend added) name =
      ((processLongOption config state name).1,
        (processLongOption config state name).2.extend added) := by
  unfold processLongOption at recognized ⊢
  dsimp only at recognized ⊢
  rcases lookup : lookupLong config.longopts
      (name.text.takeWhile (· ≠ '=')) with _ | _ | option
  · simp only [lookup] at recognized
    exact absurd rfl recognized
  · simp only [lookup] at recognized
    exact absurd rfl recognized
  · simp only [lookup] at recognized ⊢
    rcases value : name.text.dropWhile (· ≠ '=') with _ | ⟨_, _⟩
    · simp only [value] at recognized ⊢
      by_cases required : option.hasArg = .required
      · simp only [if_pos required] at recognized ⊢
        rcases found : state.argv[state.optind + 1]? with _ | obj
        · simp [found] at recognized
        · simp [State.extend, getElem?_append_of_some added found]
      · simp [State.extend, required]
    · simp only [value] at recognized ⊢
      by_cases no : option.hasArg = .no
      · simp [no] at recognized
      · simp [State.extend, no]

/-! ## One call -/

/-- The word that a call looks at is the same. -/
theorem AtWord.extend {config : Config} {state front : State} {obj : StrObj}
    (atWord : AtWord config state front obj) (placed : Placed state) :
    AtWord config (state.extend added) (front.extend added) obj where
  boundary := atWord.boundary
  settled := by
    have stops : (settle config.ordering state.cleared).optind <
        state.cleared.argc := by
      rw [← (settle_settled config.ordering placed.cleared).argc,
        atWord.settled]
      exact atWord.inside
    rw [← atWord.settled]
    exact settle_extend added config.ordering placed.cleared stops
  found := getElem?_append_of_some added atWord.found

/-- A call that returns a recognized option gives the same result and state,
whatever words are added behind. -/
theorem getoptLong_extend
    (config : Config) {state : State} (placed : Placed state)
    (notEof : (getoptLong config state).1 ≠ .eof)
    (recognized : (getoptLong config state).1 ≠ .unrecognized) :
    getoptLong config (state.extend added) =
      ((getoptLong config state).1,
        (getoptLong config state).2.extend added) := by
  have does := getoptLong_does config state
  generalize getoptLong config state = call at does notEof recognized ⊢
  cases does with
  | halfway pending =>
      rw [← shortOption_extend added config _ _ _ recognized]
      have pending' : (state.extend added).pending = _ := pending
      exact (Call.halfway pending').getoptLong_eq
  | exhausted _ _ _ => exact absurd rfl notEof
  | terminator _ _ => exact absurd rfl notEof
  | long atWord kind =>
      rw [← processLongOption_extend added config _ _ recognized]
      exact (Call.long (atWord.extend added placed) kind).getoptLong_eq
  | short atWord kind =>
      rw [← shortOption_extend added config _ _ _ recognized]
      exact (Call.short (atWord.extend added placed) kind).getoptLong_eq
  | operand atWord kind order =>
      exact (Call.operand (atWord.extend added placed) kind
        order).getoptLong_eq
  | stopped _ _ _ => exact absurd rfl notEof

end Lmcas.Lib.Getopt
