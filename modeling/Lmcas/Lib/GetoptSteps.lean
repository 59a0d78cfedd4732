import Lmcas.Lib.Getopt

/-!
# The ways a call of `getopt_long` can go

Three relations, one for each layer of `getopt_long`: what becomes of the state
at an option character, at a long option, and in one whole call.  What holds of
a call is proved by cases on these relations, and the functions are unfolded
here only.
-/

namespace Lmcas.Lib.Getopt

open Lmcas.Lib.CString

variable {config : Config} {state : State}

/-! ## Word boundaries -/

theorem pending_eq_none_of_text {rest : CStr}
    (nextchar : state.nextchar = some rest) (empty : rest.text = []) :
    state.pending = none := by
  simp [State.pending, nextchar, empty]

theorem pending_eq_none_of_null (nextchar : state.nextchar = none) :
    state.pending = none := by
  simp [State.pending, nextchar]

/-- Nothing is left of a word that this points into. -/
def ReadOff (nextchar : Option CStr) : Prop :=
  ∀ rest, nextchar = some rest → rest.text = []

theorem readOff_none : ReadOff none := by
  intro rest equal
  cases equal

theorem readOff_some {rest : CStr} (empty : rest.text = []) :
    ReadOff (some rest) := by
  intro other equal
  cases equal
  exact empty

theorem ReadOff.pending (readOff : ReadOff state.nextchar) :
    state.pending = none := by
  cases nextchar : state.nextchar with
  | none => exact pending_eq_none_of_null nextchar
  | some rest =>
      exact pending_eq_none_of_text nextchar (readOff rest nextchar)

/-- A character that is pending has text behind it, not in front of it. -/
theorem off_ne_zero_of_pending {char : Char} {rest : CStr}
    (pending : state.pending = some (char, rest)) : rest.off ≠ 0 := by
  unfold State.pending at pending
  split at pending
  · cases pending
  · split at pending
    · cases pending
    · cases pending
      exact Nat.succ_ne_zero _

/-! ## An option character -/

/-- An option character is rejected, or its value is returned. -/
def OptionRet (val : OptVal) (ret : Ret) : Prop :=
  ret = .unrecognized ∨ ret = .val val

/-- What becomes of the state at the option character `char`, with `rest`
behind it. -/
inductive ShortOption (config : Config) (state : State) (char : Char)
    (rest : CStr) : Ret × State → Prop
  | halfway {ret : Ret} (option : OptionRet (.char char) ret)
      (more : rest.text ≠ [])
      (noArgument : shortArg config.optstring char ≠ some .required) :
      ShortOption config state char rest
        (ret, { state with nextchar := some rest })
  | ended {ret : Ret} {nextchar : Option CStr}
      (option : OptionRet (.char char) ret) (readOff : ReadOff nextchar) :
      ShortOption config state char rest
        (ret,
          { state with
            nextchar := nextchar
            optind := state.optind + 1 })
  | attached (more : rest.text ≠ []) :
      ShortOption config state char rest
        (.val (.char char),
          { state with
            optarg := some rest
            optind := state.optind + 1
            nextchar := none })
  | separate {next : StrObj}
      (required : shortArg config.optstring char = some .required)
      (found : state.argv[state.optind + 1]? = some next) :
      ShortOption config state char rest
        (.val (.char char),
          { state with
            optarg := some next.ptr
            optind := state.optind + 2
            nextchar := none })

/-- `shortOption` does one of the four. -/
theorem shortOption_does (config : Config) (state : State) (char : Char)
    (rest : CStr) :
    ShortOption config state char rest
      (shortOption config state char rest) := by
  by_cases empty : rest.text = []
  · have atEnd := readOff_some empty
    simp only [shortOption, if_pos empty]
    split
    · exact .ended (Or.inl rfl) atEnd
    · exact .ended (Or.inr rfl) atEnd
    · exact .ended (Or.inr rfl) readOff_none
    · rename_i required
      split
      · exact .ended (Or.inl rfl) readOff_none
      · rename_i next found
        exact .separate required found
  · simp only [shortOption, if_neg empty]
    split
    · rename_i kind
      exact .halfway (Or.inl rfl) empty (by simp [kind])
    · rename_i kind
      exact .halfway (Or.inr rfl) empty (by simp [kind])
    · exact .attached empty
    · exact .attached empty

/-! ## A long option -/

/-- The option found stands in the table. -/
theorem lookupLong_mem {longopts : List LongOption} {name : Word}
    {option : LongOption}
    (found : lookupLong longopts name = .found option) :
    option ∈ longopts := by
  unfold lookupLong at found
  split at found
  · rename_i exactly
    cases found
    exact List.mem_of_find?_eq_some exactly
  · split at found
    · cases found
    · rename_i others abbreviated
      split at found
      · cases found
        have member : option ∈ longopts.filter
            (name.isPrefixOf ·.name) := by
          rw [abbreviated]
          exact List.mem_cons_self
        exact (List.mem_filter.mp member).1
      · cases found

/-- What becomes of the state at a long option. -/
inductive ProcessLongOption (config : Config) (state : State) :
    Ret × State → Prop
  | rejected {nextchar : Option CStr} (readOff : ReadOff nextchar) :
      ProcessLongOption config state
        (.unrecognized,
          { state with
            optind := state.optind + 1
            nextchar := nextchar })
  | plain (option : LongOption) :
      ProcessLongOption config state
        (.val option.val,
          { state with optind := state.optind + 1, nextchar := none })
  | attached (option : LongOption) {argument : CStr}
      (behind : argument.off ≠ 0) :
      ProcessLongOption config state
        (.val option.val,
          { state with
            optind := state.optind + 1
            nextchar := none
            optarg := some argument })
  | separate {option : LongOption} {next : StrObj}
      (member : option ∈ config.longopts)
      (required : option.hasArg = .required)
      (found : state.argv[state.optind + 1]? = some next) :
      ProcessLongOption config state
        (.val option.val,
          { state with
            nextchar := none
            optarg := some next.ptr
            optind := state.optind + 2 })

/-- `processLongOption` does one of these. -/
theorem processLongOption_does (config : Config) (state : State)
    (name : CStr) :
    ProcessLongOption config state
      (processLongOption config state name) := by
  unfold processLongOption
  dsimp only
  split
  · exact .rejected (readOff_some (by simp))
  · exact .rejected readOff_none
  · rename_i option lookup
    split
    · split
      · exact .rejected readOff_none
      · exact .attached option (Nat.succ_ne_zero _)
    · split
      · rename_i required
        split
        · exact .rejected readOff_none
        · rename_i next found
          exact .separate (lookupLong_mem lookup) required found
      · exact .plain option

/-! ## One call -/

/-- The call is at a word boundary and reads the word `obj` of `front`. -/
structure AtWord (config : Config) (state front : State) (obj : StrObj) :
    Prop where
  boundary : state.pending = none
  settled : settle config.ordering state.cleared = front
  found : front.argv[front.optind]? = some obj

/-- The calls that `getopt_long` can make of a state. -/
inductive Call (config : Config) (state : State) : Ret × State → Prop
  | halfway {char : Char} {rest : CStr}
      (pending : state.pending = some (char, rest)) :
      Call config state (shortOption config state.cleared char rest)
  | exhausted {front : State} (boundary : state.pending = none)
      (settled : settle config.ordering state.cleared = front)
      (noWord : front.argv[front.optind]? = none) :
      Call config state (finish front)
  | terminator {front : State} {obj : StrObj}
      (atWord : AtWord config state front obj)
      (kind : element obj.chars = .terminator) :
      Call config state (finish (dashDash front))
  | long {front : State} {obj : StrObj}
      (atWord : AtWord config state front obj)
      (kind : element obj.chars = .long) :
      Call config state (processLongOption config front (obj.ptr.add 2))
  | short {front : State} {obj : StrObj} {char : Char}
      (atWord : AtWord config state front obj)
      (kind : element obj.chars = .short char) :
      Call config state (shortOption config front char (obj.ptr.add 2))
  | operand {front : State} {obj : StrObj}
      (atWord : AtWord config state front obj)
      (kind : element obj.chars = .operand)
      (order : config.ordering ≠ .requireOrder) :
      Call config state
        (.nonopt,
          { front with
            optarg := some obj.ptr
            optind := front.optind + 1 })
  | stopped {front : State} {obj : StrObj}
      (atWord : AtWord config state front obj)
      (kind : element obj.chars = .operand)
      (order : config.ordering = .requireOrder) :
      Call config state (.eof, front)

/-- A call does one of these. -/
theorem getoptLong_does (config : Config) (state : State) :
    Call config state (getoptLong config state) := by
  unfold getoptLong
  rcases pending : state.cleared.pending with _ | ⟨char, rest⟩
  · unfold nextElement
    dsimp only
    rcases found : (settle config.ordering state.cleared).argv[
        (settle config.ordering state.cleared).optind]? with _ | obj
    · exact .exhausted pending rfl found
    · have atWord : AtWord config state _ obj := ⟨pending, rfl, found⟩
      dsimp only
      rcases kind : element obj.chars with _ | _ | char | _
      · exact .terminator atWord kind
      · exact .long atWord kind
      · exact .short atWord kind
      · dsimp only
        split
        · rename_i order
          exact .stopped atWord kind order
        · rename_i order
          exact .operand atWord kind order
  · exact .halfway pending

theorem AtWord.cleared {front : State} {obj : StrObj}
    (atWord : AtWord config state front obj) :
    state.cleared.pending = none :=
  atWord.boundary

/-- Which call it is decides what the call returns and does. -/
theorem Call.getoptLong_eq {call : Ret × State}
    (does : Call config state call) : getoptLong config state = call := by
  cases does with
  | halfway pending =>
      have cleared : state.cleared.pending = _ := pending
      rw [getoptLong, cleared]
  | exhausted boundary settled noWord =>
      have cleared : state.cleared.pending = none := boundary
      simp only [getoptLong, cleared, nextElement, settled, noWord]
  | terminator atWord kind =>
      simp only [getoptLong, atWord.cleared, nextElement, atWord.settled,
        atWord.found, kind]
  | long atWord kind =>
      simp only [getoptLong, atWord.cleared, nextElement, atWord.settled,
        atWord.found, kind]
  | short atWord kind =>
      simp only [getoptLong, atWord.cleared, nextElement, atWord.settled,
        atWord.found, kind]
  | operand atWord kind order =>
      simp only [getoptLong, atWord.cleared, nextElement, atWord.settled,
        atWord.found, kind]
  | stopped atWord kind order =>
      simp only [getoptLong, atWord.cleared, nextElement, atWord.settled,
        atWord.found, kind]
      simp only [order]

/-! ## Return values -/

theorem shortOption_ret (config : Config) (state : State) (char : Char)
    (rest : CStr) :
    OptionRet (.char char) (shortOption config state char rest).1 := by
  have does := shortOption_does config state char rest
  generalize shortOption config state char rest = call at does
  cases does with
  | halfway option _ _ => exact option
  | ended option _ => exact option
  | attached _ => exact Or.inr rfl
  | separate _ _ => exact Or.inr rfl

theorem processLongOption_ret (config : Config) (state : State)
    (name : CStr) :
    ∃ val, OptionRet val (processLongOption config state name).1 := by
  have does := processLongOption_does config state name
  generalize processLongOption config state name = call at does
  cases does with
  | rejected _ => exact ⟨.enum 0, Or.inl rfl⟩
  | plain option => exact ⟨option.val, Or.inr rfl⟩
  | attached option _ => exact ⟨option.val, Or.inr rfl⟩
  | @separate option _ _ _ _ => exact ⟨option.val, Or.inr rfl⟩

theorem OptionRet.ne_eof {val : OptVal} {ret : Ret}
    (option : OptionRet val ret) : ret ≠ .eof := by
  rcases option with rfl | rfl <;> intro equal <;> cases equal

theorem OptionRet.ne_nonopt {val : OptVal} {ret : Ret}
    (option : OptionRet val ret) : ret ≠ .nonopt := by
  rcases option with rfl | rfl <;> intro equal <;> cases equal

/-- Nothing but the end of the scan returns `-1`. -/
theorem shortOption_ne_eof (config : Config) (state : State) (char : Char)
    (rest : CStr) : (shortOption config state char rest).1 ≠ .eof :=
  (shortOption_ret config state char rest).ne_eof

/-- No option is the end. -/
theorem processLongOption_ne_eof (config : Config) (state : State)
    (name : CStr) : (processLongOption config state name).1 ≠ .eof :=
  (processLongOption_ret config state name).choose_spec.ne_eof

/-- An option word is never taken for an operand. -/
theorem shortOption_ne_nonopt (config : Config) (state : State)
    (char : Char) (rest : CStr) :
    (shortOption config state char rest).1 ≠ .nonopt :=
  (shortOption_ret config state char rest).ne_nonopt

/-- No option is an operand. -/
theorem processLongOption_ne_nonopt (config : Config) (state : State)
    (name : CStr) : (processLongOption config state name).1 ≠ .nonopt :=
  (processLongOption_ret config state name).choose_spec.ne_nonopt

/-- The scan ends at a word boundary only. -/
theorem pending_eq_none_of_eof
    (eof : (getoptLong config state).1 = .eof) : state.pending = none := by
  have does := getoptLong_does config state
  generalize getoptLong config state = call at does eof
  cases does with
  | halfway _ => exact absurd eof (shortOption_ne_eof _ _ _ _)
  | exhausted boundary _ _ => exact boundary
  | terminator atWord _ => exact atWord.boundary
  | long atWord _ => exact atWord.boundary
  | short atWord _ => exact atWord.boundary
  | operand atWord _ _ => exact atWord.boundary
  | stopped atWord _ _ => exact atWord.boundary

end Lmcas.Lib.Getopt
