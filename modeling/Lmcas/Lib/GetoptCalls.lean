import Lmcas.Lib.GetoptEnd
import Mathlib.Logic.Relation

/-!
# The calls of a whole scan

`Called` relates the states around a call that does not end the scan, and
`Scan` is its reflexive and transitive closure.  A scan is deterministic, so
what holds of all calls of a scan is a property of the argument vector.

The second half is about the last word of the vector.  A call reads a word,
part of a word, or a word and its argument.  A last `--` is therefore either
the argument of an option or the end of the scan.
-/

namespace Lmcas.Lib.Getopt

open Lmcas.Lib.CString

/-- One call, not the last one. -/
def Called (config : Config) (before after : State) : Prop :=
  (getoptLong config before).1 ≠ .eof ∧
    after = (getoptLong config before).2

/-- Any number of calls, not counting a last one. -/
def Scan (config : Config) : State → State → Prop :=
  Relation.ReflTransGen (Called config)

/-- A scan is over, or goes on with the one call there is. -/
theorem scan_cases {config : Config} {before after : State}
    (notEof : (getoptLong config before).1 ≠ .eof) :
    Scan config before after ↔
      before = after ∨
        Scan config (getoptLong config before).2 after := by
  constructor
  · intro scan
    rcases scan.cases_head with here | ⟨next, ⟨_, rfl⟩, rest⟩
    · exact Or.inl here
    · exact Or.inr rest
  · rintro (rfl | rest)
    · exact .refl
    · exact .head ⟨notEof, rfl⟩ rest

/-- No call leads on from one that is at the end. -/
theorem scan_of_eof {config : Config} {before after : State}
    (eof : (getoptLong config before).1 = .eof)
    (scan : Scan config before after) :
    before = after := by
  rcases scan.cases_head with here | ⟨next, ⟨notEof, _⟩, _⟩
  · exact here
  · exact absurd eof notEof

/-! ## What a call reads -/

/-- The option returned is one whose argument may be the next word. -/
def TakesArgument (config : Config) (ret : Ret) : Prop :=
  (∃ char, ret = .val (.char char) ∧
    shortArg config.optstring char = some .required) ∨
  ∃ option ∈ config.longopts, ret = .val option.val ∧
    option.hasArg = .required

/-- A character that is an option stands in the option string. -/
theorem shortArg_mem {optstring : Word} {char : Char} {kind : HasArg}
    (option : shortArg optstring char = some kind) :
    char ∈ optstring := by
  by_contra absent
  have nowhere : optstring.dropWhile (· ≠ char) = [] := by
    rw [List.dropWhile_eq_nil_iff]
    intro other member
    simp only [decide_not, Bool.not_eq_eq_eq_not, Bool.not_true,
      decide_eq_false_iff_not]
    rintro rfl
    exact absent member
  have missing : strchr optstring char = none := by
    unfold strchr
    rw [nowhere]
  unfold shortArg at option
  rw [missing] at option
  split at option <;> exact nomatch option

/-- The words that a call uses up: a part of the word at `before.optind`,
that word, or that word and the next one as its argument. -/
def Reads (config : Config) (before : State) (call : Ret × State) : Prop :=
  call.2.argv = before.argv ∧
    (call.2.optind = before.optind ∨
      (call.2.pending = none ∧ call.2.optind = before.optind + 1) ∨
      (call.2.pending = none ∧ call.2.optind = before.optind + 2 ∧
        TakesArgument config call.1 ∧
        ∃ next, before.argv[before.optind + 1]? = some next ∧
          call.2.optarg = some next.ptr))

/-- The argument of a short option is the rest of its word or the next word. -/
theorem ShortOption.reads {config : Config} {state : State} {char : Char}
    {rest : CStr} {call : Ret × State}
    (does : ShortOption config state char rest call) :
    Reads config state call := by
  cases does with
  | halfway _ _ _ => exact ⟨rfl, Or.inl rfl⟩
  | ended _ readOff =>
      exact ⟨rfl, Or.inr (Or.inl ⟨readOff.pending, rfl⟩)⟩
  | attached _ =>
      exact ⟨rfl, Or.inr (Or.inl ⟨pending_eq_none_of_null rfl, rfl⟩)⟩
  | @separate next required found =>
      exact ⟨rfl, Or.inr (Or.inr
        ⟨pending_eq_none_of_null rfl, rfl,
          Or.inl ⟨char, rfl, required⟩, next, found, rfl⟩)⟩

/-- That of a long option stands behind its sign of equality or is the next
word. -/
theorem ProcessLongOption.reads {config : Config} {state : State}
    {call : Ret × State} (does : ProcessLongOption config state call) :
    Reads config state call := by
  cases does with
  | rejected readOff =>
      exact ⟨rfl, Or.inr (Or.inl ⟨readOff.pending, rfl⟩)⟩
  | plain _ =>
      exact ⟨rfl, Or.inr (Or.inl ⟨pending_eq_none_of_null rfl, rfl⟩)⟩
  | attached _ _ =>
      exact ⟨rfl, Or.inr (Or.inl ⟨pending_eq_none_of_null rfl, rfl⟩)⟩
  | @separate option next member required found =>
      exact ⟨rfl, Or.inr (Or.inr
        ⟨pending_eq_none_of_null rfl, rfl,
          Or.inr ⟨option, member, rfl, required⟩, next, found, rfl⟩)⟩

/-- The state at which a call starts to read: settled, if the call is at a
word boundary, and then at a word other than `--`. -/
structure Front (state front : State) : Prop where
  argc : front.argc = state.argc
  forward : state.optind ≤ front.optind
  ahead : front.argv.drop state.optind = state.argv.drop state.optind
  word : state.pending.isSome ∧ front.optind = state.optind ∨
    ∃ obj, front.argv[front.optind]? = some obj ∧
      obj.chars ≠ ['-', '-']

/-- Settling moves nothing ahead of the index. -/
theorem settle_ahead (ordering : Ordering) {state : State}
    (placed : Placed state) :
    (settle ordering state).argv.drop state.optind =
      state.argv.drop state.optind := by
  have inside := placed.optind_le
  unfold settle
  rw [repair_eq_of_placed placed]
  cases ordering with
  | permute => exact arrange_drop inside
  | returnInOrder => rfl
  | requireOrder => rfl

theorem AtWord.isFront {config : Config} {state front : State}
    {obj : StrObj} (atWord : AtWord config state front obj)
    (placed : Placed state) (kind : element obj.chars ≠ .terminator) :
    Front state front where
  argc := (atWord.settling placed).argc
  forward := (atWord.settling placed).forward
  ahead := by
    rw [← atWord.settled]
    exact settle_ahead config.ordering placed.cleared
  word := by
    refine Or.inr ⟨obj, atWord.found, fun dashes => ?_⟩
    exact kind ((element_terminator_iff _).mpr dashes)

/-- A call that returns an option or an operand reads at its front. -/
theorem getoptLong_reads
    {config : Config} {state : State} (placed : Placed state)
    (notEof : (getoptLong config state).1 ≠ .eof) :
    ∃ front, Front state front ∧
      Reads config front (getoptLong config state) := by
  have does := getoptLong_does config state
  generalize getoptLong config state = call at does notEof
  cases does with
  | halfway pending =>
      refine ⟨state.cleared, ?_, (shortOption_does _ _ _ _).reads⟩
      exact
        { argc := rfl
          forward := Nat.le_refl _
          ahead := rfl
          word := Or.inl ⟨by rw [pending]; rfl, rfl⟩ }
  | exhausted _ _ _ => exact absurd rfl notEof
  | terminator _ _ => exact absurd rfl notEof
  | long atWord kind =>
      exact ⟨_, atWord.isFront placed (by simp [kind]),
        (processLongOption_does _ _ _).reads⟩
  | short atWord kind =>
      exact ⟨_, atWord.isFront placed (by simp [kind]),
        (shortOption_does _ _ _ _).reads⟩
  | operand atWord kind _ =>
      exact ⟨_, atWord.isFront placed (by simp [kind]),
        rfl, Or.inr (Or.inl ⟨atWord.pending placed, rfl⟩)⟩
  | stopped _ _ _ => exact absurd rfl notEof

/-! ## The last word -/

/-- The last word of the argument vector has not been read. -/
def BeforeLast (state : State) : Prop :=
  state.optind < state.argc ∧
    (state.pending.isSome → state.optind + 1 < state.argc)

/-- The last word of the vector is `--`. -/
def EndsInDashDash (argv : List StrObj) : Prop :=
  ∃ obj, argv.getLast? = some obj ∧ obj.chars = ['-', '-']

theorem getElem?_of_getLast? {words : List StrObj} {index : Nat}
    {obj : StrObj} (last : words.getLast? = some obj)
    (atEnd : index + 1 = words.length) :
    words[index]? = some obj := by
  rw [← last, List.getLast?_eq_getElem?, ← atEnd, Nat.add_sub_cancel]

theorem getLast?_of_drop_eq {left right : List StrObj} {index : Nat}
    (drop : left.drop index = right.drop index)
    (inside : index < right.length) (length : left.length = right.length) :
    left.getLast? = right.getLast? := by
  have left' : (left.drop index).getLast? = left.getLast? := by
    rw [List.getLast?_drop, if_neg (by omega)]
  have right' : (right.drop index).getLast? = right.getLast? := by
    rw [List.getLast?_drop, if_neg (by omega)]
  rw [← left', drop, right']

/-- A call that leaves words to read does not change the last word. -/
theorem getLast?_of_called
    {config : Config} {state : State} (placed : Placed state)
    (notEof : (getoptLong config state).1 ≠ .eof)
    (more : state.optind < state.argc) :
    (getoptLong config state).2.argv.getLast? =
      state.argv.getLast? := by
  rcases getoptLong_reads placed notEof with
    ⟨front, isFront, argv, _⟩
  rw [argv]
  exact getLast?_of_drop_eq isFront.ahead more isFront.argc

/-- A last `--` that is not read as the argument of an option stays unread
by every call but the last. -/
theorem beforeLast_of_called
    {config : Config} {state : State} (placed : Placed state)
    (notEof : (getoptLong config state).1 ≠ .eof)
    (dashed : EndsInDashDash state.argv)
    (noArgument : ∀ next : StrObj,
      TakesArgument config (getoptLong config state).1 →
      (getoptLong config state).2.optarg = some next.ptr →
      next.chars ≠ ['-', '-'])
    (before : BeforeLast state) :
    BeforeLast (getoptLong config state).2 := by
  have last := getLast?_of_called placed notEof before.1
  have argc := (getoptLong_advanced config placed notEof).argc
  rcases getoptLong_reads placed notEof with
    ⟨front, isFront, argv, shape⟩
  rcases dashed with ⟨obj, isLast, chars⟩
  rw [← last, argv] at isLast
  have room : front.optind + 1 < front.argc := by
    rcases isFront.word with ⟨pending, optind⟩ | ⟨word, found, proper⟩
    · rw [optind, isFront.argc]
      exact before.2 pending
    · have inside : front.optind < front.argc :=
        (List.getElem?_eq_some_iff.mp found).1
      have notLast : front.optind + 1 ≠ front.argc := by
        intro atEnd
        have equal := found.symm.trans
          (getElem?_of_getLast? isLast atEnd)
        cases equal
        exact proper chars
      omega
  unfold BeforeLast
  rw [argc, ← isFront.argc]
  rcases shape with optind | ⟨pending, optind⟩ |
    ⟨pending, optind, takes, next, found, optarg⟩
  · rw [optind]
    exact ⟨Nat.lt_of_succ_lt room, fun _ => room⟩
  · rw [optind, pending]
    exact ⟨room, nofun⟩
  · rw [optind, pending]
    refine ⟨?_, nofun⟩
    have notLast : front.optind + 1 + 1 ≠ front.argc := by
      intro atEnd
      have equal := found.symm.trans
        (getElem?_of_getLast? isLast atEnd)
      cases equal
      exact noArgument _ takes optarg chars
    omega

/-- Along the scan of the vector `first`: unread words end as `first` does,
and a last `--` is unread. -/
structure LastUnread (first : List StrObj) (state : State) : Prop where
  last : state.optind < state.argc →
    state.argv.getLast? = first.getLast?
  unread : EndsInDashDash first → BeforeLast state

/-- Before the first call the last word is not read. -/
theorem lastUnread_start {argv : List StrObj} (more : 2 ≤ argv.length) :
    LastUnread argv (start argv) where
  last := fun _ => rfl
  unread := fun _ => ⟨more, nofun⟩

/-- A call leaves the last word unread unless it takes it. -/
theorem LastUnread.called
    {config : Config} {first : List StrObj} {state : State}
    (unread : LastUnread first state) (placed : Placed state)
    (notEof : (getoptLong config state).1 ≠ .eof)
    (noArgument : ∀ next : StrObj,
      TakesArgument config (getoptLong config state).1 →
      (getoptLong config state).2.optarg = some next.ptr →
      next.chars ≠ ['-', '-']) :
    LastUnread first (getoptLong config state).2 where
  last := by
    intro more
    have advanced := getoptLong_advanced config placed notEof
    have before : state.optind < state.argc := by
      rw [← advanced.argc]
      exact Nat.lt_of_le_of_lt advanced.forward more
    rw [getLast?_of_called placed notEof before]
    exact unread.last before
  unread := by
    intro dashed
    have before := unread.unread dashed
    rcases dashed with ⟨obj, isLast, chars⟩
    apply beforeLast_of_called placed notEof
      ⟨obj, (unread.last before.1).trans isLast, chars⟩ noArgument before

/-- Which way a drained scan has ended. -/
theorem LastUnread.drained
    {first : List StrObj} {state : State}
    (unread : LastUnread first state) (drained : Drained state) :
    (EndsInDashDash first ∧ LastIsDashDash state) ∨
      (¬ EndsInDashDash first ∧ state.optind = state.argc) := by
  rcases drained.atEnd with atEnd | dashed
  · refine Or.inr ⟨?_, atEnd⟩
    intro dashed
    have inside := (unread.unread dashed).1
    exact absurd atEnd (Nat.ne_of_lt inside)
  · refine Or.inl ⟨?_, dashed⟩
    rcases dashed with ⟨atEnd, obj, found, chars⟩
    refine ⟨obj, ?_, chars⟩
    rw [← unread.last (by omega), List.getLast?_eq_getElem?, ← found]
    congr 1
    exact Nat.sub_eq_of_eq_add atEnd.symm

/-- The last word is that of the arguments. -/
theorem endsInDashDash_argvOf {name : Word} {words : List Word}
    (nonempty : words ≠ []) :
    EndsInDashDash (argvOf (name :: words)) ↔
      words.getLast? = some ['-', '-'] := by
  have last : (argvOf (name :: words)).getLast?.map StrObj.chars =
      words.getLast? := by
    rw [← List.getLast?_map, map_chars_argvOf, List.getLast?_cons]
    rcases words with _ | ⟨word, rest⟩
    · exact absurd rfl nonempty
    · simp [List.getLast?_cons]
  rw [← last]
  constructor
  · rintro ⟨obj, found, chars⟩
    rw [found, Option.map_some, chars]
  · intro equal
    rcases Option.map_eq_some_iff.mp equal with ⟨obj, found, chars⟩
    exact ⟨obj, found, chars⟩

end Lmcas.Lib.Getopt
