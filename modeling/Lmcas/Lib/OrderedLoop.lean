import Lmcas.Lib.GetoptOrder
import Lmcas.Lib.Iteration

/-!
# Loops that read options and operands

Two of the programs read their operands in the loop that reads their options:

    while (true)
      if (c == -1 || pedantic || (c = getopt_long (...)) == -1)
        {
          if (argc <= optind) break;
          store (argv[optind++]);
        }
      else switch (c) ...

The cases of the `switch` may look at the argument vector and move `optind`.
-/

namespace Lmcas.Lib.OrderedLoop

open Lmcas.Lib.CString
open Lmcas.Lib.Getopt
open Lmcas.Lib.Iteration

variable {Vars Exit : Type}

/-- The parts of the loop.  `handle` is the `switch`; it answers with the new
`optind`. -/
structure Switch (Vars Exit : Type) where
  config : Config
  pedantic : State → Vars → Bool
  store : Word → Vars → Except Exit Vars
  handle : Ret → State → Vars → Except Exit (Nat × Vars)

/-- The state at the head of the loop; `ended` is `c == -1`. -/
structure Scanning (Vars : Type) where
  getopt : State
  ended : Bool
  vars : Vars

namespace Switch

variable (switch : Switch Vars Exit)

/-- The next word is stored as an operand, if there is one. -/
def takeOperand (state : Scanning Vars) : Turn (Scanning Vars) Exit :=
  match state.getopt.argv[state.getopt.optind]? with
  | none => .leave state
  | some obj =>
      match switch.store obj.chars state.vars with
      | .error outcome => .exit outcome
      | .ok vars =>
          .again
            ⟨{ state.getopt with optind := state.getopt.optind + 1 },
              state.ended, vars⟩

/-- One turn of the loop. -/
def body (state : Scanning Vars) : Turn (Scanning Vars) Exit :=
  if state.ended || switch.pedantic state.getopt state.vars then
    switch.takeOperand state
  else
    match getoptLong switch.config state.getopt with
    | (.eof, after) => switch.takeOperand ⟨after, true, state.vars⟩
    | (ret, after) =>
        match switch.handle ret after state.vars with
        | .error outcome => .exit outcome
        | .ok (optind, vars) =>
            .again ⟨{ after with optind := optind }, false, vars⟩

end Switch

/-- What the loop of a program begins with. -/
def entry (program : Word) (words : List Word) (vars : Vars) :
    Scanning Vars :=
  ⟨start (argvOf (program :: words)), false, vars⟩

/-! ## One turn -/

variable {switch : Switch Vars Exit}

/-- What a turn on an operand does. -/
theorem takeOperand_cases (switch : Switch Vars Exit)
    (state : Scanning Vars) :
    (state.getopt.argv[state.getopt.optind]? = none ∧
      switch.takeOperand state = .leave state) ∨
    (∃ obj, state.getopt.argv[state.getopt.optind]? = some obj ∧
      ((∃ vars, switch.store obj.chars state.vars = .ok vars ∧
          switch.takeOperand state =
            .again ⟨{ state.getopt with optind := state.getopt.optind + 1 },
              state.ended, vars⟩) ∨
        ∃ outcome, switch.store obj.chars state.vars = .error outcome ∧
          switch.takeOperand state = .exit outcome)) := by
  unfold Switch.takeOperand
  rcases found : state.getopt.argv[state.getopt.optind]? with _ | obj
  · exact .inl ⟨rfl, rfl⟩
  · refine .inr ⟨obj, rfl, ?_⟩
    rcases stored : switch.store obj.chars state.vars with outcome | vars
    · exact .inr ⟨outcome, rfl, by simp [stored]⟩
    · exact .inl ⟨vars, rfl, by simp [stored]⟩

theorem body_of_ended {state : Scanning Vars}
    (ended : state.ended = true) :
    switch.body state = switch.takeOperand state := by
  simp [Switch.body, ended]

theorem body_of_pedantic {state : Scanning Vars}
    (pedantic : switch.pedantic state.getopt state.vars = true) :
    switch.body state = switch.takeOperand state := by
  simp [Switch.body, pedantic]

theorem body_of_eof {state : Scanning Vars} {after : State}
    (going : state.ended = false)
    (unpedantic : switch.pedantic state.getopt state.vars = false)
    (eof : getoptLong switch.config state.getopt = (.eof, after)) :
    switch.body state = switch.takeOperand ⟨after, true, state.vars⟩ := by
  simp [Switch.body, going, unpedantic, eof]

theorem body_of_handled {state : Scanning Vars} {ret : Ret} {after : State}
    {optind : Nat} {vars : Vars}
    (going : state.ended = false)
    (unpedantic : switch.pedantic state.getopt state.vars = false)
    (called : getoptLong switch.config state.getopt = (ret, after))
    (notEof : ret ≠ .eof)
    (handled : switch.handle ret after state.vars = .ok (optind, vars)) :
    switch.body state =
      .again ⟨{ after with optind := optind }, false, vars⟩ := by
  unfold Switch.body
  simp only [going, unpedantic, called, Bool.or_self, Bool.false_eq_true,
    if_false]
  cases ret <;> first | exact absurd rfl notEof | simp only [handled]

theorem body_of_rejected {state : Scanning Vars} {ret : Ret} {after : State}
    {outcome : Exit}
    (going : state.ended = false)
    (unpedantic : switch.pedantic state.getopt state.vars = false)
    (called : getoptLong switch.config state.getopt = (ret, after))
    (notEof : ret ≠ .eof)
    (rejected : switch.handle ret after state.vars = .error outcome) :
    switch.body state = .exit outcome := by
  unfold Switch.body
  simp only [going, unpedantic, called, Bool.or_self, Bool.false_eq_true,
    if_false]
  cases ret <;> first | exact absurd rfl notEof | simp only [rejected]

/-- Everything one turn can do. -/
theorem body_cases (switch : Switch Vars Exit) (state : Scanning Vars) :
    ((state.ended = true ∨
        switch.pedantic state.getopt state.vars = true) ∧
      switch.body state = switch.takeOperand state) ∨
    (state.ended = false ∧
      switch.pedantic state.getopt state.vars = false ∧
      ((∃ after, getoptLong switch.config state.getopt = (.eof, after) ∧
          switch.body state = switch.takeOperand ⟨after, true, state.vars⟩) ∨
        ∃ ret after, getoptLong switch.config state.getopt = (ret, after) ∧
          ret ≠ .eof ∧
          ((∃ optind vars,
              switch.handle ret after state.vars = .ok (optind, vars) ∧
              switch.body state =
                .again ⟨{ after with optind := optind }, false, vars⟩) ∨
            ∃ outcome, switch.handle ret after state.vars = .error outcome ∧
              switch.body state = .exit outcome))) := by
  rcases ended : state.ended with _ | _
  · rcases pedantic : switch.pedantic state.getopt state.vars with _ | _
    · refine .inr ⟨rfl, rfl, ?_⟩
      rcases called : getoptLong switch.config state.getopt with ⟨ret, after⟩
      by_cases eof : ret = .eof
      · subst eof
        exact .inl ⟨after, rfl, body_of_eof ended pedantic called⟩
      · refine .inr ⟨ret, after, rfl, eof, ?_⟩
        rcases handled : switch.handle ret after state.vars with
          outcome | ⟨optind, vars⟩
        · exact .inr ⟨outcome, rfl,
            body_of_rejected ended pedantic called eof handled⟩
        · exact .inl ⟨optind, vars, rfl,
            body_of_handled ended pedantic called eof handled⟩
    · exact .inl ⟨.inr rfl, body_of_pedantic pedantic⟩
  · exact .inl ⟨.inl rfl, body_of_ended ended⟩

/-! ## The loop -/

/-- Where the cases of the `switch` may leave `optind`: where the call has left
it, or at another word behind the words the call began with. -/
def MovesTo (before after : State) (optind : Nat) : Prop :=
  optind = after.optind ∨
    before.optind < optind ∧ optind ≤ after.argc ∧ after.pending = none

/-- What makes the loop end.  `Kept` is an invariant of the program; it has to
say that a word is not left half way for an operand. -/
structure Switch.Tame (switch : Switch Vars Exit)
    (Kept : State → Vars → Prop) : Prop where
  inOrder : switch.config.ordering = .returnInOrder
  boundary : ∀ {state vars}, Kept state vars →
    switch.pedantic state vars = true → state.pending = none
  moves : ∀ {state vars optind vars'}, Ordered state →
    (getoptLong switch.config state).1 ≠ .eof →
    switch.handle (getoptLong switch.config state).1
      (getoptLong switch.config state).2 vars = .ok (optind, vars') →
    MovesTo state (getoptLong switch.config state).2 optind
  handled : ∀ {state vars optind vars'}, Ordered state → Kept state vars →
    switch.pedantic state vars = false →
    (getoptLong switch.config state).1 ≠ .eof →
    switch.handle (getoptLong switch.config state).1
      (getoptLong switch.config state).2 vars = .ok (optind, vars') →
    Kept { (getoptLong switch.config state).2 with optind := optind } vars'
  stored : ∀ {state vars word vars'}, Kept state vars →
    switch.pedantic state vars = true →
    switch.store word vars = .ok vars' →
    Kept { state with optind := state.optind + 1 } vars'

/-- The invariant of the loop. -/
def Going (Kept : State → Vars → Prop) (state : Scanning Vars) : Prop :=
  state.ended = false → Ordered state.getopt ∧ Kept state.getopt state.vars

/-- The text that is left while options are looked for, then the words. -/
def Scanning.left (state : Scanning Vars) : Nat :=
  if state.ended then state.getopt.argc - state.getopt.optind
  else state.getopt.unread + 1

/-- Operands that are returned in order are not permuted. -/
theorem inPlace_of_inOrder {config : Config}
    (inOrder : config.ordering = .returnInOrder) :
    config.ordering ≠ .permute := by
  rw [inOrder]
  nofun

/-- Behind the word that a call begins with there is less to read. -/
theorem unread_lt {config : Config} {state : State} (ordered : Ordered state)
    (notEof : (getoptLong config state).1 ≠ .eof) :
    weight (state.argv.drop (state.optind + 1)) < state.unread := by
  have inside := optind_lt_of_not_eof ordered.toPlaced notEof
  rcases pending : state.pending with _ | ⟨char, rest⟩
  · rw [unread_of_pending_eq_none pending,
      weight_drop_of_getElem? (List.getElem?_eq_getElem inside)]
    omega
  · simp only [State.unread, pending]
    omega

/-- A call whose index is moved on still has less to read. -/
theorem Ordered.movesTo {config : Config} {state : State} {optind : Nat}
    (order : config.ordering ≠ .permute) (ordered : Ordered state)
    (notEof : (getoptLong config state).1 ≠ .eof)
    (moves : MovesTo state (getoptLong config state).2 optind) :
    Ordered { (getoptLong config state).2 with optind := optind } ∧
      ({ (getoptLong config state).2 with optind := optind } :
        State).unread < state.unread := by
  have called := ordered.called order notEof
  have advanced := getoptLong_advanced config ordered.toPlaced notEof
  rcases moves with rfl | ⟨forward, inside, boundary⟩
  · exact ⟨called, advanced.unread⟩
  · have inPlace := getoptLong_inPlace order ordered.toPlaced notEof
    refine ⟨called.moved boundary ?_ inside, ?_⟩
    · rw [inPlace.lastNonopt]
      exact Nat.le_of_lt (Nat.lt_of_le_of_lt ordered.last_le forward)
    · have rest : weight (state.argv.drop optind) ≤
          weight (state.argv.drop (state.optind + 1)) :=
        weight_drop_le state.argv forward
      have settled : ({ (getoptLong config state).2 with optind := optind } :
          State).pending = none := boundary
      rw [unread_of_pending_eq_none settled]
      simp only [inPlace.argv]
      exact Nat.lt_of_le_of_lt rest (unread_lt ordered notEof)

/-- A turn on an operand goes on when the word is stored. -/
theorem takeOperand_again_iff {state next : Scanning Vars} :
    switch.takeOperand state = .again next ↔
      ∃ obj vars, state.getopt.argv[state.getopt.optind]? = some obj ∧
        switch.store obj.chars state.vars = .ok vars ∧
        next = ⟨{ state.getopt with optind := state.getopt.optind + 1 },
          state.ended, vars⟩ := by
  rcases takeOperand_cases switch state with
    ⟨noWord, turn⟩ | ⟨obj, found, ⟨vars, stored, turn⟩ |
      ⟨outcome, rejected, turn⟩⟩
  · simp [turn, noWord]
  · simp [turn, found, stored, eq_comm]
  · simp [turn, found, rejected]

/-- It leaves the loop when there is no word. -/
theorem takeOperand_leave_iff {state final : Scanning Vars} :
    switch.takeOperand state = .leave final ↔
      state.getopt.argv[state.getopt.optind]? = none ∧ final = state := by
  rcases takeOperand_cases switch state with
    ⟨noWord, turn⟩ | ⟨obj, found, ⟨vars, stored, turn⟩ |
      ⟨outcome, rejected, turn⟩⟩
  · simp [turn, noWord, eq_comm]
  · simp [turn, found]
  · simp [turn, found]

/-- A turn that leaves the loop has no word, and no more options to look for. -/
theorem leave_cases {state final : Scanning Vars}
    (turn : switch.body state = .leave final) :
    final.vars = state.vars ∧
      final.getopt.argv[final.getopt.optind]? = none ∧
      ((state.ended = true ∨
          switch.pedantic state.getopt state.vars = true) ∨
        getoptLong switch.config state.getopt = (.eof, final.getopt)) := by
  rcases body_cases switch state with
    ⟨direct, body⟩ | ⟨going, _, ⟨after, called, body⟩ |
      ⟨ret, after, _, _, ⟨optind, vars, _, body⟩ | ⟨outcome, _, body⟩⟩⟩
  · rcases takeOperand_leave_iff.mp (body.symm.trans turn) with ⟨noWord, rfl⟩
    exact ⟨rfl, noWord, .inl direct⟩
  · rcases takeOperand_leave_iff.mp (body.symm.trans turn) with ⟨noWord, rfl⟩
    exact ⟨rfl, noWord, .inr called⟩
  · exact nomatch body.symm.trans turn
  · exact nomatch body.symm.trans turn

theorem argc_sub_lt {state : State} {obj : StrObj}
    (found : state.argv[state.optind]? = some obj) :
    state.argc - (state.optind + 1) < state.argc - state.optind := by
  have inside : state.optind < state.argc :=
    (List.getElem?_eq_some_iff.mp found).1
  omega

/-- What a turn that comes round again does to the invariant and to the rest
of the words. -/
theorem body_again {Kept : State → Vars → Prop} (tame : switch.Tame Kept)
    {state next : Scanning Vars} (going : Going Kept state)
    (turn : switch.body state = .again next) :
    Going Kept next ∧ next.left < state.left := by
  have order := inPlace_of_inOrder tame.inOrder
  rcases body_cases switch state with
    ⟨direct, body⟩ | ⟨notEnded, unpedantic, ⟨after, called, body⟩ |
      ⟨ret, after, called, notEof, ⟨optind, vars, handled, body⟩ |
        ⟨outcome, rejected, body⟩⟩⟩
  · rw [body] at turn
    rcases takeOperand_again_iff.mp turn with ⟨obj, vars, found, stored, rfl⟩
    rcases ended : state.ended with _ | _
    · have pedantic : switch.pedantic state.getopt state.vars = true := by
        rcases direct with isEnded | pedantic
        · exact absurd (ended.symm.trans isEnded) Bool.false_ne_true
        · exact pedantic
      obtain ⟨ordered, kept⟩ := going ended
      have boundary := tame.boundary kept pedantic
      have inside : state.getopt.optind < state.getopt.argc :=
        (List.getElem?_eq_some_iff.mp found).1
      have moved := ordered.moved boundary
        (Nat.le_succ_of_le ordered.last_le) inside
      refine ⟨fun _ => ⟨moved, tame.stored kept pedantic stored⟩, ?_⟩
      have boundary' : ({ state.getopt with
          optind := state.getopt.optind + 1 } : State).pending = none :=
        boundary
      simp only [Scanning.left, Bool.false_eq_true, if_false,
        unread_of_pending_eq_none boundary,
        unread_of_pending_eq_none boundary', ended,
        weight_drop_of_getElem? found]
      omega
    · refine ⟨fun going => absurd going.symm Bool.false_ne_true, ?_⟩
      simp only [Scanning.left, ended, if_true]
      exact argc_sub_lt found
  · rw [body] at turn
    rcases takeOperand_again_iff.mp turn with ⟨obj, vars, found, stored, rfl⟩
    obtain ⟨ordered, _⟩ := going notEnded
    have eof : (getoptLong switch.config state.getopt).1 = .eof := by
      rw [called]
    obtain ⟨argv, forward⟩ := argv_of_eof tame.inOrder ordered eof
    simp only [called] at argv forward
    have words := length_le_weight
      (state.getopt.argv.drop state.getopt.optind)
    refine ⟨fun going => absurd going.symm Bool.false_ne_true, ?_⟩
    simp only [Scanning.left, if_true, Bool.false_eq_true, if_false,
      notEnded, State.argc, argv,
      unread_of_pending_eq_none (pending_eq_none_of_eof eof)] at words ⊢
    rw [List.length_drop] at words
    omega
  · rw [body] at turn
    obtain rfl := Turn.again.inj turn
    obtain ⟨ordered, kept⟩ := going notEnded
    have fst : (getoptLong switch.config state.getopt).1 = ret := by
      rw [called]
    have snd : (getoptLong switch.config state.getopt).2 = after := by
      rw [called]
    subst fst snd
    obtain ⟨moved, lower⟩ := Ordered.movesTo order ordered notEof
      (tame.moves ordered notEof handled)
    refine ⟨fun _ => ⟨moved,
      tame.handled ordered kept unpedantic notEof handled⟩, ?_⟩
    simp only [Scanning.left, Bool.false_eq_true, if_false, notEnded]
    exact Nat.succ_lt_succ lower
  · rw [body] at turn
    cases turn

/-- The turns of a tame switch come to an end. -/
def Switch.Tame.loop {Kept : State → Vars → Prop}
    (tame : switch.Tame Kept) : Loop (Scanning Vars) Exit where
  body := switch.body
  Invariant := Going Kept
  measure := Scanning.left
  keeps going turn := (body_again tame going turn).1
  lowers going turn := (body_again tame going turn).2

/-- The loop of a program started as `program` with `words`. -/
def Switch.Tame.scan {Kept : State → Vars → Prop} (tame : switch.Tame Kept)
    (program : Word) (words : List Word) (vars : Vars)
    (kept : Kept (start (argvOf (program :: words))) vars) :
    Ending (Scanning Vars) Exit :=
  tame.loop.exec (entry program words vars)
    (fun _ => ⟨ordered_start (List.cons_ne_nil _ _), kept⟩)

/-- The loop comes to the ending that its turns lead to. -/
theorem scan_eq_iff {Kept : State → Vars → Prop} {tame : switch.Tame Kept}
    {program : Word} {words : List Word} {vars : Vars}
    {kept : Kept (start (argvOf (program :: words))) vars}
    {ending : Ending (Scanning Vars) Exit} :
    tame.scan program words vars kept = ending ↔
      Ends switch.body (entry program words vars) ending :=
  tame.loop.exec_eq_iff _ ending

/-- What every store and every case of the `switch` keep holds behind the
loop. -/
theorem vars_of_left {Keeps : Vars → Prop}
    (stored : ∀ {word vars vars'}, Keeps vars →
      switch.store word vars = .ok vars' → Keeps vars')
    (handled : ∀ {ret state vars optind vars'}, Keeps vars →
      switch.handle ret state vars = .ok (optind, vars') → Keeps vars')
    {state final : Scanning Vars} (keeps : Keeps state.vars)
    (ends : Ends switch.body state (.left final)) : Keeps final.vars := by
  generalize left : Ending.left final = result at ends
  induction ends with
  | @again state next _ turn _ inductionHypothesis =>
      apply inductionHypothesis ?_ left
      rcases body_cases switch state with
        ⟨_, body⟩ | ⟨_, _, ⟨after, _, body⟩ |
          ⟨ret, after, _, _, ⟨optind, vars, set, body⟩ |
            ⟨outcome, _, body⟩⟩⟩
      · rcases takeOperand_again_iff.mp (body.symm.trans turn) with
          ⟨obj, vars, _, put, rfl⟩
        exact stored keeps put
      · rcases takeOperand_again_iff.mp (body.symm.trans turn) with
          ⟨obj, vars, _, put, rfl⟩
        exact stored keeps put
      · obtain rfl := Turn.again.inj (body.symm.trans turn)
        exact handled keeps set
      · exact nomatch body.symm.trans turn
  | leave turn =>
      cases left
      rw [(leave_cases turn).1]
      exact keeps
  | exit turn => exact nomatch left

/-! ## Operands behind a scan -/

/-- The operands, one after the other. -/
def Switch.storeAll (switch : Switch Vars Exit) :
    List Word → Vars → Except Exit Vars
  | [], vars => .ok vars
  | word :: words, vars =>
      match switch.store word vars with
      | .error outcome => .error outcome
      | .ok vars => switch.storeAll words vars

/-- The ending of a loop that only has operands left. -/
def ending (after : State) : Except Exit Vars → Ending (Scanning Vars) Exit
  | .ok vars => .left ⟨after, true, vars⟩
  | .error outcome => .exited outcome

/-- What it takes for operands to wait until the options are read.  `taken`
counts the operands stored. -/
structure Switch.Delays (switch : Switch Vars Exit)
    (IsOperand : Word → Prop) (taken : Vars → Nat) : Prop where
  inOrder : switch.config.ordering = .returnInOrder
  unpedantic : ∀ state vars, switch.pedantic state vars = false
  rejects : ∀ state vars, ∃ outcome,
    switch.handle .unrecognized state vars = .error outcome
  operand : ∀ {word}, IsOperand word → nonoption word = true
  alike : ∀ {state pointer vars}, state.optarg = some pointer →
    IsOperand pointer.text →
    switch.handle .nonopt state vars =
      (switch.store pointer.text vars).map (state.optind, ·)
  extend : ∀ {ret state vars moved} (added : List StrObj),
    (∀ obj ∈ added, IsOperand obj.chars) → state.optind ≤ state.argc →
    switch.handle ret state vars = .ok moved →
    switch.handle ret (state.extend added) vars = .ok moved
  stored : ∀ {word vars vars'}, switch.store word vars = .ok vars' →
    taken vars < taken vars'
  handled : ∀ {ret state vars optind vars'},
    switch.handle ret state vars = .ok (optind, vars') →
    taken vars ≤ taken vars'

section Delayed

variable {IsOperand : Word → Prop} {taken : Vars → Nat}

/-- Operands are all that is left, and options are no longer looked for. -/
theorem ends_of_ended {words : List StrObj} {state : Scanning Vars}
    (ended : state.ended = true)
    (left : state.getopt.argv.drop state.getopt.optind = words) :
    ∃ after, Ends switch.body state
      (ending after (switch.storeAll (words.map StrObj.chars) state.vars)) := by
  induction words generalizing state with
  | nil =>
      have noWord : state.getopt.argv[state.getopt.optind]? = none :=
        List.getElem?_eq_none_iff.mpr (List.drop_eq_nil_iff.mp left)
      rcases state with ⟨getopt, _, vars⟩
      cases ended
      exact ⟨getopt, .leave ((body_of_ended rfl).trans
        (takeOperand_leave_iff.mpr ⟨noWord, rfl⟩))⟩
  | cons obj words inductionHypothesis =>
      have found : state.getopt.argv[state.getopt.optind]? = some obj := by
        rw [← List.head?_drop, left]
        rfl
      have rest : state.getopt.argv.drop (state.getopt.optind + 1) = words := by
        rw [← List.drop_drop, left]
        rfl
      rcases stored : switch.store obj.chars state.vars with outcome | vars
      · refine ⟨state.getopt, ?_⟩
        simp only [List.map_cons, Switch.storeAll, stored, ending]
        refine .exit ((body_of_ended ended).trans ?_)
        simp [Switch.takeOperand, found, stored]
      · simp only [List.map_cons, Switch.storeAll, stored]
        rcases @inductionHypothesis
          ⟨{ state.getopt with optind := state.getopt.optind + 1 },
            state.ended, vars⟩ ended rest with ⟨after, ends⟩
        exact ⟨after, .again ((body_of_ended ended).trans
          (takeOperand_again_iff.mpr ⟨obj, vars, found, stored, rfl⟩)) ends⟩

/-- Operands are all that is left, at a word boundary. -/
theorem ends_of_operands (delays : switch.Delays IsOperand taken)
    {words : List StrObj} {state : Scanning Vars}
    (going : state.ended = false) (ordered : Ordered state.getopt)
    (boundary : state.getopt.pending = none)
    (left : state.getopt.argv.drop state.getopt.optind = words)
    (operands : ∀ obj ∈ words, IsOperand obj.chars) :
    ∃ after, Ends switch.body state
      (ending after (switch.storeAll (words.map StrObj.chars) state.vars)) := by
  induction words generalizing state with
  | nil =>
      have noWord : state.getopt.argv[state.getopt.optind]? = none :=
        List.getElem?_eq_none_iff.mpr (List.drop_eq_nil_iff.mp left)
      have eof := getoptLong_none (inPlace_of_inOrder delays.inOrder) ordered
        boundary noWord
      exact ⟨state.getopt.cleared, .leave
        ((body_of_eof going (delays.unpedantic _ _) eof).trans
          (takeOperand_leave_iff.mpr ⟨noWord, rfl⟩))⟩
  | cons obj words inductionHypothesis =>
      have found : state.getopt.argv[state.getopt.optind]? = some obj := by
        rw [← List.head?_drop, left]
        rfl
      have rest : state.getopt.argv.drop (state.getopt.optind + 1) = words := by
        rw [← List.drop_drop, left]
        rfl
      have isOperand : IsOperand obj.chars := operands obj List.mem_cons_self
      have called := getoptLong_operand delays.inOrder ordered.toPlaced boundary
        found (delays.operand isOperand)
      have alike := @delays.alike
        { state.getopt with
          optarg := some obj.ptr, optind := state.getopt.optind + 1 }
        obj.ptr state.vars rfl (by rwa [StrObj.text_ptr])
      rw [StrObj.text_ptr] at alike
      rcases stored : switch.store obj.chars state.vars with outcome | vars
      · refine ⟨state.getopt, ?_⟩
        simp only [List.map_cons, Switch.storeAll, stored, ending]
        rw [stored] at alike
        exact .exit (body_of_rejected going (delays.unpedantic _ _) called
          nofun alike)
      · simp only [List.map_cons, Switch.storeAll, stored]
        rw [stored] at alike
        have inside : state.getopt.optind < state.getopt.argc :=
          (List.getElem?_eq_some_iff.mp found).1
        have moved := ordered.moved boundary
          (Nat.le_succ_of_le ordered.last_le) inside
        rcases @inductionHypothesis
          ⟨{ state.getopt with
              optarg := some obj.ptr, optind := state.getopt.optind + 1 },
            false, vars⟩ rfl ⟨⟨moved.first_le, moved.last_le,
              moved.optind_le, moved.pending_lt⟩, moved.noneSkipped⟩
          boundary rest
          (fun obj member => operands obj (List.mem_cons_of_mem _ member))
          with ⟨after, ends⟩
        exact ⟨after, .again (body_of_handled going (delays.unpedantic _ _)
          called nofun alike) ends⟩

/-- An operand counts. -/
theorem taken_lt_of_takeOperand (delays : switch.Delays IsOperand taken)
    {state next : Scanning Vars}
    (turn : switch.takeOperand state = .again next) :
    taken state.vars < taken next.vars := by
  rcases takeOperand_again_iff.mp turn with ⟨obj, vars, _, stored, rfl⟩
  exact delays.stored stored

/-- No turn takes an operand back. -/
theorem taken_le_of_again (delays : switch.Delays IsOperand taken)
    {state next : Scanning Vars} (turn : switch.body state = .again next) :
    taken state.vars ≤ taken next.vars := by
  rcases body_cases switch state with
    ⟨_, body⟩ | ⟨_, _, ⟨after, _, body⟩ |
      ⟨ret, after, _, _, ⟨optind, vars, handled, body⟩ |
        ⟨outcome, _, body⟩⟩⟩
  · exact Nat.le_of_lt (taken_lt_of_takeOperand delays (body ▸ turn))
  · have taken := taken_lt_of_takeOperand delays (body ▸ turn)
    exact Nat.le_of_lt taken
  · obtain rfl := Turn.again.inj (body.symm.trans turn)
    exact delays.handled handled
  · exact nomatch body.symm.trans turn

/-- Nor does the loop. -/
theorem taken_le_of_left (delays : switch.Delays IsOperand taken)
    {state final : Scanning Vars}
    (ends : Ends switch.body state (.left final)) :
    taken state.vars ≤ taken final.vars := by
  generalize left : Ending.left final = result at ends
  induction ends with
  | again turn _ inductionHypothesis =>
      exact Nat.le_trans (taken_le_of_again delays turn)
        (inductionHypothesis left)
  | leave turn =>
      cases left
      rw [(leave_cases turn).1]
  | exit turn => exact nomatch left

/-- A turn that begins like one in another state has the same ending. -/
theorem ends_of_body_eq {state other : Scanning Vars}
    {ending : Ending (Scanning Vars) Exit}
    (same : switch.body state = switch.body other)
    (ends : Ends switch.body other ending) : Ends switch.body state ending := by
  cases ends with
  | again turn rest => exact .again (same.trans turn) rest
  | leave turn => exact .leave (same.trans turn)
  | exit turn => exact .exit (same.trans turn)

/-- Operands behind the last turn of a scan. -/
theorem ends_extend_leave (delays : switch.Delays IsOperand taken)
    {added : List StrObj} (operands : ∀ obj ∈ added, IsOperand obj.chars)
    {state final : Scanning Vars} (going : state.ended = false)
    (ordered : Ordered state.getopt)
    (turn : switch.body state = .leave final) :
    ∃ after, Ends switch.body
      { state with getopt := state.getopt.extend added }
      (ending after (switch.storeAll (added.map StrObj.chars) final.vars)) := by
  have order := inPlace_of_inOrder delays.inOrder
  rcases leave_cases turn with ⟨vars, noWord, direct | called⟩
  · rw [going, delays.unpedantic] at direct
    exact absurd direct (by decide)
  · have eof : (getoptLong switch.config state.getopt).1 = .eof := by
      rw [called]
    have boundary := pending_eq_none_of_eof eof
    have extended := ordered_extend added ordered
    have inside := ordered.optind_le
    rw [vars]
    rcases cases_of_eof delays.inOrder ordered.toPlaced eof with
      past | ⟨obj, found, terminator⟩
    · have atEnd : state.getopt.optind = state.getopt.argv.length :=
        Nat.le_antisymm inside (List.getElem?_eq_none_iff.mp past)
      refine ends_of_operands delays going extended boundary ?_ operands
      simp [atEnd]
    · rcases getoptLong_terminator order ordered boundary found terminator
        with ⟨_, called', argv, optind⟩
      obtain rfl := (Prod.mk.inj (called.symm.trans called')).2
      rcases getoptLong_terminator order extended boundary
        (getElem?_append_of_some added found) terminator with
        ⟨after, calledNow, argvNow, optindNow⟩
      have atEnd : state.getopt.optind + 1 = state.getopt.argv.length := by
        have le := List.getElem?_eq_none_iff.mp noWord
        rw [argv, optind] at le
        exact Nat.le_antisymm (List.getElem?_eq_some_iff.mp found).1 le
      have left : after.argv.drop after.optind = added := by
        rw [argvNow, optindNow, extend_optind, atEnd, extend_argv,
          List.drop_left]
      have turnNow : switch.body
          { state with getopt := state.getopt.extend added } =
            switch.takeOperand ⟨after, true, state.vars⟩ :=
        body_of_eof going (delays.unpedantic _ _) calledNow
      rcases @ends_of_ended _ _ switch added ⟨after, true, state.vars⟩ rfl
        left with ⟨last, ends⟩
      exact ⟨last, ends_of_body_eq
        (turnNow.trans (body_of_ended rfl).symm) ends⟩

/-- A scan that stores no operand does the same in front of operands, and
stores these in the end. -/
theorem ends_extend {Kept : State → Vars → Prop} (tame : switch.Tame Kept)
    (delays : switch.Delays IsOperand taken) {added : List StrObj}
    (operands : ∀ obj ∈ added, IsOperand obj.chars)
    {state final : Scanning Vars} (going : state.ended = false)
    (ordered : Ordered state.getopt)
    (noneTaken : taken final.vars ≤ taken state.vars)
    (ends : Ends switch.body state (.left final)) :
    ∃ after, Ends switch.body
      { state with getopt := state.getopt.extend added }
      (ending after (switch.storeAll (added.map StrObj.chars) final.vars)) := by
  have order := inPlace_of_inOrder delays.inOrder
  generalize left : Ending.left final = result at ends
  induction ends with
  | @again state next _ turn rest inductionHypothesis =>
      cases left
      have noneAfter := taken_le_of_left delays rest
      rcases body_cases switch state with
        ⟨direct, body⟩ | ⟨_, _, ⟨after, _, body⟩ |
          ⟨ret, after, called, notEof, ⟨optind, vars, handled, body⟩ |
            ⟨outcome, _, body⟩⟩⟩
      · have more := taken_lt_of_takeOperand delays (body ▸ turn)
        exact absurd noneTaken
          (Nat.not_le_of_lt (Nat.lt_of_lt_of_le more noneAfter))
      · have more := taken_lt_of_takeOperand delays (body ▸ turn)
        exact absurd noneTaken
          (Nat.not_le_of_lt (Nat.lt_of_lt_of_le more noneAfter))
      · obtain rfl := Turn.again.inj (body.symm.trans turn)
        have fst : (getoptLong switch.config state.getopt).1 = ret := by
          rw [called]
        have snd : (getoptLong switch.config state.getopt).2 = after := by
          rw [called]
        subst fst snd
        have recognized :
            (getoptLong switch.config state.getopt).1 ≠ .unrecognized := by
          intro equal
          rcases delays.rejects (getoptLong switch.config state.getopt).2
            state.vars with ⟨outcome, rejected⟩
          rw [equal] at handled
          exact nomatch handled.symm.trans rejected
        have ⟨moved, _⟩ := Ordered.movesTo order ordered notEof
          (tame.moves ordered notEof handled)
        have extended := getoptLong_extend added switch.config
          ordered.toPlaced notEof recognized
        have advanced :=
          getoptLong_advanced switch.config ordered.toPlaced notEof
        rcases inductionHypothesis rfl moved
          (Nat.le_trans noneTaken (delays.handled handled)) rfl with
          ⟨after, ends⟩
        exact ⟨after, .again (body_of_handled going
          (delays.unpedantic _ _) extended notEof
          (delays.extend added operands advanced.placed.optind_le handled)) ends⟩
      · exact nomatch body.symm.trans turn
  | leave turn =>
      cases left
      exact ends_extend_leave delays operands going ordered turn
  | exit turn => exact nomatch left

/--
Options that store no operand do to the variables what they do without the
operands behind them, and the operands are stored afterwards.
-/
theorem scan_append {Kept : State → Vars → Prop} (tame : switch.Tame Kept)
    (delays : switch.Delays IsOperand taken)
    {program : Word} {words files : List Word} {vars : Vars}
    {final : Scanning Vars}
    (reached : Ends switch.body (entry program words vars) (.left final))
    (noneTaken : taken final.vars ≤ taken vars)
    (areOperands : ∀ file ∈ files, IsOperand file) :
    ∃ after, Ends switch.body (entry program (words ++ files) vars)
      (ending after (switch.storeAll files final.vars)) := by
  rcases argvOf_append (program :: words) files with ⟨added, argv, chars⟩
  have operands : ∀ obj ∈ added, IsOperand obj.chars := by
    intro obj member
    apply areOperands
    rw [← chars]
    exact List.mem_map_of_mem member
  have going : (entry program words vars).ended = false := rfl
  have ordered : Ordered (entry program words vars).getopt :=
    ordered_start (List.cons_ne_nil _ _)
  have extended :=
    ends_extend tame delays operands going ordered noneTaken reached
  rw [chars] at extended
  rcases extended with ⟨after, ends⟩
  refine ⟨after, ?_⟩
  rw [entry, ← List.cons_append, argv, start_append]
  exact ends

end Delayed

end Lmcas.Lib.OrderedLoop
