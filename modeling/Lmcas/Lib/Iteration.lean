import Mathlib.Data.Nat.Basic
import Mathlib.Logic.Relation
import Mathlib.Tactic.Common

/-!
# Loops with a jump out and an exit

A C loop body does one of three things: it comes round again, it jumps to the
statement after the loop, or it ends the process.  `Turn` records which.  The
relation `Ends` says how a loop started in a state ends, and `Loop` packages a
body with the invariant and the measure that make every started loop end, so
that `Loop.exec` is a total function and not a function of a fuel argument.

The rules at the end compare two loops.  `Ends.simulate` carries an ending of
the left loop to the right one along a relation preserved by each turn.
-/

namespace Lmcas.Lib.Iteration

variable {State Exit : Type}

/-- The effect of one turn of a loop body. -/
inductive Turn (State Exit : Type) where
  | again (next : State)
  | leave (final : State)
  | exit (outcome : Exit)

/-- How a loop ends: past its last turn, or with the process. -/
inductive Ending (State Exit : Type) where
  | left (final : State)
  | exited (outcome : Exit)
deriving DecidableEq

/-- `Ends body state ending`: started in `state`, the loop ends in `ending`. -/
inductive Ends (body : State → Turn State Exit) :
    State → Ending State Exit → Prop where
  | again {state next : State} {ending : Ending State Exit}
      (turn : body state = .again next)
      (rest : Ends body next ending) :
      Ends body state ending
  | leave {state final : State}
      (turn : body state = .leave final) :
      Ends body state (.left final)
  | exit {state : State} {outcome : Exit}
      (turn : body state = .exit outcome) :
      Ends body state (.exited outcome)

/-- A loop comes to one ending. -/
theorem Ends.unique
    {body : State → Turn State Exit} {state : State}
    {first second : Ending State Exit}
    (firstEnds : Ends body state first)
    (secondEnds : Ends body state second) :
    first = second := by
  induction firstEnds with
  | again turn _ inductionHypothesis =>
      cases secondEnds with
      | again turn' rest' =>
          obtain rfl : _ = _ :=
            Turn.again.inj (turn.symm.trans turn')
          exact inductionHypothesis rest'
      | leave turn' => exact nomatch turn.symm.trans turn'
      | exit turn' => exact nomatch turn.symm.trans turn'
  | leave turn =>
      cases secondEnds with
      | again turn' _ => exact nomatch turn.symm.trans turn'
      | leave turn' =>
          exact congrArg _ (Turn.leave.inj (turn.symm.trans turn'))
      | exit turn' => exact nomatch turn.symm.trans turn'
  | exit turn =>
      cases secondEnds with
      | again turn' _ => exact nomatch turn.symm.trans turn'
      | leave turn' => exact nomatch turn.symm.trans turn'
      | exit turn' =>
          exact congrArg _ (Turn.exit.inj (turn.symm.trans turn'))

/-! ## Renaming the states -/

/-- A turn with its states renamed. -/
def Turn.map {State' : Type} (rename : State → State') :
    Turn State Exit → Turn State' Exit
  | .again next => .again (rename next)
  | .leave final => .leave (rename final)
  | .exit outcome => .exit outcome

/-- An ending with its state renamed. -/
def Ending.map {State' : Type} (rename : State → State') :
    Ending State Exit → Ending State' Exit
  | .left final => .left (rename final)
  | .exited outcome => .exited outcome

section

variable {State' : Type} (rename : State → State')

@[simp]
theorem Turn.map_again (next : State) :
    (Turn.again next : Turn State Exit).map rename = .again (rename next) :=
  rfl

@[simp]
theorem Turn.map_leave (final : State) :
    (Turn.leave final : Turn State Exit).map rename = .leave (rename final) :=
  rfl

@[simp]
theorem Turn.map_exit (outcome : Exit) :
    (Turn.exit outcome : Turn State Exit).map rename = .exit outcome :=
  rfl

@[simp]
theorem Turn.map_id (turn : Turn State Exit) :
    turn.map (fun state => state) = turn := by
  cases turn <;> rfl

theorem Turn.map_map {State'' : Type} (rename' : State' → State'')
    (turn : Turn State Exit) :
    (turn.map rename).map rename' =
      turn.map fun state => rename' (rename state) := by
  cases turn <;> rfl

end

/-- Two loops whose turns are the same up to a renaming of the states end the
same. -/
theorem Ends.map
    {State' : Type} {body : State → Turn State Exit}
    {body' : State' → Turn State' Exit} {rename : State → State'}
    (commutes : ∀ state, body' (rename state) = (body state).map rename)
    {state : State} {ending : Ending State Exit}
    (ends : Ends body state ending) :
    Ends body' (rename state) (ending.map rename) := by
  induction ends with
  | again turn _ inductionHypothesis =>
      refine .again ?_ inductionHypothesis
      rw [commutes, turn]
      rfl
  | leave turn =>
      apply Ends.leave
      rw [commutes, turn]
      rfl
  | exit turn =>
      apply Ends.exit
      rw [commutes, turn]
      rfl

/-! ## The states of a loop -/

/-- The second state is one that a turn of the loop begins with, if the first
one is. -/
def Passes (body : State → Turn State Exit) : State → State → Prop :=
  Relation.ReflTransGen fun before after => body before = .again after

/-! ## Executing a loop -/

/-- At most `fuel` turns of the body. -/
def run (body : State → Turn State Exit) :
    Nat → State → Option (Ending State Exit)
  | 0, _ => none
  | fuel + 1, state =>
      match body state with
      | .again next => run body fuel next
      | .leave final => some (.left final)
      | .exit outcome => some (.exited outcome)

/-- What a run with enough fuel comes to is the ending. -/
theorem ends_of_run
    {body : State → Turn State Exit} {fuel : Nat}
    {state : State} {ending : Ending State Exit}
    (ran : run body fuel state = some ending) :
    Ends body state ending := by
  induction fuel generalizing state with
  | zero => simp [run] at ran
  | succ fuel inductionHypothesis =>
      unfold run at ran
      cases turn : body state with
      | again next =>
          rw [turn] at ran
          exact .again turn (inductionHypothesis ran)
      | leave final =>
          rw [turn] at ran
          cases ran
          exact .leave turn
      | exit outcome =>
          rw [turn] at ran
          cases ran
          exact .exit turn

/--
A loop body together with the reason why the loop ends: an invariant that
every turn keeps and a measure that every turn lowers.
-/
structure Loop (State Exit : Type) where
  body : State → Turn State Exit
  Invariant : State → Prop
  measure : State → Nat
  keeps : ∀ {state next : State}, Invariant state →
    body state = .again next → Invariant next
  lowers : ∀ {state next : State}, Invariant state →
    body state = .again next → measure next < measure state

namespace Loop

variable (loop : Loop State Exit)

/-- Fuel above the measure is enough. -/
theorem run_isSome
    {fuel : Nat} {state : State}
    (invariant : loop.Invariant state)
    (enough : loop.measure state < fuel) :
    (run loop.body fuel state).isSome := by
  induction fuel generalizing state with
  | zero => exact absurd enough (Nat.not_lt_zero _)
  | succ fuel inductionHypothesis =>
      unfold run
      cases turn : loop.body state with
      | again next =>
          have lowered := loop.lowers invariant turn
          exact inductionHypothesis (loop.keeps invariant turn)
            (by omega)
      | leave final => rfl
      | exit outcome => rfl

/-- The ending of a loop started where its invariant holds. -/
def exec (state : State) (invariant : loop.Invariant state) :
    Ending State Exit :=
  (run loop.body (loop.measure state + 1) state).get
    (loop.run_isSome invariant (Nat.lt_succ_self _))

/-- The loop comes to its ending. -/
theorem exec_ends
    (state : State) (invariant : loop.Invariant state) :
    Ends loop.body state (loop.exec state invariant) :=
  ends_of_run (Option.some_get _).symm

/-- The ending is the one that the turns lead to. -/
theorem exec_eq_iff
    {state : State} (invariant : loop.Invariant state)
    (ending : Ending State Exit) :
    loop.exec state invariant = ending ↔
      Ends loop.body state ending := by
  constructor
  · rintro rfl
    exact loop.exec_ends state invariant
  · exact fun ends => (loop.exec_ends state invariant).unique ends

end Loop

/-- A loop that never exits, and whose last state is as it should be. -/
theorem ends_of_invariant {body : State → Turn State Exit}
    {Invariant Final : State → Prop} (measure : State → Nat)
    (turn : ∀ state, Invariant state →
      (∃ next, body state = .again next ∧ Invariant next ∧
        measure next < measure state) ∨
      ∃ final, body state = .leave final ∧ Final final)
    {state : State} (invariant : Invariant state) :
    ∃ final, Ends body state (.left final) ∧ Final final := by
  induction bound : measure state using Nat.strong_induction_on
    generalizing state with
  | _ bound inductionHypothesis =>
      rcases turn state invariant with
        ⟨next, again, invariant', lowered⟩ | ⟨final, leave, holds⟩
      · obtain ⟨final, ends, holds⟩ :=
          inductionHypothesis _ (bound ▸ lowered) invariant' rfl
        exact ⟨final, .again again ends, holds⟩
      · exact ⟨final, .leave leave, holds⟩

/-- What cannot go on for ever comes to where it cannot go on. -/
theorem exists_stuck {step : State → State → Prop} {state : State}
    (terminates : Acc (fun next state => step state next) state) :
    ∃ final, Relation.ReflTransGen step state final ∧
      ∀ next, ¬ step final next := by
  induction terminates with
  | intro state _ inductionHypothesis =>
      by_cases stuck : ∃ next, step state next
      · obtain ⟨next, steps⟩ := stuck
        obtain ⟨final, reached, ended⟩ := inductionHypothesis next steps
        exact ⟨final, .head steps reached, ended⟩
      · exact ⟨state, .refl, not_exists.mp stuck⟩

/-! ## Comparing two loops -/

/--
Forward simulation.  `Related` is kept by every turn of the left loop that
comes round again, and a related pair whose left side jumps out is answered by
an ending of the right loop.
-/
theorem Ends.simulate
    {State' Exit' : Type}
    (body : State → Turn State Exit)
    (body' : State' → Turn State' Exit')
    (Related : State → State' → Prop)
    (Answers : State → Ending State' Exit' → Prop)
    (again : ∀ state state' next, Related state state' →
      body state = .again next →
      ∃ next', body' state' = .again next' ∧ Related next next')
    (leave : ∀ state state' final, Related state state' →
      body state = .leave final →
      ∃ ending', Ends body' state' ending' ∧ Answers final ending')
    {state final : State} {state' : State'}
    (related : Related state state')
    (ends : Ends body state (.left final)) :
    ∃ ending', Ends body' state' ending' ∧ Answers final ending' := by
  generalize ending : Ending.left final = result at ends
  induction ends generalizing state' with
  | again turn _ inductionHypothesis =>
      obtain ⟨next', turn', related'⟩ := again _ _ _ related turn
      obtain ⟨ending', ends', answers⟩ :=
        inductionHypothesis related' ending
      exact ⟨ending', .again turn' ends', answers⟩
  | leave turn =>
      cases ending
      exact leave _ _ _ related turn
  | exit turn => exact nomatch ending

/--
Lockstep comparison.  Two loops that both jump out, kept related turn by turn,
jump out in states related by `Final`.
-/
theorem Ends.lockstep
    {State' Exit' : Type}
    (body : State → Turn State Exit)
    (body' : State' → Turn State' Exit')
    (Related : State → State' → Prop)
    (Final : State → State' → Prop)
    (step : ∀ state state', Related state state' →
      (∃ next next', body state = .again next ∧
        body' state' = .again next' ∧ Related next next') ∨
      (∃ final final', body state = .leave final ∧
        body' state' = .leave final' ∧ Final final final') ∨
      (∃ outcome, body state = .exit outcome) ∨
      (∃ outcome', body' state' = .exit outcome'))
    {state final : State} {state' final' : State'}
    (related : Related state state')
    (ends : Ends body state (.left final))
    (ends' : Ends body' state' (.left final')) :
    Final final final' := by
  generalize ending : Ending.left final = result at ends
  generalize ending' : Ending.left final' = result' at ends'
  induction ends generalizing state' with
  | @again state _ _ turn _ inductionHypothesis =>
      rcases step _ _ related with
        ⟨next, next', turnL, turnR, related'⟩ |
          ⟨_, _, turnL, _⟩ | ⟨_, turnL⟩ | ⟨_, turnR⟩
      · obtain rfl := Turn.again.inj (turn.symm.trans turnL)
        cases ends' with
        | again turn' rest' =>
            obtain rfl := Turn.again.inj (turn'.symm.trans turnR)
            exact inductionHypothesis related' ending rest'
        | leave turn' => exact nomatch turn'.symm.trans turnR
        | exit turn' => exact nomatch ending'
      · exact nomatch turn.symm.trans turnL
      · exact nomatch turn.symm.trans turnL
      · cases ends' with
        | again turn' _ => exact nomatch turn'.symm.trans turnR
        | leave turn' => exact nomatch turn'.symm.trans turnR
        | exit turn' => exact nomatch ending'
  | leave turn =>
      cases ending
      rcases step _ _ related with
        ⟨_, _, turnL, _⟩ | ⟨_, _, turnL, turnR, holds⟩ |
          ⟨_, turnL⟩ | ⟨_, turnR⟩
      · exact nomatch turn.symm.trans turnL
      · obtain rfl := Turn.leave.inj (turn.symm.trans turnL)
        cases ends' with
        | again turn' _ => exact nomatch turn'.symm.trans turnR
        | leave turn' =>
            cases ending'
            obtain rfl := Turn.leave.inj (turn'.symm.trans turnR)
            exact holds
        | exit turn' => exact nomatch ending'
      · exact nomatch turn.symm.trans turnL
      · cases ends' with
        | again turn' _ => exact nomatch turn'.symm.trans turnR
        | leave turn' => exact nomatch turn'.symm.trans turnR
        | exit turn' => exact nomatch ending'
  | exit turn => exact nomatch ending

end Lmcas.Lib.Iteration
