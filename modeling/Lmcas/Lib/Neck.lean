import Mathlib.Data.List.Basic
import Mathlib.Tactic.Common

/-!
# Programs cut in two at a neck

A program that reads its options first and works on its operands afterwards
can be cut between the two parts, at its neck.  `Staged` is such a program.
Specialisation runs the first part once, keeps the state it leaves, and runs
the second part later on a state that only presents other operands.

`SoundAt` says that the delayed second part cannot be told from the program
itself.  The outcome type is abstract: it is whatever an observer sees, and it
may be a function of a world that the run is performed in.

The last section states the other property of a neck, that a run passes it
once and between its two parts, as a property of the run's events.
-/

namespace Lmcas.Lib.Neck

variable {Input State Outcome : Type*}

/-- A first part that ends the process or leaves a state, and a second part
that works on this state. -/
structure Staged (Input State Outcome : Type*) where
  configure : Input → Except Outcome State
  resume : State → Outcome

namespace Staged

variable (program : Staged Input State Outcome)

/-- The program as it stands, both parts in one run. -/
def full (input : Input) : Outcome :=
  match program.configure input with
  | .ok state => program.resume state
  | .error outcome => outcome

/-- The run on `input` gets to the neck in `state`. -/
def Reaches (input : Input) (state : State) : Prop :=
  program.configure input = .ok state

variable {program}

/-- A run that reaches the neck goes on from there. -/
theorem full_of_reaches {input : Input} {state : State}
    (reached : program.Reaches input state) :
    program.full input = program.resume state := by
  have configured : program.configure input = .ok state := reached
  rw [full, configured]

/-- A run that does not is over. -/
theorem full_of_stopped {input : Input} {outcome : Outcome}
    (stopped : program.configure input = .error outcome) :
    program.full input = outcome := by
  rw [full, stopped]

theorem Reaches.unique {input : Input} {first second : State}
    (firstReached : program.Reaches input first)
    (secondReached : program.Reaches input second) :
    first = second :=
  Except.ok.inj (firstReached.symm.trans secondReached)

/-- Specialisation on `options` is sound for the run on `whole`: wherever the
neck is reached, every state that presents the operands resumes like `whole`
runs. -/
def SoundAt (program : Staged Input State Outcome)
    (Presents : State → State → Prop) (options whole : Input) : Prop :=
  ∀ state resumed, program.Reaches options state →
    Presents state resumed →
    program.resume resumed = program.full whole

variable {Presents : State → State → Prop} {options whole : Input}

/-- At a neck that is reached, soundness is about one state. -/
theorem soundAt_iff_of_reaches {state : State}
    (reached : program.Reaches options state) :
    program.SoundAt Presents options whole ↔
      ∀ resumed, Presents state resumed →
        program.resume resumed = program.full whole := by
  constructor
  · intro sound resumed presents
    exact sound state resumed reached presents
  · intro agrees state' resumed reached' presents
    cases reached.unique reached'
    exact agrees resumed presents

/-- The whole run gets to its neck as well. -/
theorem soundAt_iff_of_continues {state state' : State}
    (reached : program.Reaches options state)
    (continues : program.Reaches whole state') :
    program.SoundAt Presents options whole ↔
      ∀ resumed, Presents state resumed →
        program.resume resumed = program.resume state' := by
  rw [soundAt_iff_of_reaches reached, full_of_reaches continues]

end Staged

/-! ## Passing a mark once -/

variable {Event : Type*}

/-- `mark` happens once, behind nothing but `Before` events and in front of
nothing but `After` events. -/
def OnceBetween (Before After : Event → Prop) (mark : Event)
    (events : List Event) : Prop :=
  ∃ before after, events = before ++ mark :: after ∧
    (∀ event ∈ before, Before event) ∧ ∀ event ∈ after, After event

variable {Before After : Event → Prop} {mark : Event}

theorem onceBetween_append_cons {before after : List Event}
    (allBefore : ∀ event ∈ before, Before event)
    (allAfter : ∀ event ∈ after, After event) :
    OnceBetween Before After mark (before ++ mark :: after) :=
  ⟨before, after, rfl, allBefore, allAfter⟩

theorem OnceBetween.mem {events : List Event}
    (once : OnceBetween Before After mark events) : mark ∈ events := by
  rcases once with ⟨before, after, rfl, _, _⟩
  exact List.mem_append_right before List.mem_cons_self

end Lmcas.Lib.Neck
