import Lmcas.Lib.NeckLoop

/-!
# Programs that read a word before their option loop

Some programs still know the options of older versions and look for one in the
first word of the command line.  They handle it themselves, hide it from
`getopt_long`, and enter the option loop with the variables it has set.

The rule for option loops carries over to them, because the word they look at
is an option word of the specialisation.
-/

namespace Lmcas.Lib.NeckPrelude

open Lmcas.Lib.CString
open Lmcas.Lib.Getopt
open Lmcas.Lib.Iteration
open Lmcas.Lib.Neck
open Lmcas.Lib.NeckLoop
open Lmcas.Lib.OptionLoop

variable {Vars Exit Outcome : Type}

/-- `obsolete` handles a word in the old syntax; other words are `none`. -/
structure PreludeProgram (Vars Exit Outcome : Type) where
  obsolete : Word → Option (Except Exit Vars)
  config : Config
  handle : Handler Vars Exit
  initial : Vars
  early : Exit → Outcome
  resume : Vars → List Word → Outcome

namespace PreludeProgram

variable (program : PreludeProgram Vars Exit Outcome)

/-- The words that are left to `getopt_long`, and the variables with which the
option loop begins. -/
def prelude : List Word → Except Exit (List Word × Vars)
  | [] => .ok ([], program.initial)
  | word :: rest =>
      match program.obsolete word with
      | none => .ok (word :: rest, program.initial)
      | some (.ok vars) => .ok (rest, vars)
      | some (.error exit) => .error exit

/-- The program behind its prelude. -/
def begunWith (vars : Vars) : OptionProgram Vars Exit Outcome where
  config := program.config
  handle := program.handle
  initial := vars
  early := program.early
  resume := program.resume

/-- The program, started under a name and cut at its neck. -/
def staged (name : Word) : Staged (List Word) (State × Vars) Outcome where
  configure words :=
    match program.prelude words with
    | .error exit => .error (program.early exit)
    | .ok (rest, vars) =>
        ((program.begunWith vars).staged name).configure rest
  resume neck := program.resume neck.2 (operands neck.1)

end PreludeProgram

variable {program : PreludeProgram Vars Exit Outcome}

/-- Words behind the first one are left to `getopt_long`. -/
theorem prelude_append {words rest : List Word} {vars : Vars}
    (nonempty : words ≠ []) (begun : program.prelude words = .ok (rest, vars))
    (files : List Word) :
    program.prelude (words ++ files) = .ok (rest ++ files, vars) := by
  cases words with
  | nil => exact absurd rfl nonempty
  | cons word others =>
      simp only [List.cons_append, PreludeProgram.prelude] at begun ⊢
      split at begun
      · cases begun
        rfl
      · cases begun
        rfl
      · cases begun

/-- A run is at the neck when the loop has left it there, after the words of the
prelude. -/
theorem reaches_iff {name : Word} {words : List Word}
    {neck : State × Vars} :
    (program.staged name).Reaches words neck ↔
      ∃ rest vars, program.prelude words = .ok (rest, vars) ∧
        scanOptions program.config program.handle name rest vars =
          .left neck := by
  simp only [Staged.Reaches, PreludeProgram.staged]
  constructor
  · intro reached
    split at reached
    · cases reached
    · rename_i rest vars begun
      exact ⟨rest, vars, begun, NeckLoop.reaches_iff.mp reached⟩
  · rintro ⟨rest, vars, begun, scanned⟩
    rw [begun]
    exact NeckLoop.reaches_iff.mpr scanned

/-- Operands behind the options change nothing in front of the neck. -/
theorem reaches_append
    (order : program.config.ordering ≠ .returnInOrder)
    (rejects : ∀ optarg vars, ∃ exit,
      program.handle .unrecognized optarg vars = .error exit)
    {name : Word} {words files : List Word} {neck : State × Vars}
    (nonempty : words ≠ [])
    (reached : (program.staged name).Reaches words neck)
    (noOperand : operands neck.1 = [])
    (areOperands : ∀ file ∈ files, nonoption file) :
    ∃ after, (program.staged name).Reaches (words ++ files)
        (after, neck.2) ∧ operands after = files := by
  rcases reaches_iff.mp reached with ⟨rest, vars, begun, scanned⟩
  rcases scanOptions_append order rejects scanned noOperand areOperands
    with ⟨after, scanned', leftOver⟩
  refine ⟨after, reaches_iff.mpr ⟨rest ++ files, vars, ?_, scanned'⟩,
    leftOver⟩
  exact prelude_append nonempty begun files

/--
Behind option words that leave no operand over, specialisation is sound for
operands that are presented with the variables of the neck.
-/
theorem soundAt
    (order : program.config.ordering ≠ .returnInOrder)
    (rejects : ∀ optarg vars, ∃ exit,
      program.handle .unrecognized optarg vars = .error exit)
    {name : Word} {words files : List Word} {neck : State × Vars}
    (nonempty : words ≠ [])
    (reached : (program.staged name).Reaches words neck)
    (noOperand : operands neck.1 = [])
    (areOperands : ∀ file ∈ files, nonoption file) :
    (program.staged name).SoundAt (Presents Eq name files) words
      (words ++ files) := by
  rcases reaches_append order rejects nonempty reached noOperand
    areOperands with ⟨after, continues, leftOver⟩
  rw [Staged.soundAt_iff_of_continues reached continues]
  intro resumed presents
  show program.resume resumed.2 (operands resumed.1) =
    program.resume neck.2 (operands after)
  rw [presents.operands, leftOver, presents.vars]

end Lmcas.Lib.NeckPrelude
