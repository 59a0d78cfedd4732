import Lmcas.Lib.Neck
import Lmcas.Lib.OrderedLoop

/-!
# Programs that read options and operands in one loop

`OrderedProgram` is a program with its neck behind a loop that stores the
operands as well.  Its second part works on the variables alone: what the
argument vector holds at the neck does not matter to it any more.
-/

namespace Lmcas.Lib.OrderedNeck

open Lmcas.Lib.CString
open Lmcas.Lib.Getopt
open Lmcas.Lib.Iteration
open Lmcas.Lib.Neck
open Lmcas.Lib.OrderedLoop

variable {Vars Exit Outcome : Type}

/-- A program whose neck stands behind a loop that takes operands too. -/
structure OrderedProgram (Vars Exit Outcome : Type) where
  switch : Switch Vars Exit
  Kept : State → Vars → Prop
  tame : switch.Tame Kept
  initial : Vars
  kept : ∀ argv, Kept (start argv) initial
  early : Exit → Outcome
  resume : Vars → Outcome

namespace OrderedProgram

variable (program : OrderedProgram Vars Exit Outcome)

/-- The program, started under a name and cut at its neck. -/
def staged (name : Word) : Staged (List Word) (Scanning Vars) Outcome where
  configure words :=
    match program.tame.scan name words program.initial (program.kept _) with
    | .exited exit => .error (program.early exit)
    | .left neck => .ok neck
  resume neck := program.resume neck.vars

/-- The outcome of what operands behind the options come to. -/
def conclude : Except Exit Vars → Outcome
  | .ok vars => program.resume vars
  | .error exit => program.early exit

end OrderedProgram

/-- `argc`, `argv` and `optind` present the words, and nothing else has
changed. -/
structure Presents (name : Word) (files : List Word)
    (neck resumed : Scanning Vars) : Prop where
  vars : resumed.vars = neck.vars
  ended : resumed.ended = neck.ended
  argv : resumed.getopt.argv.map StrObj.chars = name :: files
  optind : resumed.getopt.optind = 1

/-- Every neck can be presented with any files. -/
theorem exists_presents (name : Word) (files : List Word)
    (neck : Scanning Vars) : ∃ resumed, Presents name files neck resumed :=
  ⟨⟨start (argvOf (name :: files)), neck.ended, neck.vars⟩,
    rfl, rfl, map_chars_argvOf _, rfl⟩

variable {program : OrderedProgram Vars Exit Outcome}

/-- A run is at the neck when the loop has left it there. -/
theorem reaches_iff {name : Word} {words : List Word}
    {neck : Scanning Vars} :
    (program.staged name).Reaches words neck ↔
      Ends program.switch.body (entry name words program.initial)
        (.left neck) := by
  have scanned : program.tame.scan name words program.initial
      (program.kept _) = .left neck ↔ _ := scan_eq_iff
  unfold Staged.Reaches OrderedProgram.staged
  rw [← scanned]
  dsimp only
  cases program.tame.scan name words program.initial (program.kept _) with
  | exited exit => simp
  | left final => simp

/-- A run shows what its loop comes to. -/
theorem full_of_ends {name : Word} {words : List Word} {after : State}
    {result : Except Exit Vars}
    (ends : Ends program.switch.body (entry name words program.initial)
      (ending after result)) :
    (program.staged name).full words = program.conclude result := by
  have scanned : program.tame.scan name words program.initial
      (program.kept _) = ending after result := scan_eq_iff.mpr ends
  unfold Staged.full OrderedProgram.staged
  dsimp only
  rw [scanned]
  cases result <;> rfl

/--
Behind options that store no operand, specialisation is sound if and only if
the second part does on the variables of the neck what it does once the
operands are stored.
-/
theorem soundAt_iff {IsOperand : Word → Prop} {taken : Vars → Nat}
    (delays : program.switch.Delays IsOperand taken)
    {name : Word} {words files : List Word} {neck : Scanning Vars}
    (reached : (program.staged name).Reaches words neck)
    (noneTaken : taken neck.vars ≤ taken program.initial)
    (areOperands : ∀ file ∈ files, IsOperand file) :
    (program.staged name).SoundAt (Presents name files) words
        (words ++ files) ↔
      program.resume neck.vars =
        program.conclude (program.switch.storeAll files neck.vars) := by
  rcases scan_append program.tame delays (reaches_iff.mp reached) noneTaken
    areOperands with ⟨after, ends⟩
  rw [Staged.soundAt_iff_of_reaches reached, full_of_ends ends]
  constructor
  · intro agrees
    rcases exists_presents name files neck with ⟨resumed, presents⟩
    have agree := agrees resumed presents
    rw [← agree, ← presents.vars]
    rfl
  · intro agree resumed presents
    rw [← agree, ← presents.vars]
    rfl

end Lmcas.Lib.OrderedNeck
