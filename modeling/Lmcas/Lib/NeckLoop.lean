import Lmcas.Lib.Neck
import Lmcas.Lib.OptionLoop

/-!
# Programs that read their options in one loop

`OptionProgram` is a program that reads its options in an `optionLoop`, has
its neck behind the loop, and then works on its variables and on the words
`argv + optind`.  `soundAt_iff` reduces the soundness of its neck to a
statement about the second part alone: the options leave the same variables
whether the operands stand behind them or not.
-/

namespace Lmcas.Lib.NeckLoop

open Lmcas.Lib.CString
open Lmcas.Lib.Getopt
open Lmcas.Lib.Iteration
open Lmcas.Lib.Neck
open Lmcas.Lib.OptionLoop

variable {Vars Exit Outcome : Type}

/-- A program whose neck stands behind its loop of options. -/
structure OptionProgram (Vars Exit Outcome : Type) where
  config : Config
  handle : Handler Vars Exit
  initial : Vars
  early : Exit → Outcome
  resume : Vars → List Word → Outcome

variable (program : OptionProgram Vars Exit Outcome)

/-- The program, started under a name and cut at its neck. -/
def OptionProgram.staged (name : Word) :
    Staged (List Word) (State × Vars) Outcome where
  configure words :=
    match scanOptions program.config program.handle name words
        program.initial with
    | .exited exit => .error (program.early exit)
    | .left neck => .ok neck
  resume neck := program.resume neck.2 (operands neck.1)

/-- `argc`, `argv` and `optind` present the words, and the variables are what
`Copied` allows. -/
structure Presents (Copied : Vars → Vars → Prop) (name : Word)
    (files : List Word) (neck resumed : State × Vars) : Prop where
  vars : Copied neck.2 resumed.2
  argv : resumed.1.argv.map StrObj.chars = name :: files
  optind : resumed.1.optind = 1

theorem Presents.operands {Copied : Vars → Vars → Prop} {name : Word}
    {files : List Word} {neck resumed : State × Vars}
    (presents : Presents Copied name files neck resumed) :
    OptionLoop.operands resumed.1 = files := by
  rw [OptionLoop.operands, presents.optind, List.map_drop, presents.argv]
  rfl

/-- A run that is resumed begins so. -/
theorem presents_start {Copied : Vars → Vars → Prop}
    {neck : State × Vars} {vars : Vars} (copied : Copied neck.2 vars)
    (name : Word) (files : List Word) :
    Presents Copied name files neck
      (start (argvOf (name :: files)), vars) where
  vars := copied
  argv := map_chars_argvOf _
  optind := rfl

variable {program}

/-- A run is at the neck when the loop has left it there. -/
theorem reaches_iff {name : Word} {words : List Word}
    {neck : State × Vars} :
    (program.staged name).Reaches words neck ↔
      scanOptions program.config program.handle name words
        program.initial = .left neck := by
  unfold Staged.Reaches OptionProgram.staged
  dsimp only
  cases scanOptions program.config program.handle name words
      program.initial with
  | exited early => simp
  | left final => simp

/--
Behind option words that leave no operand over, specialisation is sound if
and only if the second part cannot tell the copied variables from the ones at
the neck.
-/
theorem soundAt_iff
    (order : program.config.ordering ≠ .returnInOrder)
    (rejects : ∀ optarg vars, ∃ exit,
      program.handle .unrecognized optarg vars = .error exit)
    {Copied : Vars → Vars → Prop} {name : Word}
    {words files : List Word} {neck : State × Vars}
    (reached : (program.staged name).Reaches words neck)
    (noOperand : operands neck.1 = [])
    (areOperands : ∀ file ∈ files, nonoption file) :
    (program.staged name).SoundAt (Presents Copied name files) words
        (words ++ files) ↔
      ∀ vars, Copied neck.2 vars →
        program.resume vars files = program.resume neck.2 files := by
  rcases scanOptions_append order rejects (reaches_iff.mp reached)
      noOperand areOperands with ⟨after, scanned, leftOver⟩
  have continues : (program.staged name).Reaches (words ++ files)
      (after, neck.2) := reaches_iff.mpr scanned
  rw [Staged.soundAt_iff_of_continues reached continues]
  show (∀ resumed, Presents Copied name files neck resumed →
    program.resume resumed.2 (operands resumed.1) =
      program.resume neck.2 (operands after)) ↔ _
  rw [leftOver]
  constructor
  · intro agrees vars copied
    have presents := presents_start copied name files
    have agree := agrees _ presents
    rw [presents.operands] at agree
    exact agree
  · intro agrees resumed presents
    rw [presents.operands]
    exact agrees resumed.2 presents.vars

end Lmcas.Lib.NeckLoop
