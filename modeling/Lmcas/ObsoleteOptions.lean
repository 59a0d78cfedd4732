import Lmcas.Fmt
import Lmcas.Head

/-!
# The programs with options in the old syntax

`head` and `fmt` together: hiding the first word from `getopt_long` changes
nothing about the neck of either.
-/

namespace Lmcas.ObsoleteOptions

open Lmcas.Lib.CString
open Lmcas.Lib.Getopt
open Lmcas.Lib.NeckLoop
open Lmcas.Lib.NeckPrelude
open Lmcas.Lib.OptionLoop
open Lmcas.System

/--
Specialised on option words, in the old syntax or not, `head` and `fmt` do for
all operands what they do in one run.
-/
theorem obsolete_soundAt (xdectoumax : Xdectoumax) (posixlyCorrect : Bool)
    {words files : List Word} (nonempty : words ≠ [])
    (areOperands : ∀ file ∈ files, nonoption file) :
    (∀ name neck,
      ((Head.program xdectoumax posixlyCorrect).staged name).Reaches words
        neck →
      operands neck.1 = [] →
      ((Head.program xdectoumax posixlyCorrect).staged name).SoundAt
        (Presents Eq name files) words (words ++ files)) ∧
    ∀ name neck,
      ((Fmt.program xdectoumax posixlyCorrect).staged name).Reaches words
        neck →
      operands neck.1 = [] →
      ((Fmt.program xdectoumax posixlyCorrect).staged name).SoundAt
        (Presents Eq name files) words (words ++ files) := by
  constructor
  · intro name neck reached noOperand
    exact Head.soundAt xdectoumax nonempty reached noOperand areOperands
  · intro name neck reached noOperand
    exact Fmt.soundAt xdectoumax nonempty reached noOperand areOperands

/-- `xdectoumax` on the number 5. -/
def onFive : Xdectoumax := fun nString _ max _ =>
  if nString = "5".toList ∧ 5 ≤ max then some 5 else none

/-- The neck of a program whose only word is an old option. -/
def hidden (name : Word) : State :=
  { start (argvOf [name]) with lastNonopt := 1 }

/-- `head -5` reaches its neck. -/
theorem reaches_head :
    ((Head.program onFive false).staged "head".toList).Reaches
      ["-5".toList]
      (hidden "head".toList,
        { Head.initial with nUnits := 5 }) :=
  reaches_iff.mpr ⟨[], _, rfl, by decide +kernel⟩

/-- `fmt -5` reaches its neck. -/
theorem reaches_fmt :
    ((Fmt.program onFive false).staged "fmt".toList).Reaches
      ["-5".toList]
      (hidden "fmt".toList,
        { Fmt.initial with maxWidthOption := some "5".toList }) :=
  reaches_iff.mpr ⟨[], _, rfl, by decide +kernel⟩

/-- `head -5 in` and `fmt -5 in`. -/
theorem obsolete_soundAt_five :
    ((Head.program onFive false).staged "head".toList).SoundAt
        (Presents Eq "head".toList ["in".toList]) ["-5".toList]
        (["-5".toList] ++ ["in".toList]) ∧
      ((Fmt.program onFive false).staged "fmt".toList).SoundAt
        (Presents Eq "fmt".toList ["in".toList]) ["-5".toList]
        (["-5".toList] ++ ["in".toList]) := by
  have sound := obsolete_soundAt onFive false
    (List.cons_ne_nil "-5".toList [])
    (show ∀ file ∈ ["in".toList], nonoption file by decide)
  exact ⟨sound.1 _ _ reaches_head (by decide),
    sound.2 _ _ reaches_fmt (by decide)⟩

end Lmcas.ObsoleteOptions
