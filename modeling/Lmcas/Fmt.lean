import Lmcas.Lib.NeckPrelude
import Lmcas.System

/-!
# `fmt`

The annotated `main` of `fmt`.  A first word such as `-72` is in the old
syntax; the text behind its `-` is taken for the width as it is, and the word
is hidden from `getopt_long`.  The widths are converted behind the neck, so a
width that is no number is reported there.

`xdectoumax` is a parameter; a number it rejects ends the process.
-/

namespace Lmcas.Fmt

open Lmcas.Lib
open Lmcas.Lib.CString
open Lmcas.Lib.Getopt
open Lmcas.Lib.OptionLoop
open Lmcas.Lib.NeckPrelude
open Lmcas.System

/-! ## Options -/

/-- `WIDTH`. -/
def width : Nat := 75

/-- `LEEWAY`. -/
def leeway : Nat := 7

/-- `MAXCHARS`. -/
def maxchars : Nat := 5000

/-- `long_options[]`. -/
def longOptions : List LongOption :=
  [⟨"crown-margin".toList, .no, .char 'c'⟩,
    ⟨"prefix".toList, .required, .char 'p'⟩,
    ⟨"split-only".toList, .no, .char 's'⟩,
    ⟨"tagged-paragraph".toList, .no, .char 't'⟩,
    ⟨"uniform-spacing".toList, .no, .char 'u'⟩,
    ⟨"width".toList, .required, .char 'w'⟩,
    ⟨"goal".toList, .required, .char 'g'⟩,
    getoptHelpOptionDecl,
    getoptVersionOptionDecl]

/-- How `main` calls `getopt_long`. -/
def optionConfig (posixlyCorrect : Bool) : Config :=
  getoptInitialize "0123456789cstuw:p:g:".toList longOptions posixlyCorrect

/-- What `set_prefix` sets; `text` is `prefix`. -/
structure Prefix where
  text : Word
  fullLength : Nat
  leadSpace : Nat
  length : Nat
deriving DecidableEq, Repr

/-- The variables that are set in front of the neck. -/
structure Vars where
  crown : Bool
  tagged : Bool
  split : Bool
  uniform : Bool
  maxWidth : Nat
  linePrefix : Prefix
  maxWidthOption : Option Word
  goalWidthOption : Option Word
deriving DecidableEq, Repr

/-- The variables before the first option. -/
def initial : Vars where
  crown := false
  tagged := false
  split := false
  uniform := false
  maxWidth := width
  linePrefix := ⟨[], 0, 0, 0⟩
  maxWidthOption := none
  goalWidthOption := none

/-- `set_prefix`.  The spaces at the end are cut off in the string itself. -/
def setPrefix (p : Word) : Prefix :=
  let full := p.dropWhile (· = ' ')
  let trimmed := (full.reverse.dropWhile (· = ' ')).reverse
  { text := trimmed
    fullLength := full.length
    leadSpace := (p.takeWhile (· = ' ')).length
    length := trimmed.length }

/-- The `switch`. -/
def handle (ret : Ret) (optarg : Option CStr) (vars : Vars) :
    Except Early Vars :=
  match ret with
  | .val (.char 'c') => .ok { vars with crown := true }
  | .val (.char 's') => .ok { vars with split := true }
  | .val (.char 't') => .ok { vars with tagged := true }
  | .val (.char 'u') => .ok { vars with uniform := true }
  | .val (.char 'w') =>
      .ok { vars with maxWidthOption := optarg.map CStr.text }
  | .val (.char 'g') =>
      .ok { vars with goalWidthOption := optarg.map CStr.text }
  | .val (.char 'p') =>
      .ok { vars with
        linePrefix := setPrefix ((optarg.map CStr.text).getD []) }
  | ret => .error (endingCase exitFailure ret)

/-- A word that begins with `-` and a digit. -/
def obsolete : Word → Option (Except Early Vars)
  | '-' :: digit :: rest =>
      if digit.isDigit then
        some (.ok { initial with maxWidthOption := some (digit :: rest) })
      else none
  | _ => none

/-! ## Behind the neck -/

/-- The variables that `fmt` reads while it formats a stream. -/
structure Layout where
  maxWidth : Nat
  goalWidth : Nat
  linePrefix : Prefix
  crown : Bool
  tagged : Bool
  split : Bool
  uniform : Bool
deriving DecidableEq, Repr

section

variable (xdectoumax : Xdectoumax)

/-- `max_width` and `goal_width`, or the option argument that is no number. -/
def widths (vars : Vars) : Except Word (Nat × Nat) :=
  let maxWidth : Except Word Nat :=
    match vars.maxWidthOption with
    | none => .ok vars.maxWidth
    | some nString =>
        match xdectoumax nString 0 (maxchars / 2) [] with
        | none => .error nString
        | some value => .ok value
  match maxWidth with
  | .error nString => .error nString
  | .ok maxWidth =>
      match vars.goalWidthOption with
      | none =>
          .ok (maxWidth, maxWidth * (2 * (100 - leeway) + 1) / 200)
      | some nString =>
          match xdectoumax nString 0 maxWidth [] with
          | none => .error nString
          | some goalWidth =>
              .ok
                (if vars.maxWidthOption = none then goalWidth + 10
                  else maxWidth, goalWidth)

/-- What is done for an operand: a stream is formatted, a file cannot be
opened or closed. -/
inductive Event where
  | fmtStdin (layout : Layout)
  | fmtFile (file : Word) (layout : Layout)
  | openFailed (file : Word)
  | closeFailed (file : Word)
deriving DecidableEq, Repr

/-- Whether a file can be opened and closed behind what has been done so
far. -/
structure World where
  fopen : List Event → Word → Bool
  fclose : List Event → Word → Bool

/-- The body of the loop over the operands, and `ok`. -/
def fmtOperand (world : World) (layout : Layout) (file : Word)
    (state : List Event × Bool) : List Event × Bool :=
  if file = "-".toList then (state.1 ++ [.fmtStdin layout], state.2)
  else if world.fopen state.1 file then
    let formatted := state.1 ++ [.fmtFile file layout]
    if world.fclose formatted file then (formatted, state.2)
    else (formatted ++ [.closeFailed file], false)
  else (state.1 ++ [.openFailed file], false)

/-- How a run ends. -/
inductive Outcome where
  | early (early : Early)
  | invalidWidth (nString : Word)
  | finished (events : List Event) (status : Nat)
deriving DecidableEq, Repr

/-- `main` behind the neck. -/
def resume (world : World) (vars : Vars) (files : List Word) : Outcome :=
  match widths xdectoumax vars with
  | .error nString => .invalidWidth nString
  | .ok (maxWidth, goalWidth) =>
      let layout : Layout :=
        { maxWidth := maxWidth
          goalWidth := goalWidth
          linePrefix := vars.linePrefix
          crown := vars.crown
          tagged := vars.tagged
          split := vars.split
          uniform := vars.uniform }
      if files = [] then .finished [.fmtStdin layout] exitSuccess
      else
        let done := files.foldl
          (fun state file => fmtOperand world layout file state) ([], true)
        .finished done.1 (if done.2 then exitSuccess else exitFailure)

/-- `fmt` in two parts, with the obsolete `-WIDTH` taken out of the words before
the loop. -/
def program (posixlyCorrect : Bool) :
    PreludeProgram Vars Early (World → Outcome) where
  obsolete := obsolete
  config := optionConfig posixlyCorrect
  handle := handle
  initial := initial
  early early := fun _ => .early early
  resume vars files := fun world => resume xdectoumax world vars files

end

/-! ## The prefix -/

/-- Spaces in front of the prefix and its full length make up the argument;
trimming does not make it longer. -/
theorem setPrefix_lengths (p : Word) :
    (setPrefix p).leadSpace + (setPrefix p).fullLength = p.length ∧
      (setPrefix p).length = (setPrefix p).text.length ∧
      (setPrefix p).length ≤ (setPrefix p).fullLength := by
  refine ⟨?_, rfl, ?_⟩
  · show (p.takeWhile _).length + (p.dropWhile _).length = p.length
    rw [← List.length_append, List.takeWhile_append_dropWhile]
  · simp only [setPrefix, List.length_reverse]
    exact Nat.le_trans (List.length_dropWhile_le _ _)
      (Nat.le_of_eq List.length_reverse)

/-! ## Soundness of the neck -/

/-- `fmt` never asks for the operands as options. -/
theorem ordering_optionConfig (posixlyCorrect : Bool) :
    (optionConfig posixlyCorrect).ordering ≠ .returnInOrder := by
  cases posixlyCorrect <;> decide

/-- An option that is not known ends the program. -/
theorem handle_unrecognized (optarg : Option CStr) (vars : Vars) :
    ∃ early, handle .unrecognized optarg vars = .error early :=
  ⟨_, rfl⟩

/--
Specialised on option words, a width in the old syntax among them, `fmt`
formats the streams of the whole run in the same way.
-/
theorem soundAt (xdectoumax : Xdectoumax) {posixlyCorrect : Bool}
    {name : Word} {words files : List Word} {neck : State × Vars}
    (nonempty : words ≠ [])
    (reached :
      ((program xdectoumax posixlyCorrect).staged name).Reaches words neck)
    (noOperand : operands neck.1 = [])
    (areOperands : ∀ file ∈ files, nonoption file) :
    ((program xdectoumax posixlyCorrect).staged name).SoundAt
      (NeckLoop.Presents Eq name files) words (words ++ files) :=
  NeckPrelude.soundAt (ordering_optionConfig posixlyCorrect)
    handle_unrecognized nonempty reached noOperand areOperands

end Lmcas.Fmt
