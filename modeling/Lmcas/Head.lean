import Lmcas.Lib.NeckPrelude
import Lmcas.System

/-!
# `head`

The annotated `main` of `head`.  A first word such as `-5c` is in the old
syntax: the number and the letters behind it are read by hand, a multiplier
among the letters is written behind the digits, and the word is hidden from
`getopt_long`.  Behind the neck the number of operands decides about headers.

`xdectoumax` is a parameter; a number it rejects ends the process.
-/

namespace Lmcas.Head

open Lmcas.Lib.CString
open Lmcas.Lib.Getopt
open Lmcas.Lib.OptionLoop
open Lmcas.Lib
open Lmcas.Lib.NeckPrelude
open Lmcas.System

/-! ## Options -/

/-- `enum header_mode`. -/
inductive HeaderMode where
  | multipleFiles
  | always
  | never
deriving DecidableEq, Repr

/-- `OFF_T_MAX`. -/
def offTMax : Nat := 2 ^ 63 - 1

/-- `CHAR_MAX + 1`. -/
def presumeInputPipeOption : OptVal := .enum 128

/-- `long_options[]`. -/
def longOptions : List LongOption :=
  [⟨"bytes".toList, .required, .char 'c'⟩,
    ⟨"lines".toList, .required, .char 'n'⟩,
    ⟨"-presume-input-pipe".toList, .no, presumeInputPipeOption⟩,
    ⟨"quiet".toList, .no, .char 'q'⟩,
    ⟨"silent".toList, .no, .char 'q'⟩,
    ⟨"verbose".toList, .no, .char 'v'⟩,
    ⟨"zero-terminated".toList, .no, .char 'z'⟩,
    getoptHelpOptionDecl,
    getoptVersionOptionDecl]

/-- How `main` calls `getopt_long`. -/
def optionConfig (posixlyCorrect : Bool) : Config :=
  getoptInitialize "c:n:qvz0123456789".toList longOptions posixlyCorrect

/-- The variables that are set in front of the neck.  `print_headers` and
`have_read_stdin` are false there. -/
structure Vars where
  headerMode : HeaderMode
  nUnits : Nat
  countLines : Bool
  elideFromEnd : Bool
  lineEnd : Char
  presumeInputPipe : Bool
deriving DecidableEq, Repr

/-- `DEFAULT_NUMBER` lines. -/
def initial : Vars where
  headerMode := .multipleFiles
  nUnits := 10
  countLines := true
  elideFromEnd := false
  lineEnd := '\n'
  presumeInputPipe := false

/-- An ending in front of the neck; `invalid` is `xdectoumax` giving up on a
number. -/
inductive Exit where
  | early (early : Early)
  | invalid (err nString : Word)
deriving DecidableEq, Repr

section

variable (xdectoumax : Xdectoumax)

/-- `string_to_integer`: a number that is not valid ends the program. -/
def stringToInteger (countLines : Bool) (nString : Word) :
    Except Exit Nat :=
  match xdectoumax nString 0 uintmaxMax "bkKmMGTPEZY0".toList with
  | some value => .ok value
  | none =>
      .error (.invalid
        (if countLines then "invalid number of lines".toList
          else "invalid number of bytes".toList) nString)

/-- `-c` and `-n`. -/
def setUnits (countLines : Bool) (optarg : Option CStr) (vars : Vars) :
    Except Exit Vars :=
  let text := (optarg.map CStr.text).getD []
  let elideFromEnd := text.head? = some '-'
  let nString := if elideFromEnd then text.drop 1 else text
  match stringToInteger xdectoumax countLines nString with
  | .error exit => .error exit
  | .ok nUnits =>
      .ok { vars with
        countLines := countLines
        elideFromEnd := elideFromEnd
        nUnits := nUnits }

/-- The `switch`. -/
def handle (ret : Ret) (optarg : Option CStr) (vars : Vars) :
    Except Exit Vars :=
  match ret with
  | .val (.char 'c') => setUnits xdectoumax false optarg vars
  | .val (.char 'n') => setUnits xdectoumax true optarg vars
  | .val (.char 'q') => .ok { vars with headerMode := .never }
  | .val (.char 'v') => .ok { vars with headerMode := .always }
  | .val (.char 'z') => .ok { vars with lineEnd := Char.ofNat 0 }
  | ret =>
      if ret = .val presumeInputPipeOption then
        .ok { vars with presumeInputPipe := true }
      else .error (.early (endingCase exitFailure ret))

/-! ## The old syntax -/

/-- The letters behind the number; `multiplier_char` is 0 at first. -/
def trailingOptions (vars : Vars) (multiplierChar : Option Char) :
    Word → Except Exit (Vars × Option Char)
  | [] => .ok (vars, multiplierChar)
  | letter :: rest =>
      match letter with
      | 'c' => trailingOptions { vars with countLines := false } none rest
      | 'b' | 'k' | 'm' =>
          trailingOptions { vars with countLines := false } (some letter) rest
      | 'l' =>
          trailingOptions { vars with countLines := true } multiplierChar rest
      | 'q' =>
          trailingOptions { vars with headerMode := .never } multiplierChar
            rest
      | 'v' =>
          trailingOptions { vars with headerMode := .always } multiplierChar
            rest
      | 'z' =>
          trailingOptions { vars with lineEnd := Char.ofNat 0 }
            multiplierChar rest
      | _ => .error (.early (.usage exitFailure))

/-- A word that begins with `-` and a digit.  The multiplier takes the place
of the first letter in it. -/
def obsolete : Word → Option (Except Exit Vars)
  | '-' :: digit :: rest =>
      if digit.isDigit then
        let digits := digit :: rest.takeWhile Char.isDigit
        match trailingOptions initial none (rest.dropWhile Char.isDigit) with
        | .error exit => some (.error exit)
        | .ok (vars, multiplierChar) =>
            match stringToInteger xdectoumax vars.countLines
                (digits ++ multiplierChar.toList) with
            | .error exit => some (.error exit)
            | .ok nUnits => some (.ok { vars with nUnits := nUnits })
      else none
  | _ => none

/-! ## Behind the neck -/

/-- A call of `head_file`, with the static variables that it reads. -/
structure HeadFile where
  filename : Word
  nUnits : Nat
  countLines : Bool
  elideFromEnd : Bool
  printHeaders : Bool
  lineEnd : Char
  presumeInputPipe : Bool
deriving DecidableEq, Repr

/-- What the last of the calls made so far returns, `none` if it ends the
process, and whether standard input can be closed behind them. -/
structure World where
  headFile : List HeadFile → Option Bool
  closeStdin : List HeadFile → Bool

/-- How a run ends, with the calls that it has made. -/
inductive Outcome where
  | exit (exit : Exit)
  | tooManyBytes (nUnits : Nat)
  | finished (calls : List HeadFile) (status : Nat)
deriving DecidableEq, Repr

/-- `print_headers`, set behind the loop of options. -/
def printHeaders (vars : Vars) (files : List Word) : Bool :=
  vars.headerMode = .always ||
    (vars.headerMode = .multipleFiles && decide (1 < files.length))

/-- The calls of `head_file`, one for each operand; no operand stands for the
standard input. -/
def headFiles (vars : Vars) (files : List Word) : List HeadFile :=
  (if files = [] then ["-".toList] else files).map fun filename =>
    { filename := filename
      nUnits := vars.nUnits
      countLines := vars.countLines
      elideFromEnd := vars.elideFromEnd
      printHeaders := printHeaders vars files
      lineEnd := vars.lineEnd
      presumeInputPipe := vars.presumeInputPipe }

/-- The loop over `file_list`: the calls made, and `ok`. -/
def headLoop (world : World) (made : List HeadFile) (ok : Bool) :
    List HeadFile → List HeadFile × Option Bool
  | [] => (made, some ok)
  | call :: rest =>
      match world.headFile (made ++ [call]) with
      | none => (made ++ [call], none)
      | some result =>
          headLoop world (made ++ [call]) (ok && result) rest

/-- `main` behind the neck. -/
def resume (world : World) (vars : Vars) (files : List Word) : Outcome :=
  if !vars.countLines && vars.elideFromEnd && decide (offTMax < vars.nUnits)
  then .tooManyBytes vars.nUnits
  else
    match headLoop world [] true (headFiles vars files) with
    | (calls, none) => .finished calls exitFailure
    | (calls, some ok) =>
        let haveReadStdin := calls.any (·.filename = "-".toList)
        if haveReadStdin && !world.closeStdin calls then
          .finished calls exitFailure
        else .finished calls (if ok then exitSuccess else exitFailure)

/-- `head` in two parts, with the obsolete form of options taken out of the
words before the loop. -/
def program (posixlyCorrect : Bool) :
    PreludeProgram Vars Exit (World → Outcome) where
  obsolete := obsolete xdectoumax
  config := optionConfig posixlyCorrect
  handle := handle xdectoumax
  initial := initial
  early exit := fun _ => .exit exit
  resume vars files := fun world => resume world vars files

end

/-- `head` never asks for the operands as options. -/
theorem ordering_optionConfig (posixlyCorrect : Bool) :
    (optionConfig posixlyCorrect).ordering ≠ .returnInOrder := by
  cases posixlyCorrect <;> decide

/-- An option that is not known ends the program. -/
theorem handle_unrecognized (xdectoumax : Xdectoumax)
    (optarg : Option CStr) (vars : Vars) :
    ∃ exit, handle xdectoumax .unrecognized optarg vars = .error exit :=
  ⟨_, rfl⟩

/-! ## Soundness of the neck -/

/--
Specialised on option words, the old syntax among them, `head` makes the calls
of the whole run for all operands.
-/
theorem soundAt (xdectoumax : Xdectoumax) {posixlyCorrect : Bool}
    {name : Word} {words files : List Word} {neck : State × Vars}
    (nonempty : words ≠ [])
    (reached :
      ((program xdectoumax posixlyCorrect).staged name).Reaches words neck)
    (noOperand : operands neck.1 = [])
    (areOperands : ∀ file ∈ files, nonoption file) :
    ((program xdectoumax posixlyCorrect).staged name).SoundAt
      (NeckLoop.Presents Eq name files) words (words ++ files) :=
  NeckPrelude.soundAt (ordering_optionConfig posixlyCorrect)
    (handle_unrecognized xdectoumax) nonempty reached noOperand areOperands

end Lmcas.Head
