import Lmcas.Lib.TwoRuns
import Lmcas.System

/-!
# The configuration of `wc`

`main` from `wc.c`, up to its neck.  The page size is asked for in front of
the option loop, and read behind the neck.
-/

namespace Lmcas.Wc

open Lmcas.Lib.CString
open Lmcas.Lib.Getopt
open Lmcas.Lib.Iteration
open Lmcas.Lib.OptionLoop
open Lmcas.Lib.TwoRuns
open Lmcas.System

/-- `CHAR_MAX + 1`. -/
def files0FromOption : OptVal := .enum 128

/-- `longopts[]`. -/
def longopts : List LongOption :=
  [⟨"bytes".toList, .no, .char 'c'⟩,
    ⟨"chars".toList, .no, .char 'm'⟩,
    ⟨"lines".toList, .no, .char 'l'⟩,
    ⟨"words".toList, .no, .char 'w'⟩,
    ⟨"files0-from".toList, .required, files0FromOption⟩,
    ⟨"max-line-length".toList, .no, .char 'L'⟩,
    getoptHelpOptionDecl,
    getoptVersionOptionDecl]

/-- How `main` calls `getopt_long`. -/
def optionConfig (posixlyCorrect : Bool) : Config :=
  getoptInitialize "clLmw".toList longopts posixlyCorrect

/-- `total_lines` and its like, and `max_line_length`. -/
structure Totals where
  lines : Nat
  words : Nat
  chars : Nat
  bytes : Nat
  maxLineLength : Nat
deriving DecidableEq, Repr

/-- The variables that are set in front of the neck and read behind it. -/
structure Vars where
  printLines : Bool
  printWords : Bool
  printChars : Bool
  printBytes : Bool
  printLinelength : Bool
  totals : Totals
  filesFrom : Option CStr
  posixlyCorrect : Bool
  pageSize : Nat
deriving DecidableEq, Repr

/-- The variables before the first option. -/
def initial (posixlyCorrect : Bool) (pageSize : Nat) : Vars where
  printLines := false
  printWords := false
  printChars := false
  printBytes := false
  printLinelength := false
  totals := ⟨0, 0, 0, 0, 0⟩
  filesFrom := none
  posixlyCorrect := posixlyCorrect
  pageSize := pageSize

/-- The `switch`. -/
def handle (ret : Ret) (optarg : Option CStr) (vars : Vars) :
    Except Early Vars :=
  match ret with
  | .val (.char 'c') => .ok { vars with printBytes := true }
  | .val (.char 'm') => .ok { vars with printChars := true }
  | .val (.char 'l') => .ok { vars with printLines := true }
  | .val (.char 'w') => .ok { vars with printWords := true }
  | .val (.char 'L') => .ok { vars with printLinelength := true }
  | ret =>
      if ret = .val files0FromOption then
        .ok { vars with filesFrom := optarg }
      else .error (endingCase exitFailure ret)

/-- `main` up to the neck, where `getpagesize ()` is `pageSize`. -/
def configure (posixlyCorrect : Bool) (pageSize : Nat) (name : Word)
    (words : List Word) : Ending (State × Vars) Early :=
  scanOptions (optionConfig posixlyCorrect) handle name words
    (initial posixlyCorrect pageSize)

/-! ## Two runs -/

/-- No option looks at the page size. -/
theorem handle_pageSize {ret : Ret} {optarg : Option CStr} {vars : Vars}
    (pageSize : Nat) :
    handle ret optarg { vars with pageSize := pageSize } =
      (handle ret optarg vars).map
        ({ · with pageSize := pageSize }) := by
  unfold handle
  split
  case h_6 => split <;> rfl
  all_goals rfl

/-- The variables of two runs, but for the page size. -/
def Agree (pageSize : Nat) (vars vars' : Vars) : Prop :=
  vars' = { vars with pageSize := pageSize }

/-- An option keeps the agreement of two runs. -/
theorem handle_agree {pageSize : Nat} {ret : Ret} {optarg : Option CStr}
    {vars vars' next next' : Vars} (agree : Agree pageSize vars vars')
    (handled : handle ret optarg vars = .ok next)
    (handled' : handle ret optarg vars' = .ok next') :
    Agree pageSize next next' := by
  rw [agree, handle_pageSize, handled] at handled'
  exact (Except.ok.inj handled').symm

/-- Two runs differ at the neck only in the size of a page. -/
theorem configure_agree {posixlyCorrect : Bool} {pageSize pageSize' : Nat}
    {name : Word} {words : List Word} {neck neck' : State × Vars}
    (reached : configure posixlyCorrect pageSize name words = .left neck)
    (reached' : configure posixlyCorrect pageSize' name words = .left neck') :
    neck'.1 = neck.1 ∧ neck'.2 = { neck.2 with pageSize := pageSize' } := by
  have begins : Agree pageSize' (initial posixlyCorrect pageSize)
      (initial posixlyCorrect pageSize') := rfl
  exact scanOptions_agree (fun _ => handle_agree) begins reached reached'

end Lmcas.Wc
