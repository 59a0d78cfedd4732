import Lmcas.Lib.OptionLoop

/-!
# What the programs share

The option-table entries, exit statuses and early endings that the annotated
programs take from `system.h` and `stdlib.h`.
-/

namespace Lmcas.System

open Lmcas.Lib.CString
open Lmcas.Lib.Getopt

/-- `EXIT_SUCCESS`. -/
def exitSuccess : Nat := 0

/-- `EXIT_FAILURE`. -/
def exitFailure : Nat := 1

/-- `CHAR_MIN - 2`. -/
def getoptHelpChar : OptVal := .enum (-130)

/-- `CHAR_MIN - 3`. -/
def getoptVersionChar : OptVal := .enum (-131)

/-- `GETOPT_HELP_OPTION_DECL`. -/
def getoptHelpOptionDecl : LongOption :=
  ⟨"help".toList, .no, getoptHelpChar⟩

/-- `GETOPT_VERSION_OPTION_DECL`. -/
def getoptVersionOptionDecl : LongOption :=
  ⟨"version".toList, .no, getoptVersionChar⟩

/-- `SIZE_MAX`. -/
def sizeMax : Nat := 2 ^ 64 - 1

/-- `UINTMAX_MAX`. -/
def uintmaxMax : Nat := 2 ^ 64 - 1

/-- `strtol_error`. -/
inductive StrtolError where
  | ok
  | overflow
  | invalidSuffixChar
  | invalidSuffixCharWithOverflow
  | invalid
deriving DecidableEq, Repr

/-- What `xstrtoumax` answers: the value it stores, and how far into the
string the pointer to the suffix points. -/
structure Strtol where
  error : StrtolError
  value : Nat
  suffix : Nat
deriving DecidableEq, Repr

/-- `xstrtoumax (string, &suffix, 10, &value, valid_suffixes)`. -/
abbrev Xstrtoumax := Word → Word → Strtol

/-- `xdectoumax (n_str, min, max, suffixes, err, 0)`; `none` if it ends the
process with the message `err`. -/
abbrev Xdectoumax := Word → Nat → Nat → Word → Option Nat

/-- `argmatch (arg, arglist, vallist, valsize)`: the index of the keyword that
the argument is or abbreviates.  The last argument tells of two indices
whether the same value belongs to them, as several keywords that the argument
abbreviates may have one value. -/
abbrev Argmatch := Word → List Word → (Nat → Nat → Bool) → Option Nat

/-- The functions of gnulib that the options are read with. -/
structure Gnulib where
  xstrtoumax : Xstrtoumax
  argmatch : Argmatch

/-- An ending that is decided by the command line alone. -/
inductive Early where
  | usage (status : Nat)
  | version
  | die (status : Nat)
deriving DecidableEq, Repr

/-- `case_GETOPT_HELP_CHAR`, `case_GETOPT_VERSION_CHAR` and `default`, the
cases that end every `switch`. -/
def endingCase (failure : Nat) (ret : Ret) : Early :=
  if ret = .val getoptHelpChar then .usage exitSuccess
  else if ret = .val getoptVersionChar then .version
  else .usage failure

/-! ## Arguments -/

/-- The argument of an option that has one. -/
def argument : Option CStr → Word
  | none => []
  | some optarg => optarg.text

/-- `XARGMATCH`: the value of a keyword, or `usage` if there is none. -/
def keyword {Value : Type} [DecidableEq Value] (argmatch : Argmatch)
    (table : List (Word × Value)) (arg : Word) : Except Early Value :=
  let value (index : Nat) : Option Value := table[index]?.map (·.2)
  let same (index other : Nat) : Bool := value index = value other
  match (argmatch arg (table.map (·.1)) same).bind value with
  | none => .error (.usage exitFailure)
  | some value => .ok value

/-- Keywords that are given in full. -/
def matchWhole : Argmatch := fun arg keywords _ =>
  keywords.findIdx? (· = arg)

/-- A word that can only be a file. -/
def IsFile (word : Word) : Prop :=
  word.head? ≠ some '-' ∧ word.head? ≠ some '+'

/-- A file is no option. -/
theorem IsFile.nonoption {word : Word} (isFile : IsFile word) :
    nonoption word = true := by
  unfold Lmcas.Lib.Getopt.nonoption
  split
  · exact absurd rfl isFile.1
  · rfl

/-- A file of this name is one. -/
theorem isFile_in : ∀ file ∈ ["in".toList], IsFile file := by
  simp [IsFile]

end Lmcas.System
