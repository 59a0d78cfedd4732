import Mathlib.Algebra.Order.Ring.Nat
import Mathlib.Data.Char
import Mathlib.Data.List.Infix
import Mathlib.Data.List.Lex
import Mathlib.Tactic.Common

/-!
# Words, string objects and pointers into them

A command-line word is the list of its characters; the byte with code `n` is
the character with that code, so every byte string is a word.  A C program
sees a word through a pointer.  Two pointers are equal when they point to the
same place of the same object, and equal contents do not make two pointers
equal, so a string object carries an identity next to its characters.
-/

namespace Lmcas.Lib.CString

/-- The characters of a string, without the terminating NUL. -/
abbrev Word := List Char

/-- Where a string object comes from. -/
inductive ObjId where
  | argument (index : Nat)
  | static (index : Nat)
  | copy (index : Nat)
deriving DecidableEq, Repr

/-- A string object: what a `char *` to its first character denotes. -/
structure StrObj where
  id : ObjId
  chars : Word
deriving DecidableEq, Repr

/-- A pointer into a string object. -/
structure CStr where
  obj : StrObj
  off : Nat
deriving DecidableEq, Repr

namespace CStr

/-- The characters from the pointer to the terminating NUL. -/
def text (pointer : CStr) : Word :=
  pointer.obj.chars.drop pointer.off

/-- Pointer arithmetic, `p + n`. -/
def add (pointer : CStr) (count : Nat) : CStr :=
  { pointer with off := pointer.off + count }

/-- Pointer arithmetic, `p - 1`. -/
def pred (pointer : CStr) : CStr :=
  { pointer with off := pointer.off - 1 }

/-- A pointer moved on points at the rest of the text. -/
@[simp]
theorem text_add (pointer : CStr) (count : Nat) :
    (pointer.add count).text = pointer.text.drop count := by
  simp [text, add, List.drop_drop]

end CStr

/-- The pointer to the first character. -/
def StrObj.ptr (obj : StrObj) : CStr :=
  ⟨obj, 0⟩

@[simp]
theorem StrObj.text_ptr (obj : StrObj) : obj.ptr.text = obj.chars := by
  simp [StrObj.ptr, CStr.text]

/-- `strchr`: the suffix of `word` that starts at the first `char`. -/
def strchr (word : Word) (char : Char) : Option Word :=
  match word.dropWhile (· ≠ char) with
  | [] => none
  | found => some found

/-! ## Argument vectors -/

/-- The argument objects made for a list of words, numbered from `first`. -/
def argumentsFrom (first : Nat) : List Word → List StrObj
  | [] => []
  | word :: rest => ⟨.argument first, word⟩ :: argumentsFrom (first + 1) rest

/-- The argument vector the kernel builds from a list of words. -/
def argvOf (words : List Word) : List StrObj :=
  argumentsFrom 0 words

@[simp]
theorem map_chars_argumentsFrom (first : Nat) (words : List Word) :
    (argumentsFrom first words).map StrObj.chars = words := by
  induction words generalizing first with
  | nil => rfl
  | cons word rest inductionHypothesis =>
      simp [argumentsFrom, inductionHypothesis]

@[simp]
theorem length_argumentsFrom (first : Nat) (words : List Word) :
    (argumentsFrom first words).length = words.length := by
  induction words generalizing first with
  | nil => rfl
  | cons word rest inductionHypothesis =>
      simp [argumentsFrom, inductionHypothesis]

/-- The words of two lists follow each other in memory. -/
theorem argumentsFrom_append
    (first : Nat) (left right : List Word) :
    argumentsFrom first (left ++ right) =
      argumentsFrom first left ++
        argumentsFrom (first + left.length) right := by
  induction left generalizing first with
  | nil => rfl
  | cons word rest inductionHypothesis =>
      simp [argumentsFrom, inductionHypothesis, Nat.add_comm,
        Nat.add_left_comm]

@[simp]
theorem map_chars_argvOf (words : List Word) :
    (argvOf words).map StrObj.chars = words :=
  map_chars_argumentsFrom 0 words

@[simp]
theorem length_argvOf (words : List Word) :
    (argvOf words).length = words.length :=
  length_argumentsFrom 0 words

/-- A longer argument vector extends a shorter one, object for object. -/
theorem argvOf_append (left right : List Word) :
    ∃ added, argvOf (left ++ right) = argvOf left ++ added ∧
      added.map StrObj.chars = right :=
  ⟨argumentsFrom (0 + left.length) right,
    argumentsFrom_append 0 left right,
    map_chars_argumentsFrom _ right⟩

end Lmcas.Lib.CString
