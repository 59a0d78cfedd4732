import Lmcas.Lib.CString
import Mathlib.Data.List.DropRight

/-!
# Strings in Python

The methods of `str` that cut a text into pieces, and `int` with base 10.  A
text is the list of its code points.  `int` reads a decimal digit of any
script, so the digits beyond ASCII are a parameter.
-/

namespace Lmcas.Lib.PyString

open Lmcas.Lib.CString

/-- The exceptions of the functions below. -/
inductive PyException where
  | indexError
  | valueError
deriving DecidableEq, Repr

/-- `list[index]`, the index not negative. -/
def index {α : Type*} (list : List α) (n : Nat) : Except PyException α :=
  match list[n]? with
  | some element => .ok element
  | none => .error .indexError

/-- An index finds what stands at its place. -/
@[simp]
theorem index_eq_ok {α : Type*} {list : List α} {n : Nat} {element : α} :
    index list n = .ok element ↔ list[n]? = some element := by
  unfold index
  cases list[n]? <;> simp

/-! ## Blanks -/

/-- `str.isspace`, for one character. -/
def isSpace (char : Char) : Bool :=
  let code := char.toNat
  (9 ≤ code && code ≤ 13) || (28 ≤ code && code ≤ 32) ||
    code == 0x85 || code == 0xa0 || code == 0x1680 ||
    (0x2000 ≤ code && code ≤ 0x200a) || code == 0x2028 || code == 0x2029 ||
    code == 0x202f || code == 0x205f || code == 0x3000

/-- What `strip` does with another set of characters. -/
def stripWith (blank : Char → Bool) (text : Word) : Word :=
  (text.dropWhile blank).rdropWhile blank

/-- `str.strip ()`. -/
def strip (text : Word) : Word :=
  stripWith isSpace text

/-- Text without blanks has nothing to strip. -/
theorem stripWith_eq_self {blank : Char → Bool} {text : Word}
    (noBlank : ∀ char ∈ text, blank char = false) :
    stripWith blank text = text := by
  have fromLeft : text.dropWhile blank = text := by
    cases text with
    | nil => rfl
    | cons char text =>
        exact List.dropWhile_cons_of_neg
          (by simp [noBlank char List.mem_cons_self])
  rw [stripWith, fromLeft, List.rdropWhile_eq_self_iff]
  intro nonempty blankLast
  rw [noBlank _ (List.getLast_mem nonempty)] at blankLast
  exact Bool.noConfusion blankLast

theorem stripWith_cons {blank : Char → Bool} {char : Char}
    (blankChar : blank char) (text : Word) :
    stripWith blank (char :: text) = stripWith blank text := by
  rw [stripWith, List.dropWhile_cons_of_pos blankChar, stripWith]

/-! ## Splitting -/

/-- `str.split` with a separator of two characters. -/
def splitPair (first second : Char) : Word → List Word
  | [] => [[]]
  | [char] => [[char]]
  | char :: next :: rest =>
      if char = first ∧ next = second then
        [] :: splitPair first second rest
      else
        (splitPair first second (next :: rest)).modifyHead (char :: ·)

/-- What stands in front of the first separator, and what is left behind
it. -/
theorem splitPair_append {first second : Char} {before : Word}
    (noPair : (before ++ [first]).IsChain fun char next =>
      ¬ (char = first ∧ next = second))
    (rest : Word) :
    splitPair first second (before ++ first :: second :: rest) =
      before :: splitPair first second rest := by
  induction before with
  | nil => simp [splitPair]
  | cons char before ih =>
      cases before with
      | nil =>
          have following := ih (List.IsChain.singleton _)
          have noneHere := (List.isChain_cons_cons.mp noPair).1
          simp only [List.cons_append, List.nil_append] at following ⊢
          rw [splitPair, if_neg noneHere, following]
          rfl
      | cons next before =>
          rcases List.isChain_cons_cons.mp noPair with ⟨noneHere, noneBehind⟩
          have following := ih noneBehind
          simp only [List.cons_append] at following ⊢
          rw [splitPair, if_neg noneHere, following]
          rfl

/-- Text without the separator is one piece. -/
theorem splitPair_eq_singleton {first second : Char} {text : Word}
    (notIn : first ∉ text) :
    splitPair first second text = [text] := by
  induction text with
  | nil => rfl
  | cons char text ih =>
      have following := ih fun member => notIn (List.mem_cons_of_mem _ member)
      cases text with
      | nil => rfl
      | cons next text =>
          have charDiffers : char ≠ first := by
            rintro rfl
            simp at notIn
          rw [splitPair, if_neg fun same => charDiffers same.1, following]
          rfl

/-- Lines that each end with the separator. -/
theorem splitOn_flatMap {separator : Char} {lines : List Word}
    (notIn : ∀ line ∈ lines, separator ∉ line) :
    (lines.flatMap (· ++ [separator])).splitOn separator = lines ++ [[]] := by
  induction lines with
  | nil => rfl
  | cons line lines ih =>
      have following := ih fun other member =>
        notIn other (List.mem_cons_of_mem _ member)
      rw [List.flatMap_cons, List.append_assoc, List.singleton_append,
        List.splitOn_append_cons_self_of_not_mem
          (notIn line List.mem_cons_self), following]
      rfl

/-- A piece that ends inside of `text` is a piece of `text`. -/
theorem getElem?_splitOn_append {separator : Char} {text : Word} {n : Nat}
    (enough : n < text.count separator) (rest : Word) :
    ((text ++ rest).splitOn separator)[n]? =
      (text.splitOn separator)[n]? := by
  induction n generalizing text with
  | zero =>
      rcases List.eq_append_cons_of_mem (List.count_pos_iff.mp enough) with
        ⟨before, behind, rfl, notIn⟩
      rw [List.append_assoc, List.cons_append,
        List.splitOn_append_cons_self_of_not_mem notIn,
        List.splitOn_append_cons_self_of_not_mem notIn]
      rfl
  | succ n ih =>
      rcases List.eq_append_cons_of_mem
        (List.count_pos_iff.mp (Nat.zero_lt_of_lt enough)) with
        ⟨before, behind, rfl, notIn⟩
      rw [List.append_assoc, List.cons_append,
        List.splitOn_append_cons_self_of_not_mem notIn,
        List.splitOn_append_cons_self_of_not_mem notIn,
        List.getElem?_cons_succ, List.getElem?_cons_succ]
      apply ih
      rw [List.count_append, List.count_eq_zero_of_not_mem notIn,
        List.count_cons_self] at enough
      omega

/-! ## Numerals -/

section

-- The value of a decimal digit that is not an ASCII character.
variable (unicodeDecimal : Char → Option Nat)

/-- The blanks that `int` skips; `\x1c` to `\x1f` are not among them. -/
def intSpace (char : Char) : Bool :=
  if char.toNat < 127 then
    (9 ≤ char.toNat && char.toNat ≤ 13) || char.toNat == 32
  else
    isSpace char

/-- The value of a decimal digit, of this or another script. -/
def decimal (char : Char) : Option Nat :=
  if char.toNat < 127 then
    if char.isDigit then some (char.toNat - '0'.toNat) else none
  else
    unicodeDecimal char

/-- The digits of a numeral, with `total` in front of them.  An underscore
stands between two digits; `needsDigit` is set where a digit has to follow. -/
def digitsFrom (total : Nat) (needsDigit : Bool) : Word → Option Nat
  | [] => if needsDigit then none else some total
  | char :: rest =>
      if char = '_' then
        if needsDigit then none else digitsFrom total true rest
      else
        match decimal unicodeDecimal char with
        | none => none
        | some digit => digitsFrom (10 * total + digit) false rest

/-- A numeral without its blanks: a sign, or none, and digits. -/
def signed : Word → Option Int
  | [] => none
  | char :: rest =>
      if char = '-' then
        (digitsFrom unicodeDecimal 0 true rest).map fun value => -(value : Int)
      else if char = '+' then
        (digitsFrom unicodeDecimal 0 true rest).map Int.ofNat
      else
        (digitsFrom unicodeDecimal 0 true (char :: rest)).map Int.ofNat

/-- `int (text, 10)`. -/
def int (text : Word) : Except PyException Int :=
  match signed unicodeDecimal (stripWith intSpace text) with
  | some value => .ok value
  | none => .error .valueError

theorem isDigit_range {char : Char} (digit : char.isDigit) :
    48 ≤ char.toNat ∧ char.toNat ≤ 57 := by
  simpa [Char.isDigit, UInt32.le_iff_toNat_le] using digit

theorem intSpace_of_isDigit {char : Char} (digit : char.isDigit) :
    intSpace char = false := by
  have range := isDigit_range digit
  have ascii : char.toNat < 127 := by omega
  simp only [intSpace, if_pos ascii]
  have notControl : ¬ char.toNat ≤ 13 := by omega
  have notBlank : char.toNat ≠ 32 := by omega
  simp [notControl, notBlank]

theorem isSpace_of_isDigit {char : Char} (digit : char.isDigit) :
    isSpace char = false := by
  have range := isDigit_range digit
  simp [isSpace]
  omega

theorem decimal_of_isDigit {char : Char} (digit : char.isDigit) :
    decimal unicodeDecimal char = some (char.toNat - '0'.toNat) := by
  have range := isDigit_range digit
  have ascii : char.toNat < 127 := by omega
  rw [decimal, if_pos ascii, if_pos digit]

theorem ne_of_isDigit {char other : Char} (digit : char.isDigit)
    (noDigit : other.isDigit = false) :
    char ≠ other := by
  rintro rfl
  rw [digit] at noDigit
  exact Bool.noConfusion noDigit

/-- Digits are read to the base ten. -/
theorem digitsFrom_of_isDigit {digits : Word}
    (areDigits : ∀ char ∈ digits, char.isDigit) :
    ∀ total, digitsFrom unicodeDecimal total false digits =
      some (Nat.ofDigitChars 10 digits total) := by
  induction digits with
  | nil =>
      intro total
      simp [digitsFrom]
  | cons char rest ih =>
      intro total
      have digit := areDigits char List.mem_cons_self
      rw [digitsFrom, if_neg (ne_of_isDigit digit rfl),
        decimal_of_isDigit unicodeDecimal digit]
      rw [Nat.ofDigitChars_cons]
      exact ih (fun c member => areDigits c (List.mem_cons_of_mem _ member)) _

/-- `int` reads a text of digits as they are written. -/
theorem int_of_isDigit {digits : Word} (nonempty : digits ≠ [])
    (areDigits : ∀ char ∈ digits, char.isDigit) :
    int unicodeDecimal digits = .ok (Nat.ofDigitChars 10 digits 0) := by
  have noBlank : stripWith intSpace digits = digits :=
    stripWith_eq_self fun char member =>
      intSpace_of_isDigit (areDigits char member)
  cases digits with
  | nil => exact (nonempty rfl).elim
  | cons char rest =>
      have digit := areDigits char List.mem_cons_self
      have read :
          digitsFrom unicodeDecimal 0 true (char :: rest) =
            some (Nat.ofDigitChars 10 (char :: rest) 0) := by
        rw [digitsFrom, if_neg (ne_of_isDigit digit rfl),
          decimal_of_isDigit unicodeDecimal digit, Nat.ofDigitChars_cons]
        exact digitsFrom_of_isDigit unicodeDecimal
          (fun c member => areDigits c (List.mem_cons_of_mem _ member)) _
      rw [int, noBlank, signed, if_neg (ne_of_isDigit digit rfl),
        if_neg (ne_of_isDigit digit rfl), read]
      rfl

/-- `int` reads what is printed of a number. -/
theorem int_toDigits (number : Nat) :
    int unicodeDecimal (Nat.toDigits 10 number) = .ok (number : Int) := by
  rw [int_of_isDigit unicodeDecimal Nat.toDigits_ne_nil
    fun char member =>
      Nat.isDigit_of_mem_toDigits (by decide) (by decide) member,
    Nat.ofDigitChars_ten_toDigits]

end

end Lmcas.Lib.PyString
