import Lmcas.System

/-!
# The keys of `sort`

How a key is read from the argument of `-k` and from the obsolete
`+POS1 [-POS2]`.  A pointer into the text is the text from there on.
-/

namespace Lmcas.Sort

open Lmcas.Lib.CString
open Lmcas.System

/-- `SORT_FAILURE`. -/
def sortFailure : Nat := 2

/-- The tables that `ignore` points to. -/
inductive Table where
  | nonprinting
  | nondictionary
deriving DecidableEq, Repr

/-- A `struct keyfield`, without the link to the next one.  `translate` tells
whether the pointer is to `fold_toupper` or null. -/
structure Keyfield where
  sword : Nat
  schar : Nat
  eword : Nat
  echar : Nat
  ignore : Option Table
  translate : Bool
  skipsblanks : Bool
  skipeblanks : Bool
  numeric : Bool
  random : Bool
  generalNumeric : Bool
  humanNumeric : Bool
  month : Bool
  reverse : Bool
  version : Bool
  traditionalUsed : Bool
deriving DecidableEq, Repr

/-- `key_init`: no field, and no end. -/
def keyInit : Keyfield where
  sword := 0
  schar := 0
  eword := sizeMax
  echar := 0
  ignore := none
  translate := false
  skipsblanks := false
  skipeblanks := false
  numeric := false
  random := false
  generalNumeric := false
  humanNumeric := false
  month := false
  reverse := false
  version := false
  traditionalUsed := false

/-- `enum blanktype`: which end of a key the letters are about. -/
inductive Blanktype where
  | start
  | end
  | both
deriving DecidableEq, Repr

/-- One turn of `set_ordering`; `none` at a character that is no ordering
option. -/
def setOrderingChar (c : Char) (blanktype : Blanktype) (key : Keyfield) :
    Option Keyfield :=
  match c with
  | 'b' =>
      some
        { key with
          skipsblanks := key.skipsblanks || blanktype ≠ .end
          skipeblanks := key.skipeblanks || blanktype ≠ .start }
  | 'd' => some { key with ignore := some .nondictionary }
  | 'f' => some { key with translate := true }
  | 'g' => some { key with generalNumeric := true }
  | 'h' => some { key with humanNumeric := true }
  -- `-d` implies `-i`, so `-i` does not replace it.
  | 'i' =>
      some { key with ignore := some (key.ignore.getD .nonprinting) }
  | 'M' => some { key with month := true }
  | 'n' => some { key with numeric := true }
  | 'R' => some { key with random := true }
  | 'r' => some { key with reverse := true }
  | 'V' => some { key with version := true }
  | _ => none

/-- `set_ordering`: reads letters as long as they are options of a key. -/
def setOrdering (blanktype : Blanktype) : Word → Keyfield → Word × Keyfield
  | [], key => ([], key)
  | c :: s, key =>
      match setOrderingChar c blanktype key with
      | none => (c :: s, key)
      | some key => setOrdering blanktype s key

section

variable (xstrtoumax : Xstrtoumax)

/-- A number and the text behind it; `none` for `LONGINT_INVALID`. -/
def parseFieldCount (string : Word) : Option (Nat × Word) :=
  let n := xstrtoumax string []
  match n.error with
  | .ok | .invalidSuffixChar => some (n.value, string.drop n.suffix)
  | .overflow | .invalidSuffixCharWithOverflow =>
      some (sizeMax, string.drop n.suffix)
  | .invalid => none

/-- `parse_field_count` with a message: a failure ends the process. -/
def fieldCount (string : Word) : Except Early (Nat × Word) :=
  match parseFieldCount xstrtoumax string with
  | none => .error (.die sortFailure)
  | some count => .ok count

/-- A count from 1 on, as one from 0 on. -/
def positiveCount (string : Word) : Except Early (Nat × Word) :=
  match fieldCount xstrtoumax string with
  | .error early => .error early
  | .ok (0, _) => .error (.die sortFailure)
  | .ok (n + 1, s) => .ok (n, s)

/-- `SIZE_MAX` stands for the start of the line. -/
def Keyfield.fromStart (key : Keyfield) : Keyfield :=
  if key.sword = 0 ∧ key.schar = 0 then { key with sword := sizeMax }
  else key

/-- `POS1` of `-k POS1[,POS2]`. -/
def parsePos1 (optarg : Word) : Except Early (Word × Keyfield) :=
  match positiveCount xstrtoumax optarg with
  | .error early => .error early
  | .ok (sword, s) =>
      match s with
      | '.' :: s =>
          match positiveCount xstrtoumax s with
          | .error early => .error early
          | .ok (schar, s) =>
              .ok (setOrdering .start s
                { keyInit with sword := sword, schar := schar }.fromStart)
      | s =>
          .ok (setOrdering .start s { keyInit with sword := sword }.fromStart)

/-- `POS2`, behind the comma. -/
def parsePos2 (s : Word) (key : Keyfield) :
    Except Early (Word × Keyfield) :=
  match positiveCount xstrtoumax s with
  | .error early => .error early
  | .ok (eword, s) =>
      match s with
      | '.' :: s =>
          match fieldCount xstrtoumax s with
          | .error early => .error early
          | .ok (echar, s) =>
              .ok (setOrdering .end s
                { key with eword := eword, echar := echar })
      | s => .ok (setOrdering .end s { key with eword := eword })

/-- The key of `-k`. -/
def parseKey (optarg : Word) : Except Early Keyfield :=
  match parsePos1 xstrtoumax optarg with
  | .error early => .error early
  | .ok (s, key) =>
      let whole : Except Early (Word × Keyfield) :=
        match s with
        | ',' :: s => parsePos2 xstrtoumax s key
        | s => .ok (s, { key with eword := sizeMax, echar := 0 })
      match whole with
      | .error early => .error early
      | .ok ([], key) => .ok key
      | .ok (_ :: _, _) => .error (.die sortFailure)

/-- `+POS1`, behind the plus; `none` if it is a file after all. -/
def parsePlusPos (s : Word) : Option Keyfield :=
  match parseFieldCount xstrtoumax s with
  | none => none
  | some (sword, s) =>
      let counted : Option (Keyfield × Word) :=
        match s with
        | '.' :: s =>
            (parseFieldCount xstrtoumax s).map fun (schar, s) =>
              ({ keyInit with sword := sword, schar := schar }, s)
        | s => some ({ keyInit with sword := sword }, s)
      match counted with
      | none => none
      | some (key, s) =>
          match setOrdering .start s key.fromStart with
          | ([], key) => some key
          | (_ :: _, _) => none

/-- `-POS2`, behind the minus. -/
def parseMinusPos (s : Word) (key : Keyfield) : Except Early Keyfield :=
  match fieldCount xstrtoumax s with
  | .error early => .error early
  | .ok (eword, s) =>
      let counted : Except Early (Nat × Word) :=
        match s with
        | '.' :: s => fieldCount xstrtoumax s
        | s => .ok (key.echar, s)
      match counted with
      | .error early => .error early
      | .ok (echar, s) =>
          -- `+A.x -B.y` ends with field B only if y is 0.
          let eword := if echar = 0 then eword - 1 else eword
          match setOrdering .end s
              { key with eword := eword, echar := echar } with
          | ([], key) => .ok key
          | (_ :: _, _) => .error (.die sortFailure)

end

/-! ## Global options and keys -/

/-- `key_numeric`. -/
def keyNumeric (key : Keyfield) : Bool :=
  key.numeric || key.generalNumeric || key.humanNumeric

/-- `default_key_compare`: whether a key has no option of its own. -/
def defaultKeyCompare (key : Keyfield) : Bool :=
  !(key.ignore.isSome || key.translate || key.skipsblanks ||
    key.skipeblanks || keyNumeric key || key.month || key.version ||
    key.random)

/-- A key without options of its own takes the global ones. -/
def inheritOptions (gkey key : Keyfield) : Keyfield :=
  if defaultKeyCompare key && !key.reverse then
    { key with
      ignore := gkey.ignore
      translate := gkey.translate
      skipsblanks := gkey.skipsblanks
      skipeblanks := gkey.skipeblanks
      month := gkey.month
      numeric := gkey.numeric
      generalNumeric := gkey.generalNumeric
      humanNumeric := gkey.humanNumeric
      version := gkey.version
      random := gkey.random
      reverse := gkey.reverse }
  else key

/-- The keys that lines are compared by. -/
def finalKeys (gkey : Keyfield) (keylist : List Keyfield) :
    List Keyfield :=
  if keylist = [] ∧ !defaultKeyCompare gkey then [gkey]
  else keylist.map (inheritOptions gkey)

/-- The test of `check_ordering_compatibility`. -/
def incompatible (key : Keyfield) : Bool :=
  1 < key.numeric.toNat + key.generalNumeric.toNat +
    key.humanNumeric.toNat + key.month.toNat +
    (key.version || key.random || key.ignore.isSome).toNat

end Lmcas.Sort
