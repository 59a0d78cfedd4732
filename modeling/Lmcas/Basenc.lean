import Lmcas.Lib.CString
import Lmcas.Lib.Decoding

/-!
# The encodings of `basenc`

The encoders and decoders of `basenc.c` that do not come from a library.  A
decoder keeps its context between the pieces of text that it is called with; an
empty piece asks whether anything is missing.
-/

namespace Lmcas.Basenc

open Lmcas.Lib.CString
open Lmcas.Lib.Decoding

/-! ## Base 16 -/

/-- The digit of a nibble, `base16[]` in the source. -/
def base16 (nib : UInt8) : Char :=
  "0123456789ABCDEF".toList.getD nib.toNat '0'

/-- An octet is written with its higher nibble first. -/
def base16Octet (c : UInt8) : Word :=
  [base16 (c >>> 4), base16 (c &&& 0x0F)]

/-- `base16_encode`. -/
def base16Encode (input : List UInt8) : Word :=
  input.flatMap base16Octet

/-- The alphabet of base 16: the capital letters only, unlike `isxdigit`. -/
def isbase16 (c : Char) : Bool :=
  '0' ≤ c && c ≤ '9' || 'A' ≤ c && c ≤ 'F'

/-- What `base16_decode_ctx` keeps between two pieces of text. -/
structure Base16Context where
  nibble : UInt8
  haveNibble : Bool
deriving DecidableEq, Repr

/-- The value of a digit. -/
def base16Nib (c : Char) : Option UInt8 :=
  if 'A' ≤ c ∧ c ≤ 'F' then some (UInt8.ofNat (c.toNat - 'A'.toNat + 10))
  else if '0' ≤ c ∧ c ≤ '9' then some (UInt8.ofNat (c.toNat - '0'.toNat))
  else none

/-- The higher nibble waits for the lower one. -/
def base16Step (ctx : Base16Context) (c : Char) :
    Option (Base16Context × List UInt8) :=
  match base16Nib c with
  | none => none
  | some nib =>
      if ctx.haveNibble then
        some ({ ctx with haveNibble := false }, [(ctx.nibble <<< 4) + nib])
      else some (⟨nib, true⟩, [])

/-- What holds of every octet can be tried on all of them. -/
theorem forall_octet {P : UInt8 → Prop} (each : ∀ n < 256, P (UInt8.ofNat n))
    (c : UInt8) : P c := by
  have here := each c.toNat c.toNat_lt
  rwa [UInt8.ofNat_toNat] at here

/-- Base 16 as a code: the text of a nibble that waits is its digit. -/
def base16Code : Code Base16Context Char UInt8 where
  step := base16Step
  start := ⟨0, false⟩
  Valid ctx := ctx.nibble.toNat < 16
  pending ctx := if ctx.haveNibble then [base16 ctx.nibble] else []
  encode := base16Encode
  Whole _ := True

/-- Two nibbles put together are written as the two digits. -/
theorem base16Octet_eq : ∀ nib < 16, ∀ nib' < 16,
    base16Octet ((UInt8.ofNat nib <<< 4) + UInt8.ofNat nib') =
      [base16 (UInt8.ofNat nib), base16 (UInt8.ofNat nib')] := by
  decide

/-- A digit is that of the value it is read as. -/
theorem base16_of_nib {c : Char} {nib : UInt8}
    (isNib : base16Nib c = some nib) : nib.toNat < 16 ∧ base16 nib = c := by
  have small : ∀ n < 71, (base16Nib (Char.ofNat n)).all (fun nib =>
      nib.toNat < 16 && base16 nib = Char.ofNat n) = true := by
    decide
  have range : c.toNat < 71 := by
    rw [base16Nib] at isNib
    split at isNib
    next letter => exact Nat.lt_succ_of_le letter.2
    next =>
      split at isNib
      next digit => exact Nat.lt_of_le_of_lt digit.2 (by decide)
      next => cases isNib
  have here := small c.toNat range
  rw [Char.ofNat_toNat, isNib] at here
  simpa using here

/-- The same for the nibbles that a decoder holds. -/
theorem base16Octet_of_nibs {nib nib' : UInt8} (small : nib.toNat < 16)
    (small' : nib'.toNat < 16) :
    base16Octet ((nib <<< 4) + nib') = [base16 nib, base16 nib'] := by
  have here := base16Octet_eq nib.toNat small nib'.toNat small'
  rwa [UInt8.ofNat_toNat, UInt8.ofNat_toNat] at here

/-- The decoder reads an encoded octet back, and no nibble waits after it. -/
theorem base16_octet (ctx : Base16Context) (c : UInt8)
    (noNibble : ctx.haveNibble = false) :
    ∃ ctx', feed base16Step ctx (base16Octet c) = (true, ctx', [c]) ∧
      ctx'.haveNibble = false := by
  have hi := forall_octet (P := fun c => base16Nib (base16 (c >>> 4)) =
    some (c >>> 4)) (by decide +kernel) c
  have lo := forall_octet (P := fun c => base16Nib (base16 (c &&& 0x0F)) =
    some (c &&& 0x0F)) (by decide +kernel) c
  have both := forall_octet (P := fun c => ((c >>> 4) <<< 4) + (c &&& 0x0F) = c)
    (by decide +kernel) c
  refine ⟨⟨c >>> 4, false⟩, ?_, rfl⟩
  simp only [base16Octet, feed, base16Step, hi, lo, both, noNibble,
    Bool.false_eq_true, if_false, if_true, List.append_nil, List.nil_append]

/-- The decoder of base 16 reads what its encoder writes. -/
theorem base16Code_lawful : base16Code.Lawful where
  valid_start := (by decide : (0 : UInt8).toNat < 16)
  pending_start := rfl
  whole_nil := trivial
  encode_nil := rfl
  whole_append _ _ := trivial
  encode_append _ _ := List.flatMap_append
  reads {ctx ctx' c octets} valid taken := by
    replace taken : base16Step ctx c = some (ctx', octets) := taken
    rw [base16Step] at taken
    cases isNib : base16Nib c with
    | none =>
        rw [isNib] at taken
        cases taken
    | some nib =>
        obtain ⟨small, rfl⟩ := base16_of_nib isNib
        rw [isNib] at taken
        obtain ⟨nibble, haveNibble⟩ := ctx
        cases haveNibble with
        | false =>
            cases taken
            exact ⟨small, trivial, rfl⟩
        | true =>
            cases taken
            refine ⟨valid, trivial, ?_⟩
            have both := base16Octet_of_nibs valid small
            simp [base16Code, base16Encode, both]
  decodes {ctx octets} valid none _ := by
    have ready : ctx.haveNibble = false := by
      cases isPending : ctx.haveNibble with
      | false => rfl
      | true => simp [base16Code, isPending] at none
    obtain ⟨ctx', fed, ready'⟩ := feed_flatMap base16_octet ready octets
    exact ⟨ctx', fed, by simp [base16Code, ready']⟩

/-! ## Base 2 -/

/-- The highest `i` bits of an octet, the most significant first. -/
def base2msbfBits : Nat → UInt8 → Word
  | 0, _ => []
  | i + 1, c =>
      (if c &&& 0x80 ≠ 0 then '1' else '0') :: base2msbfBits i (c <<< 1)

/-- The lowest `i` bits of an octet, the least significant first. -/
def base2lsbfBits : Nat → UInt8 → Word
  | 0, _ => []
  | i + 1, c =>
      (if c &&& 0x01 ≠ 0 then '1' else '0') :: base2lsbfBits i (c >>> 1)

/-- `base2msbf_encode`. -/
def base2msbfEncode (input : List UInt8) : Word :=
  input.flatMap (base2msbfBits 8)

/-- `base2lsbf_encode`. -/
def base2lsbfEncode (input : List UInt8) : Word :=
  input.flatMap (base2lsbfBits 8)

/-- The alphabet of both forms of base 2. -/
def isbase2 (c : Char) : Bool :=
  c = '0' || c = '1'

/-- The bits so far, and `ctx->i`. -/
structure Base2Context where
  octet : Nat
  i : Nat
deriving DecidableEq, Repr

/-- A bit goes above those that the octet already holds. -/
def base2lsbfStep (ctx : Base2Context) (c : Char) :
    Option (Base2Context × List UInt8) :=
  if isbase2 c then
    let octet := ctx.octet ||| ((c = '1' : Bool).toNat <<< ctx.i)
    if ctx.i + 1 = 8 then some (⟨0, 0⟩, [UInt8.ofNat octet])
    else some (⟨octet, ctx.i + 1⟩, [])
  else none

/-- A bit goes below those that the octet already holds, so that the place
counts down from 7. -/
def base2msbfStep (ctx : Base2Context) (c : Char) :
    Option (Base2Context × List UInt8) :=
  if isbase2 c then
    let i := (if ctx.i = 0 then 8 else ctx.i) - 1
    let octet := ctx.octet ||| ((c = '1' : Bool).toNat <<< i)
    if i = 0 then some (⟨0, 0⟩, [UInt8.ofNat octet])
    else some (⟨octet, i⟩, [])
  else none

/-- The digit of a bit. -/
def bitChar (bit : Bool) : Char :=
  if bit then '1' else '0'

/-- Base 2, least significant bit first, as a code: the bits that wait are those
below place `i`. -/
def base2lsbfCode : Code Base2Context Char UInt8 where
  step := base2lsbfStep
  start := ⟨0, 0⟩
  Valid ctx := ctx.i < 8 ∧ ctx.octet < 2 ^ ctx.i
  pending ctx := (List.range ctx.i).map fun j => bitChar (ctx.octet.testBit j)
  encode := base2lsbfEncode
  Whole _ := True

/-- The place of the lowest bit so far. -/
def Base2Context.place (ctx : Base2Context) : Nat :=
  if ctx.i = 0 then 8 else ctx.i

/-- Base 2, most significant bit first, as a code: the bits that wait are those
from the next place upwards. -/
def base2msbfCode : Code Base2Context Char UInt8 where
  step := base2msbfStep
  start := ⟨0, 0⟩
  Valid ctx := ctx.i < 8 ∧ ctx.octet < 2 ^ 8 ∧
    ∀ j < ctx.place, ctx.octet.testBit j = false
  pending ctx := (List.range (8 - ctx.place)).map fun j =>
    bitChar (ctx.octet.testBit (7 - j))
  encode := base2msbfEncode
  Whole _ := True

/-- The encoder shifts to the right; the bits are those of the octet in
order. -/
theorem base2lsbfBits_eq (c : UInt8) :
    base2lsbfBits 8 c =
      (List.range 8).map fun j => bitChar (c.toNat.testBit j) :=
  forall_octet (P := fun c => base2lsbfBits 8 c =
    (List.range 8).map fun j => bitChar (c.toNat.testBit j)) (by decide +kernel) c

/-- The encoder shifts to the left; the bits are those of the octet in
reverse. -/
theorem base2msbfBits_eq (c : UInt8) :
    base2msbfBits 8 c =
      (List.range 8).map fun j => bitChar (c.toNat.testBit (7 - j)) :=
  forall_octet (P := fun c => base2msbfBits 8 c =
    (List.range 8).map fun j => bitChar (c.toNat.testBit (7 - j)))
    (by decide +kernel) c

/-- A digit of the alphabet is that of the bit it is read as. -/
theorem bitChar_of_isbase2 {c : Char} (isBit : isbase2 c = true) :
    bitChar (c = '1') = c := by
  rcases (by simpa [isbase2] using isBit : c = '0' ∨ c = '1') with rfl | rfl <;>
    rfl

/-- A bit that is put at a clear place changes no other. -/
theorem testBit_or_shift {octet i : Nat} (clear : octet.testBit i = false)
    (bit : Bool) (j : Nat) :
    (octet ||| (bit.toNat <<< i)).testBit j =
      if j = i then bit else octet.testBit j := by
  rw [Nat.testBit_or, Nat.testBit_shiftLeft]
  by_cases same : j = i
  · subst same
    cases bit <;> simp [clear]
  · rw [if_neg same]
    by_cases below : i ≤ j
    · have positive : j - i ≠ 0 := by omega
      cases bit with
      | false => simp
      | true =>
          have zero : Nat.testBit 1 (j - i) = false := Bool.eq_false_iff.mpr
            (mt Nat.testBit_one_eq_true_iff_self_eq_zero.mp positive)
          simp [zero]
    · simp [below]

/-- A bit that is put at a place below `n` keeps the octet below `2 ^ n`. -/
theorem or_shift_lt {octet i n : Nat} (inside : i < n) (small : octet < 2 ^ n)
    (bit : Bool) : octet ||| (bit.toNat <<< i) < 2 ^ n := by
  refine Nat.or_lt_two_pow small ?_
  rw [Nat.shiftLeft_eq]
  have le : bit.toNat ≤ 1 := Bool.toNat_le bit
  calc bit.toNat * 2 ^ i ≤ 1 * 2 ^ i := Nat.mul_le_mul_right _ le
    _ < 2 ^ n := by
      rw [Nat.one_mul]
      exact Nat.pow_lt_pow_right Nat.one_lt_two inside

/-- The decoder reads an encoded octet back and starts over. -/
theorem base2lsbf_octet (ctx : Base2Context) (c : UInt8) (ready : ctx = ⟨0, 0⟩) :
    ∃ ctx', feed base2lsbfStep ctx (base2lsbfBits 8 c) = (true, ctx', [c]) ∧
      ctx' = ⟨0, 0⟩ := by
  subst ready
  exact ⟨_, forall_octet (P := fun c => feed base2lsbfStep ⟨0, 0⟩
    (base2lsbfBits 8 c) = (true, ⟨0, 0⟩, [c])) (by decide +kernel) c, rfl⟩

/-- The decoder reads an encoded octet back and starts over. -/
theorem base2msbf_octet (ctx : Base2Context) (c : UInt8) (ready : ctx = ⟨0, 0⟩) :
    ∃ ctx', feed base2msbfStep ctx (base2msbfBits 8 c) = (true, ctx', [c]) ∧
      ctx' = ⟨0, 0⟩ := by
  subst ready
  exact ⟨_, forall_octet (P := fun c => feed base2msbfStep ⟨0, 0⟩
    (base2msbfBits 8 c) = (true, ⟨0, 0⟩, [c])) (by decide +kernel) c, rfl⟩

/-- The bits of the context with one more. -/
theorem map_range_succ {n : Nat} {f g : Nat → Char}
    (same : ∀ j < n, g j = f j) :
    (List.range (n + 1)).map g = (List.range n).map f ++ [g n] := by
  rw [List.range_succ, List.map_append, List.map_singleton]
  congr 1
  exact List.map_congr_left fun j inside => same j (List.mem_range.mp inside)

/-- The decoder reads what the encoder writes; the digits that wait are the bits
of `octet` below place `i`. -/
theorem base2lsbfCode_lawful : base2lsbfCode.Lawful where
  valid_start := ⟨by decide, by decide⟩
  pending_start := rfl
  whole_nil := trivial
  encode_nil := rfl
  whole_append _ _ := trivial
  encode_append _ _ := List.flatMap_append
  reads {ctx ctx' c octets} valid taken := by
    replace taken : base2lsbfStep ctx c = some (ctx', octets) := taken
    obtain ⟨octet, i⟩ := ctx
    obtain ⟨inside, small⟩ : i < 8 ∧ octet < 2 ^ i := valid
    rw [base2lsbfStep] at taken
    split at taken
    next isBit =>
      have clear := Nat.testBit_lt_two_pow small
      have bits := testBit_or_shift clear (c = '1' : Bool)
      have grown := or_shift_lt (Nat.lt_succ_self i)
        (small.trans (Nat.pow_lt_pow_succ Nat.one_lt_two)) (c = '1' : Bool)
      dsimp only at taken
      generalize octet ||| ((c = '1' : Bool).toNat <<< i) = octet' at *
      have more : (List.range i).map (fun j => bitChar (octet.testBit j)) ++
          [c] = (List.range (i + 1)).map fun j => bitChar (octet'.testBit j) := by
        rw [map_range_succ fun j inside => by
          rw [bits, if_neg (Nat.ne_of_lt inside)], bits, if_pos rfl,
          bitChar_of_isbase2 isBit]
      split at taken
      next last =>
        cases taken
        refine ⟨⟨by decide, by decide⟩, trivial, more.trans ?_⟩
        obtain rfl : i = 7 := by omega
        have whole : (UInt8.ofNat octet').toNat = octet' :=
          Nat.mod_eq_of_lt grown
        simp [base2lsbfCode, base2lsbfEncode, base2lsbfBits_eq, whole]
      next notLast =>
        cases taken
        have inside' : i + 1 < 8 := by omega
        exact ⟨⟨inside', grown⟩, trivial, more⟩
    next => cases taken
  decodes {ctx octets} valid none _ := by
    obtain ⟨octet, i⟩ := ctx
    obtain ⟨-, small⟩ : i < 8 ∧ octet < 2 ^ i := valid
    obtain rfl : i = 0 := by simpa [base2lsbfCode] using none
    obtain rfl : octet = 0 := by omega
    obtain ⟨ctx', fed, ready'⟩ := feed_flatMap base2lsbf_octet rfl octets
    exact ⟨ctx', fed, by simp [base2lsbfCode, ready']⟩

/-- The decoder reads what the encoder writes; the digits that wait are the bits
of `octet` from its place upwards. -/
theorem base2msbfCode_lawful : base2msbfCode.Lawful where
  valid_start := ⟨by decide, by decide, fun j _ => Nat.zero_testBit j⟩
  pending_start := rfl
  whole_nil := trivial
  encode_nil := rfl
  whole_append _ _ := trivial
  encode_append _ _ := List.flatMap_append
  reads {ctx ctx' c octets} valid taken := by
    replace taken : base2msbfStep ctx c = some (ctx', octets) := taken
    obtain ⟨inside, small, clear⟩ : ctx.i < 8 ∧ ctx.octet < 2 ^ 8 ∧
      ∀ j < ctx.place, ctx.octet.testBit j = false := valid
    have place : ctx.place = ctx.place - 1 + 1 ∧ ctx.place ≤ 8 := by
      unfold Base2Context.place
      split <;> omega
    rw [base2msbfStep] at taken
    split at taken
    next isBit =>
      dsimp only at taken
      rw [← Base2Context.place] at taken
      have bits := testBit_or_shift (clear (ctx.place - 1) (by omega))
        (c = '1' : Bool)
      have grown := or_shift_lt (by omega : ctx.place - 1 < 8) small
        (c = '1' : Bool)
      generalize ctx.octet ||| ((c = '1' : Bool).toNat <<< (ctx.place - 1)) =
        octet' at *
      have count : 8 - (ctx.place - 1) = 8 - ctx.place + 1 := by omega
      have more : (List.range (8 - ctx.place)).map
            (fun j => bitChar (ctx.octet.testBit (7 - j))) ++ [c] =
          (List.range (8 - (ctx.place - 1))).map
            fun j => bitChar (octet'.testBit (7 - j)) := by
        rw [count, map_range_succ fun j inside => by
          rw [bits, if_neg (by omega)], bits, if_pos (by omega),
          bitChar_of_isbase2 isBit]
      split at taken
      next last =>
        cases taken
        refine ⟨⟨by decide, by decide, fun j _ => Nat.zero_testBit j⟩, trivial,
          more.trans ?_⟩
        have whole : (UInt8.ofNat octet').toNat = octet' :=
          Nat.mod_eq_of_lt grown
        rw [last]
        simp [base2msbfCode, base2msbfEncode, base2msbfBits_eq, whole,
          Base2Context.place]
      next notLast =>
        cases taken
        have next : Base2Context.place ⟨octet', ctx.place - 1⟩ =
          ctx.place - 1 := if_neg notLast
        have inside' : ctx.place - 1 < 8 := by omega
        refine ⟨⟨inside', grown, fun j below => ?_⟩, trivial, ?_⟩
        · rw [next] at below
          rw [bits, if_neg (by omega)]
          exact clear j (by omega)
        · simp only [base2msbfCode, next]
          exact more
    next => cases taken
  decodes {ctx octets} valid none _ := by
    obtain ⟨octet, i⟩ := ctx
    obtain ⟨inside, small, clear⟩ : i < 8 ∧ octet < 2 ^ 8 ∧
      ∀ j < Base2Context.place ⟨octet, i⟩, octet.testBit j = false := valid
    have nothing : 8 - Base2Context.place ⟨octet, i⟩ = 0 := by
      simpa [base2msbfCode] using none
    obtain rfl : i = 0 := by
      by_contra begun
      have place : Base2Context.place ⟨octet, i⟩ = i := if_neg begun
      omega
    obtain rfl : octet = 0 := by
      refine Nat.eq_of_testBit_eq fun j => ?_
      rw [Nat.zero_testBit]
      by_cases low : j < 8
      · exact clear j low
      · exact Nat.testBit_lt_two_pow
          (small.trans_le (Nat.pow_le_pow_right (by decide) (Nat.not_lt.mp low)))
    obtain ⟨ctx', fed, ready'⟩ := feed_flatMap base2msbf_octet rfl octets
    exact ⟨ctx', fed, by rw [ready']; rfl⟩

/-! ## Z85 -/

/-- The 85 digits of `z85_encoding[]`, in the order of their values. -/
def z85Encoding : Word :=
  ("0123456789abcdefghijklmnopqrstuvwxyzABCDEFGHIJKLMNOPQRSTUVWXYZ" ++
    ".-:+=^!/*?&<>()[]{}@%$#").toList

/-- `strchr` finds the NUL at the end of a string, too. -/
def isz85 (c : Char) : Bool :=
  c.isAlphanum || c = Char.ofNat 0 || c ∈ ".-:+=^!/*?&<>()[]{}@%$#".toList

/-- `for (int j = 4; j >= 0; --j)`, from the last character on. -/
def z85Digits : Nat → Nat → Word → Word
  | 0, _, out => out
  | j + 1, val, out =>
      z85Digits j (val / 85) (z85Encoding.getD (val % 85) '0' :: out)

/-- The number that four octets stand for. -/
def z85Val (quad₀ quad₁ quad₂ quad₃ : UInt8) : Nat :=
  quad₀.toNat * 2 ^ 24 + quad₁.toNat * 2 ^ 16 + quad₂.toNat * 2 ^ 8 +
    quad₃.toNat

/-- `none` if the length is no multiple of 4. -/
def z85Encode : List UInt8 → Option Word
  | [] => some []
  | quad₀ :: quad₁ :: quad₂ :: quad₃ :: input =>
      (z85Encode input).map
        (z85Digits 5 (z85Val quad₀ quad₁ quad₂ quad₃) [] ++ ·)
  | _ => none

/-- `z85_decoding[]`, the values of the characters from 33 to 125; 255 marks
those outside the alphabet. -/
def z85Decoding : List Nat :=
  [68, 255, 84, 83, 82, 72, 255,
    75, 76, 70, 65, 255, 63, 62, 69,
    0, 1, 2, 3, 4, 5, 6, 7, 8, 9,
    64, 255, 73, 66, 74, 71, 81,
    36, 37, 38, 39, 40, 41, 42, 43, 44, 45,
    46, 47, 48, 49, 50, 51, 52, 53, 54, 55,
    56, 57, 58, 59, 60, 61,
    77, 255, 78, 67, 255, 255,
    10, 11, 12, 13, 14, 15, 16, 17, 18, 19,
    20, 21, 22, 23, 24, 25, 26, 27, 28, 29,
    30, 31, 32, 33, 34, 35,
    79, 255, 80]

/-- The value of a character; the table holds 255 for garbage. -/
def z85Value (c : Char) : Option Nat :=
  if 33 ≤ c.toNat ∧ c.toNat ≤ 125 then
    match z85Decoding.getD (c.toNat - 33) 255 with
    | 255 => none
    | value => some value
  else none

/-- `Z85_LO_CTX_TO_32BIT_VAL` -/
def z85Lo (octet₁ octet₂ octet₃ octet₄ : Nat) : Nat :=
  octet₁ * 85 * 85 * 85 + octet₂ * 85 * 85 + octet₃ * 85 + octet₄

/-- Five values, if they fit in 32 bits. -/
def z85Group (octet₀ octet₁ octet₂ octet₃ octet₄ : Nat) :
    Option (List UInt8) :=
  let val := z85Lo octet₁ octet₂ octet₃ octet₄
  if octet₀ = 84 ∨ octet₀ = 83 ∨
      octet₀ = 82 ∧ 0xFFFFFFFF - 82 * 85 * 85 * 85 * 85 < val then none
  else
    let val := (val + octet₀ * 85 * 85 * 85 * 85) % 2 ^ 32
    some [UInt8.ofNat (val >>> 24 &&& 0xFF), UInt8.ofNat (val >>> 16 &&& 0xFF),
      UInt8.ofNat (val >>> 8 &&& 0xFF), UInt8.ofNat (val &&& 0xFF)]

/-- The context is the values so far. -/
def z85Step (octets : List Nat) (c : Char) :
    Option (List Nat × List UInt8) :=
  match z85Value c with
  | none => none
  | some value =>
      match octets ++ [value] with
      | [octet₀, octet₁, octet₂, octet₃, octet₄] =>
          match z85Group octet₀ octet₁ octet₂ octet₃ octet₄ with
          | none => none
          | some out => some ([], out)
      | octets => some (octets, [])

/-- The groups of four octets. -/
def z85Code : Code (List Nat) Char UInt8 where
  step := z85Step
  start := []
  Valid octets := octets.length < 5 ∧ ∀ octet ∈ octets, octet < 85
  pending octets := octets.map (z85Encoding.getD · '0')
  encode input := (z85Encode input).getD []
  Whole input := (z85Encode input).isSome = true

/-- A digit is read as the value it was written for. -/
theorem z85Value_encoding : ∀ value < 85,
    z85Value (z85Encoding.getD value '0') = some value := by
  decide +kernel

/-- A digit is that of the value it is read as. -/
theorem encoding_of_z85Value {c : Char} {value : Nat}
    (isValue : z85Value c = some value) :
    value < 85 ∧ z85Encoding.getD value '0' = c := by
  have small : ∀ n < 126, ∀ value ∈ z85Value (Char.ofNat n),
      value < 85 ∧ z85Encoding.getD value '0' = Char.ofNat n := by
    decide +kernel
  have range : c.toNat < 126 := by
    rw [z85Value] at isValue
    split at isValue
    next inside => exact Nat.lt_succ_of_le inside.2
    next => cases isValue
  have here := small c.toNat range value
  rw [Char.ofNat_toNat] at here
  exact here isValue

/-- The five digits of a group. -/
theorem z85Digits_group {octet₀ octet₁ octet₂ octet₃ octet₄ : Nat}
    (small₀ : octet₀ < 85) (small₁ : octet₁ < 85) (small₂ : octet₂ < 85)
    (small₃ : octet₃ < 85) (small₄ : octet₄ < 85) :
    z85Digits 5 (z85Lo octet₁ octet₂ octet₃ octet₄ +
        octet₀ * 85 * 85 * 85 * 85) [] =
      [octet₀, octet₁, octet₂, octet₃, octet₄].map
        (z85Encoding.getD · '0') := by
  have expanded : z85Lo octet₁ octet₂ octet₃ octet₄ + octet₀ * 85 * 85 * 85 * 85 =
      octet₄ + 85 * (octet₃ + 85 * (octet₂ + 85 * (octet₁ + 85 * octet₀))) := by
    unfold z85Lo
    omega
  have digit {low : Nat} (small : low < 85) (high : Nat) :
      (low + 85 * high) % 85 = low ∧ (low + 85 * high) / 85 = high := by
    omega
  have last : octet₀ % 85 = octet₀ := Nat.mod_eq_of_lt small₀
  rw [expanded]
  simp only [z85Digits, digit small₄, digit small₃, digit small₂, digit small₁,
    last, List.map_cons, List.map_nil]

/-- The four octets of a number below `2 ^ 32` stand for that number. -/
theorem z85Val_split {val : Nat} (small : val < 2 ^ 32) :
    z85Val (UInt8.ofNat (val >>> 24 &&& 0xFF))
        (UInt8.ofNat (val >>> 16 &&& 0xFF)) (UInt8.ofNat (val >>> 8 &&& 0xFF))
        (UInt8.ofNat (val &&& 0xFF)) = val := by
  have byte (n : Nat) : (UInt8.ofNat (n &&& 0xFF)).toNat = n % 256 := by
    rw [Nat.and_two_pow_sub_one_eq_mod n 8]
    exact Nat.mod_eq_of_lt (Nat.mod_lt n (by decide))
  simp only [z85Val, byte, Nat.shiftRight_eq_div_pow]
  omega

/-- Four octets stand for a number below `2 ^ 32`. -/
theorem z85Val_lt (quad₀ quad₁ quad₂ quad₃ : UInt8) :
    z85Val quad₀ quad₁ quad₂ quad₃ < 2 ^ 32 := by
  have small₀ := quad₀.toNat_lt
  have small₁ := quad₁.toNat_lt
  have small₂ := quad₂.toNat_lt
  have small₃ := quad₃.toNat_lt
  unfold z85Val
  omega

/-- A group is garbage exactly if its value does not fit in 32 bits. -/
theorem z85Group_eq {octet₀ octet₁ octet₂ octet₃ octet₄ : Nat}
    (small₀ : octet₀ < 85) (small₁ : octet₁ < 85) (small₂ : octet₂ < 85)
    (small₃ : octet₃ < 85) (small₄ : octet₄ < 85) :
    z85Group octet₀ octet₁ octet₂ octet₃ octet₄ =
      let val := z85Lo octet₁ octet₂ octet₃ octet₄ +
        octet₀ * 85 * 85 * 85 * 85
      if val < 2 ^ 32 then
        some [UInt8.ofNat (val >>> 24 &&& 0xFF),
          UInt8.ofNat (val >>> 16 &&& 0xFF), UInt8.ofNat (val >>> 8 &&& 0xFF),
          UInt8.ofNat (val &&& 0xFF)]
      else none := by
  have fits : (octet₀ = 84 ∨ octet₀ = 83 ∨ octet₀ = 82 ∧
        0xFFFFFFFF - 82 * 85 * 85 * 85 * 85 <
          z85Lo octet₁ octet₂ octet₃ octet₄) ↔
      ¬ z85Lo octet₁ octet₂ octet₃ octet₄ + octet₀ * 85 * 85 * 85 * 85 <
        2 ^ 32 := by
    unfold z85Lo
    omega
  rw [z85Group]
  dsimp only
  by_cases small : z85Lo octet₁ octet₂ octet₃ octet₄ +
      octet₀ * 85 * 85 * 85 * 85 < 2 ^ 32
  · rw [if_neg (fun garbage => fits.mp garbage small), if_pos small,
      Nat.mod_eq_of_lt small]
  · rw [if_pos (fits.mpr small), if_neg small]

/-- The encoder takes just the inputs of whole groups of four. -/
theorem isSome_z85Encode (input : List UInt8) :
    (z85Encode input).isSome = true ↔ input.length % 4 = 0 := by
  induction input using z85Encode.induct with
  | case1 => simp [z85Encode]
  | case2 quad₀ quad₁ quad₂ quad₃ input inductionHypothesis =>
      rw [z85Encode, Option.isSome_map, inductionHypothesis]
      simp only [List.length_cons]
      omega
  | case3 input notNil notQuad =>
      match input, notNil, notQuad with
      | [], notNil, _ => exact absurd rfl notNil
      | [_], _, _ => simp [z85Encode]
      | [_, _], _, _ => simp [z85Encode]
      | [_, _, _], _, _ => simp [z85Encode]
      | _ :: _ :: _ :: _ :: _, _, notQuad =>
          exact (notQuad _ _ _ _ _ rfl).elim

/-- Behind whole groups the encoding goes on as at the start. -/
theorem z85Encode_append {input : List UInt8} (input' : List UInt8)
    (whole : (z85Encode input).isSome = true) :
    z85Encode (input ++ input') =
      (z85Encode input').map ((z85Encode input).getD [] ++ ·) := by
  induction input using z85Encode.induct with
  | case1 => simp [z85Encode]
  | case2 quad₀ quad₁ quad₂ quad₃ input inductionHypothesis =>
      rw [z85Encode, Option.isSome_map] at whole
      simp only [List.cons_append, z85Encode, inductionHypothesis whole]
      obtain ⟨text, isText⟩ := Option.isSome_iff_exists.mp whole
      rw [isText]
      cases z85Encode input' <;> simp
  | case3 input notNil notQuad =>
      match input, notNil, notQuad with
      | [], notNil, _ => exact absurd rfl notNil
      | [_], _, _ => cases whole
      | [_, _], _, _ => cases whole
      | [_, _, _], _, _ => cases whole
      | _ :: _ :: _ :: _ :: _, _, notQuad =>
          exact (notQuad _ _ _ _ _ rfl).elim

/-- A step keeps a value, or completes a group. -/
theorem z85Step_reads {octets octets' : List Nat} {c : Char} {out : List UInt8}
    (valid : z85Code.Valid octets) (taken : z85Step octets c = some (octets', out)) :
    z85Code.Valid octets' ∧ z85Code.Whole out ∧
      z85Code.pending octets ++ [c] =
        z85Code.encode out ++ z85Code.pending octets' := by
  obtain ⟨few, small⟩ := valid
  rw [z85Step] at taken
  cases isValue : z85Value c with
  | none =>
      rw [isValue] at taken
      cases taken
  | some value =>
      obtain ⟨small', rfl⟩ := encoding_of_z85Value isValue
      rw [isValue] at taken
      have more : ∀ octet ∈ octets ++ [value], octet < 85 := by
        intro octet inside
        rcases List.mem_append.mp inside with inside | inside
        · exact small octet inside
        · rwa [List.mem_singleton.mp inside]
      have chars : z85Code.pending octets ++ [z85Encoding.getD value '0'] =
          (octets ++ [value]).map (z85Encoding.getD · '0') := by
        simp [z85Code]
      have count : (octets ++ [value]).length = octets.length + 1 := by simp
      rw [chars]
      dsimp only at taken
      generalize octets ++ [value] = values at *
      split at taken
      next octet₀ octet₁ octet₂ octet₃ octet₄ =>
        simp only [List.mem_cons, List.not_mem_nil, or_false, forall_eq_or_imp,
          forall_eq] at more
        obtain ⟨small₀, small₁, small₂, small₃, small₄⟩ := more
        rw [z85Group_eq small₀ small₁ small₂ small₃ small₄] at taken
        dsimp only at taken
        split at taken
        next => cases taken
        next out' isGroup =>
          split at isGroup
          next fits =>
            cases taken
            cases isGroup
            refine ⟨⟨by decide, nofun⟩, rfl, ?_⟩
            have digits := z85Digits_group small₀ small₁ small₂ small₃ small₄
            simp only [z85Code, z85Encode, Option.map_some, Option.getD_some,
              z85Val_split fits, digits, List.map_nil, List.append_nil]
          next => cases isGroup
      next notFive =>
        cases taken
        refine ⟨⟨?_, more⟩, rfl, rfl⟩
        match octets', notFive, count with
        | [], _, _ => exact Nat.lt_of_sub_eq_succ rfl
        | [_], _, _ => exact Nat.lt_of_sub_eq_succ rfl
        | [_, _], _, _ => exact Nat.lt_of_sub_eq_succ rfl
        | [_, _, _], _, _ => exact Nat.lt_of_sub_eq_succ rfl
        | [_, _, _, _], _, _ => exact Nat.lt_of_sub_eq_succ rfl
        | [octet₀, octet₁, octet₂, octet₃, octet₄], notFive, _ =>
            exact (notFive octet₀ octet₁ octet₂ octet₃ octet₄ rfl).elim
        | _ :: _ :: _ :: _ :: _ :: _ :: _, _, count =>
            simp only [List.length_cons] at count
            omega

/-- Values are collected up to the fifth. -/
theorem z85Step_encoding {octets : List Nat} (few : octets.length < 4)
    {value : Nat} (small : value < 85) :
    z85Step octets (z85Encoding.getD value '0') =
      some (octets ++ [value], []) := by
  rw [z85Step, z85Value_encoding value small]
  match octets, few with
  | [], _ => rfl
  | [_], _ => rfl
  | [_, _], _ => rfl
  | [_, _, _], _ => rfl

/-- The fifth digit of a group gives its four octets. -/
theorem z85Step_last {octet₀ octet₁ octet₂ octet₃ octet₄ : Nat}
    (small₀ : octet₀ < 85) (small₁ : octet₁ < 85) (small₂ : octet₂ < 85)
    (small₃ : octet₃ < 85) (small₄ : octet₄ < 85)
    {quad₀ quad₁ quad₂ quad₃ : UInt8}
    (same : z85Lo octet₁ octet₂ octet₃ octet₄ + octet₀ * 85 * 85 * 85 * 85 =
      z85Val quad₀ quad₁ quad₂ quad₃) :
    z85Step [octet₀, octet₁, octet₂, octet₃] (z85Encoding.getD octet₄ '0') =
      some ([], [quad₀, quad₁, quad₂, quad₃]) := by
  have octet (n : Nat) (quad : UInt8) (isQuad : n % 256 = quad.toNat) :
      UInt8.ofNat (n &&& 0xFF) = quad := by
    rw [Nat.and_two_pow_sub_one_eq_mod n 8, isQuad, UInt8.ofNat_toNat]
  have fits := z85Val_lt quad₀ quad₁ quad₂ quad₃
  have byte₀ := quad₀.toNat_lt
  have byte₁ := quad₁.toNat_lt
  have byte₂ := quad₂.toNat_lt
  have byte₃ := quad₃.toNat_lt
  have group : z85Group octet₀ octet₁ octet₂ octet₃ octet₄ =
      some [quad₀, quad₁, quad₂, quad₃] := by
    rw [z85Group_eq small₀ small₁ small₂ small₃ small₄, same]
    dsimp only
    rw [if_pos fits, octet _ quad₀, octet _ quad₁, octet _ quad₂,
      octet _ quad₃]
    all_goals
      simp only [z85Val, Nat.shiftRight_eq_div_pow]
      omega
  rw [z85Step, z85Value_encoding octet₄ small₄]
  simp only [List.cons_append, List.nil_append, group]

/-- Every number below `2 ^ 32` has five digits to the base 85. -/
theorem exists_z85Lo {val : Nat} (fits : val < 2 ^ 32) :
    ∃ octet₀ octet₁ octet₂ octet₃ octet₄, octet₀ < 85 ∧ octet₁ < 85 ∧
      octet₂ < 85 ∧ octet₃ < 85 ∧ octet₄ < 85 ∧
      z85Lo octet₁ octet₂ octet₃ octet₄ + octet₀ * 85 * 85 * 85 * 85 = val := by
  refine ⟨val / 52200625, val / 614125 % 85, val / 7225 % 85, val / 85 % 85,
    val % 85, by omega, by omega, by omega, by omega, by omega, ?_⟩
  unfold z85Lo
  omega

/-- The decoder reads an encoded group back. -/
theorem z85_quad (quad₀ quad₁ quad₂ quad₃ : UInt8) :
    feed z85Step [] (z85Digits 5 (z85Val quad₀ quad₁ quad₂ quad₃) []) =
      (true, [], [quad₀, quad₁, quad₂, quad₃]) := by
  obtain ⟨octet₀, octet₁, octet₂, octet₃, octet₄, small₀, small₁, small₂, small₃,
    small₄, same⟩ := exists_z85Lo (z85Val_lt quad₀ quad₁ quad₂ quad₃)
  rw [← same, z85Digits_group small₀ small₁ small₂ small₃ small₄]
  simp only [List.map_cons, List.map_nil, feed]
  rw [z85Step_encoding (by decide) small₀]
  simp only [List.nil_append]
  rw [z85Step_encoding (by simp) small₁]
  simp only [List.cons_append, List.nil_append]
  rw [z85Step_encoding (by simp) small₂]
  simp only [List.cons_append, List.nil_append]
  rw [z85Step_encoding (by simp) small₃]
  simp only [List.cons_append, List.nil_append]
  rw [z85Step_last small₀ small₁ small₂ small₃ small₄ same]
  rfl

/-- The decoder reads whole groups back. -/
theorem z85_input (input : List UInt8) (whole : (z85Encode input).isSome = true) :
    feed z85Step [] ((z85Encode input).getD []) = (true, [], input) := by
  induction input using z85Encode.induct with
  | case1 => rfl
  | case2 quad₀ quad₁ quad₂ quad₃ input inductionHypothesis =>
      rw [z85Encode, Option.isSome_map] at whole
      have later := inductionHypothesis whole
      obtain ⟨text, isText⟩ := Option.isSome_iff_exists.mp whole
      rw [isText, Option.getD_some] at later
      rw [z85Encode, isText, Option.map_some, Option.getD_some,
        feed_append_of_ok (z85_quad quad₀ quad₁ quad₂ quad₃), later]
      rfl
  | case3 input notNil notQuad =>
      match input, notNil, notQuad with
      | [], notNil, _ => exact absurd rfl notNil
      | [_], _, _ => cases whole
      | [_, _], _, _ => cases whole
      | [_, _, _], _, _ => cases whole
      | _ :: _ :: _ :: _ :: _, _, notQuad =>
          exact (notQuad _ _ _ _ _ rfl).elim

/-- The decoder of z85 reads what its encoder writes; the digits that wait are
those of the values it holds. -/
theorem z85Code_lawful : z85Code.Lawful where
  valid_start := ⟨by decide, nofun⟩
  pending_start := rfl
  whole_nil := rfl
  encode_nil := rfl
  whole_append {octets octets'} whole whole' := by
    have whole : (z85Encode octets).isSome = true := whole
    have whole' : (z85Encode octets').isSome = true := whole'
    show (z85Encode (octets ++ octets')).isSome = true
    rw [z85Encode_append octets' whole, Option.isSome_map]
    exact whole'
  encode_append {octets octets'} whole whole' := by
    have whole : (z85Encode octets).isSome = true := whole
    have whole' : (z85Encode octets').isSome = true := whole'
    obtain ⟨text, isText⟩ := Option.isSome_iff_exists.mp whole'
    show (z85Encode (octets ++ octets')).getD [] =
      (z85Encode octets).getD [] ++ (z85Encode octets').getD []
    rw [z85Encode_append octets' whole, isText]
    rfl
  reads := z85Step_reads
  decodes {octets input} _ none whole := by
    obtain rfl : octets = [] := List.map_eq_nil_iff.mp none
    exact ⟨[], z85_input input whole, rfl⟩

end Lmcas.Basenc
