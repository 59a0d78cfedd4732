import Lmcas.SortTables
import Mathlib.Data.List.TakeDrop
import Mathlib.Logic.Function.Iterate

/-!
# The fields of a line

`begfield` and `limfield` of `sort.c`, and the positions of the first key that
`fillbuf` computes in advance.  An address is a number below `2 ^ 64`, and a
line lies in memory, where a NUL stands for its delimiter.
-/

namespace Lmcas.SortCompare

open Lmcas.Lib.CString
open Lmcas.Sort
open Lmcas.System

/-- What each address holds. -/
abbrev Memory := Nat → Char

/-- `struct line` without `keybeg` and `keylim`; the delimiter counts. -/
structure Line where
  text : Nat
  length : Nat
deriving DecidableEq, Repr

/-- The address of the delimiter. -/
def Line.lim (line : Line) : Nat :=
  line.text + line.length - 1

/-- The characters between two addresses. -/
def text (memory : Memory) (ptr lim : Nat) : Word :=
  (List.range' ptr (lim - ptr)).map memory

section

variable (memory : Memory) (tab : Option Char) (blanks : Char → Bool)

/-- `while (ptr < lim && p (*ptr)) ++ptr;` -/
def skipWhile (p : Char → Bool) (lim ptr : Nat) : Nat :=
  if ptr < lim ∧ p (memory ptr) = true then skipWhile p lim (ptr + 1) else ptr
termination_by lim - ptr

/-- One turn of the loops over `sword` and `eword`; `passes` is whether a
separator that `-t` has set is skipped as well. -/
def skipField (passes : Bool) (lim ptr : Nat) : Nat :=
  match tab with
  | some tab =>
      let ptr := skipWhile memory (· ≠ tab) lim ptr
      if ptr < lim ∧ passes = true then ptr + 1 else ptr
  | none =>
      skipWhile memory (!blanks ·) lim (skipWhile memory blanks lim ptr)

/-- `while (ptr < lim && sword--)` -/
def skipFields (lim : Nat) : Nat → Nat → Nat
  | 0, ptr => ptr
  | sword + 1, ptr =>
      if ptr < lim then skipFields lim sword (skipField memory tab blanks true lim ptr)
      else ptr

/-- `while (ptr < lim && eword--)` -/
def skipEndFields (echar lim : Nat) : Nat → Nat → Nat
  | 0, ptr => ptr
  | eword + 1, ptr =>
      if ptr < lim then
        skipEndFields echar lim eword
          (skipField memory tab blanks (eword ≠ 0 || echar ≠ 0) lim ptr)
      else ptr

/-- `MIN (lim, ptr + count)`, with the addition of the machine. -/
def advance (lim ptr count : Nat) : Nat :=
  min lim ((ptr + count) % 2 ^ 64)

/-- `begfield`. -/
def begfield (line : Line) (key : Keyfield) : Nat :=
  let ptr := skipFields memory tab blanks line.lim key.sword line.text
  let ptr :=
    if key.skipsblanks then skipWhile memory blanks line.lim ptr else ptr
  advance line.lim ptr key.schar

/-- `limfield`. -/
def limfield (line : Line) (key : Keyfield) : Nat :=
  let eword := if key.echar = 0 then key.eword + 1 else key.eword
  let ptr := skipEndFields memory tab blanks key.echar line.lim eword line.text
  if key.echar ≠ 0 then
    let ptr :=
      if key.skipeblanks then skipWhile memory blanks line.lim ptr else ptr
    advance line.lim ptr key.echar
  else ptr

/-- `SIZE_MAX` stands for the end of the line. -/
def keylim (line : Line) (key : Keyfield) : Nat :=
  if key.eword = sizeMax then line.lim else limfield memory tab blanks line key

/-- The beginning of the first key.  Where it starts the line, blanks are
skipped without a look at the end: the NUL there is none. -/
def keybeg (line : Line) (key : Keyfield) : Nat :=
  if key.sword ≠ sizeMax then begfield memory tab blanks line key
  else if key.skipsblanks then
    skipWhile memory blanks (line.lim + 1) line.text
  else line.text

/-- The beginning of the other keys, as `keycompare` finds it. -/
def nextbeg (line : Line) (key : Keyfield) (lim : Nat) : Nat :=
  if key.sword ≠ sizeMax then begfield memory tab blanks line key
  else if key.skipsblanks then skipWhile memory blanks lim line.text
  else line.text

end

/-! ## Without addresses -/

section

variable (tab : Option Char) (blanks : Char → Bool)

/-- The text from the separator behind a field on. -/
def fieldEnd (line : Word) : Word :=
  match tab with
  | some tab => line.dropWhile (· ≠ tab)
  | none => (line.dropWhile blanks).dropWhile (!blanks ·)

/-- The text behind a field. -/
def behindField (line : Word) : Word :=
  match tab with
  | some _ => (fieldEnd tab blanks line).drop 1
  | none => fieldEnd tab blanks line

/-- The text from the field of the key on, or from its first character that
is no blank. -/
def fieldRest (key : Keyfield) (line : Word) : Word :=
  let rest :=
    if key.sword = sizeMax then line
    else (behindField tab blanks)^[key.sword] line
  if key.skipsblanks then rest.dropWhile blanks else rest

/-- The text from the beginning of the key on. -/
def begRest (key : Keyfield) (line : Word) : Word :=
  if key.sword = sizeMax then fieldRest tab blanks key line
  else (fieldRest tab blanks key line).drop key.schar

/-- The text behind the key. -/
def limRest (key : Keyfield) (line : Word) : Word :=
  if key.eword = sizeMax then []
  else
    let rest := (behindField tab blanks)^[key.eword] line
    if key.echar = 0 then fieldEnd tab blanks rest
    else
      (if key.skipeblanks then rest.dropWhile blanks else rest).drop key.echar

/-- The key of a line; it is empty where it would end before it begins. -/
def keyText (key : Keyfield) (line : Word) : Word :=
  let rest := begRest tab blanks key line
  rest.take (rest.length - (limRest tab blanks key line).length)

end

/-! ## The same text -/

section

variable {memory : Memory} {tab : Option Char} {blanks : Char → Bool}
  {lim ptr : Nat} {rest : Word}

/-- What is left of a text that ends at `lim`. -/
structure Rest (memory : Memory) (lim ptr : Nat) (rest : Word) : Prop where
  length : ptr + rest.length = lim
  chars : text memory ptr lim = rest

theorem text_self (memory : Memory) (lim : Nat) : text memory lim lim = [] := by
  simp [text]

theorem text_of_lt (memory : Memory) (inside : ptr < lim) :
    text memory ptr lim = memory ptr :: text memory (ptr + 1) lim := by
  have count : lim - ptr = lim - (ptr + 1) + 1 := by omega
  rw [text, text, count, List.range'_succ, List.map_cons]

theorem length_text (memory : Memory) (ptr lim : Nat) :
    (text memory ptr lim).length = lim - ptr := by
  simp [text]

theorem rest_text (memory : Memory) (inside : ptr ≤ lim) :
    Rest memory lim ptr (text memory ptr lim) :=
  ⟨by rw [length_text]; omega, rfl⟩

theorem Rest.le (holds : Rest memory lim ptr rest) : ptr ≤ lim := by
  have length := holds.length
  omega

theorem Rest.lt_iff (holds : Rest memory lim ptr rest) :
    ptr < lim ↔ rest ≠ [] := by
  rw [← List.length_pos_iff]
  have length := holds.length
  omega

theorem rest_nil (memory : Memory) (lim : Nat) : Rest memory lim lim [] :=
  ⟨rfl, text_self memory lim⟩

theorem rest_cons {c : Char} :
    Rest memory lim ptr (c :: rest) ↔
      memory ptr = c ∧ Rest memory lim (ptr + 1) rest := by
  constructor
  · rintro ⟨length, chars⟩
    rw [List.length_cons] at length
    rw [text_of_lt memory (by omega)] at chars
    obtain ⟨here, chars⟩ := List.cons.inj chars
    exact ⟨here, by omega, chars⟩
  · rintro ⟨here, length, chars⟩
    refine ⟨by rw [List.length_cons]; omega, ?_⟩
    rw [text_of_lt memory (by omega), here, chars]

/-- Moving on and stopping at the limit. -/
theorem rest_drop (holds : Rest memory lim ptr rest) (count : Nat) :
    Rest memory lim (min lim (ptr + count)) (rest.drop count) := by
  induction count generalizing ptr rest with
  | zero =>
      rw [Nat.add_zero, Nat.min_eq_right holds.le]
      exact holds
  | succ count inductionHypothesis =>
      match rest, holds with
      | [], holds =>
          have length : ptr = lim := holds.length
          rw [List.drop_nil, Nat.min_eq_left (by omega)]
          exact rest_nil memory lim
      | c :: rest, holds =>
          have later := inductionHypothesis (rest_cons.mp holds).2
          rwa [Nat.add_right_comm] at later

/-- Skipping leaves what the skipped characters do. -/
theorem rest_skipWhile (holds : Rest memory lim ptr rest) (p : Char → Bool) :
    Rest memory lim (skipWhile memory p lim ptr) (rest.dropWhile p) := by
  induction rest generalizing ptr with
  | nil =>
      rw [skipWhile, if_neg fun inside =>
        holds.lt_iff.mp inside.1 rfl]
      exact holds
  | cons c rest inductionHypothesis =>
      obtain ⟨here, later⟩ := rest_cons.mp holds
      have inside : ptr < lim := holds.lt_iff.mpr (List.cons_ne_nil c rest)
      rw [skipWhile, List.dropWhile_cons, here]
      by_cases skipped : p c = true
      · rw [if_pos ⟨inside, skipped⟩, if_pos skipped]
        exact inductionHypothesis later
      · rw [if_neg fun both => skipped both.2, if_neg skipped]
        exact holds

/-- Skipping a field leaves what is behind it, its separator included. -/
theorem rest_fieldEnd (holds : Rest memory lim ptr rest) :
    Rest memory lim (skipField memory tab blanks false lim ptr)
      (fieldEnd tab blanks rest) := by
  cases tab with
  | none => exact rest_skipWhile (rest_skipWhile holds blanks) (!blanks ·)
  | some tab =>
      rw [skipField]
      simp only [Bool.false_eq_true, and_false, if_false]
      exact rest_skipWhile holds (· ≠ tab)

/-- Skipping the separator too leaves the next field. -/
theorem rest_behindField (holds : Rest memory lim ptr rest) :
    Rest memory lim (skipField memory tab blanks true lim ptr)
      (behindField tab blanks rest) := by
  cases tab with
  | none => exact rest_skipWhile (rest_skipWhile holds blanks) (!blanks ·)
  | some tab =>
      have ended := rest_skipWhile holds (· ≠ tab)
      have later := rest_drop ended 1
      have le := ended.le
      rw [skipField]
      simp only [and_true]
      split
      next inside => rwa [Nat.min_eq_right (by omega)] at later
      next outside =>
        have same : min lim (skipWhile memory (· ≠ tab) lim ptr + 1) =
            skipWhile memory (· ≠ tab) lim ptr := by omega
        rwa [same] at later

theorem behindField_nil : behindField tab blanks [] = [] := by
  cases tab <;> rfl

theorem fieldEnd_nil : fieldEnd tab blanks [] = [] := by
  cases tab <;> rfl

theorem behindFields_nil (count : Nat) :
    (behindField tab blanks)^[count] [] = [] :=
  Function.iterate_fixed behindField_nil count

/-- Several fields. -/
theorem rest_skipFields (holds : Rest memory lim ptr rest) (sword : Nat) :
    Rest memory lim (skipFields memory tab blanks lim sword ptr)
      ((behindField tab blanks)^[sword] rest) := by
  induction sword generalizing ptr rest with
  | zero => exact holds
  | succ sword inductionHypothesis =>
      rw [skipFields, Function.iterate_succ_apply]
      split
      next inside => exact inductionHypothesis (rest_behindField holds)
      next outside =>
        obtain rfl := not_not.mp (mt holds.lt_iff.mpr outside)
        rwa [behindField_nil, behindFields_nil]

/-- The separator in front of `POS2` is skipped. -/
theorem rest_skipEndFields (holds : Rest memory lim ptr rest) {echar : Nat}
    (counts : echar ≠ 0) (eword : Nat) :
    Rest memory lim (skipEndFields memory tab blanks echar lim eword ptr)
      ((behindField tab blanks)^[eword] rest) := by
  induction eword generalizing ptr rest with
  | zero => exact holds
  | succ eword inductionHypothesis =>
      rw [skipEndFields, Function.iterate_succ_apply]
      simp only [ne_eq, counts, not_false_eq_true, decide_true, Bool.or_true]
      split
      next inside => exact inductionHypothesis (rest_behindField holds)
      next outside =>
        obtain rfl := not_not.mp (mt holds.lt_iff.mpr outside)
        rwa [behindField_nil, behindFields_nil]

/-- The separator behind the last field is left. -/
theorem rest_skipWholeFields (holds : Rest memory lim ptr rest) (eword : Nat) :
    Rest memory lim (skipEndFields memory tab blanks 0 lim (eword + 1) ptr)
      (fieldEnd tab blanks ((behindField tab blanks)^[eword] rest)) := by
  induction eword generalizing ptr rest with
  | zero =>
      rw [skipEndFields]
      split
      next inside => exact rest_fieldEnd holds
      next outside =>
        obtain rfl := not_not.mp (mt holds.lt_iff.mpr outside)
        rwa [Function.iterate_zero, id, fieldEnd_nil]
  | succ eword inductionHypothesis =>
      rw [skipEndFields, Function.iterate_succ_apply]
      split
      next inside => exact inductionHypothesis (rest_behindField holds)
      next outside =>
        obtain rfl := not_not.mp (mt holds.lt_iff.mpr outside)
        rwa [behindField_nil, behindFields_nil, fieldEnd_nil]

/-- An addition that does not overflow stops at the limit. -/
theorem advance_eq {count : Nat} (small : ptr + count < 2 ^ 64) :
    advance lim ptr count = min lim (ptr + count) := by
  rw [advance, Nat.mod_eq_of_lt small]

end

/-- A line whose text is in memory. -/
abbrev Line.Holds (memory : Memory) (line : Line) (word : Word) : Prop :=
  Rest memory line.lim line.text word

/-- No address overflows. -/
structure Small (line : Line) (key : Keyfield) : Prop where
  schar : line.lim + key.schar < 2 ^ 64
  echar : line.lim + key.echar < 2 ^ 64

section

variable {memory : Memory} {tab : Option Char} {blanks : Char → Bool}
  {line : Line} {key : Keyfield} {word : Word}

/-- It leaves what is behind so many characters. -/
theorem rest_advance {lim ptr count : Nat} {rest : Word}
    (holds : Rest memory lim ptr rest) (small : ptr + count < 2 ^ 64) :
    Rest memory lim (advance lim ptr count) (rest.drop count) := by
  rw [advance_eq small]
  exact rest_drop holds count

theorem rest_skipped {lim ptr : Nat} {rest : Word}
    (holds : Rest memory lim ptr rest) (skips : Bool) :
    Rest memory lim (if skips then skipWhile memory blanks lim ptr else ptr)
      (if skips then rest.dropWhile blanks else rest) := by
  cases skips with
  | false => exact holds
  | true => exact rest_skipWhile holds blanks

/-- A key begins at the text that its numbers say. -/
theorem rest_begfield (holds : line.Holds memory word) (small : Small line key)
    (counted : key.sword ≠ sizeMax) :
    Rest memory line.lim (begfield memory tab blanks line key)
      (begRest tab blanks key word) := by
  have fields : Rest memory line.lim
      (skipFields memory tab blanks line.lim key.sword line.text)
      ((behindField tab blanks)^[key.sword] word) :=
    rest_skipFields holds key.sword
  have start := @rest_skipped _ blanks _ _ _ fields key.skipsblanks
  have le := start.le
  have schar := small.schar
  rw [begRest, if_neg counted, fieldRest, if_neg counted]
  exact rest_advance start (by omega)

/-- And ends at the text that its numbers say. -/
theorem rest_limfield (holds : line.Holds memory word)
    (small : Small line key) (counted : key.eword ≠ sizeMax) :
    Rest memory line.lim (limfield memory tab blanks line key)
      (limRest tab blanks key word) := by
  rw [limRest, if_neg counted, limfield]
  by_cases whole : key.echar = 0
  · simp only [whole, if_true, ne_eq, not_true_eq_false, if_false]
    exact rest_skipWholeFields holds key.eword
  · have fields : Rest memory line.lim
        (skipEndFields memory tab blanks key.echar line.lim key.eword line.text)
        ((behindField tab blanks)^[key.eword] word) :=
      rest_skipEndFields holds whole key.eword
    have start := @rest_skipped _ blanks _ _ _ fields key.skipeblanks
    have le := start.le
    have echar := small.echar
    simp only [whole, if_false, ne_eq, not_false_eq_true, if_true]
    exact rest_advance start (by omega)

/-- A key without an end goes to the end of the line. -/
theorem rest_keylim (holds : line.Holds memory word) (small : Small line key) :
    Rest memory line.lim (keylim memory tab blanks line key)
      (limRest tab blanks key word) := by
  rw [keylim]
  split
  next toEnd =>
    rw [limRest, if_pos toEnd]
    exact rest_nil memory line.lim
  next counted => exact rest_limfield holds small counted

/-- The loop over the blanks of a line stops at its end by itself. -/
theorem skipWhile_succ {lim ptr : Nat} (inside : ptr ≤ lim)
    (stops : blanks (memory lim) = false) :
    skipWhile memory blanks (lim + 1) ptr = skipWhile memory blanks lim ptr := by
  induction count : lim - ptr generalizing ptr with
  | zero =>
      obtain rfl : ptr = lim := by omega
      have stopped : ¬ (ptr < ptr + 1 ∧ blanks (memory ptr) = true) := by
        simp [stops]
      have ended : ¬ (ptr < ptr ∧ blanks (memory ptr) = true) := by simp
      rw [skipWhile, if_neg stopped, skipWhile, if_neg ended]
  | succ count inductionHypothesis =>
      have before : ptr < lim := by omega
      unfold skipWhile
      by_cases blank : blanks (memory ptr) = true
      · rw [if_pos ⟨Nat.lt_succ_of_lt before, blank⟩, if_pos ⟨before, blank⟩]
        exact inductionHypothesis before (by omega)
      · rw [if_neg fun both => blank both.2, if_neg fun both => blank both.2]

/-- A key without a beginning starts at the line's. -/
theorem rest_keybeg (holds : line.Holds memory word) (small : Small line key)
    (stops : blanks (memory line.lim) = false) :
    Rest memory line.lim (keybeg memory tab blanks line key)
      (begRest tab blanks key word) := by
  rw [keybeg]
  split
  next counted => exact rest_begfield holds small counted
  next start =>
    have start := not_not.mp start
    rw [begRest, if_pos start, fieldRest, if_pos start,
      skipWhile_succ holds.le stops]
    exact rest_skipped holds key.skipsblanks

/-- The text between two places of a text, empty if they are the wrong way
round. -/
theorem text_between {lim beg fin : Nat} {begRest limRest : Word}
    (begins : Rest memory lim beg begRest) (ends : Rest memory lim fin limRest) :
    text memory beg (max beg fin) =
      begRest.take (begRest.length - limRest.length) := by
  have length := begins.length
  have length' := ends.length
  have count : max beg fin - beg = begRest.length - limRest.length := by omega
  have within : begRest.length - limRest.length ≤ lim - beg := by omega
  have chars : begRest = (List.range' beg (lim - beg)).map memory :=
    begins.chars.symm
  rw [text, count, ← List.take_range'_of_length_ge within, List.map_take,
    ← chars]

theorem fieldEnd_suffix (tab : Option Char) (blanks : Char → Bool)
    (word : Word) : fieldEnd tab blanks word <:+ word := by
  cases tab with
  | none => exact (List.dropWhile_suffix _).trans (List.dropWhile_suffix blanks)
  | some tab => exact List.dropWhile_suffix (· ≠ tab)

theorem behindField_suffix (tab : Option Char) (blanks : Char → Bool)
    (word : Word) : behindField tab blanks word <:+ word := by
  cases tab with
  | none => exact fieldEnd_suffix none blanks word
  | some tab =>
      exact (List.drop_suffix 1 _).trans (fieldEnd_suffix (some tab) blanks word)

theorem behindFields_suffix (tab : Option Char) (blanks : Char → Bool)
    (count : Nat) (word : Word) :
    (behindField tab blanks)^[count] word <:+ word := by
  induction count generalizing word with
  | zero => exact List.suffix_rfl
  | succ count inductionHypothesis =>
      exact (inductionHypothesis _).trans (behindField_suffix tab blanks word)

/-- What is behind a key is the end of the line. -/
theorem limRest_suffix (tab : Option Char) (blanks : Char → Bool)
    (key : Keyfield) (word : Word) : limRest tab blanks key word <:+ word := by
  have fields := behindFields_suffix tab blanks key.eword word
  unfold limRest
  split
  · exact List.nil_suffix
  · dsimp only
    split
    · exact (fieldEnd_suffix tab blanks _).trans fields
    · split
      · exact ((List.drop_suffix _ _).trans (List.dropWhile_suffix blanks)).trans
          fields
      · exact (List.drop_suffix _ _).trans fields

/-- A key that is not the first one and starts the line is looked for up to
its end only. -/
theorem dropWhile_take (p : Char → Bool) (word rest : Word) (count : Nat)
    (suffix : rest = word.drop count) :
    (word.take count).dropWhile p =
      (word.dropWhile p).take ((word.dropWhile p).length - rest.length) := by
  have split : word = word.take count ++ rest := by
    rw [suffix, List.take_append_drop]
  have dropped : word.dropWhile p =
      if ((word.take count).dropWhile p).isEmpty then rest.dropWhile p
      else (word.take count).dropWhile p ++ rest := by
    conv => lhs; rw [split]
    exact List.dropWhile_append
  rw [dropped]
  split
  next nothing =>
    have shorter := List.length_dropWhile_le p rest
    rw [List.isEmpty_iff.mp nothing, Nat.sub_eq_zero_of_le shorter, List.take_zero]
  next more =>
    rw [List.length_append, Nat.add_sub_cancel, List.take_left]

/-- The first key, where `fillbuf` found it. -/
theorem firstKey_text (holds : line.Holds memory word) (small : Small line key)
    (stops : blanks (memory line.lim) = false) :
    text memory (keybeg memory tab blanks line key)
        (max (keybeg memory tab blanks line key)
          (keylim memory tab blanks line key)) =
      keyText tab blanks key word :=
  text_between (rest_keybeg holds small stops) (rest_keylim holds small)

/-- The other keys, where `keycompare` finds them. -/
theorem nextKey_text (holds : line.Holds memory word) (small : Small line key) :
    text memory (nextbeg memory tab blanks line key
          (keylim memory tab blanks line key))
        (max (nextbeg memory tab blanks line key
            (keylim memory tab blanks line key))
          (keylim memory tab blanks line key)) =
      keyText tab blanks key word := by
  have ends : Rest memory line.lim (keylim memory tab blanks line key)
      (limRest tab blanks key word) := rest_keylim holds small
  rw [nextbeg]
  split
  next counted => exact text_between (rest_begfield holds small counted) ends
  next start =>
    have start := not_not.mp start
    rw [keyText, begRest, if_pos start, fieldRest, if_pos start]
    cases key.skipsblanks with
    | false => exact text_between holds ends
    | true =>
        have suffix := limRest_suffix tab blanks key word
        have inside : line.text ≤ keylim memory tab blanks line key := by
          have length := holds.length
          have length' := ends.length
          have shorter := suffix.length_le
          omega
        have before := text_between holds ends
        rw [Nat.max_eq_right inside] at before
        have skipped := rest_skipWhile (rest_text memory inside) blanks
        rw [before] at skipped
        simp only [if_true]
        rw [Nat.max_eq_right skipped.le, skipped.chars]
        exact dropWhile_take blanks word _ _ (List.suffix_iff_eq_drop.mp suffix)

theorem fieldRest_suffix (tab : Option Char) (blanks : Char → Bool)
    (key : Keyfield) (word : Word) : fieldRest tab blanks key word <:+ word := by
  have fields : (if key.sword = sizeMax then word
      else (behindField tab blanks)^[key.sword] word) <:+ word := by
    split
    · exact List.suffix_rfl
    · exact behindFields_suffix tab blanks key.sword word
  unfold fieldRest
  dsimp only
  split
  · exact (List.dropWhile_suffix blanks).trans fields
  · exact fields

/-- An addition that overflows starts from zero. -/
theorem advance_wraps {lim ptr count : Nat} (inside : ptr ≤ lim)
    (machine : lim < 2 ^ 64) (small : count < 2 ^ 64)
    (wraps : 2 ^ 64 ≤ ptr + count) :
    advance lim ptr count = ptr + count - 2 ^ 64 := by
  rw [advance, Nat.mod_eq_sub_mod wraps, Nat.mod_eq_of_lt (by omega)]
  omega

/-- The pointer is right just if the addition does not overflow. -/
theorem rest_advance_iff {lim ptr count : Nat} {rest : Word}
    (holds : Rest memory lim ptr rest) (machine : lim < 2 ^ 64)
    (small : count < 2 ^ 64) :
    Rest memory lim (advance lim ptr count) (rest.drop count) ↔
      ptr + count < 2 ^ 64 := by
  constructor
  · intro found
    by_contra wraps
    have length := holds.length
    have length' := found.length
    rw [advance_wraps holds.le machine small (Nat.not_lt.mp wraps),
      List.length_drop] at length'
    omega
  · exact rest_advance holds

/-- It falls behind its start just if it overflows that far. -/
theorem advance_lt_iff {lim ptr count start : Nat} (inside : ptr ≤ lim)
    (machine : lim < 2 ^ 64) (small : count < 2 ^ 64) (after : start ≤ ptr) :
    advance lim ptr count < start ↔
      2 ^ 64 ≤ ptr + count ∧ ptr + count < start + 2 ^ 64 := by
  by_cases wraps : 2 ^ 64 ≤ ptr + count
  · rw [advance_wraps inside machine small wraps]
    omega
  · rw [advance_eq (Nat.not_le.mp wraps)]
    omega

/-- `begfield` finds the beginning of the key exactly where its addition does
not overflow.  Where it does, the key may begin in front of the line. -/
theorem begfield_inside_iff (holds : line.Holds memory word)
    (machine : line.lim < 2 ^ 64) (counted : key.sword ≠ sizeMax)
    (schar : key.schar < 2 ^ 64) :
    (Rest memory line.lim (begfield memory tab blanks line key)
        (begRest tab blanks key word) ↔
      line.text + (word.length - (fieldRest tab blanks key word).length) +
        key.schar < 2 ^ 64) ∧
    (begfield memory tab blanks line key < line.text ↔
      2 ^ 64 ≤ line.text +
          (word.length - (fieldRest tab blanks key word).length) + key.schar ∧
        word.length - (fieldRest tab blanks key word).length + key.schar <
          2 ^ 64) := by
  have fields : Rest memory line.lim
      (skipFields memory tab blanks line.lim key.sword line.text)
      ((behindField tab blanks)^[key.sword] word) :=
    rest_skipFields holds key.sword
  have start := @rest_skipped _ blanks _ _ _ fields key.skipsblanks
  have rests : (if key.skipsblanks = true then
        ((behindField tab blanks)^[key.sword] word).dropWhile blanks
      else (behindField tab blanks)^[key.sword] word) =
      fieldRest tab blanks key word := by
    rw [fieldRest, if_neg counted]
  rw [rests] at start
  have shorter := (fieldRest_suffix tab blanks key word).length_le
  have length := holds.length
  have length' := start.length
  rw [begRest, if_neg counted, begfield, rest_advance_iff start machine schar,
    advance_lt_iff start.le machine schar (by omega)]
  omega

/-- Two characters are read in front of the line. -/
theorem begfield_inside_iff_before :
    (Rest (fun _ => 'a') 103
        (begfield (fun _ => 'a') none (· = ' ') ⟨100, 4⟩
          { keyInit with schar := 2 ^ 64 - 2 })
        (begRest none (· = ' ') { keyInit with schar := 2 ^ 64 - 2 }
          "aaa".toList) ↔
      100 + (3 - (fieldRest none (· = ' ') { keyInit with schar := 2 ^ 64 - 2 }
        "aaa".toList).length) + (2 ^ 64 - 2) < 2 ^ 64) ∧
    (begfield (fun _ => 'a') none (· = ' ') ⟨100, 4⟩
        { keyInit with schar := 2 ^ 64 - 2 } < 100 ↔
      2 ^ 64 ≤ 100 + (3 - (fieldRest none (· = ' ')
          { keyInit with schar := 2 ^ 64 - 2 } "aaa".toList).length) +
          (2 ^ 64 - 2) ∧
        3 - (fieldRest none (· = ' ') { keyInit with schar := 2 ^ 64 - 2 }
          "aaa".toList).length + (2 ^ 64 - 2) < 2 ^ 64) :=
  have holds : Line.Holds (fun _ => 'a') ⟨100, 4⟩ "aaa".toList := ⟨rfl, rfl⟩
  begfield_inside_iff holds (by decide) (by decide) (by decide)

end

/-! ## Whole fields -/

/-- The key of `-k N,N`; the fields are counted from 0 on. -/
def wholeField (index : Nat) : Keyfield :=
  { keyInit with sword := index, eword := index }.fromStart

section

variable (tab : Option Char) (blanks : Char → Bool)

/-- The first field of a text. -/
def firstField (line : Word) : Word :=
  line.take (line.length - (fieldEnd tab blanks line).length)

variable {tab} {blanks}

/-- A key of one field has that field as its text. -/
theorem keyText_wholeField {index : Nat} (small : index < sizeMax)
    (line : Word) :
    keyText tab blanks (wholeField index) line =
      firstField tab blanks ((behindField tab blanks)^[index] line) := by
  have unlimited : (wholeField index).eword = index := by
    rw [wholeField, Keyfield.fromStart]
    split <;> rfl
  have begins : begRest tab blanks (wholeField index) line =
      (behindField tab blanks)^[index] line := by
    cases index with
    | zero => rfl
    | succ index =>
        have counted : (wholeField (index + 1)).sword ≠ sizeMax := by
          exact Nat.ne_of_lt small
        rw [begRest, if_neg counted, fieldRest, if_neg counted]
        rfl
  have ends : limRest tab blanks (wholeField index) line =
      fieldEnd tab blanks ((behindField tab blanks)^[index] line) := by
    rw [limRest, unlimited, if_neg (Nat.ne_of_lt small)]
    cases index <;> rfl
  rw [keyText, begins, ends, firstField]

/-- A line is its first field and what is behind it. -/
theorem firstField_append (line : Word) :
    firstField tab blanks line ++ fieldEnd tab blanks line = line := by
  have suffix := List.suffix_iff_eq_drop.mp (fieldEnd_suffix tab blanks line)
  exact (congrArg (firstField tab blanks line ++ ·) suffix).trans
    (List.take_append_drop _ line)

/-- With `-t` a field ends before the separator. -/
theorem firstField_tab (tab : Char) (blanks : Char → Bool) (line : Word) :
    firstField (some tab) blanks line = line.takeWhile (· ≠ tab) := by
  have split := @firstField_append (some tab) blanks line
  have split' := @List.takeWhile_append_dropWhile _ (· ≠ tab) line
  exact List.append_cancel_right (split.trans split'.symm)

/-- Without it a field has its leading blanks. -/
theorem firstField_blanks (blanks : Char → Bool) (line : Word) :
    firstField none blanks line =
      line.takeWhile blanks ++ (line.dropWhile blanks).takeWhile (!blanks ·) := by
  have split := @firstField_append none blanks line
  have split' := @List.takeWhile_append_dropWhile _ (!blanks ·)
    (line.dropWhile blanks)
  have split'' := @List.takeWhile_append_dropWhile _ blanks line
  refine List.append_cancel_right (split.trans ?_)
  rw [List.append_assoc]
  exact (split''.symm.trans
    (congrArg (line.takeWhile blanks ++ ·) split'.symm))

/-- The fields of `-t` are the pieces between the separators. -/
theorem splitOn_eq (tab : Char) (blanks : Char → Bool) (line : Word) :
    line.splitOn tab =
      firstField (some tab) blanks line ::
        (if tab ∈ line then
          (behindField (some tab) blanks line).splitOn tab else []) := by
  rw [firstField_tab]
  by_cases inside : tab ∈ line
  · rw [if_pos inside]
    obtain ⟨field, rest, rfl, first⟩ := List.eq_append_cons_of_mem inside
    have passed : ∀ c ∈ field, (decide (c ≠ tab)) = true := by
      rintro c inField
      rw [decide_eq_true_eq]
      rintro rfl
      exact first inField
    have behind : behindField (some tab) blanks (field ++ tab :: rest) =
        rest := by
      simp only [behindField, fieldEnd]
      rw [List.dropWhile_append_of_pos passed]
      simp
    rw [behind, List.takeWhile_append_of_pos passed,
      List.splitOn_append_cons_self_of_not_mem first]
    simp
  · rw [if_neg inside, List.splitOn_eq_singleton inside]
    have passed : ∀ c ∈ line, (decide (c ≠ tab)) = true := by
      rintro c inLine
      rw [decide_eq_true_eq]
      rintro rfl
      exact inside inLine
    rw [List.takeWhile_eq_self_iff.mpr passed]

/-- The field of a number is the piece of that number. -/
theorem firstField_split (tab : Char) (blanks : Char → Bool) (index : Nat)
    (line : Word) :
    firstField (some tab) blanks ((behindField (some tab) blanks)^[index] line) =
      (line.splitOn tab).getD index [] := by
  induction index generalizing line with
  | zero =>
      rw [splitOn_eq tab blanks line]
      rfl
  | succ index inductionHypothesis =>
      rw [Function.iterate_succ_apply, inductionHypothesis,
        splitOn_eq tab blanks line, List.getD_cons_succ]
      split
      next inside => rfl
      next outside =>
        have noRest : behindField (some tab) blanks line = [] := by
          have passed : line.dropWhile (· ≠ tab) = [] := by
            rw [List.dropWhile_eq_nil_iff]
            intro c inLine
            rw [decide_eq_true_eq]
            rintro rfl
            exact outside inLine
          simp only [behindField, fieldEnd, passed, List.drop_nil]
        rw [noRest]
        cases index <;> rfl

theorem behindField_lt (blanks : Char → Bool) {line : Word}
    (nonempty : line ≠ []) : (behindField none blanks line).length < line.length := by
  match line, nonempty with
  | c :: line, _ =>
      have shorter := List.length_dropWhile_le (!blanks ·)
        ((c :: line).dropWhile blanks)
      have shorter' := List.length_dropWhile_le blanks line
      have shorter'' := List.length_dropWhile_le (!blanks ·) line
      simp only [behindField, fieldEnd, List.dropWhile_cons,
        List.length_cons] at shorter ⊢
      cases blank : blanks c with
      | true =>
          simp only [blank, if_true] at shorter ⊢
          omega
      | false =>
          simp only [Bool.false_eq_true, if_false, List.dropWhile_cons, blank,
            Bool.not_false, if_true]
          omega

/-- A line has no more fields than characters. -/
theorem behindFields_length (blanks : Char → Bool) {count : Nat} {line : Word}
    (enough : line.length ≤ count) :
    (behindField none blanks)^[count] line = [] := by
  induction count generalizing line with
  | zero => exact List.length_eq_zero_iff.mp (Nat.le_zero.mp enough)
  | succ count inductionHypothesis =>
      rw [Function.iterate_succ_apply]
      by_cases isNil : line = []
      · rw [isNil, behindField_nil, behindFields_nil]
      · have shorter := behindField_lt blanks isNil
        exact inductionHypothesis (by omega)

/-- Without `-t` the fields together are the line. -/
theorem firstFields_flatten (blanks : Char → Bool) (count : Nat) (line : Word) :
    ((List.range count).map fun index =>
        firstField none blanks ((behindField none blanks)^[index] line)).flatten ++
      (behindField none blanks)^[count] line = line := by
  induction count generalizing line with
  | zero => rfl
  | succ count inductionHypothesis =>
      rw [List.range_succ_eq_map, List.map_cons, List.map_map,
        List.flatten_cons, List.append_assoc]
      have later := inductionHypothesis (behindField none blanks line)
      simp only [Function.comp_def, Function.iterate_succ_apply,
        Function.iterate_zero_apply]
      rw [later]
      exact firstField_append line

/-- With `-t`, the key of `-k N,N` is the N-th piece of the line cut at the
separators.  Without, it is a run of blanks with what is not blank behind, and
these keys together are the line. -/
theorem wholeField_text (blanks : Char → Bool) (line : Word)
    (small : line.length < sizeMax) :
    (∀ tab index, index < sizeMax →
      keyText (some tab) blanks (wholeField index) line =
        (line.splitOn tab).getD index []) ∧
    (∀ index, index < sizeMax → ∃ rest : Word, rest <:+ line ∧
      keyText none blanks (wholeField index) line =
        rest.takeWhile blanks ++
          (rest.dropWhile blanks).takeWhile (!blanks ·)) ∧
    ((List.range line.length).map fun index =>
      keyText none blanks (wholeField index) line).flatten = line := by
  refine ⟨fun tab index inside => ?_, fun index inside => ?_, ?_⟩
  · rw [keyText_wholeField inside, firstField_split]
  · rw [keyText_wholeField inside]
    exact ⟨_, behindFields_suffix none blanks index line,
      firstField_blanks blanks _⟩
  · have fields : ((List.range line.length).map fun index =>
          keyText none blanks (wholeField index) line) =
        (List.range line.length).map fun index =>
          firstField none blanks ((behindField none blanks)^[index] line) :=
      List.map_congr_left fun index inside =>
        keyText_wholeField ((List.mem_range.mp inside).trans small) line
    have pieces := firstFields_flatten blanks line.length line
    rw [behindFields_length blanks le_rfl, List.append_nil] at pieces
    rw [fields, pieces]

/-- A line with both kinds of separator. -/
theorem wholeField_text_passwd :
    (∀ tab index, index < sizeMax →
      keyText (some tab) (· = ' ') (wholeField index) "a:b c".toList =
        ("a:b c".toList.splitOn tab).getD index []) ∧
    (∀ index, index < sizeMax → ∃ rest : Word, rest <:+ "a:b c".toList ∧
      keyText none (· = ' ') (wholeField index) "a:b c".toList =
        rest.takeWhile (· = ' ') ++
          (rest.dropWhile (· = ' ')).takeWhile (!(· = ' ') ·)) ∧
    ((List.range 5).map fun index =>
      keyText none (· = ' ') (wholeField index) "a:b c".toList).flatten =
      "a:b c".toList :=
  wholeField_text (· = ' ') "a:b c".toList (by decide)

end

end Lmcas.SortCompare
