import Lmcas.Configuration
import Lmcas.Lib.Comparison
import Lmcas.SortFields

/-!
# Comparing lines

`keycompare` and `compare` of `sort.c` with the comparison functions of the
keys.  `strnumcmp`, `filevercmp`, `xmemcoll0`, `strxfrm`, `strtold` and the
checksum come from libraries.
-/

namespace Lmcas.SortCompare

open Lmcas.Lib.CString
open Lmcas.Lib.StableSort
open Lmcas.Sort
open Lmcas.System

/-- The value of `strtold`: numbers are ranked by `<`, and `-0 == +0`. -/
inductive LongDouble where
  | nan (bytes : Word)
  | number (rank : Int)
deriving DecidableEq, Repr

/-- What is compared outside of `sort.c`. -/
structure Library where
  strnumcmp : Word → Word → Int
  filevercmp : Word → Word → Int
  xmemcoll0 : Word → Word → Int
  /-- `none` where there is no number. -/
  strtold : Word → Option LongDouble
  strxfrm : Word → Word
  /-- From the random state on. -/
  md5 : Word → Word

/-- The end of a string. -/
def nul : Char := Char.ofNat 0

/-- The string that a text with a NUL behind it is. -/
def cString (text : Word) : Word :=
  text.takeWhile (· ≠ nul)

/-- The sign counts; here it is the first difference of two blocks, as far as
both go. -/
def memcmp : Word → Word → Int :=
  firstDiff id

/-! ## Numbers -/

section

variable (tables : Tables) (library : Library)

/-- `numcompare`. -/
def numcompare (first second : Word) : Int :=
  library.strnumcmp (first.dropWhile tables.blanks)
    (second.dropWhile tables.blanks)

/-- `unit_order[]`. -/
def unitOrder (c : Char) : Int :=
  match c with
  | 'K' | 'k' => 1
  | 'M' => 2
  | 'G' => 3
  | 'T' => 4
  | 'P' => 5
  | 'E' => 6
  | 'Z' => 7
  | 'Y' => 8
  | _ => 0

/-- The value of a `char`, which is signed. -/
def signedChar (c : Char) : Int :=
  if c.toNat < 128 then c.toNat else (c.toNat : Int) - 256

/-- `*p == thousands_sep`, where `thousands_sep` is an `unsigned char` or `-1`.
Without a separator it is the byte 255 that compares equal, and separators from
128 on are never found. -/
def isThousandsSep (c : Char) : Bool :=
  signedChar c = tables.thousandsSep.elim (-1) fun sep => (sep.toNat : Int)

/-- The first loop of `traverse_raw_number`, with the separator it has just
skipped; one that no digit follows is given back. -/
def rawDigits (digit : Char) : Option Char → Word → Char × Option Char × Word
  | skipped, [] => (digit, skipped, [])
  | skipped, c :: number =>
      if c.isDigit then
        let digit := if digit < c then c else digit
        match number with
        | [] => (digit, none, [])
        | sep :: number =>
            if isThousandsSep tables sep then
              rawDigits digit (some sep) number
            else rawDigits digit none (sep :: number)
      else (digit, skipped, c :: number)

/-- The digits behind the decimal point. -/
def decimals (digit : Char) : Word → Char × Word
  | [] => (digit, [])
  | c :: number =>
      if c.isDigit then decimals (if digit < c then c else digit) number
      else (digit, c :: number)

/-- The highest digit, and the first character behind the number. -/
def traverseRawNumber (number : Word) : Char × Char :=
  match rawDigits tables nul none number with
  | (digit, some sep, _) => (digit, sep)
  | (digit, none, number) =>
      match number with
      | [] => (digit, nul)
      | c :: rest =>
          if c = tables.decimalPoint then
            ((decimals digit rest).1, (decimals digit rest).2.headD nul)
          else (digit, c)

/-- `find_unit_order`: a number whose digits are all zero has no unit. -/
def findUnitOrder (number : Word) : Int :=
  let minusSign := number.head? = some '-'
  let (digit, c) :=
    traverseRawNumber tables (if minusSign then number.drop 1 else number)
  if '0' < digit then
    if minusSign then -unitOrder c else unitOrder c
  else 0

/-- `human_numcompare`: first the units, then the numbers. -/
def humanNumcompare (first second : Word) : Int :=
  let first := first.dropWhile tables.blanks
  let second := second.dropWhile tables.blanks
  let diff := findUnitOrder tables first - findUnitOrder tables second
  if diff ≠ 0 then diff else library.strnumcmp first second

/-- `none` is a conversion error. -/
def compareNumbers (first second : Option LongDouble) : Int :=
  match first, second with
  | none, none => 0
  | none, some _ => -1
  | some _, none => 1
  | some (.number a), some (.number b) =>
      if a < b then -1 else if a > b then 1 else 0
  | some (.nan _), some (.number _) => -1
  | some (.number _), some (.nan _) => 1
  | some (.nan bytes), some (.nan bytes') => memcmp bytes bytes'

/-- `general_numcompare`. -/
def generalNumcompare (first second : Word) : Int :=
  compareNumbers (library.strtold first) (library.strtold second)

/-! ## Months -/

/-- What the loop over the characters of a month ends with. -/
inductive Side where
  | found
  | below
  | above
deriving DecidableEq, Repr

/-- The NUL behind the text is before every letter. -/
def monthSide (foldToupper : Char → Char) : Word → Word → Side
  | _, [] => .found
  | [], _ :: _ => .below
  | c :: month, n :: name =>
      if (foldToupper c).toNat < n.toNat then .below
      else if n.toNat < (foldToupper c).toNat then .above
      else monthSide foldToupper month name

/-- `do ... while (lo < hi)` -/
def monthSearch (month : Word) (lo hi : Nat) : Nat :=
  let ix := (lo + hi) / 2
  match tables.monthtab[ix]? with
  | none => 0
  | some entry =>
      match monthSide tables.foldToupper month entry.name with
      | .found => entry.val
      | .below => if _more : lo < ix then monthSearch month lo ix else 0
      | .above => if _more : ix + 1 < hi then monthSearch month (ix + 1) hi else 0
termination_by hi - lo
decreasing_by all_goals omega

/-- `getmonth`. -/
def getmonth (month : Word) : Int :=
  monthSearch tables (month.dropWhile tables.blanks) 0 12

/-! ## Checksums -/

/-- `memcmp` and then the sizes. -/
def blockDiff (first second : Word) : Int :=
  let diff := memcmp first second
  if diff ≠ 0 then diff
  else
    (if first.length > second.length then 1 else 0) -
      (if first.length < second.length then 1 else 0)

/-- Two checksums, the last blocks that belong to them, and `xfrm_diff`. -/
structure Checksums where
  sums : Word × Word
  blocks : Word × Word
  xfrmDiff : Int

/-- The next string of a text, transformed. -/
def transformed (text : Word) : Word :=
  if text.isEmpty then [] else library.strxfrm (cString text) ++ [nul]

/-- `text += strlen (text) + 1` -/
def behindString (text : Word) : Word :=
  text.drop ((cString text).length + 1)

/-- The loop of a hard locale: one string of each text at a time. -/
def randomLoop (sums : Word × Word) (xfrmDiff : Int) (first second : Word) :
    Checksums :=
  let block := transformed library first
  let block' := transformed library second
  if _more : behindString first ≠ [] ∨ behindString second ≠ [] then
    randomLoop (sums.1 ++ block, sums.2 ++ block')
      (if xfrmDiff ≠ 0 then xfrmDiff else blockDiff block block')
      (behindString first) (behindString second)
  else ⟨sums, (block, block'), xfrmDiff⟩
termination_by first.length + second.length
decreasing_by
  simp only [behindString, ne_eq, List.drop_eq_nil_iff, not_le,
    List.length_drop] at *
  omega

/-- `compare_random`: the checksums decide, and where they agree the transformed
texts. -/
def compareRandom (first second : Word) : Int :=
  let state :=
    if tables.hardCollate then randomLoop library ([], []) 0 first second
    else ⟨([], []), (first, second), 0⟩
  let diff := memcmp (library.md5 (state.sums.1 ++ state.blocks.1))
    (library.md5 (state.sums.2 ++ state.blocks.2))
  if diff ≠ 0 then diff
  else if state.xfrmDiff ≠ 0 then state.xfrmDiff
  else blockDiff state.blocks.1 state.blocks.2

/-! ## Keys -/

/-- What the comparison of a key passes over. -/
def ignores (key : Keyfield) (c : Char) : Bool :=
  match key.ignore with
  | none => false
  | some .nonprinting => tables.nonprinting c
  | some .nondictionary => tables.nondictionary c

/-- What the comparison of a key makes of a character. -/
def translates (key : Keyfield) (c : Char) : Char :=
  if key.translate then tables.foldToupper c else c

/-- The copy of a key without the characters to ignore. -/
def copyKey (key : Keyfield) (text : Word) : Word :=
  (text.filter fun c => !ignores tables key c).map (translates tables key)

/-- `CMP_WITH_IGNORE` -/
def cmpWithIgnore (ignore : Char → Bool) (translate : Char → Char)
    (first second : Word) : Int :=
  match _left : first.dropWhile ignore, second.dropWhile ignore with
  | a :: texta, b :: textb =>
      let diff := compareChars (translate a) (translate b)
      if diff ≠ 0 then diff else cmpWithIgnore ignore translate texta textb
  | [], [] => 0
  | _ :: _, [] => 1
  | [], _ :: _ => -1
termination_by first.length
decreasing_by
  have shorter := List.length_dropWhile_le ignore first
  rw [_left, List.length_cons] at shorter
  omega

/-- Texts of which one may be empty. -/
def emptyFirst (compare : Word → Word → Int) (first second : Word) : Int :=
  if first.length = 0 then -(if second.length ≠ 0 then 1 else 0)
  else if second.length = 0 then 1
  else compare first second

/-- The first difference, and then the lengths. -/
def plainDiff (translate : Char → Char) (first second : Word) : Int :=
  let diff := firstDiff translate first second
  if diff ≠ 0 then diff
  else if first.length < second.length then -1
  else if first.length ≠ second.length then 1
  else 0

/-- The comparison of two keys, without `-r`. -/
def keyDiff (key : Keyfield) (first second : Word) : Int :=
  if tables.hardCollate || keyNumeric key || key.month || key.random ||
      key.version then
    let first := copyKey tables key first
    let second := copyKey tables key second
    if key.numeric then
      numcompare tables library (cString first) (cString second)
    else if key.generalNumeric then
      generalNumcompare library (cString first) (cString second)
    else if key.humanNumeric then
      humanNumcompare tables library (cString first) (cString second)
    else if key.month then
      getmonth tables (cString first) - getmonth tables (cString second)
    else if key.random then compareRandom tables library first second
    else if key.version then
      library.filevercmp (cString first) (cString second)
    else emptyFirst library.xmemcoll0 first second
  else if key.ignore.isSome then
    cmpWithIgnore (ignores tables key) (translates tables key) first second
  else emptyFirst (plainDiff (translates tables key)) first second

/-- What the options come to. -/
structure Order where
  keylist : List Keyfield
  reverse : Bool
  stable : Bool
  unique : Bool
  tab : Option Char

/-- What `compare` and `keycompare` read of the variables. -/
def orderOf (vars : Vars) : Order where
  keylist := finalKeys vars.gkey vars.keylist
  reverse := vars.gkey.reverse
  stable := vars.stable
  unique := vars.unique
  tab := vars.tab

variable (order : Order) (memory : Memory)

/-- The loop of `keycompare`, with the positions of the key. -/
def keycompareLoop (a b : Line) :
    List Keyfield → Nat × Nat → Nat × Nat → Int
  | [], _, _ => 0
  | key :: keys, (texta, lima), (textb, limb) =>
      let diff := keyDiff tables library key (text memory texta (max texta lima))
        (text memory textb (max textb limb))
      if diff ≠ 0 then if key.reverse then -diff else diff
      else
        match keys with
        | [] => 0
        | next :: _ =>
            let lima := keylim memory order.tab tables.blanks a next
            let limb := keylim memory order.tab tables.blanks b next
            keycompareLoop a b keys
              (nextbeg memory order.tab tables.blanks a next lima, lima)
              (nextbeg memory order.tab tables.blanks b next limb, limb)

/-- The positions of the first key are those that `fillbuf` has stored. -/
def keycompare (a b : Line) : Int :=
  match order.keylist with
  | [] => 0
  | key :: keys =>
      keycompareLoop tables library order memory a b (key :: keys)
        (keybeg memory order.tab tables.blanks a key,
          keylim memory order.tab tables.blanks a key)
        (keybeg memory order.tab tables.blanks b key,
          keylim memory order.tab tables.blanks b key)

/-- The comparison of whole lines. -/
def lastResort (first second : Word) : Int :=
  let diff :=
    emptyFirst (if tables.hardCollate then library.xmemcoll0 else plainDiff id)
      first second
  if order.reverse then -diff else diff

/-- `compare`, on two lines in memory. -/
def compare (a b : Line) : Int :=
  let diff := keycompare tables library order memory a b
  if order.keylist ≠ [] ∧
      (diff ≠ 0 ∨ order.unique = true ∨ order.stable = true) then diff
  else
    lastResort tables library order (text memory a.text a.lim)
      (text memory b.text b.lim)

end

/-! ## Comparison functions -/

section

variable {tables : Tables} {library : Library} {order : Order}

/-- The comparison of two texts, and then of their lengths, is lexicographic. -/
theorem plainDiff_eq (translate : Char → Char) (first second : Word) :
    plainDiff translate first second =
      compareLists compareChars (first.map translate)
        (second.map translate) :=
  (compareLists_eq_firstDiff translate first second).symm

theorem blockDiff_eq (first second : Word) :
    blockDiff first second = compareLists compareChars first second := by
  have plain := plainDiff_eq id first second
  rw [List.map_id, List.map_id] at plain
  have same : firstDiff id first second = memcmp first second := rfl
  rw [← plain]
  simp only [blockDiff, plainDiff, same]
  by_cases different : memcmp first second ≠ 0
  · rw [if_pos different, if_pos different]
  · rw [if_neg different, if_neg different]
    split <;> split <;> (try split) <;> omega

/-- So is that of two texts of one length. -/
theorem memcmp_eq {first second : Word} (length : first.length = second.length) :
    memcmp first second = compareLists compareChars first second := by
  rw [← blockDiff_eq, blockDiff]
  simp only [length, lt_irrefl, if_false, sub_zero]
  split
  · rfl
  · omega

/-- Empty texts come before the others. -/
theorem emptyFirst_comparison {compare : Word → Word → Int}
    (comparison : Comparison compare) : Comparison (emptyFirst compare) := by
  have ranks : Comparison fun first second : Word =>
      (if first = [] then 0 else 1 : Int) - if second = [] then 0 else 1 :=
    comparison_sub.comap fun text : Word => (if text = [] then 0 else 1 : Int)
  refine (ranks.thenBy comparison).congr fun first second => ?_
  match first, second with
  | [], [] =>
      have same := comparison.sign_swap [] []
      have zero : compare [] [] = 0 := by omega
      simp [emptyFirst, thenBy, zero]
  | [], _ :: _ => simp [emptyFirst, thenBy]
  | _ :: _, [] => simp [emptyFirst, thenBy]
  | _ :: _, _ :: _ => simp [emptyFirst, thenBy]

theorem emptyFirst_plainDiff (translate : Char → Char) (first second : Word) :
    emptyFirst (plainDiff translate) first second =
      compareLists compareChars (first.map translate)
        (second.map translate) := by
  rw [← plainDiff_eq]
  unfold emptyFirst
  match first, second with
  | [], [] => rfl
  | [], _ :: _ => rfl
  | _ :: _, [] => rfl
  | _ :: _, _ :: _ => rfl

theorem filter_of_dropWhile_nil {ignore : Char → Bool} {text : Word}
    (ignored : text.dropWhile ignore = []) : text.filter (!ignore ·) = [] := by
  rw [List.filter_eq_nil_iff]
  intro c inside
  simp [List.dropWhile_eq_nil_iff.mp ignored c inside]

/-- What is ignored at the beginning makes no difference. -/
theorem filter_of_dropWhile_cons {ignore : Char → Bool} {text rest : Word}
    {c : Char} (found : text.dropWhile ignore = c :: rest) :
    text.filter (!ignore ·) = c :: rest.filter (!ignore ·) := by
  induction text with
  | nil => cases found
  | cons d text inductionHypothesis =>
      rw [List.dropWhile_cons] at found
      split at found
      next ignored =>
        rw [List.filter_cons_of_neg (by simp [ignored])]
        exact inductionHypothesis found
      next kept =>
        obtain ⟨rfl, rfl⟩ := List.cons.inj found
        exact List.filter_cons_of_pos (by simp [kept])

/-- Passing over characters compares the texts without them. -/
theorem cmpWithIgnore_eq (ignore : Char → Bool) (translate : Char → Char)
    (first second : Word) :
    cmpWithIgnore ignore translate first second =
      compareLists compareChars ((first.filter (!ignore ·)).map translate)
        ((second.filter (!ignore ·)).map translate) := by
  induction count : first.length using Nat.strong_induction_on
    generalizing first second with
  | _ count inductionHypothesis =>
      rw [cmpWithIgnore]
      split
      next a texta b textb left right =>
        have shorter := List.length_dropWhile_le ignore first
        rw [left, List.length_cons] at shorter
        rw [filter_of_dropWhile_cons left, filter_of_dropWhile_cons right,
          inductionHypothesis texta.length (by omega) texta textb rfl]
        rfl
      next left right =>
        rw [filter_of_dropWhile_nil left, filter_of_dropWhile_nil right]
        rfl
      next left right =>
        rw [filter_of_dropWhile_cons left, filter_of_dropWhile_nil right]
        rfl
      next left right =>
        rw [filter_of_dropWhile_nil left, filter_of_dropWhile_cons right]
        rfl

/-- Libraries that compare as they are documented to. -/
structure Library.Sound (library : Library) : Prop where
  strnumcmp : Comparison library.strnumcmp
  filevercmp : Comparison library.filevercmp
  xmemcoll0 : Comparison library.xmemcoll0
  md5 : ∀ text, (library.md5 text).length = 16
  nan : ∀ text bytes, library.strtold text = some (.nan bytes) →
    bytes.length = 16

/-- All the strings of a text, transformed. -/
def blocksOf (library : Library) (text : Word) : List Word :=
  if _empty : text = [] then []
  else transformed library text :: blocksOf library (behindString text)
termination_by text.length
decreasing_by
  have positive := List.length_pos_iff.mpr _empty
  rw [behindString, List.length_drop]
  omega

theorem blocksOf_nil : blocksOf library [] = [] := by
  rw [blocksOf, dif_pos rfl]

theorem blocksOf_of_ne_nil {text : Word} (nonempty : text ≠ []) :
    blocksOf library text =
      transformed library text :: blocksOf library (behindString text) := by
  rw [blocksOf, dif_neg nonempty]

/-- A text is transformed string by string. -/
theorem flatten_blocksOf (text : Word) :
    (blocksOf library text).flatten =
      transformed library text ++
        (blocksOf library (behindString text)).flatten := by
  by_cases empty : text = []
  · subst empty
    rw [behindString, List.drop_nil, blocksOf_nil]
    rfl
  · rw [blocksOf_of_ne_nil empty, List.flatten_cons]

theorem transformed_ne_nil (library : Library) {text : Word} (notNil : text ≠ []) :
    transformed library text ≠ [] := by
  have nonempty : text.isEmpty = false := by simp [notNil]
  simp [transformed, nonempty]

/-- One turn of the loop compares one block of each text. -/
theorem compareBlocks_eq (first second : Word) :
    compareLists (compareLists compareChars) (blocksOf library first)
        (blocksOf library second) =
      if blockDiff (transformed library first)
          (transformed library second) ≠ 0 then
        blockDiff (transformed library first) (transformed library second)
      else
        compareLists (compareLists compareChars)
          (blocksOf library (behindString first))
          (blocksOf library (behindString second)) := by
  rw [blockDiff_eq]
  by_cases isNil : first = []
  · subst isNil
    have empty : transformed library [] = [] := rfl
    by_cases isNil' : second = []
    · subst isNil'
      simp [behindString, empty, compareLists, blocksOf_nil]
    · obtain ⟨c, block, isBlock⟩ :=
        List.exists_cons_of_ne_nil (transformed_ne_nil library isNil')
      rw [blocksOf_nil, blocksOf_of_ne_nil isNil', empty, isBlock]
      rfl
  · by_cases isNil' : second = []
    · subst isNil'
      have empty : transformed library [] = [] := rfl
      obtain ⟨c, block, isBlock⟩ :=
        List.exists_cons_of_ne_nil (transformed_ne_nil library isNil)
      rw [blocksOf_nil, blocksOf_of_ne_nil isNil, empty, isBlock]
      rfl
    · rw [blocksOf_of_ne_nil isNil, blocksOf_of_ne_nil isNil']
      rfl

/-- What the checksums and the tie-breaker of the loop come to. -/
structure Accumulated (library : Library) (sums : Word × Word) (xfrmDiff : Int)
    (first second : Word) (state : Checksums) : Prop where
  left : state.sums.1 ++ state.blocks.1 =
    sums.1 ++ (blocksOf library first).flatten
  right : state.sums.2 ++ state.blocks.2 =
    sums.2 ++ (blocksOf library second).flatten
  diff : (if state.xfrmDiff ≠ 0 then state.xfrmDiff
      else blockDiff state.blocks.1 state.blocks.2) =
    if xfrmDiff ≠ 0 then xfrmDiff
    else
      compareLists (compareLists compareChars) (blocksOf library first)
        (blocksOf library second)

/-- The loop leaves in checksum and buffer all of the transformed texts. -/
theorem randomLoop_accumulated (library : Library) (sums : Word × Word) (xfrmDiff : Int)
    (first second : Word) :
    Accumulated library sums xfrmDiff first second
      (randomLoop library sums xfrmDiff first second) := by
  induction count : first.length + second.length using Nat.strong_induction_on
    generalizing sums xfrmDiff first second with
  | _ _ inductionHypothesis =>
      rw [randomLoop]
      split
      next more =>
        have fewer : (behindString first).length +
            (behindString second).length < first.length + second.length := by
          simp only [behindString, ne_eq, List.drop_eq_nil_iff, not_le,
            List.length_drop] at more ⊢
          omega
        obtain ⟨left, right, diff⟩ := inductionHypothesis _ (count ▸ fewer)
          (sums.1 ++ transformed library first,
            sums.2 ++ transformed library second)
          (if xfrmDiff ≠ 0 then xfrmDiff
            else blockDiff (transformed library first)
              (transformed library second))
          (behindString first) (behindString second) rfl
        refine ⟨?_, ?_, ?_⟩
        · rw [left, flatten_blocksOf first, List.append_assoc]
        · rw [right, flatten_blocksOf second, List.append_assoc]
        · rw [diff, compareBlocks_eq first second]
          by_cases different : xfrmDiff ≠ 0
          · rw [if_pos different, if_pos different, if_pos different]
          · rw [if_neg different, if_neg different]
      next done =>
        obtain ⟨isNil, isNil'⟩ := not_or.mp done
        have isNil := not_not.mp isNil
        have isNil' := not_not.mp isNil'
        refine ⟨?_, ?_, ?_⟩
        · rw [flatten_blocksOf first, isNil, blocksOf_nil, List.flatten_nil,
            List.append_nil]
        · rw [flatten_blocksOf second, isNil', blocksOf_nil, List.flatten_nil,
            List.append_nil]
        · have same : compareLists (compareLists compareChars)
              (blocksOf library (behindString first))
              (blocksOf library (behindString second)) = 0 := by
            rw [isNil, isNil', blocksOf_nil]
            rfl
          rw [compareBlocks_eq first second, same]
          by_cases different : xfrmDiff ≠ 0
          · rw [if_pos different, if_pos different]
          · rw [if_neg different, if_neg different]
            dsimp only
            split
            · rfl
            · omega

/-- The order of `-R` is one. -/
theorem compareRandom_comparison (sound : library.Sound) :
    Comparison (compareRandom tables library) := by
  have chars := compareChars_comparison.lists
  have sums (text text' : Word) :
      memcmp (library.md5 text) (library.md5 text') =
        compareLists compareChars (library.md5 text) (library.md5 text') :=
    memcmp_eq ((sound.md5 text).trans (sound.md5 text').symm)
  cases hard : tables.hardCollate with
  | true =>
      refine ((chars.comap fun text => library.md5
        (blocksOf library text).flatten).thenBy
          (chars.lists.comap (blocksOf library))).congr fun first second => ?_
      obtain ⟨first', second', diff⟩ :=
        randomLoop_accumulated library ([], []) 0 first second
      rw [compareRandom]
      simp only [hard, if_true, first', second', diff, sums, List.nil_append]
      rfl
  | false =>
      refine ((chars.comap library.md5).thenBy chars).congr
        fun first second => ?_
      simp only [compareRandom, hard, Bool.false_eq_true, if_false, sums,
        List.nil_append, blockDiff_eq]
      rfl

/-- Conversion errors come first, then what is not a number. -/
def numberClass : Option LongDouble → Int
  | none => 0
  | some (.nan _) => 1
  | some (.number _) => 2

/-- The representation that is compared where neither is a number. -/
def nanBytes : Option LongDouble → Word
  | some (.nan bytes) => bytes
  | _ => []

/-- The value, as far as it is compared. -/
def numberRank : Option LongDouble → Int
  | some (.number rank) => rank
  | _ => 0

/-- A number of a class before the numbers of the next one. -/
def numberOrder : Option LongDouble → Option LongDouble → Int :=
  thenBy (fun first second => numberClass first - numberClass second)
    (thenBy
      (fun first second =>
        compareLists compareChars (nanBytes first) (nanBytes second))
      fun first second => numberRank first - numberRank second)

theorem numberOrder_comparison : Comparison numberOrder :=
  (comparison_sub.comap numberClass).thenBy
    ((compareChars_comparison.lists.comap nanBytes).thenBy
      (comparison_sub.comap numberRank))

theorem sign_compareNumbers (first second : Option LongDouble)
    (length : ∀ bytes bytes', first = some (.nan bytes) →
      second = some (.nan bytes') → bytes.length = bytes'.length) :
    (compareNumbers first second).sign = (numberOrder first second).sign := by
  match first, second with
  | none, none => rfl
  | none, some (.nan _) => rfl
  | none, some (.number _) => rfl
  | some (.nan _), none => rfl
  | some (.number _), none => rfl
  | some (.nan _), some (.number _) => rfl
  | some (.number _), some (.nan _) => rfl
  | some (.nan bytes), some (.nan bytes') =>
      simp only [compareNumbers, memcmp_eq (length bytes bytes' rfl rfl),
        numberOrder, thenBy, numberClass, nanBytes, numberRank, sub_self,
        ne_eq, not_true_eq_false, if_false]
      split
      next => rfl
      next same => rw [not_not.mp same]
  | some (.number rank), some (.number rank') =>
      simp only [compareNumbers, numberOrder, thenBy, numberClass, nanBytes,
        numberRank, compareLists, sub_self, ne_eq, not_true_eq_false, if_false]
      rcases lt_trichotomy rank rank' with less | same | more
      · rw [if_pos less, Int.sign_eq_neg_one_of_neg (by omega : rank - rank' < 0)]
        rfl
      · rw [same, if_neg (lt_irrefl _), if_neg (lt_irrefl _), sub_self]
      · rw [if_neg (not_lt_of_gt more), if_pos more,
          Int.sign_eq_one_of_pos (by omega : 0 < rank - rank')]
        rfl

/-- The order of `-g` is one. -/
theorem generalNumcompare_comparison (sound : library.Sound) :
    Comparison (generalNumcompare library) :=
  (numberOrder_comparison.comap library.strtold).congr fun first second =>
    sign_compareNumbers _ _ fun bytes bytes' isNan isNan' =>
      (sound.nan first bytes isNan).trans (sound.nan second bytes' isNan').symm

/-- The order of `-n` is one. -/
theorem numcompare_comparison (sound : library.Sound) :
    Comparison (numcompare tables library) :=
  sound.strnumcmp.comap fun text : Word => text.dropWhile tables.blanks

/-- The order of `-h` is one. -/
theorem humanNumcompare_comparison (sound : library.Sound) :
    Comparison (humanNumcompare tables library) := by
  have units : Comparison fun first second =>
      findUnitOrder tables first - findUnitOrder tables second :=
    comparison_sub.comap (findUnitOrder tables)
  exact (units.thenBy sound.strnumcmp).comap fun text : Word =>
    text.dropWhile tables.blanks

/-- Every kind of key is a comparison function. -/
theorem keyDiff_comparison (tables : Tables) (sound : library.Sound) (key : Keyfield) :
    Comparison (keyDiff tables library key) := by
  have copies {compare : Word → Word → Int} (comparison : Comparison compare) :
      Comparison fun first second =>
        compare (cString (copyKey tables key first))
          (cString (copyKey tables key second)) :=
    comparison.comap fun text => cString (copyKey tables key text)
  unfold keyDiff
  dsimp only
  by_cases special : (tables.hardCollate || keyNumeric key || key.month ||
      key.random || key.version) = true
  · simp only [special, if_true]
    by_cases numeric : key.numeric = true
    · simp only [numeric, if_true]
      exact copies (numcompare_comparison sound)
    by_cases general : key.generalNumeric = true
    · simp only [numeric, general, if_true]
      exact copies (generalNumcompare_comparison sound)
    by_cases human : key.humanNumeric = true
    · simp only [numeric, general, human, if_true]
      exact copies (humanNumcompare_comparison sound)
    by_cases month : key.month = true
    · simp only [numeric, general, human, month, if_true]
      exact comparison_sub.comap fun text =>
        getmonth tables (cString (copyKey tables key text))
    by_cases random : key.random = true
    · simp only [numeric, general, human, month, random, if_true]
      exact (compareRandom_comparison sound).comap (copyKey tables key)
    by_cases version : key.version = true
    · simp only [numeric, general, human, month, random, version, if_true]
      exact copies sound.filevercmp
    · simp only [numeric, general, human, month, random, version]
      exact (emptyFirst_comparison sound.xmemcoll0).comap (copyKey tables key)
  · simp only [special]
    by_cases ignore : key.ignore.isSome = true
    · simp only [ignore, if_true, cmpWithIgnore_eq]
      exact compareChars_comparison.lists.comap fun text : Word =>
        (text.filter (!ignores tables key ·)).map (translates tables key)
    · simp only [ignore, emptyFirst_plainDiff]
      exact compareChars_comparison.lists.comap fun text : Word =>
        text.map (translates tables key)

/-- One key, with its `-r`. -/
def keyOrder (tables : Tables) (library : Library) (order : Order)
    (key : Keyfield) (first second : Word) : Int :=
  let diff := keyDiff tables library key
    (keyText order.tab tables.blanks key first)
    (keyText order.tab tables.blanks key second)
  if key.reverse then -diff else diff

/-- The first key that tells two lines apart. -/
def keysOrder (tables : Tables) (library : Library) (order : Order) :
    List Keyfield → Word → Word → Int
  | [] => fun _ _ => 0
  | key :: keys =>
      thenBy (keyOrder tables library order key)
        (keysOrder tables library order keys)

/-- The keys, and then the whole lines. -/
def lineOrder (tables : Tables) (library : Library) (order : Order) :
    Word → Word → Int :=
  thenBy (keysOrder tables library order order.keylist)
    (if order.keylist ≠ [] ∧ (order.unique || order.stable) then
      fun _ _ => 0
    else lastResort tables library order)

/-- The order of a key is one. -/
theorem keyOrder_comparison (sound : library.Sound) (key : Keyfield) :
    Comparison (keyOrder tables library order key) := by
  have forward := (keyDiff_comparison tables sound key).comap
    (keyText order.tab tables.blanks key)
  unfold keyOrder
  cases key.reverse with
  | false => exact forward
  | true => exact forward.neg

/-- So is that of several keys. -/
theorem keysOrder_comparison (sound : library.Sound) (keys : List Keyfield) :
    Comparison (keysOrder tables library order keys) := by
  induction keys with
  | nil => exact comparison_zero
  | cons key keys inductionHypothesis =>
      exact (keyOrder_comparison sound key).thenBy inductionHypothesis

/-- So is the last resort. -/
theorem lastResort_comparison (sound : library.Sound) :
    Comparison (lastResort tables library order) := by
  have forward : Comparison (emptyFirst
      (if tables.hardCollate then library.xmemcoll0 else plainDiff id)) := by
    cases tables.hardCollate with
    | true => exact emptyFirst_comparison sound.xmemcoll0
    | false =>
        refine compareChars_comparison.lists.congr fun first second => ?_
        have same := emptyFirst_plainDiff id first second
        rw [List.map_id, List.map_id] at same
        exact congrArg Int.sign same
  unfold lastResort
  cases order.reverse with
  | false => exact forward
  | true => exact forward.neg

/-- So is all of it. -/
theorem lineOrder_comparison (sound : library.Sound) :
    Comparison (lineOrder tables library order) := by
  refine (keysOrder_comparison sound order.keylist).thenBy ?_
  split
  · exact comparison_zero
  · exact lastResort_comparison sound

/-! ## Lines in memory -/

variable {memory : Memory} {a b : Line} {first second : Word}

/-- A line with its delimiter, where no key overflows. -/
structure Placed (memory : Memory) (blanks : Char → Bool) (keys : List Keyfield)
    (line : Line) (word : Word) : Prop where
  holds : line.Holds memory word
  stops : blanks (memory line.lim) = false
  small : ∀ key ∈ keys, Small line key

theorem Placed.tail {line : Line} {word : Word} {key : Keyfield}
    {keys : List Keyfield}
    (place : Placed memory tables.blanks (key :: keys) line word) :
    Placed memory tables.blanks keys line word :=
  ⟨place.holds, place.stops, fun key inside =>
    place.small key (List.mem_cons_of_mem _ inside)⟩

/-- One turn of the loop, with the text of the key. -/
theorem keycompareLoop_cons {key : Keyfield} (keys : List Keyfield)
    {texta lima textb limb : Nat}
    (isText : text memory texta (max texta lima) =
      keyText order.tab tables.blanks key first)
    (isText' : text memory textb (max textb limb) =
      keyText order.tab tables.blanks key second) :
    keycompareLoop tables library order memory a b (key :: keys) (texta, lima)
        (textb, limb) =
      if keyOrder tables library order key first second ≠ 0 then
        keyOrder tables library order key first second
      else
        match keys with
        | [] => 0
        | next :: _ =>
            let lima := keylim memory order.tab tables.blanks a next
            let limb := keylim memory order.tab tables.blanks b next
            keycompareLoop tables library order memory a b keys
              (nextbeg memory order.tab tables.blanks a next lima, lima)
              (nextbeg memory order.tab tables.blanks b next limb, limb) := by
  rw [keycompareLoop.eq_def]
  dsimp only
  rw [isText, isText', keyOrder]
  by_cases different : keyDiff tables library key
      (keyText order.tab tables.blanks key first)
      (keyText order.tab tables.blanks key second) = 0
  · simp only [different, neg_zero, ite_self, ne_eq, not_true_eq_false, if_false]
  · have signed : (if key.reverse = true then
          -keyDiff tables library key
            (keyText order.tab tables.blanks key first)
            (keyText order.tab tables.blanks key second)
        else keyDiff tables library key
          (keyText order.tab tables.blanks key first)
          (keyText order.tab tables.blanks key second)) ≠ 0 := by
      split
      · exact neg_ne_zero.mpr different
      · exact different
    rw [if_pos different, if_pos signed]

/-- The loop over the keys compares the texts of the keys in turn. -/
theorem keycompareLoop_eq {key : Keyfield} {keys : List Keyfield}
    (place : Placed memory tables.blanks (key :: keys) a first)
    (place' : Placed memory tables.blanks (key :: keys) b second)
    {texta lima textb limb : Nat}
    (isText : text memory texta (max texta lima) =
      keyText order.tab tables.blanks key first)
    (isText' : text memory textb (max textb limb) =
      keyText order.tab tables.blanks key second) :
    keycompareLoop tables library order memory a b (key :: keys) (texta, lima)
        (textb, limb) =
      keysOrder tables library order (key :: keys) first second := by
  induction keys generalizing key texta lima textb limb with
  | nil =>
      rw [keycompareLoop_cons [] isText isText']
      rfl
  | cons next keys inductionHypothesis =>
      have small := place.tail.small next (List.mem_cons_self)
      have small' := place'.tail.small next (List.mem_cons_self)
      have later := inductionHypothesis place.tail place'.tail
        (nextKey_text place.holds small) (nextKey_text place'.holds small')
      rw [keycompareLoop_cons (next :: keys) isText isText']
      dsimp only
      rw [later]
      rfl

/-- `keycompare` is the order of the keys. -/
theorem keycompare_eq
    (place : Placed memory tables.blanks order.keylist a first)
    (place' : Placed memory tables.blanks order.keylist b second) :
    keycompare tables library order memory a b =
      keysOrder tables library order order.keylist first second := by
  rw [keycompare]
  match order.keylist, place, place' with
  | [], _, _ => rfl
  | key :: keys, place, place' =>
      exact keycompareLoop_eq place place'
        (firstKey_text place.holds (place.small key List.mem_cons_self)
          place.stops)
        (firstKey_text place'.holds (place'.small key List.mem_cons_self)
          place'.stops)

/-- `compare` is the order of the lines that are in memory. -/
theorem compare_eq_lineOrder
    (place : Placed memory tables.blanks order.keylist a first)
    (place' : Placed memory tables.blanks order.keylist b second) :
    SortCompare.compare tables library order memory a b =
      lineOrder tables library order first second := by
  rw [SortCompare.compare, keycompare_eq place place', place.holds.chars,
    place'.holds.chars, lineOrder, thenBy]
  by_cases noKeys : order.keylist = []
  · simp [noKeys, keysOrder]
  · by_cases different :
        keysOrder tables library order order.keylist first second = 0
    · by_cases only : order.unique = true ∨ order.stable = true
      · simp [noKeys, different, only]
      · simp [noKeys, different, only]
    · simp [noKeys, different]

/-- With the positions of the keys found in advance, skipped over and cut
short as they are, lines are compared by what their keys say and then as a
whole, and this is an order that the lines can be sorted by. -/
theorem compare_order (sound : library.Sound) :
    Comparison (lineOrder tables library order) ∧
      ∀ (memory : Memory) (a b : Line) (first second : Word),
        Placed memory tables.blanks order.keylist a first →
        Placed memory tables.blanks order.keylist b second →
        SortCompare.compare tables library order memory a b =
          lineOrder tables library order first second :=
  ⟨lineOrder_comparison sound, fun _ _ _ _ _ place place' =>
    compare_eq_lineOrder place place'⟩

end

/-- The tables of the C locale. -/
def tablesC : Tables :=
  Sort.tables ⟨Configuration.localeC, fun _ => false⟩

-- The C locale has no separator, yet the byte 255 is passed over.
example : findUnitOrder tablesC ['1', Char.ofNat 255, '2', 'K'] = 1 := by
  decide

/-- Words without digits, as the C locale compares them. -/
def plainLibrary : Library where
  strnumcmp _ _ := 0
  filevercmp := compareLists compareChars
  xmemcoll0 := compareLists compareChars
  strtold _ := none
  strxfrm := id
  md5 _ := List.replicate 16 nul

/-- This library behaves as documented. -/
theorem plainLibrary_sound : plainLibrary.Sound where
  strnumcmp := comparison_zero
  filevercmp := compareChars_comparison.lists
  xmemcoll0 := compareChars_comparison.lists
  md5 _ := rfl
  nan _ _ := nofun

/-- `-t: -k2` -/
def secondField : Order where
  keylist := [{ keyInit with sword := 1 }]
  reverse := false
  stable := false
  unique := false
  tab := some ':'

/-- Two lines, one behind the other. -/
def twoLines : Memory := fun address =>
  ("x:b".toList ++ nul :: "y:a".toList)[address]?.getD nul

theorem twoLines_small (line : Line) (inside : line.lim < 2 ^ 63) :
    ∀ key ∈ secondField.keylist, Small line key := by
  intro key isKey
  rw [List.mem_singleton.mp isKey]
  constructor <;> simp only [keyInit] <;> omega

/-- Two lines, compared by their second fields. -/
theorem compare_order_two :
    SortCompare.compare tablesC plainLibrary secondField twoLines ⟨0, 4⟩
        ⟨4, 4⟩ =
      lineOrder tablesC plainLibrary secondField "x:b".toList "y:a".toList :=
  (compare_order plainLibrary_sound).2 twoLines ⟨0, 4⟩ ⟨4, 4⟩ "x:b".toList
    "y:a".toList
    ⟨⟨rfl, rfl⟩, by decide, twoLines_small _ (by decide)⟩
    ⟨⟨rfl, rfl⟩, by decide, twoLines_small _ (by decide)⟩

end Lmcas.SortCompare
