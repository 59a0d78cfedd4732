import Lmcas.Lib.CString
import Mathlib.Data.List.DropRight

/-!
# Words in a shell

What a shell and the programs in its pipelines do to a text: the unquoted
expansion of a variable, `echo`, `awk -F:` and command substitution, with the
default `IFS`.
-/

namespace Lmcas.Lib.Shell

open Lmcas.Lib.CString

/-! ## Unquoted expansion -/

/-- The characters of the default `IFS`. -/
def isIfs (char : Char) : Bool :=
  char == ' ' || char == '\t' || char == '\n'

/-- Word splitting. -/
def split (text : Word) : List Word :=
  (text.splitOnP isIfs).filter fun word => !word.isEmpty

/-- A character that makes a word a pattern. -/
def isGlob (char : Char) : Bool :=
  char == '*' || char == '?' || char == '['

/-- An unquoted expansion; `pathnames` is what a pattern becomes in the
current directory. -/
def unquoted (pathnames : Word → List Word) (text : Word) : List Word :=
  (split text).flatMap fun word =>
    if word.any isGlob then pathnames word else [word]

/-! ## Programs in a pipeline -/

/-- The words that `echo` of the shell takes for options. -/
def isEchoOption : Word → Bool
  | '-' :: letter :: letters =>
      (letter :: letters).all fun char =>
        char == 'n' || char == 'e' || char == 'E'
  | _ => false

/-- The `echo` of the shell; `interpret` replaces the backslash escapes after
the option `-e`, which a later `-E` takes back. -/
def echo (interpret : Word → Word) (words : List Word) : Word :=
  let letters := (words.takeWhile isEchoOption).flatten
  let joined := [' '].intercalate (words.dropWhile isEchoOption)
  let text :=
    if (letters.filter fun char => char == 'e' || char == 'E').getLast? =
        some 'e' then
      interpret joined
    else joined
  if 'n' ∈ letters then text else text ++ ['\n']

/-- The records of a text; the last one may lack its newline. -/
def records (text : Word) : List Word :=
  let lines := text.splitOn '\n'
  if lines.getLast? = some [] then lines.dropLast else lines

/-- `awk -F: '\x7bprint $n\x7d'`. -/
def awkField (n : Nat) (text : Word) : Word :=
  (records text).flatMap fun record =>
    ((record.splitOn ':')[n - 1]?).getD [] ++ ['\n']

/-- Command substitution drops the newlines at the end. -/
def substitution (output : Word) : Word :=
  output.rdropWhile fun char => char == '\n'

/-! ## Splitting -/

/-- A front without separators goes to the first piece. -/
theorem splitOnP_append {label : Word}
    (noIfs : ∀ char ∈ label, isIfs char = false) (text : Word) :
    (label ++ text).splitOnP isIfs =
      (text.splitOnP isIfs).modifyHead (label ++ ·) := by
  induction label with
  | nil =>
      rw [List.nil_append]
      cases text.splitOnP isIfs <;> rfl
  | cons char label ih =>
      have following := ih fun other member =>
        noIfs other (List.mem_cons_of_mem _ member)
      rw [List.cons_append, List.splitOnP_cons_eq_if_modifyHead,
        noIfs char List.mem_cons_self, following]
      cases text.splitOnP isIfs <;> rfl

/-- A separator ends a word. -/
theorem split_append_cons {char : Char} (ifs : isIfs char)
    (front back : Word) :
    split (front ++ char :: back) = split front ++ split back := by
  rw [split, List.splitOnP_append_cons front back ifs, List.filter_append]
  rfl

/-- Text without separators is one word. -/
theorem split_of_noIfs {word : Word}
    (noIfs : ∀ char ∈ word, isIfs char = false) :
    split word = if word = [] then [] else [word] := by
  rw [split, List.splitOnP_eq_singleton noIfs]
  cases word <;> rfl

/-- Splitting keeps all characters but the separators. -/
theorem flatten_splitOnP (isSeparator : Char → Bool) (text : Word) :
    (text.splitOnP isSeparator).flatten =
      text.filter fun char => !isSeparator char := by
  induction text with
  | nil => rfl
  | cons char text ih =>
      rw [List.splitOnP_cons_eq_if_modifyHead]
      by_cases separates : isSeparator char
      · rw [if_pos separates]
        simpa [separates] using ih
      · rw [if_neg separates]
        cases pieces : text.splitOnP isSeparator with
        | nil => exact (List.splitOnP_ne_nil _ _ pieces).elim
        | cons piece others =>
            rw [pieces] at ih
            simpa [separates] using ih

theorem mem_of_mem_splitOnP {isSeparator : Char → Bool} {text piece : Word}
    {char : Char} (cut : piece ∈ text.splitOnP isSeparator)
    (member : char ∈ piece) :
    char ∈ text := by
  have inFlatten := List.mem_flatten.mpr ⟨piece, cut, member⟩
  rw [flatten_splitOnP] at inFlatten
  exact (List.mem_filter.mp inFlatten).1

theorem splitOnP_congr {isSeparator isSeparator' : Char → Bool} {text : Word}
    (same : ∀ char ∈ text, isSeparator char = isSeparator' char) :
    text.splitOnP isSeparator = text.splitOnP isSeparator' := by
  induction text with
  | nil => rfl
  | cons char text ih =>
      rw [List.splitOnP_cons_eq_if_modifyHead,
        List.splitOnP_cons_eq_if_modifyHead, same char List.mem_cons_self,
        ih fun other member => same other (List.mem_cons_of_mem _ member)]

/-- Splitting takes out the separators. -/
theorem flatten_split (text : Word) :
    (split text).flatten = text.filter fun char => !isIfs char := by
  have flatten (pieces : List Word) :
      (pieces.filter fun word => !word.isEmpty).flatten = pieces.flatten := by
    induction pieces with
    | nil => rfl
    | cons piece pieces ih =>
        cases piece with
        | nil => simpa using ih
        | cons char piece => simpa using ih
  rw [split, flatten, flatten_splitOnP]

theorem mem_of_mem_split {text word : Word} {char : Char}
    (inSplit : word ∈ split text) (member : char ∈ word) :
    char ∈ text :=
  mem_of_mem_splitOnP (List.mem_filter.mp inSplit).1 member

/-- Without patterns there is only word splitting. -/
theorem unquoted_of_noGlob {pathnames : Word → List Word} {text : Word}
    (noGlob : ∀ char ∈ text, isGlob char = false) :
    unquoted pathnames text = split text := by
  have single : ∀ word ∈ split text,
      (if word.any isGlob then pathnames word else [word]) = [word] := by
    intro word inSplit
    have clean : word.any isGlob = false := by
      rw [List.any_eq_false]
      intro char member
      simp [noGlob char (mem_of_mem_split inSplit member)]
    rw [clean]
    rfl
  rw [unquoted, List.flatMap_congr single]
  exact List.flatMap_singleton' _

/-! ## Collapsing the blanks -/

/-- The blanks in a text behind a word: one space for each run of them, and
none at the end. -/
def collapse (text : Word) : Word :=
  match text.splitOnP isIfs with
  | [] => []
  | piece :: pieces =>
      [' '].intercalate (piece :: pieces.filter fun word => !word.isEmpty)

/-- The words put together again are the text with its separators collapsed. -/
theorem intercalate_split {label : Word} (nonempty : label ≠ [])
    (noIfs : ∀ char ∈ label, isIfs char = false) (text : Word) :
    [' '].intercalate (split (label ++ text)) = label ++ collapse text := by
  rw [split, splitOnP_append noIfs, collapse]
  cases pieces : text.splitOnP isIfs with
  | nil => exact (List.splitOnP_ne_nil _ _ pieces).elim
  | cons piece others =>
      have kept : (label ++ piece).isEmpty = false := by
        simp [nonempty]
      simp only [List.modifyHead_cons, List.filter_cons, kept, Bool.not_false,
        if_true]
      cases others.filter fun word => !word.isEmpty with
      | nil => simp
      | cons next rest => simp [List.intercalate_cons_cons]

theorem collapse_nil : collapse [] = [] := rfl

/-- The pieces between the blanks, one space in front of each of them. -/
theorem collapse_eq {text piece : Word} {pieces : List Word}
    (cut : text.splitOnP isIfs = piece :: pieces) :
    collapse text =
      piece ++ (pieces.filter fun word => !word.isEmpty).flatMap (' ' :: ·) := by
  have joined (front : Word) (words : List Word) :
      [' '].intercalate (front :: words) = front ++ words.flatMap (' ' :: ·) := by
    induction words generalizing front with
    | nil => simp
    | cons word words ih => simp [List.intercalate_cons_cons, ih]
  rw [collapse, cut]
  exact joined _ _

/-- A blank is left out if another one follows, or nothing. -/
def dropped (char : Char) (rest : Word) : Prop :=
  isIfs char ∧ ∀ next ∈ rest.head?, isIfs next

theorem collapse_cons_of_noIfs {char : Char} (noIfs : isIfs char = false)
    (rest : Word) :
    collapse (char :: rest) = char :: collapse rest := by
  cases pieces : rest.splitOnP isIfs with
  | nil => exact (List.splitOnP_ne_nil _ _ pieces).elim
  | cons piece others =>
      have cut : (char :: rest).splitOnP isIfs = (char :: piece) :: others := by
        rw [List.splitOnP_cons_eq_if_modifyHead, noIfs, pieces]
        rfl
      rw [collapse_eq cut, collapse_eq pieces]
      rfl

/-- What the first piece of a text says about its first character. -/
theorem head_of_splitOnP {text piece : Word} {pieces : List Word}
    (cut : text.splitOnP isIfs = piece :: pieces) :
    piece = [] ↔ ∀ next ∈ text.head?, isIfs next := by
  cases text with
  | nil =>
      rw [List.splitOnP_nil] at cut
      simp [(List.cons.inj cut).1.symm]
  | cons char rest =>
      rw [List.splitOnP_cons_eq_if_modifyHead] at cut
      by_cases ifs : isIfs char
      · rw [if_pos ifs] at cut
        simp [(List.cons.inj cut).1.symm, ifs]
      · rw [if_neg ifs] at cut
        cases pieces' : rest.splitOnP isIfs with
        | nil => exact (List.splitOnP_ne_nil _ _ pieces').elim
        | cons front others =>
            rw [pieces', List.modifyHead_cons] at cut
            simp [(List.cons.inj cut).1.symm, ifs]

/-- A separator is dropped or becomes a blank. -/
theorem collapse_cons_of_ifs {char : Char} (ifs : isIfs char) (rest : Word) :
    (dropped char rest ∧ collapse (char :: rest) = collapse rest) ∨
      (¬ dropped char rest ∧ collapse (char :: rest) = ' ' :: collapse rest) := by
  cases pieces : rest.splitOnP isIfs with
  | nil => exact (List.splitOnP_ne_nil _ _ pieces).elim
  | cons piece others =>
      have cut : (char :: rest).splitOnP isIfs = [] :: piece :: others := by
        rw [List.splitOnP_cons_eq_if_modifyHead, if_pos ifs, pieces]
      rw [collapse_eq cut, collapse_eq pieces, dropped,
        ← head_of_splitOnP pieces]
      cases piece with
      | nil => exact .inl ⟨⟨ifs, rfl⟩, rfl⟩
      | cons first piece =>
          exact .inr ⟨fun drop => List.cons_ne_nil _ _ drop.2, rfl⟩

theorem length_collapse_le (text : Word) :
    (collapse text).length ≤ text.length := by
  induction text with
  | nil => exact Nat.le_refl 0
  | cons char rest ih =>
      by_cases ifs : isIfs char
      · rcases collapse_cons_of_ifs ifs rest with ⟨-, same⟩ | ⟨-, kept⟩
        · rw [same]
          exact Nat.le_succ_of_le ih
        · rw [kept]
          exact Nat.succ_le_succ ih
      · rw [collapse_cons_of_noIfs (by simpa using ifs)]
        exact Nat.succ_le_succ ih

/-- Every blank is a single space that something else follows. -/
def Collapsed : Word → Prop
  | [] => True
  | char :: rest =>
      (isIfs char → char = ' ' ∧ ∃ next ∈ rest.head?, isIfs next = false) ∧
        Collapsed rest

/-- Only collapsed text is left alone. -/
theorem collapse_eq_self_iff {text : Word} :
    collapse text = text ↔ Collapsed text := by
  induction text with
  | nil => simp [collapse_nil, Collapsed]
  | cons char rest ih =>
      rw [Collapsed, ← ih]
      by_cases ifs : isIfs char
      · rcases collapse_cons_of_ifs ifs rest with ⟨drop, same⟩ | ⟨keep, kept⟩
        · have shorter : collapse rest ≠ char :: rest := by
            intro equal
            have bound := length_collapse_le rest
            rw [equal] at bound
            exact Nat.not_succ_le_self _ bound
          have nothing : ¬ ∃ next ∈ rest.head?, isIfs next = false := by
            rintro ⟨next, member, noIfs⟩
            rw [drop.2 next member] at noIfs
            exact Bool.noConfusion noIfs
          rw [same]
          constructor
          · intro equal
            exact (shorter equal).elim
          · intro single
            exact (nothing (single.1 ifs).2).elim
        · have something : ∃ next ∈ rest.head?, isIfs next = false := by
            simp only [dropped, not_and, not_forall] at keep
            rcases keep ifs with ⟨next, member, noIfs⟩
            exact ⟨next, member, by simpa using noIfs⟩
          rw [kept, List.cons.injEq]
          constructor
          · rintro ⟨rfl, equal⟩
            exact ⟨fun _ => ⟨rfl, something⟩, equal⟩
          · rintro ⟨single, equal⟩
            exact ⟨(single ifs).1.symm, equal⟩
      · have noIfs : isIfs char = false := by simpa using ifs
        rw [collapse_cons_of_noIfs noIfs, List.cons.injEq]
        simp [noIfs]

/-- A piece has no separator in it. -/
theorem noIfs_of_mem_splitOnP {text piece : Word}
    (member : piece ∈ text.splitOnP isIfs) :
    ∀ char ∈ piece, isIfs char = false := by
  induction text generalizing piece with
  | nil =>
      rw [List.splitOnP_nil, List.mem_singleton] at member
      simp [member]
  | cons first rest ih =>
      rw [List.splitOnP_cons_eq_if_modifyHead] at member
      by_cases ifs : isIfs first
      · rw [if_pos ifs, List.mem_cons] at member
        rcases member with rfl | inRest
        · simp
        · exact ih inRest
      · rw [if_neg ifs] at member
        cases pieces : rest.splitOnP isIfs with
        | nil => exact (List.splitOnP_ne_nil _ _ pieces).elim
        | cons front others =>
            rw [pieces] at ih
            rw [pieces, List.modifyHead_cons, List.mem_cons] at member
            rcases member with rfl | inOthers
            · intro char inPiece
              rcases List.mem_cons.mp inPiece with rfl | inFront
              · simpa using ifs
              · exact ih List.mem_cons_self char inFront
            · exact ih (List.mem_cons_of_mem _ inOthers)

/-- Words with a space in front of each of them. -/
theorem split_append_flatMap {front : Word} {words : List Word}
    (noIfsFront : ∀ char ∈ front, isIfs char = false)
    (noIfs : ∀ word ∈ words, ∀ char ∈ word, isIfs char = false) :
    split (front ++ words.flatMap (' ' :: ·)) =
      (front :: words).filter fun word => !word.isEmpty := by
  induction words generalizing front with
  | nil =>
      rw [List.flatMap_nil, List.append_nil, split_of_noIfs noIfsFront]
      cases front <;> rfl
  | cons word words ih =>
      have following := ih (noIfs word List.mem_cons_self) fun other member =>
        noIfs other (List.mem_cons_of_mem _ member)
      rw [List.flatMap_cons, List.cons_append, split_append_cons (by decide),
        following, split_of_noIfs noIfsFront]
      cases front <;> rfl

/-- Collapsing the blanks changes no word. -/
theorem split_collapse (text : Word) :
    split (collapse text) = split text := by
  cases pieces : text.splitOnP isIfs with
  | nil => exact (List.splitOnP_ne_nil _ _ pieces).elim
  | cons piece others =>
      have noIfs : ∀ word ∈ piece :: others, ∀ char ∈ word,
          isIfs char = false := by
        rw [← pieces]
        exact fun word => noIfs_of_mem_splitOnP
      have noIfsOthers : ∀ word ∈ others.filter fun word => !word.isEmpty,
          ∀ char ∈ word, isIfs char = false := fun word member =>
        noIfs word (List.mem_cons_of_mem _ (List.mem_filter.mp member).1)
      rw [collapse_eq pieces,
        split_append_flatMap (noIfs piece List.mem_cons_self) noIfsOthers,
        split, pieces, List.filter_cons, List.filter_cons, List.filter_filter]
      simp

/-! ## Programs on one line -/

/-- Without options `echo` prints its words. -/
theorem echo_of_noOption {interpret : Word → Word} {words : List Word}
    (noOption : ∀ word ∈ words.head?, isEchoOption word = false) :
    echo interpret words = [' '].intercalate words ++ ['\n'] := by
  cases words with
  | nil => rfl
  | cons word words =>
      have stays := noOption word rfl
      simp [echo, stays]

/-- One line is one record. -/
theorem records_line {line : Word} (oneLine : '\n' ∉ line) :
    records (line ++ ['\n']) = [line] := by
  rw [records, List.splitOn_append_cons_self_of_not_mem oneLine]
  rfl

/-- One field of one line, as a command substitution has it. -/
theorem substitution_awkField {n : Nat} {line : Word}
    (oneLine : '\n' ∉ line) :
    substitution (awkField n (line ++ ['\n'])) =
      ((line.splitOn ':')[n - 1]?).getD [] := by
  rw [awkField, records_line oneLine, List.flatMap_singleton, substitution,
    List.rdropWhile_concat_pos _ _ _ (by decide),
    List.rdropWhile_eq_self_iff]
  intro nonempty newline
  have atEnd := List.getLast_mem nonempty
  rw [beq_iff_eq.mp newline] at atEnd
  cases found : (line.splitOn ':')[n - 1]? with
  | none =>
      rw [found] at atEnd
      exact List.not_mem_nil atEnd
  | some field =>
      rw [found] at atEnd
      exact oneLine
        (mem_of_mem_splitOnP (List.mem_of_getElem? found) atEnd)

theorem getElem?_zero_splitOn (separator : Char) (text : Word) :
    (text.splitOn separator)[0]? =
      some (text.takeWhile fun char => char != separator) := by
  induction text with
  | nil => rfl
  | cons char text ih =>
      rw [List.splitOn_cons_eq_if_modifyHead]
      by_cases same : char = separator
      · simp [same]
      · cases pieces : text.splitOn separator with
        | nil => exact (List.splitOn_ne_nil _ _ pieces).elim
        | cons piece others =>
            rw [pieces] at ih
            simpa [same] using ih

end Lmcas.Lib.Shell
