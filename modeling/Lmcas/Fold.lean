import Mathlib.Data.List.Infix
import Lmcas.Lib.CString

/-!
# `fold`

`fold_file` of `fold.c`.  A line is collected until a character would end
beyond the width; then it is broken, in front of that character or behind its
last blank, and the character is looked at again.
-/

namespace Lmcas.Fold

open Lmcas.Lib.CString

/-- `TAB_WIDTH` -/
def tabWidth : Nat := 8

/-- The static variables, and what the locale says about blanks.  `main` sees
to it that the width is positive and a column behind it is no overflow. -/
structure Options where
  width : Nat
  countBytes : Bool
  breakSpaces : Bool
  isblank : Char → Bool

/-- `adjust_column`. -/
def adjustColumn (countBytes : Bool) (column : Nat) (c : Char) : Nat :=
  if countBytes then column + 1
  else if c = '\x08' then column - 1
  else if c = '\r' then 0
  else if c = '\t' then column + (tabWidth - column % tabWidth)
  else column + 1

/-- What has been written, and `line_out` with its column. -/
structure Folding where
  out : Word
  lineOut : Word
  column : Nat
deriving DecidableEq, Repr

/-- The last blank in front of `logicalEnd`. -/
def lastBlank (isblank : Char → Bool) (lineOut : Word) : Nat → Option Nat
  | 0 => none
  | logicalEnd + 1 =>
      if lineOut[logicalEnd]?.any isblank then some logicalEnd
      else lastBlank isblank lineOut logicalEnd

/-- The blank that is found is in the part that was searched. -/
theorem lastBlank_lt {isblank : Char → Bool} {lineOut : Word} {n blank : Nat}
    (found : lastBlank isblank lineOut n = some blank) : blank < n := by
  induction n with
  | zero => cases found
  | succ n inductionHypothesis =>
      rw [lastBlank] at found
      split at found
      · cases found
        exact Nat.lt_succ_self _
      · exact Nat.lt_succ_of_lt (inductionHypothesis found)

section

variable (options : Options)

/-- `for (column = i = 0; i < offset_out; i++)` -/
def columnOf (line : Word) : Nat :=
  line.foldl (adjustColumn options.countBytes) 0

/-- Where a line is broken that has become too long: behind the blank, or
nowhere. -/
def breakPlace (lineOut : Word) : Option Nat :=
  if options.breakSpaces then
    (lastBlank options.isblank lineOut lineOut.length).map (· + 1)
  else none

/-- A line put out up to a place. -/
def Folding.breakAt (folding : Folding) (logicalEnd : Nat) : Folding where
  out := folding.out ++ folding.lineOut.take logicalEnd ++ ['\n']
  lineOut := folding.lineOut.drop logicalEnd
  column := columnOf options (folding.lineOut.drop logicalEnd)

/-- What is behind the break stays to be written. -/
@[simp]
theorem Folding.breakAt_lineOut (folding : Folding) (logicalEnd : Nat) :
    (folding.breakAt options logicalEnd).lineOut =
      folding.lineOut.drop logicalEnd :=
  rfl

/-- The place of a break is inside the line and not at its front. -/
theorem breakPlace_spec {lineOut : Word} {logicalEnd : Nat}
    (found : breakPlace options lineOut = some logicalEnd) :
    0 < logicalEnd ∧ logicalEnd ≤ lineOut.length := by
  rw [breakPlace] at found
  split at found
  · obtain ⟨blank, isBlank, rfl⟩ := Option.map_eq_some_iff.mp found
    exact ⟨Nat.succ_pos _, lastBlank_lt isBlank⟩
  · cases found

/-- From the label `rescan` on. -/
def rescan (c : Char) (folding : Folding) : Folding :=
  let column := adjustColumn options.countBytes folding.column c
  if column ≤ options.width then
    { folding with lineOut := folding.lineOut ++ [c], column }
  else
    match _found : breakPlace options folding.lineOut with
    | some logicalEnd => rescan c (folding.breakAt options logicalEnd)
    | none =>
        if _first : folding.lineOut = [] then
          { folding with lineOut := [c], column }
        else rescan c (folding.breakAt options folding.lineOut.length)
termination_by folding.lineOut.length
decreasing_by
  · obtain ⟨positive, inside⟩ := breakPlace_spec options _found
    rw [Folding.breakAt, List.length_drop]
    omega
  · have measured := List.length_pos_iff.mpr _first
    rw [Folding.breakAt, List.length_drop]
    omega

/-- The loop body. -/
def foldChar (folding : Folding) (c : Char) : Folding :=
  if c = '\n' then ⟨folding.out ++ folding.lineOut ++ ['\n'], [], 0⟩
  else rescan options c folding

/-- What `fold_file` puts out. -/
def foldFile (text : Word) : Word :=
  let folding := text.foldl (foldChar options) ⟨[], [], 0⟩
  folding.out ++ folding.lineOut

/-! ## Folded lines -/

/-- No character but the first one ends beyond the width. -/
def Fits (piece : Word) : Prop :=
  ∀ n, 2 ≤ n → n ≤ piece.length → columnOf options (piece.take n) ≤ options.width

/-- A line that goes on with `rest` is too long up to some character.  Without
`-s` that one is the next; with `-s` there is no blank between it and the break,
and the break is behind a blank if there is one at all. -/
def BreakAt (piece rest : Word) : Prop :=
  ∃ between c, between ++ [c] <+: rest ∧
    options.width < columnOf options (piece ++ between ++ [c]) ∧
    (between = [] ∧ (options.breakSpaces = true →
        ∀ d ∈ piece, options.isblank d = false) ∨
      options.breakSpaces = true ∧ (∃ blank ∈ piece.getLast?,
        options.isblank blank = true) ∧
      ∀ d ∈ between, options.isblank d = false)

/-- Every break is called for. -/
def Breaks : List Word → Word → Prop
  | [], _ => True
  | piece :: pieces, last =>
      BreakAt options piece (pieces.flatten ++ last) ∧ Breaks pieces last

/-- Pieces, each with a newline. -/
def broken (pieces : List Word) : Word :=
  (pieces.map (· ++ ['\n'])).flatten

/-- A line, and the pieces into which it is folded. -/
structure FoldedLine where
  pieces : List Word
  last : Word
  noNewline : '\n' ∉ pieces.flatten ++ last
  nonempty : [] ∉ pieces
  someLast : last = [] → pieces = []
  fits : ∀ piece ∈ last :: pieces, Fits options piece
  breaks : Breaks options pieces last

end

namespace FoldedLine

variable {options : Options}

/-- The line that was folded. -/
def line (folded : FoldedLine options) : Word :=
  folded.pieces.flatten ++ folded.last

/-- The line as it is written, with its breaks. -/
def output (folded : FoldedLine options) : Word :=
  broken folded.pieces ++ folded.last

end FoldedLine

/-! ## Columns -/

/-- A character keeps the order of the columns. -/
theorem adjustColumn_le {countBytes : Bool} {column column' : Nat}
    (le : column ≤ column') (c : Char) :
    adjustColumn countBytes column c ≤ adjustColumn countBytes column' c := by
  unfold adjustColumn tabWidth
  split_ifs <;> omega

section

variable {options : Options}

/-- So does a text. -/
theorem foldl_adjustColumn_le (line : Word) {column column' : Nat}
    (le : column ≤ column') :
    line.foldl (adjustColumn options.countBytes) column ≤
      line.foldl (adjustColumn options.countBytes) column' := by
  induction line generalizing column column' with
  | nil => exact le
  | cons c line inductionHypothesis =>
      exact inductionHypothesis (adjustColumn_le le c)

/-- The column behind a text is that of its last character. -/
theorem columnOf_concat (line : Word) (c : Char) :
    columnOf options (line ++ [c]) =
      adjustColumn options.countBytes (columnOf options line) c := by
  rw [columnOf, List.foldl_concat, columnOf]

/-- A line that begins later does not reach as far. -/
theorem columnOf_drop_le (line : Word) (n : Nat) :
    columnOf options (line.drop n) ≤ columnOf options line := by
  have both : columnOf options line = (line.drop n).foldl
      (adjustColumn options.countBytes) (columnOf options (line.take n)) := by
    rw [columnOf, columnOf, ← List.foldl_append, List.take_append_drop]
  rw [both]
  exact foldl_adjustColumn_le _ (Nat.zero_le _)

/-- A single character fits however wide it is. -/
theorem fits_of_short {piece : Word} (short : piece.length < 2) :
    Fits options piece := by
  intro n several inside
  omega

/-- The front of a piece that fits does too. -/
theorem Fits.take {piece : Word} (fits : Fits options piece) (k : Nat) :
    Fits options (piece.take k) := by
  intro n several inside
  rw [List.length_take] at inside
  rw [List.take_take, Nat.min_eq_left (by omega)]
  exact fits n several (by omega)

/-- So does its end, which begins at an earlier column. -/
theorem Fits.drop {piece : Word} (fits : Fits options piece) (k : Nat) :
    Fits options (piece.drop k) := by
  intro n several inside
  rw [List.length_drop] at inside
  rw [List.take_drop]
  exact (columnOf_drop_le _ k).trans (fits (k + n) (by omega) (by omega))

/-- A character that ends inside the width may be added. -/
theorem Fits.concat {piece : Word} (fits : Fits options piece) {c : Char}
    (inside : columnOf options (piece ++ [c]) ≤ options.width) :
    Fits options (piece ++ [c]) := by
  intro n several most
  by_cases short : n ≤ piece.length
  · rw [List.take_append_of_le_length short]
    exact fits n several short
  · rw [List.length_append, List.length_singleton] at most
    rw [List.take_of_length_le (by
      rw [List.length_append, List.length_singleton]; omega)]
    exact inside

/-! ## Breaks -/

/-- No blank stands behind the one that is found. -/
theorem lastBlank_some {isblank : Char → Bool} {lineOut : Word} {n blank : Nat}
    (found : lastBlank isblank lineOut n = some blank) :
    (lineOut[blank]?.any isblank) = true ∧
      ∀ j, blank < j → j < n → (lineOut[j]?.any isblank) = false := by
  induction n with
  | zero => cases found
  | succ n inductionHypothesis =>
      rw [lastBlank] at found
      split at found
      next here =>
        obtain rfl := Option.some.inj found
        exact ⟨here, fun j more less => by omega⟩
      next other =>
        obtain ⟨isBlank, clean⟩ := inductionHypothesis found
        refine ⟨isBlank, fun j more less => ?_⟩
        by_cases same : j = n
        · rw [same]
          exact Bool.eq_false_iff.mpr other
        · exact clean j more (by omega)

/-- If none is found there is none. -/
theorem lastBlank_none {isblank : Char → Bool} {lineOut : Word} {n : Nat}
    (notFound : lastBlank isblank lineOut n = none) :
    ∀ j < n, (lineOut[j]?.any isblank) = false := by
  induction n with
  | zero => exact fun j less => absurd less (Nat.not_lt_zero j)
  | succ n inductionHypothesis =>
      rw [lastBlank] at notFound
      split at notFound
      next => cases notFound
      next other =>
        intro j less
        by_cases same : j = n
        · rw [same]
          exact Bool.eq_false_iff.mpr other
        · exact inductionHypothesis notFound j (by omega)

/-- Behind the last blank of a line. -/
theorem breakPlace_some {lineOut : Word} {logicalEnd : Nat}
    (found : breakPlace options lineOut = some logicalEnd) :
    options.breakSpaces = true ∧
      (∃ blank ∈ (lineOut.take logicalEnd).getLast?,
        options.isblank blank = true) ∧
      ∀ d ∈ lineOut.drop logicalEnd, options.isblank d = false := by
  rw [breakPlace] at found
  split at found
  next spaces =>
    obtain ⟨blank, isLast, rfl⟩ := Option.map_eq_some_iff.mp found
    obtain ⟨isBlank, clean⟩ := lastBlank_some isLast
    have inside := lastBlank_lt isLast
    refine ⟨spaces, ⟨lineOut[blank], ?_, ?_⟩, fun d behind => ?_⟩
    · rw [List.take_add_one, List.getElem?_eq_getElem inside]
      exact List.getLast?_concat
    · rwa [List.getElem?_eq_getElem inside] at isBlank
    · obtain ⟨i, within, rfl⟩ := List.mem_iff_getElem.mp behind
      rw [List.length_drop] at within
      have isClean := clean (blank + 1 + i) (by omega) (by omega)
      rw [List.getElem?_eq_getElem (by omega)] at isClean
      rwa [List.getElem_drop]
  next => cases found

/-- Where `-s` finds no place the line has no blank. -/
theorem breakPlace_none {lineOut : Word}
    (notFound : breakPlace options lineOut = none)
    (spaces : options.breakSpaces = true) :
    ∀ d ∈ lineOut, options.isblank d = false := by
  rw [breakPlace, if_pos spaces, Option.map_eq_none_iff] at notFound
  intro d inside
  obtain ⟨i, within, rfl⟩ := List.mem_iff_getElem.mp inside
  have isClean := lastBlank_none notFound i within
  rwa [List.getElem?_eq_getElem within] at isClean

/-- A break needs only the character behind it. -/
theorem BreakAt.append {piece rest : Word} (breakAt : BreakAt options piece rest)
    (more : Word) : BreakAt options piece (rest ++ more) := by
  obtain ⟨between, c, begins, beyond⟩ := breakAt
  exact ⟨between, c, begins.trans (List.prefix_append _ _), beyond⟩

/-- What follows the last piece does not move the breaks. -/
theorem Breaks.append {pieces : List Word} {last : Word}
    (breaks : Breaks options pieces last) (more : Word) :
    Breaks options pieces (last ++ more) := by
  induction pieces with
  | nil => trivial
  | cons piece pieces inductionHypothesis =>
      obtain ⟨first, others⟩ := breaks
      refine ⟨?_, inductionHypothesis others⟩
      rw [← List.append_assoc]
      exact first.append more

/-- The last piece is broken off. -/
theorem Breaks.concat {pieces : List Word} {piece last : Word}
    (breaks : Breaks options pieces (piece ++ last))
    (breakAt : BreakAt options piece last) :
    Breaks options (pieces ++ [piece]) last := by
  induction pieces with
  | nil => exact ⟨breakAt, trivial⟩
  | cons first pieces inductionHypothesis =>
      obtain ⟨begins, others⟩ := breaks
      have same : (pieces ++ [piece]).flatten ++ last =
          pieces.flatten ++ (piece ++ last) := by
        rw [List.flatten_append, List.flatten_singleton, List.append_assoc]
      exact ⟨same ▸ begins, inductionHypothesis others⟩

/-! ## Folding -/

/-- The line so far, with the pieces of it that have been put out; `behind` is
looked at next. -/
structure Held (options : Options) (start : Word) (pieces : List Word) (behind : Word)
    (folding : Folding) : Prop where
  out : folding.out = start ++ broken pieces
  column : folding.column = columnOf options folding.lineOut
  nonempty : [] ∉ pieces
  fits : ∀ piece ∈ folding.lineOut :: pieces, Fits options piece
  breaks : Breaks options pieces (folding.lineOut ++ behind)

/-- The breaks of two lists of pieces. -/
theorem broken_append (pieces pieces' : List Word) :
    broken (pieces ++ pieces') = broken pieces ++ broken pieces' := by
  rw [broken, List.map_append, List.flatten_append, broken, broken]

/-- One piece ends in one break. -/
theorem broken_singleton (piece : Word) : broken [piece] = piece ++ ['\n'] :=
  List.append_nil _

/-- A break keeps what is known of the line. -/
theorem Held.breakAt {start behind : Word} {pieces : List Word}
    {folding : Folding}
    (held : Held options start pieces behind folding)
    {logicalEnd : Nat} (positive : 0 < logicalEnd)
    (inside : logicalEnd ≤ folding.lineOut.length)
    (breakAt : BreakAt options (folding.lineOut.take logicalEnd)
      (folding.lineOut.drop logicalEnd ++ behind)) :
    Held options start
      (pieces ++ [folding.lineOut.take logicalEnd]) behind
      (folding.breakAt options logicalEnd) := by
  obtain ⟨out, -, nonempty, fits, breaks⟩ := held
  have fitsLine : Fits options folding.lineOut :=
    fits _ List.mem_cons_self
  refine ⟨?_, rfl, ?_, ?_, ?_⟩
  · rw [Folding.breakAt, broken_append, broken_singleton, out]
    simp only [List.append_assoc]
  · rw [List.mem_append, List.mem_singleton, not_or]
    refine ⟨nonempty, fun isNil => ?_⟩
    have lengths := congrArg List.length isNil
    rw [List.length_nil, List.length_take_of_le inside] at lengths
    omega
  · intro piece isPiece
    rcases List.mem_cons.mp isPiece with rfl | isPiece
    · exact fitsLine.drop logicalEnd
    · rcases List.mem_append.mp isPiece with isPiece | isPiece
      · exact fits piece (List.mem_cons_of_mem _ isPiece)
      · rw [List.mem_singleton.mp isPiece]
        exact fitsLine.take logicalEnd
  · refine Breaks.concat ?_ breakAt
    rw [Folding.breakAt_lineOut, ← List.append_assoc, List.take_append_drop]
    exact breaks

/-- So does a character, after the breaks that it makes. -/
theorem rescan_held {start : Word} {pieces : List Word} {c : Char}
    {folding : Folding}
    (held : Held options start pieces [c] folding) :
    (rescan options c folding).lineOut ≠ [] ∧
      ∃ pieces', Held options start pieces' []
          (rescan options c folding) ∧
        pieces'.flatten ++ (rescan options c folding).lineOut =
          pieces.flatten ++ (folding.lineOut ++ [c]) := by
  induction length : folding.lineOut.length using Nat.strong_induction_on
    generalizing pieces folding with
  | _ _ inductionHypothesis =>
      have column : adjustColumn options.countBytes folding.column c =
          columnOf options (folding.lineOut ++ [c]) := by
        rw [held.column, columnOf_concat]
      have again {logicalEnd : Nat} (positive : 0 < logicalEnd)
          (inside : logicalEnd ≤ folding.lineOut.length)
          (breakAt : BreakAt options (folding.lineOut.take logicalEnd)
            (folding.lineOut.drop logicalEnd ++ [c])) := by
        have shorter :
            (folding.breakAt options logicalEnd).lineOut.length < _ :=
          calc (folding.breakAt options logicalEnd).lineOut.length
              _ = folding.lineOut.length - logicalEnd := List.length_drop
              _ < folding.lineOut.length := by omega
        exact inductionHypothesis _ (length ▸ shorter)
          (held.breakAt positive inside breakAt) rfl
      have same {logicalEnd : Nat} :
          (pieces ++ [folding.lineOut.take logicalEnd]).flatten ++
              (folding.lineOut.drop logicalEnd ++ [c]) =
            pieces.flatten ++ (folding.lineOut ++ [c]) := by
        rw [List.flatten_append, List.flatten_singleton, List.append_assoc,
          ← List.append_assoc (folding.lineOut.take _), List.take_append_drop]
      rw [rescan]
      split
      next short =>
        refine ⟨List.append_ne_nil_of_right_ne_nil _ (List.cons_ne_nil _ _),
          pieces, ⟨held.out, column, held.nonempty, fun piece isPiece => ?_, ?_⟩,
          rfl⟩
        · rcases List.mem_cons.mp isPiece with rfl | isPiece
          · exact (held.fits _ List.mem_cons_self).concat (column ▸ short)
          · exact held.fits piece (List.mem_cons_of_mem _ isPiece)
        · rw [List.append_nil]
          exact held.breaks
      next long =>
        rw [column, Nat.not_le] at long
        split
        next logicalEnd found =>
          obtain ⟨positive, inside⟩ := breakPlace_spec options found
          obtain ⟨spaces, ended, clean⟩ := breakPlace_some found
          obtain ⟨nonempty, pieces', held', text⟩ := again positive inside
            ⟨folding.lineOut.drop logicalEnd, c, List.prefix_rfl,
              by rwa [List.take_append_drop], .inr ⟨spaces, ended, clean⟩⟩
          exact ⟨nonempty, pieces', held', text.trans same⟩
        next notFound =>
          split
          next first =>
            refine ⟨List.cons_ne_nil _ _, pieces,
              ⟨held.out, ?_, held.nonempty, fun piece isPiece => ?_, ?_⟩, ?_⟩
            · rw [column, first]
              rfl
            · rcases List.mem_cons.mp isPiece with rfl | isPiece
              · exact fits_of_short Nat.one_lt_two
              · exact held.fits piece (List.mem_cons_of_mem _ isPiece)
            · have breaks := held.breaks
              rw [first] at breaks
              exact breaks
            · rw [first]
              rfl
          next more =>
            obtain ⟨nonempty, pieces', held', text⟩ := again
              (List.length_pos_iff.mpr more) le_rfl
              ⟨[], c, by rw [List.drop_length],
                by rwa [List.take_length, List.append_nil],
                .inl ⟨rfl, by
                  rw [List.take_length]
                  exact breakPlace_none notFound⟩⟩
            exact ⟨nonempty, pieces', held', text.trans same⟩

/-- So do all characters of a line. -/
theorem foldl_held {start : Word} {pieces : List Word} {folding : Folding}
    (held : Held options start pieces [] folding)
    (someLast : folding.lineOut = [] → pieces = []) {line : Word}
    (clean : '\n' ∉ line) :
    ∃ pieces', Held options start pieces' []
        (line.foldl (foldChar options) folding) ∧
      ((line.foldl (foldChar options) folding).lineOut = [] → pieces' = []) ∧
      pieces'.flatten ++ (line.foldl (foldChar options) folding).lineOut =
        pieces.flatten ++ folding.lineOut ++ line := by
  induction line generalizing pieces folding with
  | nil => exact ⟨pieces, held, someLast, (List.append_nil _).symm⟩
  | cons c line inductionHypothesis =>
      rw [List.mem_cons, not_or] at clean
      have next : Held options start pieces [c] folding :=
        ⟨held.out, held.column, held.nonempty, held.fits,
          (List.append_nil folding.lineOut ▸ held.breaks).append [c]⟩
      obtain ⟨nonempty, pieces', held', text⟩ := rescan_held next
      obtain ⟨pieces'', held'', someLast'', text'⟩ :=
        inductionHypothesis held' (fun isNil => absurd isNil nonempty) clean.2
      rw [List.foldl_cons, foldChar, if_neg (Ne.symm clean.1)]
      refine ⟨pieces'', held'', someLast'', ?_⟩
      rw [text', text]
      simp only [List.append_assoc, List.singleton_append]

/-- At the beginning of a line. -/
def atLineStart (start : Word) : Folding :=
  ⟨start, [], 0⟩

/-- A line is folded into pieces that are as `FoldedLine` says. -/
theorem foldl_line (start : Word) {line : Word} (clean : '\n' ∉ line) :
    ∃ folded : FoldedLine options, folded.line = line ∧
      (line.foldl (foldChar options) (atLineStart start)).out ++
        (line.foldl (foldChar options) (atLineStart start)).lineOut =
          start ++ folded.output := by
  have begins : Held options start [] [] (atLineStart start) :=
    ⟨(List.append_nil start).symm, rfl, List.not_mem_nil,
      fun piece isPiece => by
        rw [List.mem_singleton.mp isPiece]
        exact fits_of_short Nat.zero_lt_two,
      trivial⟩
  obtain ⟨pieces, held, someLast, text⟩ := foldl_held begins (fun _ => rfl) clean
  have text' : pieces.flatten ++
      (line.foldl (foldChar options) (atLineStart start)).lineOut = line := text
  have breaks := held.breaks
  rw [List.append_nil] at breaks
  refine ⟨⟨pieces, _, by rwa [text'], held.nonempty, someLast, held.fits,
    breaks⟩, text', ?_⟩
  rw [held.out, FoldedLine.output, List.append_assoc]

/-- A newline writes the line and starts over. -/
theorem foldl_newline (folding : Folding) :
    foldChar options folding '\n' =
      atLineStart (folding.out ++ folding.lineOut ++ ['\n']) :=
  if_pos rfl

/-- A text is folded line by line. -/
theorem foldl_text (start text : Word) :
    ∃ (lines : List (FoldedLine options)) (rest : FoldedLine options),
      text = (lines.map (·.line ++ ['\n'])).flatten ++ rest.line ∧
      (text.foldl (foldChar options) (atLineStart start)).out ++
        (text.foldl (foldChar options) (atLineStart start)).lineOut =
          start ++ ((lines.map (·.output ++ ['\n'])).flatten ++
            rest.output) := by
  induction length : text.length using Nat.strong_induction_on
    generalizing start text with
  | _ _ inductionHypothesis =>
      by_cases newline : '\n' ∈ text
      · obtain ⟨line, text', rfl, clean⟩ := List.eq_append_cons_of_mem newline
        obtain ⟨folded, isLine, output⟩ := @foldl_line options start _
          clean
        rw [List.length_append, List.length_cons] at length
        obtain ⟨lines, rest, same, written⟩ := inductionHypothesis _ (by omega)
          (start ++ folded.output ++ ['\n']) text' rfl
        refine ⟨folded :: lines, rest, ?_, ?_⟩
        · rw [List.map_cons, List.flatten_cons, isLine, same]
          simp only [List.append_assoc, List.cons_append, List.nil_append]
        · rw [List.foldl_append, List.foldl_cons, foldl_newline, output, written]
          simp only [List.map_cons, List.flatten_cons, List.append_assoc]
      · obtain ⟨folded, isLine, output⟩ := @foldl_line options start _
          newline
        exact ⟨[], folded, isLine.symm, output⟩

/-- The text is put out with a newline at every break; in each line the breaks
are such that no character but the first behind a break ends beyond the width,
and every one of them is called for. -/
theorem fold_file (options : Options) (text : Word) :
    ∃ (lines : List (FoldedLine options)) (rest : FoldedLine options),
      text = (lines.map (·.line ++ ['\n'])).flatten ++ rest.line ∧
      foldFile options text =
        (lines.map (·.output ++ ['\n'])).flatten ++ rest.output :=
  foldl_text [] text

/-! ## Folded text -/

/-- An empty line has no place for a break. -/
theorem breakPlace_nil : breakPlace options [] = none := by
  rw [breakPlace]
  split <;> rfl

/-- A character that fits makes no break. -/
theorem rescan_of_fits {folding : Folding} {c : Char}
    (column : folding.column = columnOf options folding.lineOut)
    (fits : Fits options (folding.lineOut ++ [c])) :
    rescan options c folding = ⟨folding.out, folding.lineOut ++ [c],
      columnOf options (folding.lineOut ++ [c])⟩ := by
  rw [rescan, column, ← columnOf_concat]
  split
  next short => rfl
  next long =>
    have first : folding.lineOut = [] := by
      by_contra some
      have positive := List.length_pos_iff.mpr some
      have inside := fits (folding.lineOut ++ [c]).length
        (by rw [List.length_append, List.length_singleton]; omega) le_rfl
      rw [List.take_length] at inside
      exact long inside
    split
    next logicalEnd found =>
      rw [first, breakPlace_nil] at found
      cases found
    next notFound => rw [dif_pos first, first, List.nil_append]

/-- Nor does a piece that fits. -/
theorem foldl_of_fits {piece : Word} {folding : Folding}
    (column : folding.column = columnOf options folding.lineOut)
    (clean : '\n' ∉ piece) (fits : Fits options (folding.lineOut ++ piece)) :
    piece.foldl (foldChar options) folding = ⟨folding.out,
      folding.lineOut ++ piece, columnOf options (folding.lineOut ++ piece)⟩ := by
  induction piece generalizing folding with
  | nil =>
      rw [List.append_nil, ← column]
      rfl
  | cons c piece inductionHypothesis =>
      rw [List.mem_cons, not_or] at clean
      have fitsNext : Fits options (folding.lineOut ++ [c]) := by
        have upTo := fits.take (folding.lineOut.length + 1)
        rwa [List.take_length_add_append, List.take_succ_cons, List.take_zero]
          at upTo
      have same : folding.lineOut ++ c :: piece =
          folding.lineOut ++ [c] ++ piece := by
        rw [List.append_assoc, List.singleton_append]
      rw [same] at fits ⊢
      rw [List.foldl_cons, foldChar, if_neg (Ne.symm clean.1),
        rescan_of_fits column fitsNext]
      exact inductionHypothesis rfl clean.2 fits

/-- Pieces that fit, with their breaks, are folded into themselves. -/
theorem foldl_broken (start : Word) {pieces : List Word} {last : Word}
    (clean : ∀ piece ∈ last :: pieces, '\n' ∉ piece)
    (fits : ∀ piece ∈ last :: pieces, Fits options piece) :
    (broken pieces ++ last).foldl (foldChar options) (atLineStart start) =
      ⟨start ++ broken pieces, last, columnOf options last⟩ := by
  induction pieces generalizing start with
  | nil =>
      have whole := @foldl_of_fits options last (atLineStart start) rfl
        (clean last List.mem_cons_self) (fits last List.mem_cons_self)
      rw [broken, List.map_nil, List.flatten_nil, List.append_nil]
      exact whole
  | cons piece pieces inductionHypothesis =>
      have isPiece : piece ∈ last :: piece :: pieces := by simp
      have others : ∀ other ∈ last :: pieces, other ∈ last :: piece :: pieces :=
        fun other inside => by
          rcases List.mem_cons.mp inside with rfl | inside
          · exact List.mem_cons_self
          · exact List.mem_cons_of_mem _ (List.mem_cons_of_mem _ inside)
      have first : broken (piece :: pieces) = piece ++ ['\n'] ++ broken pieces :=
        rfl
      have whole := @foldl_of_fits options piece (atLineStart start) rfl
        (clean piece isPiece) (fits piece isPiece)
      rw [first, List.append_assoc, List.append_assoc, List.foldl_append, whole,
        List.singleton_append, List.foldl_cons, foldl_newline]
      have rest := inductionHypothesis (start ++ piece ++ ['\n'])
        (fun other inside => clean other (others other inside))
        (fun other inside => fits other (others other inside))
      simp only [List.append_assoc] at rest ⊢
      exact rest

/-- The pieces have no newline in them. -/
theorem FoldedLine.clean (folded : FoldedLine options) :
    ∀ piece ∈ folded.last :: folded.pieces, '\n' ∉ piece := by
  intro piece isPiece newline
  refine folded.noNewline (List.mem_append.mpr ?_)
  rcases List.mem_cons.mp isPiece with rfl | isPiece
  · exact .inr newline
  · exact .inl (List.mem_flatten.mpr ⟨piece, isPiece, newline⟩)

/-- The lines of the output. -/
def outputLines (lines : List (FoldedLine options)) (rest : FoldedLine options) :
    List Word :=
  (lines.map fun folded => folded.pieces ++ [folded.last]).flatten ++
    rest.pieces

/-- The output is made of pieces that end in newlines. -/
theorem broken_outputLines (lines : List (FoldedLine options))
    (rest : FoldedLine options) :
    broken (outputLines lines rest) ++ rest.last =
      (lines.map (·.output ++ ['\n'])).flatten ++ rest.output := by
  rw [outputLines, broken_append, List.append_assoc, ← FoldedLine.output]
  congr 1
  induction lines with
  | nil => rfl
  | cons folded lines inductionHypothesis =>
      rw [List.map_cons, List.flatten_cons, broken_append, inductionHypothesis,
        broken_append, broken_singleton, List.map_cons, List.flatten_cons,
        FoldedLine.output]
      simp only [List.append_assoc]

/-- Each of them is a piece of some line. -/
theorem mem_outputLines {lines : List (FoldedLine options)}
    {rest : FoldedLine options} {piece : Word}
    (inside : piece ∈ rest.last :: outputLines lines rest) :
    ∃ folded : FoldedLine options, piece ∈ folded.last :: folded.pieces := by
  rcases List.mem_cons.mp inside with rfl | inside
  · exact ⟨rest, List.mem_cons_self⟩
  · rcases List.mem_append.mp inside with inside | inside
    · obtain ⟨pieces, isLine, isPiece⟩ := List.mem_flatten.mp inside
      obtain ⟨folded, -, rfl⟩ := List.mem_map.mp isLine
      refine ⟨folded, ?_⟩
      rcases List.mem_append.mp isPiece with isPiece | isPiece
      · exact List.mem_cons_of_mem _ isPiece
      · rw [List.mem_singleton.mp isPiece]
        exact List.mem_cons_self
    · exact ⟨rest, List.mem_cons_of_mem _ inside⟩

/-- What has been folded is folded to itself. -/
theorem fold_fold (options : Options) (text : Word) :
    foldFile options (foldFile options text) = foldFile options text := by
  obtain ⟨lines, rest, -, output⟩ := @foldl_text options [] text
  have isFolded : foldFile options text =
      broken (outputLines lines rest) ++ rest.last :=
    output.trans (broken_outputLines lines rest).symm
  rw [isFolded, foldFile]
  have again := @foldl_broken options [] (outputLines lines rest) rest.last
    (fun piece inside => by
      obtain ⟨folded, isPiece⟩ := mem_outputLines inside
      exact folded.clean piece isPiece)
    (fun piece inside => by
      obtain ⟨folded, isPiece⟩ := mem_outputLines inside
      exact folded.fits piece isPiece)
  rw [atLineStart] at again
  rw [again]
  rfl

end

end Lmcas.Fold
