import Lmcas.HeadLines

/-!
# What `wc` counts

The function `wc` of `wc.c` in a locale whose characters are bytes, where
`MB_CUR_MAX` is 1: the loop of the other locales is not taken, and `count_chars`
is false.  A file that is read comes in pieces, none of which fails to come; of
one whose size is known, `-c` alone skips most.
-/

namespace Lmcas.WcCounts

open Lmcas.Lib.CString
open Lmcas.HeadElide

/-- `isprint`, `isspace` and `isnbspace` of a locale whose characters are
bytes. -/
structure Ctype where
  isprint : Char → Bool
  isspace : Char → Bool
  isnbspace : Char → Bool

/-! ## Words and the longest line -/

/-- What the loop for words has counted, and where in a line and a word it
is. -/
structure Scan where
  lines : Nat
  words : Nat
  linelength : Nat
  inWord : Bool
  linepos : Nat
deriving DecidableEq, Repr

/-- Before the first character. -/
def Scan.start : Scan := ⟨0, 0, 0, false, 0⟩

/-- `word_separator` -/
def Scan.separate (scan : Scan) : Scan :=
  { scan with words := scan.words + scan.inWord.toNat, inWord := false }

/-- The end of a line, for `-L`. -/
def Scan.endLine (scan : Scan) : Scan :=
  { scan with linelength := max scan.linelength scan.linepos, linepos := 0 }

section

variable (ctype : Ctype)

/-- The `switch`. -/
def countChar (scan : Scan) (c : Char) : Scan :=
  if c = '\n' then
    { scan with lines := scan.lines + 1 }.endLine.separate
  else if c = '\r' ∨ c = '\x0c' then scan.endLine.separate
  else if c = '\t' then
    { scan with linepos := scan.linepos + (8 - scan.linepos % 8) }.separate
  else if c = ' ' then { scan with linepos := scan.linepos + 1 }.separate
  else if c = '\x0b' then scan.separate
  else if ctype.isprint c then
    let scan := { scan with linepos := scan.linepos + 1 }
    if ctype.isspace c || ctype.isnbspace c then scan.separate
    else { scan with inWord := true }
  else scan

/-- The loop over the buffers, with `bytes`. -/
def countLoop (bufferSize : Nat) (scan : Scan) (bytes : Nat)
    (pieces : List Word) : Scan × Nat :=
  let read := safeRead bufferSize pieces
  if _eof : read.1 = [] then (scan, bytes)
  else countLoop bufferSize (read.1.foldl (countChar ctype) scan)
    (bytes + read.1.length) read.2
termination_by pieces.flatten.length
decreasing_by exact safeRead_lt _eof

end

/-! ## Lines alone -/

/-- The loop with `memchr`. -/
def memchrLines (lines : Nat) (buffer : Word) : Nat :=
  match _found : buffer.idxOf? '\n' with
  | none => lines
  | some nl => memchrLines (lines + 1) (buffer.drop (nl + 1))
termination_by buffer.length
decreasing_by
  have nonempty : buffer ≠ [] := by
    rintro rfl
    cases _found
  have positive := List.length_pos_iff.mpr nonempty
  rw [List.length_drop]
  omega

/-- The loop for `-l` alone, which searches long lines with `memchr`. -/
def linesLoop (bufferSize : Nat) (longLines : Bool) (lines bytes : Nat)
    (pieces : List Word) : Nat × Nat :=
  let read := safeRead bufferSize pieces
  if _eof : read.1 = [] then (lines, bytes)
  else
    let lines' :=
      if longLines then memchrLines lines read.1
      else read.1.foldl (fun lines c => lines + (c = '\n' : Bool).toNat) lines
    linesLoop bufferSize (lines' - lines ≤ read.1.length / 15) lines'
      (bytes + read.1.length) read.2
termination_by pieces.flatten.length
decreasing_by exact safeRead_lt _eof

/-! ## Bytes alone -/

/-- An open file, and the pieces in which it comes from a position on.  What can
be read of it need not be as long as `st_size` says. -/
structure Input where
  text : Word
  pos : Nat
  pieces : Nat → List Word
  /-- `usable_st_size` -/
  sized : Bool
  /-- `st_size` -/
  size : Nat
  /-- `ST_BLKSIZE` -/
  blksize : Nat
  reads : ∀ pos, (pieces pos).flatten = text.drop pos

/-- The loop for `-c` alone. -/
def bytesLoop (bufferSize : Nat) (bytes : Nat) (pieces : List Word) : Nat :=
  let read := safeRead bufferSize pieces
  if _eof : read.1 = [] then bytes
  else bytesLoop bufferSize (bytes + read.1.length) read.2
termination_by pieces.flatten.length
decreasing_by exact safeRead_lt _eof

/-- "Seek to one st_blksize before EOF": `hi_pos`. -/
def Input.hiPos (input : Input) : Nat :=
  input.size - input.size % (input.blksize + 1)

/-- The number of bytes.  The position is moved by `hi_pos`, not to it. -/
def countBytes (bufferSize pageSize : Nat) (input : Input) : Nat :=
  if input.sized then
    if input.size % pageSize ≠ 0 then input.size - input.pos
    else if input.pos < input.hiPos then
      bytesLoop bufferSize (input.hiPos - input.pos)
        (input.pieces (input.pos + input.hiPos))
    else bytesLoop bufferSize 0 (input.pieces input.pos)
  else bytesLoop bufferSize 0 (input.pieces input.pos)

/-! ## All counts -/

/-- Which counts are asked for. -/
structure Print where
  lines : Bool
  words : Bool
  chars : Bool
  bytes : Bool
  linelength : Bool

/-- The counts of a file. -/
structure Counts where
  lines : Nat
  words : Nat
  chars : Nat
  bytes : Nat
  linelength : Nat
deriving DecidableEq, Repr

/-- `BUFFER_SIZE` -/
def bufferSize : Nat := 16 * 1024

theorem bufferSize_pos : 0 < bufferSize := by decide

/-- The counts, where the characters are the bytes. -/
def wc (ctype : Ctype) (pageSize : Nat) (print : Print) (input : Input) :
    Counts :=
  let countsBytes := print.bytes || print.chars
  let complicated := print.words || print.linelength
  let counts : Counts :=
    if countsBytes && !print.lines && !complicated then
      ⟨0, 0, 0, countBytes bufferSize pageSize input, 0⟩
    else if !complicated then
      let (lines, bytes) :=
        linesLoop bufferSize false 0 0 (input.pieces input.pos)
      ⟨lines, 0, 0, bytes, 0⟩
    else
      let (scan, bytes) :=
        countLoop ctype bufferSize Scan.start 0 (input.pieces input.pos)
      ⟨scan.lines, scan.words + scan.inWord.toNat, 0, bytes,
        max scan.linelength scan.linepos⟩
  if print.chars then { counts with chars := counts.bytes } else counts

/-! ## The loops -/

section

variable {bufferSize : Nat} (positive : 0 < bufferSize)

include positive

/-- The loop for `-c` counts the characters. -/
theorem bytesLoop_eq (bytes : Nat) (pieces : List Word) :
    bytesLoop bufferSize bytes pieces = bytes + pieces.flatten.length := by
  fun_induction bytesLoop bufferSize bytes pieces with
  | case1 bytes pieces read eof =>
      rw [safeRead_eq_nil positive eof]
      rfl
  | case2 bytes pieces read more inductionHypothesis =>
      have both := congrArg List.length (safeRead_append bufferSize pieces)
      rw [List.length_append] at both
      rw [inductionHypothesis, Nat.add_assoc, both]

/-- The loop for words goes over all characters, however they are read. -/
theorem countLoop_eq (ctype : Ctype) (scan : Scan) (bytes : Nat)
    (pieces : List Word) :
    countLoop ctype bufferSize scan bytes pieces =
      (pieces.flatten.foldl (countChar ctype) scan,
        bytes + pieces.flatten.length) := by
  fun_induction countLoop ctype bufferSize scan bytes pieces with
  | case1 scan bytes pieces read eof =>
      rw [safeRead_eq_nil positive eof]
      rfl
  | case2 scan bytes pieces read more inductionHypothesis =>
      have both := safeRead_append bufferSize pieces
      rw [inductionHypothesis, ← both, List.foldl_append, List.length_append,
        Nat.add_assoc]

omit positive in
/-- Searching for newlines counts them. -/
theorem memchrLines_eq (lines : Nat) (buffer : Word) :
    memchrLines lines buffer = lines + buffer.count '\n' := by
  induction length : buffer.length using Nat.strong_induction_on
    generalizing lines buffer with
  | _ _ inductionHypothesis =>
      rw [memchrLines]
      by_cases newline : '\n' ∈ buffer
      · obtain ⟨front, behind, rfl, clean⟩ := List.eq_append_cons_of_mem newline
        have rest : (front ++ '\n' :: behind).drop (front.length + 1) = behind :=
          by simp
        rw [List.length_append, List.length_cons] at length
        split
        next notFound => rw [idxOf?_append clean] at notFound; cases notFound
        next nl found =>
          rw [idxOf?_append clean] at found
          rw [← Option.some.inj found, rest,
            inductionHypothesis _ (by omega) _ _ rfl, List.count_append,
            List.count_eq_zero.mpr clean, List.count_cons_self]
          omega
      · split
        next notFound => rw [List.count_eq_zero.mpr newline, Nat.add_zero]
        next nl found =>
          rw [List.idxOf?_eq_none_iff.mpr newline] at found
          cases found

omit positive in
/-- So does looking at each character. -/
theorem foldl_newlines (lines : Nat) (buffer : Word) :
    buffer.foldl (fun lines c => lines + (c = '\n' : Bool).toNat) lines =
      lines + buffer.count '\n' := by
  induction buffer generalizing lines with
  | nil => rfl
  | cons c buffer inductionHypothesis =>
      rw [List.foldl_cons, inductionHypothesis, List.count_cons]
      by_cases newline : c = '\n'
      · simp only [newline, decide_true, Bool.toNat_true, beq_self_eq_true,
          if_true]
        omega
      · simp [newline]

/-- The loop for `-l` counts the newlines, whichever way it looks for them. -/
theorem linesLoop_eq (longLines : Bool) (lines bytes : Nat)
    (pieces : List Word) :
    linesLoop bufferSize longLines lines bytes pieces =
      (lines + pieces.flatten.count '\n', bytes + pieces.flatten.length) := by
  fun_induction linesLoop bufferSize longLines lines bytes pieces with
  | case1 longLines lines bytes pieces read eof =>
      rw [safeRead_eq_nil positive eof]
      rfl
  | case2 longLines lines bytes pieces read more lines' inductionHypothesis =>
      have both := safeRead_append bufferSize pieces
      have counted : lines' = lines + read.1.count '\n' := by
        dsimp only [lines']
        split
        · exact memchrLines_eq lines read.1
        · exact foldl_newlines lines read.1
      rw [inductionHypothesis, counted, ← both, List.count_append,
        List.length_append, Nat.add_assoc, Nat.add_assoc]

end

/-! ## What the counts are -/

/-- A character that ends a line for the longest line. -/
def endsLine (c : Char) : Bool :=
  c = '\n' || c = '\r' || c = '\x0c'

section

variable (ctype : Ctype)

/-- A character between words. -/
def separates (c : Char) : Bool :=
  endsLine c || c = '\t' || c = ' ' || c = '\x0b' ||
    ctype.isprint c && (ctype.isspace c || ctype.isnbspace c)

/-- The column behind a character of a line. -/
def advance (linepos : Nat) (c : Char) : Nat :=
  if c = '\t' then linepos + (8 - linepos % 8)
  else if c = ' ' then linepos + 1
  else if c = '\x0b' then linepos
  else if ctype.isprint c then linepos + 1
  else linepos

/-- A character that neither separates words nor is printed is as good as
absent. -/
def wordsOf (text : Word) : List Word :=
  (text.filter fun c => separates ctype c || ctype.isprint c).splitOnP
    (separates ctype)

/-- The greatest of the columns in which the lines end. -/
def greatest (lines : List Word) : Nat :=
  (lines.map fun line => line.foldl (advance ctype) 0).foldr max 0

/-- What a character does to the counts, without the cases of the source. -/
theorem countChar_eq (scan : Scan) (c : Char) :
    countChar ctype scan c =
      { lines := scan.lines + (c = '\n' : Bool).toNat
        words := scan.words + (separates ctype c && scan.inWord).toNat
        linelength := if endsLine c then max scan.linelength scan.linepos
          else scan.linelength
        inWord := !separates ctype c && (scan.inWord || ctype.isprint c)
        linepos := if endsLine c then 0 else advance ctype scan.linepos c } := by
  unfold countChar separates endsLine advance
  by_cases newline : c = '\n'
  · simp [newline, Scan.endLine, Scan.separate]
  by_cases carriage : c = '\r'
  · simp [carriage, Scan.endLine, Scan.separate]
  by_cases feed : c = '\x0c'
  · simp [feed, Scan.endLine, Scan.separate]
  by_cases tab : c = '\t'
  · simp [tab, Scan.separate]
  by_cases blank : c = ' '
  · simp [blank, Scan.separate]
  by_cases vertical : c = '\x0b'
  · simp [vertical, Scan.separate]
  by_cases prints : ctype.isprint c = true
  · by_cases spaces : (ctype.isspace c || ctype.isnbspace c) = true
    · simp [newline, carriage, feed, tab, blank, vertical, prints, spaces,
        Scan.separate]
    · simp [newline, carriage, feed, tab, blank, vertical, prints, spaces]
  · simp [newline, carriage, feed, tab, blank, vertical, prints]

/-- The newlines are counted. -/
theorem foldl_lines (scan : Scan) (text : Word) :
    (text.foldl (countChar ctype) scan).lines =
      scan.lines + text.count '\n' := by
  induction text generalizing scan with
  | nil => rfl
  | cons c text inductionHypothesis =>
      rw [List.foldl_cons, inductionHypothesis, countChar_eq, List.count_cons]
      by_cases newline : c = '\n'
      · simp only [newline, decide_true, Bool.toNat_true, beq_self_eq_true,
          if_true]
        omega
      · simp [newline]

/-- The words of a text that is preceded by a word or not. -/
theorem foldl_words (scan : Scan) (text : Word) :
    ∃ first others, wordsOf ctype text = first :: others ∧
      (text.foldl (countChar ctype) scan).words +
          (text.foldl (countChar ctype) scan).inWord.toNat =
        scan.words + (scan.inWord || !first.isEmpty).toNat +
          others.countP fun word => !word.isEmpty := by
  induction text generalizing scan with
  | nil => exact ⟨[], [], rfl, by simp⟩
  | cons c text inductionHypothesis =>
      obtain ⟨first, others, split, counted⟩ :=
        inductionHypothesis (countChar ctype scan c)
      rw [List.foldl_cons, counted, countChar_eq]
      rw [wordsOf] at split
      rw [wordsOf]
      by_cases apart : separates ctype c = true
      · refine ⟨[], first :: others, ?_, ?_⟩
        · rw [List.filter_cons_of_pos (by simp [apart]),
            List.splitOnP_cons_eq_if_modifyHead, if_pos apart, split]
        · simp only [apart, Bool.not_true, Bool.true_and, Bool.false_and,
            Bool.false_or, List.countP_cons, List.isEmpty_nil, Bool.or_false]
          cases first.isEmpty <;> simp
          omega
      · by_cases prints : ctype.isprint c = true
        · refine ⟨c :: first, others, ?_, ?_⟩
          · rw [List.filter_cons_of_pos (by simp [prints]),
              List.splitOnP_cons_eq_if_modifyHead, if_neg apart, split]
            rfl
          · simp [apart, prints]
        · refine ⟨first, others, ?_, ?_⟩
          · rw [List.filter_cons_of_neg (by simp [apart, prints]), split]
          · simp [apart, prints]

/-- The greatest width of a line is kept. -/
theorem foldl_linelength (scan : Scan) (text : Word) :
    ∃ first others, text.splitOnP endsLine = first :: others ∧
      max (text.foldl (countChar ctype) scan).linelength
          (text.foldl (countChar ctype) scan).linepos =
        max scan.linelength (max (first.foldl (advance ctype) scan.linepos)
          (greatest ctype others)) := by
  induction text generalizing scan with
  | nil => exact ⟨[], [], rfl, by simp [greatest]⟩
  | cons c text inductionHypothesis =>
      obtain ⟨first, others, split, counted⟩ :=
        inductionHypothesis (countChar ctype scan c)
      rw [List.foldl_cons, counted, countChar_eq]
      rw [List.splitOnP_cons_eq_if_modifyHead, split]
      by_cases ends : endsLine c = true
      · refine ⟨[], first :: others, if_pos ends, ?_⟩
        simp only [ends, if_true, greatest, List.map_cons, List.foldr_cons,
          List.foldl_nil]
        exact Nat.max_assoc _ _ _
      · refine ⟨c :: first, others, if_neg ends, ?_⟩
        simp only [ends, List.foldl_cons]
        rfl

end

/-! ## The results -/

/-- `-c` alone counts what is left, or what the size says. -/
theorem countBytes_eq {bufferSize : Nat} (positive : 0 < bufferSize)
    (pageSize : Nat) (input : Input) :
    countBytes bufferSize pageSize input =
      if input.sized ∧ input.size % pageSize ≠ 0 then input.size - input.pos
      else if input.sized ∧ input.pos < input.hiPos then
        input.hiPos - input.pos +
          (input.text.length - (input.pos + input.hiPos))
      else input.text.length - input.pos := by
  unfold countBytes
  simp only [bytesLoop_eq positive, input.reads, List.length_drop]
  by_cases sized : input.sized = true
  · by_cases pages : input.size % pageSize = 0
    · by_cases before : input.pos < input.hiPos
      · simp [sized, pages, before]
      · simp [sized, pages, before]
    · simp [sized, pages]
  · simp [sized]

/-- Are the bytes all that is asked for? -/
def Print.bytesOnly (print : Print) : Bool :=
  (print.bytes || print.chars) && !print.lines &&
    !(print.words || print.linelength)

/-- `-c` alone, of a file whose size is known, where `st_size` is not what can be
read and is taken for it; or where it is whole pages, and the position is moved
by `hi_pos` though the file is not at its beginning, or moved beyond the end. -/
def Misplaced (pageSize : Nat) (print : Print) (input : Input) : Prop :=
  print.bytesOnly = true ∧ input.sized = true ∧
    (input.size % pageSize ≠ 0 ∧ input.size ≠ input.text.length ∧
        (input.pos < input.size ∨ input.pos < input.text.length) ∨
      input.size % pageSize = 0 ∧ input.pos < input.hiPos ∧
        input.hiPos ≠ input.text.length ∧
        (0 < input.pos ∨ input.text.length < input.hiPos))

/-- `wc` by the counts that are asked for. -/
theorem wc_eq (ctype : Ctype) (pageSize : Nat) (print : Print) (input : Input) :
    wc ctype pageSize print input =
      let counts : Counts :=
        if print.bytesOnly = true then
          ⟨0, 0, 0, countBytes bufferSize pageSize input, 0⟩
        else if (!(print.words || print.linelength)) = true then
          ⟨(input.text.drop input.pos).count '\n', 0, 0,
            (input.text.drop input.pos).length, 0⟩
        else
          let scan :=
            (input.text.drop input.pos).foldl (countChar ctype) Scan.start
          ⟨scan.lines, scan.words + scan.inWord.toNat, 0,
            (input.text.drop input.pos).length,
            max scan.linelength scan.linepos⟩
      if print.chars then { counts with chars := counts.bytes } else counts := by
  simp only [wc, linesLoop_eq bufferSize_pos, countLoop_eq bufferSize_pos,
    input.reads, Nat.zero_add]
  rfl

/-- The number of characters is that of the bytes, and no other count depends on
whether it is asked for. -/
theorem wc_fields (ctype : Ctype) (pageSize : Nat) (print : Print)
    (input : Input) :
    let text := input.text.drop input.pos
    let scan := text.foldl (countChar ctype) Scan.start
    (wc ctype pageSize print input).lines =
        (if print.bytesOnly then 0
          else if !(print.words || print.linelength) then text.count '\n'
          else scan.lines) ∧
      (wc ctype pageSize print input).words =
        (if print.words || print.linelength then
          scan.words + scan.inWord.toNat else 0) ∧
      (wc ctype pageSize print input).linelength =
        (if print.words || print.linelength then
          max scan.linelength scan.linepos else 0) ∧
      (wc ctype pageSize print input).bytes =
        (if print.bytesOnly then countBytes bufferSize pageSize input
          else text.length) ∧
      (print.chars = true → (wc ctype pageSize print input).chars =
        (wc ctype pageSize print input).bytes) := by
  rw [wc_eq]
  by_cases only : print.bytesOnly = true
  · have apart : (print.words || print.linelength) = false := by
      revert only
      unfold Print.bytesOnly
      cases (print.words || print.linelength) <;> simp
    cases chars : print.chars <;> simp [only, apart]
  · cases print.words || print.linelength <;>
      cases chars : print.chars <;> simp [only]

/-- Whatever is asked for besides the bytes is what it is called, however the
file is read: the newlines, the words and the greatest column. -/
theorem wc_counts (ctype : Ctype) (pageSize : Nat) (print : Print)
    (input : Input) :
    (print.lines = true → (wc ctype pageSize print input).lines =
      (input.text.drop input.pos).count '\n') ∧
    (print.words = true → (wc ctype pageSize print input).words =
      (wordsOf ctype (input.text.drop input.pos)).countP
        fun word => !word.isEmpty) ∧
    (print.linelength = true → (wc ctype pageSize print input).linelength =
      greatest ctype ((input.text.drop input.pos).splitOnP endsLine)) := by
  obtain ⟨counted, inWords, longest, -⟩ := wc_fields ctype pageSize print input
  refine ⟨fun lines => ?_, fun words => ?_, fun linelength => ?_⟩
  · have more : print.bytesOnly = false := by
      simp [Print.bytesOnly, lines]
    rw [counted, more]
    split
    · contradiction
    split
    · rfl
    · exact (foldl_lines ctype Scan.start _).trans (Nat.zero_add _)
  · obtain ⟨first, others, split, total⟩ := foldl_words ctype Scan.start
      (input.text.drop input.pos)
    rw [inWords, if_pos (by simp [words]), split, List.countP_cons]
    refine total.trans ?_
    cases first.isEmpty <;> simp [Scan.start]
    omega
  · obtain ⟨first, others, split, total⟩ := foldl_linelength ctype Scan.start
      (input.text.drop input.pos)
    rw [longest, if_pos (by simp [linelength]), split]
    refine total.trans ?_
    rw [Scan.start, Nat.zero_max]
    rfl

end Lmcas.WcCounts
