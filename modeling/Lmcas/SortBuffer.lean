import Lmcas.Lib.Iteration
import Lmcas.Lib.Lines
import Lmcas.Lib.CString

/-!
# The input buffer of `sort`

`fillbuf` of `sort.c`.  The text grows from the beginning of the buffer, the
line table from its end.  A line is its text without the delimiter.
-/

namespace Lmcas.SortBuffer

open Lmcas.Lib.CString
open Lmcas.Lib.Iteration
open Lmcas.Lib.Lines

/-- `struct buffer`; `used` is the length of the text. -/
structure Buffer where
  text : Word
  left : Nat
  lines : List Word
  alloc : Nat
  eof : Bool
deriving DecidableEq, Repr

/-- The octets in use. -/
def Buffer.used (buffer : Buffer) : Nat :=
  buffer.text.length

/-- `sizeof (struct line)` -/
def sizeofLine : Nat := 32

/-- `initbuf`, where the memory is there. -/
def initbuf (alloc : Nat) : Buffer :=
  ⟨[], 0, [], alloc + (sizeofLine - alloc % sizeofLine), false⟩

/-- `line_start`, as an offset. -/
def Buffer.lineStart (buffer : Buffer) : Nat :=
  extent buffer.lines

/-- The bytes moved to the beginning. -/
def Buffer.carry (buffer : Buffer) : Buffer :=
  if buffer.used ≠ buffer.left then
    { buffer with
      text := buffer.text.drop (buffer.used - buffer.left)
      lines := [] }
  else buffer

section

variable (lineBytes : Nat) (eol : Char)

/-- `buffer_avail`, what the text leaves to the table of lines. -/
def Buffer.avail (buffer : Buffer) : Nat :=
  buffer.alloc - buffer.lines.length * lineBytes - buffer.used

/-- Just-read bytes, with the lines that end in them. -/
def Buffer.record (buffer : Buffer) (read : Word) : Buffer :=
  { buffer with
    text := buffer.text ++ read
    lines := buffer.lines ++
      (cut eol (buffer.text.drop buffer.lineStart) read).1 }

/-- The last bytes of the file, and a delimiter if there is none. -/
def Buffer.recordLast (buffer : Buffer) (read : Word) : Buffer :=
  let text := buffer.text ++ read
  let terminated := text.length = buffer.lineStart ∨ text.getLast? = some eol
  { buffer.record eol (if terminated then read else read ++ [eol]) with
    eof := true }

/-- The loop over `fread`, and whether the loop around it goes on. -/
def readLoop (buffer : Buffer) (input : Word) : Bool × Buffer × Word :=
  if _room : lineBytes + 1 < buffer.avail lineBytes then
    -- `fread` returns less only at the end of the file
    let readsize := (buffer.avail lineBytes - 1) / (lineBytes + 1)
    if readsize ≤ input.length then
      readLoop (buffer.record eol (input.take readsize)) (input.drop readsize)
    else if (buffer.text ++ input).isEmpty then
      (false, { buffer with eof := true }, [])
    else (true, buffer.recordLast eol input, [])
  else (true, buffer, input)
termination_by input.length
decreasing_by
  have positive : 0 < readsize := Nat.div_pos (by omega) (Nat.succ_pos _)
  rw [List.length_drop]
  omega

/-- The outer loop; a line that is too long for the buffer makes it larger. -/
def fillBody (x2nrealloc : Nat → Nat) (state : Buffer × Word) :
    Turn (Buffer × Word) (Buffer × Word) :=
  match readLoop lineBytes eol state.1 state.2 with
  | (false, buffer, input) => .exit (buffer, input)
  | (true, buffer, input) =>
      if buffer.lines.isEmpty then
        .again ({ buffer with
          alloc := x2nrealloc (buffer.alloc / sizeofLine) * sizeofLine }, input)
      else
        .leave ({ buffer with left := buffer.used - buffer.lineStart }, input)

/-- `fillbuf` returns `true` when its loop is left. -/
def Fillbuf (x2nrealloc : Nat → Nat) (buffer : Buffer) (input : Word)
    (ending : Ending (Buffer × Word) (Buffer × Word)) : Prop :=
  if buffer.eof then ending = .exited (buffer, input)
  else Ends (fillBody lineBytes eol x2nrealloc) (buffer.carry, input) ending

end

/-! ## One turn -/

section

variable {lineBytes : Nat} {eol : Char} {buffer : Buffer}

/-- What stands behind the last end of line. -/
def Buffer.unfinished (buffer : Buffer) : Word :=
  buffer.text.drop buffer.lineStart

/-- The text and the line table do not overlap, and every line that has ended
is in the table. -/
structure Buffer.Valid (lineBytes : Nat) (eol : Char) (buffer : Buffer) :
    Prop where
  starts : buffer.lineStart ≤ buffer.used
  clean : eol ∉ buffer.unfinished
  room : buffer.used + buffer.lines.length * lineBytes ≤ buffer.alloc

@[simp]
theorem record_used (read : Word) :
    (buffer.record eol read).used = buffer.used + read.length :=
  List.length_append

@[simp]
theorem record_alloc (read : Word) :
    (buffer.record eol read).alloc = buffer.alloc := rfl

@[simp]
theorem record_lines (read : Word) :
    (buffer.record eol read).lines =
      buffer.lines ++ (cut eol buffer.unfinished read).1 := rfl

theorem unfinished_length (starts : buffer.lineStart ≤ buffer.used) :
    buffer.unfinished.length + buffer.lineStart = buffer.used := by
  rw [Buffer.unfinished, List.length_drop, Buffer.used] at *
  exact Nat.sub_add_cancel starts

theorem record_lineStart (read : Word) :
    (buffer.record eol read).lineStart =
      buffer.lineStart + extent (cut eol buffer.unfinished read).1 :=
  extent_append _ _

/-- What is left over of a read. -/
theorem record_unfinished (starts : buffer.lineStart ≤ buffer.used)
    (read : Word) :
    (buffer.record eol read).unfinished =
      (cut eol buffer.unfinished read).2 := by
  have text : (buffer.record eol read).text = buffer.text ++ read := rfl
  rw [Buffer.unfinished, record_lineStart, text, ← List.drop_drop,
    List.drop_append_of_le_length starts]
  exact drop_extent_cut buffer.unfinished read

theorem record_starts (starts : buffer.lineStart ≤ buffer.used) (read : Word) :
    (buffer.record eol read).lineStart ≤ (buffer.record eol read).used := by
  have extents := @extent_cut _ _ eol buffer.unfinished read
  have length := unfinished_length starts
  rw [record_lineStart, record_used]
  omega

/-- In the worst case the bytes are all delimiters. -/
theorem record_valid (valid : buffer.Valid lineBytes eol) {read : Word}
    (fits : read.length * (lineBytes + 1) ≤ buffer.avail lineBytes) :
    (buffer.record eol read).Valid lineBytes eol := by
  refine ⟨record_starts valid.starts read, ?_, ?_⟩
  · rw [record_unfinished valid.starts]
    exact eol_notMem_cut valid.clean read
  · have lines := Nat.mul_le_mul_right lineBytes
      (@length_cut_le _ _ eol buffer.unfinished read)
    have room := valid.room
    rw [Nat.mul_add, Nat.mul_one, Buffer.avail] at fits
    rw [record_used, record_lines, record_alloc, List.length_append,
      Nat.add_mul]
    omega

/-- What the table has and what is to come. -/
def pending (eol : Char) (buffer : Buffer) (input : Word) : List Word :=
  buffer.lines ++ linesOf eol (buffer.unfinished ++ input)

/-- Recording a read loses no line. -/
theorem record_pending (valid : buffer.Valid lineBytes eol)
    (read later : Word) :
    pending eol (buffer.record eol read) later =
      pending eol buffer (read ++ later) := by
  rw [pending, pending, record_unfinished valid.starts,
    linesOf_carry valid.clean, ← List.append_assoc]
  rfl

/-- The text does not end in the middle of a line. -/
theorem terminated_iff (valid : buffer.Valid lineBytes eol) (read : Word) :
    ((buffer.text ++ read).length = buffer.lineStart ∨
        (buffer.text ++ read).getLast? = some eol) ↔
      (cut eol buffer.unfinished read).2 = [] := by
  have starts := valid.starts
  rw [Buffer.used] at starts
  have parts : buffer.text ++ read =
      buffer.text.take buffer.lineStart ++ (buffer.unfinished ++ read) := by
    rw [← List.append_assoc, Buffer.unfinished, List.take_append_drop]
  rw [← cut_carry valid.clean, cut_snd_eq_nil_iff, parts, List.length_append,
    List.length_take_of_le starts]
  by_cases empty : buffer.unfinished ++ read = []
  · simp [empty]
  · have positive := List.length_pos_iff.mpr empty
    rw [List.getLast?_append_of_ne_nil _ empty]
    constructor
    · rintro (short | ends)
      · omega
      · exact .inr ends
    · rintro (short | ends)
      · exact absurd short empty
      · exact .inr ends

/-- At the end of the file the unfinished line is ended and recorded. -/
theorem recordLast_spec (valid : buffer.Valid lineBytes eol) {read : Word}
    (fits : (read.length + 1) * (lineBytes + 1) ≤ buffer.avail lineBytes) :
    (buffer.recordLast eol read).Valid lineBytes eol ∧
      (buffer.recordLast eol read).unfinished = [] ∧
      (buffer.recordLast eol read).lines = pending eol buffer read := by
  have terminated := terminated_iff valid read
  by_cases ends : (cut eol buffer.unfinished read).2 = []
  · have same : buffer.recordLast eol read =
        { buffer.record eol read with eof := true } := by
      rw [Buffer.recordLast]
      simp only [if_pos (terminated.mpr ends)]
    have valid' := record_valid valid ((Nat.mul_le_mul_right _
      (Nat.le_succ read.length)).trans fits)
    rw [same]
    refine ⟨⟨valid'.starts, valid'.clean, valid'.room⟩,
      (record_unfinished valid.starts read).trans ends, ?_⟩
    rw [pending, linesOf_eq valid.clean, ends, lastLine, List.append_nil]
    rfl
  · have same : buffer.recordLast eol read =
        { buffer.record eol (read ++ [eol]) with eof := true } := by
      rw [Buffer.recordLast]
      simp only [if_neg (mt terminated.mp ends)]
    obtain ⟨lines, rest⟩ := @cut_terminated _ _ eol buffer.unfinished read
    have fits' : (read ++ [eol]).length * (lineBytes + 1) ≤
        buffer.avail lineBytes := by
      rwa [List.length_append, List.length_singleton]
    have valid' := record_valid valid fits'
    rw [same]
    refine ⟨⟨valid'.starts, valid'.clean, valid'.room⟩,
      (record_unfinished valid.starts _).trans rest, ?_⟩
    rw [pending, linesOf_eq valid.clean, lastLine_of_ne_nil ends, ← lines]
    rfl

/-- How the loop over `fread` ends. -/
structure Reads (lineBytes : Nat) (eol : Char) (buffer : Buffer) (input : Word)
    (more : Bool) (buffer' : Buffer) (input' : Word) : Prop where
  valid : buffer'.Valid lineBytes eol
  left : buffer'.left = buffer.left
  pending : pending eol buffer' input' = pending eol buffer input
  eof : buffer'.eof = true → buffer'.unfinished = [] ∧ input' = [] ∧
    (buffer'.lines = [] ↔ more = false)
  exhausted : more = false → buffer'.eof = true ∧ buffer'.text = []
  full : buffer'.eof = false → buffer'.avail lineBytes ≤ lineBytes + 1 ∧
    (buffer' = buffer ∧ input' = input ∨ input'.length < input.length)

/-- The reads go on until the buffer is full or the file at its end. -/
theorem readLoop_reads (input : Word) (valid : buffer.Valid lineBytes eol)
    (more : buffer.eof = false) :
    Reads lineBytes eol buffer input (readLoop lineBytes eol buffer input).1
      (readLoop lineBytes eol buffer input).2.1
      (readLoop lineBytes eol buffer input).2.2 := by
  induction buffer, input using readLoop.induct lineBytes eol with
  | case1 buffer input room readsize enough inductionHypothesis =>
      have nonempty : 0 < readsize := Nat.div_pos (by omega) (Nat.succ_pos _)
      have fits : (input.take readsize).length * (lineBytes + 1) ≤
          buffer.avail lineBytes := by
        rw [List.length_take_of_le enough]
        exact (Nat.div_mul_le_self _ _).trans (Nat.sub_le _ _)
      have turn : readLoop lineBytes eol buffer input =
          readLoop lineBytes eol (buffer.record eol (input.take readsize))
            (input.drop readsize) := by
        rw [readLoop, dif_pos room]
        exact if_pos enough
      rw [turn]
      obtain ⟨valid', left, pending, eof, exhausted, full⟩ :=
        inductionHypothesis (record_valid valid fits) more
      refine ⟨valid', left, ?_, eof, exhausted, fun isMore => ⟨(full isMore).1, ?_⟩⟩
      · rw [pending, record_pending valid, List.take_append_drop]
      · have shorter := (full isMore).2
        rw [List.length_drop] at shorter
        refine .inr ?_
        rcases shorter with ⟨-, same⟩ | less
        · rw [same, List.length_drop]
          omega
        · omega
  | case2 buffer input room readsize short atEnd =>
      obtain ⟨noText, noInput⟩ := List.append_eq_nil_iff.mp
        (List.isEmpty_iff.mp atEnd)
      have turn : readLoop lineBytes eol buffer input =
          (false, { buffer with eof := true }, []) := by
        rw [readLoop, dif_pos room]
        exact (if_neg short).trans (if_pos atEnd)
      have noLines : buffer.lines = [] := by
        have starts := valid.starts
        rw [Buffer.used, noText, Buffer.lineStart] at starts
        exact extent_eq_zero (Nat.le_zero.mp starts)
      rw [turn]
      refine ⟨⟨valid.starts, valid.clean, valid.room⟩, rfl, by rw [noInput]; rfl,
        fun _ => ⟨?_, rfl, ⟨fun _ => rfl, fun _ => noLines⟩⟩,
        fun _ => ⟨rfl, noText⟩, fun isMore => nomatch isMore⟩
      rw [Buffer.unfinished, noText, List.drop_nil]
  | case3 buffer input room readsize short nonempty =>
      have fits : (input.length + 1) * (lineBytes + 1) ≤
          buffer.avail lineBytes :=
        (Nat.mul_le_mul_right _ (Nat.not_le.mp short)).trans
          ((Nat.div_mul_le_self _ _).trans (Nat.sub_le _ _))
      have turn : readLoop lineBytes eol buffer input =
          (true, buffer.recordLast eol input, []) := by
        rw [readLoop, dif_pos room]
        exact (if_neg short).trans (if_neg nonempty)
      obtain ⟨valid', unfinished, lines⟩ := recordLast_spec valid fits
      rw [turn]
      refine ⟨valid', rfl, ?_, fun _ => ⟨unfinished, rfl, ?_⟩, nofun, nofun⟩
      · rw [pending, unfinished, lines]
        exact List.append_nil _
      · refine ⟨fun atEnd => ?_, nofun⟩
        rw [lines] at atEnd
        obtain ⟨noLines, noRest⟩ := List.append_eq_nil_iff.mp atEnd
        have nothing : buffer.text ++ input = [] := by
          by_contra text
          refine linesOf_ne_nil ?_ noRest
          rwa [Buffer.unfinished, Buffer.lineStart, noLines]
        exact absurd (List.isEmpty_iff.mpr nothing) nonempty
  | case4 buffer input full =>
      rw [readLoop, dif_neg full]
      refine ⟨valid, rfl, rfl, fun eof => ?_, nofun,
        fun _ => ⟨Nat.not_lt.mp full, .inl ⟨rfl, rfl⟩⟩⟩
      rw [more] at eof
      cases eof

/-! ## A call -/

/-- Between two calls. -/
structure Buffer.Ready (lineBytes : Nat) (eol : Char) (buffer : Buffer) :
    Prop where
  valid : buffer.Valid lineBytes eol
  /-- With all of the text kept, the lines are kept, too. -/
  kept : buffer.left = buffer.used - buffer.lineStart ∨
    buffer.left = buffer.used

/-- A new buffer is ready. -/
theorem initbuf_ready (lineBytes : Nat) (eol : Char) (alloc : Nat) :
    (initbuf alloc).Ready lineBytes eol := by
  refine ⟨⟨Nat.zero_le _, List.not_mem_nil, ?_⟩, .inr rfl⟩
  simp [initbuf, Buffer.used]

/-- What is carried to the front of the buffer leaves it in order. -/
theorem carry_valid (ready : buffer.Ready lineBytes eol) :
    buffer.carry.Valid lineBytes eol := by
  obtain ⟨⟨starts, clean, room⟩, kept⟩ := ready
  rw [Buffer.carry]
  split
  next moved =>
    have left := kept.resolve_right (Ne.symm moved)
    have start : buffer.used - buffer.left = buffer.lineStart := by omega
    refine ⟨Nat.zero_le _, ?_, ?_⟩
    · rw [start]
      exact clean
    · simp only [Buffer.used, List.length_drop, List.length_nil] at room ⊢
      omega
  · exact ⟨starts, clean, room⟩

/-- `true` comes with lines, `false` at the end of the file. -/
structure Fills (lineBytes : Nat) (eol : Char) (buffer : Buffer)
    (input : Word) (more : Bool) (buffer' : Buffer) (input' : Word) :
    Prop where
  valid : buffer'.Valid lineBytes eol
  pending : pending eol buffer' input' = pending eol buffer input
  lines : buffer'.lines = [] ↔ more = false
  left : more = true → buffer'.left = buffer'.used - buffer'.lineStart
  eof : buffer'.eof = true → buffer'.unfinished = [] ∧ input' = []
  exhausted : more = false → buffer'.eof = true ∧ buffer'.text = [] ∧
    buffer'.left = buffer.left

theorem grown_alloc {x2nrealloc : Nat → Nat} (grows : ∀ n, n < x2nrealloc n)
    (alloc : Nat) : alloc < x2nrealloc (alloc / sizeofLine) * sizeofLine := by
  have more := Nat.mul_le_mul_right sizeofLine (grows (alloc / sizeofLine))
  have rounded := Nat.lt_div_mul_add (a := alloc) (b := sizeofLine) (by decide)
  rw [Nat.succ_mul] at more
  omega

/-- Bytes to read, and how far the buffer is from being large enough. -/
def Buffer.measure (lineBytes : Nat) (buffer : Buffer) (input : Word) : Nat :=
  input.length * (lineBytes + 3) + (lineBytes + 2 - buffer.avail lineBytes)

/-- A buffer that had to grow has less to do, for the text or for its size. -/
theorem grown_measure {lineBytes : Nat} {buffer buffer' : Buffer}
    {input input' : Word} {alloc : Nat}
    (room : buffer'.used ≤ buffer'.alloc) (noLines : buffer'.lines = [])
    (full : buffer'.avail lineBytes ≤ lineBytes + 1)
    (shorter : buffer' = buffer ∧ input' = input ∨
      input'.length < input.length) (larger : buffer'.alloc < alloc) :
    Buffer.measure lineBytes { buffer' with alloc := alloc } input' <
      Buffer.measure lineBytes buffer input := by
  have avail : buffer'.avail lineBytes <
      Buffer.avail lineBytes { buffer' with alloc := alloc } := by
    simp only [Buffer.avail, noLines, Buffer.used] at room ⊢
    simp only [List.length_nil, Nat.zero_mul, Nat.sub_zero]
    omega
  simp only [Buffer.measure]
  rcases shorter with ⟨rfl, rfl⟩ | less
  · omega
  · have fewer := Nat.mul_le_mul_right (lineBytes + 3) less
    rw [Nat.succ_mul] at fewer
    omega

/-- `fillbuf` ends with lines in the buffer, or without any at the end of the
file. -/
theorem fillBody_ends {x2nrealloc : Nat → Nat}
    (grows : ∀ n, n < x2nrealloc n) (input : Word)
    (valid : buffer.Valid lineBytes eol) (more : buffer.eof = false) :
    (∃ buffer' input', Ends (fillBody lineBytes eol x2nrealloc) (buffer, input)
        (.left (buffer', input')) ∧
        Fills lineBytes eol buffer input true buffer' input') ∨
      ∃ buffer' input', Ends (fillBody lineBytes eol x2nrealloc) (buffer, input)
        (.exited (buffer', input')) ∧
        Fills lineBytes eol buffer input false buffer' input' := by
  induction bound : buffer.measure lineBytes input using Nat.strong_induction_on
    generalizing buffer input with
  | _ bound inductionHypothesis =>
      obtain ⟨valid', left, pending, eof, exhausted, full⟩ :=
        readLoop_reads input valid more
      match turn : readLoop lineBytes eol buffer input with
      | (false, buffer', input') =>
          rw [turn] at valid' left pending eof exhausted full
          obtain ⟨isOver, noText⟩ := exhausted rfl
          obtain ⟨unfinished, noInput, lines⟩ := eof isOver
          refine .inr ⟨buffer', input', .exit (by simp only [fillBody, turn]),
            ⟨valid', pending, lines, nofun, fun _ => ⟨unfinished, noInput⟩,
              fun _ => ⟨isOver, noText, left⟩⟩⟩
      | (true, buffer', input') =>
          rw [turn] at valid' left pending eof full
          dsimp only at valid' left pending eof full
          by_cases noLines : buffer'.lines = []
          · have isMore : buffer'.eof = false := by
              refine Bool.eq_false_iff.mpr fun isOver => ?_
              cases (eof isOver).2.2.mp noLines
            obtain ⟨isFull, shorter⟩ := full isMore
            have larger := grown_alloc grows buffer'.alloc
            have room := valid'.room
            have again : fillBody lineBytes eol x2nrealloc (buffer, input) =
                .again ({ buffer' with
                  alloc := x2nrealloc (buffer'.alloc / sizeofLine) *
                    sizeofLine }, input') := by
              simp only [fillBody, turn, noLines, List.isEmpty_nil, if_true]
            have grown : Buffer.Valid lineBytes eol { buffer' with
                alloc := x2nrealloc (buffer'.alloc / sizeofLine) *
                  sizeofLine } :=
              ⟨valid'.starts, valid'.clean, valid'.room.trans larger.le⟩
            have smaller :=
              grown_measure (by omega) noLines isFull shorter larger
            have fills := inductionHypothesis _ (bound ▸ smaller) input' grown
              isMore rfl
            rcases fills with ⟨last, rest, ends, fills⟩ |
              ⟨last, rest, ends, fills⟩
            · exact .inl ⟨last, rest, .again again ends, fills.valid,
                fills.pending.trans pending, fills.lines, fills.left, fills.eof,
                nofun⟩
            · refine .inr ⟨last, rest, .again again ends, fills.valid,
                fills.pending.trans pending, fills.lines, fills.left, fills.eof,
                fun isOver => ?_⟩
              obtain ⟨isOver, noText, left'⟩ := fills.exhausted isOver
              exact ⟨isOver, noText, left'.trans left⟩
          · refine .inl ⟨{ buffer' with
              left := buffer'.used - buffer'.lineStart }, input', .leave ?_,
              ⟨valid'.starts, valid'.clean, valid'.room⟩, pending,
              ⟨fun noneLeft => absurd noneLeft noLines, nofun⟩, fun _ => rfl,
              fun isOver => ?_, nofun⟩
            · simp only [fillBody, turn, List.isEmpty_iff, noLines, if_false]
            · obtain ⟨unfinished, noInput, -⟩ := eof isOver
              exact ⟨unfinished, noInput⟩

/-- `fillbuf` ends, in one way. -/
theorem fillbuf_fills {x2nrealloc : Nat → Nat}
    (grows : ∀ n, n < x2nrealloc n) (input : Word)
    (ready : buffer.Ready lineBytes eol) (more : buffer.eof = false) :
    ∃ ending, Fillbuf lineBytes eol x2nrealloc buffer input ending ∧
      match ending with
      | .left (buffer', input') =>
          Fills lineBytes eol buffer.carry input true buffer' input'
      | .exited (buffer', input') =>
          Fills lineBytes eol buffer.carry input false buffer' input' := by
  have more' : buffer.carry.eof = false := by
    rw [Buffer.carry]
    split <;> exact more
  have fillbuf {ending : Ending (Buffer × Word) (Buffer × Word)}
      (ends : Ends (fillBody lineBytes eol x2nrealloc) (buffer.carry, input)
        ending) : Fillbuf lineBytes eol x2nrealloc buffer input ending := by
    rw [Fillbuf, if_neg (by rw [more]; exact nofun)]
    exact ends
  rcases fillBody_ends grows input (carry_valid ready) more' with
    ⟨buffer', input', ends, fills⟩ | ⟨buffer', input', ends, fills⟩
  · exact ⟨_, fillbuf ends, fills⟩
  · exact ⟨_, fillbuf ends, fills⟩

/-- It comes to one ending. -/
theorem Fillbuf.unique {x2nrealloc : Nat → Nat} {input : Word}
    {ending ending' : Ending (Buffer × Word) (Buffer × Word)}
    (first : Fillbuf lineBytes eol x2nrealloc buffer input ending)
    (second : Fillbuf lineBytes eol x2nrealloc buffer input ending') :
    ending = ending' := by
  unfold Fillbuf at first second
  split at first
  next exhausted =>
    rw [if_pos exhausted] at second
    exact first.trans second.symm
  next more =>
    rw [if_neg more] at second
    exact first.unique second

/-! ## A file -/

/-- The line tables after the calls that return `true`. -/
inductive Buffers (lineBytes : Nat) (eol : Char) (x2nrealloc : Nat → Nat) :
    Buffer → Word → List (List Word) → Prop where
  | exhausted {buffer : Buffer} {input : Word} {state : Buffer × Word}
      (fill : Fillbuf lineBytes eol x2nrealloc buffer input (.exited state)) :
      Buffers lineBytes eol x2nrealloc buffer input []
  | more {buffer buffer' : Buffer} {input input' : Word}
      {tables : List (List Word)}
      (fill : Fillbuf lineBytes eol x2nrealloc buffer input
        (.left (buffer', input')))
      (later : Buffers lineBytes eol x2nrealloc buffer' input' tables) :
      Buffers lineBytes eol x2nrealloc buffer input (buffer'.lines :: tables)

/-- Between two calls, with the lines of the last one used up. -/
structure Between (lineBytes : Nat) (eol : Char) (buffer : Buffer)
    (input : Word) : Prop where
  ready : buffer.Ready lineBytes eol
  spent : buffer.carry.lines = []
  exhausted : buffer.eof = true → buffer.carry.unfinished = [] ∧ input = []

theorem pending_of_spent {input : Word} (spent : buffer.lines = []) :
    pending eol buffer input = linesOf eol (buffer.unfinished ++ input) := by
  rw [pending, spent, List.nil_append]

/-- The lines go, and what has begun after them stays. -/
theorem carry_of_lines (starts : buffer.lineStart ≤ buffer.used)
    (lines : buffer.lines ≠ [])
    (left : buffer.left = buffer.used - buffer.lineStart) :
    buffer.carry.lines = [] ∧ buffer.carry.unfinished = buffer.unfinished := by
  have started : buffer.lineStart ≠ 0 := fun zero => lines (extent_eq_zero zero)
  have moved : buffer.used ≠ buffer.left := by omega
  have start : buffer.used - buffer.left = buffer.lineStart := by omega
  rw [Buffer.carry, if_pos moved]
  refine ⟨rfl, ?_⟩
  rw [Buffer.unfinished, Buffer.unfinished, start]
  rfl

/-- A call puts the next lines into the buffer and loses none. -/
theorem between_fills {x2nrealloc : Nat → Nat} (grows : ∀ n, n < x2nrealloc n)
    {input : Word} (between : Between lineBytes eol buffer input) :
    (∃ buffer' input', Fillbuf lineBytes eol x2nrealloc buffer input
        (.left (buffer', input')) ∧ Between lineBytes eol buffer' input' ∧
        buffer'.lines ≠ [] ∧
        linesOf eol (buffer.carry.unfinished ++ input) = buffer'.lines ++
          linesOf eol (buffer'.carry.unfinished ++ input')) ∨
      (∃ state, Fillbuf lineBytes eol x2nrealloc buffer input (.exited state)) ∧
        linesOf eol (buffer.carry.unfinished ++ input) = [] := by
  obtain ⟨ready, spent, exhausted⟩ := between
  by_cases isOver : buffer.eof = true
  · obtain ⟨unfinished, noInput⟩ := exhausted isOver
    refine .inr ⟨⟨_, by rw [Fillbuf, if_pos isOver]⟩, ?_⟩
    rw [unfinished, noInput]
    rfl
  · obtain ⟨ending, fill, fills⟩ := fillbuf_fills grows input ready
      (Bool.eq_false_iff.mpr isOver)
    match ending, fills with
    | .left (buffer', input'), fills =>
        have lines : buffer'.lines ≠ [] := fun noLines => nomatch fills.lines.mp noLines
        obtain ⟨spent', carried⟩ :=
          carry_of_lines fills.valid.starts lines (fills.left rfl)
        refine .inl ⟨buffer', input', fill, ⟨⟨fills.valid, .inl (fills.left rfl)⟩,
          spent', fun isOver' => ?_⟩, lines, ?_⟩
        · rw [carried]
          exact fills.eof isOver'
        · rw [← pending_of_spent spent, ← fills.pending, pending, carried]
    | .exited (buffer', input'), fills =>
        obtain ⟨unfinished, noInput⟩ := fills.eof (fills.exhausted rfl).1
        refine .inr ⟨⟨_, fill⟩, ?_⟩
        rw [← pending_of_spent spent, ← fills.pending, pending,
          fills.lines.mpr rfl, unfinished, noInput]
        rfl

/-- Before the first call. -/
theorem initbuf_between (lineBytes : Nat) (eol : Char) (alloc : Nat)
    (input : Word) : Between lineBytes eol (initbuf alloc) input :=
  ⟨initbuf_ready lineBytes eol alloc, rfl, fun isOver => nomatch isOver⟩

/-- The calls after each other give all lines, in tables that are not empty. -/
theorem Between.buffers {x2nrealloc : Nat → Nat}
    (grows : ∀ n, n < x2nrealloc n) {input : Word}
    (between : Between lineBytes eol buffer input) :
    ∃ tables, Buffers lineBytes eol x2nrealloc buffer input tables ∧
      tables.flatten = linesOf eol (buffer.carry.unfinished ++ input) ∧
      ∀ table ∈ tables, table ≠ [] := by
  induction count : (linesOf eol (buffer.carry.unfinished ++ input)).length
    using Nat.strong_induction_on generalizing buffer input with
  | _ count inductionHypothesis =>
      rcases between_fills grows between with
        ⟨buffer', input', fill, between', nonempty, lines⟩ | ⟨⟨state, fill⟩, none⟩
      · have fewer := congrArg List.length lines
        have positive := List.length_pos_iff.mpr nonempty
        rw [List.length_append] at fewer
        obtain ⟨tables, later, flat, inTables⟩ :=
          inductionHypothesis _ (by omega) between' rfl
        refine ⟨_, .more fill later, ?_, fun table inside => ?_⟩
        · rw [List.flatten_cons, flat, lines]
        · rcases List.mem_cons.mp inside with rfl | inside
          · exact nonempty
          · exact inTables table inside
      · exact ⟨[], .exhausted fill, none.symm, fun table inside => nomatch inside⟩

/-- And they give the same tables each time. -/
theorem Buffers.unique {x2nrealloc : Nat → Nat} {input : Word}
    {tables tables' : List (List Word)}
    (first : Buffers lineBytes eol x2nrealloc buffer input tables)
    (second : Buffers lineBytes eol x2nrealloc buffer input tables') :
    tables = tables' := by
  induction first generalizing tables' with
  | exhausted fill =>
      cases second with
      | exhausted _ => rfl
      | more fill' _ => cases fill.unique fill'
  | more fill _ inductionHypothesis =>
      cases second with
      | exhausted fill' => cases fill.unique fill'
      | more fill' later' =>
          obtain ⟨rfl, rfl⟩ := Prod.mk.inj (Ending.left.inj (fill.unique fill'))
          rw [inductionHypothesis later']

/-- From a new buffer a file gives its lines. -/
theorem initbuf_buffers (lineBytes : Nat) (eol : Char)
    {x2nrealloc : Nat → Nat} (grows : ∀ n, n < x2nrealloc n) (alloc : Nat)
    (input : Word) :
    ∃ tables, Buffers lineBytes eol x2nrealloc (initbuf alloc) input tables ∧
      tables.flatten = linesOf eol input ∧ ∀ table ∈ tables, table ≠ [] :=
  (initbuf_between lineBytes eol alloc input).buffers grows

/-- Whatever tables there are, they are those. -/
theorem buffers_lines {x2nrealloc : Nat → Nat} (grows : ∀ n, n < x2nrealloc n)
    {alloc : Nat} {input : Word} {tables : List (List Word)}
    (buffers : Buffers lineBytes eol x2nrealloc (initbuf alloc) input tables) :
    tables.flatten = linesOf eol input ∧ ∀ table ∈ tables, table ≠ [] := by
  obtain ⟨tables', buffers', lines⟩ :=
    initbuf_buffers lineBytes eol grows alloc input
  rw [buffers.unique buffers']
  exact lines

/-- However small the buffer is at first, the calls read all the lines of a
file, and the text never runs into the line table. -/
theorem fillbuf_lines (lineBytes : Nat) (eol : Char) {x2nrealloc : Nat → Nat}
    (grows : ∀ n, n < x2nrealloc n) (alloc : Nat) (input : Word) :
    (∃ tables, Buffers lineBytes eol x2nrealloc (initbuf alloc) input tables) ∧
      (∀ tables, Buffers lineBytes eol x2nrealloc (initbuf alloc) input tables →
        tables.flatten = linesOf eol input ∧ ∀ table ∈ tables, table ≠ []) ∧
      ∀ state, Relation.ReflTransGen (fun state state' =>
          Fillbuf lineBytes eol x2nrealloc state.1 state.2 (.left state'))
          (initbuf alloc, input) state →
        state.1.used + state.1.lines.length * lineBytes ≤ state.1.alloc := by
  have between := initbuf_between lineBytes eol alloc input
  obtain ⟨tables, buffers, -⟩ := between.buffers grows
  refine ⟨⟨tables, buffers⟩, fun tables' buffers' => buffers_lines grows buffers',
    fun state reached => ?_⟩
  · have between' : Between lineBytes eol state.1 state.2 := by
      induction reached with
      | refl => exact between
      | tail _ fill inductionHypothesis =>
          rcases between_fills grows inductionHypothesis with
            ⟨buffer', input', fill', between', -⟩ | ⟨⟨_, fill'⟩, -⟩
          · rw [Ending.left.inj (fill.unique fill')]
            exact between'
          · cases fill.unique fill'
    exact between'.ready.valid.room

/-- Two lines and a buffer without room. -/
theorem fillbuf_lines_two :
    (∃ tables, Buffers 32 '\n' (fun n => n + n / 2 + 1) (initbuf 0)
        "ab\ncd".toList tables) ∧
      (∀ tables, Buffers 32 '\n' (fun n => n + n / 2 + 1) (initbuf 0)
          "ab\ncd".toList tables →
        tables.flatten = linesOf '\n' "ab\ncd".toList ∧
          ∀ table ∈ tables, table ≠ []) ∧
      ∀ state, Relation.ReflTransGen (fun state state' =>
          Fillbuf 32 '\n' (fun n => n + n / 2 + 1) state.1 state.2
            (.left state')) (initbuf 0, "ab\ncd".toList) state →
        state.1.used + state.1.lines.length * 32 ≤ state.1.alloc :=
  fillbuf_lines 32 '\n' (fun n => by omega) 0 "ab\ncd".toList

end

end Lmcas.SortBuffer
