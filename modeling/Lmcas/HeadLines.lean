import Lmcas.HeadBytes
import Lmcas.Lib.Lines

/-!
# All but the last lines

`elide_tail_lines_pipe` of `head.c`.  The text since the last write is kept in
a linked list of buffers; the oldest one is written as soon as enough lines
follow it.
-/

namespace Lmcas.HeadElide

open Lmcas.Lib.CString
open Lmcas.Lib.Lines

/-- `BUFSIZ` -/
structure Bufsiz where
  size : Nat
  positive : 0 < size

/-- `safe_read` of a file that comes in pieces: what is read, and what is left.
Nothing is read only at the end of the file. -/
def safeRead (count : Nat) : List Word → Word × List Word
  | [] => ([], [])
  | [] :: pieces => safeRead count pieces
  | (c :: piece) :: pieces =>
      ((c :: piece).take count, (c :: piece).drop count :: pieces)

/-- A read takes a part off the front of the text. -/
theorem safeRead_append (count : Nat) (pieces : List Word) :
    (safeRead count pieces).1 ++ (safeRead count pieces).2.flatten =
      pieces.flatten := by
  induction pieces with
  | nil => rfl
  | cons piece pieces inductionHypothesis =>
      cases piece with
      | nil => exact inductionHypothesis
      | cons c piece =>
          rw [safeRead, List.flatten_cons, ← List.append_assoc,
            List.take_append_drop, List.flatten_cons]

/-- A read of nothing is the end of the text. -/
theorem safeRead_eq_nil {count : Nat} (positive : 0 < count) {pieces : List Word}
    (nothing : (safeRead count pieces).1 = []) : pieces.flatten = [] := by
  induction pieces with
  | nil => rfl
  | cons piece pieces inductionHypothesis =>
      cases piece with
      | nil => exact inductionHypothesis nothing
      | cons c piece =>
          rw [safeRead, List.take_eq_nil_iff] at nothing
          rcases nothing with nothing | nothing
          · omega
          · cases nothing

/-- A read of something makes the rest shorter. -/
theorem safeRead_lt {count : Nat} {pieces : List Word}
    (nonempty : (safeRead count pieces).1 ≠ []) :
    (safeRead count pieces).2.flatten.length < pieces.flatten.length := by
  have both := congrArg List.length (safeRead_append count pieces)
  have positive := List.length_pos_iff.mpr nonempty
  rw [List.length_append] at both
  omega

/-! ## The linked list -/

/-- `LBUFFER`; `nbytes` is the length. -/
structure LBuffer where
  buffer : Word
  nlines : Nat
deriving DecidableEq, Repr

/-- The list, without its last buffer, and with it. -/
structure Buffering where
  older : List LBuffer
  last : LBuffer
  totalLines : Nat
  copied : Copied

/-- A write of all that a buffer holds. -/
def Copied.put (copied : Copied) (buffer : Word) : Copied :=
  ⟨copied.out ++ buffer, copied.desiredPos + buffer.length⟩

section

variable (bufsiz : Bufsiz) (lineEnd : Char) (nElide : Nat)

/-- `tmp` after a read. -/
def newBuffer (read : Word) : LBuffer :=
  ⟨read, read.count lineEnd⟩

/-- "If there's not enough room, link the new buffer onto the end of the list,
then free up the oldest buffer if that would leave enough lines." -/
def Buffering.link (state : Buffering) (tmp : LBuffer) : Buffering :=
  match state.older ++ [state.last] with
  | first :: older =>
      if nElide < state.totalLines - first.nlines then
        ⟨older, tmp, state.totalLines - first.nlines,
          state.copied.put first.buffer⟩
      else ⟨first :: older, tmp, state.totalLines, state.copied⟩
  | [] => ⟨[], tmp, state.totalLines, state.copied⟩

/-- What a turn of the loop does with a read: it is appended to the last buffer
if that has room, and linked otherwise. -/
def Buffering.take (state : Buffering) (read : Word) : Buffering :=
  if nElide = 0 then { state with copied := state.copied.put read }
  else
    let tmp := newBuffer lineEnd read
    let state := { state with totalLines := state.totalLines + tmp.nlines }
    if tmp.buffer.length + state.last.buffer.length < bufsiz.size then
      { state with last := ⟨state.last.buffer ++ tmp.buffer,
          state.last.nlines + tmp.nlines⟩ }
    else state.link nElide tmp

/-- The loop of `elide_tail_lines_pipe`. -/
def linesLoop (state : Buffering) (pieces : List Word) : Buffering :=
  let read := safeRead bufsiz.size pieces
  if _eof : read.1 = [] then state
  else linesLoop (state.take bufsiz lineEnd nElide read.1) read.2
termination_by pieces.flatten.length
decreasing_by exact safeRead_lt _eof

/-- The incomplete line is counted. -/
def Buffering.complete (state : Buffering) : Buffering :=
  if state.last.buffer ≠ [] ∧ state.last.buffer.getLast? ≠ some lineEnd then
    { state with
      last := ⟨state.last.buffer, state.last.nlines + 1⟩
      totalLines := state.totalLines + 1 }
  else state

/-- Behind the `n`-th end of a line, as `memchr` finds it; `none` for NULL. -/
def behindLines : Nat → Word → Option Nat
  | 0, _ => some 0
  | n + 1, buffer =>
      (buffer.idxOf? lineEnd).bind fun nl =>
        (behindLines n (buffer.drop (nl + 1))).map (nl + 1 + ·)

/-- The buffers that come before the last lines, and the first lines of the
one in which those begin; `none` behind the end of the list. -/
def flushLines (totalLines : Nat) (copied : Copied) :
    List LBuffer → Option Copied
  | [] => none
  | tmp :: buffers =>
      if nElide < totalLines - tmp.nlines then
        flushLines (totalLines - tmp.nlines) (copied.put tmp.buffer) buffers
      else if nElide < totalLines then
        (behindLines lineEnd (totalLines - nElide) tmp.buffer).map
          fun p => copied.put (tmp.buffer.take p)
      else some copied

/-- What is put out, and where the file is left if it can be repositioned. -/
def elideTailLinesPipe (currentPos : Option Nat) (pieces : List Word) :
    Option (Word × Option Nat) :=
  let start : Buffering := ⟨[], ⟨[], 0⟩, 0, ⟨[], currentPos.getD 0⟩⟩
  let state := (linesLoop bufsiz lineEnd nElide start pieces).complete lineEnd
  (flushLines lineEnd nElide state.totalLines state.copied
    (state.older ++ [state.last])).map
      fun copied => (copied.out, currentPos.map fun _ => copied.desiredPos)

end

/-! ## What the buffers hold -/

/-- The text that the buffers hold. -/
def textOf (buffers : List LBuffer) : Word :=
  (buffers.map LBuffer.buffer).flatten

@[simp]
theorem textOf_nil : textOf [] = [] :=
  rfl

@[simp]
theorem textOf_cons (tmp : LBuffer) (buffers : List LBuffer) :
    textOf (tmp :: buffers) = tmp.buffer ++ textOf buffers :=
  rfl

@[simp]
theorem textOf_append (buffers buffers' : List LBuffer) :
    textOf (buffers ++ buffers') = textOf buffers ++ textOf buffers' := by
  rw [textOf, List.map_append, List.flatten_append, textOf, textOf]

section

variable {lineEnd : Char}

/-- Buffers with their numbers of lines, the incomplete one counted. -/
inductive Lined (lineEnd : Char) : List LBuffer → Prop
  | last {tmp : LBuffer} (counted : tmp.nlines = lineCount lineEnd tmp.buffer) :
      Lined lineEnd [tmp]
  | cons {tmp : LBuffer} {buffers : List LBuffer}
      (counted : tmp.nlines = tmp.buffer.count lineEnd)
      (nonempty : textOf buffers ≠ []) (later : Lined lineEnd buffers) :
      Lined lineEnd (tmp :: buffers)

/-- The first newline stands behind a front without one. -/
theorem idxOf?_append {front : Word} (clean : lineEnd ∉ front) (rest : Word) :
    (front ++ lineEnd :: rest).idxOf? lineEnd = some front.length := by
  induction front with
  | nil => simp [List.idxOf?_cons]
  | cons c front inductionHypothesis =>
      obtain ⟨other, clean⟩ := not_or.mp (mt List.mem_cons.mpr clean)
      rw [List.cons_append, List.idxOf?_cons, inductionHypothesis clean,
        if_neg (by simpa using Ne.symm other)]
      rfl

/-- Behind so many newlines the first lines end. -/
theorem behindLines_eq {n : Nat} {buffer : Word}
    (enough : n ≤ buffer.count lineEnd) :
    behindLines lineEnd n buffer =
      some (firstLines lineEnd n buffer).length := by
  induction n generalizing buffer with
  | zero =>
      rw [firstLines_zero]
      rfl
  | succ n inductionHypothesis =>
      obtain ⟨front, rest, rfl, clean⟩ := List.eq_append_cons_of_mem
        (List.count_pos_iff.mp (Nat.zero_lt_of_lt enough))
      have noNewline := List.count_eq_zero.mpr clean
      rw [List.count_append, noNewline, List.count_cons_self, Nat.zero_add] at enough
      have behind : (front ++ lineEnd :: rest).drop (front.length + 1) =
          rest := by
        rw [List.drop_append, List.drop_of_length_le (by omega)]
        simp
      rw [behindLines, idxOf?_append clean, Option.bind_some, behind,
        inductionHypothesis (Nat.le_of_succ_le_succ enough),
        firstLines_append_of_lt (by omega), noNewline, Nat.sub_zero, firstLines,
        if_pos rfl, List.length_append, List.length_cons, Option.map_some]
      congr 1
      omega

/-- Writing nothing changes nothing. -/
@[simp]
theorem Copied.put_nil (copied : Copied) : copied.put [] = copied := by
  rw [put, List.append_nil, List.length_nil, Nat.add_zero]

/-- Two writes are one. -/
@[simp]
theorem Copied.put_put (copied : Copied) (buffer buffer' : Word) :
    (copied.put buffer).put buffer' = copied.put (buffer ++ buffer') := by
  simp only [put, List.append_assoc, List.length_append, Nat.add_assoc]

/-- Writing up to the newline is writing the first lines. -/
theorem putLines_eq {n : Nat} {buffer : Word}
    (enough : n ≤ buffer.count lineEnd) (copied : Copied) :
    (behindLines lineEnd n buffer).map
        (fun p => copied.put (buffer.take p)) =
      some (copied.put (firstLines lineEnd n buffer)) := by
  rw [behindLines_eq enough, Option.map_some,
    ← List.prefix_iff_eq_take.mp (firstLines_isPrefix _ buffer)]

/-- The buffers that are left are written up to the lines that are elided. -/
theorem flushLines_eq {nElide : Nat} (elides : nElide ≠ 0)
    {buffers : List LBuffer} (lined : Lined lineEnd buffers) {copied : Copied}
    {totalLines : Nat} (total : totalLines = lineCount lineEnd (textOf buffers)) :
    flushLines lineEnd nElide totalLines copied buffers =
      some (copied.put (firstLines lineEnd (totalLines - nElide)
        (textOf buffers))) := by
  induction lined generalizing copied totalLines with
  | last counted =>
      rename_i tmp
      rw [textOf_cons, textOf_nil, List.append_nil] at total ⊢
      rw [flushLines, counted, ← total, Nat.sub_self, if_neg (Nat.not_lt_zero _)]
      split
      next more =>
        refine putLines_eq ?_ copied
        rw [total, lineCount_eq]
        split <;> omega
      next few =>
        rw [Nat.sub_eq_zero_of_le (Nat.not_lt.mp few), firstLines_zero,
          Copied.put_nil]
  | cons counted someText later inductionHypothesis =>
      rename_i tmp buffers
      rw [textOf_cons] at total ⊢
      rw [lineCount_append _ someText, ← counted] at total
      rw [flushLines]
      split
      next more =>
        rw [inductionHypothesis (by omega), firstLines_append_of_lt (by omega),
          ← counted, Nat.sub_right_comm, Copied.put_put]
      next enough =>
        rw [firstLines_append_of_le (by omega)]
        split
        next => exact putLines_eq (by omega) copied
        next few =>
          rw [Nat.sub_eq_zero_of_le (Nat.not_lt.mp few), firstLines_zero,
            Copied.put_nil]

/-- The state of the list when `text` has been read. -/
structure Holds (lineEnd : Char) (nElide start : Nat) (text : Word)
    (state : Buffering) : Prop where
  text : text = state.copied.out ++ textOf (state.older ++ [state.last])
  desiredPos : state.copied.desiredPos = start + state.copied.out.length
  counted : ∀ tmp ∈ state.older ++ [state.last],
    tmp.nlines = tmp.buffer.count lineEnd
  total : state.totalLines =
    (textOf (state.older ++ [state.last])).count lineEnd
  kept : state.copied.out ≠ [] → nElide < state.totalLines
  later : state.older ≠ [] → state.last.buffer ≠ []

/-- A read may be appended to the last buffer. -/
theorem Holds.append {nElide start : Nat} {text : Word} {state : Buffering}
    (holds : Holds lineEnd nElide start text state) (read : Word) :
    Holds lineEnd nElide start (text ++ read)
      { state with
        last := ⟨state.last.buffer ++ read,
          state.last.nlines + read.count lineEnd⟩
        totalLines := state.totalLines + read.count lineEnd } := by
  obtain ⟨isText, desiredPos, counted, total, kept, later⟩ := holds
  refine ⟨?_, desiredPos, fun tmp inside => ?_, ?_, fun nonempty => ?_,
    fun nonempty => ?_⟩
  · simp [isText]
  · rcases List.mem_append.mp inside with inside | inside
    · exact counted tmp (List.mem_append_left _ inside)
    · rw [List.mem_singleton.mp inside, List.count_append,
        counted state.last (List.mem_append_right _ List.mem_cons_self)]
  · simp [total, Nat.add_assoc]
  · exact Nat.lt_add_right _ (kept nonempty)
  · exact List.append_ne_nil_of_left_ne_nil (later nonempty) read

/-- A read may be linked, and the first buffer is written if the others hold
enough lines. -/
theorem Holds.link {nElide start : Nat} {text : Word} {state : Buffering}
    (holds : Holds lineEnd nElide start text state) {read : Word}
    (nonempty : read ≠ []) :
    Holds lineEnd nElide start (text ++ read)
      (Buffering.link nElide
        { state with totalLines := state.totalLines + read.count lineEnd }
        (newBuffer lineEnd read)) := by
  obtain ⟨isText, desiredPos, counted, total, kept, -⟩ := holds
  rw [Buffering.link]
  dsimp only
  cases buffers : state.older ++ [state.last] with
  | nil => exact absurd buffers (by simp)
  | cons first older =>
      rw [buffers, textOf_cons] at isText total
      rw [buffers] at counted
      have firstCounted := counted first List.mem_cons_self
      rw [List.count_append, ← firstCounted] at total
      have counted' : ∀ tmp ∈ older ++ [newBuffer lineEnd read],
          tmp.nlines = tmp.buffer.count lineEnd := by
        intro tmp inside
        rcases List.mem_append.mp inside with inside | inside
        · exact counted tmp (List.mem_cons_of_mem _ inside)
        · rw [List.mem_singleton.mp inside]
          rfl
      dsimp only
      split
      next enough =>
        refine ⟨?_, ?_, counted', ?_, fun _ => enough, fun _ => nonempty⟩
        · simp [isText, Copied.put, newBuffer]
        · simp [Copied.put, desiredPos, Nat.add_assoc]
        · simp only [textOf_append, textOf_cons, textOf_nil, newBuffer,
            List.append_nil, List.count_append]
          omega
      next few =>
        refine ⟨?_, desiredPos, fun tmp inside => ?_, ?_, fun out => ?_,
          fun _ => nonempty⟩
        · simp [isText, newBuffer]
        · rcases List.mem_cons.mp inside with rfl | inside
          · exact firstCounted
          · exact counted' tmp inside
        · simp only [textOf_append, textOf_cons, textOf_nil, newBuffer,
            List.append_nil, List.count_append, List.cons_append]
          omega
        · exact Nat.lt_add_right _ (kept out)

/-- A turn keeps the buffers in order. -/
theorem Holds.take {bufsiz : Bufsiz} {nElide start : Nat} {text : Word}
    {state : Buffering} (elides : nElide ≠ 0)
    (holds : Holds lineEnd nElide start text state) {read : Word}
    (nonempty : read ≠ []) :
    Holds lineEnd nElide start (text ++ read)
      (state.take bufsiz lineEnd nElide read) := by
  rw [Buffering.take, if_neg elides]
  dsimp only
  split
  · exact holds.append read
  · exact holds.link nonempty

/-- So does the loop. -/
theorem linesLoop_holds {bufsiz : Bufsiz} {nElide start : Nat} {text : Word}
    {state : Buffering} (elides : nElide ≠ 0)
    (holds : Holds lineEnd nElide start text state) (pieces : List Word) :
    Holds lineEnd nElide start (text ++ pieces.flatten)
      (linesLoop bufsiz lineEnd nElide state pieces) := by
  induction count : pieces.flatten.length using Nat.strong_induction_on
    generalizing text state pieces with
  | _ _ inductionHypothesis =>
      have both := safeRead_append bufsiz.size pieces
      rw [linesLoop]
      split
      next eof =>
        rw [safeRead_eq_nil bufsiz.positive eof, List.append_nil]
        exact holds
      next nonempty =>
        rw [← both, ← List.append_assoc]
        exact inductionHypothesis _ (count ▸ safeRead_lt nonempty)
          (holds.take elides nonempty) _ rfl

/-- Without lines to elide, everything is written at once. -/
theorem linesLoop_zero {bufsiz : Bufsiz} (state : Buffering)
    (pieces : List Word) :
    linesLoop bufsiz lineEnd 0 state pieces =
      { state with copied := state.copied.put pieces.flatten } := by
  induction count : pieces.flatten.length using Nat.strong_induction_on
    generalizing state pieces with
  | _ _ inductionHypothesis =>
      have both := safeRead_append bufsiz.size pieces
      rw [linesLoop]
      split
      next eof =>
        rw [safeRead_eq_nil bufsiz.positive eof, Copied.put_nil]
      next nonempty =>
        rw [inductionHypothesis _ (count ▸ safeRead_lt nonempty) _ _ rfl,
          Buffering.take, if_pos rfl, Copied.put_put, both]

/-- Behind the loop only the last buffer has an unfinished line. -/
theorem lined_append {older : List LBuffer} {last : LBuffer}
    (counted : ∀ tmp ∈ older, tmp.nlines = tmp.buffer.count lineEnd)
    (isLast : last.nlines = lineCount lineEnd last.buffer)
    (later : older ≠ [] → last.buffer ≠ []) :
    Lined lineEnd (older ++ [last]) := by
  induction older with
  | nil => exact .last isLast
  | cons tmp older inductionHypothesis =>
      have nonempty := later (List.cons_ne_nil tmp older)
      refine .cons (counted tmp List.mem_cons_self) ?_
        (inductionHypothesis
          (fun tmp inside => counted tmp (List.mem_cons_of_mem _ inside))
          fun _ => nonempty)
      show textOf (older ++ [last]) ≠ []
      rw [textOf_append]
      simp [nonempty]

/-- The list when the incomplete line has been counted. -/
structure Completed (lineEnd : Char) (text : Word) (copied : Copied)
    (state : Buffering) : Prop where
  lined : Lined lineEnd (state.older ++ [state.last])
  held : textOf (state.older ++ [state.last]) = text
  copied : state.copied = copied
  total : state.totalLines = lineCount lineEnd text

/-- The last line counts even if it is not ended. -/
theorem Holds.complete {nElide start : Nat} {text : Word} {state : Buffering}
    (holds : Holds lineEnd nElide start text state) :
    Completed lineEnd (textOf (state.older ++ [state.last])) state.copied
      (state.complete lineEnd) := by
  obtain ⟨-, -, counted, total, -, later⟩ := holds
  have older (tmp : LBuffer) (inside : tmp ∈ state.older) :=
    counted tmp (List.mem_append_left _ inside)
  have last := counted state.last (List.mem_append_right _ List.mem_cons_self)
  have split : lineCount lineEnd (textOf (state.older ++ [state.last])) =
      (textOf state.older).count lineEnd +
        lineCount lineEnd state.last.buffer := by
    rw [textOf_append, textOf_cons, textOf_nil, List.append_nil]
    by_cases empty : state.last.buffer = []
    · have noOlder : state.older = [] := not_not.mp (mt later (not_not.mpr empty))
      rw [empty, noOlder]
      rfl
    · exact lineCount_append _ empty
  rw [textOf_append, textOf_cons, textOf_nil, List.append_nil,
    List.count_append] at total
  rw [Buffering.complete]
  split
  next incomplete =>
    have lines : lineCount lineEnd state.last.buffer =
        state.last.buffer.count lineEnd + 1 := by
      rw [lineCount_eq, if_neg (not_or.mpr incomplete)]
    refine ⟨lined_append older ?_ later, ?_, rfl, ?_⟩
    · rw [lines, last]
    · simp
    · rw [split, lines, total, Nat.add_assoc]
  next complete =>
    have lines : lineCount lineEnd state.last.buffer =
        state.last.buffer.count lineEnd := by
      rw [lineCount_eq, if_pos (by tauto), Nat.add_zero]
    refine ⟨lined_append older ?_ later, rfl, rfl, ?_⟩
    · rw [lines, last]
    · rw [split, lines, total]

end

/-- All but the last lines of a text. -/
def allButLast (lineEnd : Char) (nElide : Nat) (text : Word) : Word :=
  firstLines lineEnd (lineCount lineEnd text - nElide) text

/-- What has been put out before stays. -/
theorem Holds.allButLast {lineEnd : Char} {nElide start : Nat} {text : Word}
    {state : Buffering} (holds : Holds lineEnd nElide start text state) :
    allButLast lineEnd nElide text = state.copied.out ++
      allButLast lineEnd nElide (textOf (state.older ++ [state.last])) := by
  obtain ⟨rfl, -, -, total, kept, -⟩ := holds
  by_cases nothing : state.copied.out = []
  · rw [nothing, List.nil_append, List.nil_append]
  · have more := kept nothing
    have nonempty : textOf (state.older ++ [state.last]) ≠ [] := by
      intro isNil
      rw [isNil] at total
      rw [total] at more
      exact Nat.not_lt_zero _ more
    have least : state.totalLines ≤
        lineCount lineEnd (textOf (state.older ++ [state.last])) := by
      rw [lineCount_eq, total]
      exact Nat.le_add_right _ _
    rw [HeadElide.allButLast, lineCount_append _ nonempty,
      firstLines_append_of_lt (by omega), HeadElide.allButLast]
    congr 2
    omega

/-- The whole of `elide_tail_lines_pipe`. -/
theorem elideTailLinesPipe_eq (bufsiz : Bufsiz) (lineEnd : Char) (nElide : Nat)
    (currentPos : Option Nat) (pieces : List Word) :
    elideTailLinesPipe bufsiz lineEnd nElide currentPos pieces =
      some (allButLast lineEnd nElide pieces.flatten, currentPos.map
        (· + (allButLast lineEnd nElide pieces.flatten).length)) := by
  by_cases zero : nElide = 0
  · subst zero
    have everything : allButLast lineEnd 0 pieces.flatten = pieces.flatten :=
      firstLines_eq_self le_rfl
    rw [elideTailLinesPipe, everything]
    simp only [linesLoop_zero]
    cases currentPos <;> rfl
  · have begins : Holds lineEnd nElide (currentPos.getD 0) []
        ⟨[], ⟨[], 0⟩, 0, ⟨[], currentPos.getD 0⟩⟩ :=
      ⟨rfl, rfl, fun tmp inside => by rw [List.mem_singleton.mp inside]; rfl, rfl,
        fun impossible => absurd rfl impossible, fun impossible => absurd rfl impossible⟩
    have holds := @linesLoop_holds lineEnd bufsiz _ _ _ _ zero begins pieces
    rw [List.nil_append] at holds
    rw [elideTailLinesPipe]
    generalize linesLoop bufsiz lineEnd nElide _ pieces = state at *
    have everything := holds.allButLast
    obtain ⟨lined, held, copied, total⟩ := holds.complete
    rw [← held] at total
    rw [flushLines_eq zero lined total, total, held, ← allButLast, copied, everything,
      Option.map_some, Copied.put, holds.desiredPos, List.length_append]
    cases currentPos with
    | none => rfl
    | some position => simp [Nat.add_assoc]

/-- Whole lines from the beginning of a text. -/
structure WholeLines (lineEnd : Char) (count : Nat) (text out : Word) : Prop where
  isPrefix : out <+: text
  lines : linesOf lineEnd out = (linesOf lineEnd text).take count
  ended : out = text ∨ out = [] ∨ out.getLast? = some lineEnd

/-- The first lines of a text are whole lines. -/
theorem wholeLines_firstLines (lineEnd : Char) (count : Nat) (text : Word) :
    WholeLines lineEnd count text (firstLines lineEnd count text) where
  isPrefix := firstLines_isPrefix count text
  lines := linesOf_firstLines count text
  ended := by
    by_cases enough : count ≤ text.count lineEnd
    · exact .inr (firstLines_ended enough)
    · have everything := firstLines_append_of_lt (Nat.not_le.mp enough) []
      rw [firstLines_nil, List.append_nil] at everything
      exact .inl everything

/-- All but the last lines are put out, whatever pieces the text comes in, and
the file is left behind them. -/
theorem elide_tail_lines_pipe (bufsiz : Bufsiz) (lineEnd : Char) (nElide : Nat)
    (currentPos : Option Nat) (pieces : List Word) :
    ∃ out, elideTailLinesPipe bufsiz lineEnd nElide currentPos pieces =
        some (out, currentPos.map (· + out.length)) ∧
      WholeLines lineEnd ((linesOf lineEnd pieces.flatten).length - nElide)
        pieces.flatten out :=
  ⟨_, elideTailLinesPipe_eq bufsiz lineEnd nElide currentPos pieces,
    wholeLines_firstLines lineEnd _ pieces.flatten⟩

end Lmcas.HeadElide
