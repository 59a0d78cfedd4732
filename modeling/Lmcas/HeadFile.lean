import Lmcas.HeadLines

/-!
# `head` of one file

The other ways in which `head.c` copies the beginning of a file, and `head`,
which chooses among them.  A regular file does not change meanwhile, and a read
of it returns all that it is asked for; a repositioning succeeds if the file is
regular.
-/

namespace Lmcas.HeadElide

open Lmcas.Lib.CString
open Lmcas.Lib.Lines

/-! ## From the end -/

/-- The last place in front of `n` that holds `c`. -/
def memrchr (c : Char) (buffer : Word) : Nat → Option Nat
  | 0 => none
  | n + 1 => if buffer[n]? = some c then some n else memrchr c buffer n

/-- The character is found in the part that was searched. -/
theorem memrchr_lt {c : Char} {buffer : Word} {n nl : Nat}
    (found : memrchr c buffer n = some nl) : nl < n := by
  induction n with
  | zero => cases found
  | succ n inductionHypothesis =>
      rw [memrchr] at found
      split at found
      · cases found
        exact Nat.lt_succ_self _
      · exact Nat.lt_succ_of_lt (inductionHypothesis found)

section

variable (lineEnd : Char) (allLines : Bool)

/-- "Scan backward, counting the newlines in this bufferfull": where it ends,
or the lines that are still to be found. -/
def scanBack (buffer : Word) (n nLines : Nat) : Nat ⊕ Nat :=
  if _done : n = 0 then .inr nLines
  else
    match _found : if allLines then some (n - 1) else memrchr lineEnd buffer n
      with
    | none => .inr nLines
    | some n' =>
        if nLines = 0 then .inl n' else scanBack buffer n' (nLines - 1)
termination_by n
decreasing_by
  split at _found
  · cases _found
    omega
  · exact memrchr_lt _found

end

/-- The blocks from `pos` on towards the beginning. -/
def seekLoop (bufsiz : Bufsiz) (lineEnd : Char) (allLines : Bool) (text : Word)
    (startPos pos bytesRead nLines : Nat) : Word × Nat :=
  let buffer := (text.drop pos).take bytesRead
  match scanBack lineEnd allLines buffer buffer.length nLines with
  | .inl n =>
      ((text.drop startPos).take (pos - startPos) ++ buffer.take (n + 1),
        pos + n + 1)
  | .inr nLines =>
      if _first : pos ≤ startPos then ([], pos + buffer.length)
      else
        seekLoop bufsiz lineEnd allLines text startPos (pos - bufsiz.size)
          bufsiz.size nLines
termination_by pos
decreasing_by
  have positive := bufsiz.positive
  omega

/-- What is put out, and where the file is left. -/
def elideTailLinesSeekable (bufsiz : Bufsiz) (lineEnd : Char) (nLines : Nat)
    (startPos : Nat) (text : Word) : Word × Nat :=
  let size := text.length
  let bytesRead :=
    if (size - startPos) % bufsiz.size = 0 then bufsiz.size
    else (size - startPos) % bufsiz.size
  let pos := size - bytesRead
  let buffer := (text.drop pos).take bytesRead
  let incomplete := nLines ≠ 0 ∧ buffer ≠ [] ∧ buffer.getLast? ≠ some lineEnd
  seekLoop bufsiz lineEnd (nLines = 0) text startPos pos bytesRead
    (if incomplete then nLines - 1 else nLines)

/-- It does not occur behind the place that is found. -/
theorem memrchr_some {c : Char} {buffer : Word} {n nl : Nat}
    (found : memrchr c buffer n = some nl) :
    ∃ back, buffer.take n = buffer.take nl ++ c :: back ∧ c ∉ back := by
  induction n with
  | zero => cases found
  | succ n inductionHypothesis =>
      rw [memrchr] at found
      rw [List.take_add_one]
      split at found
      next here =>
        obtain rfl := Option.some.inj found
        exact ⟨[], by rw [here]; rfl, List.not_mem_nil⟩
      next other =>
        obtain ⟨back, same, clean⟩ := inductionHypothesis found
        refine ⟨back ++ buffer[n]?.toList, by rw [same]; simp, ?_⟩
        rw [List.mem_append, not_or]
        exact ⟨clean, fun inside => other (Option.mem_toList.mp inside)⟩

/-- If it is not found it does not occur. -/
theorem memrchr_none {c : Char} {buffer : Word} {n : Nat}
    (notFound : memrchr c buffer n = none) : c ∉ buffer.take n := by
  induction n with
  | zero => exact List.not_mem_nil
  | succ n inductionHypothesis =>
      rw [memrchr] at notFound
      rw [List.take_add_one]
      split at notFound
      next => cases notFound
      next other =>
        rw [List.mem_append, not_or]
        exact ⟨inductionHypothesis notFound,
          fun inside => other (Option.mem_toList.mp inside)⟩

section

variable {lineEnd : Char}

/-- The end of a line in front of `nLines` others, or how many are missing. -/
theorem scanBack_spec (buffer : Word) (n nLines : Nat) :
    (∀ nl, scanBack lineEnd false buffer n nLines = .inl nl →
      ∃ back, buffer.take n = buffer.take nl ++ lineEnd :: back ∧
        back.count lineEnd = nLines) ∧
    ∀ left, scanBack lineEnd false buffer n nLines = .inr left →
      (buffer.take n).count lineEnd + left = nLines := by
  induction n using Nat.strong_induction_on generalizing nLines with
  | _ n inductionHypothesis =>
      rw [scanBack]
      split
      next done =>
        subst done
        refine ⟨nofun, fun left same => ?_⟩
        rw [Sum.inr.inj same, List.take_zero, List.count_nil, Nat.zero_add]
      next more =>
        split
        next isNone =>
          have clear : memrchr lineEnd buffer n = Option.none := isNone
          refine ⟨nofun, fun left same => ?_⟩
          rw [Sum.inr.inj same, List.count_eq_zero.mpr (memrchr_none clear),
            Nat.zero_add]
        next nl isSome =>
          have found : memrchr lineEnd buffer n = some nl := isSome
          obtain ⟨back, same, clean⟩ := memrchr_some found
          have clear := List.count_eq_zero.mpr clean
          obtain ⟨found', left'⟩ := inductionHypothesis nl (memrchr_lt found)
            (nLines - 1)
          split
          next zero =>
            refine ⟨fun nl' isFound => ?_, nofun⟩
            rw [← Sum.inl.inj isFound, zero]
            exact ⟨back, same, clear⟩
          next positive =>
            constructor
            · intro nl' isFound
              obtain ⟨back', same', count⟩ := found' nl' isFound
              refine ⟨back' ++ lineEnd :: back, ?_, ?_⟩
              · rw [same, same', List.append_assoc, List.cons_append]
              · rw [List.count_append, List.count_cons_self, count, clear]
                omega
            · intro left isLeft
              have count := left' left isLeft
              rw [same, List.count_append, List.count_cons_self, clear]
              omega

/-- The whole line in front of `nLines` others. -/
theorem scanBack_found {buffer : Word} {nLines nl : Nat}
    (found : scanBack lineEnd false buffer buffer.length nLines = .inl nl) :
    ∃ back, buffer.take (nl + 1) ++ back = buffer ∧
      (buffer.take (nl + 1)).getLast? = some lineEnd ∧
      nl < buffer.length ∧ back.count lineEnd = nLines := by
  obtain ⟨back, same, count⟩ :=
    (scanBack_spec buffer buffer.length nLines).1 nl found
  rw [List.take_length] at same
  have lengths := congrArg List.length same
  rw [List.length_append, List.length_cons, List.length_take] at lengths
  have ended : buffer.take (nl + 1) = buffer.take nl ++ [lineEnd] := by
    rw [List.take_add_one]
    congr 1
    have here : buffer[nl]? = some lineEnd := by
      rw [same, List.getElem?_append_right (List.length_take_le _ _),
        List.length_take_of_le (by omega), Nat.sub_self]
      rfl
    rw [here]
    rfl
  refine ⟨back, ?_, ?_, by omega, count⟩
  · rw [ended, List.append_assoc]
    exact same.symm
  · rw [ended]
    simp

/-- A block with too few newlines leaves the others to be found. -/
theorem scanBack_left {buffer : Word} {nLines left : Nat}
    (isLeft : scanBack lineEnd false buffer buffer.length nLines = .inr left) :
    buffer.count lineEnd + left = nLines := by
  have count := (scanBack_spec buffer buffer.length nLines).2 left isLeft
  rwa [List.take_length] at count

/-- Before the block at `pos` is scanned. -/
structure Seeking (bufsiz : Bufsiz) (lineEnd : Char) (text : Word)
    (startPos target pos bytesRead nLines : Nat) : Prop where
  start : startPos ≤ pos
  inside : pos + bytesRead ≤ text.length
  block : ∃ blocks, pos - startPos = blocks * bufsiz.size
  found : (text.drop (pos + bytesRead)).count lineEnd + nLines = target
  length : (if pos = startPos then bytesRead else bufsiz.size) =
    min (text.length - startPos) bufsiz.size

/-- From the end of the file backwards, the loop finds the newline that ends the
last line to be written. -/
theorem seekLoop_spec {bufsiz : Bufsiz} {text : Word}
    {startPos target pos bytesRead nLines : Nat}
    (seeking : Seeking bufsiz lineEnd text startPos target pos bytesRead
      nLines) :
    seekLoop bufsiz lineEnd false text startPos pos bytesRead nLines =
      if target < (text.drop startPos).count lineEnd then
        (firstLines lineEnd ((text.drop startPos).count lineEnd - target)
            (text.drop startPos),
          startPos + (firstLines lineEnd
            ((text.drop startPos).count lineEnd - target)
            (text.drop startPos)).length)
      else ([], startPos + min (text.length - startPos) bufsiz.size) := by
  induction pos using Nat.strong_induction_on generalizing bytesRead nLines with
  | _ pos inductionHypothesis =>
      obtain ⟨start, inside, block, found, length⟩ := seeking
      have size : ((text.drop pos).take bytesRead).length = bytesRead := by
        rw [List.length_take, List.length_drop]
        omega
      have rest : text.drop pos =
          (text.drop pos).take bytesRead ++ text.drop (pos + bytesRead) := by
        rw [← List.drop_drop, List.take_append_drop]
      have region : text.drop startPos =
          (text.drop startPos).take (pos - startPos) ++ text.drop pos := by
        have behind : text.drop pos =
            (text.drop startPos).drop (pos - startPos) := by
          rw [List.drop_drop]
          congr 1
          omega
        rw [behind, List.take_append_drop]
      rw [seekLoop]
      generalize (text.drop pos).take bytesRead = buffer at *
      generalize text.drop (pos + bytesRead) = behind at *
      generalize isFront : (text.drop startPos).take (pos - startPos) = front
        at *
      cases scan : scanBack lineEnd false buffer buffer.length nLines with
      | inl nl =>
          obtain ⟨back, same, ended, few, count⟩ := scanBack_found scan
          have whole : text.drop startPos =
              (front ++ buffer.take (nl + 1)) ++ (back ++ behind) :=
            calc text.drop startPos = front ++ (buffer ++ behind) := by
                  rw [region, rest]
              _ = front ++ (buffer.take (nl + 1) ++ back ++ behind) := by
                  rw [same]
              _ = _ := by simp only [List.append_assoc]
          have later : (back ++ behind).count lineEnd = target := by
            rw [List.count_append, count]
            omega
          have last : (front ++ buffer.take (nl + 1)).getLast? =
              some lineEnd := by
            rw [List.getLast?_append, ended]
            rfl
          obtain ⟨more, lines⟩ :=
            firstLines_append_of_ended last (back ++ behind)
          rw [← whole, later] at more lines
          have frontLength : front.length = pos - startPos := by
            rw [← isFront, List.length_take, List.length_drop]
            omega
          have count' : (buffer.take (nl + 1)).length = nl + 1 :=
            List.length_take_of_le few
          have place : pos + nl + 1 = startPos +
              (front ++ buffer.take (nl + 1)).length := by
            rw [List.length_append, frontLength, count']
            omega
          rw [if_pos more, lines]
          exact congrArg (Prod.mk _) place
      | inr left =>
          have count := scanBack_left scan
          have before : (text.drop pos).count lineEnd + left = target := by
            rw [rest, List.count_append]
            omega
          dsimp only
          split
          next first =>
            obtain rfl := Nat.le_antisymm first start
            rw [if_pos rfl] at length
            rw [if_neg (by omega), ← length, size]
          next more =>
            obtain ⟨blocks, isBlock⟩ := block
            obtain ⟨blocks, rfl⟩ : ∃ blocks', blocks = blocks' + 1 :=
              Nat.exists_eq_succ_of_ne_zero fun zero => by
                rw [zero, Nat.zero_mul] at isBlock
                omega
            rw [Nat.succ_mul] at isBlock
            have positive := bufsiz.positive
            have back : pos - bufsiz.size + bufsiz.size = pos := by
              omega
            rw [if_neg (by omega)] at length
            refine inductionHypothesis _ (by omega)
              ⟨by omega, by omega, ⟨blocks, by omega⟩, ?_, ?_⟩
            · rw [back]
              exact before
            · rw [ite_self]
              exact length

/-- The last block ends as the file does. -/
theorem getLast?_take_drop {text : Word} {startPos pos : Nat}
    (start : startPos ≤ pos) (inside : pos < text.length) :
    (text.drop startPos).getLast? = (text.drop pos).getLast? := by
  rw [List.getLast?_drop, List.getLast?_drop, if_neg (by omega),
    if_neg (by omega)]

/-- The last, probably partial, buffer. -/
theorem lastBlock {d n : Nat} (width : 0 < d) (positive : 0 < n) :
    0 < (if d % n = 0 then n else d % n) ∧
      (if d % n = 0 then n else d % n) ≤ d ∧
      (∃ blocks, d - (if d % n = 0 then n else d % n) = blocks * n) ∧
      (if d = (if d % n = 0 then n else d % n) then d else n) = min d n := by
  have whole := Nat.div_add_mod' d n
  have below := Nat.mod_lt d positive
  split
  next even =>
    obtain ⟨blocks, isBlocks⟩ : ∃ blocks, d / n = blocks + 1 :=
      Nat.exists_eq_succ_of_ne_zero fun zero => by
        rw [zero, Nat.zero_mul] at whole
        omega
    rw [isBlocks, Nat.succ_mul] at whole
    refine ⟨positive, by omega, ⟨blocks, by omega⟩, ?_⟩
    split <;> omega
  next odd =>
    refine ⟨by omega, by omega, ⟨d / n, by omega⟩, ?_⟩
    split
    next => omega
    next more =>
      obtain ⟨blocks, isBlocks⟩ : ∃ blocks, d / n = blocks + 1 :=
        Nat.exists_eq_succ_of_ne_zero fun zero => by
          rw [zero, Nat.zero_mul] at whole
          omega
      rw [isBlocks, Nat.succ_mul] at whole
      omega

/-- `all_lines`: the last block is found at once. -/
theorem seekLoop_allLines (bufsiz : Bufsiz) {text : Word}
    {startPos bytesRead : Nat} (positive : 0 < bytesRead)
    (few : bytesRead ≤ text.length - startPos) :
    seekLoop bufsiz lineEnd true text startPos (text.length - bytesRead)
      bytesRead 0 = (text.drop startPos, text.length) := by
  have size : (text.drop (text.length - bytesRead)).length = bytesRead := by
    rw [List.length_drop]
    omega
  have block : (text.drop (text.length - bytesRead)).take bytesRead =
      text.drop (text.length - bytesRead) :=
    List.take_of_length_le size.le
  have scan : scanBack lineEnd true (text.drop (text.length - bytesRead))
      bytesRead 0 = .inl (bytesRead - 1) := by
    rw [scanBack, dif_neg (by omega)]
    rfl
  have before : text.drop (text.length - bytesRead) =
      (text.drop startPos).drop (text.length - bytesRead - startPos) := by
    rw [List.drop_drop]
    congr 1
    omega
  have everything : (text.drop (text.length - bytesRead)).take
      (bytesRead - 1 + 1) = text.drop (text.length - bytesRead) :=
    List.take_of_length_le (by omega)
  have place : text.length - bytesRead + (bytesRead - 1) + 1 =
      text.length := by
    omega
  rw [seekLoop, block, size, scan]
  dsimp only
  rw [everything, before, List.take_append_drop, place]

/-- The last block, before it is scanned. -/
theorem Seeking.last {bufsiz : Bufsiz} {text : Word}
    {startPos bytesRead : Nat} (nLines : Nat)
    (few : bytesRead ≤ text.length - startPos)
    (begun : startPos < text.length)
    (blocks : ∃ blocks, text.length - startPos - bytesRead =
      blocks * bufsiz.size)
    (length : (if text.length - startPos = bytesRead
        then text.length - startPos else bufsiz.size) =
      min (text.length - startPos) bufsiz.size) :
    Seeking bufsiz lineEnd text startPos nLines (text.length - bytesRead)
      bytesRead nLines := by
  obtain ⟨blocks, isBlocks⟩ := blocks
  refine ⟨by omega, by omega, ⟨blocks, by omega⟩, ?_, ?_⟩
  · rw [List.drop_of_length_le (by omega), List.count_nil, Nat.zero_add]
  · rw [← length]
    split <;> split <;> omega

/-- A file that can be searched backwards loses its last lines. -/
theorem elideTailLinesSeekable_eq (bufsiz : Bufsiz) (nLines : Nat)
    {startPos : Nat} {text : Word} (begun : startPos < text.length) :
    elideTailLinesSeekable bufsiz lineEnd nLines startPos text =
      if lineCount lineEnd (text.drop startPos) ≤ nLines then
        ([], startPos + min (text.length - startPos) bufsiz.size)
      else (allButLast lineEnd nLines (text.drop startPos), startPos +
        (allButLast lineEnd nLines (text.drop startPos)).length) := by
  obtain ⟨positive, few, blocks, length⟩ :=
    lastBlock (by omega : 0 < text.length - startPos) bufsiz.positive
  have region : text.drop startPos ≠ [] := by
    rw [ne_eq, List.drop_eq_nil_iff]
    omega
  rw [elideTailLinesSeekable]
  generalize (if (text.length - startPos) % bufsiz.size = 0 then bufsiz.size
    else (text.length - startPos) % bufsiz.size) = bytesRead at *
  have lastPart : (text.drop (text.length - bytesRead)).take bytesRead =
      text.drop (text.length - bytesRead) := by
    refine List.take_of_length_le ?_
    rw [List.length_drop]
    omega
  have last : (text.drop startPos).getLast? =
      (text.drop (text.length - bytesRead)).getLast? :=
    getLast?_take_drop (by omega) (by omega)
  have block : text.drop (text.length - bytesRead) ≠ [] := by
    rw [ne_eq, List.drop_eq_nil_iff]
    omega
  have lines := @lineCount_eq _ _ lineEnd (text.drop startPos)
  rw [lastPart]
  by_cases zero : nLines = 0
  · subst zero
    have whole : allButLast lineEnd 0 (text.drop startPos) =
        text.drop startPos := firstLines_eq_self le_rfl
    have lineless : ¬ lineCount lineEnd (text.drop startPos) ≤ 0 :=
      Nat.not_le.mpr (List.length_pos_iff.mpr (linesOf_ne_nil region))
    have place : startPos + (text.length - startPos) = text.length := by
      omega
    rw [if_neg lineless, whole, List.length_drop, place, decide_eq_true rfl,
      if_neg fun incomplete => incomplete.1 rfl]
    exact seekLoop_allLines bufsiz positive few
  · have seeking (nLines : Nat) :=
      @Seeking.last lineEnd bufsiz _ _ _ nLines few begun blocks length
    rw [decide_eq_false zero, seekLoop_spec (seeking _), allButLast, lines, ← last]
    simp only [zero, region, block, ne_eq, not_false_eq_true, true_and, false_or]
    generalize text.drop startPos = rest at *
    by_cases ended : rest.getLast? = Option.some lineEnd
    · rw [if_neg (not_not.mpr ended), if_pos ended, Nat.add_zero]
      split
      next enough => rw [if_neg (Nat.not_le.mpr enough)]
      next few => rw [if_pos (Nat.not_lt.mp few)]
    · have left : rest.count lineEnd - (nLines - 1) =
          rest.count lineEnd + 1 - nLines := by
        omega
      rw [if_pos ended, if_neg ended, left]
      split
      next enough => rw [if_neg (by omega)]
      next few => rw [if_pos (by omega)]

end

/-! ## From the beginning -/

/-- What is copied, and whether it is all. -/
def copyFd (bufsiz : Bufsiz) (nBytes : Nat) (pieces : List Word) :
    Word × Bool :=
  if nBytes = 0 then ([], true)
  else
    let read := safeRead (min bufsiz.size nBytes) pieces
    -- COPY_FD_UNEXPECTED_EOF
    if _eof : read.1 = [] then ([], false)
    else
      let rest := copyFd bufsiz (nBytes - read.1.length) read.2
      (read.1 ++ rest.1, rest.2)
termination_by pieces.flatten.length
decreasing_by exact safeRead_lt _eof

/-- `head_bytes`: reads no more than what is still to be written. -/
def headBytes (bytesToRead bytesToWrite : Nat) (pieces : List Word) : Word :=
  if bytesToWrite = 0 then []
  else
    let bytesToRead := min bytesToRead bytesToWrite
    let read := safeRead bytesToRead pieces
    if _eof : read.1 = [] then []
    else
      read.1 ++ headBytes bytesToRead (bytesToWrite - read.1.length) read.2
termination_by pieces.flatten.length
decreasing_by exact safeRead_lt _eof

/-- `bytes_to_write`, and the lines that are still to be written. -/
def scanLines (lineEnd : Char) : Word → Nat → Nat × Nat
  | [], linesToWrite => (0, linesToWrite)
  | c :: buffer, linesToWrite =>
      if c = lineEnd then
        if linesToWrite - 1 = 0 then (1, 0)
        else
          let rest := scanLines lineEnd buffer (linesToWrite - 1)
          (rest.1 + 1, rest.2)
      else
        let rest := scanLines lineEnd buffer linesToWrite
        (rest.1 + 1, rest.2)

/-- What is put out, and by how much the file is advanced if it can be
repositioned. -/
def headLines (bufsiz : Bufsiz) (lineEnd : Char) (linesToWrite : Nat)
    (pieces : List Word) : Word × Nat :=
  if linesToWrite = 0 then ([], 0)
  else
    let read := safeRead bufsiz.size pieces
    if _eof : read.1 = [] then ([], 0)
    else
      let scanned := scanLines lineEnd read.1 linesToWrite
      let pastEOL :=
        if scanned.2 = 0 then read.1.length - scanned.1 else 0
      let rest := headLines bufsiz lineEnd scanned.2 read.2
      (read.1.take scanned.1 ++ rest.1, read.1.length - pastEOL + rest.2)
termination_by pieces.flatten.length
decreasing_by exact safeRead_lt _eof

/-- A read gives no more than it was asked for. -/
theorem length_safeRead_le (count : Nat) (pieces : List Word) :
    (safeRead count pieces).1.length ≤ count := by
  induction pieces with
  | nil => exact Nat.zero_le _
  | cons piece pieces inductionHypothesis =>
      cases piece with
      | nil => exact inductionHypothesis
      | cons c piece => exact List.length_take_le _ _

/-- `copy_fd` copies just `n_bytes`, if there are as many. -/
theorem copyFd_eq (bufsiz : Bufsiz) {nBytes : Nat} {pieces : List Word}
    (enough : nBytes ≤ pieces.flatten.length) :
    copyFd bufsiz nBytes pieces = (pieces.flatten.take nBytes, true) := by
  induction count : pieces.flatten.length using Nat.strong_induction_on
    generalizing nBytes pieces with
  | _ _ inductionHypothesis =>
      have positive := bufsiz.positive
      rw [copyFd]
      split
      next zero => rw [zero, List.take_zero]
      next more =>
        have both := safeRead_append (min bufsiz.size nBytes) pieces
        have few := length_safeRead_le (min bufsiz.size nBytes) pieces
        have lengths := congrArg List.length both
        rw [List.length_append] at lengths
        dsimp only
        split
        next eof =>
          rw [safeRead_eq_nil (by omega) eof, List.length_nil] at enough
          omega
        next nonempty =>
          have front : (safeRead (min bufsiz.size nBytes) pieces).1.take nBytes =
              (safeRead (min bufsiz.size nBytes) pieces).1 :=
            List.take_of_length_le (by omega)
          rw [inductionHypothesis _ (count ▸ safeRead_lt nonempty) (by omega) rfl,
            ← both, List.take_append, front]

/-- `head_bytes` writes the first bytes. -/
theorem headBytes_eq {bytesToRead : Nat} (positive : 0 < bytesToRead)
    (bytesToWrite : Nat) (pieces : List Word) :
    headBytes bytesToRead bytesToWrite pieces =
      pieces.flatten.take bytesToWrite := by
  induction count : pieces.flatten.length using Nat.strong_induction_on
    generalizing bytesToRead bytesToWrite pieces with
  | _ _ inductionHypothesis =>
      rw [headBytes]
      split
      next zero => rw [zero, List.take_zero]
      next more =>
        have both := safeRead_append (min bytesToRead bytesToWrite) pieces
        have few := length_safeRead_le (min bytesToRead bytesToWrite) pieces
        dsimp only
        split
        next eof => rw [safeRead_eq_nil (by omega) eof, List.take_nil]
        next nonempty =>
          have front : (safeRead (min bytesToRead bytesToWrite) pieces).1.take
              bytesToWrite = (safeRead (min bytesToRead bytesToWrite) pieces).1 :=
            List.take_of_length_le (by omega)
          rw [inductionHypothesis _ (count ▸ safeRead_lt nonempty) (by omega) _ _ rfl,
            ← both, List.take_append, front]

/-- What a scan of one buffer finds. -/
structure Scanned (lineEnd : Char) (buffer : Word) (linesToWrite : Nat)
    (result : Nat × Nat) : Prop where
  lines : buffer.take result.1 = firstLines lineEnd linesToWrite buffer
  inside : result.1 ≤ buffer.length
  left : result.2 = linesToWrite - buffer.count lineEnd
  all : result.2 ≠ 0 → result.1 = buffer.length

/-- The scan of a buffer stops behind the last line that is wanted. -/
theorem scanLines_scanned (lineEnd : Char) (buffer : Word) {linesToWrite : Nat}
    (wanted : linesToWrite ≠ 0) :
    Scanned lineEnd buffer linesToWrite
      (scanLines lineEnd buffer linesToWrite) := by
  induction buffer generalizing linesToWrite with
  | nil => exact ⟨(firstLines_nil _).symm, le_rfl, rfl, fun _ => rfl⟩
  | cons c buffer inductionHypothesis =>
      obtain ⟨k, rfl⟩ := Nat.exists_eq_succ_of_ne_zero wanted
      rw [scanLines, Nat.succ_eq_add_one, Nat.add_sub_cancel]
      by_cases ends : c = lineEnd
      · subst ends
        rw [if_pos rfl]
        split
        next last =>
          subst last
          refine ⟨?_, by simp, ?_, fun more => absurd rfl more⟩
          · rw [firstLines, if_pos rfl, firstLines_zero]
            rfl
          · rw [List.count_cons_self]
            omega
        next more =>
          obtain ⟨lines, inside, left, everything⟩ := inductionHypothesis more
          refine ⟨?_, Nat.succ_le_succ inside, ?_,
            fun more => congrArg Nat.succ (everything more)⟩
          · rw [List.take_succ_cons, lines, firstLines, if_pos rfl]
          · rw [left, List.count_cons_self]
            omega
      · rw [if_neg ends]
        obtain ⟨lines, inside, left, everything⟩ := inductionHypothesis wanted
        refine ⟨?_, Nat.succ_le_succ inside, ?_,
          fun more => congrArg Nat.succ (everything more)⟩
        · rw [List.take_succ_cons, lines, firstLines, if_neg ends]
        · rw [left, List.count_cons_of_ne ends]

/-- `head_lines` writes the first lines and goes back to the end of them. -/
theorem headLines_eq (bufsiz : Bufsiz) (lineEnd : Char) (linesToWrite : Nat)
    (pieces : List Word) :
    headLines bufsiz lineEnd linesToWrite pieces =
      (firstLines lineEnd linesToWrite pieces.flatten,
        (firstLines lineEnd linesToWrite pieces.flatten).length) := by
  induction count : pieces.flatten.length using Nat.strong_induction_on
    generalizing linesToWrite pieces with
  | _ _ inductionHypothesis =>
      rw [headLines]
      split
      next zero =>
        rw [zero, firstLines_zero]
        rfl
      next more =>
        have both := safeRead_append bufsiz.size pieces
        obtain ⟨lines, inside, left, atEnd⟩ :=
          scanLines_scanned lineEnd (safeRead bufsiz.size pieces).1 more
        dsimp only
        split
        next eof =>
          rw [safeRead_eq_nil bufsiz.positive eof, firstLines_nil]
          rfl
        next nonempty =>
          rw [inductionHypothesis _ (count ▸ safeRead_lt nonempty) _ _ rfl, lines,
            ← both]
          by_cases done : (scanLines lineEnd (safeRead bufsiz.size pieces).1
              linesToWrite).2 = 0
          · have length := congrArg List.length lines
            rw [List.length_take_of_le inside] at length
            rw [if_pos done, done, firstLines_zero,
              firstLines_append_of_le (by omega), ← length, List.append_nil,
              List.length_nil]
            congr 1
            omega
          · have everything := atEnd done
            rw [everything, List.take_length] at lines
            rw [if_neg done, firstLines_append_of_lt (by omega), ← lines, left,
              List.length_append, Nat.sub_zero]

/-! ## `head` -/

/-- An open file: what it holds, or will hold, where it stands, and the pieces
in which the rest of it comes. -/
structure Input where
  text : Word
  pos : Nat
  pieces : List Word
  /-- `usable_st_size` -/
  regular : Bool
  /-- `ST_BLKSIZE` -/
  blksize : Nat
  reads : pieces.flatten = text.drop pos

section

variable (sizes : Sizes) (bufsiz : Bufsiz) (lineEnd : Char)
  (presumeInputPipe : Bool)

/-- `current_pos`; `none` if it is negative. -/
def Input.currentPos (input : Input) : Option Nat :=
  if !presumeInputPipe && input.regular then some input.pos else none

/-- The test of `elide_tail_bytes_file` and `elide_tail_lines_file`. -/
def Input.isPipe (input : Input) : Bool :=
  presumeInputPipe || (input.currentPos presumeInputPipe).isNone ||
    input.text.length ≤ input.blksize

/-- `elide_tail_bytes_file`; only a regular file above a block is not taken for
a pipe. -/
def elideTailBytesFile (nElide : Nat) (input : Input) :
    Option (Word × Option Nat) :=
  if input.isPipe presumeInputPipe then
    elideTailBytesPipe sizes nElide (input.currentPos presumeInputPipe)
      input.pieces.flatten
  else
    let bytesRemaining := input.text.length - input.pos
    if bytesRemaining ≤ nElide then some ([], some input.pos)
    else
      let copied := copyFd bufsiz (bytesRemaining - nElide) input.pieces
      some (copied.1, some (input.pos + copied.1.length))

/-- `elide_tail_lines_file`. -/
def elideTailLinesFile (nElide : Nat) (input : Input) :
    Option (Word × Option Nat) :=
  if input.isPipe presumeInputPipe then
    elideTailLinesPipe bufsiz lineEnd nElide
      (input.currentPos presumeInputPipe) input.pieces
  else if input.text.length ≤ input.pos then some ([], some input.pos)
  else
    let (out, pos) :=
      elideTailLinesSeekable bufsiz lineEnd nElide input.pos input.text
    some (out, some pos)

/-- What is put out, and where a regular file is left; `none` if memory is read
that is not part of a buffer. -/
def head (nUnits : Nat) (countLines elideFromEnd : Bool) (input : Input) :
    Option (Word × Option Nat) :=
  let seekable : Option Nat := if input.regular then some input.pos else none
  if elideFromEnd then
    if countLines then
      elideTailLinesFile bufsiz lineEnd presumeInputPipe nUnits input
    else elideTailBytesFile sizes bufsiz presumeInputPipe nUnits input
  else if countLines then
    let (out, advanced) := headLines bufsiz lineEnd nUnits input.pieces
    some (out, seekable.map (· + advanced))
  else
    let out := headBytes bufsiz.size nUnits input.pieces
    some (out, seekable.map (· + out.length))

/-- The part of a text that is asked for. -/
def beginning (nUnits : Nat) (countLines elideFromEnd : Bool) (text : Word) :
    Word :=
  match elideFromEnd, countLines with
  | true, true => allButLast lineEnd nUnits text
  | true, false => text.take (text.length - nUnits)
  | false, true => firstLines lineEnd nUnits text
  | false, false => text.take nUnits

/-- A regular file in which there are no more lines than are elided is left
behind the first block that was read. -/
def leftBehind (nUnits : Nat) (countLines elideFromEnd : Bool)
    (input : Input) : Prop :=
  elideFromEnd = true ∧ countLines = true ∧
    input.isPipe presumeInputPipe = false ∧ input.pos < input.text.length ∧
      lineCount lineEnd (input.text.drop input.pos) ≤ nUnits

instance (nUnits : Nat) (countLines elideFromEnd : Bool) (input : Input) :
    Decidable (leftBehind lineEnd presumeInputPipe nUnits countLines
      elideFromEnd input) :=
  inferInstanceAs (Decidable (_ ∧ _ ∧ _ ∧ _ ∧ _))

/-- Where the file is left, if that is known. -/
def endPosition (nUnits : Nat) (countLines elideFromEnd : Bool)
    (input : Input) : Option Nat :=
  if input.regular && !(elideFromEnd && presumeInputPipe) then
    some (input.pos +
      if leftBehind lineEnd presumeInputPipe nUnits countLines elideFromEnd input
        then min (input.text.length - input.pos) bufsiz.size
      else (beginning lineEnd nUnits countLines elideFromEnd
        (input.text.drop input.pos)).length)
  else none

/-- The case in which memory behind a buffer is read. -/
def overreads (nUnits : Nat) (countLines elideFromEnd : Bool)
    (input : Input) : Prop :=
  elideFromEnd = true ∧ countLines = false ∧
    input.isPipe presumeInputPipe = true ∧
      Wraps sizes nUnits (input.text.length - input.pos)

instance (nUnits : Nat) (countLines elideFromEnd : Bool) (input : Input) :
    Decidable (overreads sizes presumeInputPipe nUnits countLines elideFromEnd
      input) :=
  inferInstanceAs (Decidable (_ ∧ _ ∧ _ ∧ _))

variable {presumeInputPipe} in
/-- What is not taken for a pipe has a known length. -/
theorem isRegular_of_not_isPipe {input : Input}
    (isFile : input.isPipe presumeInputPipe = false) :
    input.regular = true ∧ presumeInputPipe = false ∧
      input.blksize < input.text.length := by
  simp only [Input.isPipe, Input.currentPos] at isFile
  cases presumeInputPipe <;> cases regular : input.regular <;>
    simp_all

/-- All but the last bytes are written, except where a difference wraps. -/
theorem elideTailBytesFile_eq (nElide : Nat) (input : Input) :
    elideTailBytesFile sizes bufsiz presumeInputPipe nElide input =
      if overreads sizes presumeInputPipe nElide false true input then none
      else some (beginning lineEnd nElide false true
          (input.text.drop input.pos),
        endPosition bufsiz lineEnd presumeInputPipe nElide false true
          input) := by
  have reads := input.reads
  have behind : ¬ leftBehind lineEnd presumeInputPipe nElide false true input :=
    fun left => nomatch left.2.1
  have length : (input.text.drop input.pos).length =
      input.text.length - input.pos := List.length_drop
  rw [elideTailBytesFile, endPosition, if_neg behind, beginning]
  cases isPipe : input.isPipe presumeInputPipe with
  | true =>
      have same : overreads sizes presumeInputPipe nElide false true input ↔
          Wraps sizes nElide (input.text.length - input.pos) :=
        ⟨fun wraps => wraps.2.2.2, fun wraps => ⟨rfl, rfl, isPipe, wraps⟩⟩
      rw [if_pos rfl, elideTailBytesPipe_eq, reads, length]
      simp only [same, Input.currentPos, List.length_take, length]
      split
      next => rfl
      next =>
        cases presumeInputPipe <;> cases input.regular <;> simp
  | false =>
      obtain ⟨regular, presumed, -⟩ := isRegular_of_not_isPipe isPipe
      have fits : ¬ overreads sizes presumeInputPipe nElide false true input :=
        fun wraps => nomatch isPipe.symm.trans wraps.2.2.1
      rw [if_neg Bool.false_ne_true, if_neg fits, regular, presumed, length]
      dsimp only
      split
      next few => simp [Nat.sub_eq_zero_of_le few]
      next more =>
        rw [copyFd_eq bufsiz (by rw [reads, length]; omega), reads]
        rfl

/-- All but the last lines are written. -/
theorem elideTailLinesFile_eq (nElide : Nat) (input : Input) :
    elideTailLinesFile bufsiz lineEnd presumeInputPipe nElide input =
      some (beginning lineEnd nElide true true (input.text.drop input.pos),
        endPosition bufsiz lineEnd presumeInputPipe nElide true true
          input) := by
  have reads := input.reads
  rw [elideTailLinesFile, endPosition, beginning]
  cases isPipe : input.isPipe presumeInputPipe with
  | true =>
      have behind : ¬ leftBehind lineEnd presumeInputPipe nElide true true
          input := fun left => nomatch isPipe.symm.trans left.2.2.1
      rw [if_pos rfl, elideTailLinesPipe_eq, reads, if_neg behind,
        Input.currentPos]
      cases presumeInputPipe <;> cases input.regular <;> rfl
  | false =>
      obtain ⟨regular, presumed, -⟩ := isRegular_of_not_isPipe isPipe
      have same : leftBehind lineEnd presumeInputPipe nElide true true input ↔
          input.pos < input.text.length ∧
            lineCount lineEnd (input.text.drop input.pos) ≤ nElide :=
        ⟨fun left => left.2.2.2, fun left => ⟨rfl, rfl, isPipe, left⟩⟩
      subst presumed
      have known : (true && !(true && false)) = true := rfl
      rw [if_neg Bool.false_ne_true, regular, if_pos known]
      simp only [same]
      split
      next beyond =>
        rw [List.drop_of_length_le beyond, if_neg fun begun => by omega]
        simp [allButLast, firstLines_nil]
      next begun =>
        rw [elideTailLinesSeekable_eq bufsiz nElide (Nat.not_le.mp begun)]
        split
        next few =>
          rw [if_pos ⟨Nat.not_le.mp begun, few⟩, allButLast,
            Nat.sub_eq_zero_of_le few, firstLines_zero]
        next more => rw [if_neg fun behind => more behind.2]

end

end Lmcas.HeadElide
