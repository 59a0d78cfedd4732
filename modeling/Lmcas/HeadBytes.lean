import Mathlib.Logic.Function.Basic
import Lmcas.Lib.CString

/-!
# All but the last bytes

`elide_tail_bytes_pipe` of `head.c`.  A small number of bytes to elide is kept
in one of two buffers that take turns; a large one in a ring of buffers.
`main` rejects what is larger than OFF_T_MAX, so no sum of sizes wraps.
-/

namespace Lmcas.HeadElide

open Lmcas.Lib.CString

/-- `READ_BUFSIZE` and `HEAD_TAIL_PIPE_BYTECOUNT_THRESHOLD`, with what the
preprocessor checks. -/
structure Sizes where
  readBufsize : Nat
  bytecountThreshold : Nat
  positive : 0 < readBufsize
  enough : 2 * readBufsize ≤ bytecountThreshold
  machine : bytecountThreshold < 2 ^ 64

/-- The values in the source, which leave the sizes to be changed for
testing. -/
def defaultSizes : Sizes where
  readBufsize := 8192
  bytecountThreshold := 1024 * 1024
  positive := by decide
  enough := by decide
  machine := by decide

/-- What has been put out, and `desired_pos`. -/
structure Copied where
  out : Word
  desiredPos : Nat
deriving DecidableEq, Repr

/-- `xwrite_stdout`, with `desired_pos` moved on; `none` if the buffer holds
less. -/
def Copied.write (copied : Copied) (buffer : Word) (nBytes : Nat) :
    Option Copied :=
  if nBytes ≤ buffer.length then
    some ⟨copied.out ++ buffer.take nBytes, copied.desiredPos + nBytes⟩
  else none

/-- `full_read` into a buffer; it returns less than it is asked for only at the
end of the file. -/
def fullRead (buffer input : Word) (count : Nat) : Word :=
  input.take count ++ buffer.drop (input.take count).length

/-! ## Two buffers -/

section

variable (sizes : Sizes) (nElide : Nat)

/-- The bytes that are kept back from the previous round. -/
def delta (first : Bool) (nRead : Nat) : Nat :=
  if nRead < sizes.readBufsize + nElide ∧ nRead ≤ nElide ∧ ¬ first then
    nElide - nRead
  else 0

/-- What is put out in a round. -/
def doubleWrites (b : Bool → Word) (i first : Bool) (nRead : Nat)
    (copied : Copied) : Option Copied :=
  (if first then some copied
    else copied.write ((b !i).drop sizes.readBufsize)
      (nElide - delta sizes nElide first nRead)).bind fun copied =>
  if nElide < nRead then copied.write (b i) (nRead - nElide) else some copied

/-- The loop of the first algorithm: two buffers, of which the one not just read
is written. -/
def doubleLoop (b : Bool → Word) (i first : Bool) (copied : Copied)
    (input : Word) : Option Copied := do
  let nToRead := sizes.readBufsize + nElide
  let b := Function.update b i (fullRead (b i) input nToRead)
  let nRead := (input.take nToRead).length
  let copied ← doubleWrites sizes nElide b i first nRead copied
  if _eof : input.length < nToRead then some copied
  else doubleLoop b (!i) false copied (input.drop nToRead)
termination_by input.length
decreasing_by
  have positive := sizes.positive
  rw [List.length_drop]
  omega

/-! ## A ring of buffers -/

/-- The state of the second algorithm: the buffers that are allocated, and the
next two indices. -/
structure Ring where
  b : Nat → Word
  nArrayAlloc : Nat
  i : Nat
  iNext : Nat
  bufferedEnough : Bool
  copied : Copied

/-- "Reallocate between 16 and `n_bufs` entries." -/
def grow (nBufs nArrayAlloc i : Nat) : Nat :=
  if nArrayAlloc = i then
    if nArrayAlloc = 0 then min nBufs 16
    else if nArrayAlloc ≤ nBufs / 2 then nArrayAlloc * 2
    else nBufs
  else nArrayAlloc

/-- `xwrite_stdout (b[j] + offset, n)`; `none` outside of the array, too. -/
def Ring.write (ring : Ring) (j offset nBytes : Nat) : Option Ring :=
  if j < ring.nArrayAlloc then
    (ring.copied.write ((ring.b j).drop offset) nBytes).map
      fun copied => { ring with copied }
  else none

/-- `i = i_next, i_next = (i_next + 1) % n_bufs`. -/
def Ring.advance (nBufs : Nat) (ring : Ring) : Ring :=
  { ring with i := ring.iNext, iNext := (ring.iNext + 1) % nBufs }

/-- A round, with the step to the next one. -/
def ringTurn (nBufs : Nat) (ring : Ring) (input : Word) : Option Ring :=
  let read : Ring := { ring with
    b := Function.update ring.b ring.i
      (fullRead (ring.b ring.i) input sizes.readBufsize)
    nArrayAlloc := grow nBufs ring.nArrayAlloc ring.i
    bufferedEnough := ring.bufferedEnough || ring.i + 1 = nBufs }
  let nRead := (input.take sizes.readBufsize).length
  if read.i < read.nArrayAlloc then
    (if read.bufferedEnough then read.write read.iNext 0 nRead
      else some read).map (Ring.advance nBufs)
  else none

/-- The loop, and the last `n_read`. -/
def ringLoop (nBufs : Nat) (ring : Ring) (input : Word) :
    Option (Ring × Nat) := do
  let ring ← ringTurn sizes nBufs ring input
  if _eof : input.length < sizes.readBufsize then some (ring, input.length)
  else ringLoop nBufs ring (input.drop sizes.readBufsize)
termination_by input.length
decreasing_by
  have positive := sizes.positive
  rw [List.length_drop]
  omega

/-- `n_read - y` in `size_t`. -/
def sizeSub (n y : Nat) : Nat :=
  (n + 2 ^ 64 - y) % 2 ^ 64

/-- What is written behind the loop: the rest of the oldest buffer, or of the
two oldest. -/
def ringRemainder (nBufs rem nRead : Nat) (ring : Ring) : Option Ring :=
  if ring.bufferedEnough then
    let left := sizes.readBufsize - nRead
    if rem < left then ring.write ring.i nRead rem
    else (ring.write ring.i nRead left).bind fun ring =>
      ring.write ring.iNext 0 (rem - left)
  else if ring.i + 1 = nBufs then
    ring.write ring.iNext 0 (sizeSub nRead (sizes.readBufsize - rem))
  else some ring

/-- The second algorithm, for numbers above the threshold. -/
def elideRing (copied : Copied) (input : Word) : Option Copied := do
  let rem := sizes.readBufsize - nElide % sizes.readBufsize
  let nBufs := (nElide + rem) / sizes.readBufsize + 1
  let (ring, nRead) ←
    ringLoop sizes nBufs ⟨fun _ => [], 0, 0, 1, false, copied⟩ input
  let ring ← ringRemainder sizes nBufs rem nRead ring
  some ring.copied

/-- What is put out, and where the file is left if it can be repositioned;
`none` if memory is read that is not part of a buffer. -/
def elideTailBytesPipe (currentPos : Option Nat) (input : Word) :
    Option (Word × Option Nat) := do
  let copied : Copied := ⟨[], currentPos.getD 0⟩
  let copied ←
    if nElide ≤ sizes.bytecountThreshold then
      doubleLoop sizes nElide (fun _ => []) false true copied input
    else elideRing sizes nElide copied input
  some (copied.out, currentPos.map fun _ => copied.desiredPos)

/-! ## What has been put out -/

end

/-- The first `n` bytes of a text have been put out. -/
structure Copied.At (copied : Copied) (text : Word) (start n : Nat) : Prop where
  out : copied.out = text.take n
  desiredPos : copied.desiredPos = start + n
  inside : n ≤ text.length

/-- What a buffer has at its front is what comes next. -/
theorem Copied.At.write {copied : Copied} {text : Word} {start n : Nat}
    (reached : copied.At text start n) {buffer : Word} {nBytes : Nat}
    (enough : nBytes ≤ buffer.length)
    (next : buffer.take nBytes = (text.drop n).take nBytes) :
    ∃ copied', copied.write buffer nBytes = some copied' ∧
      copied'.At text start (n + nBytes) := by
  refine ⟨_, if_pos enough, ?_, ?_, ?_⟩
  · rw [reached.out, next, ← List.take_add]
  · rw [reached.desiredPos, Nat.add_assoc]
  · have count := congrArg List.length next
    have inside := reached.inside
    rw [List.length_take_of_le enough, List.length_take, List.length_drop]
      at count
    omega

/-- A read fills the front of the buffer. -/
theorem take_fullRead (buffer input : Word) (count n : Nat)
    (few : n ≤ (input.take count).length) :
    (fullRead buffer input count).take n = input.take n := by
  rw [fullRead, List.take_append_of_le_length few, List.take_take,
    Nat.min_eq_left]
  rw [List.length_take] at few
  omega

/-- What is read is in the buffer. -/
theorem le_length_fullRead (buffer input : Word) (count : Nat) :
    (input.take count).length ≤ (fullRead buffer input count).length := by
  rw [fullRead, List.length_append]
  exact Nat.le_add_right _ _

/-- A read of the full size leaves nothing of what was there. -/
theorem fullRead_of_full {buffer input : Word} {count : Nat}
    (full : count ≤ input.length) (fits : buffer.length ≤ count) :
    fullRead buffer input count = input.take count := by
  rw [fullRead, List.length_take_of_le full, List.drop_of_length_le fits,
    List.append_nil]

section

variable (sizes : Sizes) (nElide : Nat)

/-- The buffers after a round that was not the last. -/
structure Doubled (text : Word) (start position : Nat) (b : Bool → Word)
    (i first : Bool) (copied : Copied) : Prop where
  inside : position ≤ text.length
  fits : ∀ j, (b j).length ≤ sizes.readBufsize + nElide
  begins : first = true → position = 0
  later : first = false → sizes.readBufsize + nElide ≤ position ∧
    b (!i) = (text.drop (position - (sizes.readBufsize + nElide))).take
      (sizes.readBufsize + nElide)
  reached : copied.At text start (position - nElide)

/-- The end of the previous buffer, but for `delta`. -/
theorem Doubled.writeKept {text : Word} {start position : Nat}
    {b : Bool → Word} {i first : Bool} {copied : Copied}
    (doubled : Doubled sizes nElide text start position b i first copied)
    {kept : Nat} (few : kept ≤ nElide) :
    ∃ copied', (if first then some copied
        else copied.write ((b !i).drop sizes.readBufsize) kept) =
        some copied' ∧
      copied'.At text start
        (if first then 0 else position - nElide + kept) := by
  obtain ⟨inside, -, begins, later, reached⟩ := doubled
  cases first with
  | true =>
      obtain rfl := begins rfl
      rw [Nat.zero_sub] at reached
      exact ⟨copied, rfl, reached⟩
  | false =>
      obtain ⟨full, previous⟩ := later rfl
      have count : (b !i).length = sizes.readBufsize + nElide := by
        rw [previous, List.length_take, List.length_drop]
        omega
      refine reached.write ?_ ?_
      · rw [List.length_drop, count]
        omega
      · rw [previous, List.drop_take, List.drop_drop, List.take_take]
        congr 2 <;> omega

/-- A turn of the first algorithm writes up to the bytes that may still have to
be elided. -/
theorem Doubled.writes {text : Word} {start position : Nat}
    {b : Bool → Word} {i first : Bool} {copied : Copied}
    (doubled : Doubled sizes nElide text start position b i first copied)
    {nRead : Nat}
    (isRead : nRead =
      ((text.drop position).take (sizes.readBufsize + nElide)).length) :
    ∃ copied', doubleWrites sizes nElide
        (Function.update b i (fullRead (b i) (text.drop position)
          (sizes.readBufsize + nElide))) i first nRead copied = some copied' ∧
      copied'.At text start (position + nRead - nElide) := by
  obtain ⟨copied₁, written, reached⟩ :=
    doubled.writeKept sizes nElide (Nat.sub_le nElide
      (delta sizes nElide first nRead))
  obtain ⟨inside, fits, begins, later, -⟩ := doubled
  have positive := sizes.positive
  rw [List.length_take, List.length_drop] at isRead
  have other : (!i) ≠ i := by
    cases i <;> decide
  simp only [doubleWrites, Function.update_of_ne other, Function.update_self,
    written, Option.bind_some]
  by_cases more : nElide < nRead
  · have place : (if first then 0
        else position - nElide + (nElide - delta sizes nElide first nRead)) =
        position := by
      have nothing : delta sizes nElide first nRead = 0 :=
        if_neg fun short => Nat.not_le.mpr more short.2.1
      cases first with
      | true => exact (begins rfl).symm
      | false =>
          have full := (later rfl).1
          rw [nothing]
          simp only [Bool.false_eq_true, if_false]
          omega
    rw [place] at reached
    have enough := le_length_fullRead (b i) (text.drop position)
      (sizes.readBufsize + nElide)
    have few : nRead - nElide ≤
        ((text.drop position).take (sizes.readBufsize + nElide)).length := by
      rw [List.length_take, List.length_drop]
      omega
    obtain ⟨copied₂, written', reached'⟩ := reached.write (few.trans enough)
      (take_fullRead _ _ _ _ few)
    refine ⟨copied₂, (if_pos more).trans written', ?_⟩
    rwa [Nat.add_sub_assoc more.le]
  · refine ⟨copied₁, if_neg more, ?_⟩
    have place : (if first then 0
        else position - nElide + (nElide - delta sizes nElide first nRead)) =
        position + nRead - nElide := by
      cases first with
      | true =>
          have start := begins rfl
          simp only [if_true]
          omega
      | false =>
          have full := (later rfl).1
          have kept : delta sizes nElide false nRead = nElide - nRead :=
            if_pos ⟨by omega, by omega, by simp⟩
          rw [kept]
          simp only [Bool.false_eq_true, if_false]
          omega
    rwa [place] at reached

/-- The first algorithm writes all but the last `n_elide` bytes. -/
theorem doubleLoop_elides {text : Word} {start position : Nat}
    {b : Bool → Word} {i first : Bool} {copied : Copied}
    (doubled : Doubled sizes nElide text start position b i first copied) :
    ∃ copied', doubleLoop sizes nElide b i first copied (text.drop position) =
        some copied' ∧
      copied'.At text start (text.length - nElide) := by
  induction rest : text.length - position using Nat.strong_induction_on
    generalizing position b i first copied with
  | _ _ inductionHypothesis =>
      obtain ⟨copied₁, written, reached⟩ := doubled.writes sizes nElide rfl
      have positive := sizes.positive
      have inside := doubled.inside
      rw [doubleLoop, written]
      simp only [Option.bind_eq_bind, Option.bind_some]
      split
      next eof =>
        refine ⟨copied₁, rfl, ?_⟩
        rw [List.length_drop] at eof
        rw [List.length_take, List.length_drop] at reached
        have place : position + min (sizes.readBufsize + nElide)
            (text.length - position) - nElide = text.length - nElide := by
          omega
        rwa [place] at reached
      next more =>
        rw [List.length_drop] at more
        rw [List.length_take, List.length_drop, Nat.min_eq_left (by omega)]
          at reached
        have full : fullRead (b i) (text.drop position)
            (sizes.readBufsize + nElide) =
            (text.drop position).take (sizes.readBufsize + nElide) :=
          fullRead_of_full (by rw [List.length_drop]; omega) (doubled.fits i)
        rw [List.drop_drop, full]
        refine inductionHypothesis _ (by omega) ⟨by omega, fun j => ?_, nofun,
          fun _ => ⟨by omega, ?_⟩, reached⟩ rfl
        · by_cases same : j = i
          · rw [same, Function.update_self]
            exact List.length_take_le _ _
          · rw [Function.update_of_ne same]
            exact doubled.fits j
        · rw [Bool.not_not, Function.update_self, Nat.add_sub_cancel]

/-! ## Blocks in a ring -/

/-- What the `k`-th call of `full_read` reads. -/
def block (text : Word) (k : Nat) : Word :=
  (text.drop (k * sizes.readBufsize)).take sizes.readBufsize

/-- Fewer than `n` steps lead to different places of the ring. -/
theorem mod_ne_mod {j k n : Nat} (below : j < k) (within : k < j + n) :
    j % n ≠ k % n := by
  intro same
  have divides := Nat.sub_mod_eq_zero_of_mod_eq same.symm
  rw [Nat.mod_eq_of_lt (by omega)] at divides
  omega

/-- The array of buffers has room for the next one and never more than
`n_bufs`. -/
theorem grow_spec {nBufs nArrayAlloc k : Nat} (positive : 0 < nBufs)
    (enough : min k nBufs ≤ nArrayAlloc) (most : nArrayAlloc ≤ nBufs) :
    k % nBufs < grow nBufs nArrayAlloc (k % nBufs) ∧
      min (k + 1) nBufs ≤ grow nBufs nArrayAlloc (k % nBufs) ∧
      grow nBufs nArrayAlloc (k % nBufs) ≤ nBufs := by
  have inside := Nat.mod_lt k positive
  have small : k < nBufs → k % nBufs = k := Nat.mod_eq_of_lt
  unfold grow
  split_ifs <;> omega

/-- The ring before the `k`-th round, if none was the last. -/
structure Ringed (text : Word) (start nBufs k : Nat) (ring : Ring) : Prop where
  inside : k * sizes.readBufsize ≤ text.length
  index : ring.i = k % nBufs
  next : ring.iNext = (k + 1) % nBufs
  enough : ring.bufferedEnough = decide (nBufs ≤ k)
  blocks : ∀ j < k, k ≤ j + nBufs → ring.b (j % nBufs) = block sizes text j
  fits : ∀ j, (ring.b j).length ≤ sizes.readBufsize
  allocated : min k nBufs ≤ ring.nArrayAlloc
  array : ring.nArrayAlloc ≤ nBufs
  reached : ring.copied.At text start ((k + 1 - nBufs) * sizes.readBufsize)

/-- The ring after the `k`-th round, which has read `nRead` bytes. -/
structure Turned (text : Word) (start nBufs k nRead : Nat) (ring : Ring) :
    Prop where
  index : ring.i = (k + 1) % nBufs
  next : ring.iNext = (k + 2) % nBufs
  enough : ring.bufferedEnough = decide (nBufs ≤ k + 1)
  blocks : ∀ j < k, k + 1 ≤ j + nBufs →
    ring.b (j % nBufs) = block sizes text j
  last : nRead = sizes.readBufsize → ring.b (k % nBufs) = block sizes text k
  fits : ∀ j, (ring.b j).length ≤ sizes.readBufsize
  allocated : min (k + 1) nBufs ≤ ring.nArrayAlloc
  array : ring.nArrayAlloc ≤ nBufs
  reached : ring.copied.At text start
    (if nBufs ≤ k + 1 then (k + 1 - nBufs) * sizes.readBufsize + nRead else 0)

variable {sizes}

/-- A part of a buffer that comes next in the text may be written. -/
theorem Copied.At.ringWrite {ring : Ring} {text : Word} {start n : Nat}
    (reached : ring.copied.At text start n) {j offset nBytes : Nat}
    (allocated : j < ring.nArrayAlloc)
    (enough : offset + nBytes ≤ (ring.b j).length)
    (next : ((ring.b j).drop offset).take nBytes =
      (text.drop n).take nBytes) :
    ∃ copied, ring.write j offset nBytes = some { ring with copied } ∧
      copied.At text start (n + nBytes) := by
  obtain ⟨copied, written, reached'⟩ := reached.write
    (by rw [List.length_drop]; omega : nBytes ≤ ((ring.b j).drop offset).length)
    next
  exact ⟨copied, by rw [Ring.write, if_pos allocated, written]; rfl, reached'⟩

/-- Blocks before the last one are full. -/
theorem length_block {text : Word} {j k : Nat} (below : j < k)
    (inside : k * sizes.readBufsize ≤ text.length) :
    (block sizes text j).length = sizes.readBufsize := by
  have room := Nat.mul_le_mul_right sizes.readBufsize (Nat.succ_le_of_lt below)
  rw [Nat.succ_mul] at room
  rw [block, List.length_take, List.length_drop]
  omega

/-- No buffer outgrows its size. -/
theorem length_fullRead_le {buffer : Word} {count : Nat}
    (fits : buffer.length ≤ count) (input : Word) :
    (fullRead buffer input count).length ≤ count := by
  rw [fullRead, List.length_append, List.length_drop, List.length_take]
  omega

/-- Nor does a block. -/
theorem length_block_le (text : Word) (k : Nat) :
    (block sizes text k).length ≤ sizes.readBufsize :=
  List.length_take_le _ _

/-- The front of a block is a part of the text. -/
theorem take_block {text : Word} {k n : Nat} (few : n ≤ sizes.readBufsize) :
    (block sizes text k).take n =
      (text.drop (k * sizes.readBufsize)).take n := by
  rw [block, List.take_take, Nat.min_eq_left few]

/-- So is a part in the middle. -/
theorem take_drop_block {text : Word} {k offset n : Nat}
    (few : offset + n ≤ sizes.readBufsize) :
    ((block sizes text k).drop offset).take n =
      (text.drop (k * sizes.readBufsize + offset)).take n := by
  rw [block, List.drop_take, List.take_take, List.drop_drop,
    Nat.min_eq_left (by omega)]

/-- A full read leaves a block in the buffer. -/
theorem block_of_full {text buffer : Word} {k : Nat}
    (full : (block sizes text k).length = sizes.readBufsize)
    (fits : buffer.length ≤ sizes.readBufsize) :
    fullRead buffer (text.drop (k * sizes.readBufsize)) sizes.readBufsize =
      block sizes text k := by
  refine fullRead_of_full ?_ fits
  rw [block, List.length_take] at full
  omega

/-- The flag is set by the turn that reaches the end of the ring. -/
theorem enough_succ {nBufs k : Nat} (positive : 0 < nBufs) :
    (decide (nBufs ≤ k) || decide (k % nBufs + 1 = nBufs)) =
      decide (nBufs ≤ k + 1) := by
  rw [← Bool.decide_or]
  refine decide_eq_decide.mpr ?_
  have inside := Nat.mod_lt k positive
  by_cases below : k < nBufs
  · rw [Nat.mod_eq_of_lt below]
    omega
  · omega

/-- A turn reads a block and writes the one that is `n_bufs - 1` blocks
behind. -/
theorem Ringed.turned {text : Word} {start nBufs k : Nat} {ring : Ring}
    (several : 2 ≤ nBufs) (ringed : Ringed sizes text start nBufs k ring) :
    ∃ ring', ringTurn sizes nBufs ring
        (text.drop (k * sizes.readBufsize)) = some ring' ∧
      Turned sizes text start nBufs k (block sizes text k).length ring' := by
  obtain ⟨inside, index, next, enough, blocks, fits, allocated, array,
    reached⟩ := ringed
  obtain ⟨indexed, allocated', array'⟩ := grow_spec (by omega) allocated array
  have other {x : Nat} (apart : x ≠ k % nBufs) :
      Function.update ring.b (k % nBufs)
        (fullRead (ring.b (k % nBufs)) (text.drop (k * sizes.readBufsize))
          sizes.readBufsize) x = ring.b x :=
    Function.update_of_ne apart _ _
  have blocks' (j : Nat) (below : j < k) (within : k + 1 ≤ j + nBufs) :=
    (other (mod_ne_mod below within)).trans (blocks j below (by omega))
  have last (full : (block sizes text k).length = sizes.readBufsize) :=
    (Function.update_self (k % nBufs) _ ring.b).trans
      (block_of_full full (fits (k % nBufs)))
  have fits' (j : Nat) : (Function.update ring.b (k % nBufs)
      (fullRead (ring.b (k % nBufs)) (text.drop (k * sizes.readBufsize))
        sizes.readBufsize) j).length ≤ sizes.readBufsize := by
    by_cases same : j = k % nBufs
    · rw [same, Function.update_self]
      exact length_fullRead_le (fits _) _
    · rw [other same]
      exact fits j
  have following : ((k + 1) % nBufs + 1) % nBufs = (k + 2) % nBufs :=
    Nat.mod_add_mod (k + 1) nBufs 1
  simp only [ringTurn, index, next, enough, enough_succ (by omega : 0 < nBufs),
    if_pos indexed]
  rw [← block]
  generalize Function.update ring.b (k % nBufs) _ = b at *
  generalize grow nBufs ring.nArrayAlloc (k % nBufs) = nArrayAlloc at *
  have turned (copied : Copied) (reached' : copied.At text start
      (if nBufs ≤ k + 1 then (k + 1 - nBufs) * sizes.readBufsize +
        (block sizes text k).length else 0)) :
      Turned sizes text start nBufs k (block sizes text k).length
        (Ring.advance nBufs ⟨b, nArrayAlloc, k % nBufs, (k + 1) % nBufs,
          decide (nBufs ≤ k + 1), copied⟩) :=
    ⟨rfl, following, rfl, blocks', last, fits', allocated', array', reached'⟩
  by_cases many : nBufs ≤ k + 1
  · have oldest : (k + 1) % nBufs = (k + 1 - nBufs) % nBufs := by
      rw [← Nat.add_mod_right (k + 1 - nBufs), Nat.sub_add_cancel many]
    have held := blocks' (k + 1 - nBufs) (by omega) (by omega)
    rw [← oldest] at held
    have full : (b ((k + 1) % nBufs)).length = sizes.readBufsize := by
      rw [held]
      exact length_block (by omega) inside
    have few := @length_block_le sizes text k
    have room := Nat.mod_lt (k + 1) (by omega : 0 < nBufs)
    obtain ⟨copied, written, reached'⟩ := @Copied.At.ringWrite
      ⟨b, nArrayAlloc, k % nBufs, (k + 1) % nBufs, decide (nBufs ≤ k + 1),
        ring.copied⟩ text start _ reached ((k + 1) % nBufs) 0
      (block sizes text k).length (by dsimp only; omega) (by dsimp only; omega) (by
        dsimp only
        rw [List.drop_zero, held, take_block few])
    rw [if_pos (decide_eq_true many), written]
    refine ⟨_, rfl, turned copied ?_⟩
    rw [if_pos many]
    exact reached'
  · rw [if_neg (by simpa using many)]
    refine ⟨_, rfl, turned ring.copied ?_⟩
    rw [if_neg many]
    rwa [Nat.sub_eq_zero_of_le (by omega), Nat.zero_mul] at reached

/-- A round that was not the last. -/
theorem Turned.ringed {text : Word} {start nBufs k : Nat} {ring : Ring}
    (turned : Turned sizes text start nBufs k sizes.readBufsize ring)
    (inside : (k + 1) * sizes.readBufsize ≤ text.length) :
    Ringed sizes text start nBufs (k + 1) ring := by
  refine ⟨inside, turned.index, turned.next, turned.enough,
    fun j below within => ?_, turned.fits, turned.allocated, turned.array, ?_⟩
  · by_cases isLast : j = k
    · rw [isLast]
      exact turned.last rfl
    · exact turned.blocks j (by omega) within
  · have reached := turned.reached
    by_cases many : nBufs ≤ k + 1
    · rwa [if_pos many, ← Nat.succ_mul, Nat.succ_eq_add_one,
        ← Nat.sub_add_comm many] at reached
    · rw [if_neg many] at reached
      rwa [Nat.sub_eq_zero_of_le (by omega), Nat.zero_mul]

/-- The loop ends with a read that is not full. -/
theorem ringLoop_turned {text : Word} {start nBufs k : Nat} {ring : Ring}
    (several : 2 ≤ nBufs) (ringed : Ringed sizes text start nBufs k ring) :
    ∃ ring' k' nRead, ringLoop sizes nBufs ring
        (text.drop (k * sizes.readBufsize)) = some (ring', nRead) ∧
      Turned sizes text start nBufs k' nRead ring' ∧
      text.length = k' * sizes.readBufsize + nRead ∧
      nRead < sizes.readBufsize := by
  have positive := sizes.positive
  induction rest : text.length - k * sizes.readBufsize
    using Nat.strong_induction_on generalizing k ring with
  | _ _ inductionHypothesis =>
      obtain ⟨ring₁, turn, turned⟩ := ringed.turned several
      have inside := ringed.inside
      have next : (k + 1) * sizes.readBufsize =
        k * sizes.readBufsize + sizes.readBufsize := Nat.succ_mul k _
      rw [ringLoop, turn]
      simp only [Option.bind_eq_bind, Option.bind_some]
      rw [block, List.length_take] at turned
      split
      next eof =>
        rw [Nat.min_eq_right eof.le] at turned
        rw [List.length_drop] at eof turned ⊢
        exact ⟨ring₁, k, _, rfl, turned, by omega, eof⟩
      next more =>
        rw [Nat.min_eq_left (Nat.not_lt.mp more)] at turned
        rw [List.length_drop] at more
        rw [List.drop_drop, ← next]
        exact inductionHypothesis _ (by omega) (turned.ringed (by omega)) rfl

/-- A difference that is not negative does not wrap. -/
theorem sizeSub_of_le {n y : Nat} (le : y ≤ n) (small : n < 2 ^ 64) :
    sizeSub n y = n - y := by
  unfold sizeSub
  omega

/-- Inputs for which the difference of what was read last and of what is left
of the bytes to elide wraps. -/
def Wraps (sizes : Sizes) (nElide length : Nat) : Prop :=
  sizes.bytecountThreshold < nElide ∧
    nElide / sizes.readBufsize * sizes.readBufsize ≤ length ∧ length < nElide

instance (sizes : Sizes) (nElide length : Nat) :
    Decidable (Wraps sizes nElide length) :=
  inferInstanceAs (Decidable (_ ∧ _ ∧ _))

variable {nElide : Nat}

/-- What is behind the bytes that the ring keeps back is at the end of one block
and at the beginning of the next one. -/
theorem Turned.remainder_buffered {text : Word} {start q r k nRead : Nat}
    {ring : Ring} (turned : Turned sizes text start (q + 2) k nRead ring)
    (length : text.length = k * sizes.readBufsize + nRead)
    (short : nRead < sizes.readBufsize) (below : r < sizes.readBufsize)
    (several : 2 ≤ q) (many : q < k) :
    ∃ ring', ringRemainder sizes (q + 2) (sizes.readBufsize - r) nRead ring =
        some ring' ∧
      ring'.copied.At text start
        (text.length - (q * sizes.readBufsize + r)) := by
  obtain ⟨index, next, enough, blocks, -, -, allocated, -, reached⟩ := turned
  have inside : k * sizes.readBufsize ≤ text.length := by omega
  obtain ⟨j, rfl⟩ : ∃ j, k = q + 1 + j :=
    Nat.exists_eq_add_of_le (Nat.succ_le_of_lt many)
  have buffered : q + 2 ≤ q + 1 + j + 1 := by omega
  have split : (q + 1 + j) * sizes.readBufsize =
      j * sizes.readBufsize + q * sizes.readBufsize + sizes.readBufsize := by
    rw [Nat.add_mul, Nat.add_mul, Nat.one_mul]
    omega
  have first := blocks j (by omega) (by omega)
  have second := blocks (j + 1) (by omega) (by omega)
  have firstIndex : ring.i = j % (q + 2) := by
    rw [index, ← Nat.add_mod_right j]
    congr 1
    omega
  have secondIndex : ring.iNext = (j + 1) % (q + 2) := by
    rw [next, ← Nat.add_mod_right (j + 1)]
    congr 1
    omega
  rw [← firstIndex] at first
  rw [← secondIndex] at second
  have full := length_block (by omega : j < q + 1 + j) inside
  have full' := length_block (by omega : j + 1 < q + 1 + j) inside
  have room := Nat.mod_lt j (by omega : 0 < q + 2)
  have room' := Nat.mod_lt (j + 1) (by omega : 0 < q + 2)
  have place : q + 1 + j + 1 - (q + 2) = j := by omega
  rw [if_pos buffered, place] at reached
  rw [ringRemainder, enough, if_pos (decide_eq_true buffered)]
  dsimp only
  split
  next fewer =>
    obtain ⟨copied, written, reached'⟩ := @Copied.At.ringWrite ring text start
      _ reached ring.i nRead (sizes.readBufsize - r) (by omega)
      (by rw [first]; omega) (by rw [first, take_drop_block (by omega)])
    refine ⟨_, written, ?_⟩
    have done : j * sizes.readBufsize + nRead + (sizes.readBufsize - r) =
        text.length - (q * sizes.readBufsize + r) := by
      omega
    rwa [done] at reached'
  next more =>
    obtain ⟨copied, written, reached'⟩ := @Copied.At.ringWrite ring text start
      _ reached ring.i nRead (sizes.readBufsize - nRead) (by omega)
      (by rw [first]; omega) (by rw [first, take_drop_block (by omega)])
    have done : j * sizes.readBufsize + nRead + (sizes.readBufsize - nRead) =
        (j + 1) * sizes.readBufsize := by
      rw [Nat.succ_mul]
      omega
    rw [done] at reached'
    obtain ⟨copied', written', reached''⟩ := @Copied.At.ringWrite
      { ring with copied } text start _ reached' ring.iNext 0
      (sizes.readBufsize - r - (sizes.readBufsize - nRead))
      (by dsimp only; omega) (by dsimp only; rw [second]; omega) (by
        dsimp only
        rw [second, List.drop_zero, take_block (by omega)])
    rw [written, Option.bind_some]
    refine ⟨_, written', ?_⟩
    have done' : (j + 1) * sizes.readBufsize +
        (sizes.readBufsize - r - (sizes.readBufsize - nRead)) =
        text.length - (q * sizes.readBufsize + r) := by
      rw [Nat.succ_mul]
      omega
    rwa [done'] at reached''

/-- If the ring has just not come round, all of it is at the beginning of the
first block. -/
theorem Turned.remainder_full {text : Word} {start q r nRead : Nat}
    {ring : Ring} (turned : Turned sizes text start (q + 2) q nRead ring)
    (length : text.length = q * sizes.readBufsize + nRead)
    (short : nRead < sizes.readBufsize) (below : r < sizes.readBufsize)
    (several : 2 ≤ q) (fits : r ≤ nRead) :
    ∃ ring', ringRemainder sizes (q + 2) (sizes.readBufsize - r) nRead ring =
        some ring' ∧
      ring'.copied.At text start
        (text.length - (q * sizes.readBufsize + r)) := by
  obtain ⟨index, next, enough, blocks, -, -, allocated, -, reached⟩ := turned
  have unbuffered : ¬ q + 2 ≤ q + 1 := by omega
  have inside : q * sizes.readBufsize ≤ text.length := by omega
  have first := blocks 0 (by omega) (by omega)
  have isNext : ring.iNext = 0 % (q + 2) := by
    rw [next, Nat.mod_self, Nat.zero_mod]
  have isLast : ring.i + 1 = q + 2 := by
    rw [index, Nat.mod_eq_of_lt (by omega)]
  rw [← isNext] at first
  have full := length_block (by omega : 0 < q) inside
  have machine := sizes.machine
  have room := sizes.enough
  have left : sizeSub nRead (sizes.readBufsize - (sizes.readBufsize - r)) =
      nRead - r := by
    rw [Nat.sub_sub_self below.le]
    exact sizeSub_of_le (by omega) (by omega)
  rw [if_neg unbuffered] at reached
  obtain ⟨copied, written, reached'⟩ := @Copied.At.ringWrite ring text start
    _ reached ring.iNext 0 (nRead - r) (by rw [isNext, Nat.zero_mod]; omega)
    (by rw [first]; omega) (by
      rw [first, List.drop_zero, take_block (by omega), Nat.zero_mul])
  rw [ringRemainder, enough, if_neg (by simp), if_pos isLast,
    left]
  refine ⟨_, written, ?_⟩
  have done : 0 + (nRead - r) =
      text.length - (q * sizes.readBufsize + r) := by
    omega
  rwa [done] at reached'

/-- What is behind the bytes that the ring keeps back. -/
theorem Turned.remainder {text : Word} {start k nRead : Nat} {ring : Ring}
    (large : sizes.bytecountThreshold < nElide)
    (turned : Turned sizes text start (nElide / sizes.readBufsize + 2) k nRead
      ring)
    (length : text.length = k * sizes.readBufsize + nRead)
    (short : nRead < sizes.readBufsize)
    (fits : ¬ Wraps sizes nElide text.length) :
    ∃ ring', ringRemainder sizes (nElide / sizes.readBufsize + 2)
        (sizes.readBufsize - nElide % sizes.readBufsize) nRead ring =
          some ring' ∧
      ring'.copied.At text start (text.length - nElide) := by
  have whole := Nat.div_add_mod' nElide sizes.readBufsize
  have below := Nat.mod_lt nElide sizes.positive
  have several : 2 ≤ nElide / sizes.readBufsize :=
    (Nat.le_div_iff_mul_le sizes.positive).mpr (sizes.enough.trans large.le)
  have position : text.length - nElide = text.length -
      (nElide / sizes.readBufsize * sizes.readBufsize +
        nElide % sizes.readBufsize) := by
    rw [whole]
  rw [Wraps] at fits
  rw [position]
  generalize nElide / sizes.readBufsize = q at *
  generalize nElide % sizes.readBufsize = r at *
  rcases Nat.lt_trichotomy k q with few | rfl | many
  · -- Less has been read than is kept back.
    have fewer := Nat.mul_le_mul_right sizes.readBufsize (Nat.succ_le_of_lt few)
    rw [Nat.succ_mul] at fewer
    have nothing : text.length - (q * sizes.readBufsize + r) = 0 := by
      omega
    have unbuffered : ¬ q + 2 ≤ k + 1 := by omega
    have reached := turned.reached
    rw [if_neg unbuffered] at reached
    refine ⟨ring, ?_, ?_⟩
    · rw [ringRemainder, turned.enough, if_neg (by simpa using unbuffered),
        if_neg]
      rw [turned.index, Nat.mod_eq_of_lt (by omega)]
      omega
    · rwa [nothing]
  · exact turned.remainder_full length short below several (by omega)
  · exact turned.remainder_buffered length short below several many

/-- Where the difference wraps the remainder is more than any buffer holds. -/
theorem wraps_remainder {text : Word} {start k nRead : Nat} {ring : Ring}
    (turned : Turned sizes text start (nElide / sizes.readBufsize + 2) k nRead
      ring)
    (length : text.length = k * sizes.readBufsize + nRead)
    (short : nRead < sizes.readBufsize)
    (wraps : Wraps sizes nElide text.length) :
    ringRemainder sizes (nElide / sizes.readBufsize + 2)
      (sizes.readBufsize - nElide % sizes.readBufsize) nRead ring = none := by
  obtain ⟨index, -, enough, -, -, bufs, -, -, -⟩ := turned
  have whole := Nat.div_add_mod' nElide sizes.readBufsize
  have below := Nat.mod_lt nElide sizes.positive
  obtain ⟨-, atLeast, less⟩ := wraps
  have isLast : k = nElide / sizes.readBufsize := by
    refine Nat.le_antisymm ?_ ?_
    · by_contra more
      have beyond := Nat.mul_le_mul_right sizes.readBufsize
        (Nat.succ_le_of_lt (Nat.not_le.mp more))
      rw [Nat.succ_mul] at beyond
      omega
    · by_contra fewer
      have beyond := Nat.mul_le_mul_right sizes.readBufsize
        (Nat.succ_le_of_lt (Nat.not_le.mp fewer))
      rw [Nat.succ_mul] at beyond
      omega
  have machine := sizes.machine
  have room := sizes.enough
  have fits := bufs ring.iNext
  have fewer : nRead < nElide % sizes.readBufsize := by
    rw [length, isLast] at less
    omega
  have huge : (ring.b ring.iNext).length <
      sizeSub nRead (nElide % sizes.readBufsize) := by
    unfold sizeSub
    omega
  rw [← isLast] at enough index ⊢
  rw [ringRemainder, enough, if_neg (by simp), index, Nat.mod_eq_of_lt (by omega),
    if_pos rfl, Nat.sub_sub_self below.le, Ring.write, List.drop_zero,
    Copied.write, if_neg (Nat.not_le.mpr huge)]
  exact ite_self _

/-- The second algorithm writes all but the last `n_elide` bytes, except where a
difference wraps. -/
theorem elideRing_elides {text : Word} {start : Nat} {copied : Copied}
    (large : sizes.bytecountThreshold < nElide)
    (reached : copied.At text start 0) :
    (Wraps sizes nElide text.length → elideRing sizes nElide copied text = none) ∧
      (¬ Wraps sizes nElide text.length →
        ∃ copied', elideRing sizes nElide copied text = some copied' ∧
          copied'.At text start (text.length - nElide)) := by
  have count : (nElide + (sizes.readBufsize - nElide % sizes.readBufsize)) /
      sizes.readBufsize + 1 = nElide / sizes.readBufsize + 2 := by
    have whole := Nat.div_add_mod' nElide sizes.readBufsize
    have below := Nat.mod_lt nElide sizes.positive
    have round : nElide + (sizes.readBufsize - nElide % sizes.readBufsize) =
        (nElide / sizes.readBufsize + 1) * sizes.readBufsize := by
      rw [Nat.succ_mul]
      omega
    rw [round, Nat.mul_div_cancel _ sizes.positive]
  have several := Nat.zero_le (nElide / sizes.readBufsize)
  have begins : Ringed sizes text start (nElide / sizes.readBufsize + 2) 0
      ⟨fun _ => [], 0, 0, 1, false, copied⟩ := by
    refine ⟨?_, rfl, ?_, rfl, nofun, fun _ => Nat.zero_le _, ?_, Nat.zero_le _,
      ?_⟩
    · rw [Nat.zero_mul]
      exact Nat.zero_le _
    · exact (Nat.mod_eq_of_lt (by omega : 0 + 1 < _)).symm
    · rw [Nat.zero_min]
    · rwa [Nat.sub_eq_zero_of_le (by omega), Nat.zero_mul]
  obtain ⟨ring, k, nRead, loop, turned, length, short⟩ :=
    ringLoop_turned (by omega) begins
  rw [Nat.zero_mul, List.drop_zero] at loop
  simp only [elideRing, count, loop, Option.bind_eq_bind, Option.bind_some]
  constructor
  · intro wraps
    rw [wraps_remainder turned length short wraps]
    rfl
  · intro fits
    obtain ⟨ring', remainder, reached'⟩ :=
      turned.remainder large length short fits
    rw [remainder]
    exact ⟨_, rfl, reached'⟩

end

/-- Both algorithms together. -/
theorem elideTailBytesPipe_eq (sizes : Sizes) (nElide : Nat)
    (currentPos : Option Nat) (input : Word) :
    elideTailBytesPipe sizes nElide currentPos input =
      if Wraps sizes nElide input.length then none
      else some (input.take (input.length - nElide),
        currentPos.map (· + (input.length - nElide))) := by
  have begins : Copied.At ⟨[], currentPos.getD 0⟩ input
      (currentPos.getD 0) 0 := ⟨rfl, rfl, Nat.zero_le _⟩
  have ends {copied : Copied}
      (reached : copied.At input (currentPos.getD 0)
        (input.length - nElide)) :
      (copied.out, currentPos.map fun _ => copied.desiredPos) =
        (input.take (input.length - nElide),
          currentPos.map (· + (input.length - nElide))) := by
    rw [reached.out, reached.desiredPos]
    cases currentPos <;> rfl
  rw [elideTailBytesPipe]
  by_cases small : nElide ≤ sizes.bytecountThreshold
  · have fits : ¬ Wraps sizes nElide input.length :=
      fun wraps => Nat.not_le.mpr wraps.1 small
    have doubled : Doubled sizes nElide input (currentPos.getD 0) 0
        (fun _ => []) false true ⟨[], currentPos.getD 0⟩ :=
      ⟨Nat.zero_le _, fun _ => Nat.zero_le _, fun _ => rfl, nofun,
        by rwa [Nat.zero_sub]⟩
    obtain ⟨copied, loop, reached⟩ := doubleLoop_elides sizes nElide doubled
    rw [List.drop_zero] at loop
    rw [if_pos small, loop, if_neg fits]
    exact congrArg some (ends reached)
  · obtain ⟨wraps, fits⟩ := elideRing_elides (Nat.not_le.mp small) begins
    rw [if_neg small]
    split
    next isWrapped =>
      rw [wraps isWrapped]
      rfl
    next fitting =>
      obtain ⟨copied, loop, reached⟩ := fits fitting
      rw [loop]
      exact congrArg some (ends reached)

/-- All but the last bytes are put out, and the file is left behind them,
except where the difference wraps: there `xwrite_stdout` reads beyond the first
buffer. -/
theorem elide_tail_bytes_pipe (sizes : Sizes) (nElide : Nat)
    (currentPos : Option Nat) (input : Word) :
    (elideTailBytesPipe sizes nElide currentPos input = none ↔
        Wraps sizes nElide input.length) ∧
      (¬ Wraps sizes nElide input.length → ∃ out elided,
        elideTailBytesPipe sizes nElide currentPos input =
            some (out, currentPos.map (· + out.length)) ∧
          input = out ++ elided ∧
          elided.length = min nElide input.length) := by
  rw [elideTailBytesPipe_eq]
  constructor
  · split
    next wraps => exact iff_of_true rfl wraps
    next fits => exact iff_of_false nofun fits
  · intro fits
    have length : (input.take (input.length - nElide)).length =
        input.length - nElide :=
      List.length_take_of_le (Nat.sub_le _ _)
    refine ⟨_, input.drop (input.length - nElide), ?_,
      (List.take_append_drop _ _).symm, ?_⟩
    · rw [if_neg fits, length]
    · rw [List.length_drop]
      omega

/-- `head -c -2000000` with a pipe of 1998853 bytes. -/
example : Wraps defaultSizes 2000000 1998853 := by decide

end Lmcas.HeadElide
