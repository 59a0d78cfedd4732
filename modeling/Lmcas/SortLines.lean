import Lmcas.Lib.Segment
import Lmcas.Lib.StableSort

/-!
# Sorting in memory

`mergelines` and `sequential_sort` of `sort.c`.  The arrays of lines grow
downwards: a pointer points just past the end of its array, and the first line
is the one in front of it.
-/

namespace Lmcas.SortLines

open Lmcas.Lib.Segment
open Lmcas.Lib.StableSort

variable {Line : Type}

section

variable (compare : Line → Line → Int)

/-- `do *--t = *--lo; while (--nlo);` -/
def copyLines (memory : Memory Line) (t lo : Int) : Nat → Memory Line
  | 0 => memory
  | nlo + 1 =>
      copyLines (write memory (t - 1) (memory (lo - 1))) (t - 1) (lo - 1) nlo

/-- The loop of `mergelines`, with the lines left on both sides. -/
def mergeLoop (memory : Memory Line) (t lo hi : Int) :
    Nat → Nat → Memory Line
  | nlo + 1, nhi + 1 =>
      if compare (memory (lo - 1)) (memory (hi - 1)) ≤ 0 then
        -- with `nlo = 0` the rest of HI is in its place
        mergeLoop (write memory (t - 1) (memory (lo - 1))) (t - 1) (lo - 1) hi
          nlo (nhi + 1)
      else
        mergeLoop (write memory (t - 1) (memory (hi - 1))) (t - 1) lo (hi - 1)
          (nlo + 1) nhi
  | 0, _ => memory
  | nlo + 1, 0 => copyLines memory t lo (nlo + 1)
termination_by nlo nhi => nlo + nhi

/-- `mergelines`: the lower half is moved out of the way and merged with the
upper one. -/
def mergelines (memory : Memory Line) (t : Int) (nlines : Nat) (lo : Int) :
    Memory Line :=
  let nlo := nlines / 2
  mergeLoop compare memory t lo (t - nlo) nlo (nlines - nlo)

/-- The case of two lines. -/
def sortTwo (memory : Memory Line) (lines temp : Int) (toTemp : Bool) :
    Memory Line :=
  let swap : Int :=
    if 0 < compare (memory (lines - 1)) (memory (lines - 2)) then 1 else 0
  if toTemp then
    let first := write memory (temp - 1) (memory (lines - 1 - swap))
    write first (temp - 2) (first (lines - 2 + swap))
  else if swap = 1 then
    let saved := write memory (temp - 1) (memory (lines - 1))
    let moved := write saved (lines - 1) (saved (lines - 2))
    write moved (lines - 2) (moved (temp - 1))
  else memory

/-- There are at least two lines. -/
def sequentialSort (memory : Memory Line) (lines : Int) (nlines : Nat)
    (temp : Int) (toTemp : Bool) : Memory Line :=
  if nlines ≤ 2 then sortTwo compare memory lines temp toTemp
  else
    let nlo := nlines / 2
    let nhi := nlines - nlo
    let sortedHi := sequentialSort memory (lines - nlo) nhi
      (temp - if toTemp then (nlo : Int) else 0) toTemp
    let sortedLo :=
      if 1 < nlo then sequentialSort sortedHi lines nlo temp (!toTemp)
      else if !toTemp then write sortedHi (temp - 1) (sortedHi (lines - 1))
      else sortedHi
    if toTemp then mergelines compare sortedLo temp nlines lines
    else mergelines compare sortedLo lines nlines temp
termination_by nlines

/-! ## Merging two arrays -/

section

variable {compare}

/-- Moving the lower half writes only its new place. -/
theorem copyLines_only (memory : Memory Line) (t lo : Int) (nlo : Nat) :
    Only (span t nlo) memory (copyLines memory t lo nlo) := by
  induction nlo generalizing memory t lo with
  | zero => exact only_refl _ memory
  | succ nlo inductionHypothesis =>
      rw [copyLines]
      refine (only_write (by rw [span]; omega)).trans
        ((inductionHypothesis _ _ _).widen fun address inside => ?_)
      rw [span] at inside ⊢
      omega

/-- It is there as it was. -/
theorem stretch_copyLines {memory : Memory Line} {t lo : Int} {nlo : Nat}
    (apart : lo ≤ t - nlo ∨ t ≤ lo - nlo) :
    stretch (copyLines memory t lo nlo) t nlo = stretch memory lo nlo := by
  induction nlo generalizing memory t lo with
  | zero => rfl
  | succ nlo inductionHypothesis =>
      have front : copyLines (write memory (t - 1) (memory (lo - 1))) (t - 1)
          (lo - 1) nlo (t - 1) = memory (lo - 1) := by
        rw [copyLines_only _ _ _ _ (t - 1) (by rw [span]; omega), write_self]
      have behind : Only (span t 1) memory
          (write memory (t - 1) (memory (lo - 1))) :=
        only_write (by rw [span]; omega)
      rw [copyLines, stretch, stretch, front, inductionHypothesis (by omega)]
      congr 1
      refine behind.stretch fun address inside => ?_
      rw [span] at inside ⊢
      omega

/-- Between HI and the end of its destination there is room for LO. -/
theorem mergeLoop_only {memory : Memory Line} {t lo hi : Int} {nlo nhi : Nat} :
    Only (span t (nlo + nhi)) memory (mergeLoop compare memory t lo hi nlo nhi)
    := by
  induction memory, t, lo, hi, nlo, nhi using mergeLoop.induct compare with
  | case1 memory t lo hi nlo nhi takesLo inductionHypothesis =>
      rw [mergeLoop, if_pos takesLo]
      refine (only_write (by rw [span]; omega)).trans
        (inductionHypothesis.widen fun address inside => ?_)
      rw [span] at inside ⊢
      omega
  | case2 memory t lo hi nlo nhi takesHi inductionHypothesis =>
      rw [mergeLoop, if_neg takesHi]
      refine (only_write (by rw [span]; omega)).trans
        (inductionHypothesis.widen fun address inside => ?_)
      rw [span] at inside ⊢
      omega
  | case3 memory t lo hi nhi =>
      rw [mergeLoop]
      exact only_refl _ memory
  | case4 memory t lo hi nlo =>
      rw [mergeLoop]
      exact copyLines_only memory t lo (nlo + 1)

/-- The loop leaves the merge of both halves. -/
theorem stretch_mergeLoop {memory : Memory Line} {t lo hi : Int}
    {nlo nhi : Nat} (inPlace : t = hi + nlo)
    (apart : lo ≤ t - (nlo + nhi : Nat) ∨ t ≤ lo - nlo) :
    stretch (mergeLoop compare memory t lo hi nlo nhi) t (nlo + nhi) =
      (stretch memory lo nlo).merge (stretch memory hi nhi)
        (precedes compare) := by
  induction memory, t, lo, hi, nlo, nhi using mergeLoop.induct compare with
  | case1 memory t lo hi nlo nhi takesLo inductionHypothesis =>
      have kept : Only (span t 1) memory
          (write memory (t - 1) (memory (lo - 1))) :=
        only_write (by rw [span]; omega)
      have front : mergeLoop compare (write memory (t - 1) (memory (lo - 1)))
          (t - 1) (lo - 1) hi nlo (nhi + 1) (t - 1) = memory (lo - 1) := by
        rw [mergeLoop_only (t - 1) (by rw [span]; omega), write_self]
      rw [mergeLoop, if_pos takesLo,
        show nlo + 1 + (nhi + 1) = nlo + (nhi + 1) + 1 by omega, stretch,
        front, inductionHypothesis (by omega) (by omega),
        kept.stretch fun address inside => by rw [span] at inside ⊢; omega,
        kept.stretch fun address inside => by rw [span] at inside ⊢; omega]
      exact (List.cons_merge_cons_pos _ _ _ (decide_eq_true takesLo)).symm
  | case2 memory t lo hi nlo nhi takesHi inductionHypothesis =>
      have kept : Only (span t 1) memory
          (write memory (t - 1) (memory (hi - 1))) :=
        only_write (by rw [span]; omega)
      have front : mergeLoop compare (write memory (t - 1) (memory (hi - 1)))
          (t - 1) lo (hi - 1) (nlo + 1) nhi (t - 1) = memory (hi - 1) := by
        rw [mergeLoop_only (t - 1) (by rw [span]; omega), write_self]
      rw [mergeLoop, if_neg takesHi,
        show nlo + 1 + (nhi + 1) = nlo + 1 + nhi + 1 by omega, stretch, front,
        inductionHypothesis (by omega) (by omega),
        kept.stretch fun address inside => by rw [span] at inside ⊢; omega,
        kept.stretch fun address inside => by rw [span] at inside ⊢; omega]
      exact (List.cons_merge_cons_neg _ _ _ (by simpa [precedes] using takesHi)).symm
  | case3 memory t lo hi nhi =>
      obtain rfl : t = hi := by omega
      rw [mergeLoop, Nat.zero_add, stretch, List.nil_merge]
  | case4 memory t lo hi nlo =>
      rw [mergeLoop, stretch_copyLines (by omega)]
      simp [stretch]

/-- The merge writes only its own place. -/
theorem mergelines_only {memory : Memory Line} {t lo : Int} {nlines : Nat} :
    Only (span t nlines) memory (mergelines compare memory t nlines lo) := by
  refine mergeLoop_only.widen fun address inside => ?_
  rw [span] at inside ⊢
  omega

/-- The half in front of HI's is free, and LO is elsewhere. -/
theorem stretch_mergelines {memory : Memory Line} {t lo : Int} {nlines : Nat}
    (apart : lo ≤ t - nlines ∨ t ≤ lo - (nlines / 2 : Nat)) :
    stretch (mergelines compare memory t nlines lo) t nlines =
      (stretch memory lo (nlines / 2)).merge
        (stretch memory (t - (nlines / 2 : Nat)) (nlines - nlines / 2))
        (precedes compare) := by
  have halves : nlines / 2 + (nlines - nlines / 2) = nlines := by omega
  have merged :
      stretch (mergelines compare memory t nlines lo) t
          (nlines / 2 + (nlines - nlines / 2)) = _ :=
    stretch_mergeLoop (by omega) (by omega)
  rwa [halves] at merged

/-! ## Sorting an array -/

/-- The pointer to the sorted lines. -/
def destination (lines temp : Int) (toTemp : Bool) : Int :=
  if toTemp then temp else lines

/-- The size of the temporary space. -/
def tempSize (nlines : Nat) (toTemp : Bool) : Nat :=
  if toTemp then nlines else nlines / 2

/-- The addresses that a sort may write to. -/
def workspace (lines : Int) (nlines : Nat) (temp : Int) (toTemp : Bool)
    (address : Int) : Prop :=
  span lines nlines address ∨ span temp (tempSize nlines toTemp) address

/-- The lines and the temporary space are different arrays. -/
def Apart (lines : Int) (nlines : Nat) (temp : Int) (toTemp : Bool) : Prop :=
  lines ≤ temp - tempSize nlines toTemp ∨ temp ≤ lines - nlines

/-- The lines come out in order at their destination, those that compare alike
in the order of the input, and nothing else is written to. -/
structure Sorts (compare : Line → Line → Int) (lines : Int) (nlines : Nat)
    (temp : Int) (toTemp : Bool) (memory memory' : Memory Line) : Prop where
  only : Only (workspace lines nlines temp toTemp) memory memory'
  sorted : stretch memory' (destination lines temp toTemp) nlines =
    (stretch memory lines nlines).mergeSort (precedes compare)

theorem mergeSort_pair (le : Line → Line → Bool) (first second : Line) :
    [first, second].mergeSort le =
      if le first second then [first, second] else [second, first] := by
  simp [List.mergeSort, List.merge]

theorem sortTwo_only {memory : Memory Line} {lines temp : Int}
    {toTemp : Bool} :
    Only (workspace lines 2 temp toTemp) memory
      (sortTwo compare memory lines temp toTemp) := by
  cases toTemp with
  | true =>
      simp only [sortTwo, if_true]
      refine (only_write ?_).trans (only_write ?_) <;>
        simp only [workspace, span, tempSize, if_true] <;> omega
  | false =>
      simp only [sortTwo, Bool.false_eq_true, if_false]
      split
      · refine ((only_write ?_).trans (only_write ?_)).trans (only_write ?_) <;>
          simp only [workspace, span, tempSize, Bool.false_eq_true, if_false] <;>
            omega
      · exact only_refl _ memory

/-- Two lines are put in order. -/
theorem stretch_sortTwo {memory : Memory Line} {lines temp : Int}
    {toTemp : Bool} (apart : Apart lines 2 temp toTemp) :
    stretch (sortTwo compare memory lines temp toTemp)
        (destination lines temp toTemp) 2 =
      (stretch memory lines 2).mergeSort (precedes compare) := by
  have pair (memory : Memory Line) (top : Int) :
      stretch memory top 2 = [memory (top - 1), memory (top - 2)] := by
    simp only [stretch, Int.sub_sub]
    rfl
  simp only [Apart, tempSize] at apart
  rw [pair, pair, mergeSort_pair]
  by_cases swapped : 0 < compare (memory (lines - 1)) (memory (lines - 2))
  · have later : precedes compare (memory (lines - 1)) (memory (lines - 2)) =
        false := by
      simpa [precedes] using swapped
    rw [later]
    cases toTemp with
    | true =>
        have behind : write memory (temp - 1) (memory (lines - 1 - 1))
            (lines - 2 + 1) = memory (lines - 1) := by
          rw [write_of_ne (by simp only [if_true] at apart; omega)]
          congr 1
          omega
        simp only [sortTwo, destination, if_true, if_pos swapped, behind]
        rw [write_of_ne (by omega), write_self, write_self]
        simp [Int.sub_sub]
    | false =>
        simp only [Bool.false_eq_true, if_false] at apart
        simp only [sortTwo, destination, if_pos swapped, if_true,
          Bool.false_eq_true, if_false]
        have firstLine : lines - 1 ≠ lines - 2 := by omega
        have saved : temp - 1 ≠ lines - 1 := by omega
        rw [write_of_ne firstLine, write_self, write_self, write_of_ne saved,
          write_self, write_of_ne (by omega)]
  · have inOrder : precedes compare (memory (lines - 1)) (memory (lines - 2)) =
        true := by
      simpa [precedes] using swapped
    rw [inOrder]
    cases toTemp with
    | true =>
        simp only [if_true] at apart
        simp only [sortTwo, destination, if_true, if_neg swapped, Int.sub_zero,
          Int.add_zero]
        rw [write_of_ne (by omega), write_self, write_self,
          write_of_ne (by omega)]
    | false =>
        simp [sortTwo, destination, swapped]

theorem sortTwo_sorts {memory : Memory Line} {lines temp : Int}
    {toTemp : Bool} (apart : Apart lines 2 temp toTemp) :
    Sorts compare lines 2 temp toTemp memory
      (sortTwo compare memory lines temp toTemp) :=
  ⟨sortTwo_only, stretch_sortTwo apart⟩

/-- A single line has to be copied if the result goes to the temporary space. -/
theorem sortOne_sorts {memory : Memory Line} {lines temp : Int}
    {toTemp : Bool} :
    Sorts compare lines 1 temp toTemp memory
      (if toTemp then write memory (temp - 1) (memory (lines - 1))
        else memory) := by
  cases toTemp with
  | true =>
      constructor
      · refine only_write ?_
        simp only [workspace, span, tempSize, if_true]
        omega
      · simp [stretch, destination]
  | false =>
      constructor
      · exact only_refl _ memory
      · simp [stretch, destination]

/-- The halves, and their merge. -/
theorem Sorts.mergelines (comparison : Comparison compare)
    {memory memoryHi memoryLo : Memory Line} {lines temp : Int}
    {nlines : Nat} {toTemp : Bool} (apart : Apart lines nlines temp toTemp)
    (hi : Sorts compare (lines - (nlines / 2 : Nat)) (nlines - nlines / 2)
      (temp - if toTemp then ((nlines / 2 : Nat) : Int) else 0) toTemp
      memory memoryHi)
    (lo : Sorts compare lines (nlines / 2) temp (!toTemp) memoryHi memoryLo) :
    Sorts compare lines nlines temp toTemp memory
      (mergelines compare memoryLo (destination lines temp toTemp) nlines
        (destination lines temp (!toTemp))) := by
  have halves : nlines / 2 + (nlines - nlines / 2) = nlines := by omega
  have loKept : stretch memoryHi lines (nlines / 2) =
      stretch memory lines (nlines / 2) := by
    refine hi.only.stretch fun address inside => ?_
    cases toTemp <;>
      simp only [Apart, workspace, span, tempSize, Bool.false_eq_true, if_false,
        if_true] at apart inside ⊢ <;> omega
  have hiKept : stretch memoryLo
      (destination lines temp toTemp - (nlines / 2 : Nat))
        (nlines - nlines / 2) =
      stretch memoryHi (destination lines temp toTemp - (nlines / 2 : Nat))
        (nlines - nlines / 2) := by
    refine lo.only.stretch fun address inside => ?_
    cases toTemp <;>
      simp only [Apart, workspace, span, tempSize, destination, Bool.not_true,
        Bool.not_false, Bool.false_eq_true, if_false, if_true]
        at apart inside ⊢ <;> omega
  have hiSorted : stretch memoryHi
      (destination lines temp toTemp - (nlines / 2 : Nat))
        (nlines - nlines / 2) =
      (stretch memory (lines - (nlines / 2 : Nat))
        (nlines - nlines / 2)).mergeSort (precedes compare) := by
    rw [← hi.sorted]
    cases toTemp <;> simp [destination]
  constructor
  · have hiOnly : Only (workspace lines nlines temp toTemp) memory memoryHi :=
      hi.only.widen fun address inside => by
        cases toTemp <;>
          simp only [workspace, span, tempSize, Bool.false_eq_true, if_false,
            if_true] at inside ⊢ <;> omega
    have loOnly : Only (workspace lines nlines temp toTemp) memoryHi memoryLo :=
      lo.only.widen fun address inside => by
        cases toTemp <;>
          simp only [workspace, span, tempSize, Bool.not_true, Bool.not_false,
            Bool.false_eq_true, if_false, if_true] at inside ⊢ <;> omega
    refine (hiOnly.trans loOnly).trans (mergelines_only.widen
      fun address inside => ?_)
    cases toTemp <;>
      simp only [workspace, span, tempSize, destination, Bool.false_eq_true,
        if_false, if_true] at inside ⊢ <;> omega
  · rw [stretch_mergelines, lo.sorted, loKept, hiKept, hiSorted,
      ← mergeSort_append comparison.ordering, ← stretch_add, halves]
    cases toTemp <;>
      simp only [Apart, tempSize, destination, Bool.not_true, Bool.not_false,
        Bool.false_eq_true, if_false, if_true] at apart ⊢ <;> omega

/-- The half in LO goes where the result does not. -/
theorem lo_sorts {memory : Memory Line} {lines temp : Int} {nlines : Nat}
    {toTemp : Bool} (many : 2 < nlines)
    (shorter : ∀ nlo < nlines, 2 ≤ nlo → Apart lines nlo temp (!toTemp) →
      Sorts compare lines nlo temp (!toTemp) memory
        (sequentialSort compare memory lines nlo temp (!toTemp)))
    (apart : Apart lines nlines temp toTemp) :
    Sorts compare lines (nlines / 2) temp (!toTemp) memory
      (if 1 < nlines / 2 then
        sequentialSort compare memory lines (nlines / 2) temp (!toTemp)
      else if !toTemp then write memory (temp - 1) (memory (lines - 1))
      else memory) := by
  by_cases several : 1 < nlines / 2
  · rw [if_pos several]
    refine shorter (nlines / 2) (by omega) several ?_
    cases toTemp <;>
      simp only [Apart, tempSize, Bool.not_true, Bool.not_false,
        Bool.false_eq_true, if_false, if_true] at apart ⊢ <;> omega
  · rw [if_neg several, show nlines / 2 = 1 by omega]
    exact sortOne_sorts

/-- `sequential_sort` is a stable sort. -/
theorem sequentialSort_sorts (comparison : Comparison compare)
    (memory : Memory Line) (lines temp : Int) {nlines : Nat} (toTemp : Bool)
    (several : 2 ≤ nlines) (apart : Apart lines nlines temp toTemp) :
    Sorts compare lines nlines temp toTemp memory
      (sequentialSort compare memory lines nlines temp toTemp) := by
  induction nlines using Nat.strong_induction_on
    generalizing memory lines temp toTemp with
  | _ nlines inductionHypothesis =>
      rw [sequentialSort]
      by_cases two : nlines ≤ 2
      · obtain rfl : nlines = 2 := by omega
        rw [if_pos le_rfl]
        exact sortTwo_sorts apart
      · rw [if_neg two]
        have hi := inductionHypothesis (nlines - nlines / 2) (by omega) memory
          (lines - (nlines / 2 : Nat))
          (temp - if toTemp then ((nlines / 2 : Nat) : Int) else 0) toTemp
          (by omega) (by
            cases toTemp <;>
              simp only [Apart, tempSize, Bool.false_eq_true, if_false, if_true]
                at apart ⊢ <;> omega)
        have merged := hi.mergelines comparison apart
          (lo_sorts (by omega)
            (fun nlo less several => inductionHypothesis nlo less _ lines temp
              (!toTemp) several) apart)
        cases toTemp <;> exact merged

/-! ## A leaf of the merge tree -/

/-- What `sortlines` does at a leaf: both halves, in the same temporary space. -/
def sortLeaf (compare : Line → Line → Int) (memory : Memory Line)
    (lines : Int) (nlo nhi totalLines : Nat) : Memory Line :=
  let temp := lines - totalLines
  let sortedHi :=
    if 1 < nhi then
      sequentialSort compare memory (lines - nlo) nhi (temp - (nlo / 2 : Nat))
        false
    else memory
  if 1 < nlo then sequentialSort compare sortedHi lines nlo temp false
  else sortedHi

/-- One line is in order as it is; more are sorted. -/
theorem sortAtMost_sorts (comparison : Comparison compare)
    {memory : Memory Line} {lines temp : Int} {nlines : Nat}
    (apart : Apart lines nlines temp false) :
    Sorts compare lines nlines temp false memory
      (if 1 < nlines then sequentialSort compare memory lines nlines temp false
        else memory) := by
  by_cases several : 1 < nlines
  · rw [if_pos several]
    exact sequentialSort_sorts comparison memory lines temp false several apart
  · rw [if_neg several]
    refine ⟨only_refl _ memory, ?_⟩
    match nlines with
    | 0 => simp [stretch]
    | 1 => simp [stretch, destination]
    | nlines + 2 => omega

/-- The temporary space of a leaf is below all the lines. -/
theorem sortLeaf_sorts (comparison : Comparison compare)
    (memory : Memory Line) (lines : Int) {nlo nhi totalLines : Nat}
    (fits : nlo + nhi ≤ totalLines) :
    stretch (sortLeaf compare memory lines nlo nhi totalLines) lines nlo =
        (stretch memory lines nlo).mergeSort (precedes compare) ∧
      stretch (sortLeaf compare memory lines nlo nhi totalLines)
          (lines - nlo) nhi =
        (stretch memory (lines - nlo) nhi).mergeSort (precedes compare) := by
  have hi : Sorts compare (lines - nlo) nhi
      (lines - totalLines - (nlo / 2 : Nat)) false memory _ :=
    sortAtMost_sorts comparison (by
      simp only [Apart, tempSize, Bool.false_eq_true, if_false]; omega)
  have lo : Sorts compare lines nlo (lines - totalLines) false _
      (sortLeaf compare memory lines nlo nhi totalLines) :=
    sortAtMost_sorts comparison (by
      simp only [Apart, tempSize, Bool.false_eq_true, if_false]; omega)
  have loSorted := lo.sorted
  have hiSorted := hi.sorted
  simp only [destination, Bool.false_eq_true, if_false] at loSorted hiSorted
  constructor
  · rw [loSorted, hi.only.stretch fun address inside => ?_]
    simp only [workspace, span, tempSize, Bool.false_eq_true, if_false]
      at inside ⊢
    omega
  · rw [lo.only.stretch fun address inside => ?_, hiSorted]
    simp only [workspace, span, tempSize, Bool.false_eq_true, if_false]
      at inside ⊢
    omega

end

end

end Lmcas.SortLines
