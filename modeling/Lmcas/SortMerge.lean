import Lmcas.Lib.Iteration
import Lmcas.SortThreads

/-!
# Merging files

`mergefps`, `mergefiles` and `merge` of `sort.c`.  A file is the lines that are
still to be read from it; the table `ord` has the files in the order of their
current lines.
-/

namespace Lmcas.SortMerge

open Lmcas.Lib.Iteration
open Lmcas.Lib.StableSort
open Lmcas.SortThreads

variable {Line : Type}

/-! ## The table of files -/

section

variable (compare : Nat → Nat → Int)

/-- Two neighbours out of order change places, and the loop starts again. -/
def swapFirst : List Nat → Option (List Nat)
  | i :: j :: ord =>
      if 0 < compare i j then some (j :: i :: ord)
      else (swapFirst (j :: ord)).map (i :: ·)
  | _ => none

/-- The loop that sets up `ord`: neighbours are exchanged until none is out of
order. -/
def setUpOrd (ord : List Nat) : Turn (List Nat) Empty :=
  match swapFirst compare ord with
  | some ord => .again ord
  | none => .leave ord

/-- `cmp < 0 || (cmp == 0 && ord0 < ord[probe])` -/
def comesBefore (i j : Nat) : Bool :=
  decide (compare i j < 0) || (compare i j == 0 && decide (i < j))

/-- The loop from its second turn on. -/
def search (before : Nat → Bool) (lo hi : Nat) : Nat :=
  if lo < hi then
    let probe := (lo + hi) / 2
    if before probe then search before lo probe
    else search before (probe + 1) hi
  else lo
termination_by hi - lo

/-- The first probe is at `lo`. -/
def searchFirst (before : Nat → Bool) (lo hi : Nat) : Nat :=
  if lo < hi then if before lo then lo else search before (lo + 1) hi else lo

/-- The first file is pushed back behind those with smaller lines. -/
def pushBack : List Nat → List Nat
  | [] => []
  | ord0 :: ord =>
      let countOfSmallerLines := searchFirst
        (fun probe => comesBefore compare ord0 ((ord0 :: ord).getD probe ord0))
        1 (ord.length + 1) - 1
      ord.take countOfSmallerLines ++ ord0 :: ord.drop countOfSmallerLines

end

/-! ## `mergefps` -/

/-- The state of `mergefps`: the files that are left, in which order their next
lines stand, and the line that is kept for `-u`. -/
structure Merge (Line : Type) where
  files : List (List Line)
  ord : List Nat
  savedline : Option Line
  output : List Line

section

variable (compare : Line → Line → Int) (unique : Bool)

/-- `compare (cur[i], cur[j])`; the fallback is for files without a line, of
which there are none. -/
def compareCur (fallback : Line) (files : List (List Line)) (i j : Nat) : Int :=
  compare ((files.getD i []).headD fallback) ((files.getD j []).headD fallback)

/-- Only the first of an identical series of lines is output, when the next
series begins. -/
def outputLine (merge : Merge Line) (smallest : Line) : Merge Line :=
  if unique then
    match merge.savedline with
    | some saved =>
        if compare saved smallest ≠ 0 then
          { merge with
            savedline := some smallest
            output := merge.output ++ [saved] }
        else merge
    | none => { merge with savedline := some smallest }
  else { merge with output := merge.output ++ [smallest] }

/-- After the last line of the first file. -/
def closeFirst (merge : Merge Line) (ord0 : Nat) (ord : List Nat) :
    Merge Line :=
  { merge with
    files := merge.files.eraseIdx ord0
    ord := ord.map fun i => if ord0 < i then i - 1 else i }

/-- A turn of `mergefps` puts out the smallest of the next lines. -/
def mergeBody (merge : Merge Line) : Turn (Merge Line) Empty :=
  match merge.ord with
  | [] => .leave merge
  | ord0 :: ord =>
      match merge.files.getD ord0 [] with
      -- there are no files without a line
      | [] => .leave merge
      | smallest :: later =>
          let merge := outputLine compare unique merge smallest
          if later.isEmpty then .again (closeFirst merge ord0 ord)
          else
            let files := merge.files.set ord0 later
            .again { merge with
              files := files
              ord := pushBack (compareCur compare smallest files) merge.ord }

/-- `mergefps` puts out these lines. -/
def Merges (files : List (List Line)) (output : List Line) : Prop :=
  -- files without lines are eliminated
  let files := files.filter fun file => !file.isEmpty
  match files.flatten with
  | [] => output = []
  | fallback :: _ =>
      ∃ ord final,
        Ends (setUpOrd (compareCur compare fallback files))
          (List.range files.length) (.left ord) ∧
        Ends (mergeBody compare unique) ⟨files, ord, none, []⟩ (.left final) ∧
        output = final.output ++ if unique then final.savedline.toList else []

end

/-! ## `merge` -/

section

variable (compare : Line → Line → Int) (unique : Bool)

/-- `mergefiles` merges the files that it can open, and dies if there are more
of them than the one that it can. -/
inductive Mergefiles (nfiles : Nat) (files : List (List Line)) :
    List Line → Nat → Prop where
  | opened {output : List Line} {nopened : Nat}
      (enough : nopened = nfiles ∨ 2 ≤ nopened ∧ nopened < nfiles)
      (merges : Merges compare unique (files.take nopened) output) :
      Mergefiles nfiles files output nopened

/-- As many merges of `nmerge` files as possible. -/
inductive FullMerges (nmerge : Nat) :
    List (List Line) → List (List Line) →
      List (List Line) → List (List Line) → Prop where
  | short {out rest : List (List Line)} (few : rest.length < nmerge) :
      FullMerges nmerge out rest out rest
  | merge {out rest out' rest' : List (List Line)} {output : List Line}
      {numMerged : Nat} (many : nmerge ≤ rest.length)
      (merged : Mergefiles compare unique nmerge rest output numMerged)
      (later : FullMerges nmerge (out ++ [output]) (rest.drop numMerged) out'
        rest') :
      FullMerges nmerge out rest out' rest'

/-- Slots that the next turn can fill without another merge. -/
def cheapSlots (nmerge out : Nat) : Nat :=
  nmerge - out % nmerge

/-- A turn of the first loop of `merge`. -/
inductive Pass (nmerge : Nat) (files : List (List Line)) :
    List (List Line) → Prop where
  | fits {out rest : List (List Line)}
      (full : FullMerges compare unique nmerge [] files out rest)
      (room : rest.length ≤ cheapSlots nmerge out.length) :
      Pass nmerge files (out ++ rest)
  | short {out rest : List (List Line)} {output : List Line} {numMerged : Nat}
      (full : FullMerges compare unique nmerge [] files out rest)
      (exceeds : cheapSlots nmerge out.length < rest.length)
      (merged : Mergefiles compare unique
        (rest.length - cheapSlots nmerge out.length + 1) rest output
        numMerged) :
      Pass nmerge files (out ++ output :: rest.drop numMerged)

/-- A step of `merge` replaces files by the file they are merged into. -/
inductive MergeStep (nmerge : Nat) :
    List (List Line) → List (List Line) → Prop where
  | pass {files files' : List (List Line)} (many : nmerge < files.length)
      (pass : Pass compare unique nmerge files files') :
      MergeStep nmerge files files'
  /-- File descriptors have run out, for the output file at the latest. -/
  | exhausted {files : List (List Line)} {output : List Line} {nopened : Nat}
      (few : files.length ≤ nmerge) (several : 2 ≤ nopened)
      (less : nopened < files.length)
      (merges : Merges compare unique (files.take nopened) output) :
      MergeStep nmerge files (output :: files.drop nopened)

end

/-! ## Setting up the table -/

section

variable {compare : Nat → Nat → Int}

/-- Pairs that are the wrong way round. -/
def inversions (compare : Nat → Nat → Int) : List Nat → Nat
  | [] => 0
  | i :: ord => ord.countP (fun j => 0 < compare i j) + inversions compare ord

/-- An exchange keeps the files. -/
theorem swapFirst_perm {ord ord' : List Nat}
    (swapped : swapFirst compare ord = some ord') : ord'.Perm ord := by
  induction ord using swapFirst.induct compare generalizing ord' with
  | case1 i j ord greater =>
      rw [swapFirst, if_pos greater, Option.some_inj] at swapped
      rw [← swapped]
      exact List.Perm.swap i j ord
  | case2 i j ord inOrder inductionHypothesis =>
      rw [swapFirst, if_neg inOrder, Option.map_eq_some_iff] at swapped
      obtain ⟨rest, swapped, rfl⟩ := swapped
      exact (inductionHypothesis swapped).cons i
  | case3 ord short =>
      rw [swapFirst] at swapped
      · cases swapped
      · exact short

/-- It takes an inversion away. -/
theorem swapFirst_inversions (comparison : Comparison compare)
    {ord ord' : List Nat} (swapped : swapFirst compare ord = some ord') :
    inversions compare ord' < inversions compare ord := by
  induction ord using swapFirst.induct compare generalizing ord' with
  | case1 i j ord greater =>
      rw [swapFirst, if_pos greater, Option.some_inj] at swapped
      have swap := comparison.swap i j
      have less : ¬ 0 < compare j i := by
        intro greater'
        rw [Int.sign_eq_one_of_pos greater, Int.sign_eq_one_of_pos greater']
          at swap
        omega
      rw [← swapped]
      simp [inversions, greater, less]
      omega
  | case2 i j ord inOrder inductionHypothesis =>
      rw [swapFirst, if_neg inOrder, Option.map_eq_some_iff] at swapped
      obtain ⟨rest, swapped, rfl⟩ := swapped
      have lower := inductionHypothesis swapped
      rw [inversions, inversions, (swapFirst_perm swapped).countP_eq]
      omega
  | case3 ord short =>
      rw [swapFirst] at swapped
      · cases swapped
      · exact short

/-- A file gets in front of an earlier one only with a smaller line. -/
abbrev Stable (compare : Nat → Nat → Int) (ord : List Nat) : Prop :=
  ord.Pairwise fun i j => i < j ∨ compare i j < 0

/-- It keeps files in order whose lines are equal. -/
theorem swapFirst_stable (comparison : Comparison compare)
    {ord ord' : List Nat} (stable : Stable compare ord)
    (swapped : swapFirst compare ord = some ord') : Stable compare ord' := by
  induction ord using swapFirst.induct compare generalizing ord' with
  | case1 i j ord greater =>
      rw [swapFirst, if_pos greater, Option.some_inj] at swapped
      have swap := comparison.swap i j
      rw [Int.sign_eq_one_of_pos greater] at swap
      have less : compare j i < 0 := Int.sign_eq_neg_one_iff_neg.mp swap
      obtain ⟨beforeI, stable⟩ := List.pairwise_cons.mp stable
      obtain ⟨beforeJ, stable⟩ := List.pairwise_cons.mp stable
      rw [← swapped]
      refine List.pairwise_cons.mpr ⟨fun k inside => ?_,
        List.pairwise_cons.mpr ⟨fun k inside => ?_, stable⟩⟩
      · rcases List.mem_cons.mp inside with rfl | inside
        · exact .inr less
        · exact beforeJ k inside
      · exact beforeI k (List.mem_cons_of_mem j inside)
  | case2 i j ord inOrder inductionHypothesis =>
      rw [swapFirst, if_neg inOrder, Option.map_eq_some_iff] at swapped
      obtain ⟨rest, swapped, rfl⟩ := swapped
      obtain ⟨before, stable⟩ := List.pairwise_cons.mp stable
      refine List.pairwise_cons.mpr ⟨fun k inside => ?_,
        inductionHypothesis stable swapped⟩
      exact before k ((swapFirst_perm swapped).mem_iff.mp inside)
  | case3 ord short =>
      rw [swapFirst] at swapped
      · cases swapped
      · exact short

/-- With no neighbours out of order the whole table is in order. -/
theorem sorted_of_swapFirst (comparison : Comparison compare) {ord : List Nat}
    (settled : swapFirst compare ord = none) :
    Sorted (precedes compare) ord := by
  induction ord using swapFirst.induct compare with
  | case1 i j ord greater =>
      rw [swapFirst, if_pos greater] at settled
      cases settled
  | case2 i j ord inOrder inductionHypothesis =>
      rw [swapFirst, if_neg inOrder, Option.map_eq_none_iff] at settled
      have sorted := inductionHypothesis settled
      have before : precedes compare i j = true :=
        decide_eq_true (Int.not_lt.mp inOrder)
      refine List.pairwise_cons.mpr ⟨fun k inside => ?_, sorted⟩
      rcases List.mem_cons.mp inside with rfl | inside
      · exact before
      · exact comparison.ordering.trans _ _ _ before
          ((List.pairwise_cons.mp sorted).1 k inside)
  | case3 ord short =>
      match ord with
      | [] => exact List.Pairwise.nil
      | [i] => exact List.pairwise_singleton _ i
      | i :: j :: ord => exact absurd rfl (short i j ord)

/-- Of equal lines that of the earlier file comes first. -/
theorem comesBefore_iff (i j : Nat) :
    comesBefore compare i j = true ↔
      compare i j < 0 ∨ compare i j = 0 ∧ i < j := by
  simp [comesBefore]

/-- The files by their next lines. -/
abbrev InOrder (compare : Nat → Nat → Int) (ord : List Nat) : Prop :=
  ord.Pairwise fun i j => comesBefore compare i j = true

/-- The loop ends with the files in order. -/
theorem setUpOrd_ends (comparison : Comparison compare) (nfiles : Nat) :
    ∃ ord, Ends (setUpOrd compare) (List.range nfiles) (.left ord) ∧
      ord.Perm (List.range nfiles) ∧ InOrder compare ord := by
  have started : (List.range nfiles).Perm (List.range nfiles) ∧
      Stable compare (List.range nfiles) :=
    ⟨List.Perm.refl _, List.pairwise_lt_range.imp fun less => .inl less⟩
  refine @ends_of_invariant _ _ _
    (fun ord => ord.Perm (List.range nfiles) ∧ Stable compare ord) _
    (inversions compare) (fun ord invariant => ?_) _ started
  obtain ⟨perm, stable⟩ := invariant
  rw [setUpOrd]
  cases swapped : swapFirst compare ord with
  | some ord' =>
      exact .inl ⟨ord', rfl, ⟨(swapFirst_perm swapped).trans perm,
        swapFirst_stable comparison stable swapped⟩,
        swapFirst_inversions comparison swapped⟩
  | none =>
      refine .inr ⟨ord, rfl, perm, ?_⟩
      refine (stable.and (sorted_of_swapFirst comparison swapped)).imp ?_
      rintro i j ⟨less | less, before⟩
      · have before : compare i j ≤ 0 := of_decide_eq_true before
        rw [comesBefore_iff]
        omega
      · exact (comesBefore_iff i j).mpr (.inl less)

/-! ## Pushing the first file back -/

/-- Where the search ends, the two kinds of files meet. -/
structure Meets (before : Nat → Bool) (lo hi found : Nat) : Prop where
  lo_le : lo ≤ found
  le_hi : found ≤ hi
  smaller : ∀ i, lo ≤ i → i < found → before i = false
  larger : ∀ i, found ≤ i → i < hi → before i = true

/-- The search finds the first place that the line comes before. -/
theorem search_meets {before : Nat → Bool} {lo hi : Nat} (ordered : lo ≤ hi)
    (monotone : ∀ i j, lo ≤ i → i ≤ j → j < hi → before i = true →
      before j = true) :
    Meets before lo hi (search before lo hi) := by
  induction lo, hi using search.induct before with
  | case1 lo hi less probe isBefore inductionHypothesis =>
      have turn : search before lo hi = search before lo probe := by
        rw [search, if_pos less]
        exact if_pos isBefore
      rw [turn]
      obtain ⟨lo_le, le_hi, smaller, larger⟩ :=
        inductionHypothesis (by omega)
          fun i j first second last => monotone i j first second (by omega)
      refine ⟨lo_le, by omega, smaller, fun i above below => ?_⟩
      by_cases behind : i < probe
      · exact larger i above behind
      · exact monotone probe i (by omega) (by omega) below isBefore
  | case2 lo hi less probe isBehind inductionHypothesis =>
      have turn : search before lo hi = search before (probe + 1) hi := by
        rw [search, if_pos less]
        exact if_neg isBehind
      rw [turn]
      obtain ⟨lo_le, le_hi, smaller, larger⟩ :=
        inductionHypothesis (by omega)
          fun i j first second last => monotone i j (by omega) second last
      refine ⟨by omega, le_hi, fun i above below => ?_, larger⟩
      by_cases ahead : probe + 1 ≤ i
      · exact smaller i ahead below
      · refine Bool.eq_false_iff.mpr fun isBefore => isBehind ?_
        exact monotone i probe above (by omega) (by omega) isBefore
  | case3 lo hi empty =>
      rw [search, if_neg empty]
      exact ⟨le_rfl, ordered, fun i above below => by omega,
        fun i above below => by omega⟩

/-- So does the search that tries the second place first. -/
theorem searchFirst_meets {before : Nat → Bool} {lo hi : Nat}
    (ordered : lo ≤ hi)
    (monotone : ∀ i j, lo ≤ i → i ≤ j → j < hi → before i = true →
      before j = true) :
    Meets before lo hi (searchFirst before lo hi) := by
  rw [searchFirst]
  by_cases less : lo < hi
  · rw [if_pos less]
    by_cases isBefore : before lo = true
    · rw [if_pos isBefore]
      exact ⟨le_rfl, ordered, fun i above below => by omega,
        fun i above below => monotone lo i le_rfl above below isBefore⟩
    · rw [if_neg isBefore]
      have found : Meets before (lo + 1) hi (search before (lo + 1) hi) :=
        search_meets less
          fun i j first second last => monotone i j (by omega) second last
      obtain ⟨lo_le, le_hi, smaller, larger⟩ := found
      refine ⟨by omega, le_hi, fun i above below => ?_, larger⟩
      by_cases first : i = lo
      · rw [first]
        exact Bool.eq_false_iff.mpr isBefore
      · exact smaller i (by omega) below
  · rw [if_neg less]
    exact ⟨le_rfl, ordered, fun i above below => by omega,
      fun i above below => by omega⟩

/-- That order is transitive. -/
theorem comesBefore_trans (comparison : Comparison compare) {i j k : Nat}
    (first : comesBefore compare i j = true)
    (second : comesBefore compare j k = true) :
    comesBefore compare i k = true := by
  rw [comesBefore_iff] at first second ⊢
  have trans := comparison.trans i j k
  have back := comparison.trans k i j
  have back' := comparison.trans j k i
  have swapIK := comparison.sign_swap i k
  have swapJI := comparison.sign_swap i j
  have swapKJ := comparison.sign_swap j k
  omega

/-- And of two files one comes first. -/
theorem comesBefore_total (comparison : Comparison compare) {i j : Nat}
    (different : i ≠ j) (behind : comesBefore compare i j = false) :
    comesBefore compare j i = true := by
  rw [Bool.eq_false_iff, Ne, comesBefore_iff] at behind
  rw [comesBefore_iff]
  have swap := comparison.sign_swap i j
  omega

theorem pushBack_perm (compare : Nat → Nat → Int) (ord : List Nat) :
    (pushBack compare ord).Perm ord := by
  cases ord with
  | nil => exact List.Perm.refl _
  | cons ord0 ord =>
      rw [pushBack]
      refine List.perm_middle.trans ?_
      rw [List.take_append_drop]

theorem getD_cons {ord0 i : Nat} {ord : List Nat} (below : i < ord.length) :
    (ord0 :: ord).getD (i + 1) ord0 = ord[i] := by
  rw [List.getD_cons_succ, List.getD_eq_getElem?_getD,
    List.getElem?_eq_getElem below, Option.getD_some]

/-- A file whose next line has changed finds its place among the others. -/
theorem pushBack_inOrder (comparison : Comparison compare) {ord0 : Nat}
    {ord : List Nat} (inOrder : InOrder compare ord) (outside : ord0 ∉ ord) :
    InOrder compare (pushBack compare (ord0 :: ord)) := by
  have monotone (i j : Nat) (first : 1 ≤ i) (ordered : i ≤ j)
      (last : j < ord.length + 1)
      (before : comesBefore compare ord0 ((ord0 :: ord).getD i ord0) = true) :
      comesBefore compare ord0 ((ord0 :: ord).getD j ord0) = true := by
    obtain ⟨i, rfl⟩ := Nat.exists_eq_add_of_le' first
    obtain ⟨j, rfl⟩ := Nat.exists_eq_add_of_le' (first.trans ordered)
    have belowI : i < ord.length := by omega
    have belowJ : j < ord.length := by omega
    rw [getD_cons belowI] at before
    rw [getD_cons belowJ]
    rcases Nat.lt_or_eq_of_le ordered with less | same
    · exact comesBefore_trans comparison before
        (List.pairwise_iff_getElem.mp inOrder i j belowI belowJ (by omega))
    · obtain rfl : i = j := by omega
      exact before
  have found := searchFirst_meets (Nat.succ_le_succ (Nat.zero_le ord.length))
    monotone
  rw [pushBack]
  generalize searchFirst _ 1 (ord.length + 1) = found' at found ⊢
  obtain ⟨lo_le, le_hi, smaller, larger⟩ := found
  refine List.pairwise_append.mpr ⟨inOrder.sublist (List.take_sublist _ _),
    List.pairwise_cons.mpr ⟨fun k inside => ?_,
      inOrder.sublist (List.drop_sublist _ _)⟩, fun i inTake j inRest => ?_⟩
  · obtain ⟨position, below, rfl⟩ := List.mem_drop_iff_getElem.mp inside
    have before := larger (found' - 1 + position + 1) (by omega) (by omega)
    rwa [getD_cons (by omega)] at before
  · obtain ⟨position, below, rfl⟩ := List.mem_take_iff_getElem.mp inTake
    rcases List.mem_cons.mp inRest with rfl | inDrop
    · have behind := smaller (position + 1) (by omega) (by omega)
      rw [getD_cons (by omega)] at behind
      refine comesBefore_total comparison ?_ behind
      exact fun same => outside (same ▸ List.getElem_mem _)
    · obtain ⟨position', below', rfl⟩ := List.mem_drop_iff_getElem.mp inDrop
      exact List.pairwise_iff_getElem.mp inOrder _ _ _ _ (by omega)

end

/-! ## One line -/

section

variable {compare : Line → Line → Int} {unique : Bool} {merge : Merge Line}
  {files : List (List Line)} {ord0 : Nat} {ord : List Nat} {smallest : Line}
  {later : List Line}

/-- Between two turns. -/
structure Merge.Valid (compare : Line → Line → Int) (merge : Merge Line) :
    Prop where
  sorted : ∀ file ∈ merge.files, Sorted (precedes compare) file
  some : ∀ file ∈ merge.files, file ≠ []
  nodup : merge.ord.Nodup
  mem_ord : ∀ i, i ∈ merge.ord ↔ i < merge.files.length
  inOrder : ∀ fallback,
    InOrder (compareCur compare fallback merge.files) merge.ord

/-- The files are compared by their next lines. -/
theorem compareCur_comparison (comparison : Comparison compare)
    (fallback : Line) (files : List (List Line)) :
    Comparison (compareCur compare fallback files) :=
  comparison.comap fun i => (files.getD i []).headD fallback

theorem getD_of_lt {i : Nat} (below : i < files.length) :
    files.getD i [] = files[i] := by
  rw [List.getD_eq_getElem?_getD, List.getElem?_eq_getElem below,
    Option.getD_some]

theorem headD_of_ne_nil {file : List Line} (nonempty : file ≠ [])
    (fallback fallback' : Line) :
    file.headD fallback = file.headD fallback' := by
  cases file with
  | nil => exact absurd rfl nonempty
  | cons line file => rfl

/-- What stands in for a line of an empty file does not matter where no file is
empty. -/
theorem inOrder_fallback {ord : List Nat} (nonempty : ∀ file ∈ files, file ≠ [])
    (inside : ∀ i ∈ ord, i < files.length) {fallback : Line}
    (inOrder : InOrder (compareCur compare fallback files) ord)
    (fallback' : Line) : InOrder (compareCur compare fallback' files) ord := by
  have head (i : Nat) (inOrd : i ∈ ord) :
      (files.getD i []).headD fallback = (files.getD i []).headD fallback' := by
    rw [getD_of_lt (inside i inOrd)]
    exact headD_of_ne_nil (nonempty _ (List.getElem_mem _)) _ _
  refine inOrder.imp_of_mem fun {i j} inI inJ before => ?_
  rwa [comesBefore, compareCur, ← head i inI, ← head j inJ]

/-- The current line of the first file in the table is the first of the least
ones. -/
theorem Merge.Valid.least (comparison : Comparison compare)
    (valid : merge.Valid compare) (table : merge.ord = ord0 :: ord)
    (current : merge.files.getD ord0 [] = smallest :: later) :
    merge.files.flatten.mergeSort (precedes compare) =
      smallest :: ((merge.files.take ord0).flatten ++
        (later ++ (merge.files.drop (ord0 + 1)).flatten)).mergeSort
          (precedes compare) := by
  have below : ord0 < merge.files.length :=
    (valid.mem_ord ord0).mp (by simp [table])
  rw [getD_of_lt below] at current
  have inOrder := valid.inOrder smallest
  rw [table] at inOrder
  have before (i : Nat) (inside : i < merge.files.length) (other : i ≠ ord0) :
      comesBefore (compareCur compare smallest merge.files) ord0 i = true := by
    refine (List.pairwise_cons.mp inOrder).1 i ?_
    have inOrd := (valid.mem_ord i).mpr inside
    rw [table] at inOrd
    exact (List.mem_cons.mp inOrd).resolve_left other
  have least (i : Nat) (inside : i < merge.files.length) (other : i ≠ ord0)
      (line : Line) (inFile : line ∈ merge.files[i]) :
      compare smallest line < 0 ∨ compare smallest line ≤ 0 ∧ ord0 < i := by
    have sorted : compare ((merge.files[i]).headD smallest) line ≤ 0 :=
      of_decide_eq_true ((valid.sorted _ (List.getElem_mem inside)).headD_le
        comparison.ordering inFile smallest)
    have cur := (comesBefore_iff ord0 i).mp (before i inside other)
    simp only [compareCur, getD_of_lt inside, getD_of_lt below, current,
      List.headD_cons] at cur
    rcases cur with less | ⟨same, behind⟩
    · refine .inl (Int.not_le.mp fun notLess => ?_)
      have swap := comparison.sign_swap line smallest
      have back : compare line smallest ≤ 0 := by omega
      have behind := comparison.trans _ _ _ sorted back
      have swap' :=
        comparison.sign_swap ((merge.files[i]).headD smallest) smallest
      omega
    · exact .inr ⟨comparison.trans _ _ _ same.le sorted, behind⟩
  have split : merge.files.flatten = (merge.files.take ord0).flatten ++
      smallest :: (later ++ (merge.files.drop (ord0 + 1)).flatten) := by
    have parts := List.take_append_drop ord0 merge.files
    rw [List.drop_eq_getElem_cons below, current] at parts
    rw [← List.cons_append, ← List.flatten_cons, ← List.flatten_append, parts]
  rw [split]
  refine mergeSort_least comparison.ordering (fun line inFront => ?_)
    fun line behind => ?_
  · obtain ⟨file, inTake, inFile⟩ := List.mem_flatten.mp inFront
    obtain ⟨i, bound, rfl⟩ := List.mem_take_iff_getElem.mp inTake
    have swap := comparison.sign_swap smallest line
    rw [precedes, decide_eq_true_eq]
    rcases least i (by omega) (by omega) line inFile with less | less <;> omega
  · refine decide_eq_true ?_
    rcases List.mem_append.mp behind with inLater | inBack
    · have sorted := valid.sorted _ (List.getElem_mem below)
      rw [current] at sorted
      exact of_decide_eq_true ((List.pairwise_cons.mp sorted).1 line inLater)
    · obtain ⟨file, inDrop, inFile⟩ := List.mem_flatten.mp inBack
      obtain ⟨i, bound, rfl⟩ := List.mem_drop_iff_getElem.mp inDrop
      rcases least _ (by omega) (by omega) line inFile with less | less <;>
        omega

/-- What is still to be put out. -/
def Merge.rest (compare : Line → Line → Int) (unique : Bool)
    (savedline : Option Line) (sorted : List Line) : List Line :=
  if unique then
    match savedline with
    | some saved => saved :: firstsAfter (precedes compare) saved sorted
    | none => firsts (precedes compare) sorted
  else sorted

/-- Putting out the smallest line leaves the others to be put out. -/
theorem outputLine_rest (comparison : Comparison compare)
    (merge : Merge Line) (smallest : Line) (sorted : List Line) :
    merge.output ++ Merge.rest compare unique merge.savedline
        (smallest :: sorted) =
      (outputLine compare unique merge smallest).output ++
        Merge.rest compare unique
          (outputLine compare unique merge smallest).savedline sorted := by
  cases unique with
  | false => simp [Merge.rest, outputLine]
  | true =>
      match saved : merge.savedline with
      | none => simp [Merge.rest, outputLine, saved, firsts]
      | some line =>
          have alike := comparison.alike_iff line smallest
          by_cases same : compare line smallest = 0
          · simp [Merge.rest, outputLine, saved, firstsAfter, same,
              alike.mpr same]
          · have other := mt alike.mp same
            simp [Merge.rest, outputLine, saved, firstsAfter, same, other]

@[simp]
theorem outputLine_files :
    (outputLine compare unique merge smallest).files = merge.files := by
  unfold outputLine
  split
  · split
    · split <;> rfl
    · rfl
  · rfl

@[simp]
theorem outputLine_ord :
    (outputLine compare unique merge smallest).ord = merge.ord := by
  unfold outputLine
  split
  · split
    · split <;> rfl
    · rfl
  · rfl

/-- The next line of the first file is its current one. -/
theorem Merge.Valid.next (comparison : Comparison compare)
    (valid : merge.Valid compare) (table : merge.ord = ord0 :: ord)
    (current : merge.files.getD ord0 [] = smallest :: later)
    (more : later ≠ []) (savedline : Option Line) (output : List Line) :
    Merge.Valid compare ⟨merge.files.set ord0 later,
      pushBack (compareCur compare smallest (merge.files.set ord0 later))
        (ord0 :: ord), savedline, output⟩ := by
  have below : ord0 < merge.files.length :=
    (valid.mem_ord ord0).mp (by simp [table])
  have perm := pushBack_perm
    (compareCur compare smallest (merge.files.set ord0 later)) (ord0 :: ord)
  have nodup := valid.nodup
  have inOrder := valid.inOrder smallest
  rw [table] at nodup inOrder
  obtain ⟨outside, nodupOrd⟩ := List.nodup_cons.mp nodup
  have nonempty' : ∀ file ∈ merge.files.set ord0 later, file ≠ [] := by
    intro file inFiles
    rcases List.mem_or_eq_of_mem_set inFiles with inFiles | rfl
    · exact valid.some file inFiles
    · exact more
  have members (i : Nat) : i ∈ ord0 :: ord ↔ i < merge.files.length := by
    rw [← table]
    exact valid.mem_ord i
  refine ⟨fun file inFiles => ?_, nonempty', perm.nodup_iff.mpr nodup, fun i => ?_,
    ?_⟩
  · rcases List.mem_or_eq_of_mem_set inFiles with inFiles | rfl
    · exact valid.sorted file inFiles
    · have sorted := valid.sorted _ (List.getElem_mem below)
      rw [getD_of_lt below] at current
      rw [current] at sorted
      exact sorted.of_cons
  · rw [List.length_set]
    exact perm.mem_iff.trans (members i)
  · refine inOrder_fallback nonempty' (fun i inOrd => ?_)
      (pushBack_inOrder (compareCur_comparison comparison _ _) ?_ outside)
    · rw [List.length_set]
      exact (members i).mp (perm.mem_iff.mp inOrd)
    · have kept (i : Nat) (inOrd : i ∈ ord) :
          (merge.files.set ord0 later).getD i [] = merge.files.getD i [] := by
        have other : ord0 ≠ i := fun same => outside (same ▸ inOrd)
        simp [List.getD_eq_getElem?_getD, other]
      refine (List.pairwise_cons.mp inOrder).2.imp_of_mem
        fun {i j} inI inJ before => ?_
      rwa [comesBefore, compareCur, kept i inI, kept j inJ]

/-- The number of a file behind the one that is closed goes down. -/
theorem getD_eraseIdx {i : Nat} (other : i ≠ ord0) :
    (files.eraseIdx ord0).getD (if ord0 < i then i - 1 else i) [] =
      files.getD i [] := by
  simp only [List.getD_eq_getElem?_getD, List.getElem?_eraseIdx]
  by_cases behind : ord0 < i
  · rw [if_pos behind, if_neg (by omega), Nat.sub_add_cancel (by omega)]
  · rw [if_neg behind, if_pos (by omega)]

/-- A file without more lines is taken out. -/
theorem Merge.Valid.close (valid : merge.Valid compare)
    (table : merge.ord = ord0 :: ord) (savedline : Option Line)
    (output : List Line) :
    Merge.Valid compare
      (closeFirst ⟨merge.files, merge.ord, savedline, output⟩ ord0 ord) := by
  have below : ord0 < merge.files.length :=
    (valid.mem_ord ord0).mp (by simp [table])
  have nodup := valid.nodup
  rw [table] at nodup
  obtain ⟨outside, nodupOrd⟩ := List.nodup_cons.mp nodup
  have other {i : Nat} (inOrd : i ∈ ord) : i ≠ ord0 :=
    fun same => outside (same ▸ inOrd)
  refine ⟨fun file inFiles =>
      valid.sorted file (List.mem_of_mem_eraseIdx inFiles),
    fun file inFiles => valid.some file (List.mem_of_mem_eraseIdx inFiles),
    ?_, fun i => ?_, fun fallback => ?_⟩
  · refine List.Nodup.map_on (fun i inI j inJ same => ?_) nodupOrd
    have otherI := other inI
    have otherJ := other inJ
    split at same <;> split at same <;> omega
  · rw [closeFirst, List.length_eraseIdx_of_lt below, List.mem_map]
    constructor
    · rintro ⟨j, inOrd, rfl⟩
      have inside := (valid.mem_ord j).mp (by simp [table, inOrd])
      have otherJ := other inOrd
      split <;> omega
    · intro inside
      have inOrd (j : Nat) (inside : j < merge.files.length)
          (otherJ : j ≠ ord0) : j ∈ ord := by
        have inTable := (valid.mem_ord j).mpr inside
        rw [table] at inTable
        exact (List.mem_cons.mp inTable).resolve_left otherJ
      by_cases behind : i < ord0
      · exact ⟨i, inOrd i (by omega) (by omega), if_neg (by omega)⟩
      · exact ⟨i + 1, inOrd (i + 1) (by omega) (by omega), if_pos (by omega)⟩
  · have inOrder := valid.inOrder fallback
    rw [table] at inOrder
    refine List.pairwise_map.mpr ((List.pairwise_cons.mp inOrder).2.imp_of_mem
      fun {i j} inI inJ before => ?_)
    have otherI := other inI
    have otherJ := other inJ
    rw [comesBefore_iff] at before ⊢
    simp only [closeFirst, compareCur, getD_eraseIdx otherI,
      getD_eraseIdx otherJ] at before ⊢
    refine before.imp_right fun ⟨same, less⟩ => ⟨same, ?_⟩
    split <;> split <;> omega

theorem flatten_set (below : ord0 < files.length) :
    (files.set ord0 later).flatten =
      (files.take ord0).flatten ++
        (later ++ (files.drop (ord0 + 1)).flatten) := by
  rw [List.set_eq_take_append_cons_drop, if_pos below, List.flatten_append,
    List.flatten_cons]

theorem flatten_eraseIdx :
    (files.eraseIdx ord0).flatten =
      (files.take ord0).flatten ++ (files.drop (ord0 + 1)).flatten := by
  rw [List.eraseIdx_eq_take_drop_succ, List.flatten_append]

/-- The step lemma. -/
theorem mergeBody_step (comparison : Comparison compare) (unique : Bool)
    (valid : merge.Valid compare) (table : merge.ord = ord0 :: ord) :
    ∃ next, mergeBody compare unique merge = .again next ∧
      next.Valid compare ∧
      next.files.flatten.length < merge.files.flatten.length ∧
      merge.output ++ Merge.rest compare unique merge.savedline
          (merge.files.flatten.mergeSort (precedes compare)) =
        next.output ++ Merge.rest compare unique next.savedline
          (next.files.flatten.mergeSort (precedes compare)) := by
  have below : ord0 < merge.files.length :=
    (valid.mem_ord ord0).mp (by simp [table])
  cases current : merge.files.getD ord0 [] with
  | nil =>
      rw [getD_of_lt below] at current
      exact absurd current (valid.some _ (List.getElem_mem below))
  | cons smallest later =>
      have least := valid.least comparison table current
      have lengths := congrArg List.length least
      simp only [List.length_mergeSort, List.length_cons] at lengths
      rw [least, outputLine_rest comparison]
      have turn : mergeBody compare unique merge =
          if later.isEmpty then
            .again (closeFirst (outputLine compare unique merge smallest) ord0
              ord)
          else .again { outputLine compare unique merge smallest with
            files := merge.files.set ord0 later
            ord := pushBack
              (compareCur compare smallest (merge.files.set ord0 later))
              (ord0 :: ord) } := by
        simp only [mergeBody, table, current, outputLine_files, outputLine_ord]
      cases later with
      | nil =>
          refine ⟨_, turn, ?_, ?_, ?_⟩
          · have closed := valid.close table
              (outputLine compare unique merge smallest).savedline
              (outputLine compare unique merge smallest).output
            simpa only [closeFirst, outputLine_files] using closed
          · simp only [closeFirst, outputLine_files, flatten_eraseIdx]
            rw [lengths, List.nil_append]
            exact Nat.lt_succ_self _
          · simp only [closeFirst, outputLine_files, flatten_eraseIdx,
              List.nil_append]
      | cons line later =>
          refine ⟨_, turn, valid.next comparison table current nofun _ _, ?_, ?_⟩
          · rw [lengths, flatten_set below]
            exact Nat.lt_succ_self _
          · simp only [flatten_set below]

/-- `mergefps` ends when every line is out. -/
theorem mergeBody_ends (comparison : Comparison compare) (unique : Bool)
    (valid : merge.Valid compare) :
    ∃ final, Ends (mergeBody compare unique) merge (.left final) ∧
      merge.output ++ Merge.rest compare unique merge.savedline
          (merge.files.flatten.mergeSort (precedes compare)) =
        final.output ++ if unique then final.savedline.toList else [] := by
  refine @ends_of_invariant _ _ _
    (fun state => state.Valid compare ∧
      merge.output ++ Merge.rest compare unique merge.savedline
          (merge.files.flatten.mergeSort (precedes compare)) =
        state.output ++ Merge.rest compare unique state.savedline
          (state.files.flatten.mergeSort (precedes compare))) _
    (fun state => state.files.flatten.length)
    (fun state invariant => ?_) _ ⟨valid, rfl⟩
  obtain ⟨valid, written⟩ := invariant
  match table : state.ord with
  | ord0 :: ord =>
      obtain ⟨next, turn, valid', lowered, written'⟩ :=
        mergeBody_step comparison unique valid table
      exact .inl ⟨next, turn, ⟨valid', written.trans written'⟩, lowered⟩
  | [] =>
      refine .inr ⟨state, by rw [mergeBody, table], ?_⟩
      have noFiles : state.files = [] := by
        refine List.eq_nil_of_length_eq_zero (Nat.eq_zero_of_not_pos ?_)
        intro more
        have inTable := (valid.mem_ord 0).mpr more
        rw [table] at inTable
        cases inTable
      rw [written, noFiles]
      cases unique with
      | false => simp [Merge.rest]
      | true => cases saved : state.savedline <;>
          simp [Merge.rest, firsts, firstsAfter]

/-- Files in order may be merged. -/
theorem merge_valid
    (sorted : ∀ file ∈ files, Sorted (precedes compare) file)
    (nonempty : ∀ file ∈ files, file ≠ []) {fallback : Line} {ord : List Nat}
    (perm : ord.Perm (List.range files.length))
    (inOrder : InOrder (compareCur compare fallback files) ord) :
    Merge.Valid compare ⟨files, ord, none, []⟩ := by
  have inside (i : Nat) : i ∈ ord ↔ i < files.length :=
    perm.mem_iff.trans List.mem_range
  exact ⟨sorted, nonempty, perm.nodup_iff.mpr List.nodup_range, inside,
    inOrder_fallback nonempty (fun i inOrd => (inside i).mp inOrd) inOrder⟩

/-- `mergefps` is a stable merge, of the first lines of every series with `-u`. -/
theorem merges_iff (comparison : Comparison compare) (unique : Bool)
    {files : List (List Line)}
    (sorted : ∀ file ∈ files, Sorted (precedes compare) file)
    (output : List Line) :
    Merges compare unique files output ↔
      output = sortedLines compare unique files.flatten := by
  have same : files.flatten =
      (files.filter fun file => !file.isEmpty).flatten :=
    List.flatten_filter_not_isEmpty.symm
  rw [Merges, same]
  have sorted' : ∀ file ∈ files.filter fun file => !file.isEmpty,
      Sorted (precedes compare) file :=
    fun file inFiles => sorted file (List.mem_of_mem_filter inFiles)
  have nonempty : ∀ file ∈ files.filter fun file => !file.isEmpty, file ≠ [] := by
    intro file inFiles
    simpa using (List.mem_filter.mp inFiles).2
  clear sorted same
  generalize files.filter (fun file => !file.isEmpty) = files at sorted' nonempty ⊢
  split
  next noFiles =>
    rw [noFiles, sortedLines]
    cases unique <;> simp [firsts]
  next fallback _ _ =>
    obtain ⟨ord, ends, perm, inOrder⟩ := setUpOrd_ends
      (compareCur_comparison comparison fallback files) files.length
    obtain ⟨final, ends', written⟩ := mergeBody_ends comparison unique
      (merge_valid sorted' nonempty perm inOrder)
    have expected : sortedLines compare unique files.flatten =
        final.output ++ if unique then final.savedline.toList else [] := by
      rw [← written, List.nil_append, Merge.rest, sortedLines]
    rw [expected]
    constructor
    · rintro ⟨ord', final', first, second, rfl⟩
      obtain rfl := Ending.left.inj (first.unique ends)
      obtain rfl := Ending.left.inj (second.unique ends')
      rfl
    · rintro rfl
      exact ⟨ord, final, ends, ends', rfl⟩

end

/-! ## Merging in several passes -/

section

variable {compare : Line → Line → Int} {unique : Bool}

/-- Parts that are sorted may be sorted together. -/
theorem sortedLines_flatten_map (comparison : Comparison compare)
    (runs : List (List Line)) :
    sortedLines compare unique (runs.map (sortedLines compare unique)).flatten =
      sortedLines compare unique runs.flatten := by
  cases unique with
  | false => exact mergeSort_flatten_map comparison.ordering runs
  | true => exact firsts_mergeSort_flatten_map comparison.ordering runs

/-- Sorting twice is sorting once. -/
theorem sortedLines_sortedLines (comparison : Comparison compare)
    (lines : List Line) :
    sortedLines compare unique (sortedLines compare unique lines) =
      sortedLines compare unique lines := by
  simpa using @sortedLines_flatten_map _ _ unique comparison [lines]

/-- Neighbouring files may be sorted beforehand. -/
theorem sortedLines_window (comparison : Comparison compare)
    (front window back : List Line) :
    sortedLines compare unique
        (front ++ (sortedLines compare unique window ++ back)) =
      sortedLines compare unique (front ++ (window ++ back)) := by
  have apart (window : List Line) :
      sortedLines compare unique (sortedLines compare unique front ++
          (sortedLines compare unique window ++
            sortedLines compare unique back)) =
        sortedLines compare unique (front ++ (window ++ back)) := by
    simpa using @sortedLines_flatten_map _ _ unique comparison
      [front, window, back]
  rw [← apart, ← apart window, sortedLines_sortedLines comparison]

/-- What is sorted is in order. -/
theorem sorted_sortedLines (comparison : Comparison compare)
    (lines : List Line) :
    Sorted (precedes compare) (sortedLines compare unique lines) := by
  have sorted := sorted_mergeSort comparison.ordering lines
  cases unique with
  | false => exact sorted
  | true => exact sorted_firsts sorted

/-- The files are sorted, and together they have the lines of the others. -/
structure Stands (compare : Line → Line → Int) (unique : Bool)
    (files files' : List (List Line)) : Prop where
  sorted : ∀ file ∈ files', Sorted (precedes compare) file
  same : sortedLines compare unique files'.flatten =
    sortedLines compare unique files.flatten

/-- A merge of some files in the middle changes nothing about the result. -/
theorem merges_window (comparison : Comparison compare)
    {out rest : List (List Line)} {output : List Line} {nopened : Nat}
    (sorted : ∀ file ∈ out ++ rest, Sorted (precedes compare) file)
    (merges : Merges compare unique (rest.take nopened) output) :
    Stands compare unique (out ++ rest) (out ++ output :: rest.drop nopened) := by
  have inRest {file : List Line} (inside : file ∈ rest) :
      Sorted (precedes compare) file :=
    sorted file (List.mem_append_right out inside)
  obtain rfl := (merges_iff comparison unique
    (fun file inside => inRest (List.mem_of_mem_take inside)) output).mp merges
  constructor
  · intro file inside
    rcases List.mem_append.mp inside with inOut | inside
    · exact sorted file (List.mem_append_left rest inOut)
    · rcases List.mem_cons.mp inside with rfl | inside
      · exact sorted_sortedLines comparison _
      · exact inRest (List.mem_of_mem_drop inside)
  · rw [List.flatten_append, List.flatten_cons, sortedLines_window comparison,
      ← List.flatten_append, ← List.flatten_append, List.take_append_drop]

/-- Nor does `mergefiles`, which leaves fewer files. -/
theorem Mergefiles.stands (comparison : Comparison compare)
    {nfiles numMerged : Nat} {out rest : List (List Line)} {output : List Line}
    (merged : Mergefiles compare unique nfiles rest output numMerged)
    (several : 2 ≤ nfiles) (fits : nfiles ≤ rest.length)
    (sorted : ∀ file ∈ out ++ rest, Sorted (precedes compare) file) :
    Stands compare unique (out ++ rest) (out ++ output :: rest.drop numMerged) ∧
      (rest.drop numMerged).length + 1 < rest.length := by
  obtain ⟨enough, merges⟩ := merged
  refine ⟨merges_window comparison sorted merges, ?_⟩
  rw [List.length_drop]
  omega

/-- Nor do the full merges of a pass. -/
theorem FullMerges.stands (comparison : Comparison compare) {nmerge : Nat}
    (several : 2 ≤ nmerge) {out rest out' rest' : List (List Line)}
    (full : FullMerges compare unique nmerge out rest out' rest')
    (sorted : ∀ file ∈ out ++ rest, Sorted (precedes compare) file) :
    Stands compare unique (out ++ rest) (out' ++ rest') ∧
      out'.length + rest'.length ≤ out.length + rest.length ∧
      (nmerge ≤ rest.length →
        out'.length + rest'.length < out.length + rest.length) ∧
      rest'.length < nmerge := by
  induction full with
  | short few => exact ⟨⟨sorted, rfl⟩, le_rfl, fun many => by omega, few⟩
  | merge many merged later inductionHypothesis =>
      obtain ⟨stands, shorter⟩ :=
        merged.stands comparison several many sorted
      rw [List.append_cons] at stands
      obtain ⟨stands', notLonger, -, few⟩ := inductionHypothesis stands.sorted
      rw [List.length_append, List.length_singleton] at notLonger
      exact ⟨⟨stands'.sorted, stands'.same.trans stands.same⟩, by omega,
        fun _ => by omega, few⟩

/-- Nor does a pass, which leaves fewer files. -/
theorem Pass.stands (comparison : Comparison compare) {nmerge : Nat}
    (several : 2 ≤ nmerge) {files files' : List (List Line)}
    (pass : Pass compare unique nmerge files files')
    (many : nmerge < files.length)
    (sorted : ∀ file ∈ files, Sorted (precedes compare) file) :
    Stands compare unique files files' ∧ files'.length < files.length := by
  cases pass with
  | fits full room =>
      obtain ⟨stands, -, shorter, -⟩ := full.stands comparison several sorted
      have shorter := shorter many.le
      rw [List.length_nil] at shorter
      exact ⟨stands, by rw [List.length_append]; omega⟩
  | @short out rest output numMerged full exceeds merged =>
      obtain ⟨stands, -, shorter, few⟩ := full.stands comparison several sorted
      have shorter := shorter many.le
      have room : 0 < cheapSlots nmerge out.length :=
        Nat.sub_pos_of_lt (Nat.mod_lt _ (by omega))
      obtain ⟨stands', shorter'⟩ := merged.stands comparison (by omega)
        (by omega) stands.sorted
      refine ⟨⟨stands'.sorted, stands'.same.trans stands.same⟩, ?_⟩
      rw [List.length_nil] at shorter
      rw [List.length_append, List.length_cons]
      omega

/-- Nor does any step. -/
theorem MergeStep.stands (comparison : Comparison compare) {nmerge : Nat}
    (several : 2 ≤ nmerge) {files files' : List (List Line)}
    (step : MergeStep compare unique nmerge files files')
    (sorted : ∀ file ∈ files, Sorted (precedes compare) file) :
    Stands compare unique files files' ∧ files'.length < files.length := by
  cases step with
  | pass many pass => exact pass.stands comparison several many sorted
  | exhausted few some less merges =>
      refine ⟨@merges_window _ _ _ comparison [] _ _ _ sorted merges, ?_⟩
      rw [List.length_cons, List.length_drop]
      omega

/-- There is always a next step, if all files can be opened. -/
theorem fullMerges_exists (comparison : Comparison compare) {nmerge : Nat}
    (several : 2 ≤ nmerge) {out rest : List (List Line)}
    (sorted : ∀ file ∈ out ++ rest, Sorted (precedes compare) file) :
    ∃ out' rest', FullMerges compare unique nmerge out rest out' rest' := by
  induction length : rest.length using Nat.strong_induction_on
    generalizing out rest with
  | _ length inductionHypothesis =>
      by_cases few : rest.length < nmerge
      · exact ⟨out, rest, .short few⟩
      · have merges := (merges_iff comparison unique
          (fun file inside => sorted file
            (List.mem_append_right out (List.mem_of_mem_take inside))) _).mpr
          (Eq.refl (sortedLines compare unique (rest.take nmerge).flatten))
        have merged : Mergefiles compare unique nmerge rest _ nmerge :=
          .opened (.inl rfl) merges
        obtain ⟨stands, shorter⟩ := merged.stands comparison several
          (Nat.not_lt.mp few) sorted
        rw [List.append_cons] at stands
        obtain ⟨out', rest', later⟩ := inductionHypothesis _ (by omega)
          stands.sorted rfl
        exact ⟨out', rest', .merge (Nat.not_lt.mp few) merged later⟩

/-- With too many files there is a step. -/
theorem mergeStep_exists (comparison : Comparison compare) {nmerge : Nat}
    (several : 2 ≤ nmerge) {files : List (List Line)}
    (many : nmerge < files.length)
    (sorted : ∀ file ∈ files, Sorted (precedes compare) file) :
    ∃ files', MergeStep compare unique nmerge files files' := by
  obtain ⟨out, rest, full⟩ :=
    @fullMerges_exists _ compare unique comparison _ several [] files sorted
  by_cases room : rest.length ≤ cheapSlots nmerge out.length
  · exact ⟨_, .pass many (.fits full room)⟩
  · obtain ⟨stands, -, -, few⟩ := full.stands comparison several sorted
    have merges := (merges_iff comparison unique
      (fun file inside => stands.sorted file
        (List.mem_append_right out (List.mem_of_mem_take inside))) _).mpr
      (Eq.refl (sortedLines compare unique (rest.take
        (rest.length - cheapSlots nmerge out.length + 1)).flatten))
    exact ⟨_, .pass many
      (.short full (Nat.not_le.mp room) (.opened (.inl rfl) merges))⟩

/-- Every step makes the files fewer. -/
theorem mergePasses_terminate (comparison : Comparison compare) (unique : Bool)
    {nmerge : Nat} (several : 2 ≤ nmerge) {files : List (List Line)}
    (sorted : ∀ file ∈ files, Sorted (precedes compare) file) :
    Acc (fun files' files => MergeStep compare unique nmerge files files')
      files := by
  induction length : files.length using Nat.strong_induction_on
    generalizing files with
  | _ length inductionHypothesis =>
      refine ⟨_, fun files' step => ?_⟩
      obtain ⟨stands, shorter⟩ := step.stands comparison several sorted
      exact inductionHypothesis _ (by omega) stands.sorted rfl

/-- All steps together change nothing about the result. -/
theorem mergePasses_stand (comparison : Comparison compare) {unique : Bool}
    {nmerge : Nat} (several : 2 ≤ nmerge) {files files' : List (List Line)}
    (sorted : ∀ file ∈ files, Sorted (precedes compare) file)
    (reached : Relation.ReflTransGen (MergeStep compare unique nmerge) files
      files') :
    Stands compare unique files files' := by
  induction reached with
  | refl => exact ⟨sorted, rfl⟩
  | tail _ step inductionHypothesis =>
      obtain ⟨stands, -⟩ :=
        step.stands comparison several inductionHypothesis.sorted
      exact ⟨stands.sorted, stands.same.trans inductionHypothesis.same⟩

/-- The last merge puts out the sort of all lines. -/
theorem Stands.merges_iff (comparison : Comparison compare) {unique : Bool}
    {files files' : List (List Line)} (stands : Stands compare unique files files')
    (output : List Line) :
    Merges compare unique files' output ↔
      output = sortedLines compare unique files.flatten := by
  rw [SortMerge.merges_iff comparison unique stands.sorted, stands.same]

end

end Lmcas.SortMerge
