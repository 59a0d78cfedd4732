import Mathlib.Data.List.Sort

/-!
# Stable sorting

A stable sort is determined by two things: its result is in order, and of the
items that compare alike the result holds those of the input in the order of
the input.  So two sorted lists with the same classes are the same list, and
whatever merges sorted runs in their order is the stable sort of the runs
taken together.

`firsts` keeps the first item of every run of alike items; after sorting, that
is the first of every class.
-/

namespace Lmcas.Lib.StableSort

variable {Item : Type}

/-- A total preorder that can be computed. -/
structure Ordering (le : Item → Item → Bool) : Prop where
  trans : ∀ first second third,
    le first second = true → le second third = true → le first third = true
  total : ∀ first second, (le first second || le second first) = true

/-- Neither comes before the other. -/
def alike (le : Item → Item → Bool) (first second : Item) : Bool :=
  le first second && le second first

/-- Each item comes before those behind it, or is alike. -/
abbrev Sorted (le : Item → Item → Bool) (items : List Item) : Prop :=
  items.Pairwise fun first second => le first second = true

/-- What `qsort` asks of a comparison function: the sign tells the order. -/
structure Comparison (compare : Item → Item → Int) : Prop where
  swap : ∀ first second,
    (compare second first).sign = -(compare first second).sign
  trans : ∀ first second third, compare first second ≤ 0 →
    compare second third ≤ 0 → compare first third ≤ 0

/-- The order that a comparison gives. -/
def precedes (compare : Item → Item → Int) (first second : Item) : Bool :=
  decide (compare first second ≤ 0)

/-- What a comparison gives is an order. -/
theorem Comparison.ordering {compare : Item → Item → Int}
    (comparison : Comparison compare) : Ordering (precedes compare) where
  trans first second third before before' := by
    simp only [precedes, decide_eq_true_eq] at before before' ⊢
    exact comparison.trans first second third before before'
  total first second := by
    have swap := comparison.swap first second
    simp only [precedes, Bool.or_eq_true, decide_eq_true_eq]
    rcases Int.lt_or_le 0 (compare first second) with behind | before
    · right
      rw [Int.sign_eq_one_of_pos behind] at swap
      exact Int.le_of_lt (Int.sign_eq_neg_one_iff_neg.mp swap)
    · exact .inl before

/-- The signs of both orders of two items, for linear arithmetic. -/
theorem Comparison.sign_swap {compare : Item → Item → Int}
    (comparison : Comparison compare) (first second : Item) :
    (compare second first < 0 ↔ 0 < compare first second) ∧
      (compare second first = 0 ↔ compare first second = 0) := by
  have swap := comparison.swap first second
  constructor
  · rw [← Int.sign_eq_neg_one_iff_neg, ← Int.sign_eq_one_iff_pos]
    omega
  · rw [← Int.sign_eq_zero_iff_zero, ← @Int.sign_eq_zero_iff_zero (compare first _)]
    omega

/-- Items are compared by something about them. -/
theorem Comparison.comap {Other : Type} {compare : Item → Item → Int}
    (comparison : Comparison compare) (item : Other → Item) :
    Comparison fun first second => compare (item first) (item second) where
  swap first second := comparison.swap (item first) (item second)
  trans first second third :=
    comparison.trans (item first) (item second) (item third)

/-- Numbers are compared by their difference. -/
theorem comparison_sub :
    Comparison fun first second : Int => first - second where
  swap first second := by
    rw [← Int.sign_neg, Int.neg_sub]
  trans first second third before before' := by omega

/-- Items are alike if they compare equal. -/
theorem Comparison.alike_iff {compare : Item → Item → Int}
    (comparison : Comparison compare) (first second : Item) :
    alike (precedes compare) first second = true ↔
      compare first second = 0 := by
  have swap := comparison.swap first second
  simp only [alike, precedes, Bool.and_eq_true, decide_eq_true_eq]
  constructor
  · rintro ⟨before, behind⟩
    by_contra different
    have negative : compare first second < 0 := by omega
    rw [Int.sign_eq_neg_one_of_neg negative, Int.neg_neg] at swap
    have positive := Int.sign_eq_one_iff_pos.mp swap
    omega
  · intro same
    rw [same, Int.sign_zero, Int.neg_zero] at swap
    have same' := Int.sign_eq_zero_iff_zero.mp swap
    omega

/-! ## Classes -/

section

variable {le : Item → Item → Bool} (ordering : Ordering le)

include ordering

theorem alike_refl (item : Item) : alike le item item = true := by
  have total := ordering.total item item
  rw [Bool.or_self] at total
  rw [alike, total, Bool.and_self]

theorem Ordering.le_of_not_le {first second : Item}
    (notBefore : ¬ le first second = true) : le second first = true := by
  rcases Bool.or_eq_true_iff.mp (ordering.total first second) with
    before | behind
  · exact absurd before notBefore
  · exact behind

/-- Two lists in order with the same classes are the same. -/
theorem eq_of_classes {items items' : List Item}
    (sorted : Sorted le items) (sorted' : Sorted le items')
    (classes : ∀ item, items.filter (alike le item) =
      items'.filter (alike le item)) :
    items = items' := by
  induction items generalizing items' with
  | nil =>
      cases items' with
      | nil => rfl
      | cons item' rest' =>
          have empty := classes item'
          rw [List.filter_nil, List.filter_cons_of_pos (alike_refl ordering _)]
            at empty
          exact nomatch empty
  | cons item rest inductionHypothesis =>
      have front := classes item
      rw [List.filter_cons_of_pos (alike_refl ordering _)] at front
      cases items' with
      | nil => exact nomatch front
      | cons item' rest' =>
          have before : le item item' = true := by
            have member : item' ∈ (item :: rest).filter (alike le item') := by
              rw [classes item']
              exact List.mem_filter.mpr
                ⟨List.mem_cons_self, alike_refl ordering _⟩
            -- an item of the same list that is alike `item'`
            rcases List.mem_cons.mp (List.mem_filter.mp member).1 with
              rfl | behind
            · exact (Bool.and_eq_true_iff.mp (alike_refl ordering _)).1
            · exact List.rel_of_pairwise_cons sorted behind
          have behind : le item' item = true := by
            have member : item ∈ (item' :: rest').filter (alike le item) := by
              rw [← front]
              exact List.mem_cons_self
            rcases List.mem_cons.mp (List.mem_filter.mp member).1 with
              rfl | behind
            · exact (Bool.and_eq_true_iff.mp (alike_refl ordering _)).1
            · exact List.rel_of_pairwise_cons sorted' behind
          have both : alike le item item' = true :=
            Bool.and_eq_true_iff.mpr ⟨before, behind⟩
          rw [List.filter_cons_of_pos both] at front
          obtain ⟨rfl, -⟩ := List.cons.inj front
          have tails := inductionHypothesis (List.Pairwise.of_cons sorted)
            (List.Pairwise.of_cons sorted') fun other => by
              have same := classes other
              by_cases inClass : alike le other item = true
              · rw [List.filter_cons_of_pos inClass,
                  List.filter_cons_of_pos inClass] at same
                exact (List.cons.inj same).2
              · rwa [List.filter_cons_of_neg inClass,
                  List.filter_cons_of_neg inClass] at same
          rw [tails]

/-- Items apart from a class have no member of it. -/
theorem filter_eq_nil_of_apart {items : List Item} {item other : Item}
    (inClass : alike le other item = true)
    (apart : ∀ member ∈ items, ¬ alike le item member = true) :
    items.filter (alike le other) = [] := by
  refine List.filter_eq_nil_iff.mpr fun member inItems both => ?_
  obtain ⟨toItem, fromItem⟩ := Bool.and_eq_true_iff.mp inClass
  obtain ⟨toMember, fromMember⟩ := Bool.and_eq_true_iff.mp both
  exact apart member inItems (Bool.and_eq_true_iff.mpr
    ⟨ordering.trans _ _ _ fromItem toMember,
      ordering.trans _ _ _ fromMember toItem⟩)

/-- Sorting keeps every class as it is. -/
theorem filter_mergeSort (items : List Item) (other : Item) :
    (items.mergeSort le).filter (alike le other) =
      items.filter (alike le other) := by
  induction items with
  | nil => simp
  | cons item rest inductionHypothesis =>
      obtain ⟨front, back, sorts, sortsRest, behind⟩ :=
        List.mergeSort_cons ordering.trans ordering.total item rest
      rw [sortsRest, List.filter_append] at inductionHypothesis
      rw [sorts, List.filter_append]
      by_cases inClass : alike le other item = true
      · have empty : front.filter (alike le other) = [] :=
          filter_eq_nil_of_apart ordering inClass
            fun member inFront both => by
              have notBefore := behind member inFront
              rw [(Bool.and_eq_true_iff.mp both).1] at notBefore
              exact nomatch notBefore
        rw [empty, List.nil_append] at inductionHypothesis ⊢
        rw [List.filter_cons_of_pos inClass, List.filter_cons_of_pos inClass,
          inductionHypothesis]
      · rw [List.filter_cons_of_neg inClass, List.filter_cons_of_neg inClass,
          inductionHypothesis]

/-- The first item of a sorted list comes before all others. -/
theorem Sorted.headD_le {items : List Item} (sorted : Sorted le items)
    {item : Item} (inside : item ∈ items) (fallback : Item) :
    le (items.headD fallback) item = true := by
  cases items with
  | nil => cases inside
  | cons first items =>
      rcases List.mem_cons.mp inside with rfl | inside
      · exact (Bool.and_eq_true_iff.mp (alike_refl ordering item)).1
      · exact (List.pairwise_cons.mp sorted).1 item inside

/-- The sort sorts. -/
theorem sorted_mergeSort (items : List Item) :
    Sorted le (items.mergeSort le) :=
  List.pairwise_mergeSort ordering.trans ordering.total items

/-- What is in order and has the classes of the input is its stable sort. -/
theorem eq_mergeSort {items sorted : List Item} (inOrder : Sorted le sorted)
    (classes : ∀ item, sorted.filter (alike le item) =
      items.filter (alike le item)) :
    sorted = items.mergeSort le :=
  eq_of_classes ordering inOrder (sorted_mergeSort ordering items)
    fun item => (classes item).trans (filter_mergeSort ordering items item).symm

/-! ## Merging -/

/-- So does the merge of sorted lists. -/
theorem sorted_merge {items items' : List Item} (sorted : Sorted le items)
    (sorted' : Sorted le items') : Sorted le (items.merge items' le) :=
  List.pairwise_merge ordering.trans ordering.total _ _ sorted sorted'

/-- The merge keeps the items of a class in order, those of the first list
before those of the second. -/
theorem filter_merge {items items' : List Item} (sorted : Sorted le items)
    (other : Item) :
    (items.merge items' le).filter (alike le other) =
      items.filter (alike le other) ++ items'.filter (alike le other) := by
  induction items generalizing items' with
  | nil => simp
  | cons item rest inductionHypothesis =>
      have sortedRest := List.Pairwise.of_cons sorted
      induction items' with
      | nil => simp
      | cons item' rest' inner =>
          by_cases before : le item item' = true
          · rw [List.cons_merge_cons_pos _ _ _ before, List.filter_cons,
              inductionHypothesis sortedRest]
            by_cases inClass : alike le other item = true <;>
              simp [inClass]
          · rw [List.cons_merge_cons_neg _ _ _ before, List.filter_cons, inner]
            by_cases inClass : alike le other item' = true
            · have empty : (item :: rest).filter (alike le other) = [] := by
                refine filter_eq_nil_of_apart ordering inClass
                  fun member inItems both => before ?_
                have toItem' := (Bool.and_eq_true_iff.mp both).2
                rcases List.mem_cons.mp inItems with rfl | behind
                · exact toItem'
                · exact ordering.trans _ _ _
                    (List.rel_of_pairwise_cons sorted behind) toItem'
              simp [empty, inClass]
            · simp [inClass]

/-- The first of the least items comes first. -/
theorem mergeSort_least {before behind : List Item} {item : Item}
    (greater : ∀ other ∈ before, ¬ le other item = true)
    (least : ∀ other ∈ behind, le item other = true) :
    (before ++ item :: behind).mergeSort le =
      item :: (before ++ behind).mergeSort le := by
  symm
  refine eq_mergeSort ordering ?_ fun other => ?_
  · refine List.pairwise_cons.mpr
      ⟨fun other inside => ?_, sorted_mergeSort ordering _⟩
    rcases List.mem_append.mp (List.mem_mergeSort.mp inside) with
      inBefore | inBehind
    · exact ordering.le_of_not_le (greater other inBefore)
    · exact least other inBehind
  · rw [List.filter_cons, filter_mergeSort ordering, List.filter_append,
      List.filter_append, List.filter_cons]
    by_cases inClass : alike le other item = true
    · have empty : before.filter (alike le other) = [] := by
        refine List.filter_eq_nil_iff.mpr fun member inBefore same => ?_
        have before' := (Bool.and_eq_true_iff.mp same).2
        have behind' := (Bool.and_eq_true_iff.mp inClass).1
        exact greater member inBefore
          (ordering.trans _ _ _ before' behind')
      rw [if_pos inClass, if_pos inClass, empty, List.nil_append,
        List.nil_append]
    · rw [if_neg inClass, if_neg inClass]

/-- The sort of two lists is the merge of their sorts. -/
theorem mergeSort_append (items items' : List Item) :
    (items ++ items').mergeSort le =
      (items.mergeSort le).merge (items'.mergeSort le) le := by
  refine (eq_mergeSort ordering
    (sorted_merge ordering (sorted_mergeSort ordering items)
      (sorted_mergeSort ordering items')) fun item => ?_).symm
  rw [filter_merge ordering (sorted_mergeSort ordering items),
    filter_mergeSort ordering, filter_mergeSort ordering, List.filter_append]

/-- Runs that are sorted one by one and then together. -/
theorem mergeSort_flatten_map (runs : List (List Item)) :
    ((runs.map fun run => run.mergeSort le).flatten).mergeSort le =
      runs.flatten.mergeSort le := by
  refine eq_mergeSort ordering (sorted_mergeSort ordering _) fun item => ?_
  rw [filter_mergeSort ordering, List.filter_flatten, List.filter_flatten,
    List.map_map]
  congr 1
  exact List.map_congr_left fun run _ => filter_mergeSort ordering run item

end

/-! ## One of every class -/

section

variable (le : Item → Item → Bool)

/-- What is left of a list behind an item: an item goes if it is alike the one
that was kept before it. -/
def firstsAfter (kept : Item) : List Item → List Item
  | [] => []
  | item :: rest =>
      if alike le kept item then firstsAfter kept rest
      else item :: firstsAfter item rest

/-- The first item of each class of a sorted list. -/
def firsts : List Item → List Item
  | [] => []
  | item :: rest => item :: firstsAfter le item rest

variable {le}

theorem firstsAfter_sublist (kept : Item) (items : List Item) :
    (firstsAfter le kept items).Sublist items := by
  induction items generalizing kept with
  | nil => exact List.Sublist.slnil
  | cons item rest inductionHypothesis =>
      rw [firstsAfter]
      split
      · exact (inductionHypothesis kept).cons item
      · exact (inductionHypothesis item).cons_cons item

theorem firsts_sublist (items : List Item) : (firsts le items).Sublist items := by
  cases items with
  | nil => exact List.Sublist.slnil
  | cons item rest => exact (firstsAfter_sublist item rest).cons_cons item

theorem firstsAfter_of_strict {kept : Item} {items : List Item}
    (strict : (kept :: items).Pairwise
      fun first second => ¬ le second first = true) :
    firstsAfter le kept items = items := by
  induction items generalizing kept with
  | nil => rfl
  | cons item rest inductionHypothesis =>
      obtain ⟨notBehind, strictRest⟩ := List.pairwise_cons.mp strict
      have different : ¬ alike le kept item = true := fun same =>
        notBehind item (by simp) (Bool.and_eq_true_iff.mp same).2
      rw [firstsAfter, if_neg different, inductionHypothesis strictRest]

/-- A list without alike items is left alone. -/
theorem firsts_of_strict {items : List Item}
    (strict : items.Pairwise fun first second => ¬ le second first = true) :
    firsts le items = items := by
  cases items with
  | nil => rfl
  | cons item rest => rw [firsts, firstsAfter_of_strict strict]

theorem sorted_firsts {items : List Item} (sorted : Sorted le items) :
    Sorted le (firsts le items) :=
  List.Pairwise.sublist (firsts_sublist items) sorted

section

variable (ordering : Ordering le)

include ordering

/-- Alike items are alike to the same ones. -/
theorem alike_congr {first second : Item} (same : alike le first second = true)
    (other : Item) : alike le other first = alike le other second := by
  obtain ⟨before, behind⟩ := Bool.and_eq_true_iff.mp same
  rw [Bool.eq_iff_iff]
  simp only [alike, Bool.and_eq_true]
  constructor
  · rintro ⟨toFirst, fromFirst⟩
    exact ⟨ordering.trans _ _ _ toFirst before,
      ordering.trans _ _ _ behind fromFirst⟩
  · rintro ⟨toSecond, fromSecond⟩
    exact ⟨ordering.trans _ _ _ toSecond behind,
      ordering.trans _ _ _ before fromSecond⟩

/-- One item is left of each class, but for that of the item kept before. -/
theorem filter_firstsAfter {kept : Item} {items : List Item}
    (sorted : Sorted le (kept :: items)) (other : Item) :
    (firstsAfter le kept items).filter (alike le other) =
      if alike le other kept then []
      else (items.filter (alike le other)).take 1 := by
  induction items generalizing kept with
  | nil => simp [firstsAfter]
  | cons item rest inductionHypothesis =>
      have fromKept : le kept item = true :=
        List.rel_of_pairwise_cons sorted List.mem_cons_self
      have sortedItem := List.Pairwise.of_cons sorted
      rw [firstsAfter]
      by_cases same : alike le kept item = true
      · have sortedRest : Sorted le (kept :: rest) :=
          sorted.sublist ((List.sublist_cons_self item rest).cons_cons kept)
        rw [if_pos same, inductionHypothesis sortedRest]
        by_cases inClass : alike le other kept = true
        · rw [if_pos inClass, if_pos inClass]
        · rw [if_neg inClass, if_neg inClass]
          rw [alike_congr ordering same other] at inClass
          rw [List.filter_cons_of_neg inClass]
      · rw [if_neg same]
        by_cases inClass : alike le other item = true
        · have notKept : ¬ alike le other kept = true := by
            intro both
            obtain ⟨-, fromItem⟩ := Bool.and_eq_true_iff.mp inClass
            exact same (Bool.and_eq_true_iff.mpr ⟨fromKept,
              ordering.trans _ _ _ fromItem (Bool.and_eq_true_iff.mp both).1⟩)
          rw [List.filter_cons_of_pos inClass, inductionHypothesis sortedItem,
            if_pos inClass, if_neg notKept, List.filter_cons_of_pos inClass]
          rfl
        · rw [List.filter_cons_of_neg inClass, inductionHypothesis sortedItem,
            if_neg inClass, List.filter_cons_of_neg inClass]
          by_cases keptClass : alike le other kept = true
          · -- everything behind `item` is strictly behind `kept`
            have empty : rest.filter (alike le other) = [] :=
              filter_eq_nil_of_apart ordering keptClass
                fun member inRest both => same (Bool.and_eq_true_iff.mpr
                  ⟨fromKept, ordering.trans _ _ _
                    (List.rel_of_pairwise_cons sortedItem inRest)
                    (Bool.and_eq_true_iff.mp both).2⟩)
            rw [if_pos keptClass, empty, List.take_nil]
          · rw [if_neg keptClass]

/-- No two of the firsts are alike. -/
theorem firstsAfter_strict {kept : Item} {items : List Item}
    (sorted : Sorted le (kept :: items)) :
    (kept :: firstsAfter le kept items).Pairwise
      fun first second => ¬ le second first = true := by
  induction items generalizing kept with
  | nil => exact List.pairwise_singleton _ kept
  | cons item rest inductionHypothesis =>
      obtain ⟨before, sortedRest⟩ := List.pairwise_cons.mp sorted
      rw [firstsAfter]
      split
      · refine inductionHypothesis (List.pairwise_cons.mpr ⟨fun other inside =>
          before other (List.mem_cons_of_mem item inside), sortedRest.of_cons⟩)
      next different =>
        have notBehind : ¬ le item kept = true := fun behind =>
          different (Bool.and_eq_true_iff.mpr ⟨before item (by simp), behind⟩)
        refine List.pairwise_cons.mpr
          ⟨fun other inside behind => notBehind ?_,
            inductionHypothesis sortedRest⟩
        rcases List.mem_cons.mp inside with rfl | inside
        · exact behind
        · exact ordering.trans _ _ _ ((List.pairwise_cons.mp sortedRest).1 other
            ((firstsAfter_sublist item rest).subset inside)) behind

/-- No two of what is left are alike. -/
theorem firsts_strict {items : List Item} (sorted : Sorted le items) :
    (firsts le items).Pairwise fun first second => ¬ le second first = true := by
  cases items with
  | nil => exact List.Pairwise.nil
  | cons item rest => exact firstsAfter_strict ordering sorted

/-- Of every class the first one is left. -/
theorem filter_firsts {items : List Item} (sorted : Sorted le items)
    (other : Item) :
    (firsts le items).filter (alike le other) =
      (items.filter (alike le other)).take 1 := by
  cases items with
  | nil => rfl
  | cons item rest =>
      rw [firsts]
      by_cases inClass : alike le other item = true
      · rw [List.filter_cons_of_pos inClass, List.filter_cons_of_pos inClass,
          filter_firstsAfter ordering sorted, if_pos inClass]
        rfl
      · rw [List.filter_cons_of_neg inClass, List.filter_cons_of_neg inClass,
          filter_firstsAfter ordering sorted, if_neg inClass]

omit ordering in
theorem take_one_flatten_map {Run : Type} (runs : List Run)
    (list : Run → List Item) :
    ((runs.map fun run => (list run).take 1).flatten).take 1 =
      ((runs.map list).flatten).take 1 := by
  induction runs with
  | nil => rfl
  | cons run runs inductionHypothesis =>
      rw [List.map_cons, List.map_cons, List.flatten_cons, List.flatten_cons]
      cases list run with
      | nil => exact inductionHypothesis
      | cons item rest => rfl

/-- Runs that have lost all but the firsts have lost nothing that counts. -/
theorem firsts_mergeSort_flatten_map (runs : List (List Item)) :
    firsts le ((runs.map fun run =>
        firsts le (run.mergeSort le)).flatten.mergeSort le) =
      firsts le (runs.flatten.mergeSort le) := by
  have sorted (items : List Item) := sorted_mergeSort ordering items
  refine eq_of_classes ordering (sorted_firsts (sorted _))
    (sorted_firsts (sorted _)) fun item => ?_
  have classes (run : List Item) :
      (firsts le (run.mergeSort le)).filter (alike le item) =
        (run.filter (alike le item)).take 1 := by
    rw [filter_firsts ordering (sorted run), filter_mergeSort ordering]
  rw [filter_firsts ordering (sorted _), filter_firsts ordering (sorted _),
    filter_mergeSort ordering, filter_mergeSort ordering,
    List.filter_flatten, List.filter_flatten, List.map_map]
  exact (congrArg (fun lists => lists.flatten.take 1)
    (List.map_congr_left fun run _ => classes run)).trans
      (take_one_flatten_map runs fun run => run.filter (alike le item))

end

end

end Lmcas.Lib.StableSort
