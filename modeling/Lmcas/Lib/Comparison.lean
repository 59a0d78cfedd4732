import Lmcas.Lib.StableSort

/-!
# Comparison functions made of others

Reversed, one after the other, on a part of the items, and on lists item by
item: what is made of comparison functions in these ways is one again.
-/

namespace Lmcas.Lib.StableSort

variable {Item : Type}

/-- Only the signs matter. -/
theorem Comparison.congr {compare compare' : Item → Item → Int}
    (comparison : Comparison compare)
    (signs : ∀ first second,
      (compare' first second).sign = (compare first second).sign) :
    Comparison compare' where
  swap first second := by
    rw [signs, signs]
    exact comparison.swap first second
  trans first second third before before' := by
    rw [← Int.sign_nonpos_iff, signs] at before before' ⊢
    rw [Int.sign_nonpos_iff] at before before' ⊢
    exact comparison.trans first second third before before'

/-- The reverse of an order. -/
theorem Comparison.flip {compare : Item → Item → Int}
    (comparison : Comparison compare) :
    Comparison fun first second => compare second first where
  swap first second := comparison.swap second first
  trans first second third before before' :=
    comparison.trans third second first before' before

/-- The reverse, by the sign. -/
theorem Comparison.neg {compare : Item → Item → Int}
    (comparison : Comparison compare) :
    Comparison fun first second => -compare first second :=
  comparison.flip.congr fun first second => by
    rw [Int.sign_neg, comparison.swap first second]

/-- The second comparison decides where the first one does not. -/
def thenBy (compare compare' : Item → Item → Int) (first second : Item) : Int :=
  if compare first second ≠ 0 then compare first second
  else compare' first second

/-- An order with another one to break its ties. -/
theorem Comparison.thenBy {compare compare' : Item → Item → Int}
    (comparison : Comparison compare) (comparison' : Comparison compare') :
    Comparison (StableSort.thenBy compare compare') where
  swap first second := by
    have zero := (comparison.sign_swap first second).2
    by_cases same : compare first second = 0
    · rw [StableSort.thenBy, StableSort.thenBy, if_neg (not_not.mpr same),
        if_neg (not_not.mpr (zero.mpr same))]
      exact comparison'.swap first second
    · rw [StableSort.thenBy, StableSort.thenBy, if_pos same,
        if_pos (mt zero.mp same)]
      exact comparison.swap first second
  trans first second third before before' := by
    have trans := comparison.trans first second third
    have trans' := comparison'.trans first second third
    have back := comparison.trans second third first
    have back' := comparison.trans third first second
    have swap := comparison.sign_swap first second
    have swap' := comparison.sign_swap second third
    have swap'' := comparison.sign_swap first third
    simp only [StableSort.thenBy] at before before' ⊢
    split at before <;> split at before' <;> split <;> omega

/-- Nothing is said. -/
theorem comparison_zero : Comparison fun _ _ : Item => 0 where
  swap _ _ := rfl
  trans _ _ _ _ _ := le_refl 0

/-! ## Lists -/

/-- Item by item, and a list before those that it is the beginning of. -/
def compareLists (compare : Item → Item → Int) : List Item → List Item → Int
  | [], [] => 0
  | [], _ :: _ => -1
  | _ :: _, [] => 1
  | first :: items, second :: items' =>
      if compare first second ≠ 0 then compare first second
      else compareLists compare items items'

/-- The lexicographic order of lists. -/
theorem Comparison.lists {compare : Item → Item → Int}
    (comparison : Comparison compare) : Comparison (compareLists compare) where
  swap items items' := by
    induction items, items' using compareLists.induct compare with
    | case1 => rfl
    | case2 => rfl
    | case3 => rfl
    | case4 first items second items' different =>
        have zero := (comparison.sign_swap first second).2
        rw [compareLists, compareLists, if_pos different,
          if_pos (mt zero.mp different)]
        exact comparison.swap first second
    | case5 first items second items' same inductionHypothesis =>
        have zero := (comparison.sign_swap first second).2
        rw [compareLists, compareLists, if_neg same,
          if_neg (not_not.mpr (zero.mpr (not_not.mp same)))]
        exact inductionHypothesis
  trans items items' items'' := by
    induction items generalizing items' items'' with
    | nil => cases items'' <;> simp [compareLists]
    | cons first items inductionHypothesis =>
        match items', items'' with
        | [], _ => simp [compareLists]
        | second :: items', [] => simp [compareLists]
        | second :: items', third :: items'' =>
            intro before before'
            have rest := inductionHypothesis items' items''
            have trans := comparison.trans first second third
            have back := comparison.trans second third first
            have back' := comparison.trans third first second
            have swap := comparison.sign_swap first second
            have swap' := comparison.sign_swap second third
            have swap'' := comparison.sign_swap first third
            rw [compareLists] at before before' ⊢
            split at before <;> split at before' <;> split <;> omega

/-- Only equal lists compare equal, if this holds of their items. -/
theorem compareLists_eq_zero_iff {compare : Item → Item → Int}
    (same : ∀ first second, compare first second = 0 ↔ first = second)
    {items items' : List Item} :
    compareLists compare items items' = 0 ↔ items = items' := by
  induction items, items' using compareLists.induct compare with
  | case1 => simp [compareLists]
  | case2 => simp [compareLists]
  | case3 => simp [compareLists]
  | case4 first items second items' different =>
      rw [compareLists, if_pos different]
      refine iff_of_false different fun equal => different ?_
      exact (same first second).mpr (List.cons.inj equal).1
  | case5 first items second items' alike inductionHypothesis =>
      rw [compareLists, if_neg alike, inductionHypothesis]
      simp [(same first second).mp (not_not.mp alike)]

/-! ## Texts -/

/-- The difference of two characters. -/
def compareChars (first second : Char) : Int :=
  (first.toNat : Int) - second.toNat

/-- The order of the characters is an order. -/
theorem compareChars_comparison : Comparison compareChars :=
  comparison_sub.comap fun c : Char => (c.toNat : Int)

theorem compareChars_eq_zero_iff (first second : Char) :
    compareChars first second = 0 ↔ first = second := by
  rw [compareChars, Int.sub_eq_zero, Int.ofNat_inj, Char.toNat_inj]

/-- The first difference of two texts, as far as both go. -/
def firstDiff (translate : Char → Char) : List Char → List Char → Int
  | [], _ => 0
  | _ :: _, [] => 0
  | first :: text, second :: text' =>
      let diff := compareChars (translate first) (translate second)
      if diff ≠ 0 then diff else firstDiff translate text text'

/-- What is behind the shorter text is not looked at. -/
theorem firstDiff_take (translate : Char → Char) (first second : List Char) :
    firstDiff translate (first.take (min first.length second.length))
        (second.take (min first.length second.length)) =
      firstDiff translate first second := by
  induction first generalizing second with
  | nil => rfl
  | cons a first inductionHypothesis =>
      cases second with
      | nil => rfl
      | cons b second =>
          simp only [List.length_cons, Nat.add_min_add_right,
            List.take_succ_cons, firstDiff, inductionHypothesis]

/-- The first difference of two texts, and then their lengths, are the order
character by character. -/
theorem compareLists_eq_firstDiff (translate : Char → Char)
    (first second : List Char) :
    compareLists compareChars (first.map translate) (second.map translate) =
      if firstDiff translate first second ≠ 0 then
        firstDiff translate first second
      else if first.length < second.length then -1
      else if first.length ≠ second.length then 1
      else 0 := by
  induction first generalizing second with
  | nil => cases second <;> simp [firstDiff, compareLists]
  | cons a first inductionHypothesis =>
      cases second with
      | nil => simp [firstDiff, compareLists]
      | cons b second =>
          rw [List.map_cons, List.map_cons, compareLists, inductionHypothesis]
          by_cases different :
              compareChars (translate a) (translate b) ≠ 0
          · have whole : firstDiff translate (a :: first) (b :: second) =
                compareChars (translate a) (translate b) := if_pos different
            rw [if_pos different, whole, if_pos different]
          · have whole : firstDiff translate (a :: first) (b :: second) =
                firstDiff translate first second := if_neg different
            rw [if_neg different, whole]
            simp only [List.length_cons, Nat.add_lt_add_iff_right, ne_eq,
              Nat.add_right_cancel_iff]

end Lmcas.Lib.StableSort
