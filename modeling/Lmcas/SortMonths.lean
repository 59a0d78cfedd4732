import Lmcas.SortCompare

/-!
# Months

The binary search of `getmonth` from `sort.c` finds the month that a text
begins with.
-/

namespace Lmcas.SortCompare

open Lmcas.Lib.CString
open Lmcas.Sort

section

variable {foldToupper : Char → Char} {month name name' : Word}

theorem lt_or_eq_of_cons_le {n n' : Char} (le : n :: name ≤ n' :: name') :
    n.toNat < n'.toNat ∨ n = n' ∧ name ≤ name' := by
  rw [← not_lt, List.cons_lt_cons_iff] at le
  rcases lt_trichotomy n n' with less | same | more
  · exact .inl less
  · exact .inr ⟨same, not_lt.mp fun less => le (.inr ⟨same.symm, less⟩)⟩
  · exact absurd (.inl more) le

theorem not_cons_le_nil (n : Char) (name : Word) :
    ¬ n :: name ≤ ([] : Word) := by
  rw [not_le]
  exact List.nil_lt_cons n name

/-- One turn of the loop over the characters. -/
theorem monthSide_cons (c n : Char) (month name : Word) :
    monthSide foldToupper (c :: month) (n :: name) =
      if (foldToupper c).toNat < n.toNat then .below
      else if n.toNat < (foldToupper c).toNat then .above
      else monthSide foldToupper month name := by
  rw [monthSide]

/-- A month is found where its name begins the text. -/
theorem monthSide_found_iff (month name : Word) :
    monthSide foldToupper month name = .found ↔
      name <+: month.map foldToupper := by
  induction name generalizing month with
  | nil => simp [monthSide]
  | cons n name inductionHypothesis =>
      cases month with
      | nil => simp [monthSide]
      | cons c month =>
          have same : n = foldToupper c ↔ n.toNat = (foldToupper c).toNat :=
            ⟨fun same => same ▸ rfl, fun same =>
              Char.ext (UInt32.toNat_inj.mp same)⟩
          rw [monthSide_cons, List.map_cons, List.cons_prefix_cons, same,
            ← inductionHypothesis]
          split
          next less => simp only [reduceCtorEq, false_iff]; omega
          next notLess =>
            split
            next more => simp only [reduceCtorEq, false_iff]; omega
            next notMore =>
              exact ⟨fun found => ⟨by omega, found⟩, fun both => both.2⟩

/-- What is below a name is not found among those behind it. -/
theorem not_found_of_below
    (below : monthSide foldToupper month name = .below) (le : name ≤ name') :
    monthSide foldToupper month name' ≠ .found := by
  induction month generalizing name name' with
  | nil =>
      match name, name' with
      | [], _ => cases below
      | n :: name, [] => exact absurd le (not_cons_le_nil n name)
      | _ :: _, _ :: _ => exact nofun
  | cons c month inductionHypothesis =>
      match name, name' with
      | [], _ => cases below
      | n :: name, [] => exact absurd le (not_cons_le_nil n name)
      | n :: name, n' :: name' =>
          rw [monthSide_cons] at below ⊢
          have order := lt_or_eq_of_cons_le le
          split at below
          next less =>
            have before : (foldToupper c).toNat < n'.toNat := by
              rcases order with less' | ⟨rfl, -⟩ <;> omega
            rw [if_pos before]
            exact nofun
          next notLess =>
            split at below
            next => cases below
            next notMore =>
              rcases order with less' | ⟨rfl, le'⟩
              · rw [if_pos (by omega)]
                exact nofun
              · rw [if_neg notLess, if_neg notMore]
                exact inductionHypothesis below le'

/-- What is above a name is not found among those before it, unless they are
the beginning of it. -/
theorem not_found_of_above
    (above : monthSide foldToupper month name = .above) (le : name' ≤ name)
    (free : ¬ name' <+: name) :
    monthSide foldToupper month name' ≠ .found := by
  induction month generalizing name name' with
  | nil =>
      match name with
      | [] => cases above
      | _ :: _ => cases above
  | cons c month inductionHypothesis =>
      match name, name' with
      | [], _ => cases above
      | n :: name, [] => exact absurd List.nil_prefix free
      | n :: name, n' :: name' =>
          rw [monthSide_cons] at above ⊢
          have order := lt_or_eq_of_cons_le le
          split at above
          next => cases above
          next notLess =>
            split at above
            next more =>
              have behind : n'.toNat < (foldToupper c).toNat := by
                rcases order with less' | ⟨rfl, -⟩ <;> omega
              rw [if_neg (by omega), if_pos behind]
              exact nofun
            next notMore =>
              rcases order with less' | ⟨rfl, le'⟩
              · rw [if_neg (by omega), if_pos (by omega)]
                exact nofun
              · rw [if_neg notLess, if_neg notMore]
                refine inductionHypothesis above le' fun isPrefix => free ?_
                exact List.cons_prefix_cons.mpr ⟨rfl, isPrefix⟩

end

section

variable {tables : Tables} {month : Word}

/-- A table that can be searched: in order, and no month is the beginning of
a later one. -/
structure Searchable (months : List Month) : Prop where
  sorted : months.Pairwise (monthLe · ·)
  free : months.Pairwise fun first second => ¬ first.name <+: second.name

/-- The names of the table are in order. -/
theorem Searchable.le {months : List Month} (searchable : Searchable months)
    {i j : Nat} {first second : Month} (before : i ≤ j)
    (isFirst : months[i]? = some first) (isSecond : months[j]? = some second) :
    first.name ≤ second.name := by
  rcases Nat.lt_or_eq_of_le before with less | rfl
  · obtain ⟨inside, rfl⟩ := List.getElem?_eq_some_iff.mp isFirst
    obtain ⟨inside', rfl⟩ := List.getElem?_eq_some_iff.mp isSecond
    exact of_decide_eq_true
      (List.pairwise_iff_getElem.mp searchable.sorted i j inside inside' less)
  · cases isFirst.symm.trans isSecond
    exact le_rfl

/-- What is found lies where it is looked for. -/
def Within (tables : Tables) (month : Word) (lo hi : Nat) : Prop :=
  ∀ i entry, tables.monthtab[i]? = some entry →
    monthSide tables.foldToupper month entry.name = .found → lo ≤ i ∧ i < hi

/-- A text before a month is before those behind it. -/
theorem within_below (searchable : Searchable tables.monthtab) {lo hi ix : Nat}
    {entry : Month} (within : Within tables month lo hi)
    (isEntry : tables.monthtab[ix]? = some entry)
    (below : monthSide tables.foldToupper month entry.name = .below) :
    Within tables month lo ix := by
  intro i other isOther found
  refine ⟨(within i other isOther found).1, Nat.not_le.mp fun behind => ?_⟩
  exact not_found_of_below below (searchable.le behind isEntry isOther) found

/-- A text behind a month is behind those before it. -/
theorem within_above (searchable : Searchable tables.monthtab) {lo hi ix : Nat}
    {entry : Month} (within : Within tables month lo hi)
    (isEntry : tables.monthtab[ix]? = some entry)
    (above : monthSide tables.foldToupper month entry.name = .above) :
    Within tables month (ix + 1) hi := by
  intro i other isOther found
  refine ⟨Nat.not_lt.mp fun before => ?_, (within i other isOther found).2⟩
  rcases Nat.lt_or_eq_of_le (Nat.le_of_lt_succ before) with before | rfl
  · obtain ⟨inside, rfl⟩ := List.getElem?_eq_some_iff.mp isOther
    obtain ⟨inside', rfl⟩ := List.getElem?_eq_some_iff.mp isEntry
    exact not_found_of_above above
      (searchable.le before.le isOther isEntry)
      (List.pairwise_iff_getElem.mp searchable.free i ix inside inside' before)
      found
  · cases isOther.symm.trans isEntry
    rw [above] at found
    cases found

/-- The value of the month that is found, or 0. -/
def Finds (tables : Tables) (month : Word) (val : Nat) : Prop :=
  (∃ entry ∈ tables.monthtab,
      monthSide tables.foldToupper month entry.name = .found ∧
        val = entry.val) ∨
    (∀ entry ∈ tables.monthtab,
      monthSide tables.foldToupper month entry.name ≠ .found) ∧ val = 0

/-- Where nothing is left the text is of no month. -/
theorem finds_of_empty {lo hi : Nat} (within : Within tables month lo hi)
    (empty : hi ≤ lo) : Finds tables month 0 := by
  refine .inr ⟨fun entry inside found => ?_, rfl⟩
  obtain ⟨i, isEntry⟩ := List.mem_iff_getElem?.mp inside
  have range := within i entry isEntry found
  omega

/-- The search finds the month or shows that there is none. -/
theorem monthSearch_finds (searchable : Searchable tables.monthtab)
    {lo hi : Nat} (more : lo < hi) (inside : hi ≤ tables.monthtab.length)
    (within : Within tables month lo hi) :
    Finds tables month (monthSearch tables month lo hi) := by
  induction count : hi - lo using Nat.strong_induction_on
    generalizing lo hi with
  | _ _ inductionHypothesis =>
      obtain ⟨entry, isEntry⟩ : ∃ entry,
          tables.monthtab[(lo + hi) / 2]? = some entry :=
        ⟨_, List.getElem?_eq_getElem (by omega)⟩
      rw [monthSearch]
      simp only [isEntry]
      split
      next found =>
        exact .inl ⟨entry, List.mem_of_getElem? isEntry, found, rfl⟩
      next below =>
        have within' := within_below searchable within isEntry below
        split
        next more' =>
          exact inductionHypothesis _ (by omega) more' (by omega) within' rfl
        next done => exact finds_of_empty within' (Nat.not_lt.mp done)
      next above =>
        have within' := within_above searchable within isEntry above
        split
        next more' =>
          exact inductionHypothesis _ (by omega) more' inside within' rfl
        next done => exact finds_of_empty within' (Nat.not_lt.mp done)

end

theorem monthtab_length (locale : Lmcas.Sort.Locale) :
    (monthtab locale).length = 12 := by
  unfold monthtab
  split
  · rw [List.length_mergeSort, List.length_map, List.length_finRange]
  · rfl

theorem le_of_begins {name name' : Word} (isPrefix : name <+: name') :
    name ≤ name' := by
  induction name generalizing name' with
  | nil =>
      rw [← not_lt]
      exact List.not_lt_nil name'
  | cons n name inductionHypothesis =>
      match name' with
      | [] => exact absurd isPrefix (by simp)
      | n' :: name' =>
          obtain ⟨rfl, begins⟩ := List.cons_prefix_cons.mp isPrefix
          have le := inductionHypothesis begins
          rw [← not_lt] at le ⊢
          rw [List.cons_lt_cons_iff]
          rintro (less | ⟨-, less⟩)
          · exact lt_irrefl n less
          · exact le less

/-- A text begins with one month at the most. -/
theorem Searchable.unique {months : List Month}
    (searchable : Searchable months) {first second : Month}
    (inside : first ∈ months) (inside' : second ∈ months) {text : Word}
    (begins : first.name <+: text) (begins' : second.name <+: text) :
    first = second := by
  obtain ⟨i, less, rfl⟩ := List.getElem_of_mem inside
  obtain ⟨j, less', rfl⟩ := List.getElem_of_mem inside'
  have free := List.pairwise_iff_getElem.mp searchable.free
  have apart {i j : Nat} (less : i < months.length) (less' : j < months.length)
      (before : i < j) (begins : months[i].name <+: text)
      (begins' : months[j].name <+: text) : False := by
    rcases List.prefix_or_prefix_of_prefix begins begins' with short | long
    · exact free i j less less' before short
    · have le := searchable.le before.le (List.getElem?_eq_getElem less)
        (List.getElem?_eq_getElem less')
      have same := le_antisymm le (le_of_begins long)
      exact free i j less less' before (same ▸ List.prefix_rfl)
  rcases lt_trichotomy i j with before | rfl | before
  · exact (apart less less' before begins begins').elim
  · rfl
  · exact (apart less' less before begins' begins).elim

/-- In a locale where no month is the beginning of another one, a text stands
for the month that it begins with, or for none. -/
theorem getmonth_eq (inherited : Inherited) (month : Word)
    (free : (monthtab inherited.locale).Pairwise
      fun first second => ¬ first.name <+: second.name) :
    (∀ entry ∈ monthtab inherited.locale,
      entry.name <+: (month.dropWhile (fieldSep inherited.locale)).map
          inherited.locale.toupper →
        getmonth (tables inherited) month = entry.val) ∧
    ((∀ entry ∈ monthtab inherited.locale,
      ¬ entry.name <+: (month.dropWhile (fieldSep inherited.locale)).map
          inherited.locale.toupper) →
        getmonth (tables inherited) month = 0) := by
  have searchable : Searchable (tables inherited).monthtab :=
    ⟨monthtab_pairwise inherited.locale, free⟩
  have twelve : (tables inherited).monthtab.length = 12 :=
    monthtab_length inherited.locale
  have within : Within (tables inherited)
      (month.dropWhile (fieldSep inherited.locale)) 0 12 := by
    intro i entry isEntry _
    obtain ⟨inside, -⟩ := List.getElem?_eq_some_iff.mp isEntry
    omega
  have finds := monthSearch_finds searchable (by decide) twelve.ge within
  constructor
  · intro entry inside begins
    rcases finds with ⟨other, inside', found, val⟩ | ⟨absent, -⟩
    · have begins' := (monthSide_found_iff _ _).mp found
      obtain rfl := searchable.unique inside' inside begins' begins
      exact congrArg Nat.cast val
    · exact absurd ((monthSide_found_iff _ _).mpr begins) (absent entry inside)
  · intro absent
    rcases finds with ⟨other, inside', found, -⟩ | ⟨-, val⟩
    · exact absurd ((monthSide_found_iff _ _).mp found) (absent other inside')
    · exact congrArg Nat.cast val

/-- March in the C locale, with a blank before it. -/
theorem getmonth_eq_c :
    (∀ entry ∈ monthtab Configuration.localeC,
      entry.name <+: (" mar 3".toList.dropWhile
          (fieldSep Configuration.localeC)).map Char.toUpper →
        getmonth (tables ⟨Configuration.localeC, fun _ => false⟩)
          " mar 3".toList = entry.val) ∧
    ((∀ entry ∈ monthtab Configuration.localeC,
      ¬ entry.name <+: (" mar 3".toList.dropWhile
          (fieldSep Configuration.localeC)).map Char.toUpper) →
        getmonth (tables ⟨Configuration.localeC, fun _ => false⟩)
          " mar 3".toList = 0) :=
  getmonth_eq ⟨Configuration.localeC, fun _ => false⟩ " mar 3".toList
    (by decide)

end Lmcas.SortCompare
