import Mathlib

/-!
# Lines of a text

A text is read piece by piece and cut at every end of a line.  What has no end
yet is carried over to the next piece; at the end of the text it is a line all
the same.
-/

namespace Lmcas.Lib.Lines

variable {Symbol : Type} [DecidableEq Symbol] (eol : Symbol)

/-- The lines that end in a text, and what follows the last one.  The first
line has begun with `unfinished`. -/
def cut : List Symbol → List Symbol → List (List Symbol) × List Symbol
  | unfinished, [] => ([], unfinished)
  | unfinished, symbol :: text =>
      if symbol = eol then
        (unfinished :: (cut [] text).1, (cut [] text).2)
      else cut (unfinished ++ [symbol]) text

variable {eol}

/-- What has begun is a line if there is anything of it. -/
def lastLine : List Symbol → List (List Symbol)
  | [] => []
  | unfinished => [unfinished]

/-- All lines, the last one of which need not be ended. -/
def linesOf (eol : Symbol) (text : List Symbol) : List (List Symbol) :=
  (cut eol [] text).1 ++ lastLine (cut eol [] text).2

/-- The places that lines take with their ends. -/
def extent (lines : List (List Symbol)) : Nat :=
  (lines.map fun line => line.length + 1).sum

/-- A text may be cut in two steps. -/
theorem cut_append (unfinished text text' : List Symbol) :
    cut eol unfinished (text ++ text') =
      ((cut eol unfinished text).1 ++
          (cut eol (cut eol unfinished text).2 text').1,
        (cut eol (cut eol unfinished text).2 text').2) := by
  induction text generalizing unfinished with
  | nil => rfl
  | cons symbol text inductionHypothesis =>
      rw [List.cons_append, cut, cut]
      split
      · simp only [inductionHypothesis, List.cons_append]
      · exact inductionHypothesis _

theorem cut_of_notMem {text : List Symbol} (clean : eol ∉ text)
    (unfinished : List Symbol) :
    cut eol unfinished text = ([], unfinished ++ text) := by
  induction text generalizing unfinished with
  | nil => rw [cut, List.append_nil]
  | cons symbol text inductionHypothesis =>
      obtain ⟨other, clean⟩ := not_or.mp (mt List.mem_cons.mpr clean)
      rw [cut, if_neg fun same => other same.symm, inductionHypothesis clean,
        List.append_assoc, List.singleton_append]

/-- A text without ends of lines is where the next line has begun. -/
theorem cut_carry {unfinished : List Symbol} (clean : eol ∉ unfinished)
    (text : List Symbol) :
    cut eol [] (unfinished ++ text) = cut eol unfinished text := by
  rw [cut_append, cut_of_notMem clean, List.nil_append, List.nil_append]

/-- What is left over has no end of line in it. -/
theorem eol_notMem_cut {unfinished : List Symbol} (clean : eol ∉ unfinished)
    (text : List Symbol) : eol ∉ (cut eol unfinished text).2 := by
  induction text generalizing unfinished with
  | nil => exact clean
  | cons symbol text inductionHypothesis =>
      rw [cut]
      split
      · exact inductionHypothesis List.not_mem_nil
      next other =>
        refine inductionHypothesis fun inside => ?_
        rcases List.mem_append.mp inside with inside | inside
        · exact clean inside
        · exact other (List.mem_singleton.mp inside).symm

omit [DecidableEq Symbol] in
theorem extent_append (lines lines' : List (List Symbol)) :
    extent (lines ++ lines') = extent lines + extent lines' := by
  rw [extent, List.map_append, List.sum_append, extent, extent]

omit [DecidableEq Symbol] in
theorem extent_eq_zero {lines : List (List Symbol)} (zero : extent lines = 0) :
    lines = [] := by
  cases lines with
  | nil => rfl
  | cons line lines =>
      simp only [extent, List.map_cons, List.sum_cons] at zero
      omega

/-- No symbol is lost. -/
theorem extent_cut (unfinished text : List Symbol) :
    extent (cut eol unfinished text).1 + (cut eol unfinished text).2.length =
      unfinished.length + text.length := by
  induction text generalizing unfinished with
  | nil => simp [cut, extent]
  | cons symbol text inductionHypothesis =>
      rw [cut]
      split
      · have rest := inductionHypothesis []
        simp only [extent, List.map_cons, List.sum_cons, List.length_cons,
          List.length_nil] at rest ⊢
        omega
      · have rest := inductionHypothesis (unfinished ++ [symbol])
        rw [List.length_append, List.length_singleton] at rest
        rw [rest, List.length_cons]
        omega

/-- What is left over is the end of the text. -/
theorem drop_extent_cut (unfinished text : List Symbol) :
    (unfinished ++ text).drop (extent (cut eol unfinished text).1) =
      (cut eol unfinished text).2 := by
  induction text generalizing unfinished with
  | nil => simp [cut, extent]
  | cons symbol text inductionHypothesis =>
      rw [cut]
      split
      · have rest := inductionHypothesis []
        simp only [extent, List.map_cons, List.sum_cons, List.nil_append]
          at rest ⊢
        rw [Nat.add_assoc, List.drop_append, List.drop_of_length_le (by omega),
          List.nil_append, ← rest]
        rw [show unfinished.length + (1 + (List.map (fun line => line.length + 1)
          (cut eol [] text).1).sum) - unfinished.length =
          (List.map (fun line => line.length + 1) (cut eol [] text).1).sum + 1
          by omega, List.drop_succ_cons]
      · rw [← inductionHypothesis, List.append_assoc, List.singleton_append]

theorem length_cut_le (unfinished text : List Symbol) :
    (cut eol unfinished text).1.length ≤ text.length := by
  induction text generalizing unfinished with
  | nil => exact Nat.le_refl 0
  | cons symbol text inductionHypothesis =>
      rw [cut, List.length_cons]
      split
      · exact Nat.succ_le_succ (inductionHypothesis [])
      · exact Nat.le_succ_of_le (inductionHypothesis _)

/-- The lines of a text are those of its beginning and those of what is carried
over. -/
theorem linesOf_carry {unfinished : List Symbol} (clean : eol ∉ unfinished)
    (text text' : List Symbol) :
    linesOf eol (unfinished ++ (text ++ text')) =
      (cut eol unfinished text).1 ++
        linesOf eol ((cut eol unfinished text).2 ++ text') := by
  have carried := cut_carry (eol_notMem_cut clean text) text'
  rw [linesOf, cut_carry clean, cut_append, linesOf, carried, List.append_assoc]

/-- The last line has its end. -/
theorem cut_terminated (unfinished text : List Symbol) :
    (cut eol unfinished (text ++ [eol])).1 =
        (cut eol unfinished text).1 ++ [(cut eol unfinished text).2] ∧
      (cut eol unfinished (text ++ [eol])).2 = [] := by
  rw [cut_append]
  simp [cut]

theorem cut_snd_eq_nil_iff (text : List Symbol) :
    (cut eol [] text).2 = [] ↔ text = [] ∨ text.getLast? = some eol := by
  induction text using List.reverseRecOn with
  | nil => simp [cut]
  | append_singleton text symbol _ =>
      rw [cut_append, cut]
      by_cases ends : symbol = eol
      · simp [ends, cut]
      · simp [ends, cut]

omit [DecidableEq Symbol] in
theorem lastLine_of_ne_nil {unfinished : List Symbol}
    (nonempty : unfinished ≠ []) : lastLine unfinished = [unfinished] := by
  cases unfinished with
  | nil => exact absurd rfl nonempty
  | cons symbol rest => rfl

/-- A text without an end of line goes to the front of the first line. -/
theorem linesOf_eq {unfinished : List Symbol} (clean : eol ∉ unfinished)
    (text : List Symbol) :
    linesOf eol (unfinished ++ text) =
      (cut eol unfinished text).1 ++ lastLine (cut eol unfinished text).2 := by
  rw [linesOf, cut_carry clean]

/-- A text that is not empty has a line. -/
theorem linesOf_ne_nil {text : List Symbol} (nonempty : text ≠ []) :
    linesOf eol text ≠ [] := by
  intro noLines
  obtain ⟨lines, last⟩ := List.append_eq_nil_iff.mp noLines
  have extents := @extent_cut _ _ eol [] text
  cases rest : (cut eol [] text).2 with
  | nil =>
      rw [lines, rest] at extents
      exact nonempty (List.eq_nil_of_length_eq_zero (by simpa [extent] using extents.symm))
  | cons symbol later =>
      rw [rest] at last
      cases last

theorem linesOf_of_notMem {text : List Symbol} (clean : eol ∉ text) :
    linesOf eol text = lastLine text := by
  rw [linesOf, cut_of_notMem clean, List.nil_append, List.nil_append]

/-! ## Writing lines -/

/-- Every line with its end. -/
def written (eol : Symbol) (lines : List (List Symbol)) : List Symbol :=
  (lines.map (· ++ [eol])).flatten

/-- Lines that are written are cut again. -/
theorem cut_written {lines : List (List Symbol)}
    (clean : ∀ line ∈ lines, eol ∉ line) :
    cut eol [] (written eol lines) = (lines, []) := by
  induction lines with
  | nil => rfl
  | cons line lines inductionHypothesis =>
      have first := cut_of_notMem (clean line List.mem_cons_self) []
      have later := inductionHypothesis fun line inside =>
        clean line (List.mem_cons_of_mem _ inside)
      rw [written, List.map_cons, List.flatten_cons, List.append_assoc,
        cut_append, first, List.nil_append, List.singleton_append, cut,
        if_pos rfl]
      exact congrArg (fun rest => (line :: rest.1, rest.2)) later

/-- Lines that are written can be read. -/
theorem linesOf_written {lines : List (List Symbol)}
    (clean : ∀ line ∈ lines, eol ∉ line) :
    linesOf eol (written eol lines) = lines := by
  rw [linesOf, cut_written clean, lastLine, List.append_nil]

theorem eol_notMem_of_mem_cut {unfinished text line : List Symbol}
    (clean : eol ∉ unfinished) (inside : line ∈ (cut eol unfinished text).1) :
    eol ∉ line := by
  induction text generalizing unfinished with
  | nil => cases inside
  | cons symbol text inductionHypothesis =>
      rw [cut] at inside
      split at inside
      · rcases List.mem_cons.mp inside with rfl | inside
        · exact clean
        · exact inductionHypothesis List.not_mem_nil inside
      next other =>
        refine inductionHypothesis (fun isEol => ?_) inside
        rcases List.mem_append.mp isEol with isEol | isEol
        · exact clean isEol
        · exact other (List.mem_singleton.mp isEol).symm

/-- A line has no end of line in it. -/
theorem eol_notMem_of_mem_linesOf {text line : List Symbol}
    (inside : line ∈ linesOf eol text) : eol ∉ line := by
  rcases List.mem_append.mp inside with ended | last
  · exact eol_notMem_of_mem_cut List.not_mem_nil ended
  · have clean := @eol_notMem_cut _ _ eol [] List.not_mem_nil text
    revert last
    match (cut eol [] text).2, clean with
    | [], _ => exact nofun
    | _ :: _, clean =>
        intro last
        rwa [List.mem_singleton.mp last]

/-! ## The first lines of a text -/

/-- A text up to the end of its `k`-th line. -/
def firstLines (eol : Symbol) : Nat → List Symbol → List Symbol
  | 0, _ => []
  | _ + 1, [] => []
  | k + 1, symbol :: text =>
      symbol :: firstLines eol (if symbol = eol then k else k + 1) text

theorem firstLines_nil (k : Nat) : firstLines eol k [] = [] := by
  cases k <;> rfl

theorem firstLines_zero (text : List Symbol) : firstLines eol 0 text = [] := by
  cases text <;> rfl

/-- The first lines are the front of the text. -/
theorem firstLines_isPrefix (k : Nat) (text : List Symbol) :
    firstLines eol k text <+: text := by
  induction text generalizing k with
  | nil => simp [firstLines_nil]
  | cons symbol text inductionHypothesis =>
      cases k with
      | zero =>
          rw [firstLines_zero]
          exact List.nil_prefix
      | succ k =>
          exact (List.prefix_cons_inj symbol).mpr (inductionHypothesis _)

/-- Too few ends of lines leave lines to be taken from the rest. -/
theorem firstLines_append_of_lt {k : Nat} {text : List Symbol}
    (more : text.count eol < k) (text' : List Symbol) :
    firstLines eol k (text ++ text') =
      text ++ firstLines eol (k - text.count eol) text' := by
  induction text generalizing k with
  | nil => rfl
  | cons symbol text inductionHypothesis =>
      obtain ⟨k, rfl⟩ := Nat.exists_eq_succ_of_ne_zero (Nat.ne_zero_of_lt more)
      rw [List.cons_append, List.cons_append, firstLines]
      by_cases ends : symbol = eol
      · subst ends
        rw [List.count_cons_self] at more ⊢
        rw [if_pos rfl, inductionHypothesis (Nat.lt_of_succ_lt_succ more),
          Nat.succ_sub_succ]
      · rw [List.count_cons_of_ne ends] at more ⊢
        rw [if_neg ends, inductionHypothesis more]

/-- Enough ends of lines leave none. -/
theorem firstLines_append_of_le {k : Nat} {text : List Symbol}
    (enough : k ≤ text.count eol) (text' : List Symbol) :
    firstLines eol k (text ++ text') = firstLines eol k text := by
  induction text generalizing k with
  | nil =>
      obtain rfl := Nat.le_zero.mp enough
      rw [firstLines_zero, firstLines_zero]
  | cons symbol text inductionHypothesis =>
      cases k with
      | zero => rw [firstLines_zero, firstLines_zero]
      | succ k =>
          rw [List.cons_append, firstLines, firstLines]
          by_cases ends : symbol = eol
          · subst ends
            rw [List.count_cons_self] at enough
            rw [if_pos rfl, inductionHypothesis (Nat.le_of_succ_le_succ enough)]
          · rw [List.count_cons_of_ne ends] at enough
            rw [if_neg ends, inductionHypothesis enough]

/-- The number of lines; the last one may have no end. -/
def lineCount (eol : Symbol) (text : List Symbol) : Nat :=
  (linesOf eol text).length

theorem length_cut (unfinished text : List Symbol) :
    (cut eol unfinished text).1.length = text.count eol := by
  induction text generalizing unfinished with
  | nil => rfl
  | cons symbol text inductionHypothesis =>
      rw [cut]
      split
      next ends =>
        subst ends
        rw [List.count_cons_self, List.length_cons, inductionHypothesis]
      next other => rw [List.count_cons_of_ne other, inductionHypothesis]

/-- The number of lines is that of their ends, and one more if the last is not
ended. -/
theorem lineCount_eq (text : List Symbol) :
    lineCount eol text = text.count eol +
      if text = [] ∨ text.getLast? = some eol then 0 else 1 := by
  rw [lineCount, linesOf, List.length_append, length_cut]
  congr 1
  by_cases ended : text = [] ∨ text.getLast? = some eol
  · rw [if_pos ended, (cut_snd_eq_nil_iff text).mpr ended]
    rfl
  · rw [if_neg ended,
      lastLine_of_ne_nil fun noRest => ended ((cut_snd_eq_nil_iff text).mp noRest)]
    rfl

/-- A front adds its ends of lines. -/
theorem lineCount_append (text : List Symbol) {text' : List Symbol}
    (nonempty : text' ≠ []) :
    lineCount eol (text ++ text') = text.count eol + lineCount eol text' := by
  have last : (text ++ text').getLast? = text'.getLast? := by
    rw [List.getLast?_append, Option.or_of_isSome]
    exact List.getLast?_isSome.mpr nonempty
  rw [lineCount_eq, lineCount_eq, List.count_append, last, Nat.add_assoc]
  simp [nonempty]

/-- What ends with its last line is the first of its lines. -/
theorem firstLines_of_ended {k : Nat} {text : List Symbol}
    (ended : text = [] ∨ text.getLast? = some eol)
    (few : text.count eol ≤ k) : firstLines eol k text = text := by
  induction text using List.reverseRecOn with
  | nil => exact firstLines_nil k
  | append_singleton text symbol _ =>
      obtain rfl : symbol = eol := by simpa using ended
      rw [List.count_append, List.count_singleton_self] at few
      rw [firstLines_append_of_lt (Nat.lt_of_succ_le few)]
      obtain ⟨left, isLeft⟩ : ∃ left, k - text.count symbol = left + 1 :=
        ⟨k - text.count symbol - 1, by omega⟩
      rw [isLeft, firstLines, firstLines_nil]

/-- A text that ends with a line is found again by counting what is behind it. -/
theorem firstLines_append_of_ended {text : List Symbol}
    (ended : text.getLast? = some eol) (text' : List Symbol) :
    text'.count eol < (text ++ text').count eol ∧
      firstLines eol ((text ++ text').count eol - text'.count eol)
        (text ++ text') = text := by
  have positive : 0 < text.count eol :=
    List.count_pos_iff.mpr (List.mem_of_getLast? ended)
  rw [List.count_append, Nat.add_sub_cancel]
  refine ⟨by omega, ?_⟩
  rw [firstLines_append_of_le le_rfl, firstLines_of_ended (.inr ended) le_rfl]

/-- A text with few lines is all of its first lines. -/
theorem firstLines_eq_self {k : Nat} {text : List Symbol}
    (few : lineCount eol text ≤ k) : firstLines eol k text = text := by
  rw [lineCount_eq] at few
  by_cases ended : text = [] ∨ text.getLast? = some eol
  · rw [if_pos ended] at few
    exact firstLines_of_ended ended few
  · rw [if_neg ended] at few
    have same := firstLines_append_of_lt (Nat.lt_of_succ_le few) []
    rwa [firstLines_nil, List.append_nil] at same

/-- The first lines are ended, if the text has enough ends. -/
theorem firstLines_ended {k : Nat} {text : List Symbol}
    (enough : k ≤ text.count eol) :
    firstLines eol k text = [] ∨
      (firstLines eol k text).getLast? = some eol := by
  induction text generalizing k with
  | nil =>
      rw [firstLines_nil]
      exact .inl rfl
  | cons symbol text inductionHypothesis =>
      cases k with
      | zero =>
          rw [firstLines_zero]
          exact .inl rfl
      | succ k =>
          right
          rw [firstLines, List.getLast?_cons]
          by_cases ends : symbol = eol
          · subst ends
            rw [List.count_cons_self] at enough
            rw [if_pos rfl]
            rcases inductionHypothesis (Nat.le_of_succ_le_succ enough) with
              atNil | last
            · rw [atNil]
              rfl
            · rw [last]
              rfl
          · rw [List.count_cons_of_ne ends] at enough
            rw [if_neg ends]
            rcases inductionHypothesis enough with atNil | last
            · obtain ⟨next, rest, isNext⟩ := List.exists_cons_of_ne_nil
                (List.ne_nil_of_mem (List.count_pos_iff.mp
                  (Nat.zero_lt_of_lt enough)))
              rw [isNext, firstLines] at atNil
              cases atNil
            · rw [last]
              rfl

theorem cut_firstLines (k : Nat) (unfinished text : List Symbol) :
    (cut eol unfinished (firstLines eol (k + 1) text)).1 ++
        lastLine (cut eol unfinished (firstLines eol (k + 1) text)).2 =
      ((cut eol unfinished text).1 ++
        lastLine (cut eol unfinished text).2).take (k + 1) := by
  induction text generalizing k unfinished with
  | nil =>
      rw [firstLines_nil, cut, List.nil_append]
      cases unfinished with
      | nil => rfl
      | cons symbol unfinished => simp [lastLine]
  | cons symbol text inductionHypothesis =>
      rw [firstLines, cut, cut]
      by_cases ends : symbol = eol
      · rw [if_pos ends, if_pos ends, if_pos ends, List.cons_append,
          List.cons_append, List.take_succ_cons]
        cases k with
        | zero => rw [firstLines_zero, List.take_zero]; rfl
        | succ k => rw [inductionHypothesis]
      · rw [if_neg ends, if_neg ends, if_neg ends, inductionHypothesis]

/-- The lines of the first lines are the first of the lines. -/
theorem linesOf_firstLines (k : Nat) (text : List Symbol) :
    linesOf eol (firstLines eol k text) = (linesOf eol text).take k := by
  cases k with
  | zero => rw [firstLines_zero, List.take_zero]; rfl
  | succ k => exact cut_firstLines k [] text

end Lmcas.Lib.Lines
