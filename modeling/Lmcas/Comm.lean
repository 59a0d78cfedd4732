import Lmcas.Lib.CString
import Lmcas.Lib.Fallible
import Lmcas.Lib.Comparison

/-!
# `comm`

`compare_files` of `comm.c`, on the lines that are read from its two files.  A
line is without its delimiter, which is put out behind it.
-/

namespace Lmcas.Comm

open Lmcas.Lib.CString
open Lmcas.Lib.Fallible
open Lmcas.Lib.StableSort

/-- `check_input_order`: by default only unpairable lines are a reason to
look. -/
inductive CheckOrder where
  | default
  | enabled
  | disabled
deriving DecidableEq, Repr

/-- The classes 1, 2 and 3 of lines. -/
inductive LineClass where
  | file1
  | file2
  | both
deriving DecidableEq, Repr

/-- What the locale compares with, and the functions of gnulib that do it.
`xmemcoll` collates; `memcmp2` is the order of `memcmp` on the part that both
blocks have, and then that of their lengths. -/
structure Collation where
  hardLcCollate : Bool
  xmemcoll : Word → Word → Int
  collates : Comparison xmemcoll
  memcmp2 : Word → Word → Int
  bytewise : ∀ block block',
    (memcmp2 block block').sign =
      (compareLists compareChars block block').sign

/-- The variables that `main` sets. -/
structure Options where
  onlyFile1 : Bool
  onlyFile2 : Bool
  both : Bool
  delim : Char
  colSep : Word
  checkInputOrder : CheckOrder
  totalOption : Bool
  collation : Collation

/-- `memcmp`, of which the sign counts: here it is the difference of the first
two bytes that differ. -/
def memcmp (block block' : Word) (len : Nat) : Int :=
  firstDiff id (block.take len) (block'.take len)

/-- How `compare_files` orders two lines. -/
def Options.compare (options : Options) (line1 line2 : Word) : Int :=
  if options.collation.hardLcCollate then options.collation.xmemcoll line1 line2
  else
    let len := min line1.length line2.length
    let order := memcmp line1 line2 len
    if order = 0 then
      if line1.length < line2.length then -1
      else if line1.length ≠ line2.length then 1
      else 0
    else order

/-- How `check_order` orders two lines. -/
def Options.checkedOrder (options : Options) (prev current : Word) : Int :=
  if options.collation.hardLcCollate then options.collation.xmemcoll prev current
  else options.collation.memcmp2 prev current

/-- Lines that count as copies of each other: equal ones, or those that the
locale does not tell apart. -/
def Options.Alike (options : Options) (line other : Word) : Prop :=
  if options.collation.hardLcCollate then
    options.collation.xmemcoll line other = 0
  else line = other

instance (options : Options) (line other : Word) :
    Decidable (options.Alike line other) := by
  unfold Options.Alike
  infer_instance

/-- The `col_sep_len` bytes of `col_sep`: the empty string counts for its NUL. -/
def Options.colSepBytes (options : Options) : Word :=
  if options.colSep = [] then ['\x00'] else options.colSep

/-- What has been put out, `total`, and what is remembered of the order. -/
structure Summary where
  out : Word
  total : LineClass → Nat
  seenUnpairable : Bool
  disorder1 : Bool
  disorder2 : Bool

/-- The state before the loop of `compare_files`. -/
def Summary.start : Summary := ⟨[], fun _ => 0, false, false, false⟩

/-- The file whose order is fatal. -/
inductive Disorder where
  | file1
  | file2
deriving DecidableEq, Repr

section

variable (options : Options)

/-- `writeline`: the columns before that of the line are left empty. -/
def writeline (line : Word) : LineClass → Word
  | .file1 => if options.onlyFile1 then line ++ [options.delim] else []
  | .file2 =>
      if options.onlyFile2 then
        (if options.onlyFile1 then options.colSepBytes else []) ++
          (line ++ [options.delim])
      else []
  | .both =>
      if options.both then
        (if options.onlyFile1 then options.colSepBytes else []) ++
          ((if options.onlyFile2 then options.colSepBytes else []) ++
            (line ++ [options.delim]))
      else []

/-- A line of a class is counted and put out. -/
def Summary.add (summary : Summary) (lineClass : LineClass) (line : Word) :
    Summary :=
  { summary with
    out := summary.out ++ writeline options line lineClass
    total := fun other =>
      if other = lineClass then summary.total other + 1 else summary.total other
    seenUnpairable := summary.seenUnpairable || lineClass ≠ .both }

/-- `issued_disorder_warning` of the file behind the check. -/
def checkOrder (seenUnpairable issued : Bool) (whatfile : Disorder)
    (prev current : Word) : Except Disorder Bool :=
  if options.checkInputOrder ≠ .disabled ∧
      (options.checkInputOrder = .enabled ∨ seenUnpairable = true) ∧
      issued = false ∧ 0 < options.checkedOrder prev current then
    if options.checkInputOrder = .enabled then .error whatfile else .ok true
  else .ok issued

/-- The check when the line behind `current` has been read: at the end of the
file it is made again for the two lines before. -/
def fillUp (seenUnpairable issued : Bool) (whatfile : Disorder)
    (previous : Option Word) (current : Word) (rest : List Word) :
    Except Disorder Bool :=
  match rest, previous with
  | next :: _, _ =>
      checkOrder options seenUnpairable issued whatfile current next
  | [], some previous =>
      checkOrder options seenUnpairable issued whatfile previous current
  | [], none => .ok issued

/-- The next line of the first file, checked against the last one. -/
def Summary.fillUp1 (summary : Summary) (previous : Option Word)
    (current : Word) (rest : List Word) : Except Disorder Summary :=
  (fillUp options summary.seenUnpairable summary.disorder1 .file1 previous
    current rest).map fun disorder1 => { summary with disorder1 }

/-- The next line of the second file, checked against the last one. -/
def Summary.fillUp2 (summary : Summary) (previous : Option Word)
    (current : Word) (rest : List Word) : Except Disorder Summary :=
  (fillUp options summary.seenUnpairable summary.disorder2 .file2 previous
    current rest).map fun disorder2 => { summary with disorder2 }

/-- The loop; `previous1` and `previous2` are in the buffers `alt[i][1]`. -/
def compareLoop (previous1 previous2 : Option Word) (summary : Summary) :
    List Word → List Word → Except Disorder Summary
  | [], [] => .ok summary
  | line1 :: rest1, [] => do
      let summary ← (summary.add options .file1 line1).fillUp1 options previous1
        line1 rest1
      compareLoop (some line1) previous2 summary rest1 []
  | [], line2 :: rest2 => do
      let summary ← (summary.add options .file2 line2).fillUp2 options previous2
        line2 rest2
      compareLoop previous1 (some line2) summary [] rest2
  | line1 :: rest1, line2 :: rest2 =>
      let order := options.compare line1 line2
      if order = 0 then do
        let summary ← (summary.add options .both line2).fillUp1 options
          previous1 line1 rest1
        let summary ← summary.fillUp2 options previous2 line2 rest2
        compareLoop (some line1) (some line2) summary rest1 rest2
      else if order ≤ 0 then do
        let summary ← (summary.add options .file1 line1).fillUp1 options
          previous1 line1 rest1
        compareLoop (some line1) previous2 summary rest1 (line2 :: rest2)
      else do
        let summary ← (summary.add options .file2 line2).fillUp2 options
          previous2 line2 rest2
        compareLoop previous1 (some line2) summary (line1 :: rest1) rest2
termination_by lines1 lines2 => lines1.length + lines2.length

/-- "Print the summary, minding the column and line delimiters." -/
def totalLine (total : LineClass → Nat) : Word :=
  Nat.toDigits 10 (total .file1) ++ options.colSep ++
    Nat.toDigits 10 (total .file2) ++ options.colSep ++
    Nat.toDigits 10 (total .both) ++ options.colSep ++
    "total".toList ++ [options.delim]

/-- The totals behind the loop. -/
def Summary.finish (summary : Summary) : Summary :=
  { summary with
    out := summary.out ++
      if options.totalOption then totalLine options summary.total else [] }

/-- At first all of `alt[i]` are the index of the first line. -/
def compareFiles (lines1 lines2 : List Word) : Except Disorder Summary :=
  (compareLoop options lines1.head? lines2.head? Summary.start lines1
    lines2).map (Summary.finish options)

/-! ## Classes of lines -/

/-- The lines in the order in which they come, with their classes. -/
def classify : List Word → List Word → List (LineClass × Word)
  | [], [] => []
  | line1 :: rest1, [] => (.file1, line1) :: classify rest1 []
  | [], line2 :: rest2 => (.file2, line2) :: classify [] rest2
  | line1 :: rest1, line2 :: rest2 =>
      if options.compare line1 line2 = 0 then
        (.both, line2) :: classify rest1 rest2
      else if options.compare line1 line2 ≤ 0 then
        (.file1, line1) :: classify rest1 (line2 :: rest2)
      else (.file2, line2) :: classify (line1 :: rest1) rest2
termination_by lines1 lines2 => lines1.length + lines2.length

/-- How many of the classified lines are of a class and alike. -/
def occurrences (lineClass : LineClass) (line : Word)
    (classified : List (LineClass × Word)) : Nat :=
  classified.countP fun found =>
    found.1 = lineClass ∧ options.Alike line found.2

/-- How many of the lines are alike. -/
def alikeCount (line : Word) (lines : List Word) : Nat :=
  lines.countP fun other => options.Alike line other

/-- No line in front of a smaller one. -/
def InOrder (lines : List Word) : Prop :=
  lines.Pairwise fun before line => options.compare before line ≤ 0

end

section

variable {options : Options}

/-! ## The order of the lines -/

/-- In the C locale the comparison of the shorter length and then of the lengths
is the lexicographic order of the bytes. -/
theorem compare_eq_compareLists
    (soft : options.collation.hardLcCollate = false) (line1 line2 : Word) :
    options.compare line1 line2 = compareLists compareChars line1 line2 := by
  have whole := compareLists_eq_firstDiff id line1 line2
  rw [List.map_id, List.map_id] at whole
  have cut : memcmp line1 line2 (min line1.length line2.length) =
      firstDiff id line1 line2 := by
    rw [memcmp]
    exact firstDiff_take id line1 line2
  rw [whole, Options.compare, if_neg (by rw [soft]; decide)]
  simp only [cut]
  by_cases different : firstDiff id line1 line2 = 0
  · rw [if_pos different, if_neg (not_not.mpr different)]
  · rw [if_neg different, if_pos different]

/-- The lines are compared consistently, in every locale. -/
theorem Options.comparison (options : Options) : Comparison options.compare := by
  cases hard : options.collation.hardLcCollate with
  | false =>
      have bytes : options.compare = compareLists compareChars := by
        funext line1 line2
        exact compare_eq_compareLists hard line1 line2
      rw [bytes]
      exact compareChars_comparison.lists
  | true =>
      have collated : options.compare = options.collation.xmemcoll := by
        funext line1 line2
        exact if_pos hard
      rw [collated]
      exact options.collation.collates

/-- Lines compare equal if they are copies, as far as the locale tells them
apart. -/
theorem compare_eq_zero_iff {line1 line2 : Word} :
    options.compare line1 line2 = 0 ↔ options.Alike line1 line2 := by
  cases hard : options.collation.hardLcCollate with
  | false =>
      rw [compare_eq_compareLists hard,
        compareLists_eq_zero_iff compareChars_eq_zero_iff]
      simp [Options.Alike, hard]
  | true => simp [Options.compare, Options.Alike, hard]

/-- The check goes by the order in which the lines are compared. -/
theorem checkedOrder_pos_iff {prev current : Word} :
    0 < options.checkedOrder prev current ↔ 0 < options.compare prev current := by
  cases hard : options.collation.hardLcCollate with
  | false =>
      have signs := options.collation.bytewise prev current
      rw [compare_eq_compareLists hard, ← Int.sign_pos_iff,
        ← @Int.sign_pos_iff (compareLists _ _ _), ← signs]
      simp [Options.checkedOrder, hard]
  | true => simp [Options.checkedOrder, Options.compare, hard]

/-! ## Sorted files -/

/-- A line that is put out counts in its class. -/
theorem occurrences_cons (lineClass lineClass' : LineClass) (line line' : Word)
    (classified : List (LineClass × Word)) :
    occurrences options lineClass line ((lineClass', line') :: classified) =
      occurrences options lineClass line classified +
        if lineClass' = lineClass ∧ options.compare line line' = 0 then 1
        else 0 := by
  rw [occurrences, List.countP_cons, occurrences]
  simp only [decide_eq_true_eq, compare_eq_zero_iff]

/-- A line that is read counts among those alike. -/
theorem alikeCount_cons (line line' : Word) (lines : List Word) :
    alikeCount options line (line' :: lines) = alikeCount options line lines +
      if options.compare line line' = 0 then 1 else 0 := by
  rw [alikeCount, List.countP_cons, alikeCount]
  simp only [decide_eq_true_eq, compare_eq_zero_iff]

/-- Lines that are alike are alike to the same lines. -/
theorem alike_congr_right
    {line1 line2 : Word} (same : options.compare line1 line2 = 0)
    (line : Word) :
    options.compare line line1 = 0 ↔ options.compare line line2 = 0 := by
  have same' := (options.comparison.sign_swap line1 line2).2.mpr same
  have swap1 := options.comparison.sign_swap line line1
  have swap2 := options.comparison.sign_swap line line2
  constructor
  · intro alike
    have alike' := swap1.2.mpr alike
    have before := options.comparison.trans line line1 line2 alike.le same.le
    have behind := options.comparison.trans line2 line1 line same'.le alike'.le
    omega
  · intro alike
    have alike' := swap2.2.mpr alike
    have before := options.comparison.trans line line2 line1 alike.le same'.le
    have behind := options.comparison.trans line1 line2 line same.le alike'.le
    omega

/-- What is smaller than the first line of a sorted file is not in it. -/
theorem alikeCount_of_less
    {smaller first line : Word} {lines : List Word}
    (less : options.compare smaller first < 0)
    (inOrder : InOrder options (first :: lines))
    (alike : options.compare line smaller = 0) :
    alikeCount options line (first :: lines) = 0 := by
  rw [alikeCount, List.countP_eq_zero]
  intro other inside
  rw [decide_eq_true_eq, ← compare_eq_zero_iff]
  intro alike'
  have greater := (options.comparison.sign_swap first smaller).1.mp less
  have reverse := (options.comparison.sign_swap line other).2.mpr alike'
  have back := options.comparison.trans other line smaller reverse.le alike.le
  rcases List.mem_cons.mp inside with rfl | behind
  · omega
  · have before := (List.pairwise_cons.mp inOrder).1 other behind
    have below := options.comparison.trans first other smaller before back
    omega

/-- On sorted files the merge takes the copies of a line in pairs, and what one
file has more goes to its own column. -/
theorem occurrences_classify
    {lines1 lines2 : List Word} (inOrder1 : InOrder options lines1)
    (inOrder2 : InOrder options lines2) (line : Word) :
    occurrences options .file1 line (classify options lines1 lines2) =
        alikeCount options line lines1 - alikeCount options line lines2 ∧
      occurrences options .file2 line (classify options lines1 lines2) =
        alikeCount options line lines2 - alikeCount options line lines1 ∧
      occurrences options .both line (classify options lines1 lines2) =
        min (alikeCount options line lines1)
          (alikeCount options line lines2) := by
  fun_induction classify options lines1 lines2 with
  | case1 => exact ⟨rfl, rfl, rfl⟩
  | case2 line1 rest1 inductionHypothesis =>
      obtain ⟨first, second, both⟩ :=
        inductionHypothesis inOrder1.of_cons inOrder2
      have noneAlike : alikeCount options line [] = 0 := rfl
      simp only [occurrences_cons, alikeCount_cons, first, second, both, noneAlike]
      simp
  | case3 line2 rest2 inductionHypothesis =>
      obtain ⟨first, second, both⟩ :=
        inductionHypothesis inOrder1 inOrder2.of_cons
      have noneAlike : alikeCount options line [] = 0 := rfl
      simp only [occurrences_cons, alikeCount_cons, first, second, both, noneAlike]
      simp
  | case4 line1 rest1 line2 rest2 same inductionHypothesis =>
      obtain ⟨first, second, both⟩ :=
        inductionHypothesis inOrder1.of_cons inOrder2.of_cons
      have alike := alike_congr_right same line
      simp only [occurrences_cons, alikeCount_cons, first, second, both, alike]
      refine ⟨?_, ?_, ?_⟩ <;> split <;> simp_all <;> omega
  | case5 line1 rest1 line2 rest2 differ less inductionHypothesis =>
      obtain ⟨first, second, both⟩ :=
        inductionHypothesis inOrder1.of_cons inOrder2
      have apart := @alikeCount_of_less options _ _ line _
        (lt_of_le_of_ne less differ) inOrder2
      rw [occurrences_cons, occurrences_cons, occurrences_cons,
        alikeCount_cons line line1, first, second, both]
      by_cases alike : options.compare line line1 = 0
      · rw [apart alike]
        simp [alike]
      · simp [alike]
  | case6 line1 rest1 line2 rest2 differ greater inductionHypothesis =>
      obtain ⟨first, second, both⟩ :=
        inductionHypothesis inOrder1 inOrder2.of_cons
      have swap := options.comparison.sign_swap line1 line2
      have apart := @alikeCount_of_less options _ _ line _
        (swap.1.mpr (not_le.mp greater)) inOrder1
      rw [occurrences_cons, occurrences_cons, occurrences_cons,
        alikeCount_cons line line2, first, second, both]
      by_cases alike : options.compare line line2 = 0
      · rw [apart alike]
        simp [alike]
      · simp [alike]

/-! ## What is put out -/

/-- What has been put out and counted since. -/
structure Added (options : Options) (summary : Summary) (classified : List (LineClass × Word))
    (summary' : Summary) : Prop where
  out : summary'.out = summary.out ++
    (classified.map fun found => writeline options found.2 found.1).flatten
  total : ∀ lineClass, summary'.total lineClass = summary.total lineClass +
    classified.countP fun found => found.1 = lineClass

/-- Nothing added. -/
theorem Added.nil (summary : Summary) :
    Added options summary [] summary :=
  ⟨(List.append_nil _).symm, fun _ => rfl⟩

/-- A line is added before the others. -/
theorem Added.cons {summary summary' : Summary} {lineClass : LineClass}
    {line : Word} {classified : List (LineClass × Word)}
    (added : Added options
      (summary.add options lineClass line) classified summary') :
    Added options summary ((lineClass, line) :: classified)
      summary' := by
  refine ⟨?_, fun other => ?_⟩
  · rw [added.out, Summary.add, List.map_cons, List.flatten_cons,
      List.append_assoc]
  · rw [added.total, Summary.add, List.countP_cons]
    by_cases same : lineClass = other
    · subst same
      simp only [if_true, decide_true]
      omega
    · simp [same, Ne.symm same]

/-- The same has been put out and counted. -/
def Summary.Alike (summary summary' : Summary) : Prop :=
  summary'.out = summary.out ∧ summary'.total = summary.total

/-- Warnings do not change what is added. -/
theorem Added.of_alike {summary summary₁ summary' : Summary}
    {classified : List (LineClass × Word)}
    (added : Added options summary₁ classified summary')
    (alike : summary.Alike summary₁) :
    Added options summary classified summary' :=
  ⟨alike.1 ▸ added.out, alike.2 ▸ added.total⟩

/-- Reading a line changes only what was warned of. -/
theorem fillUp1_alike {summary summary' : Summary} {previous : Option Word}
    {current : Word} {rest : List Word}
    (ok : summary.fillUp1 options previous current rest = .ok summary') :
    summary.Alike summary' := by
  obtain ⟨disorder1, -, rfl⟩ := map_eq_ok_iff.mp ok
  exact ⟨rfl, rfl⟩

/-- The same for the second file. -/
theorem fillUp2_alike {summary summary' : Summary} {previous : Option Word}
    {current : Word} {rest : List Word}
    (ok : summary.fillUp2 options previous current rest = .ok summary') :
    summary.Alike summary' := by
  obtain ⟨disorder2, -, rfl⟩ := map_eq_ok_iff.mp ok
  exact ⟨rfl, rfl⟩

/-- The loop puts out the lines as `classify` sorts them into the columns,
whatever it warns of. -/
theorem compareLoop_added {previous1 previous2 : Option Word}
    {summary summary' : Summary} {lines1 lines2 : List Word}
    (ok : compareLoop options previous1 previous2 summary lines1 lines2 =
      .ok summary') :
    Added options summary (classify options lines1 lines2)
      summary' := by
  fun_induction compareLoop options previous1 previous2 summary lines1 lines2
  case case1 summary =>
    obtain rfl := Except.ok.inj ok
    rw [classify]
    exact Added.nil summary
  case case2 line1 rest1 inductionHypothesis =>
    obtain ⟨summary₁, filled, next⟩ := bind_eq_ok_iff.mp ok
    rw [classify]
    exact ((inductionHypothesis _ next).of_alike (fillUp1_alike filled)).cons
  case case3 line2 rest2 inductionHypothesis =>
    obtain ⟨summary₁, filled, next⟩ := bind_eq_ok_iff.mp ok
    rw [classify]
    exact ((inductionHypothesis _ next).of_alike (fillUp2_alike filled)).cons
  case case4 line1 rest1 line2 rest2 order same inductionHypothesis =>
    obtain ⟨summary₁, filled1, next⟩ := bind_eq_ok_iff.mp ok
    obtain ⟨summary₂, filled2, next⟩ := bind_eq_ok_iff.mp next
    rw [classify, if_pos same]
    exact (((inductionHypothesis _ next).of_alike
      (fillUp2_alike filled2)).of_alike (fillUp1_alike filled1)).cons
  case case5 line1 rest1 line2 rest2 order differ less inductionHypothesis =>
    obtain ⟨summary₁, filled, next⟩ := bind_eq_ok_iff.mp ok
    rw [classify, if_neg differ, if_pos less]
    exact ((inductionHypothesis _ next).of_alike (fillUp1_alike filled)).cons
  case case6 line1 rest1 line2 rest2 order differ greater inductionHypothesis =>
    obtain ⟨summary₁, filled, next⟩ := bind_eq_ok_iff.mp ok
    rw [classify, if_neg differ, if_neg greater]
    exact ((inductionHypothesis _ next).of_alike (fillUp2_alike filled)).cons

/-! ## The check of the order -/

/-- Lines that are in order pass the check. -/
theorem checkOrder_of_le {seenUnpairable issued : Bool} {whatfile : Disorder}
    {prev current : Word} (le : options.compare prev current ≤ 0) :
    checkOrder options seenUnpairable issued whatfile prev current =
      .ok issued :=
  if_neg fun found =>
    not_lt.mpr le (checkedOrder_pos_iff.mp found.2.2.2)

/-- The line before a sorted rest of a file is not greater. -/
def Precedes (options : Options) (previous : Option Word) (lines : List Word) :
    Prop :=
  ∀ before ∈ previous, ∀ line ∈ lines.head?, options.compare before line ≤ 0

/-- The first line of a sorted file comes before the second. -/
theorem InOrder.precedes {line : Word} {lines : List Word}
    (inOrder : InOrder options (line :: lines)) :
    Precedes options (some line) lines := by
  intro before isLine next isNext
  obtain rfl := Option.some.inj isLine
  exact (List.pairwise_cons.mp inOrder).1 next (List.mem_of_mem_head? isNext)

/-- A sorted file gives no warning. -/
theorem fillUp_of_inOrder {seenUnpairable issued : Bool} {whatfile : Disorder}
    {previous : Option Word} {current : Word} {rest : List Word}
    (inOrder : InOrder options (current :: rest))
    (precedes : Precedes options previous (current :: rest)) :
    fillUp options seenUnpairable issued whatfile previous current rest =
      .ok issued := by
  match rest, previous with
  | next :: _, _ =>
      exact checkOrder_of_le (inOrder.precedes current rfl next rfl)
  | [], some before =>
      exact checkOrder_of_le (precedes before rfl current rfl)
  | [], none => rfl

/-- A sorted first file changes nothing. -/
theorem fillUp1_of_inOrder (summary : Summary) {previous : Option Word}
    {current : Word} {rest : List Word}
    (inOrder : InOrder options (current :: rest))
    (precedes : Precedes options previous (current :: rest)) :
    summary.fillUp1 options previous current rest = .ok summary := by
  rw [Summary.fillUp1, fillUp_of_inOrder inOrder precedes]
  rfl

/-- A sorted second file changes nothing. -/
theorem fillUp2_of_inOrder (summary : Summary) {previous : Option Word}
    {current : Word} {rest : List Word}
    (inOrder : InOrder options (current :: rest))
    (precedes : Precedes options previous (current :: rest)) :
    summary.fillUp2 options previous current rest = .ok summary := by
  rw [Summary.fillUp2, fillUp_of_inOrder inOrder precedes]
  rfl

/-- Sorted files come through every check. -/
theorem compareLoop_of_inOrder {previous1 previous2 : Option Word}
    (summary : Summary) {lines1 lines2 : List Word}
    (inOrder1 : InOrder options lines1) (inOrder2 : InOrder options lines2)
    (precedes1 : Precedes options previous1 lines1)
    (precedes2 : Precedes options previous2 lines2) :
    ∃ summary', compareLoop options previous1 previous2 summary lines1 lines2 =
        .ok summary' ∧
      summary'.disorder1 = summary.disorder1 ∧
      summary'.disorder2 = summary.disorder2 := by
  fun_induction compareLoop options previous1 previous2 summary lines1 lines2
  case case1 summary => exact ⟨summary, rfl, rfl, rfl⟩
  case case2 line1 rest1 inductionHypothesis =>
    rw [fillUp1_of_inOrder _ inOrder1 precedes1]
    exact inductionHypothesis _ inOrder1.of_cons inOrder2 inOrder1.precedes
      precedes2
  case case3 line2 rest2 inductionHypothesis =>
    rw [fillUp2_of_inOrder _ inOrder2 precedes2]
    exact inductionHypothesis _ inOrder1 inOrder2.of_cons precedes1
      inOrder2.precedes
  case case4 previous1 previous2 summary line1 rest1 line2 rest2 order same
      inductionHypothesis =>
    have filled := fillUp2_of_inOrder (summary.add options .both line2) inOrder2
      precedes2
    obtain ⟨summary', next, kept⟩ := inductionHypothesis
      (summary.add options .both line2) inOrder1.of_cons inOrder2.of_cons
      inOrder1.precedes inOrder2.precedes
    refine ⟨summary', ?_, kept⟩
    rw [fillUp1_of_inOrder _ inOrder1 precedes1]
    change (Summary.fillUp2 options _ previous2 line2 rest2 >>= _) = _
    rw [filled]
    exact next
  case case5 line1 rest1 line2 rest2 order differ less inductionHypothesis =>
    rw [fillUp1_of_inOrder _ inOrder1 precedes1]
    exact inductionHypothesis _ inOrder1.of_cons inOrder2 inOrder1.precedes
      precedes2
  case case6 line1 rest1 line2 rest2 order differ greater inductionHypothesis =>
    rw [fillUp2_of_inOrder _ inOrder2 precedes2]
    exact inductionHypothesis _ inOrder1 inOrder2.of_cons precedes1
      inOrder2.precedes

/-- A line before a sorted file, in order with its first line, gives a sorted
file. -/
theorem InOrder.cons {line : Word}
    {lines : List Word} (inOrder : InOrder options lines)
    (precedes : Precedes options (some line) lines) :
    InOrder options (line :: lines) := by
  refine List.pairwise_cons.mpr ⟨fun other inside => ?_, inOrder⟩
  cases lines with
  | nil => cases inside
  | cons next lines =>
      have first := precedes line rfl next rfl
      rcases List.mem_cons.mp inside with rfl | behind
      · exact first
      · exact options.comparison.trans line next other first
          ((List.pairwise_cons.mp inOrder).1 other behind)

/-- With `--check-order`, a check that does not end the program. -/
theorem fillUp_enabled (enabled : options.checkInputOrder = .enabled)
    {seenUnpairable issued : Bool} {whatfile : Disorder}
    {previous : Option Word} {current : Word} {rest : List Word}
    (ok : fillUp options seenUnpairable false whatfile previous current rest =
      .ok issued) :
    issued = false ∧ Precedes options (some current) rest := by
  have check {prev next : Word}
      (ok : checkOrder options seenUnpairable false whatfile prev next =
        .ok issued) : issued = false ∧ options.compare prev next ≤ 0 := by
    by_cases greater : 0 < options.compare prev next
    · have found : options.checkInputOrder ≠ .disabled ∧
          (options.checkInputOrder = .enabled ∨ seenUnpairable = true) ∧
          false = false ∧ 0 < options.checkedOrder prev next :=
        ⟨by rw [enabled]; decide, .inl enabled, rfl,
          checkedOrder_pos_iff.mpr greater⟩
      rw [checkOrder, if_pos found, if_pos enabled] at ok
      cases ok
    · rw [checkOrder_of_le (not_lt.mp greater)] at ok
      exact ⟨(Except.ok.inj ok).symm, not_lt.mp greater⟩
  match rest, previous with
  | next :: _, _ =>
      obtain ⟨inOrder, le⟩ := check ok
      refine ⟨inOrder, fun before isCurrent line isNext => ?_⟩
      rw [← Option.some.inj isCurrent, ← Option.some.inj isNext]
      exact le
  | [], some before => exact ⟨(check ok).1, fun _ _ _ isNext => nomatch isNext⟩
  | [], none =>
      exact ⟨(Except.ok.inj ok).symm, fun _ _ _ isNext => nomatch isNext⟩

/-- With `--check-order` the line that was read is in order with the next. -/
theorem fillUp1_enabled (enabled : options.checkInputOrder = .enabled)
    {previous : Option Word} {summary summary' : Summary} {line : Word}
    {rest : List Word}
    (filled : summary.fillUp1 options previous line rest = .ok summary')
    (inOrder : summary.disorder1 = false) :
    summary'.disorder1 = false ∧ summary'.disorder2 = summary.disorder2 ∧
      Precedes options (some line) rest := by
  obtain ⟨disorder1, isFilled, rfl⟩ := map_eq_ok_iff.mp filled
  rw [inOrder] at isFilled
  obtain ⟨still, precedes⟩ := fillUp_enabled enabled isFilled
  exact ⟨still, rfl, precedes⟩

/-- The same for the second file. -/
theorem fillUp2_enabled (enabled : options.checkInputOrder = .enabled)
    {previous : Option Word} {summary summary' : Summary} {line : Word}
    {rest : List Word}
    (filled : summary.fillUp2 options previous line rest = .ok summary')
    (inOrder : summary.disorder2 = false) :
    summary'.disorder1 = summary.disorder1 ∧ summary'.disorder2 = false ∧
      Precedes options (some line) rest := by
  obtain ⟨disorder2, isFilled, rfl⟩ := map_eq_ok_iff.mp filled
  rw [inOrder] at isFilled
  obtain ⟨still, precedes⟩ := fillUp_enabled enabled isFilled
  exact ⟨rfl, still, precedes⟩

/-- A run of the loop that does not fail has checked every pair of
neighbours. -/
theorem compareLoop_enabled
    (enabled : options.checkInputOrder = .enabled)
    {previous1 previous2 : Option Word} {summary summary' : Summary}
    (none1 : summary.disorder1 = false) (none2 : summary.disorder2 = false)
    {lines1 lines2 : List Word}
    (ok : compareLoop options previous1 previous2 summary lines1 lines2 =
      .ok summary') :
    InOrder options lines1 ∧ InOrder options lines2 := by
  fun_induction compareLoop options previous1 previous2 summary lines1 lines2
  case case1 => exact ⟨List.Pairwise.nil, List.Pairwise.nil⟩
  case case2 line1 rest1 inductionHypothesis =>
    obtain ⟨summary₁, filled, next⟩ := bind_eq_ok_iff.mp ok
    obtain ⟨still1, still2, precedes⟩ := fillUp1_enabled enabled filled none1
    obtain ⟨inOrder1, inOrder2⟩ :=
      inductionHypothesis _ still1 (still2.trans none2) next
    exact ⟨inOrder1.cons precedes, inOrder2⟩
  case case3 line2 rest2 inductionHypothesis =>
    obtain ⟨summary₁, filled, next⟩ := bind_eq_ok_iff.mp ok
    obtain ⟨still1, still2, precedes⟩ := fillUp2_enabled enabled filled none2
    obtain ⟨inOrder1, inOrder2⟩ :=
      inductionHypothesis _ (still1.trans none1) still2 next
    exact ⟨inOrder1, inOrder2.cons precedes⟩
  case case4 line1 rest1 line2 rest2 order same inductionHypothesis =>
    obtain ⟨summary₁, isFilled1, next⟩ := bind_eq_ok_iff.mp ok
    obtain ⟨summary₂, isFilled2, next⟩ := bind_eq_ok_iff.mp next
    obtain ⟨still1, still2, precedes1⟩ := fillUp1_enabled enabled isFilled1 none1
    obtain ⟨still1', still2', precedes2⟩ :=
      fillUp2_enabled enabled isFilled2 (still2.trans none2)
    obtain ⟨inOrder1, inOrder2⟩ :=
      inductionHypothesis _ (still1'.trans still1) still2' next
    exact ⟨inOrder1.cons precedes1,
      inOrder2.cons precedes2⟩
  case case5 line1 rest1 line2 rest2 order differ less inductionHypothesis =>
    obtain ⟨summary₁, filled, next⟩ := bind_eq_ok_iff.mp ok
    obtain ⟨still1, still2, precedes⟩ := fillUp1_enabled enabled filled none1
    obtain ⟨inOrder1, inOrder2⟩ :=
      inductionHypothesis _ still1 (still2.trans none2) next
    exact ⟨inOrder1.cons precedes, inOrder2⟩
  case case6 line1 rest1 line2 rest2 order differ greater inductionHypothesis =>
    obtain ⟨summary₁, filled, next⟩ := bind_eq_ok_iff.mp ok
    obtain ⟨still1, still2, precedes⟩ := fillUp2_enabled enabled filled none2
    obtain ⟨inOrder1, inOrder2⟩ :=
      inductionHypothesis _ (still1.trans none1) still2 next
    exact ⟨inOrder1, inOrder2.cons precedes⟩

/-- A line is in order with itself. -/
theorem precedes_head
    (lines : List Word) : Precedes options lines.head? lines := by
  intro before isHead line isHead'
  obtain rfl := Option.some.inj (isHead.symm.trans isHead')
  have swap := options.comparison.swap before before
  have signZero : (options.compare before before).sign = 0 := by omega
  exact (Int.sign_eq_zero_iff_zero.mp signZero).le

/-- Of two sorted files, whatever the check of their order: a line is put out in
the column of the lines that only one of them has as many times as it is there
more often than in the other, and in the column of both as many times as it is
in both; `total` tells how many there are, and no disorder is reported. -/
theorem comm_sorted (options : Options)
    (lines1 lines2 : List Word) (inOrder1 : InOrder options lines1)
    (inOrder2 : InOrder options lines2) :
    ∃ summary classified,
      compareFiles options lines1 lines2 = .ok summary ∧
      summary.disorder1 = false ∧ summary.disorder2 = false ∧
      summary.out = (classified.map fun found : LineClass × Word =>
          writeline options found.2 found.1).flatten ++
        (if options.totalOption then totalLine options summary.total else []) ∧
      (∀ lineClass, summary.total lineClass =
        classified.countP fun found => found.1 = lineClass) ∧
      ∀ line,
        occurrences options .file1 line classified =
          alikeCount options line lines1 - alikeCount options line lines2 ∧
        occurrences options .file2 line classified =
          alikeCount options line lines2 - alikeCount options line lines1 ∧
        occurrences options .both line classified =
          min (alikeCount options line lines1)
            (alikeCount options line lines2) := by
  obtain ⟨summary, ok, none1, none2⟩ := compareLoop_of_inOrder Summary.start
    inOrder1 inOrder2 (precedes_head lines1)
    (precedes_head lines2)
  obtain ⟨out, total⟩ := compareLoop_added ok
  refine ⟨summary.finish options, _, ?_, none1, none2, ?_,
    fun lineClass => (total lineClass).trans (Nat.zero_add _),
    occurrences_classify inOrder1 inOrder2⟩
  · rw [compareFiles, ok]
    rfl
  · rw [Summary.finish, out]
    rfl

end

/-- The C locale, with `--check-order`. -/
def plainOptions : Options where
  onlyFile1 := true
  onlyFile2 := true
  both := true
  delim := '\n'
  colSep := ['\t']
  checkInputOrder := .enabled
  totalOption := false
  collation :=
    { hardLcCollate := false
      xmemcoll := compareLists compareChars
      collates := compareChars_comparison.lists
      memcmp2 := compareLists compareChars
      bytewise := fun _ _ => rfl }

/-- Two short files in order. -/
theorem comm_sorted_letters :
    ∃ summary, compareFiles plainOptions [['a'], ['a', 'a']] [['a', 'a']] =
        .ok summary ∧
      summary.disorder1 = false ∧ summary.disorder2 = false := by
  obtain ⟨summary, -, ok, none1, none2, -⟩ := comm_sorted plainOptions
    [['a'], ['a', 'a']] [['a', 'a']]
    (by simp [InOrder]; decide) (by simp [InOrder])
  exact ⟨summary, ok, none1, none2⟩

/-- `--check-order` ends the program exactly when one of the files is not
sorted. -/
theorem comm_check_order (options : Options)
   
    (enabled : options.checkInputOrder = .enabled)
    (lines1 lines2 : List Word) :
    (∃ disorder, compareFiles options lines1 lines2 = .error disorder) ↔
      ¬ (InOrder options lines1 ∧ InOrder options lines2) := by
  rw [compareFiles]
  constructor
  · rintro ⟨disorder, fails⟩ ⟨inOrder1, inOrder2⟩
    obtain ⟨summary, ok, -⟩ := compareLoop_of_inOrder Summary.start
      inOrder1 inOrder2 (precedes_head lines1)
      (precedes_head lines2)
    rw [ok] at fails
    cases fails
  · intro disordered
    cases result : compareLoop options lines1.head? lines2.head? Summary.start
        lines1 lines2 with
    | error disorder => exact ⟨disorder, rfl⟩
    | ok summary =>
        exact absurd (compareLoop_enabled enabled rfl rfl result)
          disordered

/-- A file that is not in order. -/
theorem comm_check_order_letters :
    ∃ disorder, compareFiles plainOptions [['a', 'a'], ['a']] [] =
      .error disorder :=
  (comm_check_order plainOptions rfl [['a', 'a'], ['a']]
    []).mpr (by simp [InOrder]; decide)

end Lmcas.Comm
