import Lmcas.SortFiles

/-!
# Checking for sortedness

`check` of `sort.c`: neighbouring lines are compared, across the ends of the
buffers too.
-/

namespace Lmcas.SortCheck

open Lmcas.Lib.CString
open Lmcas.Lib.Lines
open Lmcas.Lib.StableSort
open Lmcas.SortBuffer
open Lmcas.SortThreads

variable {Line : Type}

section

variable (compare : Line → Line → Int) (unique : Bool)

/-- `nonunique <= compare (a, b)` -/
def disorder (before line : Line) : Bool :=
  decide ((if unique then 0 else 1) ≤ compare before line)

/-- The lines after the first one of a buffer; a line out of order is found
with its number. -/
def checkLines : Line → Nat → List Line → Option (Nat × Line)
  | _, _, [] => none
  | before, lineNumber, line :: lines =>
      if disorder compare unique before line then some (lineNumber + 1, line)
      else checkLines line (lineNumber + 1) lines

/-- `temp` is the last line of the buffer before. -/
def checkBuffer (temp : Option Line) (lineNumber : Nat) :
    List Line → Option (Nat × Line)
  | [] => none
  | line :: lines =>
      if temp.any fun before => disorder compare unique before line then
        some (lineNumber + 1, line)
      else checkLines compare unique line (lineNumber + 1) lines

/-- `check`, from the tables of the calls of `fillbuf`; the last line of a table
is kept over to the next. -/
def check (temp : Option Line) (lineNumber : Nat) :
    List (List Line) → Option (Nat × Line)
  | [] => none
  | table :: tables =>
      match checkBuffer compare unique temp lineNumber table with
      | some found => some found
      | none => check table.getLast? (lineNumber + table.length) tables

end

section

variable {compare : Line → Line → Int} {unique : Bool}

/-- The lines are as they would be put out. -/
abbrev Ordered (compare : Line → Line → Int) (unique : Bool)
    (lines : List Line) : Prop :=
  lines.Pairwise fun before line => disorder compare unique before line = false

/-- What is in order with the line before is in order with those before that. -/
theorem disorder_trans (comparison : Comparison compare)
    {first second third : Line}
    (before : disorder compare unique first second = false)
    (before' : disorder compare unique second third = false) :
    disorder compare unique first third = false := by
  simp only [disorder, decide_eq_false_iff_not, Int.not_le] at before before' ⊢
  have trans := comparison.trans first second third
  have back := comparison.trans third first second
  have swap := comparison.sign_swap first third
  have swap' := comparison.sign_swap second third
  cases unique <;> simp only [if_true, Bool.false_eq_true, if_false] at * <;>
    omega

theorem checkBuffer_some (before : Line) (lineNumber : Nat)
    (lines : List Line) :
    checkBuffer compare unique (some before) lineNumber lines =
      checkLines compare unique before lineNumber lines := by
  cases lines with
  | nil => rfl
  | cons line lines => simp [checkBuffer, checkLines]

/-- A table is checked after the other. -/
theorem checkLines_append (before : Line) (lineNumber : Nat)
    (lines lines' : List Line) :
    checkLines compare unique before lineNumber (lines ++ lines') =
      (checkLines compare unique before lineNumber lines).or
        (checkLines compare unique (lines.getLast?.getD before)
          (lineNumber + lines.length) lines') := by
  induction lines generalizing before lineNumber with
  | nil => rfl
  | cons line lines inductionHypothesis =>
      rw [List.cons_append, checkLines, checkLines]
      split
      · rfl
      · rw [inductionHypothesis, List.getLast?_cons, List.length_cons,
          Option.getD_some]
        congr 2
        omega

/-- Where the buffers end makes no difference. -/
theorem checkBuffer_append (temp : Option Line) (lineNumber : Nat)
    {table : List Line} (nonempty : table ≠ []) (lines : List Line) :
    checkBuffer compare unique temp lineNumber (table ++ lines) =
      (checkBuffer compare unique temp lineNumber table).or
        (checkBuffer compare unique table.getLast?
          (lineNumber + table.length) lines) := by
  cases table with
  | nil => exact absurd rfl nonempty
  | cons line table =>
      rw [List.cons_append, checkBuffer, checkBuffer]
      split
      · rfl
      · rw [checkLines_append, List.getLast?_cons, checkBuffer_some,
          List.length_cons]
        congr 2
        omega

/-- The tables are checked as one. -/
theorem check_eq (temp : Option Line) (lineNumber : Nat)
    {tables : List (List Line)} (nonempty : ∀ table ∈ tables, table ≠ []) :
    check compare unique temp lineNumber tables =
      checkBuffer compare unique temp lineNumber tables.flatten := by
  induction tables generalizing temp lineNumber with
  | nil => rfl
  | cons table tables inductionHypothesis =>
      rw [check, List.flatten_cons,
        checkBuffer_append temp lineNumber (nonempty table (by simp)),
        inductionHypothesis _ _ fun table inside =>
          nonempty table (List.mem_cons_of_mem _ inside)]
      cases checkBuffer compare unique temp lineNumber table <;> rfl

/-- A line out of order, the first one there is. -/
structure Found (compare : Line → Line → Int) (unique : Bool)
    (lines : List Line) (number : Nat) (line : Line) : Prop where
  line : lines[number - 1]? = some line
  before : Ordered compare unique (lines.take (number - 1))
  here : ¬ Ordered compare unique (lines.take number)

/-- A line is in order if it is with its neighbour. -/
theorem ordered_append (comparison : Comparison compare) {front : List Line}
    {before line : Line}
    (ordered : Ordered compare unique (front ++ [before])) :
    Ordered compare unique (front ++ [before, line]) ↔
      disorder compare unique before line = false := by
  rw [List.append_cons]
  constructor
  · intro whole
    exact (List.pairwise_append.mp whole).2.2 before (by simp) line (by simp)
  · intro inOrder
    refine List.pairwise_append.mpr ⟨ordered, List.pairwise_singleton _ _, ?_⟩
    intro other inside line' isLine
    rw [List.mem_singleton.mp isLine]
    rcases List.mem_append.mp inside with inFront | isBefore
    · exact disorder_trans comparison ((List.pairwise_append.mp ordered).2.2
        other inFront before (by simp)) inOrder
    · rwa [List.mem_singleton.mp isBefore]

/-- `front` and the line before have been found in order. -/
theorem checkLines_spec (comparison : Comparison compare)
    (front : List Line) (before : Line) (lines : List Line)
    (ordered : Ordered compare unique (front ++ [before])) :
    match checkLines compare unique before (front.length + 1) lines with
    | none => Ordered compare unique (front ++ before :: lines)
    | some (number, line) =>
        Found compare unique (front ++ before :: lines) number line := by
  induction lines generalizing front before with
  | nil => exact ordered
  | cons line lines inductionHypothesis =>
      rw [checkLines]
      split
      next found =>
        split at found
        next => cases found
        next inOrder =>
          have more := inductionHypothesis (front ++ [before]) line
            (by
              rw [List.append_assoc]
              exact (ordered_append comparison ordered).mpr
                (Bool.eq_false_iff.mpr inOrder))
          rw [List.length_append, List.length_singleton, found,
            List.append_assoc] at more
          exact more
      next number line' found =>
        split at found
        next out =>
          obtain ⟨rfl, rfl⟩ := Prod.mk.inj (Option.some.inj found)
          refine ⟨?_, ?_, fun whole => ?_⟩
          · simp
          · have checked : (front ++ before :: line :: lines).take
                (front.length + 1) = front ++ [before] :=
              List.take_length_add_append 1
            rw [Nat.add_sub_cancel, checked]
            exact ordered
          · have checked : (front ++ before :: line :: lines).take
                (front.length + 1 + 1) = front ++ [before, line] :=
              List.take_length_add_append 2
            rw [checked, ordered_append comparison ordered, out] at whole
            cases whole
        next inOrder =>
          have more := inductionHypothesis (front ++ [before]) line
            (by
              rw [List.append_assoc]
              exact (ordered_append comparison ordered).mpr
                (Bool.eq_false_iff.mpr inOrder))
          rw [List.length_append, List.length_singleton, found,
            List.append_assoc] at more
          exact more

/-- What is found is the first line that is out of order, with its number. -/
theorem check_spec (comparison : Comparison compare) (unique : Bool)
    {tables : List (List Line)} (nonempty : ∀ table ∈ tables, table ≠ []) :
    match check compare unique none 0 tables with
    | none => Ordered compare unique tables.flatten
    | some (number, line) => Found compare unique tables.flatten number line := by
  rw [check_eq none 0 nonempty]
  cases tables.flatten with
  | nil => exact List.Pairwise.nil
  | cons line lines =>
      exact checkLines_spec comparison [] line lines
        (List.pairwise_singleton _ line)

/-- With `-u` equal lines are out of order too. -/
theorem disorder_eq_false_iff (comparison : Comparison compare)
    (before line : Line) :
    disorder compare unique before line = false ↔
      if unique then ¬ precedes compare line before = true
      else precedes compare before line = true := by
  have swap := comparison.sign_swap before line
  cases unique <;>
    simp only [disorder, precedes, decide_eq_true_eq, decide_eq_false_iff_not,
      if_true, Bool.false_eq_true, if_false] <;> omega

/-- The lines in order are those that sorting leaves as they are. -/
theorem ordered_iff (comparison : Comparison compare) (lines : List Line) :
    Ordered compare unique lines ↔
      sortedLines compare unique lines = lines := by
  have sorted := sorted_mergeSort comparison.ordering lines
  simp only [Ordered, disorder_eq_false_iff comparison]
  cases unique with
  | false =>
      simp only [Bool.false_eq_true, if_false, sortedLines]
      constructor
      · exact fun inOrder => List.mergeSort_of_pairwise inOrder
      · intro same
        rwa [← same]
  | true =>
      simp only [if_true, sortedLines]
      constructor
      · intro strict
        have inOrder : Sorted (precedes compare) lines :=
          strict.imp comparison.ordering.le_of_not_le
        rw [List.mergeSort_of_pairwise inOrder, firsts_of_strict strict]
      · intro same
        rw [← same]
        exact firsts_strict comparison.ordering sorted

/-- Nothing is found just if the sort leaves the lines as they are. -/
theorem check_eq_none_iff (comparison : Comparison compare)
    {tables : List (List Line)} (nonempty : ∀ table ∈ tables, table ≠ []) :
    check compare unique none 0 tables = none ↔
      sortedLines compare unique tables.flatten = tables.flatten := by
  have spec := check_spec comparison unique nonempty
  rw [← ordered_iff comparison]
  constructor
  · intro accepted
    rw [accepted] at spec
    exact spec
  · intro ordered
    cases found : check compare unique none 0 tables with
    | none => rfl
    | some found' =>
        obtain ⟨number, line⟩ := found'
        rw [found] at spec
        exact absurd (ordered.sublist (List.take_sublist number _)) spec.here

/-- `sort -c` accepts the files that `sort` would put out as they are, and of
any other file it finds the first line out of order, whatever the size of its
buffer. -/
theorem check_file {compare : Word → Word → Int}
    (comparison : Comparison compare) (unique : Bool) {lineBytes : Nat}
    {eol : Char} {x2nrealloc : Nat → Nat} (grows : ∀ n, n < x2nrealloc n)
    {alloc : Nat} {input : Word} {tables : List (List Word)}
    (buffers : Buffers lineBytes eol x2nrealloc (initbuf alloc) input tables) :
    (check compare unique none 0 tables = none ↔
        sortedLines compare unique (linesOf eol input) = linesOf eol input) ∧
      ∀ number line, check compare unique none 0 tables = some (number, line) →
        Found compare unique (linesOf eol input) number line := by
  obtain ⟨flat, nonempty⟩ := buffers_lines grows buffers
  rw [check_eq_none_iff comparison nonempty, flat]
  refine ⟨Iff.rfl, fun number line found => ?_⟩
  have spec := check_spec comparison unique nonempty
  rw [found, flat] at spec
  exact spec

/-- Three lines, of which the last is out of order. -/
theorem check_file_three :
    ∃ tables, Buffers 32 '\n' (fun n => n + n / 2 + 1) (initbuf 64)
        "a\nccc\nbb".toList tables ∧
      (check (fun first second : Word => (first.length : Int) - second.length)
          false none 0 tables = none ↔
        sortedLines (fun first second : Word =>
            (first.length : Int) - second.length) false
            (linesOf '\n' "a\nccc\nbb".toList) =
          linesOf '\n' "a\nccc\nbb".toList) ∧
      ∀ number line, check (fun first second : Word =>
          (first.length : Int) - second.length) false none 0 tables =
            some (number, line) →
        Found (fun first second : Word => (first.length : Int) - second.length)
          false (linesOf '\n' "a\nccc\nbb".toList) number line := by
  have grows (n : Nat) : n < n + n / 2 + 1 := by omega
  obtain ⟨tables, buffers, -⟩ :=
    initbuf_buffers 32 '\n' grows 64 "a\nccc\nbb".toList
  exact ⟨tables, buffers, check_file
    (comparison_sub.comap fun line : Word => (line.length : Int)) false grows
    buffers⟩

end

end Lmcas.SortCheck
