import Lmcas.SortBuffer
import Lmcas.SortMerge
import Lmcas.SortProgress

/-!
# Sorting files

`sort` of `sort.c`, with everything it calls: the buffer is filled from one
file after the other, what is in it goes to a temporary file or directly to
the output, and the temporary files are merged.  What the threads and the
shortage of file descriptors do is left open.
-/

namespace Lmcas.SortFiles

open Lmcas.Lib.CString
open Lmcas.Lib.Iteration
open Lmcas.Lib.Lines
open Lmcas.Lib.StableSort
open Lmcas.SortBuffer
open Lmcas.SortMerge
open Lmcas.SortThreads

/-- What stays the same while `sort` runs. -/
structure Config where
  compare : Word → Word → Int
  unique : Bool
  eolchar : Char
  nthreads : Nat
  nmerge : Nat
  bytesPerLine : Nat
  x2nrealloc : Nat → Nat

/-- The buffer, the rest of the file that is read, the files after it, and the
temporary files in the order of their creation. -/
structure Sorting where
  buffer : Buffer
  input : Word
  files : List Word
  temps : List (List Word)

section

variable (config : Config)

/-- The lines of a buffer go out sorted, when all threads are done. -/
def SortsBuffer (lines output : List Word) : Prop :=
  if 1 < lines.length then
    ∃ creates system, Reachable config.compare config.unique lines.length
        (sortlines creates [] config.nthreads lines) system ∧
      (∀ system', ¬ SystemStep config.compare config.unique lines.length system
        system') ∧
      output = system.output
  else output = (writeLines config.compare config.unique none lines).2

/-- A call of `fillbuf` with the parameters of the run. -/
def Fill (buffer : Buffer) (input : Word)
    (ending : Ending (Buffer × Word) (Buffer × Word)) : Prop :=
  Fillbuf config.bytesPerLine config.eolchar config.x2nrealloc buffer input
    ending

/-- There is more input and buffer room. -/
def concatenates (buffer : Buffer) (files : List Word) : Bool :=
  buffer.eof && !files.isEmpty &&
    decide (config.bytesPerLine + 1 < buffer.avail config.bytesPerLine)

/-- The buffer has all of the input. -/
def direct (buffer : Buffer) (files : List Word) (temps : List (List Word)) :
    Bool :=
  buffer.eof && files.isEmpty && temps.isEmpty && buffer.left == 0

/-- A step of the loop of `sort`: the next file, more text behind what the
buffer holds, or a temporary file. -/
inductive SortStep : Sorting → Sorting → Prop where
  | nextFile {buffer buffer' : Buffer} {input input' file : Word}
      {files : List Word} {temps : List (List Word)}
      (fill : Fill config buffer input (.exited (buffer', input'))) :
      SortStep ⟨buffer, input, file :: files, temps⟩
        ⟨{ buffer' with eof := false }, file, files, temps⟩
  | concatenate {buffer buffer' : Buffer} {input input' file : Word}
      {files : List Word} {temps : List (List Word)}
      (fill : Fill config buffer input (.left (buffer', input')))
      (room : concatenates config buffer' (file :: files) = true) :
      SortStep ⟨buffer, input, file :: files, temps⟩
        ⟨{ buffer' with left := buffer'.used, eof := false }, file, files,
          temps⟩
  | temp {buffer buffer' : Buffer} {input input' : Word} {files : List Word}
      {temps : List (List Word)} {output : List Word}
      (fill : Fill config buffer input (.left (buffer', input')))
      (full : concatenates config buffer' files = false)
      (more : direct buffer' files temps = false)
      (sorts : SortsBuffer config buffer'.lines output) :
      SortStep ⟨buffer, input, files, temps⟩
        ⟨buffer', input', files, temps ++ [output]⟩

/-- The output file is written. -/
inductive SortEnds : Sorting → List Word → Prop where
  | direct {buffer buffer' : Buffer} {input input' : Word} {files : List Word}
      {temps : List (List Word)} {output : List Word}
      (fill : Fill config buffer input (.left (buffer', input')))
      (full : concatenates config buffer' files = false)
      (isDirect : direct buffer' files temps = true)
      (sorts : SortsBuffer config buffer'.lines output) :
      SortEnds ⟨buffer, input, files, temps⟩ output
  | merge {buffer : Buffer} {input : Word} {state : Buffer × Word}
      {temps files : List (List Word)} {output : List Word}
      (fill : Fill config buffer input (.exited state))
      (passes : Relation.ReflTransGen
        (MergeStep config.compare config.unique config.nmerge) temps files)
      (few : files.length ≤ config.nmerge)
      (merges : Merges config.compare config.unique files output) :
      SortEnds ⟨buffer, input, [], temps⟩ output

/-- With the first file opened, and a buffer of some size. -/
def startSort (alloc : Nat) (file : Word) (files : List Word) : Sorting :=
  ⟨initbuf alloc, file, files, []⟩

end

/-! ## What is to come out -/

section

variable {config : Config} {sorting sorting' : Sorting}

/-- What the configuration has to be for the files to be sorted. -/
structure Config.Sound (config : Config) : Prop where
  comparison : Comparison config.compare
  several : 2 ≤ config.nmerge
  grows : ∀ n, n < config.x2nrealloc n

/-- The threads put out the lines of a buffer in order, whatever their
schedule. -/
theorem sortsBuffer_iff (comparison : Comparison config.compare)
    (lines output : List Word) :
    SortsBuffer config lines output ↔
      output = sortedLines config.compare config.unique lines := by
  rw [SortsBuffer]
  split
  next several =>
    have nonempty : lines ≠ [] := by
      rintro rfl
      cases several
    constructor
    · rintro ⟨creates, system, reached, stuck, rfl⟩
      exact (sortlines_stuck comparison creates _ nonempty reached stuck).2
    · intro sorted
      obtain ⟨system, reached, stuck⟩ := exists_stuck
        (sortlines_acc comparison config.unique lines.length (fun _ => true)
          config.nthreads nonempty)
      exact ⟨fun _ => true, system, reached, stuck, sorted.trans
        (sortlines_stuck comparison _ _ nonempty reached stuck).2.symm⟩
  next few =>
    have same : lines.mergeSort (precedes config.compare) = lines := by
      match lines, few with
      | [], _ => simp
      | [line], _ => simp
      | _ :: _ :: _, few => simp at few
    rw [← writeLines_sorted comparison, same]

/-- All that is still to be read. -/
def Sorting.lines (config : Config) (sorting : Sorting) : List Word :=
  pending config.eolchar sorting.buffer.carry sorting.input ++
    (sorting.files.map (linesOf config.eolchar)).flatten

/-- What holds between two calls of `fillbuf`, of a run that is given the lines
`whole`. -/
structure Sorting.Valid (config : Config) (whole : List Word)
    (sorting : Sorting) : Prop where
  ready : sorting.buffer.Ready config.bytesPerLine config.eolchar
  exhausted : sorting.buffer.eof = true →
    pending config.eolchar sorting.buffer.carry sorting.input = []
  temps : ∀ temp ∈ sorting.temps, Sorted (precedes config.compare) temp
  same : sortedLines config.compare config.unique
      (sorting.temps.flatten ++ sorting.lines config) =
    sortedLines config.compare config.unique whole

theorem carry_left {lineBytes : Nat} {eol : Char} {buffer : Buffer}
    (ready : buffer.Ready lineBytes eol) :
    buffer.carry.left = buffer.carry.used := by
  obtain ⟨-, kept⟩ := ready
  rw [Buffer.carry]
  split
  next moved =>
    simp only [Buffer.used, List.length_drop] at moved kept ⊢
    omega
  next same => exact (not_not.mp same).symm

/-- Nothing is pending when nothing is there. -/
theorem pending_eq_nil {eol : Char} {buffer : Buffer} {input : Word}
    (nothing : pending eol buffer input = []) :
    buffer.lines = [] ∧ buffer.unfinished = [] ∧ input = [] := by
  obtain ⟨noLines, noRest⟩ := List.append_eq_nil_iff.mp nothing
  refine ⟨noLines, List.append_eq_nil_iff.mp ?_⟩
  by_contra some
  exact linesOf_ne_nil some noRest

/-- The lines of a buffer that is filled on. -/
theorem pending_kept {eol : Char} {buffer : Buffer}
    (unfinished : buffer.unfinished = []) (file : Word) :
    pending eol
        (Buffer.carry { buffer with left := buffer.used, eof := false }) file =
      buffer.lines ++ linesOf eol file := by
  have carried :
      Buffer.carry { buffer with left := buffer.used, eof := false } =
        { buffer with left := buffer.used, eof := false } :=
    if_neg (not_not.mpr rfl)
  rw [carried, pending]
  exact congrArg (fun text => buffer.lines ++ linesOf eol (text ++ file))
    unfinished

/-- The buffer can be used for the next file. -/
structure Emptied (config : Config) (buffer : Buffer) : Prop where
  ready : Buffer.Ready config.bytesPerLine config.eolchar
    { buffer with eof := false }
  pending : ∀ file, pending config.eolchar
    (Buffer.carry { buffer with eof := false }) file =
      linesOf config.eolchar file

/-- A call that finds nothing left leaves the buffer empty. -/
theorem emptied_of_pending {buffer : Buffer} {input : Word}
    (ready : buffer.Ready config.bytesPerLine config.eolchar)
    (nothing : pending config.eolchar buffer.carry input = []) :
    Emptied config buffer := by
  obtain ⟨noLines, noText, -⟩ := pending_eq_nil nothing
  have carried : Buffer.carry { buffer with eof := false } =
      { buffer.carry with eof := false } := by
    by_cases moved : buffer.used ≠ buffer.left
    · rw [Buffer.carry, Buffer.carry, if_pos moved]
      exact if_pos moved
    · rw [Buffer.carry, Buffer.carry, if_neg moved]
      exact if_neg moved
  refine ⟨⟨⟨ready.valid.starts, ready.valid.clean, ready.valid.room⟩,
    ready.kept⟩, fun file => ?_⟩
  rw [carried, pending, noLines, List.nil_append]
  exact congrArg (linesOf config.eolchar) (congrArg (· ++ file) noText)

/-- The end of the file is reported only when nothing is left. -/
theorem emptied_of_over {buffer buffer' : Buffer} {input input' : Word}
    (ready : buffer.Ready config.bytesPerLine config.eolchar)
    (fills : Fills config.bytesPerLine config.eolchar buffer.carry input false
      buffer' input') :
    pending config.eolchar buffer.carry input = [] ∧ Emptied config buffer' := by
  obtain ⟨isOver, noText, left⟩ := fills.exhausted rfl
  obtain ⟨unfinished, noInput⟩ := fills.eof isOver
  have noLines := fills.lines.mpr rfl
  have nothing : pending config.eolchar buffer.carry input = [] := by
    rw [← fills.pending, pending, noLines, unfinished, noInput]
    rfl
  have used : buffer.carry.used = 0 := by
    obtain ⟨noLines, noText, -⟩ := pending_eq_nil nothing
    have length := unfinished_length (carry_valid ready).starts
    rw [noText, Buffer.lineStart, noLines] at length
    exact length.symm
  have empty : buffer'.left = buffer'.used := by
    rw [left, carry_left ready, used, Buffer.used, noText, List.length_nil]
  have carried : pending config.eolchar buffer'.carry [] = [] := by
    rw [Buffer.carry, if_neg (not_not.mpr empty.symm), pending, noLines,
      unfinished]
    rfl
  exact ⟨nothing, emptied_of_pending ⟨fills.valid, .inr empty⟩ carried⟩

/-- A call of `fillbuf`. -/
def Filled (config : Config) (buffer : Buffer) (input : Word) :
    Ending (Buffer × Word) (Buffer × Word) → Prop
  | .left (buffer', input') =>
      Fills config.bytesPerLine config.eolchar buffer.carry input true buffer'
        input'
  | .exited (buffer', _) =>
      pending config.eolchar buffer.carry input = [] ∧ Emptied config buffer'

/-- Every call of `fillbuf` comes to an end. -/
theorem fill_filled (sound : config.Sound) {buffer : Buffer} {input : Word}
    (ready : buffer.Ready config.bytesPerLine config.eolchar)
    (exhausted : buffer.eof = true →
      pending config.eolchar buffer.carry input = []) :
    ∃ ending, Fill config buffer input ending ∧
      Filled config buffer input ending := by
  by_cases isOver : buffer.eof = true
  · refine ⟨.exited (buffer, input), ?_, exhausted isOver,
      emptied_of_pending ready (exhausted isOver)⟩
    rw [Fill, Fillbuf, if_pos isOver]
  · obtain ⟨ending, fill, fills⟩ := fillbuf_fills sound.grows input ready
      (Bool.eq_false_iff.mpr isOver)
    cases ending with
    | left filled => exact ⟨_, fill, fills⟩
    | exited emptied => exact ⟨_, fill, emptied_of_over ready fills⟩

/-- It comes to only one. -/
theorem filled_of_fill (sound : config.Sound) {buffer : Buffer} {input : Word}
    (ready : buffer.Ready config.bytesPerLine config.eolchar)
    (exhausted : buffer.eof = true →
      pending config.eolchar buffer.carry input = [])
    {ending : Ending (Buffer × Word) (Buffer × Word)}
    (fill : Fill config buffer input ending) :
    Filled config buffer input ending := by
  obtain ⟨ending', fill', filled⟩ := fill_filled sound ready exhausted
  rwa [Fillbuf.unique fill fill']

/-! ## Every run -/

/-- A step keeps the lines of the run. -/
theorem SortStep.valid (sound : config.Sound) {whole : List Word}
    (step : SortStep config sorting sorting')
    (valid : sorting.Valid config whole) : sorting'.Valid config whole := by
  obtain ⟨ready, exhausted, temps, same⟩ := valid
  cases step with
  | nextFile fill =>
      obtain ⟨isNil, emptied⟩ := filled_of_fill sound ready exhausted fill
      refine ⟨emptied.ready, fun isOver => absurd isOver Bool.false_ne_true,
        temps, ?_⟩
      rw [← same, Sorting.lines, Sorting.lines, emptied.pending, isNil]
      rfl
  | concatenate fill room =>
      have fills : Fills _ _ _ _ _ _ _ := filled_of_fill sound ready exhausted fill
      rw [concatenates, Bool.and_assoc, Bool.and_eq_true] at room
      obtain ⟨unfinished, noInput⟩ := fills.eof room.1
      refine ⟨⟨⟨fills.valid.starts, fills.valid.clean, fills.valid.room⟩,
        .inr rfl⟩, fun isOver => absurd isOver Bool.false_ne_true, temps, ?_⟩
      rw [← same, Sorting.lines, Sorting.lines, ← fills.pending,
        pending_kept unfinished, pending, noInput, unfinished]
      have nothing : linesOf config.eolchar ([] ++ []) = [] := rfl
      rw [nothing, List.append_nil, List.map_cons, List.flatten_cons,
        List.append_assoc]
  | temp fill full more sorts =>
      have fills : Fills _ _ _ _ _ _ _ := filled_of_fill sound ready exhausted fill
      have lines := mt fills.lines.mp (by decide)
      obtain ⟨spent, carried⟩ :=
        carry_of_lines fills.valid.starts lines (fills.left rfl)
      obtain rfl := (sortsBuffer_iff sound.comparison _ _).mp sorts
      refine ⟨⟨fills.valid, .inl (fills.left rfl)⟩, fun isOver => ?_, ?_, ?_⟩
      · obtain ⟨unfinished, noInput⟩ := fills.eof isOver
        rw [pending, spent, carried, unfinished, noInput]
        rfl
      · intro temp inside
        rcases List.mem_append.mp inside with inside | inside
        · exact temps temp inside
        · rw [List.mem_singleton.mp inside]
          exact sorted_sortedLines sound.comparison _
      · rw [← same, Sorting.lines, Sorting.lines, ← fills.pending, pending,
          pending, spent, carried, List.nil_append, List.flatten_append,
          List.append_assoc, List.append_assoc]
        simp only [List.flatten_cons, List.flatten_nil, List.append_nil]
        exact sortedLines_window sound.comparison _ _ _

/-- Lines and files that are still to come. -/
def Sorting.measure (config : Config) (sorting : Sorting) : Nat :=
  (sorting.lines config).length + sorting.files.length

/-- A step leaves less to do. -/
theorem SortStep.lowers (sound : config.Sound) {whole : List Word}
    (step : SortStep config sorting sorting')
    (valid : sorting.Valid config whole) :
    sorting'.measure config < sorting.measure config := by
  obtain ⟨ready, exhausted, temps, same⟩ := valid
  cases step with
  | nextFile fill =>
      obtain ⟨nothing, emptied⟩ := filled_of_fill sound ready exhausted fill
      simp only [Sorting.measure, Sorting.lines, emptied.pending, nothing,
        List.map_cons, List.flatten_cons, List.nil_append, List.length_cons]
      omega
  | concatenate fill room =>
      have fills : Fills _ _ _ _ _ _ _ := filled_of_fill sound ready exhausted fill
      rw [concatenates, Bool.and_assoc, Bool.and_eq_true] at room
      obtain ⟨unfinished, noInput⟩ := fills.eof room.1
      have pendingLines := fills.pending
      rw [pending, unfinished, noInput] at pendingLines
      simp only [Sorting.measure, Sorting.lines, pending_kept unfinished,
        ← pendingLines, List.map_cons, List.flatten_cons, List.length_append,
        List.length_cons]
      omega
  | temp fill full more sorts =>
      have fills : Fills _ _ _ _ _ _ _ := filled_of_fill sound ready exhausted fill
      have lines := mt fills.lines.mp (by decide)
      obtain ⟨spent, carried⟩ :=
        carry_of_lines fills.valid.starts lines (fills.left rfl)
      have positive := List.length_pos_iff.mpr lines
      have pendingLines := congrArg List.length fills.pending
      rw [pending, List.length_append] at pendingLines
      dsimp only at pendingLines
      simp only [Sorting.measure, Sorting.lines, List.length_append]
      rw [pending, spent, carried, List.nil_append]
      omega

/-- The first state has all lines before it. -/
theorem start_valid (alloc : Nat) (file : Word) (files : List Word) :
    (startSort alloc file files).Valid config
      ((file :: files).map (linesOf config.eolchar)).flatten :=
  ⟨initbuf_ready _ _ alloc, nofun, fun _ inside => (nomatch inside), rfl⟩

/-- Every state of a run has its lines. -/
theorem reached_valid (sound : config.Sound) {alloc : Nat} {file : Word}
    {files : List Word}
    (reached : Relation.ReflTransGen (SortStep config)
      (startSort alloc file files) sorting) :
    sorting.Valid config
      ((file :: files).map (linesOf config.eolchar)).flatten := by
  induction reached with
  | refl => exact start_valid alloc file files
  | tail _ step inductionHypothesis => exact step.valid sound inductionHypothesis

/-- No run goes on for ever. -/
theorem Sorting.Valid.terminates (sound : config.Sound) {whole : List Word}
    (valid : sorting.Valid config whole) :
    Acc (fun sorting' sorting => SortStep config sorting sorting') sorting := by
  induction bound : sorting.measure config using Nat.strong_induction_on
    generalizing sorting with
  | _ bound inductionHypothesis =>
      exact ⟨_, fun sorting' step => inductionHypothesis _
        (bound ▸ step.lowers sound valid) (step.valid sound valid) rfl⟩

/-- As long as there is no output there is something to do. -/
theorem sort_progress (sound : config.Sound) {whole : List Word}
    (valid : sorting.Valid config whole) :
    (∃ sorting', SortStep config sorting sorting') ∨
      ∃ output, SortEnds config sorting output := by
  obtain ⟨buffer, input, files, temps⟩ := sorting
  obtain ⟨ending, fill, -⟩ := fill_filled sound valid.ready valid.exhausted
  match ending, files with
  | .left (buffer', input'), files =>
      have sorts := (sortsBuffer_iff sound.comparison buffer'.lines _).mpr rfl
      cases room : concatenates config buffer' files with
      | true =>
          match files with
          | [] => simp [concatenates] at room
          | file :: files => exact .inl ⟨_, .concatenate fill room⟩
      | false =>
          cases isDirect : direct buffer' files temps with
          | true => exact .inr ⟨_, .direct fill room isDirect sorts⟩
          | false => exact .inl ⟨_, .temp fill room isDirect sorts⟩
  | .exited state, file :: files => exact .inl ⟨_, .nextFile fill⟩
  | .exited state, [] =>
      obtain ⟨files, passes, stuck⟩ := exists_stuck
        (mergePasses_terminate sound.comparison config.unique sound.several
          valid.temps)
      have stands := mergePasses_stand sound.comparison sound.several
        valid.temps passes
      have few : files.length ≤ config.nmerge :=
        Nat.not_lt.mp fun many => by
          obtain ⟨next, step⟩ := mergeStep_exists sound.comparison
            sound.several many stands.sorted
          exact stuck next step
      exact .inr ⟨_, .merge fill passes few
        ((stands.merges_iff sound.comparison _).mpr rfl)⟩

/-- Every run comes to an output. -/
theorem exists_output (sound : config.Sound) (alloc : Nat) (file : Word)
    (files : List Word) :
    ∃ sorting output, Relation.ReflTransGen (SortStep config)
        (startSort alloc file files) sorting ∧
      SortEnds config sorting output := by
  obtain ⟨sorting, reached, stuck⟩ := exists_stuck
    ((start_valid alloc file files).terminates sound)
  rcases sort_progress sound (reached_valid sound reached) with
    ⟨sorting', step⟩ | ⟨output, ends⟩
  · exact absurd step (stuck sorting')
  · exact ⟨sorting, output, reached, ends⟩

/-- The output is the sort of the lines. -/
theorem SortEnds.output (sound : config.Sound) {whole output : List Word}
    (ends : SortEnds config sorting output)
    (valid : sorting.Valid config whole) :
    output = sortedLines config.compare config.unique whole := by
  obtain ⟨ready, exhausted, temps, same⟩ := valid
  cases ends with
  | direct fill full isAll sorts =>
      have fills : Fills _ _ _ _ _ _ _ := filled_of_fill sound ready exhausted fill
      simp only [SortFiles.direct, Bool.and_eq_true, List.isEmpty_iff] at isAll
      obtain ⟨⟨⟨isOver, noFiles⟩, noTemps⟩, -⟩ := isAll
      subst noFiles noTemps
      obtain ⟨unfinished, noInput⟩ := fills.eof isOver
      rw [(sortsBuffer_iff sound.comparison _ _).mp sorts, ← same,
        Sorting.lines, ← fills.pending, pending, unfinished, noInput]
      simp [linesOf_of_notMem, lastLine]
  | merge fill passes few merges =>
      obtain ⟨nothing, -⟩ := filled_of_fill sound ready exhausted fill
      have stands := mergePasses_stand sound.comparison sound.several temps
        passes
      rw [(stands.merges_iff sound.comparison _).mp merges, ← same,
        Sorting.lines, nothing]
      simp

end

/-- Two threads, and lines that are compared by their lengths. -/
def twoThreads : Config where
  compare first second := (first.length : Int) - second.length
  unique := true
  eolchar := '\n'
  nthreads := 2
  nmerge := 16
  bytesPerLine := 48
  x2nrealloc n := n + n / 2 + 1

theorem twoThreads_sound : twoThreads.Sound :=
  ⟨comparison_sub.comap fun line : Word => (line.length : Int), by decide,
    fun n => by simp only [twoThreads]; omega⟩

/-- A file of as many lines as two threads sort. -/
def manyLines : Word :=
  written '\n' (List.replicate subthreadLines ['b'])

theorem linesOf_manyLines :
    linesOf '\n' manyLines = List.replicate subthreadLines ['b'] := by
  refine linesOf_written fun line inside => ?_
  rw [List.eq_of_mem_replicate inside]
  decide

end Lmcas.SortFiles
