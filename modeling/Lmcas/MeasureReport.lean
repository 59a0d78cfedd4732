import Lmcas.Measure

/-!
# The report that a benchmark looks for

The `measure` branch that every `run.py` has.  A program is run under
`/usr/bin/time -v`, which writes its report to the standard error behind what
the program has written there.  The driver hands one of the two streams on,
and the entries are looked for at fixed lines of it.
-/

namespace Lmcas.MeasureReport

open Lmcas.Lib.CString
open Lmcas.Lib.PyString
open Lmcas.Measure

/-! ## GNU time -/

/-- How a program ends. -/
inductive Ending where
  | exited (status : Nat)
  | killed (signal : Nat)
deriving DecidableEq, Repr

/-- A program run under `time`: its command line, what it writes and how it
ends. -/
structure Run where
  command : Word
  stdout : Word
  stderr : Word
  ending : Ending

/-- The resources that a program has used.  Times are in centiseconds; there
is no percentage if no time has elapsed. -/
structure Usage where
  user : Nat
  system : Nat
  percent : Option Nat
  elapsed : Nat
  sharedText : Nat
  unsharedData : Nat
  stack : Nat
  total : Nat
  maximumResident : Nat
  averageResident : Nat
  majorFaults : Nat
  minorFaults : Nat
  voluntarySwitches : Nat
  involuntarySwitches : Nat
  swaps : Nat
  inputs : Nat
  outputs : Nat
  sent : Nat
  received : Nat
  signals : Nat
  pageSize : Nat
  exitStatus : Nat

/-- A number as `printf` prints it. -/
def number (value : Nat) : Word := Nat.toDigits 10 value

/-- A duration as the report prints it below the first lines: seconds and
hundredths. -/
def secondsText (centiseconds : Nat) : Word :=
  number (centiseconds / 100) ++ '.' :: twoDigits (centiseconds % 100)

/-- The share of the processor, or `?%` where no time has passed. -/
def percentText : Option Nat → Word
  | some percent => number percent ++ ['%']
  | none => ['?', '%']

/-- A line of the report: what it is about, and the value. -/
def reportLine (label value : Word) : Word :=
  label ++ ':' :: ' ' :: value

/-- What stands before the size in a report. -/
def residentLabel : Word :=
  "\tMaximum resident set size (kbytes)".toList

/-- The format of `time -v`, without the values. -/
def labels : List Word :=
  ["\tCommand being timed".toList,
    "\tUser time (seconds)".toList,
    "\tSystem time (seconds)".toList,
    "\tPercent of CPU this job got".toList,
    elapsedLabel,
    "\tAverage shared text size (kbytes)".toList,
    "\tAverage unshared data size (kbytes)".toList,
    "\tAverage stack size (kbytes)".toList,
    "\tAverage total size (kbytes)".toList,
    residentLabel,
    "\tAverage resident set size (kbytes)".toList,
    "\tMajor (requiring I/O) page faults".toList,
    "\tMinor (reclaiming a frame) page faults".toList,
    "\tVoluntary context switches".toList,
    "\tInvoluntary context switches".toList,
    "\tSwaps".toList,
    "\tFile system inputs".toList,
    "\tFile system outputs".toList,
    "\tSocket messages sent".toList,
    "\tSocket messages received".toList,
    "\tSignals delivered".toList,
    "\tPage size (bytes)".toList,
    "\tExit status".toList]

/-- The values, in the order of the labels. -/
def values (command : Word) (usage : Usage) : List Word :=
  ['"' :: (command ++ ['"']),
    secondsText usage.user,
    secondsText usage.system,
    percentText usage.percent,
    elapsedText usage.elapsed,
    number usage.sharedText,
    number usage.unsharedData,
    number usage.stack,
    number usage.total,
    number usage.maximumResident,
    number usage.averageResident,
    number usage.majorFaults,
    number usage.minorFaults,
    number usage.voluntarySwitches,
    number usage.involuntarySwitches,
    number usage.swaps,
    number usage.inputs,
    number usage.outputs,
    number usage.sent,
    number usage.received,
    number usage.signals,
    number usage.pageSize,
    number usage.exitStatus]

/-- The report of GNU `time -v`, line by line. -/
def reportLines (command : Word) (usage : Usage) : List Word :=
  List.zipWith reportLine labels (values command usage)

/-- Lines, each with its newline. -/
def unlines (lines : List Word) : Word :=
  lines.flatMap (· ++ ['\n'])

/-- The line in front of the report if the program has failed. -/
def statusLines : Ending → List Word
  | .exited 0 => []
  | .exited status =>
      ["Command exited with non-zero status ".toList ++ number status]
  | .killed signal =>
      ["Command terminated by signal ".toList ++ number signal]

/-- What comes back from the shell, standard output and standard error. -/
structure Streams where
  stdout : Word
  stderr : Word

/-- `/usr/bin/time -v`. -/
def timed (run : Run) (usage : Usage) : Streams where
  stdout := run.stdout
  stderr := run.stderr ++
    unlines (statusLines run.ending ++ reportLines run.command usage)

/-! ## The drivers -/

/-- `execute`. -/
def execute (streams : Streams) : Word := streams.stdout

/-- `execute_err`. -/
def executeErr (streams : Streams) : Word := streams.stderr

/-- The directories with a `run.py`. -/
inductive Driver where
  | basename | basenc | comm | curl | date | du | echo | fmt | head | id
  | knockd | objdump | readelf | sort | uniq | wc | wget
deriving DecidableEq, Repr

/-- The stream that the `measure` branch takes, for the original and for the
debloated program. -/
def Driver.capture : Driver → Streams → Word
  | .basename => executeErr
  | .basenc => executeErr
  | .comm => executeErr
  | .curl => executeErr
  | .date => executeErr
  | .du => executeErr
  | .echo => executeErr
  | .fmt => executeErr
  | .head => execute
  | .id => executeErr
  | .knockd => executeErr
  | .objdump => execute
  | .readelf => execute
  | .sort => executeErr
  | .uniq => executeErr
  | .wc => executeErr
  | .wget => executeErr

/-- The lines that `measure` takes the entries from. -/
def Driver.lines (driver : Driver) (run : Run) (usage : Usage) : List Word :=
  (driver.capture (timed run usage)).splitOn '\n'

section

-- The digits beyond ASCII that `int` knows.
variable (unicodeDecimal : Char → Option Nat)

/-- The values found are those of the entries of the report. -/
def ReadsReport (driver : Driver) (run : Run) : Prop :=
  ∀ usage : Usage,
    getTime unicodeDecimal (driver.lines run usage) =
        toSeconds unicodeDecimal
          (replacePoint (elapsedText usage.elapsed)) ∧
      getMem unicodeDecimal (driver.lines run usage) =
        .ok (usage.maximumResident : Int)

/-! ## Reading the entries -/

/-- `get_mem` reads the size of its line. -/
theorem getMem_resident {s : List Word} {size : Nat}
    (line : s[9]? = some (reportLine residentLabel (number size))) :
    getMem unicodeDecimal s = .ok (size : Int) := by
  have label : residentLabel =
      "\tMaximum resident set size (kbytes".toList ++ [')'] := rfl
  have text : entry (reportLine residentLabel (number size)) =
      .ok (number size) := by
    rw [reportLine, label, List.append_assoc]
    refine entry_append (by decide) ?_ ?_
    · exact not_mem_of_isDigit rfl fun _ => isDigit_of_mem_toDigits
    · exact fun _ member => isSpace_of_isDigit (isDigit_of_mem_toDigits member)
  rw [getMem, index_eq_ok.mpr line]
  simp only [bind, Except.bind, text]
  exact int_toDigits unicodeDecimal size

/-! ## The lines of a report -/

theorem not_mem_number {value : Nat} : '\n' ∉ number value :=
  not_mem_of_isDigit rfl fun _ => isDigit_of_mem_toDigits

theorem not_mem_secondsText {centiseconds : Nat} :
    '\n' ∉ secondsText centiseconds := by
  have bound : centiseconds % 100 < 100 := by omega
  have noFraction : '\n' ∉ twoDigits (centiseconds % 100) :=
    not_mem_of_isDigit rfl fun _ => isDigit_of_mem_twoDigits bound
  simp [secondsText, not_mem_number, noFraction]

theorem not_mem_percentText {percent : Option Nat} :
    '\n' ∉ percentText percent := by
  cases percent with
  | none => decide
  | some percent => simp [percentText, not_mem_number]

theorem not_mem_elapsedText {centiseconds : Nat} :
    '\n' ∉ elapsedText centiseconds := fun member =>
  absurd (of_mem_elapsedText member).2 (by decide)

/-- Only the command can bring a newline into a report. -/
theorem not_mem_reportLines {command : Word} (usage : Usage)
    (noNewline : '\n' ∉ command) :
    ∀ line ∈ reportLines command usage, '\n' ∉ line := by
  have inLabels : ∀ label ∈ labels, '\n' ∉ label := by decide +kernel
  have inValues : ∀ value ∈ values command usage, '\n' ∉ value := by
    simp [values, noNewline, not_mem_number, not_mem_secondsText,
      not_mem_percentText, not_mem_elapsedText]
  intro line member
  rw [reportLines, ← List.map_uncurry_zip_eq_zipWith] at member
  rcases List.mem_map.mp member with ⟨⟨label, value⟩, inZip, rfl⟩
  have noLabel := inLabels label (List.of_mem_zip inZip).1
  have noValue := inValues value (List.of_mem_zip inZip).2
  simp [reportLine, noLabel, noValue]

/-! ## Where the entries are -/

/-- Text without a newline goes to the front of the first line. -/
theorem append_unlines {front : Word} {lines : List Word} (nonempty : lines ≠ []) :
    front ++ unlines lines = unlines (lines.modifyHead (front ++ ·)) := by
  cases lines with
  | nil => contradiction
  | cons line lines => simp [unlines]

/-- A program that writes no newline and succeeds leaves the report at the
beginning of the standard error. -/
theorem lines_of_quiet {run : Run} (usage : Usage)
    (succeeds : run.ending = .exited 0) (noNewline : '\n' ∉ run.stderr)
    (oneLine : '\n' ∉ run.command) :
    (timed run usage).stderr.splitOn '\n' =
      (reportLines run.command usage).modifyHead (run.stderr ++ ·) ++
        [[]] := by
  have glued : (timed run usage).stderr =
      unlines
        ((reportLines run.command usage).modifyHead (run.stderr ++ ·)) := by
    rw [timed, succeeds]
    exact append_unlines (List.cons_ne_nil _ _)
  have noneInside : ∀ line ∈
      (reportLines run.command usage).modifyHead (run.stderr ++ ·),
      '\n' ∉ line := by
    have inReport := not_mem_reportLines usage oneLine
    intro line member
    rcases List.mem_cons.mp member with rfl | behind
    · simp only [List.mem_append, not_or]
      exact ⟨noNewline, inReport _ List.mem_cons_self⟩
    · exact inReport line (List.mem_cons_of_mem _ behind)
  rw [glued, unlines, splitOn_flatMap noneInside]

/-- Lines end in as many newlines, besides those inside them. -/
theorem count_unlines (lines : List Word) :
    (unlines lines).count '\n' = lines.length + lines.flatten.count '\n' := by
  induction lines with
  | nil => rfl
  | cons line lines ih =>
      simp only [unlines, List.flatMap_cons, List.count_append,
        List.flatten_cons, List.length_cons] at ih ⊢
      rw [ih, show List.count '\n' ['\n'] = 1 from rfl]
      omega

/-- What stands in front of the elapsed time. -/
def leading (run : Run) (usage : Usage) : Word :=
  run.stderr ++ (unlines (statusLines run.ending) ++
    unlines ((reportLines run.command usage).take 4))

/-- The program has written a newline, has failed, or has a newline in its
command line. -/
def Shifted (run : Run) : Prop :=
  '\n' ∈ run.stderr ∨ run.ending ≠ .exited 0 ∨ '\n' ∈ run.command

/-- A run that is shifted has more than four newlines before the fifth line. -/
theorem count_leading {run : Run} (shifted : Shifted run) (usage : Usage) :
    4 < (leading run usage).count '\n' := by
  have fourLines : ((reportLines run.command usage).take 4).length = 4 := rfl
  rw [leading, List.count_append, List.count_append, count_unlines,
    count_unlines, fourLines]
  rcases shifted with inStderr | failed | inCommand
  · have counted := List.count_pos_iff.mpr inStderr
    omega
  · have counted : 0 < (statusLines run.ending).length := by
      unfold statusLines
      split
      · contradiction
      · exact Nat.zero_lt_one
      · exact Nat.zero_lt_one
    omega
  · have inReport : '\n' ∈ ((reportLines run.command usage).take 4).flatten := by
      simp [reportLines, labels, values, reportLine, inCommand]
    have counted := List.count_pos_iff.mpr inReport
    omega

/-- The time itself has no influence on the lines in front of it. -/
theorem leading_elapsed (run : Run) (usage : Usage) (centiseconds : Nat) :
    leading run { usage with elapsed := centiseconds } = leading run usage :=
  rfl

/-- What stands on the standard error before the fifth line of the report, and
the rest. -/
theorem stderr_eq_leading (run : Run) (usage : Usage) :
    (timed run usage).stderr =
      leading run usage ++
        unlines ((reportLines run.command usage).drop 4) := by
  have halves :
      unlines (reportLines run.command usage) =
        unlines ((reportLines run.command usage).take 4) ++
          unlines ((reportLines run.command usage).drop 4) := by
    rw [unlines, unlines, unlines, ← List.flatMap_append,
      List.take_append_drop]
  have joined : unlines
      (statusLines run.ending ++ reportLines run.command usage) =
        unlines (statusLines run.ending) ++
          unlines (reportLines run.command usage) :=
    List.flatMap_append
  simp only [timed, leading, joined, halves, List.append_assoc]

/-- Line 4 is the same for all times. -/
theorem line_of_shifted {run : Run} (shifted : Shifted run) (usage : Usage)
    (centiseconds : Nat) :
    ((timed run { usage with elapsed := centiseconds }).stderr.splitOn
        '\n')[4]? =
      ((timed run usage).stderr.splitOn '\n')[4]? := by
  rw [stderr_eq_leading, stderr_eq_leading,
    getElem?_splitOn_append (count_leading shifted _),
    getElem?_splitOn_append (count_leading shifted _), leading_elapsed]

/-! ## When the entries are found -/

/-- A program that uses nothing. -/
def unused : Usage :=
  ⟨0, 0, none, 0, 0, 0, 0, 0, 0, 0, 0, 0, 0, 0, 0, 0, 0, 0, 0, 0, 0, 0⟩

/-- `get_time` depends on the fifth line. -/
theorem getTime_congr {s s' : List Word} (same : s[4]? = s'[4]?) :
    getTime unicodeDecimal s = getTime unicodeDecimal s' := by
  rw [getTime, getTime, index, index, same]

/-- Where line 4 is the same for all times, it is not the entry. -/
theorem not_readsReport {driver : Driver} {run : Run}
    (same : ∀ centiseconds,
      (driver.lines run { unused with elapsed := centiseconds })[4]? =
        (driver.lines run unused)[4]?) :
    ¬ ReadsReport unicodeDecimal driver run := by
  intro reads
  have atZero := (reads unused).1
  have atSecond := (reads { unused with elapsed := 100 }).1
  rw [toSeconds_elapsedText] at atZero atSecond
  rw [getTime_congr unicodeDecimal (same 100), atZero] at atSecond
  exact absurd atSecond (by decide)

/-- The drivers that take the standard output. -/
def Driver.takesStdout (driver : Driver) : Prop :=
  driver = .head ∨ driver = .objdump ∨ driver = .readelf

/-- A driver that takes the standard output. -/
theorem capture_of_takesStdout {driver : Driver}
    (stdout : driver.takesStdout) :
    driver.capture = execute := by
  rcases stdout with rfl | rfl | rfl <;> rfl

/-- A driver that takes the standard error, where the report is. -/
theorem capture_of_not_takesStdout {driver : Driver}
    (stderr : ¬ driver.takesStdout) :
    driver.capture = executeErr := by
  cases driver <;> first | rfl | simp [Driver.takesStdout] at stderr

/--
The entries of every report are found if and only if the driver takes the
standard error and the program succeeds without a newline, neither in its
command line nor on its standard error.
-/
theorem readsReport_iff (driver : Driver) (run : Run) :
    ReadsReport unicodeDecimal driver run ↔
      driver ≠ .head ∧ driver ≠ .objdump ∧ driver ≠ .readelf ∧
        run.ending = .exited 0 ∧ '\n' ∉ run.stderr ∧
        '\n' ∉ run.command := by
  constructor
  · intro reads
    have stderr : ¬ driver.takesStdout := by
      intro stdout
      refine not_readsReport unicodeDecimal (fun centiseconds => ?_) reads
      simp only [Driver.lines, capture_of_takesStdout stdout]
      rfl
    have placed : ¬ Shifted run := by
      intro shifted
      refine not_readsReport unicodeDecimal (fun centiseconds => ?_) reads
      simp only [Driver.lines, capture_of_not_takesStdout stderr]
      exact line_of_shifted shifted unused centiseconds
    simp only [Driver.takesStdout, not_or] at stderr
    simp only [Shifted, not_or, ne_eq, not_not] at placed
    exact ⟨stderr.1, stderr.2.1, stderr.2.2, placed.2.1, placed.1,
      placed.2.2⟩
  · rintro ⟨notHead, notObjdump, notReadelf, succeeds, noNewline, oneLine⟩
    have stderr : ¬ driver.takesStdout := by
      simp [Driver.takesStdout, notHead, notObjdump, notReadelf]
    intro usage
    have lines : driver.lines run usage =
        (reportLines run.command usage).modifyHead (run.stderr ++ ·) ++
          [[]] := by
      simp only [Driver.lines, capture_of_not_takesStdout stderr]
      exact lines_of_quiet usage succeeds noNewline oneLine
    rw [lines]
    constructor
    · rw [toSeconds_elapsedText]
      exact getTime_elapsedLine unicodeDecimal rfl
    · exact getMem_resident unicodeDecimal rfl

end

/-- A run without a message. -/
def quiet (program : Word) (ending : Ending) : Run :=
  ⟨program, "3 test.txt\n".toList, [], ending⟩

/-- The driver of `head` looks at the standard output; the other drivers find
another line if the program fails. -/
theorem report_not_found :
    getTime asciiOnly
        (Driver.head.lines (quiet "head_orig".toList (.exited 0)) unused) =
      .error .indexError ∧
    getTime asciiOnly
        (Driver.wc.lines (quiet "wc_orig".toList (.exited 1)) unused) =
      .error .indexError ∧
    ¬ ReadsReport asciiOnly .head (quiet "head_orig".toList (.exited 0)) ∧
    ¬ ReadsReport asciiOnly .wc (quiet "wc_orig".toList (.exited 1)) := by
  have head : getTime asciiOnly
      (Driver.head.lines (quiet "head_orig".toList (.exited 0)) unused) =
        .error .indexError := by decide +kernel
  have wc : getTime asciiOnly
      (Driver.wc.lines (quiet "wc_orig".toList (.exited 1)) unused) =
        .error .indexError := by decide +kernel
  refine ⟨head, wc, ?_, ?_⟩
  · intro reads
    have found := (reads unused).1
    rw [head, toSeconds_elapsedText] at found
    contradiction
  · intro reads
    have found := (reads unused).1
    rw [wc, toSeconds_elapsedText] at found
    contradiction

end Lmcas.MeasureReport
