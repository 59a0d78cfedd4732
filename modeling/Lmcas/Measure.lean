import Lmcas.Lib.PyString
import Mathlib.Algebra.Order.Group.Int
import Mathlib.Algebra.Order.Ring.Int

/-!
# The times and sizes that a benchmark measures

`get_time` and `get_mem` of `benchmark.py`, which pick two lines of the report
of `/usr/bin/time -v` by their positions, and the two formats in which that
report has an elapsed time.
-/

namespace Lmcas.Measure

open Lmcas.Lib.CString
open Lmcas.Lib.PyString

section

-- The digits beyond ASCII that `int` knows.
variable (unicodeDecimal : Char → Option Nat)

/-! ## Reading a report -/

/-- The loop of `to_seconds`. -/
def foldSeconds (seconds : Int) : List Word → Except PyException Int
  | [] => .ok seconds
  | part :: parts => do
      let value ← int unicodeDecimal part
      foldSeconds (seconds * 60 + value) parts

/-- `to_seconds`: the parts at colons, each worth sixty of the next. -/
def toSeconds (timestr : Word) : Except PyException Int :=
  foldSeconds unicodeDecimal 0 (timestr.splitOn ':')

/-- `str.replace (".", ":")`. -/
def replacePoint (text : Word) : Word :=
  text.map fun char => if char = '.' then ':' else char

/-- `line.split ("):") [1].strip ()`. -/
def entry (line : Word) : Except PyException Word := do
  let part ← index (splitPair ')' ':' line) 1
  pure (strip part)

/-- `get_time`, which reads the fifth line of the report. -/
def getTime (s : List Word) : Except PyException Int := do
  let line ← index s 4
  let text ← entry line
  toSeconds unicodeDecimal (replacePoint text)

/-- `get_mem`, which reads the tenth line. -/
def getMem (s : List Word) : Except PyException Int := do
  let line ← index s 9
  let text ← entry line
  int unicodeDecimal text

/-! ## An elapsed time in a report -/

/-- `%02ld`, for a number below a hundred. -/
def twoDigits (number : Nat) : Word :=
  [Nat.digitChar (number / 10), Nat.digitChar (number % 10)]

/-- The format `%E`: hours, minutes and seconds from one hour on, otherwise
minutes, seconds and centiseconds. -/
def elapsedText (centiseconds : Nat) : Word :=
  let seconds := centiseconds / 100
  if 3600 ≤ seconds then
    Nat.toDigits 10 (seconds / 3600) ++
      ':' :: (twoDigits (seconds % 3600 / 60) ++
        ':' :: twoDigits (seconds % 60))
  else
    Nat.toDigits 10 (seconds / 60) ++
      ':' :: (twoDigits (seconds % 60) ++
        '.' :: twoDigits (centiseconds % 100))

/-- What stands before the elapsed time in a report. -/
def elapsedLabel : Word :=
  "\tElapsed (wall clock) time (h:mm:ss or m:ss)".toList

/-- The line of a report with the elapsed time. -/
def elapsedLine (centiseconds : Nat) : Word :=
  elapsedLabel ++ ':' :: ' ' :: elapsedText centiseconds

/-- The seconds that are read for an elapsed time.  Without hours, minutes are
taken for hours, seconds for minutes and centiseconds for seconds. -/
def secondsRead (centiseconds : Nat) : Nat :=
  if 360000 ≤ centiseconds then centiseconds / 100
  else 60 * (centiseconds / 100) + centiseconds % 100

/-! ## Digits -/

theorem isDigit_of_mem_toDigits {number : Nat} {char : Char}
    (member : char ∈ Nat.toDigits 10 number) :
    char.isDigit :=
  Nat.isDigit_of_mem_toDigits (by decide) (by decide) member

theorem isDigit_of_mem_twoDigits {number : Nat} (bound : number < 100)
    {char : Char} (member : char ∈ twoDigits number) :
    char.isDigit := by
  have high : number / 10 < 10 := by omega
  have low : number % 10 < 10 := by omega
  simp only [twoDigits, List.mem_cons, List.not_mem_nil, or_false] at member
  rcases member with rfl | rfl
  · simp [Nat.isDigit_digitChar, high]
  · simp [Nat.isDigit_digitChar, low]

/-- Two digits are read as their number. -/
theorem int_twoDigits {number : Nat} (bound : number < 100) :
    int unicodeDecimal (twoDigits number) = .ok (number : Int) := by
  have high : number / 10 < 10 := by omega
  have low : number % 10 < 10 := by omega
  have value : Nat.ofDigitChars 10 (twoDigits number) 0 = number := by
    rw [twoDigits, Nat.ofDigitChars_cons_digitChar_of_lt_ten high,
      Nat.ofDigitChars_cons_digitChar_of_lt_ten low, Nat.ofDigitChars_nil]
    omega
  have nonempty : twoDigits number ≠ [] := List.cons_ne_nil _ _
  rw [int_of_isDigit unicodeDecimal nonempty
    fun char member => isDigit_of_mem_twoDigits bound member, value]

theorem not_mem_of_isDigit {text : Word} {char : Char}
    (noDigit : char.isDigit = false)
    (areDigits : ∀ other ∈ text, other.isDigit) :
    char ∉ text := fun member =>
  ne_of_isDigit (areDigits char member) noDigit rfl

/-! ## Three parts -/

/-- Three numbers with a colon between them. -/
def threeParts (first second third : Nat) : Word :=
  Nat.toDigits 10 first ++
    ':' :: (twoDigits second ++ ':' :: twoDigits third)

/-- Three parts are cut at their colons. -/
theorem splitOn_threeParts {first second third : Nat}
    (secondBound : second < 100) (thirdBound : third < 100) :
    (threeParts first second third).splitOn ':' =
      [Nat.toDigits 10 first, twoDigits second, twoDigits third] := by
  have noColonFirst : ':' ∉ Nat.toDigits 10 first :=
    not_mem_of_isDigit rfl fun _ => isDigit_of_mem_toDigits
  have noColonSecond : ':' ∉ twoDigits second :=
    not_mem_of_isDigit rfl fun _ => isDigit_of_mem_twoDigits secondBound
  have noColonThird : ':' ∉ twoDigits third :=
    not_mem_of_isDigit rfl fun _ => isDigit_of_mem_twoDigits thirdBound
  rw [threeParts, List.splitOn_append_cons_self_of_not_mem noColonFirst,
    List.splitOn_append_cons_self_of_not_mem noColonSecond,
    List.splitOn_eq_singleton noColonThird]

/-- Three parts are read as hours, minutes and seconds. -/
theorem toSeconds_threeParts {first second third : Nat}
    (secondBound : second < 100) (thirdBound : third < 100) :
    toSeconds unicodeDecimal (threeParts first second third) =
      .ok (((first * 60 + second) * 60 + third : Nat) : Int) := by
  rw [toSeconds, splitOn_threeParts secondBound thirdBound]
  simp only [foldSeconds, int_toDigits, int_twoDigits unicodeDecimal secondBound,
    int_twoDigits unicodeDecimal thirdBound]
  simp [bind, Except.bind]

theorem replacePoint_of_isDigit {text : Word}
    (areDigits : ∀ char ∈ text, char.isDigit) :
    replacePoint text = text := by
  rw [replacePoint]
  refine (List.map_congr_left fun char member => ?_).trans (List.map_id text)
  exact if_neg (ne_of_isDigit (areDigits char member) rfl)

theorem replacePoint_parts {first second third : Nat} {separator : Char}
    (secondBound : second < 100) (thirdBound : third < 100)
    (replaced : (if separator = '.' then ':' else separator) = ':') :
    replacePoint (Nat.toDigits 10 first ++
        ':' :: (twoDigits second ++ separator :: twoDigits third)) =
      threeParts first second third := by
  have digitsFirst : replacePoint (Nat.toDigits 10 first) = _ :=
    replacePoint_of_isDigit fun _ => isDigit_of_mem_toDigits
  have digitsSecond : replacePoint (twoDigits second) = _ :=
    replacePoint_of_isDigit fun _ => isDigit_of_mem_twoDigits secondBound
  have digitsThird : replacePoint (twoDigits third) = _ :=
    replacePoint_of_isDigit fun _ => isDigit_of_mem_twoDigits thirdBound
  unfold replacePoint at digitsFirst digitsSecond digitsThird ⊢
  rw [List.map_append, List.map_cons, List.map_append, List.map_cons,
    digitsFirst, digitsSecond, digitsThird, replaced]
  rfl

/-- From an hour on the report has hours, minutes and seconds. -/
theorem elapsedText_of_le {centiseconds : Nat}
    (anHour : 360000 ≤ centiseconds) :
    replacePoint (elapsedText centiseconds) =
      threeParts (centiseconds / 100 / 3600) (centiseconds / 100 % 3600 / 60)
        (centiseconds / 100 % 60) := by
  have hours : 3600 ≤ centiseconds / 100 := by omega
  rw [elapsedText]
  simp only [if_pos hours]
  exact replacePoint_parts (by omega) (by omega) rfl

/-- Below an hour it has minutes, seconds and hundredths, which look the same
once the point is a colon. -/
theorem elapsedText_of_lt {centiseconds : Nat}
    (lessThanAnHour : centiseconds < 360000) :
    replacePoint (elapsedText centiseconds) =
      threeParts (centiseconds / 100 / 60) (centiseconds / 100 % 60)
        (centiseconds % 100) := by
  have noHours : ¬ 3600 ≤ centiseconds / 100 := by omega
  rw [elapsedText]
  simp only [if_neg noHours]
  exact replacePoint_parts (by omega) (by omega) rfl

/-- What the report says of a duration is read so. -/
theorem toSeconds_elapsedText (centiseconds : Nat) :
    toSeconds unicodeDecimal (replacePoint (elapsedText centiseconds)) =
      .ok (secondsRead centiseconds : Int) := by
  rw [secondsRead]
  by_cases anHour : 360000 ≤ centiseconds
  · rw [if_pos anHour, elapsedText_of_le anHour,
      toSeconds_threeParts unicodeDecimal (by omega) (by omega)]
    congr 2
    omega
  · rw [if_neg anHour, elapsedText_of_lt (by omega),
      toSeconds_threeParts unicodeDecimal (by omega) (by omega)]
    congr 2
    omega

/-! ## The line of a report -/

/-- The entry of a line that ends with a label in parentheses, a colon and a
blank. -/
theorem entry_append {label text : Word}
    (noPair : (label ++ [')']).IsChain fun char next =>
      ¬ (char = ')' ∧ next = ':'))
    (noClosing : ')' ∉ text) (noBlank : ∀ char ∈ text, isSpace char = false) :
    entry (label ++ ')' :: ':' :: ' ' :: text) = .ok text := by
  have noClosingBehind : ')' ∉ ' ' :: text := by
    simpa using noClosing
  have stripped : strip (' ' :: text) = text :=
    (stripWith_cons (by decide) text).trans (stripWith_eq_self noBlank)
  rw [entry, splitPair_append noPair, splitPair_eq_singleton noClosingBehind]
  simp [index, bind, Except.bind, pure, Except.pure, stripped]

theorem of_mem_parts {first second third : Nat} {separator char : Char}
    (known : separator ≠ ')' ∧ isSpace separator = false)
    (secondBound : second < 100) (thirdBound : third < 100)
    (member : char ∈ Nat.toDigits 10 first ++
      ':' :: (twoDigits second ++ separator :: twoDigits third)) :
    char ≠ ')' ∧ isSpace char = false := by
  have ofDigit (digit : char.isDigit) : char ≠ ')' ∧ isSpace char = false :=
    ⟨ne_of_isDigit digit rfl, isSpace_of_isDigit digit⟩
  simp only [List.mem_append, List.mem_cons] at member
  rcases member with inFirst | rfl | inSecond | rfl | inThird
  · exact ofDigit (isDigit_of_mem_toDigits inFirst)
  · decide
  · exact ofDigit (isDigit_of_mem_twoDigits secondBound inSecond)
  · exact known
  · exact ofDigit (isDigit_of_mem_twoDigits thirdBound inThird)

/-- Nothing in an elapsed time is a blank or a closing parenthesis. -/
theorem of_mem_elapsedText {centiseconds : Nat} {char : Char}
    (member : char ∈ elapsedText centiseconds) :
    char ≠ ')' ∧ isSpace char = false := by
  simp only [elapsedText] at member
  split at member
  · exact of_mem_parts (by decide) (by omega) (by omega) member
  · exact of_mem_parts (by decide) (by omega) (by omega) member

/-- The text behind the label is the duration. -/
theorem entry_elapsedLine (centiseconds : Nat) :
    entry (elapsedLine centiseconds) = .ok (elapsedText centiseconds) := by
  have label : elapsedLabel =
      "\tElapsed (wall clock) time (h:mm:ss or m:ss".toList ++ [')'] := rfl
  rw [elapsedLine, label, List.append_assoc]
  exact entry_append (by decide)
    (fun member => (of_mem_elapsedText member).1 rfl)
    fun char member => (of_mem_elapsedText member).2

/-- `get_time` reads the duration of its line. -/
theorem getTime_elapsedLine {s : List Word} {centiseconds : Nat}
    (line : s[4]? = some (elapsedLine centiseconds)) :
    getTime unicodeDecimal s = .ok (secondsRead centiseconds : Int) := by
  rw [getTime, index_eq_ok.mpr line]
  simp [bind, Except.bind, entry_elapsedLine, toSeconds_elapsedText]

/-! ## How far off the time is -/

/-- The seconds differ from the time by less than a second. -/
def Accurate (seconds : Int) (centiseconds : Nat) : Prop :=
  |100 * seconds - (centiseconds : Int)| < 100

/-- The number is right up to a hundredth of a second, and from an hour on. -/
theorem accurate_iff (centiseconds : Nat) :
    Accurate (secondsRead centiseconds) centiseconds ↔
      centiseconds ≤ 1 ∨ 360000 ≤ centiseconds := by
  rw [Accurate, abs_lt, secondsRead]
  split
  · omega
  · omega

/-- A time with hours in the report, and one without: the former may be taken
for the shorter one. -/
theorem ordered_iff {earlier later : Nat} (apart : earlier + 100 ≤ later) :
    secondsRead earlier ≤ secondsRead later ↔
      later < 360000 ∨ 360000 ≤ earlier ∨
        6000 * (earlier / 100) + 100 * (earlier % 100) ≤ later := by
  simp only [secondsRead]
  split
  · split
    · omega
    · omega
  · split
    · omega
    · omega

/--
A time is read correctly up to a centisecond and from an hour on, and not in
between.  Two times keep their order unless only the longer one has hours and
the shorter one counts for more when its minutes are taken for hours.
-/
theorem getTime_accurate_iff :
    (∀ (s : List Word) (centiseconds : Nat),
      s[4]? = some (elapsedLine centiseconds) →
      ((∃ seconds, getTime unicodeDecimal s = .ok seconds ∧
          Accurate seconds centiseconds) ↔
        centiseconds ≤ 1 ∨ 360000 ≤ centiseconds)) ∧
    ∀ (s s' : List Word) (earlier later : Nat),
      s[4]? = some (elapsedLine earlier) →
      s'[4]? = some (elapsedLine later) →
      earlier + 100 ≤ later →
      ((∃ seconds seconds',
          getTime unicodeDecimal s = .ok seconds ∧
          getTime unicodeDecimal s' = .ok seconds' ∧
          seconds ≤ seconds') ↔
        later < 360000 ∨ 360000 ≤ earlier ∨
          6000 * (earlier / 100) + 100 * (earlier % 100) ≤ later) := by
  constructor
  · intro s centiseconds line
    rw [getTime_elapsedLine unicodeDecimal line, ← accurate_iff]
    simp
  · intro s s' earlier later line line' apart
    rw [getTime_elapsedLine unicodeDecimal line,
      getTime_elapsedLine unicodeDecimal line', ← ordered_iff apart]
    simp

end

/-- No digits beyond ASCII. -/
def asciiOnly : Char → Option Nat := fun _ => none

/-- Five lines, the last one with an elapsed time. -/
def fiveLines (centiseconds : Nat) : List Word :=
  [[], [], [], [], elapsedLine centiseconds]

/-- A centisecond is read as a second, and the times 0:00.01 and 0:01.01 are
in order. -/
theorem getTime_accurate_centisecond :
    (∃ seconds, getTime asciiOnly (fiveLines 1) = .ok seconds ∧
      Accurate seconds 1) ∧
    ∃ seconds seconds',
      getTime asciiOnly (fiveLines 1) = .ok seconds ∧
      getTime asciiOnly (fiveLines 101) = .ok seconds' ∧
      seconds ≤ seconds' := by
  constructor
  · exact ((getTime_accurate_iff asciiOnly).1 (fiveLines 1) 1 rfl).mpr
      (.inl (by decide))
  · exact ((getTime_accurate_iff asciiOnly).2 (fiveLines 1) (fiveLines 101)
      1 101 rfl rfl (by decide)).mpr (.inl (by decide))

/-- One second is read as a minute, and 59:59.00 as longer than an hour. -/
theorem getTime_second :
    elapsedLine 100 =
      "\tElapsed (wall clock) time (h:mm:ss or m:ss): 0:01.00".toList ∧
    getTime asciiOnly (fiveLines 100) = .ok 60 ∧
    ¬ Accurate 60 100 ∧
    ∃ seconds seconds',
      getTime asciiOnly (fiveLines 359900) = .ok seconds ∧
      getTime asciiOnly (fiveLines 360000) = .ok seconds' ∧
      ¬ seconds ≤ seconds' := by
  refine ⟨by decide +kernel, by decide +kernel, ?_, 215940, 3600,
    by decide +kernel, by decide +kernel, by decide⟩
  rw [Accurate, abs_lt]
  decide

end Lmcas.Measure
