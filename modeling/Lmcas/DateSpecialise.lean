import Lmcas.Date

/-!
# `date` resumed from its neck

A resumed `date` has the variables of the neck and nothing else.  What the
options did to the environment is lost, the current locale is the one that a
fresh process starts in, and `format` is a copy that `show_date` does not
recognise.  `date_soundAt_iff` says when none of this can be seen, whatever
the time functions, the clock and the files are.
-/

namespace Lmcas.Date

open Lmcas.Lib.CString
open Lmcas.Lib.Getopt
open Lmcas.Lib.Iteration
open Lmcas.Lib.NeckLoop
open Lmcas.Lib.OptionLoop
open Lmcas.System

/-- A string variable restored as a fresh copy with equal contents. -/
structure FreshCopy (original copy : Option CStr) : Prop where
  text : copy.map CStr.text = original.map CStr.text
  fresh : ∀ pointer ∈ copy, ∃ count, pointer.obj.id = .copy count

/-- A fresh process in an environment and a locale, with the variables of the
neck. -/
structure Resumed {Locale : Type} (environment : Environment)
    (restart : Locale) (neck resumed : Vars Locale) : Prop where
  datestr : FreshCopy neck.datestr resumed.datestr
  setDatestr : FreshCopy neck.setDatestr resumed.setDatestr
  setDate : resumed.setDate = neck.setDate
  format : FreshCopy neck.format resumed.format
  batchFile : FreshCopy neck.batchFile resumed.batchFile
  reference : FreshCopy neck.reference resumed.reference
  flags : resumed.parseDatetimeFlags = neck.parseDatetimeFlags
  environment : resumed.environment = environment
  locale : resumed.locale = restart

/-- A copy of no string is none. -/
theorem FreshCopy.isSome {original copy : Option CStr}
    (fresh : FreshCopy original copy) :
    copy.isSome = original.isSome := by
  have equal := congrArg Option.isSome fresh.text
  rw [Option.isSome_map, Option.isSome_map] at equal
  exact equal

/-- A string is absent from the copy just if it is from the original. -/
theorem FreshCopy.eq_none_iff {original copy : Option CStr}
    (fresh : FreshCopy original copy) :
    copy = none ↔ original = none := by
  rw [← Option.not_isSome_iff_eq_none, ← Option.not_isSome_iff_eq_none,
    fresh.isSome]

/-- The tests that count the strings that are set see no difference. -/
theorem FreshCopy.length_toList {original copy : Option CStr}
    (fresh : FreshCopy original copy) :
    copy.toList.length = original.toList.length := by
  have same := fresh.isSome
  cases original <;> cases copy <;> simp_all

/-- A fresh copy is not the static array. -/
theorem FreshCopy.ne_rfcEmailFormat {original copy : Option CStr}
    (fresh : FreshCopy original copy) :
    copy ≠ some rfcEmailFormat.ptr := by
  rintro rfl
  rcases fresh.fresh _ rfl with ⟨count, equal⟩
  exact nomatch equal

/-- Every string can be restored. -/
theorem exists_freshCopy (original : Option CStr) :
    ∃ copy, FreshCopy original copy := by
  refine ⟨original.map fun pointer => ⟨⟨.copy 0, pointer.text⟩, 0⟩,
    ?_, ?_⟩
  · cases original with
    | none => rfl
    | some pointer => exact congrArg some (StrObj.text_ptr _)
  · intro pointer member
    rcases Option.map_eq_some_iff.mp member with ⟨_, _, rfl⟩
    exact ⟨0, rfl⟩

variable {Locale Zone Tm : Type}

/-- A state can always be copied. -/
theorem exists_resumed (environment : Environment) (restart : Locale)
    (neck : Vars Locale) :
    ∃ resumed, Resumed environment restart neck resumed := by
  rcases exists_freshCopy neck.datestr with ⟨datestr, isDatestr⟩
  rcases exists_freshCopy neck.setDatestr with ⟨setDatestr, isSet⟩
  rcases exists_freshCopy neck.format with ⟨format, isFormat⟩
  rcases exists_freshCopy neck.batchFile with ⟨batchFile, isBatch⟩
  rcases exists_freshCopy neck.reference with ⟨reference, isReference⟩
  exact
    ⟨{ datestr := datestr
       setDatestr := setDatestr
       setDate := neck.setDate
       format := format
       batchFile := batchFile
       reference := reference
       parseDatetimeFlags := neck.parseDatetimeFlags
       environment := environment
       locale := restart },
      { datestr := isDatestr
        setDatestr := isSet
        setDate := rfl
        format := isFormat
        batchFile := isBatch
        reference := isReference
        flags := rfl
        environment := rfl
        locale := rfl }⟩

/-! ## What the tests and the choices see -/

section

variable {environment : Environment} {restart : Locale}
  {neck resumed : Vars Locale}

/-- The copy names as many sources of a date. -/
theorem Resumed.optionSpecifiedDate
    (copied : Resumed environment restart neck resumed) :
    optionSpecifiedDate resumed = optionSpecifiedDate neck := by
  unfold Date.optionSpecifiedDate
  rw [copied.datestr.length_toList, copied.batchFile.length_toList,
    copied.reference.length_toList]

/-- The copy is rejected with the same operands. -/
theorem Resumed.rejected
    (copied : Resumed environment restart neck resumed)
    (operands : List Word) :
    rejected resumed operands = rejected neck operands := by
  unfold Date.rejected
  rw [copied.optionSpecifiedDate, copied.setDate, copied.format.isSome]

/-- Only the option `-R` makes the format the static array. -/
theorem chooseFormat_eq_rfcEmailFormat
    {library : Library Locale Zone Tm} {vars : Vars Locale}
    {operands : List Word}
    (email : chooseFormat library vars operands = rfcEmailFormat.ptr) :
    vars.format = some rfcEmailFormat.ptr := by
  have default : chooseFormat.default library vars = rfcEmailFormat.ptr →
      vars.format = some rfcEmailFormat.ptr := by
    intro email
    unfold chooseFormat.default at email
    split at email
    · rename_i format given
      rw [given, email]
    · dsimp only at email
      split at email <;> exact nomatch email
  unfold chooseFormat at email
  split at email
  · exact default email
  · exact nomatch email
  · exact default email

/-- Restoring the format keeps its text. -/
theorem Resumed.text_chooseFormat
    (copied : Resumed environment restart neck resumed)
    (locale : restart = neck.locale)
    (library : Library Locale Zone Tm) (operands : List Word) :
    (chooseFormat library resumed operands).text =
      (chooseFormat library neck operands).text := by
  have default : (chooseFormat.default library resumed).text =
      (chooseFormat.default library neck).text := by
    have text := copied.format.text
    unfold chooseFormat.default
    rw [copied.locale, locale]
    rcases given : neck.format with _ | format
    · rw [given] at text
      rw [Option.map_eq_none_iff.mp text]
    · rw [given] at text
      rcases Option.map_eq_some_iff.mp text with ⟨copy, restored, equal⟩
      rw [restored]
      exact equal
  unfold chooseFormat
  split
  · exact default
  · rfl
  · exact default

/-- Restoring the variables does not change the time that is chosen. -/
theorem Resumed.chooseTime
    (copied : Resumed environment restart neck resumed)
    (same : environment = neck.environment)
    (locale : restart = neck.locale)
    (library : Library Locale Zone Tm) (world : World)
    (operand : Option Word) (tz : Zone) (tzstring : Option Word) :
    chooseTime library world resumed operand tz tzstring =
      chooseTime library world neck operand tz tzstring := by
  have reference := copied.reference.text
  have setDatestr := copied.setDatestr.text
  unfold Date.chooseTime
  rw [copied.datestr.isSome, copied.reference.isSome, copied.setDate,
    copied.datestr.text, copied.flags, copied.environment, copied.locale,
    same, locale]
  congr 1
  rcases referenceEq : neck.reference with _ | pointer
  · rw [copied.reference.eq_none_iff.mpr referenceEq]
    rcases setEq : neck.setDatestr with _ | pointer
    · rw [copied.setDatestr.eq_none_iff.mpr setEq]
    · rw [setEq] at setDatestr
      rcases Option.map_eq_some_iff.mp setDatestr with
        ⟨copy, restored, equal⟩
      rw [restored]
      simp only [equal]
  · rw [referenceEq] at reference
    rcases Option.map_eq_some_iff.mp reference with
      ⟨copy, restored, equal⟩
    rw [restored]
    simp only [equal]

end

/-! ## Where the restored process prints the same -/

section

variable {setlocale : Setlocale Locale} {library : Library Locale Zone Tm}
  {world : World} {format copy : CStr} {tz : Zone}
  {environment : Environment} {locale : Locale}

/-- The excursion of `show_date` into the `C` locale cannot be seen. -/
def PrintsInPlace (setlocale : Setlocale Locale) (format : CStr)
    (environment : Environment) (locale : Locale) : Prop :=
  format = rfcEmailFormat.ptr →
    setlocale .time ['C'] environment locale = locale

/-- The excursion ends in the locale it started from. -/
def ComesBack (setlocale : Setlocale Locale) (format : CStr)
    (environment : Environment) (locale : Locale) : Prop :=
  format = rfcEmailFormat.ptr →
    setlocale .time [] environment locale = locale

/-- Which array the format is does not matter for one line. -/
theorem showDate_copy
    (text : copy.text = format.text) (fresh : copy ≠ rfcEmailFormat.ptr)
    (inPlace : PrintsInPlace setlocale format environment locale)
    (time : Timespec) :
    (showDate setlocale library copy time tz environment locale).text =
        (showDate setlocale library format time tz environment
          locale).text ∧
      (showDate setlocale library copy time tz environment locale).ok =
        (showDate setlocale library format time tz environment
          locale).ok := by
  unfold showDate
  rw [text]
  cases library.localtimeRz tz time.sec environment locale with
  | none => exact ⟨rfl, rfl⟩
  | some tm =>
      by_cases email : format = rfcEmailFormat.ptr
      · simp [fresh, email, inPlace email]
      · simp [fresh, email]

/-- Printing leaves the locale as it was, if the format is not that of `-R` or
its locale comes back. -/
theorem locale_showDate
    (inPlace : PrintsInPlace setlocale format environment locale)
    (comesBack : ComesBack setlocale format environment locale)
    (time : Timespec) :
    (showDate setlocale library format time tz environment
      locale).locale = locale := by
  unfold showDate
  cases library.localtimeRz tz time.sec environment locale with
  | none => rfl
  | some tm =>
      by_cases email : format = rfcEmailFormat.ptr
      · simp [email, inPlace email, comesBack email]
      · simp [email]

/-- Other formats are printed in the locale that is set. -/
theorem printsInPlace_of_ne (fresh : copy ≠ rfcEmailFormat.ptr) :
    PrintsInPlace setlocale copy environment locale :=
  fun email => absurd email fresh

/-- Other formats leave the locale alone. -/
theorem comesBack_of_ne (fresh : copy ≠ rfcEmailFormat.ptr) :
    ComesBack setlocale copy environment locale :=
  fun email => absurd email fresh

/-- The lines of a file are shown alike, one after the other. -/
theorem batchLines_copy
    (text : copy.text = format.text) (fresh : copy ≠ rfcEmailFormat.ptr)
    (inPlace : PrintsInPlace setlocale format environment locale)
    (comesBack : ComesBack setlocale format environment locale)
    (flags : BitVec 32) (tzstring : Option Word) (lines : List Word) :
    batchLines setlocale library world flags copy tz tzstring environment
        lines locale =
      batchLines setlocale library world flags format tz tzstring
        environment lines locale := by
  induction lines with
  | nil => rfl
  | cons line lines inductionHypothesis =>
      unfold batchLines
      cases library.parseDatetime2 line flags tz tzstring environment
          locale world.now with
      | none =>
          simp only
          rw [inductionHypothesis]
      | some time =>
          have shown := @showDate_copy _ _ _ _ library _ _ tz _ _
            text fresh inPlace time
          simp only
          rw [locale_showDate (printsInPlace_of_ne fresh)
              (comesBack_of_ne fresh),
            locale_showDate inPlace comesBack, inductionHypothesis,
            shown.1, shown.2]

end

section

variable {environment : Environment} {restart : Locale}
  {neck resumed : Vars Locale} {files : List Word}

/-- The format of the copy is not at the address that the code tests for. -/
theorem Resumed.chooseFormat_ne
    (copied : Resumed environment restart neck resumed)
    (library : Library Locale Zone Tm) :
    chooseFormat library resumed files ≠ rfcEmailFormat.ptr := by
  intro email
  exact copied.format.ne_rfcEmailFormat
    (chooseFormat_eq_rfcEmailFormat email)

/--
What resuming must not lose: the environment, the locale, and, behind `-R`,
the `C` locale that the line is printed in; a batch also comes back to the
locale of the neck after each line.
-/
structure Unaffected (setlocale : Setlocale Locale)
    (environment : Environment) (restart : Locale)
    (neck : Vars Locale) : Prop where
  sameEnvironment : environment = neck.environment
  sameLocale : restart = neck.locale
  inPlace : neck.format = some rfcEmailFormat.ptr →
    setlocale .time ['C'] environment restart = restart
  comesBack : neck.format = some rfcEmailFormat.ptr →
    neck.batchFile.isSome →
    setlocale .time [] environment restart = restart

/-- With the same format text, the end of `main` does the same. -/
theorem Unaffected.printDate
    {setlocale : Setlocale Locale}
    (unaffected : Unaffected setlocale environment restart neck)
    (copied : Resumed environment restart neck resumed)
    (library : Library Locale Zone Tm) (world : World)
    {format copy : CStr} (text : copy.text = format.text)
    (fresh : copy ≠ rfcEmailFormat.ptr)
    (email : format = rfcEmailFormat.ptr →
      neck.format = some rfcEmailFormat.ptr)
    (operand : Option Word) :
    printDate setlocale library world resumed copy operand =
      printDate setlocale library world neck format operand := by
  have chosen := copied.chooseTime unaffected.sameEnvironment
    unaffected.sameLocale library world operand
  rcases unaffected with ⟨sameEnvironment, sameLocale, inPlace, comesBack⟩
  unfold Date.printDate
  rw [copied.environment, copied.locale, copied.flags]
  rcases batchEq : neck.batchFile with _ | batchFile
  · rw [copied.batchFile.eq_none_iff.mpr batchEq, ← sameEnvironment,
      ← sameLocale]
    simp only [chosen]
    split
    · rfl
    · rename_i time setDate _
      have shown := @showDate_copy _ _ _ setlocale library _ _
        (library.tzalloc (environment tzName) environment restart) _ _
        text fresh (fun same => inPlace (email same)) time
      rw [shown.1, shown.2]
  · have restored := copied.batchFile.text
    rw [batchEq] at restored
    rcases Option.map_eq_some_iff.mp restored with
      ⟨batchFile', batchEq', sameFile⟩
    rw [batchEq', ← sameEnvironment, ← sameLocale]
    have lines := @batchLines_copy _ _ _ setlocale library world _ _
      (library.tzalloc (environment tzName) environment restart) _ _
      text fresh (fun same => inPlace (email same))
      (fun same => comesBack (email same) (by rw [batchEq]; rfl))
    simp only [batchConvert, sameFile, lines]

/-- A state that is unaffected by the copy runs on as it would have. -/
theorem Unaffected.resume
    {setlocale : Setlocale Locale}
    (unaffected : Unaffected setlocale environment restart neck)
    (copied : Resumed environment restart neck resumed)
    (library : Library Locale Zone Tm) (world : World) :
    resume setlocale library world resumed files =
      resume setlocale library world neck files := by
  unfold Date.resume
  rw [copied.rejected]
  cases rejected neck files with
  | some early => rfl
  | none =>
      exact unaffected.printDate copied library world
        (copied.text_chooseFormat unaffected.sameLocale library files)
        (copied.chooseFormat_ne library) chooseFormat_eq_rfcEmailFormat _

end

/-! ## Seeing the difference -/

/-- Time functions that report, for some property of environments and
locales, whether they are called where it holds. -/
noncomputable def probe (Seen : Environment → Locale → Prop) :
    Library Locale Char Char :=
  let report (environment : Environment) (locale : Locale) : Bool :=
    @decide (Seen environment locale) (Classical.propDecidable _)
  { dateFmtLanginfo := fun _ => []
    tzalloc := fun _ environment locale =>
      if report environment locale then '1' else '0'
    localtimeRz := fun _ sec _ _ => some (if sec = 0 then '0' else '1')
    fprintftime := fun _ tm tz _ environment locale =>
      [tm, tz, if report environment locale then '1' else '0']
    parseDatetime2 := fun _ _ _ _ environment locale _ =>
      some ⟨if report environment locale then 1 else 0, 0⟩
    posixtime := fun _ environment locale _ =>
      some (if report environment locale then 1 else 0) }

/-- A world in which every file exists and has two lines. -/
def twoLines : World where
  now := ⟨0, 0⟩
  settime _ := true
  mtime _ := some ⟨0, 0⟩
  stdin := ⟨[[], []], true⟩
  file _ := some ⟨[[], []], true⟩

/-- What the probe reports. -/
noncomputable def mark (Seen : Environment → Locale → Prop)
    (environment : Environment) (locale : Locale) : Char :=
  if @decide (Seen environment locale) (Classical.propDecidable _) then
    '1'
  else '0'

/-- Enough properties tell any two places apart. -/
theorem eq_of_mark_eq
    {environment environment' : Environment} {locale locale' : Locale}
    (marks : ∀ Seen : Environment → Locale → Prop,
      mark Seen environment locale = mark Seen environment' locale') :
    environment = environment' ∧ locale = locale' := by
  have here := marks fun other place =>
    environment = other ∧ locale = place
  by_contra apart
  simp [mark, apart] at here

/-- The locale that `show_date` prints in. -/
def printingLocale (setlocale : Setlocale Locale) (format : CStr)
    (environment : Environment) (locale : Locale) : Locale :=
  if format = rfcEmailFormat.ptr then
    setlocale .time ['C'] environment locale
  else locale

/-- The locale that `show_date` leaves. -/
def leftLocale (setlocale : Setlocale Locale) (format : CStr)
    (environment : Environment) (locale : Locale) : Locale :=
  if format = rfcEmailFormat.ptr then
    setlocale .time [] environment
      (setlocale .time ['C'] environment locale)
  else locale

section

variable {setlocale : Setlocale Locale}
  (Seen : Environment → Locale → Prop)

/-- The probe prints which environment and locale it was called with. -/
theorem showDate_probe (format : CStr) (time : Timespec) (tz : Char)
    (environment : Environment) (locale : Locale) :
    showDate setlocale (probe Seen) format time tz environment locale =
      ⟨[if time.sec = 0 then '0' else '1', tz,
          mark Seen environment
            (printingLocale setlocale format environment locale), '\n'],
        true, leftLocale setlocale format environment locale⟩ := by
  by_cases email : format = rfcEmailFormat.ptr
  · have printing := @if_pos _ (instDecidableEqCStr _ _) email _
      (setlocale .time ['C'] environment locale) locale
    have left := @if_pos _ (instDecidableEqCStr _ _) email _
      (setlocale .time [] environment
        (setlocale .time ['C'] environment locale)) locale
    rw [printingLocale, leftLocale, printing, left]
    simp [showDate, probe, mark, email]
  · have printing := @if_neg _ (instDecidableEqCStr _ _) email _
      (setlocale .time ['C'] environment locale) locale
    have left := @if_neg _ (instDecidableEqCStr _ _) email _
      (setlocale .time [] environment
        (setlocale .time ['C'] environment locale)) locale
    rw [printingLocale, leftLocale, printing, left]
    simp [showDate, probe, mark, email]

/-- It parses a line into a time that tells the same. -/
theorem parseDatetime2_probe (line : Word) (flags : BitVec 32)
    (tz : Char) (tzstring : Option Word) (environment : Environment)
    (locale : Locale) (now : Timespec) :
    ∃ time, (probe Seen).parseDatetime2 line flags tz tzstring environment
        locale now = some time ∧
      (if time.sec = 0 then '0' else '1') =
        mark Seen environment locale := by
  refine ⟨_, rfl, ?_⟩
  unfold mark
  split <;> simp_all

/-- With it every state has a time to print. -/
theorem chooseTime_probe (vars : Vars Locale) (operand : Option Word)
    (tz : Char) (tzstring : Option Word) :
    ∃ chosen, chooseTime (probe Seen) twoLines vars operand tz tzstring =
      some chosen := by
  unfold chooseTime
  split
  · cases operand with
    | none => exact ⟨_, rfl⟩
    | some datestr => exact ⟨_, rfl⟩
  · cases vars.reference with
    | none => exact ⟨_, rfl⟩
    | some reference => exact ⟨_, rfl⟩

/-- What a run has written, if it has got that far. -/
def Outcome.stdout : Outcome → Word
  | .early _ => []
  | .finished stdout _ _ => stdout

/-- A run on the probe reports where `tzalloc` and `fprintftime` are called
for the first line. -/
theorem stdout_printDate_probe (vars : Vars Locale) (format : CStr)
    (operand : Option Word) :
    ∃ time rest,
      (printDate setlocale (probe Seen) twoLines vars format
        operand).stdout =
        time :: mark Seen vars.environment vars.locale ::
          mark Seen vars.environment
            (printingLocale setlocale format vars.environment
              vars.locale) :: rest ∧
      (vars.batchFile.isSome → ∃ rest',
        rest = '\n' ::
          mark Seen vars.environment
            (leftLocale setlocale format vars.environment
              vars.locale) :: rest') := by
  unfold printDate
  rcases batchEq : vars.batchFile with _ | batchFile
  · rcases chooseTime_probe Seen vars operand
        ((probe Seen).tzalloc (vars.environment tzName) vars.environment
          vars.locale) (vars.environment tzName) with ⟨chosen, chose⟩
    simp only [chose, showDate_probe]
    exact ⟨_, _, rfl, nofun⟩
  · have file : (if batchFile.text = ['-'] then some twoLines.stdin
        else twoLines.file batchFile.text) =
        some ⟨[[], []], true⟩ := by
      split <;> rfl
    rcases parseDatetime2_probe Seen [] vars.parseDatetimeFlags
        ((probe Seen).tzalloc (vars.environment tzName) vars.environment
          vars.locale) (vars.environment tzName) vars.environment
        vars.locale twoLines.now with ⟨first, parsed, _⟩
    rcases parseDatetime2_probe Seen [] vars.parseDatetimeFlags
        ((probe Seen).tzalloc (vars.environment tzName) vars.environment
          vars.locale) (vars.environment tzName) vars.environment
        (leftLocale setlocale format vars.environment vars.locale)
        twoLines.now with ⟨second, parsed', marked⟩
    simp only [batchConvert, file, batchLines, parsed, showDate_probe,
      parsed', marked]
    exact ⟨_, _, rfl, fun _ => ⟨_, rfl⟩⟩

end

/-- Past the tests a format given by an option is the format printed. -/
theorem chooseFormat_of_given
    {library : Library Locale Zone Tm} {vars : Vars Locale}
    {files : List Word} {format : CStr}
    (accepted : rejected vars files = none)
    (given : vars.format = some format) :
    chooseFormat library vars files = format := by
  have default : chooseFormat.default library vars = format := by
    unfold chooseFormat.default
    rw [given]
  unfold chooseFormat
  split
  · exact default
  · exfalso
    unfold rejected at accepted
    rename_i text others
    rcases others with _ | ⟨other, others⟩
    · rw [given] at accepted
      split at accepted
      · exact nomatch accepted
      split at accepted <;> exact nomatch accepted
    · split at accepted
      · exact nomatch accepted
      split at accepted <;> exact nomatch accepted
  · exact default

/-- If no probe sees a difference, there is none. -/
theorem unaffected_of_probes
    {setlocale : Setlocale Locale} {environment : Environment}
    {restart : Locale} {neck resumed : Vars Locale} {files : List Word}
    (copied : Resumed environment restart neck resumed)
    (accepted : rejected neck files = none)
    (agrees : ∀ Seen,
      resume setlocale (probe Seen) twoLines resumed files =
        resume setlocale (probe Seen) twoLines neck files) :
    Unaffected setlocale environment restart neck := by
  have reports : ∀ Seen,
      mark Seen environment restart =
          mark Seen neck.environment neck.locale ∧
        mark Seen environment restart =
          mark Seen neck.environment
            (printingLocale setlocale
              (chooseFormat (probe Seen) neck files)
              neck.environment neck.locale) ∧
        (neck.batchFile.isSome →
          mark Seen environment restart =
            mark Seen neck.environment
              (leftLocale setlocale
                (chooseFormat (probe Seen) neck files)
                neck.environment neck.locale)) := by
    intro Seen
    have agree := agrees Seen
    have accepted' := (copied.rejected files).trans accepted
    rw [Date.resume, Date.resume, accepted, accepted'] at agree
    have fresh := @Resumed.chooseFormat_ne _ _ _ _ _ _ _ files copied
      (probe Seen)
    rcases @stdout_printDate_probe _ setlocale Seen resumed
        (chooseFormat (probe Seen) resumed files) (dateOperand files) with
      ⟨time, rest, wrote, batch⟩
    rcases @stdout_printDate_probe _ setlocale Seen neck
        (chooseFormat (probe Seen) neck files) (dateOperand files) with
      ⟨time', rest', wrote', batch'⟩
    have same := wrote.symm.trans
      ((congrArg Outcome.stdout agree).trans wrote')
    rw [copied.environment, copied.locale] at same batch
    have printing : printingLocale setlocale
        (chooseFormat (probe Seen) resumed files) environment restart =
          restart := if_neg fresh
    have left : leftLocale setlocale
        (chooseFormat (probe Seen) resumed files) environment restart =
          restart := if_neg fresh
    rw [printing] at same
    rw [left] at batch
    injection same with _ same
    injection same with zone same
    injection same with printed same
    refine ⟨zone, printed, ?_⟩
    intro isBatch
    rcases batch' isBatch with ⟨more', rfl⟩
    rcases batch (copied.batchFile.isSome.trans isBatch) with
      ⟨more, rfl⟩
    injection same with _ same
    injection same
  have place := eq_of_mark_eq fun Seen => (reports Seen).1
  have printed : neck.format = some rfcEmailFormat.ptr →
      restart = setlocale .time ['C'] neck.environment neck.locale := by
    intro email
    apply And.right (eq_of_mark_eq fun Seen => ?_)
    · exact environment
    · exact neck.environment
    · have report := (reports Seen).2.1
      rw [chooseFormat_of_given accepted email,
        printingLocale, if_pos rfl] at report
      exact report
  refine
    { sameEnvironment := place.1
      sameLocale := place.2
      inPlace := ?_
      comesBack := ?_ }
  · intro email
    rw [place.1, place.2, ← printed email]
    exact place.2
  · intro email isBatch
    have cameBack : restart =
        setlocale .time [] neck.environment restart := by
      apply And.right (eq_of_mark_eq fun Seen => ?_)
      · exact environment
      · exact neck.environment
      · have report := (reports Seen).2.2 isBatch
        rw [chooseFormat_of_given accepted email,
          leftLocale, if_pos rfl, ← printed email] at report
        exact report
    rw [place.1]
    exact cameBack.symm

/-! ## Soundness of the neck -/

/-- `date` never asks for the operands as options. -/
theorem ordering_optionConfig (environment : Environment) :
    (optionConfig environment).ordering ≠ .returnInOrder := by
  unfold optionConfig
  cases (environment "POSIXLY_CORRECT".toList).isSome <;> decide

/-- An option that is not known ends the program. -/
theorem handle_unrecognized (argmatch : Argmatch) (optarg : Option CStr)
    (vars : Vars Locale) :
    ∃ early, handle argmatch .unrecognized optarg vars = .error early :=
  ⟨_, rfl⟩

/--
Whatever the time functions, the clock and the files are, specialising `date`
on its options cannot be seen, exactly if the run ends in one of the tests
behind the neck or nothing it relies on is lost.
-/
theorem date_soundAt_iff
    {setlocale : Setlocale Locale} {argmatch : Argmatch}
    {startup restart : Locale} {environment : Environment} {name : Word}
    {words files : List Word}
    {neck : State × Vars Locale}
    (reached : scanOptions (optionConfig environment) (handle argmatch) name
      words (initial setlocale startup environment) = .left neck)
    (noOperand : operands neck.1 = [])
    (areOperands : ∀ file ∈ files, nonoption file) :
    (∀ (Zone Tm : Type) (library : Library Locale Zone Tm)
        (world : World),
      ((program setlocale argmatch library world startup environment).staged
        name).SoundAt
          (Presents (Resumed environment restart) name files) words
          (words ++ files)) ↔
      (rejected neck.2 files).isSome ∨
        Unaffected setlocale environment restart neck.2 := by
  have sound : ∀ {Zone Tm : Type} (library : Library Locale Zone Tm)
      (world : World),
      ((program setlocale argmatch library world startup environment).staged
        name).SoundAt
          (Presents (Resumed environment restart) name files) words
          (words ++ files) ↔
        ∀ vars, Resumed environment restart neck.2 vars →
          resume setlocale library world vars files =
            resume setlocale library world neck.2 files := by
    intro Zone Tm library world
    exact soundAt_iff (ordering_optionConfig environment)
      (handle_unrecognized argmatch) (reaches_iff.mpr reached) noOperand areOperands
  constructor
  · intro everywhere
    rcases accepted : rejected neck.2 files with _ | early
    · rcases exists_resumed environment restart neck.2 with
        ⟨resumed, copied⟩
      refine Or.inr (unaffected_of_probes copied accepted ?_)
      intro Seen
      exact (sound (probe Seen) twoLines).mp
        (everywhere _ _ (probe Seen) twoLines) resumed copied
    · exact Or.inl rfl
  · rintro (isRejected | unaffected) Zone Tm library world
    · rw [sound]
      intro vars copied
      rcases Option.isSome_iff_exists.mp isRejected with
        ⟨early, rejection⟩
      rw [Date.resume, Date.resume, copied.rejected, rejection]
    · rw [sound]
      intro vars copied
      exact unaffected.resume copied library world

/-- An environment without variables, and a `setlocale` with one locale. -/
def empty : Environment := fun _ => none

/-- A system with one locale. -/
def oneLocale : Setlocale Unit := fun _ _ _ locale => locale

/-- `date -u`, at its neck. -/
def utcNeck : State × Vars Unit :=
  let argument : StrObj := ⟨.argument 1, "-u".toList⟩
  (⟨argvOf ["date".toList, "-u".toList], 2, none, some ⟨argument, 2⟩, 2, 2⟩,
    { initial oneLocale () empty with environment := putUtc empty })

/-- `date -u` reaches this neck. -/
theorem reaches_utcNeck :
    scanOptions (optionConfig empty) (handle matchWhole) "date".toList
      ["-u".toList] (initial oneLocale () empty) = .left utcNeck := by
  rfl

/-- `date -u`, with and without a format. -/
theorem date_soundAt_iff_utc :
    (∀ (Zone Tm : Type) (library : Library Unit Zone Tm) (world : World),
      ((program oneLocale matchWhole library world () empty).staged
        "date".toList).SoundAt
          (Presents (Resumed empty ()) "date".toList ["+%Z".toList])
          ["-u".toList] (["-u".toList] ++ ["+%Z".toList])) ↔
      (rejected utcNeck.2 ["+%Z".toList]).isSome ∨
        Unaffected oneLocale empty () utcNeck.2 :=
  date_soundAt_iff reaches_utcNeck (by decide +kernel) (by decide)

/-- Time functions that print the `TZ` they are given. -/
def printTz : Library Unit Word Unit where
  dateFmtLanginfo _ := []
  tzalloc tzstring _ _ := tzstring.getD []
  localtimeRz _ _ _ _ := some ()
  fprintftime _ _ tz _ _ _ := tz
  parseDatetime2 _ _ _ _ _ _ now := some now
  posixtime _ _ _ now := some now.sec

/-- `date -u` prints in UTC; resumed it prints in the time zone of its
environment. -/
theorem date_utc_lost :
    ¬ ((program oneLocale matchWhole printTz twoLines () empty).staged
        "date".toList).SoundAt
          (Presents (Resumed empty ()) "date".toList [])
          ["-u".toList] (["-u".toList] ++ []) := by
  intro sound
  have resumed : Resumed empty () utcNeck.2 (initial oneLocale () empty) :=
    { datestr := ⟨rfl, nofun⟩
      setDatestr := ⟨rfl, nofun⟩
      setDate := rfl
      format := ⟨rfl, nofun⟩
      batchFile := ⟨rfl, nofun⟩
      reference := ⟨rfl, nofun⟩
      flags := rfl
      environment := rfl
      locale := rfl }
  have same := sound utcNeck _ (reaches_iff.mpr reaches_utcNeck)
    (presents_start resumed "date".toList [])
  revert same
  decide +kernel

end Lmcas.Date
