import Lmcas.Lib.NeckLoop
import Lmcas.System

/-!
# `date`

The annotated `main` of `date`.  Besides its variables the program has two
other kinds of state.  The process has an environment, which `-u` changes, and
a current locale.  `-R` makes `format` point to the static array
`rfc_email_format`, and `show_date` recognises this array by its address, not
by its contents.

The time functions of the library are the fields of `Library`: functions of
their arguments, the environment and the current locale.  `setlocale` is a
parameter of its own.
-/

namespace Lmcas.Date

open Lmcas.Lib.CString
open Lmcas.Lib.Getopt
open Lmcas.Lib.NeckLoop
open Lmcas.System

/-! ## The process and its library -/

/-- What `getenv` finds. -/
abbrev Environment := Word → Option Word

/-- The variable that names the time zone. -/
def tzName : Word := "TZ".toList

/-- What `-u` sets it to. -/
def utc0 : Word := "UTC0".toList

/-- `putenv ("TZ=UTC0")`. -/
def putUtc (environment : Environment) : Environment :=
  fun name => if name = tzName then some utc0 else environment name

/-- `struct timespec`. -/
structure Timespec where
  sec : Int
  nsec : Int
deriving DecidableEq, Repr

/-- `LC_ALL` and `LC_TIME`. -/
inductive Category where
  | all
  | time
deriving DecidableEq, Repr

/-- `setlocale (category, name)` in an environment and a current locale: the
new current locale. -/
abbrev Setlocale (Locale : Type) :=
  Category → Word → Environment → Locale → Locale

/-- The time functions.  `posixtime` is called with `PDS_TRAILING_YEAR`,
`PDS_CENTURY` and `PDS_SECONDS` only. -/
structure Library (Locale Zone Tm : Type) where
  dateFmtLanginfo : Locale → Word
  tzalloc : Option Word → Environment → Locale → Zone
  localtimeRz : Zone → Int → Environment → Locale → Option Tm
  fprintftime : Word → Tm → Zone → Int → Environment → Locale → Word
  parseDatetime2 : Word → BitVec 32 → Zone → Option Word →
    Environment → Locale → Timespec → Option Timespec
  posixtime : Word → Environment → Locale → Timespec → Option Int

/-- The lines of a file, and whether `fclose` succeeds. -/
structure File where
  lines : List Word
  closes : Bool
deriving DecidableEq, Repr

/-- The clock and the files. -/
structure World where
  now : Timespec
  settime : Timespec → Bool
  mtime : Word → Option Timespec
  stdin : File
  file : Word → Option File

/-! ## The option loop -/

/-- How much of the time `-I` and `--rfc-3339` print. -/
inductive TimeSpec where
  | date
  | seconds
  | ns
  | hours
  | minutes
deriving DecidableEq, Repr

/-- `time_spec_string[]` with `time_spec[]`; `--rfc-3339` skips the first
two. -/
def timeSpec : List (Word × TimeSpec) :=
  [("hours".toList, .hours), ("minutes".toList, .minutes),
    ("date".toList, .date), ("seconds".toList, .seconds),
    ("ns".toList, .ns)]

/-- The static array `rfc_email_format`. -/
def rfcEmailFormat : StrObj :=
  ⟨.static 0, "%a, %d %b %Y %H:%M:%S %z".toList⟩

/-- The rows of the static array `rfc_3339_format`, for the keywords that
`--rfc-3339` accepts. -/
def rfc3339Format : TimeSpec → StrObj
  | .date => ⟨.static 1, "%Y-%m-%d".toList⟩
  | .seconds => ⟨.static 2, "%Y-%m-%d %H:%M:%S%:z".toList⟩
  | _ => ⟨.static 3, "%Y-%m-%d %H:%M:%S.%N%:z".toList⟩

/-- The rows of the static array `iso_8601_format`. -/
def iso8601Format : TimeSpec → StrObj
  | .date => ⟨.static 4, "%Y-%m-%d".toList⟩
  | .seconds => ⟨.static 5, "%Y-%m-%dT%H:%M:%S%:z".toList⟩
  | .ns => ⟨.static 6, "%Y-%m-%dT%H:%M:%S,%N%:z".toList⟩
  | .hours => ⟨.static 7, "%Y-%m-%dT%H%:z".toList⟩
  | .minutes => ⟨.static 8, "%Y-%m-%dT%H:%M%:z".toList⟩

/-- `RFC_3339_OPTION`. -/
def rfc3339Option : OptVal := .enum 128

/-- `DEBUG_DATE_PARSING`. -/
def debugDateParsing : OptVal := .enum 129

/-- `short_options[]`. -/
def shortOptions : Word := "d:f:I::r:Rs:u".toList

/-- `long_options[]`. -/
def longOptions : List LongOption :=
  [⟨"date".toList, .required, .char 'd'⟩,
    ⟨"debug".toList, .no, debugDateParsing⟩,
    ⟨"file".toList, .required, .char 'f'⟩,
    ⟨"iso-8601".toList, .optional, .char 'I'⟩,
    ⟨"reference".toList, .required, .char 'r'⟩,
    ⟨"rfc-email".toList, .no, .char 'R'⟩,
    ⟨"rfc-822".toList, .no, .char 'R'⟩,
    ⟨"rfc-2822".toList, .no, .char 'R'⟩,
    ⟨"rfc-3339".toList, .required, rfc3339Option⟩,
    ⟨"set".toList, .required, .char 's'⟩,
    ⟨"uct".toList, .no, .char 'u'⟩,
    ⟨"utc".toList, .no, .char 'u'⟩,
    ⟨"universal".toList, .no, .char 'u'⟩,
    getoptHelpOptionDecl,
    getoptVersionOptionDecl]

/-- `PARSE_DATETIME_DEBUG`, a flag of the parser of dates. -/
def parseDatetimeDebug : BitVec 32 := 1

/-- The variables at the neck, and the state of the process. -/
structure Vars (Locale : Type) where
  datestr : Option CStr
  setDatestr : Option CStr
  setDate : Bool
  format : Option CStr
  batchFile : Option CStr
  reference : Option CStr
  parseDatetimeFlags : BitVec 32
  environment : Environment
  locale : Locale

variable {Locale Zone Tm : Type}

/-- The variables in front of the loop, behind `setlocale (LC_ALL, "")`. -/
def initial (setlocale : Setlocale Locale) (startup : Locale)
    (environment : Environment) : Vars Locale :=
  { datestr := none
    setDatestr := none
    setDate := false
    format := none
    batchFile := none
    reference := none
    parseDatetimeFlags := 0
    environment := environment
    locale := setlocale .all [] environment startup }

/-- The end of the loop body, for a case that sets `new_format`. -/
def setFormat (newFormat : StrObj) (vars : Vars Locale) :
    Except Early (Vars Locale) :=
  match vars.format with
  | some _ => .error (.die exitFailure)
  | none => .ok { vars with format := some newFormat.ptr }

/-- The loop body. -/
def handle (argmatch : Argmatch) (ret : Ret) (optarg : Option CStr)
    (vars : Vars Locale) :
    Except Early (Vars Locale) :=
  match ret with
  | .val (.char 'd') => .ok { vars with datestr := optarg }
  | .val (.char 'f') => .ok { vars with batchFile := optarg }
  | .val (.char 'I') =>
      match optarg with
      | none => setFormat (iso8601Format .date) vars
      | some pointer =>
          match keyword argmatch timeSpec pointer.text with
          | .error early => .error early
          | .ok spec => setFormat (iso8601Format spec) vars
  | .val (.char 'r') => .ok { vars with reference := optarg }
  | .val (.char 'R') => setFormat rfcEmailFormat vars
  | .val (.char 's') =>
      .ok { vars with setDatestr := optarg, setDate := true }
  | .val (.char 'u') =>
      .ok { vars with environment := putUtc vars.environment }
  | ret =>
      if ret = .val debugDateParsing then
        .ok { vars with
          parseDatetimeFlags :=
            vars.parseDatetimeFlags ||| parseDatetimeDebug }
      else if ret = .val rfc3339Option then
        match keyword argmatch (timeSpec.drop 2) (argument optarg) with
        | .error early => .error early
        | .ok spec => setFormat (rfc3339Format spec) vars
      else .error (endingCase exitFailure ret)

/-! ## Behind the neck -/

section

variable (setlocale : Setlocale Locale) (argmatch : Argmatch)
  (library : Library Locale Zone Tm) (world : World)

/-- What `show_date` writes, its result and the locale it leaves. -/
structure Shown (Locale : Type) where
  text : Word
  ok : Bool
  locale : Locale

/-- `show_date`: for the format of `-R` the locale of times is the C locale
while it prints. -/
def showDate (format : CStr) (time : Timespec) (tz : Zone)
    (environment : Environment) (locale : Locale) : Shown Locale :=
  match library.localtimeRz tz time.sec environment locale with
  | none => ⟨[], false, locale⟩
  | some tm =>
      -- The test compares addresses.
      let isEmail := decide (format = rfcEmailFormat.ptr)
      let printing :=
        if isEmail then setlocale .time ['C'] environment locale
        else locale
      ⟨library.fprintftime format.text tm tz time.nsec environment
          printing ++ ['\n'],
        true,
        if isEmail then setlocale .time [] environment printing
        else printing⟩

/-- The loop of `batch_convert` over the lines of the file. -/
def batchLines (flags : BitVec 32) (format : CStr) (tz : Zone)
    (tzstring : Option Word) (environment : Environment) :
    List Word → Locale → Shown Locale
  | [], locale => ⟨[], true, locale⟩
  | line :: lines, locale =>
      match library.parseDatetime2 line flags tz tzstring environment
          locale world.now with
      | none =>
          let rest := batchLines flags format tz tzstring environment lines
            locale
          { rest with ok := false }
      | some time =>
          let shown :=
            showDate setlocale library format time tz environment locale
          let rest := batchLines flags format tz tzstring environment lines
            shown.locale
          ⟨shown.text ++ rest.text, shown.ok && rest.ok, rest.locale⟩

/-- How a run ends: what it has written, the time it has asked the clock to
be set to, and its status. -/
inductive Outcome where
  | early (early : Early)
  | finished (stdout : Word) (request : Option Timespec) (status : Nat)
deriving DecidableEq, Repr

/-- `batch_convert`: each line of the file is a date. -/
def batchConvert (inputFilename : Word) (flags : BitVec 32)
    (format : CStr) (tz : Zone) (tzstring : Option Word)
    (environment : Environment) (locale : Locale) : Outcome :=
  let file :=
    if inputFilename = ['-'] then some world.stdin
    else world.file inputFilename
  match file with
  | none => .finished [] none exitFailure
  | some file =>
      let shown := batchLines setlocale library world flags format tz
        tzstring environment file.lines locale
      .finished shown.text none
        (if shown.ok && file.closes then exitSuccess else exitFailure)

/-- The time to print, and whether to set the clock to it; `none` for an
invalid date or a reference file that cannot be examined. -/
def chooseTime (vars : Vars Locale) (operand : Option Word) (tz : Zone)
    (tzstring : Option Word) : Option (Timespec × Bool) :=
  if !vars.datestr.isSome && !vars.reference.isSome && !vars.setDate then
    match operand with
    | some datestr =>
        (library.posixtime datestr vars.environment vars.locale
          world.now).map fun sec => (⟨sec, 0⟩, true)
    | none => some (world.now, false)
  else
    match vars.reference with
    | some reference =>
        (world.mtime reference.text).map fun time => (time, vars.setDate)
    | none =>
        let datestr :=
          match vars.setDatestr with
          | some pointer => pointer.text
          | none => (vars.datestr.map CStr.text).getD []
        (library.parseDatetime2 datestr vars.parseDatetimeFlags tz tzstring
          vars.environment vars.locale world.now).map
            fun time => (time, vars.setDate)

/-- The end of `main`, from `getenv ("TZ")` on, with the format and the
operand that is left. -/
def printDate (vars : Vars Locale) (format : CStr)
    (operand : Option Word) : Outcome :=
  let tzstring := vars.environment tzName
  let tz := library.tzalloc tzstring vars.environment vars.locale
  match vars.batchFile with
  | some batchFile =>
      batchConvert setlocale library world batchFile.text
        vars.parseDatetimeFlags format tz tzstring vars.environment
        vars.locale
  | none =>
      match chooseTime library world vars operand tz tzstring with
      | none => .finished [] none exitFailure
      | some (time, setDate) =>
          let shown := showDate setlocale library format time tz
            vars.environment vars.locale
          let ok := (!setDate || world.settime time) && shown.ok
          .finished shown.text (if setDate then some time else none)
            (if ok then exitSuccess else exitFailure)

/-- `option_specified_date`. -/
def optionSpecifiedDate (vars : Vars Locale) : Nat :=
  vars.datestr.toList.length + vars.batchFile.toList.length +
    vars.reference.toList.length

/-- The tests that end a run right behind its neck. -/
def rejected (vars : Vars Locale) (operands : List Word) :
    Option Early :=
  if 1 < optionSpecifiedDate vars then some (.usage exitFailure)
  else if vars.setDate ∧ optionSpecifiedDate vars ≠ 0 then
    some (.usage exitFailure)
  else
    match operands with
    | [] => none
    | [operand] =>
        if operand.head? = some '+' then
          if vars.format.isSome then some (.die exitFailure) else none
        else if vars.setDate ∨ optionSpecifiedDate vars ≠ 0 then
          some (.usage exitFailure)
        else none
    | _ => some (.usage exitFailure)

/-- The format that a `+FORMAT` operand, the option, the locale or the
program itself provides.  A format from the locale or from the program is no
object that anything is compared with. -/
def chooseFormat (vars : Vars Locale) (operands : List Word) : CStr :=
  match operands with
  | [] => default
  | ('+' :: format) :: _ => ⟨⟨.copy 0, '+' :: format⟩, 1⟩
  | _ => default
where
  default : CStr :=
    match vars.format with
    | some format => format
    | none =>
        let langinfo := library.dateFmtLanginfo vars.locale
        if langinfo = [] then
          ⟨⟨.copy 0, "%a %b %e %H:%M:%S %Z %Y".toList⟩, 0⟩
        else ⟨⟨.copy 0, langinfo⟩, 0⟩

/-- The operand that is left once a `+FORMAT` is taken. -/
def dateOperand : List Word → Option Word
  | [] => none
  | ('+' :: _) :: _ => none
  | operand :: _ => some operand

/-- `main` behind the neck. -/
def resume (vars : Vars Locale) (operands : List Word) : Outcome :=
  match rejected vars operands with
  | some early => .early early
  | none =>
      printDate setlocale library world vars
        (chooseFormat library vars operands) (dateOperand operands)

/-- How `main` calls `getopt_long`. -/
def optionConfig (environment : Environment) : Config :=
  getoptInitialize shortOptions longOptions
    (environment "POSIXLY_CORRECT".toList).isSome

/-- `date`, started in an environment. -/
def program (startup : Locale) (environment : Environment) :
    OptionProgram (Vars Locale) Early Outcome where
  config := optionConfig environment
  handle := handle argmatch
  initial := initial setlocale startup environment
  early := .early
  resume := resume setlocale library world

end

end Lmcas.Date
