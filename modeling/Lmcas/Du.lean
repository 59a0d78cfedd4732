import Lmcas.Lib.TwoRuns
import Lmcas.System

/-!
# The configuration of `du`

`main` from `du.c`, up to its neck.  `-X FILE` reads patterns from a file in
the option loop; a file that cannot be read is noted in `ok`, and the run goes
on to the neck.
-/

namespace Lmcas.Du

open Lmcas.Lib.CString
open Lmcas.Lib.Getopt
open Lmcas.Lib.Iteration
open Lmcas.Lib.OptionLoop
open Lmcas.Lib.TwoRuns
open Lmcas.System

/-! ## Options -/

/-- `APPARENT_SIZE_OPTION`. -/
def apparentSizeOption : OptVal := .enum 128

/-- `EXCLUDE_OPTION`. -/
def excludeOption : OptVal := .enum 129

/-- `FILES0_FROM_OPTION`. -/
def files0FromOption : OptVal := .enum 130

/-- `HUMAN_SI_OPTION`. -/
def humanSiOption : OptVal := .enum 131

/-- `TIME_OPTION`. -/
def timeOption : OptVal := .enum 133

/-- `TIME_STYLE_OPTION`. -/
def timeStyleOption : OptVal := .enum 134

/-- `INODES_OPTION`. -/
def inodesOption : OptVal := .enum 135

/-- `long_options[]`. -/
def longOptions : List LongOption :=
  [⟨"all".toList, .no, .char 'a'⟩,
    ⟨"apparent-size".toList, .no, apparentSizeOption⟩,
    ⟨"block-size".toList, .required, .char 'B'⟩,
    ⟨"bytes".toList, .no, .char 'b'⟩,
    ⟨"count-links".toList, .no, .char 'l'⟩,
    ⟨"dereference".toList, .no, .char 'L'⟩,
    ⟨"dereference-args".toList, .no, .char 'D'⟩,
    ⟨"exclude".toList, .required, excludeOption⟩,
    ⟨"exclude-from".toList, .required, .char 'X'⟩,
    ⟨"files0-from".toList, .required, files0FromOption⟩,
    ⟨"human-readable".toList, .no, .char 'h'⟩,
    ⟨"inodes".toList, .no, inodesOption⟩,
    ⟨"si".toList, .no, humanSiOption⟩,
    ⟨"max-depth".toList, .required, .char 'd'⟩,
    ⟨"null".toList, .no, .char '0'⟩,
    ⟨"no-dereference".toList, .no, .char 'P'⟩,
    ⟨"one-file-system".toList, .no, .char 'x'⟩,
    ⟨"separate-dirs".toList, .no, .char 'S'⟩,
    ⟨"summarize".toList, .no, .char 's'⟩,
    ⟨"total".toList, .no, .char 'c'⟩,
    ⟨"threshold".toList, .required, .char 't'⟩,
    ⟨"time".toList, .optional, timeOption⟩,
    ⟨"time-style".toList, .required, timeStyleOption⟩,
    getoptHelpOptionDecl,
    getoptVersionOptionDecl]

/-- Which time stamp of a file is printed. -/
inductive TimeType where
  | mtime
  | ctime
  | atime
deriving DecidableEq, Repr

/-- `time_args[]` with `time_types[]`. -/
def timeTable : List (Word × TimeType) :=
  [("atime".toList, .atime), ("access".toList, .atime),
    ("use".toList, .atime), ("ctime".toList, .ctime),
    ("status".toList, .ctime)]

/-- How `main` calls `getopt_long`; the digit 0 is an option like the
letters. -/
def optionConfig (posixlyCorrect : Bool) : Config :=
  getoptInitialize "0abd:chHklmst:xB:DLPSX:".toList longOptions
    posixlyCorrect

/-! ## Bits -/

/-- A flag of gnulib's `human.h`: choose the unit by the size. -/
def humanAutoscale : BitVec 32 := 16

/-- A flag of `human.h`: the units are powers of 1024. -/
def humanBase1024 : BitVec 32 := 32

/-- A flag of `human.h`: print the unit. -/
def humanSI : BitVec 32 := 128

/-- A flag of `fts.h`: follow the links on the command line. -/
def ftsComfollow : BitVec 32 := 1

/-- A flag of `fts.h`: follow all links. -/
def ftsLogical : BitVec 32 := 2

/-- A flag of `fts.h`: files need no `stat`. -/
def ftsNostat : BitVec 32 := 8

/-- A flag of `fts.h`: follow no links. -/
def ftsPhysical : BitVec 32 := 16

/-- A flag of `fts.h`: stay on one file system. -/
def ftsXdev : BitVec 32 := 64

/-! ## Variables -/

/-- What `human_options` returns and stores. -/
structure HumanOptions where
  error : StrtolError
  opts : BitVec 32
  blockSize : Nat
deriving DecidableEq, Repr

/-- What is read from numerals, here in any base that C knows, and from block
sizes.  Without a text `human_options` goes by the environment. -/
structure Library extends Gnulib where
  xstrtoimax : Word → Word → StrtolError × Int
  humanOptions : Option Word → HumanOptions

/-- What `main` takes from the environment. -/
structure Environment where
  posixlyCorrect : Bool
  duBlockSize : Option Word
  tz : Option Word

/-- The patterns of an `exclude`, in the order in which they are added. -/
abbrev Exclude := List Word

/-- `add_exclude_file`: did it fail, and what has it added the patterns to? -/
abbrev AddExcludeFile := Word → Exclude → Bool × Exclude

/-- The variables that are set in front of the neck and read behind it. -/
structure Vars where
  optNulTerminateOutput : Bool
  optAll : Bool
  apparentSize : Bool
  humanOutputOpts : BitVec 32
  outputBlockSize : Nat
  printGrandTotal : Bool
  maxDepthSpecified : Bool
  maxDepth : Nat
  optCountAll : Bool
  optSummarizeOnly : Bool
  optThreshold : Int
  bitFlags : BitVec 32
  symlinkDerefBits : BitVec 32
  optSeparateDirs : Bool
  filesFrom : Option CStr
  optInodes : Bool
  optTime : Bool
  timeType : TimeType
  /-- The value of `TZ`, once there is a time zone. -/
  localtz : Option (Option Word)
  timeStyle : Option CStr
  exclude : Exclude
  ok : Bool
deriving DecidableEq, Repr

section

variable (library : Library) (environment : Environment)

/-- The variables before the first option: the block size of the environment is
already in. -/
def initial : Vars where
  optNulTerminateOutput := false
  optAll := false
  apparentSize := false
  humanOutputOpts := (library.humanOptions environment.duBlockSize).opts
  outputBlockSize := (library.humanOptions environment.duBlockSize).blockSize
  printGrandTotal := false
  maxDepthSpecified := false
  maxDepth := sizeMax
  optCountAll := false
  optSummarizeOnly := false
  optThreshold := 0
  bitFlags := ftsNostat
  symlinkDerefBits := ftsPhysical
  optSeparateDirs := false
  filesFrom := none
  optInodes := false
  optTime := false
  timeType := .mtime
  localtz := none
  timeStyle := none
  exclude := []
  ok := true

/-! ## The option loop -/

/-- `-d`: a number that is not valid is only noted, and the loop goes on. -/
def setMaxDepth (optarg : Word) (vars : Vars) : Vars :=
  let tmp := library.xstrtoumax optarg []
  if tmp.error = .ok ∧ tmp.value ≤ sizeMax then
    { vars with maxDepthSpecified := true, maxDepth := tmp.value }
  else { vars with ok := false }

/-- `-t`: a number that is not valid ends the program, and so does `-0`. -/
def setThreshold (optarg : Word) (vars : Vars) : Except Early Vars :=
  match library.xstrtoimax optarg "kKmMGTPEZY0".toList with
  | (.ok, threshold) =>
      if threshold = 0 ∧ optarg.head? = some '-' then
        .error (.die exitFailure)
      else .ok { vars with optThreshold := threshold }
  | (_, _) => .error (.die exitFailure)

/-- `-B`. -/
def setBlockSize (optarg : Word) (vars : Vars) : Except Early Vars :=
  let human := library.humanOptions (some optarg)
  if human.error = .ok then
    .ok
      { vars with
        humanOutputOpts := human.opts
        outputBlockSize := human.blockSize }
  else .error (.die exitFailure)

/-- The argument of `--time`, which is optional. -/
def timeTypeOf : Option CStr → Except Early TimeType
  | none => .ok .mtime
  | some optarg => keyword library.argmatch timeTable optarg.text

/-- The cases of the `switch` that read no file. -/
def setOption (ret : Ret) (optarg : Option CStr) (vars : Vars) :
    Except Early Vars :=
  match ret with
  | .val (.char '0') => .ok { vars with optNulTerminateOutput := true }
  | .val (.char 'a') => .ok { vars with optAll := true }
  | .val (.char 'b') =>
      .ok
        { vars with
          apparentSize := true
          humanOutputOpts := 0
          outputBlockSize := 1 }
  | .val (.char 'c') => .ok { vars with printGrandTotal := true }
  | .val (.char 'h') =>
      .ok
        { vars with
          humanOutputOpts := humanAutoscale ||| humanSI ||| humanBase1024
          outputBlockSize := 1 }
  | .val (.char 'k') =>
      .ok { vars with humanOutputOpts := 0, outputBlockSize := 1024 }
  | .val (.char 'd') => .ok (setMaxDepth library (argument optarg) vars)
  | .val (.char 'm') =>
      .ok { vars with humanOutputOpts := 0, outputBlockSize := 1024 * 1024 }
  | .val (.char 'l') => .ok { vars with optCountAll := true }
  | .val (.char 's') => .ok { vars with optSummarizeOnly := true }
  | .val (.char 't') => setThreshold library (argument optarg) vars
  | .val (.char 'x') =>
      .ok { vars with bitFlags := vars.bitFlags ||| ftsXdev }
  | .val (.char 'B') => setBlockSize library (argument optarg) vars
  | .val (.char 'H') | .val (.char 'D') =>
      .ok { vars with symlinkDerefBits := ftsComfollow ||| ftsPhysical }
  | .val (.char 'L') => .ok { vars with symlinkDerefBits := ftsLogical }
  | .val (.char 'P') => .ok { vars with symlinkDerefBits := ftsPhysical }
  | .val (.char 'S') => .ok { vars with optSeparateDirs := true }
  | ret =>
      if ret = .val apparentSizeOption then
        .ok { vars with apparentSize := true }
      else if ret = .val humanSiOption then
        .ok
          { vars with
            humanOutputOpts := humanAutoscale ||| humanSI
            outputBlockSize := 1 }
      else if ret = .val files0FromOption then
        .ok { vars with filesFrom := optarg }
      else if ret = .val excludeOption then
        .ok { vars with exclude := vars.exclude ++ [argument optarg] }
      else if ret = .val inodesOption then
        .ok { vars with optInodes := true }
      else if ret = .val timeOption then
        match timeTypeOf library optarg with
        | .error early => .error early
        | .ok timeType =>
            .ok
              { vars with
                optTime := true
                timeType := timeType
                localtz := some environment.tz }
      else if ret = .val timeStyleOption then
        .ok { vars with timeStyle := optarg }
      else if ret = .val getoptHelpChar ∨ ret = .val getoptVersionChar then
        .error (endingCase exitFailure ret)
      else .ok { vars with ok := false }

variable (addExcludeFile : AddExcludeFile)

/-- `-X`. -/
def excludeFrom (optarg : Word) (vars : Vars) : Vars :=
  let (failed, exclude) := addExcludeFile optarg vars.exclude
  { vars with exclude := exclude, ok := vars.ok && !failed }

/-- The `switch`. -/
def handle (ret : Ret) (optarg : Option CStr) (vars : Vars) :
    Except Early Vars :=
  if ret = .val (.char 'X') then
    .ok (excludeFrom addExcludeFile (argument optarg) vars)
  else setOption library environment ret optarg vars

/-- `main` up to the neck. -/
def configure (name : Word) (words : List Word) :
    Ending (State × Vars) Early :=
  scanOptions (optionConfig environment.posixlyCorrect)
    (handle library environment addExcludeFile) name words
    (initial library environment)

end

/-! ## Two runs -/

section TwoWorlds

variable {library : Library} {environment : Environment}
  {addExcludeFile addExcludeFile' : AddExcludeFile}

/-- The variables without the patterns and `ok`. -/
def Vars.blank (vars : Vars) : Vars :=
  { vars with exclude := [], ok := true }

/-- The variables of two runs, but for the patterns and `ok`. -/
def Agree (vars vars' : Vars) : Prop :=
  vars'.blank = vars.blank

/-- The patterns and the note of an error take no part in `-d`. -/
theorem setMaxDepth_blank (optarg : Word) (vars : Vars) :
    (setMaxDepth library optarg vars.blank).blank =
      (setMaxDepth library optarg vars).blank := by
  unfold setMaxDepth
  dsimp only
  split <;> rfl

/-- Nor do they in `-t`. -/
theorem setThreshold_blank (optarg : Word) (vars : Vars) :
    (setThreshold library optarg vars.blank).map Vars.blank =
      (setThreshold library optarg vars).map Vars.blank := by
  unfold setThreshold
  split
  · split <;> rfl
  · rfl

/-- Nor do they in `-B`. -/
theorem setBlockSize_blank (optarg : Word) (vars : Vars) :
    (setBlockSize library optarg vars.blank).map Vars.blank =
      (setBlockSize library optarg vars).map Vars.blank := by
  unfold setBlockSize
  dsimp only
  split <;> rfl

/-- No case looks at the patterns or at `ok`. -/
theorem setOption_blank (ret : Ret) (optarg : Option CStr) (vars : Vars) :
    (setOption library environment ret optarg vars.blank).map Vars.blank =
      (setOption library environment ret optarg vars).map Vars.blank := by
  unfold setOption
  split
  case h_7 => exact congrArg Except.ok (setMaxDepth_blank _ vars)
  case h_11 => exact setThreshold_blank _ vars
  case h_13 => exact setBlockSize_blank _ vars
  case h_19 =>
    repeat' split
    all_goals rfl
  all_goals rfl

/-- States that agree differ at most in the patterns and in the note of an
error. -/
theorem eq_of_blank_eq {vars vars' : Vars} (agree : Agree vars vars') :
    vars' = { vars with exclude := vars'.exclude, ok := vars'.ok } := by
  rcases vars with ⟨⟩
  rcases vars' with ⟨⟩
  simp only [Agree, Vars.blank, Vars.mk.injEq] at agree ⊢
  simp only [agree, and_self]

/-- An option keeps the agreement of two runs. -/
theorem setOption_agree {ret : Ret} {optarg : Option CStr}
    {vars vars' next next' : Vars} (agree : Agree vars vars')
    (set : setOption library environment ret optarg vars = .ok next)
    (set' : setOption library environment ret optarg vars' = .ok next') :
    Agree next next' := by
  have same : (setOption library environment ret optarg vars').map
      Vars.blank = (setOption library environment ret optarg vars).map
        Vars.blank := by
    rw [← setOption_blank, ← setOption_blank ret optarg vars, agree]
  rw [set, set'] at same
  exact Except.ok.inj same

/-- So does `-X`, which reads a file that may differ. -/
theorem handle_agree {ret : Ret} {optarg : Option CStr}
    {vars vars' next next' : Vars} (agree : Agree vars vars')
    (handled : handle library environment addExcludeFile ret optarg vars =
      .ok next)
    (handled' : handle library environment addExcludeFile' ret optarg vars' =
      .ok next') :
    Agree next next' := by
  unfold handle at handled handled'
  split at handled
  · rename_i fromFile
    rw [if_pos fromFile] at handled'
    cases handled
    cases handled'
    exact agree
  · rename_i noFile
    rw [if_neg noFile] at handled'
    exact setOption_agree agree handled handled'

/-- Without `-X` the world is not asked. -/
theorem handle_eq {ret : Ret} {optarg : Option CStr} {vars : Vars}
    (noFile : ret ≠ .val (.char 'X')) :
    handle library environment addExcludeFile ret optarg vars =
      setOption library environment ret optarg vars :=
  if_neg noFile

/-- The run has come to a `-X`. -/
def ReadsExcludeFile (library : Library) (environment : Environment)
    (addExcludeFile : AddExcludeFile) (name : Word) (words : List Word) :
    Prop :=
  ∃ optarg,
    Hands (optionConfig environment.posixlyCorrect)
      (handle library environment addExcludeFile)
      (start (argvOf (name :: words)), initial library environment)
      (.val (.char 'X')) optarg

/-- Whatever the pattern file holds, two runs that reach the neck agree there
but for the patterns and the note of an error. -/
theorem configure_agree {name : Word} {words : List Word}
    {neck neck' : State × Vars}
    (reached : configure library environment addExcludeFile name words =
      .left neck)
    (reached' : configure library environment addExcludeFile' name words =
      .left neck') :
    neck'.1 = neck.1 ∧
      neck'.2 =
        { neck.2 with exclude := neck'.2.exclude, ok := neck'.2.ok } := by
  have begins : Agree (initial library environment)
      (initial library environment) := rfl
  have ⟨scan, agree⟩ := scanOptions_agree (fun _ => handle_agree) begins
    reached reached'
  exact ⟨scan, eq_of_blank_eq agree⟩

/-- If no pattern file is read, they agree altogether. -/
theorem configure_eq {name : Word} {words : List Word}
    {neck neck' : State × Vars}
    (noFile : ¬ ReadsExcludeFile library environment addExcludeFile name
      words)
    (reached : configure library environment addExcludeFile name words =
      .left neck)
    (reached' : configure library environment addExcludeFile' name words =
      .left neck') :
    neck' = neck := by
  have step : ∀ {ret optarg vars₁ vars₂ next next'},
      Hands (optionConfig environment.posixlyCorrect)
        (handle library environment addExcludeFile)
        (start (argvOf (name :: words)), initial library environment)
        ret optarg →
      vars₂ = vars₁ →
      handle library environment addExcludeFile ret optarg vars₁ =
        .ok next →
      handle library environment addExcludeFile' ret optarg vars₂ =
        .ok next' →
      next' = next := by
    rintro ret optarg vars _ next next' hands rfl handled handled'
    have other : ret ≠ .val (.char 'X') := by
      rintro rfl
      exact noFile ⟨optarg, hands⟩
    rw [handle_eq other] at handled handled'
    exact Except.ok.inj (handled'.symm.trans handled)
  have ⟨scan, vars⟩ := @scanOptions_agree Vars Early _ _ _
    (fun vars vars' => vars' = vars) _ _ _ _ _ _ step rfl reached reached'
  exact Prod.ext scan vars

end TwoWorlds

end Lmcas.Du
