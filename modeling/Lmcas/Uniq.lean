import Lmcas.Lib.OrderedNeck
import Lmcas.UniqLines

/-!
# `uniq`

`main` from `uniq.c`.  Options, the obsolete `-N` and `+N`, and the files are
all read by one loop, and the neck stands behind it.  So the files are gone
once the neck is passed, and a run that is resumed there works on the ones of
the specialisation: standard input and standard output.
-/

namespace Lmcas.Uniq

open Lmcas.Lib.CString
open Lmcas.Lib.Getopt
open Lmcas.Lib.Iteration
open Lmcas.Lib.Neck
open Lmcas.Lib.OrderedLoop
open Lmcas.Lib.OrderedNeck
open Lmcas.System

/-! ## Options -/

/-- `delimit_method_string[]` with `delimit_method_map[]`. -/
def delimitMethod : List (Word × DelimitMethod) :=
  [("none".toList, .none), ("prepend".toList, .prepend),
    ("separate".toList, .separate)]

/-- `grouping_method_string[]` with `grouping_method_map[]`. -/
def groupingMethod : List (Word × GroupingMethod) :=
  [("prepend".toList, .prepend), ("append".toList, .append),
    ("separate".toList, .separate), ("both".toList, .both)]

/-- `CHAR_MAX + 1`. -/
def groupOption : OptVal := .enum 128

/-- `longopts[]`. -/
def longopts : List LongOption :=
  [⟨"count".toList, .no, .char 'c'⟩,
    ⟨"repeated".toList, .no, .char 'd'⟩,
    ⟨"all-repeated".toList, .optional, .char 'D'⟩,
    ⟨"group".toList, .optional, groupOption⟩,
    ⟨"ignore-case".toList, .no, .char 'i'⟩,
    ⟨"unique".toList, .no, .char 'u'⟩,
    ⟨"skip-fields".toList, .required, .char 'f'⟩,
    ⟨"skip-chars".toList, .required, .char 's'⟩,
    ⟨"check-chars".toList, .required, .char 'w'⟩,
    ⟨"zero-terminated".toList, .no, .char 'z'⟩,
    getoptHelpOptionDecl,
    getoptVersionOptionDecl]

/-- How `main` calls `getopt_long`; the dash in front asks for the operands in
order. -/
def optionConfig (posixlyCorrect : Bool) : Config :=
  getoptInitialize "-0123456789Dcdf:is:uw:z".toList longopts posixlyCorrect

/-- What `getenv ("POSIXLY_CORRECT")` and `posix2_version ()` find. -/
structure Environment where
  posixlyCorrect : Bool
  posix2Version : Int

/-- `strict_posix2`. -/
def strictPosix2 (environment : Environment) : Bool :=
  200112 ≤ environment.posix2Version &&
    environment.posix2Version < 200809

section

variable (gnulib : Gnulib) (environment : Environment)

/-- `size_opt`: a number too large stands for the largest. -/
def sizeOpt (opt : Word) : Except Early Nat :=
  let size := gnulib.xstrtoumax opt []
  match size.error with
  | .ok | .overflow => .ok (min size.value sizeMax)
  | _ => .error (.die exitFailure)

/-- `DECIMAL_DIGIT_ACCUMULATE` in a `size_t`; `none` if it overflows. -/
def decimalDigitAccumulate (accum digit : Nat) : Option Nat :=
  let sum := (accum * 10 + digit) % 2 ^ 64
  if sizeMax / 10 < accum ∨ sum < accum then none else some sum

/-- `file[nfiles++] = name`. -/
def storeFile (name : Word) (vars : Vars) : Except Early Vars :=
  if vars.nfiles = 2 then .error (.usage exitFailure)
  else
    .ok
      { vars with
        file := if vars.nfiles = 0 then (name, vars.file.2)
          else (vars.file.1, name)
        nfiles := vars.nfiles + 1 }

/-- The obsolete `+N`. -/
def plusOperand (optarg : Word) : Option Nat :=
  let size := gnulib.xstrtoumax optarg []
  if optarg.head? = some '+' ∧ !strictPosix2 environment ∧
      size.error = .ok ∧ size.value ≤ sizeMax then
    some size.value
  else none

/-- A digit of the obsolete `-N`. -/
def skipFieldsDigit (digit : Nat) (vars : Vars) : Vars :=
  let skipFields :=
    if vars.skipFieldOptionType = .new then 0 else vars.skipFields
  { vars with
    skipFields := (decimalDigitAccumulate skipFields digit).getD sizeMax
    skipFieldOptionType := .obsolete }

/-- The keyword of an option that may go without one. -/
def optionalKeyword {Value : Type} [DecidableEq Value]
    (table : List (Word × Value)) (default : Value) :
    Option CStr → Except Early Value
  | none => .ok default
  | some arg => keyword gnulib.argmatch table arg.text

/-- The `switch` on the options. -/
def setOption (ret : Ret) (optarg : Option CStr) (vars : Vars) :
    Except Early Vars :=
  match ret with
  | .nonopt =>
      match plusOperand gnulib environment (argument optarg) with
      | some size => .ok { vars with skipChars := size }
      | none => storeFile (argument optarg) vars
  | .val (.char 'c') =>
      .ok { vars with countmode := .countOccurrences, outputOptionUsed := true }
  | .val (.char 'd') =>
      .ok { vars with outputUnique := false, outputOptionUsed := true }
  | .val (.char 'D') =>
      match optionalKeyword gnulib delimitMethod .none optarg with
      | .error early => .error early
      | .ok delimitGroups =>
          .ok
            { vars with
              outputUnique := false
              outputLaterRepeated := true
              delimitGroups := delimitGroups
              outputOptionUsed := true }
  | .val (.char 'f') =>
      match sizeOpt gnulib (argument optarg) with
      | .error early => .error early
      | .ok size =>
          .ok { vars with skipFieldOptionType := .new, skipFields := size }
  | .val (.char 'i') => .ok { vars with ignoreCase := true }
  | .val (.char 's') =>
      match sizeOpt gnulib (argument optarg) with
      | .error early => .error early
      | .ok size => .ok { vars with skipChars := size }
  | .val (.char 'u') =>
      .ok { vars with outputFirstRepeated := false, outputOptionUsed := true }
  | .val (.char 'w') =>
      match sizeOpt gnulib (argument optarg) with
      | .error early => .error early
      | .ok size => .ok { vars with checkChars := size }
  | .val (.char 'z') => .ok { vars with delimiter := Char.ofNat 0 }
  | .val (.char optc) =>
      if optc.isDigit then
        .ok (skipFieldsDigit (optc.toNat - '0'.toNat) vars)
      else .error (endingCase exitFailure ret)
  | .val (.enum value) =>
      if ret = .val groupOption then
        match optionalKeyword gnulib groupingMethod .separate optarg with
        | .error early => .error early
        | .ok grouping => .ok { vars with grouping := grouping }
      else .error (endingCase exitFailure (.val (.enum value)))
  | ret => .error (endingCase exitFailure ret)

/-- No case of the `switch` moves `optind`. -/
def handle (ret : Ret) (scan : State) (vars : Vars) :
    Except Early (Nat × Vars) :=
  (setOption gnulib environment ret scan.optarg vars).map
    (scan.optind, ·)

/-- After a file, `POSIXLY_CORRECT` ends the options. -/
def optionSwitch : Switch Vars Early where
  config := optionConfig environment.posixlyCorrect
  pedantic _ vars := environment.posixlyCorrect && vars.nfiles != 0
  store := storeFile
  handle := handle gnulib environment

/-- The variables before the first option. -/
def initial : Vars where
  skipFields := 0
  skipChars := 0
  checkChars := sizeMax
  countmode := .countNone
  outputUnique := true
  outputFirstRepeated := true
  outputLaterRepeated := false
  ignoreCase := false
  delimitGroups := .none
  grouping := .none
  skipFieldOptionType := .none
  nfiles := 0
  file := (['-'], ['-'])
  delimiter := '\n'
  outputOptionUsed := false

end

/-! ## Behind the neck -/

/-- The combinations of options that `main` rejects. -/
def rejected (vars : Vars) : Bool :=
  vars.grouping ≠ .none && vars.outputOptionUsed ||
    vars.grouping ≠ .none && vars.countmode ≠ .countNone ||
      vars.countmode = .countOccurrences && vars.outputLaterRepeated

/-- How a run ends. -/
inductive Outcome where
  | early (early : Early)
  | checked (checked : Checked)
deriving DecidableEq, Repr

/-- `main` from the neck on. -/
def resume (library : Library) (vars : Vars) (world : World) : Outcome :=
  if rejected vars then .early (.usage exitFailure)
  else
    match checkFile library world vars vars.file.1 vars.file.2 with
    | none => .early (.die exitFailure)
    | some checked => .checked checked

/-! ## The loop -/

section Loop

variable {gnulib : Gnulib} {environment : Environment}

/-- A file counts. -/
theorem storeFile_nfiles {name : Word} {vars vars' : Vars}
    (stored : storeFile name vars = .ok vars') :
    vars'.nfiles = vars.nfiles + 1 := by
  unfold storeFile at stored
  split at stored
  · exact nomatch stored
  · cases stored
    rfl

/-- Only an operand is taken for a file. -/
theorem setOption_nfiles {ret : Ret} {optarg : Option CStr}
    {vars vars' : Vars}
    (set : setOption gnulib environment ret optarg vars = .ok vars') :
    (vars'.nfiles = vars.nfiles ∧ vars'.file = vars.file) ∨
      ret = .nonopt ∧ vars'.nfiles = vars.nfiles + 1 := by
  unfold setOption at set
  split at set
  case h_1 =>
    split at set
    · cases set
      exact .inl ⟨rfl, rfl⟩
    · exact .inr ⟨rfl, storeFile_nfiles set⟩
  all_goals
    refine .inl ?_
    repeat' split at set
    all_goals cases set
    all_goals exact ⟨rfl, rfl⟩

/-- A turn leaves the index where `getopt_long` has put it. -/
theorem handle_ok_iff {ret : Ret} {scan : State} {vars vars' : Vars}
    {optind : Nat} :
    handle gnulib environment ret scan vars = .ok (optind, vars') ↔
      setOption gnulib environment ret scan.optarg vars = .ok vars' ∧
        optind = scan.optind := by
  unfold handle
  rcases setOption gnulib environment ret scan.optarg vars with
    early | vars''
  · simp [Except.map]
  · simp [Except.map, and_comm, eq_comm]

/-- A file of a run with `POSIXLY_CORRECT` ends its options at a word
boundary. -/
def Kept (environment : Environment) (scan : State) (vars : Vars) : Prop :=
  environment.posixlyCorrect = true → vars.nfiles ≠ 0 → scan.pending = none

theorem inOrder_optionSwitch :
    (optionSwitch gnulib environment).config.ordering =
      .returnInOrder := rfl

/-- Options are no longer looked for behind a file, if the environment asks for
that. -/
theorem pedantic_eq_true_iff {scan : State} {vars : Vars} :
    (optionSwitch gnulib environment).pedantic scan vars = true ↔
      environment.posixlyCorrect = true ∧ vars.nfiles ≠ 0 := by
  simp [optionSwitch]

/-- The loop of `uniq` comes to an end. -/
theorem optionSwitch_tame :
    (optionSwitch gnulib environment).Tame (Kept environment) where
  inOrder := inOrder_optionSwitch
  boundary kept pedantic :=
    have ⟨posixly, files⟩ := pedantic_eq_true_iff.mp pedantic
    kept posixly files
  moves _ _ handled := .inl (handle_ok_iff.mp handled).2
  handled := by
    intro scan vars optind vars' ordered kept unpedantic _ handled posixly files
    rcases handle_ok_iff.mp handled with ⟨set, rfl⟩
    have noFiles : vars.nfiles = 0 := by
      by_contra several
      rw [pedantic_eq_true_iff.mpr ⟨posixly, several⟩] at unpedantic
      exact nomatch unpedantic
    rcases setOption_nfiles set with ⟨same, _⟩ | ⟨nonopt, _⟩
    · exact absurd (same.trans noFiles) files
    · exact pending_of_nonopt ordered.toPlaced nonopt
  stored := by
    intro scan vars word vars' kept pedantic _ _ _
    have ⟨posixly, files⟩ := pedantic_eq_true_iff.mp pedantic
    exact kept posixly files

end Loop

/-- `uniq`, where the libraries and the environment are those of the
machine it runs on. -/
def program (library : Library) (gnulib : Gnulib)
    (environment : Environment) :
    OrderedProgram Vars Early (World → Outcome) where
  switch := optionSwitch gnulib environment
  Kept := Kept environment
  tame := optionSwitch_tame
  initial := initial
  kept _ _ files := absurd rfl files
  early early _ := .early early
  resume := resume library

/-! ## Soundness of the neck -/

section Soundness

variable {library : Library} {gnulib : Gnulib}
  {environment : Environment}

/-- A file is no `+N`. -/
theorem plusOperand_of_isFile {word : Word} (isFile : IsFile word) :
    plusOperand gnulib environment word = none := by
  simp [Uniq.plusOperand, isFile.2]

/-- Without `POSIXLY_CORRECT` the files may as well stand at the end. -/
theorem optionSwitch_delays (unset : environment.posixlyCorrect = false) :
    (optionSwitch gnulib environment).Delays IsFile Vars.nfiles where
  inOrder := inOrder_optionSwitch
  unpedantic _ _ := by simp [optionSwitch, unset]
  rejects _ _ := ⟨_, rfl⟩
  operand := IsFile.nonoption
  alike := by
    intro scan pointer vars optarg isFile
    show handle gnulib environment .nonopt scan vars = _
    simp only [handle, setOption, optarg, argument, plusOperand_of_isFile isFile]
    rfl
  extend _ _ _ handled := handled
  stored stored := by
    rw [storeFile_nfiles stored]
    exact Nat.lt_succ_self _
  handled := by
    intro ret scan vars optind vars' handled
    rcases setOption_nfiles (handle_ok_iff.mp handled).1 with
      ⟨same, _⟩ | ⟨_, more⟩
    · exact Nat.le_of_eq same.symm
    · exact more ▸ Nat.le_succ _

/-- Without a file the names are still those of the standard streams. -/
def Standard (vars : Vars) : Prop :=
  vars.nfiles = 0 → vars.file = (['-'], ['-'])

/-- Without a file the standard input is read. -/
theorem file_of_nfiles_eq_zero {name : Word} {words : List Word}
    {neck : Scanning Vars}
    (reached : ((program library gnulib environment).staged name).Reaches
      words neck)
    (noFile : neck.vars.nfiles = 0) : neck.vars.file = (['-'], ['-']) := by
  have stored : ∀ {word vars vars'}, Standard vars →
      storeFile word vars = .ok vars' → Standard vars' := by
    intro word vars vars' _ stored noFile
    exact nomatch (storeFile_nfiles stored).symm.trans noFile
  have handled : ∀ {ret scan vars optind vars'}, Standard vars →
      handle gnulib environment ret scan vars = .ok (optind, vars') →
      Standard vars' := by
    intro ret scan vars optind vars' standard handled noFile
    rcases setOption_nfiles (handle_ok_iff.mp handled).1 with
      ⟨same, file⟩ | ⟨_, more⟩
    · exact file.trans (standard (same.symm.trans noFile))
    · exact nomatch more.symm.trans noFile
  have standard : Standard neck.vars :=
    vars_of_left stored handled (fun _ => rfl) (reaches_iff.mp reached)
  exact standard noFile

/-- Files are stored in the order in which they come. -/
theorem storeAll_cons {vars : Vars} {file : Word} {files : List Word}
    (noFile : vars.nfiles = 0) (few : files.length ≤ 1) :
    ∃ outfile nfiles,
      (optionSwitch gnulib environment).storeAll (file :: files) vars =
        .ok { vars with file := (file, outfile), nfiles := nfiles } := by
  match files, few with
  | [], _ =>
      refine ⟨vars.file.2, 1, ?_⟩
      simp [Switch.storeAll, optionSwitch, storeFile, noFile]
  | [second], _ =>
      refine ⟨second, 2, ?_⟩
      simp [Switch.storeAll, optionSwitch, storeFile, noFile]

/-- Nothing but standard input can be read. -/
def onlyStdin : World where
  stdin := ⟨[], false⟩
  files _ := none
  creates _ := true
  sameFile _ _ := false
  closeError _ := false
  writeError _ := false

/-- A run on a file that cannot be read differs from one on the standard
input. -/
theorem resume_onlyStdin {vars : Vars}
    (accepted : rejected vars = false)
    (standard : vars.file = (['-'], ['-'])) {file outfile : Word}
    {nfiles : Nat} (isFile : IsFile file) :
    resume library vars onlyStdin ≠
      resume library { vars with file := (file, outfile), nfiles := nfiles }
        onlyStdin := by
  have named : file ≠ ['-'] := by
    rintro rfl
    exact isFile.1 rfl
  have accepted' : rejected { vars with
      file := (file, outfile), nfiles := nfiles } = false := accepted
  simp [resume, accepted, accepted', standard, checkFile, World.opened,
    onlyStdin, named]

/--
A run resumed at the neck does what `uniq` does in one run if there is no file
to read, or if the options are rejected together.
-/
theorem uniq_soundAt_iff (unset : environment.posixlyCorrect = false)
    {name : Word} {words files : List Word} {neck : Scanning Vars}
    (reached : ((program library gnulib environment).staged name).Reaches
      words neck)
    (noFile : neck.vars.nfiles = 0)
    (areFiles : ∀ file ∈ files, IsFile file) (few : files.length ≤ 2) :
    ((program library gnulib environment).staged name).SoundAt
        (Presents name files) words (words ++ files) ↔
      files = [] ∨ rejected neck.vars = true := by
  rw [soundAt_iff (optionSwitch_delays unset) reached
    (Nat.le_of_eq noFile) areFiles]
  have standard := file_of_nfiles_eq_zero reached noFile
  cases files with
  | nil =>
      simp only [true_or, iff_true]
      rfl
  | cons file files =>
      rcases storeAll_cons noFile (Nat.le_of_succ_le_succ few) with
        ⟨outfile, nfiles, stored⟩
      have isFile := areFiles file List.mem_cons_self
      show resume library neck.vars = OrderedProgram.conclude _
        ((optionSwitch gnulib environment).storeAll (file :: files)
          neck.vars) ↔ _
      rw [stored]
      constructor
      · intro agree
        refine .inr ?_
        by_contra accepted
        exact resume_onlyStdin (Bool.not_eq_true _ ▸ accepted) standard isFile
          (congrFun agree onlyStdin)
      · rintro (empty | conflict)
        · exact nomatch empty
        · funext world
          have conflict' : rejected { neck.vars with
              file := (file, outfile), nfiles := nfiles } = true := conflict
          show resume library neck.vars world = resume library _ world
          simp [resume, conflict, conflict']

end Soundness

/-- The C locale. -/
def localeC : Library where
  fieldSep c := c = ' ' || c = '\t' || c = '\n'
  readLines delimiter input :=
    let pieces := input.bytes.splitOn delimiter
    -- the last piece is what follows the last delimiter
    if pieces.getLast? = some [] ∨ input.readError then pieces.dropLast
    else pieces
  memcasecmp old new :=
    ((List.zipWith (fun c c' => (c.toUpper.toNat : Int) - c'.toUpper.toNat) old
      new).find? (· ≠ 0)).getD 0

/-- No variable is set. -/
def unsetEnvironment : Environment := ⟨false, 200809⟩

/-- None of the words here is a number. -/
def noNumber : Gnulib := ⟨fun _ _ => ⟨.invalid, 0, 0⟩, matchWhole⟩

/-- `uniq -c`, at its neck. -/
def countNeck : Scanning Vars :=
  ⟨⟨argvOf ["uniq".toList, "-c".toList], 2, none,
      some ⟨⟨.argument 1, "-c".toList⟩, 2⟩, 1, 1⟩, true,
    { initial with
      countmode := .countOccurrences
      outputOptionUsed := true }⟩

/-- `uniq -c` reaches this neck. -/
theorem reaches_countNeck :
    ((program localeC noNumber unsetEnvironment).staged "uniq".toList).Reaches
      ["-c".toList] countNeck :=
  reaches_iff.mpr (.again rfl (.leave rfl))

/-- `uniq -c in`. -/
theorem uniq_soundAt_iff_count :
    ((program localeC noNumber unsetEnvironment).staged "uniq".toList).SoundAt
        (Presents "uniq".toList ["in".toList]) ["-c".toList]
        (["-c".toList] ++ ["in".toList]) ↔
      ["in".toList] = [] ∨ rejected countNeck.vars = true :=
  uniq_soundAt_iff rfl reaches_countNeck rfl isFile_in (by decide)

/-- Specialised on `-c`, `uniq in` reads standard input. -/
theorem uniq_count_misses_file :
    ¬ ((program localeC noNumber unsetEnvironment).staged
        "uniq".toList).SoundAt
      (Presents "uniq".toList ["in".toList]) ["-c".toList]
      (["-c".toList] ++ ["in".toList]) := by
  rw [soundAt_iff (optionSwitch_delays rfl) reaches_countNeck
    (Nat.le_refl 0) isFile_in]
  intro agree
  exact @resume_onlyStdin localeC countNeck.vars rfl rfl "in".toList ['-'] 1
    (isFile_in _ List.mem_cons_self) (congrFun agree onlyStdin)

end Lmcas.Uniq
