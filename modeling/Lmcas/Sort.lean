import Lmcas.Lib.Fallible
import Lmcas.Lib.OrderedNeck
import Lmcas.SortKeys

/-!
# `sort`

The option loop of `main` from `sort.c`.  It stores the file operands as well,
and the cases `1` and `y` of its `switch` look at the argument vector and move
`optind`.
-/

namespace Lmcas.Sort

open Lmcas.Lib.CString
open Lmcas.Lib.Fallible
open Lmcas.Lib.Getopt
open Lmcas.Lib.OrderedLoop
open Lmcas.System

/-! ## Options -/

/-- `CHECK_OPTION`. -/
def checkOption : OptVal := .enum 128

/-- `COMPRESS_PROGRAM_OPTION`. -/
def compressProgramOption : OptVal := .enum 129

/-- `DEBUG_PROGRAM_OPTION`. -/
def debugProgramOption : OptVal := .enum 130

/-- `FILES0_FROM_OPTION`. -/
def files0FromOption : OptVal := .enum 131

/-- `NMERGE_OPTION`. -/
def nmergeOption : OptVal := .enum 132

/-- `RANDOM_SOURCE_OPTION`. -/
def randomSourceOption : OptVal := .enum 133

/-- `SORT_OPTION`. -/
def sortOption : OptVal := .enum 134

/-- `PARALLEL_OPTION`. -/
def parallelOption : OptVal := .enum 135

/-- `short_options[]`; the dash in front asks for the operands in order. -/
def shortOptions : Word := "-bcCdfghik:mMno:rRsS:t:T:uVy:z".toList

/-- `long_options[]`. -/
def longOptions : List LongOption :=
  [⟨"ignore-leading-blanks".toList, .no, .char 'b'⟩,
    ⟨"check".toList, .optional, checkOption⟩,
    ⟨"compress-program".toList, .required, compressProgramOption⟩,
    ⟨"debug".toList, .no, debugProgramOption⟩,
    ⟨"dictionary-order".toList, .no, .char 'd'⟩,
    ⟨"ignore-case".toList, .no, .char 'f'⟩,
    ⟨"files0-from".toList, .required, files0FromOption⟩,
    ⟨"general-numeric-sort".toList, .no, .char 'g'⟩,
    ⟨"ignore-nonprinting".toList, .no, .char 'i'⟩,
    ⟨"key".toList, .required, .char 'k'⟩,
    ⟨"merge".toList, .no, .char 'm'⟩,
    ⟨"month-sort".toList, .no, .char 'M'⟩,
    ⟨"numeric-sort".toList, .no, .char 'n'⟩,
    ⟨"human-numeric-sort".toList, .no, .char 'h'⟩,
    ⟨"version-sort".toList, .no, .char 'V'⟩,
    ⟨"random-sort".toList, .no, .char 'R'⟩,
    ⟨"random-source".toList, .required, randomSourceOption⟩,
    ⟨"sort".toList, .required, sortOption⟩,
    ⟨"output".toList, .required, .char 'o'⟩,
    ⟨"reverse".toList, .no, .char 'r'⟩,
    ⟨"stable".toList, .no, .char 's'⟩,
    ⟨"batch-size".toList, .required, nmergeOption⟩,
    ⟨"buffer-size".toList, .required, .char 'S'⟩,
    ⟨"field-separator".toList, .required, .char 't'⟩,
    ⟨"temporary-directory".toList, .required, .char 'T'⟩,
    ⟨"unique".toList, .no, .char 'u'⟩,
    ⟨"zero-terminated".toList, .no, .char 'z'⟩,
    ⟨"parallel".toList, .required, parallelOption⟩,
    getoptHelpOptionDecl,
    getoptVersionOptionDecl]

/-- `check_args[]` with `check_types[]`. -/
def checkTable : List (Word × Char) :=
  [("quiet".toList, 'C'), ("silent".toList, 'C'),
    ("diagnose-first".toList, 'c')]

/-- `sort_args[]` with `sort_types[]`. -/
def sortTable : List (Word × Char) :=
  [("general-numeric".toList, 'g'), ("human-numeric".toList, 'h'),
    ("month".toList, 'M'), ("numeric".toList, 'n'),
    ("random".toList, 'R'), ("version".toList, 'V')]

/-- How `main` calls `getopt_long`. -/
def optionConfig (posixlyCorrect : Bool) : Config :=
  getoptInitialize shortOptions longOptions posixlyCorrect

/-- What `getenv ("POSIXLY_CORRECT")` and `posix2_version ()` find. -/
structure Environment where
  posixlyCorrect : Bool
  posix2Version : Int

/-- What the options ask the machine for: the answer of `getrlimit` for
`RLIMIT_NOFILE`, or `OPEN_MAX` if there is none, and `physmem_total () * n / 100`
unless that is too much for `uintmax_t`. -/
structure Machine where
  rlimitNofile : Nat
  percentOfMemory : Nat → Option Nat

/-! ## Variables -/

/-- The variables of the loop.  `tab` is `none` for `TAB_DEFAULT`, `nfiles` is
the length of `files` and `temp_dir_count` that of `tempDirs`. -/
structure Vars where
  gkey : Keyfield
  keylist : List Keyfield
  checkonly : Option Char
  mergeonly : Bool
  randomSource : Option Word
  nthreads : Nat
  traditionalUsage : Bool
  files : List Word
  filesFrom : Option Word
  outfile : Option Word
  compressProgram : Option Word
  debug : Bool
  nmerge : Nat
  stable : Bool
  sortSize : Nat
  tab : Option Char
  tempDirs : List Word
  unique : Bool
  eolchar : Char
deriving DecidableEq, Repr

/-- The variables before the first option. -/
def initial (environment : Environment) : Vars where
  gkey := { keyInit with sword := sizeMax }
  keylist := []
  checkonly := none
  mergeonly := false
  randomSource := none
  nthreads := 0
  traditionalUsage :=
    !(200112 ≤ environment.posix2Version &&
      environment.posix2Version < 200809)
  files := []
  filesFrom := none
  outfile := none
  compressProgram := none
  debug := false
  nmerge := 16
  stable := false
  sortSize := 0
  tab := none
  tempDirs := []
  unique := false
  eolchar := '\n'

section

variable (gnulib : Gnulib) (machine : Machine)

/-- `max_nmerge`, an `unsigned int`. -/
def maxNmerge : Nat :=
  (machine.rlimitNofile + (2 ^ 64 - 3)) % 2 ^ 32

/-- `specify_nmerge`: at least two files, and no more than can be open. -/
def specifyNmerge (s : Word) (vars : Vars) : Except Early Vars :=
  let n := gnulib.xstrtoumax s []
  let nmerge := n.value % 2 ^ 32
  if n.error = .ok ∧ nmerge = n.value ∧ 2 ≤ nmerge ∧
      nmerge ≤ maxNmerge machine then
    .ok { vars with nmerge := nmerge }
  else .error (.die sortFailure)

/-- `MIN_SORT_SIZE`, where a `struct line` has 32 bytes. -/
def minSortSize (nmerge : Nat) : Nat := nmerge * 34

/-- The size that an argument of `-S` stands for. -/
def sortSizeOf (s : Word) : Option Nat :=
  let n := gnulib.xstrtoumax s "EgGkKmMPtTYZ".toList
  let endsInDigit := (s[n.suffix - 1]?.map Char.isDigit).getD false
  match n.error with
  | .ok =>
      if endsInDigit then
        if n.value ≤ uintmaxMax / 1024 then some (n.value * 1024) else none
      else some n.value
  | .invalidSuffixChar =>
      if endsInDigit then
        match s.drop n.suffix with
        | ['b'] => some n.value
        | ['%'] => machine.percentOfMemory n.value
        | _ => none
      else none
  | _ => none

/-- `specify_sort_size`: of several sizes the largest counts. -/
def specifySortSize (s : Word) (vars : Vars) : Except Early Vars :=
  match sortSizeOf gnulib machine s with
  | none => .error (.die sortFailure)
  | some n =>
      if n < vars.sortSize then .ok vars
      else .ok { vars with sortSize := max n (minSortSize vars.nmerge) }

/-- `specify_nthreads`: a number too large stands for the largest. -/
def specifyNthreads (s : Word) : Except Early Nat :=
  let nthreads := gnulib.xstrtoumax s []
  match nthreads.error with
  | .overflow => .ok sizeMax
  | .ok =>
      if nthreads.value = 0 then .error (.die sortFailure)
      else .ok (min nthreads.value sizeMax)
  | _ => .error (.die sortFailure)

/-- An option that may be given again only with the same argument. -/
def once (previous : Option Word) (optarg : Word) :
    Except Early (Option Word) :=
  if previous.any (· ≠ optarg) then .error (.die sortFailure)
  else .ok (some optarg)

/-- The argument of `-t`. -/
def newtab : Word → Except Early Char
  | [] => .error (.die sortFailure)
  | [c] => .ok c
  | optarg =>
      if optarg = "\\0".toList then .ok (Char.ofNat 0)
      else .error (.die sortFailure)

/-- `-t`, which may not be given twice with different characters. -/
def setTab (optarg : Word) (vars : Vars) : Except Early Vars :=
  match newtab optarg with
  | .error early => .error early
  | .ok newtab =>
      if vars.tab.any (· ≠ newtab) then .error (.die sortFailure)
      else .ok { vars with tab := some newtab }

/-- `-c` and `-C`, which exclude each other. -/
def setCheck (c : Char) (vars : Vars) : Except Early Vars :=
  if vars.checkonly.any (· ≠ c) then .error (.die sortFailure)
  else .ok { vars with checkonly := some c }

/-- The letters that set a global ordering option. -/
def isOrderingLetter (c : Char) : Bool :=
  c ∈ ['b', 'd', 'f', 'g', 'h', 'i', 'M', 'n', 'r', 'R', 'V']

/-- An ordering option outside of a key. -/
def setGlobal (c : Char) (vars : Vars) : Vars :=
  { vars with gkey := (setOrdering .both [c] vars.gkey).2 }

/-- The cases of the `switch` that do not look at the argument vector. -/
def setOption (ret : Ret) (optarg : Option CStr) (vars : Vars) :
    Except Early Vars :=
  match ret with
  | .val (.char 'c') => setCheck 'c' vars
  | .val (.char 'C') => setCheck 'C' vars
  | .val (.char 'k') =>
      (parseKey gnulib.xstrtoumax (argument optarg)).map fun key =>
        { vars with keylist := vars.keylist ++ [key] }
  | .val (.char 'm') => .ok { vars with mergeonly := true }
  | .val (.char 'o') =>
      (once vars.outfile (argument optarg)).map fun outfile =>
        { vars with outfile := outfile }
  | .val (.char 's') => .ok { vars with stable := true }
  | .val (.char 'S') =>
      specifySortSize gnulib machine (argument optarg) vars
  | .val (.char 't') => setTab (argument optarg) vars
  | .val (.char 'T') =>
      .ok { vars with tempDirs := vars.tempDirs ++ [argument optarg] }
  | .val (.char 'u') => .ok { vars with unique := true }
  | .val (.char 'y') => .ok vars
  | .val (.char 'z') => .ok { vars with eolchar := Char.ofNat 0 }
  | .val (.char c) =>
      if isOrderingLetter c then .ok (setGlobal c vars)
      else .error (endingCase sortFailure (.val (.char c)))
  | .val (.enum value) =>
      if ret = .val sortOption then
        (keyword gnulib.argmatch sortTable (argument optarg)).map (setGlobal · vars)
      else if ret = .val checkOption then
        match optarg with
        | none => setCheck 'c' vars
        | some optarg =>
            match keyword gnulib.argmatch checkTable optarg.text with
            | .error early => .error early
            | .ok c => setCheck c vars
      else if ret = .val compressProgramOption then
        (once vars.compressProgram (argument optarg)).map fun program =>
          { vars with compressProgram := program }
      else if ret = .val debugProgramOption then
        .ok { vars with debug := true }
      else if ret = .val files0FromOption then
        .ok { vars with filesFrom := some (argument optarg) }
      else if ret = .val nmergeOption then
        specifyNmerge gnulib machine (argument optarg) vars
      else if ret = .val randomSourceOption then
        (once vars.randomSource (argument optarg)).map fun source =>
          { vars with randomSource := source }
      else if ret = .val parallelOption then
        (specifyNthreads gnulib (argument optarg)).map fun nthreads =>
          { vars with nthreads := nthreads }
      else .error (endingCase sortFailure (.val (.enum value)))
  | ret => .error (endingCase sortFailure ret)

/-! ## The cases that look at the argument vector -/

/-- Is the next word a `-POS2`? -/
def minusPosUsage (scan : State) : Option Word :=
  match scan.argv[scan.optind]? with
  | none => none
  | some obj =>
      match obj.chars with
      | '-' :: c :: s => if c.isDigit then some (c :: s) else none
      | _ => none

/-- `files[nfiles++] = name`. -/
def storeFile (name : Word) (vars : Vars) : Except Early Vars :=
  .ok { vars with files := vars.files ++ [name] }

/-- An operand: `+POS1 [-POS2]`, or a file. -/
def setOperand (posixlyCorrect : Bool) (optarg : Word) (scan : State)
    (vars : Vars) : Except Early (Nat × Vars) :=
  match optarg with
  | '+' :: s =>
      let vars :=
        { vars with
          traditionalUsage := vars.traditionalUsage ||
            (minusPosUsage scan).isSome && !posixlyCorrect }
      if vars.traditionalUsage then
        match parsePlusPos gnulib.xstrtoumax s, minusPosUsage scan with
        | none, _ => (storeFile optarg vars).map (scan.optind, ·)
        | some key, none =>
            .ok (scan.optind,
              { vars with
                keylist := vars.keylist ++
                  [{ key with traditionalUsed := true }] })
        | some key, some pos2 =>
            (parseMinusPos gnulib.xstrtoumax pos2 key).map fun key =>
              (scan.optind + 1,
                { vars with
                  keylist := vars.keylist ++
                    [{ key with traditionalUsed := true }] })
      else (storeFile optarg vars).map (scan.optind, ·)
  | _ => (storeFile optarg vars).map (scan.optind, ·)

/-- The words that `-y` has taken: a word of its own is given back if it is no
number. -/
def afterY (scan : State) : Nat :=
  if scan.optarg.isSome ∧
      scan.optarg = scan.argv[scan.optind - 1]?.map StrObj.ptr ∧
      (argument scan.optarg).dropWhile Char.isDigit ≠ [] then
    scan.optind - 1
  else scan.optind

/-- The `switch`. -/
def handle (environment : Environment) (ret : Ret) (scan : State)
    (vars : Vars) : Except Early (Nat × Vars) :=
  match ret with
  | .nonopt =>
      setOperand gnulib environment.posixlyCorrect
        (argument scan.optarg) scan vars
  | ret =>
      (setOption gnulib machine ret scan.optarg vars).map
        ((if ret = .val (.char 'y') then afterY scan else scan.optind), ·)

/-- `-o FILE` or `-oFILE`. -/
def isOutputWord (scan : State) : Bool :=
  match scan.argv[scan.optind]? with
  | none => false
  | some obj =>
      match obj.chars with
      | ['-', 'o'] => scan.optind + 1 ≠ scan.argc
      | '-' :: 'o' :: _ => true
      | _ => false

/-- After a file, `POSIXLY_CORRECT` ends the options but for `-o`. -/
def optionSwitch (environment : Environment) : Switch Vars Early where
  config := optionConfig environment.posixlyCorrect
  pedantic scan vars :=
    environment.posixlyCorrect && vars.files ≠ [] &&
      !(vars.traditionalUsage && vars.checkonly.isNone && isOutputWord scan)
  store := storeFile
  handle := handle gnulib machine environment

end

/-! ## The loop -/

section Loop

variable {gnulib : Gnulib} {machine : Machine}
  {environment : Environment}

/-- What `-c` sets. -/
theorem setCheck_ok {c : Char} {vars vars' : Vars}
    (set : setCheck c vars = .ok vars') :
    vars' = { vars with checkonly := some c } := by
  unfold setCheck at set
  split at set <;> cases set
  rfl

/-- What `-t` sets. -/
theorem setTab_ok {optarg : Word} {vars vars' : Vars}
    (set : setTab optarg vars = .ok vars') :
    ∃ tab, vars' = { vars with tab := some tab } := by
  unfold setTab at set
  split at set
  · cases set
  · split at set <;> cases set
    exact ⟨_, rfl⟩

/-- What `-S` sets. -/
theorem specifySortSize_ok {s : Word} {vars vars' : Vars}
    (set : specifySortSize gnulib machine s vars = .ok vars') :
    ∃ sortSize, vars' = { vars with sortSize := sortSize } := by
  unfold specifySortSize at set
  split at set
  · cases set
  · split at set <;> cases set <;> exact ⟨_, rfl⟩

/-- What `--batch-size` sets is at least two. -/
theorem specifyNmerge_ok {s : Word} {vars vars' : Vars}
    (set : specifyNmerge gnulib machine s vars = .ok vars') :
    ∃ nmerge, 2 ≤ nmerge ∧ vars' = { vars with nmerge := nmerge } := by
  unfold specifyNmerge at set
  dsimp only at set
  split at set <;> cases set
  rename_i accepted
  exact ⟨_, accepted.2.2.1, rfl⟩

/-- No option stores a file. -/
theorem setOption_files {ret : Ret} {optarg : Option CStr}
    {vars vars' : Vars}
    (set : setOption gnulib machine ret optarg vars = .ok vars') :
    vars'.files = vars.files := by
  unfold setOption at set
  repeat' split at set
  all_goals first
    | (obtain rfl := setCheck_ok set; rfl)
    | (obtain ⟨_, rfl⟩ := setTab_ok set; rfl)
    | (obtain ⟨_, rfl⟩ := specifySortSize_ok set; rfl)
    | (obtain ⟨_, _, rfl⟩ := specifyNmerge_ok set; rfl)
    | (obtain ⟨_, _, rfl⟩ := map_eq_ok_iff.mp set; rfl)
    | (cases set <;> rfl)

/-- Every option leaves it at least two. -/
theorem setOption_nmerge {ret : Ret} {optarg : Option CStr}
    {vars vars' : Vars} (atLeast : 2 ≤ vars.nmerge)
    (set : setOption gnulib machine ret optarg vars = .ok vars') :
    2 ≤ vars'.nmerge := by
  unfold setOption at set
  repeat' split at set
  all_goals first
    | (obtain rfl := setCheck_ok set; exact atLeast)
    | (obtain ⟨_, rfl⟩ := setTab_ok set; exact atLeast)
    | (obtain ⟨_, rfl⟩ := specifySortSize_ok set; exact atLeast)
    | (obtain ⟨_, two, rfl⟩ := specifyNmerge_ok set; exact two)
    | (obtain ⟨_, _, rfl⟩ := map_eq_ok_iff.mp set; exact atLeast)
    | (cases set <;> exact atLeast)

theorem storeFile_ok {name : Word} {vars vars' : Vars}
    (stored : storeFile name vars = .ok vars') :
    vars' = { vars with files := vars.files ++ [name] } :=
  (Except.ok.inj stored).symm

/-- The fields that an operand can change. -/
def Operand (optarg : Word) (vars vars' : Vars) : Prop :=
  ∃ traditionalUsage keylist files,
    vars' =
      { vars with
        traditionalUsage := traditionalUsage
        keylist := keylist
        files := files } ∧
    (files = vars.files ∨ files = vars.files ++ [optarg])

theorem storeFile_operand {optarg : Word} {vars vars' : Vars}
    (usage : Bool)
    (stored : storeFile optarg { vars with traditionalUsage := usage } =
      .ok vars') : Operand optarg vars vars' :=
  ⟨usage, vars.keylist, vars.files ++ [optarg], storeFile_ok stored,
    .inr rfl⟩

/-- An operand is a file or a key.  A key may have taken the next word. -/
theorem setOperand_ok {posixlyCorrect : Bool} {optarg : Word} {scan : State}
    {vars vars' : Vars} {optind : Nat}
    (set : setOperand gnulib posixlyCorrect optarg scan vars =
      .ok (optind, vars')) :
    (optind = scan.optind ∨
        optind = scan.optind + 1 ∧ (minusPosUsage scan).isSome = true) ∧
      Operand optarg vars vars' := by
  unfold setOperand at set
  split at set
  · dsimp only at set
    split at set
    · split at set
      · rcases map_eq_ok_iff.mp set with ⟨_, stored, moved⟩
        cases moved
        exact ⟨.inl rfl, storeFile_operand _ stored⟩
      · cases set
        exact ⟨.inl rfl, _, _, _, rfl, .inl rfl⟩
      · rename_i pos2 usage
        rcases map_eq_ok_iff.mp set with ⟨key, _, moved⟩
        cases moved
        exact ⟨.inr ⟨rfl, by rw [usage]; rfl⟩, _, _, _, rfl, .inl rfl⟩
    · rcases map_eq_ok_iff.mp set with ⟨_, stored, moved⟩
      cases moved
      exact ⟨.inl rfl, storeFile_operand _ stored⟩
  · rcases map_eq_ok_iff.mp set with ⟨_, stored, moved⟩
    cases moved
    exact ⟨.inl rfl, storeFile_operand _ stored⟩

/-- What a case of the `switch` can do to `optind` and to the files. -/
theorem handle_cases {ret : Ret} {scan : State} {vars vars' : Vars}
    {optind : Nat}
    (handled : handle gnulib machine environment ret scan vars =
      .ok (optind, vars')) :
    (ret = .nonopt ∧
      setOperand gnulib environment.posixlyCorrect
        (argument scan.optarg) scan vars = .ok (optind, vars')) ∨
    (ret ≠ .nonopt ∧
      setOption gnulib machine ret scan.optarg vars = .ok vars' ∧
      optind =
        if ret = .val (.char 'y') then afterY scan else scan.optind) := by
  unfold handle at handled
  split at handled
  · exact .inl ⟨rfl, handled⟩
  · rename_i ret notOperand
    rcases map_eq_ok_iff.mp handled with ⟨vars'', set, moved⟩
    cases moved
    exact .inr ⟨notOperand, set, rfl⟩

/-- `nfiles` never goes down. -/
theorem handle_files {ret : Ret} {scan : State} {vars vars' : Vars}
    {optind : Nat}
    (handled : handle gnulib machine environment ret scan vars =
      .ok (optind, vars')) :
    vars.files.length ≤ vars'.files.length := by
  rcases handle_cases handled with ⟨_, set⟩ | ⟨_, set, _⟩
  · obtain ⟨_, _, files, rfl, same | more⟩ := (setOperand_ok set).2
    · exact Nat.le_of_eq (congrArg List.length same.symm)
    · rw [show files = vars.files ++ _ from more, List.length_append]
      exact Nat.le_add_right _ _
  · rw [setOption_files set]

/-- No case of the `switch` merges less than two files at a time. -/
theorem handle_nmerge {ret : Ret} {scan : State} {vars vars' : Vars}
    {optind : Nat} (atLeast : 2 ≤ vars.nmerge)
    (handled : handle gnulib machine environment ret scan vars =
      .ok (optind, vars')) :
    2 ≤ vars'.nmerge := by
  rcases handle_cases handled with ⟨_, set⟩ | ⟨_, set, _⟩
  · obtain ⟨_, _, _, rfl, _⟩ := (setOperand_ok set).2
    exact atLeast
  · exact setOption_nmerge atLeast set

/-! ## The invariant -/

/-- A file of a run with `POSIXLY_CORRECT` ends its options at a word
boundary. -/
def Kept (environment : Environment) (scan : State) (vars : Vars) : Prop :=
  environment.posixlyCorrect = true → vars.files ≠ [] → scan.pending = none

theorem inOrder_optionSwitch :
    (optionSwitch gnulib machine environment).config.ordering =
      .returnInOrder := rfl

theorem inPlace_optionSwitch :
    (optionSwitch gnulib machine environment).config.ordering ≠
      .permute := nofun

/-- Options are no longer looked for behind a file, if the environment asks for
that. -/
theorem pedantic_cases {scan : State} {vars : Vars}
    (pedantic : (optionSwitch gnulib machine environment).pedantic scan
      vars = true) :
    environment.posixlyCorrect = true ∧ vars.files ≠ [] := by
  simp only [optionSwitch, Bool.and_eq_true, decide_eq_true_eq] at pedantic
  exact pedantic.1

/-- But for `-o`, which may still follow. -/
theorem isOutputWord_of_unpedantic {scan : State} {vars : Vars}
    (unpedantic : (optionSwitch gnulib machine environment).pedantic scan
      vars = false)
    (posixly : environment.posixlyCorrect = true)
    (files : vars.files ≠ []) : isOutputWord scan = true := by
  simp only [optionSwitch, posixly, files, ne_eq, not_false_eq_true,
    decide_true, Bool.true_and, Bool.not_eq_false',
    Bool.and_eq_true] at unpedantic
  exact unpedantic.2

/-- The word that `-y` gives back is its own, behind the words it began
with. -/
theorem afterY_movesTo {config : Config} {state : State}
    (order : config.ordering ≠ .permute) (ordered : Ordered state)
    {value : OptVal} (option : (getoptLong config state).1 = .val value) :
    MovesTo state (getoptLong config state).2
      (afterY (getoptLong config state).2) := by
  have notEof : (getoptLong config state).1 ≠ .eof := by
    rw [option]
    nofun
  unfold afterY
  split
  · rename_i taken
    rcases found : (getoptLong config state).2.optarg with _ | argument
    · rw [found] at taken
      exact nomatch taken.1
    · have whole : argument.off = 0 := by
        rw [found] at taken
        rcases word : (getoptLong config state).2.argv[
            (getoptLong config state).2.optind - 1]? with _ | obj
        · rw [word] at taken
          exact nomatch taken.2.1
        · rw [word] at taken
          cases taken.2.1
          rfl
      have ⟨optind, boundary⟩ :=
        getoptLong_wordArgument order ordered.toPlaced option found whole
      have inside :=
        (getoptLong_advanced config ordered.toPlaced notEof).placed.optind_le
      refine .inr ⟨?_, ?_, boundary⟩ <;> omega
  · exact .inl rfl

/-- The obsolete `-POS` stands at the index. -/
theorem optind_lt_of_minusPosUsage {scan : State}
    (usage : (minusPosUsage scan).isSome = true) :
    scan.optind < scan.argc := by
  unfold minusPosUsage at usage
  split at usage
  · exact nomatch usage
  · rename_i found
    exact (List.getElem?_eq_some_iff.mp found).1

/-- `-o` is read with its argument. -/
theorem pending_of_isOutputWord {state : State} (placed : Placed state)
    (boundary : state.pending = none) (output : isOutputWord state = true) :
    (getoptLong (optionSwitch gnulib machine environment).config
      state).2.pending = none := by
  rcases found : state.argv[state.optind]? with _ | obj
  · rw [isOutputWord, found] at output
    exact nomatch output
  · have short : element obj.chars = .short 'o' := by
      simp only [isOutputWord, found] at output
      split at output
      · rename_i chars
        rw [chars]
        rfl
      · rename_i chars
        rw [chars]
        rfl
      · exact nomatch output
    rw [getoptLong_short inPlace_optionSwitch placed boundary found short]
    exact shortOption_pending_of_required rfl

/-- A turn moves the index on, past `-POS` and past the digits behind `-y`. -/
theorem handle_movesTo {state : State} {vars vars' : Vars} {optind : Nat}
    (ordered : Ordered state)
    (notEof : (getoptLong (optionSwitch gnulib machine
      environment).config state).1 ≠ .eof)
    (handled : handle gnulib machine environment
      (getoptLong (optionSwitch gnulib machine
        environment).config state).1
      (getoptLong (optionSwitch gnulib machine
        environment).config state).2 vars = .ok (optind, vars')) :
    MovesTo state (getoptLong (optionSwitch gnulib machine
      environment).config state).2 optind := by
  rcases handle_cases handled with ⟨nonopt, set⟩ | ⟨_, _, rfl⟩
  · rcases (setOperand_ok set).1 with same | ⟨rfl, usage⟩
    · exact .inl same
    · have advanced := getoptLong_advanced _ ordered.toPlaced notEof
      exact .inr ⟨Nat.lt_succ_of_le advanced.forward,
        optind_lt_of_minusPosUsage usage,
        pending_of_nonopt ordered.toPlaced nonopt⟩
  · split
    · rename_i option
      exact afterY_movesTo inPlace_optionSwitch ordered option
    · exact .inl rfl

/-- The loop of `sort` comes to an end. -/
theorem optionSwitch_tame :
    (optionSwitch gnulib machine environment).Tame
      (Kept environment) where
  inOrder := inOrder_optionSwitch
  boundary kept pedantic :=
    have ⟨posixly, files⟩ := pedantic_cases pedantic
    kept posixly files
  moves ordered notEof handled := handle_movesTo ordered notEof handled
  handled := by
    intro state vars optind vars' ordered kept unpedantic _ handled posixly
      files
    rcases handle_cases handled with ⟨nonopt, _⟩ | ⟨_, set, _⟩
    · exact pending_of_nonopt ordered.toPlaced nonopt
    · rw [setOption_files set] at files
      exact pending_of_isOutputWord ordered.toPlaced (kept posixly files)
        (isOutputWord_of_unpedantic unpedantic posixly files)
  stored := by
    intro state vars word vars' kept pedantic _ _ _
    have ⟨posixly, files⟩ := pedantic_cases pedantic
    exact kept posixly files

/-! ## Files behind the options -/

/-- Files behind the words are no `-POS`. -/
theorem minusPosUsage_extend {scan : State} {added : List StrObj}
    (operands : ∀ obj ∈ added, IsFile obj.chars)
    (inside : scan.optind ≤ scan.argc) :
    minusPosUsage (scan.extend added) = minusPosUsage scan := by
  rcases Nat.lt_or_eq_of_le inside with before | atEnd
  · have same : (scan.extend added).argv[(scan.extend added).optind]? =
        scan.argv[scan.optind]? := List.getElem?_append_left before
    rw [minusPosUsage, minusPosUsage, same]
  · have noWord : scan.argv[scan.optind]? = none :=
      List.getElem?_eq_none_iff.mpr (Nat.le_of_eq atEnd.symm)
    rcases next : (scan.extend added).argv[(scan.extend added).optind]?
      with _ | obj
    · rw [minusPosUsage, minusPosUsage, next, noWord]
    · have member : obj ∈ added := by
        rw [extend_argv, extend_optind,
          List.getElem?_append_right (Nat.le_of_eq atEnd.symm)] at next
        exact List.mem_of_getElem? next
      have isFile := operands obj member
      rw [minusPosUsage, minusPosUsage, next, noWord]
      dsimp only
      split
      · rename_i chars
        exact absurd (by rw [chars]; rfl) isFile.1
      · rfl

theorem afterY_extend {scan : State} (added : List StrObj)
    (inside : scan.optind ≤ scan.argc) :
    afterY (scan.extend added) = afterY scan := by
  rcases zero : scan.optind with _ | optind
  · simp [afterY, zero]
  · have last : optind < scan.argv.length := by
      rw [zero] at inside
      exact inside
    simp only [afterY, extend_optind, extend_argv, zero,
      Nat.add_sub_cancel, List.getElem?_append_left last]
    rfl

/-- An option is handled the same with files behind the words. -/
theorem handle_extend {ret : Ret} {scan : State} {vars : Vars}
    {added : List StrObj} (operands : ∀ obj ∈ added, IsFile obj.chars)
    (inside : scan.optind ≤ scan.argc) :
    handle gnulib machine environment ret (scan.extend added) vars =
      handle gnulib machine environment ret scan vars := by
  have usage := minusPosUsage_extend operands inside
  have after := afterY_extend added inside
  unfold handle setOperand
  simp only [usage, after, extend_optind, extend_optarg]

/-- A file is stored. -/
theorem setOperand_of_isFile {posixlyCorrect : Bool} {optarg : Word}
    {scan : State} {vars : Vars} (isFile : IsFile optarg) :
    setOperand gnulib posixlyCorrect optarg scan vars =
      (storeFile optarg vars).map (scan.optind, ·) := by
  unfold setOperand
  split
  · exact absurd rfl isFile.2
  · rfl

/-- Without `POSIXLY_CORRECT` the files may as well stand at the end. -/
theorem optionSwitch_delays (unset : environment.posixlyCorrect = false) :
    (optionSwitch gnulib machine environment).Delays IsFile
      (·.files.length) where
  inOrder := inOrder_optionSwitch
  unpedantic _ _ := by simp [optionSwitch, unset]
  rejects _ _ := ⟨_, rfl⟩
  operand := IsFile.nonoption
  alike := by
    intro scan pointer vars optarg isFile
    show handle gnulib machine environment .nonopt scan vars = _
    simp only [handle, optarg, argument]
    exact setOperand_of_isFile isFile
  extend _ operands inside handled :=
    (handle_extend operands inside).trans handled
  stored stored := by
    rw [storeFile_ok stored, List.length_append]
    exact Nat.lt_succ_self _
  handled := handle_files

/-- Files are stored in the order in which they come. -/
theorem storeAll_eq (files : List Word) (vars : Vars) :
    (optionSwitch gnulib machine environment).storeAll files vars =
      .ok { vars with files := vars.files ++ files } := by
  induction files generalizing vars with
  | nil => simp [Switch.storeAll]
  | cons file files inductionHypothesis =>
      have stored : (optionSwitch gnulib machine environment).store file
          vars = .ok { vars with files := vars.files ++ [file] } := rfl
      rw [Switch.storeAll, stored]
      simp only [inductionHypothesis, List.append_assoc, List.singleton_append]

end Loop

end Lmcas.Sort
