import Lmcas.Sort

/-!
# The neck of `sort`

The second part of `main` from `sort.c`, up to the point where the first input
is open.  The files of the command line are stored in front of the neck, so a
run that is resumed there sorts the ones of the specialisation: none, which
stands for standard input.
-/

namespace Lmcas.Sort

open Lmcas.Lib.CString
open Lmcas.Lib.Getopt
open Lmcas.Lib.Iteration
open Lmcas.Lib.Neck
open Lmcas.Lib.OrderedLoop
open Lmcas.Lib.OrderedNeck
open Lmcas.System

/-! ## The world -/

/-- A file that is open for reading. -/
structure Stream where
  text : Word
  readError : Bool
deriving DecidableEq, Repr

/-- The files, standard input, and what the calls behind the neck find. -/
structure World where
  stdin : Stream
  files : Word → Option Stream
  readable : Word → Bool
  creates : Word → Bool
  closes : Word → Bool
  /-- Are the input and the output one file? -/
  sameFile : Word → Option Word → Bool
  /-- The bytes of a random source. -/
  random : Option Word → Option Word
  tmpdir : Option Word
  processors : Nat

/-- `stream_open (file, "r")`. -/
def World.streamOpen (world : World) (file : Word) : Option Stream :=
  if file = ['-'] then some world.stdin else world.files file

/-- What stands on the standard output. -/
inductive Output where
  | nothing
  | help
  | version
  | text (outfile : Option Word) (text : Word)
deriving DecidableEq, Repr

/-- What can be seen of a run: the files it reads, in the order in which they
are opened, its output, and its exit status. -/
structure Outcome where
  opened : List Word
  output : Output
  status : Nat
deriving DecidableEq, Repr

/-- `die` and `usage`, once some files are open. -/
def died (opened : List Word) : Outcome :=
  ⟨opened, .nothing, sortFailure⟩

/-- What a run shows that ends in its options. -/
def early : Early → Outcome
  | .usage status =>
      ⟨[], if status = exitSuccess then .help else .nothing, status⟩
  | .version => ⟨[], .version, exitSuccess⟩
  | .die status => ⟨[], .nothing, status⟩

/-- The files opened before come first. -/
def Outcome.behind (opened : List Word) (outcome : Outcome) : Outcome :=
  { outcome with opened := opened ++ outcome.opened }

/-! ## Behind the neck -/

/-- What is left to do when the variables are final. -/
inductive Task where
  | check
  | merge
  /-- A merge that makes a temporary file first. -/
  | mergeInParts
  | sort
deriving DecidableEq, Repr

/-- The rest of a task, once its first input is open. -/
abbrev Core := Task → Vars → Word → World → Outcome

/-- The texts in front of a separator, and what follows the last one unless it
is empty. -/
def records (separator : Char) : Word → List Word
  | [] => []
  | c :: text =>
      if c = separator then [] :: records separator text
      else
        match records separator text with
        | [] => [[c]]
        | first :: rest => (c :: first) :: rest

/-- The files opened for the names of the input files, and these names. -/
def inputFiles (world : World) (vars : Vars) :
    Except Outcome (List Word × List Word) :=
  match vars.filesFrom with
  | none => .ok ([], vars.files)
  | some filesFrom =>
      if vars.files ≠ [] then .error (early (.usage sortFailure))
      else
        match world.streamOpen filesFrom with
        | none => .error (died [])
        | some stream =>
            let files := records (Char.ofNat 0) stream.text
            if stream.readError ∨
                (filesFrom ≠ ['-'] ∧ !world.closes filesFrom) ∨
                files = [] ∨ ['-'] ∈ files ∨ [] ∈ files then
              .error (died [filesFrom])
            else .ok ([filesFrom], files)

/-- `DEFAULT_TMPDIR`. -/
def defaultTmpdir : Word := "/tmp".toList

/-- The defaults that are filled in. -/
def complete (world : World) (vars : Vars) : Vars :=
  { vars with
    tempDirs :=
      if vars.tempDirs = [] then [world.tmpdir.getD defaultTmpdir]
      else vars.tempDirs
    files := if vars.files = [] then [['-']] else vars.files
    sortSize :=
      if 0 < vars.sortSize then
        max vars.sortSize (minSortSize vars.nmerge)
      else vars.sortSize }

/-- At most `DEFAULT_MAX_THREADS`, and no more than there can be nodes of 128
bytes in a merge tree. -/
def threads (world : World) (vars : Vars) : Nat :=
  min (if vars.nthreads = 0 then min world.processors 8 else vars.nthreads)
    (sizeMax / 256)

/-- `avoid_trashing_input` makes a copy. -/
def trashes (world : World) (vars : Vars) : Bool :=
  vars.files.any fun file =>
    (vars.outfile = some file && file ≠ ['-']) ||
      world.sameFile file vars.outfile

section

variable (core : Core)

/-- Open the first input. -/
def reading (task : Task) (vars : Vars) (random : Word) (world : World) :
    Outcome :=
  match vars.files with
  | [] => core task vars random world
  | file :: _ =>
      match world.streamOpen file with
      | none => died []
      | some _ => (core task vars random world).behind [file]

/-- Check, merge or sort, when the variables are final. -/
def work (vars : Vars) (random : Word) (world : World) : Outcome :=
  if vars.checkonly.isSome then
    if 1 < vars.files.length ∨ vars.outfile.isSome then died []
    else reading core .check vars random world
  else if !vars.files.all (fun file => file = ['-'] || world.readable file) then
    died []
  else if vars.outfile.any (!world.creates ·) then died []
  else if vars.mergeonly then
    if vars.nmerge < vars.files.length ∨ trashes world vars then
      core .mergeInParts vars random world
    else reading core .merge vars random world
  else
    reading core .sort { vars with nthreads := threads world vars } random
      world

/-- Everything behind the names of the input files. -/
def run (vars : Vars) (world : World) : Outcome :=
  let keylist := finalKeys vars.gkey vars.keylist
  if keylist.any incompatible then died []
  else if vars.debug && (vars.checkonly.isSome || vars.outfile.isSome) then
    died []
  else
    let random : Option Word :=
      if keylist.any Keyfield.random then world.random vars.randomSource
      else some []
    match random with
    | none => died []
    | some random =>
        work core (complete world { vars with keylist := keylist }) random
          world

/-- `main` from the neck on: the names of `--files0-from` are read first. -/
def resume (vars : Vars) (world : World) : Outcome :=
  match inputFiles world vars with
  | .error outcome => outcome
  | .ok (opened, files) =>
      (run core { vars with files := files } world).behind opened

end

/-- The combinations of options that are rejected whatever the files are. -/
def rejected (vars : Vars) : Bool :=
  (finalKeys vars.gkey vars.keylist).any incompatible ||
    vars.debug && (vars.checkonly.isSome || vars.outfile.isSome) ||
      vars.checkonly.isSome && vars.outfile.isSome

/-- `sort`.  The environment and the machine are those of the specialisation,
and `core` is what `check`, `merge` and `sort` do with the input. -/
def program (core : Core) (gnulib : Gnulib) (machine : Machine)
    (environment : Environment) :
    OrderedProgram Vars Early (World → Outcome) where
  switch := optionSwitch gnulib machine environment
  Kept := Kept environment
  tame := optionSwitch_tame
  initial := initial environment
  kept _ _ files := absurd rfl files
  early ending _ := early ending
  resume := resume core

/-! ## Soundness of the neck -/

section Soundness

variable {core : Core} {gnulib : Gnulib} {machine : Machine}
  {environment : Environment}

/-- `-c` together with `-o` is an error. -/
theorem work_of_check_output {vars : Vars} {random : Word} {world : World}
    (check : vars.checkonly.isSome = true)
    (output : vars.outfile.isSome = true) :
    work core vars random world = died [] := by
  simp [work, check, output]

/-- Options that are rejected open no file. -/
theorem run_of_rejected {vars : Vars} {world : World}
    (conflict : rejected vars = true) : run core vars world = died [] := by
  unfold run
  dsimp only
  by_cases keys :
      (finalKeys vars.gkey vars.keylist).any incompatible = true
  · rw [if_pos keys]
  rw [if_neg keys]
  by_cases debug : (vars.debug &&
      (vars.checkonly.isSome || vars.outfile.isSome)) = true
  · rw [if_pos debug]
  rw [if_neg debug]
  have checkOutput : vars.checkonly.isSome = true ∧
      vars.outfile.isSome = true := by
    simpa [rejected, keys, debug] using conflict
  split
  · rfl
  · exact work_of_check_output checkOutput.1 checkOutput.2

theorem resume_of_filesFrom_none {vars : Vars} {world : World}
    (unnamed : vars.filesFrom = none) :
    resume core vars world = run core vars world := by
  have files : inputFiles world vars = .ok ([], vars.files) := by
    rw [inputFiles, unnamed]
  rw [resume, files]
  rfl

/-- `--files0-from` does not go together with files. -/
theorem resume_of_filesFrom_of_files {vars : Vars} {world : World}
    {filesFrom : Word} (named : vars.filesFrom = some filesFrom)
    (files : vars.files ≠ []) :
    resume core vars world = died [] := by
  unfold resume inputFiles
  simp only [named, if_pos files]
  rfl

/-- Every file can be opened, but it is said of none that it can be read. -/
def unreadable : World where
  stdin := ⟨[], false⟩
  files _ := some ⟨[], false⟩
  readable _ := false
  creates _ := true
  closes _ := true
  sameFile _ _ := false
  random _ := some []
  tmpdir := none
  processors := 1

theorem streamOpen_unreadable (file : Word) :
    unreadable.streamOpen file = some ⟨[], false⟩ := by
  unfold World.streamOpen
  split <;> rfl

/-- The file with the names is opened if there are no files. -/
theorem opened_of_filesFrom {vars : Vars} {filesFrom : Word}
    (named : vars.filesFrom = some filesFrom) (noFile : vars.files = []) :
    (resume core vars unreadable).opened = [filesFrom] := by
  unfold resume inputFiles
  simp [named, noFile, streamOpen_unreadable, records, died]

/-- Where nothing can be read, the run goes on without a source of random
bytes. -/
theorem run_eq_work {vars : Vars} (accepted : rejected vars = false) :
    run core vars unreadable =
      work core (complete unreadable
        { vars with keylist := finalKeys vars.gkey vars.keylist }) []
        unreadable := by
  have separate := Bool.or_eq_false_iff.mp
    (Bool.or_eq_false_iff.mp accepted).1
  unfold run
  simp only [separate.1, separate.2, Bool.false_eq_true, if_false]
  have random : (if (finalKeys vars.gkey vars.keylist).any
      Keyfield.random = true then unreadable.random vars.randomSource
      else some []) = some [] := by
    split <;> rfl
  rw [random]

theorem trashes_unreadable {vars : Vars} (files : vars.files = [['-']]) :
    trashes unreadable vars = false := by
  simp [trashes, files, unreadable]

/-- The first file is opened first. -/
theorem reading_opened {task : Task} {vars : Vars} {random file : Word}
    {files : List Word} (named : vars.files = file :: files) :
    (reading core task vars random unreadable).opened.head? = some file := by
  rw [reading, named]
  simp only [streamOpen_unreadable, Outcome.behind, List.singleton_append,
    List.head?_cons]

/-- Without a file standard input is opened first. -/
theorem work_opened_stdin {vars : Vars} {random : Word}
    (apart : (vars.checkonly.isSome && vars.outfile.isSome) = false)
    (parts : 1 ≤ vars.nmerge) (files : vars.files = [['-']]) :
    (work core vars random unreadable).opened.head? = some ['-'] := by
  have creatable : vars.outfile.any (!unreadable.creates ·) = false := by
    cases vars.outfile <;> rfl
  unfold work
  rcases check : vars.checkonly.isSome with _ | _
  · rcases vars.mergeonly with _ | _
    · simp only [Bool.false_eq_true, if_false, files, creatable,
        List.all_cons, List.all_nil, decide_true, Bool.true_or,
        Bool.and_self, Bool.not_true]
      exact reading_opened rfl
    · have whole : ¬ (vars.nmerge < [['-']].length ∨
          trashes unreadable vars = true) := by
        rw [trashes_unreadable files]
        rintro (few | same)
        · exact absurd parts (Nat.not_le_of_lt few)
        · exact nomatch same
      simp only [Bool.false_eq_true, if_false, if_true, files, creatable,
        List.all_cons, List.all_nil, decide_true, Bool.true_or,
        Bool.and_self, Bool.not_true, if_neg whole]
      exact reading_opened files
  · have noOutput : vars.outfile.isSome = false := by
      rwa [check, Bool.true_and] at apart
    have one : ¬ (1 < [['-']].length ∨ vars.outfile.isSome = true) := by
      rw [noOutput]
      simp
    simp only [if_true, files, if_neg one]
    exact reading_opened files

/-- With files standard input is not opened first. -/
theorem work_opened_file {vars : Vars} {random file : Word}
    {files : List Word} (isFile : IsFile file)
    (named : vars.files = file :: files) :
    (work core vars random unreadable).opened.head? ≠ some ['-'] := by
  have other : file ≠ ['-'] := by
    rintro rfl
    exact isFile.1 rfl
  unfold work
  split
  · split
    · nofun
    · rw [reading_opened named]
      intro same
      exact other (Option.some.inj same)
  · have denied : (!vars.files.all
        (fun file => file = ['-'] || unreadable.readable file)) = true := by
      simp [named, other, unreadable]
    rw [if_pos denied]
    nofun

/-- A run that reads files is not one that reads standard input. -/
theorem run_ne {vars : Vars} (accepted : rejected vars = false)
    (parts : 1 ≤ vars.nmerge) (noFile : vars.files = []) {file : Word}
    {files : List Word} (isFile : IsFile file) :
    run core vars unreadable ≠
      run core { vars with files := file :: files } unreadable := by
  have accepted' : rejected { vars with files := file :: files } = false :=
    accepted
  have standard : (run core vars unreadable).opened.head? = some ['-'] := by
    rw [run_eq_work accepted]
    apply work_opened_stdin
    · exact (Bool.or_eq_false_iff.mp accepted).2
    · exact parts
    · simp [complete, noFile]
  have named : (run core { vars with files := file :: files }
      unreadable).opened.head? ≠ some ['-'] := by
    rw [run_eq_work accepted']
    exact work_opened_file isFile rfl
  intro same
  rw [same] at standard
  exact named standard

/-- `--files0-from` opens its file unless there are files. -/
theorem resume_ne_of_filesFrom {vars : Vars} {filesFrom : Word}
    (named : vars.filesFrom = some filesFrom) (noFile : vars.files = [])
    {files : List Word} (nonempty : files ≠ []) :
    resume core vars unreadable ≠
      resume core { vars with files := files } unreadable := by
  have whole : resume core { vars with files := files } unreadable =
      died [] := resume_of_filesFrom_of_files named nonempty
  intro same
  have opened := @opened_of_filesFrom core vars filesFrom named noFile
  rw [same, whole] at opened
  exact nomatch opened

/-- Files make a difference unless the options are rejected without them. -/
theorem resume_eq_iff {vars : Vars} (parts : 1 ≤ vars.nmerge)
    (noFile : vars.files = []) {file : Word} {files : List Word}
    (isFile : IsFile file) :
    resume core vars = resume core { vars with files := file :: files } ↔
      vars.filesFrom = none ∧ rejected vars = true := by
  constructor
  · intro same
    have same := congrFun same unreadable
    rcases named : vars.filesFrom with _ | filesFrom
    · refine ⟨rfl, ?_⟩
      by_contra accepted
      have whole : resume core { vars with files := file :: files }
          unreadable =
            run core { vars with files := file :: files } unreadable :=
        resume_of_filesFrom_none named
      rw [resume_of_filesFrom_none named, whole] at same
      exact run_ne (Bool.not_eq_true _ ▸ accepted) parts noFile isFile same
    · exact absurd same
        (resume_ne_of_filesFrom named noFile (List.cons_ne_nil _ _))
  · rintro ⟨unnamed, conflict⟩
    funext world
    have whole : resume core { vars with files := file :: files } world =
        run core { vars with files := file :: files } world :=
      resume_of_filesFrom_none unnamed
    have conflict' : rejected { vars with files := file :: files } = true :=
      conflict
    rw [resume_of_filesFrom_none unnamed, whole, run_of_rejected conflict,
      run_of_rejected conflict']

/-- At the neck the size of a batch is at least two. -/
theorem nmerge_of_reaches {name : Word} {words : List Word}
    {neck : Scanning Vars}
    (reached : ((program core gnulib machine environment).staged
      name).Reaches words neck) : 2 ≤ neck.vars.nmerge := by
  have stored : ∀ {word : Word} {vars vars' : Vars}, 2 ≤ vars.nmerge →
      storeFile word vars = .ok vars' → 2 ≤ vars'.nmerge := by
    intro word vars vars' atLeast stored
    rw [storeFile_ok stored]
    exact atLeast
  have atStart : 2 ≤ (initial environment).nmerge :=
    Nat.le_add_left 2 14
  exact vars_of_left stored handle_nmerge atStart (reaches_iff.mp reached)

/--
A run resumed at the neck does what `sort` does in one run if there is no file
to read, or if the options are rejected whatever the files are.
-/
theorem sort_soundAt_iff (unset : environment.posixlyCorrect = false)
    {name : Word} {words files : List Word} {neck : Scanning Vars}
    (reached : ((program core gnulib machine environment).staged
      name).Reaches words neck)
    (noFile : neck.vars.files = []) (areFiles : ∀ file ∈ files, IsFile file) :
    ((program core gnulib machine environment).staged name).SoundAt
        (Presents name files) words (words ++ files) ↔
      files = [] ∨
        neck.vars.filesFrom = none ∧ rejected neck.vars = true := by
  rw [soundAt_iff (optionSwitch_delays unset) reached
    (by rw [noFile]; exact Nat.zero_le _) areFiles]
  have stored : (program core gnulib machine
      environment).switch.storeAll files neck.vars =
        .ok { neck.vars with files := files } := by
    have kept := @storeAll_eq gnulib machine environment files neck.vars
    rw [noFile, List.nil_append] at kept
    exact kept
  rw [stored]
  show resume core neck.vars =
    resume core { neck.vars with files := files } ↔ _
  cases files with
  | nil =>
      rw [← noFile]
      simp
  | cons file files =>
      have parts := Nat.le_of_succ_le (nmerge_of_reaches reached)
      rw [resume_eq_iff parts noFile (areFiles file List.mem_cons_self)]
      simp

end Soundness

/-! ## `sort -u` -/

/-- What `sort` writes in the C locale, if lines are compared as a whole. -/
def byteOrder : Core := fun _ vars _ world =>
  let others := vars.files.drop 1
  match vars.files.mapM world.streamOpen with
  | none => died (others.takeWhile (world.streamOpen · |>.isSome))
  | some streams =>
      if streams.any Stream.readError then died others
      else
        let lines :=
          (streams.flatMap fun stream =>
            records vars.eolchar stream.text).mergeSort
              fun first second => decide (first ≤ second)
        let lines := if vars.unique then lines.eraseReps else lines
        ⟨others,
          .text vars.outfile (lines.flatMap (· ++ [vars.eolchar])),
          exitSuccess⟩

/-- No variable is set. -/
def unsetEnvironment : Environment := ⟨false, 200809⟩

/-- A system with little memory. -/
def smallMachine : Machine := ⟨1024, fun percent => some (percent * 2 ^ 20)⟩

/-- None of the words here is a number. -/
def noNumber : Gnulib := ⟨fun _ _ => ⟨.invalid, 0, 0⟩, matchWhole⟩

/-- `sort -u`, at its neck. -/
def uniqueNeck : Scanning Vars :=
  ⟨⟨argvOf ["sort".toList, "-u".toList], 2, none,
      some ⟨⟨.argument 1, "-u".toList⟩, 2⟩, 1, 1⟩, true,
    { initial unsetEnvironment with unique := true }⟩

/-- `sort -u` reaches this neck. -/
theorem reaches_uniqueNeck :
    ((program byteOrder noNumber smallMachine unsetEnvironment).staged
      "sort".toList).Reaches ["-u".toList] uniqueNeck :=
  reaches_iff.mpr (.again rfl (.leave rfl))

/-- `sort -u in`. -/
theorem sort_soundAt_iff_unique :
    ((program byteOrder noNumber smallMachine unsetEnvironment).staged
        "sort".toList).SoundAt
        (Presents "sort".toList ["in".toList]) ["-u".toList]
        (["-u".toList] ++ ["in".toList]) ↔
      ["in".toList] = [] ∨
        uniqueNeck.vars.filesFrom = none ∧
          rejected uniqueNeck.vars = true :=
  sort_soundAt_iff rfl reaches_uniqueNeck rfl isFile_in

/-- Specialised on `-u`, `sort in` sorts standard input. -/
theorem sort_unique_misses_file :
    ¬ ((program byteOrder noNumber smallMachine unsetEnvironment).staged
        "sort".toList).SoundAt
      (Presents "sort".toList ["in".toList]) ["-u".toList]
      (["-u".toList] ++ ["in".toList]) := by
  rw [soundAt_iff (optionSwitch_delays rfl) reaches_uniqueNeck
    (Nat.le_refl 0) isFile_in]
  intro agree
  have parts : 1 ≤ uniqueNeck.vars.nmerge := by decide
  have conflict := ((resume_eq_iff parts rfl
    (isFile_in _ List.mem_cons_self)).mp agree).2
  exact nomatch conflict

end Lmcas.Sort
