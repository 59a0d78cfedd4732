import Lmcas.Du
import Lmcas.Id
import Lmcas.SortWorlds
import Lmcas.Wc

/-!
# What the configuration of four programs depends on

`wc`, `id`, `du` and `sort` ask the world they run in for something in front
of their necks.  Here two runs on one command line are compared, each in a
world of its own: the variables at the necks are the same but for the answers
that the programs keep.
-/

namespace Lmcas.Configuration

open Lmcas.Lib.CString
open Lmcas.Lib.Getopt
open Lmcas.Lib.Iteration
open Lmcas.Lib.OptionLoop
open Lmcas.Lib.OrderedLoop
open Lmcas.System

/-- The answers that are asked for in front of the necks: `getpagesize`,
`is_selinux_enabled` and `is_smack_enabled`, `getrlimit` and `physmem_total`,
and `add_exclude_file`. -/
structure World where
  pageSize : Nat
  kernel : Id.Kernel
  machine : Sort.Machine
  addExcludeFile : Du.AddExcludeFile

/-- The variables of the environment, and what else is inherited. -/
structure Environment where
  posixlyCorrect : Bool
  posix2Version : Int
  duBlockSize : Option Word
  tz : Option Word
  inherited : Sort.Inherited

/-- What `du` reads of it. -/
def Environment.du (environment : Environment) : Du.Environment :=
  ⟨environment.posixlyCorrect, environment.duBlockSize, environment.tz⟩

/-- What `sort` reads of it. -/
def Environment.sort (environment : Environment) : Sort.Environment :=
  ⟨environment.posixlyCorrect, environment.posix2Version⟩

/-- What is no function of the world: how the programs are built, and how
their libraries read numerals and keywords. -/
structure Build where
  haveSmack : Bool
  gnulib : Gnulib
  du : Du.Library

section

variable (build : Build) (environment : Environment) (world world' : World)
  (name : Word) (words : List Word)

/-- For `wc` only the size of a page is taken from the system. -/
def WcAgrees : Prop :=
  ∀ neck neck',
    Wc.configure environment.posixlyCorrect world.pageSize name words =
      .left neck →
    Wc.configure environment.posixlyCorrect world'.pageSize name words =
      .left neck' →
    neck'.1 = neck.1 ∧
      neck'.2 = { neck.2 with pageSize := world'.pageSize }

/-- For `id` only the answers on SELinux and SMACK are. -/
def IdAgrees : Prop :=
  ∀ neck neck',
    Id.configure build.haveSmack environment.posixlyCorrect world.kernel name
      words = .left neck →
    Id.configure build.haveSmack environment.posixlyCorrect world'.kernel name
      words = .left neck' →
    neck'.1 = neck.1 ∧
      neck'.2 =
        { neck.2 with
          selinuxEnabled := 0 < world'.kernel.isSelinuxEnabled
          smackEnabled := world'.kernel.isSmackEnabled }

/-- For `du` only the patterns of a file are, and whether it could be read. -/
def DuAgrees : Prop :=
  ∀ neck neck',
    Du.configure build.du environment.du world.addExcludeFile name words =
      .left neck →
    Du.configure build.du environment.du world'.addExcludeFile name words =
      .left neck' →
    neck'.1 = neck.1 ∧
      neck'.2 =
        { neck.2 with exclude := neck'.2.exclude, ok := neck'.2.ok } ∧
      (¬ Du.ReadsExcludeFile build.du environment.du world.addExcludeFile
        name words → neck' = neck)

/-- For `sort` only the size of a buffer is, and that only if it is given as a
percentage of the memory. -/
def SortAgrees : Prop :=
  ∀ neck neck',
    Sort.configure build.gnulib environment.inherited environment.sort
      world.machine name words = .left neck →
    Sort.configure build.gnulib environment.inherited environment.sort
      world'.machine name words = .left neck' →
    neck'.tables = neck.tables ∧
      neck'.scanning.getopt = neck.scanning.getopt ∧
      neck'.scanning.vars =
        { neck.scanning.vars with
          sortSize := neck'.scanning.vars.sortSize } ∧
      (¬ Sort.TakesPercentage build.gnulib environment.sort world.machine
        name words → neck'.scanning.vars = neck.scanning.vars)

/--
Two runs on one command line that get to their necks have the same variables
there, but for the answers about the page size and the kernel, for what `du`
reads with `-X`, and for a size that `sort` is given as a percentage.
-/
theorem configuration_agrees :
    WcAgrees environment world world' name words ∧
      IdAgrees build environment world world' name words ∧
      DuAgrees build environment world world' name words ∧
      SortAgrees build environment world world' name words := by
  refine ⟨?_, ?_, ?_, ?_⟩
  · intro neck neck' reached reached'
    exact Wc.configure_agree reached reached'
  · intro neck neck' reached reached'
    exact Id.configure_agree reached reached'
  · intro neck neck' reached reached'
    have ⟨scan, vars⟩ := Du.configure_agree reached reached'
    exact ⟨scan, vars, fun noFile => Du.configure_eq noFile reached reached'⟩
  · intro neck neck' reached reached'
    have ⟨tables, scan, vars⟩ := Sort.configure_agree reached reached'
    exact ⟨tables, scan, vars,
      fun absolute => Sort.configure_eq absolute reached reached'⟩

end

/-! ## Two worlds -/

/-- A machine with so much physical memory. -/
def machineOf (physmemTotal : Nat) : Sort.Machine where
  rlimitNofile := 1024
  percentOfMemory percent := some (physmemTotal * percent / 100)

/-- A small machine, on which there is no file. -/
def smallWorld : World where
  pageSize := 4096
  kernel := ⟨0, false⟩
  machine := machineOf (2 ^ 30)
  addExcludeFile _ exclude := (true, exclude)

/-- A large machine with SELinux, on which a file has one pattern. -/
def largeWorld : World where
  pageSize := 65536
  kernel := ⟨1, false⟩
  machine := machineOf (2 ^ 40)
  addExcludeFile _ exclude := (false, exclude ++ ["*.o".toList])

/-- The C locale. -/
def localeC : Sort.Locale where
  found := true
  hardCollate := false
  hardTime := false
  decimalPoint := ['.']
  thousandsSep := []
  isblank c := c = ' ' || c = '\t'
  isprint c := ' ' ≤ c && c ≤ '~'
  isalnum := Char.isAlphanum
  toupper := Char.toUpper
  abmon _ := []

/-- No variable is set. -/
def unsetEnvironment : Environment where
  posixlyCorrect := false
  posix2Version := 200809
  duBlockSize := none
  tz := none
  inherited := ⟨localeC, fun _ => false⟩

/-- Of the numerals only `10%` is needed here. -/
def tenPercent : Xstrtoumax := fun s _ =>
  if s = "10%".toList then ⟨.invalidSuffixChar, 10, 2⟩
  else ⟨.invalid, 0, 0⟩

/-- A build whose library reads the one number of the examples. -/
def plainBuild : Build where
  haveSmack := false
  gnulib := ⟨tenPercent, matchWhole⟩
  du :=
    { xstrtoumax := tenPercent
      argmatch := matchWhole
      xstrtoimax := fun _ _ => (.invalid, 0)
      humanOptions := fun _ => ⟨.ok, 0, 1024⟩ }

/-- Behind an option word of two characters, the last one.  The call that
finds no more words moves the range of skipped operands to the end. -/
def behindOption (program option : Word) (skipped : Nat) : State :=
  ⟨argvOf [program, option], 2, none, some ⟨⟨.argument 1, option⟩, 2⟩,
    skipped, skipped⟩

/-- `wc -l`. -/
def lines (pageSize skipped : Nat) : State × Wc.Vars :=
  (behindOption "wc".toList "-l".toList skipped,
    { Wc.initial false pageSize with printLines := true })

/-- `wc -l` reaches its neck on every system. -/
theorem configure_lines (pageSize : Nat) :
    Wc.configure false pageSize "wc".toList ["-l".toList] =
      .left (lines pageSize 2) := by
  have turn : optionBody (Wc.optionConfig false) Wc.handle
      (start (argvOf ["wc".toList, "-l".toList]),
        Wc.initial false pageSize) = .again (lines pageSize 1) := rfl
  exact scanOptions_eq_iff.mpr (.again turn (.leave rfl))

/-- `id -u`. -/
def user (kernel : Id.Kernel) (skipped : Nat) : State × Id.Vars :=
  (behindOption "id".toList "-u".toList skipped,
    { Id.initial kernel with justUser := true })

/-- `id -u` reaches its neck whatever the kernel says. -/
theorem configure_user (kernel : Id.Kernel) :
    Id.configure false false kernel "id".toList ["-u".toList] =
      .left (user kernel 2) := by
  have turn : optionBody (Id.optionConfig false) (Id.handle false)
      (start (argvOf ["id".toList, "-u".toList]), Id.initial kernel) =
        .again (user kernel 1) := rfl
  exact scanOptions_eq_iff.mpr (.again turn (.leave rfl))

/-- `du -X list`, at its neck. -/
def excludeNeck (addExcludeFile : Du.AddExcludeFile) : State × Du.Vars :=
  (⟨argvOf ["du".toList, "-X".toList, "list".toList], 3, none, none, 3, 3⟩,
    Du.excludeFrom addExcludeFile "list".toList
      (Du.initial plainBuild.du unsetEnvironment.du))

/-- `du -X list` reaches its neck with what the file holds. -/
theorem configure_exclude (addExcludeFile : Du.AddExcludeFile) :
    Du.configure plainBuild.du unsetEnvironment.du addExcludeFile
        "du".toList ["-X".toList, "list".toList] =
      .left (excludeNeck addExcludeFile) :=
  scanOptions_eq_iff.mpr (.again rfl (.leave rfl))

/-- `sort -S 10%`, at its neck. -/
def percentNeck (physmemTotal : Nat) : Sort.Configured :=
  ⟨Sort.tables unsetEnvironment.inherited,
    ⟨⟨argvOf ["sort".toList, "-S".toList, "10%".toList], 3, none, none, 1, 1⟩,
      true,
      { Sort.initial unsetEnvironment.sort with
        sortSize := max (physmemTotal * 10 / 100) (Sort.minSortSize 16) }⟩⟩

/-- `sort -S 10%` reaches its neck with a size that depends on the memory. -/
theorem configure_percent (physmemTotal : Nat) :
    Sort.configure plainBuild.gnulib unsetEnvironment.inherited
        unsetEnvironment.sort (machineOf physmemTotal)
        "sort".toList ["-S".toList, "10%".toList] =
      .left (percentNeck physmemTotal) :=
  Sort.configure_eq_left_iff.mpr ⟨rfl, .again rfl (.leave rfl)⟩

/-- One command line for each of the programs, in the two worlds. -/
theorem configuration_agrees_twoWorlds :
    (lines 65536 2).2 = { (lines 4096 2).2 with pageSize := 65536 } ∧
    (user ⟨1, false⟩ 2).2 =
      { (user ⟨0, false⟩ 2).2 with
        selinuxEnabled := true
        smackEnabled := false } ∧
    (excludeNeck largeWorld.addExcludeFile).2 =
      { (excludeNeck smallWorld.addExcludeFile).2 with
        exclude := ["*.o".toList]
        ok := true } ∧
    (percentNeck (2 ^ 40)).scanning.vars =
      { (percentNeck (2 ^ 30)).scanning.vars with
        sortSize := (percentNeck (2 ^ 40)).scanning.vars.sortSize } := by
  have agrees := configuration_agrees plainBuild unsetEnvironment smallWorld
    largeWorld
  refine ⟨?_, ?_, ?_, ?_⟩
  · exact ((agrees "wc".toList ["-l".toList]).1 _ _ (configure_lines _)
      (configure_lines _)).2
  · exact ((agrees "id".toList ["-u".toList]).2.1 _ _ (configure_user _)
      (configure_user _)).2
  · exact ((agrees "du".toList ["-X".toList, "list".toList]).2.2.1 _ _
      (configure_exclude _) (configure_exclude _)).2.1
  · exact ((agrees "sort".toList ["-S".toList, "10%".toList]).2.2.2 _ _
      (configure_percent _) (configure_percent _)).2.2.1

/-- In each of the four programs an answer gets through to the neck. -/
theorem configuration_depends :
    (∃ neck neck',
      Wc.configure false smallWorld.pageSize "wc".toList ["-l".toList] =
        .left neck ∧
      Wc.configure false largeWorld.pageSize "wc".toList ["-l".toList] =
        .left neck' ∧ neck'.2 ≠ neck.2) ∧
    (∃ neck neck',
      Id.configure false false smallWorld.kernel "id".toList
        ["-u".toList] = .left neck ∧
      Id.configure false false largeWorld.kernel "id".toList
        ["-u".toList] = .left neck' ∧ neck'.2 ≠ neck.2) ∧
    (∃ neck neck',
      Du.configure plainBuild.du unsetEnvironment.du
        smallWorld.addExcludeFile "du".toList
        ["-X".toList, "list".toList] = .left neck ∧
      Du.configure plainBuild.du unsetEnvironment.du
        largeWorld.addExcludeFile "du".toList
        ["-X".toList, "list".toList] = .left neck' ∧ neck'.2 ≠ neck.2) ∧
    (∃ neck neck',
      Sort.configure plainBuild.gnulib unsetEnvironment.inherited
        unsetEnvironment.sort smallWorld.machine "sort".toList
        ["-S".toList, "10%".toList] = .left neck ∧
      Sort.configure plainBuild.gnulib unsetEnvironment.inherited
        unsetEnvironment.sort largeWorld.machine "sort".toList
        ["-S".toList, "10%".toList] = .left neck' ∧
      neck'.scanning.vars ≠ neck.scanning.vars) := by
  refine ⟨⟨_, _, configure_lines _, configure_lines _, ?_⟩,
    ⟨_, _, configure_user _, configure_user _, ?_⟩,
    ⟨_, _, configure_exclude _, configure_exclude _, ?_⟩,
    ⟨_, _, configure_percent _, configure_percent _, ?_⟩⟩
  · decide
  · decide
  · decide
  · decide

end Lmcas.Configuration
