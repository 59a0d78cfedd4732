import Lmcas.Pipeline

/-!
# Which programs come to be verified

An invocation of the pipeline in an empty directory whose commands all succeed
as long as the files they read are there.  The blocks that link the programs
are chosen by the name of the program, and some of them read files that only
another block writes.
-/

namespace Lmcas.Verification

open Lmcas.Lib.CString Lmcas.Lib.Provenance
open Lmcas.Pipeline

/-! ## Files that are there -/

/-- The file that a command reads, if it is not what the user gave. -/
def fileOf : Source Leaf Name → Option Name
  | .leaf _ => none
  | .file name => some name

/-- The files that a command reads, operands and options. -/
def inputs (command : Command) : List Name :=
  let step := command.step fun _ => []
  step.operands.filterMap fileOf ++ step.options

/-- The files that a command writes; those of the interpreter are not known. -/
def outputs (command : Command) : List Name :=
  (command.step fun _ => []).targets

theorem outputs_subset (dumped : KleeRun → List Dump) (command : Command) :
    outputs command ⊆ (command.step dumped).targets := by
  cases command with
  | klee run => exact List.nil_subset _
  | _ => exact List.Subset.refl _

section

variable (invocation : Invocation) (run : Nat) (files : Files)

/-- The files after some of the commands. -/
def filesAfter (list : List Command) : Files :=
  applyAll run files (invocation.steps list)

/-- Every command succeeds if the files it reads are there when it is run. -/
def Dependable : Prop :=
  ∀ before command behind,
    commands invocation.app = before ++ command :: behind →
    (∀ file ∈ inputs command,
      filesAfter invocation run files before file ≠ .missing) →
    invocation.succeeds command = true

/-- Between them the two runs of the interpreter write every file that constant
conversion reads. -/
def DumpsAll : Prop :=
  ∀ dump ∈ dumps,
    dump ∈ invocation.dumped .dumpFile ∨ dump ∈ invocation.dumped .dumpBbs

/-- Nothing is in the directory of the program. -/
def EmptyDirectory : Prop :=
  ∀ name : Name, name.isCompared = false → files name = .missing

end

section

variable {invocation : Invocation} {run : Nat} {files : Files}
  (list : List Command) {command : Command} {file : Name}

/-- What a command has made is there. -/
theorem made_ne_missing {tool : Command}
    {operands options : List (Content Command Leaf Name)} :
    Content.made run tool operands options ≠ .missing := by
  intro same
  cases same

/-- The files after one more command. -/
theorem filesAfter_concat :
    filesAfter invocation run files (list ++ [command]) =
      if invocation.succeeds command = true then
        (command.step invocation.dumped).apply run
          (filesAfter invocation run files list)
      else filesAfter invocation run files list := by
  rw [filesAfter, Invocation.steps_append, applyAll_append]
  by_cases succeeds : invocation.succeeds command = true
  · rw [if_pos succeeds]
    simp [Invocation.steps, succeeds, filesAfter, applyAll]
  · rw [if_neg succeeds]
    simp [Invocation.steps, succeeds, filesAfter, applyAll]

/-- No command removes a file. -/
theorem filesAfter_keeps
    (there : filesAfter invocation run files list file ≠ .missing) :
    filesAfter invocation run files (list ++ [command]) file ≠ .missing := by
  rw [filesAfter_concat]
  split
  · by_cases written : file ∈ (command.step invocation.dumped).targets
    · rw [Step.apply_of_mem written]
      exact made_ne_missing
    · rw [Step.apply_of_not_mem written]
      exact there
  · exact there

/-- What a command writes is there. -/
theorem filesAfter_writes (succeeds : invocation.succeeds command = true)
    (written : file ∈ (command.step invocation.dumped).targets) :
    filesAfter invocation run files (list ++ [command]) file ≠ .missing := by
  rw [filesAfter_concat, if_pos succeeds, Step.apply_of_mem written]
  exact made_ne_missing

/-! ## Files that are sure to be there -/

/-- Of the files that are there in front of some commands, and of what these
write, those that a command is sure to find. -/
def assured (there : List Name) : List Command → List Name
  | [] => there
  | command :: list =>
      if ∀ file ∈ inputs command, file ∈ there then
        assured (outputs command ++ there) list
      else assured there list

/-- Commands that can depend on their files leave those they are sure to
write. -/
theorem exists_of_assured (dependable : Dependable invocation run files)
    (before list : List Command) {behind : List Command} {there : List Name}
    (whole : commands invocation.app = before ++ (list ++ behind))
    (known : ∀ file ∈ there,
      filesAfter invocation run files before file ≠ .missing) :
    ∀ file ∈ assured there list,
      filesAfter invocation run files (before ++ list) file ≠ .missing := by
  induction list generalizing before there with
  | nil =>
      rw [List.append_nil]
      exact known
  | cons command list ih =>
      have shifted : commands invocation.app =
          (before ++ [command]) ++ (list ++ behind) := by
        simpa using whole
      have kept : ∀ file ∈ there,
          filesAfter invocation run files (before ++ [command]) file ≠
            .missing :=
        fun file member => filesAfter_keeps before (known file member)
      rw [assured, List.append_cons]
      split
      case isTrue ready =>
        have succeeds := dependable before command (list ++ behind) whole
          fun file member => known file (ready file member)
        refine ih _ shifted fun file member => ?_
        rcases List.mem_append.mp member with written | old
        · exact filesAfter_writes before succeeds
            (outputs_subset invocation.dumped command written)
        · exact kept file old
      case isFalse => exact ih _ shifted kept

/-! ## The commands in front of the links -/

/-- Up to the interpreter. -/
def interpreting : List Command :=
  [.cpBitcode, .neck, .klee .dumpFile, .klee .dumpBbs]

/-- From the interpreter on, up to the links. -/
def simplifying : List Command :=
  [.sed .stringVarsLcl, .sed .stringVarsGbls, .optDebloat, .optPropagate,
    .optStrip, .optCleanUp]

/-- What is there when the interpreter has run. -/
def interpreted : List Name :=
  [.bitcode .orig, .neck] ++ dumps.map .dump

/-- After the interpretation its files are there. -/
theorem exists_of_interpreted (dependable : Dependable invocation run files)
    (dumpsAll : DumpsAll invocation) :
    ∀ file ∈ interpreted,
      filesAfter invocation run files interpreting file ≠ .missing := by
  have nothing : ∀ file ∈ ([] : List Name),
      filesAfter invocation run files [] file ≠ .missing := by simp
  have beforeKlee : filesAfter invocation run files [.cpBitcode, .neck] .neck ≠
      .missing :=
    exists_of_assured dependable [] [.cpBitcode, .neck] rfl nothing .neck
      (by decide)
  have first : invocation.succeeds (.klee .dumpFile) = true := by
    refine dependable [.cpBitcode, .neck] (.klee .dumpFile) _ rfl ?_
    intro file member
    rw [show inputs (.klee .dumpFile) = [.neck] from rfl,
      List.mem_singleton] at member
    exact member ▸ beforeKlee
  have second : invocation.succeeds (.klee .dumpBbs) = true := by
    refine dependable [.cpBitcode, .neck, .klee .dumpFile] (.klee .dumpBbs) _
      rfl ?_
    intro file member
    rw [show inputs (.klee .dumpBbs) = [.neck] from rfl,
      List.mem_singleton] at member
    exact member ▸ filesAfter_keeps [.cpBitcode, .neck] beforeKlee
  intro file member
  rcases List.mem_append.mp member with early | isDump
  · refine exists_of_assured dependable [] interpreting rfl nothing file ?_
    have sure : ∀ file ∈ [Name.bitcode .orig, .neck],
        file ∈ assured [] interpreting := by decide
    exact sure file early
  · rcases List.mem_map.mp isDump with ⟨dump, inDumps, rfl⟩
    rcases dumpsAll dump inDumps with inFirst | inSecond
    · exact filesAfter_keeps [.cpBitcode, .neck, .klee .dumpFile]
        (filesAfter_writes [.cpBitcode, .neck] first
          (List.mem_map_of_mem inFirst))
    · exact filesAfter_writes [.cpBitcode, .neck, .klee .dumpFile] second
        (List.mem_map_of_mem inSecond)

/-! ## The links -/

/-- Only the block for `sort` links the program. -/
def SortAlone (app : Word) : Prop :=
  "sort".toList <:+: app ∧ ¬ "tcpdump".toList <:+: app ∧
    ¬ "objdump".toList <:+: app ∧ ¬ "readelf".toList <:+: app ∧
    ¬ "knockd".toList <:+: app

/-- Every executable is linked, whichever of the blocks are chosen. -/
theorem linked_assured (tcpdumpFlg objdumpFlg sortFlg knockd : Bool)
    (notAlone : ¬ (sortFlg = true ∧ tcpdumpFlg = false ∧ objdumpFlg = false ∧
      knockd = false))
    (stage : Stage) :
    .linked stage ∈ assured interpreted
      (simplifying ++ generation tcpdumpFlg objdumpFlg sortFlg knockd) := by
  revert tcpdumpFlg objdumpFlg sortFlg knockd
  cases stage <;> decide +kernel

/-- After all commands the executables are there, but for `sort` alone. -/
theorem linked_exists (dependable : Dependable invocation run files)
    (dumpsAll : DumpsAll invocation) (notAlone : ¬ SortAlone invocation.app)
    (stage : Stage) :
    invocation.build run files (.linked stage) ≠ .missing := by
  have whole : commands invocation.app = interpreting ++
      ((simplifying ++ generation (hasText invocation.app "tcpdump")
        (hasText invocation.app "objdump" || hasText invocation.app "readelf")
        (hasText invocation.app "sort") (hasText invocation.app "knockd")) ++
          []) := (List.append_nil _).symm ▸ rfl
  refine exists_of_assured dependable interpreting _ whole
    (exists_of_interpreted dependable dumpsAll) _
    (linked_assured _ _ _ _ ?_ stage)
  rintro ⟨isSort, noTcpdump, noObjdump, noKnockd⟩
  simp only [hasText, decide_eq_true_eq, decide_eq_false_iff_not,
    Bool.or_eq_false_iff] at isSort noTcpdump noObjdump noKnockd
  exact notAlone ⟨isSort, noTcpdump, noObjdump.1, noObjdump.2, noKnockd⟩

/-- Only a link writes an executable. -/
theorem eq_link_of_writes {dumped : KleeRun → List Dump} {stage : Stage}
    (writes : .linked stage ∈ (command.step dumped).targets) :
    ∃ linker, command = .link linker stage := by
  cases command with
  | link linker other =>
      have same : stage = other := by simpa [Command.step] using writes
      exact ⟨linker, same ▸ rfl⟩
  | _ => simp [Command.step] at writes

/-- With the block for `sort` alone nothing links the program that has been
cleaned up. -/
theorem cu_missing (empty : EmptyDirectory files)
    (alone : SortAlone invocation.app) :
    invocation.build run files (.linked .cu) = .missing := by
  rcases alone with ⟨isSort, noTcpdump, noObjdump, noReadelf, noKnockd⟩
  have chosen : commands invocation.app =
      debloating ++ generation false false true false := by
    simp only [commands, hasText, decide_eq_true isSort,
      decide_eq_false noTcpdump, decide_eq_false noObjdump,
      decide_eq_false noReadelf, decide_eq_false noKnockd, Bool.or_self]
  have noLink : ∀ linker,
      Command.link linker .cu ∉ debloating ++ generation false false true false := by
    intro linker
    cases linker <;> decide
  rw [Invocation.build, applyAll_eq_missing_iff]
  refine ⟨empty _ rfl, ?_⟩
  rw [written, List.any_eq_false]
  intro step member
  rw [List.mem_reverse, Invocation.steps, List.mem_map] at member
  rcases member with ⟨command, inList, rfl⟩
  rw [decide_eq_true_eq]
  intro writes
  rcases eq_link_of_writes writes with ⟨linker, rfl⟩
  have inCommands := (List.mem_filter.mp inList).1
  rw [chosen] at inCommands
  exact noLink linker inCommands

end

/--
An invocation in an empty directory comes to its verification with all five
executables if and only if its name does not choose the block for `sort`
alone.
-/
theorem verification_reached_iff (invocation : Invocation) (run : Nat)
    {files : Files} (empty : EmptyDirectory files)
    (dependable : Dependable invocation run files)
    (dumpsAll : DumpsAll invocation) :
    ((∀ stage, invocation.build run files (.linked stage) ≠ .missing) ∧
      invocation.bothLinked run files = true) ↔
      ¬ SortAlone invocation.app := by
  constructor
  · rintro ⟨linked, -⟩ alone
    exact linked .cu (cu_missing empty alone)
  · intro notAlone
    have linked := linked_exists dependable dumpsAll notAlone
    refine ⟨linked, ?_⟩
    simp [Invocation.bothLinked, ← Bool.not_eq_true, Content.isMissing_iff,
      linked]

/-! ## Two programs -/

/-- An invocation all of whose commands succeed. -/
def invocationOf (file : Word) : Invocation :=
  { countLines (fun _ => true) with file := file, args := "-u".toList }

/-- A directory without files. -/
def emptyFiles : Files := fun _ => .missing

/-- Commands that always succeed can be depended on. -/
theorem dependable_invocationOf (file : Word) (files : Files) :
    Dependable (invocationOf file) 0 files := fun _ _ _ _ _ => rfl

/-- KLEE leaves all dumps there. -/
theorem dumpsAll_invocationOf (file : Word) :
    DumpsAll (invocationOf file) := by
  have listed : ∀ dump ∈ dumps, dump ∈ dumps.dropLast ∨ dump ∈ [.bbs] := by
    decide
  exact listed

/-- The run on `uniq.bc`. -/
theorem verification_reached_uniq :
    (∀ stage, (invocationOf "uniq.bc".toList).build 0 emptyFiles
        (.linked stage) ≠ .missing) ∧
      (invocationOf "uniq.bc".toList).bothLinked 0 emptyFiles = true :=
  (verification_reached_iff (invocationOf "uniq.bc".toList) 0
    (fun _ _ => rfl) (dependable_invocationOf _ _)
    (dumpsAll_invocationOf _)).mpr fun alone =>
      absurd alone.1 (by decide +kernel)

/-- `sort` is analysed, but not verified. -/
theorem verification_skipped_sort :
    (invocationOf "sort.bc".toList).app = "sort".toList ∧
      EmptyDirectory emptyFiles ∧
      Dependable (invocationOf "sort.bc".toList) 0 emptyFiles ∧
      DumpsAll (invocationOf "sort.bc".toList) ∧
      (invocationOf "sort.bc".toList).build 0 emptyFiles (.linked .cu) =
        .missing ∧
      (invocationOf "sort.bc".toList).bothLinked 0 emptyFiles = false := by
  have missing : (invocationOf "sort.bc".toList).build 0 emptyFiles
      (.linked .cu) = .missing := by
    refine cu_missing (fun _ _ => rfl) ?_
    rw [SortAlone, show (invocationOf "sort.bc".toList).app = "sort".toList by
      decide +kernel]
    decide +kernel
  refine ⟨by decide +kernel, fun _ _ => rfl, dependable_invocationOf _ _,
    dumpsAll_invocationOf _, missing, ?_⟩
  rw [Invocation.bothLinked, missing]
  exact Bool.and_false _

end Lmcas.Verification
