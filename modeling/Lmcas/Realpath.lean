import Lmcas.Lib.NeckLoop
import Lmcas.System

/-!
# `realpath`

The annotated `main` of `realpath`, cut at its neck.  Behind the neck the
program compares `relative_base` and `relative_to` as pointers.  Restoring
the two strings from a dump may change the answer of this comparison, for two
options with equal arguments.  Both branches then come to the same canonical
base, because `path_prefix` holds of a name and itself.

`canonicalize_filename_mode`, `relpath` and `stat` are the fields of
`Library`.  A canonical name begins with `/`, which is part of its type.
-/

namespace Lmcas.Realpath

open Lmcas.Lib.CString
open Lmcas.Lib.Getopt
open Lmcas.Lib.OptionLoop
open Lmcas.Lib.NeckLoop
open Lmcas.System

/-! ## Canonical names -/

/-- A name that begins with `/`. -/
structure CanonicalName where
  rest : Word
deriving DecidableEq, Repr

/-- The name with its first slash. -/
def CanonicalName.chars (name : CanonicalName) : Word :=
  '/' :: name.rest

/-- `can_mode`. -/
abbrev Mode := BitVec 32

/-- `CAN_EXISTING`: every part of the name must be there. -/
def canExisting : Mode := 0

/-- `CAN_ALL_BUT_LAST`, the mode that `main` starts with. -/
def canAllButLast : Mode := 1

/-- `CAN_MISSING`: no part need be there. -/
def canMissing : Mode := 2

/-- `CAN_NOLINKS`: links are not followed. -/
def canNolinks : Mode := 4

/-- `CAN_MODE_MASK`. -/
def canModeMask : Mode := canExisting ||| canAllButLast ||| canMissing

/-- What the program calls, in one file system. -/
structure Library where
  canonicalizeFilenameMode : Word → Mode → Option CanonicalName
  /-- `S_ISDIR` of what `stat` finds, if it finds something. -/
  stat : CanonicalName → Option Bool
  /-- What `relpath` prints, if it succeeds. -/
  relpath : CanonicalName → CanonicalName → Option Word

/-! ## The option loop -/

/-- `RELATIVE_TO_OPTION`. -/
def relativeToOption : OptVal := .enum 128

/-- `RELATIVE_BASE_OPTION`. -/
def relativeBaseOption : OptVal := .enum 129

/-- `longopts[]`. -/
def longopts : List LongOption :=
  [⟨"canonicalize-existing".toList, .no, .char 'e'⟩,
    ⟨"canonicalize-missing".toList, .no, .char 'm'⟩,
    ⟨"relative-to".toList, .required, relativeToOption⟩,
    ⟨"relative-base".toList, .required, relativeBaseOption⟩,
    ⟨"quiet".toList, .no, .char 'q'⟩,
    ⟨"strip".toList, .no, .char 's'⟩,
    ⟨"no-symlinks".toList, .no, .char 's'⟩,
    ⟨"zero".toList, .no, .char 'z'⟩,
    ⟨"logical".toList, .no, .char 'L'⟩,
    ⟨"physical".toList, .no, .char 'P'⟩,
    getoptHelpOptionDecl,
    getoptVersionOptionDecl]

/-- How `main` calls `getopt_long`. -/
def optionConfig (posixlyCorrect : Bool) : Config :=
  getoptInitialize "eLmPqsz".toList longopts posixlyCorrect

/-- The variables that live across the neck.  `verbose` decides about error
messages only. -/
structure Vars where
  canMode : Mode
  logical : Bool
  verbose : Bool
  useNuls : Bool
  relativeTo : Option CStr
  relativeBase : Option CStr
deriving DecidableEq, Repr

/-- The variables before the first option. -/
def initial : Vars :=
  { canMode := canAllButLast
    logical := false
    verbose := true
    useNuls := false
    relativeTo := none
    relativeBase := none }

/-- The `switch`. -/
def handle (ret : Ret) (optarg : Option CStr) (vars : Vars) :
    Except Early Vars :=
  match ret with
  | .val (.char 'e') =>
      .ok { vars with
        canMode := vars.canMode &&& ~~~canModeMask ||| canExisting }
  | .val (.char 'm') =>
      .ok { vars with
        canMode := vars.canMode &&& ~~~canModeMask ||| canMissing }
  | .val (.char 'L') =>
      .ok { vars with
        canMode := vars.canMode ||| canNolinks
        logical := true }
  | .val (.char 's') =>
      .ok { vars with
        canMode := vars.canMode ||| canNolinks
        logical := false }
  | .val (.char 'P') =>
      .ok { vars with
        canMode := vars.canMode &&& ~~~canNolinks
        logical := false }
  | .val (.char 'q') => .ok { vars with verbose := false }
  | .val (.char 'z') => .ok { vars with useNuls := true }
  | ret =>
      if ret = .val relativeToOption then
        .ok { vars with relativeTo := optarg }
      else if ret = .val relativeBaseOption then
        .ok { vars with relativeBase := optarg }
      else .error (endingCase exitFailure ret)

/-! ## Behind the neck -/

section

variable (library : Library)

/-- `realpath_canon`: with `-L` the links are followed once the dots are
gone. -/
def realpathCanon (logical : Bool) (fname : Word) (canMode : Mode) :
    Option CanonicalName :=
  match library.canonicalizeFilenameMode fname canMode with
  | none => none
  | some canFname =>
      if logical then
        library.canonicalizeFilenameMode canFname.chars
          (canMode &&& ~~~canNolinks)
      else some canFname

/-- The comparison loop of `path_prefix`. -/
def comparePrefix : Word → Word → Bool
  | [], [] => true
  | [], c :: _ => c = '/'
  | _ :: _, [] => false
  | p :: pre, c :: path => if p ≠ c then false else comparePrefix pre path

/-- `path_prefix`, on two names whose first character is `/`. -/
def pathPrefix (pre path : CanonicalName) : Bool :=
  match pre.rest with
  | [] => path.rest.head? ≠ some '/'
  | ['/'] => path.rest.head? = some '/'
  | rest => comparePrefix rest path.rest

/-- `need_dir && !isdir (path)`, and the failure of `isdir`. -/
def passesIsdir (needDir : Bool) (name : CanonicalName) : Bool :=
  !needDir || library.stat name = some true

/-- `realpath_canon` of an option argument, checked to be a directory if it
needs to be; `none` ends the process with `EXIT_FAILURE`. -/
def canonicalDir (vars : Vars) (name : Word) : Option CanonicalName :=
  let needDir := vars.canMode &&& canModeMask = canExisting
  match realpathCanon library vars.logical name vars.canMode with
  | none => none
  | some can => if passesIsdir library needDir can then some can else none

/-- `can_relative_to` and `can_relative_base`. -/
structure Relative where
  canRelativeTo : Option CanonicalName
  canRelativeBase : Option CanonicalName
deriving DecidableEq, Repr

/-- From the neck to the operands; `none` ends the process. -/
def resolveRelative (vars : Vars) : Option Relative :=
  let relativeTo :=
    match vars.relativeTo with
    | some pointer => some pointer
    | none => vars.relativeBase
  match relativeTo with
  | none => some ⟨none, none⟩
  | some pointer =>
      match canonicalDir library vars pointer.text with
      | none => none
      | some canRelativeTo =>
          -- The pointers are compared here, not the strings.
          if vars.relativeBase = relativeTo then
            some ⟨some canRelativeTo, some canRelativeTo⟩
          else
            match vars.relativeBase with
            | none => some ⟨some canRelativeTo, none⟩
            | some pointer =>
                match canonicalDir library vars pointer.text with
                | none => none
                | some base =>
                    if pathPrefix base canRelativeTo then
                      some ⟨some canRelativeTo, some base⟩
                    else some ⟨none, some canRelativeTo⟩

/-- What `process_path` writes, and its result. -/
def processPath (vars : Vars) (relative : Relative) (fname : Word) :
    Word × Bool :=
  match realpathCanon library vars.logical fname vars.canMode with
  | none => ([], false)
  | some canFname =>
      let line :=
        match relative.canRelativeTo with
        | none => canFname.chars
        | some canRelativeTo =>
            let outside :=
              match relative.canRelativeBase with
              | none => false
              | some base => !pathPrefix base canFname
            if outside then canFname.chars
            else
              (library.relpath canFname canRelativeTo).getD
                canFname.chars
      (line ++ [if vars.useNuls then Char.ofNat 0 else '\n'], true)

/-- How a run ends, with what it has written. -/
inductive Outcome where
  | early (early : Early)
  | finished (stdout : Word) (status : Nat)
deriving DecidableEq, Repr

/-- `main` behind the neck. -/
def resume (vars : Vars) (files : List Word) : Outcome :=
  if files = [] then .early (.usage exitFailure)
  else
    match resolveRelative library vars with
    | none => .early (.die exitFailure)
    | some relative =>
        let processed := files.map (processPath library vars relative)
        .finished (processed.flatMap Prod.fst)
          (if processed.all Prod.snd then exitSuccess else exitFailure)

/-- `realpath` in two parts. -/
def program (posixlyCorrect : Bool) :
    OptionProgram Vars Early Outcome where
  config := optionConfig posixlyCorrect
  handle := handle
  initial := initial
  early := .early
  resume := resume library

end

/-! ## Pointers and strings -/

/-- Both a name and itself begin the same. -/
theorem comparePrefix_self (name : Word) :
    comparePrefix name name = true := by
  induction name with
  | nil => rfl
  | cons c rest inductionHypothesis =>
      simpa [comparePrefix] using inductionHypothesis

/-- `path_prefix` is reflexive, also on `/` and on `//`. -/
theorem pathPrefix_self (name : CanonicalName) :
    pathPrefix name name = true := by
  unfold pathPrefix
  split
  · rename_i root
    rw [root]
    rfl
  · rename_i doubleSlash
    rw [doubleSlash]
    rfl
  · exact comparePrefix_self _

/-- The two strings are copied, under any sharing. -/
structure Copied (vars vars' : Vars) : Prop where
  relativeTo :
    vars'.relativeTo.map CStr.text = vars.relativeTo.map CStr.text
  relativeBase :
    vars'.relativeBase.map CStr.text = vars.relativeBase.map CStr.text
  others :
    { vars' with relativeTo := none, relativeBase := none } =
      { vars with relativeTo := none, relativeBase := none }

/-- What `resolve_relative` comes to, in terms of the strings. -/
def resolveTexts (library : Library) (vars : Vars)
    (relativeTo relativeBase : Option Word) : Option Relative :=
  match relativeTo, relativeBase with
  | none, none => some ⟨none, none⟩
  | some target, none =>
      (canonicalDir library vars target).map fun can => ⟨some can, none⟩
  | none, some base =>
      (canonicalDir library vars base).map fun can =>
        ⟨some can, some can⟩
  | some target, some base =>
      match canonicalDir library vars target,
        canonicalDir library vars base with
      | some canTarget, some canBase =>
          if pathPrefix canBase canTarget then
            some ⟨some canTarget, some canBase⟩
          else some ⟨none, some canTarget⟩
      | _, _ => none

/-- The branch on the pointers cannot be seen in the result. -/
theorem resolveRelative_eq_resolveTexts
    (library : Library) (vars : Vars) :
    resolveRelative library vars =
      resolveTexts library vars (vars.relativeTo.map CStr.text)
        (vars.relativeBase.map CStr.text) := by
  unfold resolveRelative
  rcases targetEq : vars.relativeTo with _ | target
  · rcases baseEq : vars.relativeBase with _ | base
    · rfl
    · simp only [Option.map_none, Option.map_some, resolveTexts,
        if_true]
      rcases canonicalDir library vars base.text with _ | can <;> rfl
  · rcases baseEq : vars.relativeBase with _ | base
    · simp only [Option.map_none, Option.map_some, resolveTexts,
        reduceCtorEq, if_false]
      rcases canonicalDir library vars target.text with _ | can <;> rfl
    · simp only [Option.map_some, resolveTexts]
      rcases canTarget : canonicalDir library vars target.text with
        _ | canTarget
      · rfl
      · by_cases same : some base = some target
        · cases same
          simp only [canTarget, if_true, pathPrefix_self]
        · simp only [if_neg same]
          rcases canonicalDir library vars base.text with _ | can <;> rfl

/-- From a copy of the variables `main` goes on as from the variables
themselves. -/
theorem resume_copied (library : Library) {vars vars' : Vars}
    (copied : Copied vars vars') (files : List Word) :
    resume library vars' files = resume library vars files := by
  rcases copied with ⟨target, base, others⟩
  have resolved : resolveRelative library vars' =
      resolveRelative library vars := by
    rw [resolveRelative_eq_resolveTexts, resolveRelative_eq_resolveTexts,
      target, base]
    show resolveTexts library
      { vars' with relativeTo := none, relativeBase := none } _ _ = _
    rw [others]
    rfl
  have processed : processPath library vars' =
      processPath library vars := by
    show processPath library
      { vars' with relativeTo := none, relativeBase := none } = _
    rw [others]
    rfl
  unfold resume
  rw [resolved, processed]

/-! ## Soundness of the neck -/

theorem ordering_optionConfig (posixlyCorrect : Bool) :
    (optionConfig posixlyCorrect).ordering ≠ .returnInOrder := by
  cases posixlyCorrect <;> decide

theorem handle_unrecognized (optarg : Option CStr) (vars : Vars) :
    ∃ early, handle .unrecognized optarg vars = .error early :=
  ⟨_, rfl⟩

/--
Resumed from its neck, with its two strings copied under any sharing,
`realpath` does what it does in one run.
-/
theorem realpath_soundAt
    (library : Library) {posixlyCorrect : Bool} {name : Word}
    {words files : List Word} {neck : State × Vars}
    (reached : ((program library posixlyCorrect).staged name).Reaches words
      neck)
    (noOperand : operands neck.1 = [])
    (areOperands : ∀ file ∈ files, nonoption file) :
    ((program library posixlyCorrect).staged name).SoundAt
      (Presents Copied name files) words (words ++ files) := by
  apply (soundAt_iff (ordering_optionConfig posixlyCorrect)
    handle_unrecognized reached noOperand areOperands).mpr
  intro vars copied
  exact resume_copied library copied files

/-- A file system with the directories `/a` and `/b`. -/
def twoDirectories : Library where
  canonicalizeFilenameMode fname _ :=
    if fname = "/a".toList then some ⟨"a".toList⟩
    else if fname = "/b".toList then some ⟨"b".toList⟩
    else none
  stat _ := some true
  relpath fname dir :=
    if fname = dir then some ".".toList
    else some ("../".toList ++ fname.rest)

/-- The options give one directory twice, in two strings. -/
def sameTwice : List Word :=
  ["--relative-to=/a".toList, "--relative-base=/a".toList]

/-- `realpath --relative-to=/a --relative-base=/a`, at its neck: the pointers
differ, and in a copy they may be the same. -/
def relativeToA : State × Vars :=
  let target : StrObj := ⟨.argument 1, "--relative-to=/a".toList⟩
  let base : StrObj := ⟨.argument 2, "--relative-base=/a".toList⟩
  (⟨argvOf ("realpath".toList :: sameTwice), 3, none, none, 3, 3⟩,
    { initial with
      relativeTo := some ⟨target, 14⟩
      relativeBase := some ⟨base, 16⟩ })

/-- These options reach their neck. -/
theorem reaches_relativeToA :
    scanOptions (optionConfig false) handle "realpath".toList sameTwice initial =
      .left relativeToA := by
  decide +kernel

/-- `realpath --relative-to=/a --relative-base=/a /b`. -/
theorem realpath_soundAt_relativeToA :
    ((program twoDirectories false).staged "realpath".toList).SoundAt
      (Presents Copied "realpath".toList ["/b".toList]) sameTwice
      (sameTwice ++ ["/b".toList]) :=
  realpath_soundAt twoDirectories (reaches_iff.mpr reaches_relativeToA)
    (by decide +kernel) (by decide)

end Lmcas.Realpath
