import Lmcas.Lib.Fallible
import Lmcas.Lib.TwoRuns
import Lmcas.Sort
import Lmcas.SortTables

/-!
# The configuration of `sort` in two worlds

In its option loop `sort` asks for the limit on open files, to check the
argument of `--batch-size`, and for the amount of physical memory, to make
sense of `-S N%`.  Only the second answer stays in a variable.
-/

namespace Lmcas.Sort

open Lmcas.Lib.CString
open Lmcas.Lib.Fallible
open Lmcas.Lib.Getopt
open Lmcas.Lib.Iteration
open Lmcas.Lib.OrderedLoop
open Lmcas.Lib.TwoRuns
open Lmcas.System

/-- Before the first option. -/
theorem kept_initial (environment : Environment) (scan : State) :
    Kept environment scan (initial environment) :=
  fun _ files => absurd rfl files

/-- The loop of `main`. -/
def scanArguments (gnulib : Gnulib) (environment : Environment)
    (machine : Machine) (name : Word) (words : List Word) :
    Ending (Scanning Vars) Early :=
  let tame : (optionSwitch gnulib machine environment).Tame
      (Kept environment) := optionSwitch_tame
  tame.scan name words (initial environment) (kept_initial environment _)

/-- What is set in front of the neck. -/
structure Configured where
  tables : Tables
  scanning : Scanning Vars

/-- `main` up to the neck. -/
def configure (gnulib : Gnulib) (inherited : Inherited)
    (environment : Environment) (machine : Machine) (name : Word)
    (words : List Word) : Ending Configured Early :=
  match scanArguments gnulib environment machine name words with
  | .exited early => .exited early
  | .left scanning => .left ⟨tables inherited, scanning⟩

/-- The size is a percentage of the physical memory. -/
def isPercentage (gnulib : Gnulib) (s : Word) : Bool :=
  let n := gnulib.xstrtoumax s "EgGkKmMPtTYZ".toList
  n.error = .invalidSuffixChar && s.drop n.suffix = ['%']

section TwoWorlds

variable {gnulib : Gnulib} {environment : Environment}
  {machine machine' : Machine}

/-! ## Variables but for `sort_size` -/

/-- The variables without the size of the buffer. -/
def Vars.blank (vars : Vars) : Vars :=
  { vars with sortSize := 0 }

/-- The variables of two runs, but for `sort_size`. -/
def Agree (vars vars' : Vars) : Prop :=
  vars'.blank = vars.blank

/-- States that agree differ at most in that size. -/
theorem eq_of_blank_eq {vars vars' : Vars} (agree : Agree vars vars') :
    vars' = { vars with sortSize := vars'.sortSize } := by
  rcases vars with ⟨⟩
  rcases vars' with ⟨⟩
  simp only [Agree, Vars.blank, Vars.mk.injEq] at agree ⊢
  simp only [agree, and_self]

section Blank

variable (vars : Vars)

/-- The size takes no part in `-c`. -/
theorem setCheck_blank (c : Char) :
    (setCheck c vars.blank).map Vars.blank =
      (setCheck c vars).map Vars.blank := by
  unfold setCheck
  show Except.map _ (if vars.checkonly.any (· ≠ c) then _ else _) = _
  split <;> rfl

/-- Nor in `-t`. -/
theorem setTab_blank (optarg : Word) :
    (setTab optarg vars.blank).map Vars.blank =
      (setTab optarg vars).map Vars.blank := by
  unfold setTab
  split
  · rfl
  · rename_i newtab _
    show Except.map _ (if vars.tab.any (· ≠ newtab) then _ else _) = _
    split <;> rfl

/-- The cases for the options that have no letter, but for
`--batch-size`. -/
theorem setOption_enum_blank {value : Int} {optarg : Option CStr}
    (notNmerge : Ret.val (.enum value) ≠ .val nmergeOption) :
    (setOption gnulib machine' (.val (.enum value)) optarg
        vars.blank).map Vars.blank =
      (setOption gnulib machine (.val (.enum value)) optarg vars).map
        Vars.blank := by
  unfold setOption
  dsimp only
  split
  · cases keyword gnulib.argmatch sortTable (argument optarg) <;> rfl
  split
  · split
    · exact setCheck_blank vars 'c'
    · split
      · rfl
      · exact setCheck_blank vars _
  split
  · show (Except.map _ (once vars.compressProgram _)).map _ = _
    cases once vars.compressProgram (argument optarg) <;> rfl
  split
  · rfl
  split
  · rfl
  split
  · show (Except.map _ (once vars.randomSource _)).map _ = _
    cases once vars.randomSource (argument optarg) <;> rfl
  split
  · cases specifyNthreads gnulib (argument optarg) <;> rfl
  · rfl

/-- Only `-S` looks at `sort_size`, and only `-S` and `--batch-size` look at
the machine. -/
theorem setOption_blank {ret : Ret} {optarg : Option CStr}
    (notSize : ret ≠ .val (.char 'S')) (notNmerge : ret ≠ .val nmergeOption) :
    (setOption gnulib machine' ret optarg vars.blank).map Vars.blank =
      (setOption gnulib machine ret optarg vars).map Vars.blank := by
  unfold setOption
  split
  case h_1 => exact setCheck_blank vars 'c'
  case h_2 => exact setCheck_blank vars 'C'
  case h_3 => cases parseKey gnulib.xstrtoumax (argument optarg) <;> rfl
  case h_5 =>
    show (Except.map _ (once vars.outfile _)).map _ = _
    cases once vars.outfile (argument optarg) <;> rfl
  case h_7 => exact absurd rfl notSize
  case h_8 => exact setTab_blank vars _
  case h_13 => split <;> rfl
  case h_14 => exact setOption_enum_blank vars notNmerge
  all_goals rfl

end Blank

/-! ## One case -/

/-- `-S` sets the size and nothing else, on any machine. -/
theorem specifySortSize_agree {s : Word} {vars vars' next next' : Vars}
    (agree : Agree vars vars')
    (set : specifySortSize gnulib machine s vars = .ok next)
    (set' : specifySortSize gnulib machine' s vars' = .ok next') :
    Agree next next' := by
  obtain ⟨_, rfl⟩ := specifySortSize_ok set
  obtain ⟨_, rfl⟩ := specifySortSize_ok set'
  exact agree

/-- Both runs merge as many files at a time as they are told. -/
theorem specifyNmerge_agree {s : Word} {vars vars' next next' : Vars}
    (agree : Agree vars vars')
    (set : specifyNmerge gnulib machine s vars = .ok next)
    (set' : specifyNmerge gnulib machine' s vars' = .ok next') :
    Agree next next' := by
  unfold specifyNmerge at set set'
  dsimp only at set set'
  split at set <;> cases set
  split at set' <;> cases set'
  rw [eq_of_blank_eq agree]
  rfl

/-- An option keeps the agreement of two runs. -/
theorem setOption_agree {ret : Ret} {optarg : Option CStr}
    {vars vars' next next' : Vars} (agree : Agree vars vars')
    (set : setOption gnulib machine ret optarg vars = .ok next)
    (set' : setOption gnulib machine' ret optarg vars' = .ok next') :
    Agree next next' := by
  by_cases size : ret = .val (.char 'S')
  · subst size
    exact specifySortSize_agree agree set set'
  by_cases nmerge : ret = .val nmergeOption
  · subst nmerge
    exact specifyNmerge_agree agree set set'
  have blank : (setOption gnulib machine' ret optarg vars.blank).map
      Vars.blank = (setOption gnulib machine ret optarg vars).map
        Vars.blank := setOption_blank vars size nmerge
  have blank' : (setOption gnulib machine' ret optarg vars'.blank).map
      Vars.blank = (setOption gnulib machine' ret optarg vars').map
        Vars.blank := setOption_blank vars' size nmerge
  rw [agree, blank, set, set'] at blank'
  exact (Except.ok.inj blank').symm

theorem setOperand_sortSize {posixlyCorrect : Bool} {optarg : Word}
    {scan : State} {vars : Vars} (sortSize : Nat) :
    setOperand gnulib posixlyCorrect optarg scan
        { vars with sortSize := sortSize } =
      (setOperand gnulib posixlyCorrect optarg scan vars).map
        fun moved => (moved.1, { moved.2 with sortSize := sortSize }) := by
  unfold setOperand
  split
  · dsimp only
    split
    · split
      · rfl
      · rfl
      · rename_i key pos2 _ _
        cases parseMinusPos gnulib.xstrtoumax pos2 key <;> rfl
    · rfl
  · rfl

/-- So does an operand. -/
theorem setOperand_agree {posixlyCorrect : Bool} {optarg : Word}
    {scan : State} {vars vars' next next' : Vars} {optind optind' : Nat}
    (agree : Agree vars vars')
    (set : setOperand gnulib posixlyCorrect optarg scan vars =
      .ok (optind, next))
    (set' : setOperand gnulib posixlyCorrect optarg scan vars' =
      .ok (optind', next')) :
    optind' = optind ∧ Agree next next' := by
  rw [eq_of_blank_eq agree, setOperand_sortSize, set] at set'
  cases set'
  exact ⟨rfl, rfl⟩

/-- So does a turn. -/
theorem handle_agree {ret : Ret} {scan : State}
    {vars vars' next next' : Vars} {optind optind' : Nat}
    (agree : Agree vars vars')
    (handled : handle gnulib machine environment ret scan vars =
      .ok (optind, next))
    (handled' : handle gnulib machine' environment ret scan vars' =
      .ok (optind', next')) :
    optind' = optind ∧ Agree next next' := by
  rcases handle_cases handled with ⟨rfl, set⟩ | ⟨option, set, moved⟩
  · exact setOperand_agree agree set handled'
  · rcases handle_cases handled' with
      ⟨operand, _⟩ | ⟨_, set', moved'⟩
    · exact absurd operand option
    · exact ⟨moved'.trans moved.symm, setOption_agree agree set set'⟩

/-- On two machines the loop takes the same turns. -/
theorem optionSwitch_together :
    Together Agree (fun _ _ => True)
      (optionSwitch gnulib machine environment)
      (optionSwitch gnulib machine' environment) where
  config := rfl
  pedantic agree := by
    rw [eq_of_blank_eq agree]
    rfl
  stored agree stored stored' := by
    rw [storeFile_ok stored, storeFile_ok stored', eq_of_blank_eq agree]
    rfl
  handled _ agree handled handled' := handle_agree agree handled handled'

/-! ## Sizes that are no percentage -/

/-- A size that is no percentage is the same on every machine. -/
theorem sortSizeOf_eq {s : Word}
    (absolute : isPercentage gnulib s = false) :
    sortSizeOf gnulib machine' s = sortSizeOf gnulib machine s := by
  unfold sortSizeOf
  unfold isPercentage at absolute
  generalize gnulib.xstrtoumax s "EgGkKmMPtTYZ".toList = n at absolute ⊢
  dsimp only at absolute ⊢
  split
  · rfl
  · rename_i error
    split
    · split
      · rfl
      · rename_i percent
        simp [error, percent] at absolute
      · rfl
    · rfl
  · rfl

/-- The run has come to a `-S N%`. -/
def TakesPercentage (gnulib : Gnulib) (environment : Environment)
    (machine : Machine) (name : Word) (words : List Word) : Prop :=
  ∃ optarg,
    Switch.Hands (optionSwitch gnulib machine environment)
      (entry name words (initial environment)) (.val (.char 'S')) optarg ∧
    isPercentage gnulib (argument optarg) = true

/-- Only `-S` changes `sort_size`. -/
theorem setOption_sortSize {ret : Ret} {optarg : Option CStr}
    {vars next : Vars} (notSize : ret ≠ .val (.char 'S'))
    (set : setOption gnulib machine ret optarg vars = .ok next) :
    next.sortSize = vars.sortSize := by
  unfold setOption at set
  split at set
  case h_7 => exact absurd rfl notSize
  all_goals
    repeat' split at set
    all_goals first
      | (obtain rfl := setCheck_ok set; rfl)
      | (obtain ⟨_, rfl⟩ := setTab_ok set; rfl)
      | (obtain ⟨_, _, rfl⟩ := specifyNmerge_ok set; rfl)
      | (obtain ⟨_, _, rfl⟩ := map_eq_ok_iff.mp set; rfl)
      | (cases set <;> rfl)

/-- So is what `-S` sets. -/
theorem specifySortSize_eq {s : Word} {vars : Vars}
    (absolute : isPercentage gnulib s = false) :
    specifySortSize gnulib machine' s vars =
      specifySortSize gnulib machine s vars := by
  have same := @sortSizeOf_eq gnulib machine machine' s absolute
  rw [specifySortSize, specifySortSize, same]

theorem setOption_eq {ret : Ret} {optarg : Option CStr}
    {vars next next' : Vars}
    (absolute : ret = .val (.char 'S') →
      isPercentage gnulib (argument optarg) = false)
    (set : setOption gnulib machine ret optarg vars = .ok next)
    (set' : setOption gnulib machine' ret optarg vars = .ok next') :
    next' = next := by
  by_cases size : ret = .val (.char 'S')
  · have same := @specifySortSize_eq gnulib machine machine'
      (argument optarg) vars (absolute size)
    subst size
    exact Except.ok.inj (set'.symm.trans (same.trans set))
  · have agree : Agree next next' := setOption_agree rfl set set'
    have sortSize : next'.sortSize = next.sortSize := by
      rw [setOption_sortSize size set, setOption_sortSize size set']
    rw [eq_of_blank_eq agree, sortSize]

/-- No size that the switch is given is a percentage. -/
def Absolute (gnulib : Gnulib) (ret : Ret) (optarg : Option CStr) :
    Prop :=
  ret = .val (.char 'S') → isPercentage gnulib (argument optarg) = false

/-- So is what a turn sets. -/
theorem handle_eq {ret : Ret} {scan : State} {vars next next' : Vars}
    {optind optind' : Nat} (absolute : Absolute gnulib ret scan.optarg)
    (handled : handle gnulib machine environment ret scan vars =
      .ok (optind, next))
    (handled' : handle gnulib machine' environment ret scan vars =
      .ok (optind', next')) :
    optind' = optind ∧ next' = next := by
  rcases handle_cases handled with ⟨rfl, set⟩ | ⟨option, set, moved⟩
  · cases set.symm.trans handled'
    exact ⟨rfl, rfl⟩
  · rcases handle_cases handled' with
      ⟨operand, _⟩ | ⟨_, set', moved'⟩
    · exact absurd operand option
    · exact ⟨moved'.trans moved.symm, setOption_eq absolute set set'⟩

/-- Without percentages the loop comes to the same variables. -/
theorem optionSwitch_together_absolute :
    Together (fun vars vars' => vars' = vars) (Absolute gnulib)
      (optionSwitch gnulib machine environment)
      (optionSwitch gnulib machine' environment) where
  config := rfl
  pedantic same := by
    rw [same]
    rfl
  stored same stored stored' := by
    rw [storeFile_ok stored, storeFile_ok stored', same]
  handled absolute same handled handled' :=
    handle_eq absolute handled (same ▸ handled')

/-! ## The necks -/

variable {inherited : Inherited} {name : Word} {words : List Word}

/-- A run is at the neck when the loop has left it there. -/
theorem scanArguments_eq_left_iff {scanning : Scanning Vars} :
    scanArguments gnulib environment machine name words =
        .left scanning ↔
      Ends (optionSwitch gnulib machine environment).body
        (entry name words (initial environment)) (.left scanning) := by
  have tame : (optionSwitch gnulib machine environment).Tame
      (Kept environment) := optionSwitch_tame
  have scanned : tame.scan name words (initial environment)
      (kept_initial environment _) = .left scanning ↔ _ := scan_eq_iff
  exact scanned

/-- The tables are set by then. -/
theorem configure_eq_left_iff {neck : Configured} :
    configure gnulib inherited environment machine name words =
        .left neck ↔
      neck.tables = tables inherited ∧
        Ends (optionSwitch gnulib machine environment).body
          (entry name words (initial environment))
          (.left neck.scanning) := by
  rw [← scanArguments_eq_left_iff, configure]
  rcases neck with ⟨tables', scanning⟩
  cases scanArguments gnulib environment machine name words with
  | exited early => simp
  | left scanning' =>
      simp only [Ending.left.injEq, Configured.mk.injEq]
      exact and_congr_left' eq_comm

variable {neck neck' : Configured}

/-- On two machines the runs agree at the neck but for the size of the
buffer. -/
theorem configure_agree
    (reached : configure gnulib inherited environment machine name
      words = .left neck)
    (reached' : configure gnulib inherited environment machine' name
      words = .left neck') :
    neck'.tables = neck.tables ∧
      neck'.scanning.getopt = neck.scanning.getopt ∧
      neck'.scanning.vars =
        { neck.scanning.vars with
          sortSize := neck'.scanning.vars.sortSize } := by
  have ⟨tables, ends⟩ := configure_eq_left_iff.mp reached
  have ⟨tables', ends'⟩ := configure_eq_left_iff.mp reached'
  have abreast := optionSwitch_together.final (fun _ => trivial)
    ⟨rfl, rfl, rfl⟩ ends ends'
  exact ⟨tables'.trans tables.symm, abreast.getopt,
    eq_of_blank_eq abreast.vars⟩

/-- Without percentages they agree altogether. -/
theorem configure_eq
    (absolute : ¬ TakesPercentage gnulib environment machine name words)
    (reached : configure gnulib inherited environment machine name
      words = .left neck)
    (reached' : configure gnulib inherited environment machine' name
      words = .left neck') :
    neck'.scanning.vars = neck.scanning.vars := by
  have seen : ∀ {ret optarg},
      Switch.Hands (optionSwitch gnulib machine environment)
        (entry name words (initial environment)) ret optarg →
      Absolute gnulib ret optarg := by
    rintro ret optarg hands rfl
    by_contra percentage
    exact absolute ⟨optarg, hands, Bool.not_eq_false _ ▸ percentage⟩
  have ends := (configure_eq_left_iff.mp reached).2
  have ends' := (configure_eq_left_iff.mp reached').2
  exact (optionSwitch_together_absolute.final seen ⟨rfl, rfl, rfl⟩ ends
    ends').vars

end TwoWorlds

end Lmcas.Sort
