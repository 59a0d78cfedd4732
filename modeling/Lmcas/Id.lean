import Lmcas.Lib.TwoRuns
import Lmcas.System

/-!
# The configuration of `id`

`main` from `id.c`, up to its neck.  What the kernel says of SELinux and SMACK
is asked for in front of the option loop, and read behind the neck.
-/

namespace Lmcas.Id

open Lmcas.Lib.CString
open Lmcas.Lib.Getopt
open Lmcas.Lib.Iteration
open Lmcas.Lib.OptionLoop
open Lmcas.Lib.TwoRuns
open Lmcas.System

/-- `longopts[]`. -/
def longopts : List LongOption :=
  [⟨"context".toList, .no, .char 'Z'⟩,
    ⟨"group".toList, .no, .char 'g'⟩,
    ⟨"groups".toList, .no, .char 'G'⟩,
    ⟨"name".toList, .no, .char 'n'⟩,
    ⟨"real".toList, .no, .char 'r'⟩,
    ⟨"user".toList, .no, .char 'u'⟩,
    ⟨"zero".toList, .no, .char 'z'⟩,
    getoptHelpOptionDecl,
    getoptVersionOptionDecl]

/-- How `main` calls `getopt_long`. -/
def optionConfig (posixlyCorrect : Bool) : Config :=
  getoptInitialize "agnruzGZ".toList longopts posixlyCorrect

/-- What `is_selinux_enabled ()` and `is_smack_enabled ()` return. -/
structure Kernel where
  isSelinuxEnabled : Int
  isSmackEnabled : Bool

/-- The variables that are set in front of the neck and read behind it. -/
structure Vars where
  selinuxEnabled : Bool
  smackEnabled : Bool
  justContext : Bool
  justGroup : Bool
  justGroupList : Bool
  justUser : Bool
  useName : Bool
  useReal : Bool
  optZero : Bool
deriving DecidableEq, Repr

/-- The variables before the first option: the kernel has been asked already. -/
def initial (kernel : Kernel) : Vars where
  selinuxEnabled := 0 < kernel.isSelinuxEnabled
  smackEnabled := kernel.isSmackEnabled
  justContext := false
  justGroup := false
  justGroupList := false
  justUser := false
  useName := false
  useReal := false
  optZero := false

/-- The `switch`.  `haveSmack` tells whether `HAVE_SMACK` is defined. -/
def handle (haveSmack : Bool) (ret : Ret) (_optarg : Option CStr)
    (vars : Vars) : Except Early Vars :=
  match ret with
  | .val (.char 'a') => .ok vars
  | .val (.char 'Z') =>
      if !vars.selinuxEnabled && !(haveSmack && vars.smackEnabled) then
        .error (.die exitFailure)
      else .ok { vars with justContext := true }
  | .val (.char 'g') => .ok { vars with justGroup := true }
  | .val (.char 'n') => .ok { vars with useName := true }
  | .val (.char 'r') => .ok { vars with useReal := true }
  | .val (.char 'u') => .ok { vars with justUser := true }
  | .val (.char 'z') => .ok { vars with optZero := true }
  | .val (.char 'G') => .ok { vars with justGroupList := true }
  | ret => .error (endingCase exitFailure ret)

/-- `main` up to the neck. -/
def configure (haveSmack posixlyCorrect : Bool) (kernel : Kernel)
    (name : Word) (words : List Word) : Ending (State × Vars) Early :=
  scanOptions (optionConfig posixlyCorrect) (handle haveSmack) name words
    (initial kernel)

/-! ## Two runs -/

/-- The variables of two runs, but for what the kernel says. -/
def Agree (kernel : Kernel) (vars vars' : Vars) : Prop :=
  vars' =
    { vars with
      selinuxEnabled := 0 < kernel.isSelinuxEnabled
      smackEnabled := kernel.isSmackEnabled }

/-- `-Z` is accepted only where the kernel has a context to print. -/
theorem handle_context {haveSmack : Bool} {optarg : Option CStr}
    {vars next : Vars}
    (handled : handle haveSmack (.val (.char 'Z')) optarg vars = .ok next) :
    next = { vars with justContext := true } := by
  have decided : (if !vars.selinuxEnabled &&
        !(haveSmack && vars.smackEnabled) then
      Except.error (Early.die exitFailure)
    else .ok { vars with justContext := true }) = .ok next := handled
  split at decided <;> cases decided
  rfl

/-- The kernel decides no more than whether `-Z` is accepted. -/
theorem handle_agree {haveSmack : Bool} {kernel : Kernel} {ret : Ret}
    {optarg : Option CStr} {vars vars' next next' : Vars}
    (agree : Agree kernel vars vars')
    (handled : handle haveSmack ret optarg vars = .ok next)
    (handled' : handle haveSmack ret optarg vars' = .ok next') :
    Agree kernel next next' := by
  by_cases context : ret = .val (.char 'Z')
  · subst context
    rw [handle_context handled, handle_context handled', agree]
    rfl
  · unfold handle at handled handled'
    split at handled
    case h_2 => exact absurd rfl context
    all_goals cases handled
    all_goals
      cases handled'
      cases agree
      rfl

/-- Kernels that differ leave nothing else behind at the neck than their
answers. -/
theorem configure_agree {haveSmack posixlyCorrect : Bool}
    {kernel kernel' : Kernel} {name : Word} {words : List Word}
    {neck neck' : State × Vars}
    (reached : configure haveSmack posixlyCorrect kernel name words =
      .left neck)
    (reached' : configure haveSmack posixlyCorrect kernel' name words =
      .left neck') :
    neck'.1 = neck.1 ∧
      neck'.2 =
        { neck.2 with
          selinuxEnabled := 0 < kernel'.isSelinuxEnabled
          smackEnabled := kernel'.isSmackEnabled } := by
  have begins : Agree kernel' (initial kernel) (initial kernel') := rfl
  exact scanOptions_agree (fun _ => handle_agree) begins reached reached'

end Lmcas.Id
