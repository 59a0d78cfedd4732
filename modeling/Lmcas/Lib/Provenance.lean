import Mathlib.Data.List.Induction
import Mathlib.Tactic.Common

/-!
# Provenance of files

A build is a list of steps over a store that outlives it.  A step reads the
files it operates on and the files its options name, and writes its targets.
Contents are terms that say what they have been made from, so that a content
can be asked whether a single run has made it.
-/

namespace Lmcas.Lib.Provenance

variable {Tool Leaf File : Type}

/-- What a file holds: a file from before the first run, an input of a run, or
the product of a tool in a run. -/
inductive Content (Tool Leaf File : Type) where
  | missing
  | old (file : File)
  | given (run : Nat) (leaf : Leaf)
  | made (run : Nat) (tool : Tool) (operands options : List (Content Tool Leaf File))

/-- What each file holds. -/
abbrev Store (Tool Leaf File : Type) := File → Content Tool Leaf File

namespace Content

/-- Whether the file is not there. -/
def isMissing : Content Tool Leaf File → Bool
  | .missing => true
  | _ => false

/-- The run in which a content has come up. -/
def run? : Content Tool Leaf File → Option Nat
  | .missing | .old _ => none
  | .given run _ | .made run _ _ _ => some run

theorem isMissing_iff {content : Content Tool Leaf File} :
    content.isMissing = true ↔ content = .missing := by
  cases content <;> simp [isMissing]

end Content

/-- `FromRun n` holds of what run `n` has produced from its own inputs and from
nothing else.  A tool needs its operands; a file that an option names may be
missing. -/
inductive FromRun (run : Nat) : Content Tool Leaf File → Prop
  | given (leaf : Leaf) : FromRun run (.given run leaf)
  | made (tool : Tool) {operands options : List (Content Tool Leaf File)} :
      (∀ operand ∈ operands, FromRun run operand) →
      (∀ option ∈ options, option ≠ .missing → FromRun run option) →
      FromRun run (.made run tool operands options)

/-- `Before n` holds of what was there when run `n` began. -/
def Before (run : Nat) (content : Content Tool Leaf File) : Prop :=
  ∀ earlier, content.run? = some earlier → earlier < run

theorem FromRun.run_eq {run : Nat} {content : Content Tool Leaf File}
    (fromRun : FromRun run content) : content.run? = some run := by
  cases fromRun <;> rfl

/-- What is older than a run is not from it. -/
theorem Before.not_fromRun {run : Nat} {content : Content Tool Leaf File}
    (before : Before run content) : ¬ FromRun run content := by
  intro fromRun
  exact Nat.lt_irrefl run (before run fromRun.run_eq)

theorem Before.mono {run later : Nat} {content : Content Tool Leaf File}
    (before : Before run content) (le : run ≤ later) :
    Before later content := by
  intro earlier came
  exact Nat.lt_of_lt_of_le (before earlier came) le

/-- What a tool makes is from its run if the operands are, and the options that
are there. -/
theorem fromRun_made_iff {run : Nat} {tool : Tool}
    {operands options : List (Content Tool Leaf File)} :
    FromRun run (.made run tool operands options) ↔
      (∀ operand ∈ operands, FromRun run operand) ∧
        ∀ option ∈ options, option ≠ .missing → FromRun run option := by
  constructor
  · intro fromRun
    cases fromRun with
    | made _ fromOperands fromOptions => exact ⟨fromOperands, fromOptions⟩
  · rintro ⟨fromOperands, fromOptions⟩
    exact .made tool fromOperands fromOptions

/-! ## Steps -/

/-- What a tool reads: an input of the run, or a file. -/
inductive Source (Leaf File : Type) where
  | leaf (value : Leaf)
  | file (name : File)
deriving DecidableEq, Repr

/-- A tool is called on some files and writes others. -/
structure Step (Tool Leaf File : Type) where
  tool : Tool
  operands : List (Source Leaf File)
  options : List File := []
  targets : List File

/-- What a tool reads. -/
def Source.read (run : Nat) (store : Store Tool Leaf File) :
    Source Leaf File → Content Tool Leaf File
  | .leaf input => .given run input
  | .file name => store name

section Apply

variable [DecidableEq File]

/-- The files that are written hold the same; the others are as they were. -/
def Step.apply (run : Nat) (store : Store Tool Leaf File)
    (step : Step Tool Leaf File) : Store Tool Leaf File := fun file =>
  if file ∈ step.targets then
    .made run step.tool (step.operands.map (Source.read run store))
      (step.options.map store)
  else store file

/-- The store after the steps that have succeeded. -/
def applyAll (run : Nat) (start : Store Tool Leaf File)
    (steps : List (Step Tool Leaf File)) : Store Tool Leaf File :=
  steps.foldl (Step.apply run) start

@[simp]
theorem applyAll_nil (run : Nat) (start : Store Tool Leaf File) :
    applyAll run start [] = start := rfl

@[simp]
theorem applyAll_concat (run : Nat) (start : Store Tool Leaf File)
    (steps : List (Step Tool Leaf File)) (step : Step Tool Leaf File) :
    applyAll run start (steps ++ [step]) =
      step.apply run (applyAll run start steps) := by
  simp [applyAll]

theorem applyAll_append (run : Nat) (start : Store Tool Leaf File)
    (steps rest : List (Step Tool Leaf File)) :
    applyAll run start (steps ++ rest) =
      applyAll run (applyAll run start steps) rest := by
  simp [applyAll]

theorem Step.apply_of_mem {run : Nat} {store : Store Tool Leaf File}
    {step : Step Tool Leaf File} {file : File} (written : file ∈ step.targets) :
    step.apply run store file =
      .made run step.tool (step.operands.map (Source.read run store))
        (step.options.map store) :=
  if_pos written

theorem Step.apply_of_not_mem {run : Nat} {store : Store Tool Leaf File}
    {step : Step Tool Leaf File} {file : File} (kept : file ∉ step.targets) :
    step.apply run store file = store file :=
  if_neg kept

/-- A run keeps what was there in the past of the next one. -/
theorem before_applyAll {run : Nat} {start : Store Tool Leaf File}
    (before : ∀ file, Before run (start file))
    (steps : List (Step Tool Leaf File)) :
    ∀ file, Before (run + 1) (applyAll run start steps file) := by
  induction steps using List.reverseRecOn with
  | nil => exact fun file => (before file).mono (Nat.le_succ run)
  | append_singleton steps step inductionHypothesis =>
      intro file
      rw [applyAll_concat]
      by_cases written : file ∈ step.targets
      · rw [Step.apply_of_mem written]
        intro earlier came
        cases came
        exact Nat.lt_succ_self run
      · rw [Step.apply_of_not_mem written]
        exact inductionHypothesis file

/-! ## What the successes have to be -/

/-- Has one of the steps written the file? -/
def written (steps : List (Step Tool Leaf File)) (file : File) : Bool :=
  steps.any fun step => decide (file ∈ step.targets)

/-- What is read is an input of the run, or a file that `supports` admits. -/
def Source.admitted (supports : File → Bool) : Source Leaf File → Bool
  | .leaf _ => true
  | .file name => supports name

/-- Of the steps that have succeeded, the last one first: the last that writes
the file finds every operand supported, and of the files its options name
those that there are.  `absent` are the files missing before the first step. -/
def supported (absent : File → Bool) :
    List (Step Tool Leaf File) → File → Bool
  | [], _ => false
  | step :: earlier, file =>
      if file ∈ step.targets then
        step.operands.all (Source.admitted (supported absent earlier)) &&
        step.options.all fun option =>
          (absent option && !written earlier option) ||
            supported absent earlier option
      else supported absent earlier file

/-- A file is missing after some steps if it was before and none writes it. -/
theorem applyAll_eq_missing_iff {run : Nat} {start : Store Tool Leaf File}
    {steps : List (Step Tool Leaf File)} {file : File} :
    applyAll run start steps file = .missing ↔
      start file = .missing ∧ written steps.reverse file = false := by
  induction steps using List.reverseRecOn with
  | nil => simp [written]
  | append_singleton steps step inductionHypothesis =>
      rw [applyAll_concat]
      by_cases target : file ∈ step.targets
      · simp [Step.apply_of_mem target, written, target]
      · rw [Step.apply_of_not_mem target, inductionHypothesis]
        simp [written, target]

/-- The run rule: a file is of this run exactly if the steps that have succeeded
support it. -/
theorem fromRun_applyAll_iff {run : Nat} {start : Store Tool Leaf File}
    (before : ∀ file, Before run (start file))
    (steps : List (Step Tool Leaf File)) (file : File) :
    FromRun run (applyAll run start steps file) ↔
      supported (fun file => (start file).isMissing) steps.reverse file = true := by
  induction steps using List.reverseRecOn generalizing file with
  | nil => simpa [supported] using (before file).not_fromRun
  | append_singleton steps step inductionHypothesis =>
      rw [applyAll_concat, List.reverse_append, List.reverse_singleton,
        List.singleton_append]
      by_cases target : file ∈ step.targets
      · have operand (source : Source Leaf File) :
            FromRun run (source.read run (applyAll run start steps)) ↔
              source.admitted
                (supported (fun file => (start file).isMissing)
                  steps.reverse) = true := by
          cases source with
          | leaf input =>
              simpa [Source.read, Source.admitted] using FromRun.given input
          | file name => exact inductionHypothesis name
        have option (source : File) :
            (applyAll run start steps source ≠ .missing →
              FromRun run (applyAll run start steps source)) ↔
              (((start source).isMissing && !written steps.reverse source) ||
                supported (fun file => (start file).isMissing)
                  steps.reverse source) = true := by
          rw [inductionHypothesis, ne_eq, applyAll_eq_missing_iff,
            Bool.or_eq_true, Bool.and_eq_true, Bool.not_eq_true',
            Content.isMissing_iff]
          exact or_iff_not_imp_left.symm
        rw [Step.apply_of_mem target, fromRun_made_iff]
        simp only [List.mem_map, forall_exists_index, and_imp,
          forall_apply_eq_imp_iff₂, operand, option, supported, target,
          if_true, Bool.and_eq_true, List.all_eq_true]
      · rw [Step.apply_of_not_mem target, inductionHypothesis]
        simp only [supported, target, if_false]

end Apply

end Lmcas.Lib.Provenance
