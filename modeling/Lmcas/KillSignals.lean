import Lmcas.Kill

/-!
# `send_signals`, and `kill` cut at its neck

`send_signals` tries every word it is given as a process id.  Which calls of
`kill` it makes does not depend on whether earlier ones succeed.
-/

namespace Lmcas.Kill

open Lmcas.Lib.CString
open Lmcas.Lib.Getopt
open Lmcas.Lib.Iteration
open Lmcas.Lib.Neck
open Lmcas.Lib.OptionLoop
open Lmcas.System

/-! ## `send_signals` -/

/-- `isspace` in the C locale. -/
def isSpace (c : Char) : Bool :=
  c = ' ' || ('\t' ≤ c && c ≤ '\r')

/-- The value of a list of decimal digits. -/
def digitsValue (digits : Word) : Nat :=
  digits.foldl (fun value c => value * 10 + (c.toNat - '0'.toNat)) 0

/-- The result of `strtoimax`: `*endp` as the text behind the number, and
whether `errno` is `ERANGE`. -/
structure Number where
  value : Int
  endp : Word
  erange : Bool
deriving DecidableEq, Repr

/-- `INTMAX_MAX`. -/
def intmaxMax : Int := 2 ^ 63 - 1

/-- `INTMAX_MIN`. -/
def intmaxMin : Int := -2 ^ 63

/-- `strtoimax` in base 10; `none` if it converts nothing. -/
def strtoimax (s : Word) : Option Number :=
  let s := s.dropWhile isSpace
  let negative := s.head? == some '-'
  let s := if s.head? = some '-' ∨ s.head? = some '+' then s.tail else s
  let digits := s.takeWhile Char.isDigit
  if digits = [] then none
  else
    let magnitude : Int := digitsValue digits
    let value := if negative then -magnitude else magnitude
    some
      { value := max intmaxMin (min value intmaxMax)
        endp := s.dropWhile Char.isDigit
        erange := decide (value < intmaxMin ∨ intmaxMax < value) }

/-- The value of a number converted to `pid_t`. -/
def toPid (n : Int) : Int :=
  n.bmod (2 ^ 32)

/-- The process id that a word stands for, if it is valid. -/
def processId (arg : Word) : Option Int :=
  match strtoimax arg with
  | none => none
  | some n =>
      if n.erange ∨ toPid n.value ≠ n.value ∨ n.endp ≠ [] then none
      else some (toPid n.value)

/-- The calls of `kill (pid, signum)` made so far, and the status. -/
structure Sent where
  calls : List (Int × Int)
  status : Nat
deriving DecidableEq, Repr

/-- One turn of the loop.  `succeeds` says whether the last call of a list of
calls succeeds. -/
def sendSignal (succeeds : List (Int × Int) → Bool) (signum : Int)
    (sent : Sent) (arg : Word) : Sent :=
  match processId arg with
  | none => { sent with status := exitFailure }
  | some pid =>
      let calls := sent.calls ++ [(pid, signum)]
      if succeeds calls then { sent with calls := calls }
      else ⟨calls, exitFailure⟩

/-- `send_signals`: one call for each word that is a number. -/
def sendSignals (succeeds : List (Int × Int) → Bool) (signum : Int)
    (argv : List Word) : Sent :=
  argv.foldl (sendSignal succeeds signum) ⟨[], exitSuccess⟩

/-- The calls that a list of words leads to. -/
def killCalls (signum : Int) (argv : List Word) : List (Int × Int) :=
  argv.filterMap fun arg => (processId arg).map fun pid => (pid, signum)

/-- A word makes the call of its process, whatever the earlier ones came to. -/
theorem sendSignal_calls (succeeds : List (Int × Int) → Bool)
    (signum : Int) (sent : Sent) (arg : Word) :
    (sendSignal succeeds signum sent arg).calls =
      sent.calls ++ killCalls signum [arg] := by
  unfold sendSignal killCalls
  cases valid : processId arg with
  | none => simp [valid]
  | some pid =>
      by_cases done : succeeds (sent.calls ++ [(pid, signum)])
      · simp [valid, done]
      · simp [valid, done]

/-- The calls do not depend on whether earlier ones succeed. -/
theorem sendSignals_calls (succeeds : List (Int × Int) → Bool)
    (signum : Int) (argv : List Word) :
    (sendSignals succeeds signum argv).calls = killCalls signum argv := by
  have run : ∀ sent : Sent,
      (argv.foldl (sendSignal succeeds signum) sent).calls =
        sent.calls ++ killCalls signum argv := by
    induction argv with
    | nil =>
        intro sent
        exact (List.append_nil _).symm
    | cons arg rest inductionHypothesis =>
        intro sent
        rw [List.foldl_cons, inductionHypothesis, sendSignal_calls,
          List.append_assoc]
        congr 1
        exact List.filterMap_append.symm
  exact run _

/-! ## The program cut at its neck -/

/-- What the run keeps at the neck. -/
structure Neck where
  vars : Vars
  scan : State
deriving DecidableEq, Repr

/-- The calls of `kill` that the end of `main` makes. -/
def outcome (succeeds : List (Int × Int) → Bool)
    (chosen : Except Early Call) : List (Int × Int) :=
  match chosen with
  | .ok (.sendSignals signum argv) =>
      (sendSignals succeeds signum argv).calls
  | .ok (.listSignals _ _) => []
  | .error _ => []

/-- `main`, as far as its calls of `kill` go; a run that jumps does not get
to the neck. -/
def program (operand2sig : Word → Int) (posixlyCorrect : Bool)
    (succeeds : List (Int × Int) → Bool) (name : Word) :
    Staged (List Word) Neck (List (Int × Int)) where
  configure words :=
    match scanWords operand2sig (optionConfig posixlyCorrect) name words with
    | .exited _ => .error []
    | .left options =>
        if options.jumped then
          .error (outcome succeeds
            (noMoreOptions options.vars options.scan))
        else .ok ⟨options.vars, options.scan⟩
  resume neck := outcome succeeds (noMoreOptions neck.vars neck.scan)

section

variable {operand2sig : Word → Int} {posixlyCorrect : Bool}
  {succeeds : List (Int × Int) → Bool} {name : Word} {words : List Word}

/-- A run that ends in the loop shows nothing else. -/
theorem configure_of_exited {early : Early}
    (exited : scanWords operand2sig (optionConfig posixlyCorrect) name
      words = .exited early) :
    (program operand2sig posixlyCorrect succeeds name).configure words =
      .error [] := by
  simp only [program, exited]

/-- A run that jumps out of the loop is over before it passes a neck. -/
theorem configure_of_jumped {options : Options}
    (left : scanWords operand2sig (optionConfig posixlyCorrect) name
      words = .left options)
    (jumped : options.jumped = true) :
    (program operand2sig posixlyCorrect succeeds name).configure words =
      .error (outcome succeeds
        (noMoreOptions options.vars options.scan)) := by
  simp only [program, left, if_pos jumped]

/-- A run that leaves the loop at its end stands at the neck. -/
theorem configure_of_left {options : Options}
    (left : scanWords operand2sig (optionConfig posixlyCorrect) name
      words = .left options)
    (inside : options.jumped = false) :
    (program operand2sig posixlyCorrect succeeds name).configure words =
      .ok ⟨options.vars, options.scan⟩ := by
  simp only [program, left, inside, Bool.false_eq_true, if_false]

/-- A run at the neck has left the loop at its end. -/
theorem left_of_reaches {neck : Neck}
    (reached : (program operand2sig posixlyCorrect succeeds name).Reaches
      words neck) :
    scanWords operand2sig (optionConfig posixlyCorrect) name words =
      .left ⟨neck.scan, neck.vars, false⟩ := by
  have configured : (program operand2sig posixlyCorrect succeeds
      name).configure words = .ok neck := reached
  cases loop : scanWords operand2sig (optionConfig posixlyCorrect) name
      words with
  | exited early =>
      exact nomatch (configure_of_exited loop).symm.trans configured
  | left options =>
      cases jumped : options.jumped with
      | true =>
          exact nomatch
            (configure_of_jumped loop jumped).symm.trans configured
      | false =>
          cases (configure_of_left loop jumped).symm.trans configured
          rw [← jumped]

end

/-- The calls recorded by a run of `main`. -/
def Run.kills (succeeds : List (Int × Int) → Bool) :
    Run → List (Int × Int)
  | .ended _ => []
  | .called events =>
      events.flatMap fun event =>
        match event with
        | .kleeDumpMemory => []
        | .call call => outcome succeeds (.ok call)

/-- A marker at the neck is no call to the kernel. -/
theorem kills_called (succeeds : List (Int × Int) → Bool)
    {neck : List Event} (shape : neck = [] ∨ neck = [.kleeDumpMemory])
    (call : Call) :
    (Run.called (neck ++ [.call call])).kills succeeds =
      outcome succeeds (.ok call) := by
  rcases shape with rfl | rfl <;> simp [Run.kills]

/-- The program cut at its neck makes the calls that `main` makes. -/
theorem kills_main (operand2sig : Word → Int) (posixlyCorrect : Bool)
    (succeeds : List (Int × Int) → Bool) (name : Word)
    (words : List Word) :
    (main operand2sig posixlyCorrect name words).kills succeeds =
      (program operand2sig posixlyCorrect succeeds name).full words := by
  unfold main
  cases loop : scanWords operand2sig (optionConfig posixlyCorrect) name
      words with
  | exited early =>
      rw [Staged.full_of_stopped (configure_of_exited loop)]
      rfl
  | left options =>
      have shape : ((if options.jumped then [] else [.kleeDumpMemory]) :
            List Event) = [] ∨
          ((if options.jumped then [] else [.kleeDumpMemory]) :
            List Event) = [.kleeDumpMemory] := by
        cases options.jumped
        · exact Or.inr rfl
        · exact Or.inl rfl
      have full : (program operand2sig posixlyCorrect succeeds name).full
          words =
            outcome succeeds
              (noMoreOptions options.vars options.scan) := by
        cases jumped : options.jumped with
        | true =>
            rw [Staged.full_of_stopped (configure_of_jumped loop jumped)]
        | false =>
            rw [Staged.full_of_reaches (configure_of_left loop jumped)]
            rfl
      rw [full]
      cases chosen : noMoreOptions options.vars options.scan with
      | error early =>
          simp only [chosen]
          rfl
      | ok call =>
          simp only [chosen]
          exact kills_called succeeds shape call

end Lmcas.Kill
