import Lmcas.Lib.GetoptEnd
import Lmcas.Lib.Iteration

/-!
# `while (getopt_long (…) != -1) switch (…)`

Most of the programs read their options in a loop whose body is a `switch` on
what `getopt_long` returns, and in which no case looks at the argument vector
or at `optind`.  `optionLoop` is that loop for an arbitrary `switch`, given as
a handler of the program's variables.

The main rule is `scanOptions_append`: a scan of option words that leaves no
operand over does the same to the variables when operands follow the option
words, and leaves over exactly these operands.
-/

namespace Lmcas.Lib.OptionLoop

open Lmcas.Lib.CString
open Lmcas.Lib.Getopt
open Lmcas.Lib.Iteration

variable {Vars Exit : Type}

/-- A `switch` on the return value of `getopt_long`; `.error` ends the
process. -/
abbrev Handler (Vars Exit : Type) :=
  Ret → Option CStr → Vars → Except Exit Vars

/-- One turn of the loop. -/
def optionBody (config : Config) (handle : Handler Vars Exit)
    (state : State × Vars) : Turn (State × Vars) Exit :=
  match getoptLong config state.1 with
  | (.eof, after) => .leave (after, state.2)
  | (ret, after) =>
      match handle ret after.optarg state.2 with
      | .ok vars => .again (after, vars)
      | .error outcome => .exit outcome

/-- Everything one turn can do. -/
theorem optionBody_cases
    (config : Config) (handle : Handler Vars Exit)
    (state : State × Vars) :
    ((getoptLong config state.1).1 = .eof ∧
      optionBody config handle state =
        .leave ((getoptLong config state.1).2, state.2)) ∨
    ((getoptLong config state.1).1 ≠ .eof ∧
      ∃ vars,
        handle (getoptLong config state.1).1
          (getoptLong config state.1).2.optarg state.2 = .ok vars ∧
        optionBody config handle state =
          .again ((getoptLong config state.1).2, vars)) ∨
    ((getoptLong config state.1).1 ≠ .eof ∧
      ∃ outcome,
        handle (getoptLong config state.1).1
          (getoptLong config state.1).2.optarg state.2 =
            .error outcome ∧
        optionBody config handle state = .exit outcome) := by
  unfold optionBody
  rcases getoptLong config state.1 with ⟨ret, after⟩
  have answer : ∀ ret, ret ≠ .eof →
      (ret ≠ .eof ∧ ∃ vars, handle ret after.optarg state.2 = .ok vars ∧
        (match handle ret after.optarg state.2 with
          | .ok vars => Turn.again (after, vars)
          | .error outcome => Turn.exit outcome) =
            .again (after, vars)) ∨
      (ret ≠ .eof ∧
        ∃ outcome, handle ret after.optarg state.2 = .error outcome ∧
        (match handle ret after.optarg state.2 with
          | .ok vars => Turn.again (after, vars)
          | .error outcome => Turn.exit outcome) = .exit outcome) := by
    intro ret notEof
    rcases handled : handle ret after.optarg state.2 with
      outcome | vars
    · exact Or.inr ⟨notEof, outcome, rfl, by simp⟩
    · exact Or.inl ⟨notEof, vars, rfl, by simp⟩
  cases ret with
  | eof => exact Or.inl ⟨rfl, rfl⟩
  | nonopt => exact Or.inr (answer .nonopt nofun)
  | val val => exact Or.inr (answer (.val val) nofun)
  | unrecognized => exact Or.inr (answer .unrecognized nofun)

/-- A turn goes on when an option is handled. -/
theorem again_iff
    {config : Config} {handle : Handler Vars Exit}
    {state next : State × Vars} :
    optionBody config handle state = .again next ↔
      (getoptLong config state.1).1 ≠ .eof ∧
        next.1 = (getoptLong config state.1).2 ∧
        handle (getoptLong config state.1).1
          (getoptLong config state.1).2.optarg state.2 =
            .ok next.2 := by
  rcases optionBody_cases config handle state with
    ⟨eof, turn⟩ | ⟨notEof, vars, handled, turn⟩ |
      ⟨notEof, outcome, handled, turn⟩
  · simp [turn, eof]
  · rw [turn]
    constructor
    · intro equal
      cases equal
      exact ⟨notEof, rfl, handled⟩
    · rintro ⟨-, scan, handled'⟩
      rcases next with ⟨after, vars'⟩
      cases scan
      cases handled.symm.trans handled'
      rfl
  · simp [turn, handled]

/-- A turn leaves the loop when `getopt_long` is at its end. -/
theorem leave_iff
    {config : Config} {handle : Handler Vars Exit}
    {state final : State × Vars} :
    optionBody config handle state = .leave final ↔
      (getoptLong config state.1).1 = .eof ∧
        final = ((getoptLong config state.1).2, state.2) := by
  rcases optionBody_cases config handle state with
    ⟨eof, turn⟩ | ⟨notEof, vars, handled, turn⟩ |
      ⟨notEof, outcome, handled, turn⟩
  · rw [turn]
    constructor
    · intro equal
      cases equal
      exact ⟨eof, rfl⟩
    · rintro ⟨-, rfl⟩
      rfl
  · simp [turn, notEof]
  · simp [turn, notEof]

/-- The loop, with the scan's invariant and measure. -/
def optionLoop (config : Config) (handle : Handler Vars Exit) :
    Loop (State × Vars) Exit where
  body := optionBody config handle
  Invariant state := Placed state.1
  measure state := state.1.unread
  keeps := by
    intro state next placed turn
    rcases again_iff.mp turn with ⟨notEof, scan, -⟩
    rw [scan]
    exact (getoptLong_advanced config placed notEof).placed
  lowers := by
    intro state next placed turn
    rcases again_iff.mp turn with ⟨notEof, scan, -⟩
    rw [scan]
    exact (getoptLong_advanced config placed notEof).unread

/-- The loop of a program started as `program` with `words`. -/
def scanOptions (config : Config) (handle : Handler Vars Exit)
    (program : Word) (words : List Word) (vars : Vars) :
    Ending (State × Vars) Exit :=
  (optionLoop config handle).exec
    (start (argvOf (program :: words)), vars)
    (placed_start (List.cons_ne_nil _ _))

/-- The loop comes to the ending that its turns lead to. -/
theorem scanOptions_eq_iff
    {config : Config} {handle : Handler Vars Exit}
    {program : Word} {words : List Word} {vars : Vars}
    {ending : Ending (State × Vars) Exit} :
    scanOptions config handle program words vars = ending ↔
      Ends (optionBody config handle)
        (start (argvOf (program :: words)), vars) ending :=
  (optionLoop config handle).exec_eq_iff _ ending

/-- The words a scan leaves over, `argv + optind`. -/
def operands (state : State) : List Word :=
  (state.argv.drop state.optind).map StrObj.chars

/-- No operand is left behind the last word. -/
theorem operands_eq_nil_iff (state : State) :
    operands state = [] ↔ state.argc ≤ state.optind := by
  simp [operands, State.argc]

/--
Option words do to the variables what they do without the operands behind
them, and the operands are left over.
-/
theorem scanOptions_append
    {config : Config} (order : config.ordering ≠ .returnInOrder)
    {handle : Handler Vars Exit}
    (rejects : ∀ optarg vars, ∃ outcome,
      handle .unrecognized optarg vars = .error outcome)
    {program : Word} {words rest : List Word} {vars : Vars}
    {final : State × Vars}
    (reached :
      scanOptions config handle program words vars = .left final)
    (noOperand : operands final.1 = [])
    (areOperands : ∀ word ∈ rest, nonoption word) :
    ∃ after,
      scanOptions config handle program (words ++ rest) vars =
        .left (after, final.2) ∧
      operands after = rest := by
  rcases argvOf_append (program :: words) rest with
    ⟨added, argv, chars⟩
  have areOperands' : ∀ obj ∈ added, nonoption obj.chars := by
    intro obj member
    apply areOperands
    rw [← chars]
    exact List.mem_map_of_mem member
  have orderly : Orderly config (start (argvOf (program :: words))) := by
    cases kind : config.ordering with
    | permute => exact Or.inl kind
    | returnInOrder => exact absurd kind order
    | requireOrder => exact Or.inr ⟨kind, rfl⟩
  have simulated := Ends.simulate
    (optionBody config handle) (optionBody config handle)
    (fun (state state' : State × Vars) =>
      Placed state.1 ∧ Orderly config state.1 ∧
        state' = (state.1.extend added, state.2))
    (fun (final : State × Vars)
        (ending : Ending (State × Vars) Exit) =>
      operands final.1 = [] →
        ∃ after, ending = .left (after, final.2) ∧
          after.argv.drop after.optind = added)
    (by
      rintro state state' next ⟨placed, orderly, rfl⟩ turn
      rcases again_iff.mp turn with ⟨notEof, scan, handled⟩
      have recognized :
          (getoptLong config state.1).1 ≠ .unrecognized := by
        intro equal
        rw [equal] at handled
        rcases rejects (getoptLong config state.1).2.optarg state.2
          with ⟨outcome, rejected⟩
        exact nomatch handled.symm.trans rejected
      have extended :=
        getoptLong_extend added config placed notEof recognized
      refine ⟨(next.1.extend added, next.2), again_iff.mpr ?_, ?_, ?_,
        rfl⟩
      · simp only [extended]
        refine ⟨notEof, ?_, handled⟩
        rw [scan]
      · rw [scan]
        exact (getoptLong_advanced config placed notEof).placed
      · rw [scan]
        exact orderly.called placed notEof)
    (by
      rintro state state' final ⟨placed, orderly, rfl⟩ turn
      rcases leave_iff.mp turn with ⟨eof, rfl⟩
      by_cases empty : operands (getoptLong config state.1).2 = []
      · have drained := drained_of_eof placed eof
          ((operands_eq_nil_iff _).mp empty)
        rcases orderly.extend_drained added placed drained areOperands'
          with ⟨after, extended, argvAfter, optind⟩
        refine ⟨.left (after, state.2), .leave (leave_iff.mpr ?_), ?_⟩
        · simp [extended]
        · intro _
          refine ⟨after, rfl, ?_⟩
          rw [argvAfter, optind]
          exact List.drop_left
      · exact ⟨_, (optionLoop config handle).exec_ends
          (state.1.extend added, state.2)
          (placed_extend added placed),
          fun absent => absurd absent empty⟩)
    ⟨placed_start (List.cons_ne_nil _ _), orderly, rfl⟩
    (scanOptions_eq_iff.mp reached)
  rcases simulated with ⟨ending, ends, answers⟩
  rcases answers noOperand with ⟨after, rfl, left⟩
  refine ⟨after, scanOptions_eq_iff.mpr ?_, ?_⟩
  · rw [← List.cons_append, argv, start_append]
    exact ends
  · rw [operands, left, chars]

end Lmcas.Lib.OptionLoop
