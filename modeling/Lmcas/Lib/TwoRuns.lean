import Lmcas.Lib.OptionLoop
import Lmcas.Lib.OrderedLoop

/-!
# Two runs on one argument vector

The cases of a `switch` may ask the world that the program runs in.  The rules
here compare two runs, each in a world of its own, on the same words.  Both
read the same options, so what holds of the variables of the two runs and is
kept by each pair of cases holds behind the loops.

The comparison is insensitive to endings: nothing is said if one of the runs
ends inside its loop.
-/

namespace Lmcas.Lib.TwoRuns

open Lmcas.Lib.CString
open Lmcas.Lib.Getopt
open Lmcas.Lib.Iteration
open Lmcas.Lib.OptionLoop
open Lmcas.Lib.OrderedLoop

variable {Vars Exit : Type}

/-! ## Loops that read options -/

section Options

variable {config : Config} {handle handle' : Handler Vars Exit}

/-- The loop, started in a state, gives the answer of `getopt_long` to its
`switch`. -/
def Hands (config : Config) (handle : Handler Vars Exit)
    (begins : State × Vars) (ret : Ret) (optarg : Option CStr) : Prop :=
  ∃ state, Passes (optionBody config handle) begins state ∧
    (getoptLong config state.1).1 = ret ∧
    (getoptLong config state.1).2.optarg = optarg

/-- One turn of two loops that have read the same words. -/
theorem optionBody_together {Agree : Vars → Vars → Prop}
    {state : State × Vars} {vars' : Vars}
    (step : ∀ {next next'},
      handle (getoptLong config state.1).1
        (getoptLong config state.1).2.optarg state.2 = .ok next →
      handle' (getoptLong config state.1).1
        (getoptLong config state.1).2.optarg vars' = .ok next' →
      Agree next next')
    (agree : Agree state.2 vars') :
    (∃ next next', optionBody config handle state = .again next ∧
      optionBody config handle' (state.1, vars') = .again next' ∧
      next'.1 = next.1 ∧ Agree next.2 next'.2) ∨
    (∃ final final', optionBody config handle state = .leave final ∧
      optionBody config handle' (state.1, vars') = .leave final' ∧
      final'.1 = final.1 ∧ Agree final.2 final'.2) ∨
    (∃ outcome, optionBody config handle state = .exit outcome) ∨
    (∃ outcome,
      optionBody config handle' (state.1, vars') = .exit outcome) := by
  rcases optionBody_cases config handle state with
    ⟨eof, turn⟩ | ⟨notEof, next, handled, turn⟩ | ⟨_, outcome, _, turn⟩
  · exact .inr (.inl ⟨_, _, turn, leave_iff.mpr ⟨eof, rfl⟩, rfl, agree⟩)
  · rcases optionBody_cases config handle' (state.1, vars') with
      ⟨eof, _⟩ | ⟨_, next', handled', turn'⟩ | ⟨_, outcome, _, turn'⟩
    · exact absurd eof notEof
    · exact .inl ⟨_, _, turn, turn', rfl, step handled handled'⟩
    · exact .inr (.inr (.inr ⟨outcome, turn'⟩))
  · exact .inr (.inr (.inl ⟨outcome, turn⟩))

/-- Handlers that keep an agreement keep it over a loop. -/
theorem scanOptions_agree {Agree : Vars → Vars → Prop} {program : Word}
    {words : List Word} {vars vars' : Vars} {final final' : State × Vars}
    (step : ∀ {ret optarg vars₁ vars₂ next next'},
      Hands config handle (start (argvOf (program :: words)), vars) ret
        optarg →
      Agree vars₁ vars₂ → handle ret optarg vars₁ = .ok next →
      handle' ret optarg vars₂ = .ok next' → Agree next next')
    (agree : Agree vars vars')
    (reached : scanOptions config handle program words vars = .left final)
    (reached' :
      scanOptions config handle' program words vars' = .left final') :
    final'.1 = final.1 ∧ Agree final.2 final'.2 := by
  have ends := scanOptions_eq_iff.mp reached
  have ends' := scanOptions_eq_iff.mp reached'
  refine Ends.lockstep (optionBody config handle) (optionBody config handle')
    (fun state state' =>
      Passes (optionBody config handle)
        (start (argvOf (program :: words)), vars) state ∧
      state'.1 = state.1 ∧ Agree state.2 state'.2)
    (fun final final' => final'.1 = final.1 ∧ Agree final.2 final'.2)
    ?_ ?_ ends ends'
  case refine_2 => exact ⟨.refl, rfl, agree⟩
  rintro state ⟨scan', vars'⟩ ⟨passes, same, agree⟩
  obtain rfl : scan' = state.1 := same
  have turns := optionBody_together
    (fun handled handled' =>
      step ⟨state, passes, rfl, rfl⟩ agree handled handled') agree
  rcases turns with ⟨next, next', turn, turn', scan, agrees⟩ | rest
  · exact .inl ⟨next, next', turn, turn', passes.tail turn, scan, agrees⟩
  · exact .inr rest

end Options

/-! ## Loops that read options and operands -/

section Ordered

variable {switch switch' : Switch Vars Exit}

/-- The loop, started in a state, gives the answer of `getopt_long` to its
`switch`. -/
def Switch.Hands (switch : Switch Vars Exit) (begins : Scanning Vars)
    (ret : Ret) (optarg : Option CStr) : Prop :=
  ∃ state, Passes switch.body begins state ∧ state.ended = false ∧
    switch.pedantic state.getopt state.vars = false ∧
    (getoptLong switch.config state.getopt).1 = ret ∧
    (getoptLong switch.config state.getopt).2.optarg = optarg

/-- Two loops that take the same steps in the argument vector. -/
structure Together (Agree : Vars → Vars → Prop)
    (Seen : Ret → Option CStr → Prop)
    (switch switch' : Switch Vars Exit) : Prop where
  config : switch'.config = switch.config
  pedantic : ∀ {scan vars vars'}, Agree vars vars' →
    switch'.pedantic scan vars' = switch.pedantic scan vars
  stored : ∀ {word vars vars' next next'}, Agree vars vars' →
    switch.store word vars = .ok next →
    switch'.store word vars' = .ok next' → Agree next next'
  handled : ∀ {ret scan vars vars' optind optind' next next'},
    Seen ret scan.optarg → Agree vars vars' →
    switch.handle ret scan vars = .ok (optind, next) →
    switch'.handle ret scan vars' = .ok (optind', next') →
    optind' = optind ∧ Agree next next'

/-- The states of two runs that have read the same words. -/
structure Abreast (Agree : Vars → Vars → Prop)
    (state state' : Scanning Vars) : Prop where
  getopt : state'.getopt = state.getopt
  ended : state'.ended = state.ended
  vars : Agree state.vars state'.vars

variable {Agree : Vars → Vars → Prop} {Seen : Ret → Option CStr → Prop}

theorem takeOperand_together (together : Together Agree Seen switch switch')
    {state state' : Scanning Vars} (abreast : Abreast Agree state state') :
    (∃ next next', switch.takeOperand state = .again next ∧
      switch'.takeOperand state' = .again next' ∧
      Abreast Agree next next') ∨
    (∃ final final', switch.takeOperand state = .leave final ∧
      switch'.takeOperand state' = .leave final' ∧
      Abreast Agree final final') ∨
    (∃ outcome, switch.takeOperand state = .exit outcome) ∨
    (∃ outcome, switch'.takeOperand state' = .exit outcome) := by
  rcases takeOperand_cases switch state with
    ⟨noWord, turn⟩ | ⟨obj, found, ⟨vars, stored, turn⟩ | ⟨outcome, _, turn⟩⟩
  · rw [← abreast.getopt] at noWord
    exact .inr (.inl ⟨_, _, turn, takeOperand_leave_iff.mpr ⟨noWord, rfl⟩,
      abreast⟩)
  · rw [← abreast.getopt] at found
    rcases takeOperand_cases switch' state' with
      ⟨noWord, _⟩ | ⟨obj', found', ⟨vars', stored', turn'⟩ |
        ⟨outcome, _, turn'⟩⟩
    · exact nomatch found.symm.trans noWord
    · obtain rfl := Option.some.inj (found.symm.trans found')
      refine .inl ⟨_, _, turn, turn', ?_, abreast.ended,
        together.stored abreast.vars stored stored'⟩
      rw [abreast.getopt]
    · exact .inr (.inr (.inr ⟨outcome, turn'⟩))
  · exact .inr (.inr (.inl ⟨outcome, turn⟩))

/-- Two switches that go together take the same turns. -/
theorem body_together (together : Together Agree Seen switch switch')
    {state state' : Scanning Vars} (abreast : Abreast Agree state state')
    (seen : state.ended = false →
      switch.pedantic state.getopt state.vars = false →
      Seen (getoptLong switch.config state.getopt).1
        (getoptLong switch.config state.getopt).2.optarg) :
    (∃ next next', switch.body state = .again next ∧
      switch'.body state' = .again next' ∧ Abreast Agree next next') ∨
    (∃ final final', switch.body state = .leave final ∧
      switch'.body state' = .leave final' ∧ Abreast Agree final final') ∨
    (∃ outcome, switch.body state = .exit outcome) ∨
    (∃ outcome, switch'.body state' = .exit outcome) := by
  have pedantic' : switch'.pedantic state'.getopt state'.vars =
      switch.pedantic state.getopt state.vars := by
    rw [abreast.getopt]
    exact together.pedantic abreast.vars
  rcases body_cases switch state with
    ⟨direct, body⟩ | ⟨going, unpedantic, called⟩
  · have direct' : state'.ended = true ∨
        switch'.pedantic state'.getopt state'.vars = true := by
      rw [abreast.ended, pedantic']
      exact direct
    have body' : switch'.body state' = switch'.takeOperand state' := by
      rcases direct' with ended | pedantic
      · exact body_of_ended ended
      · exact body_of_pedantic pedantic
    rw [body, body']
    exact takeOperand_together together abreast
  · have going' : state'.ended = false := abreast.ended.trans going
    have unpedantic' := pedantic'.trans unpedantic
    have call : getoptLong switch'.config state'.getopt =
        getoptLong switch.config state.getopt := by
      rw [together.config, abreast.getopt]
    rcases called with ⟨after, called, body⟩ |
      ⟨ret, after, called, notEof, ⟨optind, vars, handled, body⟩ |
        ⟨outcome, _, body⟩⟩
    · rw [body, body_of_eof going' unpedantic' (call.trans called)]
      exact takeOperand_together together ⟨rfl, rfl, abreast.vars⟩
    · rcases handled' : switch'.handle ret after state'.vars with
        outcome | ⟨optind', vars'⟩
      · exact .inr (.inr (.inr ⟨outcome, body_of_rejected going' unpedantic'
          (call.trans called) notEof handled'⟩))
      · have seen := seen going unpedantic
        rw [called] at seen
        have ⟨same, agree⟩ :=
          together.handled seen abreast.vars handled handled'
        subst same
        exact .inl ⟨_, _, body, body_of_handled going' unpedantic'
          (call.trans called) notEof handled', rfl, rfl, agree⟩
    · exact .inr (.inr (.inl ⟨outcome, body⟩))

/-- They leave their loops in agreement. -/
theorem Together.final (together : Together Agree Seen switch switch')
    {state state' final final' : Scanning Vars}
    (seen : ∀ {ret optarg}, Switch.Hands switch state ret optarg →
      Seen ret optarg)
    (abreast : Abreast Agree state state')
    (ends : Ends switch.body state (.left final))
    (ends' : Ends switch'.body state' (.left final')) :
    Abreast Agree final final' := by
  apply Ends.lockstep switch.body switch'.body
    (fun now now' => Passes switch.body state now ∧ Abreast Agree now now')
    (Abreast Agree) ?_ ⟨.refl, abreast⟩ ends ends'
  rintro now now' ⟨passes, abreast⟩
  have turns := body_together together abreast
    (fun going unpedantic =>
      seen ⟨now, passes, going, unpedantic, rfl, rfl⟩)
  rcases turns with ⟨next, next', turn, turn', abreast⟩ | rest
  · exact .inl ⟨next, next', turn, turn', passes.tail turn, abreast⟩
  · exact .inr rest

end Ordered

end Lmcas.Lib.TwoRuns
