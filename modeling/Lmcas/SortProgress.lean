import Mathlib.Data.Prod.Lex
import Mathlib.Order.WellFounded
import Lmcas.Lib.Iteration
import Lmcas.SortThreads

/-!
# The threads of a sort get on

While lines are left, some thread can take a step: a node that can be worked on
is in the queue, or somebody is about to put it there.  And no step can be
taken for ever: between two lines a thread has only so much to do.
-/

namespace Lmcas.SortThreads

open Lmcas.Lib.Iteration
open Lmcas.Lib.StableSort

variable {Line : Type} {compare : Line → Line → Int}
  {totalLines level : Nat} {node node' : Node Line} {event event' : Event Line}
  {tree tree' : Tree Line}

/-! ## Threads at work -/

/-- A thread is at the node, or waits for its lock. -/
def Node.busy (node : Node Line) : Prop :=
  node.worker ≠ none ∨ node.queued = .popped

/-- Some node of the tree. -/
def Tree.Any (holds : Node Line → Prop) : Tree Line → Prop
  | .leaf node => holds node
  | .fork node lo hi => holds node ∨ lo.Any holds ∨ hi.Any holds

theorem act_ne_pops (root : Bool) (node : Node Line) (phase : Phase Line) :
    (act compare root node phase).1 ≠ .pops := by
  intro pops
  rcases act_cases compare root node phase with
    ⟨_, _, rfl⟩ | ⟨_, _, _, _, _, _, _, -, acted, handed⟩ | ⟨_, rfl⟩ | rfl | rfl
  · cases pops
  · rw [acted] at pops
    obtain rfl := pops
    rcases handed with quiet | ⟨-, _, published⟩
    · cases quiet
    · cases published
  · cases pops
  · cases pops
  · cases pops

/-- A node that is worked on can take a step. -/
theorem Node.busy.step (busy : node.busy) :
    ∃ event node', NodeStep compare totalLines level node event node' ∧
      event ≠ .pops := by
  match worker : node.worker with
  | some phase => exact ⟨_, _, .act worker, act_ne_pops _ _ _⟩
  | none =>
      have popped : node.queued = .popped := by
        rcases busy with working | popped
        · exact absurd worker working
        · exact popped
      exact ⟨_, _, .lock popped worker, nofun⟩

theorem fromChild_ne_pops {published : List Line → Node Line}
    (received : fromChild published node event = some (node', event'))
    (other : event ≠ .pops) : event' ≠ .pops := by
  rcases fromChild_cases received with
    ⟨-, rfl, -⟩ | ⟨_, -, rfl, -⟩ | ⟨-, rfl, -⟩
  · exact other
  · exact nofun
  · exact nofun

theorem fromChild_isSome (published : List Line → Node Line)
    (unlocked : node.worker = none) (event : Event Line) :
    ∃ node' event', fromChild published node event = some (node', event') := by
  cases event with
  | checksParent => exact ⟨_, _, by rw [fromChild, unlocked]; rfl⟩
  | _ => exact ⟨_, _, rfl⟩

/-- A thread that waits for a lock waits for one closer to the root. -/
theorem Tree.Any.step (busy : tree.Any Node.busy) :
    ∃ event tree', Step compare totalLines level tree event tree' ∧
      event ≠ .pops := by
  induction tree generalizing level with
  | leaf node =>
      obtain ⟨event, node', step, other⟩ := Node.busy.step busy
      exact ⟨event, _, .leaf step, other⟩
  | fork node lo hi loHypothesis hiHypothesis =>
      by_cases atNode : node.busy
      · obtain ⟨event, node', step, other⟩ := atNode.step
        exact ⟨event, _, .fork step, other⟩
      · have unlocked : node.worker = none :=
          not_not.mp fun working => atNode (.inl working)
        rcases busy.resolve_left atNode with inLo | inHi
        · obtain ⟨event, lo', step, other⟩ := loHypothesis inLo
          obtain ⟨node', event', received⟩ := fromChild_isSome _ unlocked event
          exact ⟨event', _, .lo step received,
            fromChild_ne_pops received other⟩
        · obtain ⟨event, hi', step, other⟩ := hiHypothesis inHi
          obtain ⟨node', event', received⟩ := fromChild_isSome _ unlocked event
          exact ⟨event', _, .hi step received,
            fromChild_ne_pops received other⟩

/-- A node in the queue can be taken from it. -/
theorem Tree.Any.pops
    (inHeap : tree.Any fun node => node.queued = .inHeap) :
    ∃ tree', Step compare totalLines level tree .pops tree' := by
  induction tree generalizing level with
  | leaf node => exact ⟨_, .leaf (.pop inHeap)⟩
  | fork node lo hi loHypothesis hiHypothesis =>
      rcases inHeap with atNode | inLo | inHi
      · exact ⟨_, .fork (.pop atNode)⟩
      · obtain ⟨lo', step⟩ := loHypothesis inLo
        exact ⟨_, .lo step rfl⟩
      · obtain ⟨hi', step⟩ := hiHypothesis inHi
        exact ⟨_, .hi step rfl⟩

/-! ## No thread is lost -/

/-- The thread goes back to wait for the queue. -/
def Event.goesBack : Event Line → Bool
  | .returns | .checksParent => true
  | _ => false

theorem act_busy {root : Bool} {phase : Phase Line}
    (stays : (act compare root node phase).1.goesBack = false) :
    (act compare root node phase).2.worker ≠ none := by
  rcases act_cases compare root node phase with
    ⟨_, _, rfl⟩ | ⟨_, _, _, _, _, _, _, -, acted, -⟩ | ⟨_, rfl⟩ | rfl | rfl
  · cases stays
  · rw [acted]
    exact nofun
  · exact nofun
  · exact nofun
  · cases stays

/-- A thread that goes on keeps its node busy. -/
theorem NodeStep.busy
    (step : NodeStep compare totalLines level node event node')
    (stays : event.goesBack = false) : node'.busy := by
  cases step with
  | pop queued => exact .inr rfl
  | lock popped unlocked => exact .inl nofun
  | act working => exact .inl (act_busy stays)

theorem fromChild_goesBack {published : List Line → Node Line}
    (received : fromChild published node event = some (node', event')) :
    event'.goesBack = event.goesBack := by
  rcases fromChild_cases received with
    ⟨-, rfl, -⟩ | ⟨_, rfl, rfl, -⟩ | ⟨rfl, rfl, -⟩ <;> rfl

/-- So it does in the tree. -/
theorem Step.busy (step : Step compare totalLines level tree event tree')
    (stays : event.goesBack = false) : tree'.Any Node.busy := by
  induction step with
  | leaf step => exact step.busy stays
  | fork step => exact .inl (step.busy stays)
  | lo step received inductionHypothesis =>
      exact .inr (.inl (inductionHypothesis
        ((fromChild_goesBack received).symm.trans stays)))
  | hi step received inductionHypothesis =>
      exact .inr (.inr (inductionHypothesis
        ((fromChild_goesBack received).symm.trans stays)))

/-! ## No node is overlooked -/

/-- The thread is done with the lines, and will look at the parent. -/
def Node.checking (node : Node Line) : Prop :=
  node.worker = some .updated ∨ node.worker = some .checked

/-- There is something to do that no thread at the node will find. -/
def Node.overlooked (node : Node Line) : Prop :=
  (node.worker = none ∨ node.worker = some .checked) ∧ node.queued = .no ∧
    node.workable = true

/-- For what is overlooked there is a child that will look. -/
def Tree.Awake : Tree Line → Prop
  | .leaf node => ¬ node.overlooked
  | .fork node lo hi =>
      (node.overlooked → lo.node.checking ∨ hi.node.checking) ∧
        lo.Awake ∧ hi.Awake

/-- A node that is not queued after the check has nothing to merge. -/
theorem queueCheckInsert_finds (node : Node Line)
    (queued : (queueCheckInsert node).queued = .no) :
    ¬ (queueCheckInsert node).workable = true := by
  unfold queueCheckInsert at queued ⊢
  split at queued
  · cases queued
  next other =>
    rw [if_neg other]
    exact fun workable => other ⟨queued, workable⟩

/-- No step overlooks a node that can be merged. -/
theorem NodeStep.overlooked
    (step : NodeStep compare totalLines level node event node')
    (overlooked : node'.overlooked) : node.overlooked := by
  obtain ⟨resting, queued, workable⟩ := overlooked
  cases step with
  | pop _ => cases queued
  | lock popped unlocked => rcases resting with resting | resting <;> cases resting
  | @act phase working =>
      rcases act_cases compare (level == 1) node phase with
        ⟨_, _, rfl⟩ | ⟨_, _, _, _, _, _, _, -, acted, -⟩ | ⟨_, rfl⟩ | rfl | rfl
      · cases queued
      · rw [acted] at resting
        rcases resting with resting | resting <;> cases resting
      · rcases resting with resting | resting <;> cases resting
      · exact absurd workable (queueCheckInsert_finds node queued)
      · exact ⟨.inr working, queued, workable⟩

/-- A node stays checked until its parent is. -/
theorem NodeStep.checking
    (step : NodeStep compare totalLines level node event node')
    (checking : node.checking) (other : event ≠ .checksParent) :
    node'.checking := by
  cases step with
  | pop _ => exact checking
  | lock popped unlocked =>
      rw [Node.checking, unlocked] at checking
      rcases checking with checking | checking <;> cases checking
  | act working =>
      rw [Node.checking, working, Option.some_inj, Option.some_inj] at checking
      rcases checking with rfl | rfl
      · exact .inr rfl
      · exact absurd rfl other

theorem fromLo_worker (received : fromLo node event = some (node', event')) :
    node'.worker = node.worker := by
  obtain ⟨-, _, rfl⟩ := fromLo_eq received
  rfl

theorem fromHi_worker (received : fromHi node event = some (node', event')) :
    node'.worker = node.worker := by
  obtain ⟨-, _, rfl⟩ := fromHi_eq received
  rfl

theorem Step.checking (step : Step compare totalLines level tree event tree')
    (checking : tree.node.checking) (other : event ≠ .checksParent) :
    tree'.node.checking := by
  cases step with
  | leaf step => exact step.checking checking other
  | fork step => exact step.checking checking other
  | lo step received =>
      simp only [Tree.node, Node.checking, fromLo_worker received] at checking ⊢
      exact checking
  | hi step received =>
      simp only [Tree.node, Node.checking, fromHi_worker received] at checking ⊢
      exact checking

/-- Below MERGE_ROOT lines are handed over at the end. -/
theorem NodeStep.publishes {lines : List Line}
    (step : NodeStep compare totalLines level node event node')
    (published : event = .publishes lines) (below : level ≠ 1) :
    node'.checking := by
  cases step with
  | pop _ => cases published
  | lock popped unlocked => cases published
  | @act phase working =>
      rcases act_cases compare (level == 1) node phase with
        ⟨_, _, rfl⟩ | ⟨_, _, _, _, _, _, _, -, acted, handed⟩ | ⟨_, rfl⟩ | rfl | rfl
      · cases published
      · rw [acted] at published
        rcases handed with rfl | ⟨root, -⟩
        · cases published
        · exact absurd (beq_iff_eq.mp root) below
      · exact .inl rfl
      · cases published
      · cases published

theorem fromChild_ne_publishes {published : List Line → Node Line}
    (received : fromChild published node event = some (node', event'))
    (lines : List Line) : event' ≠ .publishes lines := by
  rcases fromChild_cases received with
    ⟨rfl | rfl | rfl, rfl, -⟩ | ⟨_, -, rfl, -⟩ | ⟨-, rfl, -, -⟩ <;> exact nofun

/-- Lines are handed up by a thread that will check the parent. -/
theorem Step.publishes {lines : List Line}
    (step : Step compare totalLines level tree event tree')
    (published : event = .publishes lines) (below : level ≠ 1) :
    tree'.node.checking := by
  cases step with
  | leaf step => exact step.publishes published below
  | fork step => exact step.publishes published below
  | lo _ received =>
      exact absurd published (fromChild_ne_publishes received lines)
  | hi _ received =>
      exact absurd published (fromChild_ne_publishes received lines)

/-- A child that steps tells its parent, or has yet to. -/
theorem fromChild_awake {published : List Line → Node Line}
    {child child' : Tree Line}
    (step : Step compare totalLines (level + 1) child event child')
    (nested : level ≠ 0)
    (received : fromChild published node event = some (node', event'))
    (overlooked : node'.overlooked) :
    child'.node.checking ∨
      node' = node ∧ (child.node.checking → child'.node.checking) := by
  rcases fromChild_cases received with
    ⟨silent, -, rfl⟩ | ⟨lines, rfl, -⟩ | ⟨-, -, -, rfl⟩
  · refine .inr ⟨rfl, fun checking => step.checking checking ?_⟩
    rcases silent with rfl | rfl | rfl <;> exact nofun
  · exact .inl (step.publishes rfl (by omega))
  · exact absurd overlooked.2.2 (queueCheckInsert_finds node overlooked.2.1)

/-- A step leaves no node asleep that can be merged. -/
theorem Step.awake (step : Step compare totalLines level tree event tree')
    (nested : level ≠ 0) (awake : tree.Awake) : tree'.Awake := by
  induction step with
  | leaf step => exact fun overlooked => awake (step.overlooked overlooked)
  | fork step =>
      exact ⟨fun overlooked => awake.1 (step.overlooked overlooked), awake.2⟩
  | lo step received inductionHypothesis =>
      obtain ⟨found, awakeLo, awakeHi⟩ := awake
      refine ⟨fun overlooked => ?_, inductionHypothesis (by omega) awakeLo,
        awakeHi⟩
      rcases fromChild_awake step nested received overlooked with
        checking | ⟨rfl, keeps⟩
      · exact .inl checking
      · exact (found overlooked).imp_left keeps
  | hi step received inductionHypothesis =>
      obtain ⟨found, awakeLo, awakeHi⟩ := awake
      refine ⟨fun overlooked => ?_, awakeLo,
        inductionHypothesis (by omega) awakeHi⟩
      rcases fromChild_awake step nested received overlooked with
        checking | ⟨rfl, keeps⟩
      · exact .inr checking
      · exact (found overlooked).imp_right keeps

/-- None is at the start. -/
theorem sortlines_awake (creates : List Bool → Bool) (path : List Bool)
    (nthreads : Nat) (lines : List Line) :
    (sortlines creates path nthreads lines).Awake := by
  induction path, nthreads, lines using sortlines.induct creates with
  | case1 path nthreads lines nlo forks loHypothesis hiHypothesis =>
      rw [sortlines, if_pos forks]
      refine ⟨?_, loHypothesis, hiHypothesis⟩
      rintro ⟨-, -, workable⟩
      cases workable
  | case2 path nthreads lines stays =>
      rw [sortlines, if_neg stays]
      rintro ⟨resting | resting, -⟩ <;> cases resting

/-! ## No deadlock -/

theorem Node.busy.any (busy : tree.node.busy) : tree.Any Node.busy := by
  cases tree with
  | leaf node => exact busy
  | fork node lo hi => exact .inl busy

theorem Node.checking.busy {tree : Tree Line} (checking : tree.node.checking) :
    tree.Any Node.busy :=
  Node.busy.any (.inl (by
    rcases checking with worker | worker <;> rw [worker] <;> exact nofun))

/-- A node that is idle and out of the queue has nothing left, if its children
have not. -/
theorem Node.Valid.rest_of_idle {restLo restHi : List Line}
    (valid : node.Valid compare level restLo restHi)
    (found : ¬ node.overlooked) (idle : ¬ node.busy)
    (outside : node.queued ≠ .inHeap) (noLo : restLo = []) (noHi : restHi = []) :
    node.rest compare restLo restHi = [] := by
  subst noLo noHi
  obtain ⟨worker, popped⟩ := not_or.mp idle
  have unlocked : node.worker = Option.none := not_not.mp worker
  have queued : node.queued = .no := by
    cases queued : node.queued with
    | no => rfl
    | inHeap => exact absurd queued outside
    | popped => exact absurd queued popped
  have nothing : ¬ node.workable = true :=
    fun workable => found ⟨.inl unlocked, queued, workable⟩
  obtain ⟨-, -, countLo, countHi, -, -, -⟩ := valid
  simp only [Node.takenLo, Node.takenHi, unlocked, List.append_nil, Nat.zero_add]
    at countLo countHi
  have both : node.lo = [] ∧ node.hi = [] := by
    cases lo : node.lo <;> cases hi : node.hi <;>
      simp_all [Node.workable]
  simp [Node.rest, Node.staged, unlocked, both]

/-- With all threads waiting and nothing in the queue, all is merged. -/
theorem Tree.Valid.rest_of_asleep (valid : tree.Valid compare level)
    (awake : tree.Awake) (idle : ¬ tree.Any Node.busy)
    (asleep : ¬ tree.Any fun node => node.queued = .inHeap) :
    tree.rest compare = [] := by
  induction tree generalizing level with
  | leaf node =>
      obtain ⟨valid, -⟩ := valid
      have unsorted : ¬ node.isSorting :=
        fun ⟨_, _, worker⟩ => idle (.inl (by rw [worker]; exact nofun))
      exact valid.rest_of_idle awake idle asleep (unsortedLo_eq_nil unsorted)
        (unsortedHi_eq_nil unsorted)
  | fork node lo hi loHypothesis hiHypothesis =>
      obtain ⟨valid, -, validLo, validHi⟩ := valid
      obtain ⟨found, awakeLo, awakeHi⟩ := awake
      simp only [Tree.Any, not_or] at idle asleep
      obtain ⟨idle, idleLo, idleHi⟩ := idle
      obtain ⟨asleep, noneLo, noneHi⟩ := asleep
      refine valid.rest_of_idle (fun overlooked => ?_) idle asleep
        (loHypothesis validLo awakeLo idleLo noneLo)
        (hiHypothesis validHi awakeHi idleHi noneHi)
      rcases found overlooked with checking | checking
      · exact idleLo checking.busy
      · exact idleHi checking.busy

/-- What a step does to the counts of the uppermost node. -/
theorem NodeStep.counts
    (step : NodeStep compare totalLines level node event node') :
    node'.nlo = node.nlo ∧ node'.nhi = node.nhi ∨
      node'.worker = some .updated := by
  cases step with
  | pop _ => exact .inl ⟨rfl, rfl⟩
  | lock popped unlocked => exact .inl ⟨rfl, rfl⟩
  | @act phase working =>
      rcases act_cases compare (level == 1) node phase with
        ⟨_, _, rfl⟩ | ⟨_, _, _, _, _, _, _, -, acted, -⟩ | ⟨_, rfl⟩ | rfl | rfl
      · exact .inl ⟨rfl, rfl⟩
      · rw [acted]
        exact .inl ⟨rfl, rfl⟩
      · exact .inr rfl
      · obtain ⟨queued, inserted⟩ := queueCheckInsert_eq node
        refine .inl ⟨?_, ?_⟩ <;> simp only [SortThreads.act, inserted]
      · exact .inl ⟨rfl, rfl⟩

/-- The counts of the root change only when its thread has merged. -/
theorem Step.counts (step : Step compare totalLines level tree event tree') :
    tree'.node.nlo = tree.node.nlo ∧ tree'.node.nhi = tree.node.nhi ∨
      tree'.node.worker = some .updated := by
  cases step with
  | leaf step => exact step.counts
  | fork step => exact step.counts
  | lo _ received =>
      obtain ⟨-, _, rfl⟩ := fromLo_eq received
      exact .inl ⟨rfl, rfl⟩
  | hi _ received =>
      obtain ⟨-, _, rfl⟩ := fromHi_eq received
      exact .inl ⟨rfl, rfl⟩

/-- A node with nothing left has handed up all its lines. -/
theorem Node.Valid.finished {restLo restHi : List Line}
    (valid : node.Valid compare level restLo restHi)
    (unlocked : node.worker = none)
    (rest : node.rest compare restLo restHi = []) : node.nlo + node.nhi = 0 := by
  obtain ⟨-, -, countLo, countHi, -, -, -⟩ := valid
  have lengths := congrArg List.length rest
  simp only [Node.rest, Node.staged, unlocked, List.nil_append,
    List.length_merge, List.length_nil] at lengths
  simp only [Node.takenLo, Node.takenHi, unlocked] at countLo countHi
  omega

/-- So has the root. -/
theorem Tree.Valid.rootFinished (valid : tree.Valid compare level)
    (unlocked : tree.node.worker = none) (rest : tree.rest compare = []) :
    SortThreads.rootFinished tree = true := by
  refine beq_iff_eq.mpr ?_
  cases tree with
  | leaf node => exact valid.1.finished unlocked rest
  | fork node lo hi => exact valid.1.finished unlocked rest

/-- What is known of every state besides the lines. -/
structure System.Alive (system : System Line) : Prop where
  awake : system.tree.Awake
  finished : rootFinished system.tree = true →
    system.ended = true ∨ system.tree.node.checking
  threads : system.ended = true ∨ 0 < system.waiting ∨
    system.tree.Any Node.busy

/-- A step of the tree keeps the system alive. -/
theorem System.Alive.step {system : System Line} (alive : system.Alive)
    (step : Step compare totalLines 1 system.tree event tree)
    (other : event ≠ .checksParent) :
    tree.Awake ∧
      (rootFinished tree = true → system.ended = true ∨ tree.node.checking) ∧
      (event.goesBack = false → tree.Any Node.busy) := by
  refine ⟨step.awake (by omega) alive.awake, fun finished => ?_, step.busy⟩
  rcases step.counts with ⟨nlo, nhi⟩ | updated
  · rw [rootFinished, nlo, nhi] at finished
    exact (alive.finished finished).imp_right (step.checking · other)
  · exact .inr (.inl updated)

/-- So does a step of the system. -/
theorem SystemStep.alive {unique : Bool} {system system' : System Line}
    (step : SystemStep compare unique totalLines system system')
    (alive : system.Alive) : system'.Alive := by
  cases step with
  | quiet step =>
      obtain ⟨awake, finished, busy⟩ := alive.step step nofun
      exact ⟨awake, finished, .inr (.inr (busy rfl))⟩
  | pops step waits =>
      obtain ⟨awake, finished, busy⟩ := alive.step step nofun
      exact ⟨awake, finished, .inr (.inr (busy rfl))⟩
  | returns step =>
      obtain ⟨awake, finished, -⟩ := alive.step step nofun
      exact ⟨awake, finished, .inr (.inl (Nat.succ_pos _))⟩
  | publishes step =>
      obtain ⟨awake, finished, busy⟩ := alive.step step nofun
      exact ⟨awake, finished, .inr (.inr (busy rfl))⟩
  | checksParent step =>
      refine ⟨step.awake (by omega) alive.awake, fun finished => .inl ?_,
        .inr (.inl (Nat.succ_pos _))⟩
      exact Bool.or_eq_true_iff.mpr (.inr finished)
  | ends ended waits => exact ⟨alive.awake, alive.finished, .inl ended⟩

/-- There is a thread at every leaf. -/
theorem sortlines_busy (creates : List Bool → Bool) (path : List Bool)
    (nthreads : Nat) (lines : List Line) :
    (sortlines creates path nthreads lines).Any Node.busy := by
  induction path, nthreads, lines using sortlines.induct creates with
  | case1 path nthreads lines nlo forks loHypothesis hiHypothesis =>
      rw [sortlines, if_pos forks]
      exact .inr (.inl loHypothesis)
  | case2 path nthreads lines stays =>
      rw [sortlines, if_neg stays]
      exact .inl (Option.some_ne_none _)

/-- At the start the root counts all lines. -/
theorem sortlines_counts (creates : List Bool → Bool) (path : List Bool)
    (nthreads : Nat) (lines : List Line) :
    (sortlines creates path nthreads lines).node.nlo +
      (sortlines creates path nthreads lines).node.nhi = lines.length := by
  rw [sortlines]
  split
  · simp only [Tree.node, initNode]
    omega
  · simp only [Tree.node, initLeaf, initNode, List.length_take,
      List.length_drop]
    omega

/-- The system is alive in every state that is reached. -/
theorem reachable_alive {unique : Bool} (creates : List Bool → Bool)
    (nthreads : Nat) {lines : List Line} (nonempty : lines ≠ [])
    {system : System Line}
    (reached : Reachable compare unique totalLines
      (sortlines creates [] nthreads lines) system) :
    system.Alive := by
  induction reached with
  | refl =>
      refine ⟨sortlines_awake creates [] nthreads lines, fun finished => ?_,
        .inr (.inr (sortlines_busy creates [] nthreads lines))⟩
      have zero : lines.length = 0 :=
        (sortlines_counts creates [] nthreads lines).symm.trans
          (beq_iff_eq.mp finished)
      exact absurd (List.eq_nil_of_length_eq_zero zero) nonempty
  | tail _ step inductionHypothesis => exact step.alive inductionHypothesis

/-- All threads have come to MERGE_END. -/
structure System.Finished (system : System Line) : Prop where
  ended : system.ended = true
  waiting : system.waiting = 0
  idle : ¬ system.tree.Any Node.busy

/-- A step of the tree that takes nothing from the queue is one of the
system. -/
theorem Step.systemStep {unique : Bool} {system : System Line}
    (step : Step compare totalLines 1 system.tree event tree)
    (other : event ≠ .pops) :
    ∃ system', SystemStep compare unique totalLines system system' := by
  cases event with
  | quiet => exact ⟨_, .quiet step⟩
  | pops => exact absurd rfl other
  | returns => exact ⟨_, .returns step⟩
  | publishes lines => exact ⟨_, .publishes step⟩
  | checksParent => exact ⟨_, .checksParent step⟩

/-- Only a sort that is over has no next step. -/
theorem System.Valid.finished_of_stuck {unique : Bool} {lines : List Line}
    {system : System Line} (valid : system.Valid compare unique lines)
    (alive : system.Alive)
    (stuck : ∀ system', ¬ SystemStep compare unique totalLines system system') :
    system.Finished := by
  have idle : ¬ system.tree.Any Node.busy := by
    intro busy
    obtain ⟨event, tree', step, other⟩ := busy.step
    obtain ⟨system', step⟩ := step.systemStep other
    exact stuck system' step
  have ended : system.ended = true := by
    rcases alive.threads with ended | waits | busy
    · exact ended
    · have asleep : ¬ system.tree.Any fun node => node.queued = .inHeap := by
        intro inHeap
        obtain ⟨tree', step⟩ := inHeap.pops
        exact stuck _ (.pops step waits)
      have rest := valid.tree.rest_of_asleep alive.awake idle asleep
      have unlocked : system.tree.node.worker = Option.none := by
        by_contra working
        exact idle (Node.busy.any (.inl working))
      rcases alive.finished (valid.tree.rootFinished unlocked rest) with
        ended | checking
      · exact ended
      · exact absurd checking.busy idle
    · exact absurd busy idle
  refine ⟨ended, ?_, idle⟩
  by_contra waits
  exact stuck _ (.ends ended (Nat.pos_of_ne_zero waits))

/-! ## Every round merges something -/

/-- At the stage of a thread that has taken nothing yet. -/
def Node.fresh (node : Node Line) (work : Work Line) : Stage → Prop
  | .merging => node.workable = true ∧ work.toMerge ≠ 0
  | .drainingLo => node.lo ≠ [] ∧ work.toMerge ≠ 0
  | .drainingHi => node.hi ≠ [] ∧ work.toMerge ≠ 0
  | .merged => False

/-- A node in the queue can be worked on, and the thread that works on it finds
a line to take. -/
def Node.Fed (node : Node Line) : Prop :=
  match node.worker with
  | none | some .checked => node.queued ≠ .no → node.workable = true
  | some (.sorting lo hi) =>
      node.queued = .no ∧ node.nlo = lo.length ∧ node.nhi = hi.length ∧
        lo ++ hi ≠ []
  | some (.working stage work) =>
      node.queued = .no ∧
        (work.mergedLo + work.mergedHi = 0 → node.fresh work stage)
  | some .updated => node.queued = .no

/-- All nodes are fed. -/
def Tree.Fed : Tree Line → Prop
  | .leaf node => node.Fed
  | .fork node lo hi => node.Fed ∧ lo.Fed ∧ hi.Fed

/-- A node can be merged if both sides have lines or the empty one is at its
end. -/
theorem workable_iff (node : Node Line) :
    node.workable = true ↔
      node.lo ≠ [] ∧ (node.hi ≠ [] ∨ node.nhi = 0) ∨
        node.lo = [] ∧ node.hi ≠ [] ∧ node.nlo = 0 := by
  cases lo : node.lo <;> cases hi : node.hi <;>
    simp [Node.workable, lo, hi]

theorem workable_of_all (lo : node.nlo = node.lo.length)
    (hi : node.nhi = node.hi.length) (nonempty : node.lo ++ node.hi ≠ []) :
    node.workable = true := by
  rw [workable_iff, lo, hi]
  cases onLo : node.lo <;> cases onHi : node.hi <;> simp_all

theorem takeLo_fed {root : Bool} {stage : Stage} {work : Work Line}
    {line : Line} {lo : List Line} (queued : node.queued = .no) :
    (takeLo root stage work node line lo).2.Fed := by
  refine ⟨queued, fun zero => ?_⟩
  simp only [Nat.add_eq_zero_iff] at zero
  omega

theorem takeHi_fed {root : Bool} {stage : Stage} {work : Work Line}
    {line : Line} {hi : List Line} (queued : node.queued = .no) :
    (takeHi root stage work node line hi).2.Fed := by
  refine ⟨queued, fun zero => ?_⟩
  simp only [Nat.add_eq_zero_iff] at zero
  omega

/-- One side has run out, for good. -/
theorem afterMerging_fed {work : Work Line} {restLo restHi : List Line}
    (valid : node.Valid compare level restLo restHi)
    (working : node.worker = some (.working .merging work))
    (queued : node.queued = .no)
    (fresh : work.mergedLo + work.mergedHi = 0 → node.fresh work .merging)
    (out : node.lo = [] ∨ node.hi = []) : (afterMerging work node).Fed := by
  refine ⟨queued, fun zero => ?_⟩
  obtain ⟨workable, nonempty⟩ := fresh zero
  obtain ⟨mergedLo, mergedHi⟩ := Nat.add_eq_zero_iff.mp zero
  obtain ⟨-, -, countLo, countHi, -, -, -⟩ := valid
  simp only [Node.takenLo, Node.takenHi, working, List.length_append]
    at countLo countHi
  rw [mergedLo, mergedHi]
  rcases (workable_iff node).mp workable with
    ⟨onLo, onHi | exhausted⟩ | ⟨-, onHi, exhausted⟩
  · exact absurd out (not_or.mpr ⟨onLo, onHi⟩)
  · rw [if_pos exhausted]
    exact ⟨onLo, nonempty⟩
  · have someHi := List.length_pos_iff.mpr onHi
    rw [if_neg (by omega), if_pos exhausted]
    exact ⟨onHi, nonempty⟩

/-- A turn of the merge keeps the node fed. -/
theorem mergeTurn_fed {root : Bool} {work : Work Line}
    {restLo restHi : List Line}
    (valid : node.Valid compare level restLo restHi)
    (working : node.worker = some (.working .merging work))
    (queued : node.queued = .no)
    (fresh : work.mergedLo + work.mergedHi = 0 → node.fresh work .merging) :
    (mergeTurn compare root work node).2.Fed := by
  unfold mergeTurn
  split
  · split
    next isOver =>
      exact ⟨queued, fun zero => absurd isOver (fresh zero).2⟩
    · split
      · exact takeLo_fed queued
      · exact takeHi_fed queued
  next ended =>
    refine afterMerging_fed valid working queued fresh ?_
    cases onLo : node.lo with
    | nil => exact .inl rfl
    | cons line lo =>
        cases onHi : node.hi with
        | nil => exact .inr rfl
        | cons line' hi => exact absurd onHi (ended _ _ _ _ onLo)

theorem drainLoTurn_fed {root : Bool} {work : Work Line}
    (queued : node.queued = .no)
    (fresh : work.mergedLo + work.mergedHi = 0 → node.fresh work .drainingLo) :
    (drainLoTurn root work node).2.Fed := by
  unfold drainLoTurn
  split
  · split
    next isOver => exact ⟨queued, fun zero => absurd isOver (fresh zero).2⟩
    · exact takeLo_fed queued
  next ended => exact ⟨queued, fun zero => absurd ended (fresh zero).1⟩

theorem drainHiTurn_fed {root : Bool} {work : Work Line}
    (queued : node.queued = .no)
    (fresh : work.mergedLo + work.mergedHi = 0 → node.fresh work .drainingHi) :
    (drainHiTurn root work node).2.Fed := by
  unfold drainHiTurn
  split
  · split
    next isOver => exact ⟨queued, fun zero => absurd isOver (fresh zero).2⟩
    · exact takeHi_fed queued
  next ended => exact ⟨queued, fun zero => absurd ended (fresh zero).1⟩

/-- A node in the queue can be merged. -/
theorem queueCheckInsert_workable
    (workable : node.queued ≠ .no → node.workable = true)
    (queued : (queueCheckInsert node).queued ≠ .no) :
    (queueCheckInsert node).workable = true := by
  unfold queueCheckInsert at queued ⊢
  split at queued
  next holds =>
    rw [if_pos holds]
    exact holds.2
  next fails =>
    rw [if_neg fails]
    exact workable queued

/-- What a thread does keeps its node fed. -/
theorem act_fed (comparison : Comparison compare) {phase : Phase Line}
    {restLo restHi : List Line}
    (valid : node.Valid compare level restLo restHi) (fed : node.Fed)
    (working : node.worker = some phase) (root : Bool) :
    (act compare root node phase).2.Fed := by
  match phase with
  | .sorting lo hi =>
      simp only [Node.Fed, working] at fed
      obtain ⟨-, nlo, nhi, nonempty⟩ := fed
      simp only [act, sortedHalves_eq comparison]
      refine fun _ => workable_of_all ?_ ?_ ?_
      · exact nlo.trans (List.length_mergeSort _).symm
      · exact nhi.trans (List.length_mergeSort _).symm
      · intro isNil
        have lengths := congrArg List.length isNil
        simp only [List.length_append, List.length_mergeSort, List.length_nil]
          at lengths
        exact nonempty (List.eq_nil_of_length_eq_zero (by simpa using lengths))
  | .working .merging work =>
      simp only [Node.Fed, working] at fed
      exact mergeTurn_fed valid working fed.1 fed.2
  | .working .drainingLo work =>
      simp only [Node.Fed, working] at fed
      exact drainLoTurn_fed fed.1 fed.2
  | .working .drainingHi work =>
      simp only [Node.Fed, working] at fed
      exact drainHiTurn_fed fed.1 fed.2
  | .working .merged work =>
      simp only [Node.Fed, working] at fed
      exact fed.1
  | .updated =>
      simp only [Node.Fed, working] at fed
      exact queueCheckInsert_workable fun queued => absurd fed queued
  | .checked =>
      simp only [Node.Fed, working] at fed
      exact fed

/-- So does a step of the node. -/
theorem NodeStep.fed (comparison : Comparison compare)
    {restLo restHi : List Line}
    (step : NodeStep compare totalLines level node event node')
    (valid : node.Valid compare level restLo restHi) (fed : node.Fed) :
    node'.Fed := by
  cases step with
  | pop queued =>
      match worker : node.worker with
      | none | some .checked =>
          simp only [Node.Fed, worker, queued] at fed ⊢
          exact fun _ => fed nofun
      | some (.sorting _ _) | some (.working _ _) | some .updated =>
          simp only [Node.Fed, worker, queued] at fed
          simp at fed
  | lock popped unlocked =>
      simp only [Node.Fed, unlocked, popped] at fed
      exact ⟨rfl, fun _ => ⟨fed nofun, Nat.succ_ne_zero _⟩⟩
  | act working => exact act_fed comparison valid fed working _

/-- So do lines from a child. -/
theorem Node.Fed.publish {lo hi : List Line} (fed : node.Fed)
    (moreLo : node.lo ≠ [] → lo ≠ []) (moreHi : node.hi ≠ [] → hi ≠ []) :
    Node.Fed { node with lo := lo, hi := hi } := by
  have workable (before : node.workable = true) :
      Node.workable { node with lo := lo, hi := hi } = true := by
    rw [workable_iff] at before ⊢
    rcases before with ⟨onLo, onHi⟩ | ⟨-, onHi, exhausted⟩
    · exact .inl ⟨moreLo onLo, onHi.imp_left moreHi⟩
    · by_cases isNil : lo = []
      · exact .inr ⟨isNil, moreHi onHi, exhausted⟩
      · exact .inl ⟨isNil, .inl (moreHi onHi)⟩
  match worker : node.worker with
  | none | some .checked =>
      simp only [Node.Fed, worker] at fed ⊢
      exact fun queued => workable (fed queued)
  | some (.sorting _ _) | some .updated =>
      simp only [Node.Fed, worker] at fed ⊢
      exact fed
  | some (.working stage work) =>
      simp only [Node.Fed, worker] at fed ⊢
      refine ⟨fed.1, fun isNil => ?_⟩
      have fresh := fed.2 isNil
      cases stage with
      | merging => exact ⟨workable fresh.1, fresh.2⟩
      | drainingLo => exact ⟨moreLo fresh.1, fresh.2⟩
      | drainingHi => exact ⟨moreHi fresh.1, fresh.2⟩
      | merged => exact fresh

theorem fromChild_fed {published : List Line → Node Line}
    (received : fromChild published node event = some (node', event'))
    (fed : node.Fed) (more : ∀ lines, (published lines).Fed) : node'.Fed := by
  rcases fromChild_cases received with
    ⟨-, -, rfl⟩ | ⟨lines, -, -, rfl⟩ | ⟨-, -, unlocked, rfl⟩
  · exact fed
  · exact more lines
  · simp only [Node.Fed, unlocked] at fed
    have unlocked' : (queueCheckInsert node).worker = none := by
      obtain ⟨queued, inserted⟩ := queueCheckInsert_eq node
      rw [inserted]
      exact unlocked
    simp only [Node.Fed, unlocked']
    exact queueCheckInsert_workable fed

/-- So does a step of the tree. -/
theorem Step.fed (comparison : Comparison compare)
    (step : Step compare totalLines level tree event tree')
    (valid : tree.Valid compare level) (fed : tree.Fed) : tree'.Fed := by
  induction step with
  | leaf step => exact step.fed comparison valid.1 fed
  | fork step => exact ⟨step.fed comparison valid.1 fed.1, fed.2⟩
  | lo step received inductionHypothesis =>
      refine ⟨fromChild_fed received fed.1 fun lines => fed.1.publish ?_ id,
        inductionHypothesis valid.2.2.1 fed.2.1, fed.2.2⟩
      exact fun nonempty isNil => nonempty (List.append_eq_nil_iff.mp isNil).1
  | hi step received inductionHypothesis =>
      refine ⟨fromChild_fed received fed.1 fun lines => fed.1.publish id ?_,
        fed.2.1, inductionHypothesis valid.2.2.2 fed.2.2⟩
      exact fun nonempty isNil => nonempty (List.append_eq_nil_iff.mp isNil).1

/-- The nodes are fed at the start. -/
theorem sortlines_fed (creates : List Bool → Bool) (path : List Bool)
    (nthreads : Nat) {lines : List Line} (nonempty : lines ≠ []) :
    (sortlines creates path nthreads lines).Fed := by
  induction path, nthreads, lines using sortlines.induct creates with
  | case1 path nthreads lines nlo forks loHypothesis hiHypothesis =>
      have many : subthreadLines ≤ lines.length := forks.2.1
      rw [subthreadLines] at many
      rw [sortlines, if_pos forks]
      refine ⟨fun queued => absurd rfl queued, loHypothesis ?_, hiHypothesis ?_⟩
      · refine List.ne_nil_of_length_pos ?_
        rw [List.length_take]
        omega
      · refine List.ne_nil_of_length_pos ?_
        rw [List.length_drop]
        omega
  | case2 path nthreads lines stays =>
      rw [sortlines, if_neg stays]
      refine ⟨rfl, rfl, rfl, ?_⟩
      rwa [List.take_append_drop]

/-! ## Only so many steps -/

/-- The steps of a thread at its node.  Once it has taken a line, it may also
insert the node into the queue again. -/
def Phase.rank : Phase Line → Nat
  | .sorting _ _ => 30
  | .working stage work =>
      (match stage with
        | .merging => 3
        | .drainingLo | .drainingHi => 2
        | .merged => 1) +
      if work.mergedLo + work.mergedHi = 0 then 0 else 18
  | .updated => 18
  | .checked => 10

/-- How far a node is from being taken. -/
def Queued.rank : Queued → Nat
  | .no => 0
  | .inHeap => 5
  | .popped => 4

/-- How far its thread is from the end of its turn. -/
def Node.rank (node : Node Line) : Nat :=
  node.queued.rank + (node.worker.map Phase.rank).getD 0

/-- The lines that a leaf is yet to sort. -/
def Node.unsorted (node : Node Line) : Nat :=
  match node.worker with
  | some (.sorting lo hi) => lo.length + hi.length
  | _ => 0

/-- How often the lines at a node will be written or handed over. -/
def Node.load (level : Nat) (node : Node Line) : Nat :=
  (2 * level + 2) * (node.unsorted + node.lo.length + node.hi.length) +
    (2 * level + 1) * node.staged.length

/-- The ranks of all nodes. -/
def Tree.rank : Tree Line → Nat
  | .leaf node => node.rank
  | .fork node lo hi => node.rank + lo.rank + hi.rank

/-- The lines that are still to be moved, each as often as it has levels to go
up. -/
def Tree.load (level : Nat) : Tree Line → Nat
  | .leaf node => node.load level
  | .fork node lo hi =>
      node.load level + lo.load (level + 1) + hi.load (level + 1)

/-- What the parent may have to do on account of an event. -/
def Event.rank : Event Line → Nat
  | .checksParent => 5
  | _ => 0

/-- The lines get on, or they stay and a thread does. -/
def Decreases (level load rank : Nat) (event : Event Line)
    (load' rank' : Nat) : Prop :=
  load' + 2 * level * event.lines.length < load ∨
    load' + 2 * level * event.lines.length ≤ load ∧ rank' + event.rank < rank

/-- A step of a node lowers its load, or its rank at the same load. -/
def NodeDecreases (level : Nat) (node : Node Line)
    (step : Event Line × Node Line) : Prop :=
  Decreases level (node.load level) node.rank step.1 (step.2.load level)
    step.2.rank

theorem deliver_length (root : Bool) (work : Work Line) (line : Line) :
    (deliver root work line).1.lines.length +
        (deliver root work line).2.dest.length = work.dest.length + 1 := by
  cases root with
  | true => simp [deliver, Event.lines, Nat.add_comm]
  | false => simp [deliver, Event.lines]

theorem takeLo_decreases {stage : Stage} {work : Work Line} {line : Line}
    {lo : List Line} (working : node.worker = some (.working stage work))
    (available : node.lo = line :: lo) :
    NodeDecreases level node (takeLo (level == 1) stage work node line lo) := by
  refine .inl ?_
  have delivered := congrArg ((2 * level + 1) * ·)
    (deliver_length (level == 1) work line)
  simp only [Nat.mul_add, Nat.add_mul] at delivered
  simp only [takeLo, Node.load, Node.unsorted, Node.staged, working, available,
    List.length_cons, Nat.mul_add, Nat.add_mul]
  omega

theorem takeHi_decreases {stage : Stage} {work : Work Line} {line : Line}
    {hi : List Line} (working : node.worker = some (.working stage work))
    (available : node.hi = line :: hi) :
    NodeDecreases level node (takeHi (level == 1) stage work node line hi) := by
  refine .inl ?_
  have delivered := congrArg ((2 * level + 1) * ·)
    (deliver_length (level == 1) work line)
  simp only [Nat.mul_add, Nat.add_mul] at delivered
  simp only [takeHi, Node.load, Node.unsorted, Node.staged, working, available,
    List.length_cons, Nat.mul_add, Nat.add_mul]
  omega

/-- Between the loops no line is taken. -/
theorem turn_decreases {stage stage' : Stage} {work work' : Work Line}
    (working : node.worker = some (.working stage work))
    (mergedLo : work'.mergedLo = work.mergedLo)
    (mergedHi : work'.mergedHi = work.mergedHi)
    (dest : work'.dest = work.dest)
    (later : stage = .merging ∧ stage' ≠ .merging ∨
      stage ≠ .merged ∧ stage' = .merged) :
    NodeDecreases level node
      (.quiet, { node with worker := some (.working stage' work') }) := by
  refine .inr ⟨?_, ?_⟩
  · simp only [Node.load, Node.unsorted, Node.staged, working, dest,
      Event.lines, List.length_nil, Nat.mul_zero, Nat.add_zero, le_refl]
  · simp only [Node.rank, working, Option.map_some, Option.getD_some,
      Phase.rank, mergedLo, mergedHi, Event.rank]
    rcases later with ⟨rfl, loops⟩ | ⟨loops, rfl⟩
    · cases stage' with
      | merging => exact absurd rfl loops
      | _ => simp only; omega
    · cases stage with
      | merged => exact absurd rfl loops
      | _ => simp only; omega

theorem afterMerging_decreases {work work' : Work Line}
    (working : node.worker = some (.working .merging work))
    (mergedLo : work'.mergedLo = work.mergedLo)
    (mergedHi : work'.mergedHi = work.mergedHi)
    (dest : work'.dest = work.dest) :
    NodeDecreases level node (.quiet, afterMerging work' node) := by
  refine turn_decreases working mergedLo mergedHi dest (.inl ⟨rfl, ?_⟩)
  split
  · exact nofun
  · split <;> exact nofun

theorem working_decreases {stage : Stage} {work : Work Line}
    (working : node.worker = some (.working stage work)) (fed : node.Fed) :
    NodeDecreases level node
      (act compare (level == 1) node (.working stage work)) := by
  cases stage with
  | merging =>
      simp only [act, mergeTurn]
      split
      · split
        · exact afterMerging_decreases working rfl rfl rfl
        · split
          · exact takeLo_decreases working ‹_›
          · exact takeHi_decreases working ‹_›
      · exact afterMerging_decreases working rfl rfl rfl
  | drainingLo =>
      simp only [act, drainLoTurn]
      split
      · split
        · exact turn_decreases working rfl rfl rfl (.inr ⟨by decide, rfl⟩)
        · exact takeLo_decreases working ‹_›
      · exact turn_decreases working rfl rfl rfl (.inr ⟨by decide, rfl⟩)
  | drainingHi =>
      simp only [act, drainHiTurn]
      split
      · split
        · exact turn_decreases working rfl rfl rfl (.inr ⟨by decide, rfl⟩)
        · exact takeHi_decreases working ‹_›
      · exact turn_decreases working rfl rfl rfl (.inr ⟨by decide, rfl⟩)
  | merged =>
      simp only [Node.Fed, working] at fed
      have taken : work.mergedLo + work.mergedHi ≠ 0 := fed.2
      have less : (act compare (level == 1) node
            (.working .merged work)).2.rank < node.rank := by
        simp only [act, update, Node.rank, working, Option.map_some,
          Option.getD_some, Phase.rank, if_neg taken]
        omega
      simp only [NodeDecreases, Decreases, act, update, Node.load, Node.unsorted, Node.staged,
        working, Event.lines, Event.rank, List.length_nil, Nat.add_mul]
      rcases Nat.eq_zero_or_pos work.dest.length with zero | positive
      · exact .inr ⟨by rw [zero]; omega, less⟩
      · exact .inl (by omega)

/-- What a thread does leaves less to do. -/
theorem act_decreases (comparison : Comparison compare) {phase : Phase Line}
    (working : node.worker = some phase) (fed : node.Fed) :
    NodeDecreases level node (act compare (level == 1) node phase) := by
  match phase with
  | .sorting lo hi =>
      simp only [Node.Fed, working] at fed
      refine .inr ⟨?_, ?_⟩
      · simp only [act, sortedHalves_eq comparison, Node.load, Node.unsorted,
          Node.staged, working, Event.lines, List.length_mergeSort,
          List.length_nil, Nat.mul_zero, Nat.add_zero, Nat.zero_add]
        exact Nat.mul_le_mul_left _ (by omega)
      · simp only [act, Node.rank, working, fed.1, Queued.rank, Phase.rank,
          Event.rank, Option.map_some, Option.map_none, Option.getD_some,
          Option.getD_none]
        omega
  | .working stage work => exact working_decreases working fed
  | .updated =>
      simp only [Node.Fed, working] at fed
      obtain ⟨queued, inserted⟩ := queueCheckInsert_eq node
      have rank : queued.rank ≤ 5 := by cases queued <;> decide
      refine .inr ⟨?_, ?_⟩
      · simp only [act, inserted, Node.load, Node.unsorted, Node.staged, working,
          Event.lines, List.length_nil, Nat.mul_zero, Nat.add_zero, le_refl]
      · simp only [act, inserted, Node.rank, working, fed, Phase.rank,
          Event.rank, Option.map_some, Option.getD_some]
        omega
  | .checked =>
      refine .inr ⟨?_, ?_⟩
      · simp only [act, Node.load, Node.unsorted, Node.staged, working,
          Event.lines, List.length_nil, Nat.mul_zero, Nat.add_zero, le_refl]
      · simp only [act, Node.rank, working, Phase.rank, Event.rank,
          Option.map_some, Option.map_none, Option.getD_some, Option.getD_none]
        omega

/-- So does a step of the node. -/
theorem NodeStep.decreases (comparison : Comparison compare)
    (step : NodeStep compare totalLines level node event node')
    (fed : node.Fed) : NodeDecreases level node (event, node') := by
  cases step with
  | pop queued =>
      refine .inr ⟨?_, ?_⟩
      · simp only [Node.load, Node.unsorted, Node.staged, Event.lines,
          List.length_nil, Nat.mul_zero, Nat.add_zero, le_refl]
      · simp only [Node.rank, queued, Queued.rank, Event.rank]
        omega
  | lock popped unlocked =>
      refine .inr ⟨?_, ?_⟩
      · simp only [Node.load, Node.unsorted, Node.staged, unlocked, Event.lines,
          List.length_nil, Nat.mul_zero, Nat.add_zero, le_refl]
      · simp only [Node.rank, unlocked, popped, Queued.rank, Phase.rank,
          Event.rank, Option.map_some, Option.map_none, Option.getD_some,
          Option.getD_none, if_true]
        omega
  | act working => exact act_decreases comparison working fed

/-- The parent has more to do only by what the child has got rid of. -/
theorem fromChild_rank {published : List Line → Node Line}
    (received : fromChild published node event = some (node', event'))
    (same : ∀ lines, (published lines).rank = node.rank) :
    node'.rank + event'.rank ≤ node.rank + event.rank := by
  rcases fromChild_cases received with
    ⟨-, rfl, rfl⟩ | ⟨lines, rfl, rfl, rfl⟩ | ⟨rfl, rfl, -, rfl⟩
  · exact le_rfl
  · exact Nat.add_le_add_right (same lines).le _
  · obtain ⟨queued, inserted⟩ := queueCheckInsert_eq node
    have rank : queued.rank ≤ 5 := by cases queued <;> decide
    simp only [inserted, Node.rank, Event.rank]
    omega

theorem fromLo_load (received : fromLo node event = some (node', event')) :
    node'.load level + 2 * level * event'.lines.length =
      node.load level + 2 * (level + 1) * event.lines.length := by
  obtain ⟨silent, _, rfl⟩ := fromLo_eq received
  simp only [Node.load, Node.unsorted, Node.staged, silent, List.length_append,
    List.length_nil, Nat.mul_add, Nat.add_mul]
  omega

theorem fromHi_load (received : fromHi node event = some (node', event')) :
    node'.load level + 2 * level * event'.lines.length =
      node.load level + 2 * (level + 1) * event.lines.length := by
  obtain ⟨silent, _, rfl⟩ := fromHi_eq received
  simp only [Node.load, Node.unsorted, Node.staged, silent, List.length_append,
    List.length_nil, Nat.mul_add, Nat.add_mul]
  omega

/-- So does a step of the tree. -/
theorem Step.decreases (comparison : Comparison compare)
    (step : Step compare totalLines level tree event tree') (fed : tree.Fed) :
    Decreases level (tree.load level) tree.rank event (tree'.load level)
      tree'.rank := by
  induction step with
  | leaf step => exact step.decreases comparison fed
  | fork step =>
      have decreases := step.decreases comparison fed.1
      simp only [NodeDecreases, Decreases, Tree.load, Tree.rank] at decreases ⊢
      omega
  | @lo level _ _ _ _ _ _ _ step received inductionHypothesis =>
      have decreases := inductionHypothesis fed.2.1
      have load := @fromLo_load _ level _ _ _ _ received
      have rank := fromChild_rank received fun _ => rfl
      simp only [Decreases, Tree.load, Tree.rank] at decreases ⊢
      omega
  | @hi level _ _ _ _ _ _ _ step received inductionHypothesis =>
      have decreases := inductionHypothesis fed.2.2
      have load := @fromHi_load _ level _ _ _ _ received
      have rank := fromChild_rank received fun _ => rfl
      simp only [Decreases, Tree.load, Tree.rank] at decreases ⊢
      omega

/-- The lines, the threads at the nodes and those that wait. -/
def System.measure (system : System Line) : ℕ ×ₗ ℕ ×ₗ ℕ :=
  toLex (system.tree.load 1, toLex (system.tree.rank, system.waiting))

theorem Decreases.measure {saved saved' : Option Line}
    {output output' : List Line} {ended ended' : Bool} {waiting waiting' : Nat}
    (decreases : Decreases 1 (tree.load 1) tree.rank event (tree'.load 1)
      tree'.rank) :
    System.measure ⟨tree', saved', output', ended', waiting'⟩ <
      System.measure ⟨tree, saved, output, ended, waiting⟩ := by
  rcases decreases with load | ⟨load, rank⟩
  · have less : tree'.load 1 < tree.load 1 := by omega
    exact Prod.Lex.left _ _ less
  · have less : tree'.rank < tree.rank := by omega
    rcases Nat.lt_or_eq_of_le (show tree'.load 1 ≤ tree.load 1 by omega) with
      load | same
    · exact Prod.Lex.left _ _ load
    · rw [System.measure, System.measure, same]
      exact Prod.Lex.right _ (Prod.Lex.left _ _ less)

/-- So does a step of the system. -/
theorem SystemStep.decreases (comparison : Comparison compare) {unique : Bool}
    {system system' : System Line}
    (step : SystemStep compare unique totalLines system system')
    (fed : system.tree.Fed) : system'.measure < system.measure := by
  cases step with
  | quiet step => exact (step.decreases comparison fed).measure
  | pops step waits => exact (step.decreases comparison fed).measure
  | returns step => exact (step.decreases comparison fed).measure
  | publishes step => exact (step.decreases comparison fed).measure
  | checksParent step => exact (step.decreases comparison fed).measure
  | ends ended waits =>
      exact Prod.Lex.right _ (Prod.Lex.right _ (Nat.sub_lt waits Nat.one_pos))

/-- It keeps the nodes fed. -/
theorem SystemStep.fed (comparison : Comparison compare) {unique : Bool}
    {lines : List Line} {system system' : System Line}
    (step : SystemStep compare unique totalLines system system')
    (valid : system.Valid compare unique lines) (fed : system.tree.Fed) :
    system'.tree.Fed := by
  cases step with
  | quiet step => exact step.fed comparison valid.tree fed
  | pops step waits => exact step.fed comparison valid.tree fed
  | returns step => exact step.fed comparison valid.tree fed
  | publishes step => exact step.fed comparison valid.tree fed
  | checksParent step => exact step.fed comparison valid.tree fed
  | ends ended waits => exact fed

/-- No infinite run starts here. -/
theorem System.Valid.terminates (comparison : Comparison compare)
    {unique : Bool} {lines : List Line} {system : System Line}
    (valid : system.Valid compare unique lines) (fed : system.tree.Fed) :
    Acc (fun system' system => SystemStep compare unique totalLines system
      system') system := by
  induction system using (InvImage.wf System.measure wellFounded_lt).induction with
  | _ system inductionHypothesis =>
      exact ⟨_, fun system' step => inductionHypothesis system'
        (step.decreases comparison fed) (step.valid comparison valid)
        (step.fed comparison valid fed)⟩

/-- No schedule goes on for ever. -/
theorem sortlines_acc (comparison : Comparison compare) (unique : Bool)
    (totalLines : Nat) (creates : List Bool → Bool) (nthreads : Nat)
    {lines : List Line} (nonempty : lines ≠ []) :
    Acc (fun system' system => SystemStep compare unique totalLines system
      system') (initSystem (sortlines creates [] nthreads lines)) := by
  have reached : Reachable compare unique totalLines
      (sortlines creates [] nthreads lines) _ := Relation.ReflTransGen.refl
  exact (reachable_valid comparison creates nthreads lines reached).terminates
    comparison (sortlines_fed creates [] nthreads nonempty)

/-- A state without a step is the end, with all lines put out. -/
theorem sortlines_stuck (comparison : Comparison compare) {unique : Bool}
    {totalLines : Nat} (creates : List Bool → Bool) (nthreads : Nat)
    {lines : List Line} (nonempty : lines ≠ []) {system : System Line}
    (reached : Reachable compare unique totalLines
      (sortlines creates [] nthreads lines) system)
    (stuck : ∀ system', ¬ SystemStep compare unique totalLines system system') :
    system.Finished ∧ system.output = sortedLines compare unique lines := by
  have valid := reachable_valid comparison creates nthreads lines reached
  have finished := valid.finished_of_stuck
    (reachable_alive creates nthreads nonempty reached) stuck
  refine ⟨finished, ?_⟩
  have output := valid.output
  rwa [valid.ended finished.ended, writeLines, List.append_nil] at output

/-- However the threads take turns, they all come to MERGE_END after finitely
many steps, and the output is then the stable sort. -/
theorem sortlines_terminates (comparison : Comparison compare)
    (unique : Bool) (totalLines : Nat) (creates : List Bool → Bool)
    (nthreads : Nat) {lines : List Line} (nonempty : lines ≠ []) :
    Acc (fun system' system => SystemStep compare unique totalLines system
        system') (initSystem (sortlines creates [] nthreads lines)) ∧
      ∀ system, Reachable compare unique totalLines
          (sortlines creates [] nthreads lines) system →
        (∀ system', ¬ SystemStep compare unique totalLines system system') →
          system.Finished ∧
            system.output = sortedLines compare unique lines :=
  ⟨sortlines_acc comparison unique totalLines creates nthreads nonempty,
    fun _ reached stuck =>
      sortlines_stuck comparison creates nthreads nonempty reached stuck⟩

/-- Two threads that sort a half each come to MERGE_END. -/
theorem sortlines_terminates_halves :
    ∃ system, Reachable (fun first second : Int => first - second) false
        (2 ^ 17) (.fork (initNode (2 ^ 16) (2 ^ 16)) (halfLeaf (2 ^ 15) 2)
          (halfLeaf (2 ^ 15) 1)) system ∧
      system.Finished ∧
      system.output = sortedLines (fun first second : Int => first - second)
        false (halves (2 ^ 15)) := by
  have nonempty : halves (2 ^ 15) ≠ [] := by
    refine List.append_ne_nil_of_left_ne_nil ?_ _
    exact mt (List.replicate_eq_nil_iff _).mp (by decide)
  obtain ⟨ends, finishes⟩ := sortlines_terminates comparison_sub false (2 ^ 17)
    (fun _ => true) 2 nonempty
  obtain ⟨system, reached, stuck⟩ := exists_stuck ends
  have finished := finishes system reached stuck
  have forks : sortlines (fun _ => true) [] 2 (halves (2 ^ 15)) =
      .fork (initNode (2 ^ 16) (2 ^ 16)) (halfLeaf (2 ^ 15) 2)
        (halfLeaf (2 ^ 15) 1) := sortlines_halves (by decide)
  rw [forks] at reached
  exact ⟨system, reached, finished⟩

end Lmcas.SortThreads
