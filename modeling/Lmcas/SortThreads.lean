import Mathlib
import Lmcas.SortLines

/-!
# Sorting with several threads

The binary merge tree of `sort.c`.  Every leaf is sorted by a thread of its
own; after that the threads take nodes from a queue, merge some of the lines
that a node has from its two sides, and hand them to the parent.  A thread
holds the lock of the node that it works on; the lines that it hands over
appear at the parent while another thread may be working there.

`Step` has one step for every action that another thread can see.  The lines
between two pointers are a list.
-/

namespace Lmcas.SortThreads

open Lmcas.Lib.Segment
open Lmcas.Lib.StableSort
open Lmcas.SortLines

variable {Line : Type}

/-! ## Nodes -/

/-- The variables of `mergelines_node`: the lines taken from both sides and
those written to the destination. -/
structure Work (Line : Type) where
  toMerge : Nat
  mergedLo : Nat
  mergedHi : Nat
  dest : List Line

/-- Where a thread is in `mergelines_node`. -/
inductive Stage where
  | merging
  | drainingLo
  | drainingHi
  | merged
deriving DecidableEq, Repr

/-- Where the thread at a node is. -/
inductive Phase (Line : Type) where
  /-- `sortlines`, before the two halves of a leaf are sorted. -/
  | sorting (lo hi : List Line)
  /-- In `mergelines_node`. -/
  | working (stage : Stage) (work : Work Line)
  /-- Before `queue_check_insert`. -/
  | updated
  /-- Before `queue_check_insert_parent`. -/
  | checked

/-- `queued`, and whether the node is still in the heap. -/
inductive Queued where
  | no
  | inHeap
  | popped
deriving DecidableEq, Repr

/-- A node of the tree of merges, `struct merge_node`, with the thread that
holds its lock. -/
structure Node (Line : Type) where
  /-- From `lo` to `end_lo`. -/
  lo : List Line
  /-- From `hi` to `end_hi`. -/
  hi : List Line
  nlo : Nat
  nhi : Nat
  queued : Queued
  worker : Option (Phase Line)

/-- `init_node`. -/
def initNode (nlo nhi : Nat) : Node Line :=
  ⟨[], [], nlo, nhi, .no, none⟩

/-- A leaf, with the thread that is about to sort it. -/
def initLeaf (lo hi : List Line) : Node Line :=
  { initNode lo.length hi.length with worker := some (.sorting lo hi) }

/-- Lines to merge in one go: `MAX_MERGE (total_lines, level)`. -/
def maxMerge (totalLines level : Nat) : Nat :=
  totalLines >>> (2 * (level + 1)) + 1

/-- `to_merge--` on a `size_t`. -/
def decrement (toMerge : Nat) : Nat :=
  (toMerge + (2 ^ 64 - 1)) % 2 ^ 64

/-- What a node does for the others: it takes a thread from those that wait for
the queue, gives it back, hands over lines, or looks whether its parent can now
be worked on. -/
inductive Event (Line : Type) where
  | quiet
  | pops
  | returns
  | publishes (lines : List Line)
  | checksParent

/-- Lines from one side, and lines or nothing more to come from the other. -/
def Node.workable (node : Node Line) : Bool :=
  let loAvail := !node.lo.isEmpty
  let hiAvail := !node.hi.isEmpty
  if loAvail then hiAvail || node.nhi == 0 else hiAvail && node.nlo == 0

/-- `queue_check_insert`. -/
def queueCheckInsert (node : Node Line) : Node Line :=
  if node.queued = .no ∧ node.workable = true then
    { node with queued := .inHeap }
  else node

section

variable (compare : Line → Line → Int)

/-- The halves of a leaf behind the pointer 0. -/
def load (lines : List Line) (fallback : Line) : Memory Line :=
  fun address => lines.getD (-1 - address).toNat fallback

/-- The sorted halves of a leaf. -/
def sortedHalves (lo hi : List Line) : List Line × List Line :=
  match lo ++ hi with
  | [] => ([], [])
  | line :: _ =>
      let memory := sortLeaf compare (load (lo ++ hi) line) 0 lo.length
        hi.length (lo.length + hi.length)
      (stretch memory 0 lo.length, stretch memory (-lo.length) hi.length)

/-- A line goes to the destination, or from MERGE_ROOT to the output. -/
def deliver (root : Bool) (work : Work Line) (line : Line) :
    Event Line × Work Line :=
  if root then (.publishes [line], work)
  else (.quiet, { work with dest := work.dest ++ [line] })

/-- A line is taken from the lower side. -/
def takeLo (root : Bool) (stage : Stage) (work : Work Line) (node : Node Line)
    (line : Line) (lo : List Line) : Event Line × Node Line :=
  let (event, work) := deliver root work line
  (event, { node with
    lo := lo
    worker := some (.working stage { work with
      toMerge := decrement work.toMerge
      mergedLo := work.mergedLo + 1 }) })

/-- A line is taken from the upper side. -/
def takeHi (root : Bool) (stage : Stage) (work : Work Line) (node : Node Line)
    (line : Line) (hi : List Line) : Event Line × Node Line :=
  let (event, work) := deliver root work line
  (event, { node with
    hi := hi
    worker := some (.working stage { work with
      toMerge := decrement work.toMerge
      mergedHi := work.mergedHi + 1 }) })

/-- Behind the first loop of `mergelines_node`. -/
def afterMerging (work : Work Line) (node : Node Line) : Node Line :=
  { node with worker := some (.working
      (if node.nhi = work.mergedHi then .drainingLo
        else if node.nlo = work.mergedLo then .drainingHi
        else .merged) work) }

/-- One turn of the first loop of `mergelines_node`, or its end. -/
def mergeTurn (root : Bool) (work : Work Line) (node : Node Line) :
    Event Line × Node Line :=
  match node.lo, node.hi with
  | line :: lo, line' :: hi =>
      if work.toMerge = 0 then
        (.quiet,
          afterMerging { work with toMerge := decrement work.toMerge } node)
      else if compare line line' ≤ 0 then
        takeLo root .merging work node line lo
      else takeHi root .merging work node line' hi
  | _, _ => (.quiet, afterMerging work node)

/-- `while (node->lo != node->end_lo && to_merge--)` -/
def drainLoTurn (root : Bool) (work : Work Line) (node : Node Line) :
    Event Line × Node Line :=
  match node.lo with
  | line :: lo =>
      if work.toMerge = 0 then
        (.quiet, { node with worker := some (.working .merged work) })
      else takeLo root .drainingLo work node line lo
  | [] => (.quiet, { node with worker := some (.working .merged work) })

/-- The lower side is at its end: what the upper side has goes out. -/
def drainHiTurn (root : Bool) (work : Work Line) (node : Node Line) :
    Event Line × Node Line :=
  match node.hi with
  | line :: hi =>
      if work.toMerge = 0 then
        (.quiet, { node with worker := some (.working .merged work) })
      else takeHi root .drainingHi work node line hi
  | [] => (.quiet, { node with worker := some (.working .merged work) })

/-- `*node->dest = dest`, and the update of the node. -/
def update (work : Work Line) (node : Node Line) : Event Line × Node Line :=
  (.publishes work.dest, { node with
    nlo := node.nlo - work.mergedLo
    nhi := node.nhi - work.mergedHi
    worker := some .updated })

/-- The next action of the thread at a node. -/
def act (root : Bool) (node : Node Line) : Phase Line → Event Line × Node Line
  | .sorting lo hi =>
      let (sortedLo, sortedHi) := sortedHalves compare lo hi
      (.returns, { node with
        lo := sortedLo
        hi := sortedHi
        queued := .inHeap
        worker := none })
  | .working .merging work => mergeTurn compare root work node
  | .working .drainingLo work => drainLoTurn root work node
  | .working .drainingHi work => drainHiTurn root work node
  | .working .merged work => update work node
  | .updated =>
      (.quiet, { queueCheckInsert node with worker := some .checked })
  | .checked => (.checksParent, { node with worker := none })

/-- The steps of a node by itself; MERGE_ROOT is at level 1. -/
inductive NodeStep (totalLines level : Nat) :
    Node Line → Event Line → Node Line → Prop where
  /-- `heap_remove_top` in `queue_pop`. -/
  | pop {node : Node Line} (queued : node.queued = .inHeap) :
      NodeStep totalLines level node .pops { node with queued := .popped }
  /-- `lock_node` in `queue_pop`, and the beginning of `mergelines_node`. -/
  | lock {node : Node Line} (popped : node.queued = .popped)
      (unlocked : node.worker = none) :
      NodeStep totalLines level node .quiet { node with
        queued := .no
        worker := some (.working .merging
          ⟨maxMerge totalLines level, 0, 0, []⟩) }
  | act {node : Node Line} {phase : Phase Line}
      (working : node.worker = some phase) :
      NodeStep totalLines level node (act compare (level == 1) node phase).1
        (act compare (level == 1) node phase).2

end

/-! ## Trees -/

/-- The tree of nodes; a leaf has lines of its own. -/
inductive Tree (Line : Type) where
  | leaf (node : Node Line)
  | fork (node : Node Line) (lo hi : Tree Line)

/-- What an event of a child is for the node and above.  `published` is the
node with lines from the child behind those that it has. -/
def fromChild (published : List Line → Node Line) (node : Node Line) :
    Event Line → Option (Node Line × Event Line)
  | .quiet => some (node, .quiet)
  | .pops => some (node, .pops)
  | .returns => some (node, .returns)
  | .publishes lines => some (published lines, .quiet)
  -- the child waits for the lock of its parent
  | .checksParent =>
      if node.worker.isNone then some (queueCheckInsert node, .returns)
      else none

/-- What a node makes of an event of its lower child. -/
def fromLo (node : Node Line) : Event Line → Option (Node Line × Event Line) :=
  fromChild (fun lines => { node with lo := node.lo ++ lines }) node

/-- What it makes of an event of its upper child. -/
def fromHi (node : Node Line) : Event Line → Option (Node Line × Event Line) :=
  fromChild (fun lines => { node with hi := node.hi ++ lines }) node

/-- A step of one node, with what its ancestors make of it. -/
inductive Step (compare : Line → Line → Int) (totalLines : Nat) :
    Nat → Tree Line → Event Line → Tree Line → Prop where
  | leaf {level : Nat} {node node' : Node Line} {event : Event Line}
      (step : NodeStep compare totalLines level node event node') :
      Step compare totalLines level (.leaf node) event (.leaf node')
  | fork {level : Nat} {node node' : Node Line} {event : Event Line}
      {lo hi : Tree Line}
      (step : NodeStep compare totalLines level node event node') :
      Step compare totalLines level (.fork node lo hi) event
        (.fork node' lo hi)
  | lo {level : Nat} {node node' : Node Line} {event event' : Event Line}
      {lo lo' hi : Tree Line}
      (step : Step compare totalLines (level + 1) lo event lo')
      (received : fromLo node event = some (node', event')) :
      Step compare totalLines level (.fork node lo hi) event'
        (.fork node' lo' hi)
  | hi {level : Nat} {node node' : Node Line} {event event' : Event Line}
      {lo hi hi' : Tree Line}
      (step : Step compare totalLines (level + 1) hi event hi')
      (received : fromHi node event = some (node', event')) :
      Step compare totalLines level (.fork node lo hi) event'
        (.fork node' lo hi')

/-- The node at the root. -/
def Tree.node : Tree Line → Node Line
  | .leaf node => node
  | .fork node _ _ => node

/-- `SUBTHREAD_LINES_HEURISTIC`. -/
def subthreadLines : Nat := 128 * 1024

/-- The nodes that `sortlines` comes to, the lines in the order of the array.
`creates` says where `pthread_create` succeeds. -/
def sortlines (creates : List Bool → Bool) :
    List Bool → Nat → List Line → Tree Line
  | path, nthreads, lines =>
      let nlo := lines.length / 2
      if 1 < nthreads ∧ subthreadLines ≤ lines.length ∧ creates path then
        .fork (initNode nlo (lines.length - nlo))
          (sortlines creates (true :: path) (nthreads / 2) (lines.take nlo))
          (sortlines creates (false :: path) (nthreads - nthreads / 2)
            (lines.drop nlo))
      else .leaf (initLeaf (lines.take nlo) (lines.drop nlo))
termination_by _ nthreads => nthreads

/-! ## The threads of a sort -/

/-- `write_unique`: the next `saved_line`, none while it has no text, and what
is written. -/
def writeUnique (compare : Line → Line → Int) (unique : Bool)
    (saved : Option Line) (line : Line) : Option Line × List Line :=
  if unique then
    if saved.any fun before => compare line before == 0 then (saved, [])
    else (some line, [line])
  else (saved, [line])

/-- `write_unique` on several lines. -/
def writeLines (compare : Line → Line → Int) (unique : Bool) :
    Option Line → List Line → Option Line × List Line
  | saved, [] => (saved, [])
  | saved, line :: lines =>
      let (next, written) := writeUnique compare unique saved line
      let (last, rest) := writeLines compare unique next lines
      (last, written ++ rest)

/-- The merge tree, `saved_line`, the output, whether the MERGE_END node is in
the queue, and the threads that wait for the queue. -/
structure System (Line : Type) where
  tree : Tree Line
  saved : Option Line
  output : List Line
  ended : Bool
  waiting : Nat

/-- `queue_check_insert_parent` at MERGE_ROOT. -/
def rootFinished (tree : Tree Line) : Bool :=
  tree.node.nlo + tree.node.nhi == 0

/-- A step of the system; lines that leave the root are written. -/
inductive SystemStep (compare : Line → Line → Int) (unique : Bool)
    (totalLines : Nat) : System Line → System Line → Prop where
  | quiet {system : System Line} {tree : Tree Line}
      (step : Step compare totalLines 1 system.tree .quiet tree) :
      SystemStep compare unique totalLines system { system with tree := tree }
  | pops {system : System Line} {tree : Tree Line}
      (step : Step compare totalLines 1 system.tree .pops tree)
      (waits : 0 < system.waiting) :
      SystemStep compare unique totalLines system
        { system with tree := tree, waiting := system.waiting - 1 }
  | returns {system : System Line} {tree : Tree Line}
      (step : Step compare totalLines 1 system.tree .returns tree) :
      SystemStep compare unique totalLines system
        { system with tree := tree, waiting := system.waiting + 1 }
  | publishes {system : System Line} {tree : Tree Line} {lines : List Line}
      (step : Step compare totalLines 1 system.tree (.publishes lines) tree) :
      SystemStep compare unique totalLines system
        { system with
          tree := tree
          saved := (writeLines compare unique system.saved lines).1
          output := system.output ++
            (writeLines compare unique system.saved lines).2 }
  | checksParent {system : System Line} {tree : Tree Line}
      (step : Step compare totalLines 1 system.tree .checksParent tree) :
      SystemStep compare unique totalLines system
        { system with
          tree := tree
          ended := system.ended || rootFinished tree
          waiting := system.waiting + 1 }
  /-- A thread pops MERGE_END, inserts it again and is done. -/
  | ends {system : System Line} (ended : system.ended = true)
      (waits : 0 < system.waiting) :
      SystemStep compare unique totalLines system
        { system with waiting := system.waiting - 1 }

/-- The threads that `sortlines` creates are at the leaves. -/
def initSystem (tree : Tree Line) : System Line :=
  ⟨tree, none, [], false, 0⟩

/-- The states of all schedules. -/
def Reachable (compare : Line → Line → Int) (unique : Bool) (totalLines : Nat)
    (tree : Tree Line) : System Line → Prop :=
  Relation.ReflTransGen (SystemStep compare unique totalLines) (initSystem tree)

/-! ## What is left to come -/

/-- The lines that go up. -/
def Event.lines : Event Line → List Line
  | .publishes lines => lines
  | _ => []

/-- Written to the destination, but not handed over. -/
def Node.staged (node : Node Line) : List Line :=
  match node.worker with
  | some (.working _ work) => work.dest
  | _ => []

/-- The lines of the lower side that the turn has merged already. -/
def Node.takenLo (node : Node Line) : Nat :=
  match node.worker with
  | some (.working _ work) => work.mergedLo
  | _ => 0

/-- Those of the upper side. -/
def Node.takenHi (node : Node Line) : Nat :=
  match node.worker with
  | some (.working _ work) => work.mergedHi
  | _ => 0

/-- The thread is at this stage. -/
def Node.draining (node : Node Line) (stage : Stage) : Prop :=
  ∃ work, node.worker = some (.working stage work)

section

variable (compare : Line → Line → Int)

/-- The lines that a node has yet to hand over, with those that its children
have yet to hand over to it. -/
def Node.rest (node : Node Line) (restLo restHi : List Line) : List Line :=
  node.staged ++
    (node.lo ++ restLo).merge (node.hi ++ restHi) (precedes compare)

/-- What holds of a node whose children still have to hand up `restLo` and
`restHi`. -/
structure Node.Valid (level : Nat) (node : Node Line)
    (restLo restHi : List Line) : Prop where
  sortedLo : Sorted (precedes compare) (node.lo ++ restLo)
  sortedHi : Sorted (precedes compare) (node.hi ++ restHi)
  countLo : node.nlo = node.takenLo + (node.lo ++ restLo).length
  countHi : node.nhi = node.takenHi + (node.hi ++ restHi).length
  onlyLo : node.draining .drainingLo → node.hi ++ restHi = []
  onlyHi : node.draining .drainingHi → node.lo ++ restLo = []
  direct : level = 1 → node.staged = []

/-- The halves of a leaf that is yet to be sorted. -/
def Node.unsortedLo (node : Node Line) : List Line :=
  match node.worker with
  | some (.sorting lo _) => lo.mergeSort (precedes compare)
  | _ => []

/-- What the upper side will hold once its thread has sorted it. -/
def Node.unsortedHi (node : Node Line) : List Line :=
  match node.worker with
  | some (.sorting _ hi) => hi.mergeSort (precedes compare)
  | _ => []

/-- The thread is still sorting its two halves. -/
def Node.isSorting (node : Node Line) : Prop :=
  ∃ lo hi, node.worker = some (.sorting lo hi)

/-- The lines that the tree still has to hand up. -/
def Tree.rest : Tree Line → List Line
  | .leaf node =>
      node.rest compare (node.unsortedLo compare) (node.unsortedHi compare)
  | .fork node lo hi => node.rest compare lo.rest hi.rest

/-- Only leaves are sorted, and they have nothing to merge before that. -/
def Tree.Valid : Nat → Tree Line → Prop
  | level, .leaf node =>
      node.Valid compare level (node.unsortedLo compare)
          (node.unsortedHi compare) ∧
        (node.isSorting → node.lo = [] ∧ node.hi = [])
  | level, .fork node lo hi =>
      node.Valid compare level (lo.rest compare) (hi.rest compare) ∧
        ¬ node.isSorting ∧ lo.Valid (level + 1) ∧ hi.Valid (level + 1)

end

/-! ## One step of a node -/

section

variable {compare : Line → Line → Int} {totalLines level : Nat}
  {node node' : Node Line} {restLo restHi : List Line}

/-- What has been handed over is what there is less. -/
def Hands (compare : Line → Line → Int) (level : Nat) (node : Node Line)
    (restLo restHi : List Line) (step : Event Line × Node Line) : Prop :=
  node.rest compare restLo restHi =
      step.1.lines ++ step.2.rest compare restLo restHi ∧
    step.2.Valid compare level restLo restHi

@[simp]
theorem deliver_mergedLo (root : Bool) (work : Work Line) (line : Line) :
    (deliver root work line).2.mergedLo = work.mergedLo := by
  cases root <;> rfl

@[simp]
theorem deliver_mergedHi (root : Bool) (work : Work Line) (line : Line) :
    (deliver root work line).2.mergedHi = work.mergedHi := by
  cases root <;> rfl

/-- A line goes to the parent, and at the root to the output. -/
theorem deliver_lines {root : Bool} {work : Work Line} (line : Line)
    (direct : root = true → work.dest = []) :
    (deliver root work line).1.lines ++ (deliver root work line).2.dest =
      work.dest ++ [line] := by
  cases root with
  | true => simp [deliver, Event.lines, direct]
  | false => simp [deliver, Event.lines]

theorem deliver_dest {root : Bool} {work : Work Line} (line : Line)
    (direct : root = true → work.dest = []) (isRoot : root = true) :
    (deliver root work line).2.dest = [] := by
  subst isRoot
  exact direct rfl

/-- The smallest line is handed on from the lower side. -/
theorem takeLo_hands {stage : Stage} {work : Work Line} {line : Line}
    {lo : List Line} (valid : node.Valid compare level restLo restHi)
    (working : node.worker = some (.working stage work))
    (available : node.lo = line :: lo)
    (first : (line :: (lo ++ restLo)).merge (node.hi ++ restHi)
        (precedes compare) =
      line :: (lo ++ restLo).merge (node.hi ++ restHi) (precedes compare)) :
    Hands compare level node restLo restHi
      (takeLo (level == 1) stage work node line lo) := by
  obtain ⟨sortedLo, sortedHi, countLo, countHi, onlyLo, onlyHi, direct⟩ := valid
  simp only [Node.staged, Node.takenLo, Node.takenHi, Node.draining, working,
    available, List.cons_append, List.length_cons]
    at sortedLo countLo countHi onlyLo onlyHi direct
  have isDirect : (level == 1) = true → work.dest = [] :=
    fun root => direct (beq_iff_eq.mp root)
  constructor
  · have delivered := deliver_lines line isDirect
    simp only [takeLo, Node.rest, Node.staged, working, available,
      List.cons_append, first]
    rw [← List.append_assoc, delivered, List.append_assoc]
    rfl
  · refine ⟨sortedLo.of_cons, sortedHi, ?_, ?_, ?_, ?_, ?_⟩
    · simp only [takeLo, Node.takenLo, deliver_mergedLo]
      omega
    · simpa only [takeLo, Node.takenHi, deliver_mergedHi] using countHi
    · rintro ⟨work', same⟩
      obtain ⟨rfl, -⟩ := Phase.working.inj (Option.some.inj same)
      exact onlyLo ⟨work, rfl⟩
    · rintro ⟨work', same⟩
      obtain ⟨rfl, -⟩ := Phase.working.inj (Option.some.inj same)
      exact nomatch onlyHi ⟨work, rfl⟩
    · intro root
      simp only [takeLo, Node.staged]
      exact deliver_dest line isDirect (beq_iff_eq.mpr root)

/-- Or from the upper side. -/
theorem takeHi_hands {stage : Stage} {work : Work Line} {line : Line}
    {hi : List Line} (valid : node.Valid compare level restLo restHi)
    (working : node.worker = some (.working stage work))
    (available : node.hi = line :: hi)
    (first : (node.lo ++ restLo).merge (line :: (hi ++ restHi))
        (precedes compare) =
      line :: (node.lo ++ restLo).merge (hi ++ restHi) (precedes compare)) :
    Hands compare level node restLo restHi
      (takeHi (level == 1) stage work node line hi) := by
  obtain ⟨sortedLo, sortedHi, countLo, countHi, onlyLo, onlyHi, direct⟩ := valid
  simp only [Node.staged, Node.takenLo, Node.takenHi, Node.draining, working,
    available, List.cons_append, List.length_cons]
    at sortedHi countLo countHi onlyLo onlyHi direct
  have isDirect : (level == 1) = true → work.dest = [] :=
    fun root => direct (beq_iff_eq.mp root)
  constructor
  · have delivered := deliver_lines line isDirect
    simp only [takeHi, Node.rest, Node.staged, working, available,
      List.cons_append, first]
    rw [← List.append_assoc, delivered, List.append_assoc]
    rfl
  · refine ⟨sortedLo, sortedHi.of_cons, ?_, ?_, ?_, ?_, ?_⟩
    · simpa only [takeHi, Node.takenLo, deliver_mergedLo] using countLo
    · simp only [takeHi, Node.takenHi, deliver_mergedHi]
      omega
    · rintro ⟨work', same⟩
      obtain ⟨rfl, -⟩ := Phase.working.inj (Option.some.inj same)
      exact nomatch onlyLo ⟨work, rfl⟩
    · rintro ⟨work', same⟩
      obtain ⟨rfl, -⟩ := Phase.working.inj (Option.some.inj same)
      exact onlyHi ⟨work, rfl⟩
    · intro root
      simp only [takeHi, Node.staged]
      exact deliver_dest line isDirect (beq_iff_eq.mpr root)

theorem afterMerging_hands {stage : Stage} {work work' : Work Line}
    (valid : node.Valid compare level restLo restHi)
    (working : node.worker = some (.working stage work))
    (mergedLo : work'.mergedLo = work.mergedLo)
    (mergedHi : work'.mergedHi = work.mergedHi)
    (dest : work'.dest = work.dest) :
    Hands compare level node restLo restHi
      (.quiet, afterMerging work' node) := by
  obtain ⟨sortedLo, sortedHi, countLo, countHi, onlyLo, onlyHi, direct⟩ := valid
  simp only [Node.staged, Node.takenLo, Node.takenHi, working]
    at countLo countHi direct
  constructor
  · simp only [afterMerging, Node.rest, Node.staged, working, dest]
    rfl
  · refine ⟨sortedLo, sortedHi, ?_, ?_, ?_, ?_, ?_⟩
    · simpa only [afterMerging, Node.takenLo, mergedLo] using countLo
    · simpa only [afterMerging, Node.takenHi, mergedHi] using countHi
    · rintro ⟨_, same⟩
      obtain ⟨stage, -⟩ := Phase.working.inj (Option.some.inj same)
      have exhausted : node.nhi = work'.mergedHi := by
        by_contra some
        rw [if_neg some] at stage
        split at stage <;> cases stage
      have zero : (node.hi ++ restHi).length = 0 := by omega
      exact List.eq_nil_of_length_eq_zero zero
    · rintro ⟨_, same⟩
      obtain ⟨stage, -⟩ := Phase.working.inj (Option.some.inj same)
      have exhausted : node.nlo = work'.mergedLo := by
        by_contra some
        rw [if_neg some] at stage
        split at stage <;> cases stage
      have zero : (node.lo ++ restLo).length = 0 := by omega
      exact List.eq_nil_of_length_eq_zero zero
    · intro root
      simpa only [afterMerging, Node.staged, dest] using direct root

/-- A turn of the merge hands on the smaller of the first lines. -/
theorem mergeTurn_hands {work : Work Line}
    (valid : node.Valid compare level restLo restHi)
    (working : node.worker = some (.working .merging work)) :
    Hands compare level node restLo restHi
      (mergeTurn compare (level == 1) work node) := by
  unfold mergeTurn
  split
  next line lo line' hi availableLo availableHi =>
    split
    · exact afterMerging_hands valid working rfl rfl rfl
    · split
      next before =>
        refine takeLo_hands valid working availableLo ?_
        rw [availableHi, List.cons_append]
        exact List.cons_merge_cons_pos _ _ _ (decide_eq_true before)
      next behind =>
        refine takeHi_hands valid working availableHi ?_
        rw [availableLo, List.cons_append]
        exact List.cons_merge_cons_neg _ _ _ (by simpa [precedes] using behind)
  · exact afterMerging_hands valid working rfl rfl rfl

/-- The loop is over. -/
theorem merged_hands {stage : Stage} {work : Work Line}
    (valid : node.Valid compare level restLo restHi)
    (working : node.worker = some (.working stage work)) :
    Hands compare level node restLo restHi
      (.quiet, { node with worker := some (.working .merged work) }) := by
  obtain ⟨sortedLo, sortedHi, countLo, countHi, onlyLo, onlyHi, direct⟩ := valid
  simp only [Node.staged, Node.takenLo, Node.takenHi, working]
    at countLo countHi direct
  constructor
  · simp only [Node.rest, Node.staged, working]
    rfl
  · refine ⟨sortedLo, sortedHi, countLo, countHi, ?_, ?_, direct⟩
    · rintro ⟨_, same⟩
      cases same
    · rintro ⟨_, same⟩
      cases same

/-- Draining hands on the lines that are left. -/
theorem drainLoTurn_hands {work : Work Line}
    (valid : node.Valid compare level restLo restHi)
    (working : node.worker = some (.working .drainingLo work)) :
    Hands compare level node restLo restHi
      (drainLoTurn (level == 1) work node) := by
  unfold drainLoTurn
  split
  next line lo available =>
    split
    · exact merged_hands valid working
    · refine takeLo_hands valid working available ?_
      rw [valid.onlyLo ⟨work, working⟩, List.merge_right, List.merge_right]
  · exact merged_hands valid working

theorem drainHiTurn_hands {work : Work Line}
    (valid : node.Valid compare level restLo restHi)
    (working : node.worker = some (.working .drainingHi work)) :
    Hands compare level node restLo restHi
      (drainHiTurn (level == 1) work node) := by
  unfold drainHiTurn
  split
  next line hi available =>
    split
    · exact merged_hands valid working
    · refine takeHi_hands valid working available ?_
      rw [valid.onlyHi ⟨work, working⟩, List.nil_merge, List.nil_merge]
  · exact merged_hands valid working

/-- The update of the counts hands on nothing. -/
theorem update_hands {work : Work Line}
    (valid : node.Valid compare level restLo restHi)
    (working : node.worker = some (.working .merged work)) :
    Hands compare level node restLo restHi (update work node) := by
  obtain ⟨sortedLo, sortedHi, countLo, countHi, onlyLo, onlyHi, direct⟩ := valid
  simp only [Node.takenLo, Node.takenHi, working] at countLo countHi
  constructor
  · simp only [update, Node.rest, Node.staged, working, Event.lines,
      List.nil_append]
  · refine ⟨sortedLo, sortedHi, ?_, ?_, ?_, ?_, fun _ => rfl⟩
    · simp only [update, Node.takenLo]
      omega
    · simp only [update, Node.takenHi]
      omega
    · rintro ⟨_, same⟩
      cases same
    · rintro ⟨_, same⟩
      cases same

/-- Nothing has been taken. -/
structure Node.Idle (node : Node Line) : Prop where
  staged : node.staged = []
  takenLo : node.takenLo = 0
  takenHi : node.takenHi = 0
  draining : ∀ stage, node.draining stage → stage = .merging

theorem idle_of_worker {phase : Option (Phase Line)}
    (worker : node.worker = phase)
    (idle : phase = none ∨ phase = some .updated ∨ phase = some .checked) :
    node.Idle := by
  rcases idle with rfl | rfl | rfl <;>
    exact ⟨by simp [Node.staged, worker], by simp [Node.takenLo, worker],
      by simp [Node.takenHi, worker], by
        rintro stage ⟨work, working⟩
        rw [worker] at working
        cases working⟩

/-- Nor does what leaves both sides alone. -/
theorem Node.Idle.hands (event : Event Line) (idle : node.Idle)
    (idle' : node'.Idle) (valid : node.Valid compare level restLo restHi)
    (lo : node'.lo = node.lo) (hi : node'.hi = node.hi)
    (nlo : node'.nlo = node.nlo) (nhi : node'.nhi = node.nhi)
    (silent : event.lines = []) :
    Hands compare level node restLo restHi (event, node') := by
  obtain ⟨sortedLo, sortedHi, countLo, countHi, -, -, -⟩ := valid
  constructor
  · simp only [Node.rest, idle.staged, idle'.staged, lo, hi, silent,
      List.nil_append]
  · refine ⟨by rwa [lo], by rwa [hi], ?_, ?_, ?_, ?_, fun _ => idle'.staged⟩
    · rw [nlo, lo, countLo, idle.takenLo, idle'.takenLo]
    · rw [nhi, hi, countHi, idle.takenHi, idle'.takenHi]
    · intro drains
      cases idle'.draining _ drains
    · intro drains
      cases idle'.draining _ drains

/-- The check changes only whether the node is queued. -/
theorem queueCheckInsert_eq (node : Node Line) :
    ∃ queued, queueCheckInsert node = { node with queued := queued } := by
  unfold queueCheckInsert
  split
  · exact ⟨.inHeap, rfl⟩
  · exact ⟨node.queued, rfl⟩

/-- The heap is nothing to the lines. -/
theorem Node.Valid.requeue (valid : node.Valid compare level restLo restHi)
    (queued : Queued) :
    Node.Valid compare level { node with queued := queued } restLo restHi :=
  ⟨valid.sortedLo, valid.sortedHi, valid.countLo, valid.countHi, valid.onlyLo,
    valid.onlyHi, valid.direct⟩

/-- What a thread does hands on the lines in order. -/
theorem act_hands {phase : Phase Line}
    (valid : node.Valid compare level restLo restHi)
    (working : node.worker = some phase) (sorted : ¬ node.isSorting) :
    Hands compare level node restLo restHi
      (act compare (level == 1) node phase) := by
  match phase, working with
  | .sorting lo hi, working => exact absurd ⟨lo, hi, working⟩ sorted
  | .working .merging work, working => exact mergeTurn_hands valid working
  | .working .drainingLo work, working => exact drainLoTurn_hands valid working
  | .working .drainingHi work, working => exact drainHiTurn_hands valid working
  | .working .merged work, working => exact update_hands valid working
  | .updated, working =>
      obtain ⟨queued, inserted⟩ := queueCheckInsert_eq node
      simp only [act, inserted]
      exact (idle_of_worker working (.inr (.inl rfl))).hands _
        (idle_of_worker rfl (.inr (.inr rfl))) valid rfl rfl rfl rfl rfl
  | .checked, working =>
      exact (idle_of_worker working (.inr (.inr rfl))).hands _
        (idle_of_worker rfl (.inl rfl)) valid rfl rfl rfl rfl rfl

/-- So does a step of the node. -/
theorem NodeStep.hands {event : Event Line}
    (step : NodeStep compare totalLines level node event node')
    (valid : node.Valid compare level restLo restHi)
    (sorted : ¬ node.isSorting) :
    Hands compare level node restLo restHi (event, node') := by
  cases step with
  | pop queued => exact ⟨rfl, valid.requeue .popped⟩
  | lock popped unlocked =>
      refine (idle_of_worker unlocked (.inl rfl)).hands _ ?_ valid rfl rfl rfl rfl
        rfl
      refine ⟨rfl, rfl, rfl, ?_⟩
      rintro stage ⟨work, working⟩
      obtain ⟨rfl, -⟩ := Phase.working.inj (Option.some.inj working)
      rfl
  | act working => exact act_hands valid working sorted

end

/-! ## One step of a tree -/

section

variable {compare : Line → Line → Int}

/-- The lines as they lie in memory. -/
theorem stretch_load (lines : List Line) (fallback : Line)
    (skipped count : Nat) (fits : skipped + count ≤ lines.length) :
    stretch (load lines fallback) (-skipped) count =
      (lines.drop skipped).take count := by
  induction count generalizing skipped with
  | zero => simp [stretch]
  | succ count inductionHypothesis =>
      have inside : skipped < lines.length := by omega
      have rest := inductionHypothesis (skipped + 1) (by omega)
      have pointer : (-(skipped : Int)) - 1 = -((skipped + 1 : Nat) : Int) := by
        omega
      have first : load lines fallback (-((skipped + 1 : Nat) : Int)) =
          lines[skipped] := by
        have index : (-1 - -((skipped + 1 : Nat) : Int)).toNat = skipped := by
          omega
        rw [load, index, List.getD, List.getElem?_eq_getElem inside]
        rfl
      rw [stretch, pointer, first, rest, List.drop_eq_getElem_cons inside,
        List.take_succ_cons]

/-- `sequential_sort` sorts the two halves of a leaf. -/
theorem sortedHalves_eq (comparison : Comparison compare) (lo hi : List Line) :
    sortedHalves compare lo hi =
      (lo.mergeSort (precedes compare), hi.mergeSort (precedes compare)) := by
  unfold sortedHalves
  split
  next noLines =>
    obtain ⟨rfl, rfl⟩ := List.append_eq_nil_iff.mp noLines
    simp
  next line _ _ =>
    have both := sortLeaf_sorts comparison (load (lo ++ hi) line) 0
      (Nat.le_refl (lo.length + hi.length))
    have loaded : stretch (load (lo ++ hi) line) 0 lo.length = lo := by
      simpa using stretch_load (lo ++ hi) line 0 lo.length (by simp)
    have loadedHi : stretch (load (lo ++ hi) line) (0 - lo.length) hi.length =
        hi := by
      simpa using stretch_load (lo ++ hi) line lo.length hi.length (by simp)
    dsimp only
    rw [both.1, loaded, ← Int.zero_sub, both.2, loadedHi]

variable {totalLines level : Nat} {node node' : Node Line}
  {event event' : Event Line} {restLo restHi : List Line}

/-- In its loops `mergelines_node` takes lines, and only MERGE_ROOT's are
handed over one by one. -/
theorem turn_eq (root : Bool) (node : Node Line) {stage : Stage}
    (work : Work Line) (loops : stage ≠ .merged) :
    ∃ event lo hi stage' work', act compare root node (.working stage work) =
        (event, { node with
          lo := lo
          hi := hi
          worker := some (.working stage' work') }) ∧
      (event = .quiet ∨ root = true ∧ ∃ line, event = .publishes [line]) := by
  have delivered (line : Line) : (deliver root work line).1 = .quiet ∨
      root = true ∧ ∃ line', (deliver root work line).1 = .publishes [line'] := by
    cases root with
    | true => exact .inr ⟨rfl, line, rfl⟩
    | false => exact .inl rfl
  cases stage with
  | merging =>
      simp only [act, mergeTurn]
      split
      · split
        · exact ⟨_, _, _, _, _, rfl, .inl rfl⟩
        · split
          · exact ⟨_, _, _, _, _, rfl, delivered _⟩
          · exact ⟨_, _, _, _, _, rfl, delivered _⟩
      · exact ⟨_, _, _, _, _, rfl, .inl rfl⟩
  | drainingLo =>
      simp only [act, drainLoTurn]
      split
      · split
        · exact ⟨_, _, _, _, _, rfl, .inl rfl⟩
        · exact ⟨_, _, _, _, _, rfl, delivered _⟩
      · exact ⟨_, _, _, _, _, rfl, .inl rfl⟩
  | drainingHi =>
      simp only [act, drainHiTurn]
      split
      · split
        · exact ⟨_, _, _, _, _, rfl, .inl rfl⟩
        · exact ⟨_, _, _, _, _, rfl, delivered _⟩
      · exact ⟨_, _, _, _, _, rfl, .inl rfl⟩
  | merged => exact absurd rfl loops

/-- What an action does besides the lines. -/
theorem act_cases (compare : Line → Line → Int) (root : Bool)
    (node : Node Line) (phase : Phase Line) :
    (∃ lo hi, phase = .sorting lo hi)
      ∨ (∃ stage work event lo hi stage' work', phase = .working stage work ∧
        act compare root node phase = (event, { node with
          lo := lo
          hi := hi
          worker := some (.working stage' work') }) ∧
        (event = .quiet ∨ root = true ∧ ∃ line, event = .publishes [line]))
      ∨ (∃ work, phase = .working .merged work)
      ∨ phase = .updated ∨ phase = .checked := by
  match phase with
  | .sorting lo hi => exact .inl ⟨lo, hi, rfl⟩
  | .working stage work =>
      by_cases merged : stage = .merged
      · subst merged
        exact .inr (.inr (.inl ⟨work, rfl⟩))
      · obtain ⟨event, lo, hi, stage', work', acted, handed⟩ :=
          turn_eq root node work merged
        exact .inr (.inl ⟨stage, work, event, lo, hi, stage', work', rfl, acted,
          handed⟩)
  | .updated => exact .inr (.inr (.inr (.inl rfl)))
  | .checked => exact .inr (.inr (.inr (.inr rfl)))

theorem act_not_sorting (root : Bool) (node : Node Line) (phase : Phase Line) :
    ¬ (act compare root node phase).2.isSorting := by
  rintro ⟨lo, hi, sorting⟩
  rcases act_cases compare root node phase with
    ⟨_, _, rfl⟩ | ⟨_, _, _, _, _, _, _, -, acted, -⟩ | ⟨_, rfl⟩ | rfl | rfl
  · cases sorting
  · rw [acted] at sorting
    cases sorting
  · cases sorting
  · cases sorting
  · cases sorting

theorem NodeStep.not_sorting
    (step : NodeStep compare totalLines level node event node')
    (sorted : ¬ node.isSorting) : ¬ node'.isSorting := by
  cases step with
  | pop queued => exact sorted
  | lock popped unlocked =>
      rintro ⟨lo, hi, sorting⟩
      cases sorting
  | act working => exact act_not_sorting _ _ _

theorem unsortedLo_eq_nil (sorted : ¬ node.isSorting) :
    node.unsortedLo compare = [] := by
  unfold Node.unsortedLo
  split
  next lo hi sorting => exact absurd ⟨lo, hi, sorting⟩ sorted
  · rfl

theorem unsortedHi_eq_nil (sorted : ¬ node.isSorting) :
    node.unsortedHi compare = [] := by
  unfold Node.unsortedHi
  split
  next lo hi sorting => exact absurd ⟨lo, hi, sorting⟩ sorted
  · rfl

/-- What has been handed over is what there is less of in the tree. -/
def TreeHands (compare : Line → Line → Int) (level : Nat) (tree : Tree Line)
    (event : Event Line) (tree' : Tree Line) : Prop :=
  tree.rest compare = event.lines ++ tree'.rest compare ∧
    tree'.Valid compare level

theorem leaf_hands_of_sorted
    (step : NodeStep compare totalLines level node event node')
    (valid : (Tree.leaf node).Valid compare level)
    (sorted : ¬ node.isSorting) :
    TreeHands compare level (.leaf node) event (.leaf node') := by
  have sorted' := step.not_sorting sorted
  have hands := step.hands valid.1 sorted
  simp only [Hands, unsortedLo_eq_nil sorted, unsortedHi_eq_nil sorted]
    at hands
  simp only [TreeHands, Tree.rest, Tree.Valid, unsortedLo_eq_nil sorted,
    unsortedHi_eq_nil sorted, unsortedLo_eq_nil sorted',
    unsortedHi_eq_nil sorted']
  exact ⟨hands.1, hands.2, fun sorting => absurd sorting sorted'⟩

/-- The thread of a leaf sorts the halves. -/
theorem sorting_hands (comparison : Comparison compare) {lo hi : List Line}
    (worker : node.worker = some (.sorting lo hi))
    (valid : (Tree.leaf node).Valid compare level) :
    TreeHands compare level (.leaf node)
      (act compare (level == 1) node (.sorting lo hi)).1
      (.leaf (act compare (level == 1) node (.sorting lo hi)).2) := by
  obtain ⟨nodeValid, empty⟩ := valid
  obtain ⟨noLo, noHi⟩ := empty ⟨lo, hi, worker⟩
  obtain ⟨sortedLo, sortedHi, countLo, countHi, -, -, -⟩ := nodeValid
  simp only [Node.unsortedLo, Node.unsortedHi, Node.takenLo, Node.takenHi,
    worker, noLo, noHi, List.nil_append] at sortedLo sortedHi countLo countHi
  simp only [TreeHands, act, sortedHalves_eq comparison, Tree.rest, Node.rest,
    Tree.Valid, Node.unsortedLo, Node.unsortedHi, Node.staged, worker, noLo,
    noHi, Event.lines, List.nil_append, List.append_nil, true_and]
  refine ⟨⟨?_, ?_, ?_, ?_, ?_, ?_, fun _ => rfl⟩, ?_⟩
  · rwa [List.append_nil]
  · rwa [List.append_nil]
  · rwa [List.append_nil]
  · rwa [List.append_nil]
  · rintro ⟨_, same⟩
    cases same
  · rintro ⟨_, same⟩
    cases same
  · rintro ⟨_, _, same⟩
    cases same

/-- A step of a leaf hands on its lines in order. -/
theorem leaf_hands (comparison : Comparison compare)
    (step : NodeStep compare totalLines level node event node')
    (valid : (Tree.leaf node).Valid compare level) :
    TreeHands compare level (.leaf node) event (.leaf node') := by
  by_cases sorting : node.isSorting
  · obtain ⟨lo, hi, worker⟩ := sorting
    cases step with
    | pop queued => exact ⟨rfl, valid.1.requeue .popped, valid.2⟩
    | lock popped unlocked => cases unlocked.symm.trans worker
    | act working =>
        cases working.symm.trans worker
        exact sorting_hands comparison worker valid
  · exact leaf_hands_of_sorted step valid sorting

/-- What a node makes of an event of a child. -/
theorem fromChild_cases {published : List Line → Node Line}
    (received : fromChild published node event = some (node', event')) :
    ((event = .quiet ∨ event = .pops ∨ event = .returns) ∧ event' = event ∧
        node' = node)
      ∨ (∃ lines, event = .publishes lines ∧ event' = .quiet ∧
        node' = published lines)
      ∨ (event = .checksParent ∧ event' = .returns ∧ node.worker = none ∧
        node' = queueCheckInsert node) := by
  match event, received with
  | .quiet, received | .pops, received | .returns, received =>
      obtain ⟨rfl, rfl⟩ := Prod.mk.inj (Option.some.inj received)
      exact .inl ⟨by simp, rfl, rfl⟩
  | .publishes lines, received =>
      obtain ⟨rfl, rfl⟩ := Prod.mk.inj (Option.some.inj received)
      exact .inr (.inl ⟨lines, rfl, rfl, rfl⟩)
  | .checksParent, received =>
      rw [fromChild] at received
      split at received
      next unlocked =>
        obtain ⟨rfl, rfl⟩ := Prod.mk.inj (Option.some.inj received)
        exact .inr (.inr ⟨rfl, rfl, Option.isNone_iff_eq_none.mp unlocked, rfl⟩)
      · cases received

/-- The lines of the lower child go behind those on the lower side. -/
theorem fromLo_eq (received : fromLo node event = some (node', event')) :
    event'.lines = [] ∧ ∃ queued,
      node' = { node with lo := node.lo ++ event.lines, queued := queued } := by
  rcases fromChild_cases received with
    ⟨rfl | rfl | rfl, rfl, rfl⟩ | ⟨lines, rfl, rfl, rfl⟩ | ⟨rfl, rfl, -, rfl⟩
  · exact ⟨rfl, _, by rw [Event.lines, List.append_nil]; exact nofun⟩
  · exact ⟨rfl, _, by rw [Event.lines, List.append_nil]; exact nofun⟩
  · exact ⟨rfl, _, by rw [Event.lines, List.append_nil]; exact nofun⟩
  · exact ⟨rfl, _, rfl⟩
  · obtain ⟨queued, inserted⟩ := queueCheckInsert_eq node
    exact ⟨rfl, queued, by simp [inserted, Event.lines]⟩

/-- Those of the upper child go behind those on the upper side. -/
theorem fromHi_eq (received : fromHi node event = some (node', event')) :
    event'.lines = [] ∧ ∃ queued,
      node' = { node with hi := node.hi ++ event.lines, queued := queued } := by
  rcases fromChild_cases received with
    ⟨rfl | rfl | rfl, rfl, rfl⟩ | ⟨lines, rfl, rfl, rfl⟩ | ⟨rfl, rfl, -, rfl⟩
  · exact ⟨rfl, _, by rw [Event.lines, List.append_nil]; exact nofun⟩
  · exact ⟨rfl, _, by rw [Event.lines, List.append_nil]; exact nofun⟩
  · exact ⟨rfl, _, by rw [Event.lines, List.append_nil]; exact nofun⟩
  · exact ⟨rfl, _, rfl⟩
  · obtain ⟨queued, inserted⟩ := queueCheckInsert_eq node
    exact ⟨rfl, queued, by simp [inserted, Event.lines]⟩

/-- Lines that come in are lines that were to come. -/
theorem Node.Valid.receiveLo {lines : List Line} (queued : Queued)
    (valid : node.Valid compare level (lines ++ restLo) restHi) :
    Node.Valid compare level
      { node with lo := node.lo ++ lines, queued := queued } restLo restHi := by
  obtain ⟨sortedLo, sortedHi, countLo, countHi, onlyLo, onlyHi, direct⟩ := valid
  rw [← List.append_assoc] at sortedLo countLo onlyHi
  exact ⟨sortedLo, sortedHi, countLo, countHi, onlyLo, onlyHi, direct⟩

theorem Node.Valid.receiveHi {lines : List Line} (queued : Queued)
    (valid : node.Valid compare level restLo (lines ++ restHi)) :
    Node.Valid compare level
      { node with hi := node.hi ++ lines, queued := queued } restLo restHi := by
  obtain ⟨sortedLo, sortedHi, countLo, countHi, onlyLo, onlyHi, direct⟩ := valid
  rw [← List.append_assoc] at sortedHi countHi onlyLo
  exact ⟨sortedLo, sortedHi, countLo, countHi, onlyLo, onlyHi, direct⟩

/-- The step lemma. -/
theorem Step.hands (comparison : Comparison compare) {tree tree' : Tree Line}
    (step : Step compare totalLines level tree event tree')
    (valid : tree.Valid compare level) :
    TreeHands compare level tree event tree' := by
  induction step with
  | leaf step => exact leaf_hands comparison step valid
  | fork step =>
      obtain ⟨nodeValid, sorted, validLo, validHi⟩ := valid
      obtain ⟨handed, nodeValid'⟩ := step.hands nodeValid sorted
      exact ⟨handed, nodeValid', step.not_sorting sorted, validLo, validHi⟩
  | lo step received inductionHypothesis =>
      obtain ⟨nodeValid, sorted, validLo, validHi⟩ := valid
      obtain ⟨handed, validLo'⟩ := inductionHypothesis validLo
      obtain ⟨silent, queued, rfl⟩ := fromLo_eq received
      rw [handed] at nodeValid
      refine ⟨?_, nodeValid.receiveLo queued, sorted, validLo', validHi⟩
      simp only [Tree.rest, Node.rest, handed, silent, List.append_assoc]
      rfl
  | hi step received inductionHypothesis =>
      obtain ⟨nodeValid, sorted, validLo, validHi⟩ := valid
      obtain ⟨handed, validHi'⟩ := inductionHypothesis validHi
      obtain ⟨silent, queued, rfl⟩ := fromHi_eq received
      rw [handed] at nodeValid
      refine ⟨?_, nodeValid.receiveHi queued, sorted, validLo, validHi'⟩
      simp only [Tree.rest, Node.rest, handed, silent, List.append_assoc]
      rfl

/-! ## Every run -/

/-- A leaf at the start. -/
theorem initLeaf_valid (comparison : Comparison compare) (level : Nat)
    (lo hi : List Line) :
    (Tree.leaf (initLeaf lo hi)).Valid compare level := by
  have sortedLo := sorted_mergeSort comparison.ordering lo
  have sortedHi := sorted_mergeSort comparison.ordering hi
  refine ⟨⟨sortedLo, sortedHi, ?_, ?_, ?_, ?_, fun _ => rfl⟩,
    fun _ => ⟨rfl, rfl⟩⟩
  · simp [initLeaf, initNode, Node.takenLo, Node.unsortedLo]
  · simp [initLeaf, initNode, Node.takenHi, Node.unsortedHi]
  · rintro ⟨_, same⟩
    cases same
  · rintro ⟨_, same⟩
    cases same

/-- It has the merge of its sorted halves to hand up. -/
theorem rest_initLeaf (lo hi : List Line) :
    (Tree.leaf (initLeaf lo hi)).rest compare =
      (lo.mergeSort (precedes compare)).merge (hi.mergeSort (precedes compare))
        (precedes compare) := rfl

/-- In the beginning everything is yet to come, in order. -/
theorem sortlines_valid (comparison : Comparison compare)
    (creates : List Bool → Bool) (path : List Bool) (nthreads : Nat)
    (lines : List Line) (level : Nat) :
    (sortlines creates path nthreads lines).Valid compare level ∧
      (sortlines creates path nthreads lines).rest compare =
        lines.mergeSort (precedes compare) := by
  induction path, nthreads, lines using sortlines.induct creates
    generalizing level with
  | case1 path nthreads lines nlo forks loHypothesis hiHypothesis =>
      obtain ⟨validLo, restLo⟩ := loHypothesis (level + 1)
      obtain ⟨validHi, restHi⟩ := hiHypothesis (level + 1)
      have merged : (sortlines creates path nthreads lines).rest compare =
          lines.mergeSort (precedes compare) := by
        rw [sortlines, if_pos forks, Tree.rest, restLo, restHi]
        simp only [Node.rest, Node.staged, initNode, List.nil_append]
        rw [← mergeSort_append comparison.ordering, List.take_append_drop]
      refine ⟨?_, merged⟩
      rw [sortlines, if_pos forks]
      refine ⟨⟨?_, ?_, ?_, ?_, ?_, ?_, fun _ => rfl⟩, ?_, validLo, validHi⟩
      · rw [restLo]
        exact sorted_mergeSort comparison.ordering _
      · rw [restHi]
        exact sorted_mergeSort comparison.ordering _
      · rw [restLo, initNode, List.nil_append, List.length_mergeSort,
          List.length_take]
        simp only [Node.takenLo]
        omega
      · rw [restHi, initNode, List.nil_append, List.length_mergeSort,
          List.length_drop]
        simp only [Node.takenHi]
        omega
      · rintro ⟨_, same⟩
        cases same
      · rintro ⟨_, same⟩
        cases same
      · rintro ⟨_, _, same⟩
        cases same
  | case2 path nthreads lines stays =>
      rw [sortlines, if_neg stays]
      refine ⟨initLeaf_valid comparison level _ _, ?_⟩
      rw [rest_initLeaf, ← mergeSort_append comparison.ordering,
        List.take_append_drop]

/-! ## The output -/

/-- Lines are written in two steps. -/
theorem writeLines_append (unique : Bool) (saved : Option Line)
    (lines lines' : List Line) :
    writeLines compare unique saved (lines ++ lines') =
      ((writeLines compare unique
          (writeLines compare unique saved lines).1 lines').1,
        (writeLines compare unique saved lines).2 ++
          (writeLines compare unique
            (writeLines compare unique saved lines).1 lines').2) := by
  induction lines generalizing saved with
  | nil => rfl
  | cons line lines inductionHypothesis =>
      simp only [List.cons_append, writeLines, inductionHypothesis,
        List.append_assoc]

/-- Without `-u` all of them are. -/
theorem writeLines_all (saved : Option Line) (lines : List Line) :
    writeLines compare false saved lines = (saved, lines) := by
  induction lines with
  | nil => rfl
  | cons line lines inductionHypothesis =>
      simp [writeLines, writeUnique, inductionHypothesis]

/-- With `-u` the first of equal lines is. -/
theorem writeLines_unique (comparison : Comparison compare) (saved : Line)
    (lines : List Line) :
    (writeLines compare true (some saved) lines).2 =
      firstsAfter (precedes compare) saved lines := by
  induction lines generalizing saved with
  | nil => rfl
  | cons line lines inductionHypothesis =>
      have swap := comparison.swap saved line
      by_cases same : compare line saved = 0
      · have zero : compare saved line = 0 := by
          rw [same, Int.sign_zero, eq_comm, Int.neg_eq_zero] at swap
          exact Int.sign_eq_zero_iff_zero.mp swap
        simp [writeLines, writeUnique, firstsAfter, same, inductionHypothesis,
          (comparison.alike_iff saved line).mpr zero]
      · have other : ¬ alike (precedes compare) saved line = true := by
          intro alike
          rw [(comparison.alike_iff saved line).mp alike] at swap
          exact same (by simpa using swap)
        simp [writeLines, writeUnique, firstsAfter, same, inductionHypothesis,
          other]

/-- What `sort` is to write for the lines of a buffer. -/
def sortedLines (compare : Line → Line → Int) (unique : Bool)
    (lines : List Line) : List Line :=
  let sorted := lines.mergeSort (precedes compare)
  if unique then firsts (precedes compare) sorted else sorted

/-- What is written of all lines is their sort. -/
theorem writeLines_sorted (comparison : Comparison compare) (unique : Bool)
    (lines : List Line) :
    (writeLines compare unique none (lines.mergeSort (precedes compare))).2 =
      sortedLines compare unique lines := by
  cases unique with
  | false => rw [writeLines_all]; rfl
  | true =>
      simp only [sortedLines, if_true]
      cases lines.mergeSort (precedes compare) with
      | nil => rfl
      | cons line rest =>
          simp [writeLines, writeUnique, firsts,
            writeLines_unique comparison]

theorem act_checksParent {root : Bool} {phase : Phase Line}
    (checks : (act compare root node phase).1 = .checksParent) :
    phase = .checked := by
  rcases act_cases compare root node phase with
    ⟨_, _, rfl⟩ | ⟨_, _, _, _, _, _, _, -, acted, handed⟩ | ⟨_, rfl⟩ | rfl | rfl
  · cases checks
  · rw [acted] at checks
    obtain rfl := checks
    rcases handed with quiet | ⟨-, _, published⟩
    · cases quiet
    · cases published
  · cases checks
  · cases checks
  · rfl

theorem NodeStep.checksParent
    (step : NodeStep compare totalLines level node event node')
    (checks : event = .checksParent) :
    node.worker = some .checked ∧ node' = { node with worker := none } := by
  cases step with
  | pop queued => cases checks
  | lock popped unlocked => cases checks
  | act working =>
      obtain rfl := act_checksParent checks
      exact ⟨working, rfl⟩

theorem fromChild_ne_checksParent {published : List Line → Node Line}
    (received : fromChild published node event = some (node', event')) :
    event' ≠ .checksParent := by
  rcases fromChild_cases received with
    ⟨rfl | rfl | rfl, rfl, -⟩ | ⟨_, -, rfl, -⟩ | ⟨-, rfl, -, -⟩ <;> exact nofun

/-- Only the uppermost node reaches beyond its tree. -/
theorem Step.checksParent {tree tree' : Tree Line}
    (step : Step compare totalLines level tree event tree')
    (checks : event = .checksParent) :
    tree.node.worker = some .checked ∧
      tree'.node = { tree.node with worker := none } := by
  cases step with
  | leaf step => exact step.checksParent checks
  | fork step => exact step.checksParent checks
  | lo _ received => exact absurd checks (fromChild_ne_checksParent received)
  | hi _ received => exact absurd checks (fromChild_ne_checksParent received)

/-- Nothing is lost, nothing is written twice, and MERGE_END comes last. -/
structure System.Valid (compare : Line → Line → Int) (unique : Bool)
    (lines : List Line) (system : System Line) : Prop where
  tree : system.tree.Valid compare 1
  output : system.output ++ (writeLines compare unique system.saved
      (system.tree.rest compare)).2 = sortedLines compare unique lines
  ended : system.ended = true → system.tree.rest compare = []

/-- A node that is finished has nothing left. -/
theorem Node.Valid.rest_eq_nil (valid : node.Valid compare level restLo restHi)
    (unlocked : node.worker = none) (finished : node.nlo + node.nhi = 0) :
    node.rest compare restLo restHi = [] := by
  obtain ⟨-, -, countLo, countHi, -, -, -⟩ := valid
  have noLo : node.lo ++ restLo = [] :=
    List.eq_nil_of_length_eq_zero (by omega)
  have noHi : node.hi ++ restHi = [] :=
    List.eq_nil_of_length_eq_zero (by omega)
  simp [Node.rest, Node.staged, unlocked, noLo, noHi]

/-- MERGE_ROOT has finished merging only when the whole tree has. -/
theorem Tree.Valid.rest_eq_nil {tree : Tree Line}
    (valid : tree.Valid compare level) (unlocked : tree.node.worker = none)
    (finished : rootFinished tree = true) : tree.rest compare = [] := by
  have zero : tree.node.nlo + tree.node.nhi = 0 := beq_iff_eq.mp finished
  cases tree with
  | leaf node => exact valid.1.rest_eq_nil unlocked zero
  | fork node lo hi => exact valid.1.rest_eq_nil unlocked zero

/-- A step that hands nothing over. -/
theorem System.Valid.silent {unique : Bool} {lines : List Line}
    {system : System Line} (valid : system.Valid compare unique lines)
    {tree : Tree Line} (ended : Bool) (waiting : Nat)
    (hands : TreeHands compare 1 system.tree event tree)
    (silent : event.lines = [])
    (finished : ended = true →
      system.ended = true ∨ tree.rest compare = []) :
    System.Valid compare unique lines
      { system with tree := tree, ended := ended, waiting := waiting } := by
  obtain ⟨handed, validTree⟩ := hands
  rw [silent, List.nil_append] at handed
  refine ⟨validTree, by rw [← handed]; exact valid.output, fun isEnded => ?_⟩
  rcases finished isEnded with already | nothing
  · rw [← handed]
    exact valid.ended already
  · exact nothing

/-- A step of the system keeps what is written and what is left together. -/
theorem SystemStep.valid (comparison : Comparison compare) {unique : Bool}
    {lines : List Line} {system system' : System Line}
    (step : SystemStep compare unique totalLines system system')
    (valid : system.Valid compare unique lines) :
    system'.Valid compare unique lines := by
  cases step with
  | quiet step =>
      exact valid.silent _ _ (step.hands comparison valid.tree) rfl .inl
  | pops step waits =>
      exact valid.silent _ _ (step.hands comparison valid.tree) rfl .inl
  | returns step =>
      exact valid.silent _ _ (step.hands comparison valid.tree) rfl .inl
  | publishes step =>
      obtain ⟨handed, validTree⟩ := step.hands comparison valid.tree
      refine ⟨validTree, ?_, fun isEnded => ?_⟩
      · have output := valid.output
        rw [handed, Event.lines, writeLines_append] at output
        rwa [List.append_assoc]
      · have noneHanded := valid.ended isEnded
        rw [handed] at noneHanded
        exact (List.append_eq_nil_iff.mp noneHanded).2
  | checksParent step =>
      have hands := step.hands comparison valid.tree
      refine valid.silent _ _ hands rfl fun isEnded => ?_
      rcases Bool.or_eq_true_iff.mp isEnded with already | finished
      · exact .inl already
      · refine .inr (hands.2.rest_eq_nil ?_ finished)
        rw [(step.checksParent rfl).2]
  | ends ended waits => exact ⟨valid.tree, valid.output, valid.ended⟩

/-- So it is in every state that is reached. -/
theorem reachable_valid (comparison : Comparison compare) {unique : Bool}
    (creates : List Bool → Bool) (nthreads : Nat) (lines : List Line)
    {system : System Line}
    (reached : Reachable compare unique totalLines
      (sortlines creates [] nthreads lines) system) :
    system.Valid compare unique lines := by
  induction reached with
  | refl =>
      obtain ⟨valid, rest⟩ :=
        sortlines_valid comparison creates [] nthreads lines 1
      refine ⟨valid, ?_, fun isEnded => nomatch isEnded⟩
      rw [initSystem, rest, writeLines_sorted comparison]
      rfl
  | tail _ step inductionHypothesis =>
      exact step.valid comparison inductionHypothesis

/-- However the threads take turns, wherever `pthread_create` fails, the output
is the beginning of the stable sort, and all of it once MERGE_END is reached. -/
theorem sortlines_output (comparison : Comparison compare) {unique : Bool}
    (creates : List Bool → Bool) (nthreads : Nat) (lines : List Line)
    {system : System Line}
    (reached : Reachable compare unique totalLines
      (sortlines creates [] nthreads lines) system) :
    system.output <+: sortedLines compare unique lines ∧
      (system.ended = true →
        system.output = sortedLines compare unique lines) := by
  have valid := reachable_valid comparison creates nthreads lines reached
  refine ⟨⟨_, valid.output⟩, fun isEnded => ?_⟩
  have output := valid.output
  rwa [valid.ended isEnded, writeLines, List.append_nil] at output

end

/-- Twice as many lines as the argument in either half, the greater ones in
front. -/
def halves (n : Nat) : List Int :=
  List.replicate (n + n) 2 ++ List.replicate (n + n) 1

/-- Half of the lines, for one thread. -/
def halfLeaf (n : Nat) (line : Int) : Tree Int :=
  .leaf (initLeaf (List.replicate n line) (List.replicate n line))

/-- A half of equal lines is one leaf. -/
theorem sortlines_half (path : List Bool) (n : Nat) (line : Int) :
    sortlines (fun _ => true) path 1 (List.replicate (n + n) line) =
      halfLeaf n line := by
  have half : (n + n) / 2 = n := by omega
  rw [sortlines, if_neg fun forks => absurd forks.1 (by decide),
    List.length_replicate, half, List.take_replicate, List.drop_replicate,
    Nat.min_eq_left (Nat.le_add_left n n), Nat.add_sub_cancel, halfLeaf]

/-- Two threads sort the halves, if there are enough lines. -/
theorem sortlines_halves {n : Nat} (enough : subthreadLines ≤ 4 * n) :
    sortlines (fun _ => true) [] 2 (halves n) =
      .fork (initNode (n + n) (n + n)) (halfLeaf n 2) (halfLeaf n 1) := by
  have length : (halves n).length = n + n + (n + n) := by
    rw [halves, List.length_append, List.length_replicate,
      List.length_replicate]
  have half : (halves n).length / 2 = n + n := by omega
  have rest : (halves n).length - (n + n) = n + n := by omega
  have front : (List.replicate (n + n) (2 : Int)).length = n + n :=
    List.length_replicate
  rw [sortlines, if_pos ⟨by decide, by omega, rfl⟩, half, rest, halves,
    List.take_left' front, List.drop_left' front, sortlines_half,
    sortlines_half]

/-- A thread has sorted its leaf. -/
theorem halfLeaf_returns (compare : Int → Int → Int) (totalLines level n : Nat)
    (line : Int) :
    ∃ leaf, Step compare totalLines level (halfLeaf n line) .returns leaf :=
  ⟨_, .leaf (@NodeStep.act _ compare totalLines level
    (initLeaf (List.replicate n line) (List.replicate n line))
    (.sorting (List.replicate n line) (List.replicate n line)) rfl)⟩

/-- The second of two threads has sorted its half before the first one, and
now both wait for the queue. -/
theorem sortlines_output_halves :
    ∃ system, Reachable (fun first second : Int => first - second) false
        (2 ^ 17) (sortlines (fun _ => true) [] 2 (halves (2 ^ 15))) system ∧
      system.waiting = 2 ∧
      system.output <+: sortedLines (fun first second : Int => first - second)
        false (halves (2 ^ 15)) := by
  have both : ∃ system, Reachable (fun first second : Int => first - second)
      false (2 ^ 17) (sortlines (fun _ => true) [] 2 (halves (2 ^ 15)))
      system ∧ system.waiting = 2 := by
    rw [sortlines_halves (by decide)]
    obtain ⟨hi, second⟩ := halfLeaf_returns
      (fun first second : Int => first - second) (2 ^ 17) 2 (2 ^ 15) 1
    obtain ⟨lo, first⟩ := halfLeaf_returns
      (fun first second : Int => first - second) (2 ^ 17) 2 (2 ^ 15) 2
    exact ⟨_, (Relation.ReflTransGen.single
      (.returns (.hi second rfl))).tail (.returns (.lo first rfl)), rfl⟩
  obtain ⟨system, reached, waiting⟩ := both
  exact ⟨system, reached, waiting, (sortlines_output comparison_sub
    (fun _ => true) 2 (halves (2 ^ 15)) reached).1⟩

end Lmcas.SortThreads
