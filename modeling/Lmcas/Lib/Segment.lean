import Mathlib.Logic.Function.Basic
import Mathlib.Tactic.Common

/-!
# Arrays behind a pointer

Memory as a function of the address, and arrays that grow downwards: the array
with the pointer `top` has its first item at `top - 1`.
-/

namespace Lmcas.Lib.Segment

variable {Item : Type}

/-- What each address holds. -/
abbrev Memory (Item : Type) := Int → Item

/-- An item is written at an address. -/
def write (memory : Memory Item) (address : Int) (item : Item) :
    Memory Item :=
  Function.update memory address item

@[simp]
theorem write_self (memory : Memory Item) (address : Int) (item : Item) :
    write memory address item address = item :=
  Function.update_self ..

theorem write_of_ne {memory : Memory Item} {address other : Int} {item : Item}
    (apart : other ≠ address) :
    write memory address item other = memory other :=
  Function.update_of_ne apart ..

/-- The first items of the array that ends in front of `top`. -/
def stretch (memory : Memory Item) (top : Int) : Nat → List Item
  | 0 => []
  | count + 1 => memory (top - 1) :: stretch memory (top - 1) count

@[simp]
theorem length_stretch (memory : Memory Item) (top : Int) (count : Nat) :
    (stretch memory top count).length = count := by
  induction count generalizing top with
  | zero => rfl
  | succ count inductionHypothesis =>
      rw [stretch, List.length_cons, inductionHypothesis]

/-- A longer stretch is a stretch and the one below it. -/
theorem stretch_add (memory : Memory Item) (top : Int) (count more : Nat) :
    stretch memory top (count + more) =
      stretch memory top count ++ stretch memory (top - count) more := by
  induction count generalizing top with
  | zero => simp [stretch]
  | succ count inductionHypothesis =>
      rw [Nat.succ_add, stretch, stretch, inductionHypothesis,
        List.cons_append]
      congr 3
      omega

/-- Nothing has been written but at addresses of the region. -/
def Only (region : Int → Prop) (memory memory' : Memory Item) : Prop :=
  ∀ address, ¬ region address → memory' address = memory address

/-- The addresses of the array. -/
def span (top : Int) (count : Nat) (address : Int) : Prop :=
  top - count ≤ address ∧ address < top

section

variable {memory memory' memory'' : Memory Item} {region region' : Int → Prop}

/-- A stretch depends on its own addresses. -/
theorem stretch_congr {top : Int} {count : Nat}
    (same : ∀ address, span top count address →
      memory' address = memory address) :
    stretch memory' top count = stretch memory top count := by
  induction count generalizing top with
  | zero => rfl
  | succ count inductionHypothesis =>
      rw [stretch, stretch, same (top - 1) (by rw [span]; omega)]
      congr 1
      refine inductionHypothesis fun address inside => same address ?_
      rw [span] at inside ⊢
      omega

/-- A stretch outside the region is as it was. -/
theorem Only.stretch (only : Only region memory memory') {top : Int}
    {count : Nat} (apart : ∀ address, span top count address →
      ¬ region address) :
    stretch memory' top count = Lib.Segment.stretch memory top count :=
  stretch_congr fun address inside => only address (apart address inside)

theorem only_refl (region : Int → Prop) (memory : Memory Item) :
    Only region memory memory :=
  fun _ _ => rfl

theorem only_write {address : Int} {item : Item} (inside : region address) :
    Only region memory (write memory address item) := by
  intro other outside
  exact write_of_ne fun same => outside (same ▸ inside)

theorem Only.widen (only : Only region memory memory')
    (wider : ∀ address, region address → region' address) :
    Only region' memory memory' := by
  intro address outside
  exact only address fun inside => outside (wider address inside)

/-- Two changes inside a region are one. -/
theorem Only.trans (only : Only region memory memory')
    (only' : Only region memory' memory'') : Only region memory memory'' := by
  intro address outside
  rw [only' address outside, only address outside]

end

end Lmcas.Lib.Segment
