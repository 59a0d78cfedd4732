import Mathlib.Tactic.Common

/-!
# Results of fallible functions

A run in `Except` that has come through has come through in each of its parts.
-/

namespace Lmcas.Lib.Fallible

variable {Error Value Value' : Type}

/-- A mapped value comes from a value. -/
theorem map_eq_ok_iff {f : Value → Value'} {result : Except Error Value}
    {value' : Value'} :
    result.map f = .ok value' ↔ ∃ value, result = .ok value ∧ f value = value' := by
  cases result <;> simp [Except.map]

/-- A sequence succeeds when both of its parts do. -/
theorem bind_eq_ok_iff {f : Value → Except Error Value'}
    {result : Except Error Value} {value' : Value'} :
    (result >>= f) = .ok value' ↔
      ∃ value, result = .ok value ∧ f value = .ok value' := by
  cases result <;> simp [bind, Except.bind]

end Lmcas.Lib.Fallible
