import Keyring.Retry
import Mathlib.Data.Nat.Notation

/-!
# Pauses that can be computed

A policy gives a pause before a retry unless the pause is longer than any duration. As the exponent
stops growing, only the first 65 pauses of a policy can differ.
-/
namespace Keyring.RetryPolicy

/-- The pauses before the first retries can be computed, up to that one. -/
def DefinedTo (policy : RetryPolicy) (last : ℕ) : Prop :=
  ∀ i, 1 ≤ i → i ≤ last → (policy.delay? i).isSome = true

/-- From the 65th on, all pauses are the same. -/
theorem delay?_of_le (policy : RetryPolicy) {i : ℕ} (h : 65 ≤ i) :
    policy.delay? i = policy.delay? 65 := by
  have hexponent : min (i - 1) 64 = min (65 - 1) 64 := by omega
  rw [delay?, delay?, if_neg (by omega), if_neg (by omega), hexponent]

/-- If the first 65 pauses can be computed, so can all. -/
theorem definedTo_of_first {policy : RetryPolicy}
    (h : ∀ i, i < 66 → (policy.delay? i).isSome = true) (last : ℕ) : policy.DefinedTo last := by
  intro i _ _
  by_cases hfirst : i < 66
  · exact h i hfirst
  · rw [delay?_of_le policy (by omega)]
    exact h 65 (by decide)

theorem definedTo_standard (last : ℕ) : standard.DefinedTo last :=
  definedTo_of_first (by decide +kernel) last

end Keyring.RetryPolicy
