import Keyring.Crypto.Modular
import Mathlib.Data.Int.GCD
import Mathlib.Data.Int.ModEq
import Mathlib.Tactic.Ring

/-!
# Inverses

The extended Euclidean algorithm keeps two numbers with a multiple of the first residue that each of
them is. So the inverse that it ends with is one, and it ends with one for every number that has no
divisor in common with the modulus.
-/
namespace Keyring.Modular

/-- The algorithm ends with the greatest common divisor, as a multiple of the residue that both
numbers are multiples of. -/
theorem bezout_spec {m residue : ℤ} {a b : ℕ} {x y : ℤ} (hx : x * residue ≡ a [ZMOD m])
    (hy : y * residue ≡ b [ZMOD m]) :
    (bezout a b x y).1 = a.gcd b ∧ (bezout a b x y).2 * residue ≡ a.gcd b [ZMOD m] := by
  fun_induction bezout a b x y with
  | case1 a x y => simpa using hx
  | case2 a b x y ih =>
    have hrest : (x - a / (b + 1 : ℤ) * y) * residue ≡ (a % (b + 1) : ℕ) [ZMOD m] := by
      have hdiff := hx.sub (hy.mul_left (a / (b + 1 : ℤ)))
      have hmod : (a : ℤ) - a / (b + 1 : ℤ) * (b + 1 : ℕ) = (a % (b + 1) : ℕ) := by
        push_cast
        rw [Int.emod_def]
        ring
      rw [hmod] at hdiff
      convert hdiff using 1
      ring
    have hgcd : a.gcd (b + 1) = (b + 1).gcd (a % (b + 1)) := by
      rw [Nat.gcd_comm, Nat.gcd_rec, Nat.gcd_comm]
    rw [hgcd]
    exact ih hy hrest

/-- A number without a divisor in common with the modulus has an inverse, and it is one. -/
theorem exists_inverse? {m a : ℕ} (hm : 0 < m) (h : a.gcd m = 1) :
    ∃ i, inverse? m a = some i ∧ (i * a : ℤ) ≡ 1 [ZMOD m] := by
  have hx : (1 : ℤ) * a ≡ (a % m : ℕ) [ZMOD m] := by
    rw [one_mul, Int.natCast_mod]
    exact (Int.mod_modEq a m).symm
  have hy : (0 : ℤ) * a ≡ (m : ℕ) [ZMOD m] := by
    rw [zero_mul]
    exact (Int.modEq_zero_iff_dvd.2 (dvd_refl _)).symm
  obtain ⟨hdivisor, hinverse⟩ := bezout_spec hx hy
  have hone : (a % m).gcd m = 1 := by
    rw [← Nat.gcd_rec, Nat.gcd_comm, h]
  rw [hone] at hdivisor hinverse
  have hresidue : ((((bezout (a % m) m 1 0).2 % m).toNat : ℕ) : ℤ) =
      (bezout (a % m) m 1 0).2 % m :=
    Int.toNat_of_nonneg (Int.emod_nonneg _ (by omega))
  refine ⟨((bezout (a % m) m 1 0).2 % m).toNat, ?_, ?_⟩
  · simp only [inverse?, hdivisor, if_true]
  · rw [hresidue]
    exact ((Int.mod_modEq _ _).mul_right _).trans hinverse

end Keyring.Modular
