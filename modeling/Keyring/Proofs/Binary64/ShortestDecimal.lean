import Keyring.Binary64.Shortest
import Keyring.Proofs.Binary64.Rounding

/-!
# Bounds on shortest decimals

A shortest decimal has at most seventeen digits, and it lies among the reals that round to the
number it stands for.
-/
namespace Keyring.Binary64

theorem ten_zpow_eq (k : ℤ) : (10 : ℚ) ^ k = (10 ^ k.toNat : ℕ) / (10 ^ (-k).toNat : ℕ) := by
  by_cases hk : 0 ≤ k
  · obtain ⟨j, rfl⟩ := Int.eq_ofNat_of_zero_le hk
    simp
  · obtain ⟨j, hj⟩ := Int.eq_ofNat_of_zero_le (show 0 ≤ -k by omega)
    have hkj : k = -(j : ℤ) := by omega
    subst hkj
    simp

theorem two_zpow_eq (k : ℤ) : (2 : ℚ) ^ k = (2 ^ k.toNat : ℕ) / (2 ^ (-k).toNat : ℕ) := by
  by_cases hk : 0 ≤ k
  · obtain ⟨j, rfl⟩ := Int.eq_ofNat_of_zero_le hk
    simp
  · obtain ⟨j, hj⟩ := Int.eq_ofNat_of_zero_le (show 0 ≤ -k by omega)
    have hkj : k = -(j : ℤ) := by omega
    subst hkj
    simp

def Decimal10.value (d : Decimal10) : ℚ := d.coefficient * 10 ^ d.exponent

namespace Decimal10

/-- Normalizing keeps the value. -/
theorem value_normalize (c : ℕ) (k : ℤ) : (normalize c k).value = c * 10 ^ k := by
  fun_induction normalize c k with
  | case1 c k h ih =>
    have hc : (c : ℚ) = (c / 10 : ℕ) * 10 := by
      have : c = c / 10 * 10 := by omega
      exact_mod_cast this
    rw [ih, hc, zpow_add₀ (by norm_num)]
    ring
  | case2 c k h => rfl

theorem coefficient_normalize_le (c : ℕ) (k : ℤ) : (normalize c k).coefficient ≤ c := by
  fun_induction normalize c k with
  | case1 c k h ih => omega
  | case2 c k h => exact Nat.le_refl c

theorem coefficient_normalize_ne_zero {c : ℕ} (hc : c ≠ 0) (k : ℤ) :
    (normalize c k).coefficient ≠ 0 := by
  fun_induction normalize c k with
  | case1 c k h ih => exact ih (by omega)
  | case2 c k h => exact hc

end Decimal10

namespace RoundingInterval

variable {i : RoundingInterval}

theorem contains_le {num den : ℕ} (h : i.contains num den = true) :
    num * i.den ≤ i.high * den := by
  unfold contains at h
  split at h
  · simp only [Bool.and_eq_true, decide_eq_true_eq] at h
    exact h.2
  · simp only [Bool.and_eq_true, decide_eq_true_eq] at h
    exact h.2.le

theorem le_contains {num den : ℕ} (h : i.contains num den = true) :
    i.low * den ≤ num * i.den := by
  unfold contains at h
  split at h
  · simp only [Bool.and_eq_true, decide_eq_true_eq] at h
    exact h.1
  · simp only [Bool.and_eq_true, decide_eq_true_eq] at h
    exact h.1.le

/-- A grid point lies in the interval and is one of the two neighbours of the value. -/
theorem gridPoint?_spec {unit : ℤ} {c : ℕ} (h : i.gridPoint? unit = some c) :
    i.contains (c * 10 ^ unit.toNat) (10 ^ (-unit).toNat) = true ∧
      c ≤ i.value * 10 ^ (-unit).toNat / (i.den * 10 ^ unit.toNat) + 1 := by
  unfold gridPoint? at h
  simp only [Nat.pow_eq] at h
  obtain ⟨floor, hfloor⟩ : ∃ floor, floor =
      i.value * 10 ^ (-unit).toNat / (i.den * 10 ^ unit.toNat) := ⟨_, rfl⟩
  rw [← hfloor] at h ⊢
  have hcases : (i.contains (floor * 10 ^ unit.toNat) (10 ^ (-unit).toNat) = true ∧ c = floor) ∨
      (i.contains ((floor + 1) * 10 ^ unit.toNat) (10 ^ (-unit).toNat) = true ∧ c = floor + 1) := by
    grind
  rcases hcases with ⟨hin, rfl⟩ | ⟨hin, rfl⟩
  · exact ⟨hin, Nat.le_succ c⟩
  · exact ⟨hin, Nat.le_refl _⟩

/-- A grid point does not pass the upper end. -/
theorem gridPoint?_le (hden : 0 < i.den) {unit : ℤ} {c : ℕ} (h : i.gridPoint? unit = some c) :
    (c : ℚ) * 10 ^ unit ≤ i.high / i.den := by
  have hle := contains_le (gridPoint?_spec h).1
  have hden' : (0 : ℚ) < i.den := by exact_mod_cast hden
  have hten : (0 : ℚ) < (10 ^ (-unit).toNat : ℕ) := by positivity
  rw [ten_zpow_eq, le_div_iff₀ hden', mul_div_assoc', div_mul_eq_mul_div, div_le_iff₀ hten]
  exact_mod_cast hle

theorem gridPoint?_ne_zero (hlow : 0 < i.low) {unit : ℤ} {c : ℕ}
    (h : i.gridPoint? unit = some c) : c ≠ 0 := by
  have hle := le_contains (gridPoint?_spec h).1
  rintro rfl
  rw [Nat.zero_mul, Nat.zero_mul] at hle
  have : 0 < i.low * 10 ^ (-unit).toNat := by positivity
  omega

/-- The value lies below the power of ten that the place gives. -/
theorem value_lt_place (hden : 0 < i.den) : (i.value : ℚ) / i.den < 10 ^ i.place := by
  obtain ⟨q, hq⟩ : ∃ q, q = i.value * 10 ^ 345 / i.den := ⟨_, rfl⟩
  have hlength : i.place = (q.repr.length : ℤ) - 345 := by
    rw [hq]
    rfl
  have hlt : q < 10 ^ q.repr.length :=
    (Nat.length_repr_le_iff Nat.length_repr_pos).1 (Nat.le_refl _)
  have hmul : i.value * 10 ^ 345 < 10 ^ q.repr.length * i.den := by
    rw [← Nat.div_lt_iff_lt_mul hden, ← hq]
    exact hlt
  have hden' : (0 : ℚ) < i.den := by exact_mod_cast hden
  have hten : (0 : ℚ) < 10 ^ (345 : ℤ) := by positivity
  rw [hlength, zpow_sub₀ (by norm_num), zpow_natCast, div_lt_div_iff₀ hden' hten]
  have hcast : ((i.value * 10 ^ 345 : ℕ) : ℚ) < ((10 ^ q.repr.length * i.den : ℕ) : ℚ) := by
    exact_mod_cast hmul
  push_cast at hcast
  exact_mod_cast hcast

/-- A grid point at `count` places behind the first digit has at most `count` digits, or is the next
power of ten. -/
theorem gridPoint?_le_pow (hden : 0 < i.den) {count c : ℕ}
    (h : i.gridPoint? (i.place - count) = some c) : c ≤ 10 ^ count := by
  have hc := (gridPoint?_spec h).2
  obtain ⟨unit, hunit⟩ : ∃ unit, unit = i.place - (count : ℤ) := ⟨_, rfl⟩
  rw [← hunit] at hc
  have hden' : (0 : ℚ) < i.den := by exact_mod_cast hden
  have hvalue := value_lt_place hden
  have hsplit : (10 : ℚ) ^ i.place =
      10 ^ count * ((10 ^ unit.toNat : ℕ) / (10 ^ (-unit).toNat : ℕ)) := by
    rw [← ten_zpow_eq, hunit, zpow_sub₀ (by norm_num), zpow_natCast]
    field_simp
  have hneg : (0 : ℚ) < (10 ^ (-unit).toNat : ℕ) := by positivity
  rw [hsplit, mul_div_assoc', div_lt_div_iff₀ hden' hneg] at hvalue
  have hnat : i.value * 10 ^ (-unit).toNat < 10 ^ count * (i.den * 10 ^ unit.toNat) := by
    have : i.value * 10 ^ (-unit).toNat < 10 ^ count * 10 ^ unit.toNat * i.den := by
      exact_mod_cast hvalue
    linarith
  have hfloor := (Nat.div_lt_iff_lt_mul (by positivity)).2 hnat
  omega

/-- What is found for an interval is the null decimal or a normalized grid point. -/
theorem shortestFrom_spec (place : ℤ) (left count : ℕ) :
    i.shortestFrom place left count = ⟨0, 0⟩ ∨
      ∃ n c, n < count + left ∧ i.gridPoint? (place - n) = some c ∧
        i.shortestFrom place left count = .normalize c (place - n) := by
  induction left generalizing count with
  | zero => exact Or.inl rfl
  | succ left ih =>
    unfold shortestFrom
    split
    next c hc => exact Or.inr ⟨count, c, by omega, hc, rfl⟩
    next =>
      rcases ih (count + 1) with hzero | ⟨n, c, hn, hc, heq⟩
      · exact Or.inl hzero
      · exact Or.inr ⟨n, c, by omega, hc, heq⟩

end RoundingInterval

theorem interval_den_pos (m : ℕ) (e : ℤ) : 0 < (interval m e).den :=
  Nat.pow_pos (by decide)

theorem interval_low_pos {m : ℕ} (hm : m ≠ 0) (e : ℤ) : 0 < (interval m e).low := by
  have hup : 0 < Nat.pow 2 (e - 2).toNat := Nat.pow_pos (by decide)
  simp only [interval]
  apply Nat.mul_pos _ hup
  split <;> omega

/-- The upper end of the interval is half a unit above the number. -/
theorem interval_high (m : ℕ) (e : ℤ) :
    ((interval m e).high : ℚ) / (interval m e).den = (2 * m + 1) * 2 ^ (e - 1) := by
  have htwo := two_zpow_eq (e - 2)
  rw [show -(e - 2) = 2 - e by ring] at htwo
  simp only [interval, Nat.pow_eq]
  rw [Nat.cast_mul, mul_div_assoc, ← htwo, show e - 1 = 1 + (e - 2) by ring,
    zpow_add₀ (by norm_num)]
  push_cast
  ring

/-- What the shortest decimal of a number owes to the number. -/
structure Decimal10.Bounds (d : Decimal10) (m : ℕ) (e : ℤ) : Prop where
  coefficient_le : d.coefficient ≤ 10 ^ 17
  value_le : d.value ≤ (2 * m + 1) * 2 ^ (e - 1)
  exponent_eq : d.coefficient = 0 → d.exponent = 0

theorem bounds_zero (m : ℕ) (e : ℤ) : Decimal10.Bounds ⟨0, 0⟩ m e where
  coefficient_le := by decide
  value_le := by
    simp only [Decimal10.value, Nat.cast_zero, zero_mul]
    positivity
  exponent_eq _ := rfl

/-- A shortest decimal keeps within its bounds. -/
theorem bounds_shortest (m : ℕ) (e : ℤ) : (shortest m e).Bounds m e := by
  unfold shortest
  split
  next => exact bounds_zero m e
  next hm =>
    have hden := interval_den_pos m e
    dsimp only
    rcases RoundingInterval.shortestFrom_spec (i := interval m e) (interval m e).place 17 1 with
      hzero | ⟨n, c, hn, hc, heq⟩
    · rw [hzero]
      exact bounds_zero m e
    · have hcne := RoundingInterval.gridPoint?_ne_zero (interval_low_pos hm e) hc
      have hpow : 10 ^ n ≤ 10 ^ 17 := Nat.pow_le_pow_right (by decide) (by omega)
      rw [heq]
      constructor
      · exact (Decimal10.coefficient_normalize_le _ _).trans
          ((RoundingInterval.gridPoint?_le_pow hden hc).trans hpow)
      · rw [Decimal10.value_normalize, ← interval_high]
        exact RoundingInterval.gridPoint?_le hden hc
      · intro hz
        exact absurd hz (Decimal10.coefficient_normalize_ne_zero hcne _)

/-! ## The greatest number -/

theorem place_eq {i : RoundingInterval} {n : ℕ}
    (hlow : 10 ^ n ≤ i.value * Nat.pow 10 345 / i.den)
    (hhigh : i.value * Nat.pow 10 345 / i.den < 10 ^ (n + 1)) : i.place = (n : ℤ) + 1 - 345 := by
  have hle := (Nat.length_repr_le_iff (Nat.succ_pos n)).2 hhigh
  have hge : n < (Nat.repr (i.value * Nat.pow 10 345 / i.den)).length := by
    by_contra hlt
    by_cases hn : n = 0
    · have := Nat.length_repr_pos (n := i.value * Nat.pow 10 345 / i.den)
      omega
    · have := (Nat.length_repr_le_iff (Nat.pos_of_ne_zero hn)).1 (not_lt.1 hlt)
      omega
  simp only [RoundingInterval.place]
  omega

/-- The greatest number has seventeen digits. -/
theorem shortest_greatest : shortest 9007199254740991 971 = ⟨17976931348623157, 292⟩ := by
  have hplace : (interval 9007199254740991 971).place = 309 :=
    place_eq (n := 653) (by decide +kernel) (by decide +kernel)
  rw [shortest, if_neg (by decide)]
  dsimp only
  rw [hplace]
  decide +kernel

end Keyring.Binary64
