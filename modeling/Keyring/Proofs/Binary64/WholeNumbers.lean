import Keyring.Proofs.Binary64.Powers
import Mathlib.Algebra.Order.Floor.Semifield
import Mathlib.Data.Rat.Floor

/-!
# Whole numbers

A natural number is rounded to 53 bits: of a longer one the lowest bits go away. What rounding
leaves is not changed by rounding it again, so products with one, sums with zero and powers of one
are exact.
-/
namespace Keyring.Binary64

/-- The mantissas and exponents of rounded numbers: all 53 bits are used, or the exponent is the
least one. -/
def Canonical (m : ℕ) (e : ℤ) : Prop :=
  m < mantissaLimit ∧ minExponent ≤ e ∧ e ≤ maxExponent ∧
    (mantissaLimit ≤ 2 * m ∨ e = minExponent)

theorem canonical_zero : Canonical 0 minExponent :=
  ⟨by decide, le_rfl, by decide, Or.inr rfl⟩

/-! ## The nearest integer -/

theorem nearest_mul {d : ℕ} (hd : 0 < d) (k : ℕ) : nearest (k * d) d = k := by
  simp [nearest, Nat.mul_div_cancel _ hd, hd]

/-- Only multiples of the unit are kept as they are. -/
theorem nearest_mul_eq_iff {n d : ℕ} (hd : 0 < d) : nearest n d * d = n ↔ d ∣ n := by
  constructor
  · exact fun h => ⟨nearest n d, by rw [Nat.mul_comm]; exact h.symm⟩
  · rintro ⟨k, rfl⟩
    rw [Nat.mul_comm d k, nearest_mul hd]

/-- An integer with an even neighbour below is reached from the middle between the two on. -/
theorem le_nearest_iff {n d k : ℕ} (hd : 0 < d) (heven : d % 2 = 0) (hk : k % 2 = 0) :
    k ≤ nearest n d ↔ k * d ≤ n + d / 2 := by
  have hdiv := Nat.div_add_mod n d
  have hmod := Nat.mod_lt n hd
  rw [Nat.mul_comm] at hdiv
  unfold nearest
  dsimp only
  rcases Nat.lt_trichotomy (n / d + 1) k with hlt | heq | hgt
  · have hmul : (n / d + 2) * d ≤ k * d := Nat.mul_le_mul_right d hlt
    rw [Nat.add_mul] at hmul
    split
    · omega
    · split
      · omega
      · split <;> omega
  · have hmul : k * d = n / d * d + d := by rw [← heq, Nat.add_mul, Nat.one_mul]
    split
    · omega
    · split
      · omega
      · split <;> omega
  · have hmul : k * d ≤ n / d * d := Nat.mul_le_mul_right d (by omega)
    split
    · omega
    · split
      · omega
      · split <;> omega

/-! ## Rounding a second time -/

/-- The exponent is the only one that leaves 53 bits before the point, or is the least one. -/
theorem exponentFor_eq {n d : ℕ} {e : ℤ} (hn : 0 < n) (hd : 0 < d) (hmin : minExponent ≤ e)
    (hfits : (n : ℚ) / d < 2 ^ (53 + e)) (hleast : e = minExponent ∨ (2 : ℚ) ^ (52 + e) ≤ n / d) :
    exponentFor n d = e := by
  have unique : ∀ {a b : ℤ}, minExponent ≤ b → (n : ℚ) / d < 2 ^ (53 + b) →
      (a = minExponent ∨ (2 : ℚ) ^ (52 + a) ≤ n / d) → a ≤ b := by
    rintro a b hb hhigh (rfl | hlow)
    · exact hb
    · have := (zpow_lt_zpow_iff_right₀ (by norm_num : (1 : ℚ) < 2)).1 (hlow.trans_lt hhigh)
      omega
  obtain ⟨hmin', hfits', hleast'⟩ := exponentFor_spec hn hd
  exact le_antisymm (unique hmin hfits hleast') (unique hmin' hfits' hleast)

/-- A quotient that has the form of a rounded number is that number. -/
theorem ofRatio_of_canonical {n d m : ℕ} {e : ℤ} (hd : 0 < d) (hc : Canonical m e)
    (h : (n : ℚ) / d = m * 2 ^ e) (negative : Bool) :
    ofRatio negative n d = .finite negative m e := by
  obtain ⟨hlimit, hmin, hmax, hfull⟩ := hc
  have hd' : (0 : ℚ) < d := by exact_mod_cast hd
  by_cases hm : m = 0
  · have he : e = minExponent := hfull.resolve_left (by rw [hm]; decide)
    have hn : n = 0 := by
      rw [hm, Nat.cast_zero, zero_mul, div_eq_zero_iff] at h
      exact_mod_cast h.resolve_right hd'.ne'
    rw [ofRatio, if_pos hn, zero, hm, he]
  have hmpos : 0 < m := Nat.pos_of_ne_zero hm
  have hn : n ≠ 0 := by
    rintro rfl
    rw [Nat.cast_zero, zero_div] at h
    have : (0 : ℚ) < m * 2 ^ e := by positivity
    exact absurd h this.ne
  have hexponent : exponentFor n d = e := by
    apply exponentFor_eq (Nat.pos_of_ne_zero hn) hd hmin
    · rw [h, zpow_add₀ (by norm_num)]
      rw [mantissaLimit_eq] at hlimit
      have : (m : ℚ) < 2 ^ (53 : ℤ) := by exact_mod_cast hlimit
      gcongr
    · refine hfull.symm.imp_right fun hbits => ?_
      rw [h, zpow_add₀ (by norm_num)]
      have : 2 ^ 52 ≤ m := by
        rw [mantissaLimit_eq] at hbits
        omega
      have : (2 : ℚ) ^ (52 : ℤ) ≤ m := by exact_mod_cast this
      gcongr
  have hmantissa : mantissaFor n d = m := by
    have hpos := scale_den_pos n hd (-e)
    have hpos' : (0 : ℚ) < (scale n d (-e)).2 := by exact_mod_cast hpos
    have hvalue := scale_value n hd (-e)
    rw [h, mul_assoc, ← zpow_add₀ (by norm_num), add_neg_cancel, zpow_zero, mul_one,
      div_eq_iff hpos'.ne'] at hvalue
    have hnum : (scale n d (-e)).1 = m * (scale n d (-e)).2 := by exact_mod_cast hvalue
    rw [mantissaFor, hexponent, hnum, nearest_mul hpos]
  rw [ofRatio_eq hn, hmantissa, hexponent, if_neg hlimit.ne, if_neg (not_lt.2 hmax)]

theorem ofScaled_of_canonical {k m : ℕ} {j e : ℤ} (hc : Canonical m e)
    (h : (k : ℚ) * 2 ^ j = m * 2 ^ e) (negative : Bool) :
    ofScaled negative k j = .finite negative m e := by
  have hquotient : ((scale k 1 j).1 : ℚ) / (scale k 1 j).2 = m * 2 ^ e := by
    rw [scale_value k (by decide), Nat.cast_one, div_one, h]
  exact ofRatio_of_canonical (scale_den_pos k (by decide) j) hc hquotient negative

theorem one_eq : one = .finite false 4503599627370496 (-52) := by decide +kernel

/-- One times a number is the number. -/
theorem mul_one_of_canonical {m : ℕ} {e : ℤ} (hc : Canonical m e) (s : Bool) :
    (finite s m e).mul one = .finite s m e := by
  have hvalue : ((m * 4503599627370496 : ℕ) : ℚ) * 2 ^ (e + -52) = m * 2 ^ e := by
    rw [zpow_add₀ (by norm_num)]
    push_cast
    norm_num
    ring
  rw [one_eq, mul, Bool.bne_false]
  exact ofScaled_of_canonical hc hvalue s

/-- All powers of one are one. -/
theorem power_one (n : ℕ) : one.power n = one := by
  have hone : one.mul one = one := by decide +kernel
  rw [power]
  induction n using Nat.strong_induction_on with
  | h n ih =>
    rw [powerFrom]
    split
    · rfl
    next hn =>
      simp only [hone, ite_self]
      split
      · rfl
      · exact ih (n / 2) (by omega)

theorem minimum_self (f : Binary64) : f.minimum f = f := by
  cases f <;> simp [minimum]

/-! ## Natural numbers -/

/-- Numbers with the value of a natural number. -/
def IsWhole (f : Binary64) (n : ℕ) : Prop :=
  ∃ m e, f = .finite false m e ∧ Canonical m e ∧ (m : ℚ) * 2 ^ e = n

namespace IsWhole

variable {f : Binary64} {n : ℕ}

theorem mul_one (h : f.IsWhole n) : f.mul one = f := by
  obtain ⟨m, e, rfl, hc, -⟩ := h
  exact mul_one_of_canonical hc false

theorem add_zero (h : f.IsWhole n) : f.add (zero false) = f := by
  obtain ⟨m, e, rfl, hc, -⟩ := h
  obtain ⟨j, hj⟩ := Int.eq_ofNat_of_zero_le (show 0 ≤ e - minExponent by have := hc.2.1; omega)
  have hlow : min e minExponent = minExponent := min_eq_right hc.2.1
  have hsum : signedAt false m e minExponent + signedAt false 0 minExponent minExponent =
      ((m * 2 ^ j : ℕ) : ℤ) := by
    simp [signedAt, hj]
  rw [zero, add, hlow]
  simp only [hsum]
  split
  next hzero =>
    have hm : m = 0 := by
      have : m * 2 ^ j = 0 := by exact_mod_cast hzero
      exact (Nat.mul_eq_zero.1 this).resolve_right (by positivity)
    have he : e = minExponent := hc.2.2.2.resolve_left (by rw [hm]; decide)
    rw [zero, hm, he, Bool.and_self]
  next =>
    have hpositive : decide (((m * 2 ^ j : ℕ) : ℤ) < 0) = false := by simp
    rw [hpositive, Int.natAbs_natCast]
    apply ofScaled_of_canonical hc
    have he : e = j + minExponent := by omega
    rw [he, zpow_add₀ (by norm_num), zpow_natCast]
    push_cast
    ring

/-- A natural number is not below zero. -/
theorem maximum_zero (h : f.IsWhole n) : f.maximum (zero false) = f := by
  obtain ⟨m, e, rfl, -, -⟩ := h
  have hlt : lt (.finite false m e) (zero false) = false := by
    simp [lt, zero, signedAt]
  rw [zero, maximum]
  · exact if_neg (by rw [← zero, hlt]; exact Bool.false_ne_true)
  all_goals simp

end IsWhole

/-- A natural number rounded to 53 bits. -/
def rounded (n : ℕ) : ℕ := nearest n (2 ^ excess n) * 2 ^ excess n

/-- What has no bits but the first 53 stays as it is. -/
theorem rounded_eq_self_iff {n : ℕ} : rounded n = n ↔ 2 ^ excess n ∣ n :=
  nearest_mul_eq_iff (by positivity)

theorem excess_eq_zero {n : ℕ} (h : n < 2 ^ 53) : excess n = 0 := by
  by_cases hn : n = 0
  · rw [hn]
    decide
  · have := (Nat.log2_lt hn).2 h
    rw [excess]
    omega

theorem rounded_of_lt {n : ℕ} (h : n < 2 ^ 53) : rounded n = n := by
  rw [rounded_eq_self_iff, excess_eq_zero h]
  exact one_dvd n

theorem rounded_zero : rounded 0 = 0 := rounded_of_lt (by decide)

/-- The bits that are too many are those behind the first 53. -/
theorem two_pow_le_of_excess {n : ℕ} (h : excess n ≠ 0) : 2 ^ (52 + excess n) ≤ n := by
  have hlog : 52 + excess n = n.log2 := by
    rw [excess] at h ⊢
    omega
  rw [hlog]
  exact Nat.log2_self_le (by rintro rfl; exact h (by decide))

theorem lt_two_pow_excess (n : ℕ) : n < 2 ^ (53 + excess n) := by
  have hlog : n.log2 + 1 ≤ 53 + excess n := by
    rw [excess]
    omega
  exact Nat.lt_log2_self.trans_le (Nat.pow_le_pow_right (by decide) hlog)

theorem excess_le {n k : ℕ} (h : n < 2 ^ (53 + k)) : excess n ≤ k := by
  by_contra hlt
  have hlow := two_pow_le_of_excess (n := n) (by omega)
  have := Nat.pow_le_pow_right (n := 2) (by decide) (show 53 + k ≤ 52 + excess n by omega)
  omega

/-- A long number that is rounded fills all 53 bits. -/
theorem two_pow_le_nearest {n : ℕ} (h : excess n ≠ 0) : 2 ^ 52 ≤ nearest n (2 ^ excess n) := by
  obtain ⟨j, hj⟩ := Nat.exists_eq_succ_of_ne_zero h
  rw [le_nearest_iff (by positivity) (by rw [hj, pow_succ]; omega) (by decide), ← pow_add]
  exact (two_pow_le_of_excess h).trans (Nat.le_add_right _ _)

/-- Rounding does not make a number of more than 53 bits shorter. -/
theorem two_pow_le_rounded {n : ℕ} (h : 2 ^ 53 ≤ n) : 2 ^ 53 ≤ rounded n := by
  have hexcess : excess n ≠ 0 := by
    intro hzero
    have := lt_two_pow_excess n
    rw [hzero] at this
    omega
  calc 2 ^ 53 = 2 ^ 52 * 2 ^ 1 := by norm_num
    _ ≤ 2 ^ 52 * 2 ^ excess n := Nat.mul_le_mul_left _ (Nat.pow_le_pow_right (by decide) (by omega))
    _ ≤ rounded n := Nat.mul_le_mul_right _ (two_pow_le_nearest hexcess)

/-- Multiples of `2 ^ 11` fit into 53 of 64 bits. -/
theorem rounded_of_multiple {n : ℕ} (h : n < 2 ^ 64) (hmultiple : 2 ^ 11 ∣ n) : rounded n = n :=
  rounded_eq_self_iff.2 ((pow_dvd_pow 2 (excess_le h)).trans hmultiple)

/-- A natural number below `2 ^ 64` becomes the number with its rounded value. -/
theorem isWhole_ofNat {n : ℕ} (h : n < 2 ^ 64) : (ofNat n).IsWhole (rounded n) := by
  by_cases hzero : n = 0
  · subst hzero
    refine ⟨0, minExponent, by decide, canonical_zero, ?_⟩
    rw [rounded_zero, Nat.cast_zero, zero_mul]
  have hpos : 0 < n := Nat.pos_of_ne_zero hzero
  by_cases hlong : excess n = 0
  · -- a short number fills the 53 bits with zeros
    have hlog : n.log2 ≤ 52 := by
      rw [excess] at hlong
      omega
    have hshift : n.log2 + (52 - n.log2) = 52 := by omega
    have hlow : 2 ^ 52 ≤ n * 2 ^ (52 - n.log2) := by
      calc 2 ^ 52 = 2 ^ n.log2 * 2 ^ (52 - n.log2) := by rw [← pow_add, hshift]
        _ ≤ n * 2 ^ (52 - n.log2) := Nat.mul_le_mul_right _ (Nat.log2_self_le hzero)
    have hhigh : n * 2 ^ (52 - n.log2) < 2 ^ 53 := by
      calc n * 2 ^ (52 - n.log2) < 2 ^ (n.log2 + 1) * 2 ^ (52 - n.log2) :=
            Nat.mul_lt_mul_of_pos_right Nat.lt_log2_self (by positivity)
        _ = 2 ^ 53 := by rw [← pow_add, show n.log2 + 1 + (52 - n.log2) = 53 by omega]
    have hc : Canonical (n * 2 ^ (52 - n.log2)) (-((52 - n.log2 : ℕ) : ℤ)) := by
      rw [Canonical, mantissaLimit_eq, minExponent, maxExponent]
      omega
    have hvalue : ((n * 2 ^ (52 - n.log2) : ℕ) : ℚ) * 2 ^ (-((52 - n.log2 : ℕ) : ℤ)) = n := by
      rw [zpow_neg, zpow_natCast]
      push_cast
      field_simp
    rw [rounded_eq_self_iff.2 (by rw [hlong]; exact one_dvd n)]
    refine ⟨_, _, ofRatio_of_canonical (by decide) hc ?_ false, hc, hvalue⟩
    rw [hvalue, Nat.cast_one, div_one]
  · have hlow := two_pow_le_of_excess hlong
    have hhigh := lt_two_pow_excess n
    have hexcess : excess n ≤ 11 := excess_le h
    have hexponent : exponentFor n 1 = excess n := by
      apply exponentFor_eq hpos (by decide)
      · rw [minExponent]
        omega
      · rw [Nat.cast_one, div_one]
        exact_mod_cast hhigh
      · right
        rw [Nat.cast_one, div_one]
        exact_mod_cast hlow
    have hmantissa : mantissaFor n 1 = nearest n (2 ^ excess n) := by
      rw [mantissaFor, hexponent, scale, if_neg (by omega)]
      simp
    have hfull := two_pow_le_nearest hlong
    have hlimit := hmantissa ▸ mantissaFor_le_limit hpos (by decide)
    have hvalue : ((nearest n (2 ^ excess n) : ℕ) : ℚ) * 2 ^ (excess n : ℤ) = rounded n := by
      rw [rounded, zpow_natCast]
      push_cast
      rfl
    rw [IsWhole, ofNat, ofRatio_eq hzero, hexponent, hmantissa]
    by_cases hcarry : nearest n (2 ^ excess n) = mantissaLimit
    · refine ⟨mantissaLimit / 2, excess n + 1, ?_, ?_, ?_⟩
      · rw [if_pos hcarry, if_neg (by rw [maxExponent]; omega)]
      · rw [Canonical, minExponent, maxExponent, mantissaLimit]
        omega
      · rw [← hvalue, hcarry, zpow_add₀ (by norm_num), mantissaLimit]
        norm_num
        ring
    · refine ⟨nearest n (2 ^ excess n), excess n, ?_, ?_, hvalue⟩
      · rw [if_neg hcarry, if_neg (by rw [maxExponent]; omega)]
      · rw [mantissaLimit_eq] at hlimit hcarry
        rw [Canonical, minExponent, maxExponent, mantissaLimit_eq]
        omega

/-- From the middle between the last two on, 64 bits are rounded to one bit more. -/
theorem le_rounded_iff {n : ℕ} (h : n < 2 ^ 64) : 2 ^ 64 ≤ rounded n ↔ 2 ^ 64 - 1024 ≤ n := by
  have hexcess : excess n ≤ 11 := excess_le h
  by_cases hlast : excess n = 11
  · have hlow := two_pow_le_of_excess (n := n) (by omega)
    have hnearest := le_nearest_iff (n := n) (d := 2 ^ 11) (k := 2 ^ 53) (by decide) (by decide)
      (by decide)
    rw [rounded, hlast, show 2 ^ 64 = 2 ^ 53 * 2 ^ 11 from rfl,
      Nat.mul_le_mul_right_iff (by decide), hnearest]
    omega
  · have hhigh := lt_two_pow_excess n
    have hpow : 2 ^ (53 + excess n) ≤ 2 ^ 63 := Nat.pow_le_pow_right (by decide) (by omega)
    have hrounded : rounded n ≤ 2 ^ (53 + excess n) := by
      rw [rounded, pow_add]
      apply Nat.mul_le_mul_right
      apply nearest_le (by positivity)
      rw [← pow_add]
      exact hhigh.le
    omega

/-! ## Natural numbers of a range -/

theorem floor_add_half (n : ℕ) : ⌊(n : ℚ) + 1 / 2⌋₊ = n := by
  rw [add_comm, Nat.floor_add_natCast (by norm_num), Nat.floor_eq_zero.2 (by norm_num), zero_add]

/-- A number that is not negative is rounded with halves upwards and capped. -/
theorem clampToNat_finite (limit m : ℕ) (e : ℤ) :
    (finite false m e).clampToNat limit = min ⌊(m : ℚ) * 2 ^ e + 1 / 2⌋₊ (limit - 1) := by
  have hpos := scale_den_pos m (d := 1) (by decide) e
  have hpos' : (0 : ℚ) < (scale m 1 e).2 := by exact_mod_cast hpos
  have hvalue := scale_value m (d := 1) (by decide) e
  rw [Nat.cast_one, div_one] at hvalue
  have hfloor : (m : ℚ) * 2 ^ e + 1 / 2 =
      ((2 * (scale m 1 e).1 + (scale m 1 e).2 : ℕ) : ℚ) / (2 * (scale m 1 e).2 : ℕ) := by
    rw [← hvalue]
    push_cast
    field_simp
  rw [hfloor, Nat.floor_div_eq_div, clampToNat]
  simp

theorem clampToNat_of_isWhole {f : Binary64} {n : ℕ} (h : f.IsWhole n) (limit : ℕ) :
    f.clampToNat limit = min n (limit - 1) := by
  obtain ⟨m, e, rfl, -, hvalue⟩ := h
  rw [clampToNat_finite, hvalue, floor_add_half]

theorem clampToNat_lt {limit : ℕ} (h : 0 < limit) (f : Binary64) : f.clampToNat limit < limit := by
  unfold clampToNat
  split
  · exact h
  · split <;> omega
  · dsimp only
    split
    · exact h
    · omega

/-- From `2 ^ 63` on, the numbers are multiples of `2 ^ 11`; what is too large gives the last one of
the range. -/
theorem clampToNat_coarse {f : Binary64} (h : f.Regular ∨ f.isInfinite = true ∨ f = nan) :
    f.clampToNat (2 ^ 64) < 2 ^ 63 ∨ 2048 ∣ f.clampToNat (2 ^ 64) ∨
      f.clampToNat (2 ^ 64) = 2 ^ 64 - 1 := by
  cases f with
  | nan => exact Or.inl (by decide)
  | infinite negative =>
    cases negative with
    | true => exact Or.inl (by decide)
    | false => exact Or.inr (Or.inr rfl)
  | finite negative m e =>
    cases negative with
    | true => exact Or.inl (by simp [clampToNat])
    | false =>
      obtain ⟨hm, -, -⟩ := h.resolve_right (by simp [isInfinite])
      rw [mantissaLimit_eq] at hm
      rw [clampToNat_finite]
      by_cases he : e < 11
      · left
        have hm' : (m : ℚ) ≤ 2 ^ 53 - 1 := by
          have : ((m + 1 : ℕ) : ℚ) ≤ (2 ^ 53 : ℕ) := by exact_mod_cast hm
          push_cast at this
          linarith
        have he' : (2 : ℚ) ^ e ≤ 2 ^ (10 : ℤ) := zpow_le_zpow_right₀ (by norm_num) (by omega)
        have hlt : (m : ℚ) * 2 ^ e + 1 / 2 < (2 ^ 63 : ℕ) := by
          calc (m : ℚ) * 2 ^ e + 1 / 2 ≤ (2 ^ 53 - 1) * 2 ^ (10 : ℤ) + 1 / 2 := by gcongr
            _ < (2 ^ 63 : ℕ) := by norm_num
        have := (Nat.floor_lt (by positivity)).2 hlt
        omega
      · obtain ⟨j, hj⟩ := Int.eq_ofNat_of_zero_le (show 0 ≤ e - 11 by omega)
        have he' : e = j + 11 := by omega
        have hvalue : (m : ℚ) * 2 ^ e = ((m * 2 ^ j * 2048 : ℕ) : ℚ) := by
          rw [he', zpow_add₀ (by norm_num), zpow_natCast]
          push_cast
          ring
        rw [hvalue, floor_add_half]
        rcases Nat.le_total (m * 2 ^ j * 2048) (2 ^ 64 - 1) with hle | hle
        · rw [min_eq_left hle]
          exact Or.inr (Or.inl (Nat.dvd_mul_left _ _))
        · rw [min_eq_right hle]
          exact Or.inr (Or.inr rfl)

end Keyring.Binary64
