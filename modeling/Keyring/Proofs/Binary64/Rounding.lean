import Keyring.Binary64
import Mathlib.Algebra.Order.Field.Power
import Mathlib.Data.Rat.Cast.Order
import Mathlib.Tactic.FieldSimp
import Mathlib.Tactic.Linarith
import Mathlib.Tactic.NormNum
import Mathlib.Tactic.Positivity
import Mathlib.Tactic.Ring

/-!
# Rounding of quotients

What a rounded quotient owes to the exact one: its exponent is in range, it stays finite below the
middle between the greatest number and the next power of two, and it does not pass any number that
has the form of a rounded one.
-/
namespace Keyring.Binary64

/-- A finite number in the form that rounding gives it. -/
def Regular : Binary64 → Prop
  | .finite _ m e => m < mantissaLimit ∧ minExponent ≤ e ∧ e ≤ maxExponent
  | _ => False

/-- The middle between the greatest finite number and the next power of two. -/
def overflowBound : ℚ := (2 ^ 54 - 1) * 2 ^ (970 : ℤ)

theorem mantissaLimit_eq : mantissaLimit = 2 ^ 53 := by norm_num [mantissaLimit]

theorem regular_zero (negative : Bool) : (zero negative).Regular := by
  simp [zero, Regular, mantissaLimit, minExponent, maxExponent]

theorem regular_neg {f : Binary64} (h : f.Regular) : f.neg.Regular := by
  cases f with
  | nan => exact h
  | infinite negative => exact h
  | finite negative m e => exact h

/-! ## Scaling -/

theorem scale_den_pos (n : ℕ) {d : ℕ} (hd : 0 < d) (k : ℤ) : 0 < (scale n d k).2 := by
  unfold scale
  split
  · exact hd
  · exact Nat.mul_pos hd (Nat.pow_pos (by decide))

/-- Scaling multiplies a quotient by a power of two. -/
theorem scale_value (n : ℕ) {d : ℕ} (hd : 0 < d) (k : ℤ) :
    ((scale n d k).1 : ℚ) / (scale n d k).2 = n / d * 2 ^ k := by
  have hne : (d : ℚ) ≠ 0 := by positivity
  unfold scale
  split
  next hk =>
    obtain ⟨j, rfl⟩ := Int.eq_ofNat_of_zero_le hk
    simp only [Int.toNat_natCast, Nat.pow_eq, zpow_natCast]
    push_cast
    field_simp
  next hk =>
    obtain ⟨j, hj⟩ := Int.eq_ofNat_of_zero_le (show 0 ≤ -k by omega)
    have hkj : k = -(j : ℤ) := by omega
    subst hkj
    simp only [neg_neg, Int.toNat_natCast, Nat.pow_eq, zpow_neg, zpow_natCast]
    push_cast
    field_simp

/-! ## The nearest integer -/

/-- The nearest integer does not pass an integer above the quotient. -/
theorem nearest_le {n d k : ℕ} (hd : 0 < d) (h : n ≤ k * d) : nearest n d ≤ k := by
  have hdiv := Nat.div_add_mod n d
  have hq : n / d ≤ k := by
    rw [Nat.div_le_iff_le_mul_add_pred hd]
    have := Nat.mul_comm k d
    omega
  unfold nearest
  dsimp only
  by_cases he : n / d = k
  · rw [he] at hdiv
    have hr : n % d = 0 := by
      have := Nat.mul_comm k d
      omega
    simp [he, hr, hd]
  · have hlt : n / d + 1 ≤ k := by omega
    split
    · exact hq
    · split
      · exact hlt
      · split <;> assumption

/-- The nearest integer is at most half of one above the quotient. -/
theorem two_mul_nearest_le (n d : ℕ) : 2 * (nearest n d * d) ≤ 2 * n + d := by
  have hdiv := Nat.div_add_mod n d
  have hup : (n / d + 1) * d = d * (n / d) + d := by ring
  have hsame : n / d * d = d * (n / d) := by ring
  unfold nearest
  dsimp only
  split
  · omega
  · split
    · rw [hup]
      omega
    · split
      · omega
      · rw [hup]
        omega

/-! ## The exponent -/

theorem two_zpow_log2_le {n : ℕ} (hn : 0 < n) : (2 : ℚ) ^ (n.log2 : ℤ) ≤ n := by
  have := Nat.log2_self_le (n := n) (by omega)
  rw [zpow_natCast]
  exact_mod_cast this

theorem lt_two_zpow_log2 (n : ℕ) : (n : ℚ) < 2 ^ ((n.log2 : ℤ) + 1) := by
  have := Nat.lt_log2_self (n := n)
  rw [show ((n.log2 : ℤ) + 1) = ((n.log2 + 1 : ℕ) : ℤ) by push_cast; rfl, zpow_natCast]
  exact_mod_cast this

/-- A quotient lies between the powers of two that the logarithms of its terms give. -/
theorem quotient_bounds {n d : ℕ} (hn : 0 < n) (hd : 0 < d) :
    (2 : ℚ) ^ ((n.log2 : ℤ) - d.log2 - 1) ≤ n / d ∧
      (n : ℚ) / d < 2 ^ ((n.log2 : ℤ) - d.log2 + 1) := by
  have hd' : (0 : ℚ) < d := by exact_mod_cast hd
  constructor
  · rw [le_div_iff₀ hd']
    calc (2 : ℚ) ^ ((n.log2 : ℤ) - d.log2 - 1) * d
        ≤ 2 ^ ((n.log2 : ℤ) - d.log2 - 1) * 2 ^ ((d.log2 : ℤ) + 1) := by
          gcongr
          exact (lt_two_zpow_log2 d).le
      _ = 2 ^ (n.log2 : ℤ) := by
          rw [← zpow_add₀ (by norm_num)]
          congr 1
          ring
      _ ≤ n := two_zpow_log2_le hn
  · rw [div_lt_iff₀ hd']
    calc (n : ℚ) < 2 ^ ((n.log2 : ℤ) + 1) := lt_two_zpow_log2 n
      _ = 2 ^ ((n.log2 : ℤ) - d.log2 + 1) * 2 ^ (d.log2 : ℤ) := by
          rw [← zpow_add₀ (by norm_num)]
          congr 1
          ring
      _ ≤ 2 ^ ((n.log2 : ℤ) - d.log2 + 1) * d := by
          gcongr
          exact two_zpow_log2_le hd

/-- The exponent leaves at most 53 bits before the point, and is the least that does. -/
theorem exponentFor_spec {n d : ℕ} (hn : 0 < n) (hd : 0 < d) :
    minExponent ≤ exponentFor n d ∧ (n : ℚ) / d < 2 ^ (53 + exponentFor n d) ∧
      (exponentFor n d = minExponent ∨ (2 : ℚ) ^ (52 + exponentFor n d) ≤ n / d) := by
  obtain ⟨hlow, hhigh⟩ := quotient_bounds hn hd
  obtain ⟨g, hg⟩ : ∃ g, g = max ((n.log2 : ℤ) - d.log2 - 53) minExponent := ⟨_, rfl⟩
  have hfits : (scale n d (-g)).1 / (scale n d (-g)).2 < mantissaLimit ↔
      (n : ℚ) / d < 2 ^ (53 + g) := by
    have hpos := scale_den_pos n hd (-g)
    have hvalue := scale_value n hd (-g)
    have hpos' : (0 : ℚ) < (scale n d (-g)).2 := by exact_mod_cast hpos
    rw [Nat.div_lt_iff_lt_mul hpos, mantissaLimit_eq, zpow_add₀ (by norm_num)]
    have hcast : (scale n d (-g)).1 < 2 ^ 53 * (scale n d (-g)).2 ↔
        ((scale n d (-g)).1 : ℚ) / (scale n d (-g)).2 < 2 ^ 53 := by
      rw [div_lt_iff₀ hpos']
      exact_mod_cast Iff.rfl
    rw [hcast, hvalue, zpow_neg, ← div_eq_mul_inv, div_lt_iff₀ (by positivity)]
    norm_cast
  have hexp : exponentFor n d =
      if (scale n d (-g)).1 / (scale n d (-g)).2 < mantissaLimit then g else g + 1 := by
    rw [exponentFor, ← hg]
  rw [hexp]
  split
  next h =>
    refine ⟨by omega, hfits.1 h, ?_⟩
    rcases max_choice ((n.log2 : ℤ) - d.log2 - 53) minExponent with hm | hm
    · right
      rw [hg, hm]
      calc (2 : ℚ) ^ (52 + ((n.log2 : ℤ) - d.log2 - 53)) = 2 ^ ((n.log2 : ℤ) - d.log2 - 1) := by
            congr 1
            ring
        _ ≤ n / d := hlow
    · left
      rw [hg, hm]
  next h =>
    have hge : (2 : ℚ) ^ (53 + g) ≤ n / d := not_lt.1 fun hlt => h (hfits.2 hlt)
    refine ⟨by omega, ?_, Or.inr ?_⟩
    · calc (n : ℚ) / d < 2 ^ ((n.log2 : ℤ) - d.log2 + 1) := hhigh
        _ ≤ 2 ^ (53 + (g + 1)) := zpow_le_zpow_right₀ (by norm_num) (by omega)
    · calc (2 : ℚ) ^ (52 + (g + 1)) = 2 ^ (53 + g) := by
            congr 1
            ring
        _ ≤ n / d := hge

/-! ## Rounded quotients -/

/-- The mantissa before a carry into the exponent. -/
def mantissaFor (n d : ℕ) : ℕ :=
  nearest (scale n d (-exponentFor n d)).1 (scale n d (-exponentFor n d)).2

/-- The mantissa does not pass an integer above the quotient in its units. -/
theorem mantissaFor_le {n d : ℕ} (hd : 0 < d) {k : ℕ}
    (h : (n : ℚ) / d ≤ k * 2 ^ exponentFor n d) : mantissaFor n d ≤ k := by
  have hpos := scale_den_pos n hd (-exponentFor n d)
  have hpos' : (0 : ℚ) < (scale n d (-exponentFor n d)).2 := by exact_mod_cast hpos
  apply nearest_le hpos
  have hvalue := scale_value n hd (-exponentFor n d)
  rw [zpow_neg, ← div_eq_mul_inv, div_eq_iff hpos'.ne'] at hvalue
  have hk : (n : ℚ) / d / 2 ^ exponentFor n d ≤ k := by
    rw [div_le_iff₀ (by positivity)]
    exact h
  have hle : ((scale n d (-exponentFor n d)).1 : ℚ) ≤ k * (scale n d (-exponentFor n d)).2 := by
    rw [hvalue]
    gcongr
  exact_mod_cast hle

/-- The mantissa is at most half a unit above the quotient. -/
theorem two_mul_mantissaFor_le {n d : ℕ} (hd : 0 < d) :
    (2 * (mantissaFor n d : ℚ) - 1) * 2 ^ exponentFor n d ≤ 2 * (n / d) := by
  have hpos := scale_den_pos n hd (-exponentFor n d)
  have hpos' : (0 : ℚ) < (scale n d (-exponentFor n d)).2 := by exact_mod_cast hpos
  have hvalue := scale_value n hd (-exponentFor n d)
  have hhalf := two_mul_nearest_le (scale n d (-exponentFor n d)).1
    (scale n d (-exponentFor n d)).2
  have hhalf' : 2 * ((mantissaFor n d : ℚ) * (scale n d (-exponentFor n d)).2) ≤
      2 * (scale n d (-exponentFor n d)).1 + (scale n d (-exponentFor n d)).2 := by
    exact_mod_cast hhalf
  rw [zpow_neg, ← div_eq_mul_inv, div_eq_iff hpos'.ne'] at hvalue
  rw [hvalue] at hhalf'
  have hle : 2 * (mantissaFor n d : ℚ) - 1 ≤ 2 * (n / d / 2 ^ exponentFor n d) := by
    by_contra hlt
    rw [not_le] at hlt
    have := mul_lt_mul_of_pos_right hlt hpos'
    nlinarith
  calc (2 * (mantissaFor n d : ℚ) - 1) * 2 ^ exponentFor n d
      ≤ 2 * (n / d / 2 ^ exponentFor n d) * 2 ^ exponentFor n d := by gcongr
    _ = 2 * (n / d) := by field_simp

theorem mantissaFor_le_limit {n d : ℕ} (hn : 0 < n) (hd : 0 < d) :
    mantissaFor n d ≤ mantissaLimit := by
  apply mantissaFor_le hd
  have h := (exponentFor_spec hn hd).2.1
  rw [zpow_add₀ (by norm_num)] at h
  rw [mantissaLimit_eq]
  exact_mod_cast h.le

/-- A quotient is rounded to its mantissa and exponent, with a carry if the mantissa has one bit too
many, or becomes infinite. -/
theorem ofRatio_eq {n : ℕ} (hn : n ≠ 0) (d : ℕ) (negative : Bool) :
    ofRatio negative n d =
      if mantissaFor n d = mantissaLimit then
        if maxExponent < exponentFor n d + 1 then .infinite negative
        else .finite negative (mantissaLimit / 2) (exponentFor n d + 1)
      else if maxExponent < exponentFor n d then .infinite negative
      else .finite negative (mantissaFor n d) (exponentFor n d) := by
  have hdef : nearest (scale n d (-exponentFor n d)).1 (scale n d (-exponentFor n d)).2 =
      mantissaFor n d := rfl
  rw [ofRatio, if_neg hn]
  simp only [hdef]
  by_cases hm : mantissaFor n d = mantissaLimit
  · simp only [if_pos hm]
  · simp only [if_neg hm]

/-- Below the overflow bound a rounded quotient is finite. -/
theorem regular_ofRatio {n d : ℕ} (hd : 0 < d) (h : (n : ℚ) / d < overflowBound)
    (negative : Bool) : (ofRatio negative n d).Regular := by
  by_cases hn : n = 0
  · rw [ofRatio, if_pos hn]
    exact regular_zero negative
  · have hpos : 0 < n := Nat.pos_of_ne_zero hn
    obtain ⟨hmin, hfits, hleast⟩ := exponentFor_spec hpos hd
    have hlimit := mantissaFor_le_limit hpos hd
    have hhalf := two_mul_mantissaFor_le (n := n) hd
    have hbound : overflowBound < 2 ^ (1024 : ℤ) := by
      rw [overflowBound, show (1024 : ℤ) = 54 + 970 by norm_num, zpow_add₀ (by norm_num)]
      gcongr
      norm_num
    have hmax : exponentFor n d ≤ maxExponent := by
      rcases hleast with he | he
      · rw [he]
        decide
      · have hlt : (2 : ℚ) ^ (52 + exponentFor n d) < 2 ^ (1024 : ℤ) :=
          (he.trans_lt h).trans hbound
        have := (zpow_lt_zpow_iff_right₀ (by norm_num : (1 : ℚ) < 2)).1 hlt
        simp only [maxExponent]
        omega
    rw [ofRatio_eq hn]
    by_cases hm : mantissaFor n d = mantissaLimit
    · have hcarry : exponentFor n d + 1 ≤ maxExponent := by
        by_contra hlt
        have he : exponentFor n d = 971 := by
          simp only [maxExponent] at *
          omega
        rw [hm, he, mantissaLimit_eq] at hhalf
        have htwo : 2 * ((n : ℚ) / d) < 2 * overflowBound := by linarith
        have hsame : (2 * ((2 ^ 53 : ℕ) : ℚ) - 1) * 2 ^ (971 : ℤ) = 2 * overflowBound := by
          rw [overflowBound, show (971 : ℤ) = 1 + 970 by norm_num, zpow_add₀ (by norm_num)]
          push_cast
          ring
        rw [hsame] at hhalf
        exact absurd hhalf (not_le.2 htwo)
      rw [if_pos hm, if_neg (by omega)]
      exact ⟨by decide, by omega, hcarry⟩
    · rw [if_neg hm, if_neg (by omega)]
      exact ⟨by omega, hmin, hmax⟩

/-- Rounding does not pass a number that has the form of a rounded one. -/
theorem ofRatio_le {n d : ℕ} (hd : 0 < d) {M : ℕ} {k : ℤ} (hM : M ≤ mantissaLimit)
    (hk : minExponent ≤ k) (h : (n : ℚ) / d ≤ M * 2 ^ k) {negative s : Bool} {m : ℕ} {e : ℤ}
    (hr : ofRatio negative n d = .finite s m e) : (m : ℚ) * 2 ^ e ≤ M * 2 ^ k := by
  by_cases hn : n = 0
  · rw [ofRatio, if_pos hn, zero, Binary64.finite.injEq] at hr
    rw [← hr.2.1, Nat.cast_zero, zero_mul]
    positivity
  have hpos : 0 < n := Nat.pos_of_ne_zero hn
  obtain ⟨hmin, hfits, hleast⟩ := exponentFor_spec hpos hd
  have hmantissa : (mantissaFor n d : ℚ) * 2 ^ exponentFor n d ≤ M * 2 ^ k := by
    by_cases hke : exponentFor n d ≤ k
    · obtain ⟨j, hj⟩ := Int.eq_ofNat_of_zero_le (show 0 ≤ k - exponentFor n d by omega)
      have hsplit : (M : ℚ) * 2 ^ k = ((M * 2 ^ j : ℕ) : ℚ) * 2 ^ exponentFor n d := by
        have hkj : k = j + exponentFor n d := by omega
        rw [hkj, zpow_add₀ (by norm_num), zpow_natCast]
        push_cast
        ring
      rw [hsplit] at h ⊢
      have := mantissaFor_le hd h
      gcongr
    · have he : (2 : ℚ) ^ (52 + exponentFor n d) ≤ n / d :=
        hleast.resolve_left (by omega)
      have hlow : (M : ℚ) * 2 ^ k ≤ 2 ^ (52 + exponentFor n d) := by
        calc (M : ℚ) * 2 ^ k ≤ 2 ^ (53 : ℤ) * 2 ^ (exponentFor n d - 1) := by
              have hM' : (M : ℚ) ≤ 2 ^ (53 : ℤ) := by
                rw [mantissaLimit_eq] at hM
                exact_mod_cast hM
              have hk' : (2 : ℚ) ^ k ≤ 2 ^ (exponentFor n d - 1) :=
                zpow_le_zpow_right₀ (by norm_num) (by omega)
              gcongr
          _ = 2 ^ (52 + exponentFor n d) := by
              rw [← zpow_add₀ (by norm_num)]
              congr 1
              ring
      have hsame : (n : ℚ) / d = 2 ^ (52 + exponentFor n d) := le_antisymm (h.trans hlow) he
      have hexact : (n : ℚ) / d ≤ ((2 ^ 52 : ℕ) : ℚ) * 2 ^ exponentFor n d := by
        rw [hsame, zpow_add₀ (by norm_num)]
        norm_num
      have := mantissaFor_le hd hexact
      calc (mantissaFor n d : ℚ) * 2 ^ exponentFor n d
          ≤ ((2 ^ 52 : ℕ) : ℚ) * 2 ^ exponentFor n d := by
            gcongr
        _ = 2 ^ (52 + exponentFor n d) := by
            rw [zpow_add₀ (by norm_num)]
            norm_num
        _ ≤ M * 2 ^ k := he.trans h
  rw [ofRatio_eq hn] at hr
  by_cases hm : mantissaFor n d = mantissaLimit
  · rw [if_pos hm] at hr
    split at hr
    · cases hr
    · rw [Binary64.finite.injEq] at hr
      rw [← hr.2.1, ← hr.2.2]
      rw [hm] at hmantissa
      calc ((mantissaLimit / 2 : ℕ) : ℚ) * 2 ^ (exponentFor n d + 1)
          = mantissaLimit * 2 ^ exponentFor n d := by
            rw [zpow_add₀ (by norm_num)]
            norm_num [mantissaLimit]
            ring
        _ ≤ M * 2 ^ k := hmantissa
  · rw [if_neg hm] at hr
    split at hr
    · cases hr
    · rw [Binary64.finite.injEq] at hr
      rw [← hr.2.1, ← hr.2.2]
      exact hmantissa

end Keyring.Binary64
