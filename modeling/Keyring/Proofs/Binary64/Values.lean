import Keyring.Proofs.Binary64.WholeNumbers

/-!
# Values of numbers

A finite number has a rational value, and two of them compare as their values do. Sums and quotients
of numbers without a sign are rounded once, and rounding a quotient depends on its value alone. What
is rounded lies at most half a unit above the quotient, and no number between the two is passed.
-/
namespace Keyring.Binary64

def value : Binary64 → ℚ
  | .finite negative m e => if negative then -(m * 2 ^ e) else m * 2 ^ e
  | _ => 0

@[simp] theorem value_zero (negative : Bool) : (zero negative).value = 0 := by
  cases negative <;> simp [zero, value]

theorem value_of_isWhole {f : Binary64} {n : ℕ} (h : f.IsWhole n) : f.value = n := by
  obtain ⟨m, e, rfl, -, hvalue⟩ := h
  simpa [value] using hvalue

theorem regular_of_isWhole {f : Binary64} {n : ℕ} (h : f.IsWhole n) : f.Regular := by
  obtain ⟨m, e, rfl, ⟨hlimit, hmin, hmax, -⟩, -⟩ := h
  exact ⟨hlimit, hmin, hmax⟩

/-! ## Comparison -/

/-- The signed mantissa at a lower exponent keeps the value. -/
theorem signedAt_mul (negative : Bool) (m : ℕ) {e target : ℤ} (h : target ≤ e) :
    (signedAt negative m e target : ℚ) * 2 ^ target = (finite negative m e).value := by
  obtain ⟨j, hj⟩ := Int.eq_ofNat_of_zero_le (show 0 ≤ e - target by omega)
  have he : e = j + target := by omega
  have hpow : (2 : ℚ) ^ e = 2 ^ j * 2 ^ target := by
    rw [he, zpow_add₀ (by norm_num), zpow_natCast]
  cases negative with
  | false =>
    rw [signedAt, hj, value, hpow]
    simp [mul_assoc]
  | true =>
    rw [signedAt, hj, value, hpow]
    simp [mul_assoc]

/-- Finite numbers compare as their values do. -/
theorem lt_iff_value_lt {f g : Binary64} (hf : f.Regular) (hg : g.Regular) :
    f.lt g = true ↔ f.value < g.value := by
  cases f with
  | nan => exact hf.elim
  | infinite s => exact hf.elim
  | finite s m e =>
    cases g with
    | nan => exact hg.elim
    | infinite t => exact hg.elim
    | finite t n k =>
      have hpos : (0 : ℚ) < 2 ^ min e k := by positivity
      rw [lt, decide_eq_true_eq, ← signedAt_mul s m (min_le_left e k),
        ← signedAt_mul t n (min_le_right e k), mul_lt_mul_iff_left₀ hpos, Int.cast_lt]

/-- The lesser of two finite numbers has the lesser value. -/
theorem minimum_spec {f g : Binary64} (hf : f.Regular) (hg : g.Regular) :
    (f.minimum g).Regular ∧ (f.minimum g).value = min f.value g.value := by
  have hdef : f.minimum g = if g.lt f then g else f := by
    cases f with
    | nan => exact hf.elim
    | infinite s => exact hf.elim
    | finite s m e =>
      cases g with
      | nan => exact hg.elim
      | infinite t => exact hg.elim
      | finite t n k => rfl
  rw [hdef]
  split
  next h => exact ⟨hg, (min_eq_right ((lt_iff_value_lt hg hf).1 h).le).symm⟩
  next h => exact ⟨hf, (min_eq_left (not_lt.1 (mt (lt_iff_value_lt hg hf).2 h))).symm⟩

/-- The greater of two finite numbers has the greater value. -/
theorem maximum_spec {f g : Binary64} (hf : f.Regular) (hg : g.Regular) :
    (f.maximum g).Regular ∧ (f.maximum g).value = max f.value g.value := by
  have hdef : f.maximum g = if f.lt g then g else f := by
    cases f with
    | nan => exact hf.elim
    | infinite s => exact hf.elim
    | finite s m e =>
      cases g with
      | nan => exact hg.elim
      | infinite t => exact hg.elim
      | finite t n k => rfl
  rw [hdef]
  split
  next h => exact ⟨hg, (max_eq_right ((lt_iff_value_lt hf hg).1 h).le).symm⟩
  next h => exact ⟨hf, (max_eq_left (not_lt.1 (mt (lt_iff_value_lt hf hg).2 h))).symm⟩

/-- A product is finite, infinite or no number. -/
theorem mul_cases (f g : Binary64) :
    (f.mul g).Regular ∨ (f.mul g).isInfinite = true ∨ f.mul g = nan := by
  cases f with
  | nan => exact Or.inr (Or.inr rfl)
  | infinite s =>
    cases g with
    | nan => exact Or.inr (Or.inr rfl)
    | infinite t => exact Or.inr (Or.inl rfl)
    | finite t n k =>
      rw [mul]
      split
      · exact Or.inr (Or.inr rfl)
      · exact Or.inr (Or.inl rfl)
  | finite s m e =>
    cases g with
    | nan => exact Or.inr (Or.inr rfl)
    | infinite t =>
      rw [mul]
      split
      · exact Or.inr (Or.inr rfl)
      · exact Or.inr (Or.inl rfl)
    | finite t n k =>
      rw [mul_finite, ← or_assoc]
      exact Or.inl (regular_or_infinite_ofRatio (scale_den_pos _ (by decide) _) _ _)

/-! ## Bounds -/

/-- A number that is not below a finite one, or is no number, gives way to it. -/
theorem minimum_of_not_lt {f g : Binary64} (hf : f.Regular ∨ f.isInfinite = true ∨ f = nan)
    (hg : g.Regular) (h : f.lt g = false) :
    (f.minimum g).Regular ∧ (f.minimum g).value = g.value := by
  rcases hf with hregular | hinfinite | rfl
  · obtain ⟨hmin, hvalue⟩ := minimum_spec hregular hg
    have hle : g.value ≤ f.value := by
      rw [← not_lt, ← lt_iff_value_lt hregular hg, h]
      exact Bool.false_ne_true
    exact ⟨hmin, hvalue.trans (min_eq_right hle)⟩
  · cases f with
    | nan | finite => cases hinfinite
    | infinite s =>
      cases g with
      | nan => exact hg.elim
      | infinite t => exact hg.elim
      | finite t n k =>
        have hpositive : s = false := h
        rw [hpositive]
        exact ⟨hg, rfl⟩
  · cases g with
    | nan => exact hg.elim
    | infinite t => exact hg.elim
    | finite t n k => exact ⟨hg, rfl⟩

/-- A number below a finite one stays below it, or becomes zero, when it is made not negative. -/
theorem maximum_zero_of_lt {f g : Binary64} (hf : f.Regular ∨ f.isInfinite = true ∨ f = nan)
    (hg : g.Regular) (h : f.lt g = true) :
    ((f.minimum g).maximum (zero false)).Regular ∧
      0 ≤ ((f.minimum g).maximum (zero false)).value ∧
      (((f.minimum g).maximum (zero false)).value = 0 ∨
        ((f.minimum g).maximum (zero false)).value < g.value) := by
  rcases hf with hregular | hinfinite | rfl
  · obtain ⟨hmin, hminValue⟩ := minimum_spec hregular hg
    obtain ⟨hmax, hmaxValue⟩ := maximum_spec hmin (regular_zero false)
    have hlt := (lt_iff_value_lt hregular hg).1 h
    rw [hminValue, min_eq_left hlt.le, value_zero] at hmaxValue
    refine ⟨hmax, hmaxValue ▸ le_max_right _ _, ?_⟩
    rcases max_choice f.value 0 with hchoice | hchoice
    · exact Or.inr (by rw [hmaxValue, hchoice]; exact hlt)
    · exact Or.inl (hmaxValue.trans hchoice)
  · cases f with
    | nan | finite => cases hinfinite
    | infinite s =>
      cases g with
      | nan => exact hg.elim
      | infinite t => exact hg.elim
      | finite t n k =>
        have hnegative : s = true := h
        have hzero : ((infinite true).minimum (finite t n k)).maximum (zero false) = zero false :=
          rfl
        rw [hnegative, hzero, value_zero]
        exact ⟨regular_zero false, le_rfl, Or.inl rfl⟩
  · cases h

/-! ## Equal quotients -/

theorem nearest_mul_right (n d : ℕ) {c : ℕ} (hc : 0 < c) :
    nearest (n * c) (d * c) = nearest n d := by
  have hlt : 2 * (n % d * c) < d * c ↔ 2 * (n % d) < d := by
    rw [← Nat.mul_assoc, Nat.mul_lt_mul_right hc]
  have hgt : d * c < 2 * (n % d * c) ↔ d < 2 * (n % d) := by
    rw [← Nat.mul_assoc, Nat.mul_lt_mul_right hc]
  simp only [nearest, Nat.mul_div_mul_right _ _ hc, Nat.mul_mod_mul_right, hlt, hgt]

/-- The nearest integer depends on the quotient alone. -/
theorem nearest_congr {n d n' d' : ℕ} (hd : 0 < d) (hd' : 0 < d') (h : (n : ℚ) / d = n' / d') :
    nearest n d = nearest n' d' := by
  have hcross : n * d' = n' * d := by
    rw [div_eq_div_iff (by positivity) (by positivity)] at h
    exact_mod_cast h
  calc nearest n d = nearest (n * d') (d * d') := (nearest_mul_right n d hd').symm
    _ = nearest (n' * d) (d' * d) := by rw [hcross, Nat.mul_comm d d']
    _ = nearest n' d' := nearest_mul_right n' d' hd

/-- A quotient in the lower half between two integers is rounded to the lower one. -/
theorem nearest_eq_of_lt {n d k : ℕ} (hlow : k * d ≤ n) (hhigh : 2 * n < (2 * k + 1) * d) :
    nearest n d = k := by
  have hsplit : (2 * k + 1) * d = 2 * (k * d) + d := by ring
  have hdiv : n / d = k := by
    apply Nat.div_eq_of_lt_le hlow
    rw [Nat.succ_mul]
    omega
  have hmod := Nat.div_add_mod n d
  rw [hdiv, Nat.mul_comm] at hmod
  simp only [nearest, hdiv]
  rw [if_pos (by omega)]

/-- Rounding depends on the quotient alone. -/
theorem ofRatio_congr {n d n' d' : ℕ} (hd : 0 < d) (hd' : 0 < d') (h : (n : ℚ) / d = n' / d')
    (negative : Bool) : ofRatio negative n d = ofRatio negative n' d' := by
  have hzero : n = 0 ↔ n' = 0 := by
    have hquotient : (n : ℚ) / d = 0 ↔ (n' : ℚ) / d' = 0 := by rw [h]
    simpa [hd.ne', hd'.ne'] using hquotient
  by_cases hn : n = 0
  · rw [ofRatio, ofRatio, if_pos hn, if_pos (hzero.1 hn)]
  have hn' : n' ≠ 0 := mt hzero.2 hn
  have hexponent : exponentFor n d = exponentFor n' d' := by
    obtain ⟨hmin, hfits, hleast⟩ := exponentFor_spec (Nat.pos_of_ne_zero hn') hd'
    rw [← h] at hfits hleast
    exact exponentFor_eq (Nat.pos_of_ne_zero hn) hd hmin hfits hleast
  have hmantissa : mantissaFor n d = mantissaFor n' d' := by
    rw [mantissaFor, mantissaFor, hexponent]
    apply nearest_congr (scale_den_pos n hd _) (scale_den_pos n' hd' _)
    rw [scale_value n hd, scale_value n' hd', h]
  rw [ofRatio_eq hn, ofRatio_eq hn', hexponent, hmantissa]

theorem exists_quotient {q : ℚ} (h : 0 ≤ q) : ∃ n d : ℕ, 0 < d ∧ (n : ℚ) / d = q := by
  obtain ⟨n, hn⟩ := Int.eq_ofNat_of_zero_le (Rat.num_nonneg.2 h)
  refine ⟨n, q.den, q.den_pos, ?_⟩
  have hnum := Rat.num_div_den q
  rwa [hn, Int.cast_natCast] at hnum

/-! ## Sums and quotients without a sign -/

/-- A sum is the rounded sum of the values. -/
theorem add_eq_ofRatio (m n : ℕ) (e f : ℤ) {p q : ℕ} (hq : 0 < q)
    (h : (p : ℚ) / q = m * 2 ^ e + n * 2 ^ f) :
    (finite false m e).add (finite false n f) = ofRatio false p q := by
  obtain ⟨k, hk⟩ : ∃ k : ℕ, signedAt false m e (min e f) + signedAt false n f (min e f) = k :=
    ⟨m * 2 ^ (e - min e f).toNat + n * 2 ^ (f - min e f).toNat, by simp [signedAt]⟩
  have hvalue : (k : ℚ) * 2 ^ min e f = p / q := by
    have hsum := congrArg (fun z : ℤ => (z : ℚ) * 2 ^ min e f) hk
    simp only [Int.cast_add, add_mul, signedAt_mul false m (min_le_left e f),
      signedAt_mul false n (min_le_right e f), Int.cast_natCast] at hsum
    rw [h, ← hsum]
    simp [value]
  simp only [add, hk]
  by_cases hzero : k = 0
  · have hp : p = 0 := by
      rw [hzero, Nat.cast_zero, zero_mul, eq_comm, div_eq_zero_iff] at hvalue
      exact_mod_cast hvalue.resolve_right (by positivity)
    rw [if_pos (by exact_mod_cast hzero), Bool.and_self, ofRatio, if_pos hp]
  · have hsign : decide ((k : ℤ) < 0) = false := by simp
    have hquotient : ((scale k 1 (min e f)).1 : ℚ) / (scale k 1 (min e f)).2 = p / q := by
      rw [scale_value k (by decide), Nat.cast_one, div_one, hvalue]
    rw [if_neg (by exact_mod_cast hzero), hsign, Int.natAbs_natCast]
    exact ofRatio_congr (scale_den_pos k (by decide) _) hq hquotient false

/-- A quotient is the rounded quotient of the values. -/
theorem div_eq_ofRatio (m : ℕ) {n : ℕ} (hn : n ≠ 0) (e f : ℤ) {p q : ℕ} (hq : 0 < q)
    (h : (p : ℚ) / q = m * 2 ^ e / (n * 2 ^ f)) :
    (finite false m e).div (finite false n f) = ofRatio false p q := by
  have hdiv : (finite false m e).div (finite false n f) =
      ofRatio false (scale m n (e - f)).1 (scale m n (e - f)).2 := by
    simp only [div, if_neg hn, bne_self_eq_false]
  rw [hdiv]
  apply ofRatio_congr (scale_den_pos m (Nat.pos_of_ne_zero hn) _) hq
  rw [scale_value m (Nat.pos_of_ne_zero hn), h, zpow_sub₀ (by norm_num)]
  field_simp

theorem div_of_isWhole {f g : Binary64} {n k : ℕ} (hf : f.IsWhole n) (hg : g.IsWhole k)
    (hk : 0 < k) : f.div g = ofRatio false n k := by
  obtain ⟨m, e, rfl, -, hm⟩ := hf
  obtain ⟨m', e', rfl, -, hm'⟩ := hg
  have hne : m' ≠ 0 := by
    rintro rfl
    rw [Nat.cast_zero, zero_mul] at hm'
    exact hk.ne (by exact_mod_cast hm')
  exact div_eq_ofRatio m hne e e' hk (by rw [hm, hm'])

/-! ## Rounded quotients -/

/-- A quotient that stays finite becomes a number without a sign, whose value is that of its
mantissa before a carry. -/
theorem ofRatio_eq_finite {n d : ℕ} (hr : (ofRatio false n d).Regular) :
    ∃ m e, ofRatio false n d = .finite false m e ∧
      (n ≠ 0 → (m : ℚ) * 2 ^ e = mantissaFor n d * 2 ^ exponentFor n d) := by
  by_cases hn : n = 0
  · exact ⟨0, minExponent, by rw [ofRatio, if_pos hn, zero], fun hne => absurd hn hne⟩
  rw [ofRatio_eq hn] at hr ⊢
  by_cases hcarry : mantissaFor n d = mantissaLimit
  · rw [if_pos hcarry] at hr ⊢
    split at hr
    · exact hr.elim
    next he =>
      refine ⟨_, _, by rw [if_neg he], fun _ => ?_⟩
      rw [hcarry, zpow_add₀ (by norm_num)]
      norm_num [mantissaLimit]
      ring
  · rw [if_neg hcarry] at hr ⊢
    split at hr
    · exact hr.elim
    next he => exact ⟨_, _, by rw [if_neg he], fun _ => rfl⟩

theorem value_ofRatio_nonneg {n d : ℕ} (hr : (ofRatio false n d).Regular) :
    0 ≤ (ofRatio false n d).value := by
  obtain ⟨m, e, hf, -⟩ := ofRatio_eq_finite hr
  rw [hf, value, if_neg Bool.false_ne_true]
  positivity

/-- A rounded quotient does not pass a number. -/
theorem value_ofRatio_le {n d : ℕ} (hd : 0 < d) (hr : (ofRatio false n d).Regular) {M : ℕ} {k : ℤ}
    (hM : M ≤ mantissaLimit) (hk : minExponent ≤ k) (h : (n : ℚ) / d ≤ M * 2 ^ k) :
    (ofRatio false n d).value ≤ M * 2 ^ k := by
  obtain ⟨m, e, hf, -⟩ := ofRatio_eq_finite hr
  have hle := ofRatio_le hd hM hk h hf
  rw [hf, value, if_neg Bool.false_ne_true]
  exact hle

/-- Numbers below a rounded quotient are below the quotient. -/
theorem value_lt_of_lt_ofRatio {f : Binary64} (hf : f.Regular) {n d : ℕ} (hd : 0 < d)
    (hr : (ofRatio false n d).Regular) (h : f.value < (ofRatio false n d).value) :
    f.value < n / d := by
  by_cases hn : n = 0
  · rw [ofRatio, if_pos hn, value_zero] at h
    rw [hn, Nat.cast_zero, zero_div]
    exact h
  cases f with
  | nan => exact hf.elim
  | infinite s => exact hf.elim
  | finite s m e =>
    cases s with
    | true =>
      have hquotient : (0 : ℚ) < n / d := by positivity
      have hmagnitude : (0 : ℚ) ≤ m * 2 ^ e := by positivity
      rw [value, if_pos rfl]
      linarith
    | false =>
      rw [value, if_neg Bool.false_ne_true] at h ⊢
      by_contra hle
      exact absurd h (not_lt.2 (value_ofRatio_le hd hr hf.1.le hf.2.1 (not_lt.1 hle)))

/-- A rounded quotient is at most half a unit above the quotient. -/
theorem value_ofRatio_le_add {n d : ℕ} (hn : 0 < n) (hd : 0 < d)
    (hr : (ofRatio false n d).Regular) :
    (ofRatio false n d).value ≤ n / d + 2 ^ (exponentFor n d - 1) := by
  have hhalf := two_mul_mantissaFor_le (n := n) hd
  have hunit : (2 : ℚ) ^ exponentFor n d = 2 * 2 ^ (exponentFor n d - 1) := by
    rw [show exponentFor n d = 1 + (exponentFor n d - 1) by ring, zpow_add₀ (by norm_num), zpow_one]
    congr 2
    ring
  obtain ⟨m, e, hf, hvalue⟩ := ofRatio_eq_finite hr
  rw [hf, value, if_neg Bool.false_ne_true, hvalue hn.ne']
  linarith

/-- Below a power of two, half a unit is bounded by that power. -/
theorem value_ofRatio_le_of_lt {n d : ℕ} (hd : 0 < d) {k : ℤ} (hk : minExponent ≤ k)
    (hr : (ofRatio false n d).Regular) (h : (n : ℚ) / d < 2 ^ (53 + k)) :
    (ofRatio false n d).value ≤ n / d + 2 ^ (k - 1) := by
  by_cases hn : n = 0
  · rw [ofRatio, if_pos hn, value_zero]
    positivity
  have hpos := Nat.pos_of_ne_zero hn
  have hle : exponentFor n d ≤ k := by
    rcases (exponentFor_spec hpos hd).2.2 with he | he
    · omega
    · have := (zpow_lt_zpow_iff_right₀ (by norm_num : (1 : ℚ) < 2)).1 (he.trans_lt h)
      omega
  have hunit : (2 : ℚ) ^ (exponentFor n d - 1) ≤ 2 ^ (k - 1) :=
    zpow_le_zpow_right₀ (by norm_num) (by omega)
  linarith [value_ofRatio_le_add hpos hd hr]

/-- From one on, half a unit is at most one part in `2 ^ 53`. -/
theorem value_ofRatio_le_of_one_le {n d : ℕ} (hd : 0 < d) (hr : (ofRatio false n d).Regular)
    (h : 1 ≤ (n : ℚ) / d) : (ofRatio false n d).value ≤ n / d + n / d / 2 ^ 53 := by
  have hpos : 0 < n := by
    rcases Nat.eq_zero_or_pos n with rfl | hpos
    · norm_num at h
    · exact hpos
  obtain ⟨-, hfits, hleast⟩ := exponentFor_spec hpos hd
  have hlow : (2 : ℚ) ^ (52 + exponentFor n d) ≤ n / d := by
    refine hleast.resolve_left fun he => ?_
    rw [he] at hfits
    have hone : (2 : ℚ) ^ (53 + minExponent) ≤ 2 ^ (0 : ℤ) :=
      zpow_le_zpow_right₀ (by norm_num) (by decide)
    rw [zpow_zero] at hone
    exact absurd (h.trans_lt hfits) (not_lt.2 hone)
  have hunit : (2 : ℚ) ^ (exponentFor n d - 1) ≤ n / d / 2 ^ 53 := by
    rw [le_div_iff₀ (by positivity)]
    calc (2 : ℚ) ^ (exponentFor n d - 1) * 2 ^ 53 = 2 ^ (52 + exponentFor n d) := by
          rw [← zpow_natCast (2 : ℚ) 53, ← zpow_add₀ (by norm_num)]
          congr 1
          push_cast
          ring
      _ ≤ n / d := hlow
  linarith [value_ofRatio_le_add hpos hd hr]

/-- What is less than half a unit goes away in a sum. -/
theorem ofRatio_add_of_lt {m : ℕ} {e : ℤ} (hc : Canonical m e) (hfull : mantissaLimit ≤ 2 * m)
    {n d : ℕ} (hd : 0 < d) (hlow : m * 2 ^ e ≤ (n : ℚ) / d)
    (hhigh : (n : ℚ) / d < m * 2 ^ e + 2 ^ (e - 1)) : ofRatio false n d = .finite false m e := by
  obtain ⟨hlimit, hmin, hmax, -⟩ := hc
  rw [mantissaLimit_eq] at hlimit hfull
  have hmpos : 0 < m := by omega
  have hn : n ≠ 0 := by
    rintro rfl
    have : (0 : ℚ) < m * 2 ^ e := by positivity
    rw [Nat.cast_zero, zero_div] at hlow
    linarith
  have hunit : (2 : ℚ) ^ e = 2 * 2 ^ (e - 1) := by
    rw [show e = 1 + (e - 1) by ring, zpow_add₀ (by norm_num), zpow_one]
    congr 2
    ring
  have hhalf : (0 : ℚ) < 2 ^ (e - 1) := by positivity
  have hexponent : exponentFor n d = e := by
    apply exponentFor_eq (Nat.pos_of_ne_zero hn) hd hmin
    · have hm : (m : ℚ) + 1 ≤ 2 ^ (53 : ℤ) := by exact_mod_cast hlimit
      calc (n : ℚ) / d < m * 2 ^ e + 2 ^ (e - 1) := hhigh
        _ ≤ (m + 1) * 2 ^ e := by linarith
        _ ≤ 2 ^ (53 : ℤ) * 2 ^ e := by gcongr
        _ = 2 ^ (53 + e) := (zpow_add₀ (by norm_num) _ _).symm
    · right
      have hm : (2 : ℚ) ^ (52 : ℤ) ≤ m := by exact_mod_cast (show 2 ^ 52 ≤ m by omega)
      calc (2 : ℚ) ^ (52 + e) = 2 ^ (52 : ℤ) * 2 ^ e := zpow_add₀ (by norm_num) _ _
        _ ≤ m * 2 ^ e := by gcongr
        _ ≤ n / d := hlow
  have hmantissa : mantissaFor n d = m := by
    have hpos := scale_den_pos n hd (-e)
    have hpos' : (0 : ℚ) < (scale n d (-e)).2 := by exact_mod_cast hpos
    have hvalue := scale_value n hd (-e)
    rw [zpow_neg, ← div_eq_mul_inv, div_eq_iff hpos'.ne'] at hvalue
    rw [mantissaFor, hexponent]
    apply nearest_eq_of_lt
    · have hle : (m : ℚ) * (scale n d (-e)).2 ≤ (scale n d (-e)).1 := by
        rw [hvalue]
        gcongr
        rwa [le_div_iff₀ (by positivity)]
      exact_mod_cast hle
    · have hlt : 2 * ((scale n d (-e)).1 : ℚ) < (2 * m + 1) * (scale n d (-e)).2 := by
        rw [hvalue, ← mul_assoc]
        gcongr
        rw [← mul_div_assoc, div_lt_iff₀ (by positivity)]
        linarith
      exact_mod_cast hlt
  rw [ofRatio_eq hn, hmantissa, hexponent, if_neg (by rw [mantissaLimit_eq]; omega),
    if_neg (not_lt.2 hmax)]

end Keyring.Binary64
