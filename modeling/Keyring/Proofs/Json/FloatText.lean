import Keyring.Proofs.Json.ScaledNumber

/-!
# Texts of floating-point numbers

The text of a floating-point number has a point or an exponent, so it is never read as an integer,
and its decimal is never too large. It is therefore read back as a floating-point number.
-/
namespace Keyring.Json.Number

open Binary64 (Decimal10 shortest)

/-! ## Parts with a point or an exponent -/

namespace Parts

/-- The digits of the parts as one number. -/
def coefficient (p : Parts) : ℕ := valueFrom 0 (p.integer ++ p.fraction)

/-- The exponent that is written. -/
def shift (p : Parts) : ℤ :=
  match p.exponent with
  | none => 0
  | some (down, digits) => if down then -digitsValue digits else digitsValue digits

/-- The power of ten of the last digit. -/
def power (p : Parts) : ℤ := p.shift - p.fraction.length

end Parts

/-- Parts that are not an integer are read as a coefficient and a power of ten. -/
theorem ofWritten?_decimal {p : Parts} (hp : p.Plain) (hkind : p.fraction ≠ [] ∨ p.exponent ≠ none)
    (hword : p.coefficient < wordLimit) (hshift : p.shift ≤ exponentLimit)
    (hread : Readable p.coefficient p.power) :
    ∃ g, g.Regular ∧ ofWritten? p.write = some (.float g) := by
  have hsum : p.coefficient = valueFrom (valueFrom 0 p.integer) p.fraction := valueFrom_append _ _ _
  have hwhole : valueFrom 0 p.integer < wordLimit :=
    Nat.lt_of_le_of_lt (hsum ▸ le_valueFrom _ _) hword
  have hfraction := foldl_pushFraction p.fraction (valueFrom 0 p.integer) 0 (hsum ▸ hword)
  rw [← hsum, zero_sub] at hfraction
  rw [ofWritten?, ofWritten_write hp]
  dsimp only
  rw [foldl_pushInteger p.integer 0 0 hwhole]
  have hnot : ¬ (p.fraction = [] ∧ p.exponent = none) := fun hboth =>
    hkind.elim (fun hne => hne hboth.1) fun hne => hne hboth.2
  split
  next hf he => exact absurd ⟨hf, he⟩ hnot
  next =>
    rw [hfraction]
    split
    next he =>
      have hpower : p.power = -(p.fraction.length : ℤ) := by simp [Parts.power, Parts.shift, he]
      rw [hpower] at hread
      exact ofParts?_readable p.negative hword hread
    next down digits he =>
      have hsize : p.shift = if down then -(digitsValue digits : ℤ) else digitsValue digits := by
        rw [Parts.shift, he]
      split
      next hlarge =>
        cases down with
        | true =>
          rw [if_neg (by simp)]
          exact ⟨_, Binary64.regular_zero p.negative, rfl⟩
        | false =>
          rw [if_neg Bool.false_ne_true] at hsize
          omega
      next =>
        have hpower : (if down then -(p.fraction.length : ℤ) - digitsValue digits
            else -(p.fraction.length : ℤ) + digitsValue digits) = p.power := by
          rw [Parts.power, hsize]
          cases down <;> simp <;> ring
        rw [hpower]
        exact ofParts?_readable p.negative hword hread

/-! ## Layout -/

theorem length_digitBytes (n : ℕ) : (digitBytes n).length = n.repr.length := by
  simp [digitBytes, Nat.repr_eq_ofList_toDigits]

theorem lt_pow_length_digitBytes (n : ℕ) : n < 10 ^ (digitBytes n).length := by
  rw [length_digitBytes]
  exact (Nat.length_repr_le_iff Nat.length_repr_pos).1 (Nat.le_refl _)

theorem length_digitBytes_pos (n : ℕ) : 0 < (digitBytes n).length := by
  rw [length_digitBytes]
  exact Nat.length_repr_pos

/-- A run of the digit zero. -/
def zeroBytes (n : ℕ) : Bytes := List.replicate n 0x30

theorem all_isDigit_zeroBytes (n : ℕ) : (zeroBytes n).all Token.isDigit = true := by
  rw [List.all_eq_true]
  intro b hb
  rw [List.eq_of_mem_replicate hb]
  rfl

theorem valueFrom_zeroBytes (v n : ℕ) : valueFrom v (zeroBytes n) = v * 10 ^ n := by
  induction n generalizing v with
  | zero => simp [zeroBytes, valueFrom]
  | succ n ih =>
    have hstep : valueFrom v (zeroBytes (n + 1)) = valueFrom (10 * v + 0) (zeroBytes n) := rfl
    rw [hstep, ih, Nat.add_zero, Nat.pow_succ]
    ring

/-- The place behind which the point stands. -/
def pointPlace (d : Decimal10) : ℤ := (digitBytes d.coefficient).length + d.exponent

/-- The parts that the text of a decimal has. -/
def Parts.ofDecimal (negative : Bool) (d : Decimal10) : Parts :=
  let digits := digitBytes d.coefficient
  if 0 ≤ d.exponent ∧ pointPlace d ≤ 16 then
    ⟨negative, digits ++ zeroBytes d.exponent.toNat, [0x30], none⟩
  else if -5 < pointPlace d ∧ pointPlace d ≤ 16 then
    if pointPlace d ≤ 0 then ⟨negative, [0x30], zeroBytes (-pointPlace d).toNat ++ digits, none⟩
    else
      ⟨negative, digits.take (pointPlace d).toNat, digits.drop (pointPlace d).toNat, none⟩
  else
    ⟨negative, digits.take 1, digits.drop 1,
      some (decide (pointPlace d ≤ 0), digitBytes (pointPlace d - 1).natAbs)⟩

theorem all_isDigit_take (n k : ℕ) : ((digitBytes n).take k).all Token.isDigit = true := by
  have h := List.all_eq_true.1 (all_isDigit_digitBytes n)
  exact List.all_eq_true.2 fun b hb => h b (List.mem_of_mem_take hb)

theorem all_isDigit_drop (n k : ℕ) : ((digitBytes n).drop k).all Token.isDigit = true := by
  have h := List.all_eq_true.1 (all_isDigit_digitBytes n)
  exact List.all_eq_true.2 fun b hb => h b (List.mem_of_mem_drop hb)

theorem take_digitBytes_ne_nil (n : ℕ) {k : ℕ} (hk : 0 < k) : (digitBytes n).take k ≠ [] := by
  have := length_digitBytes_pos n
  rw [ne_eq, List.take_eq_nil_iff]
  rintro (hzero | hnil)
  · omega
  · exact digitBytes_ne_nil n hnil

theorem leading_take (n k : ℕ) (rest : Bytes) (h : (digitBytes n).take k = 0x30 :: rest) :
    rest = [] := by
  cases k with
  | zero => cases h
  | succ k =>
    cases hd : digitBytes n with
    | nil => exact absurd hd (digitBytes_ne_nil n)
    | cons b more =>
      rw [hd, List.take_succ_cons, List.cons.injEq] at h
      have hmore := leading_digitBytes n more (h.1 ▸ hd)
      rw [hmore, List.take_nil] at h
      exact h.2.symm

theorem leading_append_zeros {n k : ℕ} (hn : n = 0 → k = 0) (rest : Bytes)
    (h : digitBytes n ++ zeroBytes k = 0x30 :: rest) : rest = [] := by
  by_cases hz : n = 0
  · rw [hz, hn hz] at h
    exact (List.cons.inj h).2.symm
  · cases hd : digitBytes n with
    | nil => exact absurd hd (digitBytes_ne_nil n)
    | cons b more =>
      rw [hd, List.cons_append, List.cons.injEq] at h
      have hmore := leading_digitBytes n more (h.1 ▸ hd)
      have hvalue := valueFrom_digitBytes n
      rw [hd, hmore, h.1] at hvalue
      exact absurd hvalue.symm hz

theorem plain_ofDecimal (negative : Bool) {d : Decimal10}
    (h : d.coefficient = 0 → d.exponent = 0) : (Parts.ofDecimal negative d).Plain := by
  have hzero : d.coefficient = 0 → d.exponent.toNat = 0 := fun hc => by rw [h hc]; rfl
  unfold Parts.ofDecimal
  dsimp only
  split
  · constructor
    · simp
    · simp [all_isDigit_zeroBytes]
    · exact leading_append_zeros hzero
    · rfl
    · simp
    · simp
  · split
    · split
      · constructor
        · simp
        · rfl
        · exact fun rest hr => (List.cons.inj hr).2.symm
        · simp [all_isDigit_zeroBytes]
        · simp
        · simp
      next hplace =>
        constructor
        · exact take_digitBytes_ne_nil _ (by omega)
        · exact all_isDigit_take _ _
        · exact leading_take _ _
        · exact all_isDigit_drop _ _
        · simp
        · simp
    · constructor
      · exact take_digitBytes_ne_nil _ (by omega)
      · exact all_isDigit_take _ _
      · exact leading_take _ _
      · exact all_isDigit_drop _ _
      · rintro down digits hd
        simp only [Option.some.injEq, Prod.mk.injEq] at hd
        exact hd.2 ▸ digitBytes_ne_nil _
      · rintro down digits hd
        simp only [Option.some.injEq, Prod.mk.injEq] at hd
        exact hd.2 ▸ all_isDigit_digitBytes _

/-! ## The written layout -/

theorem ofAscii_zeros (k : ℤ) : Bytes.ofAscii (Binary64.zeros k) = zeroBytes k.toNat := by
  rw [Binary64.zeros, ofAscii_ofList, List.map_replicate]
  rfl

theorem ofAscii_pointed (n : ℕ) (place : ℤ) :
    Bytes.ofAscii (Binary64.pointed n.repr place) =
      if place ≤ 0 then 0x30 :: 0x2e :: (zeroBytes (-place).toNat ++ digitBytes n)
      else (digitBytes n).take place.toNat ++ 0x2e :: (digitBytes n).drop place.toNat := by
  unfold Binary64.pointed
  dsimp only
  split
  · rw [ofAscii_append, ofAscii_append, ofAscii_zeros, ofAscii_repr]
    rfl
  · rw [ofAscii_append, ofAscii_append, ofAscii_ofList, ofAscii_ofList, Nat.toList_repr]
    simp [digitBytes, Bytes.ofAscii]

/-- The text of a decimal behind the sign. -/
def decimalText (d : Decimal10) : String :=
  if 0 ≤ d.exponent ∧ pointPlace d ≤ 16 then d.coefficient.repr ++ Binary64.zeros d.exponent ++ ".0"
  else if -5 < pointPlace d ∧ pointPlace d ≤ 16 then
    Binary64.pointed d.coefficient.repr (pointPlace d)
  else
    let mark := (if 0 < pointPlace d then "e+" else "e") ++ toString (pointPlace d - 1)
    if d.coefficient.repr.length = 1 then d.coefficient.repr ++ mark
    else Binary64.pointed d.coefficient.repr 1 ++ mark

theorem jsonText_eq (negative : Bool) (m : ℕ) (e : ℤ) :
    (Binary64.finite negative m e).jsonText =
      Binary64.signed negative (decimalText (shortest m e)) := by
  by_cases hm : m = 0
  · have hnull : shortest m e = ⟨0, 0⟩ := if_pos hm
    have htext : decimalText ⟨0, 0⟩ = "0.0" := by decide
    rw [hnull, htext, Binary64.jsonText]
    dsimp only
    rw [if_pos hm]
  · have hplace : ((toString (shortest m e).coefficient).length : ℤ) + (shortest m e).exponent =
        pointPlace (shortest m e) := by
      rw [pointPlace, length_digitBytes]
      rfl
    rw [Binary64.jsonText]
    dsimp only
    rw [hplace, if_neg hm]
    rfl

theorem ofAscii_signed (negative : Bool) (text : String) :
    Bytes.ofAscii (Binary64.signed negative text) =
      if negative then 0x2d :: Bytes.ofAscii text else Bytes.ofAscii text := by
  cases negative
  · rfl
  · rw [Binary64.signed, if_pos rfl, ofAscii_append]
    rfl

theorem ofAscii_mark (place : ℤ) :
    Bytes.ofAscii ((if 0 < place then "e+" else "e") ++ toString (place - 1)) =
      writeExponent (some (decide (place ≤ 0), digitBytes (place - 1).natAbs)) := by
  rw [ofAscii_append, Int.toString_eq_repr, Int.repr_eq_if, writeExponent]
  by_cases hplace : 0 < place
  · have habs : (place - 1).toNat = (place - 1).natAbs := by omega
    rw [if_pos hplace, if_pos (by omega), ofAscii_repr, habs, decide_eq_false (by omega)]
    rfl
  · have habs : (-(place - 1)).toNat = (place - 1).natAbs := by omega
    rw [if_neg hplace, if_neg (by omega), ofAscii_append, ofAscii_repr, habs,
      decide_eq_true (by omega)]
    rfl

theorem body_ofDecimal (negative : Bool) (d : Decimal10) :
    Bytes.ofAscii (decimalText d) = (Parts.ofDecimal negative d).body := by
  unfold decimalText Parts.ofDecimal
  dsimp only
  split
  next =>
    rw [ofAscii_append, ofAscii_append, ofAscii_repr, ofAscii_zeros]
    simp [Parts.body, writeFraction, writeExponent, Bytes.ofAscii]
  next hplain =>
    split
    next hpointed =>
      rw [ofAscii_pointed]
      split
      next =>
        cases hrest : zeroBytes (-pointPlace d).toNat ++ digitBytes d.coefficient with
        | nil => simp at hrest
        | cons b more => simp [Parts.body, writeFraction, writeExponent]
      next hplace =>
        have hshort : (pointPlace d).toNat < (digitBytes d.coefficient).length := by
          simp only [pointPlace] at *
          omega
        cases hrest : (digitBytes d.coefficient).drop (pointPlace d).toNat with
        | nil =>
          rw [List.drop_eq_nil_iff] at hrest
          omega
        | cons b more => simp [Parts.body, writeFraction, writeExponent]
    next =>
      have hmark := ofAscii_mark (pointPlace d)
      split
      next hone =>
        have hlength : (digitBytes d.coefficient).length = 1 := by rw [length_digitBytes, hone]
        have htake : (digitBytes d.coefficient).take 1 = digitBytes d.coefficient :=
          List.take_of_length_le hlength.le
        have hdrop : (digitBytes d.coefficient).drop 1 = [] :=
          List.drop_eq_nil_iff.2 hlength.le
        rw [ofAscii_append, ofAscii_repr, hmark, Parts.body]
        dsimp only
        rw [htake, hdrop, writeFraction, List.nil_append]
      next hmany =>
        have hpos := length_digitBytes_pos d.coefficient
        rw [← length_digitBytes] at hmany
        rw [ofAscii_append, ofAscii_pointed, if_neg (by omega), hmark, Parts.body]
        dsimp only
        cases hrest : (digitBytes d.coefficient).drop 1 with
        | nil =>
          rw [List.drop_eq_nil_iff] at hrest
          omega
        | cons b more => simp [writeFraction, hrest]

/-- The text of a finite number is written by the parts of its decimal. -/
theorem write_ofDecimal (negative : Bool) (m : ℕ) (e : ℤ) :
    Bytes.ofAscii (Binary64.finite negative m e).jsonText =
      (Parts.ofDecimal negative (shortest m e)).write := by
  have hsign : (Parts.ofDecimal negative (shortest m e)).negative = negative := by
    unfold Parts.ofDecimal
    dsimp only
    split
    · rfl
    · split
      · split <;> rfl
      · rfl
  rw [jsonText_eq, ofAscii_signed, Parts.write, hsign, body_ofDecimal negative]

/-! ## Reading back -/

/-- What the parts of a decimal are worth: the decimal itself, or an integer with one zero behind
the point. -/
theorem coefficient_ofDecimal (negative : Bool) (d : Decimal10) :
    (Parts.ofDecimal negative d).coefficient = d.coefficient ∧
        (Parts.ofDecimal negative d).power = d.exponent ∨
      (Parts.ofDecimal negative d).coefficient < 10 ^ 17 ∧
        (Parts.ofDecimal negative d).power = -1 := by
  have hvalue := valueFrom_digitBytes d.coefficient
  unfold Parts.ofDecimal
  dsimp only
  split
  next hplain =>
    right
    have hlt := lt_pow_length_digitBytes d.coefficient
    have hplace : (digitBytes d.coefficient).length + d.exponent.toNat ≤ 16 := by
      simp only [pointPlace] at hplain
      omega
    constructor
    · rw [Parts.coefficient]
      dsimp only
      rw [valueFrom_append, valueFrom_append, hvalue, valueFrom_zeroBytes]
      have hpow : d.coefficient * 10 ^ d.exponent.toNat < 10 ^ 16 := by
        calc d.coefficient * 10 ^ d.exponent.toNat
            < 10 ^ (digitBytes d.coefficient).length * 10 ^ d.exponent.toNat :=
              Nat.mul_lt_mul_of_pos_right hlt (by positivity)
          _ = 10 ^ ((digitBytes d.coefficient).length + d.exponent.toNat) := (pow_add _ _ _).symm
          _ ≤ 10 ^ 16 := Nat.pow_le_pow_right (by decide) hplace
      have hstep : valueFrom (d.coefficient * 10 ^ d.exponent.toNat) [0x30] =
          10 * (d.coefficient * 10 ^ d.exponent.toNat) := rfl
      rw [hstep]
      omega
    · rfl
  next hplain =>
    left
    split
    next =>
      split
      next hplace =>
        constructor
        · rw [Parts.coefficient]
          dsimp only
          rw [valueFrom_append, valueFrom_append, valueFrom_zeroBytes]
          have hzero : valueFrom 0 [0x30] * 10 ^ (-pointPlace d).toNat = 0 := Nat.zero_mul _
          rw [hzero, hvalue]
        · simp only [Parts.power, Parts.shift, List.length_append, zeroBytes,
            List.length_replicate, pointPlace] at *
          omega
      next hplace =>
        constructor
        · rw [Parts.coefficient]
          dsimp only
          rw [List.take_append_drop, hvalue]
        · simp only [Parts.power, Parts.shift, List.length_drop, pointPlace] at *
          omega
    next =>
      have hpos := length_digitBytes_pos d.coefficient
      constructor
      · rw [Parts.coefficient]
        dsimp only
        rw [List.take_append_drop, hvalue]
      · simp only [Parts.power, Parts.shift, List.length_drop, digitsValue_eq,
          valueFrom_digitBytes]
        by_cases hle : pointPlace d ≤ 0
        · rw [decide_eq_true hle, if_pos rfl]
          simp only [pointPlace] at *
          omega
        · rw [decide_eq_false hle, if_neg Bool.false_ne_true]
          simp only [pointPlace] at *
          omega

theorem isFloat_ofDecimal (negative : Bool) (d : Decimal10) :
    (Parts.ofDecimal negative d).fraction ≠ [] ∨ (Parts.ofDecimal negative d).exponent ≠ none := by
  unfold Parts.ofDecimal
  dsimp only
  split
  · left
    simp
  · split
    next =>
      left
      split
      · simp
      · simp only [ne_eq, List.drop_eq_nil_iff, not_le, pointPlace] at *
        omega
    next =>
      right
      simp

theorem shift_ofDecimal_le (negative : Bool) (d : Decimal10) :
    (Parts.ofDecimal negative d).shift ≤ max 0 (pointPlace d) := by
  unfold Parts.ofDecimal
  dsimp only
  split
  · simp [Parts.shift]
  · split
    · split <;> simp [Parts.shift]
    · simp only [Parts.shift, digitsValue_eq, valueFrom_digitBytes]
      by_cases hle : pointPlace d ≤ 0
      · rw [decide_eq_true hle, if_pos rfl]
        omega
      · rw [decide_eq_false hle, if_neg Bool.false_ne_true]
        omega

theorem readable_shortest {m : ℕ} {e : ℤ} (hm : m < Binary64.mantissaLimit)
    (he : e ≤ Binary64.maxExponent) :
    Readable (shortest m e).coefficient (shortest m e).exponent := by
  by_cases hneg : (shortest m e).exponent < 0
  · exact Or.inl hneg
  · right
    obtain ⟨n, hn⟩ := Int.eq_ofNat_of_zero_le (not_lt.1 hneg)
    by_cases hlast : m = 9007199254740991 ∧ e = 971
    · right
      rw [hlast.1, hlast.2, Binary64.shortest_greatest]
      exact ⟨rfl, rfl⟩
    · left
      obtain ⟨hsmall, hlimit⟩ := Binary64.coefficient_le_limit hm he hlast hn
      exact ⟨n, hn, hsmall, hlimit⟩

/-- The text of a floating-point number is read as a floating-point number. -/
theorem ofWritten?_float {f : Binary64} (hf : f.Regular) :
    ∃ g : Binary64, g.Regular ∧
      ofWritten? (Bytes.ofAscii (Number.float f).text) = some (.float g) := by
  cases f with
  | nan => exact hf.elim
  | infinite negative => exact hf.elim
  | finite negative m e =>
    obtain ⟨hm, hmin, hmax⟩ := hf
    obtain ⟨hdigits, -, hzero⟩ := Binary64.bounds_shortest m e
    have hread := readable_shortest hm hmax
    rw [text, write_ofDecimal]
    have hcases := coefficient_ofDecimal negative (shortest m e)
    apply ofWritten?_decimal (plain_ofDecimal negative hzero) (isFloat_ofDecimal negative _)
    · simp only [wordLimit]
      omega
    · have hshift := shift_ofDecimal_le negative (shortest m e)
      have hlength : (digitBytes (shortest m e).coefficient).length ≤ 18 := by
        rw [length_digitBytes]
        exact (Nat.length_repr_le_iff (by decide)).2 (by omega)
      have hexponent : (shortest m e).exponent ≤ 308 := by
        rcases hread with hneg | ⟨n, hn, hsmall, -⟩ | ⟨-, heq⟩ <;> omega
      simp only [pointPlace] at hshift
      simp only [exponentLimit]
      omega
    · rcases hcases with ⟨hc, hp⟩ | ⟨-, hp⟩
      · rw [hc, hp]
        exact hread
      · left
        omega

end Keyring.Json.Number
