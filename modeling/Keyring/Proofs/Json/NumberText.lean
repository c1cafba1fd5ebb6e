import Keyring.Proofs.Json.WrittenNumber

/-!
# Texts of integers

The digits of a natural number as bytes, and the significand that a reader makes of digits. The text
of an integer of 64 bits is read as that integer.
-/
namespace Keyring.Json.Number

open Token (code)

def digitBytes (n : Nat) : Bytes := (Nat.toDigits 10 n).map code

/-- The number that digits write behind others. -/
def valueFrom (n : Nat) (digits : Bytes) : Nat :=
  digits.foldl (fun n b => 10 * n + digitValue b) n

theorem digitsValue_eq (digits : Bytes) : digitsValue digits = valueFrom 0 digits := rfl

theorem valueFrom_append (n : Nat) (xs ys : Bytes) :
    valueFrom n (xs ++ ys) = valueFrom (valueFrom n xs) ys := by
  simp [valueFrom]

theorem ofAscii_append (s t : String) :
    Bytes.ofAscii (s ++ t) = Bytes.ofAscii s ++ Bytes.ofAscii t := by
  simp [Bytes.ofAscii]

theorem ofAscii_ofList (cs : List Char) : Bytes.ofAscii (String.ofList cs) = cs.map code := by
  simp [Bytes.ofAscii]

theorem ofAscii_repr (n : Nat) : Bytes.ofAscii n.repr = digitBytes n := by
  simp [Bytes.ofAscii, digitBytes]

theorem digit_range {c : Char} (h : c.isDigit = true) : 48 ≤ c.toNat ∧ c.toNat ≤ 57 := by
  simpa [Char.isDigit, Char.le_def, UInt32.le_iff_toNat_le] using h

theorem toNat_code {c : Char} (h : c.isDigit = true) : (code c).toNat = c.toNat := by
  have := digit_range h
  simp only [code, UInt8.toNat_ofNat']
  omega

theorem isDigit_code {c : Char} (h : c.isDigit = true) : Token.isDigit (code c) = true := by
  have hr := digit_range h
  have hc := toNat_code h
  simp only [Token.isDigit, Bool.and_eq_true, decide_eq_true_eq, UInt8.le_iff_toNat_le]
  simp only [UInt8.reduceToNat]
  omega

theorem all_isDigit_map_code {cs : List Char} (h : ∀ c ∈ cs, c.isDigit = true) :
    (cs.map code).all Token.isDigit = true := by
  rw [List.all_map, List.all_eq_true]
  exact fun c hc => isDigit_code (h c hc)

theorem valueFrom_map_code {cs : List Char} (h : ∀ c ∈ cs, c.isDigit = true) (n : Nat) :
    valueFrom n (cs.map code) = Nat.ofDigitChars 10 cs n := by
  induction cs generalizing n with
  | nil => simp [valueFrom]
  | cons c rest ih =>
    have hc : digitValue (code c) = c.toNat - 48 := by
      rw [digitValue, toNat_code (h c (by simp))]
    have hrest := ih (fun d hd => h d (by simp [hd])) (10 * n + digitValue (code c))
    rw [Nat.ofDigitChars_cons]
    simpa [valueFrom, hc] using hrest

theorem isDigit_of_mem_toDigits {n : Nat} : ∀ c ∈ Nat.toDigits 10 n, c.isDigit = true :=
  fun _ hc => Nat.isDigit_of_mem_toDigits (by decide) (by decide) hc

@[simp] theorem all_isDigit_digitBytes (n : Nat) : (digitBytes n).all Token.isDigit = true :=
  all_isDigit_map_code isDigit_of_mem_toDigits

@[simp] theorem digitBytes_ne_nil (n : Nat) : digitBytes n ≠ [] := by
  simp [digitBytes]

@[simp] theorem valueFrom_digitBytes (n : Nat) : valueFrom 0 (digitBytes n) = n := by
  rw [digitBytes, valueFrom_map_code isDigit_of_mem_toDigits, Nat.ofDigitChars_ten_toDigits]

/-- A number has no zero in front of other digits. -/
theorem leading_toDigits (n : Nat) (rest : List Char) (h : Nat.toDigits 10 n = '0' :: rest) :
    n = 0 := by
  induction n using Nat.strongRecOn generalizing rest with
  | ind n ih =>
    rw [Nat.toDigits_eq_if (by decide)] at h
    split at h
    next => simpa using (List.cons.inj h).1
    next hn =>
      cases hd : Nat.toDigits 10 (n / 10) with
      | nil => simp at hd
      | cons c more =>
        rw [hd, List.cons_append, List.cons.injEq] at h
        have := ih (n / 10) (by omega) more (h.1 ▸ hd)
        omega

theorem code_eq_zero {c : Char} (h : c.isDigit = true) (hc : code c = 0x30) : c = '0' := by
  have hn := toNat_code h
  rw [hc] at hn
  exact Char.toNat_inj.1 hn.symm

theorem leading_digitBytes (n : Nat) (rest : Bytes) (h : digitBytes n = 0x30 :: rest) :
    rest = [] := by
  cases hd : Nat.toDigits 10 n with
  | nil => simp at hd
  | cons c more =>
    have hmem : c ∈ Nat.toDigits 10 n := by simp [hd]
    have hc : c.isDigit = true := isDigit_of_mem_toDigits c hmem
    rw [digitBytes, hd, List.map_cons, List.cons.injEq] at h
    rw [code_eq_zero hc h.1] at hd
    rw [leading_toDigits n more hd, Nat.toDigits_zero, List.cons.injEq] at hd
    rw [← h.2, ← hd.2]
    rfl

/-! ## Significands -/

theorem le_valueFrom (n : Nat) (digits : Bytes) : n ≤ valueFrom n digits := by
  induction digits generalizing n with
  | nil => exact Nat.le_refl n
  | cons b rest ih =>
    have := ih (10 * n + digitValue b)
    simp only [valueFrom, List.foldl_cons] at *
    omega

/-- The significand of an integer part that fits. -/
theorem foldl_pushInteger (digits : Bytes) (n : Nat) (e : Int)
    (h : valueFrom n digits < wordLimit) :
    digits.foldl (fun (s : Significand) b => s.pushInteger (digitValue b)) ⟨n, e, false⟩ =
      ⟨valueFrom n digits, e, false⟩ := by
  induction digits generalizing n with
  | nil => rfl
  | cons b rest ih =>
    have hb : 10 * n + digitValue b < wordLimit :=
      Nat.lt_of_le_of_lt (le_valueFrom _ rest) h
    have hpush : (⟨n, e, false⟩ : Significand).pushInteger (digitValue b) =
        ⟨10 * n + digitValue b, e, false⟩ := by
      simp [Significand.pushInteger, hb]
    rw [List.foldl_cons, hpush]
    exact ih _ h

/-- The significand of digits behind the point that fit. -/
theorem foldl_pushFraction (digits : Bytes) (n : Nat) (e : Int)
    (h : valueFrom n digits < wordLimit) :
    digits.foldl (fun (s : Significand) b => s.pushFraction (digitValue b)) ⟨n, e, false⟩ =
      ⟨valueFrom n digits, e - digits.length, false⟩ := by
  induction digits generalizing n e with
  | nil => simp [valueFrom]
  | cons b rest ih =>
    have hb : 10 * n + digitValue b < wordLimit :=
      Nat.lt_of_le_of_lt (le_valueFrom _ rest) h
    have hpush : (⟨n, e, false⟩ : Significand).pushFraction (digitValue b) =
        ⟨10 * n + digitValue b, e - 1, false⟩ := by
      simp [Significand.pushFraction, hb]
    have hlen : e - 1 - (rest.length : Int) = e - (b :: rest).length := by
      simp only [List.length_cons]
      omega
    rw [List.foldl_cons, hpush, ih _ (e - 1) h, hlen]
    rfl

/-- A number without a point and without an exponent. -/
theorem ofWritten?_whole {p : Parts} (hp : p.Plain) (hf : p.fraction = [])
    (he : p.exponent = none) (h : valueFrom 0 p.integer < wordLimit) :
    ofWritten? p.write =
      if !p.negative then some (.int (valueFrom 0 p.integer))
      else if valueFrom 0 p.integer = 0 ∨ 9223372036854775808 < valueFrom 0 p.integer then
        some (.float (Binary64.ofNat (valueFrom 0 p.integer)).neg)
      else some (.int (-valueFrom 0 p.integer)) := by
  rw [ofWritten?, ofWritten_write hp]
  simp only [hf, he, foldl_pushInteger p.integer 0 0 h, Bool.false_eq_true, if_false]

/-! ## Integers -/

def Parts.ofInt (z : Int) : Parts := ⟨decide (z < 0), digitBytes z.natAbs, [], none⟩

theorem plain_ofInt (z : Int) : (Parts.ofInt z).Plain where
  integer_ne := digitBytes_ne_nil _
  integer_digits := all_isDigit_digitBytes _
  leading := leading_digitBytes _
  fraction_digits := rfl
  exponent_ne := by simp [Parts.ofInt]
  exponent_digits := by simp [Parts.ofInt]

theorem write_ofInt (z : Int) : Bytes.ofAscii (Number.int z).text = (Parts.ofInt z).write := by
  have hbody : (Parts.ofInt z).body = digitBytes z.natAbs := by
    simp [Parts.body, Parts.ofInt, writeFraction, writeExponent]
  rw [Parts.write, hbody, text, Int.toString_eq_repr, Int.repr_eq_if]
  by_cases hz : 0 ≤ z
  · have hn : ¬ z < 0 := by omega
    have ha : z.toNat = z.natAbs := by omega
    simp [hz, Parts.ofInt, hn, ofAscii_repr, ha]
  · have hn : z < 0 := by omega
    have ha : (-z).toNat = z.natAbs := by omega
    rw [if_neg hz, ofAscii_append, ha, ofAscii_repr]
    simp only [Parts.ofInt, hn, decide_true, if_true]
    rfl

/-- The integers that JSON values hold: 64 bits with or without a sign. -/
def IsWord (z : Int) : Prop := -9223372036854775808 ≤ z ∧ z < 18446744073709551616

/-- The text of an integer is read as that integer. -/
theorem ofWritten?_int {z : Int} (h : IsWord z) :
    ofWritten? (Bytes.ofAscii (Number.int z).text) = some (.int z) := by
  have hvalue : valueFrom 0 (Parts.ofInt z).integer = z.natAbs := valueFrom_digitBytes _
  have hsmall : valueFrom 0 (Parts.ofInt z).integer < wordLimit := by
    have hlow := h.1
    have hhigh := h.2
    rw [hvalue, wordLimit]
    omega
  rw [write_ofInt, ofWritten?_whole (plain_ofInt z) rfl rfl hsmall, hvalue]
  by_cases hz : z < 0
  · have hlow := h.1
    have hzero : ¬ (z.natAbs = 0 ∨ 9223372036854775808 < z.natAbs) := by omega
    have hneg : (-(z.natAbs : Int)) = z := by omega
    simp only [Parts.ofInt, hz, decide_true, Bool.not_true, Bool.false_eq_true, if_false,
      if_neg hzero, hneg]
  · have hpos : (z.natAbs : Int) = z := by omega
    simp only [Parts.ofInt, hz, decide_false, Bool.not_false, if_true, hpos]

end Keyring.Json.Number
