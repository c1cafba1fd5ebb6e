import Keyring.Text.Decimal

/-!
# Decimal texts

The text of a number is read back as that number, as long as it is in the range of the reader. So
two numbers with one text are equal; the sign tells a negative one from all others.
-/
namespace Keyring.Decimal

theorem digitsFrom?_eq {cs : List Char} (h : ∀ c ∈ cs, c.isDigit = true) (n : Nat) :
    digitsFrom? n cs = some (Nat.ofDigitChars 10 cs n) := by
  induction cs generalizing n with
  | nil => simp [digitsFrom?]
  | cons c rest ih =>
    obtain ⟨hc, hrest⟩ := List.forall_mem_cons.1 h
    rw [digitsFrom?, if_pos hc, ih hrest, Nat.ofDigitChars_cons]
    rfl

theorem toList_ofNat (n : Nat) : (ofNat n).toList = Nat.toDigits 10 n := by
  rw [ofNat, Nat.toString_eq_repr, Nat.toList_repr]

theorem isDigit_of_mem_ofNat {n : Nat} {c : Char} (h : c ∈ (ofNat n).toList) :
    c.isDigit = true := by
  rw [toList_ofNat] at h
  exact Nat.isDigit_of_mem_toDigits (by decide) (by decide) h

theorem digits?_ofNat (n : Nat) : digits? (ofNat n).toList = some n := by
  have hne : (ofNat n).toList ≠ [] := by
    rw [toList_ofNat]
    exact Nat.toDigits_ne_nil
  have hread := digitsFrom?_eq (fun _ hc => isDigit_of_mem_ofNat (n := n) hc) 0
  cases hcs : (ofNat n).toList with
  | nil => exact absurd hcs hne
  | cons c rest =>
    rw [hcs] at hread
    rw [digits?, hread, ← hcs, toList_ofNat, Nat.ofDigitChars_ten_toDigits]
    simp

/-- The text begins with a digit and not with a sign. -/
theorem ofNat_unsigned {n : Nat} {c : Char} {rest : List Char}
    (h : (ofNat n).toList = c :: rest) : c ≠ '+' ∧ c ≠ '-' := by
  have hc : c.isDigit = true := isDigit_of_mem_ofNat (n := n) (by rw [h]; exact List.mem_cons_self)
  constructor
  · rintro rfl
    exact absurd hc (by decide)
  · rintro rfl
    exact absurd hc (by decide)

theorem signed?_ofNat (n : Nat) : signed? (ofNat n).toList = some (n : Int) := by
  have hdigits := digits?_ofNat n
  unfold signed?
  split
  next h => exact absurd rfl (ofNat_unsigned h).2
  next h => exact absurd rfl (ofNat_unsigned h).1
  next => rw [hdigits]; rfl

theorem toList_ofInt_negSucc (n : Nat) :
    (ofInt (Int.negSucc n)).toList = '-' :: (ofNat (n + 1)).toList :=
  String.toList_append

theorem signed?_ofInt (z : Int) : signed? (ofInt z).toList = some z := by
  cases z with
  | ofNat n => exact signed?_ofNat n
  | negSucc n =>
    rw [toList_ofInt_negSucc, signed?, digits?_ofNat]
    rfl

/-- The text of an integer has digits in it, a sign, and nothing else. -/
theorem notMem_ofInt {c : Char} (hdigit : c.isDigit = false) (hsign : c ≠ '-') (z : Int) :
    c ∉ (ofInt z).toList := by
  have hnat (n : Nat) : c ∉ (ofNat n).toList := by
    intro hmem
    rw [isDigit_of_mem_ofNat hmem] at hdigit
    cases hdigit
  cases z with
  | ofNat n => exact hnat n
  | negSucc n =>
    rw [toList_ofInt_negSucc]
    exact List.not_mem_cons_of_ne_of_not_mem hsign (hnat (n + 1))

theorem ofInt_injective {y z : Int} (h : ofInt y = ofInt z) : y = z := by
  have hy := signed?_ofInt y
  rw [h, signed?_ofInt, Option.some.injEq] at hy
  exact hy.symm

theorem ofInt_val_inj {lower upper : Int} {a b : Bounded lower upper} :
    ofInt a.val = ofInt b.val ↔ a = b :=
  ⟨fun h => Bounded.ext (ofInt_injective h), fun h => congrArg (fun c => ofInt c.val) h⟩

theorem nat64?_ofNat (n : Nat) :
    nat64? (ofNat n) = if n < 18446744073709551616 then some n else none := by
  have hdigits := digits?_ofNat n
  unfold nat64? unsigned?
  split
  next htext => exact absurd rfl (ofNat_unsigned htext).1
  next =>
    by_cases h : n < 18446744073709551616
    · simp [hdigits, Option.filter, h]
    · simp [hdigits, Option.filter, h]

theorem int64?_ofNat (n : Nat) :
    int64? (ofNat n) = if n < 9223372036854775808 then some (n : Int) else none := by
  rw [int64?, signed?_ofNat]
  by_cases h : n < 9223372036854775808
  · have hrange : -9223372036854775808 ≤ (n : Int) ∧ (n : Int) < 9223372036854775808 := by omega
    simp [Option.filter, h, hrange]
  · have hrange : ¬ (n : Int) < 9223372036854775808 := by omega
    simp [Option.filter, h, hrange]

theorem ofNat_injective {m n : Nat} (h : ofNat m = ofNat n) : m = n := by
  have hm := digits?_ofNat m
  rw [h, digits?_ofNat, Option.some.injEq] at hm
  exact hm.symm

theorem ofNat_inj {m n : Nat} : ofNat m = ofNat n ↔ m = n :=
  ⟨ofNat_injective, congrArg ofNat⟩

theorem ofNat_ne_empty (n : Nat) : ofNat n ≠ "" := by
  intro h
  have hdigits := digits?_ofNat n
  rw [h] at hdigits
  cases hdigits

end Keyring.Decimal
