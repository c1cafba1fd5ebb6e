import Keyring.Proofs.Base64

/-!
# Canonical base64

Every text that is read as bytes is the standard form of these bytes. A digit is the only character
with its value, four digits are the only ones with their three bytes, and the bits of a last digit
that no byte takes up have to be zero.
-/
namespace Keyring.Base64

theorem toNat_ofNat {n : Nat} (h : n < 256) : (UInt8.ofNat n).toNat = n := by
  rw [UInt8.toNat_ofNat', Nat.mod_eq_of_lt h]

/-- A character within two bounds has a code within their codes. -/
theorem code_between {first c last : Char} (h : first ≤ c ∧ c ≤ last) :
    first.toNat ≤ c.toNat ∧ c.toNat ≤ last.toNat := h

/-- A character that has a value is the digit of this value. -/
theorem digit_of_value? {c : Char} {n : Nat} (h : standard.value? c = some n) :
    n < 64 ∧ standard.digit n = c := by
  unfold Alphabet.value? at h
  split_ifs at h with hupper hlower hdecimal h62 h63 <;> rw [Option.some.injEq] at h
  · have hcode : 65 ≤ c.toNat ∧ c.toNat ≤ 90 := code_between hupper
    have hback : 65 + n = c.toNat := by omega
    rw [Alphabet.digit, if_pos (by omega), hback, Char.ofNat_toNat]
    exact ⟨by omega, rfl⟩
  · have hcode : 97 ≤ c.toNat ∧ c.toNat ≤ 122 := code_between hlower
    have hback : 71 + n = c.toNat := by omega
    rw [Alphabet.digit, if_neg (by omega), if_pos (by omega), hback, Char.ofNat_toNat]
    exact ⟨by omega, rfl⟩
  · have hcode : 48 ≤ c.toNat ∧ c.toNat ≤ 57 := code_between hdecimal
    have hback : n - 4 = c.toNat := by omega
    rw [Alphabet.digit, if_neg (by omega), if_neg (by omega), if_pos (by omega), hback,
      Char.ofNat_toNat]
    exact ⟨by omega, rfl⟩
  · subst h h62
    exact ⟨by omega, rfl⟩
  · subst h h63
    exact ⟨by omega, rfl⟩

/-- The bytes of four values are cut into the same values again. -/
theorem group_bytes3 {p q r s : Nat} (hp : p < 64) (hq : q < 64) (hr : r < 64) (hs : s < 64) :
    standard.group (UInt8.ofNat (p * 4 + q / 16)) (UInt8.ofNat (q % 16 * 16 + r / 4))
        (UInt8.ofNat (r % 4 * 64 + s)) =
      [standard.digit p, standard.digit q, standard.digit r, standard.digit s] := by
  have hx : (UInt8.ofNat (p * 4 + q / 16)).toNat = p * 4 + q / 16 := toNat_ofNat (by omega)
  have hy : (UInt8.ofNat (q % 16 * 16 + r / 4)).toNat = q % 16 * 16 + r / 4 :=
    toNat_ofNat (by omega)
  have hz : (UInt8.ofNat (r % 4 * 64 + s)).toNat = r % 4 * 64 + s := toNat_ofNat (by omega)
  have hfirst : (p * 4 + q / 16) / 4 = p := by omega
  have hsecond : (p * 4 + q / 16) % 4 * 16 + (q % 16 * 16 + r / 4) / 16 = q := by omega
  have hthird : (q % 16 * 16 + r / 4) % 16 * 4 + (r % 4 * 64 + s) / 64 = r := by omega
  have hfourth : (r % 4 * 64 + s) % 64 = s := by omega
  rw [Alphabet.group, hx, hy, hz, hfirst, hsecond, hthird, hfourth]

/-- A last group of two digits is what its byte is written as. -/
theorem standardChars_two {c d : Char} {bytes : Bytes}
    (h : standard.decodeTail? [c, d] = some bytes) : standardChars bytes = [c, d, '=', '='] := by
  rw [Alphabet.decodeTail?] at h
  split at h
  next p q hc hd =>
    obtain ⟨hp, rfl⟩ := digit_of_value? hc
    obtain ⟨hq, rfl⟩ := digit_of_value? hd
    split_ifs at h with hlow
    have hgroup := group_bytes3 hp hq (r := 0) (s := 0) (by omega) (by omega)
    have hrest : UInt8.ofNat (q % 16 * 16 + 0 / 4) = 0 := by rw [hlow]; rfl
    rw [hrest] at hgroup
    rw [← Option.some.inj h]
    exact congrArg (fun digits => digits.take 2 ++ ['=', '=']) hgroup
  next => cases h

/-- A last group of three digits is what its bytes are written as. -/
theorem standardChars_three {c d e : Char} {bytes : Bytes}
    (h : standard.decodeTail? [c, d, e] = some bytes) : standardChars bytes = [c, d, e, '='] := by
  rw [Alphabet.decodeTail?] at h
  split at h
  next p q r hc hd he =>
    obtain ⟨hp, rfl⟩ := digit_of_value? hc
    obtain ⟨hq, rfl⟩ := digit_of_value? hd
    obtain ⟨hr, rfl⟩ := digit_of_value? he
    split_ifs at h with hlow
    have hgroup := group_bytes3 hp hq hr (s := 0) (by omega)
    have hrest : UInt8.ofNat (r % 4 * 64 + 0) = 0 := by rw [hlow]; rfl
    rw [hrest] at hgroup
    rw [← Option.some.inj h]
    exact congrArg (fun digits => digits.take 3 ++ ['=']) hgroup
  next => cases h

/-- A filled last group is what its bytes are written as. -/
theorem standardChars_filled {chars : List Char} {bytes : Bytes}
    (h : filledTail? chars = some bytes) : standardChars bytes = chars := by
  unfold filledTail? at h
  split at h
  next c d => exact standardChars_two h
  next c d e => exact standardChars_three h
  next => cases h

/-- Characters that are read as bytes are those of the standard form. -/
theorem standardChars_of_decodeChars? : (chars : List Char) → (bytes : Bytes) →
    standard.decodeChars? filledTail? chars = some bytes → standardChars bytes = chars
  | [], bytes, h => by
    rw [← Option.some.inj h]
    rfl
  | [_], _, h => standardChars_filled h
  | [_, _], _, h => standardChars_filled h
  | [_, _, _], _, h => standardChars_filled h
  | c :: d :: e :: f :: rest, bytes, h => by
    rw [Alphabet.decodeChars?] at h
    split at h
    next p q r s hc hd he hf =>
      obtain ⟨hp, rfl⟩ := digit_of_value? hc
      obtain ⟨hq, rfl⟩ := digit_of_value? hd
      obtain ⟨hr, rfl⟩ := digit_of_value? he
      obtain ⟨hs, rfl⟩ := digit_of_value? hf
      obtain ⟨more, hmore, rfl⟩ := Option.map_eq_some_iff.1 h
      have hrest := standardChars_of_decodeChars? rest more hmore
      have hchars : standardChars (Alphabet.bytes3 p q r s ++ more) =
          standard.group (UInt8.ofNat (p * 4 + q / 16)) (UInt8.ofNat (q % 16 * 16 + r / 4))
            (UInt8.ofNat (r % 4 * 64 + s)) ++ standardChars more := rfl
      rw [hchars, group_bytes3 hp hq hr hs, hrest]
      rfl
    next =>
      -- A group with a character that is no digit has to be the last one.
      split_ifs at h with hlast
      rw [List.isEmpty_iff.1 hlast]
      exact standardChars_filled h

/-- A text is read as bytes exactly if it is their standard form. -/
theorem decode?_eq_some_iff {text : String} {bytes : Bytes} :
    decode? text = some bytes ↔ text = encode bytes := by
  constructor
  · intro h
    have hchars := standardChars_of_decodeChars? text.toList bytes h
    have htext : encode bytes = String.ofList (standardChars bytes) := rfl
    rw [htext, hchars, String.ofList_toList]
  · rintro rfl
    exact decode?_encode bytes

/-- Two texts that are read as the same bytes are the same text. -/
theorem decode?_injective {text text' : String} {bytes : Bytes} (h : decode? text = some bytes)
    (h' : decode? text' = some bytes) : text = text' :=
  (decode?_eq_some_iff.1 h).trans (decode?_eq_some_iff.1 h').symm

end Keyring.Base64
