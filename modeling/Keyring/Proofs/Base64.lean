import Keyring.Bytes.Base64
import Mathlib.Tactic.Common

/-!
# Base64 round trip

Four digits of six bits hold three bytes, and a last group holds the one or two bytes that are left,
filled up or not. What either form writes is read as the same bytes, and the form for URLs consists
of letters, digits and two more characters.
-/
namespace Keyring.Base64

theorem toNat_lt (x : UInt8) : x.toNat < 256 := x.toNat_lt_size

theorem ofNat_eq {x : UInt8} {n : Nat} (h : n = x.toNat) : UInt8.ofNat n = x := by
  rw [h, UInt8.ofNat_toNat]

namespace Alphabet

/-- Each digit is read as the value that it stands for. -/
def Readable (a : Alphabet) : Prop := ∀ n < 64, a.value? (a.digit n) = some n

variable {a : Alphabet}

/-- The digits of three bytes have the values that the bytes are cut into. -/
theorem value?_group (h : a.Readable) (x y z : UInt8) :
    a.value? (a.digit (x.toNat / 4)) = some (x.toNat / 4) ∧
      a.value? (a.digit (x.toNat % 4 * 16 + y.toNat / 16)) =
        some (x.toNat % 4 * 16 + y.toNat / 16) ∧
      a.value? (a.digit (y.toNat % 16 * 4 + z.toNat / 64)) =
        some (y.toNat % 16 * 4 + z.toNat / 64) ∧
      a.value? (a.digit (z.toNat % 64)) = some (z.toNat % 64) := by
  have hx := toNat_lt x
  have hy := toNat_lt y
  have hz := toNat_lt z
  refine ⟨h _ ?_, h _ ?_, h _ ?_, h _ ?_⟩ <;> omega

/-- The values of four digits are put together to the bytes again. -/
theorem bytes3_group (x y z : UInt8) :
    bytes3 (x.toNat / 4) (x.toNat % 4 * 16 + y.toNat / 16)
      (y.toNat % 16 * 4 + z.toNat / 64) (z.toNat % 64) = [x, y, z] := by
  have hx := toNat_lt x
  have hy := toNat_lt y
  have hz := toNat_lt z
  rw [bytes3, ofNat_eq (show _ = x.toNat by omega), ofNat_eq (show _ = y.toNat by omega),
    ofNat_eq (show _ = z.toNat by omega)]

/-- Two digits hold one byte. -/
theorem decodeTail?_one (h : a.Readable) (x : UInt8) :
    a.decodeTail? ((a.group x 0 0).take 2) = some [x] := by
  obtain ⟨hp, hq, -, -⟩ := value?_group h x 0 0
  have hbytes := bytes3_group x 0 0
  have hlow : (x.toNat % 4 * 16 + (0 : UInt8).toNat / 16) % 16 = 0 := by
    rw [UInt8.toNat_zero]
    omega
  have hgroup : (a.group x 0 0).take 2 =
      [a.digit (x.toNat / 4), a.digit (x.toNat % 4 * 16 + (0 : UInt8).toNat / 16)] := rfl
  simp only [hgroup, decodeTail?, hp, hq, hlow, if_true]
  rw [UInt8.toNat_zero] at *
  exact congrArg (fun bytes => some (bytes.take 1)) hbytes

/-- Three digits hold two bytes. -/
theorem decodeTail?_two (h : a.Readable) (x y : UInt8) :
    a.decodeTail? ((a.group x y 0).take 3) = some [x, y] := by
  obtain ⟨hp, hq, hr, -⟩ := value?_group h x y 0
  have hbytes := bytes3_group x y 0
  have hlow : (y.toNat % 16 * 4 + (0 : UInt8).toNat / 64) % 4 = 0 := by
    rw [UInt8.toNat_zero]
    omega
  have hgroup : (a.group x y 0).take 3 =
      [a.digit (x.toNat / 4), a.digit (x.toNat % 4 * 16 + y.toNat / 16),
        a.digit (y.toNat % 16 * 4 + (0 : UInt8).toNat / 64)] := rfl
  simp only [hgroup, decodeTail?, hp, hq, hr, hlow, if_true]
  exact congrArg (fun bytes => some (bytes.take 2)) hbytes

/-- Digits are read as the bytes if the last groups are. -/
theorem decodeChars?_encodeChars (h : a.Readable) {fill : Nat → List Char}
    {tail : List Char → Option Bytes}
    (hone : ∀ x, a.decodeChars? tail ((a.group x 0 0).take 2 ++ fill 2) = some [x])
    (htwo : ∀ x y, a.decodeChars? tail ((a.group x y 0).take 3 ++ fill 1) = some [x, y]) :
    (bytes : Bytes) → a.decodeChars? tail (a.encodeChars fill bytes) = some bytes
  | [] => rfl
  | [x] => hone x
  | [x, y] => htwo x y
  | x :: y :: z :: rest => by
    obtain ⟨hp, hq, hr, hs⟩ := value?_group h x y z
    have hchars : a.encodeChars fill (x :: y :: z :: rest) =
        a.digit (x.toNat / 4) :: a.digit (x.toNat % 4 * 16 + y.toNat / 16) ::
          a.digit (y.toNat % 16 * 4 + z.toNat / 64) :: a.digit (z.toNat % 64) ::
          a.encodeChars fill rest := rfl
    rw [hchars, decodeChars?, hp, hq, hr, hs]
    dsimp only
    rw [decodeChars?_encodeChars h hone htwo rest, Option.map_some, bytes3_group]
    rfl

theorem mem_group {c : Char} {x y z : UInt8} (h : c ∈ a.group x y z) :
    ∃ n < 64, a.digit n = c := by
  have hx := toNat_lt x
  have hy := toNat_lt y
  have hz := toNat_lt z
  simp only [group, List.mem_cons, List.not_mem_nil, or_false] at h
  obtain rfl | rfl | rfl | rfl := h <;> exact ⟨_, by omega, rfl⟩

/-- Without anything behind the last group there are digits only. -/
theorem mem_encodeChars {c : Char} :
    (bytes : Bytes) → c ∈ a.encodeChars (fun _ => []) bytes → ∃ n < 64, a.digit n = c
  | [], h => by cases h
  | [_], h => mem_group (List.mem_of_mem_take ((List.append_nil _).subst h))
  | [_, _], h => mem_group (List.mem_of_mem_take ((List.append_nil _).subst h))
  | x :: y :: z :: rest, h => by
    obtain hgroup | hrest := List.mem_append.1 h
    · exact mem_group hgroup
    · exact mem_encodeChars rest hrest

end Alphabet

/-! ## The standard form -/

theorem standard_readable : standard.Readable := by
  unfold Alphabet.Readable
  decide

theorem value?_fill : standard.value? '=' = none := by
  decide

def standardChars (bytes : Bytes) : List Char :=
  standard.encodeChars (fun n => List.replicate n '=') bytes

theorem decode_one (x : UInt8) :
    standard.decodeChars? filledTail? (standardChars [x]) = some [x] := by
  obtain ⟨hp, hq, -, -⟩ := Alphabet.value?_group standard_readable x 0 0
  have hchars : standardChars [x] = [standard.digit (x.toNat / 4),
      standard.digit (x.toNat % 4 * 16 + (0 : UInt8).toNat / 16), '=', '='] := rfl
  rw [hchars, Alphabet.decodeChars?, hp, hq, value?_fill]
  exact Alphabet.decodeTail?_one standard_readable x

theorem decode_two (x y : UInt8) :
    standard.decodeChars? filledTail? (standardChars [x, y]) = some [x, y] := by
  obtain ⟨hp, hq, hr, -⟩ := Alphabet.value?_group standard_readable x y 0
  have hplain : standard.digit (y.toNat % 16 * 4 + (0 : UInt8).toNat / 64) ≠ '=' := by
    intro heq
    rw [heq, value?_fill] at hr
    cases hr
  have hchars : standardChars [x, y] = [standard.digit (x.toNat / 4),
      standard.digit (x.toNat % 4 * 16 + y.toNat / 16),
      standard.digit (y.toNat % 16 * 4 + (0 : UInt8).toNat / 64), '='] := rfl
  rw [hchars, Alphabet.decodeChars?, hp, hq, hr, value?_fill]
  simp only [List.isEmpty_nil, if_true]
  rw [filledTail?.eq_def]
  split
  next heq =>
    simp only [List.cons.injEq, and_true] at heq
    exact absurd heq.2.2 hplain
  next heq =>
    simp only [List.cons.injEq, and_true] at heq
    obtain ⟨rfl, rfl, rfl⟩ := heq
    exact Alphabet.decodeTail?_two standard_readable x y
  next hne => exact absurd rfl (hne _ _ _)

/-- The standard form is read as the bytes that it was made of. -/
@[simp] theorem decode?_encode (bytes : Bytes) : decode? (encode bytes) = some bytes := by
  have hchars : encode bytes = String.ofList (standardChars bytes) := rfl
  rw [decode?, hchars, String.toList_ofList]
  exact Alphabet.decodeChars?_encodeChars standard_readable decode_one decode_two bytes

/-! ## The form for URLs -/

theorem urlSafe_readable : urlSafe.Readable := by
  unfold Alphabet.Readable
  decide

/-- The form for URLs is read as the bytes that it was made of. -/
@[simp] theorem decodeUrl?_encodeUrl (bytes : Bytes) :
    decodeUrl? (encodeUrl bytes) = some bytes := by
  rw [decodeUrl?, encodeUrl, String.toList_ofList]
  refine Alphabet.decodeChars?_encodeChars urlSafe_readable (fun x => ?_) (fun x y => ?_) bytes
  · exact Alphabet.decodeTail?_one urlSafe_readable x
  · exact Alphabet.decodeTail?_two urlSafe_readable x y

/-- Nothing in the form for URLs needs an escape, and nothing fills it up. -/
theorem plain_of_mem_encodeUrl {bytes : Bytes} {c : Char} (h : c ∈ (encodeUrl bytes).toList) :
    c.isAlphanum = true ∨ c = '-' ∨ c = '_' := by
  have hdigit : ∀ n < 64, (urlSafe.digit n).isAlphanum = true ∨ urlSafe.digit n = '-' ∨
      urlSafe.digit n = '_' := by decide
  rw [encodeUrl, String.toList_ofList] at h
  obtain ⟨n, hn, rfl⟩ := Alphabet.mem_encodeChars bytes h
  exact hdigit n hn

end Keyring.Base64
