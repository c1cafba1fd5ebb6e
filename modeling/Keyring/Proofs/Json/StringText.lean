import Keyring.Json.StringText
import Mathlib.Tactic.Common

/-!
# Texts of strings

Every byte of a string is written by itself or as one of two forms of escape. The lexer takes what
is written as one token, and a reader finds the string again.
-/
namespace Keyring.Json

open Token (code)

namespace StringText

/-- How a byte of a string is written. -/
inductive Escape (b : UInt8) : Bytes → Prop
  | plain (hquote : b ≠ 0x22) (hslash : b ≠ 0x5c) (hcontrol : ¬ b < 0x20) : Escape b [b]
  | letter (c : UInt8) (hc : Token.Lexer.isEscape c = true) (hu : c ≠ 0x75)
      (hread : escaped? c = some b) : Escape b [0x5c, c]
  | unit (high low : UInt8) (hhigh : Token.isHexDigit high = true)
      (hlow : Token.isHexDigit low = true)
      (hread : unit? (code '0') (code '0') high low = some b.toNat) (hsmall : b.toNat < 0x20) :
      Escape b [0x5c, code 'u', code '0', code '0', high, low]

theorem control_digits : ∀ n < 0x20,
    Token.isHexDigit (code (Bytes.hexDigit (n / 16))) = true ∧
      Token.isHexDigit (code (Bytes.hexDigit (n % 16))) = true ∧
        unit? (code '0') (code '0') (code (Bytes.hexDigit (n / 16)))
          (code (Bytes.hexDigit (n % 16))) = some n := by
  decide

/-- Every byte is written in one of the three ways. -/
theorem escape_escapeByte (b : UInt8) : Escape b (escapeByte b) := by
  unfold escapeByte
  simp only [beq_iff_eq]
  split
  next h => exact .letter 0x22 (by decide) (by decide) (by rw [h]; rfl)
  next hquote =>
    split
    next h => exact .letter 0x5c (by decide) (by decide) (by rw [h]; rfl)
    next hslash =>
      split
      next h => exact .letter (code 'b') (by decide) (by decide) (h ▸ rfl)
      split
      next h => exact .letter (code 'f') (by decide) (by decide) (h ▸ rfl)
      split
      next h => exact .letter (code 'n') (by decide) (by decide) (h ▸ rfl)
      split
      next h => exact .letter (code 'r') (by decide) (by decide) (h ▸ rfl)
      split
      next h => exact .letter (code 't') (by decide) (by decide) (h ▸ rfl)
      split
      next hcontrol =>
        have hsmall : b.toNat < 0x20 := UInt8.lt_iff_toNat_lt.1 hcontrol
        obtain ⟨hhigh, hlow, hread⟩ := control_digits b.toNat hsmall
        exact .unit _ _ hhigh hlow hread hsmall
      next hcontrol => exact .plain hquote hslash hcontrol

/-! ## Unescaping -/

theorem codePoint_control : ∀ n < 0x20, codePoint n = [UInt8.ofNat n] := by
  decide

theorem not_surrogate {n : Nat} (h : n < 0x20) : isHigh n = false ∧ isLow n = false := by
  simp only [isHigh, isLow, Bool.and_eq_false_iff, decide_eq_false_iff_not]
  omega

/-- An escape by number that is no half of a pair stands for its code point. -/
theorem unescapeFrom?_unit (done rest : Bytes) {a b c d : UInt8} {n : Nat}
    (hread : unit? a b c d = some n) (hpair : isHigh n = false ∧ isLow n = false)
    (hrest : ∀ e f g h tail, rest = 0x5c :: 0x75 :: e :: f :: g :: h :: tail →
      (unit? e f g h).isSome = true) :
    unescapeFrom? done (0x5c :: 0x75 :: a :: b :: c :: d :: rest) =
      unescapeFrom? ((codePoint n).reverse ++ done) rest := by
  rw [unescapeFrom?.eq_def]
  split
  next heq => cases heq
  next e f g h tail heq =>
    simp only [List.cons.injEq, true_and] at heq
    obtain ⟨rfl, rfl, rfl, rfl, rfl⟩ := heq
    obtain ⟨m, hm⟩ := Option.isSome_iff_exists.1 (hrest _ _ _ _ _ rfl)
    rw [hread, hm]
    simp [hpair.1, hpair.2]
  next heq =>
    simp only [List.cons.injEq, true_and] at heq
    obtain ⟨rfl, rfl, rfl, rfl, rfl⟩ := heq
    rw [hread]
    simp [hpair.1, hpair.2]
  next hne heq =>
    simp only [List.cons.injEq, true_and] at heq
    obtain ⟨rfl, rfl⟩ := heq
    exact absurd rfl (hne _ _ _ _ _ rfl)
  next hne heq =>
    simp only [List.cons.injEq] at heq
    obtain ⟨rfl, rfl⟩ := heq
    exact absurd rfl (hne _ _ rfl)

theorem unescapeFrom?_letter (done rest : Bytes) {b c : UInt8} (hread : escaped? c = some b)
    (hu : c ≠ 0x75) :
    unescapeFrom? done (0x5c :: c :: rest) = unescapeFrom? (b :: done) rest := by
  rw [unescapeFrom?.eq_def]
  split
  next heq => cases heq
  next heq => exact absurd (List.cons.inj (List.cons.inj heq).2).1 hu
  next heq => exact absurd (List.cons.inj (List.cons.inj heq).2).1 hu
  next heq =>
    simp only [List.cons.injEq, true_and] at heq
    obtain ⟨rfl, rfl⟩ := heq
    rw [hread]
  next hne heq =>
    simp only [List.cons.injEq] at heq
    obtain ⟨rfl, rfl⟩ := heq
    exact absurd rfl (hne _ _ rfl)

theorem unescapeFrom?_plain (done rest : Bytes) {b : UInt8} (hslash : b ≠ 0x5c) :
    unescapeFrom? done (b :: rest) = unescapeFrom? (b :: done) rest := by
  rw [unescapeFrom?.eq_def]
  split
  next heq => cases heq
  next heq => exact absurd (List.cons.inj heq).1 hslash
  next heq => exact absurd (List.cons.inj heq).1 hslash
  next heq => exact absurd (List.cons.inj heq).1 hslash
  next heq =>
    simp only [List.cons.injEq] at heq
    obtain ⟨rfl, rfl⟩ := heq
    rfl

/-- Where an escape by number begins a written string, its digits are good. -/
theorem isSome_unit_of_escapes {bytes tail : Bytes} {e f g h : UInt8}
    (heq : bytes.flatMap escapeByte = 0x5c :: 0x75 :: e :: f :: g :: h :: tail) :
    (unit? e f g h).isSome = true := by
  cases bytes with
  | nil => cases heq
  | cons b rest =>
    rw [List.flatMap_cons] at heq
    have hescape := escape_escapeByte b
    generalize escapeByte b = written at hescape heq
    cases hescape with
    | plain hquote hslash hcontrol => exact absurd (List.cons.inj heq).1 hslash
    | letter c hc hu hread =>
      simp only [List.cons_append, List.cons.injEq] at heq
      exact absurd heq.2.1 hu
    | unit high low hhigh hlow hread hsmall =>
      simp only [List.cons_append, List.cons.injEq] at heq
      obtain ⟨-, -, rfl, rfl, rfl, rfl, -⟩ := heq
      rw [hread]
      rfl

/-- Unescaping is the inverse of escaping. -/
theorem unescapeFrom?_escapes (done bytes : Bytes) :
    unescapeFrom? done (bytes.flatMap escapeByte) = some (done.reverse ++ bytes) := by
  induction bytes generalizing done with
  | nil =>
    rw [List.flatMap_nil, unescapeFrom?, List.append_nil]
  | cons b rest ih =>
    rw [List.flatMap_cons]
    have hstep : unescapeFrom? done (escapeByte b ++ rest.flatMap escapeByte) =
        unescapeFrom? (b :: done) (rest.flatMap escapeByte) := by
      have hescape := escape_escapeByte b
      generalize escapeByte b = written at hescape
      cases hescape with
      | plain hquote hslash hcontrol => exact unescapeFrom?_plain done _ hslash
      | letter c hc hu hread => exact unescapeFrom?_letter done _ hread hu
      | unit high low hhigh hlow hread hsmall =>
        have hunit := unescapeFrom?_unit done (rest.flatMap escapeByte) hread
          (not_surrogate hsmall) fun e f g h tail heq => isSome_unit_of_escapes heq
        rw [codePoint_control _ hsmall, UInt8.ofNat_toNat] at hunit
        exact hunit
    rw [hstep, ih, List.reverse_cons, List.append_assoc]
    rfl

/-- A string is read back from its written form. -/
theorem read?_write (s : String) : read? (write s) = some s := by
  rw [read?, write, unescapeFrom?_escapes]
  exact Utf8.decode?_encode s

end StringText

namespace Token.Lexer

open StringText (Escape escapeByte escape_escapeByte)

theorem run?_hexDigit (tokens : List Token) (left : Nat) (written rest : Bytes) {b : UInt8}
    (hb : isHexDigit b = true) :
    run? ⟨tokens, .unicode left written⟩ (b :: rest) =
      run? ⟨tokens, if left ≤ 1 then .string (b :: written)
        else .unicode (left - 1) (b :: written)⟩ rest := by
  rw [run?, step?]
  dsimp only
  rw [hb]
  by_cases hleft : left ≤ 1
  · simp [hleft]
  · simp [hleft]

/-- The lexer stays within a string while it reads what stands for one byte. -/
theorem run?_escapeByte (tokens : List Token) (written rest : Bytes) (b : UInt8) :
    run? ⟨tokens, .string written⟩ (escapeByte b ++ rest) =
      run? ⟨tokens, .string ((escapeByte b).reverse ++ written)⟩ rest := by
  have hescape := escape_escapeByte b
  generalize escapeByte b = bytes at hescape
  have hslash : ∀ tail, run? ⟨tokens, .string written⟩ (0x5c :: tail) =
      run? ⟨tokens, .escape (0x5c :: written)⟩ tail := fun _ => rfl
  cases hescape with
  | plain hquote hback hcontrol =>
    rw [List.singleton_append, run?, step?]
    simp [hquote, hback, hcontrol]
  | letter c hc hu hread =>
    have hstep : step? ⟨tokens, .escape (0x5c :: written)⟩ c =
        some ⟨tokens, .string (c :: 0x5c :: written)⟩ := by
      simp [step?, hu, hc]
    rw [List.cons_append, hslash, List.singleton_append, run?, hstep]
    rfl
  | unit high low hhigh hlow hread hsmall =>
    have hu : ∀ tail, run? ⟨tokens, .escape (0x5c :: written)⟩ (code 'u' :: tail) =
        run? ⟨tokens, .unicode 4 (code 'u' :: 0x5c :: written)⟩ tail := fun _ => rfl
    have hzero : isHexDigit (code '0') = true := by decide
    simp only [List.cons_append, List.nil_append]
    rw [hslash, hu, run?_hexDigit tokens 4 _ _ hzero, if_neg (by decide),
      run?_hexDigit tokens 3 _ _ hzero, if_neg (by decide),
      run?_hexDigit tokens 2 _ _ hhigh, if_neg (by decide),
      run?_hexDigit tokens 1 _ _ hlow, if_pos (by decide)]
    rfl

theorem run?_escapes (tokens : List Token) (written bytes rest : Bytes) :
    run? ⟨tokens, .string written⟩ (bytes.flatMap escapeByte ++ rest) =
      run? ⟨tokens, .string ((bytes.flatMap escapeByte).reverse ++ written)⟩ rest := by
  induction bytes generalizing written with
  | nil => rfl
  | cons b more ih =>
    rw [List.flatMap_cons, List.append_assoc, run?_escapeByte, ih, List.reverse_append,
      List.append_assoc]

/-- The text of a string is one token. -/
theorem run?_string (tokens : List Token) (s : String) (rest : Bytes) :
    run? ⟨tokens, .string []⟩ (StringText.write s ++ 0x22 :: rest) =
      run? (emit tokens (.string (StringText.write s))) rest := by
  rw [StringText.write, run?_escapes, List.append_nil]
  have hquote : step? ⟨tokens, .string ((Utf8.encode s).flatMap escapeByte).reverse⟩ 0x22 =
      some (emit tokens (.string ((Utf8.encode s).flatMap escapeByte))) := by
    have heq : (0x22 : UInt8) = code '"' := rfl
    rw [heq, step?]
    simp
  rw [run?, hquote]

end Token.Lexer
end Keyring.Json
