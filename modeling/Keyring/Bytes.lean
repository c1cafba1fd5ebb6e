/-!
# Byte strings

A byte string is a list of bytes. This module holds the conversions that the formats of the
library share: hexadecimal text, and numbers written with the most or the least significant byte
first.
-/
namespace Keyring

abbrev Bytes := List UInt8

namespace Bytes

/-- The bytes of an ASCII text; a character past `U+00FF` keeps its low byte only. -/
def ofAscii (text : String) : Bytes :=
  text.toList.map fun c => UInt8.ofNat c.toNat

/-- Bytewise exclusive or, as long as the shorter operand. -/
def xor (a b : Bytes) : Bytes :=
  List.zipWith (· ^^^ ·) a b

/-! ## Hexadecimal text -/

/-- The lower-case digit of a value below sixteen. -/
def hexDigit (n : Nat) : Char :=
  if n < 10 then Char.ofNat (48 + n) else Char.ofNat (87 + n)

/-- The value of a hexadecimal digit of either case. -/
def hexValue? (c : Char) : Option Nat :=
  if '0' ≤ c ∧ c ≤ '9' then some (c.toNat - 48)
  else if 'a' ≤ c ∧ c ≤ 'f' then some (c.toNat - 87)
  else if 'A' ≤ c ∧ c ≤ 'F' then some (c.toNat - 55)
  else none

def toHex (bytes : Bytes) : String :=
  String.ofList (bytes.flatMap fun b => [hexDigit (b.toNat / 16), hexDigit (b.toNat % 16)])

/-- Reads pairs of hexadecimal digits of either case, and nothing else. -/
def ofHexChars? : List Char → Option Bytes
  | [] => some []
  | [_] => none
  | high :: low :: rest =>
    match hexValue? high, hexValue? low, ofHexChars? rest with
    | some h, some l, some bytes => some (UInt8.ofNat (16 * h + l) :: bytes)
    | _, _, _ => none

/-- Reads a hexadecimal text of either case. -/
def ofHex? (text : String) : Option Bytes :=
  ofHexChars? text.toList

/-! ## Numbers -/

/-- The number whose digits to base 256 are the bytes, most significant first. -/
def toNatBE (bytes : Bytes) : Nat :=
  bytes.foldl (fun n b => 256 * n + b.toNat) 0

/-- The number whose digits to base 256 are the bytes, least significant first. -/
def toNatLE (bytes : Bytes) : Nat :=
  bytes.foldr (fun b n => b.toNat + 256 * n) 0

/-- The low `width` bytes of a number, least significant first. -/
def ofNatLE : (width : Nat) → Nat → Bytes
  | 0, _ => []
  | width + 1, n => UInt8.ofNat (n % 256) :: ofNatLE width (n / 256)

/-- The low `width` bytes of a number, most significant first. -/
def ofNatBE (width n : Nat) : Bytes :=
  (ofNatLE width n).reverse

/-- How many bytes a number needs; zero needs one. -/
def width (n : Nat) : Nat :=
  n.log2 / 8 + 1

/-- The shortest big-endian form of a number; zero is one zero byte. -/
def minimalBE (n : Nat) : Bytes :=
  ofNatBE (width n) n

@[simp] theorem length_ofNatLE (w n : Nat) : (ofNatLE w n).length = w := by
  induction w generalizing n with
  | zero => rfl
  | succ w ih => simp [ofNatLE, ih]

@[simp] theorem length_ofNatBE (w n : Nat) : (ofNatBE w n).length = w := by
  simp [ofNatBE]

theorem toNatLE_ofNatLE (w n : Nat) : toNatLE (ofNatLE w n) = n % Nat.pow 256 w := by
  induction w generalizing n with
  | zero => simp [ofNatLE, toNatLE, Nat.mod_one]
  | succ w ih =>
    have step : toNatLE (ofNatLE (w + 1) n) = n % 256 + 256 * toNatLE (ofNatLE w (n / 256)) := by
      simp [ofNatLE, toNatLE]
    rw [step, ih, Nat.pow_eq, Nat.pow_eq, Nat.pow_succ, Nat.mul_comm (256 ^ w) 256, Nat.mod_mul]

end Bytes
end Keyring
