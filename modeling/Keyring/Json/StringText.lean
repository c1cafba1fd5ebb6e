import Keyring.Text.Utf8
import Keyring.Json.Token
/-!
# Strings of JSON texts

Writing and reading what stands between the quotes. Only the quote, the backslash and the controls
below the space are escaped; all other bytes of the UTF-8 form stand for themselves. A reader takes
every escape, and joins the two halves of a surrogate pair; a half that stands alone has no value.
-/
namespace Keyring.Json.StringText

open Token (code)

/-- The bytes that stand for a byte of a string. -/
def escapeByte (b : UInt8) : Bytes :=
  if b == 0x22 then [0x5c, 0x22]
  else if b == 0x5c then [0x5c, 0x5c]
  else if b == 0x08 then [0x5c, code 'b']
  else if b == 0x0c then [0x5c, code 'f']
  else if b == 0x0a then [0x5c, code 'n']
  else if b == 0x0d then [0x5c, code 'r']
  else if b == 0x09 then [0x5c, code 't']
  else if b < 0x20 then
    [0x5c, code 'u', code '0', code '0', code (Bytes.hexDigit (b.toNat / 16)),
      code (Bytes.hexDigit (b.toNat % 16))]
  else [b]

/-- The written form of a string, without its quotes. -/
def write (text : String) : Bytes :=
  (Utf8.encode text).flatMap escapeByte

def escaped? (b : UInt8) : Option UInt8 :=
  if b == 0x22 || b == 0x5c || b == 0x2f then some b
  else if b == code 'b' then some 0x08
  else if b == code 'f' then some 0x0c
  else if b == code 'n' then some 0x0a
  else if b == code 'r' then some 0x0d
  else if b == code 't' then some 0x09
  else none

def hexValue? (b : UInt8) : Option Nat :=
  Bytes.hexValue? (Char.ofNat b.toNat)

/-- The number of four hexadecimal digits. -/
def unit? (a b c d : UInt8) : Option Nat := do
  let a ← hexValue? a
  let b ← hexValue? b
  let c ← hexValue? c
  let d ← hexValue? d
  return ((a * 16 + b) * 16 + c) * 16 + d

/-- The first half of a surrogate pair. -/
def isHigh (n : Nat) : Bool := 0xd800 ≤ n && n < 0xdc00

/-- The second half of a surrogate pair. -/
def isLow (n : Nat) : Bool := 0xdc00 ≤ n && n < 0xe000

/-- The UTF-8 bytes of a code point. -/
def codePoint (n : Nat) : Bytes := String.utf8EncodeChar (Char.ofNat n)

/-- Replaces the escapes by what they stand for; `done` holds the bytes before, in reverse. -/
def unescapeFrom? (done : Bytes) : Bytes → Option Bytes
  | [] => some done.reverse
  | 0x5c :: 0x75 :: a :: b :: c :: d :: 0x5c :: 0x75 :: e :: f :: g :: h :: rest =>
    match unit? a b c d, unit? e f g h with
    | some n, some m =>
      if isHigh n then
        if isLow m then
          let point := 0x10000 + (n - 0xd800) * 0x400 + (m - 0xdc00)
          unescapeFrom? ((codePoint point).reverse ++ done) rest
        else none
      else if isLow n then none
      else
        unescapeFrom? ((codePoint n).reverse ++ done)
          (0x5c :: 0x75 :: e :: f :: g :: h :: rest)
    | _, _ => none
  | 0x5c :: 0x75 :: a :: b :: c :: d :: rest =>
    match unit? a b c d with
    | some n =>
      if isHigh n || isLow n then none
      else unescapeFrom? ((codePoint n).reverse ++ done) rest
    | none => none
  | 0x5c :: b :: rest =>
    match escaped? b with
    | some b => unescapeFrom? (b :: done) rest
    | none => none
  | b :: rest => unescapeFrom? (b :: done) rest

/-- The string of a written form. -/
def read? (written : Bytes) : Option String :=
  (unescapeFrom? [] written).bind Utf8.decode?

end Keyring.Json.StringText
