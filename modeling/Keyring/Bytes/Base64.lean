import Keyring.Bytes
/-!
# Base64 text

Three bytes are written as four digits of six bits. The standard form fills the last group up with
`=`; the form for URLs has two other digits at the end of its alphabet and leaves the last group
short. Both readers accept exactly what the writers produce: the unused low bits of the last digit
have to be zero.
-/
namespace Keyring.Base64

/-- The two digits in which the alphabets differ. -/
structure Alphabet where
  digit62 : Char
  digit63 : Char

/-- The alphabet with `+` and `/`. -/
def standard : Alphabet := ⟨'+', '/'⟩

/-- The alphabet with `-` and `_`, which needs no escape in a URL. -/
def urlSafe : Alphabet := ⟨'-', '_'⟩

namespace Alphabet

def digit (a : Alphabet) (n : Nat) : Char :=
  if n < 26 then Char.ofNat (65 + n)
  else if n < 52 then Char.ofNat (71 + n)
  else if n < 62 then Char.ofNat (n - 4)
  else if n = 62 then a.digit62 else a.digit63

def value? (a : Alphabet) (c : Char) : Option Nat :=
  if 'A' ≤ c ∧ c ≤ 'Z' then some (c.toNat - 65)
  else if 'a' ≤ c ∧ c ≤ 'z' then some (c.toNat - 71)
  else if '0' ≤ c ∧ c ≤ '9' then some (c.toNat + 4)
  else if c = a.digit62 then some 62
  else if c = a.digit63 then some 63
  else none

/-- The digits of three bytes. -/
def group (a : Alphabet) (x y z : UInt8) : List Char :=
  [a.digit (x.toNat / 4), a.digit (x.toNat % 4 * 16 + y.toNat / 16),
    a.digit (y.toNat % 16 * 4 + z.toNat / 64), a.digit (z.toNat % 64)]

/-- The bytes of four digit values. -/
def bytes3 (p q r s : Nat) : Bytes :=
  [UInt8.ofNat (p * 4 + q / 16), UInt8.ofNat (q % 16 * 16 + r / 4), UInt8.ofNat (r % 4 * 64 + s)]

/-- The digits of the bytes, with `fill` behind a last group that is short. -/
def encodeChars (a : Alphabet) (fill : Nat → List Char) : Bytes → List Char
  | [] => []
  | [x] => (a.group x 0 0).take 2 ++ fill 2
  | [x, y] => (a.group x y 0).take 3 ++ fill 1
  | x :: y :: z :: rest => a.group x y z ++ a.encodeChars fill rest

/-- Reads the digits of a last group that stands for one or two bytes. -/
def decodeTail? (a : Alphabet) : List Char → Option Bytes
  | [c, d] =>
    match a.value? c, a.value? d with
    | some p, some q => if q % 16 = 0 then some ((bytes3 p q 0 0).take 1) else none
    | _, _ => none
  | [c, d, e] =>
    match a.value? c, a.value? d, a.value? e with
    | some p, some q, some r => if r % 4 = 0 then some ((bytes3 p q r 0).take 2) else none
    | _, _, _ => none
  | _ => none

/-- Reads groups of four digits and hands a last group that is short, or holds `=`, to `tail`. -/
def decodeChars? (a : Alphabet) (tail : List Char → Option Bytes) : List Char → Option Bytes
  | [] => some []
  | c :: d :: e :: f :: rest =>
    match a.value? c, a.value? d, a.value? e, a.value? f with
    | some p, some q, some r, some s => (a.decodeChars? tail rest).map (bytes3 p q r s ++ ·)
    | _, _, _, _ => if rest.isEmpty then tail [c, d, e, f] else none
  | short => tail short

end Alphabet

/-- The standard form, filled up with `=`. -/
def encode (bytes : Bytes) : String :=
  String.ofList (standard.encodeChars (fun n => List.replicate n '=') bytes)

/-- A filled last group: two or three digits and as many `=` as four characters need. -/
def filledTail? : List Char → Option Bytes
  | [c, d, '=', '='] => standard.decodeTail? [c, d]
  | [c, d, e, '='] => standard.decodeTail? [c, d, e]
  | _ => none

/-- Reads the standard form. -/
def decode? (text : String) : Option Bytes :=
  standard.decodeChars? filledTail? text.toList

/-- The form for URLs, with nothing behind the last digit. -/
def encodeUrl (bytes : Bytes) : String :=
  String.ofList (urlSafe.encodeChars (fun _ => []) bytes)

/-- Reads the form for URLs. -/
def decodeUrl? (text : String) : Option Bytes :=
  urlSafe.decodeChars? urlSafe.decodeTail? text.toList

end Keyring.Base64
