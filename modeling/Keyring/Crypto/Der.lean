import Keyring.Bytes
/-!
# Distinguished encoding of numbers

Natural numbers and sequences of them in the binary form in which private keys are stored. Every
value has one encoding: lengths and numbers are written with as few bytes as possible, and the
reader accepts nothing else.
-/
namespace Keyring.Der

def integerTag : UInt8 := 0x02

def sequenceTag : UInt8 := 0x30

/-- The greatest length that is read: it fits into 28 bits. -/
def maxLength : Nat := 268435455

/-- A length: one byte below 128, else a count of bytes and as many bytes. -/
def lengthBytes (n : Nat) : Bytes :=
  if n < 128 then [UInt8.ofNat n]
  else UInt8.ofNat (128 + Bytes.width n) :: Bytes.minimalBE n

/-- A tag, a length and the contents. -/
def element (tag : UInt8) (contents : Bytes) : Bytes :=
  tag :: lengthBytes contents.length ++ contents

/-- A natural number; a zero byte keeps its first bit clear. -/
def natural (n : Nat) : Bytes :=
  let digits := Bytes.minimalBE n
  element integerTag (if digits.headD 0 < 0x80 then digits else 0 :: digits)

def naturals (numbers : List Nat) : Bytes :=
  element sequenceTag (numbers.flatMap natural)

def length? : Bytes → Option (Nat × Bytes)
  | [] => none
  | b :: rest =>
    let count := b.toNat - 128
    if b < 0x80 then some (b.toNat, rest)
    else if count = 0 ∨ 4 < count ∨ rest.length < count then none
    else
      let n := Bytes.toNatBE (rest.take count)
      if n < 128 ∨ Bytes.width n ≠ count ∨ maxLength < n then none else some (n, rest.drop count)

/-- Reads the contents of an element with a tag, and what follows it. -/
def element? (tag : UInt8) : Bytes → Option (Bytes × Bytes)
  | [] => none
  | b :: rest =>
    match length? rest with
    | some (n, rest) => if b = tag ∧ n ≤ rest.length then some (rest.take n, rest.drop n) else none
    | none => none

def digits? : Bytes → Option Nat
  | [] => none
  | [b] => if b < 0x80 then some b.toNat else none
  | b :: c :: rest =>
    if 0x80 ≤ b ∨ (b = 0 ∧ c < 0x80) then none else some (Bytes.toNatBE (b :: c :: rest))

/-- Reads a natural number, and gives what follows it. -/
def natural? (bytes : Bytes) : Option (Nat × Bytes) :=
  match element? integerTag bytes with
  | some (contents, rest) => (digits? contents).map (·, rest)
  | none => none

/-- Reads that many natural numbers, with nothing behind them. -/
def naturalsExactly? : (count : Nat) → Bytes → Option (List Nat)
  | 0, bytes => if bytes.isEmpty then some [] else none
  | count + 1, bytes =>
    match natural? bytes with
    | some (n, rest) => (naturalsExactly? count rest).map (n :: ·)
    | none => none

/-- Reads a sequence of that many natural numbers, with nothing behind it. -/
def naturals? (count : Nat) (bytes : Bytes) : Option (List Nat) :=
  match element? sequenceTag bytes with
  | some (contents, []) => naturalsExactly? count contents
  | _ => none

end Keyring.Der
