import Keyring.Binary64.Shortest
import Keyring.Json.Token
/-!
# Numbers of JSON values

An integer of 64 bits, signed or not, is kept exactly. Any other number becomes a floating-point
number: the digits that fit into 64 bits, then one multiplication or division by a power of ten for
each 308 places. A number too large for that has no value.
-/
namespace Keyring.Json

/-- The number of a JSON value. -/
inductive Number
  | int (value : Int)
  | float (value : Binary64)
  deriving DecidableEq, Repr

namespace Number

/-- The first power of two that an unsigned 64-bit integer cannot hold. -/
def wordLimit : Nat := 18446744073709551616

/-- The greatest exponent that is counted. -/
def exponentLimit : Nat := 2147483647

/-- Multiplies or divides by a power of ten, at most 308 places at a time; `none` when the result is
too large. -/
def scaleBy? : (fuel : Nat) → Binary64 → Int → Option Binary64
  | 0, f, _ => some f
  | fuel + 1, f, e =>
    if e.natAbs ≤ 308 then
      let power := Binary64.ofDecimal false 1 e.natAbs
      if 0 ≤ e then
        let product := f.mul power
        if product.isInfinite then none else some product
      else some (f.div power)
    else if f == Binary64.zero false then some f
    else if 0 ≤ e then none
    else scaleBy? fuel (f.div (Binary64.ofDecimal false 1 308)) (e + 308)

/-- The floating-point number of a significand and a power of ten. Three divisions by `10 ^ 308`
make any significand vanish, so the steps are few. -/
def ofParts? (negative : Bool) (significand : Nat) (exponent : Int) : Option Number :=
  (scaleBy? 8 (Binary64.ofNat significand) exponent).map fun f =>
    .float (if negative then f.neg else f)

/-- Digits taken into a significand as long as 64 bits hold it. The exponent counts the digits that
were left out before the point, less those that were taken behind it. -/
structure Significand where
  value : Nat
  exponent : Int
  full : Bool

namespace Significand

/-- Takes a digit of the integer part. -/
def pushInteger (s : Significand) (digit : Nat) : Significand :=
  if s.full then { s with exponent := s.exponent + 1 }
  else if 10 * s.value + digit < wordLimit then { s with value := 10 * s.value + digit }
  else { s with exponent := s.exponent + 1, full := true }

/-- Takes a digit behind the point; once one does not fit, the rest is ignored. -/
def pushFraction (s : Significand) (digit : Nat) : Significand :=
  if s.full then s
  else if 10 * s.value + digit < wordLimit then
    { s with value := 10 * s.value + digit, exponent := s.exponent - 1 }
  else { s with full := true }

end Significand

def digitValue (b : UInt8) : Nat := b.toNat - 48

structure Parts where
  negative : Bool
  integer : Bytes
  fraction : Bytes
  /-- The digits of the exponent with its sign, if there is one. -/
  exponent : Option (Bool × Bytes)

def Parts.ofWritten (written : Bytes) : Parts :=
  let (negative, rest) := match written with
    | 0x2d :: rest => (true, rest)
    | rest => (false, rest)
  let integer := rest.takeWhile Token.isDigit
  let rest := rest.dropWhile Token.isDigit
  let (fraction, rest) := match rest with
    | 0x2e :: rest => (rest.takeWhile Token.isDigit, rest.dropWhile Token.isDigit)
    | rest => ([], rest)
  let exponent := match rest with
    | [] => none
    | _ :: 0x2d :: digits => some (true, digits)
    | _ :: 0x2b :: digits => some (false, digits)
    | _ :: digits => some (false, digits)
  ⟨negative, integer, fraction, exponent⟩

def digitsValue (digits : Bytes) : Nat :=
  digits.foldl (fun n b => 10 * n + digitValue b) 0

/-- The value of a written number. A negative zero and an integer of more than 64 bits become
floating-point numbers. -/
def ofWritten? (written : Bytes) : Option Number :=
  let parts := Parts.ofWritten written
  let whole : Significand :=
    parts.integer.foldl (fun s b => s.pushInteger (digitValue b)) ⟨0, 0, false⟩
  match parts.fraction, parts.exponent with
  | [], none =>
    if whole.full then ofParts? parts.negative whole.value whole.exponent
    else if !parts.negative then some (.int whole.value)
    else if whole.value = 0 ∨ 9223372036854775808 < whole.value then
      some (.float (Binary64.ofNat whole.value).neg)
    else some (.int (-whole.value))
  | fraction, exponent =>
    let s : Significand :=
      fraction.foldl (fun s b => s.pushFraction (digitValue b)) { whole with full := false }
    match exponent with
    | none => ofParts? parts.negative s.value s.exponent
    | some (down, digits) =>
      let size := digitsValue digits
      if exponentLimit < size then
        if s.value ≠ 0 ∧ !down then none else some (.float (Binary64.zero parts.negative))
      else ofParts? parts.negative s.value (if down then s.exponent - size else s.exponent + size)

def text : Number → String
  | .int z => toString z
  | .float f => f.jsonText

end Number
end Keyring.Json
