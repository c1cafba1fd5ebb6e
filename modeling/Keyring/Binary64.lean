/-!
# Binary floating-point numbers of 64 bits

A number is a sign, a mantissa below `2 ^ 53` and a power of two, or an infinity, or not a number.
Every operation computes the exact result as a quotient of integers and rounds it once, to the
nearest number and in a tie to the one with an even mantissa.
-/
namespace Keyring

/-- A binary floating-point number: `mantissa · 2 ^ exponent` with a sign, an infinity or no number.
In a rounded result the mantissa has 53 bits, or the exponent is the least one, `-1074`. -/
inductive Binary64
  | nan
  | infinite (negative : Bool)
  | finite (negative : Bool) (mantissa : Nat) (exponent : Int)
  deriving DecidableEq, Repr

namespace Binary64

def minExponent : Int := -1074

def maxExponent : Int := 971

/-- The mantissa that has one bit too many, `2 ^ 53`. -/
def mantissaLimit : Nat := 9007199254740992

def zero (negative : Bool) : Binary64 := .finite negative 0 minExponent

/-- The integer nearest to `num / den`, an even one in a tie. -/
def nearest (num den : Nat) : Nat :=
  let q := num / den
  let r := num % den
  if 2 * r < den then q
  else if den < 2 * r then q + 1
  else if q % 2 = 0 then q else q + 1

/-- Numerator and denominator of `num / den · 2 ^ shift`. -/
def scale (num den : Nat) (shift : Int) : Nat × Nat :=
  if 0 ≤ shift then (num * Nat.pow 2 shift.toNat, den) else (num, den * Nat.pow 2 (-shift).toNat)

/-- The least exponent at which `num / den` needs no more than 53 bits before the point. -/
def exponentFor (num den : Nat) : Int :=
  let guess := max ((num.log2 : Int) - den.log2 - 53) minExponent
  let (n, d) := scale num den (-guess)
  if n / d < mantissaLimit then guess else guess + 1

/-- The number nearest to `num / den`; what lies past the greatest number becomes infinite. -/
def ofRatio (negative : Bool) (num den : Nat) : Binary64 :=
  if num = 0 then zero negative
  else
    let e := exponentFor num den
    let (n, d) := scale num den (-e)
    let m := nearest n d
    let (m, e) := if m = mantissaLimit then (mantissaLimit / 2, e + 1) else (m, e)
    if maxExponent < e then .infinite negative else .finite negative m e

/-- The number nearest to `mantissa · 2 ^ exponent`. -/
def ofScaled (negative : Bool) (mantissa : Nat) (exponent : Int) : Binary64 :=
  let (n, d) := scale mantissa 1 exponent
  ofRatio negative n d

def ofNat (n : Nat) : Binary64 := ofRatio false n 1

/-- The number nearest to `coefficient · 10 ^ exponent`. A magnitude outside of the range of the
finite numbers is found from the count of digits, so the power of ten stays small. -/
def ofDecimal (negative : Bool) (coefficient : Nat) (exponent : Int) : Binary64 :=
  if coefficient = 0 then zero negative
  else if 400 < exponent then .infinite negative
  else if exponent + (coefficient.log2 + 1 : Nat) < -400 then zero negative
  else if 0 ≤ exponent then ofRatio negative (coefficient * Nat.pow 10 exponent.toNat) 1
  else ofRatio negative coefficient (Nat.pow 10 (-exponent).toNat)

def one : Binary64 := ofNat 1

def neg : Binary64 → Binary64
  | .nan => .nan
  | .infinite s => .infinite !s
  | .finite s m e => .finite (!s) m e

def isInfinite : Binary64 → Bool
  | .infinite _ => true
  | _ => false

def mul : Binary64 → Binary64 → Binary64
  | .nan, _ => .nan
  | _, .nan => .nan
  | .infinite s, .infinite t => .infinite (s != t)
  | .infinite s, .finite t m _ => if m = 0 then .nan else .infinite (s != t)
  | .finite s m _, .infinite t => if m = 0 then .nan else .infinite (s != t)
  | .finite s m e, .finite t n f => ofScaled (s != t) (m * n) (e + f)

def div : Binary64 → Binary64 → Binary64
  | .nan, _ => .nan
  | _, .nan => .nan
  | .infinite _, .infinite _ => .nan
  | .infinite s, .finite t _ _ => .infinite (s != t)
  | .finite s _ _, .infinite t => zero (s != t)
  | .finite s m e, .finite t n f =>
    if n = 0 then (if m = 0 then .nan else .infinite (s != t))
    else
      let (p, q) := scale m n (e - f)
      ofRatio (s != t) p q

/-- The signed mantissa at an exponent that is not above the number's own. -/
def signedAt (negative : Bool) (mantissa : Nat) (exponent target : Int) : Int :=
  let n : Nat := mantissa * Nat.pow 2 (exponent - target).toNat
  if negative then -n else n

def add : Binary64 → Binary64 → Binary64
  | .nan, _ => .nan
  | _, .nan => .nan
  | .infinite s, .infinite t => if s = t then .infinite s else .nan
  | .infinite s, .finite .. => .infinite s
  | .finite .., .infinite t => .infinite t
  | .finite s m e, .finite t n f =>
    let low := min e f
    let sum := signedAt s m e low + signedAt t n f low
    if sum = 0 then zero (s && t) else ofScaled (decide (sum < 0)) sum.natAbs low

/-- Whether the first number is below the second; never if one of them is no number. -/
def lt : Binary64 → Binary64 → Bool
  | .nan, _ => false
  | _, .nan => false
  | .infinite s, .infinite t => s && !t
  | .infinite s, .finite .. => s
  | .finite .., .infinite t => !t
  | .finite s m e, .finite t n f =>
    let low := min e f
    decide (signedAt s m e low < signedAt t n f low)

/-- The lesser of two numbers; one that is no number gives way to the other. -/
def minimum : Binary64 → Binary64 → Binary64
  | .nan, y => y
  | x, .nan => x
  | x, y => if lt y x then y else x

/-- The greater of two numbers; one that is no number gives way to the other. -/
def maximum : Binary64 → Binary64 → Binary64
  | .nan, y => y
  | x, .nan => x
  | x, y => if lt x y then y else x

/-- The product of `result` and the `n`-th power of `base`, from the binary digits of `n`, the low
ones first. Each square and each product is rounded. -/
def powerFrom (result base : Binary64) (n : Nat) : Binary64 :=
  if h : n = 0 then result
  else
    let result := if n % 2 = 1 then result.mul base else result
    if n / 2 = 0 then result else powerFrom result (base.mul base) (n / 2)
termination_by n
decreasing_by omega

/-- The `n`-th power by repeated squaring; the zeroth power is one, also of what is no number. -/
def power (base : Binary64) (n : Nat) : Binary64 :=
  powerFrom one base n

/-- The nearest integer below `limit`: halves go away from zero, negative numbers and what is no
number give zero, and what is too large gives the greatest integer below the limit. -/
def clampToNat (limit : Nat) : Binary64 → Nat
  | .nan => 0
  | .infinite negative => if negative then 0 else limit - 1
  | .finite negative m e =>
    let (n, d) := scale m 1 e
    if negative then 0 else min ((2 * n + d) / (2 * d)) (limit - 1)

end Binary64
end Keyring
