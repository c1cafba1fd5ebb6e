import Keyring.Binary64
/-!
# Shortest decimals

The decimal text of a binary floating-point number uses the fewest digits that read back as the
number, and of those the ones nearest to it. The digits are found by testing, for 1, 2, … 17 digits,
the two neighbours of the exact value on the decimal grid. Two layouts of the digits follow.
-/
namespace Keyring.Binary64

/-- `coefficient · 10 ^ exponent`. -/
structure Decimal10 where
  coefficient : Nat
  exponent : Int
  deriving DecidableEq, Repr

namespace Decimal10

/-- Moves the zeros at the end of the coefficient into the exponent. -/
def normalize (coefficient : Nat) (exponent : Int) : Decimal10 :=
  if h : coefficient ≠ 0 ∧ coefficient % 10 = 0 then
    normalize (coefficient / 10) (exponent + 1)
  else ⟨coefficient, exponent⟩
termination_by coefficient
decreasing_by omega

end Decimal10

/-- Numerators over a common denominator: the value and the ends of the interval of reals that
round to it, which belong to the interval if the mantissa is even. -/
structure RoundingInterval where
  low : Nat
  value : Nat
  high : Nat
  den : Nat
  closed : Bool

/-- The interval of a positive number. Below a power of two the numbers lie twice as dense. -/
def interval (mantissa : Nat) (exponent : Int) : RoundingInterval :=
  let below := if 2 * mantissa = mantissaLimit ∧ minExponent < exponent then 1 else 2
  let up := Nat.pow 2 (exponent - 2).toNat
  let den := Nat.pow 2 (2 - exponent).toNat
  ⟨(4 * mantissa - below) * up, 4 * mantissa * up, (4 * mantissa + 2) * up, den,
    mantissa % 2 == 0⟩

namespace RoundingInterval

/-- Whether `num / den'` lies in the interval. -/
def contains (i : RoundingInterval) (num den' : Nat) : Bool :=
  let n := num * i.den
  if i.closed then i.low * den' ≤ n && n ≤ i.high * den'
  else i.low * den' < n && n < i.high * den'

/-- The position behind the first digit of the value: it lies below `10 ^ place` and not below the
power before. -/
def place (i : RoundingInterval) : Int :=
  ((Nat.repr (i.value * Nat.pow 10 345 / i.den)).length : Int) - 345

/-- The multiple of `10 ^ unit` in the interval that is nearest to the value, if one of the two
beside the value lies in the interval. -/
def gridPoint? (i : RoundingInterval) (unit : Int) : Option Nat :=
  let num := Nat.pow 10 unit.toNat
  let den := Nat.pow 10 (-unit).toNat
  let floor := i.value * den / (i.den * num)
  let holds (c : Nat) := i.contains (c * num) den
  match holds floor, holds (floor + 1) with
  | true, true =>
    let twice := 2 * i.value * den
    let middle := (2 * floor + 1) * (i.den * num)
    if twice < middle then some floor
    else if middle < twice then some (floor + 1)
    else if floor % 2 = 0 then some floor else some (floor + 1)
  | true, false => some floor
  | false, true => some (floor + 1)
  | false, false => none

/-- The first hit with `count` digits or more, up to 17 digits. -/
def shortestFrom (i : RoundingInterval) (place : Int) : (left count : Nat) → Decimal10
  | 0, _ => ⟨0, 0⟩
  | left + 1, count =>
    match i.gridPoint? (place - count) with
    | some c => .normalize c (place - count)
    | none => i.shortestFrom place left (count + 1)

end RoundingInterval

/-- The shortest decimal that reads back as `mantissa · 2 ^ exponent`. -/
def shortest (mantissa : Nat) (exponent : Int) : Decimal10 :=
  if mantissa = 0 then ⟨0, 0⟩
  else
    let i := interval mantissa exponent
    i.shortestFrom i.place 17 1

def zeros (n : Int) : String :=
  String.ofList (List.replicate n.toNat '0')

/-- Digits around a point that stands behind the first `place` of them. -/
def pointed (digits : String) (place : Int) : String :=
  let cs := digits.toList
  if place ≤ 0 then "0." ++ zeros (-place) ++ digits
  else String.ofList (cs.take place.toNat) ++ "." ++ String.ofList (cs.drop place.toNat)

def signed (negative : Bool) (text : String) : String :=
  if negative then "-" ++ text else text

/-- All digits written out, without an exponent and without a point behind an integer. -/
def plainText : Binary64 → String
  | .nan => "NaN"
  | .infinite negative => signed negative "inf"
  | .finite negative m e =>
    let d := shortest m e
    let digits := toString d.coefficient
    let place := (digits.length : Int) + d.exponent
    signed negative <|
      if 0 ≤ d.exponent then digits ++ (if m = 0 then "" else zeros d.exponent)
      else pointed digits place

/-- The layout of a number in JSON text: a point always, or an exponent with its sign when the
number is below `10 ^ -5` or not below `10 ^ 16`. Only finite numbers have such a text. -/
def jsonText : Binary64 → String
  | .nan => "null"
  | .infinite _ => "null"
  | .finite negative m e =>
    let d := shortest m e
    let digits := toString d.coefficient
    let place := (digits.length : Int) + d.exponent
    signed negative <|
      if m = 0 then "0.0"
      else if 0 ≤ d.exponent ∧ place ≤ 16 then digits ++ zeros d.exponent ++ ".0"
      else if -5 < place ∧ place ≤ 16 then pointed digits place
      else
        let mark := (if 0 < place then "e+" else "e") ++ toString (place - 1)
        if digits.length = 1 then digits ++ mark else pointed digits 1 ++ mark

end Keyring.Binary64
