import Keyring.Binary64
import Keyring.Text.Decimal
/-!
# Written floating-point numbers

A number is written as digits with or without a point among them and perhaps an exponent behind, or
as the name of an infinity or of what is no number, in letters of either case. The number nearest to
what is written is read.
-/
namespace Keyring.Binary64

/-- The numbers that have names. -/
def named? (text : String) (negative : Bool) : Option Binary64 :=
  let name := text.map Char.toLower
  if name = "inf" ∨ name = "infinity" then some (.infinite negative)
  else if name = "nan" then some .nan
  else none

/-- The exponent behind the digits: nothing, or a mark and an integer. -/
def exponent? : List Char → Option Int
  | [] => some 0
  | c :: rest => if c = 'e' ∨ c = 'E' then Decimal.signed? rest else none

/-- A number of digits with a point among them. -/
def decimal? (negative : Bool) (cs : List Char) : Option Binary64 :=
  let whole := cs.takeWhile Char.isDigit
  let rest := cs.dropWhile Char.isDigit
  let (fraction, rest) := match rest with
    | '.' :: rest => (rest.takeWhile Char.isDigit, rest.dropWhile Char.isDigit)
    | rest => ([], rest)
  match Decimal.digits? (whole ++ fraction), exponent? rest with
  | some coefficient, some exponent =>
    some (ofDecimal negative coefficient (exponent - fraction.length))
  | _, _ => none

/-- A number after its sign. -/
def unsigned? (negative : Bool) (cs : List Char) : Option Binary64 :=
  (named? (String.ofList cs) negative).or (decimal? negative cs)

def ofText? (text : String) : Option Binary64 :=
  match text.toList with
  | '-' :: cs => unsigned? true cs
  | '+' :: cs => unsigned? false cs
  | cs => unsigned? false cs

end Keyring.Binary64
