import Keyring.Binary64.Shortest
import Keyring.Binary64.Written
import Keyring.Text.Lowercase
/-!
# Values of settings

What a variable sets is a truth value or a number where its text can be read as one, and the text
itself else. A setting then asks for a text or for a natural number and takes what the value can be
turned into.
-/
namespace Keyring

inductive SettingValue
  | absent
  | bool (value : Bool)
  | int (value : Int)
  | float (value : Binary64)
  | text (value : String)
  | array (items : List SettingValue)
  | table (entries : List (String × SettingValue))

namespace SettingValue

/-- What a text stands for: the first of a truth value, an integer of 64 bits and a floating-point
number that it can be read as. -/
def ofText (s : String) : SettingValue :=
  let name := Text.lower s
  if name = "true" then .bool true
  else if name = "false" then .bool false
  else
    match Decimal.int64? s with
    | some z => .int z
    | none =>
      match Binary64.ofText? s with
      | some f => .float f
      | none => .text s

def text? : SettingValue → Option String
  | .text s => some s
  | .bool b => some (if b then "true" else "false")
  | .int z => some (Decimal.ofInt z)
  | .float f => some f.plainText
  | .absent | .array _ | .table _ => none

/-- The number that a text stands for: a word for yes or no, or digits. -/
def natOfText? (s : String) : Option Nat :=
  let name := Text.lower s
  if name = "true" ∨ name = "on" ∨ name = "yes" then some 1
  else if name = "false" ∨ name = "off" ∨ name = "no" then some 0
  else Decimal.nat64? s

/-- The value as a natural number of 64 bits. A floating-point number is rounded, and one outside of
the range gives the nearest end of it. -/
def nat? : SettingValue → Option Nat
  | .int z => if 0 ≤ z then some z.toNat else none
  | .bool b => some (if b then 1 else 0)
  | .float f => some (f.clampToNat 18446744073709551616)
  | .text s => natOfText? s
  | .absent | .array _ | .table _ => none

/-! ## Places inside a value -/

/-- One step from a value to a part of it. -/
inductive Step
  | child (key : String)
  /-- A position from the start, or from the end if it is negative. -/
  | index (position : Int)
  deriving DecidableEq, Repr

/-- The items of an array; any other value has none. -/
def items : SettingValue → List SettingValue
  | .array items => items
  | _ => []

/-- The entries of a table; any other value has none. -/
def entries : SettingValue → List (String × SettingValue)
  | .table entries => entries
  | _ => []

def child? (value : SettingValue) (key : String) : Option SettingValue :=
  (value.entries.find? fun e => e.1 == key).map Prod.snd

def replaceEntry (key : String) (value : SettingValue) :
    List (String × SettingValue) → List (String × SettingValue)
  | [] => [(key, value)]
  | e :: rest => if e.1 = key then (key, value) :: rest else e :: replaceEntry key value rest

/-- Items with another value at a position; missing ones before it become absent. -/
def replaceItem (value : SettingValue) (n : Nat) (items : List SettingValue) :
    List SettingValue :=
  if n < items.length then items.set n value
  else items ++ List.replicate (n - items.length) .absent ++ [value]

/-- The most items of an array: as many as an address space has room for. -/
def itemLimit : Nat := 96076792050570581

/-- The position from the start that a written one means in an array of a length, if an array can
have it. -/
def positionFromStart? (length : Nat) (position : Int) : Option Nat :=
  if position < 0 then
    if length < position.natAbs then none else some (length - position.natAbs)
  else if position.toNat < itemLimit then some position.toNat
  else none

/-- Puts a value at a place. What is on the way becomes a table or an array if it is none; a
position that no array can have has no place. -/
def put (value : SettingValue) : List Step → SettingValue → Option SettingValue
  | [], _ => some value
  | .child key :: steps, whole =>
    (put value steps ((whole.child? key).getD .absent)).map fun part =>
      .table (replaceEntry key part whole.entries)
  | .index position :: steps, whole =>
    (positionFromStart? whole.items.length position).bind fun n =>
      (put value steps (whole.items.getD n .absent)).map fun part =>
        .array (replaceItem part n whole.items)

end SettingValue
end Keyring
