import Keyring.SortedMap
import Keyring.Json.Tree
/-!
# JSON values

A value has every string and number of a text. Its text is written without blanks and with the
members of an object in the order of the list. A value that was read from a text is sorted: the
members of its objects are in ascending order of the keys, and of members with one key the last
stays.
-/
namespace Keyring

/-- A JSON value; the members of an object are in the order in which they are written. -/
inductive Json
  | null
  | bool (value : Bool)
  | number (value : Json.Number)
  | string (value : String)
  | array (items : List Json)
  | object (members : List (String × Json))

namespace Json

open Token (code)

def int (z : Int) : Json := .number (.int z)

/-! ## Text -/

/-- A string with its quotes. -/
def stringText (text : String) : Bytes :=
  0x22 :: StringText.write text ++ [0x22]

mutual

/-- The text of a value, without blanks. -/
def render : Json → Bytes
  | .null => Bytes.ofAscii "null"
  | .bool true => Bytes.ofAscii "true"
  | .bool false => Bytes.ofAscii "false"
  | .number n => Bytes.ofAscii n.text
  | .string s => stringText s
  | .array items => code '[' :: renderItems items ++ [code ']']
  | .object members => 0x7b :: renderMembers members ++ [0x7d]

/-- The texts of array items with commas between them. -/
def renderItems : List Json → Bytes
  | [] => []
  | [item] => render item
  | item :: next :: rest => render item ++ code ',' :: renderItems (next :: rest)

/-- The texts of object members with commas between them. -/
def renderMembers : List (String × Json) → Bytes
  | [] => []
  | [(key, value)] => stringText key ++ code ':' :: render value
  | (key, value) :: next :: rest =>
    stringText key ++ code ':' :: render value ++ code ',' :: renderMembers (next :: rest)

end

/-! ## Values and trees -/

mutual

def toTree : Json → Tree
  | .null => .null
  | .bool b => .bool b
  | .number n => .number (some n)
  | .string s => .string (some s)
  | .array items => .array (toTrees items)
  | .object members => .object (toTreeMembers members)

def toTrees : List Json → List Tree
  | [] => []
  | item :: rest => toTree item :: toTrees rest

def toTreeMembers : List (String × Json) → List (Option String × Tree)
  | [] => []
  | (key, value) :: rest => (some key, toTree value) :: toTreeMembers rest

end

/-- Members in ascending order of their keys; of members with one key the last stays. -/
def sortMembers (members : List (String × Json)) : List (String × Json) :=
  (SortedMap.ofList members).entries

mutual

/-- The value with sorted members throughout. -/
def sorted : Json → Json
  | .array items => .array (sortedItems items)
  | .object members => .object (sortMembers (sortedMembers members))
  | leaf => leaf

/-- Array items with sorted members. -/
def sortedItems : List Json → List Json
  | [] => []
  | item :: rest => sorted item :: sortedItems rest

def sortedMembers : List (String × Json) → List (String × Json)
  | [] => []
  | (key, value) :: rest => (key, sorted value) :: sortedMembers rest

end

namespace Tree

mutual

/-- The sorted value of a tree whose leaves all have values. An array or object needs two levels of
`depth` and leaves one less to what it holds. -/
def value? : (depth : Nat) → Tree → Option Json
  | _, .null => some .null
  | _, .bool b => some (.bool b)
  | _, .number n => n.map .number
  | _, .string s => s.map .string
  | depth, .array items => if depth < 2 then none else (values? (depth - 1) items).map .array
  | depth, .object members =>
    if depth < 2 then none
    else (memberValues? (depth - 1) members).map fun members => .object (sortMembers members)

/-- The sorted values of array items. -/
def values? : (depth : Nat) → List Tree → Option (List Json)
  | _, [] => some []
  | depth, item :: rest =>
    match value? depth item, values? depth rest with
    | some item, some rest => some (item :: rest)
    | _, _ => none

/-- The sorted values of object members. -/
def memberValues? : (depth : Nat) → List (Option String × Tree) → Option (List (String × Json))
  | _, [] => some []
  | depth, (key, value) :: rest =>
    match key, value? depth value, memberValues? depth rest with
    | some key, some value, some rest => some ((key, value) :: rest)
    | _, _, _ => none

end

end Tree

def member? (key : String) : Json → Option Json
  | .object members => (members.find? fun m => m.1 == key).map Prod.snd
  | _ => none

/-- The value as a signed integer of 64 bits. -/
def int64? : Json → Option Int
  | .number (.int z) => if z < 9223372036854775808 then some z else none
  | _ => none

end Json
end Keyring
