import Keyring.Bytes.Base64
import Keyring.Text.Decimal
import Keyring.Json.Value
/-!
# Readers of typed data

Readers turn a tree into data of a type or fail. A record may be written as an object, whose unknown
members are skipped and whose known members occur at most once, or as an array of its fields in
order. An alternative without data may be written as its name or as an object with the name as its
only key and a null behind it.
-/
namespace Keyring.Json

namespace Tree

def string? : Tree → Option String
  | .string s => s
  | _ => none

def bool? : Tree → Option Bool
  | .bool b => some b
  | _ => none

def int? : Tree → Option Int
  | .number (some (.int z)) => some z
  | _ => none

def bounded? {lower upper : Int} (tree : Tree) : Option (Bounded lower upper) :=
  tree.int?.bind Bounded.ofInt?

def nat64? (tree : Tree) : Option Nat :=
  tree.int?.bind fun z => if 0 ≤ z ∧ z < 18446744073709551616 then some z.toNat else none

/-- Bytes as a text in standard base64. -/
def base64? (tree : Tree) : Option Bytes :=
  tree.string?.bind Base64.decode?

/-- An array, each item read in the same way. -/
def array? {α : Type} (item? : Tree → Option α) : Tree → Option (List α)
  | .array items => items.mapM item?
  | _ => none

def byte? (tree : Tree) : Option UInt8 :=
  tree.int?.bind fun z => if 0 ≤ z ∧ z < 256 then some (UInt8.ofNat z.toNat) else none

/-- Bytes as an array of numbers. -/
def byteArray? (tree : Tree) : Option Bytes :=
  tree.array? byte?

/-- A null, or data. -/
def nullable? {α : Type} (read? : Tree → Option α) : Tree → Option (Option α)
  | .null => some none
  | tree => (read? tree).map some

/-- A member with a key that is a text. -/
def keyValue? {α : Type} (read? : Tree → Option α) : Option String × Tree → Option (String × α)
  | (some key, value) => (read? value).map (key, ·)
  | (none, _) => none

/-- An object with any keys, of which the last of each name counts. -/
def map? {α : Type} (read? : Tree → Option α) : Tree → Option (SortedMap String α)
  | .object members => (members.mapM (keyValue? read?)).map SortedMap.ofList
  | _ => none

/-- An alternative without data. -/
def choice? {α : Type} (names : List (String × α)) : Tree → Option α
  | .string (some s) => (names.find? fun n => n.1 == s).map Prod.snd
  | .object [(some s, .null)] => (names.find? fun n => n.1 == s).map Prod.snd
  | _ => none

/-- The fields of a record that were present. -/
structure Fields where
  /-- Whether the record was written as an object. -/
  keyed : Bool
  present : List (String × Tree)

/-- The known members of an object; none if a key is no text or a known key is repeated. -/
def knownMembers? (names : List String) :
    List (Option String × Tree) → Option (List (String × Tree))
  | [] => some []
  | (none, _) :: _ => none
  | (some key, value) :: rest =>
    match knownMembers? names rest with
    | none => none
    | some known =>
      if !names.contains key then some known
      else if known.any fun k => k.1 == key then none
      else some ((key, value) :: known)

/-- The fields of a record with the given names. -/
def fields? (names : List String) : Tree → Option Fields
  | .object members => (knownMembers? names members).map (⟨true, ·⟩)
  | .array items => if items.length ≤ names.length then some ⟨false, names.zip items⟩ else none
  | _ => none

namespace Fields

def get? (fields : Fields) (name : String) : Option Tree :=
  (fields.present.find? fun f => f.1 == name).map Prod.snd

def required? {α : Type} (fields : Fields) (name : String) (read? : Tree → Option α) : Option α :=
  (fields.get? name).bind read?

/-- A field with a value to fall back on. -/
def orDefault? {α : Type} (fields : Fields) (name : String) (read? : Tree → Option α)
    (value : α) : Option α :=
  match fields.get? name with
  | some tree => read? tree
  | none => some value

/-- A field that may be null, and in an object absent. -/
def optional? {α : Type} (fields : Fields) (name : String) (read? : Tree → Option α) :
    Option (Option α) :=
  match fields.get? name with
  | some tree => tree.nullable? read?
  | none => if fields.keyed then some none else none

end Fields
end Tree

/-- Reads data of a type from a JSON text. -/
def read? {α : Type} (ofTree? : Tree → Option α) (text : Bytes) : Option α :=
  (Tree.parse? text).bind ofTree?

/-- Bytes as a text in standard base64. -/
def base64 (bytes : Bytes) : Json := .string (Base64.encode bytes)

/-- Bytes as an array of numbers. -/
def byteArray (bytes : Bytes) : Json := .array (bytes.map fun b => int b.toNat)

end Keyring.Json
