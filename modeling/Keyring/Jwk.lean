import Keyring.Json.Reader
/-!
# JSON web keys

The published form of the public half of a signing key, and the set of them that a service offers.
-/
namespace Keyring

inductive KeyUse
  | sig
  deriving DecidableEq, Repr

def KeyUse.names : List (String × KeyUse) := [("sig", .sig)]

/-- One published key. -/
structure Jwk where
  kty : String
  kid : String
  alg : String
  use : KeyUse
  n : String
  e : String
  deriving DecidableEq, Repr

namespace Jwk

def toJson (k : Jwk) : Json :=
  .object [("kty", .string k.kty), ("kid", .string k.kid), ("alg", .string k.alg),
    ("use", .string "sig"), ("n", .string k.n), ("e", .string k.e)]

def ofTree? (tree : Json.Tree) : Option Jwk := do
  let fields ← tree.fields? ["kty", "kid", "alg", "use", "n", "e"]
  let kty ← fields.required? "kty" Json.Tree.string?
  let kid ← fields.required? "kid" Json.Tree.string?
  let alg ← fields.required? "alg" Json.Tree.string?
  let use ← fields.required? "use" (Json.Tree.choice? KeyUse.names)
  let n ← fields.required? "n" Json.Tree.string?
  let e ← fields.required? "e" Json.Tree.string?
  return ⟨kty, kid, alg, use, n, e⟩

end Jwk

structure Jwks where
  keys : List Jwk
  deriving DecidableEq, Repr

namespace Jwks

def toJson (s : Jwks) : Json := .object [("keys", .array (s.keys.map Jwk.toJson))]

def ofTree? (tree : Json.Tree) : Option Jwks := do
  let fields ← tree.fields? ["keys"]
  let keys ← fields.required? "keys" (Json.Tree.array? Jwk.ofTree?)
  return ⟨keys⟩

def find? (s : Jwks) (kid : String) : Option Jwk :=
  s.keys.find? fun k => k.kid == kid

end Jwks
end Keyring
