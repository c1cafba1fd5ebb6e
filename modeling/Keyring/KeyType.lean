import Keyring.Json.Reader
import Keyring.Text.Blank
import Keyring.Text.Lowercase
/-!
# Kinds of keys

A key either signs or encrypts. Each kind has one name, in which it is stored and shown, and
settings may use shorter ones.
-/
namespace Keyring

/-- What a key can do. -/
inductive KeyType
  /-- An RSA key that signs with PKCS#1 v1.5 and SHA-256. -/
  | asymmetricSigning
  /-- A secret key for XChaCha20-Poly1305. -/
  | symmetricAead
  deriving DecidableEq, Repr

namespace KeyType

def name : KeyType → String
  | .asymmetricSigning => "asymmetric_signing"
  | .symmetricAead => "symmetric_aead"

/-- The name of a kind as a constructor, in which debug texts show it. -/
def constructorName : KeyType → String
  | .asymmetricSigning => "AsymmetricSigning"
  | .symmetricAead => "SymmetricAead"

def names : List (String × KeyType) :=
  [(asymmetricSigning.name, .asymmetricSigning), (symmetricAead.name, .symmetricAead)]

/-- A name as it is compared: without blanks around it and in lower case. -/
def normalizeName (text : String) : String :=
  Text.asciiLower (String.ofList (Text.trim text.toList))

/-- The kind that a setting names. -/
def ofName? (text : String) : Option KeyType :=
  let name := normalizeName text
  if name = "rsa" ∨ name = "asymmetric_signing" then some .asymmetricSigning
  else if name = "aead" ∨ name = "secretbox" ∨ name = "symmetric_aead" then some .symmetricAead
  else none

def toJson (t : KeyType) : Json := .string t.name

def ofTree? : Json.Tree → Option KeyType := Json.Tree.choice? names

end KeyType
end Keyring
