import Keyring.KeyType
import Keyring.Text.Quoted
/-!
# Failures

The causes for which an operation on keys or on stored objects fails, and their messages. Two causes
mean that another writer was faster; after them a write is started again.
-/
namespace Keyring

/-- An operation that only one kind of key has. -/
inductive KeyOperation
  | signer
  | publicKey
  deriving DecidableEq, Repr

def KeyOperation.name : KeyOperation → String
  | .signer => "signer"
  | .publicKey => "public_key"

inductive KeyError
  /-- The key set has no active key yet. -/
  | notInitialized (name : String)
  /-- This kind of key has no such operation. -/
  | unsupportedOperation (keyType : KeyType) (operation : KeyOperation)
  | wrongKeyType (expected actual : KeyType)
  /-- An envelope was refused; which check failed stays unsaid. -/
  | authenticationFailed
  | corruptRecord (reason : String)
  | backendUnavailable (reason : String)
  /-- A key set could not be created, for the cause inside. -/
  | creationFailed (name : String) (cause : KeyError)
  | invalidName (name : String)
  | notFound (object : String)
  | alreadyExists (object : String)
  | conflict (object expected actual : String)
  | crypto (reason : String)
  /-- The file system refused an operation. -/
  | io
  /-- A value could not be written as JSON. -/
  | serialization
  | configuration (reason : String)
  deriving DecidableEq, Repr

namespace KeyError

/-- The message of a failure. What a file system or a JSON parser has to say is left out. -/
def message : KeyError → String
  | .notInitialized name => "Key set not initialized: " ++ name
  | .unsupportedOperation keyType operation =>
    "Key type " ++ keyType.name ++ " does not support " ++ operation.name
  | .wrongKeyType expected actual =>
    "Wrong key type: expected " ++ expected.name ++ ", found " ++ actual.name
  | .authenticationFailed => "Encrypted data not valid"
  | .corruptRecord reason => "Corrupt key record: " ++ reason
  | .backendUnavailable reason => "Backend unavailable: " ++ reason
  | .creationFailed name cause => "Error creating key set " ++ name ++ ": " ++ cause.message
  | .invalidName name => "Invalid key set name: " ++ Text.quoted name
  | .notFound object => "Object not found: " ++ object
  | .alreadyExists object => "Object already exists: " ++ object
  | .conflict object expected actual =>
    "Conflicting write to " ++ object ++ ": expected version " ++ expected ++ ", found " ++ actual
  | .crypto reason => "Crypto error: " ++ reason
  | .io => "IO error: "
  | .serialization => "Serialization error: "
  | .configuration reason => "Configuration error: " ++ reason

/-- Whether another writer was faster, so that a read-modify-write has to start again. -/
def isWriteConflict : KeyError → Bool
  | .conflict .. => true
  | .alreadyExists _ => true
  | _ => false

end KeyError

/-- The kind of key that a setting names, or the failure that quotes it. -/
def KeyType.parse (text : String) : Except KeyError KeyType :=
  match KeyType.ofName? text with
  | some keyType => .ok keyType
  | none => .error (.configuration ("Unknown key type: " ++ KeyType.normalizeName text))

end Keyring
