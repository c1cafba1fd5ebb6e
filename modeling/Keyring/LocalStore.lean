import Keyring.Crypto.Gcm
import Keyring.Entropy
import Keyring.FileTree
import Keyring.LocalStore.ObjectFile
/-!
# Objects in encrypted files

A store that keeps each object in a file of its own in one directory, encrypted under a master key.
A write goes to a file beside it, which then takes its place, so a reader never finds a half-written
object. A file that cannot be read, decrypted or understood is never overwritten.
-/
namespace Keyring

/-- The key under which the files of a store are encrypted. -/
structure MasterKey where
  bytes : Bytes
  length_eq : bytes.length = 32
  deriving DecidableEq

namespace MasterKey

/-- The key of that many bytes as a key has. -/
def ofBytes? (bytes : Bytes) : Option MasterKey :=
  if h : bytes.length = 32 then some ⟨bytes, h⟩ else none

/-- The key of a hexadecimal text of the right length, or else the digest of the text. -/
def ofPassphrase (text : String) : MasterKey :=
  match (Bytes.ofHex? text).bind ofBytes? with
  | some key => key
  | none => ⟨Sha256.digest (Utf8.encode text), Entropy.length_digest _⟩

def generate (pool : Entropy) : MasterKey × Entropy :=
  (⟨(pool.draw 32).1, Entropy.length_draw pool 32⟩, (pool.draw 32).2)

/-- The nonce and the ciphertext of a text. -/
def encrypt (key : MasterKey) (plaintext : Bytes) (pool : Entropy) : Bytes × Entropy :=
  let (nonce, pool) := pool.draw Gcm.nonceLength
  (nonce ++ Gcm.encrypt key.bytes nonce plaintext, pool)

/-- The text of a nonce and a ciphertext. -/
def decrypt (key : MasterKey) (encrypted : Bytes) : Except KeyError Bytes :=
  if encrypted.length < Gcm.nonceLength then .error (.corruptRecord "Encrypted object too short")
  else
    match Gcm.decrypt? key.bytes (encrypted.take Gcm.nonceLength)
        (encrypted.drop Gcm.nonceLength) with
    | some plaintext => .ok plaintext
    | none => .error (.corruptRecord "Object failed to decrypt under master key")

end MasterKey

/-- The files of a host, and the pool from which it draws nonces. -/
structure Disk where
  files : FileTree
  pool : Entropy

/-- Where the master key of a store comes from. -/
inductive MasterKeySource
  | bytes (bytes : Bytes)
  | passphrase (text : String)
  | generated

/-- A directory of encrypted objects. -/
structure LocalStore where
  /-- The directory as it was named. -/
  directory : String
  masterKey : MasterKey
  /-- The milliseconds from one look at a watched file to the next. -/
  pollMillis : Nat

namespace LocalStore

/-- Opens a directory, which is added if it is missing. -/
def openDirectory (disk : Disk) (directory : String) (source : MasterKeySource) (pollMillis : Nat) :
    Disk × Except KeyError LocalStore :=
  let (files, ready) := disk.files.createDirectories (.ofText directory)
  let disk := { disk with files }
  if !ready then (disk, .error .io)
  else
    match source with
    | .bytes bytes =>
      match MasterKey.ofBytes? bytes with
      | some key => (disk, .ok ⟨directory, key, pollMillis⟩)
      | none => (disk, .error (.configuration "Master key must be exactly 32 bytes"))
    | .passphrase text => (disk, .ok ⟨directory, .ofPassphrase text, pollMillis⟩)
    | .generated =>
      let (key, pool) := MasterKey.generate disk.pool
      ({ disk with pool }, .ok ⟨directory, key, pollMillis⟩)

/-! ## Files -/

/-- A text as a part of a file name, without the characters that separate directories. -/
def filePart (text : String) : String :=
  String.ofList (text.toList.map fun c => if c = '/' ∨ c = '\\' then '_' else c)

def fileName (name : ObjectName) : String :=
  filePart name.namespace ++ "__" ++ filePart name.name ++ ".obj"

def path (s : LocalStore) (name : ObjectName) : FilePath :=
  .ofText s.directory ++ [fileName name]

/-- The path of the file that is written before it takes the place of the object's file. -/
def draftPath (s : LocalStore) (name : ObjectName) : FilePath :=
  .ofText s.directory ++ [fileName name ++ ".tmp"]

/-- The path of an object's file in messages, with the directory as it was named. -/
def pathText (s : LocalStore) (name : ObjectName) : String :=
  if s.directory.toList.getLast? = some '/' then s.directory ++ fileName name
  else s.directory ++ "/" ++ fileName name

/-- Reads the file of an object. What a file system or a JSON reader has to say is left out of the
failures. -/
def load (s : LocalStore) (files : FileTree) (name : ObjectName) :
    Except KeyError (Option ObjectFile) :=
  match files.read (s.path name) with
  | .error .missing => .ok none
  | .error .refused => .error (.backendUnavailable ("reading " ++ s.pathText name ++ ": "))
  | .ok encrypted => do
    let plaintext ← s.masterKey.decrypt encrypted
    match ObjectFile.ofBytes? plaintext with
    | some file => return some file
    | none => throw (.corruptRecord (s.pathText name ++ ": "))

/-- The steps of a write: all of it beside the object's file, then the exchange. -/
def writeSteps (s : LocalStore) (name : ObjectName) (encrypted : Bytes) : List FileTree.Step :=
  [.write (s.draftPath name) encrypted, .rename (s.draftPath name) (s.path name)]

def save (s : LocalStore) (disk : Disk) (name : ObjectName) (file : ObjectFile) :
    Disk × Except KeyError Unit :=
  let (encrypted, pool) := s.masterKey.encrypt file.toBytes disk.pool
  match disk.files.run (s.writeSteps name encrypted) with
  | (files, true) => (⟨files, pool⟩, .ok ())
  | (files, false) => (⟨files, pool⟩, .error .io)

/-- Reads the file of an object, plans a write on what it says, and does it. -/
def change (s : LocalStore) (disk : Disk) (name : ObjectName)
    (plan : Option ObjectFile → Except KeyError ObjectFile) : Disk × Except KeyError ObjectFile :=
  match (s.load disk.files name).bind plan with
  | .error failure => (disk, .error failure)
  | .ok file =>
    match s.save disk name file with
    | (disk, .ok ()) => (disk, .ok file)
    | (disk, .error failure) => (disk, .error failure)

/-! ## Objects -/

def get (s : LocalStore) (disk : Disk) (name : ObjectName) :
    Except KeyError (Option StoredObject) :=
  (s.load disk.files name).map ObjectFile.current?

/-- The object of a name, if there is one, and the number of the last write to it. -/
def list (s : LocalStore) (disk : Disk) (name : ObjectName) : Except KeyError ObjectList :=
  (s.load disk.files name).map ObjectFile.list

/-- The object that a write stored. -/
def written (object : StoredObject) (file : ObjectFile) : StoredObject :=
  file.object.getD object

/-- Stores an object that is not there yet. -/
def create (s : LocalStore) (disk : Disk) (object : StoredObject) :
    Disk × Except KeyError StoredObject :=
  let (disk, result) := s.change disk object.objectName fun existing =>
    ObjectFile.create existing object
  (disk, result.map (written object))

/-- Replaces an object, if it is still at the version that the new one names. -/
def update (s : LocalStore) (disk : Disk) (object : StoredObject) :
    Disk × Except KeyError StoredObject :=
  let (disk, result) := s.change disk object.objectName fun existing =>
    ObjectFile.update existing object
  (disk, result.map (written object))

def delete (s : LocalStore) (disk : Disk) (name : ObjectName) : Disk × Except KeyError Unit :=
  let (disk, result) := s.change disk name fun existing => ObjectFile.delete existing name
  (disk, result.map fun _ => ())

end LocalStore
end Keyring
