import Keyring.KeySet
/-!
# Cached key sets

What a process knows of its object: the key sets of the newest version that it has seen. An older
version or one that was seen before is discarded, so replays and late deliveries change nothing.
-/
namespace Keyring

/-- The key sets of an object, and its version; zero before the first. -/
structure Cache where
  resourceVersion : Int
  keySets : KeySets

namespace Cache

def empty : Cache := ⟨0, .empty⟩

/-- The version that a token names, if it is newer than what is cached. -/
def newer? (c : Cache) (token : String) : Option Int :=
  (Decimal.int64? token).filter fun version => c.resourceVersion < version

/-- Takes the key sets of an object that is newer, and tells whether it was. -/
def update (c : Cache) (object : StoredObject) : Cache × Bool :=
  match c.newer? object.resourceVersion with
  | some version => (⟨version, KeySets.ofObject object⟩, true)
  | none => (c, false)

/-- Drops all key sets at a deletion that is newer, and tells whether it was. -/
def delete (c : Cache) (token : String) : Cache × Bool :=
  match c.newer? token with
  | some version => (⟨version, .empty⟩, true)
  | none => (c, false)

/-! ## Use of a key set by name -/

/-- The key set of a name, or the failure that there is none. -/
def keySet (c : Cache) (name : String) : Except KeyError KeySet :=
  match c.keySets.get? name with
  | some keySet => .ok keySet
  | none => .error (.notInitialized name)

def activeKey (c : Cache) (name : String) : Except KeyError Key := do
  let keySet ← c.keySet name
  match keySet.active? with
  | some key => return key
  | none => throw (.notInitialized name)

def activeId? (c : Cache) (name : String) : Option KeyId :=
  (c.keySets.get? name).bind fun keySet => keySet.active?.map Key.id

def versions (c : Cache) (name : String) : Except KeyError (List Key) :=
  (c.keySet name).map KeySet.keys

def encrypt (c : Cache) (name : String) (plaintext : Bytes) (pool : Entropy) :
    Except KeyError Envelope × Entropy :=
  match (c.activeKey name).bind Key.asAead with
  | .ok key =>
    let (envelope, pool) := key.sealFresh plaintext pool
    (.ok envelope, pool)
  | .error failure => (.error failure, pool)

/-- Opens an envelope with the version that it names. -/
def decrypt (c : Cache) (name : String) (bytes : Bytes) : Except KeyError Bytes :=
  match Envelope.ofBytes? bytes with
  | none => .error .authenticationFailed
  | some envelope => do
    let keySet ← c.keySet name
    match keySet.version? envelope.keyId with
    | none => throw .authenticationFailed
    | some key =>
      let key ← key.asAead
      key.openEnvelope envelope

/-- The published forms of the signing versions. -/
def jwks (c : Cache) (name : String) : Except KeyError Jwks :=
  (c.versions name).map Jwks.ofKeys

/-- A text for logs about the key set of a name. -/
def debugText (c : Cache) (name : String) : String :=
  let active := match c.activeId? name with
    | some id => "Some(" ++ Decimal.ofInt id.val ++ ")"
    | none => "None"
  "KeySet \x7b name: " ++ Text.quoted name ++ ", active_id: " ++ active ++ " \x7d"

/-! ## Versions only grow -/

theorem lt_of_newer? {c : Cache} {token : String} {version : Int}
    (h : c.newer? token = some version) : c.resourceVersion < version := by
  simpa using (Option.filter_eq_some_iff.1 h).2

theorem resourceVersion_le_update (c : Cache) (object : StoredObject) :
    c.resourceVersion ≤ (c.update object).1.resourceVersion := by
  unfold update
  split
  next h => exact Int.le_of_lt (lt_of_newer? h)
  next => exact Int.le_refl _

theorem resourceVersion_le_delete (c : Cache) (token : String) :
    c.resourceVersion ≤ (c.delete token).1.resourceVersion := by
  unfold delete
  split
  next h => exact Int.le_of_lt (lt_of_newer? h)
  next => exact Int.le_refl _

end Cache
end Keyring
