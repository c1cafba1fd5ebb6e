import Keyring.Rehearsal.Writing
/-!
# Acts of a rehearsal

What can be done in a rehearsal: opening stores and letting participants join, requests to a
participant, its watch loop, the use of a key set, writes and watches without a participant, faults,
and files that are changed behind the back of a store.
-/
namespace Keyring.Rehearsal

/-! ## Opening -/

def openMemory : Act Nat := onStorage fun s => s.add (.memory .empty)

def openLocal (directory : String) (source : MasterKeySource) (pollMillis : Nat) :
    Act (Except KeyError Nat) :=
  onStorage fun s =>
    let (s, result) := s.withDisk (LocalStore.openDirectory s.disk directory source pollMillis)
    match result with
    | .error failure => (s, .error failure)
    | .ok store =>
      let (s, i) := s.add (.local store)
      (s, .ok i)

def openConfigured (settings : Settings) (source : MasterKeySource) : Act (Except KeyError Nat) :=
  match settings.storeBackend with
  | .memory => .ok <$> openMemory
  | .local => openLocal settings.storePath source settings.pollInterval.millisUp

/-- Makes a store usable without a participant, and gives its number. -/
def expose (backend : Nat) : Act Nat :=
  modifyGet fun r => (r.openStores.length, { r with openStores := r.openStores ++ [backend] })

def join (p : Participant) : Act Unit :=
  modify fun r => { r with participants := r.participants ++ [p] }

/-- Opens a store that settings ask for, and lets a participant join who is set up with them and has
opened a store of its own. -/
def joinConfigured (settings : Settings) (source : MasterKeySource) :
    Act (Except KeyError Unit) := do
  match ← openConfigured settings source with
  | .error failure => return .error failure
  | .ok backend =>
    let _ ← expose backend
    match ← openConfigured settings source with
    | .error failure => return .error failure
    | .ok own =>
      join (.start own ⟨settings.namespace, settings.objectName⟩ (.ofSettings settings) false)
      return .ok ()

/-! ## Requests to a participant -/

/-- The outcome of an act and the milliseconds that it took. -/
def timed {α : Type} (act : Act α) : Act (α × Nat) := do
  let before := (← get).clock
  let a ← act
  return (a, (← get).clock - before)

/-- Asks for an active version of a key set, or for a new one. There is no answer if the write
breaks off. -/
def request (i : Nat) (name : String) (keyType : KeyType) (rotate : Bool) :
    Act (Option (Except KeyError KeyId)) :=
  match KeySetName.ofText name with
  | .error failure => return some (.error failure)
  | .ok name => write i name keyType rotate

/-- Asks several participants together for an active version of a key set. -/
def requestTogether (participants : List Nat) (name : String) (keyType : KeyType) :
    Act (List (Option (Except KeyError KeyId))) :=
  match KeySetName.ofText name with
  | .error failure => return participants.map fun _ => some (.error failure)
  | .ok name => do
    let requests ← participants.mapM fun i => do
      let p ← participant i
      return (i, ⟨p.target, name, keyType, false, p.options.writeRetry⟩)
    writeAll requests

/-- Keeps a handle on a key set. -/
def keep (i : Nat) (name : String) : Act Nat :=
  modifyGet fun r => (r.handles.length, { r with handles := r.handles ++ [(i, name)] })

/-- Asks for a handle on a key set, which gets a first version if it has no active one. -/
def keySet (i : Nat) (name : String) (keyType : KeyType) : Act (Option (Except KeyError Nat)) :=
  match KeySetName.ofText name with
  | .error failure => return some (.error failure)
  | .ok valid => do
    match (← participant i).cache.activeKey name with
    | .ok _ => return some (.ok (← keep i name))
    | .error _ =>
      match ← write i valid keyType false with
      | none => return none
      | some (.error failure) => return some (.error (valid.creationFailed failure))
      | some (.ok _) =>
        match (← participant i).cache.activeKey name with
        | .ok _ => return some (.ok (← keep i name))
        | .error failure => return some (.error (valid.creationFailed failure))

/-- A handle on a key set, if it is cached. -/
def cachedKeySet (i : Nat) (name : String) : Act (Option Nat) := do
  if (← participant i).cache.keySets.contains name then return some (← keep i name) else return none

/-- The cache and the name behind a handle. -/
def handle (h : Nat) : Act (Option (Cache × String)) := do
  match (← get).handles[h]? with
  | none => return none
  | some (i, name) => return some ((← participant i).cache, name)

/-- Seals a plaintext with the key set behind a handle, and keeps the envelope. -/
def encrypt (cache : Cache) (name : String) (plaintext : Bytes) :
    Act (Except KeyError (Nat × Envelope)) :=
  modifyGet fun r =>
    let disk := r.storage.disk
    let (result, pool) := cache.encrypt name plaintext disk.pool
    let r := { r with storage := { r.storage with disk := { disk with pool } } }
    match result with
    | .error failure => (.error failure, r)
    | .ok envelope =>
      (.ok (r.sealedBytes.length, envelope),
        { r with sealedBytes := r.sealedBytes ++ [envelope.toBytes] })

/-- Hands an object to a participant's cache, and tells whether it was newer. -/
def updateCache (i : Nat) (object : StoredObject) : Act Bool := do
  let (cache, taken) := (← participant i).cache.update object
  modifyParticipant i fun p => { p with cache }
  return taken

/-- Hands a deletion to a participant's cache, and tells whether it was newer. -/
def deleteFromCache (i : Nat) (token : String) : Act Bool := do
  let (cache, taken) := (← participant i).cache.delete token
  modifyParticipant i fun p => { p with cache }
  return taken

/-! ## The watch loop of a participant -/

/-- Whether a participant gets its next list without a wait for files. -/
def listsAtOnce (p : Participant) : Act Bool := do
  match (← get).storage.backend p.backend with
  | .memory _ => return true
  | .local _ => return !p.script.lists.isEmpty

/-- Starts a loop, which runs as soon as it may. A loop that is under way ends, before the new one
goes on from its first wait. -/
def startLoop (i : Nat) : Act Unit := do
  let p ← participant i
  let replaced := p.isLooping && (← listsAtOnce p)
  dropSubscription i
  modifyParticipant i fun p =>
    { p with
      loop := some (.start p.target p.options.watchBackoff)
      replaced
      alarm := none
      cancelled := false
      held := true }

/-- Asks a loop to stop and waits for it. Tells whether it stopped, or had broken off; none if
nobody can ask it. -/
def stopLoop (i : Nat) : Act (Option Bool) := do
  if (← participant i).held then
    modifyParticipant i fun p => { p with cancelled := true, held := false }
    settle
    let p ← participant i
    return some (p.loop.any fun l => l.phase = .stopped)
  else return none

/-- Sends a value to a loop, which stops at `true`, and tells whether it was over before; none if
nobody can send. -/
def signalLoop (i : Nat) (value : Bool) : Act (Option Bool) := do
  let p ← participant i
  if p.held then
    modifyParticipant i fun p => { p with cancelled := value }
    return some (!p.isLooping)
  else return none

/-! ## Scripts -/

inductive Scripted
  | get (result : Except KeyError (Option StoredObject))
  | create (answer : ScriptedWrite)
  | update (answer : ScriptedWrite)
  | list (result : Except KeyError ObjectList)
  | watch (result : Except KeyError (List WatchEvent × Bool))

/-- The script with an answer to the next calls, and the answers to that operation. -/
def Script.add (s : Script) (times : Nat) : Scripted → Script × Nat
  | .get a =>
    let gets := s.gets ++ List.replicate times a
    ({ s with gets }, gets.length)
  | .create a =>
    let creates := s.creates ++ List.replicate times a
    ({ s with creates }, creates.length)
  | .update a =>
    let updates := s.updates ++ List.replicate times a
    ({ s with updates }, updates.length)
  | .list a =>
    let lists := s.lists ++ List.replicate times a
    ({ s with lists }, lists.length)
  | .watch a =>
    let watches := s.watches ++ List.replicate times a
    ({ s with watches }, watches.length)

/-- Scripts an answer to the next calls of a participant. -/
def script (i times : Nat) (answer : Scripted) : Act Nat := do
  let (script, count) := (← participant i).script.add times answer
  modifyScript i fun _ => script
  return count

/-! ## Stores without a participant -/

/-- The number of an exposed store among all stores. -/
def backendOf (raw : Nat) : Act Nat := do
  let r ← get
  return r.openStores[raw]?.getD r.storage.backends.length

def onStore {α : Type} (raw : Nat) (f : Storage → Nat → Storage × α) : Act α := do
  let i ← backendOf raw
  onStorage fun s => f s i

def watch (raw : Nat) (name : ObjectName) (token : String) : Act (Except KeyError Nat) := do
  let now := (← get).clock
  match ← onStore raw fun s i => s.watch i name token now with
  | .error failure => return .error failure
  | .ok subscription =>
    modifyGet fun r =>
      (.ok r.watches.length, { r with watches := r.watches ++ [some subscription] })

/-- Takes the events of a watch, and tells whether it has ended; none without such a watch. -/
def drain (w : Nat) : Act (Option (List WatchEvent × Bool)) := do
  let r ← get
  match r.watches[w]?.join with
  | none => return none
  | some subscription =>
    let (subscription, events, ended) ← onStorage fun s => s.take r.clock subscription
    modify fun r => { r with watches := r.watches.set w (some subscription) }
    return some (events, ended)

/-- Drops a watch; false without such a watch. -/
def dropWatch (w : Nat) : Act Bool := do
  match (← get).watches[w]?.join with
  | none => return false
  | some subscription =>
    modify fun r =>
      { r with storage := r.storage.drop subscription, watches := r.watches.set w none }
    return true

/-- Replaces an object that many times with nothing in between, and gives the last version. -/
def burst (raw : Nat) (object : StoredObject) : (count : Nat) → (last : String) →
    Act (Except KeyError String)
  | 0, last => return .ok last
  | count + 1, _ => do
    match ← onStore raw fun s i => s.update i object with
    | .error failure => return .error failure
    | .ok written => burst raw object count written.resourceVersion

/-- Changes an exposed store, if it is one in memory. -/
def faults (raw : Nat) (f : MemoryStore → MemoryStore) : Act Unit :=
  onStore raw fun s i => (s.modifyMemory i f, ())

/-- The number of the last write to an exposed store; zero for one of files. -/
def currentVersion (raw : Nat) : Act Nat := do
  let i ← backendOf raw
  match (← get).storage.backend i with
  | .memory m => return m.version
  | .local _ => return 0

def kindName (raw : Nat) : Act String := do
  let i ← backendOf raw
  return ((← get).storage.backend i).kindName

/-! ## Files -/

def filePath (r : Rehearsal) (file : String) : FilePath :=
  .ofText r.directory ++ .ofText file

/-- Changes the files; a change that is refused does nothing. -/
def changeFiles (f : Rehearsal → FileTree → Except FileFault FileTree) : Act Unit :=
  modify fun r =>
    match f r r.storage.disk.files with
    | .ok files => { r with storage := { r.storage with disk := { r.storage.disk with files } } }
    | .error _ => r

def putFile (file : String) (content : Bytes) : Act Unit :=
  changeFiles fun r files => files.write (r.filePath file) content

/-- Writes a file that is encrypted under a key. -/
def putEncrypted (key : MasterKey) (file : String) (plaintext : Bytes) : Act Unit := do
  let content ← modifyGet fun r =>
    let disk := r.storage.disk
    let (content, pool) := key.encrypt plaintext disk.pool
    (content, { r with storage := { r.storage with disk := { disk with pool } } })
  putFile file content

/-- Changes the last bit of one byte of a file. -/
def flipFile (file : String) (position : Nat) : Act Unit :=
  changeFiles fun r files => do
    let content ← files.read (r.filePath file)
    files.write (r.filePath file) (content.modify position (· ^^^ 1))

def removeFile (file : String) : Act Unit :=
  changeFiles fun r files => files.remove (r.filePath file)

def makeDirectory (file : String) : Act Unit :=
  changeFiles fun r files => .ok (files.createDirectories (r.filePath file)).1

def fileNames : Act (List String) := do
  let r ← get
  return r.storage.disk.files.names (.ofText r.directory)

def fileContent? (file : String) : Act (Option Bytes) := do
  let r ← get
  return (r.storage.disk.files.read (r.filePath file)).toOption

end Keyring.Rehearsal
