import Keyring.KeySet.Write
import Keyring.Proofs.MemoryStore.Evolution
import Keyring.Proofs.Runs
import Keyring.SyncOptions
import Keyring.WatchLoop
import Mathlib.Data.Int.Notation
import Mathlib.Logic.Function.Basic

/-!
# Fleets

Any number of processes share one memory store. Each has a cache, calls under way and watch loops. A
call or a loop asks the store in one step and looks at the answer in another, so between the two
anything may happen to the store and to the caches. Forwarders move events in steps of their own,
and other programs may write to the store at any time.
-/
namespace Keyring

/-- A process that keeps its key sets in an object. -/
structure Member where
  target : ObjectName
  options : SyncOptions

/-- Processes that all keep their key sets in one object. -/
def Member.sharing (target : ObjectName) : ℕ → Member := fun _ => ⟨target, .standard⟩

/-! ## Calls -/

/-- What a process is asked for. -/
inductive Errand
  /-- An active version of a key set. -/
  | ensure
  /-- A new version. -/
  | rotate
  /-- A handle on a key set, which gets a first version if it has no active one. -/
  | keySet
  deriving DecidableEq, Repr

/-- What the store has answered to a call. -/
inductive StoreAnswer
  | found (result : Except KeyError (Option StoredObject))
  | written (result : Except KeyError StoredObject)

/-- A call to a process. -/
structure Call where
  owner : ℕ
  errand : Errand
  name : String
  /-- The write to the key set, if the call has come to one. -/
  write : Option KeySetWrite
  /-- An answer of the store that the write has not seen. -/
  answer : Option StoreAnswer
  /-- What the caller was told: a failure, or the number of the active version. -/
  result : Option (Except KeyError KeyId)

/-- What a call can do next. -/
inductive CallStep
  /-- The write asks the store. -/
  | ask
  /-- The write looks at the answer. -/
  | look
  /-- The write gets key material, made at that time out of that pool. -/
  | generate (now : Timestamp) (pool : Entropy)
  /-- The write's pause is over. -/
  | wake
  /-- The caller is told the result. -/
  | reply
  deriving DecidableEq, Repr

namespace Call

/-- A new call. One for a handle is over at once if the cache has an active version. -/
def start (owner : ℕ) (member : Member) (cache : Cache) (errand : Errand) (name : String)
    (keyType : KeyType) : Call :=
  match KeySetName.ofText name with
  | .error failure => ⟨owner, errand, name, none, none, some (.error failure)⟩
  | .ok valid =>
    let write := KeySetWrite.start
      ⟨member.target, valid, keyType, errand = .rotate, member.options.writeRetry⟩
    match errand, cache.activeKey name with
    | .keySet, .ok key => ⟨owner, errand, name, none, none, some (.ok key.id)⟩
    | _, _ => ⟨owner, errand, name, some write, none, none⟩

/-- What a write asks the store. -/
def ask? (w : KeySetWrite) (store : MemoryStore) : Option (MemoryStore × StoreAnswer) :=
  match w.phase with
  | .fetching =>
    let found := store.get w.request.target
    some (found.1, .found found.2)
  | .storing object _ =>
    let written :=
      if KeySetWrite.isCreation object then store.create object else store.update object
    some (written.1, .written written.2)
  | _ => none

/-- What a write makes of an answer. -/
def look? (w : KeySetWrite) (cache : Cache) : StoreAnswer → Option (KeySetWrite × Cache)
  | .found result =>
    match w.phase with
    | .fetching => some (w.fetched cache result)
    | _ => none
  | .written result =>
    match w.phase with
    | .storing _ id => some (w.stored id cache result)
    | _ => none

/-- What a write makes of new key material. -/
def generate? (w : KeySetWrite) (rsaBits : ℕ) (now : Timestamp) (pool : Entropy) :
    Option KeySetWrite :=
  match w.phase with
  | .generating fetched pending =>
    let key := (Key.generate w.request.keyType .none rsaBits now pool).1
    some (w.generated fetched pending (key.map Key.record))
  | _ => none

/-- A write after its pause. -/
def wake? (w : KeySetWrite) : Option KeySetWrite :=
  match w.phase with
  | .pausing (some _) => some w.resume
  | _ => none

/-- What the caller is told at the end of the write. For a handle the cache is read once more. -/
def outcome (c : Call) (cache : Cache) (result : Except KeyError KeyId) : Except KeyError KeyId :=
  match c.errand with
  | .keySet =>
    match result, cache.activeKey c.name with
    | .ok _, .ok key => .ok key.id
    | .ok _, .error failure => .error (.creationFailed c.name failure)
    | .error failure, _ => .error (.creationFailed c.name failure)
  | _ => result

/-- A step of a call, with the store and the cache that it leaves behind. -/
def step? (rsaBits : ℕ) (store : MemoryStore) (cache : Cache) (c : Call) :
    CallStep → Option (MemoryStore × Cache × Call)
  | .ask =>
    match c.write, c.answer with
    | some w, none =>
      (ask? w store).map fun (store, answer) => (store, cache, { c with answer := some answer })
    | _, _ => none
  | .look =>
    match c.write, c.answer with
    | some w, some answer =>
      (look? w cache answer).map fun (w, cache) =>
        (store, cache, { c with write := some w, answer := none })
    | _, _ => none
  | .generate now pool =>
    (c.write.bind fun w => generate? w rsaBits now pool).map fun w =>
      (store, cache, { c with write := some w })
  | .wake => (c.write.bind wake?).map fun w => (store, cache, { c with write := some w })
  | .reply =>
    match c.write.bind KeySetWrite.result?, c.result with
    | some result, none => some (store, cache, { c with result := some (c.outcome cache result) })
    | _, _ => none

/-- What a look at an answer leads to: the attempt fails, the active version is kept, one more
version is planned, or the write was stored. -/
theorem look?_cases {w w' : KeySetWrite} {cache cache' : Cache} {answer : StoreAnswer}
    (h : look? w cache answer = some (w', cache')) :
    (∃ failure, w' = w.fail failure ∧ cache' = cache) ∨
      (∃ found object plan, answer = .found (.ok found) ∧
        object = found.getD (.fresh w.request.target) ∧
        KeySetPlan.make w.request.name (object.data.get? w.request.name.field) w.request.keyType
          w.request.rotate = .ok plan ∧
        ((∃ id, plan = .unchanged id ∧ w' = { w with phase := .finished (.ok id) } ∧
            cache' = (cache.update object).1) ∨
          ∃ pending, plan = .needsVersion pending ∧ cache' = cache ∧
            ((∃ material, w.material = some material ∧ w' = w.prepare object pending material) ∨
              w' = { w with phase := .generating object pending }))) ∨
      ∃ object id written, w.phase = .storing object id ∧ answer = .written (.ok written) ∧
        w' = { w with phase := .finished (.ok id) } ∧ cache' = (cache.update written).1 := by
  unfold look? at h
  split at h
  next result =>
    split at h
    next =>
      rw [Option.some.injEq] at h
      unfold KeySetWrite.fetched at h
      split at h
      next failure =>
        obtain ⟨rfl, rfl⟩ := Prod.mk.inj h
        exact Or.inl ⟨failure, rfl, rfl⟩
      next found =>
        dsimp only at h
        split at h
        next failure _ =>
          obtain ⟨rfl, rfl⟩ := Prod.mk.inj h
          exact Or.inl ⟨failure, rfl, rfl⟩
        next id hplan =>
          obtain ⟨rfl, rfl⟩ := Prod.mk.inj h
          exact Or.inr (Or.inl ⟨found, _, _, rfl, rfl, hplan, Or.inl ⟨id, rfl, rfl, rfl⟩⟩)
        next pending hplan =>
          right; left
          refine ⟨found, _, _, rfl, rfl, hplan, Or.inr ⟨pending, rfl, ?_⟩⟩
          split at h
          next material hmaterial =>
            obtain ⟨rfl, rfl⟩ := Prod.mk.inj h
            exact ⟨rfl, Or.inl ⟨material, hmaterial, rfl⟩⟩
          next =>
            obtain ⟨rfl, rfl⟩ := Prod.mk.inj h
            exact ⟨rfl, Or.inr rfl⟩
    next => cases h
  next result =>
    split at h
    next object id hphase =>
      rw [Option.some.injEq] at h
      unfold KeySetWrite.stored at h
      split at h
      next failure =>
        obtain ⟨rfl, rfl⟩ := Prod.mk.inj h
        exact Or.inl ⟨failure, rfl, rfl⟩
      next written =>
        obtain ⟨rfl, rfl⟩ := Prod.mk.inj h
        exact Or.inr (Or.inr ⟨object, id, written, hphase, rfl, rfl, rfl⟩)
    next => cases h

/-- What a request of a call is. -/
theorem step?_ask {rsaBits : ℕ} {store store' : MemoryStore} {cache cache' : Cache} {c c' : Call}
    (h : c.step? rsaBits store cache .ask = some (store', cache', c')) :
    ∃ w answer, c.write = some w ∧ c.answer = none ∧ ask? w store = some (store', answer) ∧
      cache' = cache ∧ c' = { c with answer := some answer } := by
  simp only [step?] at h
  split at h
  next w hw hanswer =>
    obtain ⟨⟨after, answer⟩, hask, heq⟩ := Option.map_eq_some_iff.1 h
    simp only [Prod.mk.injEq] at heq
    obtain ⟨rfl, rfl, rfl⟩ := heq
    exact ⟨w, answer, hw, hanswer, hask, rfl, rfl⟩
  next => cases h

/-- What a look of a call at an answer is. -/
theorem step?_look {rsaBits : ℕ} {store store' : MemoryStore} {cache cache' : Cache} {c c' : Call}
    (h : c.step? rsaBits store cache .look = some (store', cache', c')) :
    ∃ w answer w', c.write = some w ∧ c.answer = some answer ∧
      look? w cache answer = some (w', cache') ∧ store' = store ∧
      c' = { c with write := some w', answer := none } := by
  simp only [step?] at h
  split at h
  next w answer hw hanswer =>
    obtain ⟨⟨next, newCache⟩, hlook, heq⟩ := Option.map_eq_some_iff.1 h
    simp only [Prod.mk.injEq] at heq
    obtain ⟨rfl, rfl, rfl⟩ := heq
    exact ⟨w, answer, next, hw, hanswer, hlook, rfl, rfl⟩
  next => cases h

/-- What a step of a call can be: a request, a look at the answer, a step of the write alone, or the
reply. -/
theorem step?_cases {rsaBits : ℕ} {store store' : MemoryStore} {cache cache' : Cache} {c c' : Call}
    {step : CallStep} (h : c.step? rsaBits store cache step = some (store', cache', c')) :
    (∃ w answer, step = .ask ∧ c.write = some w ∧ c.answer = none ∧
        ask? w store = some (store', answer) ∧ cache' = cache ∧
        c' = { c with answer := some answer }) ∨
      (∃ w answer w', step = .look ∧ c.write = some w ∧ c.answer = some answer ∧
        look? w cache answer = some (w', cache') ∧ store' = store ∧
        c' = { c with write := some w', answer := none }) ∨
      (∃ w w', ((∃ now pool, step = .generate now pool ∧
          generate? w rsaBits now pool = some w') ∨ (step = .wake ∧ wake? w = some w')) ∧
        c.write = some w ∧ store' = store ∧ cache' = cache ∧ c' = { c with write := some w' }) ∨
      (∃ w result, step = .reply ∧ c.write = some w ∧ w.result? = some result ∧
        store' = store ∧ cache' = cache ∧
        c' = { c with result := some (c.outcome cache result) }) := by
  cases step with
  | ask =>
    left
    obtain ⟨w, answer, hask⟩ := step?_ask h
    exact ⟨w, answer, rfl, hask⟩
  | look =>
    right; left
    obtain ⟨w, answer, w', hlook⟩ := step?_look h
    exact ⟨w, answer, w', rfl, hlook⟩
  | generate now pool =>
    right; right; left
    simp only [step?] at h
    obtain ⟨next, hnext, heq⟩ := Option.map_eq_some_iff.1 h
    obtain ⟨w, hw, hgenerate⟩ := Option.bind_eq_some_iff.1 hnext
    simp only [Prod.mk.injEq] at heq
    obtain ⟨rfl, rfl, rfl⟩ := heq
    exact ⟨w, next, Or.inl ⟨now, pool, rfl, hgenerate⟩, hw, rfl, rfl, rfl⟩
  | wake =>
    right; right; left
    simp only [step?] at h
    obtain ⟨next, hnext, heq⟩ := Option.map_eq_some_iff.1 h
    obtain ⟨w, hw, hwake⟩ := Option.bind_eq_some_iff.1 hnext
    simp only [Prod.mk.injEq] at heq
    obtain ⟨rfl, rfl, rfl⟩ := heq
    exact ⟨w, next, Or.inr ⟨rfl, hwake⟩, hw, rfl, rfl, rfl⟩
  | reply =>
    right; right; right
    simp only [step?] at h
    split at h
    next result hresult _ =>
      obtain ⟨w, hw, hfinished⟩ := Option.bind_eq_some_iff.1 hresult
      simp only [Option.some.injEq, Prod.mk.injEq] at h
      obtain ⟨rfl, rfl, rfl⟩ := h
      exact ⟨w, result, rfl, hw, hfinished, rfl, rfl, rfl⟩
    next => cases h

end Call

/-! ## Watchers -/

/-- What the store has answered to a watch loop. -/
inductive WatchAnswer
  | listed (result : Except KeyError ObjectList)
  | opened (result : Except KeyError Unit)
  | event (event : WatchEvent)
  /-- The feed has ended. -/
  | ended

/-- A watch loop of a process with its feed. -/
structure Watcher where
  owner : ℕ
  loop : WatchLoop
  /-- An answer of the store that the loop has not seen. -/
  answer : Option WatchAnswer
  /-- The feed of the watch that is open. -/
  feed : Option ℕ
  /-- The version of the last list. -/
  listVersion : String
  /-- The events that the loop has taken since then. -/
  consumed : List WatchEvent

/-- What a watch loop can do next. -/
inductive WatchStep
  /-- The loop asks the store, or for the next event. -/
  | ask
  /-- The loop looks at the answer. -/
  | look
  /-- The loop's pause is over. -/
  | resume
  /-- The loop is asked to stop. -/
  | cancel
  deriving DecidableEq, Repr

namespace Watcher

def start (owner : ℕ) (member : Member) : Watcher :=
  ⟨owner, .start member.target member.options.watchBackoff, none, none, "", []⟩

/-- Goes on with a loop, without its feed if it does not watch. -/
def proceed (w : Watcher) (store : MemoryStore) (loop : WatchLoop) : MemoryStore × Watcher :=
  let w := { w with loop, answer := none }
  if loop.phase = .watching then (store, w)
  else
    match w.feed with
    | some feed => (store.drop feed, { w with feed := none })
    | none => (store, w)

/-- What a loop asks the store. -/
def ask? (w : Watcher) (store : MemoryStore) : Option (MemoryStore × Watcher) :=
  match w.loop.phase with
  | .listing =>
    let list := store.list w.loop.target
    some (list.1, { w with answer := some (.listed list.2) })
  | .opening token =>
    let watch := store.watch w.loop.target token
    some (watch.1, { w with
      answer := some (.opened (watch.2.map fun _ => ()))
      feed := watch.2.toOption })
  | .watching =>
    w.feed.bind fun feed =>
      (store.next? feed).map fun (store, event) =>
        (store, { w with answer := some (event.elim .ended .event) })
  | _ => none

/-- What a loop makes of an answer. -/
def look? (w : Watcher) (store : MemoryStore) (cache : Cache) (answer : WatchAnswer) :
    Option (MemoryStore × Cache × Watcher) :=
  match w.loop.phase, answer with
  | .listing, .listed result =>
    let next := w.loop.listed cache result
    let listVersion := match result with
      | .ok list => list.resourceVersion
      | .error _ => w.listVersion
    let left := { w with listVersion, consumed := [] }.proceed store next.1
    some (left.1, next.2, left.2)
  | .opening _, .opened result =>
    let left := w.proceed store (w.loop.opened result)
    some (left.1, cache, left.2)
  | .watching, .event event =>
    let next := w.loop.receive cache event
    let left := { w with consumed := w.consumed ++ [event] }.proceed store next.1
    some (left.1, next.2, left.2)
  | .watching, .ended =>
    let left := w.proceed store w.loop.fail
    some (left.1, cache, left.2)
  | _, _ => none

/-- A step of a watcher, with the store and the cache that it leaves behind. -/
def step? (store : MemoryStore) (cache : Cache) (w : Watcher) :
    WatchStep → Option (MemoryStore × Cache × Watcher)
  | .ask =>
    match w.answer with
    | none => (w.ask? store).map fun (store, w) => (store, cache, w)
    | some _ => none
  | .look => w.answer.bind (w.look? store cache)
  | .resume =>
    match w.loop.phase with
    | .backoff _ => some (store, cache, { w with loop := w.loop.resume })
    | _ => none
  | .cancel =>
    if w.loop.isOver then none
    else
      let left := w.proceed store w.loop.cancel
      some (left.1, cache, left.2)

end Watcher

/-! ## Fleets -/

/-- What happens to a store by itself or by other programs. -/
inductive StoreStep
  | create (object : StoredObject)
  | update (object : StoredObject)
  | delete (name : ObjectName)
  | failGets (count : ℕ)
  | failLists (count : ℕ)
  | bookmark
  | closeWatches
  | forward (feed : ℕ) (step : FeedStep)
  deriving DecidableEq, Repr

def MemoryStore.step? (s : MemoryStore) : StoreStep → Option MemoryStore
  | .create object => some (s.create object).1
  | .update object => some (s.update object).1
  | .delete name => some (s.delete name).1
  | .failGets count => some { s with failingGets := count }
  | .failLists count => some { s with failingLists := count }
  | .bookmark => some s.bookmark
  | .closeWatches => some s.closeWatches
  | .forward feed step => s.forwardStep? feed step

/-- What happens in a fleet. -/
inductive Action
  | store (step : StoreStep)
  | begin (call owner : ℕ) (errand : Errand) (name : String) (keyType : KeyType)
  | call (call : ℕ) (step : CallStep)
  | spawn (watcher owner : ℕ)
  | watcher (watcher : ℕ) (step : WatchStep)
  deriving DecidableEq, Repr

/-- A store, and what the processes that share it have at hand. -/
structure Fleet where
  store : MemoryStore
  cache : ℕ → Cache
  call : ℕ → Option Call
  watcher : ℕ → Option Watcher

namespace Fleet

/-- A new store, and processes that have done nothing yet. -/
def start : Fleet := ⟨.empty, fun _ => .empty, fun _ => none, fun _ => none⟩

/-- The fleet with what a process has left of the store and of its cache. -/
def advance (fleet : Fleet) (store : MemoryStore) (owner : ℕ) (cache : Cache) : Fleet :=
  { fleet with store, cache := Function.update fleet.cache owner cache }

def setCall (fleet : Fleet) (i : ℕ) (c : Call) : Fleet :=
  { fleet with call := Function.update fleet.call i (some c) }

def setWatcher (fleet : Fleet) (k : ℕ) (w : Watcher) : Fleet :=
  { fleet with watcher := Function.update fleet.watcher k (some w) }

/-- A step of a fleet; none where it cannot be taken. -/
def step? (members : ℕ → Member) (fleet : Fleet) : Action → Option Fleet
  | .store step => (fleet.store.step? step).map fun store => { fleet with store }
  | .begin i owner errand name keyType =>
    match fleet.call i with
    | some _ => none
    | none =>
      some (fleet.setCall i
        (.start owner (members owner) (fleet.cache owner) errand name keyType))
  | .call i step =>
    (fleet.call i).bind fun c =>
      (c.step? (members c.owner).options.rsaBits fleet.store (fleet.cache c.owner) step).map
        fun (store, cache, c') => (fleet.advance store c.owner cache).setCall i c'
  | .spawn k owner =>
    match fleet.watcher k with
    | some _ => none
    | none => some (fleet.setWatcher k (.start owner (members owner)))
  | .watcher k step =>
    (fleet.watcher k).bind fun w =>
      (w.step? fleet.store (fleet.cache w.owner) step).map
        fun (store, cache, w') => (fleet.advance store w.owner cache).setWatcher k w'

/-- Steps of a fleet, one after the other. -/
abbrev run? (members : ℕ → Member) (fleet : Fleet) (actions : List Action) : Option Fleet :=
  runSteps? (step? members) fleet actions

variable {members : ℕ → Member} {fleet : Fleet}

/-- What a step of a fleet can be. -/
theorem step?_cases {action : Action} {next : Fleet} (h : fleet.step? members action = some next) :
    (∃ step store, action = .store step ∧ fleet.store.step? step = some store ∧
        next = { fleet with store }) ∨
      (∃ i owner errand name keyType, action = .begin i owner errand name keyType ∧
        fleet.call i = none ∧ next = fleet.setCall i
          (.start owner (members owner) (fleet.cache owner) errand name keyType)) ∨
      (∃ i step c store cache c', action = .call i step ∧ fleet.call i = some c ∧
        c.step? (members c.owner).options.rsaBits fleet.store (fleet.cache c.owner) step =
          some (store, cache, c') ∧
        next = (fleet.advance store c.owner cache).setCall i c') ∨
      (∃ k owner, action = .spawn k owner ∧ fleet.watcher k = none ∧
        next = fleet.setWatcher k (.start owner (members owner))) ∨
      (∃ k step w store cache w', action = .watcher k step ∧ fleet.watcher k = some w ∧
        w.step? fleet.store (fleet.cache w.owner) step = some (store, cache, w') ∧
        next = (fleet.advance store w.owner cache).setWatcher k w') := by
  cases action with
  | store step =>
    left
    simp only [step?] at h
    obtain ⟨store, hstep, rfl⟩ := Option.map_eq_some_iff.1 h
    exact ⟨step, store, rfl, hstep, rfl⟩
  | begin i owner errand name keyType =>
    right; left
    simp only [step?] at h
    split at h
    next => cases h
    next hnone =>
      exact ⟨i, owner, errand, name, keyType, rfl, hnone, (Option.some.inj h).symm⟩
  | call i step =>
    right; right; left
    simp only [step?] at h
    obtain ⟨c, hc, hmap⟩ := Option.bind_eq_some_iff.1 h
    obtain ⟨⟨store, cache, c'⟩, hstep, rfl⟩ := Option.map_eq_some_iff.1 hmap
    exact ⟨i, step, c, store, cache, c', rfl, hc, hstep, rfl⟩
  | spawn k owner =>
    right; right; right; left
    simp only [step?] at h
    split at h
    next => cases h
    next hnone => exact ⟨k, owner, rfl, hnone, (Option.some.inj h).symm⟩
  | watcher k step =>
    right; right; right; right
    simp only [step?] at h
    obtain ⟨w, hw, hmap⟩ := Option.bind_eq_some_iff.1 h
    obtain ⟨⟨store, cache, w'⟩, hstep, rfl⟩ := Option.map_eq_some_iff.1 hmap
    exact ⟨k, step, w, store, cache, w', rfl, hw, hstep, rfl⟩

theorem call_setCall {i j : ℕ} {c d : Call} (h : (fleet.setCall i c).call j = some d) :
    (j = i ∧ d = c) ∨ (j ≠ i ∧ fleet.call j = some d) := by
  by_cases hj : j = i
  · subst hj
    left
    simpa [setCall, eq_comm] using h
  · right
    refine ⟨hj, ?_⟩
    simpa [setCall, hj] using h

theorem watcher_setWatcher {k l : ℕ} {v w : Watcher}
    (h : (fleet.setWatcher k w).watcher l = some v) :
    (l = k ∧ v = w) ∨ (l ≠ k ∧ fleet.watcher l = some v) := by
  by_cases hl : l = k
  · subst hl
    left
    simpa [setWatcher, eq_comm] using h
  · right
    refine ⟨hl, ?_⟩
    simpa [setWatcher, hl] using h

/-- A call is as it was, has begun, or has taken a step. -/
theorem call_of_step? {action : Action} {next : Fleet} (h : fleet.step? members action = some next)
    {i : ℕ} {c : Call} (hc : next.call i = some c) :
    fleet.call i = some c ∨
      (∃ owner errand name keyType, action = .begin i owner errand name keyType ∧
        next.store = fleet.store ∧
        c = .start owner (members owner) (fleet.cache owner) errand name keyType) ∨
      ∃ step d cache, action = .call i step ∧ fleet.call i = some d ∧
        d.step? (members d.owner).options.rsaBits fleet.store (fleet.cache d.owner) step =
          some (next.store, cache, c) := by
  rcases step?_cases h with ⟨step, store, -, -, rfl⟩ |
    ⟨j, owner, errand, name, keyType, rfl, -, rfl⟩ |
    ⟨j, step, d, store, cache, d', rfl, hd, hstep, rfl⟩ | ⟨k, owner, -, -, rfl⟩ |
    ⟨k, step, w, store, cache, w', -, -, -, rfl⟩
  · exact Or.inl hc
  · rcases call_setCall hc with ⟨rfl, rfl⟩ | ⟨-, hold⟩
    · exact Or.inr (Or.inl ⟨owner, errand, name, keyType, rfl, rfl, rfl⟩)
    · exact Or.inl hold
  · rcases call_setCall hc with ⟨rfl, rfl⟩ | ⟨-, hold⟩
    · exact Or.inr (Or.inr ⟨step, d, cache, rfl, hd, hstep⟩)
    · exact Or.inl hold
  · exact Or.inl hc
  · exact Or.inl hc

end Fleet
end Keyring
