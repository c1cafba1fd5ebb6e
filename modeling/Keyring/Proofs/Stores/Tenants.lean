import Keyring.Proofs.Fleet.Snapshot
import Keyring.Proofs.Stores.Isolation
import Keyring.Proofs.WatchLoop
import Mathlib.Logic.Relation

/-!
# Key sets side by side in one store

A process that keeps its key sets in an object of a store has writes under way and watch loops that
keep its cache. All that it knows is what the store replies to its calls and tells its watches. If
the store keeps its objects apart, the process has nothing to do with the objects of others.
-/
namespace Keyring

/-- What a write to a key set asks the store. -/
def KeySetWrite.call? (w : KeySetWrite) : Option StoreCall :=
  match w.phase with
  | .fetching => some (.get w.request.target)
  | .storing object _ =>
    some (.write (if isCreation object then .create object else .update object))
  | _ => none

/-- What a write to a key set hears of a reply. -/
def StoreReply.answer? : StoreReply → Option StoreAnswer
  | found result => some (.found result)
  | written result => some (.written result)
  | _ => none

/-- The calls of a fleet ask their store this. -/
theorem Call.ask?_eq (w : KeySetWrite) (m : MemoryStore) :
    ask? w m = w.call?.bind fun call =>
      (m.reply call).2.answer?.map fun answer => ((m.reply call).1, answer) := by
  rw [ask?, KeySetWrite.call?]
  cases w.phase with
  | fetching => rfl
  | storing object id =>
    dsimp only
    by_cases h : KeySetWrite.isCreation object = true
    · rw [if_pos h, if_pos h]
      rfl
    · rw [if_neg h, if_neg h]
      rfl
  | generating | pausing | finished => rfl

/-- A write asks for its own object. -/
theorem KeySetWrite.Sound.target_call {w : KeySetWrite} {target : ObjectName} (h : w.Sound target)
    {call : StoreCall} (hcall : w.call? = some call) : call.target = target := by
  unfold KeySetWrite.call? at hcall
  split at hcall
  next => exact Option.some.inj hcall ▸ h.request
  next object id hphase =>
    have hname : object.objectName = target := by
      have := h.phase
      rwa [hphase] at this
    obtain rfl := Option.some.inj hcall
    rw [StoreCall.target]
    split <;> exact hname
  next => cases hcall

/-- A process with a cache and writes under way. -/
structure Tenant where
  cache : Cache
  write : ℕ → Option KeySetWrite

namespace Tenant

def start : Tenant := ⟨.empty, fun _ => none⟩

def setWrite (t : Tenant) (i : ℕ) (w : KeySetWrite) : Tenant :=
  { t with write := Function.update t.write i (some w) }

/-- A step of a process that keeps its key sets in an object. What the store may reply to a call and
what it may tell a watch are all that it has of the store. -/
inductive Step (target : ObjectName) (replied : StoreCall → StoreReply → Prop)
    (told : WatchEvent → Prop) : Tenant → Tenant → Prop
  /-- A write begins. -/
  | begin (t : Tenant) (i : ℕ) (request : WriteRequest) (h : request.target = target) :
    Step target replied told t (t.setWrite i (.start request))
  /-- A write looks at what the store replied to it. -/
  | look {t : Tenant} {i : ℕ} {w w' : KeySetWrite} {call : StoreCall} {reply : StoreReply}
    {answer : StoreAnswer} {cache : Cache} (hw : t.write i = some w) (hcall : w.call? = some call)
    (hreply : replied call reply) (hanswer : reply.answer? = some answer)
    (hlook : Call.look? w t.cache answer = some (w', cache)) :
    Step target replied told t ({ t with cache }.setWrite i w')
  /-- A write gets key material. -/
  | generate {t : Tenant} {i rsaBits : ℕ} {w w' : KeySetWrite} {now : Timestamp} {pool : Entropy}
    (hw : t.write i = some w) (h : Call.generate? w rsaBits now pool = some w') :
    Step target replied told t (t.setWrite i w')
  /-- A write's pause is over. -/
  | wake {t : Tenant} {i : ℕ} {w w' : KeySetWrite} (hw : t.write i = some w)
    (h : Call.wake? w = some w') : Step target replied told t (t.setWrite i w')
  /-- A watch loop looks at a list. -/
  | list (t : Tenant) {l : WatchLoop} {result : Except KeyError ObjectList}
    (hl : l.target = target) (hreply : replied (.list target) (.listed result)) :
    Step target replied told t { t with cache := (l.listed t.cache result).2 }
  /-- A watch loop takes an event. -/
  | receive (t : Tenant) {l : WatchLoop} {event : WatchEvent} (hl : l.target = target)
    (hevent : told event) :
    Step target replied told t { t with cache := (l.receive t.cache event).2 }

/-- The store has shown the object, in a reply to a call about it or in an event. -/
def Shown (target : ObjectName) (replied : StoreCall → StoreReply → Prop)
    (told : WatchEvent → Prop) (object : StoredObject) : Prop :=
  (∃ call reply, replied call reply ∧ call.target = target ∧ object ∈ reply.objects) ∨
    ∃ event, told event ∧ event.object? = some object

/-- The cached key sets are of an object of that name that the store has shown. -/
def Knows (target : ObjectName) (shown : StoredObject → Prop) (c : Cache) : Prop :=
  c.keySets = .empty ∨
    ∃ object, shown object ∧ object.objectName = target ∧ c.keySets = KeySets.ofObject object

namespace Knows

variable {target : ObjectName} {shown : StoredObject → Prop} {c : Cache}

theorem update (h : Knows target shown c) {object : StoredObject} (hshown : shown object)
    (hname : object.objectName = target) : Knows target shown (c.update object).1 := by
  unfold Cache.update
  split
  · exact Or.inr ⟨object, hshown, hname, rfl⟩
  · exact h

theorem delete (h : Knows target shown c) (token : String) :
    Knows target shown (c.delete token).1 := by
  unfold Cache.delete
  split
  · exact Or.inl rfl
  · exact h

/-- An object that was never written tells nothing. -/
theorem update_fresh (h : Knows target shown c) (name : ObjectName) :
    Knows target shown (c.update (.fresh name)).1 := by
  have hnever : c.newer? (StoredObject.fresh name).resourceVersion = none := by
    have hempty : Decimal.int64? "" = none := by decide
    rw [StoredObject.fresh, Cache.newer?, hempty, Option.filter_none]
  rw [Cache.update, hnever]
  exact h

/-- A watch loop takes only its own object out of a list. -/
theorem listed (h : Knows target shown c) {l : WatchLoop} (hl : l.target = target)
    {result : Except KeyError ObjectList}
    (hshown : ∀ list, result = .ok list → ∀ object ∈ list.items, shown object) :
    Knows target shown (l.listed c result).2 := by
  cases result with
  | error failure => exact h
  | ok list =>
    apply WatchLoop.listed_induction (P := Knows target shown) h
    · intro c object hmem hown hc
      exact hc.update (hshown list rfl object hmem) (hown.trans hl)
    · exact fun c token hc => hc.delete token

/-- A watch loop takes only events about its own object. -/
theorem receive (h : Knows target shown c) {l : WatchLoop} (hl : l.target = target)
    {event : WatchEvent} (hshown : ∀ object, event.object? = some object → shown object) :
    Knows target shown (l.receive c event).2 := by
  apply WatchLoop.receive_induction (P := Knows target shown) h
  · intro c object hobject hown hc
    exact hc.update (hshown object (LoopInput.object?_of_mem_offers hobject)) (hown.trans hl)
  · exact fun c token hc => hc.delete token

end Knows

/-- A process that has to do with its own object only: every call is about it, and so is what it
knows. -/
structure Confined (target : ObjectName) (shown : StoredObject → Prop) (t : Tenant) : Prop where
  writes : ∀ i w, t.write i = some w → w.Sound target
  cache : Knows target shown t.cache

variable {target : ObjectName} {replied : StoreCall → StoreReply → Prop} {told : WatchEvent → Prop}
  {shown : StoredObject → Prop} {t t' : Tenant}

theorem Confined.setWrite (h : t.Confined target shown) (i : ℕ) {w : KeySetWrite}
    (hw : w.Sound target) : (t.setWrite i w).Confined target shown := by
  refine ⟨fun j v hv => ?_, h.cache⟩
  by_cases hj : j = i
  · subst hj
    have hsame : w = v := by simpa [Tenant.setWrite] using hv
    exact hsame ▸ hw
  · have hother : t.write j = some v := by simpa [Tenant.setWrite, hj] using hv
    exact h.writes j v hother

/-- A write that looks at a reply which shows its own object only. -/
theorem Confined.look (h : t.Confined target shown) {i : ℕ} {w w' : KeySetWrite}
    (hw : t.write i = some w) {reply : StoreReply} {answer : StoreAnswer} {cache : Cache}
    (hanswer : reply.answer? = some answer)
    (hreply : ∀ object ∈ reply.objects, shown object ∧ object.objectName = target)
    (hlook : Call.look? w t.cache answer = some (w', cache)) :
    ({ t with cache }.setWrite i w').Confined target shown := by
  have hfound : ∀ object, answer = .found (.ok (some object)) →
      shown object ∧ object.objectName = target := by
    rintro object rfl
    cases reply with
    | found result =>
      obtain rfl := StoreAnswer.found.inj (Option.some.inj hanswer)
      exact hreply object List.mem_cons_self
    | listed | written | deleted => cases hanswer
  have hwritten : ∀ object, answer = .written (.ok object) →
      shown object ∧ object.objectName = target := by
    rintro object rfl
    cases reply with
    | written result =>
      obtain rfl := StoreAnswer.written.inj (Option.some.inj hanswer)
      exact hreply object List.mem_cons_self
    | found | listed | deleted => cases hanswer
  have hsound : w'.Sound target :=
    Call.look?_sound (h.writes i w hw) (fun object heq => (hfound object heq).2) hlook
  have hcache : Knows target shown cache := by
    rcases Call.look?_cases hlook with ⟨failure, -, rfl⟩ |
      ⟨found, object, plan, hseen, rfl, -, ⟨id, -, -, rfl⟩ | ⟨pending, -, rfl, -⟩⟩ |
      ⟨object, id, stored, -, hseen, -, rfl⟩
    · exact h.cache
    · cases found with
      | none => exact h.cache.update_fresh w.request.target
      | some object =>
        obtain ⟨hshown, hname⟩ := hfound object hseen
        exact h.cache.update hshown hname
    · exact h.cache
    · obtain ⟨hshown, hname⟩ := hwritten stored hseen
      exact h.cache.update hshown hname
  exact Confined.setWrite (t := { t with cache }) ⟨h.writes, hcache⟩ i hsound

/-- The store replies to calls about an object with objects of that name only. -/
def Honest (target : ObjectName) (replied : StoreCall → StoreReply → Prop) : Prop :=
  ∀ call reply, replied call reply → call.target = target →
    ∀ object ∈ reply.objects, object.objectName = target

/-- A step keeps a process to its own object. -/
theorem Confined.step (h : t.Confined target (Shown target replied told))
    (honest : Honest target replied) (hstep : Step target replied told t t') :
    t'.Confined target (Shown target replied told) := by
  cases hstep with
  | begin i request hrequest => exact h.setWrite i ⟨hrequest, trivial⟩
  | look hw hcall hreply hanswer hlook =>
    have htarget := (h.writes _ _ hw).target_call hcall
    apply h.look hw hanswer _ hlook
    intro object hobject
    exact ⟨Or.inl ⟨_, _, hreply, htarget, hobject⟩, honest _ _ hreply htarget object hobject⟩
  | generate hw hgenerate => exact h.setWrite _ (Call.generate?_spec (h.writes _ _ hw) hgenerate)
  | wake hw hwake => exact h.setWrite _ (Call.wake?_spec (h.writes _ _ hw) hwake)
  | list hl hreply =>
    refine ⟨h.writes, h.cache.listed hl ?_⟩
    rintro list rfl object hobject
    exact Or.inl ⟨_, _, hreply, rfl, hobject⟩
  | receive hl hevent =>
    refine ⟨h.writes, h.cache.receive hl ?_⟩
    intro object hobject
    exact Or.inr ⟨_, hevent, hobject⟩

/-- All that a process ever does is about its own object. -/
theorem confined_of_steps (honest : Honest target replied)
    (h : Relation.ReflTransGen (Step target replied told) start t) :
    t.Confined target (Shown target replied told) := by
  induction h with
  | refl =>
    refine ⟨fun i w hw => ?_, Or.inl rfl⟩
    cases hw
  | tail _ hstep ih => exact ih.step honest hstep

/-! ## Stores with many processes -/

/-- What a store may reply in one of its states. -/
def MayReply {σ : Type} (reply : σ → StoreCall → σ × StoreReply) (reachable : σ → Prop)
    (call : StoreCall) (answer : StoreReply) : Prop :=
  ∃ state, reachable state ∧ (reply state call).2 = answer

/-- A process that never reads, takes over or overwrites the objects of others: it asks for its own,
it knows the key sets of its own, and its writes cannot be seen at another object. -/
structure Separate {σ : Type} (reply : σ → StoreCall → σ × StoreReply) (names : Set ObjectName)
    (reachable : σ → Prop) (target : ObjectName) (told : WatchEvent → Prop) (t : Tenant) :
    Prop where
  asks : ∀ i w call, t.write i = some w → w.call? = some call → call.target = target
  knows : Knows target (Shown target (MayReply reply reachable) told) t.cache
  spares : ∀ i w write, t.write i = some w → w.call? = some (.write write) →
    ∀ state, reachable state → ∀ read : StoreCall, read.isWrite = false →
      read.target ∈ names → read.target ≠ target →
      (reply (reply state (.write write)).1 read).2.withoutVersion =
        (reply state read).2.withoutVersion

/-- Processes are separate on a store that keeps its objects apart. -/
theorem separate_of_isolates {σ : Type} {reply : σ → StoreCall → σ × StoreReply}
    {names : Set ObjectName} {reachable : σ → Prop}
    (hisolates : ∀ state, reachable state → Isolates reply names state) (htarget : target ∈ names)
    (h : Relation.ReflTransGen (Step target (MayReply reply reachable) told) start t) :
    t.Separate reply names reachable target told := by
  have honest : Honest target (MayReply reply reachable) := by
    rintro call answer ⟨state, hstate, rfl⟩ hcall object hobject
    exact ((hisolates state hstate).own call (hcall ▸ htarget) object hobject).trans hcall
  have hconfined := confined_of_steps honest h
  have hasks : ∀ i w call, t.write i = some w → w.call? = some call → call.target = target :=
    fun i w call hw hcall => (hconfined.writes i w hw).target_call hcall
  refine ⟨hasks, hconfined.cache, ?_⟩
  intro i w write hw hcall state hstate read hread hin hne
  have hwrite : write.target = target := hasks i w (.write write) hw hcall
  exact (hisolates state hstate).apart write read (hwrite ▸ htarget) hin hread (hwrite ▸ hne)

end Tenant

variable {members : ℕ → Member} {actions : List Action} {fleet : Fleet}
variable {disk disk' : Disk} {directory : String} {source : MasterKeySource} {pollMillis : ℕ}
  {s : LocalStore} {names : Set ObjectName}

/-- A store in memory keeps all objects apart, whatever was done to it. A store in files does if and
only if no two names that its file system takes have one file name. Where objects are kept apart,
processes with different objects have nothing to do with each other. -/
theorem objects_isolated (hrun : Fleet.start.run? members actions = some fleet)
    (hopen : LocalStore.openDirectory disk directory source pollMillis = (disk', .ok s))
    (hfresh : ∀ name ∈ names, s.IsFresh disk'.files name) :
    Isolates MemoryStore.reply Set.univ fleet.store ∧
      ((∀ calls : List StoreCall, (∀ call ∈ calls, call.target ∈ names) →
          StoreCall.writes calls < ObjectFile.versionLimit →
          Isolates s.reply names (replies s.reply disk' calls).1) ↔
        Set.InjOn LocalStore.fileName {name ∈ names | s.Admits name}) ∧
      ∀ (σ : Type) (reply : σ → StoreCall → σ × StoreReply) (held : Set ObjectName)
        (reachable : σ → Prop), (∀ state, reachable state → Isolates reply held state) →
        ∀ target ∈ held, ∀ (told : WatchEvent → Prop) (t : Tenant),
          Relation.ReflTransGen (Tenant.Step target (Tenant.MayReply reply reachable) told)
            Tenant.start t →
          t.Separate reply held reachable target told := by
  obtain ⟨hsound, -⟩ := Fleet.run?_spec (.start members) hrun
  refine ⟨hsound.store.isolates Set.univ, LocalStore.isolates_iff hopen hfresh, ?_⟩
  intro σ reply held reachable hisolates target htarget told t h
  exact Tenant.separate_of_isolates hisolates htarget h

/-- Two objects in memory, and all plain names in a new directory. -/
theorem objects_isolated_plain :
    ∃ fleet,
      Fleet.start.run? (Member.sharing ⟨"ns", "keys"⟩)
        [.store (.create (.fresh ⟨"ns", "keys"⟩)), .store (.create (.fresh ⟨"ns", "other"⟩))] =
          some fleet ∧
      LocalStore.openDirectory ⟨.empty, .ofSeed [1]⟩ "/keys"
        (.bytes LocalStore.firstStore.masterKey.bytes) 100 =
          (LocalStore.firstDisk, .ok LocalStore.firstStore) ∧
      (∀ name ∈ {name | LocalStore.Plain name},
        LocalStore.firstStore.IsFresh LocalStore.firstDisk.files name) ∧
      Isolates MemoryStore.reply Set.univ fleet.store ∧
      ∀ calls : List StoreCall, (∀ call ∈ calls, LocalStore.Plain call.target) →
        StoreCall.writes calls < ObjectFile.versionLimit →
        Isolates LocalStore.firstStore.reply {name | LocalStore.Plain name}
          (replies LocalStore.firstStore.reply LocalStore.firstDisk calls).1 := by
  obtain ⟨fleet, hrun⟩ : ∃ fleet, Fleet.start.run? (Member.sharing ⟨"ns", "keys"⟩)
      [.store (.create (.fresh ⟨"ns", "keys"⟩)), .store (.create (.fresh ⟨"ns", "other"⟩))] =
        some fleet := ⟨_, rfl⟩
  have hfresh : ∀ name ∈ {name | LocalStore.Plain name},
      LocalStore.firstStore.IsFresh LocalStore.firstDisk.files name :=
    fun name _ => LocalStore.isFresh_first name
  obtain ⟨hmemory, hfiles, -⟩ := objects_isolated hrun LocalStore.openDirectory_first hfresh
  refine ⟨fleet, hrun, LocalStore.openDirectory_first, hfresh, hmemory, hfiles.2 ?_⟩
  exact LocalStore.injOn_fileName_plain.mono fun name hname => hname.1

/-- An object that is created under one name is found under another that has the same file name. -/
theorem not_isolated_sharedFile :
    LocalStore.openDirectory ⟨.empty, .ofSeed [1]⟩ "/keys"
        (.bytes LocalStore.firstStore.masterKey.bytes) 100 =
          (LocalStore.firstDisk, .ok LocalStore.firstStore) ∧
      (⟨"a__b", "c"⟩ : ObjectName) ≠ ⟨"a", "b__c"⟩ ∧
      LocalStore.firstStore.get LocalStore.firstDisk ⟨"a", "b__c"⟩ = .ok none ∧
      LocalStore.firstStore.get
        (LocalStore.firstStore.create LocalStore.firstDisk
          ⟨"a__b", "c", "", .ofList [("a", [49])]⟩).1 ⟨"a", "b__c"⟩ =
        .ok (some ⟨"a__b", "c", "1", .ofList [("a", [49])]⟩) := by
  obtain ⟨place, hplace⟩ := LocalStore.exists_ready
    (LocalStore.isDirectory_of_openDirectory LocalStore.openDirectory_first)
  obtain ⟨hready, hnone⟩ := hplace ⟨"a__b", "c"⟩ (LocalStore.isFresh_first _)
  obtain ⟨hready', hnone'⟩ := hplace ⟨"a", "b__c"⟩ (LocalStore.isFresh_first _)
  have hadmits : LocalStore.firstStore.Admits ⟨"a__b", "c"⟩ := by decide +kernel
  have hshared : LocalStore.fileName ⟨"a__b", "c"⟩ = LocalStore.fileName ⟨"a", "b__c"⟩ := by
    decide +kernel
  have hadmits' := LocalStore.admits_of_fileName hshared hadmits
  refine ⟨LocalStore.openDirectory_first, by decide, ?_, ?_⟩
  · have hload := (hready'.load_missing hnone').resolve_right fun hfailed => hfailed.1 hadmits'
    rw [LocalStore.get, hload]
    rfl
  · exact LocalStore.get_of_created ⟨"a__b", "c", "", .ofList [("a", [49])]⟩ hadmits hready hnone
      hshared

end Keyring
