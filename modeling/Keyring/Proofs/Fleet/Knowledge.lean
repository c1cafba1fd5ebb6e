import Keyring.Proofs.Fleet.Basic

/-!
# What processes know of the store

Whatever a cache or an answer says of an object was so right after an earlier write, and later
writes do not change what was. A cache takes over what it is told of a newer version and so reflects
the object as it was at one version at all times.
-/
namespace Keyring

/-- The key sets of an object; none without the object. -/
def KeySets.ofObject? (object : Option StoredObject) : KeySets :=
  object.elim .empty KeySets.ofObject

/-- The versions that a cache can read. -/
def Cache.versionLimit : ℕ := 9223372036854775808

/-- Right after the write with that token the object was this one, or was not there. -/
def MemoryStore.Attests (s : MemoryStore) (name : ObjectName) (token : String)
    (object : Option StoredObject) : Prop :=
  ∃ version ≤ s.version, token = Decimal.ofNat version ∧ s.objectAt version name = object

/-- A cache with the key sets of the object as it was right after the write of the cache's version.
-/
def Cache.Reflects (c : Cache) (s : MemoryStore) (name : ObjectName) : Prop :=
  ∃ version ≤ s.version, c.resourceVersion = (version : ℤ) ∧
    c.keySets = KeySets.ofObject? (s.objectAt version name)

namespace MemoryStore

variable {s s' : MemoryStore} {name : ObjectName}

theorem Attests.later {token : String} {object : Option StoredObject}
    (h : s.Attests name token object) (hleads : s.Leads s') : s'.Attests name token object := by
  obtain ⟨version, hle, htoken, hobject⟩ := h
  refine ⟨version, Nat.le_trans hle hleads.version_le, htoken, ?_⟩
  rw [hleads.objectAt hle, hobject]

theorem Attests.objectName {token : String} {object : StoredObject}
    (h : s.Attests name token (some object)) : object.objectName = name := by
  obtain ⟨version, -, -, hobject⟩ := h
  exact Change.objectName_of_lastLeft? hobject

/-- The version of an object is the number of the write that left it. -/
theorem Consistent.objectAt_of_stamp (hs : s.Consistent) {version : ℕ} {object : StoredObject}
    (h : s.objectAt version name = some object) :
    ∃ c ∈ s.history, c.version ≤ version ∧ c.target = name ∧ c.left? = some object ∧
      object.resourceVersion = Decimal.ofNat c.version ∧
      ∀ d ∈ s.history, d.target = name → d.version ≤ version → d.version ≤ c.version := by
  obtain ⟨c, hfind, hleft⟩ := Option.bind_eq_some_iff.1 h
  have hmem := List.mem_of_find?_eq_some hfind
  rw [List.mem_filter, decide_eq_true_eq] at hmem
  have htarget : c.target = name := by simpa using List.find?_some hfind
  have hobject : c.object = object := by
    unfold Change.left? at hleft
    split at hleft
    case h_1 | h_2 => exact Option.some.inj hleft
    case h_3 => cases hleft
  refine ⟨c, hmem.1, hmem.2, htarget, hleft, hobject ▸ hs.stamped c hmem.1, ?_⟩
  intro d hd hdtarget hdversion
  obtain ⟨-, before, after, hsplit, hbefore⟩ := List.find?_eq_some_iff_append.1 hfind
  have hdmem : d ∈ s.history.filter fun c => c.version ≤ version :=
    List.mem_filter.2 ⟨hd, decide_eq_true hdversion⟩
  have hdescending := hs.descending.filter fun c => decide (c.version ≤ version)
  rw [hsplit] at hdmem hdescending
  rcases List.mem_append.1 hdmem with hearly | hlate
  · have := hbefore d hearly
    simp [hdtarget] at this
  · rcases List.mem_cons.1 hlate with rfl | hlate
    · exact Nat.le_refl _
    · have := (List.pairwise_cons.1 (List.pairwise_append.1 hdescending).2.1).1 d hlate
      omega

/-- The object in the store is attested under its version. -/
theorem Consistent.attests (hs : s.Consistent) {object : StoredObject}
    (h : s.object? name = some object) : s.Attests name object.resourceVersion (some object) := by
  rw [hs.object?_eq] at h
  obtain ⟨c, hmem, hle, htarget, hleft, hversion, -⟩ := hs.objectAt_of_stamp h
  refine ⟨c.version, hle, hversion, ?_⟩
  rw [← htarget, hs.objectAt_of_mem hmem, hleft]

/-- A write is attested. -/
theorem Consistent.attests_of_mem (hs : s.Consistent) {c : Change} (hc : c ∈ s.history) :
    s.Attests c.target c.object.resourceVersion c.left? :=
  ⟨c.version, (hs.version_mem hc).2, hs.stamped c hc, hs.objectAt_of_mem hc⟩

theorem Wrote.attests {c : Change} (h : s.Wrote s' c) (hs : s.Consistent) :
    s'.Attests c.target c.object.resourceVersion c.left? :=
  (h.consistent hs).attests_of_mem (by rw [h.history]; exact List.mem_cons_self)

end MemoryStore

namespace Cache

variable {c : Cache} {s s' : MemoryStore} {name : ObjectName}

theorem newer?_ofNat (c : Cache) (version : ℕ) :
    c.newer? (Decimal.ofNat version) =
      if version < versionLimit ∧ c.resourceVersion < version then some (version : ℤ)
      else none := by
  rw [newer?, Decimal.int64?_ofNat]
  by_cases hlimit : version < 9223372036854775808
  · by_cases hnewer : c.resourceVersion < version
    · simp [versionLimit, hlimit, hnewer, Option.filter]
    · simp [versionLimit, hlimit, hnewer, Option.filter]
  · simp [versionLimit, hlimit, Option.filter]

theorem reflects_empty (hs : s.Consistent) : Cache.empty.Reflects s name := by
  refine ⟨0, Nat.zero_le _, rfl, ?_⟩
  rw [hs.objectAt_zero]
  rfl

namespace Reflects

theorem later (h : c.Reflects s name) (hleads : s.Leads s') : c.Reflects s' name := by
  obtain ⟨version, hle, hversion, hkeySets⟩ := h
  refine ⟨version, Nat.le_trans hle hleads.version_le, hversion, ?_⟩
  rw [hleads.objectAt hle, hkeySets]

theorem update (h : c.Reflects s name) {object : StoredObject}
    (hobject : s.Attests name object.resourceVersion (some object)) :
    (c.update object).1.Reflects s name := by
  obtain ⟨version, hle, htoken, hat⟩ := hobject
  rw [Cache.update, htoken, newer?_ofNat]
  split
  next newer hnewer =>
    split at hnewer
    next =>
      refine ⟨version, hle, (Option.some.inj hnewer).symm, ?_⟩
      rw [hat]
      rfl
    next => cases hnewer
  next => exact h

theorem delete (h : c.Reflects s name) {token : String} (htoken : s.Attests name token none) :
    (c.delete token).1.Reflects s name := by
  obtain ⟨version, hle, rfl, hat⟩ := htoken
  rw [Cache.delete, newer?_ofNat]
  split
  next newer hnewer =>
    split at hnewer
    next =>
      refine ⟨version, hle, (Option.some.inj hnewer).symm, ?_⟩
      rw [hat]
      rfl
    next => cases hnewer
  next => exact h

end Reflects

/-- After an update the cache is not older than the object. -/
theorem le_resourceVersion_update (c : Cache) {object : StoredObject} {version : ℕ}
    (htoken : object.resourceVersion = Decimal.ofNat version) (hlimit : version < versionLimit) :
    (version : ℤ) ≤ (c.update object).1.resourceVersion := by
  rw [Cache.update, htoken, newer?_ofNat]
  by_cases hnewer : c.resourceVersion < version
  · simp [hlimit, hnewer]
  · rw [if_neg fun h => hnewer h.2]
    exact Int.not_lt.1 hnewer

/-- After a deletion the cache is not older than the deletion. -/
theorem le_resourceVersion_delete (c : Cache) {version : ℕ} (hlimit : version < versionLimit) :
    (version : ℤ) ≤ (c.delete (Decimal.ofNat version)).1.resourceVersion := by
  rw [Cache.delete, newer?_ofNat]
  by_cases hnewer : c.resourceVersion < version
  · simp [hlimit, hnewer]
  · rw [if_neg fun h => hnewer h.2]
    exact Int.not_lt.1 hnewer

end Cache

/-! ## Calls -/

/-- The objects that a write holds are the ones it was asked to write. -/
def WritePhase.About (target : ObjectName) : WritePhase → Prop
  | .generating fetched _ => fetched.objectName = target
  | .storing object _ => object.objectName = target
  | _ => True

/-- A write to one object. -/
structure KeySetWrite.Sound (w : KeySetWrite) (target : ObjectName) : Prop where
  request : w.request.target = target
  phase : w.phase.About target

/-- An answer that tells of a state of the object. -/
def StoreAnswer.Sound (s : MemoryStore) (target : ObjectName) : StoreAnswer → Prop
  | .found (.ok (some object)) | .written (.ok object) =>
    s.Attests target object.resourceVersion (some object)
  | _ => True

/-- A call that knows only true things of the object. -/
structure Call.Sound (c : Call) (s : MemoryStore) (target : ObjectName) : Prop where
  write : ∀ w, c.write = some w → w.Sound target
  answer : ∀ answer, c.answer = some answer → answer.Sound s target

namespace KeySetWrite.Sound

variable {w : KeySetWrite} {target : ObjectName}

theorem fail (h : w.Sound target) (failure : KeyError) : (w.fail failure).Sound target := by
  refine ⟨(congrArg WriteRequest.target (request_fail w failure)).trans h.request, ?_⟩
  unfold KeySetWrite.fail
  split
  · trivial
  · trivial

theorem prepare (h : w.Sound target) {fetched : StoredObject}
    (hfetched : fetched.objectName = target) (pending : PendingVersion) (material : KeyRecord) :
    (w.prepare fetched pending material).Sound target := by
  unfold KeySetWrite.prepare
  split
  next failure _ => exact h.fail failure
  next bytes _ => exact ⟨h.request, hfetched⟩

theorem generated (h : w.Sound target) {fetched : StoredObject}
    (hfetched : fetched.objectName = target) (pending : PendingVersion)
    (material : Except KeyError KeyRecord) :
    (w.generated fetched pending material).Sound target := by
  unfold KeySetWrite.generated
  split
  next failure => exact h.fail failure
  next material =>
    have hmade : ({ w with material := some material } : KeySetWrite).Sound target :=
      ⟨h.request, h.phase⟩
    exact hmade.prepare hfetched pending material

end KeySetWrite.Sound

namespace Call

variable {s s' : MemoryStore} {target : ObjectName}

theorem Sound.later {c : Call} (h : c.Sound s target) (hleads : s.Leads s') :
    c.Sound s' target := by
  refine ⟨h.write, ?_⟩
  intro answer hanswer
  have hsound := h.answer answer hanswer
  match answer, hsound with
  | .found (.ok (some object)), hsound => exact MemoryStore.Attests.later hsound hleads
  | .written (.ok object), hsound => exact MemoryStore.Attests.later hsound hleads
  | .found (.ok none), _ => trivial
  | .found (.error _), _ => trivial
  | .written (.error _), _ => trivial

theorem sound_start (s : MemoryStore) (owner : ℕ) (member : Member) (cache : Cache)
    (errand : Errand) (name : String) (keyType : KeyType) :
    (start owner member cache errand name keyType).Sound s member.target := by
  unfold start
  split
  next failure =>
    constructor
    · intro w hw
      cases hw
    · intro answer hanswer
      cases hanswer
  next valid =>
    split
    next =>
      constructor
      · intro w hw
        cases hw
      · intro answer hanswer
        cases hanswer
    next =>
      refine ⟨?_, by simp⟩
      intro w hw
      rw [← Option.some.inj hw]
      exact ⟨rfl, trivial⟩

theorem owner_start (owner : ℕ) (member : Member) (cache : Cache) (errand : Errand)
    (name : String) (keyType : KeyType) :
    (start owner member cache errand name keyType).owner = owner := by
  unfold start
  split
  · rfl
  · split <;> rfl

/-- What the store answers is true. -/
theorem ask?_spec {w : KeySetWrite} {store : MemoryStore} (hs : store.Consistent)
    (hw : w.Sound target) {store' : MemoryStore} {answer : StoreAnswer}
    (h : ask? w store = some (store', answer)) :
    store.Evolves store' none ∧ answer.Sound store' target := by
  unfold ask? at h
  split at h
  next =>
    obtain ⟨rfl, rfl⟩ := Prod.mk.inj (Option.some.inj h)
    refine ⟨.get hs _, ?_⟩
    obtain ⟨⟨hquiet, -, -⟩, hresult | ⟨failure, hresult⟩⟩ := store.get_spec w.request.target
    · rw [hresult, hw.request]
      cases hobject : store.object? target with
      | none => trivial
      | some object => exact (hs.attests hobject).later (hw.request ▸ hquiet.leads)
    · rw [hresult]
      trivial
  next object id hphase =>
    have hname : object.objectName = target := by
      have := hw.phase
      rwa [hphase] at this
    by_cases hcreation : KeySetWrite.isCreation object = true
    · rw [if_pos hcreation] at h
      obtain ⟨rfl, rfl⟩ := Prod.mk.inj (Option.some.inj h)
      refine ⟨.create hs object, ?_⟩
      rcases store.create_cases object with ⟨current, -, hfailed⟩ | ⟨-, hwrote, hresult⟩
      · rw [hfailed]
        trivial
      · rw [hresult]
        exact hname ▸ hwrote.attests hs
    · rw [if_neg hcreation] at h
      obtain ⟨rfl, rfl⟩ := Prod.mk.inj (Option.some.inj h)
      refine ⟨.update hs object, ?_⟩
      rcases store.update_cases object with ⟨failure, hfailed⟩ | ⟨current, -, -, hwrote, hresult⟩
      · rw [hfailed]
        trivial
      · rw [hresult]
        exact hname ▸ hwrote.attests hs
  next => cases h

/-- A write stays with its object as long as it is shown no other. -/
theorem look?_sound {w w' : KeySetWrite} {cache cache' : Cache} (hw : w.Sound target)
    {answer : StoreAnswer} (hanswer : ∀ object, answer = .found (.ok (some object)) →
      object.objectName = target) (h : look? w cache answer = some (w', cache')) :
    w'.Sound target := by
  rcases look?_cases h with ⟨failure, rfl, -⟩ |
    ⟨found, object, plan, rfl, rfl, -, ⟨id, -, rfl, -⟩ | ⟨pending, -, -, hnext⟩⟩ |
    ⟨object, id, written, -, -, rfl, -⟩
  · exact hw.fail failure
  · exact ⟨hw.request, trivial⟩
  · have hname : (found.getD (.fresh w.request.target)).objectName = target := by
      cases found with
      | none => exact hw.request
      | some object => exact hanswer object rfl
    rcases hnext with ⟨material, -, rfl⟩ | rfl
    · exact hw.prepare hname pending material
    · exact ⟨hw.request, hname⟩
  · exact ⟨hw.request, trivial⟩

/-- A write hands on only what it was told. -/
theorem look?_spec {w w' : KeySetWrite} {cache cache' : Cache} (hw : w.Sound target)
    (hcache : cache.Reflects s target) {answer : StoreAnswer} (hanswer : answer.Sound s target)
    (h : look? w cache answer = some (w', cache')) :
    w'.Sound target ∧ cache'.Reflects s target ∧
      cache.resourceVersion ≤ cache'.resourceVersion := by
  refine ⟨look?_sound hw ?_ h, ?_⟩
  · rintro object rfl
    exact MemoryStore.Attests.objectName hanswer
  · rcases look?_cases h with ⟨failure, -, rfl⟩ |
      ⟨found, object, plan, rfl, rfl, -, ⟨id, -, -, rfl⟩ | ⟨pending, -, rfl, -⟩⟩ |
      ⟨object, id, written, -, rfl, -, rfl⟩
    · exact ⟨hcache, Int.le_refl _⟩
    · refine ⟨?_, cache.resourceVersion_le_update _⟩
      cases found with
      | none => exact hcache
      | some object => exact hcache.update hanswer
    · exact ⟨hcache, Int.le_refl _⟩
    · exact ⟨hcache.update hanswer, cache.resourceVersion_le_update _⟩

theorem generate?_spec {w w' : KeySetWrite} (hw : w.Sound target) {rsaBits : ℕ} {now : Timestamp}
    {pool : Entropy} (h : generate? w rsaBits now pool = some w') : w'.Sound target := by
  unfold generate? at h
  split at h
  next fetched pending hphase =>
    have hname : fetched.objectName = target := by
      have := hw.phase
      rwa [hphase] at this
    rw [← Option.some.inj h]
    exact hw.generated hname pending _
  next => cases h

theorem wake?_spec {w w' : KeySetWrite} (hw : w.Sound target) (h : wake? w = some w') :
    w'.Sound target := by
  unfold wake? at h
  split at h
  next =>
    rw [← Option.some.inj h]
    exact ⟨hw.request, trivial⟩
  next => cases h

/-- A step of a call keeps what it and its cache know true. -/
theorem step?_spec {c c' : Call} {rsaBits : ℕ} {store store' : MemoryStore} {cache cache' : Cache}
    {step : CallStep} (hs : store.Consistent) (hcache : cache.Reflects store target)
    (hc : c.Sound store target)
    (h : c.step? rsaBits store cache step = some (store', cache', c')) :
    store.Evolves store' none ∧ cache'.Reflects store' target ∧
      cache.resourceVersion ≤ cache'.resourceVersion ∧ c'.Sound store' target ∧
      c'.owner = c.owner := by
  rcases step?_cases h with ⟨w, answer, -, hw, -, hask, rfl, rfl⟩ |
    ⟨w, answer, next, -, hw, hanswer, hlook, rfl, rfl⟩ | ⟨w, next, hstep, hw, rfl, rfl, rfl⟩ |
    ⟨w, result, -, -, -, rfl, rfl, rfl⟩
  · obtain ⟨hevolves, hanswer⟩ := ask?_spec hs (hc.write w hw) hask
    refine ⟨hevolves, hcache.later hevolves.leads, Int.le_refl _, ⟨hc.write, ?_⟩, rfl⟩
    intro told htold
    exact Option.some.inj htold ▸ hanswer
  · obtain ⟨hnext, hreflects, hle⟩ :=
      look?_spec (hc.write w hw) hcache (hc.answer answer hanswer) hlook
    refine ⟨.refl hs, hreflects, hle, ⟨?_, by simp⟩, rfl⟩
    intro told htold
    exact Option.some.inj htold ▸ hnext
  · have hnext : next.Sound target := by
      rcases hstep with ⟨now, pool, -, hgenerate⟩ | ⟨-, hwake⟩
      · exact generate?_spec (hc.write w hw) hgenerate
      · exact wake?_spec (hc.write w hw) hwake
    refine ⟨.refl hs, hcache, Int.le_refl _, ⟨?_, hc.answer⟩, rfl⟩
    intro told htold
    exact Option.some.inj htold ▸ hnext
  · exact ⟨.refl hs, hcache, Int.le_refl _, ⟨hc.write, hc.answer⟩, rfl⟩

end Call
end Keyring
