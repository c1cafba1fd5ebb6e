import Keyring.Proofs.Fleet.Snapshot
import Keyring.Proofs.KeySet.Ledger

/-!
# Writes to the shared object

A write plans on the object as it was at some time, and much may have happened since. What it stores
is what it has planned on with one field set, and the store takes it only if the object still is
what the write has planned on. So a write that succeeds has the effect of one step on the object of
now.
-/
namespace Keyring

/-- The fields of an object; none without the object. -/
def MemoryStore.fields (s : MemoryStore) (name : ObjectName) : SortedMap String Bytes :=
  (s.object? name).elim .empty StoredObject.data

/-- An object as it was at one time, or as a new one is. -/
def MemoryStore.Knew (s : MemoryStore) (name : ObjectName) (object : StoredObject) : Prop :=
  object = .fresh name ∨ s.Attests name object.resourceVersion (some object)

namespace MemoryStore

variable {s s' : MemoryStore} {name : ObjectName}

theorem Knew.later {object : StoredObject} (h : s.Knew name object) (hleads : s.Leads s') :
    s'.Knew name object := by
  rcases h with hfresh | hattests
  · exact Or.inl hfresh
  · exact Or.inr (hattests.later hleads)

/-- Under one version an object has one content. -/
theorem Attests.unique {token : String} {object object' : Option StoredObject}
    (h : s.Attests name token object) (h' : s.Attests name token object') : object = object' := by
  obtain ⟨version, -, htoken, hobject⟩ := h
  obtain ⟨version', -, htoken', hobject'⟩ := h'
  have hsame : version = version' := Decimal.ofNat_injective (htoken.symm.trans htoken')
  rw [← hobject, ← hobject', hsame]

/-- An object with a version is not a new one. -/
theorem Attests.token_ne_empty {token : String} {object : Option StoredObject}
    (h : s.Attests name token object) : token ≠ "" := by
  obtain ⟨version, -, rfl, -⟩ := h
  exact Decimal.ofNat_ne_empty version

end MemoryStore

namespace WriteRequest

/-- A plan for the request on an object asks for one more version. -/
structure Plans (r : WriteRequest) (s : MemoryStore) (fetched : StoredObject)
    (pending : PendingVersion) : Prop where
  known : s.Knew r.target fetched
  plan : KeySetPlan.make r.name (fetched.data.get? r.name.field) r.keyType r.rotate =
    .ok (.needsVersion pending)

/-- Key material that can be used for the request. -/
structure Fits (r : WriteRequest) (material : KeyRecord) : Prop where
  keyType : material.keyType = r.keyType
  loads : ∃ key, Key.load material = .ok key

/-- An object that is what was planned on, with the field of the set written anew. -/
structure Stores (r : WriteRequest) (s : MemoryStore) (object : StoredObject) (id : KeyId) :
    Prop where
  planned : ∃ fetched pending material bytes, r.Plans s fetched pending ∧ r.Fits material ∧
    pending.finish material = .ok bytes ∧ pending.id = id ∧
    object = { fetched with data := fetched.data.insert r.name.field bytes }

variable {r : WriteRequest} {s s' : MemoryStore}

theorem Plans.later {fetched : StoredObject} {pending : PendingVersion}
    (h : r.Plans s fetched pending) (hleads : s.Leads s') : r.Plans s' fetched pending :=
  ⟨h.known.later hleads, h.plan⟩

theorem Stores.later {object : StoredObject} {id : KeyId} (h : r.Stores s object id)
    (hleads : s.Leads s') : r.Stores s' object id := by
  obtain ⟨fetched, pending, material, bytes, hplans, hrest⟩ := h.planned
  exact ⟨fetched, pending, material, bytes, hplans.later hleads, hrest⟩

end WriteRequest

namespace KeySetWrite

/-- A write that holds only what it has planned and made. -/
structure Prepared (w : KeySetWrite) (s : MemoryStore) : Prop where
  material : ∀ material, w.material = some material → w.request.Fits material
  generating : ∀ fetched pending, w.phase = .generating fetched pending →
    w.request.Plans s fetched pending
  storing : ∀ object id, w.phase = .storing object id → w.request.Stores s object id

variable {w w' : KeySetWrite} {s s' : MemoryStore}

namespace Prepared

theorem later (h : w.Prepared s) (hleads : s.Leads s') : w.Prepared s' :=
  ⟨h.material, fun fetched pending hphase => (h.generating fetched pending hphase).later hleads,
    fun object id hphase => (h.storing object id hphase).later hleads⟩

/-- In other phases only the material counts. -/
theorem of_phase (h : ∀ material, w.material = some material → w.request.Fits material)
    (hgenerating : ∀ fetched pending, w.phase ≠ .generating fetched pending)
    (hstoring : ∀ object id, w.phase ≠ .storing object id) : w.Prepared s :=
  ⟨h, fun fetched pending hphase => absurd hphase (hgenerating fetched pending),
    fun object id hphase => absurd hphase (hstoring object id)⟩

theorem fail (h : ∀ material, w.material = some material → w.request.Fits material)
    (failure : KeyError) : (w.fail failure).Prepared s := by
  unfold KeySetWrite.fail
  split
  · exact of_phase h (by simp) (by simp)
  · exact of_phase h (by simp) (by simp)

theorem prepare (h : ∀ material, w.material = some material → w.request.Fits material)
    {fetched : StoredObject} {pending : PendingVersion}
    (hplans : w.request.Plans s fetched pending) {material : KeyRecord}
    (hfits : w.request.Fits material) : (w.prepare fetched pending material).Prepared s := by
  unfold KeySetWrite.prepare
  split
  next failure _ => exact fail h failure
  next bytes hfinish =>
    refine ⟨h, ?_, ?_⟩
    · intro fetched' pending' hphase
      cases hphase
    · intro object id hphase
      obtain ⟨rfl, rfl⟩ := WritePhase.storing.inj hphase
      exact ⟨fetched, pending, material, bytes, hplans, hfits, hfinish, rfl, rfl⟩

end Prepared

/-- A new key is of the kind that was asked for. -/
theorem keyType_of_generate {keyType : KeyType} {id : KeyId} {rsaBits : ℕ} {now : Timestamp}
    {pool : Entropy} {key : Key} (h : (Key.generate keyType id rsaBits now pool).1 = .ok key) :
    key.keyType = keyType := by
  cases keyType with
  | symmetricAead =>
    obtain rfl := Except.ok.inj h
    rfl
  | asymmetricSigning =>
    simp only [Key.generate] at h
    cases hkey : (SigningKey.generate id rsaBits now pool).1 with
    | error failure =>
      rw [hkey] at h
      cases h
    | ok signing =>
      rw [hkey] at h
      obtain rfl := Except.ok.inj h
      rfl

end KeySetWrite

/-- A new key of the kind that a request asks for can be used for it. -/
theorem WriteRequest.fits_of_generate {r : WriteRequest} {id : KeyId} {rsaBits : ℕ}
    {now : Timestamp} {pool : Entropy} {key : Key}
    (h : (Key.generate r.keyType id rsaBits now pool).1 = .ok key) : r.Fits key.record := by
  refine ⟨?_, key, Key.load_record key⟩
  rw [Key.record_keyType]
  exact KeySetWrite.keyType_of_generate h

namespace Call

variable {s s' : MemoryStore} {target : ObjectName} {w w' : KeySetWrite} {cache cache' : Cache}

/-- A write goes on with a plan on what it was told. -/
theorem look?_prepared (hw : w.Sound target) (hprepared : w.Prepared s) {answer : StoreAnswer}
    (hanswer : answer.Sound s target) (h : look? w cache answer = some (w', cache')) :
    w'.Prepared s := by
  rcases look?_cases h with ⟨failure, rfl, -⟩ |
    ⟨found, object, plan, rfl, rfl, hplan, ⟨id, -, rfl, -⟩ | ⟨pending, rfl, -, hnext⟩⟩ |
    ⟨object, id, written, -, -, rfl, -⟩
  · exact .fail hprepared.material failure
  · exact .of_phase hprepared.material (by simp) (by simp)
  · have hknown : s.Knew w.request.target (found.getD (.fresh w.request.target)) := by
      cases found with
      | none => exact Or.inl rfl
      | some object =>
        right
        rw [hw.request]
        exact hanswer
    rcases hnext with ⟨material, hmaterial, rfl⟩ | rfl
    · exact .prepare hprepared.material ⟨hknown, hplan⟩ (hprepared.material material hmaterial)
    · refine ⟨hprepared.material, ?_, by simp⟩
      intro fetched pending' hphase
      obtain ⟨rfl, rfl⟩ := WritePhase.generating.inj hphase
      exact ⟨hknown, hplan⟩
  · exact .of_phase hprepared.material (by simp) (by simp)

/-- New key material is of the kind asked for and loads. -/
theorem generate?_prepared (hprepared : w.Prepared s) {rsaBits : ℕ} {now : Timestamp}
    {pool : Entropy} (h : generate? w rsaBits now pool = some w') : w'.Prepared s := by
  unfold generate? at h
  split at h
  next fetched pending hphase =>
    rw [← Option.some.inj h]
    have hplans := hprepared.generating fetched pending hphase
    cases hkey : (Key.generate w.request.keyType .none rsaBits now pool).1 with
    | error failure => exact .fail hprepared.material failure
    | ok key =>
      have hfits := WriteRequest.fits_of_generate hkey
      have hmade : ∀ m, some key.record = some m → w.request.Fits m := by
        intro m hm
        rw [← Option.some.inj hm]
        exact hfits
      exact KeySetWrite.Prepared.prepare (w := { w with material := some key.record }) hmade hplans
        hfits
  next => cases h

theorem wake?_prepared (hprepared : w.Prepared s) (h : wake? w = some w') : w'.Prepared s := by
  unfold wake? at h
  split at h
  next =>
    rw [← Option.some.inj h]
    exact .of_phase hprepared.material (by simp [KeySetWrite.resume]) (by simp [KeySetWrite.resume])
  next => cases h

/-- A call whose write holds only what it has planned and made. -/
def Prepared (c : Call) (s : MemoryStore) : Prop := ∀ w, c.write = some w → w.Prepared s

theorem prepared_start (s : MemoryStore) (owner : ℕ) (member : Member) (cache : Cache)
    (errand : Errand) (name : String) (keyType : KeyType) :
    (start owner member cache errand name keyType).Prepared s := by
  intro w hw
  unfold start at hw
  split at hw
  next => cases hw
  next =>
    split at hw
    next => cases hw
    next =>
      rw [← Option.some.inj hw]
      exact .of_phase (by simp [KeySetWrite.start]) (by simp [KeySetWrite.start])
        (by simp [KeySetWrite.start])

theorem step?_prepared {c c' : Call} {rsaBits : ℕ} {step : CallStep} (hs : s.Consistent)
    (hc : c.Sound s target) (hprepared : c.Prepared s)
    (h : c.step? rsaBits s cache step = some (s', cache', c')) : c'.Prepared s' := by
  rcases step?_cases h with ⟨w, answer, -, hw, -, hask, rfl, rfl⟩ |
    ⟨w, answer, next, -, hw, hanswer, hlook, rfl, rfl⟩ | ⟨w, next, hstep, hw, rfl, rfl, rfl⟩ |
    ⟨w, result, -, -, -, rfl, rfl, rfl⟩
  · obtain ⟨hevolves, -⟩ := ask?_spec hs (hc.write w hw) hask
    exact fun w hw => (hprepared w hw).later hevolves.leads
  · intro w' hw'
    rw [← Option.some.inj hw']
    exact look?_prepared (hc.write w hw) (hprepared w hw) (hc.answer answer hanswer) hlook
  · intro w' hw'
    rw [← Option.some.inj hw']
    rcases hstep with ⟨now, pool, -, hgenerate⟩ | ⟨-, hwake⟩
    · exact generate?_prepared (hprepared w hw) hgenerate
    · exact wake?_prepared (hprepared w hw) hwake
  · exact hprepared

end Call

/-! ## What a request does to the object -/

/-- The request has set the field of its set as it was planned, on the object of now. -/
structure WriteRequest.Sets (r : WriteRequest) (s s' : MemoryStore) (id : KeyId) : Prop where
  planned : ∃ pending material bytes,
    KeySetPlan.make r.name ((s.fields r.target).get? r.name.field) r.keyType r.rotate =
        .ok (.needsVersion pending) ∧
      r.Fits material ∧ pending.finish material = .ok bytes ∧ pending.id = id ∧
      s'.fields r.target = (s.fields r.target).insert r.name.field bytes
  others : ∀ name ≠ r.target, s'.object? name = s.object? name

theorem MemoryStore.Wrote.fields {s s' : MemoryStore} {kind : ChangeKind} {object : StoredObject}
    {version : ℕ} (hkind : kind ≠ .deleted) (h : s.Wrote s' ⟨kind, s.stamp object, version⟩) :
    s'.fields object.objectName = object.data ∧
      ∀ name ≠ object.objectName, s'.object? name = s.object? name := by
  have htarget : (⟨kind, s.stamp object, version⟩ : Change).target = object.objectName := rfl
  have hleft : (⟨kind, s.stamp object, version⟩ : Change).left? = some (s.stamp object) := by
    cases kind with
    | added => rfl
    | modified => rfl
    | deleted => exact absurd rfl hkind
  constructor
  · rw [MemoryStore.fields, h.object?, if_pos htarget, hleft]
    rfl
  · intro name hne
    rw [h.object?, htarget, if_neg (Ne.symm hne)]

namespace WriteRequest

variable {r : WriteRequest} {s s' : MemoryStore}

/-- A plan on a new object holds while the object does not exist. -/
theorem Plans.fields_of_absent {fetched : StoredObject} {pending : PendingVersion}
    (h : r.Plans s fetched pending) (hnew : fetched.resourceVersion = "")
    (habsent : s.object? r.target = none) : s.fields r.target = fetched.data := by
  have hfresh : fetched = .fresh r.target := by
    rcases h.known with hfresh | hattests
    · exact hfresh
    · exact absurd hnew hattests.token_ne_empty
  rw [MemoryStore.fields, habsent, hfresh]
  rfl

/-- A plan on an object holds while the object has the same version. -/
theorem Plans.fields_of_current {fetched current : StoredObject} {pending : PendingVersion}
    (h : r.Plans s fetched pending) (hs : s.Consistent) (hold : fetched.resourceVersion ≠ "")
    (hcurrent : s.object? r.target = some current)
    (hsame : current.resourceVersion = fetched.resourceVersion) :
    s.fields r.target = fetched.data := by
  have hattests : s.Attests r.target fetched.resourceVersion (some fetched) := by
    rcases h.known with hfresh | hattests
    · rw [hfresh] at hold
      exact absurd rfl hold
    · exact hattests
  have hattested := hs.attests hcurrent
  rw [hsame] at hattested
  rw [MemoryStore.fields, hcurrent, Option.some.inj (hattested.unique hattests)]
  rfl

/-- A prepared object that gets stored sets the field of the set. -/
theorem Stores.sets {object : StoredObject} {id : KeyId} (h : r.Stores s object id)
    (hs : s.Consistent) (hname : object.objectName = r.target)
    (hstored : (object.resourceVersion = "" ∧ s.object? object.objectName = none) ∨
      (object.resourceVersion ≠ "" ∧ ∃ current, s.object? object.objectName = some current ∧
        current.resourceVersion = object.resourceVersion))
    {kind : ChangeKind} {version : ℕ} (hkind : kind ≠ .deleted)
    (hwrote : s.Wrote s' ⟨kind, s.stamp object, version⟩) : r.Sets s s' id := by
  obtain ⟨fetched, pending, material, bytes, hplans, hfits, hfinish, hid, rfl⟩ := h.planned
  obtain ⟨hafter, hothers⟩ := hwrote.fields hkind
  rw [hname] at hstored hafter hothers
  have hfields : s.fields r.target = fetched.data := by
    rcases hstored with ⟨hnew, habsent⟩ | ⟨hold, current, hcurrent, hsame⟩
    · exact hplans.fields_of_absent hnew habsent
    · exact hplans.fields_of_current hs hold hcurrent hsame
  refine ⟨⟨pending, material, bytes, ?_, hfits, hfinish, hid, ?_⟩, hothers⟩
  · rw [hfields]
    exact hplans.plan
  · rw [hfields]
    exact hafter

end WriteRequest

/-- A request of a write fails or only reads, or the object is still the one that the write has
planned on, and gets the planned field. -/
theorem Call.ask?_cases {s s' : MemoryStore} {target : ObjectName} {w : KeySetWrite}
    (hs : s.Consistent) (hw : w.Sound target) (hprepared : w.Prepared s)
    {answer : StoreAnswer} (h : ask? w s = some (s', answer)) :
    ((∀ name, s'.object? name = s.object? name) ∧ ∀ object, answer ≠ .written (.ok object)) ∨
      ∃ object id, w.phase = .storing object id ∧ w.request.Sets s s' id := by
  unfold ask? at h
  split at h
  next =>
    obtain ⟨rfl, rfl⟩ := Prod.mk.inj (Option.some.inj h)
    left
    obtain ⟨⟨hquiet, -, -⟩, -⟩ := s.get_spec w.request.target
    exact ⟨hquiet.object?, by simp⟩
  next object id hphase =>
    have hstores := hprepared.storing object id hphase
    have hname : object.objectName = w.request.target := by
      have habout := hw.phase
      rw [hphase] at habout
      exact habout.trans hw.request.symm
    by_cases hcreation : KeySetWrite.isCreation object = true
    · have hnew : object.resourceVersion = "" := by
        simpa [KeySetWrite.isCreation] using hcreation
      rw [if_pos hcreation] at h
      obtain ⟨rfl, rfl⟩ := Prod.mk.inj (Option.some.inj h)
      rcases s.create_cases object with ⟨current, -, hfailed⟩ | ⟨habsent, hwrote, -⟩
      · left
        rw [hfailed]
        exact ⟨fun _ => rfl, by simp⟩
      · exact Or.inr ⟨object, id, hphase,
          hstores.sets hs hname (Or.inl ⟨hnew, habsent⟩) (by decide) hwrote⟩
    · have hold : object.resourceVersion ≠ "" := by
        simpa [KeySetWrite.isCreation] using hcreation
      rw [if_neg hcreation] at h
      obtain ⟨rfl, rfl⟩ := Prod.mk.inj (Option.some.inj h)
      rcases s.update_cases object with ⟨failure, hfailed⟩ | ⟨current, hcurrent, hsame, hwrote, -⟩
      · left
        rw [hfailed]
        exact ⟨fun _ => rfl, by simp⟩
      · have hagrees : current.resourceVersion = object.resourceVersion := by
          rcases hsame with hempty | hsame
          · exact absurd hempty hold
          · exact hsame.symm
        exact Or.inr ⟨object, id, hphase,
          hstores.sets hs hname (Or.inr ⟨hold, current, hcurrent, hagrees⟩) (by decide) hwrote⟩
  next => cases h

end Keyring
