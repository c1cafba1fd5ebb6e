import Keyring.Proofs.Fleet.Creations

/-!
# How writes end

A write ends well with a look at an object: at the one that was found, in which a version of the set
is kept, or at the one that the store has written. The object has the version that the write tells.
-/
namespace Keyring

variable {s s' : MemoryStore} {target : ObjectName} {text : String} {version : ℕ} {id : KeyId}

/-- The object that an answer of the store shows. -/
def StoreAnswer.object? : StoreAnswer → Option StoredObject
  | .found (.ok object) => object
  | .written (.ok object) => some object
  | _ => none

theorem StoreAnswer.Sound.attests {answer : StoreAnswer} (h : answer.Sound s target)
    {object : StoredObject} (hobject : answer.object? = some object) :
    s.Attests target object.resourceVersion (some object) := by
  match answer, hobject with
  | .found (.ok (some other)), hobject => exact Option.some.inj hobject ▸ h
  | .written (.ok other), hobject => exact Option.some.inj hobject ▸ h

/-- An object whose set had records up to that number right after the write of that version. -/
structure MemoryStore.Shows (s : MemoryStore) (target : ObjectName) (text : String) (version : ℕ)
    (id : KeyId) : Prop where
  written : version ≤ s.version
  positive : 0 < id.val
  ledger : ∃ (name : KeySetName) (records : List KeyRecord), name.text = text ∧
    LedgerAt (s.fieldsAt version target) name records ∧ id.val ≤ records.length

theorem MemoryStore.Shows.later (h : s.Shows target text version id) (hleads : s.Leads s') :
    s'.Shows target text version id := by
  refine ⟨Nat.le_trans h.written hleads.version_le, h.positive, ?_⟩
  rw [hleads.fieldsAt h.written]
  exact h.ledger

/-- Nothing stored has no active version that could be kept. -/
theorem KeySetPlan.make_none_ne (name : KeySetName) (keyType : KeyType) (rotate : Bool) :
    make name none keyType rotate ≠ .ok (.unchanged id) := by
  intro hplan
  obtain ⟨data, hstored, ⟨-, hactive, -⟩ | ⟨next, -, -, hneeds⟩⟩ := make_ok_cases hplan
  · rw [← Option.some.inj hstored] at hactive
    cases hactive
  · cases hneeds

/-! ## Calls -/

namespace Call

variable {w w' : KeySetWrite} {cache cache' : Cache}

/-- A look that ends a write well hands an object to the cache: the one that was found with an
active version, or the one that was stored. -/
theorem look?_ended {answer : StoreAnswer} (h : look? w cache answer = some (w', cache'))
    (hid : w'.phase = .finished (.ok id)) :
    ∃ object, answer.object? = some object ∧ cache' = (cache.update object).1 ∧
      (KeySetPlan.make w.request.name (object.data.get? w.request.name.field) w.request.keyType
          w.request.rotate = .ok (.unchanged id) ∨
        ∃ prepared, w.phase = .storing prepared id ∧ answer = .written (.ok object)) := by
  rcases look?_cases h with ⟨failure, rfl, -⟩ |
    ⟨found, looked, plan, rfl, rfl, hplan, ⟨kept, rfl, rfl, rfl⟩ | ⟨pending, -, -, hnext⟩⟩ |
    ⟨prepared, stored, written, hphase, rfl, rfl, rfl⟩
  · exact absurd hid (w.phase_fail_ne failure)
  · obtain rfl := Except.ok.inj (WritePhase.finished.inj hid)
    cases found with
    | none => exact absurd hplan (KeySetPlan.make_none_ne _ _ _)
    | some object => exact ⟨object, rfl, rfl, Or.inl hplan⟩
  · rcases hnext with ⟨material, -, rfl⟩ | rfl
    · exact absurd hid (w.phase_prepare_ne _ pending material)
    · cases hid
  · obtain rfl := Except.ok.inj (WritePhase.finished.inj hid)
    exact ⟨written, rfl, rfl, Or.inr ⟨prepared, hphase, rfl⟩⟩

/-- After a write that succeeds the object is the one that the store answers with. -/
theorem fields_of_written (hw : w.Sound target) {written : StoredObject}
    (h : ask? w s = some (s', .written (.ok written))) : s'.fields target = written.data := by
  unfold ask? at h
  split at h
  next =>
    obtain ⟨-, hfound⟩ := Prod.mk.inj (Option.some.inj h)
    cases hfound
  next object id hphase =>
    have hname : object.objectName = target := by
      have habout := hw.phase
      rwa [hphase] at habout
    obtain ⟨rfl, hanswer⟩ := Prod.mk.inj (Option.some.inj h)
    have hwritten := StoreAnswer.written.inj hanswer
    by_cases hcreation : KeySetWrite.isCreation object = true
    · rw [if_pos hcreation] at hwritten ⊢
      rcases s.create_cases object with ⟨current, -, hfailed⟩ | ⟨-, hwrote, hresult⟩
      · rw [hfailed] at hwritten
        cases hwritten
      · rw [hresult] at hwritten
        rw [← hname, (hwrote.fields (by decide)).1, ← Except.ok.inj hwritten]
        rfl
    · rw [if_neg hcreation] at hwritten ⊢
      rcases s.update_cases object with ⟨failure, hfailed⟩ | ⟨current, -, -, hwrote, hresult⟩
      · rw [hfailed] at hwritten
        cases hwritten
      · rw [hresult] at hwritten
        rw [← hname, (hwrote.fields (by decide)).1, ← Except.ok.inj hwritten]
        rfl
  next => cases h

/-- A call that is told of a write only while it waits for it, and only if the object has the
version that was to be written. -/
structure Vouched (c : Call) (s : MemoryStore) (target : ObjectName) : Prop where
  waiting : ∀ w answer, c.write = some w → c.answer = some answer →
    w.phase = .fetching ∨ ∃ object id, w.phase = .storing object id
  written : ∀ w object id written, c.write = some w → w.phase = .storing object id →
    c.answer = some (.written (.ok written)) →
    ∃ version, written.resourceVersion = Decimal.ofNat version ∧
      s.Shows target c.name version id

theorem Vouched.later {c : Call} (h : c.Vouched s target) (hleads : s.Leads s') :
    c.Vouched s' target := by
  refine ⟨h.waiting, ?_⟩
  intro w object id written hw hphase hanswer
  obtain ⟨version, htoken, hshows⟩ := h.written w object id written hw hphase hanswer
  exact ⟨version, htoken, hshows.later hleads⟩

/-- A call without an answer vouches for nothing. -/
theorem Vouched.of_unanswered {c : Call} (h : c.answer = none) : c.Vouched s target := by
  constructor
  · intro w answer _ hanswer
    rw [h] at hanswer
    cases hanswer
  · intro w object id written _ _ hanswer
    rw [h] at hanswer
    cases hanswer

/-- A step of a call, if the object has what a request was told to have written. -/
theorem Vouched.step? {c c' : Call} (h : c.Vouched s target) (hleads : s.Leads s') {rsaBits : ℕ}
    {step : CallStep}
    (hask : ∀ w object id written, step = .ask → c.write = some w → w.phase = .storing object id →
      c'.answer = some (.written (.ok written)) →
      ∃ version, written.resourceVersion = Decimal.ofNat version ∧
        s'.Shows target c.name version id)
    (hstep : c.step? rsaBits s cache step = some (s', cache', c')) : c'.Vouched s' target := by
  rcases step?_cases hstep with ⟨w, answer, rfl, hw, -, hasked, -, rfl⟩ |
    ⟨w, answer, next, -, -, -, -, -, rfl⟩ | ⟨w, next, hkind, hw, -, -, rfl⟩ |
    ⟨w, result, -, -, -, -, -, rfl⟩
  · constructor
    · intro v told hv _
      obtain rfl := Option.some.inj (hw.symm.trans hv)
      exact ask?_phase hasked
    · intro v object id written hv hphase hanswer
      exact hask v object id written rfl hv hphase hanswer
  · exact .of_unanswered rfl
  · apply Vouched.of_unanswered
    by_contra hsome
    obtain ⟨answer, hanswer⟩ := Option.ne_none_iff_exists'.1 hsome
    exact (alone_phase hkind).2.1 (h.waiting w answer hw hanswer)
  · exact ⟨h.waiting, (h.later hleads).written⟩

/-- A call that tells the end of its write, unless it is one for a handle. -/
structure Traced (c : Call) (ended : KeyId → Prop) : Prop where
  finished : ∀ w id, c.write = some w → w.phase = .finished (.ok id) → ended id
  told : c.errand ≠ .keySet → ∀ id, c.result = some (.ok id) → ended id

theorem traced_start (owner : ℕ) (member : Member) (cache : Cache) (errand : Errand)
    (name : String) (keyType : KeyType) (ended : KeyId → Prop) :
    (start owner member cache errand name keyType).Traced ended := by
  constructor
  · intro w id hw hphase
    rw [(write_start hw).2.2] at hphase
    cases hphase
  · intro herrand id hresult
    rw [errand_start] at herrand
    unfold start at hresult
    split at hresult
    next => cases hresult
    next =>
      dsimp only at hresult
      split at hresult
      next => exact absurd rfl herrand
      next => cases hresult

theorem Traced.mono {c : Call} {ended ended' : KeyId → Prop} (h : c.Traced ended)
    (hended : ∀ id, ended id → ended' id) : c.Traced ended' :=
  ⟨fun w id hw hphase => hended id (h.finished w id hw hphase),
    fun herrand id hresult => hended id (h.told herrand id hresult)⟩

/-- A step of a call, if it is known which looks end a write well. -/
theorem Traced.step? {c c' : Call} {ended ended' : KeyId → Prop} (h : c.Traced ended)
    (hended : ∀ id, ended id → ended' id) {rsaBits : ℕ} {step : CallStep}
    (hlook : ∀ w id, step = .look → c'.write = some w → w.phase = .finished (.ok id) → ended' id)
    (hstep : c.step? rsaBits s cache step = some (s', cache', c')) : c'.Traced ended' := by
  have hold := h.mono hended
  rcases step?_cases hstep with ⟨w, answer, -, -, -, -, -, rfl⟩ |
    ⟨w, answer, next, rfl, -, -, -, -, rfl⟩ | ⟨w, next, hkind, -, -, -, rfl⟩ |
    ⟨w, result, -, hw, hresult, -, -, rfl⟩
  · exact ⟨hold.finished, hold.told⟩
  · exact ⟨fun v id hv hphase => hlook v id rfl hv hphase, hold.told⟩
  · refine ⟨?_, hold.told⟩
    intro v id hv hphase
    rw [← Option.some.inj hv] at hphase
    exact absurd hphase ((alone_phase hkind).2.2 id)
  · refine ⟨hold.finished, ?_⟩
    intro herrand id hid
    have houtcome : c.outcome cache result = result := by
      unfold outcome
      split
      next hkeySet => exact absurd hkeySet herrand
      next => rfl
    rw [houtcome, Option.some.injEq] at hid
    exact hold.finished w id hw (hid ▸ KeySetWrite.phase_of_result? hresult)

end Call
end Keyring
