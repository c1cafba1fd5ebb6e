import Keyring.Proofs.Fleet.Newcomers

/-!
# Calls that create a key set

A call that asks for a set to be there and finds at most one version of it keeps that version, or
gives its own the number 1, on whatever way it comes to its end.
-/
namespace Keyring

variable {target : ObjectName} {w w' : KeySetWrite} {cache cache' : Cache} {text : String}

/-- Without a rotation, a plan on a ledger keeps its last version, or asks for version 1. -/
theorem LedgerAt.make_ok_cases {fields : SortedMap String Bytes} {name : KeySetName}
    {records : List KeyRecord} (h : LedgerAt fields name records) {keyType : KeyType}
    {plan : KeySetPlan}
    (hplan : KeySetPlan.make name (fields.get? name.field) keyType false = .ok plan) :
    (∃ id, plan = .unchanged id ∧ id.val = records.length ∧ records ≠ []) ∨
      ∃ pending, plan = .needsVersion pending ∧ pending.id.val = 1 := by
  obtain ⟨data, hstored, hledger, -⟩ := h
  obtain ⟨data', hstored', hcases⟩ := KeySetPlan.make_ok_cases hplan
  obtain rfl := Option.some.inj (hstored.symm.trans hstored')
  rcases hcases with ⟨-, hactive, rfl⟩ | ⟨id, hid, hnone | ⟨hrotate, -⟩, rfl⟩
  · refine Or.inl ⟨data.activeId, rfl, hledger.active, ?_⟩
    rintro rfl
    rw [KeySetPlan.activeType?, hledger.stored] at hactive
    cases hactive
  · refine Or.inr ⟨⟨data, id, keyType⟩, rfl, ?_⟩
    have hempty : records = [] := by
      induction records using List.reverseRecOn with
      | nil => rfl
      | append_singleton rest record _ =>
        rw [hledger.activeType?_append] at hnone
        cases hnone
    rw [hid, hledger.maxId_eq, hempty]
    rfl
  · cases hrotate

/-! ## Calls that create -/

/-- The number that a write is about to give to a version, or has given. -/
def WritePhase.id? : WritePhase → Option KeyId
  | .generating _ pending => some pending.id
  | .storing _ id => some id
  | .finished (.ok id) => some id
  | _ => none

namespace KeySetWrite

@[simp] theorem id?_fail (w : KeySetWrite) (failure : KeyError) :
    (w.fail failure).phase.id? = none := by
  unfold fail
  split <;> rfl

theorem id?_prepare {fetched : StoredObject} {pending : PendingVersion} {material : KeyRecord}
    {id : KeyId} (h : (w.prepare fetched pending material).phase.id? = some id) :
    pending.id = id := by
  unfold prepare at h
  split at h
  next failure _ =>
    rw [id?_fail] at h
    cases h
  next => exact Option.some.inj h

end KeySetWrite

namespace Call

theorem request_look? {answer : StoreAnswer} (h : look? w cache answer = some (w', cache')) :
    w'.request = w.request := by
  rcases look?_cases h with ⟨failure, rfl, -⟩ |
    ⟨found, object, plan, -, -, -, ⟨id, -, rfl, -⟩ | ⟨pending, -, -, ⟨material, -, rfl⟩ | rfl⟩⟩ |
    ⟨object, id, written, -, -, rfl, -⟩
  · exact w.request_fail failure
  · rfl
  · exact w.request_prepare object pending material
  · rfl
  · rfl

/-- A write that goes on by itself keeps its number. -/
theorem alone_id? {rsaBits : ℕ} {step : CallStep}
    (h : (∃ now pool, step = .generate now pool ∧ generate? w rsaBits now pool = some w') ∨
      (step = .wake ∧ wake? w = some w')) {id : KeyId} (hid : w'.phase.id? = some id) :
    w.phase.id? = some id := by
  rcases h with ⟨now, pool, -, hgenerate⟩ | ⟨-, hwake⟩
  · unfold generate? at hgenerate
    split at hgenerate
    next fetched pending hphase =>
      rw [← Option.some.inj hgenerate] at hid
      rw [hphase]
      unfold KeySetWrite.generated at hid
      split at hid
      next failure _ =>
        rw [KeySetWrite.id?_fail] at hid
        cases hid
      next => exact congrArg some (KeySetWrite.id?_prepare hid)
    next => cases hgenerate
  · unfold wake? at hwake
    split at hwake
    next =>
      rw [← Option.some.inj hwake] at hid
      cases hid
    next => cases hwake

theorem ask?_found {s s' : MemoryStore} {object : StoredObject}
    (h : ask? w s = some (s', .found (.ok (some object)))) :
    s.object? w.request.target = some object := by
  unfold ask? at h
  split at h
  next =>
    obtain ⟨-, hfound⟩ := Prod.mk.inj (Option.some.inj h)
    obtain ⟨-, hresult | ⟨failure, hresult⟩⟩ := s.get_spec w.request.target
    · rw [hresult] at hfound
      exact Except.ok.inj (StoreAnswer.found.inj hfound)
    · rw [hresult] at hfound
      cases hfound
  next =>
    obtain ⟨-, hwritten⟩ := Prod.mk.inj (Option.some.inj h)
    cases hwritten
  next => cases h

theorem name_start (owner : ℕ) (member : Member) (cache : Cache) (errand : Errand) (name : String)
    (keyType : KeyType) : (start owner member cache errand name keyType).name = name := by
  unfold start
  split
  next => rfl
  next => split <;> rfl

theorem write_start {owner : ℕ} {member : Member} {errand : Errand} {name : String}
    {keyType : KeyType} (h : (start owner member cache errand name keyType).write = some w) :
    w.request.name.text = name ∧ w.request.rotate = decide (errand = .rotate) ∧
      w.phase = .fetching := by
  unfold start at h
  split at h
  next => cases h
  next valid hvalid =>
    have hname : valid.text = name := by
      unfold KeySetName.ofText at hvalid
      split at hvalid
      next found hfound => exact Except.ok.inj hvalid ▸ KeySetName.text_of_ofText? hfound
      next => cases hvalid
    dsimp only at h
    split at h
    next => cases h
    next =>
      rw [← Option.some.inj h]
      exact ⟨hname, rfl, rfl⟩

theorem result_start {owner : ℕ} {member : Member} {errand : Errand} {name : String}
    {keyType : KeyType} {id : KeyId}
    (h : (start owner member cache errand name keyType).result = some (.ok id)) :
    ∃ key, cache.activeKey name = .ok key ∧ key.id = id := by
  unfold start at h
  split at h
  next => cases h
  next =>
    dsimp only at h
    split at h
    next key hkey => exact ⟨key, hkey, Except.ok.inj (Option.some.inj h)⟩
    next => cases h

/-- A step of a call keeps what the call is about. -/
theorem step?_about {c c' : Call} {rsaBits : ℕ} {s s' : MemoryStore} {step : CallStep}
    (h : c.step? rsaBits s cache step = some (s', cache', c')) :
    c'.name = c.name ∧
      ∀ w', c'.write = some w' → ∃ w, c.write = some w ∧ w'.request = w.request := by
  rcases step?_cases h with ⟨w, answer, -, -, -, -, -, rfl⟩ |
    ⟨w, answer, next, -, hw, -, hlook, -, rfl⟩ | ⟨w, next, hkind, hw, -, -, rfl⟩ |
    ⟨w, result, -, -, -, -, -, rfl⟩
  · exact ⟨rfl, fun w' hw' => ⟨w', hw', rfl⟩⟩
  · refine ⟨rfl, fun w' hw' => ⟨w, hw, ?_⟩⟩
    rw [← Option.some.inj hw']
    exact request_look? hlook
  · refine ⟨rfl, fun w' hw' => ⟨w, hw, ?_⟩⟩
    rw [← Option.some.inj hw']
    exact (alone_phase hkind).1
  · exact ⟨rfl, fun w' hw' => ⟨w', hw', rfl⟩⟩

/-- A call that asks for a set to be there, and has found one version of it at most. -/
structure Creates (c : Call) : Prop where
  errand : c.errand ≠ .rotate
  request : ∀ w, c.write = some w → w.request.name.text = c.name ∧ w.request.rotate = false
  found : ∀ object, c.answer = some (.found (.ok (some object))) →
    ∀ name : KeySetName, name.text = c.name →
      ∃ records, LedgerAt object.data name records ∧ records.length ≤ 1
  given : ∀ w id, c.write = some w → w.phase.id? = some id → id.val = 1
  told : ∀ id, c.result = some (.ok id) → id.val = 1

theorem creates_start (owner : ℕ) (member : Member) {errand : Errand} (herrand : errand ≠ .rotate)
    (keyType : KeyType) (hactive : ∀ key, cache.activeKey text = .ok key → key.id.val = 1) :
    (start owner member cache errand text keyType).Creates := by
  refine ⟨?_, ?_, ?_, ?_, ?_⟩
  · rwa [errand_start]
  · intro w hw
    obtain ⟨hname, hrotate, -⟩ := write_start hw
    exact ⟨hname.trans (name_start owner member cache errand text keyType).symm,
      hrotate.trans (decide_eq_false herrand)⟩
  · intro object hanswer
    rw [answer_start] at hanswer
    cases hanswer
  · intro w id hw hid
    rw [(write_start hw).2.2] at hid
    cases hid
  · intro id hresult
    obtain ⟨key, hkey, rfl⟩ := result_start hresult
    exact hactive key hkey

/-- What a creating call looks at keeps version 1, or leads to it. -/
theorem Creates.look? {c : Call} (h : c.Creates) (hw : c.write = some w) {answer : StoreAnswer}
    (hanswer : c.answer = some answer) (hlook : look? w cache answer = some (w', cache'))
    {id : KeyId} (hid : w'.phase.id? = some id) : id.val = 1 := by
  obtain ⟨hname, hrotate⟩ := h.request w hw
  rcases look?_cases hlook with ⟨failure, rfl, -⟩ |
    ⟨found, object, plan, rfl, rfl, hplan, hnext⟩ | ⟨object, other, written, hphase, -, rfl, -⟩
  · rw [KeySetWrite.id?_fail] at hid
    cases hid
  · have hledger : ∃ records, LedgerAt (found.getD (.fresh w.request.target)).data w.request.name
        records ∧ records.length ≤ 1 := by
      cases found with
      | none => exact ⟨[], ⟨.empty, rfl, KeySetData.ledger_empty, fun _ => rfl⟩, Nat.zero_le 1⟩
      | some object => exact h.found object hanswer w.request.name hname
    obtain ⟨records, hledger, hlength⟩ := hledger
    rw [hrotate] at hplan
    rcases hledger.make_ok_cases hplan with ⟨kept, rfl, hkept, hne⟩ | ⟨pending, rfl, hpending⟩
    · rcases hnext with ⟨other, hsame, rfl, -⟩ | ⟨pending, hneeds, -⟩
      · obtain rfl := KeySetPlan.unchanged.inj hsame
        obtain rfl := Option.some.inj hid
        have := List.length_pos_of_ne_nil hne
        omega
      · cases hneeds
    · rcases hnext with ⟨other, hkeeps, -⟩ | ⟨other, hsame, -, ⟨material, -, rfl⟩ | rfl⟩
      · cases hkeeps
      · obtain rfl := KeySetPlan.needsVersion.inj hsame
        rw [← KeySetWrite.id?_prepare hid]
        exact hpending
      · obtain rfl := KeySetPlan.needsVersion.inj hsame
        rw [← Option.some.inj hid]
        exact hpending
  · rw [← Option.some.inj hid]
    exact h.given w other hw (by rw [hphase]; rfl)

/-- A step of a creating call, if the store holds one version at most and caches show no other. -/
theorem Creates.step? {c c' : Call} (h : c.Creates) {rsaBits : ℕ} {s s' : MemoryStore}
    {step : CallStep}
    (hstored : ∀ w object, c.write = some w → s.object? w.request.target = some object →
      ∀ name : KeySetName, name.text = c.name →
        ∃ records, LedgerAt object.data name records ∧ records.length ≤ 1)
    (hactive : ∀ key, cache.activeKey c.name = .ok key → key.id.val = 1)
    (hstep : c.step? rsaBits s cache step = some (s', cache', c')) : c'.Creates := by
  obtain ⟨hname, habout⟩ := step?_about hstep
  have hrequest : ∀ w', c'.write = some w' →
      w'.request.name.text = c'.name ∧ w'.request.rotate = false := by
    intro w' hw'
    obtain ⟨w, hw, hsame⟩ := habout w' hw'
    rw [hsame, hname]
    exact h.request w hw
  rcases step?_cases hstep with ⟨w, answer, -, hw, -, hask, -, rfl⟩ |
    ⟨w, answer, next, -, hw, hanswer, hlook, -, rfl⟩ | ⟨w, next, hkind, hw, -, -, rfl⟩ |
    ⟨w, result, -, hw, hresult, -, -, rfl⟩
  · refine ⟨h.errand, hrequest, ?_, h.given, h.told⟩
    intro object hfound
    obtain rfl := Option.some.inj hfound
    exact hstored w object hw (ask?_found hask)
  · refine ⟨h.errand, hrequest, ?_, ?_, h.told⟩
    · intro object hfound
      cases hfound
    · intro v id hv hid
      obtain rfl := Option.some.inj hv
      exact h.look? hw hanswer hlook hid
  · refine ⟨h.errand, hrequest, h.found, ?_, h.told⟩
    intro v id hv hid
    obtain rfl := Option.some.inj hv
    exact h.given w id hw (alone_id? hkind hid)
  · refine ⟨h.errand, hrequest, h.found, h.given, ?_⟩
    intro id hid
    have htold : c.outcome cache result = .ok id := Option.some.inj hid
    have hgiven : ∀ id, result = .ok id → id.val = 1 := by
      rintro id rfl
      exact h.given w id hw (by rw [KeySetWrite.phase_of_result? hresult]; rfl)
    unfold outcome at htold
    split at htold
    next =>
      split at htold
      next key hkey => exact Except.ok.inj htold ▸ hactive key hkey
      next => cases htold
      next => cases htold
    next => exact hgiven id htold

end Call
end Keyring
