import Keyring.Proofs.Fleet.Creations

/-!
# Concurrent creation converges

Processes that only ask for a key set to be there write at most one version of it. Whoever stores
its key first wins: the others find the set when they try again, keep its version and let go of what
they have made. So all callers are told version 1, and all caches hold the same record.
-/
namespace Keyring.Fleet

variable {members : ℕ → Member} {target : ObjectName} {text : String}
  {first fleet next last : Fleet} {actions : List Action}

/-- A run in which no process of the object is asked to rotate the set. -/
def OnlyCreates (members : ℕ → Member) (target : ObjectName) (text : String)
    (actions : List Action) : Prop :=
  ∀ i owner keyType, .begin i owner .rotate text keyType ∈ actions →
    (members owner).target ≠ target

/-- A fleet with one version of the set at most, and callers who know of no other. -/
structure Settles (fleet : Fleet) (members : ℕ → Member) (target : ObjectName) (text : String) :
    Prop where
  stored : ∀ (name : KeySetName) (records : List KeyRecord), name.text = text →
    LedgerAt (fleet.store.fields target) name records → records.length ≤ 1
  calls : ∀ i c, fleet.call i = some c → (members c.owner).target = target → c.name = text →
    c.Creates
  held : ∀ i c id, fleet.call i = some c → (members c.owner).target = target → c.name = text →
    c.errand = .keySet → c.result = some (.ok id) →
    ∃ keySet, (fleet.cache c.owner).keySets.get? text = some keySet

/-- The writes of calls are about the sets that the calls were asked for. -/
theorem request_name {i : ℕ} {c : Call} {w : KeySetWrite}
    (h : start.run? members actions = some fleet) (hc : fleet.call i = some c)
    (hw : c.write = some w) : w.request.name.text = c.name := by
  refine runSteps?_induction (P := fun _ fleet => ∀ i c w, fleet.call i = some c → c.write = some w →
    w.request.name.text = c.name) ?_ ?_ h i c w hc hw
  · intro i c w hc
    cases hc
  · intro actions action before after _ ih hstep i c w hc hw
    rcases call_of_step? hstep hc with hold | ⟨owner, errand, name, keyType, -, -, rfl⟩ |
      ⟨step, d, cache, -, hd, hcall⟩
    · exact ih i c w hold hw
    · rw [Call.name_start]
      exact (Call.write_start hw).1
    · obtain ⟨hname, habout⟩ := Call.step?_about hcall
      obtain ⟨v, hv, hsame⟩ := habout w hw
      rw [hsame, hname]
      exact ih i d v hd hv

/-- A request that appends to a ledger of the object is one of a process of the object. -/
theorem Kept.target_of_appends (hkept : fleet.Kept members target) {i : ℕ} {c : Call}
    {w : KeySetWrite} (hc : fleet.call i = some c) (hw : c.write = some w)
    (hstep : fleet.step? members (.call i .ask) = some next) {name : KeySetName}
    {records : List KeyRecord} {record : KeyRecord}
    (happends : Appends (fleet.store.fields target) (next.store.fields target) name records
      record) : (members c.owner).target = target := by
  obtain ⟨d, hd, hmap⟩ := Option.bind_eq_some_iff.1 hstep
  obtain rfl := Option.some.inj (hc.symm.trans hd)
  obtain ⟨⟨store, cache, c'⟩, hcall, rfl⟩ := Option.map_eq_some_iff.1 hmap
  have hadded : Appends (fleet.store.fields target) (store.fields target) name records record :=
    happends
  have hchanged : store.object? target ≠ fleet.store.object? target := by
    intro hsame
    apply hadded.ne
    rw [MemoryStore.fields, MemoryStore.fields, hsame]
  obtain ⟨v, answer, hv, -, hask, -, -⟩ := Call.step?_ask hcall
  obtain rfl := Option.some.inj (hw.symm.trans hv)
  have hsound := (hkept.sound.calls i c hc).write w hw
  rw [← hsound.request]
  by_contra hother
  rcases Call.ask?_cases hkept.sound.store hsound (hkept.prepared i c hc w hw) hask with
    ⟨hsame, -⟩ | ⟨object, id, -, hsets⟩
  · exact hchanged (hsame target)
  · exact hchanged (hsets.others target (Ne.symm hother))

/-- Where one version is stored at most, caches show no other. -/
theorem Settles.activeKey (h : fleet.Settles members target text)
    (hkept : first.Kept members target) (hquiet : Quiet target actions)
    (hrun : first.run? members actions = some fleet) {i : ℕ} (hi : (members i).target = target)
    (hsince : (fleet.cache i).Since first.store.version) {key : Key}
    (hkey : (fleet.cache i).activeKey text = .ok key) : key.id.val = 1 := by
  obtain ⟨keySet, hset, hactive⟩ := Cache.activeKey_eq_ok_iff.1 hkey
  obtain ⟨name, data, records, more, hname, hne, hledger, rfl, hstored⟩ :=
    hkept.ledger_of_cached hquiet hrun hi hsince hset
  have hlength := h.stored name _ hname hstored
  have hpos := List.length_pos_of_ne_nil hne
  rw [List.length_append] at hlength
  rw [(hledger.active?_ofData hactive).2]
  omega

namespace Settles

/-- A version is added to the set only if there is none. -/
theorem stored_step? (h : fleet.Settles members target text) (hkept : fleet.Kept members target)
    (hnamed : ∀ i c w, fleet.call i = some c → c.write = some w → w.request.name.text = c.name)
    {action : Action} (hquiet : action.target? ≠ some target)
    (hstep : fleet.step? members action = some next) {name : KeySetName}
    {records : List KeyRecord} (hname : name.text = text)
    (hledger : LedgerAt (next.store.fields target) name records) : records.length ≤ 1 := by
  obtain ⟨old, hold⟩ := hkept.ledgers.ledger name
  have hlength := h.stored name old hname hold
  rcases hkept.step?_cases hquiet hstep with ⟨hsame, -⟩ |
    ⟨i, c, w, object, before, record, rfl, hc, hw, hphase, happends⟩
  · have hfields : next.store.fields target = fleet.store.fields target := by
      rw [MemoryStore.fields, hsame, MemoryStore.fields]
    rw [hfields] at hledger
    exact h.stored name records hname hledger
  · by_cases hother : name = w.request.name
    · have hcreates := h.calls i c hc (hkept.target_of_appends hc hw hstep happends)
        ((hnamed i c w hc hw).symm.trans (hother ▸ hname))
      have hid := hcreates.given w record.id hw (by rw [hphase]; rfl)
      have hnew := happends.new
      rw [← hother] at hnew
      rw [happends.id_eq] at hid
      rw [hledger.unique hnew, List.length_append, List.length_singleton]
      omega
    · rw [hledger.unique (happends.ledgerAt_of_ne hother hold)]
      exact hlength

/-- A call that has begun or has taken a step creates as before. -/
theorem calls_step? (h : fleet.Settles members target text) (hkept : fleet.Kept members target)
    (hactive : ∀ i key, (members i).target = target →
      (fleet.cache i).activeKey text = .ok key → key.id.val = 1)
    {action : Action} (honly : OnlyCreates members target text [action])
    (hstep : fleet.step? members action = some next) {i : ℕ} {c : Call}
    (hc : next.call i = some c) (htarget : (members c.owner).target = target)
    (hname : c.name = text) : c.Creates := by
  rcases call_of_step? hstep hc with hold | ⟨owner, errand, name, keyType, rfl, -, rfl⟩ |
    ⟨step, d, cache, -, hd, hcall⟩
  · exact h.calls i c hold htarget hname
  · rw [Call.name_start] at hname
    rw [Call.owner_start] at htarget
    subst hname
    apply Call.creates_start
    · rintro rfl
      exact honly i owner keyType List.mem_cons_self htarget
    · exact fun key hkey => hactive owner key htarget hkey
  · have howner := (Call.step?_same hcall).1
    obtain ⟨hsame, -⟩ := Call.step?_about hcall
    rw [howner] at htarget
    rw [hsame] at hname
    subst hname
    apply (h.calls i d hd htarget rfl).step? _ (hactive d.owner · htarget) hcall
    intro w object hw hobject name hname
    have hrequest := ((hkept.sound.calls i d hd).write w hw).request.trans htarget
    obtain ⟨records, hledger⟩ := hkept.ledgers.ledger name
    refine ⟨records, ?_, h.stored name records hname hledger⟩
    have hfields : fleet.store.fields target = object.data := by
      rw [MemoryStore.fields, ← hrequest, hobject]
      rfl
    rwa [hfields] at hledger

/-- A caller with a handle has the set in the cache. -/
theorem held_step? (h : fleet.Settles members target text) (hkept : first.Kept members target)
    (hquiet : Quiet target actions) (hrun : first.run? members actions = some fleet)
    (hsince : fleet.Since members target first.store.version) {action : Action}
    (hquietStep : action.target? ≠ some target) (hstep : fleet.step? members action = some next)
    {i : ℕ} {c : Call} {id : KeyId} (hc : next.call i = some c)
    (htarget : (members c.owner).target = target) (hname : c.name = text)
    (herrand : c.errand = .keySet) (hresult : c.result = some (.ok id)) :
    ∃ keySet, (next.cache c.owner).keySets.get? text = some keySet := by
  have hstays : (∃ keySet, (fleet.cache c.owner).keySets.get? text = some keySet) →
      ∃ keySet, (next.cache c.owner).keySets.get? text = some keySet := by
    rintro ⟨keySet, hset⟩
    have hle := (step?_spec (run?_spec hkept.sound hrun).1 hstep).2.cache_le c.owner
    have hone : fleet.run? members [action] = some next := by
      simp only [runSteps?_cons, hstep, Option.bind_some, runSteps?_nil]
    have hquiets : Quiet target (actions ++ [action]) := by
      intro a ha
      rcases List.mem_append.1 ha with hold | hnew
      · exact hquiet a hold
      · rwa [List.mem_singleton.1 hnew]
    obtain ⟨data, records, more, -, -, data', -, hset'⟩ := hkept.holds_later hquiets hrun hone
      htarget htarget (hsince.caches c.owner htarget) hle hset
    exact ⟨_, hset'⟩
  apply hstays
  rcases call_of_step? hstep hc with hold | ⟨owner, errand, name, keyType, rfl, -, rfl⟩ |
    ⟨step, d, cache, -, hd, hcall⟩
  · exact h.held i c id hold htarget hname herrand hresult
  · obtain ⟨key, hkey, -⟩ := Call.result_start hresult
    rw [Call.name_start] at hname
    rw [Call.owner_start, ← hname]
    obtain ⟨keySet, hset, -⟩ := Cache.activeKey_eq_ok_iff.1 hkey
    exact ⟨keySet, hset⟩
  · obtain ⟨howner, hsameErrand⟩ := Call.step?_same hcall
    obtain ⟨hsame, -⟩ := Call.step?_about hcall
    rw [howner] at htarget ⊢
    rw [hsameErrand] at herrand
    rw [hsame] at hname
    rcases Call.step?_cases hcall with ⟨w, answer, -, -, -, -, -, rfl⟩ |
      ⟨w, answer, v, -, -, -, -, -, rfl⟩ | ⟨w, v, -, -, -, -, rfl⟩ |
      ⟨w, result, -, -, -, -, -, rfl⟩
    · exact h.held i d id hd htarget hname herrand hresult
    · exact h.held i d id hd htarget hname herrand hresult
    · exact h.held i d id hd htarget hname herrand hresult
    · have htold : d.outcome (fleet.cache d.owner) result = .ok id := Option.some.inj hresult
      unfold Call.outcome at htold
      rw [herrand] at htold
      dsimp only at htold
      split at htold
      next key hkey =>
        rw [hname] at hkey
        obtain ⟨keySet, hset, -⟩ := Cache.activeKey_eq_ok_iff.1 hkey
        exact ⟨keySet, hset⟩
      next => cases htold
      next => cases htold

end Settles

/-- Processes that begin at a store without the object and rotate no set settle on one version. -/
theorem settles_run? {earlier : List StoreStep}
    (hearlier : start.run? members (earlier.map .store) = some first)
    (habsent : first.store.object? target = none) (hquiet : Quiet target actions)
    (honly : OnlyCreates members target text actions)
    (h : first.run? members actions = some last) : last.Settles members target text := by
  have hkept := kept_of_absent hearlier habsent
  have hsince := since_of_unused hearlier habsent
  revert hquiet honly
  refine runSteps?_induction (P := fun actions last => Quiet target actions →
    OnlyCreates members target text actions → last.Settles members target text) ?_ ?_ h
  · intro _ _
    have hcall := (unused_of_store hearlier).2.1
    refine ⟨?_, ?_, ?_⟩
    · intro name records _ hledger
      have hempty : first.store.fields target = .empty := by
        rw [MemoryStore.fields, habsent]
        rfl
      rw [hempty] at hledger
      have hnone : LedgerAt .empty name [] :=
        ⟨.empty, rfl, KeySetData.ledger_empty, fun _ => rfl⟩
      rw [hledger.unique hnone]
      exact Nat.zero_le 1
    · intro i c hc
      rw [hcall] at hc
      cases hc
    · intro i c id hc
      rw [hcall] at hc
      cases hc
  · intro actions action before after hrun ih hstep hquiet honly
    have hquietBefore : Quiet target actions := fun a ha => hquiet a (List.mem_append_left _ ha)
    have hquietStep : action.target? ≠ some target := hquiet action (by simp)
    have honlyStep : OnlyCreates members target text [action] := fun i owner keyType ha =>
      honly i owner keyType (List.mem_append_right _ ha)
    have hbefore := ih hquietBefore fun i owner keyType ha =>
      honly i owner keyType (List.mem_append_left _ ha)
    have hkeptBefore := (hkept.run? hquietBefore hrun).1
    have hsinceBefore := hsince.run? hkept.sound hrun
    have hactive : ∀ i key, (members i).target = target →
        (before.cache i).activeKey text = .ok key → key.id.val = 1 := fun i key hi hkey =>
      hbefore.activeKey hkept hquietBefore hrun hi (hsinceBefore.caches i hi) hkey
    have hwhole : start.run? members (earlier.map .store ++ actions) = some before :=
      (runSteps?_append_of_run hearlier actions).trans hrun
    have hnamed : ∀ i c w, before.call i = some c → c.write = some w →
        w.request.name.text = c.name := fun i c w hc hw => request_name hwhole hc hw
    refine ⟨?_, ?_, ?_⟩
    · intro name records hname hledger
      exact hbefore.stored_step? hkeptBefore hnamed hquietStep hstep hname hledger
    · intro i c hc htarget hname
      exact hbefore.calls_step? hkeptBefore hactive honlyStep hstep hc htarget hname
    · intro i c id hc htarget hname herrand hresult
      exact hbefore.held_step? hkept hquietBefore hrun hsinceBefore hquietStep hstep hc htarget
        hname herrand hresult

/-- A fleet in which the set has that record as its only version, or is not there yet: it is stored
so, all caches hold it so, and all callers were told so. -/
structure Converged (fleet : Fleet) (members : ℕ → Member) (target : ObjectName) (text : String)
    (record : KeyRecord) : Prop where
  stored : ∀ name : KeySetName, name.text = text →
    LedgerAt (fleet.store.fields target) name [] ∨
      LedgerAt (fleet.store.fields target) name [record]
  cached : ∀ i keySet, (members i).target = target →
    (fleet.cache i).keySets.get? text = some keySet →
    keySet.keys.map Key.record = [record] ∧ keySet.activeId = record.id
  told : ∀ i c id, fleet.call i = some c → (members c.owner).target = target → c.name = text →
    c.result = some (.ok id) → id = record.id ∧
      (c.errand = .keySet → (fleet.cache c.owner).activeId? text = some id)

theorem id_of_ledgerAt {fields : SortedMap String Bytes} {name : KeySetName} {record : KeyRecord}
    (h : LedgerAt fields name [record]) : record.id.val = 1 := by
  obtain ⟨data, -, hledger, -⟩ := h
  have hid := KeySetData.id_le_of_numbered hledger.numbered List.mem_cons_self
  rw [List.length_singleton] at hid
  omega

/-- One record is all that a set may have. -/
theorem Settles.exists_record (h : fleet.Settles members target text)
    (hkept : fleet.Kept members target) :
    ∃ record : KeyRecord, record.id.val = 1 ∧ ∀ name : KeySetName, name.text = text →
      LedgerAt (fleet.store.fields target) name [] ∨
        LedgerAt (fleet.store.fields target) name [record] := by
  have hshort : ∀ name : KeySetName, name.text = text →
      LedgerAt (fleet.store.fields target) name [] ∨
        ∃ record, LedgerAt (fleet.store.fields target) name [record] := by
    intro name hname
    obtain ⟨records, hledger⟩ := hkept.ledgers.ledger name
    rcases Nat.le_one_iff_eq_zero_or_eq_one.1 (h.stored name records hname hledger) with
      hnone | hone
    · exact Or.inl (List.length_eq_zero_iff.1 hnone ▸ hledger)
    · obtain ⟨record, rfl⟩ := List.length_eq_one_iff.1 hone
      exact Or.inr ⟨record, hledger⟩
  by_cases hwritten : ∃ name : KeySetName, name.text = text ∧
      ∃ record, LedgerAt (fleet.store.fields target) name [record]
  · obtain ⟨name, hname, record, hledger⟩ := hwritten
    refine ⟨record, id_of_ledgerAt hledger, ?_⟩
    intro other hother
    obtain rfl := KeySetName.ext_text (hother.trans hname.symm)
    exact Or.inr hledger
  · refine ⟨⟨⟨1, by decide, by decide⟩, .symmetricAead, [], ⟨0, by decide, by decide⟩⟩, rfl, ?_⟩
    intro name hname
    rcases hshort name hname with hnone | hsome
    · exact Or.inl hnone
    · exact absurd ⟨name, hname, hsome⟩ hwritten

/-- What is stored decides what caches hold and callers were told. -/
theorem Settles.converged (h : fleet.Settles members target text)
    (hkept : first.Kept members target) (hquiet : Quiet target actions)
    (hrun : first.run? members actions = some fleet)
    (hsince : fleet.Since members target first.store.version) {record : KeyRecord}
    (hid : record.id.val = 1)
    (hstored : ∀ name : KeySetName, name.text = text →
      LedgerAt (fleet.store.fields target) name [] ∨
        LedgerAt (fleet.store.fields target) name [record]) :
    fleet.Converged members target text record := by
  have hcached : ∀ i keySet, (members i).target = target →
      (fleet.cache i).keySets.get? text = some keySet →
      ∃ data : KeySetData, data.Ledger [record] ∧ keySet = KeySet.ofData data := by
    intro i keySet hi hset
    obtain ⟨name, data, records, more, hname, hne, hledger, rfl, hnow⟩ :=
      hkept.ledger_of_cached hquiet hrun hi (hsince.caches i hi) hset
    have hrecords : records = [record] := by
      rcases hstored name hname with hnone | hone
      · exact absurd (List.append_eq_nil_iff.1 (hnow.unique hnone)).1 hne
      · rcases List.append_eq_singleton_iff.1 (hnow.unique hone) with ⟨hnil, -⟩ | ⟨hall, -⟩
        · exact absurd hnil hne
        · exact hall
    exact ⟨data, hrecords ▸ hledger, rfl⟩
  have hactiveId : ∀ data : KeySetData, data.Ledger [record] → data.activeId = record.id := by
    intro data hledger
    apply Bounded.ext
    rw [hledger.active, hid]
    rfl
  refine ⟨hstored, ?_, ?_⟩
  · intro i keySet hi hset
    obtain ⟨data, hledger, rfl⟩ := hcached i keySet hi hset
    rw [KeySet.activeId_ofData]
    exact ⟨hledger.keys_ofData, hactiveId data hledger⟩
  · intro i c id hc htarget hname hresult
    have hsame : id = record.id := by
      apply Bounded.ext
      rw [hid]
      exact (h.calls i c hc htarget hname).told id hresult
    refine ⟨hsame, ?_⟩
    intro herrand
    obtain ⟨keySet, hset⟩ := h.held i c id hc htarget hname herrand hresult
    obtain ⟨data, hledger, rfl⟩ := hcached c.owner keySet htarget hset
    obtain ⟨key, hactive, hkey⟩ := hledger.exists_active?_ofData (by simp)
    rw [Cache.activeId?, hset, Option.bind_some, hactive, Option.map_some, hkey,
      hactiveId data hledger, hsame]

/-- Processes begin at a store without their object, and no other program writes to it. They ask for
a key set in any order and of any kind, but do not rotate it. Then there is one record, of version
1, such that in every state that they reach the set is not stored or is stored with that record
alone, every cache with the set holds that record, and every call that ends well tells its number,
which a handle also shows. The record is written in one step at most. -/
theorem creation_converges {earlier : List StoreStep}
    (hearlier : start.run? members (earlier.map .store) = some first)
    (habsent : first.store.object? target = none) (hquiet : Quiet target actions)
    (honly : OnlyCreates members target text actions)
    (h : first.run? members actions = some last) :
    ∃ record : KeyRecord, record.id.val = 1 ∧
      (∀ before after fleet, actions = before ++ after → first.run? members before = some fleet →
        fleet.Converged members target text record) ∧
      ∀ before action after fleet next, actions = before ++ action :: after →
        first.run? members before = some fleet → fleet.step? members action = some next →
        ∀ name : KeySetName, name.text = text →
          (next.store.fields target).get? name.field =
              (fleet.store.fields target).get? name.field ∨
            LedgerAt (fleet.store.fields target) name [] ∧
              LedgerAt (next.store.fields target) name [record] := by
  have hkept := kept_of_absent hearlier habsent
  have hsince := since_of_unused hearlier habsent
  have hlast := settles_run? hearlier habsent hquiet honly h
  obtain ⟨record, hid, hstored⟩ := hlast.exists_record (hkept.run? hquiet h).1
  have hconverged : ∀ before after fleet, actions = before ++ after →
      first.run? members before = some fleet →
      fleet.Converged members target text record := by
    intro before after fleet hsplit hrun
    have hquietBefore : Quiet target before := fun a ha => hquiet a (by simp [hsplit, ha])
    have honlyBefore : OnlyCreates members target text before := fun i owner keyType ha =>
      honly i owner keyType (by simp [hsplit, ha])
    have hfleet := settles_run? hearlier habsent hquietBefore honlyBefore hrun
    have hkeptFleet := (hkept.run? hquietBefore hrun).1
    apply hfleet.converged hkept hquietBefore hrun (hsince.run? hkept.sound hrun) hid
    intro name hname
    -- what is stored now is the beginning of what is stored at last
    have hafter : fleet.run? members after = some last :=
      (runSteps?_append_of_run hrun after).symm.trans (hsplit ▸ h)
    obtain ⟨records, hrecords⟩ := hkeptFleet.ledgers.ledger name
    obtain ⟨more, hmore⟩ :=
      (hkeptFleet.run? (fun a ha => hquiet a (by simp [hsplit, ha])) hafter).2 name records hrecords
    rcases hstored name hname with hnone | hone
    · rw [(List.append_eq_nil_iff.1 (hmore.unique hnone)).1] at hrecords
      exact Or.inl hrecords
    · rcases List.append_eq_singleton_iff.1 (hmore.unique hone) with ⟨rfl, -⟩ | ⟨rfl, -⟩
      · exact Or.inl hrecords
      · exact Or.inr hrecords
  refine ⟨record, hid, hconverged, ?_⟩
  intro before action after fleet next hsplit hrun hstep name hname
  have hnextRun : first.run? members (before ++ [action]) = some next :=
    (runSteps?_concat_of_run hrun action).trans hstep
  have hnext := hconverged _ after next (by simp [hsplit]) hnextRun
  have hkeptFleet := (hkept.run? (fun a ha => hquiet a (by simp [hsplit, ha])) hrun).1
  rcases hkeptFleet.step?_cases (hquiet action (by simp [hsplit])) hstep with ⟨hsame, -⟩ |
    ⟨i, c, w, object, records, added, -, -, -, -, happends⟩
  · left
    rw [MemoryStore.fields, hsame, MemoryStore.fields]
  · by_cases hother : name = w.request.name
    · subst hother
      right
      rcases hnext.stored _ hname with hnone | hone
      · exact absurd (happends.new.unique hnone) (by simp)
      · rcases List.append_eq_singleton_iff.1 (happends.new.unique hone) with ⟨rfl, -⟩ | ⟨-, hnil⟩
        · exact ⟨happends.old, hone⟩
        · cases hnil
    · left
      obtain ⟨bytes, hafter⟩ := happends.others
      rw [hafter, SortedMap.get?_insert_of_ne]
      exact fun hfield => hother (KeySetName.field_injective hfield)

/-- An object is created and removed before the processes begin. -/
def earlierLife : List StoreStep :=
  [.create (.fresh ⟨"ns", "keys"⟩), .delete ⟨"ns", "keys"⟩]

/-- Two processes find no object and make a key each. One stores its key, the other tries again. -/
def racedCreation : List Action :=
  [.begin 0 0 .ensure "signing" .symmetricAead, .begin 1 1 .keySet "signing" .symmetricAead,
    .call 0 .ask, .call 1 .ask, .call 0 .look, .call 1 .look,
    .call 0 (.generate epoch (.ofSeed [])),
    .call 1 (.generate epoch (.ofSeed [1])),
    .call 0 .ask, .call 1 .ask, .call 0 .look, .call 1 .look, .call 0 .reply,
    .call 1 .wake, .call 1 .ask, .call 1 .look, .call 1 .reply]

/-- After the race both processes hold the record of the one that was faster. -/
theorem creation_converges_raced :
    ∃ first last record,
      start.run? (Member.sharing ⟨"ns", "keys"⟩) (earlierLife.map .store) = some first ∧
      first.run? (Member.sharing ⟨"ns", "keys"⟩) racedCreation = some last ∧
      (last.cache 0).keySets.contains "signing" = true ∧
      (last.cache 1).keySets.contains "signing" = true ∧
      last.Converged (Member.sharing ⟨"ns", "keys"⟩) ⟨"ns", "keys"⟩ "signing" record := by
  have hruns : ((start.run? (Member.sharing ⟨"ns", "keys"⟩) (earlierLife.map .store)).bind
      fun first => (first.run? (Member.sharing ⟨"ns", "keys"⟩) racedCreation).map fun last =>
        ((first.store.object? ⟨"ns", "keys"⟩).isNone,
          (last.cache 0).keySets.contains "signing",
          (last.cache 1).keySets.contains "signing")) = some (true, true, true) := by
    decide +kernel
  obtain ⟨first, hearlier, hrest⟩ := Option.bind_eq_some_iff.1 hruns
  obtain ⟨last, hrun, hfacts⟩ := Option.map_eq_some_iff.1 hrest
  obtain ⟨habsent, hheld⟩ := Prod.mk.inj hfacts
  obtain ⟨hzero, hone⟩ := Prod.mk.inj hheld
  have hquiet : Quiet ⟨"ns", "keys"⟩ racedCreation := by
    unfold Quiet
    decide
  have honly : OnlyCreates (Member.sharing ⟨"ns", "keys"⟩) ⟨"ns", "keys"⟩ "signing"
      racedCreation := by
    intro i owner keyType ha
    simp [racedCreation] at ha
  obtain ⟨record, -, hconverged, -⟩ :=
    creation_converges hearlier (Option.isNone_iff_eq_none.1 habsent) hquiet honly hrun
  exact ⟨first, last, record, hearlier, hrun, hzero, hone,
    hconverged _ [] last (List.append_nil _).symm hrun⟩

end Keyring.Fleet
