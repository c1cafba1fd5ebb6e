import Keyring.Proofs.KeySet.Versions

/-!
# Plans

What a plan says about the stored set that it was made for: the active version is kept, or the set
gets the number after the greatest one that a record shows.
-/
namespace Keyring

/-- The stored set that is planned on; nothing stored is an empty set. -/
def KeySetData.ofStored? (stored : Option Bytes) : Option KeySetData :=
  stored.elim (some empty) ofBytes?

theorem KeySetData.stored_ofStored? {stored : Option Bytes} {data : KeySetData}
    (h : ofStored? stored = some data) : data.Stored := by
  cases stored with
  | none => exact Option.some.inj h ▸ stored_empty
  | some bytes => exact stored_ofBytes? h

namespace KeySetPlan

/-! ## Numbers -/

theorem foldl_max_recordId (records : List Json) (n : ℤ) :
    n ≤ records.foldl (fun n value => max n ((recordId? value).elim 0 (·.val))) n ∧
      ∀ v ∈ records, (recordId? v).elim 0 (·.val) ≤
        records.foldl (fun n value => max n ((recordId? value).elim 0 (·.val))) n := by
  induction records generalizing n with
  | nil => simp
  | cons v rest ih =>
    obtain ⟨hn, hall⟩ := ih (max n ((recordId? v).elim 0 (·.val)))
    rw [List.foldl_cons]
    refine ⟨by omega, List.forall_mem_cons.2 ⟨by omega, hall⟩⟩

theorem maxId_nonneg (records : List Json) : 0 ≤ maxId records :=
  (foldl_max_recordId records 0).1

/-- No record shows a greater number. -/
theorem recordId?_le_maxId {records : List Json} {v : Json} (hv : v ∈ records) {id : KeyId}
    (h : recordId? v = some id) : id.val ≤ maxId records := by
  have := (foldl_max_recordId records 0).2 v hv
  rw [h] at this
  exact this

theorem maxId_append (records : List Json) (v : Json) :
    maxId (records ++ [v]) = max (maxId records) ((recordId? v).elim 0 (·.val)) := by
  rw [maxId, List.foldl_append]
  rfl

/-! ## Outcomes -/

/-- What a plan says, and of which stored set. -/
theorem make_ok_cases {name : KeySetName} {stored : Option Bytes} {keyType : KeyType}
    {rotate : Bool} {plan : KeySetPlan} (h : make name stored keyType rotate = .ok plan) :
    ∃ data, KeySetData.ofStored? stored = some data ∧
      ((rotate = false ∧ (activeType? data).isSome = true ∧ plan = .unchanged data.activeId) ∨
        ∃ id : KeyId, id.val = maxId data.records + 1 ∧
          (activeType? data = none ∨ rotate = true ∧ activeType? data = some keyType) ∧
          plan = .needsVersion ⟨data, id, keyType⟩) := by
  unfold make at h
  split at h
  next => cases h
  next data hdata =>
    have hstored : KeySetData.ofStored? stored = some data := by
      cases stored with
      | none => exact congrArg some (Except.ok.inj hdata)
      | some bytes =>
        simp only [Option.elim_some, KeySetData.ofBytes] at hdata
        split at hdata
        next d hd => exact Except.ok.inj hdata ▸ hd
        next => cases hdata
    refine ⟨data, hstored, ?_⟩
    dsimp only at h
    split at h
    next hactive =>
      split at h
      next id hid =>
        exact Or.inr ⟨id, (Bounded.ofInt?_eq_some_iff.1 hid).symm, Or.inl hactive,
          (Except.ok.inj h).symm⟩
      next => cases h
    next current hactive =>
      split at h
      next hrotate =>
        left
        refine ⟨by simpa using hrotate, by rw [hactive]; rfl, (Except.ok.inj h).symm⟩
      next hrotate =>
        split at h
        next => cases h
        next hsame =>
          rw [not_not] at hsame
          split at h
          next id hid =>
            exact Or.inr ⟨id, (Bounded.ofInt?_eq_some_iff.1 hid).symm,
              Or.inr ⟨by simpa using hrotate, hsame ▸ hactive⟩, (Except.ok.inj h).symm⟩
          next => cases h

/-- A stored set with an active version keeps it if no new one is asked for. -/
theorem make_of_active {name : KeySetName} {bytes : Bytes} {data : KeySetData}
    (hdata : KeySetData.ofBytes? bytes = some data) (hactive : (activeType? data).isSome = true)
    (keyType : KeyType) :
    make name (some bytes) keyType false = .ok (.unchanged data.activeId) := by
  obtain ⟨current, hcurrent⟩ := Option.isSome_iff_exists.1 hactive
  simp [make, KeySetData.ofBytes, hdata, hcurrent]

/-- A record with the number of the active version makes it active. -/
theorem isSome_activeType? {data : KeySetData} {v : Json} (hv : v ∈ data.records) {key : Key}
    (hload : KeySet.loadRecord? v = some key) (hid : key.id = data.activeId)
    (hpos : 0 < key.id.val) : (activeType? data).isSome = true := by
  have hkey : activeKey? data.activeId v = some key := by
    rw [activeKey?, hload]
    simp [Option.filter, hid ▸ hpos, hid]
  have hmem : key ∈ data.records.filterMap (activeKey? data.activeId) :=
    List.mem_filterMap.2 ⟨v, hv, hkey⟩
  rw [activeType?, Option.isSome_map, List.getLast?_isSome]
  exact List.ne_nil_of_mem hmem

end KeySetPlan
end Keyring
