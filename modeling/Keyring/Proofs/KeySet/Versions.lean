import Keyring.Proofs.KeySet.StoredForm

/-!
# Versions of stored records

The version with a number is the last stored record that loads under it. A record that is an object
carries the number of its key where planning looks for it; a record that is an array of its fields
loads as well, but planning finds no number in it and it stands behind all numbers.
-/
namespace Keyring

def Json.isArray : Json → Bool
  | .array _ => true
  | _ => false

namespace KeySet

/-- Whether a stored record loads as the version with a number. -/
def loadsAs (id : KeyId) (v : Json) : Bool := (loadRecord? v).any fun key => key.id = id

/-- The key of the last record that loads under a number. -/
def lastVersion? (id : KeyId) (records : List Json) : Option Key :=
  (records.filter (loadsAs id)).getLast?.bind loadRecord?

theorem loadsAs_iff {id : KeyId} {v : Json} :
    loadsAs id v = true ↔ ∃ key, loadRecord? v = some key ∧ key.id = id := by
  simp [loadsAs, Option.any_eq_true]

theorem compare_eq_iff {a b : KeyId} : compare a b = .eq ↔ a = b :=
  ⟨Std.LawfulEqCmp.eq_of_compare, fun h => h ▸ Std.ReflCmp.compare_self⟩

theorem version?_addRecord (s : KeySet) (v : Json) (id : KeyId) :
    (s.addRecord v).version? id = if loadsAs id v then loadRecord? v else s.version? id := by
  unfold addRecord
  cases hload : loadRecord? v with
  | none => simp [loadsAs, hload]
  | some key =>
    rw [version?_add]
    by_cases hid : key.id = id
    · rw [if_pos (compare_eq_iff.2 hid.symm), if_pos (loadsAs_iff.2 ⟨key, hload, hid⟩)]
    · have hnot : ¬ loadsAs id v = true := by
        simp [loadsAs, hload, hid]
      rw [if_neg hnot, if_neg]
      intro heq
      exact hid (compare_eq_iff.1 heq).symm

theorem lastVersion?_append (id : KeyId) (xs ys : List Json) :
    lastVersion? id (xs ++ ys) = (lastVersion? id ys).or (lastVersion? id xs) := by
  rw [lastVersion?, List.filter_append]
  cases hys : ys.filter (loadsAs id) with
  | nil => simp [lastVersion?, hys]
  | cons v rest =>
    obtain ⟨last, hlast⟩ := Option.isSome_iff_exists.1
      (show (v :: rest).getLast?.isSome = true by simp [List.getLast?_isSome])
    have hmem : last ∈ ys.filter (loadsAs id) := hys ▸ List.mem_of_getLast? hlast
    obtain ⟨key, hkey, -⟩ := loadsAs_iff.1 (List.mem_filter.1 hmem).2
    simp [lastVersion?, hys, List.getLast?_append, hlast, hkey]

theorem lastVersion?_singleton (id : KeyId) (v : Json) :
    lastVersion? id [v] = if loadsAs id v then loadRecord? v else none := by
  by_cases h : loadsAs id v = true
  · simp [lastVersion?, h]
  · simp [lastVersion?, h]

theorem version?_foldl_addRecord (records : List Json) (s : KeySet) (id : KeyId) :
    (records.foldl addRecord s).version? id =
      (lastVersion? id records).or (s.version? id) := by
  induction records generalizing s with
  | nil => rfl
  | cons v rest ih =>
    have hsplit := lastVersion?_append id [v] rest
    rw [List.singleton_append] at hsplit
    rw [List.foldl_cons, ih, version?_addRecord, hsplit, lastVersion?_singleton, Option.or_assoc]
    split
    next h =>
      obtain ⟨key, hkey, -⟩ := loadsAs_iff.1 h
      rw [hkey, Option.some_or]
    next => rw [Option.none_or]

/-- The version with a number is the last record that loads under it. -/
theorem version?_ofData (data : KeySetData) (id : KeyId) :
    (ofData data).version? id = lastVersion? id data.records := by
  rw [ofData, version?_foldl_addRecord]
  have hnone : (withoutVersions data.activeId).version? id = none := rfl
  rw [hnone, Option.or_none]

theorem activeId_ofData (data : KeySetData) : (ofData data).activeId = data.activeId := by
  have hfold : ∀ (records : List Json) (s : KeySet),
      (records.foldl addRecord s).activeId = s.activeId := by
    intro records
    induction records with
    | nil => exact fun _ => rfl
    | cons v rest ih => exact fun s => (ih _).trans (activeId_addRecord s v)
  exact hfold data.records _

theorem loadsAs_reread (id : KeyId) (v : Json) : loadsAs id v.reread = loadsAs id v := by
  rw [loadsAs, loadsAs, loadRecord?_reread]

theorem lastVersion?_reread (id : KeyId) (records : List Json) :
    lastVersion? id (records.map Json.reread) = lastVersion? id records := by
  have hfilter : (records.map Json.reread).filter (loadsAs id) =
      (records.filter (loadsAs id)).map Json.reread := by
    rw [List.filter_map]
    congr 2
    funext v
    exact loadsAs_reread id v
  rw [lastVersion?, hfilter, List.getLast?_map, lastVersion?]
  cases (records.filter (loadsAs id)).getLast? with
  | none => rfl
  | some v => exact loadRecord?_reread v

theorem lastVersion?_eq_none_iff {id : KeyId} {records : List Json} :
    lastVersion? id records = none ↔ ∀ v ∈ records, loadsAs id v = false := by
  constructor
  · intro h v hv
    by_contra hloads
    have hmem : v ∈ records.filter (loadsAs id) :=
      List.mem_filter.2 ⟨hv, Bool.not_eq_false _ ▸ hloads⟩
    obtain ⟨last, hlast⟩ := Option.isSome_iff_exists.1
      (List.getLast?_isSome.2 (List.ne_nil_of_mem hmem))
    obtain ⟨key, hkey, -⟩ := loadsAs_iff.1 (List.mem_filter.1 (List.mem_of_getLast? hlast)).2
    rw [lastVersion?, hlast, Option.bind_some, hkey] at h
    cases h
  · intro h
    have hnil : records.filter (loadsAs id) = [] := by
      rw [List.filter_eq_nil_iff]
      intro v hv
      rw [h v hv]
      exact Bool.false_ne_true
    rw [lastVersion?, hnil]
    rfl

end KeySet

/-! ## Where a record shows its number -/

theorem find?_knownMembers {names : List String} {key : String} (hkey : names.contains key = true)
    {members : List (String × Json)} {known : List (String × Json.Tree)}
    (h : Json.Tree.knownMembers? names (Json.toTreeMembers members) = some known) :
    known.find? (fun k => k.1 == key) =
      (members.find? fun m => m.1 == key).map fun m => (m.1, m.2.toTree) := by
  induction members generalizing known with
  | nil =>
    rw [Json.toTreeMembers, Json.Tree.knownMembers?, Option.some.injEq] at h
    subst h
    rfl
  | cons m rest ih =>
    obtain ⟨k, value⟩ := m
    rw [Json.toTreeMembers, Json.Tree.knownMembers?] at h
    split at h
    next => cases h
    next others hothers =>
      split at h
      next hunknown =>
        rw [Option.some.injEq] at h
        subst h
        have hne : (k == key) = false := by
          rw [beq_eq_false_iff_ne]
          rintro rfl
          rw [hkey] at hunknown
          cases hunknown
        rw [List.find?_cons, hne]
        exact ih hothers
      next =>
        split at h
        next => cases h
        next =>
          rw [Option.some.injEq] at h
          subst h
          rw [List.find?_cons, List.find?_cons]
          cases hk : k == key with
          | true => rfl
          | false => exact ih hothers

theorem int64?_of_bounded? {v : Json} {id : KeyId}
    (h : (v.toTree.bounded? : Option KeyId) = some id) : v.int64? = some id.val := by
  obtain ⟨z, hz, hid⟩ := Option.bind_eq_some_iff.1 h
  have hvalue := Bounded.ofInt?_eq_some_iff.1 hid
  have hlt := id.lt_upper
  cases v with
  | number n =>
    cases n with
    | int y =>
      have hy : y = z := Option.some.inj hz
      rw [Json.int64?, if_pos (by omega), hy, hvalue]
    | float f => cases hz
  | _ => cases hz

/-- A record that is an object shows the number of its key. -/
theorem KeySetPlan.recordId?_of_load {v : Json} {key : Key}
    (h : KeySet.loadRecord? v = some key) (harray : v.isArray = false) :
    recordId? v = some key.id := by
  obtain ⟨record, hrecord, hload⟩ := Option.bind_eq_some_iff.1 h
  have hkey : key.id = record.id := by
    cases hl : Key.load record with
    | error failure =>
      rw [hl] at hload
      cases hload
    | ok k =>
      rw [hl] at hload
      rw [← Option.some.inj hload, Key.id, Key.record_of_load hl]
  simp only [KeyRecord.ofJson?, KeyRecord.ofTree?, Option.bind_eq_bind,
    Option.bind_eq_some_iff] at hrecord
  obtain ⟨fields, hfields, id, hid, keyType, -, secret, -, createdAt, -, heq⟩ := hrecord
  have hrecordId : record.id = id := by
    rw [Option.pure_def, Option.some.injEq] at heq
    rw [← heq]
  cases v with
  | object members =>
    obtain ⟨known, hknown, rfl⟩ := Option.map_eq_some_iff.1 hfields
    rw [Json.Tree.Fields.required?, Json.Tree.Fields.get?, find?_knownMembers rfl hknown] at hid
    rw [recordId?, Json.member?]
    cases hm : members.find? fun m => m.1 == "id" with
    | none =>
      rw [hm] at hid
      cases hid
    | some m =>
      rw [hm] at hid
      rw [Option.map_some, Option.bind_some, int64?_of_bounded? hid, Option.bind_some,
        Bounded.ofInt?_val, hkey, hrecordId]
  | array items => cases harray
  | _ => cases hfields

theorem PendingVersion.position_of_recordId? {v : Json} {id : KeyId}
    (h : KeySetPlan.recordId? v = some id) : position v = id.val := by
  obtain ⟨z, hz, hid⟩ := Option.bind_eq_some_iff.1 h
  rw [position, hz, Option.getD_some, Bounded.ofInt?_eq_some_iff.1 hid]

theorem PendingVersion.position_array {v : Json} (h : v.isArray = true) :
    position v = 9223372036854775807 := by
  cases v with
  | array items => rfl
  | _ => cases h

end Keyring
