import Keyring.KeySet.Plan
import Keyring.Proofs.Base64
import Keyring.Proofs.Json.Canonical
import Keyring.Proofs.Json.Rereading

/-!
# Stored forms of records and key sets

A record is read from its stored form. The stored bytes of a key set are read as the set that was
written, with each record written and read again; what a record says about a version stays.
-/
namespace Keyring

namespace KeyRecord

theorem sortMembers_record (id keyType secret createdAt : Json) :
    Json.sortMembers
        [("id", id), ("type", keyType), ("secret", secret), ("created_at", createdAt)] =
      [("created_at", createdAt), ("id", id), ("secret", secret), ("type", keyType)] := by
  have hid : compare "type" "id" = .gt := by decide
  have hsecret : compare "secret" "id" = .gt := by decide
  have hsecret' : compare "secret" "type" = .lt := by decide
  have hcreated : compare "created_at" "id" = .lt := by decide
  simp [Json.sortMembers, SortedMap.ofList, SortedMap.insert, SortedMap.insertEntry,
    SortedMap.empty, hid, hsecret, hsecret', hcreated]

/-- The stored form with sorted members. -/
theorem sorted_toJson (r : KeyRecord) :
    r.toJson.sorted =
      .object [("created_at", .int r.createdAt.val), ("id", .int r.id.val),
        ("secret", Json.base64 r.secret), ("type", r.keyType.toJson)] := by
  rw [toJson, Json.sorted]
  simp only [Json.sortedMembers, Json.int, Json.sorted, Json.base64, KeyType.toJson]
  rw [sortMembers_record]

theorem keyType_ofTree? (t : KeyType) : KeyType.ofTree? t.toJson.toTree = some t := by
  cases t <;> rfl

/-- A record is read from its stored form. -/
theorem ofJson?_toJson (r : KeyRecord) : ofJson? r.toJson.sorted = some r := by
  obtain ⟨fields, hfields⟩ : ∃ fields : Json.Tree.Fields, fields =
      ⟨true, [("created_at", (Json.int r.createdAt.val).toTree), ("id", (Json.int r.id.val).toTree),
        ("secret", (Json.base64 r.secret).toTree), ("type", r.keyType.toJson.toTree)]⟩ := ⟨_, rfl⟩
  have hread : r.toJson.sorted.toTree.fields? ["id", "type", "secret", "created_at"] =
      some fields := by
    rw [sorted_toJson, hfields]
    rfl
  have hid : fields.required? "id" Json.Tree.bounded? = some r.id := by
    rw [hfields]
    exact Bounded.ofInt?_val r.id
  have htype : fields.required? "type" KeyType.ofTree? = some r.keyType := by
    rw [hfields]
    exact keyType_ofTree? r.keyType
  have hsecret : fields.required? "secret" Json.Tree.base64? = some r.secret := by
    rw [hfields]
    exact Base64.decode?_encode r.secret
  have hcreated : fields.required? "created_at" Json.Tree.bounded? = some r.createdAt := by
    rw [hfields]
    exact Bounded.ofInt?_val r.createdAt
  simp [ofJson?, ofTree?, hread, hid, htype, hsecret, hcreated]

theorem member?_id_toJson (r : KeyRecord) :
    r.toJson.sorted.member? "id" = some (.int r.id.val) := by
  rw [sorted_toJson]
  rfl

theorem int64?_id (id : KeyId) : (Json.int id.val).int64? = some id.val := by
  have := id.lt_upper
  rw [Json.int, Json.int64?, if_pos (by omega)]

theorem isWord_bounded {lower upper : ℤ} (hlower : -9223372036854775808 ≤ lower)
    (hupper : upper ≤ 18446744073709551616) (a : Bounded lower upper) :
    Json.Number.IsWord a.val := by
  have := a.lower_le
  have := a.lt_upper
  rw [Json.Number.IsWord]
  omega

theorem storable_toJson (r : KeyRecord) : r.toJson.sorted.Storable := by
  have hcreated := isWord_bounded (by decide) (by decide) r.createdAt
  have hid := isWord_bounded (by decide) (by decide) r.id
  rw [sorted_toJson]
  exact ⟨hcreated, hid, trivial, trivial, trivial⟩

theorem canonical_toJson (r : KeyRecord) : r.toJson.sorted.Canonical KeySetData.recordDepth := by
  rw [sorted_toJson, Json.Canonical]
  refine ⟨by decide, ?_, ?_⟩
  · rw [← sortMembers_record]
    exact Json.ascending_sortMembers _
  · simp [Json.CanonicalMembers, Json.Canonical, Json.int, Json.base64, KeyType.toJson]

/-- Writing and reading changes nothing in the stored form of a record. -/
@[simp] theorem reread_toJson (r : KeyRecord) : r.toJson.sorted.reread = r.toJson.sorted := by
  rw [sorted_toJson]
  rfl

/-- Reading a record finds the same in a value that was written and read again. -/
@[simp] theorem ofJson?_reread (v : Json) : ofJson? v.reread = ofJson? v := by
  have htype : ∀ t : Json.Tree, KeyType.ofTree? t.reread = KeyType.ofTree? t :=
    Json.Tree.choice?_reread KeyType.names
  rw [ofJson?, ofJson?, Json.toTree_reread, ofTree?, ofTree?, Json.Tree.fields?_reread]
  cases v.toTree.fields? ["id", "type", "secret", "created_at"] with
  | none => rfl
  | some fields =>
    simp only [Option.map_some, Option.bind_eq_bind, Option.bind_some,
      fields.required?_reread "id" Json.Tree.bounded?_reread,
      fields.required?_reread "type" htype,
      fields.required?_reread "secret" Json.Tree.base64?_reread,
      fields.required?_reread "created_at" Json.Tree.bounded?_reread]

end KeyRecord

@[simp] theorem KeySet.loadRecord?_reread (v : Json) :
    KeySet.loadRecord? v.reread = KeySet.loadRecord? v := by
  rw [loadRecord?, loadRecord?, KeyRecord.ofJson?_reread]

theorem KeySet.loadRecord?_toJson (r : KeyRecord) :
    KeySet.loadRecord? r.toJson.sorted = (Key.load r).toOption := by
  rw [loadRecord?, KeyRecord.ofJson?_toJson, Option.bind_some]

namespace KeySetPlan

@[simp] theorem recordId?_toJson (r : KeyRecord) : recordId? r.toJson.sorted = some r.id := by
  rw [recordId?, KeyRecord.member?_id_toJson, Option.bind_some, KeyRecord.int64?_id,
    Option.bind_some, Bounded.ofInt?_val]

end KeySetPlan

namespace PendingVersion

@[simp] theorem position_toJson (r : KeyRecord) : position r.toJson.sorted = r.id.val := by
  rw [position, KeyRecord.member?_id_toJson, Option.bind_some, KeyRecord.int64?_id,
    Option.getD_some]

end PendingVersion

/-! ## Key sets -/

namespace KeySetData

/-- The records of a set are values as they are read from stored bytes. -/
def Stored (data : KeySetData) : Prop :=
  ∀ v ∈ data.records, v.Storable ∧ v.Canonical recordDepth

theorem mapM_value?_toTrees {depth : ℕ} {items : List Json}
    (h : ∀ v ∈ items, v.Canonical depth) :
    (Json.toTrees items).mapM (Json.Tree.value? depth) = some items := by
  induction items with
  | nil => rfl
  | cons item rest ih =>
    obtain ⟨hitem, hrest⟩ := List.forall_mem_cons.1 h
    rw [Json.toTrees, List.mapM_cons, Json.value?_toTree depth item hitem, ih hrest]
    rfl

theorem mapM_value?_stored {depth : ℕ} {items : List Json.Tree} {values : List Json}
    (hitems : ∀ t ∈ items, t.Storable) (h : items.mapM (Json.Tree.value? depth) = some values) :
    ∀ v ∈ values, v.Storable ∧ v.Canonical depth := by
  induction items generalizing values with
  | nil =>
    cases h
    intro v hv
    cases hv
  | cons item rest ih =>
    obtain ⟨hitem, hrest⟩ := List.forall_mem_cons.1 hitems
    rw [List.mapM_cons] at h
    simp only [Option.bind_eq_bind, Option.bind_eq_some_iff, Option.pure_def,
      Option.some.injEq] at h
    obtain ⟨v, hv, vs, hvs, rfl⟩ := h
    apply List.forall_mem_cons.2 ⟨_, ih hrest hvs⟩
    exact ⟨Json.storable_value? depth item hitem v hv, Json.canonical_value? depth item v hv⟩

/-- Whatever is read from stored bytes is a stored set. -/
theorem stored_ofBytes? {bytes : Bytes} {data : KeySetData} (h : ofBytes? bytes = some data) :
    data.Stored := by
  obtain ⟨tree, hparse, htree⟩ := Option.bind_eq_some_iff.1 h
  have hstorable := Json.Tree.storable_parse? hparse
  simp only [ofTree?, Option.bind_eq_bind, Option.bind_eq_some_iff, Option.pure_def,
    Option.some.injEq] at htree
  obtain ⟨fields, hfields, activeId, -, records, hrecords, rfl⟩ := htree
  have hpresent := Json.Tree.storable_fields? hstorable hfields
  rw [Json.Tree.Fields.orDefault?] at hrecords
  split at hrecords
  next t ht =>
    have hitems := Json.Tree.Fields.storable_get? hpresent ht
    cases t with
    | array items => exact mapM_value?_stored (Json.Tree.storableTrees_iff.1 hitems) hrecords
    | _ => cases hrecords
  next =>
    rw [Option.some.injEq] at hrecords
    subst hrecords
    intro v hv
    cases hv

theorem stored_empty : empty.Stored := by
  intro v hv
  cases hv

theorem rereadItems_eq_map (items : List Json) :
    Json.rereadItems items = items.map Json.reread := by
  induction items with
  | nil => rfl
  | cons item rest ih => rw [Json.rereadItems, List.map_cons, ih]

/-- The stored bytes are read as the set, with each record written and read again. -/
theorem ofBytes?_toBytes {data : KeySetData} (h : data.Stored) :
    ofBytes? data.toBytes = some ⟨data.activeId, data.records.map Json.reread⟩ := by
  obtain ⟨activeId, records⟩ := data
  have hactive := KeyRecord.isWord_bounded (by decide) (by decide) activeId
  have hitems : Json.StorableItems records := Json.storableItems_iff.2 fun v hv => (h v hv).1
  have hparse := Json.parse?_render (v := .object
    [("active_id", .int activeId.val), ("keys", .array records)]) ⟨hactive, hitems, trivial⟩
  have hrecords : (Json.toTrees (records.map Json.reread)).mapM (Json.Tree.value? recordDepth) =
      some (records.map Json.reread) := by
    apply mapM_value?_toTrees
    intro v hv
    obtain ⟨w, hw, rfl⟩ := List.mem_map.1 hv
    exact Json.canonical_reread recordDepth w (h w hw).2
  obtain ⟨fields, hfields⟩ : ∃ fields : Json.Tree.Fields, fields = ⟨true,
      [("active_id", (Json.int activeId.val).toTree),
        ("keys", .array (Json.toTrees (records.map Json.reread)))]⟩ := ⟨_, rfl⟩
  have hread : (Json.object [("active_id", .int activeId.val),
      ("keys", .array records)]).reread.toTree.fields? ["active_id", "keys"] = some fields := by
    rw [hfields, ← rereadItems_eq_map]
    rfl
  have hid : fields.orDefault? "active_id" Json.Tree.bounded? KeyId.none = some activeId := by
    rw [hfields]
    exact Bounded.ofInt?_val activeId
  have hkeys : fields.orDefault? "keys" (Json.Tree.array? (Json.Tree.value? recordDepth)) [] =
      some (records.map Json.reread) := by
    rw [hfields]
    exact hrecords
  rw [ofBytes?, Json.read?, toBytes, hparse, Option.bind_some]
  simp [ofTree?, hread, hid, hkeys]

end KeySetData
end Keyring
