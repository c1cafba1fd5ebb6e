import Keyring.Jwk
import Keyring.KeySet.Record
import Keyring.Proofs.Base64.Canonical
import Keyring.Proofs.Envelope
import Keyring.Proofs.LocalStore.ObjectFile

/-!
# Lossless forms

A JSON form is lossless if the text of every value is read as that value. Lossless forms are built
up like the types themselves: leaves, lists of what has a lossless form, and records of such fields.
The forms of all stored and sent data are of this kind.
-/
namespace Keyring

namespace Json

/-- A form whose numbers survive writing, and whose reader finds every value in its own tree. -/
structure Lossless {α : Type} (toJson : α → Json) (read? : Tree → Option α) : Prop where
  storable (a : α) : (toJson a).Storable
  reread (a : α) : (toJson a).reread = toJson a
  read (a : α) : read? (toJson a).toTree = some a

/-- The text of a value is read as what its tree is read as. -/
theorem read?_render {α : Type} {ofTree? : Tree → Option α} {v : Json} {a : α} (hv : v.Storable)
    (h : ofTree? v.reread.toTree = some a) : read? ofTree? v.render = some a := by
  rw [read?, parse?_render hv, Option.bind_some, h]

namespace Lossless

variable {α : Type} {toJson : α → Json} {ofTree? : Tree → Option α}

/-- The text of a value in a lossless form is read as the value. -/
theorem read?_render (form : Lossless toJson ofTree?) (a : α) :
    Json.read? ofTree? (toJson a).render = some a := by
  apply Json.read?_render (form.storable a)
  rw [form.reread, form.read]

/-! ## Leaves and lists -/

theorem base64 : Lossless Json.base64 Tree.base64? where
  storable _ := trivial
  reread _ := rfl
  read bytes := Base64.decode?_encode bytes

theorem bounded {lower upper : ℤ} (hlower : -9223372036854775808 ≤ lower)
    (hupper : upper ≤ 18446744073709551616) :
    Lossless (fun a : Bounded lower upper => .int a.val) Tree.bounded? where
  storable a := KeyRecord.isWord_bounded hlower hupper a
  reread _ := rfl
  read a := Bounded.ofInt?_val a

/-- A list is read item by item. -/
theorem array (form : Lossless toJson ofTree?) :
    Lossless (fun items : List α => .array (items.map toJson)) (Tree.array? ofTree?) where
  storable items := by
    apply storableItems_iff.2
    intro item hitem
    obtain ⟨a, -, rfl⟩ := List.mem_map.1 hitem
    exact form.storable a
  reread items := by
    have hitems : (items.map toJson).map Json.reread = items.map toJson := by
      rw [List.map_map]
      exact List.map_congr_left fun a _ => form.reread a
    rw [Json.reread, KeySetData.rereadItems_eq_map, hitems]
  read items := by
    induction items with
    | nil => rfl
    | cons a rest ih =>
      rw [toTree, Tree.array?] at ih ⊢
      rw [List.map_cons, toTrees, List.mapM_cons, form.read, ih]
      rfl

end Lossless
end Json

/-! ## Records -/

/-- The number of a key version. -/
theorem KeyId.lossless : Json.Lossless (fun id : KeyId => .int id.val) Json.Tree.bounded? :=
  .bounded (by decide) (by decide)

/-- A time. -/
theorem Timestamp.lossless : Json.Lossless (fun t : Timestamp => .int t.val) Json.Tree.bounded? :=
  .bounded (by decide) (by decide)

theorem KeyRecord.lossless : Json.Lossless toJson ofTree? where
  storable r :=
    ⟨KeyId.lossless.storable r.id, trivial, trivial, Timestamp.lossless.storable r.createdAt,
      trivial⟩
  reread _ := rfl
  read r := by
    obtain ⟨fields, hfields⟩ : ∃ fields : Json.Tree.Fields, fields =
        ⟨true, [("id", (Json.int r.id.val).toTree), ("type", r.keyType.toJson.toTree),
          ("secret", (Json.base64 r.secret).toTree),
          ("created_at", (Json.int r.createdAt.val).toTree)]⟩ := ⟨_, rfl⟩
    have hread : r.toJson.toTree.fields? ["id", "type", "secret", "created_at"] = some fields := by
      rw [hfields]
      rfl
    have hid : fields.required? "id" Json.Tree.bounded? = some r.id := by
      rw [hfields]
      exact KeyId.lossless.read r.id
    have htype : fields.required? "type" KeyType.ofTree? = some r.keyType := by
      rw [hfields]
      exact keyType_ofTree? r.keyType
    have hsecret : fields.required? "secret" Json.Tree.base64? = some r.secret := by
      rw [hfields]
      exact Json.Lossless.base64.read r.secret
    have hcreated : fields.required? "created_at" Json.Tree.bounded? = some r.createdAt := by
      rw [hfields]
      exact Timestamp.lossless.read r.createdAt
    simp [ofTree?, hread, hid, htype, hsecret, hcreated]

theorem KeySetRecord.lossless : Json.Lossless toJson ofTree? where
  storable s := ⟨KeyId.lossless.storable s.activeId, KeyRecord.lossless.array.storable s.keys,
    trivial⟩
  reread s := by
    have hkeys := KeyRecord.lossless.array.reread s.keys
    rw [toJson, Json.reread, Json.rereadMembers, Json.rereadMembers, hkeys]
    rfl
  read s := by
    obtain ⟨fields, hfields⟩ : ∃ fields : Json.Tree.Fields, fields =
        ⟨true, [("active_id", (Json.int s.activeId.val).toTree),
          ("keys", (Json.array (s.keys.map KeyRecord.toJson)).toTree)]⟩ := ⟨_, rfl⟩
    have hread : s.toJson.toTree.fields? ["active_id", "keys"] = some fields := by
      rw [hfields]
      rfl
    have hactive : fields.orDefault? "active_id" Json.Tree.bounded? KeyId.none =
        some s.activeId := by
      rw [hfields]
      exact KeyId.lossless.read s.activeId
    have hkeys : fields.orDefault? "keys" (Json.Tree.array? KeyRecord.ofTree?) [] =
        some s.keys := by
      rw [hfields]
      exact KeyRecord.lossless.array.read s.keys
    simp [ofTree?, hread, hactive, hkeys]

theorem Jwk.lossless : Json.Lossless toJson ofTree? where
  storable _ := ⟨trivial, trivial, trivial, trivial, trivial, trivial, trivial⟩
  reread _ := rfl
  read _ := rfl

theorem Jwks.lossless : Json.Lossless toJson ofTree? where
  storable s := ⟨Jwk.lossless.array.storable s.keys, trivial⟩
  reread s := by
    have hkeys := Jwk.lossless.array.reread s.keys
    rw [toJson, Json.reread, Json.rereadMembers, hkeys]
    rfl
  read s := by
    obtain ⟨fields, hfields⟩ : ∃ fields : Json.Tree.Fields, fields =
        ⟨true, [("keys", (Json.array (s.keys.map Jwk.toJson)).toTree)]⟩ := ⟨_, rfl⟩
    have hread : s.toJson.toTree.fields? ["keys"] = some fields := by
      rw [hfields]
      rfl
    have hkeys : fields.required? "keys" (Json.Tree.array? Jwk.ofTree?) = some s.keys := by
      rw [hfields]
      exact Jwk.lossless.array.read s.keys
    simp [ofTree?, hread, hkeys]

theorem StoredObject.lossless : Json.Lossless toJson ofTree? where
  storable := storable_toJson
  reread := reread_toJson
  read := ofTree?_toJson

/-! ## Byte fields -/

namespace Json.Tree

/-- A byte field holds bytes exactly if it is the text of their standard form. -/
theorem base64?_eq_some_iff {tree : Tree} {bytes : Bytes} :
    tree.base64? = some bytes ↔ tree = .string (some (Base64.encode bytes)) := by
  constructor
  · intro h
    obtain ⟨text, htext, hbytes⟩ := Option.bind_eq_some_iff.1 h
    cases tree with
    | string s => rw [show s = some text from htext, Base64.decode?_eq_some_iff.1 hbytes]
    | _ => cases htext
  · rintro rfl
    exact Lossless.base64.read bytes

/-- The tree is a record with these fields, and one of them is the standard form of the bytes. -/
def HoldsBytes (tree : Tree) (names : List String) (name : String) (bytes : Bytes) : Prop :=
  ∃ fields, tree.fields? names = some fields ∧
    fields.get? name = some (.string (some (Base64.encode bytes)))

theorem holdsBytes_of_required? {tree : Tree} {names : List String} {fields : Fields}
    {name : String} {bytes : Bytes} (hfields : tree.fields? names = some fields)
    (h : fields.required? name base64? = some bytes) : tree.HoldsBytes names name bytes := by
  obtain ⟨field, hget, hbytes⟩ := Option.bind_eq_some_iff.1 h
  exact ⟨fields, hfields, by rw [hget, base64?_eq_some_iff.1 hbytes]⟩

end Json.Tree

/-- However a record that is read was written, its secret was in the standard form. -/
theorem KeyRecord.holdsBytes_secret {tree : Json.Tree} {r : KeyRecord}
    (h : ofTree? tree = some r) :
    tree.HoldsBytes ["id", "type", "secret", "created_at"] "secret" r.secret := by
  simp only [ofTree?, Option.bind_eq_bind, Option.bind_eq_some_iff, Option.pure_def,
    Option.some.injEq] at h
  obtain ⟨fields, hfields, -, -, -, -, secret, hsecret, -, -, rfl⟩ := h
  exact Json.Tree.holdsBytes_of_required? hfields hsecret

/-- However an envelope that is read was written, its nonce and its ciphertext were in the standard
form. -/
theorem Envelope.holdsBytes {tree : Json.Tree} {e : Envelope} (h : ofTree? tree = some e) :
    tree.HoldsBytes ["method", "key_id", "nonce", "ciphertext"] "nonce" e.nonce ∧
      tree.HoldsBytes ["method", "key_id", "nonce", "ciphertext"] "ciphertext" e.ciphertext := by
  simp only [ofTree?, Option.bind_eq_bind, Option.bind_eq_some_iff, Option.pure_def,
    Option.some.injEq] at h
  obtain ⟨fields, hfields, -, -, -, -, nonce, hnonce, ciphertext, hciphertext, rfl⟩ := h
  exact ⟨Json.Tree.holdsBytes_of_required? hfields hnonce,
    Json.Tree.holdsBytes_of_required? hfields hciphertext⟩

/-- All forms are read back as what was written, and whatever texts the byte fields of a record or
an envelope had, they were the standard forms of the bytes, of which no two stand for one value. -/
theorem forms_read_back :
    (∀ r : KeyRecord, Json.read? KeyRecord.ofTree? r.toJson.render = some r ∧
        KeyRecord.ofJson? r.toJson.sorted = some r) ∧
      (∀ s : KeySetRecord, Json.read? KeySetRecord.ofTree? s.toJson.render = some s) ∧
      (∀ e : Envelope, Envelope.ofBytes? e.toBytes = some e) ∧
      (∀ o : StoredObject, Json.read? StoredObject.ofTree? o.toJson.render = some o) ∧
      (∀ f : ObjectFile, f.version < ObjectFile.versionLimit →
        ObjectFile.ofBytes? f.toBytes = some f) ∧
      (∀ s : Jwks, Json.read? Jwks.ofTree? s.toJson.render = some s) ∧
      (∀ tree r, KeyRecord.ofTree? tree = some r →
        tree.HoldsBytes ["id", "type", "secret", "created_at"] "secret" r.secret) ∧
      (∀ tree e, Envelope.ofTree? tree = some e →
        tree.HoldsBytes ["method", "key_id", "nonce", "ciphertext"] "nonce" e.nonce ∧
          tree.HoldsBytes ["method", "key_id", "nonce", "ciphertext"] "ciphertext"
            e.ciphertext) ∧
      (∀ text bytes, Base64.decode? text = some bytes ↔ text = Base64.encode bytes) ∧
      (∀ text text' bytes, Base64.decode? text = some bytes →
        Base64.decode? text' = some bytes → text = text') := by
  refine ⟨fun r => ⟨KeyRecord.lossless.read?_render r, r.ofJson?_toJson⟩,
    KeySetRecord.lossless.read?_render, Envelope.ofBytes?_toBytes,
    StoredObject.lossless.read?_render, ObjectFile.ofBytes?_toBytes, Jwks.lossless.read?_render,
    fun _ _ => KeyRecord.holdsBytes_secret, fun _ _ => Envelope.holdsBytes,
    fun _ _ => Base64.decode?_eq_some_iff, fun _ _ _ => Base64.decode?_injective⟩

/-- A file with the greatest number of a write, of an object whose names have a control character,
quotes and a character outside of the basic plane. -/
def ObjectFile.extreme : ObjectFile :=
  ⟨18446744073709551615, true,
    some ⟨"\u0001\"\\", "\n🔑", "", SortedMap.ofList [("\"🔑\t", [0, 255])]⟩⟩

/-- A record with the least number and the least time. -/
def KeyRecord.extreme : KeyRecord :=
  ⟨⟨-2147483648, by decide, by decide⟩, .symmetricAead, [0, 62, 255, 128],
    ⟨-9223372036854775808, by decide, by decide⟩⟩

theorem forms_read_back_extremes :
    ObjectFile.extreme.version < ObjectFile.versionLimit ∧
      ObjectFile.ofBytes? ObjectFile.extreme.toBytes = some ObjectFile.extreme ∧
      KeyRecord.ofTree? KeyRecord.extreme.toJson.toTree = some KeyRecord.extreme ∧
      KeyRecord.extreme.toJson.toTree.HoldsBytes ["id", "type", "secret", "created_at"] "secret"
        [0, 62, 255, 128] := by
  have hlimit : ObjectFile.extreme.version < ObjectFile.versionLimit := by decide
  have hread := KeyRecord.lossless.read KeyRecord.extreme
  obtain ⟨-, -, -, -, hfile, -, hsecret, -⟩ := forms_read_back
  exact ⟨hlimit, hfile ObjectFile.extreme hlimit, hread, hsecret _ KeyRecord.extreme hread⟩

end Keyring
