import Keyring.Cache
import Keyring.Proofs.Key.Signing
import Keyring.Proofs.KeySet.StoredForm
import Keyring.Proofs.Text.Decimal
import Keyring.Proofs.Text.Marks
import Mathlib.Data.List.Forall2
import Mathlib.Tactic.MkIffOfInductiveProp

/-!
# What debug texts tell

The debug text of a record tells its number, its kind and its time, and nothing of its secret. What
is made of records tells no more: a stored set tells its active number and what its records tell, a
loaded key its number and the size of its modulus, a signer its number. The handle of a key set
tells the number of the active version, so an exchange of secrets in a cache cannot be seen there.
-/
namespace Keyring

theorem KeyId.comma_notMem (id : KeyId) : ',' ∉ (Decimal.ofInt id.val).toList :=
  Decimal.notMem_ofInt (by decide) (by decide) id.val

namespace KeyType

theorem notMem_constructorName {c : Char} (hc : c.isAlpha = false) (t : KeyType) :
    c ∉ t.constructorName.toList := by
  intro hmem
  have hletters : t.constructorName.toList.all Char.isAlpha = true := by cases t <;> decide
  rw [List.all_eq_true.1 hletters c hmem] at hc
  cases hc

theorem constructorName_inj {t u : KeyType} :
    t.constructorName = u.constructorName ↔ t = u := by
  cases t <;> cases u <;> decide

end KeyType

/-! ## Records -/

namespace KeyRecord

/-- Records that differ in their secrets at most. -/
@[mk_iff]
structure SameButSecret (a b : KeyRecord) : Prop where
  id_eq : a.id = b.id
  keyType_eq : a.keyType = b.keyType
  createdAt_eq : a.createdAt = b.createdAt

theorem SameButSecret.refl (a : KeyRecord) : a.SameButSecret a := ⟨rfl, rfl, rfl⟩

/-- A debug text tells everything but the secret, and of that nothing. -/
theorem debugText_eq_iff {a b : KeyRecord} : a.debugText = b.debugText ↔ a.SameButSecret b := by
  have htype (t : KeyType) : ',' ∉ t.constructorName.toList :=
    KeyType.notMem_constructorName (by decide) t
  unfold debugText
  simp only [String.append_assoc, String.append_right_inj]
  rw [Text.append_separator_inj ", key_type: " (by decide) a.id.comma_notMem b.id.comma_notMem,
    Text.append_separator_inj ", secret: \"<redacted>\", created_at: " (by decide)
      (htype a.keyType) (htype b.keyType), String.append_left_inj, Decimal.ofInt_val_inj,
    KeyType.constructorName_inj, Decimal.ofInt_val_inj]
  exact (sameButSecret_iff a b).symm

/-- The only closing brace in the debug text of a record is at its end. -/
theorem endsAt_debugText (r : KeyRecord) : Text.EndsAt '\x7d' r.debugText := by
  have hid := Decimal.notMem_ofInt (c := '\x7d') (by decide) (by decide) r.id.val
  have htime := Decimal.notMem_ofInt (c := '\x7d') (by decide) (by decide) r.createdAt.val
  have htype := KeyType.notMem_constructorName (c := '\x7d') (by decide) r.keyType
  unfold debugText
  refine Text.EndsAt.append_left ?_ ⟨" ", by decide, by decide⟩
  simp [hid, htime, htype]

end KeyRecord

/-! ## Stored key sets -/

namespace KeySetRecord

/-- Stored sets whose records differ in their secrets at most. -/
@[mk_iff]
structure SameButSecrets (r s : KeySetRecord) : Prop where
  activeId_eq : r.activeId = s.activeId
  keys : List.Forall₂ KeyRecord.SameButSecret r.keys s.keys

theorem map_debugText_eq_iff {l m : List KeyRecord} :
    l.map KeyRecord.debugText = m.map KeyRecord.debugText ↔
      List.Forall₂ KeyRecord.SameButSecret l m := by
  rw [← List.forall₂_eq_eq_eq, List.forall₂_map_left_iff, List.forall₂_map_right_iff]
  simp only [KeyRecord.debugText_eq_iff]

/-- The debug text of a stored set tells everything but the secrets of its records. -/
theorem debugText_eq_iff {r s : KeySetRecord} : r.debugText = s.debugText ↔ r.SameButSecrets s := by
  have hends (l : List KeyRecord) :
      ∀ text ∈ l.map KeyRecord.debugText, Text.EndsAt '\x7d' text := by
    intro text htext
    obtain ⟨record, -, rfl⟩ := List.mem_map.1 htext
    exact record.endsAt_debugText
  unfold debugText
  simp only [String.append_assoc, String.append_right_inj]
  rw [Text.append_separator_inj ", keys: [" (by decide) r.activeId.comma_notMem
      s.activeId.comma_notMem,
    String.append_left_inj, Text.intercalate_inj (hends r.keys) (hends s.keys),
    Decimal.ofInt_val_inj, map_debugText_eq_iff]
  exact (sameButSecrets_iff r s).symm

/-- A record may take the place of another one anywhere in a list if it is the same but for its
secret, and then only. -/
theorem debugText_exchange_iff {a b : KeyRecord} {activeId : KeyId}
    {before after : List KeyRecord} :
    (⟨activeId, before ++ a :: after⟩ : KeySetRecord).debugText =
      (⟨activeId, before ++ b :: after⟩ : KeySetRecord).debugText ↔ a.SameButSecret b := by
  have hsame (l : List KeyRecord) : List.Forall₂ KeyRecord.SameButSecret l l :=
    List.forall₂_same.2 fun r _ => .refl r
  rw [debugText_eq_iff]
  constructor
  · rintro ⟨-, hkeys⟩
    have hdropped := List.forall₂_drop_append _ _ _ hkeys
    rw [List.drop_left] at hdropped
    exact (List.forall₂_cons.1 hdropped).1
  · intro h
    exact ⟨rfl, List.rel_append (hsame before) (.cons h (hsame after))⟩

end KeySetRecord

/-! ## Keys and signers -/

/-- The debug text of a signer tells its number. -/
theorem Signer.debugText_eq_iff {s t : Signer} :
    s.debugText = t.debugText ↔ s.keyId = t.keyId := by
  unfold debugText
  rw [String.append_left_inj, String.append_right_inj, Decimal.ofInt_val_inj]

/-- The debug text of an encryption key tells its number. -/
theorem AeadKey.debugText_eq_iff {k l : AeadKey} : k.debugText = l.debugText ↔ k.id = l.id := by
  unfold debugText
  rw [String.append_left_inj, String.append_right_inj, Decimal.ofInt_val_inj]

/-- The debug text of a signing key tells its number and how many bytes the modulus takes. -/
theorem SigningKey.debugText_eq_iff {k l : SigningKey} :
    k.debugText = l.debugText ↔ k.id = l.id ∧ k.publicKey.size = l.publicKey.size := by
  have hbits : k.publicKey.bits = l.publicKey.bits ↔ k.publicKey.size = l.publicKey.size :=
    Nat.mul_right_inj (by decide)
  unfold debugText
  simp only [String.append_assoc, String.append_right_inj]
  rw [Text.append_separator_inj ", bits: " (by decide) k.id.comma_notMem l.id.comma_notMem,
    String.append_left_inj, Decimal.ofInt_val_inj, Decimal.ofNat_inj, hbits]

namespace Key

theorem id_of_load {r : KeyRecord} {k : Key} (h : load r = .ok k) : k.id = r.id :=
  congrArg KeyRecord.id (record_of_load h)

theorem keyType_of_load {r : KeyRecord} {k : Key} (h : load r = .ok k) : k.keyType = r.keyType := by
  rw [← record_keyType, record_of_load h]

/-- How many bytes the modulus of a signing key takes. -/
def modulusSize? : Key → Option ℕ
  | .signing k => some k.publicKey.size
  | .aead _ => none

/-- The debug text of a key tells its kind, its number and the size of its modulus. -/
theorem debugText_eq_iff {k l : Key} :
    k.debugText = l.debugText ↔ k.id = l.id ∧ k.modulusSize? = l.modulusSize? := by
  -- The kinds begin with different letters.
  have hinitial (s t : String) : "AsymmetricSigning(" ++ s ≠ "SymmetricAead(" ++ t := by
    intro h
    have hfirst := congrArg (fun text : String => text.toList.head?) h
    simp at hfirst
  unfold debugText
  cases k with
  | signing k =>
    cases l with
    | signing l =>
      rw [String.append_left_inj, String.append_right_inj, SigningKey.debugText_eq_iff]
      simp [modulusSize?, id, record, SigningKey.id]
    | aead l => simp [modulusSize?, String.append_assoc, hinitial]
  | aead k =>
    cases l with
    | signing l => simp [modulusSize?, String.append_assoc, (hinitial _ _).symm]
    | aead l =>
      rw [String.append_left_inj, String.append_right_inj, AeadKey.debugText_eq_iff]
      simp [modulusSize?, id, record, AeadKey.id]

/-- Keys of one kind and number have signers with one debug text, or none for one reason. -/
theorem signer_debugText_eq {k l : Key} (htype : k.keyType = l.keyType) (hid : k.id = l.id) :
    k.signer.map Signer.debugText = l.signer.map Signer.debugText := by
  cases k with
  | signing k =>
    cases l with
    | signing l => exact congrArg Except.ok (Signer.debugText_eq_iff.2 hid)
    | aead l => cases htype
  | aead k =>
    cases l with
    | signing l => cases htype
    | aead l => rfl

end Key

/-! ## Loaded key sets -/

namespace KeySet

/-- Loaded sets that have one active number and versions of the same numbers. -/
structure SameNumbers (s t : KeySet) : Prop where
  activeId_eq : s.activeId = t.activeId
  isSome_eq : ∀ id, (s.version? id).isSome = (t.version? id).isSome

variable {s t : KeySet} {k l : Key}

theorem SameNumbers.refl (s : KeySet) : s.SameNumbers s := ⟨rfl, fun _ => rfl⟩

theorem map_id_active? (s : KeySet) :
    s.active?.map Key.id = if (s.version? s.activeId).isSome then some s.activeId else none := by
  unfold active?
  cases hversion : s.version? s.activeId with
  | none => rfl
  | some key => exact congrArg some (id_of_version? hversion)

theorem SameNumbers.map_id_active?_eq (h : s.SameNumbers t) :
    s.active?.map Key.id = t.active?.map Key.id := by
  rw [map_id_active?, map_id_active?, h.activeId_eq, h.isSome_eq]

/-- Versions of one number may be added on both sides. -/
theorem SameNumbers.add (h : s.SameNumbers t) (hid : k.id = l.id) :
    (s.add k).SameNumbers (t.add l) := by
  refine ⟨h.activeId_eq, fun id => ?_⟩
  rw [version?_add, version?_add, hid]
  split_ifs
  · rfl
  · exact h.isSome_eq id

/-- A version may take the place of another one that has its number. -/
theorem sameNumbers_add_of_version? (hk : s.version? k.id = some k) (hid : k.id = l.id) :
    s.SameNumbers (s.add l) := by
  refine ⟨rfl, fun id => ?_⟩
  rw [version?_add]
  split_ifs with heq
  · rw [Std.LawfulEqCmp.eq_of_compare heq, ← hid, hk]
    rfl
  · rfl

theorem SameNumbers.addRecord (h : s.SameNumbers t) (value : Json) :
    (s.addRecord value).SameNumbers (t.addRecord value) := by
  unfold KeySet.addRecord
  cases loadRecord? value with
  | none => exact h
  | some key => exact h.add rfl

theorem SameNumbers.foldl_addRecord (h : s.SameNumbers t) (values : List Json) :
    (values.foldl KeySet.addRecord s).SameNumbers (values.foldl KeySet.addRecord t) := by
  induction values generalizing s t with
  | nil => exact h
  | cons value values ih => exact ih (h.addRecord value)

theorem addRecord_toJson {r : KeyRecord} (s : KeySet) (h : Key.load r = .ok k) :
    s.addRecord r.toJson.sorted = s.add k := by
  unfold addRecord
  rw [loadRecord?_toJson, h]
  rfl

/-- Sets that are loaded from stored ones with one record in place of another. -/
theorem sameNumbers_ofData {a b : KeyRecord} (ha : Key.load a = .ok k) (hb : Key.load b = .ok l)
    (hid : a.id = b.id) (activeId : KeyId) (before after : List Json) :
    (ofData ⟨activeId, before ++ a.toJson.sorted :: after⟩).SameNumbers
      (ofData ⟨activeId, before ++ b.toJson.sorted :: after⟩) := by
  have hnumbers : k.id = l.id := by rw [Key.id_of_load ha, Key.id_of_load hb, hid]
  unfold ofData
  simp only [List.foldl_append, List.foldl_cons, addRecord_toJson _ ha, addRecord_toJson _ hb]
  exact ((SameNumbers.refl _).add hnumbers).foldl_addRecord after

end KeySet

/-! ## Handles -/

namespace Cache

variable {c d : Cache} {name : String}

/-- The debug text of a handle tells the number of the active version. -/
theorem debugText_eq_iff :
    c.debugText name = d.debugText name ↔ c.activeId? name = d.activeId? name := by
  have hinitial (text : String) : "Some(" ++ text ≠ "None" := by
    intro h
    have hfirst := congrArg (fun text : String => text.toList.head?) h
    simp at hfirst
  unfold debugText
  rw [String.append_left_inj, String.append_right_inj]
  cases c.activeId? name with
  | none =>
    cases d.activeId? name with
    | none => simp
    | some id => simp [String.append_assoc, (hinitial _).symm]
  | some id =>
    cases d.activeId? name with
    | none => simp [String.append_assoc, hinitial]
    | some id' =>
      rw [String.append_left_inj, String.append_right_inj, Decimal.ofInt_val_inj, Option.some_inj]

/-- The cache with a key set under a name. -/
def hold (c : Cache) (name : String) (s : KeySet) : Cache :=
  { c with keySets := c.keySets.insert name s }

variable {s t : KeySet}

theorem activeId?_hold (c : Cache) (name other : String) (s : KeySet) :
    (c.hold name s).activeId? other =
      if compare other name = .eq then s.active?.map Key.id else c.activeId? other := by
  rw [activeId?, hold, SortedMap.get?_insert]
  split_ifs
  · rfl
  · rfl

/-- No handle tells sets apart that have one active number and versions of the same numbers. -/
theorem debugText_hold_eq (h : s.SameNumbers t) (c : Cache) (name other : String) :
    (c.hold name s).debugText other = (c.hold name t).debugText other := by
  rw [debugText_eq_iff, activeId?_hold, activeId?_hold, h.map_id_active?_eq]

theorem activeId?_hold_self (hs : c.keySets.get? name = some s) (other : String) :
    (c.hold name s).activeId? other = c.activeId? other := by
  rw [activeId?_hold]
  split_ifs with heq
  · rw [Std.LawfulEqCmp.eq_of_compare heq, activeId?, hs, Option.bind_some]
  · rfl

end Cache

/-! ## Exchanges of secrets -/

namespace KeyRecord

/-- Records that debug texts do not tell apart, nor what is made of them. -/
structure LooksLike (a b : KeyRecord) : Prop where
  /-- The texts of the records are equal. -/
  record : a.debugText = b.debugText
  /-- So are the texts of stored sets with one record in the place of the other. -/
  keySetRecord : ∀ (activeId : KeyId) (before after : List KeyRecord),
    (⟨activeId, before ++ a :: after⟩ : KeySetRecord).debugText =
      (⟨activeId, before ++ b :: after⟩ : KeySetRecord).debugText
  /-- The texts of the loaded keys tell how many bytes a modulus takes, and nothing else. -/
  key : ∀ {k l : Key}, Key.load a = .ok k → Key.load b = .ok l →
    (k.debugText = l.debugText ↔ k.modulusSize? = l.modulusSize?)
  /-- The texts of their signers are equal. -/
  signer : ∀ {k l : Key}, Key.load a = .ok k → Key.load b = .ok l →
    k.signer.map Signer.debugText = l.signer.map Signer.debugText
  /-- No handle shows that one key took the place of the other in a cached set. -/
  handle : ∀ {k l : Key}, Key.load a = .ok k → Key.load b = .ok l →
    ∀ {c : Cache} {name : String} {s : KeySet}, c.keySets.get? name = some s →
      s.version? k.id = some k →
      ∀ other, (c.hold name (s.add l)).debugText other = c.debugText other
  /-- Nor does a handle show which record the set was loaded from. -/
  loadedHandle : ∀ {k l : Key}, Key.load a = .ok k → Key.load b = .ok l →
    ∀ (c : Cache) (name : String) (activeId : KeyId) (before after : List Json) (other : String),
      (c.hold name (.ofData ⟨activeId, before ++ a.toJson.sorted :: after⟩)).debugText other =
        (c.hold name (.ofData ⟨activeId, before ++ b.toJson.sorted :: after⟩)).debugText other

/-- Debug texts do not depend on secrets. Two records of one number, kind and time look alike in the
texts of all that is made of them, whatever their secrets are, and no other records do. -/
theorem looksLike_iff_sameButSecret {a b : KeyRecord} : a.LooksLike b ↔ a.SameButSecret b := by
  refine ⟨fun h => debugText_eq_iff.1 h.record, fun h => ?_⟩
  have hid {k l : Key} (ha : Key.load a = .ok k) (hb : Key.load b = .ok l) : k.id = l.id := by
    rw [Key.id_of_load ha, Key.id_of_load hb, h.id_eq]
  have htype {k l : Key} (ha : Key.load a = .ok k) (hb : Key.load b = .ok l) :
      k.keyType = l.keyType := by
    rw [Key.keyType_of_load ha, Key.keyType_of_load hb, h.keyType_eq]
  refine ⟨debugText_eq_iff.2 h, ?_, ?_, ?_, ?_, ?_⟩
  · exact fun activeId before after => KeySetRecord.debugText_exchange_iff.2 h
  · intro k l ha hb
    rw [Key.debugText_eq_iff, and_iff_right (hid ha hb)]
  · exact fun ha hb => Key.signer_debugText_eq (htype ha hb) (hid ha hb)
  · intro k l ha hb c name s hs hk other
    -- To put the same set under its name again changes no handle, so both sides put a set there.
    have hsame := KeySet.sameNumbers_add_of_version? hk (hid ha hb)
    rw [← Cache.debugText_hold_eq hsame, Cache.debugText_eq_iff, Cache.activeId?_hold_self hs]
  · intro k l ha hb c name activeId before after other
    exact Cache.debugText_hold_eq (KeySet.sameNumbers_ofData ha hb h.id_eq activeId before after)
      c name other

/-- Two signing keys with different secrets look alike, also where one takes the place of the
other. -/
theorem looksLike_factors :
    let k : Key := .signing .withPrimes
    let l : Key := .signing .withComposite
    let set := (KeySet.withoutVersions k.id).add k
    k.record.secret ≠ l.record.secret ∧ k.debugText = l.debugText ∧
      ((Cache.empty.hold "a" set).hold "a" (set.add l)).debugText "a" =
        (Cache.empty.hold "a" set).debugText "a" := by
  intro k l set
  have halike : k.record.LooksLike l.record := looksLike_iff_sameButSecret.2
    ⟨by decide +kernel, by decide +kernel, by decide +kernel⟩
  have hcached : (Cache.empty.hold "a" set).keySets.get? "a" = some set :=
    SortedMap.get?_insert_self _ _ _
  have hversion : set.version? k.id = some k := SortedMap.get?_insert_self _ _ _
  refine ⟨by decide +kernel, ?_, ?_⟩
  · exact (halike.key k.load_record l.load_record).2 (by decide +kernel)
  · exact halike.handle k.load_record l.load_record hcached hversion "a"

end KeyRecord
end Keyring
