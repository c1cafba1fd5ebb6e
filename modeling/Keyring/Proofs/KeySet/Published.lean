import Keyring.Cache
import Keyring.Proofs.Base64
import Keyring.Proofs.Bytes
import Keyring.Proofs.Crypto.Rsa
import Keyring.Proofs.KeySet.Rotation
import Keyring.Proofs.KeySet.Versions
import Keyring.Proofs.Text.Decimal

/-!
# Published key sets

The numbers of the versions of a set ascend and so do those of its signing versions. A published key
is named by the text of its number, and no two numbers have one text, so a name finds the key of its
version and nothing else. The modulus and the exponent are read from the published texts in as few
bytes as they need.
-/
namespace Keyring

/-- A text is the form for URLs of the shortest bytes of a number, without anything that fills it
up. -/
structure Base64.IsUrlTextOf (text : String) (n : ℕ) : Prop where
  plain : ∀ c ∈ text.toList, c.isAlphanum = true ∨ c = '-' ∨ c = '_'
  reads : ∃ bytes : Bytes, decodeUrl? text = some bytes ∧ bytes.IsShortestOf n

theorem Base64.isUrlTextOf_minimalBE {n : ℕ} (h : 0 < n) :
    IsUrlTextOf (encodeUrl (Bytes.minimalBE n)) n where
  plain _ hc := plain_of_mem_encodeUrl hc
  reads := ⟨_, decodeUrl?_encodeUrl _, Bytes.isShortestOf_minimalBE h⟩

/-! ## The signing versions of a set -/

def Key.asSigning? : Key → Option SigningKey
  | .signing k => some k
  | .aead _ => none

theorem Key.asSigning?_eq_some_iff {key : Key} {k : SigningKey} :
    key.asSigning? = some k ↔ key = .signing k := by
  cases key <;> simp [asSigning?]

theorem Key.jwk?_eq (key : Key) :
    key.jwk? = key.asSigning?.map fun k => k.publicKey.toJwk key.id := by
  cases key <;> rfl

namespace KeySet

/-- The signing versions and their numbers, in the order of the set. -/
def signingVersions (s : KeySet) : List (KeyId × SigningKey) :=
  s.versions.entries.filterMap fun e => e.2.asSigning?.map fun k => (e.1, k)

variable {s : KeySet}

theorem mem_signingVersions {id : KeyId} {k : SigningKey} :
    (id, k) ∈ s.signingVersions ↔ s.version? id = some (.signing k) := by
  rw [signingVersions, List.mem_filterMap, version?, SortedMap.get?_eq_some_iff]
  constructor
  · rintro ⟨⟨id', key⟩, hmem, heq⟩
    obtain ⟨k', hk, hpair⟩ := Option.map_eq_some_iff.1 heq
    obtain ⟨rfl, rfl⟩ := Prod.mk.inj hpair
    dsimp only at hk
    rwa [Key.asSigning?_eq_some_iff.1 hk] at hmem
  · intro hmem
    exact ⟨(id, .signing k), hmem, rfl⟩

theorem pairwise_signingVersions (s : KeySet) :
    s.signingVersions.Pairwise fun a b => a.1.val < b.1.val := by
  refine s.versions.sorted.filterMap _ fun a b hlt c hc d hd => ?_
  obtain ⟨k, -, rfl⟩ := Option.map_eq_some_iff.1 hc
  obtain ⟨k', -, rfl⟩ := Option.map_eq_some_iff.1 hd
  rw [Bounded.compare_def] at hlt
  exact compare_lt_iff_lt.1 hlt

/-- What is published of a set: one key for each signing version, under its number. -/
theorem keys_ofKeys (s : KeySet) :
    (Jwks.ofKeys s.keys).keys = s.signingVersions.map fun e => e.2.publicKey.toJwk e.1 := by
  have hentry : ∀ e ∈ s.versions.entries, Key.jwk? e.2 =
      (e.2.asSigning?.map fun k => (e.1, k)).map fun e => e.2.publicKey.toJwk e.1 := by
    intro e he
    rw [Key.jwk?_eq, s.id_eq e he, Option.map_map]
    rfl
  rw [Jwks.ofKeys, keys, SortedMap.values, List.filterMap_map, signingVersions, List.map_filterMap]
  exact List.filterMap_congr hentry

end KeySet

/-! ## What the published keys say -/

namespace Jwks

/-- The keys of a published set are those of the signing versions of a key set. -/
structure Publishes (published : Jwks) (s : KeySet) : Prop where
  /-- One key is listed for each signing version, in the order of the numbers, and no other key. -/
  listed : ∃ ids : List KeyId, published.keys.map Jwk.kid = ids.map (fun id => Decimal.ofInt id.val) ∧
    ids.Pairwise (fun a b => a.val < b.val) ∧
    ∀ id, id ∈ ids ↔ ∃ k, s.version? id = some (.signing k)
  /-- No two keys have one name. -/
  nodup : (published.keys.map Jwk.kid).Nodup
  /-- The text of a number finds a key exactly if a signing version has the number. -/
  found : ∀ id : KeyId, (∃ j, published.find? (Decimal.ofInt id.val) = some j) ↔
    ∃ k, s.version? id = some (.signing k)
  /-- The key that is found holds the numbers of the public half. -/
  numbers : ∀ {id : KeyId} {k : SigningKey} {j : Jwk}, s.version? id = some (.signing k) →
    published.find? (Decimal.ofInt id.val) = some j →
    Base64.IsUrlTextOf j.n k.publicKey.modulus ∧ Base64.IsUrlTextOf j.e k.publicKey.exponent
  /-- Any other text finds nothing. -/
  otherwise : ∀ kid : String,
    (∀ id k, s.version? id = some (.signing k) → kid ≠ Decimal.ofInt id.val) →
    published.find? kid = none

end Jwks

namespace KeySet

variable {s : KeySet}

theorem nodup_kid_ofKeys (s : KeySet) : ((Jwks.ofKeys s.keys).keys.map Jwk.kid).Nodup := by
  rw [keys_ofKeys, List.map_map, List.Nodup, List.pairwise_map]
  refine s.pairwise_signingVersions.imp fun hlt heq => ?_
  have hval := Decimal.ofInt_injective heq
  omega

/-- A name finds the key of the signing version whose number it writes. -/
theorem find?_ofKeys_eq_some_iff {kid : String} {j : Jwk} :
    (Jwks.ofKeys s.keys).find? kid = some j ↔
      ∃ id k, s.version? id = some (.signing k) ∧ kid = Decimal.ofInt id.val ∧
        j = k.publicKey.toJwk id := by
  have hfound : ∀ j, (Jwks.ofKeys s.keys).find? kid = some j →
      ∃ id k, s.version? id = some (.signing k) ∧ kid = Decimal.ofInt id.val ∧
        j = k.publicKey.toJwk id := by
    intro j h
    have hkid : j.kid = kid := by simpa using List.find?_some h
    have hmem := List.mem_of_find?_eq_some h
    rw [keys_ofKeys, List.mem_map] at hmem
    obtain ⟨⟨id, k⟩, hversion, rfl⟩ := hmem
    exact ⟨id, k, mem_signingVersions.1 hversion, hkid.symm, rfl⟩
  constructor
  · exact hfound j
  · rintro ⟨id, k, hversion, rfl, rfl⟩
    have hmem : k.publicKey.toJwk id ∈ (Jwks.ofKeys s.keys).keys := by
      rw [keys_ofKeys, List.mem_map]
      exact ⟨(id, k), mem_signingVersions.2 hversion, rfl⟩
    cases hfind : (Jwks.ofKeys s.keys).find? (Decimal.ofInt id.val) with
    | none =>
      have hnot := List.find?_eq_none.1 hfind _ hmem
      exact absurd BEq.rfl hnot
    | some j =>
      obtain ⟨id', k', hversion', hkid, rfl⟩ := hfound j hfind
      have hid : id = id' := Bounded.ext (Decimal.ofInt_injective hkid)
      rw [← hid, hversion, Option.some.injEq, Key.signing.injEq] at hversion'
      rw [hid, hversion']

/-- Every set is published as its signing versions. -/
theorem publishes_ofKeys (s : KeySet) : (Jwks.ofKeys s.keys).Publishes s where
  listed := by
    refine ⟨s.signingVersions.map Prod.fst, ?_, ?_, fun id => ?_⟩
    · rw [keys_ofKeys, List.map_map, List.map_map]
      rfl
    · rw [List.pairwise_map]
      exact s.pairwise_signingVersions
    · simp [mem_signingVersions]
  nodup := s.nodup_kid_ofKeys
  found id := by
    constructor
    · rintro ⟨j, hfind⟩
      obtain ⟨id', k, hversion, hkid, -⟩ := find?_ofKeys_eq_some_iff.1 hfind
      rw [Bounded.ext (Decimal.ofInt_injective hkid)]
      exact ⟨k, hversion⟩
    · rintro ⟨k, hversion⟩
      exact ⟨_, find?_ofKeys_eq_some_iff.2 ⟨id, k, hversion, rfl, rfl⟩⟩
  numbers := by
    intro id k j hversion hfind
    have hpublished := find?_ofKeys_eq_some_iff.2 ⟨id, k, hversion, rfl, rfl⟩
    rw [hpublished, Option.some.injEq] at hfind
    subst hfind
    have hexponent : 0 < k.privateKey.exponent := Nat.lt_of_succ_lt k.privateKey.valid.exponent_gt
    exact ⟨Base64.isUrlTextOf_minimalBE k.privateKey.modulus_pos,
      Base64.isUrlTextOf_minimalBE hexponent⟩
  otherwise kid hother := by
    by_contra hne
    obtain ⟨j, hfind⟩ := Option.ne_none_iff_exists'.1 hne
    obtain ⟨id, k, hversion, hkid, -⟩ := find?_ofKeys_eq_some_iff.1 hfind
    exact hother id k hversion hkid

end KeySet

/-- What a cached set that was read from stored bytes is published as: the signing versions among its
records, of which the last counts where several have one number. -/
theorem Cache.jwks_of_stored {c : Cache} {name : String} {bytes : Bytes} {s : KeySet}
    (hread : KeySet.ofBytes? bytes = some s) (hcached : c.keySets.get? name = some s) :
    (∃ published, c.jwks name = .ok published ∧ published.Publishes s) ∧
      ∃ data, KeySetData.ofBytes? bytes = some data ∧
        ∀ id, s.version? id = KeySet.lastVersion? id data.records := by
  obtain ⟨data, hdata, rfl⟩ := Option.map_eq_some_iff.1 hread
  refine ⟨⟨_, ?_, KeySet.publishes_ofKeys _⟩, data, hdata, KeySet.version?_ofData data⟩
  rw [jwks, versions, keySet, hcached]
  rfl

/-- A signing key with the modulus fifteen, under a negative number. -/
def SigningKey.fifteen : SigningKey where
  record := ⟨⟨-2, by decide, by decide⟩, .asymmetricSigning,
    Rsa.PrivateKey.toDer ⟨⟨15, 3, 3, 3, 5⟩, by decide⟩, ⟨15, by decide, by decide⟩⟩
  privateKey := ⟨⟨15, 3, 3, 3, 5⟩, by decide⟩
  keyType_eq := rfl
  privateKey_eq := by decide +kernel

/-- A stored set with a version of either kind and a record that is none. -/
def KeySetData.mixed : KeySetData where
  activeId := .first
  records := [{ KeyRecord.zeros with id := .first }.toJson.sorted, .null,
    SigningKey.fifteen.record.toJson.sorted]

theorem KeySetData.stored_mixed : mixed.Stored := by
  intro v hv
  simp only [mixed, List.mem_cons, List.not_mem_nil, or_false] at hv
  obtain rfl | rfl | rfl := hv
  · exact ⟨KeyRecord.storable_toJson _, KeyRecord.canonical_toJson _⟩
  · exact ⟨trivial, trivial⟩
  · exact ⟨KeyRecord.storable_toJson _, KeyRecord.canonical_toJson _⟩

/-- Of that set the signing version is published, and nothing under the number of the other one. -/
theorem Cache.jwks_of_stored_mixed :
    ∃ (c : Cache) (s : KeySet) (published : Jwks) (j : Jwk),
      KeySet.ofBytes? KeySetData.mixed.toBytes = some s ∧ c.keySets.get? "s" = some s ∧
      c.jwks "s" = .ok published ∧ published.find? "-2" = some j ∧
      Base64.IsUrlTextOf j.n 15 ∧ Base64.IsUrlTextOf j.e 3 ∧ published.find? "1" = none := by
  have hread : KeySet.ofBytes? KeySetData.mixed.toBytes =
      some (KeySet.ofData KeySetData.mixed) := by
    rw [KeySet.ofBytes?, KeySetData.ofBytes?_toBytes KeySetData.stored_mixed]
    simp [KeySetData.mixed, Json.reread]
  have hcached : (SortedMap.empty.insert "s" (KeySet.ofData KeySetData.mixed)).get? "s" =
      some (KeySet.ofData KeySetData.mixed) := SortedMap.get?_insert_self _ _ _
  obtain ⟨⟨published, hjwks, hpublishes⟩, -⟩ := jwks_of_stored (c := ⟨1, _⟩) hread hcached
  have hsigning : (KeySet.ofData KeySetData.mixed).version? SigningKey.fifteen.id =
      some (.signing .fifteen) := by decide +kernel
  have haead : ∀ k, (KeySet.ofData KeySetData.mixed).version? .first ≠ some (.signing k) := by
    have hkind : ((KeySet.ofData KeySetData.mixed).version? .first).map Key.keyType =
      some .symmetricAead := by decide +kernel
    intro k hk
    rw [hk] at hkind
    cases hkind
  obtain ⟨j, hfind⟩ := (hpublishes.found _).2 ⟨_, hsigning⟩
  obtain ⟨hn, he⟩ := hpublishes.numbers hsigning hfind
  have hnone : published.find? "1" = none := by
    by_contra hne
    obtain ⟨k, hk⟩ := (hpublishes.found .first).1 (Option.ne_none_iff_exists'.1 hne)
    exact haead k hk
  exact ⟨⟨1, _⟩, _, published, j, hread, hcached, hjwks, hfind, hn, he, hnone⟩

end Keyring
