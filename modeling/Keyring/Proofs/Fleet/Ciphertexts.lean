import Keyring.Proofs.Envelope
import Keyring.Proofs.Fleet.Rotations
import Keyring.Proofs.Fleet.Versions

/-!
# Ciphertexts survive rotations

A record of a ledger stays under its number and keeps its secret. So what one process has sealed is
opened by every process whose cache is not older than that of the first was, however often the set
has been rotated since.
-/
namespace Keyring

namespace Cache

variable {cache : Cache} {text : String} {plaintext : Bytes} {pool : Entropy} {envelope : Envelope}

/-- What is sealed is sealed by the active version of the set, an encryption key. -/
theorem encrypt_ok_cases (h : (cache.encrypt text plaintext pool).1 = .ok envelope) :
    ∃ keySet key, cache.keySets.get? text = some keySet ∧ keySet.active? = some (.aead key) ∧
      envelope = (key.sealFresh plaintext pool).1 := by
  unfold encrypt at h
  split at h
  next key hkey =>
    cases hactive : cache.activeKey text with
    | error failure =>
      rw [hactive] at hkey
      cases hkey
    | ok active =>
      rw [hactive] at hkey
      have hkind : active.asAead = .ok key := hkey
      obtain ⟨keySet, hset, hversion⟩ := activeKey_eq_ok_iff.1 hactive
      cases active with
      | signing _ => cases hkind
      | aead active =>
        obtain rfl := Except.ok.inj hkind
        exact ⟨keySet, active, hset, hversion, (Except.ok.inj h).symm⟩
  next => cases h

/-- The version that has sealed an envelope opens its sent form. -/
theorem decrypt_sealFresh {keySet : KeySet} {key : AeadKey}
    (hset : cache.keySets.get? text = some keySet)
    (hkey : keySet.version? key.id = some (.aead key)) (plaintext : Bytes) (pool : Entropy) :
    cache.decrypt text (key.sealFresh plaintext pool).1.toBytes = .ok plaintext := by
  have hopen := key.openEnvelope_sealFresh plaintext pool
  rw [← key.keyId_sealFresh plaintext pool] at hkey
  simp [decrypt, Envelope.ofBytes?_toBytes, Cache.keySet, hset, hkey, Key.asAead, hopen,
    Except.bind, Bind.bind]

end Cache

namespace Fleet

variable {members : ℕ → Member} {target : ObjectName} {fleet last : Fleet}
  {before after : List Action}

/-- Processes share an object of a new store, and no other program writes to it. What a process has
sealed with a key set is opened by that key set in every process and at every later time, if the
cache is not at an older version than the one that has sealed. -/
theorem ciphertext_survives (hbefore : start.run? members before = some fleet)
    (hafter : fleet.run? members after = some last) (hquiet : Quiet target (before ++ after))
    {i j : ℕ} (hi : (members i).target = target) (hj : (members j).target = target)
    {text : String} {plaintext : Bytes} {pool : Entropy} {envelope : Envelope}
    (hsealed : ((fleet.cache i).encrypt text plaintext pool).1 = .ok envelope)
    (hle : (fleet.cache i).resourceVersion ≤ (last.cache j).resourceVersion) :
    (last.cache j).decrypt text envelope.toBytes = .ok plaintext := by
  obtain ⟨keySet, key, hset, hactive, rfl⟩ := Cache.encrypt_ok_cases hsealed
  have hsince : (fleet.cache i).Since start.store.version := by
    obtain ⟨version, -, hcached, -⟩ := (run?_spec (.start members) hbefore).1.caches i
    right
    rw [hcached]
    exact Int.natCast_nonneg version
  obtain ⟨data, records, more, hledger, rfl, data', hledger', hset'⟩ :=
    (kept_start members target).holds_later hquiet hbefore hafter hi hj hsince hle hset
  -- the record of the key that has sealed is still there, under its number
  have hrecord := (hledger.active?_ofData hactive).1
  have hkept : (Key.aead key).record ∈ records ++ more := List.mem_append_left more hrecord
  exact Cache.decrypt_sealFresh hset' (hledger'.version?_ofData.2 ⟨hkept, rfl⟩) plaintext pool

/-- What is sealed between two rotations is opened by the process that has made the second. -/
theorem ciphertext_survives_rotation :
    ∃ fleet last envelope,
      start.run? (Member.sharing ⟨"ns", "keys"⟩) firstRotation = some fleet ∧
      ((fleet.cache 0).encrypt "signing" [1, 2, 3] (.ofSeed [])).1 = .ok envelope ∧
      fleet.run? (Member.sharing ⟨"ns", "keys"⟩) secondRotation = some last ∧
      (last.cache 1).resourceVersion = 2 ∧
      (last.cache 1).decrypt "signing" envelope.toBytes = .ok [1, 2, 3] := by
  have hruns : ((start.run? (Member.sharing ⟨"ns", "keys"⟩) firstRotation).bind fun fleet =>
      (fleet.run? (Member.sharing ⟨"ns", "keys"⟩) secondRotation).map fun last =>
        (((fleet.cache 0).encrypt "signing" [1, 2, 3] (.ofSeed [])).1.toOption.isSome,
          (fleet.cache 0).resourceVersion, (last.cache 1).resourceVersion)) =
      some (true, 1, 2) := by
    decide +kernel
  obtain ⟨fleet, hbefore, hrest⟩ := Option.bind_eq_some_iff.1 hruns
  obtain ⟨last, hafter, hfacts⟩ := Option.map_eq_some_iff.1 hrest
  obtain ⟨hseals, hversions⟩ := Prod.mk.inj hfacts
  obtain ⟨hfirst, hsecond⟩ := Prod.mk.inj hversions
  have hquiet : Quiet ⟨"ns", "keys"⟩ (firstRotation ++ secondRotation) := by
    unfold Quiet
    decide
  cases hsealed : ((fleet.cache 0).encrypt "signing" [1, 2, 3] (.ofSeed [])).1 with
  | error failure =>
    rw [hsealed] at hseals
    cases hseals
  | ok envelope =>
    refine ⟨fleet, last, envelope, hbefore, hsealed, hafter, hsecond, ?_⟩
    apply ciphertext_survives hbefore hafter hquiet rfl rfl hsealed
    rw [hfirst, hsecond]
    decide

end Fleet
end Keyring
