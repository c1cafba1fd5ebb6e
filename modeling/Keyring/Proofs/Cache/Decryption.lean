import Keyring.Cache
import Keyring.Proofs.KeySet.Lookups
import Keyring.Proofs.StoredForms

/-!
# Decryption with cached key sets

What becomes of bytes that are to be decrypted is decided by the version that they name, and by
nothing else of the set. Exactly the envelopes that this version seals are opened, in whatever JSON
text they are written. A set that is not cached and a version of the other kind are reported; every
other refusal is the same.
-/
namespace Keyring

namespace XChaCha20Poly1305

/-- A ciphertext is accepted exactly if it is what the plaintext is encrypted to. -/
theorem decrypt?_eq_some_iff {key nonce ciphertext plaintext : Bytes} :
    decrypt? key nonce ciphertext = some plaintext ↔ ciphertext = encrypt key nonce plaintext := by
  constructor
  · intro h
    unfold decrypt? at h
    dsimp only at h
    split_ifs at h with hshort htag
    have hcrypt := Option.some.inj h
    have hback : crypt key nonce plaintext = ciphertext.take (ciphertext.length - tagLength) := by
      rw [← hcrypt]
      exact ChaCha20.apply_apply _ _ 1 _
    rw [encrypt, hback, ← htag, List.take_append_drop]
  · rintro rfl
    exact decrypt?_encrypt key nonce plaintext

end XChaCha20Poly1305

/-! ## Texts of envelopes -/

namespace Envelope

/-- The fields of a JSON value say what the fields of the envelope are. The construction is named by
a string, or by the only key of an object with a null behind it. -/
structure SpelledBy (e : Envelope) (fields : Json.Tree.Fields) : Prop where
  method : fields.get? "method" = some (.string (some "xchacha20poly1305")) ∨
    fields.get? "method" = some (.object [(some "xchacha20poly1305", .null)])
  keyId : fields.get? "key_id" = some (.number (some (.int e.keyId.val)))
  nonce : fields.get? "nonce" = some (.string (some (Base64.encode e.nonce)))
  ciphertext : fields.get? "ciphertext" = some (.string (some (Base64.encode e.ciphertext)))

/-- The bytes are a JSON text that says what the envelope is. -/
def WrittenAs (e : Envelope) (bytes : Bytes) : Prop :=
  ∃ tree fields, Json.Tree.parse? bytes = some tree ∧
    tree.fields? ["method", "key_id", "nonce", "ciphertext"] = some fields ∧ e.SpelledBy fields

theorem choice?_method_eq_some_iff {tree : Json.Tree} {method : EncryptionMethod} :
    tree.choice? EncryptionMethod.names = some method ↔
      tree = .string (some "xchacha20poly1305") ∨
        tree = .object [(some "xchacha20poly1305", .null)] := by
  cases method
  constructor
  · intro h
    have hname : ∀ s, ((EncryptionMethod.names.find? fun n => n.1 == s).map Prod.snd) =
        some .xChaCha20Poly1305 → s = "xchacha20poly1305" := by
      intro s hs
      obtain ⟨n, hn, -⟩ := Option.map_eq_some_iff.1 hs
      have hmem := List.mem_of_find?_eq_some hn
      have hsame := List.find?_some hn
      rw [EncryptionMethod.names, List.mem_singleton] at hmem
      rw [hmem, beq_iff_eq] at hsame
      exact hsame.symm
    unfold Json.Tree.choice? at h
    split at h
    next s => exact Or.inl (by rw [hname s h])
    next s => exact Or.inr (by rw [hname s h])
    next => cases h
  · rintro (rfl | rfl) <;> rfl

theorem bounded?_eq_some_iff {tree : Json.Tree} {id : KeyId} :
    tree.bounded? = some id ↔ tree = .number (some (.int id.val)) := by
  constructor
  · intro h
    obtain ⟨z, hz, hid⟩ := Option.bind_eq_some_iff.1 h
    unfold Json.Tree.int? at hz
    split at hz
    next => rw [Option.some.inj hz, Bounded.ofInt?_eq_some_iff.1 hid]
    next => cases hz
  · rintro rfl
    exact Bounded.ofInt?_val id

/-- Bytes are read as an envelope exactly if they are a text of it. -/
theorem ofBytes?_eq_some_iff {bytes : Bytes} {e : Envelope} :
    ofBytes? bytes = some e ↔ e.WrittenAs bytes := by
  constructor
  · intro h
    obtain ⟨tree, htree, hread⟩ := Option.bind_eq_some_iff.1 h
    simp only [ofTree?, Option.bind_eq_bind, Option.bind_eq_some_iff, Option.pure_def,
      Option.some.injEq] at hread
    obtain ⟨fields, hfields, method, hmethod, keyId, hkeyId, nonce, hnonce, ciphertext,
      hciphertext, rfl⟩ := hread
    obtain ⟨m, hm, hmethod⟩ := Option.bind_eq_some_iff.1 hmethod
    obtain ⟨k, hk, hkeyId⟩ := Option.bind_eq_some_iff.1 hkeyId
    obtain ⟨n, hn, hnonce⟩ := Option.bind_eq_some_iff.1 hnonce
    obtain ⟨c, hc, hciphertext⟩ := Option.bind_eq_some_iff.1 hciphertext
    refine ⟨tree, fields, htree, hfields, ?_, ?_, ?_, ?_⟩
    · rw [hm]
      exact (choice?_method_eq_some_iff.1 hmethod).imp (congrArg some) (congrArg some)
    · rw [hk, bounded?_eq_some_iff.1 hkeyId]
    · rw [hn, Json.Tree.base64?_eq_some_iff.1 hnonce]
    · rw [hc, Json.Tree.base64?_eq_some_iff.1 hciphertext]
  · rintro ⟨tree, fields, htree, hfields, hspelled⟩
    have hmethod : fields.required? "method" (Json.Tree.choice? EncryptionMethod.names) =
        some e.method := by
      rcases hspelled.method with h | h
      · rw [Json.Tree.Fields.required?, h]
        exact choice?_method_eq_some_iff.2 (Or.inl rfl)
      · rw [Json.Tree.Fields.required?, h]
        exact choice?_method_eq_some_iff.2 (Or.inr rfl)
    have hkeyId : fields.required? "key_id" Json.Tree.bounded? = some e.keyId := by
      rw [Json.Tree.Fields.required?, hspelled.keyId]
      exact bounded?_eq_some_iff.2 rfl
    have hnonce : fields.required? "nonce" Json.Tree.base64? = some e.nonce := by
      rw [Json.Tree.Fields.required?, hspelled.nonce]
      exact Json.Tree.base64?_eq_some_iff.2 rfl
    have hciphertext : fields.required? "ciphertext" Json.Tree.base64? = some e.ciphertext := by
      rw [Json.Tree.Fields.required?, hspelled.ciphertext]
      exact Json.Tree.base64?_eq_some_iff.2 rfl
    rw [ofBytes?, Json.read?, htree, Option.bind_some]
    simp [ofTree?, hfields, hmethod, hkeyId, hnonce, hciphertext]

/-- One text does not say two things. -/
theorem WrittenAs.unique {bytes : Bytes} {e e' : Envelope} (h : e.WrittenAs bytes)
    (h' : e'.WrittenAs bytes) : e = e' :=
  Option.some.inj ((ofBytes?_eq_some_iff.2 h).symm.trans (ofBytes?_eq_some_iff.2 h'))

end Envelope

/-! ## Versions that open -/

namespace AeadKey

variable {key : AeadKey} {e : Envelope} {plaintext : Bytes}

/-- A key opens the envelopes that it seals, and no others. -/
theorem openEnvelope_eq_ok_iff :
    key.openEnvelope e = .ok plaintext ↔
      e.nonce.length = XChaCha20Poly1305.nonceLength ∧ e = key.sealWith e.nonce plaintext := by
  constructor
  · intro h
    unfold openEnvelope at h
    split at h
    next hfits =>
      split at h
      next found hfound =>
        obtain rfl := Except.ok.inj h
        obtain ⟨method, keyId, nonce, ciphertext⟩ := e
        cases method
        refine ⟨hfits.2, ?_⟩
        rw [sealWith, ← XChaCha20Poly1305.decrypt?_eq_some_iff.1 hfound, ← hfits.1]
      next => cases h
    next => cases h
  · rintro ⟨hnonce, he⟩
    rw [he]
    exact key.openEnvelope_sealWith hnonce plaintext

/-- A key that does not open an envelope does not say why. -/
theorem openEnvelope_eq_error {failure : KeyError} (h : key.openEnvelope e = .error failure) :
    failure = .authenticationFailed := by
  unfold openEnvelope at h
  split at h
  next =>
    split at h
    next => cases h
    next => exact (Except.error.inj h).symm
  next => exact (Except.error.inj h).symm

/-- What a key with the number of the envelope makes of it. -/
theorem openEnvelope_eq (h : e.keyId = key.id) :
    key.openEnvelope e =
      if e.nonce.length = XChaCha20Poly1305.nonceLength then
        (XChaCha20Poly1305.decrypt? key.record.secret e.nonce e.ciphertext).elim
          (.error .authenticationFailed) .ok
      else .error .authenticationFailed := by
  rw [openEnvelope, h]
  by_cases hnonce : e.nonce.length = XChaCha20Poly1305.nonceLength
  · rw [if_pos ⟨rfl, hnonce⟩, if_pos hnonce]
    cases XChaCha20Poly1305.decrypt? key.record.secret e.nonce e.ciphertext <;> rfl
  · rw [if_neg fun hfits => hnonce hfits.2, if_neg hnonce]

end AeadKey

/-! ## Answers -/

namespace Cache

variable {cache : Cache} {name : String} {bytes : Bytes} {e : Envelope} {keySet : KeySet}

theorem decrypt_malformed (h : ∀ e : Envelope, ¬ e.WrittenAs bytes) :
    cache.decrypt name bytes = .error .authenticationFailed := by
  have hnone : Envelope.ofBytes? bytes = none :=
    Option.eq_none_iff_forall_ne_some.2 fun e he => h e (Envelope.ofBytes?_eq_some_iff.1 he)
  rw [decrypt, hnone]

theorem decrypt_uncached (he : e.WrittenAs bytes) (hset : cache.keySets.get? name = none) :
    cache.decrypt name bytes = .error (.notInitialized name) := by
  rw [decrypt, Envelope.ofBytes?_eq_some_iff.2 he, Cache.keySet, hset]
  rfl

/-- With a set that is cached, the version that the envelope names decides. -/
theorem decrypt_cached (he : e.WrittenAs bytes) (hset : cache.keySets.get? name = some keySet) :
    cache.decrypt name bytes =
      (keySet.version? e.keyId).elim (.error .authenticationFailed) fun key =>
        key.asAead.bind fun key => key.openEnvelope e := by
  rw [decrypt, Envelope.ofBytes?_eq_some_iff.2 he, Cache.keySet, hset]
  cases h : keySet.version? e.keyId with
  | none => simp [h, bind, Except.bind]; rfl
  | some key => simp [h, bind, Except.bind]

/-- What a cache answers when bytes are to be decrypted with a named set. -/
structure DecryptsUniformly (cache : Cache) (name : String) (bytes : Bytes) : Prop where
  /-- Bytes that are no envelope are refused, whether the set is cached or not. -/
  malformed : (∀ e : Envelope, ¬ e.WrittenAs bytes) →
    cache.decrypt name bytes = .error .authenticationFailed
  uncached : ∀ e : Envelope, e.WrittenAs bytes →
    (cache.decrypt name bytes = .error (.notInitialized name) ↔ cache.keySets.get? name = none)
  wrongKind : ∀ e keySet, Envelope.WrittenAs e bytes → cache.keySets.get? name = some keySet →
    (cache.decrypt name bytes = .error (.wrongKeyType .symmetricAead .asymmetricSigning) ↔
      ∃ key, keySet.version? e.keyId = some (.signing key))
  opened : ∀ e keySet, Envelope.WrittenAs e bytes → cache.keySets.get? name = some keySet →
    ∀ plaintext, cache.decrypt name bytes = .ok plaintext ↔
      ∃ key, keySet.version? e.keyId = some (.aead key) ∧
        e.nonce.length = XChaCha20Poly1305.nonceLength ∧
        XChaCha20Poly1305.decrypt? key.record.secret e.nonce e.ciphertext = some plaintext
  refused : ∀ e keySet, Envelope.WrittenAs e bytes → cache.keySets.get? name = some keySet →
    (cache.decrypt name bytes = .error .authenticationFailed ↔
      keySet.version? e.keyId = none ∨ ∃ key, keySet.version? e.keyId = some (.aead key) ∧
        (e.nonce.length ≠ XChaCha20Poly1305.nonceLength ∨
          XChaCha20Poly1305.decrypt? key.record.secret e.nonce e.ciphertext = none))
  /-- There are no other failures. -/
  failures : ∀ failure, cache.decrypt name bytes = .error failure →
    failure = .authenticationFailed ∨ failure = .notInitialized name ∨
      failure = .wrongKeyType .symmetricAead .asymmetricSigning
  /-- What is opened is what some version of the set seals, in some text. -/
  genuine : ∀ plaintext, cache.decrypt name bytes = .ok plaintext ↔
    ∃ keySet key nonce, cache.keySets.get? name = some keySet ∧
      keySet.version? key.id = some (.aead key) ∧
      nonce.length = XChaCha20Poly1305.nonceLength ∧
      (key.sealWith nonce plaintext).WrittenAs bytes

/-- The three ways in which the version that an envelope names decides. -/
theorem decrypt_cached_cases (he : e.WrittenAs bytes)
    (hset : cache.keySets.get? name = some keySet) :
    (keySet.version? e.keyId = none ∧
        cache.decrypt name bytes = .error .authenticationFailed) ∨
      (∃ key, keySet.version? e.keyId = some (.signing key) ∧
        cache.decrypt name bytes =
          .error (.wrongKeyType .symmetricAead .asymmetricSigning)) ∨
      ∃ key, keySet.version? e.keyId = some (.aead key) ∧ key.id = e.keyId ∧
        cache.decrypt name bytes = key.openEnvelope e := by
  rw [decrypt_cached he hset]
  cases hversion : keySet.version? e.keyId with
  | none => exact Or.inl ⟨rfl, rfl⟩
  | some key =>
    cases key with
    | signing key => exact Or.inr (Or.inl ⟨key, rfl, rfl⟩)
    | aead key =>
      have hid : key.id = e.keyId := KeySet.id_of_version? hversion
      exact Or.inr (Or.inr ⟨key, rfl, hid, rfl⟩)

theorem decrypt_eq_ok_cases {plaintext : Bytes} (h : cache.decrypt name bytes = .ok plaintext) :
    ∃ e keySet key, Envelope.WrittenAs e bytes ∧ cache.keySets.get? name = some keySet ∧
      keySet.version? e.keyId = some (.aead key) ∧ key.openEnvelope e = .ok plaintext := by
  by_cases hwritten : ∃ e : Envelope, e.WrittenAs bytes
  · obtain ⟨e, he⟩ := hwritten
    cases hset : cache.keySets.get? name with
    | none => cases (decrypt_uncached he hset).symm.trans h
    | some keySet =>
      rcases decrypt_cached_cases he hset with ⟨-, hfailed⟩ | ⟨key, -, hfailed⟩ |
        ⟨key, hversion, -, hopened⟩
      · cases hfailed.symm.trans h
      · cases hfailed.symm.trans h
      · exact ⟨e, keySet, key, he, rfl, hversion, hopened.symm.trans h⟩
  · cases (decrypt_malformed (not_exists.1 hwritten)).symm.trans h

theorem decryptsUniformly (cache : Cache) (name : String) (bytes : Bytes) :
    cache.DecryptsUniformly name bytes where
  malformed := decrypt_malformed
  uncached e he := by
    constructor
    · intro h
      by_contra hcached
      obtain ⟨keySet, hset⟩ := Option.ne_none_iff_exists'.1 hcached
      rcases decrypt_cached_cases he hset with ⟨-, hanswer⟩ | ⟨key, -, hanswer⟩ |
        ⟨key, -, -, hanswer⟩
      · cases hanswer.symm.trans h
      · cases hanswer.symm.trans h
      · cases AeadKey.openEnvelope_eq_error (hanswer.symm.trans h)
    · exact decrypt_uncached he
  wrongKind e keySet he hset := by
    rcases decrypt_cached_cases he hset with ⟨hversion, hanswer⟩ | ⟨key, hversion, hanswer⟩ |
      ⟨key, hversion, -, hanswer⟩
    · simp [hversion, hanswer]
    · simp [hversion, hanswer]
    · rw [hversion, hanswer]
      refine ⟨fun h => ?_, fun ⟨other, hother⟩ => by cases hother⟩
      cases AeadKey.openEnvelope_eq_error h
  opened e keySet he hset plaintext := by
    rcases decrypt_cached_cases he hset with ⟨hversion, hanswer⟩ | ⟨key, hversion, hanswer⟩ |
      ⟨key, hversion, hid, hanswer⟩
    · simp [hversion, hanswer]
    · simp [hversion, hanswer]
    · rw [hversion, hanswer, AeadKey.openEnvelope_eq hid.symm]
      split
      next hnonce =>
        cases hplain : XChaCha20Poly1305.decrypt? key.record.secret e.nonce e.ciphertext <;>
          simp [hnonce, hplain]
      next hnonce => simp [hnonce]
  refused e keySet he hset := by
    rcases decrypt_cached_cases he hset with ⟨hversion, hanswer⟩ | ⟨key, hversion, hanswer⟩ |
      ⟨key, hversion, hid, hanswer⟩
    · simp [hversion, hanswer]
    · simp [hversion, hanswer]
    · rw [hversion, hanswer, AeadKey.openEnvelope_eq hid.symm]
      split
      next hnonce =>
        cases hplain : XChaCha20Poly1305.decrypt? key.record.secret e.nonce e.ciphertext <;>
          simp [hnonce, hplain]
      next hnonce => simp [hnonce]
  failures failure h := by
    by_cases hwritten : ∃ e : Envelope, e.WrittenAs bytes
    · obtain ⟨e, he⟩ := hwritten
      cases hset : cache.keySets.get? name with
      | none => exact Or.inr (Or.inl (Except.error.inj (h.symm.trans (decrypt_uncached he hset))))
      | some keySet =>
        rcases decrypt_cached_cases he hset with ⟨-, hanswer⟩ | ⟨key, -, hanswer⟩ |
          ⟨key, -, -, hanswer⟩
        · exact Or.inl (Except.error.inj (h.symm.trans hanswer))
        · exact Or.inr (Or.inr (Except.error.inj (h.symm.trans hanswer)))
        · exact Or.inl (AeadKey.openEnvelope_eq_error (hanswer.symm.trans h))
    · exact Or.inl (Except.error.inj (h.symm.trans (decrypt_malformed (not_exists.1 hwritten))))
  genuine plaintext := by
    constructor
    · intro h
      obtain ⟨e, keySet, key, he, hset, hversion, hopened⟩ := decrypt_eq_ok_cases h
      obtain ⟨hnonce, hsealed⟩ := AeadKey.openEnvelope_eq_ok_iff.1 hopened
      have hid : key.id = e.keyId := KeySet.id_of_version? hversion
      exact ⟨keySet, key, e.nonce, hset, hid ▸ hversion, hnonce, hsealed ▸ he⟩
    · rintro ⟨keySet, key, nonce, hset, hversion, hnonce, he⟩
      rw [decrypt_cached he hset]
      have hopened := key.openEnvelope_sealWith hnonce plaintext
      have hnamed : keySet.version? (key.sealWith nonce plaintext).keyId = some (.aead key) :=
        hversion
      rw [hnamed]
      exact hopened

/-- Whatever is to be decrypted, the version that it names decides with the cipher, and all refusals
that are not about the set or the kind of the version are one. Two caches that hold the set and
agree on that version give the same answer, whatever else they hold. -/
theorem decryption_uniform (bytes : Bytes) :
    (∀ (cache : Cache) (name : String), cache.DecryptsUniformly name bytes) ∧
      ∀ (cache cache' : Cache) (name : String) (keySet keySet' : KeySet),
        cache.keySets.get? name = some keySet → cache'.keySets.get? name = some keySet' →
        (∀ e : Envelope, e.WrittenAs bytes →
          (keySet.version? e.keyId).map Key.record = (keySet'.version? e.keyId).map Key.record) →
        cache.decrypt name bytes = cache'.decrypt name bytes := by
  refine ⟨fun cache name => cache.decryptsUniformly name bytes, ?_⟩
  intro cache cache' name keySet keySet' hset hset' hagree
  by_cases hwritten : ∃ e : Envelope, e.WrittenAs bytes
  · obtain ⟨e, he⟩ := hwritten
    have hsame : keySet.version? e.keyId = keySet'.version? e.keyId :=
      Option.map_injective (fun _ _ => Key.ext_record) (hagree e he)
    rw [decrypt_cached he hset, decrypt_cached he hset', hsame]
  · rw [decrypt_malformed (not_exists.1 hwritten), decrypt_malformed (not_exists.1 hwritten)]

/-- The zeros as the encryption key of a version. -/
def zerosKey (id : KeyId) : AeadKey := ⟨{ KeyRecord.zeros with id }, rfl, rfl⟩

def holding (name : String) (keySet : KeySet) : Cache := ⟨1, SortedMap.empty.insert name keySet⟩

/-- A set with its first version. -/
def beforeRotation : KeySet := (KeySet.withoutVersions .first).add (.aead (zerosKey .first))

/-- The set with a second version, which is active. -/
def afterRotation : KeySet :=
  { beforeRotation with activeId := ⟨2, by decide, by decide⟩ }.add
    (.aead (zerosKey ⟨2, by decide, by decide⟩))

/-- What the first version has sealed is opened before a rotation and after it. -/
theorem decryption_uniform_rotated :
    ∃ bytes : Bytes,
      (holding "s" beforeRotation).keySets.get? "s" = some beforeRotation ∧
      (holding "s" afterRotation).keySets.get? "s" = some afterRotation ∧
      beforeRotation.activeId ≠ afterRotation.activeId ∧
      (∀ e : Envelope, e.WrittenAs bytes →
        (beforeRotation.version? e.keyId).map Key.record =
          (afterRotation.version? e.keyId).map Key.record) ∧
      (holding "s" beforeRotation).decrypt "s" bytes = .ok [1, 2, 3] ∧
      (holding "s" afterRotation).decrypt "s" bytes = .ok [1, 2, 3] := by
  obtain ⟨envelope, henvelope⟩ :
      ∃ e, e = (zerosKey .first).sealWith (List.replicate 24 0) [1, 2, 3] := ⟨_, rfl⟩
  have hset : (holding "s" beforeRotation).keySets.get? "s" = some beforeRotation :=
    SortedMap.get?_insert_self _ _ _
  have hset' : (holding "s" afterRotation).keySets.get? "s" = some afterRotation :=
    SortedMap.get?_insert_self _ _ _
  have hactive : beforeRotation.activeId ≠ afterRotation.activeId := by decide
  have hwritten : envelope.WrittenAs envelope.toBytes :=
    Envelope.ofBytes?_eq_some_iff.1 envelope.ofBytes?_toBytes
  have hagree : ∀ e : Envelope, e.WrittenAs envelope.toBytes →
      (beforeRotation.version? e.keyId).map Key.record =
        (afterRotation.version? e.keyId).map Key.record := by
    intro e he
    rw [he.unique hwritten, henvelope]
    rfl
  obtain ⟨hanswers, hsame⟩ := decryption_uniform envelope.toBytes
  have hopened : (holding "s" beforeRotation).decrypt "s" envelope.toBytes = .ok [1, 2, 3] := by
    refine ((hanswers _ _).genuine _).2
      ⟨beforeRotation, zerosKey .first, List.replicate 24 0, hset, rfl, rfl, ?_⟩
    rw [← henvelope]
    exact hwritten
  exact ⟨envelope.toBytes, hset, hset', hactive, hagree, hopened,
    (hsame _ _ _ _ _ hset hset' hagree).symm.trans hopened⟩

end Cache
end Keyring
