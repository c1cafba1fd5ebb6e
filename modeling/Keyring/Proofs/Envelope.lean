import Keyring.Key.Aead
import Keyring.Proofs.Crypto.Sealing
import Keyring.Proofs.KeySet.StoredForm

/-!
# Opening envelopes

The sent bytes of an envelope are read as the envelope, and the key that has sealed it opens it.
-/
namespace Keyring

/-- The sent bytes are read as the envelope. -/
theorem Envelope.ofBytes?_toBytes (e : Envelope) : ofBytes? e.toBytes = some e := by
  have hkeyId := KeyRecord.isWord_bounded (by decide) (by decide) e.keyId
  have hstorable : e.toJson.Storable := ⟨trivial, hkeyId, trivial, trivial, trivial⟩
  obtain ⟨fields, hfields⟩ : ∃ fields : Json.Tree.Fields, fields = ⟨true,
      [("method", (Json.string "xchacha20poly1305").toTree),
        ("key_id", (Json.int e.keyId.val).toTree), ("nonce", (Json.base64 e.nonce).toTree),
        ("ciphertext", (Json.base64 e.ciphertext).toTree)]⟩ := ⟨_, rfl⟩
  have hread : e.toJson.reread.toTree.fields? ["method", "key_id", "nonce", "ciphertext"] =
      some fields := by
    rw [hfields]
    rfl
  have hmethod : fields.required? "method" (Json.Tree.choice? EncryptionMethod.names) =
      some e.method := by
    rw [hfields]
    rfl
  have hid : fields.required? "key_id" Json.Tree.bounded? = some e.keyId := by
    rw [hfields]
    exact Bounded.ofInt?_val e.keyId
  have hnonce : fields.required? "nonce" Json.Tree.base64? = some e.nonce := by
    rw [hfields]
    exact Base64.decode?_encode e.nonce
  have hciphertext : fields.required? "ciphertext" Json.Tree.base64? = some e.ciphertext := by
    rw [hfields]
    exact Base64.decode?_encode e.ciphertext
  rw [ofBytes?, Json.read?, toBytes, Json.parse?_render hstorable, Option.bind_some]
  simp [ofTree?, hread, hmethod, hid, hnonce, hciphertext]

namespace AeadKey

theorem openEnvelope_sealWith (k : AeadKey) {nonce : Bytes}
    (h : nonce.length = XChaCha20Poly1305.nonceLength) (plaintext : Bytes) :
    k.openEnvelope (k.sealWith nonce plaintext) = .ok plaintext := by
  rw [openEnvelope, if_pos ⟨rfl, h⟩]
  simp only [sealWith, XChaCha20Poly1305.decrypt?_encrypt]

/-- A key opens what it has sealed. -/
theorem openEnvelope_sealFresh (k : AeadKey) (plaintext : Bytes) (pool : Entropy) :
    k.openEnvelope (k.sealFresh plaintext pool).1 = .ok plaintext :=
  k.openEnvelope_sealWith (pool.length_draw _) plaintext

theorem keyId_sealFresh (k : AeadKey) (plaintext : Bytes) (pool : Entropy) :
    (k.sealFresh plaintext pool).1.keyId = k.id := rfl

end AeadKey
end Keyring
