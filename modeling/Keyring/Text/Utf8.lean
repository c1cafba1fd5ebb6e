import Keyring.Bytes
/-!
# UTF-8

Texts as byte strings. `decode?` accepts exactly the well-formed sequences: no overlong form, no
surrogate, nothing above `U+10FFFF`, so that it is the inverse of `encode`.
-/
namespace Keyring.Utf8

def encode (text : String) : Bytes :=
  text.toByteArray.data.toList

def decode? (bytes : Bytes) : Option String :=
  String.fromUTF8? ⟨bytes.toArray⟩

@[simp] theorem decode?_encode (text : String) : decode? (encode text) = some text := by
  have same : (⟨(encode text).toArray⟩ : ByteArray) = text.toByteArray := by simp [encode]
  unfold decode? String.fromUTF8?
  rw [same]
  exact dif_pos text.isValidUTF8

end Keyring.Utf8
