import Keyring.Crypto.ChaCha20
/-!
# XChaCha20-Poly1305

Authenticated encryption with a nonce of 24 bytes. The first sixteen bytes of the nonce derive a
key, the rest is the nonce of the stream; block zero of the stream is the key of the authenticator,
the text is encrypted from block one on. A ciphertext ends with its tag of sixteen bytes.
-/
namespace Keyring

namespace Poly1305

/-- The prime modulus, `2 ^ 130 - 5`. -/
def modulus : Nat := 0x3fffffffffffffffffffffffffffffffb

/-- The bits of the multiplier that are kept. -/
def clampMask : Nat := 0x0ffffffc0ffffffc0ffffffc0fffffff

/-- Takes the message, sixteen bytes at a time with a one bit behind them, into the sum. -/
def accumulate (r : Nat) : (blocks sum : Nat) → Bytes → Nat
  | 0, sum, _ => sum
  | blocks + 1, sum, message =>
    let block := Bytes.toNatLE (message.take 16 ++ [1])
    accumulate r blocks ((sum + block) * r % modulus) (message.drop 16)

/-- The tag of a message under a key of 32 bytes. -/
def tag (key message : Bytes) : Bytes :=
  let r := Bytes.toNatLE (key.take 16) &&& clampMask
  let s := Bytes.toNatLE (key.drop 16)
  Bytes.ofNatLE 16 (accumulate r ((message.length + 15) / 16) 0 message + s)

end Poly1305

namespace XChaCha20Poly1305

def keyLength : Nat := 32

def nonceLength : Nat := 24

def tagLength : Nat := 16

def streamKey (key nonce : Bytes) : Bytes :=
  ChaCha20.deriveKey key (nonce.take 16)

def streamNonce (nonce : Bytes) : Bytes :=
  List.replicate 4 0 ++ nonce.drop 16

/-- Zeros up to a multiple of sixteen bytes. -/
def fill (length : Nat) : Bytes :=
  List.replicate ((16 - length % 16) % 16) 0

def tagOf (key nonce encrypted : Bytes) : Bytes :=
  let authenticator := (ChaCha20.block (streamKey key nonce) (streamNonce nonce) 0).take 32
  Poly1305.tag authenticator
    (encrypted ++ fill encrypted.length ++ Bytes.ofNatLE 8 0 ++ Bytes.ofNatLE 8 encrypted.length)

/-- Encrypts or decrypts without a tag. -/
def crypt (key nonce text : Bytes) : Bytes :=
  ChaCha20.apply (streamKey key nonce) (streamNonce nonce) 1 text

/-- The encrypted text followed by its tag. -/
def encrypt (key nonce plaintext : Bytes) : Bytes :=
  let encrypted := crypt key nonce plaintext
  encrypted ++ tagOf key nonce encrypted

/-- The text of a ciphertext whose tag is right. -/
def decrypt? (key nonce ciphertext : Bytes) : Option Bytes :=
  if ciphertext.length < tagLength then none
  else
    let encrypted := ciphertext.take (ciphertext.length - tagLength)
    if ciphertext.drop (ciphertext.length - tagLength) = tagOf key nonce encrypted then
      some (crypt key nonce encrypted)
    else none

end XChaCha20Poly1305
end Keyring
