import Keyring.Crypto.Aes256
/-!
# AES-256 in Galois counter mode

Authenticated encryption with a nonce of twelve bytes. The key stream encrypts counters from two on;
the tag is a polynomial hash of the encrypted text under the encrypted zero block, masked with the
encryption of counter one. A ciphertext ends with its tag of sixteen bytes.
-/
namespace Keyring.Gcm

/-- An element of the field of `2 ^ 128` elements: the first eight bytes and the last eight. -/
structure Element where
  high : UInt64
  low : UInt64

namespace Element

def zero : Element := ⟨0, 0⟩

def add (x y : Element) : Element := ⟨x.high ^^^ y.high, x.low ^^^ y.low⟩

/-- Multiplies by the generator: the last bit that falls out returns as the reduction. -/
def shift (x : Element) : Element :=
  let out := x.low &&& 1
  let high := x.high >>> 1
  let low := (x.low >>> 1) ||| (x.high <<< 63)
  ⟨if out == 1 then high ^^^ 0xe100000000000000 else high, low⟩

/-- Adds the multiples of `y` for the bits of a word, from its first bit on. -/
def mulBits (word : UInt64) : (left : Nat) → Element × Element → Element × Element
  | 0, sums => sums
  | left + 1, (sum, y) =>
    let bit := (word >>> UInt64.ofNat left) &&& 1
    mulBits word left (if bit == 1 then sum.add y else sum, y.shift)

def mul (x y : Element) : Element :=
  (mulBits x.low 64 (mulBits x.high 64 (zero, y))).1

/-- The element of sixteen bytes; missing ones count as zero. -/
def ofBytes (bytes : Bytes) : Element :=
  let full := bytes ++ List.replicate (16 - bytes.length) 0
  ⟨UInt64.ofNat (Bytes.toNatBE (full.take 8)), UInt64.ofNat (Bytes.toNatBE (full.drop 8))⟩

/-- The sixteen bytes of an element. -/
def toBytes (x : Element) : Bytes :=
  Bytes.ofNatBE 8 x.high.toNat ++ Bytes.ofNatBE 8 x.low.toNat

end Element

/-- Takes a text into the hash, sixteen bytes at a time. -/
def hashBlocks (h : Element) : (blocks : Nat) → Element → Bytes → Element
  | 0, sum, _ => sum
  | blocks + 1, sum, text =>
    hashBlocks h blocks ((sum.add (.ofBytes (text.take 16))).mul h) (text.drop 16)

def nonceLength : Nat := 12

def tagLength : Nat := 16

def counterBlock (nonce : Bytes) (counter : Nat) : Bytes :=
  nonce ++ Bytes.ofNatBE 4 counter

/-- The text under the key stream from a counter on; `blocks` bounds the blocks that are used. -/
def applyBlocks (keys : List Bytes) (nonce : Bytes) : (blocks counter : Nat) → Bytes → Bytes
  | 0, _, _ => []
  | blocks + 1, counter, text =>
    Bytes.xor (text.take 16) (Aes256.encryptWith keys (counterBlock nonce counter)) ++
      applyBlocks keys nonce blocks (counter + 1) (text.drop 16)

/-- Encrypts or decrypts without a tag. -/
def crypt (key nonce text : Bytes) : Bytes :=
  applyBlocks (Aes256.roundKeys key) nonce ((text.length + 15) / 16) 2 text

def tagOf (key nonce encrypted : Bytes) : Bytes :=
  let keys := Aes256.roundKeys key
  let h := Element.ofBytes (Aes256.encryptWith keys (List.replicate 16 0))
  let sum := hashBlocks h ((encrypted.length + 15) / 16) .zero encrypted
  let lengths : Element := ⟨0, UInt64.ofNat (8 * encrypted.length)⟩
  Bytes.xor (((sum.add lengths).mul h).toBytes) (Aes256.encryptWith keys (counterBlock nonce 1))

/-- The encrypted text followed by its tag. -/
def encrypt (key nonce plaintext : Bytes) : Bytes :=
  let encrypted := crypt key nonce plaintext
  encrypted ++ tagOf key nonce encrypted

/-- The text of a ciphertext whose tag is right. -/
def decrypt? (key nonce ciphertext : Bytes) : Option Bytes :=
  if ciphertext.length < tagLength then none
  else
    let encrypted := ciphertext.take (ciphertext.length - tagLength)
    if ciphertext.drop (ciphertext.length - tagLength) = tagOf key nonce encrypted then
      some (crypt key nonce encrypted)
    else none

end Keyring.Gcm
