import Keyring.Crypto.Der
import Keyring.Crypto.Modular
import Keyring.Crypto.Sha256
/-!
# RSA signatures

Signatures with the padding of PKCS#1 version 1.5 over SHA-256. A private key is accepted when its
factors make up the modulus and its exponents undo each other modulo each factor less one; whether
the factors are prime is not tested. A signature is handed out only after the public exponent has
turned it back into the padded digest, so a key with composite factors may fail to sign but never
signs wrongly.
-/
namespace Keyring.Rsa

def bitLength (n : Nat) : Nat :=
  if n = 0 then 0 else n.log2 + 1

/-- The greatest public exponent: it fits into 33 bits. -/
def maxExponent : Nat := 8589934591

structure PublicKey where
  modulus : Nat
  exponent : Nat
  deriving DecidableEq, Repr

namespace PublicKey

/-- The length of a signature in bytes. -/
def size (k : PublicKey) : Nat := (bitLength k.modulus + 7) / 8

/-- The length of a signature in bits. -/
def bits (k : PublicKey) : Nat := 8 * k.size

/-- Raises a number to the public exponent. -/
def raise (k : PublicKey) (m : Nat) : Nat := Modular.power k.modulus m k.exponent

end PublicKey

/-- The numbers of a private key. -/
structure Components where
  modulus : Nat
  exponent : Nat
  secretExponent : Nat
  p : Nat
  q : Nat
  deriving DecidableEq, Repr

/-- What the numbers of a private key have to satisfy. -/
structure Components.Valid (c : Components) : Prop where
  exponent_lt : c.exponent < c.modulus
  modulus_odd : c.modulus % 2 = 1
  exponent_odd : c.exponent % 2 = 1
  exponent_gt : 1 < c.exponent
  exponent_le : c.exponent ≤ maxExponent
  p_gt : 1 < c.p
  q_gt : 1 < c.q
  factors : c.p * c.q = c.modulus
  inverse_p : c.exponent * c.secretExponent % (c.p - 1) = 1
  inverse_q : c.exponent * c.secretExponent % (c.q - 1) = 1

/-- The conditions of validity as one conjunction. -/
theorem Components.valid_iff (c : Components) : c.Valid ↔
    c.exponent < c.modulus ∧ c.modulus % 2 = 1 ∧ c.exponent % 2 = 1 ∧ 1 < c.exponent ∧
      c.exponent ≤ maxExponent ∧ 1 < c.p ∧ 1 < c.q ∧ c.p * c.q = c.modulus ∧
      c.exponent * c.secretExponent % (c.p - 1) = 1 ∧
      c.exponent * c.secretExponent % (c.q - 1) = 1 :=
  ⟨fun ⟨a, b, c, d, e, f, g, h, i, j⟩ => ⟨a, b, c, d, e, f, g, h, i, j⟩,
    fun ⟨a, b, c, d, e, f, g, h, i, j⟩ => ⟨a, b, c, d, e, f, g, h, i, j⟩⟩

instance (c : Components) : Decidable c.Valid :=
  decidable_of_iff _ c.valid_iff.symm

structure PrivateKey extends Components where
  valid : toComponents.Valid
  deriving DecidableEq, Repr

namespace PrivateKey

/-- The key of the numbers, if they are valid. -/
def ofComponents? (c : Components) : Option PrivateKey :=
  if h : c.Valid then some ⟨c, h⟩ else none

/-- Reads a private key. The remainders and the coefficient that are stored behind the factors are
not used: they follow from the other numbers. -/
def ofDer? (bytes : Bytes) : Option PrivateKey :=
  match Der.naturals? 9 bytes with
  | some [0, modulus, exponent, secretExponent, p, q, _, _, _] =>
    ofComponents? ⟨modulus, exponent, secretExponent, p, q⟩
  | _ => none

def toDer (k : PrivateKey) : Bytes :=
  Der.naturals [0, k.modulus, k.exponent, k.secretExponent, k.p, k.q,
    k.secretExponent % (k.p - 1), k.secretExponent % (k.q - 1), (Modular.inverse? k.p k.q).getD 0]

def publicKey (k : PrivateKey) : PublicKey := ⟨k.modulus, k.exponent⟩

/-- Raises a number to the secret exponent: modulo each factor, and put together, where the factors
have no divisor in common. -/
def lower (k : PrivateKey) (c : Nat) : Nat :=
  match Modular.inverse? k.p k.q with
  | some coefficient =>
    let atP := Modular.power k.p c (k.secretExponent % (k.p - 1))
    let atQ := Modular.power k.q c (k.secretExponent % (k.q - 1))
    let quotient := ((atP : Int) - atQ) * coefficient % k.p
    quotient.toNat * k.q + atQ
  | none => Modular.power k.modulus c k.secretExponent

end PrivateKey

/-- What stands before the digest to name its algorithm. -/
def digestHeader : Bytes :=
  [0x30, 0x31, 0x30, 0x0d, 0x06, 0x09, 0x60, 0x86, 0x48, 0x01, 0x65, 0x03, 0x04, 0x02, 0x01, 0x05,
    0x00, 0x04, 0x20]

/-- The digest of a message, filled up to a length; none if fewer than eight bytes would be left
for the filling. -/
def padded? (size : Nat) (message : Bytes) : Option Bytes :=
  let info := digestHeader ++ Sha256.digest message
  if size < info.length + 11 then none
  else some (0 :: 1 :: List.replicate (size - info.length - 3) 0xff ++ 0 :: info)

inductive SigningFailure
  /-- The modulus is too small for a digest. -/
  | tooLong
  /-- The result did not turn back into the digest. -/
  | inconsistent
  deriving DecidableEq, Repr

/-- The reason for which a key could not sign. -/
def SigningFailure.message : SigningFailure → String
  | .tooLong => "message too long"
  | .inconsistent => "internal error"

/-- Whether a signature is one of the message. Only one of the right length is read as a number. -/
def PublicKey.verify (k : PublicKey) (message signature : Bytes) : Bool :=
  match padded? k.size message with
  | some expected =>
    if signature.length = k.size then
      let s := Bytes.toNatBE signature
      decide (s < k.modulus) && Bytes.ofNatBE k.size (k.raise s) == expected
    else false
  | none => false

def PrivateKey.sign (k : PrivateKey) (message : Bytes) : Except SigningFailure Bytes :=
  match padded? k.publicKey.size message with
  | none => .error .tooLong
  | some padded =>
    let c := Bytes.toNatBE padded
    let s := k.lower c
    if k.publicKey.raise s = c then .ok (Bytes.ofNatBE k.publicKey.size s) else .error .inconsistent

end Keyring.Rsa
