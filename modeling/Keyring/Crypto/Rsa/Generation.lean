import Keyring.Crypto.Rsa
import Keyring.Entropy
/-!
# New RSA keys

Two likely primes of half the size of the modulus are drawn, with their first two binary digits set
so that the product has its full size. The public exponent is always the same. Each search is
bounded, so generation may fail, though only with a pool that is no source of chance.
-/
namespace Keyring.Rsa

def minModulusBits : Nat := 2048

/-- The public exponent of new keys. -/
def commonExponent : Nat := 65537

def testBases : List Nat := Modular.smallPrimes.take 20

/-- A number with that many binary digits, odd and with its first two digits set. -/
def candidate (bits : Nat) (pool : Entropy) : Nat × Entropy :=
  let (bytes, pool) := pool.draw ((bits + 7) / 8)
  (Bytes.toNatBE bytes % Nat.pow 2 bits ||| 3 * Nat.pow 2 (bits - 2) ||| 1, pool)

/-- The first likely prime among that many candidates whose predecessor has no divisor in common
with the public exponent. -/
def prime? (bits : Nat) : (tries : Nat) → Entropy → Option Nat × Entropy
  | 0, pool => (none, pool)
  | tries + 1, pool =>
    let (n, pool) := candidate bits pool
    if (n - 1) % commonExponent ≠ 0 ∧ Modular.isLikelyPrime testBases n then (some n, pool)
    else prime? bits tries pool

inductive GenerationFailure
  /-- No two primes were found. -/
  | tooFewPrimes
  deriving DecidableEq, Repr

def GenerationFailure.message : GenerationFailure → String
  | .tooFewPrimes => "too few primes of given length to generate an RSA key"

def PrivateKey.ofPrimes? (p q : Nat) : Option PrivateKey := do
  let secretExponent ← Modular.inverse? ((p - 1) * (q - 1)) commonExponent
  ofComponents? ⟨p * q, commonExponent, secretExponent, p, q⟩

/-- A new key with a modulus of a size. -/
def PrivateKey.generate (bits : Nat) (pool : Entropy) :
    Except GenerationFailure PrivateKey × Entropy :=
  let (p?, pool) := prime? (bits / 2) 20000 pool
  let (q?, pool) := prime? (bits - bits / 2) 20000 pool
  match p?, q? with
  | some p, some q =>
    match ofPrimes? p q with
    | some k => (.ok k, pool)
    | none => (.error .tooFewPrimes, pool)
  | _, _ => (.error .tooFewPrimes, pool)

end Keyring.Rsa
