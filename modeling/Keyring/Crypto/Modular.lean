/-!
# Arithmetic with a modulus

Powers by repeated squaring, the inverse from the extended Euclidean algorithm, and the strong test
that tells primes from composite numbers.
-/
namespace Keyring.Modular

/-- The power `base ^ exponent` modulo `m`, from the binary digits of the exponent. -/
def power (m base exponent : Nat) : Nat :=
  if h : exponent = 0 then 1 % m
  else
    let rest := power m (base * base % m) (exponent / 2)
    if exponent % 2 = 1 then base * rest % m else rest
termination_by exponent
decreasing_by omega

/-- Only the residue of the power matters. -/
theorem power_eq (m base exponent : Nat) : power m base exponent = Nat.pow base exponent % m := by
  rw [Nat.pow_eq]
  induction exponent using Nat.strongRecOn generalizing base with
  | ind exponent ih =>
    unfold power
    split
    next h => simp [h]
    next h =>
      have half : power m (base * base % m) (exponent / 2) = base ^ (2 * (exponent / 2)) % m := by
        rw [ih _ (by omega), ← Nat.pow_mod, ← Nat.pow_two, ← Nat.pow_mul]
      simp only [half]
      split
      next odd =>
        rw [Nat.mul_mod, Nat.mod_mod, ← Nat.mul_mod, Nat.mul_comm, ← Nat.pow_succ]
        congr 2
        omega
      next even =>
        congr 2
        omega

/-- The greatest common divisor of `a` and `b` and the combination of `x` and `y` that belongs to
it, when `x` belongs to `a` and `y` to `b`. -/
def bezout : (a b : Nat) → (x y : Int) → Nat × Int
  | a, 0, x, _ => (a, x)
  | a, b + 1, x, y => bezout (b + 1) (a % (b + 1)) y (x - a / (b + 1) * y)
termination_by _ b => b
decreasing_by exact Nat.mod_lt _ (Nat.succ_pos _)

/-- The residue that times `a` gives one, if `a` has no divisor in common with the modulus. -/
def inverse? (m a : Nat) : Option Nat :=
  let (divisor, x) := bezout (a % m) m 1 0
  if divisor = 1 then some (x % m).toNat else none

/-! ## Primes -/

/-- Takes the factors of two out of a number: their count and the odd rest. -/
def oddPart (n : Nat) : Nat × Nat :=
  if _h : n ≠ 0 ∧ n % 2 = 0 then
    let (twos, rest) := oddPart (n / 2)
    (twos + 1, rest)
  else (0, n)
termination_by n
decreasing_by omega

/-- Whether a residue is `n - 1`, or becomes it by fewer than `squarings` squarings. -/
def reachesLast (n : Nat) : (squarings : Nat) → Nat → Bool
  | 0, _ => false
  | squarings + 1, x => x == n - 1 || reachesLast n squarings (x * x % n)

/-- The strong test of an odd number with one base. -/
def passes (n base : Nat) : Bool :=
  let (twos, rest) := oddPart (n - 1)
  let x := power n base rest
  x == 1 || reachesLast n twos x

/-- Divisors that sort out most composite numbers at once. -/
def smallPrimes : List Nat :=
  [3, 5, 7, 11, 13, 17, 19, 23, 29, 31, 37, 41, 43, 47, 53, 59, 61, 67, 71, 73, 79, 83, 89, 97]

/-- Whether an odd number above 100 passes the test with every base. -/
def isLikelyPrime (bases : List Nat) (n : Nat) : Bool :=
  smallPrimes.all (fun p => n % p ≠ 0) && bases.all (passes n)

end Keyring.Modular
