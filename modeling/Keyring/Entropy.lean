import Keyring.Crypto.Sha256
/-!
# Entropy

Fresh secrets and nonces come out of a pool. A pool is a seed and a count of the blocks that were
drawn from it: each draw gives new bytes and the pool that is left.
-/
namespace Keyring

/-- A source of fresh bytes. -/
structure Entropy where
  seed : Bytes
  drawn : Nat
  deriving DecidableEq, Repr

namespace Entropy

/-- A pool from which nothing was drawn. -/
def ofSeed (seed : Bytes) : Entropy := ⟨seed, 0⟩

/-- One block of 32 bytes. -/
def block (pool : Entropy) : Bytes :=
  Sha256.digest (pool.seed ++ Bytes.ofNatBE 8 pool.drawn)

def blocks (pool : Entropy) : (count : Nat) → Bytes × Entropy
  | 0 => ([], pool)
  | count + 1 =>
    let (bytes, pool') := blocks { pool with drawn := pool.drawn + 1 } count
    (pool.block ++ bytes, pool')

/-- Fresh bytes of a length. -/
def draw (pool : Entropy) (length : Nat) : Bytes × Entropy :=
  let (bytes, pool) := pool.blocks ((length + 31) / 32)
  (bytes.take length, pool)

theorem length_digest (message : Bytes) : (Sha256.digest message).length = 32 := by
  simp [Sha256.digest]

theorem length_blocks (pool : Entropy) (count : Nat) :
    (pool.blocks count).1.length = 32 * count := by
  induction count generalizing pool with
  | zero => rfl
  | succ count ih => simp [blocks, ih, block, length_digest]; omega

@[simp] theorem length_draw (pool : Entropy) (length : Nat) :
    (pool.draw length).1.length = length := by
  simp [draw, length_blocks]; omega

end Entropy
end Keyring
