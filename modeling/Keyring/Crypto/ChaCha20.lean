import Keyring.Bytes
/-!
# ChaCha20

The block function works on sixteen words of 32 bits: four constants, eight words of the key, a
counter and three words of the nonce. Its output is the key stream. Without the counter and without
the final addition it derives a key from a longer nonce.
-/
namespace Keyring.ChaCha20

/-- The sixteen words of a block. -/
abbrev Words := Vector UInt32 16

def rotateLeft (x : UInt32) (n : UInt32) : UInt32 :=
  (x <<< n) ||| (x >>> (32 - n))

/-- The quarter round on four places. -/
def quarterRound (w : Words) (i j k l : Fin 16) : Words :=
  let a := w[i] + w[j]
  let d := rotateLeft (w[l] ^^^ a) 16
  let c := w[k] + d
  let b := rotateLeft (w[j] ^^^ c) 12
  let a := a + b
  let d := rotateLeft (d ^^^ a) 8
  let c := c + d
  let b := rotateLeft (b ^^^ c) 7
  (((w.set i a).set j b).set k c).set l d

/-- A round on the columns and a round on the diagonals. -/
def doubleRound (w : Words) : Words :=
  let w := quarterRound w 0 4 8 12
  let w := quarterRound w 1 5 9 13
  let w := quarterRound w 2 6 10 14
  let w := quarterRound w 3 7 11 15
  let w := quarterRound w 0 5 10 15
  let w := quarterRound w 1 6 11 12
  let w := quarterRound w 2 7 8 13
  quarterRound w 3 4 9 14

/-- Ten double rounds. -/
def permute (w : Words) : Words :=
  (List.range 10).foldl (fun w _ => doubleRound w) w

/-- The word at a place of a byte string, least significant byte first. -/
def wordAt (bytes : Bytes) (i : Nat) : UInt32 :=
  UInt32.ofNat (Bytes.toNatLE ((bytes.drop (4 * i)).take 4))

/-- The words of a block: the constants, then the key and sixteen bytes of counter and nonce. -/
def setup (key tail : Bytes) : Words :=
  let bytes := Bytes.ofAscii "expand 32-byte k" ++ key ++ tail
  Vector.ofFn fun i => wordAt bytes i.val

/-- The bytes of words, least significant byte first. -/
def bytesOf (w : List UInt32) : Bytes :=
  w.flatMap fun x => Bytes.ofNatLE 4 x.toNat

/-- The key stream block of a counter and a nonce of twelve bytes. -/
def block (key nonce : Bytes) (counter : Nat) : Bytes :=
  let start := setup key (Bytes.ofNatLE 4 counter ++ nonce)
  bytesOf (Vector.zipWith (· + ·) start (permute start)).toList

/-- The key that a long nonce's first sixteen bytes derive. -/
def deriveKey (key head : Bytes) : Bytes :=
  let w := (permute (setup key head)).toList
  bytesOf (w.take 4 ++ w.drop 12)

/-- The text under the key stream from a counter on; `blocks` bounds the blocks that are used. -/
def applyBlocks (key nonce : Bytes) : (blocks counter : Nat) → Bytes → Bytes
  | 0, _, _ => []
  | blocks + 1, counter, text =>
    Bytes.xor (text.take 64) (block key nonce counter) ++
      applyBlocks key nonce blocks (counter + 1) (text.drop 64)

/-- Encrypts or decrypts a text with the key stream from a counter on. -/
def apply (key nonce : Bytes) (counter : Nat) (text : Bytes) : Bytes :=
  applyBlocks key nonce ((text.length + 63) / 64) counter text

end Keyring.ChaCha20
