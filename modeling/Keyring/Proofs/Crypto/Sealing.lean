import Keyring.Crypto.Gcm
import Keyring.Crypto.XChaCha20Poly1305
import Mathlib.Data.Nat.Notation
import Mathlib.Tactic.Common

/-!
# Opening what was sealed

Both ciphers add a key stream to a text, block by block, so a second pass restores the text as long
as no block of the stream is shorter than its piece of the text. The tag at the end of a ciphertext
has a fixed length, so it is found again and agrees.
-/
namespace Keyring

/-! ## Key streams -/

namespace Bytes

@[simp] theorem length_xor (a b : Bytes) : (xor a b).length = min a.length b.length := by
  simp [xor]

/-- Adding a key twice restores the text, if the key is long enough. -/
theorem xor_xor {text key : Bytes} (h : text.length ≤ key.length) :
    xor (xor text key) key = text := by
  induction text generalizing key with
  | nil => rfl
  | cons x rest ih =>
    cases key with
    | nil => simp at h
    | cons k keys =>
      have hrest := ih (Nat.le_of_succ_le_succ h)
      have hfirst : x ^^^ k ^^^ k = x := by
        rw [UInt8.xor_assoc, UInt8.xor_self, UInt8.xor_zero]
      simp only [xor, List.zipWith_cons_cons, hfirst] at hrest ⊢
      rw [hrest]

end Bytes

/-- A text with the blocks of a key stream added from a counter on, each to a piece of that size. -/
def addStream (size : ℕ) (stream : ℕ → Bytes) : (blocks counter : ℕ) → Bytes → Bytes
  | 0, _, _ => []
  | blocks + 1, counter, text =>
    Bytes.xor (text.take size) (stream counter) ++
      addStream size stream blocks (counter + 1) (text.drop size)

section Stream

variable {size : ℕ} {stream : ℕ → Bytes}

theorem length_addStream (hstream : ∀ i, (stream i).length = size) {blocks counter : ℕ}
    {text : Bytes} (h : text.length ≤ blocks * size) :
    (addStream size stream blocks counter text).length = text.length := by
  induction blocks generalizing counter text with
  | zero =>
    rw [Nat.zero_mul] at h
    exact (Nat.le_zero.1 h).symm
  | succ blocks ih =>
    rw [Nat.succ_mul] at h
    have hrest : (text.drop size).length ≤ blocks * size := by
      rw [List.length_drop]
      omega
    rw [addStream, List.length_append, ih hrest, Bytes.length_xor, hstream, List.length_take,
      List.length_drop]
    omega

/-- Adding a stream twice restores the text. -/
theorem addStream_addStream (hstream : ∀ i, (stream i).length = size) {blocks counter : ℕ}
    {text : Bytes} (h : text.length ≤ blocks * size) :
    addStream size stream blocks counter (addStream size stream blocks counter text) = text := by
  induction blocks generalizing counter text with
  | zero =>
    rw [Nat.zero_mul] at h
    exact (List.length_eq_zero_iff.1 (Nat.le_zero.1 h)).symm
  | succ blocks ih =>
    rw [Nat.succ_mul] at h
    have hrest : (text.drop size).length ≤ blocks * size := by
      rw [List.length_drop]
      omega
    obtain ⟨first, hfirst⟩ : ∃ first, first = Bytes.xor (text.take size) (stream counter) :=
      ⟨_, rfl⟩
    obtain ⟨rest, hadded⟩ :
        ∃ rest, rest = addStream size stream blocks (counter + 1) (text.drop size) := ⟨_, rfl⟩
    have hlength : first.length = min size text.length := by
      rw [hfirst, Bytes.length_xor, hstream, List.length_take]
      omega
    -- A piece that is too short for its block is the last one.
    have hsplit : first.length = size ∨ rest = [] := by
      by_cases hfull : size ≤ text.length
      · left
        omega
      · right
        rw [← List.length_eq_zero_iff, hadded, length_addStream hstream hrest, List.length_drop]
        omega
    have htake : (first ++ rest).take size = first := by
      rcases hsplit with hfull | hlast
      · rw [← hfull, List.take_left]
      · rw [hlast, List.append_nil, List.take_of_length_le (by omega)]
    have hdrop : (first ++ rest).drop size = rest := by
      rcases hsplit with hfull | hlast
      · rw [← hfull, List.drop_left]
      · rw [hlast, List.append_nil, List.drop_of_length_le (by omega)]
    have hrestored : Bytes.xor first (stream counter) = text.take size := by
      rw [hfirst]
      apply Bytes.xor_xor
      rw [hstream, List.length_take]
      omega
    rw [addStream, addStream, ← hfirst, ← hadded, htake, hdrop, hrestored, hadded, ih hrest,
      List.take_append_drop]

end Stream

/-- A tag at the end of a ciphertext is found again. -/
theorem open_tagged {tagLength : ℕ} (encrypted : Bytes) {tag : Bytes}
    (h : tag.length = tagLength) :
    ¬ (encrypted ++ tag).length < tagLength ∧
      (encrypted ++ tag).take ((encrypted ++ tag).length - tagLength) = encrypted ∧
      (encrypted ++ tag).drop ((encrypted ++ tag).length - tagLength) = tag := by
  have hlength : (encrypted ++ tag).length - tagLength = encrypted.length := by
    rw [List.length_append, h, Nat.add_sub_cancel]
  refine ⟨?_, ?_, ?_⟩
  · rw [List.length_append]
    omega
  · rw [hlength, List.take_left]
  · rw [hlength, List.drop_left]

/-! ## XChaCha20-Poly1305 -/

namespace ChaCha20

theorem length_bytesOf (words : List UInt32) : (bytesOf words).length = 4 * words.length := by
  induction words with
  | nil => rfl
  | cons word rest ih =>
    have hcons : bytesOf (word :: rest) = Bytes.ofNatLE 4 word.toNat ++ bytesOf rest := rfl
    rw [hcons, List.length_append, Bytes.length_ofNatLE, ih, List.length_cons]
    omega

theorem length_block (key nonce : Bytes) (counter : ℕ) : (block key nonce counter).length = 64 := by
  rw [block, length_bytesOf, Vector.length_toList]

theorem applyBlocks_eq (key nonce : Bytes) (blocks counter : ℕ) (text : Bytes) :
    applyBlocks key nonce blocks counter text =
      addStream 64 (block key nonce) blocks counter text := by
  induction blocks generalizing counter text with
  | zero => rfl
  | succ blocks ih => rw [applyBlocks, addStream, ih]

theorem length_apply (key nonce : Bytes) (counter : ℕ) (text : Bytes) :
    (apply key nonce counter text).length = text.length := by
  rw [apply, applyBlocks_eq, length_addStream (length_block key nonce)]
  omega

theorem apply_apply (key nonce : Bytes) (counter : ℕ) (text : Bytes) :
    apply key nonce counter (apply key nonce counter text) = text := by
  have hlength : (apply key nonce counter text).length = text.length :=
    length_apply key nonce counter text
  rw [apply, hlength, apply, applyBlocks_eq, applyBlocks_eq,
    addStream_addStream (length_block key nonce)]
  omega

end ChaCha20

/-- What was encrypted is decrypted to the same text. -/
theorem XChaCha20Poly1305.decrypt?_encrypt (key nonce plaintext : Bytes) :
    decrypt? key nonce (encrypt key nonce plaintext) = some plaintext := by
  have htag : (tagOf key nonce (crypt key nonce plaintext)).length = tagLength := by
    rw [tagOf, Poly1305.tag, Bytes.length_ofNatLE]
    rfl
  have hcrypt : crypt key nonce (crypt key nonce plaintext) = plaintext :=
    ChaCha20.apply_apply _ _ 1 plaintext
  obtain ⟨hlong, htake, hdrop⟩ := open_tagged (crypt key nonce plaintext) htag
  rw [encrypt, decrypt?, if_neg hlong, htake, hdrop, if_pos rfl, hcrypt]

/-! ## AES-256-GCM -/

namespace Aes256

def FourByteWords (words : List Bytes) : Prop := ∀ word ∈ words, word.length = 4

theorem FourByteWords.length_flatten {words : List Bytes} (h : FourByteWords words) :
    words.flatten.length = 4 * words.length := by
  induction words with
  | nil => rfl
  | cons word rest ih =>
    obtain ⟨hword, hrest⟩ := List.forall_mem_cons.1 h
    rw [List.flatten_cons, List.length_append, hword, ih hrest, List.length_cons]
    omega

theorem length_mixColumns : (state : Bytes) → 4 ∣ state.length →
    (mixColumns state).length = state.length
  | [], _ => rfl
  | [_], h => by simp at h
  | [_, _], h => by simp at h
  | [_, _, _], h => by simp at h
  | a :: b :: c :: d :: rest, h => by
    have hrest : 4 ∣ rest.length := by
      simp only [List.length_cons] at h
      omega
    rw [mixColumns, List.length_append, length_mixColumns rest hrest]
    simp only [mixColumn, List.length_cons, List.length_nil]
    omega

theorem length_shiftRows (state : Bytes) : (shiftRows state).length = state.length := by
  unfold shiftRows
  split <;> rfl

theorem length_substituteAndShift (state : Bytes) :
    (substituteAndShift state).length = state.length := by
  rw [substituteAndShift, length_shiftRows, List.length_map]

theorem length_rounds {state : Bytes} {keys : List Bytes} (hstate : state.length = 16)
    (hkeys : ∀ key ∈ keys, key.length = 16) : (rounds state keys).length = 16 := by
  fun_induction rounds state keys with
  | case1 state => exact hstate
  | case2 state key =>
    rw [Bytes.length_xor, length_substituteAndShift, hstate, hkeys key (by simp), Nat.min_self]
  | case3 state key rest _ ih =>
    obtain ⟨hkey, hrest⟩ := List.forall_mem_cons.1 hkeys
    apply ih _ hrest
    have hmixed : (mixColumns (substituteAndShift state)).length = 16 := by
      rw [length_mixColumns _ (by rw [length_substituteAndShift, hstate]; decide),
        length_substituteAndShift, hstate]
    rw [Bytes.length_xor, hmixed, hkey, Nat.min_self]

/-- A block stays as long as it is under round keys of that length. -/
theorem length_encryptWith {keys : List Bytes} (hne : keys ≠ [])
    (hkeys : ∀ key ∈ keys, key.length = 16) {block : Bytes} (hblock : block.length = 16) :
    (encryptWith keys block).length = 16 := by
  obtain ⟨key, rest, rfl⟩ := List.exists_cons_of_ne_nil hne
  obtain ⟨hkey, hrest⟩ := List.forall_mem_cons.1 hkeys
  apply length_rounds _ hrest
  rw [List.headD_cons, Bytes.length_xor, hblock, hkey, Nat.min_self]

theorem length_rotateWord (word : Bytes) : (rotateWord word).length = word.length := by
  cases word with
  | nil => rfl
  | cons a rest => simp [rotateWord]

/-- The key grows word by word. -/
theorem fourByteWords_extend (left i : ℕ) (constant : UInt8) {words : List Bytes}
    (hwords : FourByteWords words) (hlong : 8 ≤ words.length) :
    FourByteWords (extend left i constant words) ∧
      (extend left i constant words).length = words.length + left := by
  induction left generalizing i constant words with
  | zero => exact ⟨hwords, rfl⟩
  | succ left ih =>
    have hlast : (words.headD []).length = 4 := by
      cases words with
      | nil => simp at hlong
      | cons word rest => exact hwords word List.mem_cons_self
    have hbefore : (words.getD 7 []).length = 4 := by
      have hsome : words[7]? = some words[7] := List.getElem?_eq_getElem hlong
      rw [List.getD_eq_getElem?_getD, hsome, Option.getD_some]
      exact hwords _ (List.getElem_mem hlong)
    have hnext : ∀ mixed : Bytes, mixed.length = 4 →
        FourByteWords (Bytes.xor (words.getD 7 []) mixed :: words) := by
      intro mixed hmixed
      apply List.forall_mem_cons.2 ⟨_, hwords⟩
      rw [Bytes.length_xor, hbefore, hmixed, Nat.min_self]
    have hgrown : ∀ word : Bytes, 8 ≤ (word :: words).length := by
      intro word
      rw [List.length_cons]
      omega
    rw [extend]
    split
    · obtain ⟨hfour, hlength⟩ := ih (i + 1) (double constant)
        (hnext (Bytes.xor ((rotateWord (words.headD [])).map substitute) [constant, 0, 0, 0])
          (by rw [Bytes.length_xor, List.length_map, length_rotateWord, hlast]; rfl)) (hgrown _)
      exact ⟨hfour, by rw [hlength, List.length_cons]; omega⟩
    · split
      · obtain ⟨hfour, hlength⟩ := ih (i + 1) constant
          (hnext ((words.headD []).map substitute) (by rw [List.length_map, hlast])) (hgrown _)
        exact ⟨hfour, by rw [hlength, List.length_cons]; omega⟩
      · obtain ⟨hfour, hlength⟩ := ih (i + 1) constant
          (hnext (words.headD []) hlast) (hgrown _)
        exact ⟨hfour, by rw [hlength, List.length_cons]; omega⟩

theorem length_groups {α : Type} (size count : ℕ) (items : List α) :
    (groups size count items).length = count := by
  induction count generalizing items with
  | zero => rfl
  | succ count ih => rw [groups, List.length_cons, ih]

theorem length_of_mem_groups {α : Type} {size count : ℕ} {items group : List α}
    (hlength : size * count ≤ items.length) (h : group ∈ groups size count items) :
    group.length = size ∧ ∀ item ∈ group, item ∈ items := by
  induction count generalizing items with
  | zero => cases h
  | succ count ih =>
    rw [Nat.mul_succ] at hlength
    rw [groups, List.mem_cons] at h
    rcases h with rfl | hrest
    · refine ⟨?_, fun item hitem => List.mem_of_mem_take hitem⟩
      rw [List.length_take]
      omega
    · obtain ⟨hsize, hmem⟩ := ih (by rw [List.length_drop]; omega) hrest
      exact ⟨hsize, fun item hitem => List.mem_of_mem_drop (hmem item hitem)⟩

/-- The round keys of a key are as long as a block. -/
theorem roundKeys_spec {key : Bytes} (hkey : key.length = 32) :
    roundKeys key ≠ [] ∧ ∀ roundKey ∈ roundKeys key, roundKey.length = 16 := by
  have hwords : FourByteWords (groups 4 8 key).reverse := by
    intro word hword
    exact (length_of_mem_groups (by omega) (List.mem_reverse.1 hword)).1
  have hlong : (groups 4 8 key).reverse.length = 8 := by
    rw [List.length_reverse, length_groups]
  obtain ⟨hfour, hlength⟩ :=
    fourByteWords_extend 52 8 1 hwords (Nat.le_of_eq hlong.symm)
  rw [hlong] at hlength
  constructor
  · intro hnil
    have hcount := congrArg List.length hnil
    rw [roundKeys, List.length_map, length_groups] at hcount
    cases hcount
  · intro roundKey hroundKey
    obtain ⟨group, hgroup, rfl⟩ := List.mem_map.1 hroundKey
    have hcount := hlength
    rw [← List.length_reverse] at hcount
    obtain ⟨hsize, hmem⟩ := length_of_mem_groups (by omega) hgroup
    have hwordsIn : FourByteWords group := by
      intro word hword
      exact hfour word (List.mem_reverse.1 (hmem word hword))
    rw [hwordsIn.length_flatten, hsize]

end Aes256

namespace Gcm

variable {key nonce : Bytes}

theorem length_counterBlock (hnonce : nonce.length = nonceLength) (counter : ℕ) :
    (counterBlock nonce counter).length = 16 := by
  rw [counterBlock, List.length_append, hnonce, Bytes.length_ofNatBE]
  rfl

/-- The key stream of counter mode. -/
def streamBlock (key nonce : Bytes) (counter : ℕ) : Bytes :=
  Aes256.encryptWith (Aes256.roundKeys key) (counterBlock nonce counter)

theorem length_streamBlock (hkey : key.length = 32) (hnonce : nonce.length = nonceLength)
    (counter : ℕ) : (streamBlock key nonce counter).length = 16 := by
  obtain ⟨hne, hkeys⟩ := Aes256.roundKeys_spec hkey
  exact Aes256.length_encryptWith hne hkeys (length_counterBlock hnonce counter)

theorem crypt_eq (key nonce text : Bytes) :
    crypt key nonce text =
      addStream 16 (streamBlock key nonce) ((text.length + 15) / 16) 2 text := by
  have hblocks : ∀ (blocks counter : ℕ) (text : Bytes),
      applyBlocks (Aes256.roundKeys key) nonce blocks counter text =
        addStream 16 (streamBlock key nonce) blocks counter text := by
    intro blocks
    induction blocks with
    | zero => exact fun _ _ => rfl
    | succ blocks ih =>
      intro counter text
      rw [applyBlocks, addStream, ih, streamBlock]
  exact hblocks _ 2 text

theorem length_tagOf (hkey : key.length = 32) (hnonce : nonce.length = nonceLength)
    (encrypted : Bytes) : (tagOf key nonce encrypted).length = tagLength := by
  have hmask := length_streamBlock hkey hnonce 1
  rw [streamBlock] at hmask
  simp only [tagOf, Bytes.length_xor, hmask, Element.toBytes, List.length_append,
    Bytes.length_ofNatBE]
  rfl

/-- What was encrypted is decrypted to the same text. -/
theorem decrypt?_encrypt (hkey : key.length = 32) (hnonce : nonce.length = nonceLength)
    (plaintext : Bytes) : decrypt? key nonce (encrypt key nonce plaintext) = some plaintext := by
  have hstream := length_streamBlock hkey hnonce
  have hfits : plaintext.length ≤ (plaintext.length + 15) / 16 * 16 := by omega
  have hlength : (crypt key nonce plaintext).length = plaintext.length := by
    rw [crypt_eq, length_addStream hstream hfits]
  have hcrypt : crypt key nonce (crypt key nonce plaintext) = plaintext := by
    rw [crypt_eq, hlength, crypt_eq, addStream_addStream hstream hfits]
  obtain ⟨hlong, htake, hdrop⟩ := open_tagged (crypt key nonce plaintext)
    (length_tagOf hkey hnonce (crypt key nonce plaintext))
  rw [encrypt, decrypt?, if_neg hlong, htake, hdrop, if_pos rfl, hcrypt]

end Gcm
end Keyring
