import Keyring.Binary64.Shortest
import Keyring.Binary64.Written
import Keyring.Proofs.Binary64.WholeNumbers
import Keyring.Proofs.Text.Decimal
import Keyring.Text.Lowercase
import Mathlib.Data.List.TakeWhile

/-!
# Texts that are read as numbers

A text that is read as a number has digits, signs, a point and an exponent mark and nothing else, or
is one of three names behind a sign or none. Digits alone are read as the whole number that they
write, rounded. No word for yes or no is read as a number.
-/
namespace Keyring

namespace Decimal

theorem isDigit_of_digitsFrom? {cs : List Char} {k n : ℕ} (h : digitsFrom? k cs = some n) :
    ∀ c ∈ cs, c.isDigit = true := by
  induction cs generalizing k with
  | nil => simp
  | cons c rest ih =>
    rw [digitsFrom?] at h
    split at h
    next hc => exact List.forall_mem_cons.2 ⟨hc, ih h⟩
    next => cases h

/-- Digits are one digit or more, and nothing else. -/
theorem digits?_eq_some {cs : List Char} {n : ℕ} (h : digits? cs = some n) :
    cs ≠ [] ∧ ∀ c ∈ cs, c.isDigit = true := by
  cases cs with
  | nil => cases h
  | cons c rest => exact ⟨List.cons_ne_nil c rest, isDigit_of_digitsFrom? h⟩

/-- An integer is digits behind a sign or none. -/
theorem signed?_eq_some {cs : List Char} {z : ℤ} (h : signed? cs = some z) :
    ∃ n : ℕ, (∃ rest, cs = '-' :: rest ∧ digits? rest = some n ∧ z = -(n : ℤ)) ∨
      (∃ rest, cs = '+' :: rest ∧ digits? rest = some n ∧ z = n) ∨
      digits? cs = some n ∧ z = n := by
  unfold signed? at h
  split at h
  next rest =>
    obtain ⟨k, hk, rfl⟩ := Option.map_eq_some_iff.1 h
    obtain ⟨n, hn, hcast⟩ := Option.bind_eq_some_iff.1 hk
    exact ⟨n, Or.inl ⟨rest, rfl, hn, by rw [← Option.some.inj hcast]⟩⟩
  next rest =>
    obtain ⟨n, hn, rfl⟩ := Option.map_eq_some_iff.1 h
    exact ⟨n, Or.inr (Or.inl ⟨rest, rfl, hn, rfl⟩)⟩
  next =>
    obtain ⟨n, hn, rfl⟩ := Option.map_eq_some_iff.1 h
    exact ⟨n, Or.inr (Or.inr ⟨hn, rfl⟩)⟩

theorem signed?_of_digits? {cs : List Char} {n : ℕ} (h : digits? cs = some n) :
    signed? cs = some (n : ℤ) := by
  have hdigit := (digits?_eq_some h).2
  unfold signed?
  split
  next => exact absurd (hdigit '-' List.mem_cons_self) (by decide)
  next => exact absurd (hdigit '+' List.mem_cons_self) (by decide)
  next =>
    rw [h]
    rfl

theorem int64?_ofInt {z : ℤ} (h : -2 ^ 63 ≤ z ∧ z < 2 ^ 63) : int64? (ofInt z) = some z := by
  rw [int64?, signed?_ofInt, Option.filter_some]
  exact if_pos (decide_eq_true h)

theorem range_of_int64? {text : String} {z : ℤ} (h : int64? text = some z) :
    -2 ^ 63 ≤ z ∧ z < 2 ^ 63 :=
  of_decide_eq_true (Option.filter_eq_some_iff.1 h).2

/-- A natural number is digits behind a plus sign or none. -/
theorem nat64?_eq_some_iff {text : String} {n : ℕ} :
    nat64? text = some n ↔ n < 2 ^ 64 ∧
      ((∃ rest, text.toList = '+' :: rest ∧ digits? rest = some n) ∨
        digits? text.toList = some n) := by
  have hplus : ∀ {rest : List Char} {k : ℕ}, digits? ('+' :: rest) ≠ some k := fun h =>
    absurd ((digits?_eq_some h).2 '+' List.mem_cons_self) (by decide)
  unfold nat64? unsigned?
  rw [Option.filter_eq_some_iff, decide_eq_true_eq, and_comm]
  refine and_congr_right fun _ => ?_
  split
  next rest htext =>
    rw [htext]
    constructor
    · exact fun h => Or.inl ⟨rest, rfl, h⟩
    · rintro (⟨other, hother, h⟩ | h)
      · rwa [(List.cons.inj hother).2]
      · exact absurd h hplus
  next hsign =>
    constructor
    · exact Or.inr
    · rintro (⟨rest, htext, -⟩ | h)
      · exact absurd htext (hsign rest)
      · exact h

end Decimal

namespace Binary64

/-- The characters of numbers that are written without a name. -/
def isNumeralChar (c : Char) : Bool :=
  c.isDigit || c == '+' || c == '-' || c == '.' || c == 'e' || c == 'E'

def numberNames : List String := ["inf", "infinity", "nan"]

/-- Texts with the name of a number behind a sign or none, in letters of either case. -/
def IsNamed (text : String) : Prop :=
  ∃ sign rest, text.toList = sign ++ rest ∧ sign ∈ [[], ['-'], ['+']] ∧
    (String.ofList rest).map Char.toLower ∈ numberNames

theorem isNumeralChar_of_isDigit {c : Char} (h : c.isDigit = true) : isNumeralChar c = true := by
  simp [isNumeralChar, h]

theorem numeral_of_signed? {cs : List Char} {z : ℤ} (h : Decimal.signed? cs = some z) :
    ∀ c ∈ cs, isNumeralChar c = true := by
  have digits : ∀ {ds : List Char} {n : ℕ}, Decimal.digits? ds = some n →
      ∀ c ∈ ds, isNumeralChar c = true := fun hds c hc =>
    isNumeralChar_of_isDigit ((Decimal.digits?_eq_some hds).2 c hc)
  obtain ⟨n, ⟨rest, rfl, hrest, -⟩ | ⟨rest, rfl, hrest, -⟩ | ⟨hcs, -⟩⟩ := Decimal.signed?_eq_some h
  · exact List.forall_mem_cons.2 ⟨by decide, digits hrest⟩
  · exact List.forall_mem_cons.2 ⟨by decide, digits hrest⟩
  · exact digits hcs

theorem numeral_of_exponent? {cs : List Char} {z : ℤ} (h : exponent? cs = some z) :
    ∀ c ∈ cs, isNumeralChar c = true := by
  cases cs with
  | nil => simp
  | cons c rest =>
    rw [exponent?] at h
    split at h
    next hmark =>
      refine List.forall_mem_cons.2 ⟨?_, numeral_of_signed? h⟩
      rcases hmark with rfl | rfl <;> decide
    next => cases h

theorem numeral_of_decimal? {negative : Bool} {cs : List Char} {f : Binary64}
    (h : decimal? negative cs = some f) : ∀ c ∈ cs, isNumeralChar c = true := by
  have whole : ∀ ds : List Char, ∀ c ∈ ds.takeWhile Char.isDigit, isNumeralChar c = true :=
    fun ds c hc => isNumeralChar_of_isDigit (List.mem_takeWhile_imp hc)
  unfold decimal? at h
  dsimp only at h
  split at h
  next coefficient exponent hdigits hexponent =>
    rw [← List.takeWhile_append_dropWhile (p := Char.isDigit) (l := cs)]
    rw [List.forall_mem_append]
    refine ⟨whole cs, ?_⟩
    split at hexponent
    next rest hrest =>
      rw [hrest, List.forall_mem_cons]
      refine ⟨by decide, ?_⟩
      rw [← List.takeWhile_append_dropWhile (p := Char.isDigit) (l := rest), List.forall_mem_append]
      exact ⟨whole rest, numeral_of_exponent? hexponent⟩
    next => exact numeral_of_exponent? hexponent
  next => cases h

/-- What is read as a number is a numeral or the name of a number. -/
theorem numeral_or_named {text : String} {f : Binary64} (h : ofText? text = some f) :
    (∀ c ∈ text.toList, isNumeralChar c = true) ∨ IsNamed text := by
  have behind : ∀ {negative : Bool} {rest : List Char} (sign : List Char),
      text.toList = sign ++ rest → sign ∈ [[], ['-'], ['+']] →
      (∀ c ∈ sign, isNumeralChar c = true) → unsigned? negative rest = some f →
      (∀ c ∈ text.toList, isNumeralChar c = true) ∨ IsNamed text := by
    intro negative rest sign htext hsign hnumeral hread
    rcases Option.or_eq_some_iff.1 hread with hnamed | ⟨-, hdecimal⟩
    · right
      refine ⟨sign, rest, htext, hsign, ?_⟩
      unfold named? at hnamed
      dsimp only at hnamed
      split at hnamed
      next hname => rcases hname with hname | hname <;> simp [numberNames, hname]
      next =>
        split at hnamed
        next hname => simp [numberNames, hname]
        next => cases hnamed
    · left
      rw [htext, List.forall_mem_append]
      exact ⟨hnumeral, numeral_of_decimal? hdecimal⟩
  unfold ofText? at h
  split at h
  next rest htext => exact behind ['-'] htext (by simp) (List.forall_mem_singleton.2 rfl) h
  next rest htext => exact behind ['+'] htext (by simp) (List.forall_mem_singleton.2 rfl) h
  next => exact behind [] rfl (by simp) (by simp) h

/-! ## Ranges -/

theorem regular_or_infinite_ofDecimal (negative : Bool) (coefficient : ℕ) (exponent : ℤ) :
    (ofDecimal negative coefficient exponent).Regular ∨
      (ofDecimal negative coefficient exponent).isInfinite = true := by
  unfold ofDecimal
  split
  · exact Or.inl (regular_zero negative)
  · split
    · exact Or.inr rfl
    · split
      · exact Or.inl (regular_zero negative)
      · split
        · exact regular_or_infinite_ofRatio Nat.one_pos _ negative
        · exact regular_or_infinite_ofRatio (Nat.pow_pos (by decide)) _ negative

/-- What is read is finite, infinite or no number. -/
theorem regular_of_ofText? {text : String} {f : Binary64} (h : ofText? text = some f) :
    f.Regular ∨ f.isInfinite = true ∨ f = nan := by
  have hdecimal : ∀ {negative : Bool} {cs : List Char}, decimal? negative cs = some f →
      f.Regular ∨ f.isInfinite = true := by
    intro negative cs hread
    unfold decimal? at hread
    dsimp only at hread
    split at hread
    next => exact Option.some.inj hread ▸ regular_or_infinite_ofDecimal _ _ _
    next => cases hread
  have hunsigned : ∀ {negative : Bool} {cs : List Char}, unsigned? negative cs = some f →
      f.Regular ∨ f.isInfinite = true ∨ f = nan := by
    intro negative cs hread
    rcases Option.or_eq_some_iff.1 hread with hnamed | ⟨-, hread⟩
    · unfold named? at hnamed
      dsimp only at hnamed
      split at hnamed
      · exact Or.inr (Or.inl (by rw [← Option.some.inj hnamed]; rfl))
      · split at hnamed
        · exact Or.inr (Or.inr (Option.some.inj hnamed).symm)
        · cases hnamed
    · rcases hdecimal hread with hregular | hinfinite
      · exact Or.inl hregular
      · exact Or.inr (Or.inl hinfinite)
  unfold ofText? at h
  split at h <;> exact hunsigned h

/-! ## Digits -/

theorem toNat_toLower (c : Char) :
    c.toLower.toNat = if 65 ≤ c.toNat ∧ c.toNat ≤ 90 then c.toNat + 32 else c.toNat := by
  have hupper : (c.val ≥ 'A'.val ∧ c.val ≤ 'Z'.val) ↔ 65 ≤ c.toNat ∧ c.toNat ≤ 90 := by
    simp only [ge_iff_le, UInt32.le_iff_toNat_le]
    exact Iff.rfl
  unfold Char.toLower
  split
  next h =>
    have hrange := hupper.1 h
    have hdistance : ('a'.val - 'A'.val : UInt32).toNat = 32 := by decide
    rw [if_pos hrange, Char.toNat, UInt32.toNat_add, hdistance, Nat.mod_eq_of_lt]
    · rfl
    · change c.toNat + 32 < 2 ^ 32
      omega
  next h => rw [if_neg (mt hupper.2 h)]

theorem toLower_of_isDigit {c : Char} (h : c.isDigit = true) : c.toLower = c := by
  have hrange : c.toNat ≤ 57 := by
    simp only [Char.isDigit, Bool.and_eq_true, decide_eq_true_eq, UInt32.le_iff_toNat_le] at h
    exact h.2
  apply Char.toNat_inj.1
  rw [toNat_toLower, if_neg (by omega)]

theorem named?_of_digits {cs : List Char} {n : ℕ} (h : Decimal.digits? cs = some n) :
    named? (String.ofList cs) false = none := by
  obtain ⟨hne, hdigits⟩ := Decimal.digits?_eq_some h
  obtain ⟨c, rest, rfl⟩ := List.exists_cons_of_ne_nil hne
  have hc := hdigits c List.mem_cons_self
  have hother : ∀ name ∈ numberNames, (String.ofList (c :: rest)).map Char.toLower ≠ name := by
    intro name hname heq
    have hhead := congrArg (fun s => s.toList.head?) heq
    simp only [String.toList_map, String.toList_ofList, List.map_cons, List.head?_cons,
      toLower_of_isDigit hc] at hhead
    simp only [numberNames, List.mem_cons, List.not_mem_nil, or_false] at hname
    rcases hname with rfl | rfl | rfl <;> (cases hhead; revert hc; decide)
  simp only [numberNames, List.forall_mem_cons] at hother
  unfold named?
  dsimp only
  rw [if_neg (not_or.2 ⟨hother.1, hother.2.1⟩), if_neg hother.2.2.1]

theorem decimal?_of_digits? {cs : List Char} {n : ℕ} (h : Decimal.digits? cs = some n) :
    decimal? false cs = some (ofNat n) := by
  have hdigits := (Decimal.digits?_eq_some h).2
  have htake : cs.takeWhile Char.isDigit = cs := List.takeWhile_eq_self_iff.2 hdigits
  have hdrop : cs.dropWhile Char.isDigit = [] := List.dropWhile_eq_nil_iff.2 hdigits
  have hvalue : ofDecimal false n 0 = ofNat n := by
    by_cases hn : n = 0
    · subst hn
      decide +kernel
    · rw [ofDecimal, if_neg hn, if_neg (by decide), if_neg (by omega), if_pos (by decide)]
      simp [ofNat]
  unfold decimal?
  rw [hdrop, htake]
  simp [h, exponent?, hvalue]

/-- A natural number is read as that number, rounded. -/
theorem ofText?_of_nat64? {text : String} {n : ℕ} (h : Decimal.nat64? text = some n) :
    ofText? text = some (ofNat n) := by
  have read : ∀ {cs : List Char}, Decimal.digits? cs = some n →
      unsigned? false cs = some (ofNat n) := fun hcs => by
    rw [unsigned?, named?_of_digits hcs, Option.none_or, decimal?_of_digits? hcs]
  rcases (Decimal.nat64?_eq_some_iff.1 h).2 with ⟨rest, htext, hrest⟩ | htext
  · rw [ofText?, htext]
    exact read hrest
  · have hdigit := (Decimal.digits?_eq_some htext).2
    unfold ofText?
    split
    next rest hsign =>
      rw [hsign] at hdigit
      exact absurd (hdigit '-' List.mem_cons_self) (by decide)
    next rest hsign =>
      rw [hsign] at hdigit
      exact absurd (hdigit '+' List.mem_cons_self) (by decide)
    next => exact read htext

/-! ## Texts of numbers are read -/

theorem isSome_digits? {cs : List Char} (hne : cs ≠ []) (h : ∀ c ∈ cs, c.isDigit = true) :
    ∃ n, Decimal.digits? cs = some n := by
  cases cs with
  | nil => exact absurd rfl hne
  | cons c rest => exact ⟨_, Decimal.digitsFrom?_eq h 0⟩

/-- Digits, or digits with a point and perhaps more digits behind them. -/
def IsPlainDecimal (cs : List Char) : Prop :=
  ∃ whole fraction, whole ≠ [] ∧ (∀ c ∈ whole ++ fraction, c.isDigit = true) ∧
    (cs = whole ∧ fraction = [] ∨ cs = whole ++ '.' :: fraction)

theorem isSome_decimal? {cs : List Char} (h : IsPlainDecimal cs) (negative : Bool) :
    (decimal? negative cs).isSome = true := by
  obtain ⟨whole, fraction, hwhole, hdigits, hcs⟩ := h
  obtain ⟨hwholeDigits, hfractionDigits⟩ := List.forall_mem_append.1 hdigits
  obtain ⟨n, hn⟩ := isSome_digits? (List.append_ne_nil_of_left_ne_nil hwhole fraction) hdigits
  have htake : whole.takeWhile Char.isDigit = whole := List.takeWhile_eq_self_iff.2 hwholeDigits
  have hdrop : whole.dropWhile Char.isDigit = [] := List.dropWhile_eq_nil_iff.2 hwholeDigits
  have htake' : fraction.takeWhile Char.isDigit = fraction :=
    List.takeWhile_eq_self_iff.2 hfractionDigits
  have hdrop' : fraction.dropWhile Char.isDigit = [] :=
    List.dropWhile_eq_nil_iff.2 hfractionDigits
  unfold decimal?
  rcases hcs with ⟨rfl, rfl⟩ | rfl
  · rw [List.append_nil] at hn
    simp [htake, hdrop, hn, exponent?]
  · rw [List.takeWhile_append_of_pos hwholeDigits, List.dropWhile_append_of_pos hwholeDigits]
    simp [htake', hdrop', hn, exponent?]

/-- What can be read without a sign can be read behind one. -/
theorem isSome_ofText?_signed {text : String} (h : IsPlainDecimal text.toList) (negative : Bool) :
    (ofText? (signed negative text)).isSome = true := by
  have hunsigned : ∀ negative, (unsigned? negative text.toList).isSome = true := fun negative => by
    rw [unsigned?, Option.isSome_or, isSome_decimal? h negative, Bool.or_true]
  have hfirst : ∃ c rest, text.toList = c :: rest ∧ c.isDigit = true := by
    obtain ⟨whole, fraction, hwhole, hdigits, hcs⟩ := h
    obtain ⟨c, rest, rfl⟩ := List.exists_cons_of_ne_nil hwhole
    refine ⟨c, text.toList.tail, ?_, hdigits c (by simp)⟩
    rcases hcs with ⟨hcs, -⟩ | hcs <;> rw [hcs] <;> rfl
  cases negative with
  | true =>
    have hsigned : (signed true text).toList = '-' :: text.toList := by
      simp [signed, String.toList_append]
    rw [ofText?, hsigned]
    exact hunsigned true
  | false =>
    obtain ⟨c, rest, htext, hc⟩ := hfirst
    rw [signed, if_neg Bool.false_ne_true]
    unfold ofText?
    split
    next hminus =>
      rw [htext, List.cons.injEq] at hminus
      rw [hminus.1] at hc
      exact absurd hc (by decide)
    next hplus =>
      rw [htext, List.cons.injEq] at hplus
      rw [hplus.1] at hc
      exact absurd hc (by decide)
    next => exact hunsigned false

theorem isPlainDecimal_pointed (n : ℕ) (place : ℤ) :
    IsPlainDecimal (pointed (Decimal.ofNat n) place).toList := by
  have hdigits : ∀ c ∈ (Decimal.ofNat n).toList, c.isDigit = true := fun _ =>
    Decimal.isDigit_of_mem_ofNat
  have hne : (Decimal.ofNat n).toList ≠ [] := (Decimal.digits?_eq_some (Decimal.digits?_ofNat n)).1
  unfold pointed
  dsimp only
  split
  · refine ⟨['0'], List.replicate (-place).toNat '0' ++ (Decimal.ofNat n).toList, by simp, ?_, ?_⟩
    · simp only [List.mem_append, List.mem_replicate, List.mem_singleton]
      rintro c (rfl | ⟨-, rfl⟩ | hc)
      · decide
      · decide
      · exact hdigits c hc
    · right
      simp [zeros, String.toList_append]
  next hplace =>
    refine ⟨(Decimal.ofNat n).toList.take place.toNat, (Decimal.ofNat n).toList.drop place.toNat,
      ?_, ?_, ?_⟩
    · rw [Ne, List.take_eq_nil_iff, not_or]
      exact ⟨by omega, hne⟩
    · rw [List.take_append_drop]
      exact hdigits
    · right
      simp [String.toList_append]

/-- The text of a number is read as a number. -/
theorem isSome_ofText?_plainText (f : Binary64) : (ofText? f.plainText).isSome = true := by
  cases f with
  | nan => decide +kernel
  | infinite negative => cases negative <;> decide +kernel
  | finite negative m e =>
    have hdigits : ∀ c ∈ (Decimal.ofNat (shortest m e).coefficient).toList, c.isDigit = true :=
      fun _ => Decimal.isDigit_of_mem_ofNat
    apply isSome_ofText?_signed
    split
    · refine ⟨_, [], ?_, ?_, Or.inl ⟨rfl, rfl⟩⟩
      · rw [String.toList_append]
        exact List.append_ne_nil_of_left_ne_nil
          (Decimal.digits?_eq_some (Decimal.digits?_ofNat _)).1 _
      · rw [List.append_nil, String.toList_append, List.forall_mem_append]
        refine ⟨hdigits, ?_⟩
        split
        · simp
        · intro c hc
          rw [zeros, String.toList_ofList] at hc
          rw [(List.mem_replicate.1 hc).2]
          decide
    · exact isPlainDecimal_pointed _ _

/-! ## Words -/

def yesNoWords : List String := ["true", "on", "yes", "false", "off", "no"]

theorem lowerChar_of_lt {c : Char} (h : c.toNat < 128) : Text.lowerChar c = [c.toLower] :=
  if_pos h

theorem numeral_lt {c : Char} (h : isNumeralChar c = true) : c.toNat < 128 := by
  simp only [isNumeralChar, Bool.or_eq_true, beq_iff_eq] at h
  rcases h with ((((h | rfl) | rfl) | rfl) | rfl) | rfl
  · simp only [Char.isDigit, Bool.and_eq_true, decide_eq_true_eq, UInt32.le_iff_toNat_le] at h
    exact Nat.lt_of_le_of_lt h.2 (by decide)
  all_goals decide

/-- No word begins with a character of a numeral. -/
theorem notMem_words_of_numeral {text : String} {c : Char} {rest : List Char}
    (htext : text.toList = c :: rest) (hc : isNumeralChar c = true) :
    Text.lower text ∉ yesNoWords := by
  intro hword
  have hhead : (Text.lower text).toList.head? = some c.toLower := by
    rw [Text.lower, String.toList_ofList, htext, List.flatMap_cons, lowerChar_of_lt (numeral_lt hc)]
    rfl
  have hletter : ∀ word ∈ yesNoWords, ∀ d, word.toList.head? = some d →
      d ∈ ['t', 'o', 'y', 'f', 'n'] := by
    simp [yesNoWords]
  have hlower := hletter _ hword _ hhead
  simp only [isNumeralChar, Bool.or_eq_true, beq_iff_eq] at hc
  rcases hc with ((((hc | rfl) | rfl) | rfl) | rfl) | rfl
  · rw [toLower_of_isDigit hc] at hlower
    simp only [List.mem_cons, List.not_mem_nil, or_false] at hlower
    rcases hlower with rfl | rfl | rfl | rfl | rfl <;> cases hc
  all_goals exact absurd hlower (by decide)

theorem lower_of_named {text : String} (h : text.map Char.toLower ∈ numberNames) :
    Text.lower text = text.map Char.toLower := by
  have hascii : ∀ c ∈ text.toList, c.toNat < 128 := by
    intro c hc
    have hnames : (numberNames.all fun name => name.toList.all fun d => d.toNat < 128) = true := by
      decide
    have hmem : c.toLower ∈ (text.map Char.toLower).toList := by
      rw [String.toList_map]
      exact List.mem_map_of_mem hc
    have hlower := of_decide_eq_true (List.all_eq_true.1 (List.all_eq_true.1 hnames _ h) _ hmem)
    rw [toNat_toLower] at hlower
    split at hlower <;> omega
  apply String.toList_injective
  rw [Text.lower, String.toList_ofList, String.toList_map, List.map_eq_flatMap]
  exact List.flatMap_congr fun c hc => lowerChar_of_lt (hascii c hc)

/-- No word for yes or no is read as a number. -/
theorem ofText?_of_word {text : String} (h : Text.lower text ∈ yesNoWords) :
    ofText? text = none := by
  rw [Option.eq_none_iff_forall_ne_some]
  intro f hread
  rcases numeral_or_named hread with hnumeral | ⟨sign, rest, htext, hsign, hname⟩
  · cases hcs : text.toList with
    | nil =>
      rw [String.toList_eq_nil_iff.1 hcs] at h
      exact absurd h (by decide)
    | cons c rest =>
      exact notMem_words_of_numeral hcs (hnumeral c (by rw [hcs]; exact List.mem_cons_self)) h
  · simp only [List.mem_cons, List.not_mem_nil, or_false] at hsign
    rcases hsign with rfl | rfl | rfl
    · rw [List.nil_append] at htext
      rw [← htext, String.ofList_toList] at hname
      rw [lower_of_named hname] at h
      exact (by decide : ∀ name ∈ numberNames, name ∉ yesNoWords) _ hname h
    · exact notMem_words_of_numeral htext (by decide) h
    · exact notMem_words_of_numeral htext (by decide) h

end Binary64

/-- No word for yes or no is read as an integer. -/
theorem Decimal.int64?_of_word {text : String} (h : Text.lower text ∈ Binary64.yesNoWords) :
    int64? text = none := by
  rw [Option.eq_none_iff_forall_ne_some]
  intro z hread
  obtain ⟨hsigned, -⟩ := Option.filter_eq_some_iff.1 hread
  have hnumeral := Binary64.numeral_of_signed? hsigned
  cases hcs : text.toList with
  | nil =>
    rw [hcs] at hsigned
    cases hsigned
  | cons c rest =>
    rw [hcs] at hnumeral
    exact Binary64.notMem_words_of_numeral hcs (hnumeral c List.mem_cons_self) h

theorem Binary64.notMem_words_of_number {text : String}
    (h : (Decimal.int64? text).isSome = true ∨ (ofText? text).isSome = true) :
    Text.lower text ∉ yesNoWords := by
  intro hword
  rcases h with h | h
  · rw [Decimal.int64?_of_word hword] at h
    cases h
  · rw [ofText?_of_word hword] at h
    cases h

end Keyring
