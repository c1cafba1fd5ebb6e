/-!
# Decimal integers

Writing integers in decimal, and reading them with a range. The readers take a sign and leading
zeros, but no blanks and no separators; the bounds of a range belong to the type of what is read.
-/
namespace Keyring

/-- An integer of a half-open range. -/
structure Bounded (lower upper : Int) where
  val : Int
  lower_le : lower ≤ val
  lt_upper : val < upper
  deriving DecidableEq, Repr

namespace Bounded

variable {lower upper : Int}

/-- The integer, if the range holds it. -/
def ofInt? (z : Int) : Option (Bounded lower upper) :=
  if h : lower ≤ z ∧ z < upper then some ⟨z, h.1, h.2⟩ else none

theorem ext {a b : Bounded lower upper} (h : a.val = b.val) : a = b := by
  cases a; cases b; simp_all

@[simp] theorem ofInt?_val (a : Bounded lower upper) : ofInt? a.val = some a := by
  simp [ofInt?, a.lower_le, a.lt_upper]

theorem ofInt?_eq_some_iff {z : Int} {a : Bounded lower upper} : ofInt? z = some a ↔ z = a.val := by
  constructor
  · intro h
    unfold ofInt? at h
    split at h
    · exact (Option.some.inj h) ▸ rfl
    · cases h
  · rintro rfl
    exact ofInt?_val a

instance : Ord (Bounded lower upper) := ⟨fun a b => compare a.val b.val⟩

theorem compare_def (a b : Bounded lower upper) : compare a b = compare a.val b.val := rfl

instance : Std.LawfulEqOrd (Bounded lower upper) where
  compare_self := by intro a; rw [compare_def]; exact Std.ReflCmp.compare_self
  eq_of_compare h := by rw [compare_def] at h; exact ext (Std.LawfulEqCmp.eq_of_compare h)

instance : Std.TransOrd (Bounded lower upper) where
  eq_swap := by intro a b; rw [compare_def, compare_def b]; exact Std.OrientedCmp.eq_swap
  isLE_trans h₁ h₂ := by
    rw [compare_def] at *; exact Std.TransCmp.isLE_trans h₁ h₂

end Bounded

namespace Decimal

/-- The decimal text of an integer, with `-` before a negative one. -/
def ofInt (z : Int) : String :=
  toString z

def ofNat (n : Nat) : String :=
  toString n

/-- The number that the digits write, with `n` before them; `none` if another character occurs. -/
def digitsFrom? (n : Nat) : List Char → Option Nat
  | [] => some n
  | c :: cs => if c.isDigit then digitsFrom? (10 * n + (c.toNat - 48)) cs else none

/-- One or more digits. -/
def digits? : List Char → Option Nat
  | [] => none
  | cs => digitsFrom? 0 cs

/-- Digits with a sign before them or none. -/
def signed? : List Char → Option Int
  | '-' :: cs => (digits? cs).map fun n => -(n : Int)
  | '+' :: cs => (digits? cs).map Int.ofNat
  | cs => (digits? cs).map Int.ofNat

/-- Digits with `+` before them or nothing, for a number below the limit. -/
def unsigned? (limit : Nat) (text : String) : Option Nat :=
  let digits := match text.toList with
    | '+' :: cs => digits? cs
    | cs => digits? cs
  digits.filter (· < limit)

def nat64? (text : String) : Option Nat :=
  unsigned? 18446744073709551616 text

def int64? (text : String) : Option Int :=
  (signed? text.toList).filter fun z => -9223372036854775808 ≤ z ∧ z < 9223372036854775808

end Decimal
end Keyring
