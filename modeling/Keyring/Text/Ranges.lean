/-!
# Ranges of characters

A character class is a list of inclusive ranges of code points in ascending order.
-/
namespace Keyring.Text

/-- Inclusive ranges of code points. -/
abbrev Ranges := List (Nat × Nat)

/-- Whether a code point lies in one of the ranges; the ranges ascend, so the search ends at the
first that starts above it. -/
def Ranges.contains : Ranges → Nat → Bool
  | [], _ => false
  | (first, last) :: rest, n =>
    if n < first then false else if n ≤ last then true else Ranges.contains rest n

end Keyring.Text
