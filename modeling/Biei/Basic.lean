import Mathlib

/-!
# Bytes, time and machine arithmetic

What every part of the model shares: byte strings, the monotonic clock, and `u64` arithmetic that is checked for overflow.
-/

namespace Biei

/-- What holds of all members of a list is decided member by member, also where the values of the type could be run through. -/
instance (priority := 1100) decidableForallMem {α : Type*} (p : α → Prop) [DecidablePred p] (l : List α) :
    Decidable (∀ a ∈ l, p a) :=
  List.decidableBAll p l

/-- Raw bytes, as the `bytes` crate shares them. -/
abbrev Bytes := List UInt8

/-- A point of the monotonic clock, in nanoseconds. -/
abbrev Instant := Nat

/-- A length of time, in nanoseconds. -/
abbrev Duration := Nat

/-- One more than the largest `u64`. -/
def u64Bound : Nat := 2 ^ 64

def checkedAdd (a b : Nat) : Option Nat := if a + b < u64Bound then some (a + b) else none

def checkedMul (a b : Nat) : Option Nat := if a * b < u64Bound then some (a * b) else none

/-- A checked sum is the sum. -/
theorem checkedAdd_eq_some {a b c : Nat} (h : checkedAdd a b = some c) : c = a + b := by
  unfold checkedAdd at h
  split at h
  · exact (Option.some.inj h).symm
  · cases h

/-- A checked product is the product. -/
theorem checkedMul_eq_some {a b c : Nat} (h : checkedMul a b = some c) : c = a * b := by
  unfold checkedMul at h
  split at h
  · exact (Option.some.inj h).symm
  · cases h

end Biei
