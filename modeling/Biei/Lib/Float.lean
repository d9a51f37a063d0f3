import Mathlib.Algebra.Order.Ring.Nat
import Mathlib.Algebra.Order.Ring.Int

/-!
# Binary floats by their bits

The order of the binary interchange formats. A number that is not a NaN stands for a whole multiple of the least positive one,
with the infinities past all others; comparing is comparing these.
-/

/-- How many bits of a float are its exponent, and how many its mantissa. -/
structure FloatFormat where
  exponentBits : Nat
  mantissaBits : Nat

namespace FloatFormat

def mantissa (F : FloatFormat) (bits : Nat) : Nat := bits % 2 ^ F.mantissaBits

def exponent (F : FloatFormat) (bits : Nat) : Nat := bits / 2 ^ F.mantissaBits % 2 ^ F.exponentBits

def isNegative (F : FloatFormat) (bits : Nat) : Bool := bits / 2 ^ (F.mantissaBits + F.exponentBits) % 2 == 1

def isFinite (F : FloatFormat) (bits : Nat) : Bool := F.exponent bits + 1 != 2 ^ F.exponentBits

def isNaN (F : FloatFormat) (bits : Nat) : Bool := !F.isFinite bits && F.mantissa bits != 0

/-- The absolute value, in multiples of the least positive float. -/
def magnitude (F : FloatFormat) (bits : Nat) : Nat :=
  if F.exponent bits = 0 then F.mantissa bits else (2 ^ F.mantissaBits + F.mantissa bits) * 2 ^ (F.exponent bits - 1)

/-- The value, in multiples of the least positive float. -/
def units (F : FloatFormat) (bits : Nat) : Int := if F.isNegative bits then -(F.magnitude bits : Int) else F.magnitude bits

/-- `a <= b`, false for a NaN. -/
def le (F : FloatFormat) (a b : Nat) : Bool := !F.isNaN a && !F.isNaN b && decide (F.units a ≤ F.units b)

/-- `a == b`, false for a NaN; the zeros are equal. -/
def eq (F : FloatFormat) (a b : Nat) : Bool := F.le a b && F.le b a

/-- `(lo..=hi).contains(&a)`. -/
def contains (F : FloatFormat) (lo hi a : Nat) : Bool := F.le lo a && F.le a hi

/-- The lesser of two floats, and the one that is a number when the other is a NaN. -/
def min (F : FloatFormat) (a b : Nat) : Nat := if F.isNaN a then b else if F.isNaN b then a else if F.units b < F.units a then
    b else a

def max (F : FloatFormat) (a b : Nat) : Nat := if F.isNaN a then b else if F.isNaN b then a else if F.units a < F.units b then
    b else a

variable {F : FloatFormat} {a b : Nat}

theorem le_iff : F.le a b = true ↔ F.isNaN a = false ∧ F.isNaN b = false ∧ F.units a ≤ F.units b := by
  simp [le, and_assoc]

theorem contains_iff {lo hi a : Nat} : F.contains lo hi a = true ↔ F.le lo a = true ∧ F.le a hi = true := by
  simp [contains]

theorem isNaN_of_isFinite {a : Nat} (h : F.isFinite a = true) : F.isNaN a = false := by
  simp [isNaN, h]

/-! ## Infinities -/

theorem exponent_lt (a : Nat) : F.exponent a < 2 ^ F.exponentBits := Nat.mod_lt _ (Nat.two_pow_pos _)

theorem mantissa_lt (a : Nat) : F.mantissa a < 2 ^ F.mantissaBits := Nat.mod_lt _ (Nat.two_pow_pos _)

/-- An infinity is past every finite float. -/
theorem magnitude_lt_of_isFinite (hexponent : 1 < F.exponentBits) (ha : F.isFinite a = true) (hb : F.isFinite b = false) :
    F.magnitude a < F.magnitude b := by
  have hlast : F.exponent b + 1 = 2 ^ F.exponentBits := by simpa [isFinite] using hb
  have hbefore : F.exponent a + 1 < 2 ^ F.exponentBits := by
    have hne : F.exponent a + 1 ≠ 2 ^ F.exponentBits := by simpa [isFinite] using ha
    have hlt := exponent_lt (F := F) a
    omega
  have hfour : 2 ^ 2 ≤ 2 ^ F.exponentBits := Nat.pow_le_pow_right (by decide) hexponent
  have hinfinite : 2 ^ F.mantissaBits * 2 ^ (F.exponent b - 1) ≤ F.magnitude b := by
    unfold magnitude
    rw [if_neg (by omega)]
    exact Nat.mul_le_mul_right _ (Nat.le_add_right _ _)
  refine Nat.lt_of_lt_of_le ?_ hinfinite
  have hmantissa := mantissa_lt (F := F) a
  unfold magnitude
  split
  · calc F.mantissa a < 2 ^ F.mantissaBits := hmantissa
      _ ≤ 2 ^ F.mantissaBits * 2 ^ (F.exponent b - 1) := Nat.le_mul_of_pos_right _ (Nat.two_pow_pos _)
  · rename_i hnormal
    calc (2 ^ F.mantissaBits + F.mantissa a) * 2 ^ (F.exponent a - 1)
        < (2 ^ F.mantissaBits * 2) * 2 ^ (F.exponent a - 1) :=
          Nat.mul_lt_mul_of_pos_right (by omega) (Nat.two_pow_pos _)
      _ = 2 ^ F.mantissaBits * 2 ^ (F.exponent a - 1 + 1) := by rw [Nat.mul_assoc, ← Nat.pow_succ']
      _ ≤ 2 ^ F.mantissaBits * 2 ^ (F.exponent b - 1) :=
          Nat.mul_le_mul_left _ (Nat.pow_le_pow_right (by decide) (by omega))

/-- Between two finite floats there are finite floats only. -/
theorem isFinite_of_contains (hexponent : 1 < F.exponentBits) {lo hi a : Nat} (hlo : F.isFinite lo = true)
    (hhi : F.isFinite hi = true)
    (h : F.contains lo hi a = true) : F.isFinite a = true := by
  obtain ⟨hlow, hhigh⟩ := contains_iff.mp h
  obtain ⟨-, -, hlow⟩ := le_iff.mp hlow
  obtain ⟨-, -, hhigh⟩ := le_iff.mp hhigh
  by_contra hinfinite
  have hinfinite : F.isFinite a = false := by simpa using hinfinite
  have hlow' := magnitude_lt_of_isFinite hexponent hlo hinfinite
  have hhigh' := magnitude_lt_of_isFinite hexponent hhi hinfinite
  unfold units at hlow hhigh
  split_ifs at hlow hhigh <;> omega

/-! ## The least and the greatest -/

theorem min_cases (a b : Nat) : F.min a b = a ∨ F.min a b = b := by
  unfold min
  split
  · exact Or.inr rfl
  · split
    · exact Or.inl rfl
    · split
      · exact Or.inr rfl
      · exact Or.inl rfl

theorem max_cases (a b : Nat) : F.max a b = a ∨ F.max a b = b := by
  unfold max
  split
  · exact Or.inr rfl
  · split
    · exact Or.inl rfl
    · split
      · exact Or.inr rfl
      · exact Or.inl rfl

theorem min_le (ha : F.isNaN a = false) (hb : F.isNaN b = false) :
    F.le (F.min a b) a = true ∧ F.le (F.min a b) b = true := by
  unfold min
  rw [if_neg (by simp [ha]), if_neg (by simp [hb])]
  simp only [le_iff]
  split
  · exact ⟨⟨hb, ha, by omega⟩, hb, hb, by omega⟩
  · exact ⟨⟨ha, ha, by omega⟩, ha, hb, by omega⟩

theorem le_max (ha : F.isNaN a = false) (hb : F.isNaN b = false) :
    F.le a (F.max a b) = true ∧ F.le b (F.max a b) = true := by
  unfold max
  rw [if_neg (by simp [ha]), if_neg (by simp [hb])]
  simp only [le_iff]
  split
  · exact ⟨⟨ha, hb, by omega⟩, hb, hb, by omega⟩
  · exact ⟨⟨ha, ha, by omega⟩, hb, ha, by omega⟩

theorem le_trans {a b c : Nat} (hab : F.le a b = true) (hbc : F.le b c = true) : F.le a c = true := by
  obtain ⟨ha, -, hle⟩ := le_iff.mp hab
  obtain ⟨-, hc, hle'⟩ := le_iff.mp hbc
  exact le_iff.mpr ⟨ha, hc, hle.trans hle'⟩

theorem le_refl {a : Nat} (ha : F.isNaN a = false) : F.le a a = true := le_iff.mpr ⟨ha, ha, Int.le_refl _⟩

end FloatFormat
