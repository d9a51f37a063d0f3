import Mathlib

/-!
# Slices of a list

The part of a list between two positions, clipped at the end of the list, and how slices compose: a slice of a slice, two slices
that meet, and a slice whose end is clipped by hand.
-/

variable {α : Type*}

/-- The elements at positions `start ≤ i < stop`, as far as the list goes. -/
def slice (l : List α) (start stop : Nat) : List α := (l.drop start).take (stop - start)

@[simp]
theorem length_slice (l : List α) (a b : Nat) : (slice l a b).length = min b l.length - a := by
  rw [slice, List.length_take, List.length_drop]
  omega

@[simp]
theorem slice_self (l : List α) (a : Nat) : slice l a a = [] := by
  simp [slice]

/-- A slice of a slice, when it stays inside. -/
theorem slice_slice (l : List α) (a b i j : Nat) (h : a + j ≤ b) : slice (slice l a b) i j = slice l (a + i) (a + j) := by
  unfold slice
  rw [List.drop_take, List.drop_drop, List.take_take, Nat.min_eq_left (by omega)]
  congr 1
  omega

/-- Two slices that meet are one slice. -/
theorem slice_append_slice (l : List α) {a b c : Nat} (hab : a ≤ b) (hbc : b ≤ c) : slice l a b ++ slice l b c = slice l a c := by
  unfold slice
  have hdrop : l.drop b = (l.drop a).drop (b - a) := by
    rw [List.drop_drop]
    congr 1
    omega
  rw [hdrop, show c - a = (b - a) + (c - b) by omega, List.take_add]

/-- A slice whose bounds are checked; `none` stands for a panic. -/
def slice? (l : List α) (start stop : Nat) : Option (List α) :=
  if start ≤ stop ∧ stop ≤ l.length then some (slice l start stop) else none

theorem slice?_eq_some {l : List α} {a b : Nat} (hab : a ≤ b) (hb : b ≤ l.length) : slice? l a b = some (slice l a b) :=
  if_pos ⟨hab, hb⟩

/-- The second of two parts. -/
theorem slice_append_right (l m : List α) : slice (l ++ m) l.length (l ++ m).length = m := by
  simp [slice]

/-! ## Numbers as bytes

A number in a fixed count of bytes, the least significant first, and the number that bytes stand for. The big-endian form is the
same in reverse. -/

/-- The low `k` bytes of a number, the least significant first. -/
def leBytes : Nat → Nat → List UInt8
  | 0, _ => []
  | k + 1, n => UInt8.ofNat n :: leBytes k (n / 256)

/-- The number that bytes stand for, the least significant first. -/
def ofLeBytes : List UInt8 → Nat
  | [] => 0
  | b :: bs => b.toNat + 256 * ofLeBytes bs

def beBytes (k n : Nat) : List UInt8 := (leBytes k n).reverse

def ofBeBytes (bs : List UInt8) : Nat := ofLeBytes bs.reverse

@[simp]
theorem length_leBytes (k n : Nat) : (leBytes k n).length = k := by
  induction k generalizing n with
  | zero => rfl
  | succ k ih => simp [leBytes, ih]

@[simp]
theorem length_beBytes (k n : Nat) : (beBytes k n).length = k := by
  simp [beBytes]

/-- A number that fits is read back. -/
theorem ofLeBytes_leBytes {k n : Nat} (h : n < 256 ^ k) : ofLeBytes (leBytes k n) = n := by
  induction k generalizing n with
  | zero =>
    simp only [Nat.pow_zero] at h
    simp only [leBytes, ofLeBytes]
    omega
  | succ k ih =>
    have hdiv : n / 256 < 256 ^ k := by
      rw [Nat.pow_succ] at h
      omega
    simp only [leBytes, ofLeBytes, ih hdiv, UInt8.toNat_ofNat']
    omega

theorem ofBeBytes_beBytes {k n : Nat} (h : n < 256 ^ k) : ofBeBytes (beBytes k n) = n := by
  rw [ofBeBytes, beBytes, List.reverse_reverse, ofLeBytes_leBytes h]

/-- Bytes stand for a number that fits into them. -/
theorem ofLeBytes_lt (bs : List UInt8) : ofLeBytes bs < 256 ^ bs.length := by
  induction bs with
  | nil => simp [ofLeBytes]
  | cons b bs ih =>
    have hb : b.toNat < 256 := b.toNat_lt
    rw [ofLeBytes, List.length_cons, Nat.pow_succ]
    omega

theorem ofBeBytes_lt (bs : List UInt8) : ofBeBytes bs < 256 ^ bs.length := by
  have h := ofLeBytes_lt bs.reverse
  rwa [List.length_reverse] at h

theorem beBytes_inj {k m n : Nat} (hm : m < 256 ^ k) (hn : n < 256 ^ k) (h : beBytes k m = beBytes k n) : m = n :=
  (ofBeBytes_beBytes hm).symm.trans ((congrArg ofBeBytes h).trans (ofBeBytes_beBytes hn))

/-- A text after its length can be told from what follows it. -/
theorem append_inj_of_beBytes_length {k : Nat} {l l' r r' : List UInt8} (hl : l.length < 256 ^ k) (hl' : l'.length < 256 ^ k)
    (h : beBytes k l.length ++ (l ++ r) = beBytes k l'.length ++ (l' ++ r')) : l = l' ∧ r = r' := by
  obtain ⟨hlen, hrest⟩ := List.append_inj h (by rw [length_beBytes, length_beBytes])
  exact List.append_inj hrest (beBytes_inj hl hl' hlen)
