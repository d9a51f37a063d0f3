import Mathlib

/-!
# Varints

Numbers in base 128, the least significant digit first, where the high bit of a byte tells that more follow. A number has many
varints, of which the shortest is the one it is encoded as; a column is one varint after the other.
-/

namespace Varint

/-- The bytes are one varint: all but the last tell that more follow. -/
def Closed : List UInt8 → Prop
  | [] => False
  | [b] => b.toNat < 128
  | b :: c :: rest => 128 ≤ b.toNat ∧ Closed (c :: rest)

/-- The number that the digits stand for. -/
def value : List UInt8 → Nat
  | [] => 0
  | b :: rest => b.toNat % 128 + 128 * value rest

/-- A varint of the number, in at most `k` bytes, and the number is below the bound. -/
structure Encodes (k bound : Nat) (bytes : List UInt8) (n : Nat) : Prop where
  closed : Closed bytes
  length_le : bytes.length ≤ k
  value_eq : value bytes = n
  lt : n < bound

/-- One varint after the other. -/
inductive Column (k bound : Nat) : List Nat → List UInt8 → Prop where
  | nil : Column k bound [] []
  | cons {n : Nat} {ns : List Nat} {bytes rest : List UInt8} : Encodes k bound bytes n → Column k bound ns rest →
      Column k bound (n :: ns) (bytes ++ rest)

/-- The shortest varint of a number. -/
def encode (n : Nat) : List UInt8 :=
  if n < 128 then [UInt8.ofNat n] else UInt8.ofNat (n % 128 + 128) :: encode (n / 128)
termination_by n

variable {k bound : Nat} {bytes : List UInt8}

theorem Closed.ne_nil (h : Closed bytes) : bytes ≠ [] := by
  rintro rfl
  exact h

theorem Closed.length_pos (h : Closed bytes) : 0 < bytes.length := List.length_pos_iff.mpr h.ne_nil

/-- A varint of more than one byte. -/
theorem closed_cons_iff {b : UInt8} {rest : List UInt8} :
    Closed (b :: rest) ↔ (rest = [] ∧ b.toNat < 128) ∨ (128 ≤ b.toNat ∧ Closed rest) := by
  cases rest with
  | nil => simp [Closed]
  | cons c rest => simp [Closed]

variable {n : Nat}

theorem encode_of_lt (h : n < 128) : encode n = [UInt8.ofNat n] := by
  rw [encode, if_pos h]

theorem encode_of_ge (h : 128 ≤ n) : encode n = UInt8.ofNat (n % 128 + 128) :: encode (n / 128) := by
  rw [encode, if_neg (Nat.not_lt.mpr h)]

theorem closed_encode (n : Nat) : Closed (encode n) := by
  induction n using Nat.strongRecOn with
  | ind n ih =>
    rcases Nat.lt_or_ge n 128 with hlt | hge
    · rw [encode_of_lt hlt, closed_cons_iff]
      refine Or.inl ⟨rfl, ?_⟩
      rw [UInt8.toNat_ofNat']
      omega
    · rw [encode_of_ge hge, closed_cons_iff]
      refine Or.inr ⟨?_, ih (n / 128) (by omega)⟩
      rw [UInt8.toNat_ofNat']
      omega

theorem value_encode (n : Nat) : value (encode n) = n := by
  induction n using Nat.strongRecOn with
  | ind n ih =>
    rcases Nat.lt_or_ge n 128 with hlt | hge
    · rw [encode_of_lt hlt, value, value, UInt8.toNat_ofNat']
      omega
    · rw [encode_of_ge hge, value, ih (n / 128) (by omega), UInt8.toNat_ofNat']
      omega

theorem length_encode_le (h : n < 128 ^ (k + 1)) : (encode n).length ≤ k + 1 := by
  induction k generalizing n with
  | zero =>
    rw [encode_of_lt (by simpa using h)]
    exact Nat.le_refl _
  | succ k ih =>
    rcases Nat.lt_or_ge n 128 with hlt | hge
    · rw [encode_of_lt hlt]
      simp
    · have hdiv : n / 128 < 128 ^ (k + 1) := by
        rw [Nat.pow_succ] at h
        omega
      rw [encode_of_ge hge, List.length_cons]
      exact Nat.succ_le_succ (ih hdiv)

/-- What a number is encoded as is a varint of it. -/
theorem encodes_encode (hn : n < bound) (hk : bound ≤ 128 ^ (k + 1)) : Encodes (k + 1) bound (encode n) n :=
  ⟨closed_encode n, length_encode_le (Nat.lt_of_lt_of_le hn hk), value_encode n, hn⟩

theorem column_encode {ns : List Nat} (hns : ∀ n ∈ ns, n < bound) (hk : bound ≤ 128 ^ (k + 1)) :
    Column (k + 1) bound ns (ns.flatMap encode) := by
  induction ns with
  | nil => exact .nil
  | cons n ns ih =>
    exact .cons (encodes_encode (hns n List.mem_cons_self) hk) (ih fun m hm => hns m (List.mem_cons_of_mem _ hm))

/-- Each varint of a column takes a byte at least. -/
theorem Column.length_le {ns : List Nat} (h : Column k bound ns bytes) : ns.length ≤ bytes.length := by
  induction h with
  | nil => exact Nat.le_refl _
  | cons hn _ ih =>
    rw [List.length_cons, List.length_append]
    have hpos := hn.closed.length_pos
    omega

end Varint
