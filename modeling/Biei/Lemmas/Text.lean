import Biei.Text

/-! # Texts that are split, and numbers that are read -/

namespace Biei

/-! ## Bytes -/

theorem forall_byte {P : UInt8 → Prop} (h : ∀ n : Fin 256, P (.ofFin n)) (byte : UInt8) : P byte := h byte.toFin

theorem length_utf8 (s : String) : (utf8 s).length = s.utf8ByteSize := by
  rw [utf8, Array.length_toList]
  rfl

theorem utf8_injective : Function.Injective utf8 := fun s t h => by
  have hdata : s.toByteArray.data = t.toByteArray.data := Array.toList_inj.mp h
  exact String.toByteArray_inj.mp (ByteArray.ext hdata)

theorem utf8_append (s t : String) : utf8 (s ++ t) = utf8 s ++ utf8 t := by
  simp [utf8, String.toByteArray_append]

theorem utf8_eq_flatMap (s : String) : utf8 s = s.toList.flatMap String.utf8EncodeChar := by
  rw [utf8, ← String.utf8Encode_toList, List.utf8Encode]
  simp

/-- Below 128, a byte of a character's encoding is the character. -/
theorem mem_utf8EncodeChar_iff {c d : Char} (hd : d.toNat < 128) : UInt8.ofNat d.toNat ∈ String.utf8EncodeChar c ↔ c = d := by
  have hbyte : ∀ n, UInt8.ofNat d.toNat = UInt8.ofNat n ↔ d.toNat = n % 256 := by
    intro n
    rw [← UInt8.toNat_inj, UInt8.toNat_ofNat', UInt8.toNat_ofNat', Nat.mod_eq_of_lt (by omega : d.toNat < 2 ^ 8)]
  have hinj : c = d ↔ c.val.toNat = d.toNat := ⟨fun h => h ▸ rfl, fun h => Char.ext (UInt32.toNat_inj.mp h)⟩
  unfold String.utf8EncodeChar
  extract_lets v
  split
  · rw [List.mem_singleton, hbyte, hinj]
    omega
  · have hne : c.val.toNat ≠ d.toNat := by omega
    split <;> [skip; split] <;> simp only [List.mem_cons, List.not_mem_nil, hbyte, hinj, hne, or_false, iff_false] <;> omega

variable {c : Char}

theorem mem_utf8_iff {s : String} (hc : c.toNat < 128) : UInt8.ofNat c.toNat ∈ utf8 s ↔ c ∈ s.toList := by
  rw [utf8_eq_flatMap, List.mem_flatMap]
  simp only [mem_utf8EncodeChar_iff hc, exists_eq_right]
/-! ## Splitting -/

theorem splitOnce_append {before : List Char} (h : c ∉ before) (after : List Char) :
    splitOnce c (before ++ c :: after) = some (before, after) := by
  induction before with
  | nil => simp [splitOnce]
  | cons d before ih =>
    have hne : d ≠ c := fun hd => h (hd ▸ List.mem_cons_self)
    have htail := ih fun hc => h (List.mem_cons_of_mem d hc)
    simp [splitOnce, hne, htail]

/-- Where a text was split. -/
theorem splitOnce_eq_some {text before after : List Char} (h : splitOnce c text = some (before, after)) :
    text = before ++ c :: after ∧ c ∉ before := by
  induction text generalizing before with
  | nil => cases h
  | cons d text ih =>
    unfold splitOnce at h
    split at h
    · rename_i hd
      cases h
      exact ⟨by rw [hd]; rfl, List.not_mem_nil⟩
    · rename_i hd
      obtain ⟨⟨before', after'⟩, hsplit, heq⟩ := Option.map_eq_some_iff.mp h
      cases heq
      obtain ⟨rfl, hmem⟩ := ih hsplit
      refine ⟨rfl, fun hc => ?_⟩
      rcases List.mem_cons.mp hc with rfl | hc
      · exact hd rfl
      · exact hmem hc

theorem rsplitOnce_append {after : List Char} (h : c ∉ after) (before : List Char) :
    rsplitOnce c (before ++ c :: after) = some (before, after) := by
  have hreverse : (before ++ c :: after).reverse = after.reverse ++ c :: before.reverse := by simp
  rw [rsplitOnce, hreverse, splitOnce_append (by simpa using h)]
  simp

variable {text : List Char}

theorem splitOnce_eq_none (h : c ∉ text) : splitOnce c text = none := by
  cases hsplit : splitOnce c text with
  | none => rfl
  | some parts =>
    obtain ⟨before, after⟩ := parts
    obtain ⟨rfl, -⟩ := splitOnce_eq_some hsplit
    exact absurd List.mem_append_cons_self h

theorem rsplitOnce_eq_none (h : c ∉ text) : rsplitOnce c text = none := by
  rw [rsplitOnce, splitOnce_eq_none (by simpa using h)]
  rfl

theorem stripLead_append (lead text : List Char) : stripLead lead (lead ++ text) = some text := by
  induction lead with
  | nil => cases text <;> rfl
  | cons c lead ih => simp [stripLead, ih]

/-! ## Numbers -/

theorem isDigit_of_mem_repr {n : Nat} (h : c ∈ n.repr.toList) : c.isDigit = true := by
  rw [Nat.toList_repr] at h
  exact Nat.isDigit_of_mem_toDigits (by decide) (by decide) h

theorem not_mem_repr {n : Nat} (h : c.isDigit = false) : c ∉ n.repr.toList := by
  intro hc
  rw [isDigit_of_mem_repr hc] at h
  cases h

theorem digitChar_toNat : ∀ d < 10, (Nat.digitChar d).toNat - 48 = d := by
  decide

theorem decimal_toDigits (n : Nat) : decimal (Nat.toDigits 10 n) = n := by
  induction n using Nat.strongRecOn with
  | ind n ih =>
    rcases Nat.lt_or_ge n 10 with hlt | hge
    · rw [Nat.toDigits_of_lt_base hlt]
      simp [decimal, digitChar_toNat n hlt]
    · have hdiv := ih (n / 10) (by omega)
      have hdigit := digitChar_toNat (n % 10) (by omega)
      unfold decimal at hdiv
      rw [Nat.toDigits_of_base_le (by decide) hge, decimal, List.foldl_append, hdiv]
      simp only [List.foldl_cons, List.foldl_nil, hdigit]
      omega

/-- A number that fits is read back from its decimal text. -/
theorem parseUnsigned_repr {bound n : Nat} (h : n < bound) : parseUnsigned bound n.repr.toList = some n := by
  have hdigits : ∀ c ∈ n.repr.toList, c.isDigit = true := fun c => isDigit_of_mem_repr
  have hne : n.repr.toList ≠ [] := by
    rw [Nat.toList_repr]
    exact Nat.toDigits_ne_nil
  have hvalue : decimal n.repr.toList = n := by
    rw [Nat.toList_repr]
    exact decimal_toDigits n
  unfold parseUnsigned
  cases htext : n.repr.toList with
  | nil => exact absurd htext hne
  | cons c rest =>
    have hplus : c ≠ '+' := by
      rintro rfl
      exact absurd (hdigits '+' (htext ▸ List.mem_cons_self)) (by decide)
    rw [htext] at hdigits hvalue
    have hall : (c :: rest).all Char.isDigit = true := List.all_eq_true.mpr hdigits
    simp only [hplus, if_false, hall, hvalue, h, if_true, List.isEmpty_cons, Bool.not_true, Bool.or_false, Bool.false_eq_true]

/-- What is read fits. -/
theorem parseUnsigned_lt {bound n : Nat} (h : parseUnsigned bound text = some n) : n < bound := by
  unfold parseUnsigned at h
  extract_lets digits at h
  split at h
  · cases h
  · split at h
    · rename_i hlt
      cases h
      exact hlt
    · cases h

end Biei
