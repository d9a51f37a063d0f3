import Mathlib

/-!
# Ordered maps

A finite map kept as the list of its entries in strictly ascending order of the keys, the shape of a B-tree map: lookup,
insertion, removal, and an iteration order that is the order of the keys.
-/

/-- A finite map from a linear order, as the list of its entries with strictly ascending keys. -/
structure OrderedMap (κ : Type*) (ν : Type*) [LinearOrder κ] where
  toList : List (κ × ν)
  sorted : toList.Pairwise fun a b => a.1 < b.1

namespace OrderedMap

variable {κ ν μ : Type*} [LinearOrder κ]

/-- Two ordered maps with the same entries in order are equal. -/
@[ext]
theorem ext_toList {m n : OrderedMap κ ν} (h : m.toList = n.toList) : m = n := by
  cases m
  cases n
  simpa using h

/-- The empty map. -/
def empty : OrderedMap κ ν := ⟨[], List.Pairwise.nil⟩

/-- What the map has for a key. -/
def get? (m : OrderedMap κ ν) (k : κ) : Option ν := (m.toList.find? fun e => e.1 == k).map Prod.snd

/-- The map without the entry of a key. -/
def erase (m : OrderedMap κ ν) (k : κ) : OrderedMap κ ν := ⟨m.toList.filter fun e => e.1 != k, m.sorted.filter _⟩

/-- The entries before a key, the entry of the key, and the entries after it. -/
def insertEntries (l : List (κ × ν)) (k : κ) (v : ν) : List (κ × ν) :=
  l.filter (fun e => decide (e.1 < k)) ++ (k, v) :: l.filter fun e => decide (k < e.1)

theorem pairwise_insertEntries {l : List (κ × ν)} (h : l.Pairwise fun a b => a.1 < b.1) (k : κ) (v : ν) :
    (insertEntries l k v).Pairwise fun a b => a.1 < b.1 := by
  refine List.pairwise_append.mpr ⟨h.filter _, List.pairwise_cons.mpr ⟨fun e he => ?_, h.filter _⟩, fun a ha b hb => ?_⟩
  · exact of_decide_eq_true (List.mem_filter.mp he).2
  · have hlt : a.1 < k := of_decide_eq_true (List.mem_filter.mp ha).2
    rcases List.mem_cons.mp hb with rfl | hb
    · exact hlt
    · exact hlt.trans (of_decide_eq_true (List.mem_filter.mp hb).2)

/-- The map with an entry replaced or added. -/
def insert (m : OrderedMap κ ν) (k : κ) (v : ν) : OrderedMap κ ν :=
    ⟨insertEntries m.toList k v, pairwise_insertEntries m.sorted k v⟩

/-- The values, in the order of their keys. -/
def values (m : OrderedMap κ ν) : List ν := m.toList.map Prod.snd

/-- The map with every value replaced. -/
def mapValues (f : κ → ν → μ) (m : OrderedMap κ ν) : OrderedMap κ μ :=
  ⟨m.toList.map fun e => (e.1, f e.1 e.2), m.sorted.map _ fun _ _ h => h⟩

@[simp]
theorem get?_empty (k : κ) : (empty : OrderedMap κ ν).get? k = none := rfl

/-- No key comes twice. -/
theorem nodup_keys (m : OrderedMap κ ν) : (m.toList.map Prod.fst).Nodup := by
  rw [List.nodup_iff_pairwise_ne, List.pairwise_map]
  exact m.sorted.imp ne_of_lt

variable {m : OrderedMap κ ν} {k : κ} {v : ν}

/-- What is found is an entry, and every entry is found. -/
theorem get?_eq_some : m.get? k = some v ↔ (k, v) ∈ m.toList := by
  constructor
  · intro h
    obtain ⟨⟨k', v'⟩, hfind, rfl⟩ := Option.map_eq_some_iff.mp h
    have hkey : k' = k := by simpa using List.find?_some hfind
    exact hkey ▸ List.mem_of_find?_eq_some hfind
  · intro h
    cases hfind : m.toList.find? fun e => e.1 == k with
    | none => exact absurd (beq_self_eq_true k) (by simpa using List.find?_eq_none.mp hfind (k, v) h)
    | some e =>
      have hkey : e.1 = k := by simpa using List.find?_some hfind
      have heq : e = (k, v) := List.inj_on_of_nodup_map m.nodup_keys (List.mem_of_find?_eq_some hfind) h hkey
      rw [get?, hfind, heq]
      rfl

theorem get?_eq_none : m.get? k = none ↔ ∀ v, (k, v) ∉ m.toList := by
  rw [Option.eq_none_iff_forall_ne_some]
  exact forall_congr' fun v => not_congr get?_eq_some

/-- Two maps in which everything is found alike are equal. -/
theorem ext_get? {m n : OrderedMap κ ν} (h : ∀ k, m.get? k = n.get? k) : m = n := by
  refine ext_toList (List.Perm.eq_of_pairwise (fun a b _ _ hab hba => absurd hab (lt_asymm hba)) m.sorted n.sorted ?_)
  rw [List.perm_ext_iff_of_nodup m.nodup_keys.of_map n.nodup_keys.of_map]
  intro ⟨k, v⟩
  rw [← get?_eq_some, ← get?_eq_some, h]

theorem mem_erase {e : κ × ν} : e ∈ (m.erase k).toList ↔ e ∈ m.toList ∧ e.1 ≠ k := by
  rw [erase, List.mem_filter, bne_iff_ne]

theorem mem_insert {e : κ × ν} :
    e ∈ (m.insert k v).toList ↔ e = (k, v) ∨ e ∈ m.toList ∧ e.1 ≠ k := by
  simp only [insert, insertEntries, List.mem_append, List.mem_cons, List.mem_filter, decide_eq_true_eq]
  constructor
  · rintro (⟨he, hlt⟩ | rfl | ⟨he, hlt⟩)
    · exact Or.inr ⟨he, hlt.ne⟩
    · exact Or.inl rfl
    · exact Or.inr ⟨he, hlt.ne'⟩
  · rintro (rfl | ⟨he, hne⟩)
    · exact Or.inr (Or.inl rfl)
    · rcases lt_or_gt_of_ne hne with hlt | hlt
      · exact Or.inl ⟨he, hlt⟩
      · exact Or.inr (Or.inr ⟨he, hlt⟩)

@[simp]
theorem get?_insert_self (m : OrderedMap κ ν) (k : κ) (v : ν) : (m.insert k v).get? k = some v :=
  get?_eq_some.mpr (mem_insert.mpr (Or.inl rfl))

variable {k k' : κ}

/-- What is found after an insertion. -/
theorem get?_insert_eq_some {v v' : ν} :
    (m.insert k v).get? k' = some v' ↔ (k' = k ∧ v' = v) ∨ (k' ≠ k ∧ m.get? k' = some v') := by
  rw [get?_eq_some, mem_insert, get?_eq_some, Prod.mk.injEq]
  exact or_congr Iff.rfl and_comm

/-- What is found after a removal. -/
theorem get?_erase_eq_some :
    (m.erase k).get? k' = some v ↔ k' ≠ k ∧ m.get? k' = some v := by
  rw [get?_eq_some, mem_erase, get?_eq_some, and_comm]

@[simp]
theorem get?_erase_self (m : OrderedMap κ ν) (k : κ) : (m.erase k).get? k = none :=
  get?_eq_none.mpr fun _ h => (mem_erase.mp h).2 rfl

theorem get?_insert_of_ne (h : k' ≠ k) : (m.insert k v).get? k' = m.get? k' := by
  refine Option.ext fun v' => ?_
  rw [get?_insert_eq_some]
  exact ⟨fun hor => (hor.resolve_left fun hk => h hk.1).2, fun hv => Or.inr ⟨h, hv⟩⟩

theorem get?_erase_of_ne (h : k' ≠ k) : (m.erase k).get? k' = m.get? k' := by
  refine Option.ext fun v' => ?_
  rw [get?_erase_eq_some]
  exact ⟨And.right, fun hv => ⟨h, hv⟩⟩

/-- An insertion replaces what there was for the key. -/
theorem insert_erase (m : OrderedMap κ ν) (k : κ) (v : ν) : (m.erase k).insert k v = m.insert k v := by
  refine ext_get? fun k' => ?_
  by_cases hk : k' = k
  · subst hk
    rw [get?_insert_self, get?_insert_self]
  · rw [get?_insert_of_ne hk, get?_insert_of_ne hk, get?_erase_of_ne hk]

/-- A key that is not there cannot be removed. -/
theorem erase_of_none (h : m.get? k = none) : m.erase k = m := by
  refine ext_get? fun k' => ?_
  by_cases hk : k' = k
  · subst hk
    rw [get?_erase_self, h]
  · rw [get?_erase_of_ne hk]

/-- An insertion adds its entry to what is left without the key. -/
theorem toList_insert_perm (m : OrderedMap κ ν) (k : κ) (v : ν) : (m.insert k v).toList.Perm ((k, v) :: (m.erase k).toList) := by
  have hnodup : ∀ n : OrderedMap κ ν, n.toList.Nodup := fun n => n.nodup_keys.of_map
  refine (List.perm_ext_iff_of_nodup (hnodup _) (List.nodup_cons.mpr ⟨fun h => (mem_erase.mp h).2 rfl, hnodup _⟩)).mpr fun e => ?_
  rw [mem_insert, List.mem_cons, mem_erase]

/-- An entry and what is left without its key. -/
theorem toList_perm_erase (h : m.get? k = some v) :
    m.toList.Perm ((k, v) :: (m.erase k).toList) := by
  have hnodup : ∀ n : OrderedMap κ ν, n.toList.Nodup := fun n => n.nodup_keys.of_map
  refine (List.perm_ext_iff_of_nodup (hnodup _) (List.nodup_cons.mpr ⟨fun h => (mem_erase.mp h).2 rfl, hnodup _⟩)).mpr fun e => ?_
  rw [List.mem_cons, mem_erase]
  constructor
  · intro he
    by_cases hk : e.1 = k
    · exact Or.inl (List.inj_on_of_nodup_map m.nodup_keys he (get?_eq_some.mp h) hk)
    · exact Or.inr ⟨he, hk⟩
  · rintro (rfl | ⟨he, -⟩)
    · exact get?_eq_some.mp h
    · exact he

/-- The sum of a map of numbers, with one entry replaced. -/
theorem sum_values_insert (m : OrderedMap κ Nat) (k : κ) (v : Nat) :
    (m.insert k v).values.sum + (m.get? k).getD 0 = m.values.sum + v := by
  have hins : (m.insert k v).values.sum = v + (m.erase k).values.sum := by
    have hperm := (m.toList_insert_perm k v).map Prod.snd
    simpa [values] using hperm.sum_nat
  cases hget : m.get? k with
  | none =>
    rw [hins, erase_of_none hget, Option.getD_none]
    omega
  | some c =>
    have hperm := (toList_perm_erase hget).map Prod.snd
    have hsum : m.values.sum = c + (m.erase k).values.sum := by simpa [values] using hperm.sum_nat
    rw [hins, hsum, Option.getD_some]
    omega

/-- The sum of a map of numbers, without an entry. -/
theorem sum_values_erase {m : OrderedMap κ Nat} {c : Nat} (h : m.get? k = some c) :
    (m.erase k).values.sum + c = m.values.sum := by
  have hperm := (toList_perm_erase h).map Prod.snd
  have hsum : m.values.sum = c + (m.erase k).values.sum := by simpa [values] using hperm.sum_nat
  omega

@[simp]
theorem get?_mapValues (f : κ → ν → μ) (m : OrderedMap κ ν) (k : κ) : (m.mapValues f).get? k = (m.get? k).map (f k) := by
  refine Option.ext fun v => ?_
  rw [get?_eq_some, Option.map_eq_some_iff]
  constructor
  · intro h
    obtain ⟨e, he, heq⟩ := List.mem_map.mp h
    cases heq
    exact ⟨e.2, get?_eq_some.mpr he, rfl⟩
  · rintro ⟨w, hw, rfl⟩
    exact List.mem_map.mpr ⟨(k, w), get?_eq_some.mp hw, rfl⟩

theorem mapValues_insert (f : κ → ν → μ) (m : OrderedMap κ ν) (k : κ) (v : ν) :
    (m.insert k v).mapValues f = (m.mapValues f).insert k (f k v) := by
  refine ext_get? fun k' => ?_
  by_cases hk : k' = k
  · subst hk
    simp
  · rw [get?_mapValues, get?_insert_of_ne hk, get?_insert_of_ne hk, get?_mapValues]

theorem mapValues_erase (f : κ → ν → μ) (m : OrderedMap κ ν) (k : κ) : (m.erase k).mapValues f = (m.mapValues f).erase k := by
  refine ext_get? fun k' => ?_
  by_cases hk : k' = k
  · subst hk
    simp
  · rw [get?_mapValues, get?_erase_of_ne hk, get?_erase_of_ne hk, get?_mapValues]

/-! ## Maps into lists -/

/-- A value is added at the end of the list of a key, which is empty at first. -/
def push (m : OrderedMap κ (List ν)) (e : κ × ν) : OrderedMap κ (List ν) := m.insert e.1 ((m.get? e.1).getD [] ++ [e.2])

end OrderedMap
