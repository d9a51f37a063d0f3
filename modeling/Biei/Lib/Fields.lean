import Mathlib

/-!
# Fields of a record

A record as the list of its named fields: reading a field, giving one that is there another value, and adding one where its name
comes in order. What each leaves alone is said of every part of the list that the name is not in.
-/

namespace Fields

variable {κ ν : Type*} [LinearOrder κ]

/-- The value of the first field of a name. -/
def get (fields : List (κ × ν)) (name : κ) : Option ν := (fields.find? fun field => field.1 == name).map Prod.snd

/-- The first field of a name with another value. -/
def set (name : κ) (value : ν) : List (κ × ν) → List (κ × ν)
  | [] => []
  | field :: fields => if field.1 = name then (name, value) :: fields else field :: set name value fields

/-- A field is given a value, or added before the first name that is greater. -/
def insert (fields : List (κ × ν)) (name : κ) (value : ν) : List (κ × ν) :=
  if fields.any fun field => field.1 == name then set name value fields
  else fields.takeWhile (fun field => decide (field.1 < name)) ++ (name, value) :: fields.dropWhile fun field =>
    decide (field.1 < name)

theorem get_cons (field : κ × ν) (fields : List (κ × ν)) (name : κ) :
    get (field :: fields) name = if field.1 = name then some field.2 else get fields name := by
  by_cases h : field.1 = name
  · simp [get, h]
  · simp [get, h]

variable {name : κ}

/-- What is read of a field is read of the part of the list that its name is in. -/
theorem get_eq_filter (keep : κ → Bool) (h : keep name = true) (fields : List (κ × ν)) :
    get fields name = get (fields.filter fun field => keep field.1) name := by
  induction fields with
  | nil => rfl
  | cons field fields ih =>
    rw [get_cons, List.filter_cons]
    by_cases hname : field.1 = name
    · rw [if_pos hname, hname, if_pos h, get_cons, if_pos hname]
    · rw [if_neg hname, ih]
      split
      · rw [get_cons, if_neg hname]
      · rfl

/-! ## Setting -/

theorem filter_set (keep : κ → Bool) (h : keep name = false) (value : ν) (fields : List (κ × ν)) :
    (set name value fields).filter (fun field => keep field.1) = fields.filter fun field => keep field.1 := by
  induction fields with
  | nil => rfl
  | cons field fields ih =>
    unfold set
    split
    · rename_i hname
      rw [List.filter_cons_of_neg (by simp [h]), List.filter_cons_of_neg (by simp [hname, h])]
    · rw [List.filter_cons, List.filter_cons, ih]

variable {fields : List (κ × ν)}

theorem get_set_self (value : ν) (h : (get fields name).isSome = true) :
    get (set name value fields) name = some value := by
  induction fields with
  | nil => cases h
  | cons field fields ih =>
    rw [get_cons] at h
    unfold set
    split
    · rw [get_cons, if_pos rfl]
    · rename_i hname
      rw [if_neg hname] at h
      rw [get_cons, if_neg hname, ih h]

/-- A field that has the value already. -/
theorem set_of_get {value : ν} (h : get fields name = some value) : set name value fields = fields := by
  induction fields with
  | nil => rfl
  | cons field fields ih =>
    rw [get_cons] at h
    unfold set
    split
    · rename_i hname
      rw [if_pos hname] at h
      rw [← hname, ← Option.some.inj h]
    · rename_i hname
      rw [if_neg hname] at h
      rw [ih h]

/-! ## Inserting -/

theorem any_eq_isSome (fields : List (κ × ν)) (name : κ) :
    (fields.any fun field => field.1 == name) = (get fields name).isSome := by
  rw [get, Option.isSome_map, Bool.eq_iff_iff, List.find?_isSome, List.any_eq_true]

theorem filter_insert (keep : κ → Bool) (h : keep name = false) (value : ν) (fields : List (κ × ν)) :
    (insert fields name value).filter (fun field => keep field.1) = fields.filter fun field => keep field.1 := by
  unfold insert
  split
  · exact filter_set keep h value fields
  · rw [List.filter_append, List.filter_cons, h, if_neg Bool.false_ne_true, ← List.filter_append, List.takeWhile_append_dropWhile]

theorem get_insert_self (fields : List (κ × ν)) (name : κ) (value : ν) : get (insert fields name value) name = some value := by
  unfold insert
  split
  · rename_i hany
    exact get_set_self value (any_eq_isSome fields name ▸ hany)
  · have hbefore : (fields.takeWhile fun field => decide (field.1 < name)).find? (fun field => field.1 == name) = none := by
      refine List.find?_eq_none.mpr fun field hfield hname => ?_
      have hlt : field.1 < name := by simpa using List.mem_takeWhile_imp hfield
      exact absurd (beq_iff_eq.mp hname) hlt.ne
    rw [get, List.find?_append, hbefore]
    simp

theorem insert_of_get {value : ν} (h : get fields name = some value) : insert fields name value = fields := by
  have hany : (fields.any fun field => field.1 == name) = true := by rw [any_eq_isSome, h]; rfl
  rw [insert, if_pos hany, set_of_get h]

theorem get_set_of_ne {name other : κ} (h : other ≠ name) (value : ν) (fields : List (κ × ν)) :
    get (set name value fields) other = get fields other := by
  have hother : (other != name) = true := bne_iff_ne.mpr h
  rw [get_eq_filter (· != name) hother, filter_set (· != name) (bne_self_eq_false name), ← get_eq_filter (· != name) hother]

theorem get_insert_of_ne {name other : κ} (h : other ≠ name) (fields : List (κ × ν)) (value : ν) :
    get (insert fields name value) other = get fields other := by
  have hother : (other != name) = true := bne_iff_ne.mpr h
  rw [get_eq_filter (· != name) hother, filter_insert (· != name) (bne_self_eq_false name), ← get_eq_filter (· != name) hother]

end Fields
