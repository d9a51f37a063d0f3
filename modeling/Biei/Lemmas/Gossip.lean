import Biei.Lib.Fold
import Biei.Lib.Update
import Biei.Lemmas.Text
import Biei.Gossip

/-! # Reading gossip back -/

namespace Biei

/-! ## Values -/

/-- The revision of a style with a name is read back, whatever the name is. -/
theorem StyleRevision.parse_toGossipValue {revision : StyleRevision} (h : revision.id.id ≠ "") :
    parseGossipValue revision.toGossipValue = some revision := by
  obtain ⟨⟨id⟩, version⟩ := revision
  have hsplit : rsplitOnce '@' (toGossipValue ⟨⟨id⟩, version⟩).toList = some (id.toList, version.toNat.repr.toList) := by
    have htext : (toGossipValue ⟨⟨id⟩, version⟩).toList = id.toList ++ '@' :: version.toNat.repr.toList := by
      simp [toGossipValue]
    rw [htext, rsplitOnce_append (not_mem_repr (by decide))]
  have hempty : id.toList.isEmpty = false := by
    rw [List.isEmpty_eq_false_iff]
    exact fun hnil => h (by simpa using hnil)
  have hversion : parseUnsigned u64Bound version.toNat.repr.toList = some version.toNat := parseUnsigned_repr version.toNat_lt
  simp only [parseGossipValue, hsplit, hempty, hversion, Option.bind_eq_bind, Option.bind_some, Bool.false_eq_true, if_false,
    String.ofList_toList, UInt64.ofNat_toNat]

theorem StyleRevision.toGossipValue_ne_empty (revision : StyleRevision) : revision.toGossipValue.isEmpty = false := by
  rw [String.isEmpty_eq_false_iff]
  intro h
  have hlist := congrArg String.toList h
  simp [toGossipValue] at hlist

theorem RenderMode.parse_asGossipValue (mode : RenderMode) : parseGossipValue mode.asGossipValue = some mode := by
  cases mode <;> rfl

theorem Scale.parse_asGossipValue (scale : Scale) : parseGossipValue scale.asGossipValue = some scale := by
  cases scale <;> rfl

/-! ## Keys -/

/-- A key is about the worker and the field it was made for. -/
theorem workerKey?_workerKey (id : UInt32) (field : String) : workerKey? (workerKey id field) = some (id.toNat, field) := by
  have htext : (workerKey id field).toList = "worker.".toList ++ (id.toNat.repr.toList ++ '.' :: field.toList) := by
    simp [workerKey]
  have hsplit := splitOnce_append (not_mem_repr (n := id.toNat) (c := '.') (by decide)) field.toList
  have hid : parseUnsigned (2 ^ 32) id.toNat.repr.toList = some id.toNat := parseUnsigned_repr id.toNat_lt
  simp only [workerKey?, htext, stripLead_append, hsplit, hid, Option.bind_eq_bind, Option.bind_some, String.ofList_toList]

theorem workerKey?_lt {key field : String} {wid : Nat} (h : workerKey? key = some (wid, field)) : wid < 2 ^ 32 := by
  simp only [workerKey?, Option.bind_eq_bind, Option.bind_eq_some_iff] at h
  obtain ⟨rest, -, ⟨text, name⟩, -, wid', hparse, hread⟩ := h
  cases hread
  exact parseUnsigned_lt hparse

theorem workerKey_inj {id id' : UInt32} {field field' : String} (h : workerKey id field = workerKey id' field') :
    id = id' ∧ field = field' := by
  have hread := (workerKey?_workerKey id field).symm.trans ((congrArg workerKey? h).trans (workerKey?_workerKey id' field'))
  obtain ⟨hid, hfield⟩ := Prod.mk.inj (Option.some.inj hread)
  exact ⟨UInt32.toNat_inj.mp hid, hfield⟩

theorem workerKey?_renderAdmissionGossipKey : workerKey? renderAdmissionGossipKey = none := by
  decide

theorem workerKey_ne_renderAdmissionGossipKey (id : UInt32) (field : String) : workerKey id field ≠ renderAdmissionGossipKey := by
  intro h
  have hread := workerKey?_workerKey id field
  rw [h, workerKey?_renderAdmissionGossipKey] at hread
  cases hread

/-! ## Snapshots -/

/-- The fields of a worker, with their values. -/
def WorkerStatus.fields (w : WorkerStatus) : List (String × String) :=
  [("style", w.loadedProfile.elim "" fun profile => profile.style.toGossipValue),
    ("mode", w.loadedProfile.elim "" fun profile => profile.renderMode.asGossipValue),
    ("scale", w.loadedProfile.elim "" fun profile => profile.scale.asGossipValue), ("queue", w.queueDepth.toNat.repr)]

/-- Pairs written one after another. -/
def writeAll (out : NodeKvs) (pairs : List (String × String)) : NodeKvs :=
  pairs.foldl (fun out pair => Function.update out pair.1 (some pair.2)) out

/-- What is read is a pair that was written, and of the pairs of one key some is read. -/
theorem writeAll_cases (pairs : List (String × String)) (out : NodeKvs) (key : String) :
    ((∀ pair ∈ pairs, pair.1 ≠ key) ∧ writeAll out pairs key = out key) ∨
      ∃ pair ∈ pairs, pair.1 = key ∧ writeAll out pairs key = some pair.2 := by
  refine foldl_last (fun out : NodeKvs => out key) (fun out pair hkey => ?_) (fun out pair hkey => ?_) pairs out
  · rw [← hkey, Function.update_self]
  · rw [Function.update_of_ne (Ne.symm hkey)]

theorem encodeWorkerKvs_eq (out : NodeKvs) (w : WorkerStatus) :
    encodeWorkerKvs out w = writeAll out (w.fields.map fun field => (workerKey w.id field.1, field.2)) := by
  unfold encodeWorkerKvs WorkerStatus.fields
  cases w.loadedProfile <;> rfl

/-- The pairs of the workers of a snapshot. -/
def Snapshot.pairs (s : Snapshot) : List (String × String) :=
  s.workers.flatMap fun w => w.fields.map fun field => (workerKey w.id field.1, field.2)

theorem Snapshot.kvs_eq (s : Snapshot) :
    s.kvs = Function.update (writeAll (fun _ => none) s.pairs) renderAdmissionGossipKey
      (some (if s.acceptsNewRenders then "true" else "false")) := by
  have hfold : ∀ (workers : List WorkerStatus) (out : NodeKvs), workers.foldl encodeWorkerKvs out =
      writeAll out (workers.flatMap fun w => w.fields.map fun field => (workerKey w.id field.1, field.2)) := by
    intro workers
    induction workers with
    | nil => exact fun _ => rfl
    | cons w workers ih =>
      intro out
      rw [List.foldl_cons, ih, encodeWorkerKvs_eq, List.flatMap_cons, writeAll, writeAll, writeAll, List.foldl_append]
  rw [Snapshot.kvs, hfold]
  rfl

theorem Snapshot.mem_pairs {s : Snapshot} {key value : String} :
    (key, value) ∈ s.pairs ↔ ∃ w ∈ s.workers, ∃ field, (field, value) ∈ w.fields ∧ key = workerKey w.id field := by
  simp only [Snapshot.pairs, List.mem_flatMap, List.mem_map, Prod.mk.injEq, Prod.exists]
  constructor
  · rintro ⟨w, hw, field, v, hfield, hkey, rfl⟩
    exact ⟨w, hw, field, hfield, hkey.symm⟩
  · rintro ⟨w, hw, field, hfield, hkey⟩
    exact ⟨w, hw, field, value, hfield, hkey.symm, rfl⟩

/-- A field has one value. -/
theorem WorkerStatus.fields_functional {w : WorkerStatus} {field v v' : String} (h : (field, v) ∈ w.fields)
    (h' : (field, v') ∈ w.fields) :
    v = v' := by
  simp only [fields, List.mem_cons, Prod.mk.injEq, List.not_mem_nil, or_false] at h h'
  rcases h with ⟨rfl, rfl⟩ | ⟨rfl, rfl⟩ | ⟨rfl, rfl⟩ | ⟨rfl, rfl⟩
  · exact Eq.symm (by simpa using h')
  · exact Eq.symm (by simpa using h')
  · exact Eq.symm (by simpa using h')
  · exact Eq.symm (by simpa using h')

section

variable {s : Snapshot} (hids : (s.workers.map WorkerStatus.id).Nodup)

include hids

theorem Snapshot.worker_unique {w w' : WorkerStatus} (hw : w ∈ s.workers) (hw' : w' ∈ s.workers) (h : w.id = w'.id) : w = w' :=
  List.inj_on_of_nodup_map hids hw hw' h

theorem Snapshot.pairs_functional {key v v' : String} (h : (key, v) ∈ s.pairs) (h' : (key, v') ∈ s.pairs) : v = v' := by
  obtain ⟨w, hw, field, hfield, rfl⟩ := Snapshot.mem_pairs.mp h
  obtain ⟨w', hw', field', hfield', hkey⟩ := Snapshot.mem_pairs.mp h'
  obtain ⟨hid, rfl⟩ := workerKey_inj hkey
  obtain rfl := Snapshot.worker_unique hids hw hw' hid
  exact WorkerStatus.fields_functional hfield hfield'

/-- A snapshot has its pairs, and the admission state. -/
theorem Snapshot.kvs_eq_some {key value : String} :
    s.kvs key = some value ↔ (key = renderAdmissionGossipKey ∧ value = if s.acceptsNewRenders then "true" else "false") ∨
      (key, value) ∈ s.pairs := by
  rw [Snapshot.kvs_eq]
  by_cases hkey : key = renderAdmissionGossipKey
  · subst hkey
    rw [Function.update_self, Option.some.injEq]
    constructor
    · exact fun h => Or.inl ⟨rfl, h.symm⟩
    · rintro (⟨-, h⟩ | h)
      · exact h.symm
      · obtain ⟨w, -, field, -, hworker⟩ := Snapshot.mem_pairs.mp h
        exact absurd hworker.symm (workerKey_ne_renderAdmissionGossipKey w.id field)
  · rw [Function.update_of_ne hkey]
    rcases writeAll_cases s.pairs (fun _ => none) key with ⟨hnone, hread⟩ | ⟨⟨k, v⟩, hpair, rfl, hread⟩
    · rw [hread]
      constructor
      · exact fun h => by cases h
      · rintro (⟨h, -⟩ | h)
        · exact absurd h hkey
        · exact absurd rfl (hnone _ h)
    · rw [hread, Option.some.injEq]
      constructor
      · rintro rfl
        exact Or.inr hpair
      · rintro (⟨h, -⟩ | h)
        · exact absurd h hkey
        · exact Snapshot.pairs_functional hids hpair h

end

/-- The keys a snapshot has. -/
theorem Snapshot.kvs_isSome {s : Snapshot} {key : String} :
    (s.kvs key).isSome ↔ key = renderAdmissionGossipKey ∨ ∃ w ∈ s.workers, ∃ field value, (field, value) ∈ w.fields ∧
      key = workerKey w.id field := by
  rw [Snapshot.kvs_eq]
  by_cases hkey : key = renderAdmissionGossipKey
  · simp [hkey]
  · simp only [Function.update_of_ne hkey, hkey, false_or]
    rcases writeAll_cases s.pairs (fun _ => none) key with ⟨hnone, hread⟩ | ⟨⟨k, v⟩, hpair, rfl, hread⟩
    · rw [hread]
      constructor
      · exact fun h => by cases h
      · rintro ⟨w, hw, field, value, hfield, hworker⟩
        exact absurd rfl (hnone _ (Snapshot.mem_pairs.mpr ⟨w, hw, field, hfield, hworker⟩))
    · rw [hread]
      obtain ⟨w, hw, field, hfield, hworker⟩ := Snapshot.mem_pairs.mp hpair
      exact ⟨fun _ => ⟨w, hw, field, v, hfield, hworker⟩, fun _ => rfl⟩

/-- The fields are the same for every worker. -/
theorem WorkerStatus.exists_field (w w' : WorkerStatus) {field value : String} (h : (field, value) ∈ w.fields) :
    ∃ value', (field, value') ∈ w'.fields := by
  have hnames : w.fields.map Prod.fst = w'.fields.map Prod.fst := rfl
  have hmem : field ∈ w'.fields.map Prod.fst := hnames ▸ List.mem_map_of_mem h
  obtain ⟨⟨field', value'⟩, hfield', rfl⟩ := List.mem_map.mp hmem
  exact ⟨value', hfield'⟩

/-- A snapshot has the keys of every snapshot of the same workers or fewer. -/
theorem Snapshot.kvs_isSome_of_workers {s s' : Snapshot} (h : ∀ w ∈ s'.workers, w.id ∈ s.workers.map WorkerStatus.id)
    {key : String}
    (hkey : (s'.kvs key).isSome) : (s.kvs key).isSome := by
  rw [Snapshot.kvs_isSome] at hkey ⊢
  rcases hkey with hadmission | ⟨w', hw', field, value, hfield, rfl⟩
  · exact Or.inl hadmission
  · obtain ⟨w, hw, hid⟩ := List.mem_map.mp (h w' hw')
    obtain ⟨value', hfield'⟩ := w'.exists_field w hfield
    exact Or.inr ⟨w, hw, field, value', hfield', by rw [hid]⟩

/-! ## The publisher -/

namespace Publisher

variable {p : Publisher} {s : Snapshot} {key : String}

/-- A value of the snapshot is in the store, set now or when it was sent last. -/
theorem publish_store_some {value : String} (hsent : ∀ value, p.lastSent key = some value → p.store key = some value)
    (h : s.kvs key = some value) : (p.publish s).store key = some value := by
  simp only [publish, h]
  by_cases hsame : p.lastSent key = some value
  · simp [Option.filter, hsame, hsent value hsame]
  · simp [Option.filter, hsame]

/-- A key the snapshot does not have stays as it was. -/
theorem publish_store_none (h : s.kvs key = none) : (p.publish s).store key = p.store key := by
  simp [publish, h]

/-- A snapshot of values that are in the store leaves it as it was. -/
theorem publish_store_same (h : ∀ key value, s.kvs key = some value → p.store key = some value) :
    (p.publish s).store = p.store := by
  funext key
  cases hkey : s.kvs key with
  | none => exact publish_store_none hkey
  | some value =>
    rw [h key value hkey]
    simp only [publish, hkey, Option.filter]
    split
    · rfl
    · exact h key value hkey

/-- The store has what was sent last, and no key that was never published. -/
theorem publish_all (snapshots : List Snapshot) (key : String) :
    (∀ value, (snapshots.foldl publish .new).lastSent key = some value → (snapshots.foldl publish .new).store key = some value) ∧
      (((snapshots.foldl publish .new).store key).isSome → ∃ s ∈ snapshots, (s.kvs key).isSome) := by
  induction snapshots using List.reverseRecOn with
  | nil => exact ⟨fun _ h => absurd h (by simp [new]), fun h => absurd h (by simp [new])⟩
  | append_singleton snapshots last ih =>
    obtain ⟨hsent, hpublished⟩ := ih
    rw [List.foldl_append, List.foldl_cons, List.foldl_nil]
    refine ⟨fun value hvalue => publish_store_some hsent hvalue, fun hstore => ?_⟩
    cases hlast : last.kvs key with
    | some value => exact ⟨last, List.mem_append_right _ List.mem_cons_self, by rw [hlast]; rfl⟩
    | none =>
      rw [publish_store_none hlast] at hstore
      obtain ⟨s, hs, hkey⟩ := hpublished hstore
      exact ⟨s, List.mem_append_left _ hs, hkey⟩

/-- When no worker has left since, the store is the last snapshot. -/
theorem store_eq (earlier : List Snapshot) {last : Snapshot}
    (hworkers : ∀ s ∈ earlier, ∀ w ∈ s.workers, w.id ∈ last.workers.map WorkerStatus.id) :
    ((earlier ++ [last]).foldl publish .new).store = last.kvs := by
  funext key
  obtain ⟨hsent, hpublished⟩ := publish_all earlier key
  rw [List.foldl_append, List.foldl_cons, List.foldl_nil]
  cases hlast : last.kvs key with
  | some value => exact publish_store_some hsent hlast
  | none =>
    rw [publish_store_none hlast, ← Option.not_isSome_iff_eq_none]
    intro hstore
    obtain ⟨s, hs, hkey⟩ := hpublished hstore
    have hsome := Snapshot.kvs_isSome_of_workers (hworkers s hs) hkey
    rw [hlast] at hsome
    cases hsome

end Publisher

/-! ## The receiver -/

/-- The loop after some pairs. -/
def Decoding.run (pairs : List (String × String)) : Decoding := pairs.foldl Decoding.step .new

/-- The pair is about the field of the worker. -/
def AboutField (pair : String × String) (wid : Nat) (field : String) : Prop := workerKey? pair.1 = some (wid, field)

namespace Decoding

variable {d : Decoding} {pair : String × String} {wid : Nat} {field : String}

theorem ne_renderAdmissionGossipKey (h : AboutField pair wid field) : pair.1 ≠ renderAdmissionGossipKey := by
  intro hkey
  unfold AboutField at h
  rw [hkey, workerKey?_renderAdmissionGossipKey] at h
  cases h

theorem step_about (h : AboutField pair wid field) :
    d.step pair = { d with
      ids := d.ids.insert wid
      builders := Function.update d.builders wid ((d.builders wid).set field pair.2) } := by
  have hkey := ne_renderAdmissionGossipKey h
  unfold AboutField at h
  simp only [step, hkey, if_false, h]

/-- A pair about no worker changes none. -/
theorem step_other (h : ∀ wid field, ¬AboutField pair wid field) : (d.step pair).ids = d.ids ∧
    (d.step pair).builders = d.builders := by
  unfold step
  split
  · exact ⟨rfl, rfl⟩
  · split
    · exact ⟨rfl, rfl⟩
    · rename_i wid field hkey
      exact absurd hkey (h wid field)

theorem about_cases (pair : String × String) : (∃ wid field, AboutField pair wid field) ∨ ∀ wid field,
    ¬AboutField pair wid field := by
  by_cases h : ∃ wid field, AboutField pair wid field
  · exact Or.inl h
  · exact Or.inr fun wid field hab => h ⟨wid, field, hab⟩

theorem mem_ids_run {pairs : List (String × String)} {wid : Nat} :
    wid ∈ (run pairs).ids ↔ ∃ pair ∈ pairs, ∃ field, AboutField pair wid field := by
  induction pairs using List.reverseRecOn with
  | nil => exact ⟨fun h => absurd h (OrderedSet.not_mem_empty wid), fun ⟨_, h, _⟩ => absurd h List.not_mem_nil⟩
  | append_singleton pairs last ih =>
    have hrun : run (pairs ++ [last]) = (run pairs).step last := by simp [run]
    have hsplit : (∃ pair ∈ pairs ++ [last], ∃ field, AboutField pair wid field) ↔
        (∃ pair ∈ pairs, ∃ field, AboutField pair wid field) ∨ ∃ field, AboutField last wid field := by
      simp only [List.mem_append, List.mem_singleton, or_and_right, exists_or, exists_eq_left]
    rw [hrun, hsplit, ← ih]
    rcases about_cases last with ⟨wid', field, habout⟩ | hother
    · rw [step_about habout, OrderedSet.mem_insert]
      constructor
      · rintro (rfl | hmem)
        · exact Or.inr ⟨field, habout⟩
        · exact Or.inl hmem
      · rintro (hmem | ⟨field', habout'⟩)
        · exact Or.inr hmem
        · exact Or.inl (Prod.mk.inj (Option.some.inj (habout'.symm.trans habout))).1
    · rw [(step_other hother).1]
      exact ⟨Or.inl, fun h => h.elim id fun ⟨field, habout⟩ => absurd habout (hother wid field)⟩

theorem acceptsNewRenders_run (pairs : List (String × String)) :
    ((∀ pair ∈ pairs, pair.1 ≠ renderAdmissionGossipKey) ∧ (run pairs).acceptsNewRenders = false) ∨
      ∃ pair ∈ pairs, pair.1 = renderAdmissionGossipKey ∧ (run pairs).acceptsNewRenders = decide (pair.2 = "true") := by
  refine foldl_last Decoding.acceptsNewRenders (fun d pair hkey => ?_) (fun d pair hkey => ?_) pairs .new
  · simp only [step, hkey, if_true]
  · simp only [step, hkey, if_false]
    split
    · rfl
    · rfl

end Decoding

/-! ## What a builder is told -/

section

variable (b : Builder) (field value : String)

theorem Builder.set_queueDepth : (b.set field value).queueDepth = if field = "queue" then parseUnsigned u64Bound value.toList else
    b.queueDepth := by
  unfold Builder.set
  split
  · rename_i h
    subst h
    split
    · rfl
    · split
      · rfl
      · rfl
  · split
    · rename_i h
      rw [h.1]
      rfl
    · split
      · rename_i h
        rw [h.1]
        rfl
      · split
        · rfl
        · rfl

theorem Builder.set_renderMode : (b.set field value).renderMode =
    if field = "mode" ∧ ¬value.isEmpty then RenderMode.parseGossipValue value else b.renderMode := by
  unfold Builder.set
  split
  · rename_i h
    subst h
    split
    · rfl
    · split
      · rfl
      · rfl
  · split
    · rfl
    · split
      · rfl
      · split
        · rfl
        · rfl

theorem Builder.set_scale : (b.set field value).scale =
    if field = "scale" ∧ ¬value.isEmpty then Scale.parseGossipValue value else b.scale := by
  unfold Builder.set
  split
  · rename_i h
    subst h
    split
    · rfl
    · split
      · rfl
      · rfl
  · split
    · rename_i h
      rw [h.1]
      rfl
    · split
      · rfl
      · split
        · rfl
        · rfl

/-- A revision that can be read, or none. -/
def readRevision (value : String) : Option (Option StyleRevision) :=
  if value.isEmpty then some none else (StyleRevision.parseGossipValue value).map some

theorem Builder.set_loadedRevision : (b.set field value).loadedRevision =
    if field = "style" ∧ (readRevision value).isSome then readRevision value else b.loadedRevision := by
  unfold Builder.set readRevision
  split
  · rename_i h
    subst h
    split
    · rfl
    · split
      · rename_i revision hparse
        simp [hparse]
      · rename_i hparse
        simp [hparse]
  · rename_i hstyle
    simp only [hstyle, false_and, if_false]
    split
    · rfl
    · split
      · rfl
      · split
        · rfl
        · rfl

end

/-- What a builder has in `part`: the values of one field, read, less those it does not take. -/
structure Builder.Field {α : Type} (part : Builder → Option α) (name : String) (taken : String → Prop)
    (read : String → Option α) :
    Prop where
  default : part .default = none
  set : ∀ (b : Builder) value, taken value → part (b.set name value) = read value
  keep : ∀ (b : Builder) field value, ¬(field = name ∧ taken value) → part (b.set field value) = part b
  taken_of_read : ∀ value x, read value = some x → taken value

/-- `parse` of a queue depth. -/
def readQueueDepth (value : String) : Option Nat := parseUnsigned u64Bound value.toList

theorem Builder.field_queueDepth : Builder.Field Builder.queueDepth "queue" (fun _ => True) readQueueDepth where
  default := rfl
  set b value _ := by rw [Builder.set_queueDepth, if_pos rfl, readQueueDepth]
  keep b field value h := by rw [Builder.set_queueDepth, if_neg fun hfield => h ⟨hfield, trivial⟩]
  taken_of_read _ _ _ := trivial

theorem Builder.field_renderMode :
    Builder.Field Builder.renderMode "mode" (fun value => ¬value.isEmpty) RenderMode.parseGossipValue where
  default := rfl
  set b value h := by rw [Builder.set_renderMode, if_pos ⟨rfl, h⟩]
  keep b field value h := by rw [Builder.set_renderMode, if_neg h]
  taken_of_read value x h hempty := by
    rw [String.isEmpty_iff.mp hempty] at h
    cases h

theorem Builder.field_scale : Builder.Field Builder.scale "scale" (fun value => ¬value.isEmpty) Scale.parseGossipValue where
  default := rfl
  set b value h := by rw [Builder.set_scale, if_pos ⟨rfl, h⟩]
  keep b field value h := by rw [Builder.set_scale, if_neg h]
  taken_of_read value x h hempty := by
    rw [String.isEmpty_iff.mp hempty] at h
    cases h

theorem Builder.field_loadedRevision :
    Builder.Field Builder.loadedRevision "style" (fun value => (readRevision value).isSome) readRevision where
  default := rfl
  set b value h := by rw [Builder.set_loadedRevision, if_pos ⟨rfl, h⟩]
  keep b field value h := by rw [Builder.set_loadedRevision, if_neg h]
  taken_of_read value x h := by rw [h]; rfl

/-! ## What a receiver knows -/

/-- Some pair about the worker's field is read as `x`. -/
def Told {α : Type} (pairs : List (String × String)) (wid : Nat) (field : String) (read : String → Option α) (x : α) : Prop :=
  ∃ pair ∈ pairs, AboutField pair wid field ∧ read pair.2 = some x

section

variable {α : Type} {part : Builder → Option α} {name : String} {taken : String → Prop} {read : String → Option α}
  (hfield : Builder.Field part name taken read)

include hfield

/-- What is known of a worker in one respect is what the last pair that says something in that respect has said. -/
theorem Builder.Field.last (pairs : List (String × String)) (wid : Nat) :
    ((∀ pair ∈ pairs, AboutField pair wid name → ¬taken pair.2) ∧ part ((Decoding.run pairs).builders wid) = none) ∨
      ∃ pair ∈ pairs, AboutField pair wid name ∧ taken pair.2 ∧ part ((Decoding.run pairs).builders wid) = read pair.2 := by
  have hsay : ∀ (d : Decoding) (pair : String × String), AboutField pair wid name ∧ taken pair.2 →
      part ((d.step pair).builders wid) = read pair.2 := by
    rintro d pair ⟨habout, htaken⟩
    simp only [Decoding.step_about habout, Function.update_self]
    exact hfield.set _ pair.2 htaken
  have hleave : ∀ (d : Decoding) (pair : String × String), ¬(AboutField pair wid name ∧ taken pair.2) →
      part ((d.step pair).builders wid) = part (d.builders wid) := by
    intro d pair hno
    rcases Decoding.about_cases pair with ⟨wid', field, habout⟩ | hother
    · by_cases hwid : wid = wid'
      · subst hwid
        simp only [Decoding.step_about habout, Function.update_self]
        refine hfield.keep _ field pair.2 fun ⟨hname, htaken⟩ => hno ⟨?_, htaken⟩
        rw [← hname]
        exact habout
      · simp only [Decoding.step_about habout, Function.update_of_ne hwid]
    · rw [(Decoding.step_other hother).2]
  rcases foldl_last (fun d : Decoding => part (d.builders wid)) hsay hleave pairs .new with
    ⟨hnone, hsame⟩ | ⟨pair, hpair, ⟨habout, htaken⟩, hwritten⟩
  · exact Or.inl ⟨fun pair hpair habout htaken => hnone pair hpair ⟨habout, htaken⟩, hsame.trans hfield.default⟩
  · exact Or.inr ⟨pair, hpair, habout, htaken, hwritten⟩

/-- What is known was told. -/
theorem Builder.Field.told {pairs : List (String × String)} {wid : Nat} {x : α}
    (h : part ((Decoding.run pairs).builders wid) = some x) : Told pairs wid name read x := by
  rcases hfield.last pairs wid with ⟨-, hnone⟩ | ⟨pair, hpair, habout, -, hread⟩
  · rw [hnone] at h
    cases h
  · exact ⟨pair, hpair, habout, hread.symm.trans h⟩

/-- What is told is known, when nothing else is told. -/
theorem Builder.Field.known {pairs : List (String × String)} {wid : Nat} {x : α} (htold : Told pairs wid name read x)
    (honly : ∀ pair ∈ pairs, AboutField pair wid name → read pair.2 = some x) :
    part ((Decoding.run pairs).builders wid) = some x := by
  obtain ⟨pair, hpair, habout, hread⟩ := htold
  rcases hfield.last pairs wid with ⟨hnone, -⟩ | ⟨pair', hpair', habout', -, hread'⟩
  · exact absurd (hfield.taken_of_read pair.2 x hread) (hnone pair hpair habout)
  · exact hread'.trans (honly pair' hpair' habout')

end

/-- A worker is put together from all it has. -/
theorem Builder.worker?_eq_some {b : Builder} {wid : Nat} {w : WorkerView} :
    b.worker? wid = some w ↔ w.id = UInt32.ofNat wid ∧ b.loadedRevision = some (w.loadedProfile.map WorkerProfile.style) ∧
      (∀ profile ∈ w.loadedProfile, b.renderMode = some profile.renderMode ∧ b.scale = some profile.scale) ∧
      b.queueDepth = some w.queueDepth := by
  obtain ⟨revision, mode, scale, queue⟩ := b
  obtain ⟨id, profile, depth⟩ := w
  cases queue with
  | none => rcases revision with - | - | style <;> cases mode <;> cases scale <;> simp [Builder.worker?]
  | some queue =>
    rcases revision with - | - | style
    · simp [Builder.worker?]
    · cases profile <;> simp [Builder.worker?, eq_comm]
    · cases profile with
      | none => cases mode <;> cases scale <;> simp [Builder.worker?]
      | some profile =>
        obtain ⟨style', mode', scale'⟩ := profile
        cases mode <;> cases scale <;> simp [Builder.worker?, eq_comm, and_assoc]

end Biei
