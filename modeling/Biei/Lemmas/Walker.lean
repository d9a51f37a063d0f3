import Biei.Pmtiles.Walker

/-! # The walk through a tree of directories -/

namespace Biei

/-! ## Parts of a section -/

/-- The range lies in the section. -/
structure Section.Holds (s : Section) (offset length : Nat) : Prop where
  offset_le : s.offset ≤ offset
  stop_le : offset + length ≤ s.stop

variable {s : Section}

theorem checkedSectionOffset_iff {name : String} {relativeOffset length offset : Nat} :
    checkedSectionOffset name s relativeOffset length = .ok offset ↔
      relativeOffset + length ≤ s.length ∧ offset = s.offset + relativeOffset := by
  have hfits := s.fits
  unfold checkedSectionOffset checkedAdd
  constructor
  · intro h
    split at h
    · cases h
    · rename_i relativeEnd hend
      split at hend
      · cases hend
        split at h
        · cases h
        · rename_i hle
          split at h
          · cases h
          · rename_i stop hstop
            split at hstop
            · cases hstop
              exact ⟨Nat.not_lt.mp hle, (Except.ok.inj h).symm⟩
            · cases hstop
      · cases hend
  · rintro ⟨hle, rfl⟩
    rw [if_pos (by omega), if_pos (by omega)]
    simp [Nat.not_lt.mpr hle]

theorem Section.holds_of_le {relativeOffset length : Nat} (h : relativeOffset + length ≤ s.length) :
    s.Holds (s.offset + relativeOffset) length :=
  ⟨Nat.le_add_right .., by unfold Section.stop; omega⟩

theorem Section.Holds.lt {offset length : Nat} (h : s.Holds offset length) : offset + length < u64Bound :=
  h.stop_le.trans_lt s.fits

theorem Header.stop_le_archiveLen (header : Header) : header.leaf.stop ≤ header.archiveLen ∧
    header.data.stop ≤ header.archiveLen := by
  unfold Header.archiveLen
  omega

theorem Header.archiveLen_lt (header : Header) : header.archiveLen < u64Bound := by
  have hroot := header.root.fits
  have hmetadata := header.metadata.fits
  have hleaf := header.leaf.fits
  have hdata := header.data.fits
  unfold Header.archiveLen Section.stop
  omega

/-! ## The search in a directory -/

namespace Directory

variable {d : Directory} {tileId : Nat}

/-- What is subtracted from the tile id is less. -/
theorem tileId_lt_of_searched {before : Nat} {previous : DirectoryEntry} (h : d.searchTileId tileId = .error (before + 1))
    (hprevious : d.entries[before]? = some previous) : previous.tileId < tileId := by
  obtain ⟨x, hx, hlt⟩ := BinarySearch.of_binarySearchBy_error_succ h
  cases hprevious.symm.trans hx
  exact Nat.compare_eq_lt.mp hlt

/-- What is found is an entry at or before the tile id; it points to a leaf directory or covers the tile id. -/
theorem findTileId_some {index : Nat} {entry : DirectoryEntry} (h : d.findTileId tileId = some (index, entry)) :
    d.entries[index]? = some entry ∧ entry.tileId ≤ tileId ∧ (entry.isLeaf = true ∨ tileId < entry.tileId + entry.runLength) := by
  unfold findTileId at h
  split at h
  · rename_i found hsearch
    obtain ⟨x, hx, heq⟩ := Option.map_eq_some_iff.mp h
    obtain ⟨rfl, rfl⟩ := Prod.mk.inj heq
    obtain ⟨y, hy, hequal⟩ := BinarySearch.of_binarySearchBy_ok hsearch
    cases hx.symm.trans hy
    have hid : x.tileId = tileId := Nat.compare_eq_eq.mp hequal
    refine ⟨hx, hid.le, ?_⟩
    rcases Nat.eq_zero_or_pos x.runLength with hzero | hpos
    · exact Or.inl (beq_iff_eq.mpr hzero)
    · exact Or.inr (by omega)
  · cases h
  · rename_i before hsearch
    split at h
    · cases h
    · rename_i previous hprevious
      have hlt := tileId_lt_of_searched hsearch hprevious
      split at h
      · rename_i hin
        cases h
        refine ⟨hprevious, hlt.le, ?_⟩
        rcases Bool.or_eq_true_iff.mp hin with hleaf | hrun
        · exact Or.inl hleaf
        · have hrun := of_decide_eq_true hrun
          exact Or.inr (by omega)
      · cases h

/-- The place is the last one that is not behind the tile id. -/
structure Located (d : Directory) (tileId i : Nat) (x : DirectoryEntry) : Prop where
  at_eq : d.entries[i]? = some x
  le : x.tileId ≤ tileId
  next : ∀ y, d.entries[i + 1]? = some y → tileId < y.tileId

/-- The ids of the entries ascend. -/
def Ascending (d : Directory) : Prop := d.entries.Pairwise fun x y => x.tileId < y.tileId

theorem Ascending.lt (h : d.Ascending) {i j : Nat} {x y : DirectoryEntry} (hx : d.entries[i]? = some x)
    (hy : d.entries[j]? = some y)
    (hij : i < j) : x.tileId < y.tileId := by
  obtain ⟨hi, rfl⟩ := List.getElem?_eq_some_iff.mp hx
  obtain ⟨hj, rfl⟩ := List.getElem?_eq_some_iff.mp hy
  exact List.pairwise_iff_getElem.mp h i j hi hj hij

theorem Ascending.le (h : d.Ascending) {i j : Nat} {x y : DirectoryEntry} (hx : d.entries[i]? = some x)
    (hy : d.entries[j]? = some y)
    (hij : i ≤ j) : x.tileId ≤ y.tileId := by
  rcases hij.eq_or_lt with rfl | hlt
  · cases hx.symm.trans hy
    exact le_rfl
  · exact (h.lt hx hy hlt).le

theorem Ascending.search (h : d.Ascending) (tileId : Nat) :
    BinarySearch.Ascending (fun e : DirectoryEntry => compare e.tileId tileId) d.entries := by
  refine List.Pairwise.imp (fun {x y} hlt => ?_) h
  rw [Nat.compare_eq_gt, Nat.compare_eq_gt, Nat.compare_eq_lt, Nat.compare_eq_lt]
  exact ⟨fun hgt => hgt.trans hlt, fun hy => hlt.trans hy⟩

/-- Nothing lies between a place that is located and one behind it. -/
theorem Located.not_before {i : Nat} {x : DirectoryEntry} (h : d.Located tileId i x) (hd : d.Ascending) {j : Nat}
    {y : DirectoryEntry} (hy : d.entries[j]? = some y)
    (hle : y.tileId ≤ tileId) : j ≤ i := by
  by_contra hlt
  have hlt : i + 1 ≤ j := Nat.not_le.mp hlt
  have hj := (List.getElem?_eq_some_iff.mp hy).1
  obtain ⟨z, hz⟩ : ∃ z, d.entries[i + 1]? = some z := ⟨_, List.getElem?_eq_getElem (hlt.trans_lt hj)⟩
  have hnext := h.next z hz
  have hzy := hd.le hz hy hlt
  omega

/-- The search finds the place, when there is one and its entry is good for the tile id. -/
theorem findTileId_of_located (hd : d.Ascending) {i : Nat} {x : DirectoryEntry} (h : d.Located tileId i x)
    (hgood : x.isLeaf = true ∨ tileId < x.tileId + x.runLength) : d.findTileId tileId = some (i, x) := by
  unfold findTileId
  split
  · rename_i j hsearch
    obtain ⟨y, hy, hequal⟩ := BinarySearch.of_binarySearchBy_ok hsearch
    have hid : y.tileId = tileId := Nat.compare_eq_eq.mp hequal
    have hle := h.not_before hd hy hid.le
    rcases hle.eq_or_lt with rfl | hlt
    · rw [h.at_eq]
      rfl
    · have hlt := hd.lt hy h.at_eq hlt
      have hx := h.le
      omega
  · rename_i hsearch
    have hgt := Nat.compare_eq_gt.mp ((hd.search tileId).above_of_error hsearch (Nat.zero_le i) h.at_eq)
    have hx := h.le
    omega
  · rename_i j hsearch
    obtain ⟨y, hy, hlt⟩ := BinarySearch.of_binarySearchBy_error_succ hsearch
    have hle := h.not_before hd hy (Nat.compare_eq_lt.mp hlt).le
    have hji : i ≤ j := by
      by_contra hlt
      have hgt := Nat.compare_eq_gt.mp ((hd.search tileId).above_of_error hsearch (Nat.not_le.mp hlt) h.at_eq)
      have hx := h.le
      omega
    obtain rfl := Nat.le_antisymm hji hle
    rw [h.at_eq]
    have hx := h.le
    refine if_pos (Bool.or_eq_true_iff.mpr (hgood.imp_right fun hrun => decide_eq_true ?_))
    omega

end Directory

/-! ## The walker -/

namespace DirectoryWalker

variable {w : DirectoryWalker} {d : Directory}

/-- A step fails at an entry that is not in its section, or at one for a leaf when the depth is used up. -/
theorem step_error {e : String} (h : w.step d = .error e) :
    ∃ i x, d.findTileId w.tileId = some (i, x) ∧
      ((x.isLeaf = true ∧ (w.maxDepth ≤ w.depth ∨ w.header.leaf.length < x.offset + x.length)) ∨
        (x.isLeaf = false ∧ w.header.data.length < x.offset + x.length)) := by
  have houtside : ∀ {name : String} {s : Section} {relativeOffset length : Nat} {e : String},
      checkedSectionOffset name s relativeOffset length = .error e → s.length < relativeOffset + length := by
    intro name s relativeOffset length e herror
    by_contra hle
    rw [checkedSectionOffset_iff.mpr ⟨Nat.not_lt.mp hle, rfl⟩] at herror
    cases herror
  unfold step at h
  split at h
  · cases h
  · rename_i i x hfind
    refine ⟨i, x, hfind, ?_⟩
    split at h
    · rename_i hleaf
      split at h
      · rename_i hdepth
        exact Or.inl ⟨hleaf, Or.inl hdepth⟩
      · split at h
        · rename_i herror
          exact Or.inl ⟨hleaf, Or.inr (houtside herror)⟩
        · cases h
    · rename_i hleaf
      split at h
      · rename_i herror
        exact Or.inr ⟨Bool.not_eq_true _ ▸ hleaf, houtside herror⟩
      · cases h

/-- All that a step can do. -/
theorem step_cases {w' : DirectoryWalker} {s : DirectoryStep} (h : w.step d = .ok (w', s)) :
    (d.findTileId w.tileId = none ∧ w' = w ∧ s = .missing) ∨
      ∃ i e, d.findTileId w.tileId = some (i, e) ∧
        ((e.isLeaf = true ∧ w.depth < w.maxDepth ∧ e.offset + e.length ≤ w.header.leaf.length ∧
          w' = { w with depth := w.depth + 1 } ∧
            s = .leaf ⟨w.header.leaf.offset + e.offset, e.length⟩) ∨
          (e.isLeaf = false ∧ e.offset + e.length ≤ w.header.data.length ∧ w' = w ∧
            s = .tile ⟨w.header.data.offset + e.offset, e.length, w.archiveLen⟩)) := by
  unfold step at h
  split at h
  · rename_i hfind
    cases h
    exact Or.inl ⟨hfind, rfl, rfl⟩
  · rename_i i e hfind
    refine Or.inr ⟨i, e, hfind, ?_⟩
    split at h
    · rename_i hleaf
      split at h
      · cases h
      · rename_i hdepth
        split at h
        · cases h
        · rename_i offset hoffset
          cases h
          obtain ⟨hle, rfl⟩ := checkedSectionOffset_iff.mp hoffset
          exact Or.inl ⟨hleaf, Nat.not_le.mp hdepth, hle, rfl, rfl⟩
    · rename_i hleaf
      split at h
      · cases h
      · rename_i offset hoffset
        cases h
        obtain ⟨hle, rfl⟩ := checkedSectionOffset_iff.mp hoffset
        exact Or.inr ⟨Bool.not_eq_true _ ▸ hleaf, hle, rfl, rfl⟩

end DirectoryWalker

section

variable {E M : Type} {backend : ArchiveBackend E M} {limits : ReaderLimits}

theorem checkRange_error {offset length : Nat} {e : E} (h : offset + length < u64Bound)
    (herror : checkRange backend limits offset length = .error e) : limits.maxRangeBytes < length ∧ ∃ text,
      e = backend.invalidArchive text := by
  unfold checkRange at herror
  split at herror
  · rename_i hlong
    exact ⟨hlong, _, (Except.error.inj herror).symm⟩
  · rw [checkedAdd, if_pos h] at herror
    cases herror

variable {header : Header} {archiveLen : Nat}

/-- The walk ends within the turns that the depth leaves it; each leaf it asks for, and the tile it comes to, are in their
sections. -/
theorem resolveLoop_spec (backend : ArchiveBackend E M) (limits : ReaderLimits) {fuel : Nat} {w : DirectoryWalker} {d : Directory}
    (asked : List LeafDirectoryRequest) (hheader : w.header = header)
    (hlen : w.archiveLen = archiveLen) (hdepth : w.depth ≤ w.maxDepth) (hfuel : w.maxDepth - w.depth < fuel) :
    ∃ more r, resolveLoop backend limits header archiveLen fuel w d asked = some (asked ++ more, r) ∧
      more.length ≤ w.maxDepth - w.depth ∧ (∀ request ∈ more, header.leaf.Holds request.offset request.length) ∧
      ∀ location, r = .ok (some location) → header.data.Holds location.offset location.length ∧
        location.archiveLen = archiveLen := by
  induction fuel generalizing w d asked with
  | zero => omega
  | succ fuel ih =>
    unfold resolveLoop
    cases hstep : w.step d with
    | error e => exact ⟨[], _, by rw [List.append_nil], Nat.zero_le _, nofun, fun _ h => by cases h⟩
    | ok stepped =>
      obtain ⟨w', s⟩ := stepped
      rcases DirectoryWalker.step_cases hstep with ⟨-, rfl, rfl⟩ | ⟨i, e, -, ⟨-, hlt, hle, rfl, rfl⟩ | ⟨-, hle, rfl, rfl⟩⟩
      · exact ⟨[], _, by rw [List.append_nil], Nat.zero_le _, nofun, fun _ h => by cases h⟩
      · have hholds : header.leaf.Holds (w.header.leaf.offset + e.offset) e.length := by
          rw [hheader] at hle ⊢
          exact Section.holds_of_le hle
        dsimp only
        split
        · exact ⟨[], _, by rw [List.append_nil], Nat.zero_le _, nofun, fun _ h => by cases h⟩
        · split
          · exact ⟨[_], _, rfl, by simp; omega, fun request hmem => by rw [List.mem_singleton.mp hmem]; exact hholds,
              fun _ h => by cases h⟩
          · obtain ⟨more, r, heq, hlength, hmore, hr⟩ := @ih { w with depth := w.depth + 1 } _ _ hheader hlen hlt
              (by dsimp only; omega)
            refine ⟨_ :: more, r, by rw [heq, List.append_assoc]; rfl, ?_, List.forall_mem_cons.mpr ⟨hholds, hmore⟩, hr⟩
            rw [List.length_cons]
            dsimp only at hlength
            omega
      · refine ⟨[], _, by rw [List.append_nil], Nat.zero_le _, nofun, fun location hlocation => ?_⟩
        cases Except.ok.inj hlocation
        rw [hheader] at hle ⊢
        exact ⟨Section.holds_of_le hle, hlen⟩

end

/-! ## Trees of directories -/

namespace Directory

/-- The entry is reached from the directory over leaf directories, where they are by offset and length, and covers the tile id. -/
inductive Covers (leafAt : Nat → Nat → Option Directory) (tileId : Nat) : Directory → DirectoryEntry → Prop where
  | tile {d : Directory} {e : DirectoryEntry} : e ∈ d.entries → e.isLeaf = false → e.tileId ≤ tileId →
      tileId < e.tileId + e.runLength → Covers leafAt tileId d e
  | leaf {d below : Directory} {l e : DirectoryEntry} : l ∈ d.entries → l.isLeaf = true → leafAt l.offset l.length = some below →
      Covers leafAt tileId below e → Covers leafAt tileId d e

/-- Where the ids of an entry end: at the next one, or where those of the directory do. -/
def stopAt (d : Directory) (stop i : Nat) : Nat := ((d.entries[i + 1]?).map (·.tileId)).getD stop

/-- A directory of a well-formed tree, whose ids are from `start` to before `stop`, with what is asked of the entries that point
to leaves. -/
structure Level (header : Header) (below : Nat → Nat → DirectoryEntry → Prop) (start stop : Nat) (d : Directory) : Prop where
  ascending : d.Ascending
  within : ∀ x ∈ d.entries, start ≤ x.tileId ∧ x.tileId < stop
  tile : ∀ i x, d.entries[i]? = some x → x.isLeaf = false →
    x.tileId + x.runLength ≤ d.stopAt stop i ∧ x.offset + x.length ≤ header.data.length
  leaf : ∀ i x, d.entries[i]? = some x → x.isLeaf = true → below x.tileId (d.stopAt stop i) x

/-- A well-formed tree with at most so many levels of leaves, none of which is longer than `longest`. -/
def WellFormed (header : Header) (leafAt : Nat → Nat → Option Directory) (longest : Nat) : Nat → Nat → Nat → Directory → Prop
  | 0 => Level header fun _ _ _ => False
  | levels + 1 => Level header fun start stop x =>
      x.offset + x.length ≤ header.leaf.length ∧ x.length ≤ longest ∧
        ∃ below, leafAt x.offset x.length = some below ∧ WellFormed header leafAt longest levels start stop below

variable {header : Header} {leafAt : Nat → Nat → Option Directory} {longest levels start stop tileId : Nat} {d : Directory}

/-- In a well-formed tree each directory is a level, and those below it are well-formed. -/
theorem WellFormed.level (h : WellFormed header leafAt longest levels start stop d) :
    Level header (fun start stop x => ∃ fewer below, levels = fewer + 1 ∧ x.offset + x.length ≤ header.leaf.length ∧
      x.length ≤ longest ∧
      leafAt x.offset x.length = some below ∧ WellFormed header leafAt longest fewer start stop below) start stop d := by
  cases levels with
  | zero => exact ⟨h.ascending, h.within, h.tile, fun i x hx hleaf => (h.leaf i x hx hleaf).elim⟩
  | succ levels =>
    refine ⟨h.ascending, h.within, h.tile, fun i x hx hleaf => ?_⟩
    obtain ⟨hle, hlongest, below, hbelow, hwell⟩ := h.leaf i x hx hleaf
    exact ⟨levels, below, rfl, hle, hlongest, hbelow, hwell⟩

variable {i : Nat}

theorem stopAt_of_next {y : DirectoryEntry} (h : d.entries[i + 1]? = some y) : d.stopAt stop i = y.tileId := by
  rw [stopAt, h]
  rfl

theorem Level.stopAt_le {below : Nat → Nat → DirectoryEntry → Prop} (h : Level header below start stop d) (i : Nat) :
    d.stopAt stop i ≤ stop := by
  unfold stopAt
  cases hnext : d.entries[i + 1]? with
  | none => exact le_rfl
  | some y => exact (h.within y (List.mem_of_getElem? hnext)).2.le

/-- What is covered lies within the ids of the directory. -/
theorem WellFormed.covers_within (h : WellFormed header leafAt longest levels start stop d) {e : DirectoryEntry}
    (hcovers : Covers leafAt tileId d e) : start ≤ tileId ∧ tileId < stop := by
  induction hcovers generalizing levels start stop with
  | tile hmem htile hle hlt =>
    obtain ⟨i, hi⟩ := List.mem_iff_getElem?.mp hmem
    have hstart := (h.level.within _ hmem).1
    have hrun := (h.level.tile i _ hi htile).1
    have hstop := h.level.stopAt_le i
    omega
  | leaf hmem hleaf hat _ ih =>
    obtain ⟨i, hi⟩ := List.mem_iff_getElem?.mp hmem
    obtain ⟨fewer, below, -, -, -, hbelow, hwell⟩ := h.level.leaf i _ hi hleaf
    cases hat.symm.trans hbelow
    obtain ⟨hge, hlt⟩ := ih hwell
    have hstart := (h.level.within _ hmem).1
    have hstop := h.level.stopAt_le i
    omega

/-- What is covered is found: its own entry, or the one that points to where it is. -/
theorem WellFormed.find_of_covers (h : WellFormed header leafAt longest levels start stop d) {e : DirectoryEntry}
    (hcovers : Covers leafAt tileId d e) :
    ∃ i x, d.findTileId tileId = some (i, x) ∧ ((x.isLeaf = false ∧ x = e) ∨
      (x.isLeaf = true ∧ ∃ below, leafAt x.offset x.length = some below ∧ Covers leafAt tileId below e)) := by
  cases hcovers with
  | tile hmem htile hle hlt =>
    obtain ⟨i, hi⟩ := List.mem_iff_getElem?.mp hmem
    have hrun := (h.level.tile i _ hi htile).1
    refine ⟨i, e, findTileId_of_located h.level.ascending ⟨hi, hle, fun y hy => ?_⟩ (Or.inr hlt), Or.inl ⟨htile, rfl⟩⟩
    rw [stopAt_of_next hy] at hrun
    omega
  | @leaf _ below l _ hmem hleaf hat hcovers =>
    obtain ⟨i, hi⟩ := List.mem_iff_getElem?.mp hmem
    obtain ⟨fewer, below', -, -, -, hbelow, hwell⟩ := h.level.leaf i _ hi hleaf
    cases hat.symm.trans hbelow
    obtain ⟨hge, hlt⟩ := hwell.covers_within hcovers
    refine ⟨i, l, findTileId_of_located h.level.ascending ⟨hi, hge, fun y hy => ?_⟩ (Or.inl hleaf),
      Or.inr ⟨hleaf, below, hat, hcovers⟩⟩
    rw [stopAt_of_next hy] at hlt
    exact hlt

/-- Nothing is covered when nothing is found. -/
theorem WellFormed.not_covers (h : WellFormed header leafAt longest levels start stop d) (hfind : d.findTileId tileId = none)
    (e : DirectoryEntry) : ¬Covers leafAt tileId d e := by
  intro hcovers
  obtain ⟨i, x, hfound, -⟩ := h.find_of_covers hcovers
  rw [hfind] at hfound
  cases hfound

/-- A tile entry that is found is all that covers the tile id. -/
theorem WellFormed.covers_tile_iff (h : WellFormed header leafAt longest levels start stop d) {x e : DirectoryEntry}
    (hfind : d.findTileId tileId = some (i, x)) (htile : x.isLeaf = false) : Covers leafAt tileId d e ↔ e = x := by
  constructor
  · intro hcovers
    obtain ⟨j, y, hfound, ⟨-, rfl⟩ | ⟨hleaf, -⟩⟩ := h.find_of_covers hcovers
    · cases hfind.symm.trans hfound
      rfl
    · cases hfind.symm.trans hfound
      rw [htile] at hleaf
      cases hleaf
  · rintro rfl
    obtain ⟨hat, hle, hleaf | hlt⟩ := findTileId_some hfind
    · rw [htile] at hleaf
      cases hleaf
    · exact .tile (List.mem_of_getElem? hat) htile hle hlt

/-- Below an entry that points to a leaf directory is all that covers the tile id. -/
theorem WellFormed.covers_leaf_iff (h : WellFormed header leafAt longest levels start stop d) {x e : DirectoryEntry}
    {below : Directory} (hfind : d.findTileId tileId = some (i, x)) (hleaf : x.isLeaf = true)
    (hbelow : leafAt x.offset x.length = some below) : Covers leafAt tileId d e ↔ Covers leafAt tileId below e := by
  constructor
  · intro hcovers
    obtain ⟨j, y, hfound, ⟨htile, -⟩ | ⟨-, below', hbelow', hcovers⟩⟩ := h.find_of_covers hcovers
    · cases hfind.symm.trans hfound
      rw [htile] at hleaf
      cases hleaf
    · cases hfind.symm.trans hfound
      cases hbelow.symm.trans hbelow'
      exact hcovers
  · exact .leaf (List.mem_of_getElem? (findTileId_some hfind).1) hleaf hbelow

end Directory

section

variable {E M : Type} {backend : ArchiveBackend E M} {limits : ReaderLimits} {header : Header} {archiveLen : Nat}
  {leafAt : Nat → Nat → Option Directory}

/-- What a walk from the directory comes to: the entry that covers the tile id, or that there is none; or the reader's limits are
in the way, of which the tree has more levels or longer leaves. -/
def Resolved (backend : ArchiveBackend E M) (limits : ReaderLimits) (header : Header) (leafAt : Nat → Nat → Option Directory)
    (longest levels depth tileId : Nat) (d : Directory) (r : Except E (Option TileLocation)) : Prop :=
  (∃ e, (∀ e', d.Covers leafAt tileId e' ↔ e' = e) ∧ r = .ok
    (some ⟨header.data.offset + e.offset, e.length, header.archiveLen⟩)) ∨
    ((∀ e, ¬d.Covers leafAt tileId e) ∧ r = .ok none) ∨
    ((limits.maxDirectoryDepth < depth + levels ∨ limits.maxRangeBytes < longest) ∧ ∃ text,
      r = .error (backend.invalidArchive text))

/-- The backend answers with the leaf directories of the tree. -/
def ArchiveBackend.Serves (backend : ArchiveBackend E M) (header : Header) (leafAt : Nat → Nat → Option Directory) : Prop :=
  ∀ asked offset length below, leafAt offset length = some below →
    backend.loadLeaf asked ⟨header.leaf.offset + offset, length, header.internalCompression, header.archiveLen⟩ = .ok below

theorem resolveLoop_wellFormed {fuel longest levels start stop : Nat} {w : DirectoryWalker} {d : Directory}
    {asked : List LeafDirectoryRequest} (hheader : w.header = header) (hlen : w.archiveLen = header.archiveLen)
    (hmax : w.maxDepth = limits.maxDirectoryDepth) (hserves : backend.Serves header leafAt)
    (hwell : d.WellFormed header leafAt longest levels start stop) {asked' : List LeafDirectoryRequest}
      {r : Except E (Option TileLocation)}
    (h : resolveLoop backend limits header header.archiveLen fuel w d asked = some (asked', r)) :
    Resolved backend limits header leafAt longest levels w.depth w.tileId d r := by
  induction fuel generalizing levels start stop w d asked with
  | zero => cases h
  | succ fuel ih =>
    unfold resolveLoop at h
    cases hstep : w.step d with
    | error e =>
      rw [hstep] at h
      cases h
      obtain ⟨i, x, hfind, ⟨hleaf, hrefused⟩ | ⟨htile, hlt⟩⟩ := DirectoryWalker.step_error hstep
      · obtain ⟨fewer, -, rfl, hle, -⟩ := hwell.level.leaf i x (Directory.findTileId_some hfind).1 hleaf
        rw [hheader] at hrefused
        exact Or.inr (Or.inr ⟨Or.inl (by omega), e, rfl⟩)
      · have hle := (hwell.level.tile i x (Directory.findTileId_some hfind).1 htile).2
        rw [hheader] at hlt
        omega
    | ok stepped =>
      obtain ⟨w', s⟩ := stepped
      rw [hstep] at h
      rcases DirectoryWalker.step_cases hstep with ⟨hfind, rfl, rfl⟩ | ⟨i, x, hfind,
        ⟨hleaf, -, -, rfl, rfl⟩ | ⟨htile, -, rfl, rfl⟩⟩
      · cases h
        exact Or.inr (Or.inl ⟨hwell.not_covers hfind, rfl⟩)
      · obtain ⟨fewer, below, rfl, hle, hlongest, hbelow, hdeeper⟩ :=
          hwell.level.leaf i x (Directory.findTileId_some hfind).1 hleaf
        dsimp only at h
        rw [hheader] at h
        split at h
        · rename_i e hcheck
          cases h
          obtain ⟨hlong, text, rfl⟩ := checkRange_error (Section.holds_of_le hle).lt hcheck
          exact Or.inr (Or.inr ⟨Or.inr (hlong.trans_le hlongest), text, rfl⟩)
        · rw [hserves _ _ _ _ hbelow] at h
          have hresolved := ih (w := ⟨header, w.archiveLen, w.tileId, w.depth + 1, w.maxDepth⟩) rfl hlen hmax hdeeper h
          unfold Resolved at hresolved ⊢
          simp only [hwell.covers_leaf_iff hfind hleaf hbelow]
          rwa [show w.depth + (fewer + 1) = w.depth + 1 + fewer by omega]
      · cases h
        refine Or.inl ⟨x, fun e' => hwell.covers_tile_iff hfind htile, ?_⟩
        rw [hheader, hlen]

/-- A tile is looked for from the root on, or there was nothing to look in. -/
theorem resolveTileLocation_cases (backend : ArchiveBackend E M) (limits : ReaderLimits) (fuel tileId : Nat) :
    (∃ e, resolveTileLocation backend limits fuel tileId = some ([], .error e) ∧
      ∀ bootstrap, backend.loadBootstrap = .ok bootstrap → tileId ≤ maxTileId → limits.maxDirectoryDepth = 0) ∨
    ∃ bootstrap, backend.loadBootstrap = .ok bootstrap ∧
      resolveTileLocation backend limits fuel tileId =
        (resolveLoop backend limits bootstrap.header bootstrap.header.archiveLen fuel
          ⟨bootstrap.header, bootstrap.header.archiveLen, tileId, 0, limits.maxDirectoryDepth⟩ bootstrap.root []).map
            fun resolved =>
            (resolved.1, resolved.2.map fun location => (location, bootstrap.header, bootstrap.header.archiveLen)) := by
  unfold resolveTileLocation tileIdNew DirectoryWalker.new
  by_cases hlarge : tileId > maxTileId
  · rw [if_pos hlarge]
    exact Or.inl ⟨_, rfl, fun _ _ hle => absurd hlarge (Nat.not_lt.mpr hle)⟩
  rw [if_neg hlarge]
  cases hload : backend.loadBootstrap with
  | error e => exact Or.inl ⟨e, rfl, fun _ h => by cases h⟩
  | ok bootstrap =>
    by_cases hzero : limits.maxDirectoryDepth = 0
    · refine Or.inl ⟨backend.invalidArchive "PMTiles directory depth limit must be greater than zero", ?_, fun _ _ _ => hzero⟩
      dsimp only
      rw [if_pos hzero]
    · refine Or.inr ⟨bootstrap, rfl, ?_⟩
      dsimp only
      rw [if_neg hzero]
      rfl

/-- A location that is handed on is the one that the walk came to. -/
theorem located_of_map {tile : Except E (Option TileLocation)} {header header' : Header} {archiveLen archiveLen' : Nat}
    {location : TileLocation} (h : tile.map (fun location => (location, header, archiveLen)) = .ok
      (some location, header', archiveLen')) :
    tile = .ok (some location) ∧ header = header' ∧ archiveLen = archiveLen' := by
  cases tile with
  | error e => cases h
  | ok found =>
    obtain ⟨rfl, rest⟩ := Prod.mk.inj (Except.ok.inj h)
    cases rest
    exact ⟨rfl, rfl, rfl⟩

/-- What `get_tile` reads is what was resolved. -/
theorem read_of_getTile {fuel tileId : Nat} {reads : List ReadRequest} {result : Except E (Option TileData)}
    {request : ReadRequest}
    (h : getTile backend limits fuel tileId = some (reads, result)) (hmem : request ∈ reads) :
    ∃ asked location header archiveLen, resolveTileLocation backend limits fuel tileId =
      some (asked, .ok (some location, header, archiveLen)) ∧
      request = ⟨location.offset, location.length, some location.archiveLen⟩ := by
  unfold getTile at h
  split at h
  · cases h
  · cases h
    cases hmem
  · cases h
    cases hmem
  · rename_i asked location header archiveLen hresolved
    refine ⟨asked, location, header, archiveLen, hresolved, ?_⟩
    split at h
    · cases h
      cases hmem
    · dsimp only at h
      split at h
      · cases h
        exact List.mem_singleton.mp hmem
      · cases h
        exact List.mem_singleton.mp hmem

end

end Biei
