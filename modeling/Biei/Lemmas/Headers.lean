import Biei.Http.Headers
import Biei.Lemmas.Text
import Biei.Storage.Coordinator

/-! # Lemmas on headers -/

namespace Biei

/-! ## Maps -/

namespace HeaderMap

theorem getAll_insert_self (headers : HeaderMap) (name : String) (value : Bytes) :
    (headers.insert name value).getAll name = [value] := by
  have hnone : (headers.entries.filter fun entry => entry.1 != name).filter (fun entry => entry.1 == name) = [] := by
    simp [List.filter_filter, bne]
  simp only [getAll, insert, List.filter_append, hnone]
  simp

variable {name other : String}

theorem getAll_insert_of_ne (headers : HeaderMap) (h : other ≠ name) (value : Bytes) :
    (headers.insert name value).getAll other = headers.getAll other := by
  have hkeep : (headers.entries.filter fun entry => entry.1 != name).filter (fun entry => entry.1 == other) =
      headers.entries.filter fun entry => entry.1 == other := by
    rw [List.filter_filter]
    refine List.filter_congr fun entry _ => ?_
    by_cases hentry : entry.1 = other
    · simp [hentry, h]
    · simp [hentry]
  simp only [getAll, insert, List.filter_append, hkeep]
  simp [Ne.symm h]

theorem getAll_received (headers : HeaderMap) (name : String) :
    headers.received.getAll name = (headers.getAll name).map fieldValue := by
  simp only [getAll, received, List.filter_map, List.map_map]
  rfl

/-- What is received of a text that was inserted. -/
def sent (text : List Char) : Option (List Char) := (headerFromText text).bind fun value => headerToStr (fieldValue value)

theorem getStr_received_insert_self (headers : HeaderMap) (name : String) (value : Bytes) :
    (headers.insert name value).received.getStr name = headerToStr (fieldValue value) := by
  rw [getStr, getAll_received, getAll_insert_self]
  rfl

theorem getStr_received_insert_of_ne (headers : HeaderMap) (h : other ≠ name) (value : Bytes) :
    (headers.insert name value).received.getStr other = headers.received.getStr other := by
  rw [getStr, getAll_received, getAll_insert_of_ne headers h, ← getAll_received]
  rfl

theorem getStr_received_insertText_of_ne (headers : HeaderMap) (h : other ≠ name) (text : Option (List Char)) :
    (headers.insertText name text).received.getStr other = headers.received.getStr other := by
  unfold insertText
  split
  · exact getStr_received_insert_of_ne headers h _
  · rfl

/-- Where the header was not there before. -/
theorem getStr_received_insertText_self {headers : HeaderMap} {name : String} (h : headers.received.getStr name = none)
    (text : Option (List Char)) : (headers.insertText name text).received.getStr name = text.bind sent := by
  unfold insertText
  cases text with
  | none => exact h
  | some text =>
    rw [Option.bind_some, Option.bind_some, sent]
    cases headerFromText text with
    | none => exact h
    | some value => exact getStr_received_insert_self headers name value

end HeaderMap

/-! ## Field texts -/

theorem dropWhile_isBlank_eq_self_iff (value : Bytes) : value.dropWhile isBlank = value ↔ ∀ b ∈ value.head?,
    isBlank b = false := by
  cases value with
  | nil => simp
  | cons b value =>
    rw [List.dropWhile_eq_self_iff]
    simp

variable {value : Bytes}

theorem fieldValue_eq_self (hhead : ∀ b ∈ value.head?, isBlank b = false) (hlast : ∀ b ∈ value.getLast?, isBlank b = false) :
    fieldValue value = value := by
  have hreverse : ∀ b ∈ value.reverse.head?, isBlank b = false := by simpa using hlast
  rw [fieldValue, (dropWhile_isBlank_eq_self_iff value).mpr hhead, (dropWhile_isBlank_eq_self_iff value.reverse).mpr hreverse,
    List.reverse_reverse]

/-- A value that keeps its length has no blanks around it. -/
theorem of_length_fieldValue (h : (fieldValue value).length = value.length) :
    (∀ b ∈ value.head?, isBlank b = false) ∧ ∀ b ∈ value.getLast?, isBlank b = false := by
  rw [fieldValue, List.length_reverse] at h
  have hfirst := List.dropWhile_suffix (l := value) isBlank
  have hsecond := List.dropWhile_suffix (l := (value.dropWhile isBlank).reverse) isBlank
  have hfirstLe := hfirst.length_le
  have hsecondLe := hsecond.length_le
  rw [List.length_reverse] at hsecondLe
  have heq : value.dropWhile isBlank = value := hfirst.eq_of_length (by omega)
  rw [heq] at h hsecond
  have hreverse : value.reverse.dropWhile isBlank = value.reverse := hsecond.eq_of_length (by rw [List.length_reverse]; omega)
  have hlast := (dropWhile_isBlank_eq_self_iff value.reverse).mp hreverse
  exact ⟨(dropWhile_isBlank_eq_self_iff value).mp heq, by simpa using hlast⟩

variable {text : List Char}

/-- A text of visible characters is its bytes. -/
theorem utf8_of_visible (h : ∀ c ∈ text, c.toNat < 127) :
    utf8 (String.ofList text) = text.map fun c => UInt8.ofNat c.toNat := by
  rw [utf8_eq_flatMap, String.toList_ofList]
  induction text with
  | nil => rfl
  | cons c text ih =>
    have hc : String.utf8EncodeChar c = [UInt8.ofNat c.toNat] := by
      have hlt : c.val.toNat ≤ 127 := le_of_lt (h c List.mem_cons_self)
      simp only [String.utf8EncodeChar, hlt, if_true]
      rfl
    rw [List.flatMap_cons, List.map_cons, hc, ih fun d hd => h d (List.mem_cons_of_mem c hd)]
    rfl

variable {c : Char}

/-- The byte of a character below 128. -/
theorem toNat_ofNat_of_lt (h : c.toNat < 128) : (UInt8.ofNat c.toNat).toNat = c.toNat := by
  rw [UInt8.toNat_ofNat', Nat.mod_eq_of_lt (by omega)]

theorem isBlank_ofNat_iff (h : c.toNat < 128) : isBlank (UInt8.ofNat c.toNat) = false ↔ c ≠ ' ' ∧ c ≠ '\t' := by
  have hbyte : ∀ n < 128, UInt8.ofNat c.toNat = UInt8.ofNat n ↔ c.toNat = n := by
    intro n hn
    rw [← UInt8.toNat_inj, toNat_ofNat_of_lt h, UInt8.toNat_ofNat', Nat.mod_eq_of_lt (by omega)]
  have hchar : ∀ d : Char, c = d ↔ c.toNat = d.toNat := fun d => ⟨fun hc => hc ▸ rfl, fun hc => Char.ext (UInt32.toNat_inj.mp hc)⟩
  have hspace := hbyte 32 (by decide)
  have htab := hbyte 9 (by decide)
  have hblank : isBlank (UInt8.ofNat c.toNat) = false ↔ ¬c.toNat = 32 ∧ ¬c.toNat = 9 := by
    rw [← hspace, ← htab]
    simp [isBlank]
  rw [hblank, ne_eq, ne_eq, hchar, hchar]
  rfl

theorem IsVisible.lt (h : IsVisible c) : c.toNat < 127 := by
  unfold IsVisible at h
  omega

theorem visible_ofNat : ∀ b : UInt8, (b == 9 || (32 ≤ b && b < 127)) = true →
    UInt8.ofNat (Char.ofNat b.toNat).toNat = b ∧
      ((Char.ofNat b.toNat).toNat = 9 ∨ (32 ≤ (Char.ofNat b.toNat).toNat ∧ (Char.ofNat b.toNat).toNat < 127)) :=
  forall_byte (by decide +kernel)

theorem IsVisible.byte (h : IsVisible c) :
    (UInt8.ofNat c.toNat == 9 || (32 ≤ UInt8.ofNat c.toNat && UInt8.ofNat c.toNat < 127)) = true := by
  have hbyte := toNat_ofNat_of_lt (c := c) (by have := h.lt; omega)
  simp only [Bool.or_eq_true, beq_iff_eq, Bool.and_eq_true, decide_eq_true_eq, UInt8.le_iff_toNat_le, UInt8.lt_iff_toNat_lt,
    ← UInt8.toNat_inj, hbyte]
  exact h

/-- What is read as a text is its bytes. -/
theorem headerToStr_eq_some_iff :
    headerToStr value = some text ↔ (∀ c ∈ text, IsVisible c) ∧ value = text.map fun c => UInt8.ofNat c.toNat := by
  unfold headerToStr
  constructor
  · intro h
    split at h
    · rename_i hall
      have hvisible := List.all_eq_true.mp hall
      cases h
      refine ⟨fun c hc => ?_, ?_⟩
      · obtain ⟨b, hb, rfl⟩ := List.mem_map.mp hc
        exact (visible_ofNat b (hvisible b hb)).2
      · rw [List.map_map]
        conv => lhs; rw [← List.map_id value]
        exact List.map_congr_left fun b hb => (visible_ofNat b (hvisible b hb)).1.symm
    · cases h
  · rintro ⟨hvisible, rfl⟩
    have hall : (text.map fun c => UInt8.ofNat c.toNat).all (fun b => b == 9 || (32 ≤ b && b < 127)) = true := by
      rw [List.all_map, List.all_eq_true]
      exact fun c hc => (hvisible c hc).byte
    have hback : ((text.map fun c => UInt8.ofNat c.toNat).map fun b => Char.ofNat b.toNat) = text := by
      rw [List.map_map]
      conv => rhs; rw [← List.map_id text]
      refine List.map_congr_left fun c hc => ?_
      have hlt := (hvisible c hc).lt
      simp only [Function.comp_apply, toNat_ofNat_of_lt (c := c) (by omega), id, Char.ofNat_toNat]
    rw [if_pos hall, hback]

/-- A text of a character for each byte is read as it is where all of it is visible, and not at all elsewhere. -/
theorem headerToStr_map_eq_some_iff {text value : List Char} (h : ∀ c ∈ text, c.toNat < 256) :
    headerToStr (text.map fun c => UInt8.ofNat c.toNat) = some value ↔ (∀ c ∈ text, IsVisible c) ∧ value = text := by
  rw [headerToStr_eq_some_iff]
  constructor
  · rintro ⟨hvisible, hbytes⟩
    have htext : text = value := by
      refine List.ext_getElem (by simpa using congrArg List.length hbytes) fun i hi hi' => ?_
      have hbyte : UInt8.ofNat text[i].toNat = UInt8.ofNat value[i].toNat := by
        have hget := congrArg (·[i]?) hbytes
        simpa [hi, hi'] using hget
      have hlt := h _ (List.getElem_mem hi)
      have hlt' := (hvisible _ (List.getElem_mem hi')).lt
      have hnat := congrArg UInt8.toNat hbyte
      simp only [UInt8.toNat_ofNat'] at hnat
      exact Char.toNat_inj.mp (by omega)
    subst htext
    exact ⟨hvisible, rfl⟩
  · rintro ⟨hvisible, rfl⟩
    exact ⟨hvisible, rfl⟩

theorem headerFromText_eq_some (h : ∀ c ∈ text, IsVisible c) :
    headerFromText text = some (text.map fun c => UInt8.ofNat c.toNat) := by
  have hall : (text.map fun c => UInt8.ofNat c.toNat).all (fun b => b == 9 || (32 ≤ b && b != 127)) = true := by
    rw [List.all_map, List.all_eq_true]
    intro c hc
    have hvisible := (h c hc).byte
    have hne : UInt8.ofNat c.toNat < 127 → (UInt8.ofNat c.toNat != 127) = true := by
      intro hlt
      rw [bne_iff_ne]
      rintro heq
      rw [heq] at hlt
      exact absurd hlt (by decide)
    simp only [Bool.or_eq_true, Bool.and_eq_true, decide_eq_true_eq, Function.comp_apply] at hvisible ⊢
    rcases hvisible with htab | ⟨hle, hlt⟩
    · exact Or.inl htab
    · exact Or.inr ⟨hle, hne hlt⟩
  simp only [headerFromText, utf8_of_visible fun c hc => (h c hc).lt, hall, if_true]

/-- What a header is made of is the text's bytes. -/
theorem of_headerFromText (h : headerFromText text = some value) :
    value = utf8 (String.ofList text) := by
  simp only [headerFromText] at h
  split at h
  · exact (Option.some.inj h).symm
  · cases h

/-- The texts that come through a header as they are. -/
theorem sent_eq_some_iff : HeaderMap.sent text = some text ↔ IsFieldText text := by
  rw [HeaderMap.sent, Option.bind_eq_some_iff]
  constructor
  · rintro ⟨value, hvalue, htext⟩
    obtain ⟨hvisible, hfield⟩ := headerToStr_eq_some_iff.mp htext
    have hbytes : value = text.map fun c => UInt8.ofNat c.toNat := by
      rw [of_headerFromText hvalue, utf8_of_visible fun c hc => (hvisible c hc).lt]
    have hlength : (fieldValue value).length = value.length := by rw [hfield, hbytes]
    obtain ⟨hhead, hlast⟩ := of_length_fieldValue hlength
    rw [hbytes] at hhead hlast
    refine ⟨hvisible, fun c hc => ?_, fun c hc => ?_⟩
    · have hlt := (hvisible c (List.mem_of_mem_head? hc)).lt
      refine (isBlank_ofNat_iff (by omega)).mp (hhead _ ?_)
      rw [List.head?_map, hc]
      rfl
    · have hlt := (hvisible c (List.mem_of_mem_getLast? hc)).lt
      refine (isBlank_ofNat_iff (by omega)).mp (hlast _ ?_)
      rw [List.getLast?_map, hc]
      rfl
  · intro h
    refine ⟨_, headerFromText_eq_some h.visible, ?_⟩
    rw [fieldValue_eq_self]
    · exact headerToStr_eq_some_iff.mpr ⟨h.visible, rfl⟩
    · intro b hb
      rw [List.head?_map] at hb
      obtain ⟨c, hc, rfl⟩ := Option.map_eq_some_iff.mp hb
      have hlt := IsVisible.lt (h.visible c (List.mem_of_mem_head? hc))
      exact (isBlank_ofNat_iff (by omega)).mpr (h.head c hc)
    · intro b hb
      rw [List.getLast?_map] at hb
      obtain ⟨c, hc, rfl⟩ := Option.map_eq_some_iff.mp hb
      have hlt := IsVisible.lt (h.visible c (List.mem_of_mem_getLast? hc))
      exact (isBlank_ofNat_iff (by omega)).mpr (h.last c hc)

/-! ## The planned ranges -/

/-- The chunks of a range are the ones it covers. -/
@[simp]
theorem ChunkRange.mem_chunks {r : ChunkRange} {c : Nat} : c ∈ r.chunks ↔ r.Covers c := by
  simp only [ChunkRange.chunks, ChunkRange.Covers, List.mem_range'_1]
  omega

theorem ChunkRange.nodup_chunks (r : ChunkRange) : r.chunks.Nodup := List.nodup_range'

/-- The ranges lie one after the other. -/
def Ascending (rs : List ChunkRange) : Prop := rs.Pairwise fun a b => a.stop ≤ b.start

/-- Two ranges share no chunk. -/
def ChunkRange.Disjoint (a b : ChunkRange) : Prop := ∀ c, ¬(a.Covers c ∧ b.Covers c)

theorem ChunkRange.Disjoint.symm {a b : ChunkRange} (h : a.Disjoint b) : b.Disjoint a := by
  intro c hc
  exact h c hc.symm

/-- A range that ends before another starts shares no chunk with it. -/
theorem ChunkRange.disjoint_of_le {a b : ChunkRange} (h : a.stop ≤ b.start) : a.Disjoint b := by
  rintro c ⟨ha, hb⟩
  simp only [ChunkRange.Covers] at ha hb
  omega

/-- The loop opens no range before the one it has open, and the ranges it closes lie one after the other: by induction on the
chunks still to come, each of which lies at or after the end of the open range. -/
theorem contiguousLoop_ascending (m gap : Nat) (cs : List Nat) :
    ∀ start stop, start < stop → (∀ c ∈ cs, stop ≤ c) → cs.Pairwise (· < ·) →
      (∀ r ∈ contiguousLoop m gap start stop cs, start ≤ r.start ∧ r.start < r.stop) ∧
        Ascending (contiguousLoop m gap start stop cs) := by
  induction cs with
  | nil =>
    intro start stop hlt _ _
    simp only [contiguousLoop, List.mem_singleton, forall_eq, Ascending, List.pairwise_singleton, and_true]
    exact ⟨Nat.le_refl _, hlt⟩
  | cons c cs ih =>
    intro start stop hlt hge hp
    obtain ⟨hc, hcs⟩ := List.pairwise_cons.mp hp
    have hsc : stop ≤ c := hge c List.mem_cons_self
    have hnext : ∀ x ∈ cs, c + 1 ≤ x := fun x hx => hc x hx
    simp only [contiguousLoop]
    split
    · exact ih start (c + 1) (by omega) hnext hcs
    · obtain ⟨h1, h2⟩ := ih c (c + 1) (by omega) hnext hcs
      refine ⟨?_, ?_⟩
      · intro r hr
        rcases List.mem_cons.mp hr with rfl | hr
        · exact ⟨Nat.le_refl _, hlt⟩
        · obtain ⟨h3, h4⟩ := h1 r hr
          exact ⟨by omega, h4⟩
      · refine List.pairwise_cons.mpr ⟨fun r hr => ?_, h2⟩
        obtain ⟨h3, -⟩ := h1 r hr
        exact hsc.trans h3

/-- The planned ranges are not empty and lie one after the other. -/
theorem contiguousChunkRanges_ascending (chunks : OrderedSet Nat) (m gap : Nat) :
    (∀ r ∈ contiguousChunkRanges chunks m gap, r.start < r.stop) ∧ Ascending (contiguousChunkRanges chunks m gap) := by
  unfold contiguousChunkRanges
  have hs := chunks.sorted
  split
  · exact ⟨by simp, List.Pairwise.nil⟩
  · rename_i c cs hl
    rw [hl] at hs
    obtain ⟨hc, hcs⟩ := List.pairwise_cons.mp hs
    obtain ⟨h1, h2⟩ := contiguousLoop_ascending (max m 1) gap cs c (c + 1) (by omega) (fun x hx => hc x hx) hcs
    exact ⟨fun r hr => (h1 r hr).2, h2⟩

/-- The ranges of the next dispatch share no chunk with each other. -/
theorem plannedGroups_disjoint (st : TilesetFetchState) (m : Nat) :
    (st.plannedGroups m).Pairwise ChunkRange.Disjoint := by
  have h := (contiguousChunkRanges_ascending st.pendingChunks m maxChunkGap).2
  exact (h.imp fun hab => ChunkRange.disjoint_of_le hab).sublist (List.take_sublist _ _)

end Biei
