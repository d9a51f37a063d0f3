import Biei.Ishikari.Conditional
import Biei.Lemmas.Accept

/-! # Lemmas on entity tags -/

namespace Biei.EntityTags

open Quoted Ishikari Accept

/-! ## Tags -/

theorem EntityTag.balanced (t : EntityTag) : Balanced false ',' t.text := by
  have hcloses : Closes false (t.body ++ ['\"']) := by
    have hvalid := t.valid
    revert hvalid
    induction t.body with
    | nil => exact fun _ => Closes.close
    | cons c body ih =>
      intro hvalid
      rw [List.forall_mem_cons] at hvalid
      have hquote : c ≠ '\"' := fun heq => by
        rw [heq] at hvalid
        exact absurd hvalid.1 (by decide)
      exact Closes.char hquote nofun (ih hvalid.2)
  have hstrong : Balanced false ',' t.strong := by
    rw [EntityTag.strong, ← List.append_nil (t.body ++ ['\"'])]
    exact Balanced.quoted hcloses Balanced.nil
  unfold EntityTag.text
  split
  · exact Balanced.char (by decide) (by decide) (Balanced.char (by decide) (by decide) hstrong)
  · exact hstrong

/-- A text that begins and ends with something else than white space. -/
theorem trim_of_ends {c d : Char} (hc : isWhitespace c = false) (hd : isWhitespace d = false) (mid : List Char) :
    trim (c :: (mid ++ [d])) = c :: (mid ++ [d]) := by
  rw [trim, List.dropWhile_cons_of_neg (by simp [hc]), List.reverse_cons, List.reverse_append, List.reverse_singleton,
    List.singleton_append, List.cons_append, List.dropWhile_cons_of_neg (by simp [hd])]
  simp

theorem EntityTag.trim_text (t : EntityTag) : trim t.text = t.text := by
  unfold EntityTag.text EntityTag.strong
  split
  · exact trim_of_ends (c := 'W') rfl rfl ('/' :: '\"' :: t.body)
  · exact trim_of_ends rfl rfl t.body

theorem EntityTag.stripWeak_text (t : EntityTag) : stripWeak t.text = t.strong := by
  unfold EntityTag.text
  split
  · rfl
  · rfl

/-- A tag is neither a star nor nothing. -/
theorem EntityTag.text_ne_star (t : EntityTag) : t.text ≠ ['*'] := by
  unfold EntityTag.text EntityTag.strong
  split
  · simp
  · simp

/-! ## Lists -/

theorem splitEntityTagList_eq_pieces (quoted : Bool) (tag text : List Char) :
    splitEntityTagList quoted tag text = ((pieces false ',' ⟨quoted, false⟩ text).modifyHead (tag ++ ·)).map trim := by
  induction text generalizing quoted tag with
  | nil => simp [splitEntityTagList, pieces]
  | cons c text ih =>
    have hgo : ∀ quoted, splitEntityTagList quoted (tag ++ [c]) text =
        (((pieces false ',' ⟨quoted, false⟩ text).modifyHead (c :: ·)).modifyHead (tag ++ ·)).map trim := by
      intro quoted
      rw [ih, List.modifyHead_modifyHead]
      congr 2
      funext piece
      simp
    unfold splitEntityTagList pieces advance
    simp only [Bool.false_eq_true, if_false, false_and]
    split
    · exact hgo (!quoted)
    · by_cases hcomma : c = ',' ∧ quoted = false
      · obtain ⟨rfl, rfl⟩ := hcomma
        simp only [Bool.not_false, and_self, if_true, List.modifyHead_cons, List.append_nil, List.map_cons, ih]
        cases hpieces : pieces false ',' ⟨false, false⟩ text with
        | nil => exact absurd hpieces (pieces_ne_nil _ _)
        | cons head tail => simp [plain, hpieces]
      · rw [if_neg hcomma, if_neg (by simpa using hcomma)]
        exact hgo quoted

theorem Element.balanced : ∀ e : Element, Balanced false ',' e.text
  | .blank _ h => balanced_of_forall fun c hc => by rcases h c hc with rfl | rfl <;> decide
  | .tag _ t _ hlead htrail =>
    ((balanced_of_forall fun c hc => by rcases hlead c hc with rfl | rfl <;> decide).append t.balanced).append
      (balanced_of_forall fun c hc => by rcases htrail c hc with rfl | rfl <;> decide)

/-- The tag of an element, or nothing. -/
def Element.candidate : Element → List Char
  | .blank _ _ => []
  | .tag _ t _ _ _ => t.text

theorem Element.trim_text : ∀ e : Element, trim e.text = e.candidate
  | .blank _ h => trim_append_right h.isWhitespace []
  | .tag _ t _ hlead htrail => by
    rw [Element.text, trim_append_right htrail.isWhitespace, trim_append_left hlead.isWhitespace, t.trim_text, Element.candidate]

/-- What is compared of a field of the grammar. -/
theorem splitEntityTagList_text : ∀ f : Field, splitEntityTagList false [] f.text =
    match f with
    | .star .. => [['*']]
    | .list [] => [[]]
    | .list elements => elements.map Element.candidate
  | .star lead trail hlead htrail => by
    have hbalanced : Balanced false ',' (lead ++ '*' :: trail) :=
      (balanced_of_forall fun c hc => by rcases hlead c hc with rfl | rfl <;> decide).append
        (Balanced.char (by decide) (by decide) (balanced_of_forall fun c hc => by rcases htrail c hc with rfl | rfl <;> decide))
    have htrim : trim (lead ++ '*' :: trail) = ['*'] := by
      rw [trim_append_left hlead.isWhitespace, ← List.singleton_append, trim_append_right htrail.isWhitespace]
      rfl
    rw [splitEntityTagList_eq_pieces, Field.text]
    show List.map trim (List.modifyHead _ (pieces false ',' plain _)) = _
    rw [pieces_of_scan ((scan_eq_plain_iff (by decide)).mpr hbalanced)]
    simp [htrim]
  | .list [] => rfl
  | .list (e :: elements) => by
    have hpieces : pieces false ',' plain (Field.list (e :: elements)).text = (e :: elements).map Element.text := by
      refine pieces_intercalate_balanced (by decide) (List.cons_ne_nil _ _) fun piece hpiece => ?_
      obtain ⟨e', -, rfl⟩ := List.mem_map.mp hpiece
      exact e'.balanced
    rw [splitEntityTagList_eq_pieces]
    show List.map trim (List.modifyHead _ (pieces false ',' plain _)) = _
    rw [hpieces, List.map_cons, List.modifyHead_cons, List.nil_append, ← List.map_cons, List.map_map]
    exact List.map_congr_left fun e' _ => e'.trim_text

/-! ## Bytes -/

theorem IsEtagChar.lt {c : Char} (h : IsEtagChar c) : c.toNat < 256 := by
  unfold IsEtagChar at h
  omega

theorem lt_of_isBlankText {text : List Char} (h : IsBlankText text) : ∀ c ∈ text, c.toNat < 256 := by
  intro c hc
  rcases h c hc with rfl | rfl <;> decide

theorem EntityTag.lt (t : EntityTag) : ∀ c ∈ t.text, c.toNat < 256 := by
  have hstrong : ∀ c ∈ t.strong, c.toNat < 256 := by
    simp only [EntityTag.strong, List.forall_mem_cons, List.forall_mem_append]
    exact ⟨by decide, fun c hc => (t.valid c hc).lt, by decide⟩
  unfold EntityTag.text
  split
  · simp only [List.forall_mem_cons]
    exact ⟨by decide, by decide, hstrong⟩
  · exact hstrong

theorem Element.lt : ∀ e : Element, ∀ c ∈ e.text, c.toNat < 256
  | .blank _ h => lt_of_isBlankText h
  | .tag lead t trail hlead htrail => by
    simp only [Element.text, List.forall_mem_append]
    exact ⟨⟨lt_of_isBlankText hlead, t.lt⟩, lt_of_isBlankText htrail⟩

/-- A field is sent a byte for each character. -/
theorem Field.toNat_lt : ∀ f : Field, ∀ c ∈ f.text, c.toNat < 256
  | .star lead trail hlead htrail => by
    simp only [Field.text, List.forall_mem_append, List.forall_mem_cons]
    exact ⟨lt_of_isBlankText hlead, by decide, lt_of_isBlankText htrail⟩
  | .list elements => by
    refine forall_mem_intercalate (by decide) fun piece hpiece => ?_
    obtain ⟨e, -, rfl⟩ := List.mem_map.mp hpiece
    exact e.lt

variable {f : Field}

theorem headerToStr_bytes {value : List Char} : headerToStr f.bytes = some value ↔ f.IsText ∧ value = f.text :=
  headerToStr_map_eq_some_iff f.toNat_lt

/-! ## Comparing -/

/-- Weak comparison: the tags are the same up to weakness. -/
def EntityTag.WeaklyEqual (t : EntityTag) (etag : List Char) : Prop :=
  (t.strong.map fun c => UInt8.ofNat c.toNat) = utf8 (String.ofList (stripWeak etag))

/-- The tags of a field that is a text are texts. -/
theorem Field.Lists.visible (hf : f.IsText) {t : EntityTag} (h : f.Lists t) : ∀ c ∈ t.text, IsVisible c := by
  obtain ⟨elements, lead, trail, hlead, htrail, rfl, hmem⟩ := h
  intro c hc
  refine hf c ?_
  have hsub : ∀ item ∈ elements.map Element.text, ∀ c ∈ item, c ∈ [','].intercalate (elements.map Element.text) := by
    generalize elements.map Element.text = items
    induction items with
    | nil => nofun
    | cons item items ih =>
      cases items with
      | nil => simp
      | cons next items =>
        rw [List.intercalate_cons_cons]
        intro piece hpiece c hc
        rcases List.mem_cons.mp hpiece with rfl | hpiece
        · exact List.mem_append_left _ (List.mem_append_left _ hc)
        · exact List.mem_append_right _ (ih piece hpiece c hc)
  refine hsub _ (List.mem_map.mpr ⟨_, hmem, rfl⟩) c ?_
  exact List.mem_append_left _ (List.mem_append_right _ hc)

theorem EntityTag.mem_text_of_mem_strong (t : EntityTag) : ∀ c ∈ t.strong, c ∈ t.text := by
  intro c hc
  unfold EntityTag.text
  split
  · exact List.mem_cons_of_mem _ (List.mem_cons_of_mem _ hc)
  · exact hc

theorem EntityTag.weaklyEqual_iff {t : EntityTag} (h : ∀ c ∈ t.text, IsVisible c) {etag : List Char} :
    t.WeaklyEqual etag ↔ stripWeak t.text = stripWeak etag := by
  have hbytes := utf8_of_visible fun c hc => (h c (t.mem_text_of_mem_strong c hc)).lt
  rw [t.stripWeak_text, EntityTag.WeaklyEqual, ← hbytes]
  exact ⟨fun heq => String.ofList_injective (utf8_injective heq), fun heq => heq ▸ rfl⟩

/-- What a field that is a text is matched for: a star, a tag, or a blank element where the `ETag` is nothing. -/
theorem ifNoneMatchMatches_text (hf : f.IsText) (etag : Option (List Char)) :
    ifNoneMatchMatches f.text etag = true ↔
      (f.IsStar ∨ ∃ t, f.Lists t ∧ ∃ e, etag = some e ∧ t.WeaklyEqual e) ∨
        (f.HasBlank ∧ ∃ e, etag = some e ∧ stripWeak e = []) := by
  have hempty : stripWeak [] = [] := rfl
  unfold ifNoneMatchMatches
  rw [splitEntityTagList_text, List.any_eq_true]
  cases f with
  | star lead trail hlead htrail => exact iff_of_true ⟨['*'], List.mem_singleton_self _, by simp⟩ (Or.inl (Or.inl trivial))
  | list elements =>
    have hcandidate : ∀ candidate, ((candidate == ['*'] || etag.any fun etag => stripWeak candidate == stripWeak etag) = true) ↔
        candidate = ['*'] ∨ ∃ e, etag = some e ∧ stripWeak candidate = stripWeak e := by
      intro candidate
      cases etag <;> simp
    simp only [hcandidate]
    constructor
    · rintro ⟨candidate, hmem, hmatch⟩
      have helement : (candidate = [] ∧ (Field.list elements).HasBlank) ∨ ∃ t, (Field.list elements).Lists t ∧
        candidate = t.text := by
        cases elements with
        | nil => exact Or.inl ⟨List.mem_singleton.mp hmem, Or.inl rfl⟩
        | cons e elements =>
          obtain ⟨e', he', rfl⟩ := List.mem_map.mp hmem
          cases e' with
          | blank text h => exact Or.inl ⟨rfl, Or.inr ⟨text, h, he'⟩⟩
          | tag lead t trail hlead htrail => exact Or.inr ⟨t, ⟨_, lead, trail, hlead, htrail, rfl, he'⟩, rfl⟩
      rcases helement with ⟨rfl, hblank⟩ | ⟨t, ht, rfl⟩
      · rcases hmatch with hstar | ⟨e, he, heq⟩
        · nomatch hstar
        · exact Or.inr ⟨hblank, e, he, (hempty ▸ heq).symm⟩
      · rcases hmatch with hstar | ⟨e, he, heq⟩
        · exact absurd hstar t.text_ne_star
        · exact Or.inl (Or.inr ⟨t, ht, e, he, (EntityTag.weaklyEqual_iff (ht.visible hf)).mpr heq⟩)
    · rintro ((hstar | ⟨t, ht, e, he, heq⟩) | ⟨hblank, e, he, heq⟩)
      · exact hstar.elim
      · have hequal := (EntityTag.weaklyEqual_iff (ht.visible hf)).mp heq
        obtain ⟨elements', lead, trail, hlead, htrail, hlist, hmem⟩ := ht
        cases hlist
        cases elements with
        | nil => nomatch hmem
        | cons _ _ => exact ⟨t.text, List.mem_map.mpr ⟨_, hmem, rfl⟩, Or.inr ⟨e, he, hequal⟩⟩
      · have hnil : [] ∈ (match Field.list elements with
            | .star .. => [['*']]
            | .list [] => [[]]
            | .list elements => elements.map Element.candidate) := by
          cases elements with
          | nil => exact List.mem_singleton_self _
          | cons e' elements =>
            rcases hblank with hnil | ⟨text, h, hmem⟩
            · nomatch hnil
            · exact List.mem_map.mpr ⟨_, hmem, rfl⟩
        exact ⟨[], hnil, Or.inr ⟨e, he, heq ▸ hempty⟩⟩

end Biei.EntityTags
