import Biei.Lemmas.Accept

/-! # Negotiation of tile formats -/

namespace Biei.Accept

open Quoted Ishikari

/-- `parse::<f32>` of a weight of the grammar: at most one, and above zero where a digit is. -/
def ReadsQvalues (state : DerivedState) : Prop := ∀ q, IsQvalue q → (state.qualityAllows q = true ↔ IsNonzero q)

/-- The range is read for its own weight: its field is a text, and no quoted value hides another one. -/
def ReadPlainly (f : Field) (r : MediaRange) : Prop := f.IsText ∧ r.Plain

variable {r : MediaRange}

theorem MediaRange.isQvalue_weight {q : List Char} (h : r.weight? = some q) : IsQvalue q := by
  obtain ⟨p, hp, rfl⟩ := Option.map_eq_some_iff.mp h
  exact r.weights_valid p (List.mem_of_find?_eq_some hp) (List.find?_some hp)

/-- A plain range is taken when it is acceptable. -/
theorem MediaRange.Plain.allows_iff (h : r.Plain) {state : DerivedState} (hreads : ReadsQvalues state) :
    (∀ q, r.read.getLast? = some q → state.qualityAllows q = true) ↔ r.Acceptable := by
  rw [h.getLast?_read]
  exact forall_congr' fun q => ⟨fun hq hweight => (hreads q (MediaRange.isQvalue_weight hweight)).mp (hq hweight),
    fun hq hweight => (hreads q (MediaRange.isQvalue_weight hweight)).mpr (hq hweight)⟩

/-- Without the extension, tiles are asked for by the ranges that are read of the fields. -/
theorem negotiateFormat_eq_mlt_iff (state : DerivedState) {yRaw : List Char}
    (hy : ∀ y, rsplitOnce '.' yRaw ≠ some (y, "mlt".toList))
    {headers : HeaderMap} {fields : List Field} (hfields : headers.getAll "accept" = fields.map Field.bytes) :
    (negotiateFormat state yRaw headers).2 = .mlt ↔ ∃ f ∈ fields, ∃ r, Element.range r ∈ f ∧ r.IsMlt ∧ f.IsText ∧
      ∀ q, r.read.getLast? = some q → state.qualityAllows q = true := by
  have hwanted : (negotiateFormat state yRaw headers).2 = .mlt ↔
    (headers.getAllStr "accept").any (acceptValueAllowsMlt state) = true := by
    unfold negotiateFormat
    cases hsplit : rsplitOnce '.' yRaw with
    | none => simp
    | some parts =>
      obtain ⟨y, extension⟩ := parts
      have hne : extension ≠ "mlt".toList := fun heq => hy y (heq ▸ hsplit)
      simp only [if_neg hne]
      split
      · simp
      · simp
  rw [hwanted, List.any_eq_true, HeaderMap.getAllStr, hfields]
  constructor
  · rintro ⟨value, hvalue, hallows⟩
    obtain ⟨bytes, hbytes, hstr⟩ := List.mem_filterMap.mp hvalue
    obtain ⟨f, hf, rfl⟩ := List.mem_map.mp hbytes
    obtain ⟨htext, rfl⟩ := headerToStr_bytes.mp hstr
    obtain ⟨r, hr, hmlt, hread⟩ := (acceptValueAllowsMlt_text state f).mp hallows
    exact ⟨f, hf, r, hr, hmlt, htext, hread⟩
  · rintro ⟨f, hf, r, hr, hmlt, htext, hread⟩
    refine ⟨f.text, ?_, (acceptValueAllowsMlt_text state f).mpr ⟨r, hr, hmlt, hread⟩⟩
    exact List.mem_filterMap.mpr ⟨f.bytes, List.mem_map.mpr ⟨f, hf, rfl⟩, headerToStr_bytes.mpr ⟨htext, rfl⟩⟩

/-- For fields of the grammar and a segment without the extension, the format is the one the grammar asks for when a range that is
read plainly is acceptable, or else every range of the tile type is read plainly. -/
theorem mlt_negotiation_agrees {state : DerivedState} (hreads : ReadsQvalues state) {yRaw : List Char}
    (hy : ∀ y, rsplitOnce '.' yRaw ≠ some (y, "mlt".toList)) {headers : HeaderMap} {fields : List Field}
    (hfields : headers.getAll "accept" = fields.map Field.bytes)
    (hplain : (∃ f ∈ fields, ∃ r, Element.range r ∈ f ∧ r.IsMlt ∧ ReadPlainly f r ∧ r.Acceptable) ∨
      ∀ f ∈ fields, ∀ r, Element.range r ∈ f → r.IsMlt → ReadPlainly f r) :
    (negotiateFormat state yRaw headers).2 = .mlt ↔ ∃ f ∈ fields, ∃ r, Element.range r ∈ f ∧ r.IsMlt ∧ r.Acceptable := by
  rw [negotiateFormat_eq_mlt_iff state hy hfields]
  rcases hplain with ⟨f, hf, r, hr, hmlt, ⟨htext, hplain⟩, hacceptable⟩ | hall
  · -- whatever else is read, this range is taken
    exact iff_of_true ⟨f, hf, r, hr, hmlt, htext, (hplain.allows_iff hreads).mpr hacceptable⟩ ⟨f, hf, r, hr, hmlt, hacceptable⟩
  · constructor
    · rintro ⟨f, hf, r, hr, hmlt, -, hq⟩
      exact ⟨f, hf, r, hr, hmlt, ((hall f hf r hr hmlt).2.allows_iff hreads).mp hq⟩
    · rintro ⟨f, hf, r, hr, hmlt, hacceptable⟩
      obtain ⟨htext, hplain⟩ := hall f hf r hr hmlt
      exact ⟨f, hf, r, hr, hmlt, htext, (hplain.allows_iff hreads).mpr hacceptable⟩

/-! ## A weight in quotes -/

/-- Weights in decimals, as far as the grammar goes. -/
def decimalWeight : List Char → Bool
  | '0' :: rest => rest.all (fun c => c.isDigit || c == '.') && rest.any fun c => c != '0' && c != '.'
  | '1' :: rest => rest.all fun c => c == '0' || c == '.'
  | _ => false

def weighingState : DerivedState where
  mapterhorn := none
  qualityAllows := decimalWeight
  tileIdOf := fun z x y => 4 ^ z + 2 ^ z * x + y
  generate := fun _ _ _ _ _ => .ok none
  gzip := .ok
  transcodeMlt := fun tile => .ok tile.bytes

theorem readsQvalues_weighingState : ReadsQvalues weighingState := by
  intro q hq
  show decimalWeight q = true ↔ IsNonzero q
  cases hq with
  | zero => exact iff_of_false (by decide) (by rintro ⟨c, hc, hne, -⟩; exact hne (List.mem_singleton.mp hc))
  | one => exact iff_of_true (by decide) ⟨'1', by decide⟩
  | @fraction digits _ hdigits =>
    have hall : ('.' :: digits).all (fun c => c.isDigit || c == '.') = true := by
      simpa using fun c hc => Or.inl (hdigits c hc)
    rw [decimalWeight, hall, Bool.true_and, List.any_eq_true]
    simp [IsNonzero]
  | @whole digits _ hdigits =>
    refine iff_of_true ?_ ⟨'1', by simp⟩
    simpa [decimalWeight] using fun c hc => Or.inl (hdigits c hc)

/-- A range of the tile type with one parameter, whose value is quoted. -/
def quotedRange (body : List Char) (h : IsQuotedBody body) : MediaRange where
  lead := []
  mediaType := mltContentType.toList
  parameters := [⟨[], [' '], ['x'], '\"' :: body, nofun, by decide, by decide, Or.inr ⟨body, rfl, h⟩⟩]
  trail := []
  lead_blank := nofun
  trail_blank := nofun
  type_tokens := ⟨"application".toList, "vnd.maplibre-tile".toList, by decide, by decide, by decide⟩
  weights_le := Nat.zero_le 1
  weights_valid := by
    intro p hp hweight
    rw [List.mem_singleton.mp hp] at hweight
    exact Bool.noConfusion hweight

theorem isQuotedBody_weight : IsQuotedBody ";q=0;\"".toList where
  closes := by
    refine Closes.char ?_ ?_ (Closes.char ?_ ?_ (Closes.char ?_ ?_ (Closes.char ?_ ?_ (Closes.char ?_ ?_ Closes.close)))) <;>
      decide
  chars := fun c hc => Or.inl (by revert c; decide)

theorem isQuotedBody_comma : IsQuotedBody "a,b\"".toList where
  closes := by refine Closes.char ?_ ?_ (Closes.char ?_ ?_ (Closes.char ?_ ?_ Closes.close)) <;> decide
  chars := fun c hc => Or.inl (by revert c; decide)

/-- The field `application/vnd.maplibre-tile; x=";q=0;"`. -/
def quotedWeightField : Field := [.range (quotedRange _ isQuotedBody_weight)]

/-- A range of the tile type without a weight is taken for a refusal. -/
theorem mlt_negotiation_quoted_weight :
    ReadsQvalues weighingState ∧ quotedWeightField.text = "application/vnd.maplibre-tile; x=\";q=0;\"".toList ∧
      ¬ ((negotiateFormat weighingState "7".toList ⟨[("accept", quotedWeightField.bytes)]⟩).2 = .mlt ↔
        ∃ f ∈ [quotedWeightField], ∃ r, Element.range r ∈ f ∧ r.IsMlt ∧ r.Acceptable) := by
  refine ⟨readsQvalues_weighingState, by decide, fun h => ?_⟩
  have hread : (negotiateFormat weighingState "7".toList ⟨[("accept", quotedWeightField.bytes)]⟩).2 = .asStored := by decide
  have hmlt : (quotedRange _ isQuotedBody_weight).IsMlt := by unfold MediaRange.IsMlt; decide
  have hacceptable : (quotedRange _ isQuotedBody_weight).Acceptable := by
    intro q hq
    nomatch hq
  have hwanted := h.mpr ⟨_, List.mem_singleton_self _, _, List.mem_singleton_self _, hmlt, hacceptable⟩
  exact absurd (hread.symm.trans hwanted) (by decide)

/-- A comma in quotes does not end the range. -/
theorem mlt_negotiation_agrees_comma :
    (negotiateFormat weighingState "7".toList ⟨[("accept", Field.bytes [.range (quotedRange _ isQuotedBody_comma)])]⟩).2 =
      .mlt := by
  have hacceptable : (quotedRange _ isQuotedBody_comma).Acceptable := by
    intro q hq
    nomatch hq
  have hmlt : (quotedRange _ isQuotedBody_comma).IsMlt := by unfold MediaRange.IsMlt; decide
  have hplain : ReadPlainly [.range (quotedRange _ isQuotedBody_comma)] (quotedRange _ isQuotedBody_comma) := by
    refine ⟨by unfold Field.IsText; decide, fun before p after hp hhides => ?_⟩
    have hmem : p ∈ (quotedRange _ isQuotedBody_comma).parameters := hp ▸ List.mem_append_right before List.mem_cons_self
    rw [List.mem_singleton.mp hmem] at hhides
    obtain ⟨piece, hpiece, -⟩ := hhides
    exact absurd hpiece (by decide +revert)
  exact (mlt_negotiation_agrees readsQvalues_weighingState (fun y h => by cases h) (List.map_singleton ▸ rfl)
    (Or.inl ⟨_, List.mem_singleton_self _, _, List.mem_singleton_self _, hmlt, hplain, hacceptable⟩)).mpr
    ⟨_, List.mem_singleton_self _, _, List.mem_singleton_self _, hmlt, hacceptable⟩

end Biei.Accept
