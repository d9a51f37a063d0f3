import Biei.Http.Accept
import Biei.Ishikari.Derived
import Biei.Lemmas.CacheControl
import Biei.Lemmas.ProviderBody

/-! # Lemmas on Accept -/

namespace Biei.Accept

open Quoted Ishikari

/-! ## Characters -/

variable {text : List Char}

theorem IsBlankText.isWhitespace (h : IsBlankText text) : ∀ c ∈ text, isWhitespace c = true := by
  intro c hc
  rcases h c hc with rfl | rfl <;> rfl

variable {c : Char}

theorem toNat_of_isAlphanum (h : c.isAlphanum = true) :
    (48 ≤ c.toNat ∧ c.toNat ≤ 57) ∨ (65 ≤ c.toNat ∧ c.toNat ≤ 90) ∨ (97 ≤ c.toNat ∧ c.toNat ≤ 122) := by
  simp only [Char.isAlphanum, Char.isAlpha, Char.isUpper, Char.isLower, Char.isDigit, Bool.or_eq_true, Bool.and_eq_true,
    decide_eq_true_eq, ge_iff_le, UInt32.le_iff_toNat_le] at h
  have hcode : c.val.toNat = c.toNat := rfl
  rw [hcode] at h
  have hbounds : 'A'.val.toNat = 65 ∧ 'Z'.val.toNat = 90 ∧ 'a'.val.toNat = 97 ∧ 'z'.val.toNat = 122 ∧ '0'.val.toNat = 48 ∧
    '9'.val.toNat = 57 :=
    ⟨rfl, rfl, rfl, rfl, rfl, rfl⟩
  omega

/-- The characters that are in no token. -/
theorem toNat_of_isTokenChar (h : isTokenChar c = true) :
    33 ≤ c.toNat ∧ c.toNat < 127 ∧ c.toNat ≠ 34 ∧ c.toNat ≠ 44 ∧ c.toNat ≠ 59 ∧ c.toNat ≠ 61 := by
  rcases Bool.or_eq_true _ _ ▸ h with h | h
  · rcases toNat_of_isAlphanum h with h | h | h <;> omega
  · have hmem := of_decide_eq_true h
    simp only [List.mem_cons, List.not_mem_nil, or_false] at hmem
    omega

theorem isWhitespace_of_isTokenChar (h : isTokenChar c = true) : isWhitespace c = false := by
  obtain ⟨hlow, hhigh, -⟩ := toNat_of_isTokenChar h
  simp only [isWhitespace, Bool.or_eq_false_iff, Bool.and_eq_false_iff, decide_eq_false_iff_not, beq_eq_false_iff_ne]
  omega

/-! ## Trimming -/

variable {blanks : List Char}

theorem trim_append_left (h : ∀ c ∈ blanks, isWhitespace c = true) (text : List Char) :
    trim (blanks ++ text) = trim text := by
  rw [trim, List.dropWhile_append_of_pos h, trim]

theorem trim_append_right (h : ∀ c ∈ blanks, isWhitespace c = true) (text : List Char) :
    trim (text ++ blanks) = trim text := by
  have hreverse : ∀ c ∈ blanks.reverse, isWhitespace c = true := fun c hc => h c (List.mem_reverse.mp hc)
  unfold trim
  rw [List.dropWhile_append]
  split
  · rename_i hnone
    have hall : blanks.dropWhile isWhitespace = [] := List.dropWhile_eq_nil_iff.mpr h
    rw [hall, List.isEmpty_iff.mp hnone]
  · rw [List.reverse_append, List.dropWhile_append_of_pos hreverse]

/-! ## Weights that are read -/

/-- The weight that a piece between semicolons names. -/
def weightOf (piece : List Char) : Option (List Char) :=
  (splitOnce '=' piece).bind fun (name, value) => if eqIgnoreAsciiCase (trim name) ['q'] then some (trim value) else none

/-- The weights read of a text that is split at every semicolon. -/
def weightsOf (text : List Char) : List (List Char) := (text.splitOn ';').filterMap weightOf

theorem weightOf_append_left (h : IsBlankText blanks) (piece : List Char) :
    weightOf (blanks ++ piece) = weightOf piece := by
  have hsplit : splitOnce '=' (blanks ++ piece) = (splitOnce '=' piece).map fun (name, value) => (blanks ++ name, value) := by
    induction blanks with
    | nil => simp
    | cons c blanks ih =>
      have hc : c ≠ '=' := by rcases h c List.mem_cons_self with rfl | rfl <;> decide
      rw [List.cons_append, splitOnce, if_neg hc, ih fun d hd => h d (List.mem_cons_of_mem c hd)]
      cases splitOnce '=' piece <;> rfl
  unfold weightOf
  rw [hsplit]
  cases splitOnce '=' piece with
  | none => rfl
  | some parts => simp only [Option.map_some, Option.bind_some, trim_append_left h.isWhitespace]

theorem weightOf_append_right (h : IsBlankText blanks) (piece : List Char) :
    weightOf (piece ++ blanks) = weightOf piece := by
  have hnone : splitOnce '=' blanks = none := splitOnce_eq_none fun hc => by
    rcases h _ hc with h | h <;> exact absurd h (by decide)
  have hsplit : splitOnce '=' (piece ++ blanks) = (splitOnce '=' piece).map fun (name, value) => (name, value ++ blanks) := by
    induction piece with
    | nil => simpa [splitOnce] using hnone
    | cons c piece ih =>
      rw [List.cons_append, splitOnce, splitOnce, ih]
      split
      · rfl
      · cases splitOnce '=' piece <;> rfl
  unfold weightOf
  rw [hsplit]
  cases splitOnce '=' piece with
  | none => rfl
  | some parts => simp only [Option.map_some, Option.bind_some, trim_append_right h.isWhitespace]

theorem IsBlankText.not_mem (h : IsBlankText blanks) : ';' ∉ blanks := fun hc => by
  rcases h _ hc with h | h <;> exact absurd h (by decide)

theorem splitOn_of_not_mem (h : ';' ∉ text) : text.splitOn ';' = [text] := by
  show List.splitOnP (· == ';') text = [text]
  refine List.splitOnP_eq_singleton fun c hc => ?_
  simpa using fun heq : c = ';' => h (heq ▸ hc)

theorem splitOn_append (before after : List Char) : (before ++ ';' :: after).splitOn ';' = before.splitOn ';' ++ after.splitOn
    ';' := by
  show List.splitOnP (· == ';') _ = List.splitOnP (· == ';') before ++ List.splitOnP (· == ';') after
  exact List.splitOnP_append_cons before after (beq_self_eq_true ';')

theorem weightsOf_append (before after : List Char) : weightsOf (before ++ ';' :: after) = weightsOf before ++ weightsOf
    after := by
  rw [weightsOf, splitOn_append, List.filterMap_append, weightsOf, weightsOf]

theorem weightsOf_of_not_mem (h : ';' ∉ text) : weightsOf text = (weightOf text).toList := by
  rw [weightsOf, splitOn_of_not_mem h]
  cases hw : weightOf text <;> simp [hw]

/-- Blanks before a text belong to its first piece. -/
theorem weightsOf_append_left (h : IsBlankText blanks) (text : List Char) :
    weightsOf (blanks ++ text) = weightsOf text := by
  by_cases hmem : ';' ∈ text
  · obtain ⟨before, after, rfl, hbefore⟩ := List.eq_append_cons_of_mem hmem
    have hnone : ';' ∉ blanks ++ before := fun hc => (List.mem_append.mp hc).elim h.not_mem hbefore
    rw [← List.append_assoc, weightsOf_append, weightsOf_append, weightsOf_of_not_mem hnone, weightsOf_of_not_mem hbefore,
      weightOf_append_left h]
  · have hnone : ';' ∉ blanks ++ text := fun hc => (List.mem_append.mp hc).elim h.not_mem hmem
    rw [weightsOf_of_not_mem hnone, weightsOf_of_not_mem hmem, weightOf_append_left h]

/-- Blanks after a text belong to its last piece. -/
theorem weightsOf_append_right (h : IsBlankText blanks) (text : List Char) :
    weightsOf (text ++ blanks) = weightsOf text := by
  by_cases hmem : ';' ∈ text
  · obtain ⟨before, after, rfl, -⟩ := List.eq_append_cons_of_mem hmem
    have hshorter : after.length < (before ++ ';' :: after).length := by simp; omega
    rw [List.append_assoc, List.cons_append, weightsOf_append, weightsOf_append, weightsOf_append_right h after]
  · have hnone : ';' ∉ text ++ blanks := fun hc => (List.mem_append.mp hc).elim hmem h.not_mem
    rw [weightsOf_of_not_mem hnone, weightsOf_of_not_mem hmem, weightOf_append_right h]
  termination_by text.length

/-- Every piece that names a weight replaces the one before. -/
theorem foldl_weight (state : DerivedState) (pieces : List (List Char)) (allowed : Bool) :
    pieces.foldl (fun allowed parameter =>
        match splitOnce '=' parameter with
        | none => allowed
        | some (name, value) => if eqIgnoreAsciiCase (trim name) ['q'] then state.qualityAllows (trim value) else allowed)
            allowed =
      match (pieces.filterMap weightOf).getLast? with
      | none => allowed
      | some q => state.qualityAllows q := by
  induction pieces generalizing allowed with
  | nil => rfl
  | cons piece pieces ih =>
    rw [List.foldl_cons, ih, List.filterMap_cons]
    cases hsplit : splitOnce '=' piece with
    | none => simp [weightOf, hsplit]
    | some parts =>
      obtain ⟨name, value⟩ := parts
      by_cases hname : eqIgnoreAsciiCase (trim name) ['q'] = true
      · have hweight : weightOf piece = some (trim value) := by simp [weightOf, hsplit, hname]
        simp only [hweight, hname, if_true, List.getLast?_cons]
        cases (pieces.filterMap weightOf).getLast? <;> rfl
      · have hweight : weightOf piece = none := by simp [weightOf, hsplit, hname]
        simp only [hweight, if_neg hname]

/-! ## Parameters -/

theorem IsToken.not_mem (h : IsToken text) (hc : c.toNat = 34 ∨ c.toNat = 44 ∨ c.toNat = 59 ∨ c.toNat = 61) : c ∉ text :=
    fun hmem => by
  have hbounds := toNat_of_isTokenChar (h.2 c hmem)
  omega

theorem IsToken.trim_eq (h : IsToken text) : trim text = text :=
  trim_of_forall fun c hc => isWhitespace_of_isTokenChar (h.2 c hc)

theorem IsToken.balanced (h : IsToken text) : Balanced true ',' text :=
  balanced_of_forall fun _ hc => ⟨fun heq => h.not_mem (Or.inl rfl) (heq ▸ hc), fun heq =>
    h.not_mem (Or.inr (Or.inl rfl)) (heq ▸ hc)⟩

theorem IsBlankText.balanced (h : IsBlankText text) : Balanced true ',' text :=
  balanced_of_forall fun c hc => by rcases h c hc with rfl | rfl <;> decide

theorem IsQvalue.trim_eq {q : List Char} (h : IsQvalue q) : trim q = q := by
  refine trim_of_forall fun c hc => ?_
  cases h with
  | zero => exact List.mem_singleton.mp hc ▸ rfl
  | one => exact List.mem_singleton.mp hc ▸ rfl
  | fraction _ hdigits =>
    rcases List.mem_cons.mp hc with rfl | hc
    · rfl
    · rcases List.mem_cons.mp hc with rfl | hc
      · rfl
      · exact isWhitespace_of_isDigit (hdigits c hc)
  | whole _ hdigits =>
    rcases List.mem_cons.mp hc with rfl | hc
    · rfl
    · rcases List.mem_cons.mp hc with rfl | hc
      · rfl
      · exact hdigits c hc ▸ rfl

theorem IsQvalue.not_mem {q : List Char} (h : IsQvalue q) : ';' ∉ q := by
  cases h with
  | zero => decide
  | one => decide
  | fraction _ hdigits =>
    simp only [List.mem_cons, not_or]
    exact ⟨by decide, by decide, fun hc => absurd (hdigits _ hc) (by decide)⟩
  | whole _ hdigits =>
    simp only [List.mem_cons, not_or]
    exact ⟨by decide, by decide, fun hc => absurd (hdigits _ hc) (by decide)⟩

/-- No comma of a value is outside quotes. -/
theorem Parameter.balanced (p : Parameter) : Balanced true ',' p.text := by
  have hvalue : Balanced true ',' p.value := by
    rcases p.value_valid with h | ⟨body, hvalue, hbody⟩
    · exact h.balanced
    · rw [hvalue, ← List.append_nil body]
      exact Balanced.quoted hbody.closes Balanced.nil
  have hcontent : Balanced true ',' p.content := p.name_token.balanced.append (Balanced.char (by decide) (by decide) hvalue)
  exact p.before_blank.balanced.append (Balanced.char (by decide) (by decide) (p.after_blank.balanced.append hcontent))

/-- A piece of the value, after one of its semicolons, is named `q`. Only quoted values have semicolons. -/
def Parameter.HidesWeight (p : Parameter) : Prop :=
  ∃ piece ∈ (p.value.splitOn ';').tail, ∃ name value, splitOnce '=' piece = some (name, value) ∧
    eqIgnoreAsciiCase (trim name) ['q'] = true

/-- A value without semicolons is read as it is, under its name. -/
theorem Parameter.weightsOf_name {p : Parameter} {value : List Char} (h : ';' ∉ value) :
    weightsOf (p.name ++ '=' :: value) = if p.isWeight then [trim value] else [] := by
  have hcontent : ';' ∉ p.name ++ '=' :: value := by
    intro hmem
    rcases List.mem_append.mp hmem with hname | hrest
    · exact p.name_token.not_mem (by decide) hname
    · rcases List.mem_cons.mp hrest with heq | hvalue
      · exact absurd heq (by decide)
      · exact h hvalue
  rw [weightsOf_of_not_mem hcontent, weightOf, splitOnce_append (p.name_token.not_mem (by decide)) value]
  by_cases hname : eqIgnoreAsciiCase p.name ['q'] = true
  · simp [p.name_token.trim_eq, Parameter.isWeight, hname]
  · simp [p.name_token.trim_eq, Parameter.isWeight, hname]

/-- A parameter that hides no weight is read for its own, if it is one. -/
theorem Parameter.weightsOf_content {p : Parameter} (hvalid : p.isWeight = true → IsQvalue p.value) (h : ¬p.HidesWeight) :
    weightsOf p.content = if p.isWeight then [p.value] else [] := by
  by_cases hmem : ';' ∈ p.value
  · obtain ⟨before, after, hvalue, hbefore⟩ := List.eq_append_cons_of_mem hmem
    have hweight : p.isWeight = false := Bool.eq_false_iff.mpr fun hweight => (hvalid hweight).not_mem hmem
    have hafter : weightsOf after = [] := by
      refine List.filterMap_eq_nil_iff.mpr fun piece hpiece => ?_
      have htail : piece ∈ (p.value.splitOn ';').tail := by
        rw [hvalue, splitOn_append, splitOn_of_not_mem hbefore]
        exact hpiece
      unfold weightOf
      cases hsplit : splitOnce '=' piece with
      | none => rfl
      | some parts =>
        have hname : eqIgnoreAsciiCase (trim parts.1) ['q'] ≠ true := fun hname =>
          h ⟨piece, htail, parts.1, parts.2, hsplit, hname⟩
        simp [hname]
    have hcontent : p.content = (p.name ++ '=' :: before) ++ ';' :: after := by simp [content, hvalue]
    rw [hcontent, weightsOf_append, hafter, weightsOf_name hbefore, hweight]
    rfl
  · rw [content, weightsOf_name hmem]
    split
    · rename_i hweight
      rw [(hvalid hweight).trim_eq]
    · rfl

/-! ## Ranges -/

namespace MediaRange

/-- The weights that are read of the parameters, each split at every semicolon. -/
def read (r : MediaRange) : List (List Char) := r.parameters.flatMap fun p => weightsOf p.content

def IsMlt (r : MediaRange) : Prop := eqIgnoreAsciiCase r.mediaType mltContentType.toList = true

theorem balanced (r : MediaRange) : Balanced true ',' r.text := by
  obtain ⟨main, sub, hmediaType, hmain, hsub⟩ := r.type_tokens
  have htype : Balanced true ',' r.mediaType := by
    rw [hmediaType]
    exact hmain.balanced.append (Balanced.char (by decide) (by decide) hsub.balanced)
  have hparameters : Balanced true ',' (r.parameters.flatMap Parameter.text) := by
    induction r.parameters with
    | nil => exact Balanced.nil
    | cons p ps ih => exact p.balanced.append ih
  exact (r.lead_blank.balanced.append htype).append (hparameters.append r.trail_blank.balanced)

/-- What is split of the text after the first semicolon. -/
theorem weightsOf_parameters (p : Parameter) (ps : List Parameter) {trail : List Char} (h : IsBlankText trail) :
    weightsOf (p.after ++ p.content ++ (ps.flatMap Parameter.text ++ trail)) = (p :: ps).flatMap fun p =>
      weightsOf p.content := by
  induction ps generalizing p with
  | nil => rw [List.flatMap_nil, List.nil_append, weightsOf_append_right h, weightsOf_append_left p.after_blank,
      List.flatMap_singleton]
  | cons next ps ih =>
    have htext : p.after ++ p.content ++ ((next :: ps).flatMap Parameter.text ++ trail) =
        (p.after ++ (p.content ++ next.before)) ++ ';' ::
          (next.after ++ next.content ++ (ps.flatMap Parameter.text ++ trail)) := by
      simp [Parameter.text]
    rw [htext, weightsOf_append, weightsOf_append_left p.after_blank, weightsOf_append_right next.before_blank, ih]
    rfl

theorem mediaType_not_mem (r : MediaRange) : ';' ∉ r.mediaType ∧ ∀ c ∈ r.mediaType, isWhitespace c = false := by
  obtain ⟨main, sub, hmediaType, hmain, hsub⟩ := r.type_tokens
  rw [hmediaType]
  refine ⟨fun hmem => ?_, fun c hc => ?_⟩
  · rcases List.mem_append.mp hmem with hmem | hmem
    · exact hmain.not_mem (by decide) hmem
    · rcases List.mem_cons.mp hmem with heq | hmem
      · exact absurd heq (by decide)
      · exact hsub.not_mem (by decide) hmem
  · rcases List.mem_append.mp hc with hc | hc
    · exact isWhitespace_of_isTokenChar (hmain.2 c hc)
    · rcases List.mem_cons.mp hc with rfl | hc
      · rfl
      · exact isWhitespace_of_isTokenChar (hsub.2 c hc)

/-- The media type stands before the first semicolon, and the weights are read of what follows. -/
theorem splitOn_text (r : MediaRange) : ∃ head rest, r.text.splitOn ';' = head :: rest ∧ trim head = r.mediaType ∧
    rest.filterMap weightOf = r.read := by
  obtain ⟨hsemicolon, hspace⟩ := r.mediaType_not_mem
  have htrim : ∀ blanks, IsBlankText blanks → trim (r.lead ++ r.mediaType ++ blanks) = r.mediaType := by
    intro blanks hblanks
    rw [trim_append_right hblanks.isWhitespace, trim_append_left r.lead_blank.isWhitespace, trim_of_forall hspace]
  have hhead : ∀ blanks, IsBlankText blanks → ';' ∉ r.lead ++ r.mediaType ++ blanks := by
    intro blanks hblanks hmem
    rcases List.mem_append.mp hmem with hmem | hmem
    · exact (List.mem_append.mp hmem).elim r.lead_blank.not_mem hsemicolon
    · exact hblanks.not_mem hmem
  unfold text read
  cases r.parameters with
  | nil => exact ⟨_, [], splitOn_of_not_mem (hhead _ r.trail_blank), htrim _ r.trail_blank, rfl⟩
  | cons p ps =>
    have htext : r.lead ++ r.mediaType ++ ((p :: ps).flatMap Parameter.text ++ r.trail) =
        (r.lead ++ r.mediaType ++ p.before) ++ ';' :: (p.after ++ p.content ++ (ps.flatMap Parameter.text ++ r.trail)) := by
      simp [Parameter.text]
    refine ⟨_, _, ?_, htrim _ p.before_blank, weightsOf_parameters p ps r.trail_blank⟩
    rw [htext, splitOn_append, splitOn_of_not_mem (hhead _ p.before_blank)]
    rfl

/-- A range is taken for its media type, and for the last weight that is read of it. -/
theorem mediaRangeAllowsMlt_text (r : MediaRange) (state : DerivedState) :
    mediaRangeAllowsMlt state r.text = true ↔ r.IsMlt ∧ ∀ q, r.read.getLast? = some q → state.qualityAllows q = true := by
  obtain ⟨head, rest, hsplit, htrim, hread⟩ := r.splitOn_text
  have hallows : mediaRangeAllowsMlt state r.text = (eqIgnoreAsciiCase (trim head) mltContentType.toList &&
      match (rest.filterMap weightOf).getLast? with
      | none => true
      | some q => state.qualityAllows q) := by
    unfold mediaRangeAllowsMlt
    rw [hsplit]
    exact congrArg (_ && ·) (foldl_weight state rest true)
  rw [hallows, htrim, hread, Bool.and_eq_true]
  refine and_congr_right fun _ => ?_
  cases r.read.getLast? with
  | none => simp
  | some q => simp

/-- No parameter hides a weight behind the range's own one. -/
def Plain (r : MediaRange) : Prop :=
  ∀ before p after, r.parameters = before ++ p :: after → p.HidesWeight → ∃ w ∈ after, w.isWeight = true

/-- A plain range is read for its own weight. -/
theorem Plain.getLast?_read {r : MediaRange} (h : r.Plain) : r.read.getLast? = r.weight? := by
  have hvalid := r.weights_valid
  have hle := r.weights_le
  unfold Plain at h
  unfold read weight?
  generalize r.parameters = parameters at hvalid hle h ⊢
  induction parameters with
  | nil => rfl
  | cons p ps ih =>
    rw [List.forall_mem_cons] at hvalid
    have hps : ∀ before q after, ps = before ++ q :: after → q.HidesWeight → ∃ w ∈ after, w.isWeight = true :=
      fun before q after heq => h (p :: before) q after (congrArg (p :: ·) heq)
    have hrest := ih hvalid.2 (((List.sublist_cons_self p ps).filter _).length_le.trans hle) hps
    rw [List.flatMap_cons, List.getLast?_append, hrest]
    by_cases hlater : ∃ w ∈ ps, w.isWeight = true
    · -- the weight comes later, and there is only one
      have hp : p.isWeight = false := by
        by_contra hp
        obtain ⟨w, hw, hweight⟩ := hlater
        have hpos := List.length_pos_of_mem (List.mem_filter.mpr ⟨hw, hweight⟩)
        rw [List.filter_cons_of_pos (by simpa using hp), List.length_cons] at hle
        omega
      rw [List.find?_cons_of_neg (by simp [hp])]
      obtain ⟨w, hw⟩ := Option.isSome_iff_exists.mp (List.find?_isSome.mpr hlater)
      rw [hw]
      rfl
    · have hnone : ps.find? Parameter.isWeight = none := List.find?_eq_none.mpr fun w hw hweight => hlater ⟨w, hw, hweight⟩
      rw [hnone, Option.map_none, Option.none_or,
        Parameter.weightsOf_content hvalid.1 fun hhides => hlater (h [] p ps rfl hhides)]
      by_cases hp : p.isWeight = true
      · simp [hp]
      · simp [hp, hnone]

end MediaRange

/-! ## Fields -/

theorem mediaRanges_eq_splitUnquoted (quoted escaped : Bool) (current text : List Char) :
    mediaRanges quoted escaped current text = splitUnquoted quoted escaped current.reverse text := by
  induction text generalizing quoted escaped current with
  | nil => simp [mediaRanges, splitUnquoted]
  | cons c text ih =>
    have hbackslash : c.toNat = 92 ↔ c = '\\' := ⟨fun h => Char.toNat_inj.mp h, fun h => h ▸ rfl⟩
    have hquote : c.toNat = 34 ↔ c = '\"' := ⟨fun h => Char.toNat_inj.mp h, fun h => h ▸ rfl⟩
    have hcomma : quoted = false ↔ (!quoted) = true := by simp
    unfold mediaRanges splitUnquoted
    simp only [hbackslash, hquote, hcomma, ih, List.reverse_append, List.reverse_singleton, List.singleton_append,
      List.reverse_nil,
      List.reverse_reverse]
    split
    · rfl
    · split
      · rfl
      · split
        · rfl
        · split
          · rename_i h
            simp [Bool.not_eq_true' .. ▸ h.2]
          · rfl

theorem Element.balanced : ∀ e : Element, Balanced true ',' e.text
  | .blank _ h => h.balanced
  | .range r => r.balanced

/-- The ranges of a field are its elements. -/
theorem mediaRanges_text {f : Field} (h : f ≠ []) : mediaRanges false false [] f.text = f.map Element.text := by
  rw [mediaRanges_eq_splitUnquoted, List.reverse_nil, splitUnquoted_eq_fieldPieces]
  refine pieces_intercalate_balanced (by decide) (List.map_eq_nil_iff.not.mpr h) fun piece hpiece => ?_
  obtain ⟨e, -, rfl⟩ := List.mem_map.mp hpiece
  exact e.balanced

theorem mediaRangeAllowsMlt_blank (state : DerivedState) (h : IsBlankText text) : mediaRangeAllowsMlt state text = false := by
  have htrim : trim text = [] := trim_append_right h.isWhitespace []
  unfold mediaRangeAllowsMlt
  rw [splitOn_of_not_mem h.not_mem]
  simp only [htrim]
  rfl

theorem acceptValueAllowsMlt_text (state : DerivedState) (f : Field) :
    acceptValueAllowsMlt state f.text = true ↔
      ∃ r, Element.range r ∈ f ∧ r.IsMlt ∧ ∀ q, r.read.getLast? = some q → state.qualityAllows q = true := by
  unfold acceptValueAllowsMlt
  by_cases hnil : f = []
  · subst hnil
    have hblank : mediaRangeAllowsMlt state [] = false := mediaRangeAllowsMlt_blank state nofun
    simp [Field.text, mediaRanges, hblank]
  · rw [mediaRanges_text hnil, List.any_map, List.any_eq_true]
    constructor
    · rintro ⟨e, he, hallows⟩
      cases e with
      | blank text h => exact absurd (mediaRangeAllowsMlt_blank state h) (ne_false_of_eq_true hallows)
      | range r => exact ⟨r, he, (r.mediaRangeAllowsMlt_text state).mp hallows⟩
    · rintro ⟨r, hr, hallows⟩
      exact ⟨_, hr, (r.mediaRangeAllowsMlt_text state).mpr hallows⟩

/-! ## Bytes -/

theorem IsBlankText.isQuotedChar (h : IsBlankText text) : ∀ c ∈ text, IsQuotedChar c := by
  intro c hc
  rcases h c hc with rfl | rfl
  · exact Or.inl (by decide)
  · exact Or.inl (by decide)

theorem IsToken.isQuotedChar (h : IsToken text) : ∀ c ∈ text, IsQuotedChar c := by
  intro c hc
  have hbounds := toNat_of_isTokenChar (h.2 c hc)
  exact Or.inl (Or.inr (by omega))

theorem Parameter.isQuotedChar (p : Parameter) : ∀ c ∈ p.text, IsQuotedChar c := by
  have hvalue : ∀ c ∈ p.value, IsQuotedChar c := by
    rcases p.value_valid with h | ⟨body, hvalue, hbody⟩
    · exact h.isQuotedChar
    · rw [hvalue, List.forall_mem_cons]
      exact ⟨Or.inl (by decide), hbody.chars⟩
  simp only [Parameter.text, Parameter.content, List.forall_mem_append, List.forall_mem_cons]
  exact ⟨p.before_blank.isQuotedChar, Or.inl (by decide), p.after_blank.isQuotedChar, p.name_token.isQuotedChar,
    Or.inl (by decide), hvalue⟩

theorem MediaRange.isQuotedChar (r : MediaRange) : ∀ c ∈ r.text, IsQuotedChar c := by
  obtain ⟨main, sub, hmediaType, hmain, hsub⟩ := r.type_tokens
  simp only [MediaRange.text, hmediaType, List.forall_mem_append, List.forall_mem_cons]
  refine ⟨⟨r.lead_blank.isQuotedChar, hmain.isQuotedChar, Or.inl (by decide), hsub.isQuotedChar⟩, fun c hc => ?_,
    r.trail_blank.isQuotedChar⟩
  obtain ⟨p, -, hp⟩ := List.mem_flatMap.mp hc
  exact p.isQuotedChar c hp

/-- A field is sent a byte for each character. -/
theorem Field.toNat_lt (f : Field) : ∀ c ∈ f.text, c.toNat < 256 := by
  have hchars : ∀ c ∈ f.text, IsQuotedChar c := by
    refine forall_mem_intercalate (Or.inl (by decide)) fun piece hpiece => ?_
    obtain ⟨e, -, rfl⟩ := List.mem_map.mp hpiece
    cases e with
    | blank text h => exact h.isQuotedChar
    | range r => exact r.isQuotedChar
  intro c hc
  rcases hchars c hc with h | h
  · have := h.lt
    omega
  · exact h.2

/-- The server reads the fields that are texts, as they are. -/
theorem headerToStr_bytes {f : Field} {value : List Char} : headerToStr f.bytes = some value ↔ f.IsText ∧ value = f.text :=
  headerToStr_map_eq_some_iff f.toNat_lt

end Biei.Accept
