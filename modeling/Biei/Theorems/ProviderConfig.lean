import Biei.Ishikari.ProviderConfig
import Biei.Lemmas.ProviderRoute
import Biei.Lib.Quoted

/-! # Upstream URLs -/

namespace Biei.Ishikari

/-! ## Escaped texts -/

theorem encodeText_byte : ∀ byte : UInt8, ∀ b ∈ escapeByte byte,
    UInt8.ofNat (Char.ofNat b.toNat).toNat = b ∧ (Char.ofNat b.toNat).toNat < 127 ∧
      Char.ofNat b.toNat ∉ ['?', '#', '\\', '/', '\x7b', '\x7d'] := forall_byte (by decide +kernel)

variable {text : List Char}

theorem mem_encodeText {c : Char} (h : c ∈ encodeText text) :
    c.toNat < 127 ∧ c ∉ ['?', '#', '\\', '/', '\x7b', '\x7d'] := by
  obtain ⟨b, hb, rfl⟩ := List.mem_map.mp h
  obtain ⟨byte, -, hmem⟩ := List.mem_flatMap.mp hb
  exact (encodeText_byte byte b hmem).2

theorem utf8_encodeText (text : List Char) : utf8 (String.ofList (encodeText text)) = pathPercentEncode
    (utf8 (String.ofList text)) := by
  rw [utf8_of_visible fun c hc => (mem_encodeText hc).1, encodeText, List.map_map]
  conv => rhs; rw [← List.map_id (pathPercentEncode _)]
  refine List.map_congr_left fun b hb => ?_
  obtain ⟨byte, -, hmem⟩ := List.mem_flatMap.mp hb
  exact (encodeText_byte byte b hmem).1

theorem utf8_ofList_injective {a b : List Char} (h : utf8 (String.ofList a) = utf8 (String.ofList b)) : a = b :=
  String.ofList_injective (utf8_injective h)

theorem eq_nil_of_encodeText (h : encodeText text = []) : text = [] := by
  have hescaped := utf8_encodeText text
  have hdecode := decodeStrict_pathPercentEncode (utf8 (String.ofList text))
  rw [← hescaped, h] at hdecode
  exact utf8_ofList_injective (Except.ok.inj hdecode).symm

/-- What needs no escape stays as it is. -/
theorem encodeText_of_plain (h : ∀ c ∈ text, c.toNat < 127 ∧ isPathByte (UInt8.ofNat c.toNat) = true) :
    encodeText text = text := by
  rw [encodeText, utf8_of_visible fun c hc => (h c hc).1, pathPercentEncode, List.flatMap_map]
  induction text with
  | nil => rfl
  | cons c text ih =>
    rw [List.forall_mem_cons] at h
    have hchar : Char.ofNat (UInt8.ofNat c.toNat).toNat = c := by
      rw [toNat_ofNat_of_lt (by have := h.1.1; omega), Char.ofNat_toNat]
    rw [List.flatMap_cons, List.map_append, ih h.2, escapeByte, if_pos h.1.2, List.map_singleton, hchar, List.singleton_append]

/-- The segments of a text, in bytes. -/
theorem splitSlash_intercalate {segments : List (List Char)} (hne : segments ≠ []) (h : ∀ segment ∈ segments, '/' ∉ segment) :
    splitSlash (utf8 (String.ofList (['/'].intercalate segments))) = segments.map fun segment =>
      utf8 (String.ofList segment) := by
  have hbytes : utf8 (String.ofList (['/'].intercalate segments)) = [slash].intercalate
    (segments.map fun segment => utf8 (String.ofList segment)) := by
    clear hne h
    induction segments with
    | nil => rfl
    | cons segment segments ih =>
      cases segments with
      | nil => simp
      | cons next segments =>
        rw [List.intercalate_cons_cons, String.ofList_append, String.ofList_append, utf8_append, utf8_append, ih]
        simp only [List.map_cons, List.intercalate_cons_cons]
        rfl
  rw [hbytes, splitSlash, List.splitOn_intercalate _ _ (by simpa using hne)]
  intro part hpart
  obtain ⟨segment, hsegment, rfl⟩ := List.mem_map.mp hpart
  exact fun hmem => h segment hsegment (by simpa using (mem_utf8_iff (c := '/') (by decide)).mp hmem)

/-! ## Texts that stay where they are put -/

/-- Nothing that is escaped begins a dot segment, but a dot. -/
theorem escapeByte_prefix_dots : ∀ byte : UInt8, ∀ first ∈ dots,
    (escapeByte byte <+: first → byte = 46) ∧ ∀ second ∈ dots, escapeByte byte <+: first ++ second → byte = 46 :=
  forall_byte (by decide +kernel)

theorem eq_of_cons_eq_dots : ∀ first ∈ dots, ∀ second ∈ dots, ∀ rest, 46 :: rest = first ++ second → rest ∈ dots := by
  intro first hfirst second hsecond rest h
  have hcases : ∀ first ∈ dots, ∀ second ∈ dots, (first ++ second).head? = some 46 → (first ++ second).tail ∈ dots := by decide
  have hhead := hcases first hfirst second hsecond (by rw [← h]; rfl)
  rwa [← h] at hhead

/-- A text that is escaped is no part of a dot segment, whatever comes after it. -/
theorem isDoubleDot_append {value : Bytes} (hne : value ≠ []) (hsingle : value ≠ utf8 ".") (hdouble : value ≠ utf8 "..")
    (rest : Bytes) :
    isDoubleDot (pathPercentEncode value ++ rest) = false := by
  rw [Bool.eq_false_iff]
  intro h
  obtain ⟨first, hfirst, h⟩ := List.any_eq_true.mp h
  obtain ⟨second, hsecond, h⟩ := List.any_eq_true.mp h
  replace h := beq_iff_eq.mp h
  cases value with
  | nil => exact hne rfl
  | cons byte value =>
    have hescape : escapeByte byte <+: first ++ second := by
      rw [← h, pathPercentEncode, List.flatMap_cons, List.append_assoc]
      exact List.prefix_append _ _
    obtain rfl := (escapeByte_prefix_dots byte first hfirst).2 second hsecond hescape
    have htail : pathPercentEncode value ++ rest ∈ dots := eq_of_cons_eq_dots first hfirst second hsecond _ h
    cases value with
    | nil => exact hsingle rfl
    | cons next value =>
      have hescape : escapeByte next <+: pathPercentEncode (next :: value) ++ rest := by
        rw [pathPercentEncode, List.flatMap_cons, List.append_assoc]
        exact List.prefix_append _ _
      obtain rfl := (escapeByte_prefix_dots next _ htail).1 hescape
      -- Of the dots, only the plain one begins with a dot.
      have hplain : ∀ dot ∈ dots, dot.head? = some 46 → dot = [46] := by decide
      have heq : 46 :: (pathPercentEncode value ++ rest) = [46] := hplain _ htail rfl
      have hnil : pathPercentEncode value = [] := (List.append_eq_nil_iff.mp (List.cons.inj heq).2).1
      cases value with
      | nil => exact hdouble rfl
      | cons last value =>
        have hempty : ∀ byte : UInt8, escapeByte byte ≠ [] := forall_byte (by decide +kernel)
        rw [pathPercentEncode, List.flatMap_cons, List.append_eq_nil_iff] at hnil
        exact hempty last hnil.1

/-- What may be put into the path of a template: no character in it ends the path, no segment of it is a dot segment, and a parser
that resolves dot segments stays in the directory it was in, whatever the template has after it in the last segment. -/
structure Confined (text : List Char) : Prop where
  chars : ∀ c ∈ text, c ≠ '?' ∧ c ≠ '#' ∧ c ≠ '\\'
  segments : ∀ segment ∈ splitText '/' text, segment ≠ ".".toList ∧ segment ≠ "..".toList
  stays : ∀ after, '/' ∉ after → ∀ kept, kept <+: keptSegments kept (splitSlash (utf8 (String.ofList (text ++ after))))

/-- Without segments that go up, what is kept stays. -/
theorem prefix_keptSegments {segments : List Bytes} (h : ∀ segment ∈ segments, isDoubleDot segment = false) (kept : List Bytes) :
    kept <+: keptSegments kept segments := by
  induction segments generalizing kept with
  | nil => exact List.prefix_rfl
  | cons segment segments ih =>
    rw [List.forall_mem_cons] at h
    cases segments with
    | nil =>
      unfold keptSegments
      rw [h.1]
      simp only [Bool.false_eq_true, if_false]
      split <;> exact List.prefix_append _ _
    | cons next segments =>
      unfold keptSegments
      rw [h.1]
      simp only [Bool.false_eq_true, if_false]
      refine List.IsPrefix.trans ?_ (ih h.2 _)
      split
      · exact List.prefix_rfl
      · exact List.prefix_append _ _

/-- A segment that is escaped, and what may come after it, does not go up. -/
theorem isDoubleDot_encodeText {segment : List Char} (h : segment ≠ [] ∧ segment ≠ ".".toList ∧ segment ≠ "..".toList)
    (after : List Char) :
    isDoubleDot (utf8 (String.ofList (encodeText segment ++ after))) = false := by
  have hutf8 : ∀ text : List Char, segment ≠ text → utf8 (String.ofList segment) ≠ utf8 (String.ofList text) :=
    fun text hne heq => hne (utf8_ofList_injective heq)
  rw [String.ofList_append, utf8_append, utf8_encodeText]
  exact isDoubleDot_append (hutf8 [] h.1) (hutf8 _ h.2.1) (hutf8 _ h.2.2) _

/-- Segments that are not dots are confined when they are escaped. -/
theorem confined_segments {segments : List (List Char)} (hne : segments ≠ [])
    (h : ∀ segment ∈ segments, segment ≠ [] ∧ segment ≠ ".".toList ∧ segment ≠ "..".toList) :
    Confined (['/'].intercalate (segments.map encodeText)) := by
  have hslash : ∀ segment ∈ segments.map encodeText, '/' ∉ segment := by
    intro segment hsegment hmem
    obtain ⟨part, -, rfl⟩ := List.mem_map.mp hsegment
    exact absurd (by decide) (mem_encodeText hmem).2
  have hsplit : splitText '/' (['/'].intercalate (segments.map encodeText)) = segments.map encodeText :=
    List.splitOn_intercalate '/' hslash (by simpa using hne)
  have hdot : ∀ part dot : List Char, encodeText part = dot →
    pathPercentEncode (utf8 (String.ofList part)) = utf8 (String.ofList dot) :=
    fun part dot heq => by rw [← utf8_encodeText, heq]
  refine ⟨?_, fun segment hsegment => ?_, fun after hafter => ?_⟩
  · refine Quoted.forall_mem_intercalate (P := fun c => c ≠ '?' ∧ c ≠ '#' ∧ c ≠ '\\') (by decide) fun segment hsegment c hc => ?_
    obtain ⟨part, -, rfl⟩ := List.mem_map.mp hsegment
    have hmem := (mem_encodeText hc).2
    simp only [List.mem_cons, not_or] at hmem
    exact ⟨hmem.1, hmem.2.1, hmem.2.2.1⟩
  · rw [hsplit] at hsegment
    obtain ⟨part, hpart, rfl⟩ := List.mem_map.mp hsegment
    constructor
    · intro heq
      have hsingle := (isSingleDot_pathPercentEncode (utf8 (String.ofList part))).mp (by rw [hdot part _ heq]; decide)
      exact (h part hpart).2.1 (utf8_ofList_injective hsingle)
    · intro heq
      have hdouble := (isDoubleDot_pathPercentEncode (utf8 (String.ofList part))).mp (by rw [hdot part _ heq]; decide)
      exact (h part hpart).2.2 (utf8_ofList_injective hdouble)
  · -- What comes after belongs to the last segment.
    obtain ⟨lead, last, rfl⟩ : ∃ lead last, segments = lead ++ [last] := ⟨_, _, (List.dropLast_append_getLast hne).symm⟩
    have hjoin : ['/'].intercalate ((lead ++ [last]).map encodeText) ++ after = ['/'].intercalate
      (lead.map encodeText ++ [encodeText last ++ after]) := by
      clear * -
      induction lead with
      | nil => simp
      | cons segment lead ih =>
        cases lead with
        | nil => simp
        | cons next lead => simp_all
    refine prefix_keptSegments fun segment hsegment => ?_
    rw [hjoin, splitSlash_intercalate (by simp)] at hsegment
    · obtain ⟨part, hpart, rfl⟩ := List.mem_map.mp hsegment
      rcases List.mem_append.mp hpart with hpart | hpart
      · obtain ⟨kept, hkept, rfl⟩ := List.mem_map.mp hpart
        have hdouble := isDoubleDot_encodeText (h kept (List.mem_append_left _ hkept)) []
        rwa [List.append_nil] at hdouble
      · rw [List.mem_singleton.mp hpart]
        exact isDoubleDot_encodeText (h last (List.mem_append_right _ (List.mem_singleton_self last))) after
    · intro part hpart
      rcases List.mem_append.mp hpart with hpart | hpart
      · exact hslash part (by rw [List.map_append]; exact List.mem_append_left _ hpart)
      · rw [List.mem_singleton.mp hpart, List.mem_append, not_or]
        exact ⟨hslash _ (List.mem_map_of_mem (List.mem_append_right _ (List.mem_singleton_self last))), hafter⟩

theorem confined_encodeText_iff (hne : text ≠ []) :
    Confined (encodeText text) ↔ text ≠ ".".toList ∧ text ≠ "..".toList := by
  constructor
  · intro h
    constructor
    · rintro rfl
      exact (h.segments ".".toList (by decide)).1 rfl
    · rintro rfl
      exact (h.segments "..".toList (by decide)).2 rfl
  · intro h
    have hconfined := confined_segments (List.cons_ne_nil text []) (by simpa using ⟨hne, h⟩)
    simpa using hconfined

/-! ## Keys of styles -/

theorem slash_not_mem_splitText {text segment : List Char} (h : segment ∈ splitText '/' text) : '/' ∉ segment := by
  by_cases hslash : '/' ∈ text
  · obtain ⟨lead, rest, rfl, hlead⟩ := List.eq_append_cons_of_mem hslash
    have hshorter : rest.length < (lead ++ '/' :: rest).length := by
      rw [List.length_append, List.length_cons]
      omega
    rw [splitText, List.splitOn_append_cons_self_of_not_mem hlead] at h
    rcases List.mem_cons.mp h with rfl | h
    · exact hlead
    · exact slash_not_mem_splitText h
  · rw [splitText, List.splitOn_eq_singleton hslash, List.mem_singleton] at h
    rwa [h]
  termination_by text.length

variable {styleKey : String}

/-- The segments of a valid key are no dots. -/
theorem segments_of_checkStyleKey (h : checkStyleKey styleKey = .ok ()) :
    ∀ segment ∈ splitText '/' styleKey.toList, segment ≠ [] ∧ segment ≠ ".".toList ∧ segment ≠ "..".toList := by
  intro segment hsegment
  have hsplit := splitSlash_intercalate (List.splitOn_ne_nil '/' styleKey.toList) fun part hpart => slash_not_mem_splitText hpart
  rw [List.intercalate_splitOn, String.ofList_toList] at hsplit
  have hbytes : utf8 (String.ofList segment) ∈ splitSlash (utf8 styleKey) := by
    rw [hsplit]
    exact List.mem_map.mpr ⟨segment, hsegment, rfl⟩
  obtain ⟨hne, hsingle, hdouble⟩ := segment_of_checkStyleKey h _ hbytes
  exact ⟨fun heq => hne (by rw [heq]; rfl), fun heq => hsingle (by rw [heq]; rfl), fun heq => hdouble (by rw [heq]; rfl)⟩

/-- The key relative to its namespace has segments of the key. -/
theorem segments_of_select {entries : NamespacedEntries (List Char)} {key template relativeKey : List Char}
    (h : entries.select key = some (template, relativeKey)) : ∀ segment ∈ splitText '/' relativeKey,
      segment ∈ splitText '/' key := by
  simp only [NamespacedEntries.select] at h
  split at h
  · rename_i selected hselected
    obtain ⟨⟨ns, rest⟩, hsplit, hfound⟩ := Option.bind_eq_some_iff.mp hselected
    obtain ⟨e, -, rfl⟩ := Option.map_eq_some_iff.mp hfound
    obtain ⟨-, rfl⟩ := Prod.mk.inj (Option.some.inj h)
    obtain ⟨rfl, -⟩ := splitOnce_eq_some hsplit
    intro segment hsegment
    rw [splitText, List.splitOn_append_cons_self]
    exact List.mem_append_right _ hsegment
  · obtain ⟨value, -, heq⟩ := Option.map_eq_some_iff.mp h
    obtain ⟨-, rfl⟩ := Prod.mk.inj heq
    exact fun segment hsegment => hsegment

theorem confined_relativeKey {entries : NamespacedEntries (List Char)} {template relativeKey : List Char}
    (hkey : checkStyleKey styleKey = .ok ()) (h : entries.select styleKey.toList = some (template, relativeKey)) :
    Confined (encodeTextSegments relativeKey) :=
  confined_segments (List.splitOn_ne_nil '/' relativeKey) fun segment hsegment =>
    segments_of_checkStyleKey hkey segment (segments_of_select h segment hsegment)

/-! ## URLs -/

/-- A template of a glyph with its two placeholders filled, each where the template has it. -/
def fillGlyph (fontstack range template : List Char) : List Char :=
  fontstack.intercalate ((Pattern.pieces fontstackPlaceholder template).map (Pattern.replace rangePlaceholder range))

/-- A URL of a style or a sprite is its template, filled with what stays where it is put. -/
def FilledByKey (templates : ResourceTemplates) (styleKey suffix url : List Char) : Prop :=
  ∃ template relativeKey, templates.entries.select styleKey = some (template, relativeKey) ∧
    url = Pattern.replace styleIdPlaceholder (encodeTextSegments relativeKey) template ++ suffix ∧
      Confined (encodeTextSegments relativeKey)

/-- Whatever URL a resource gets, it is its template filled with what stays where it is put. -/
def UrlConfined (config : ProviderConfig) : ResourceName → Prop
  | .style styleKey => ∀ url, config.resolveStyleUrl styleKey.toList = some url →
      FilledByKey config.styleTemplates styleKey.toList [] url
  | .glyph fontstack range => ∀ url, config.resolveGlyphUrl fontstack.toList range.toList = some url →
      ∃ template, config.glyphUrlTemplate = some template ∧ url = fillGlyph (encodeText fontstack.toList) range.toList template ∧
        Confined (encodeText fontstack.toList) ∧ Confined range.toList
  | .sprite styleKey variant => ∀ url, config.resolveSpriteUrl styleKey.toList variant.suffix.toList = some url →
      FilledByKey config.spriteTemplates styleKey.toList variant.suffix.toList url

/-- What keeps the URL of a resource in its template: a font stack is no dot segment, and does not make the placeholder of a range
with what the template has around it. -/
def ResourceName.KeepsTemplate (config : ProviderConfig) : ResourceName → Prop
  | .style _ => True
  | .glyph fontstack _ => ∀ template, config.glyphUrlTemplate = some template → fontstack ≠ "." ∧ fontstack ≠ ".." ∧
      ¬ Pattern.Bridged rangePlaceholder (encodeText fontstack.toList) (Pattern.pieces fontstackPlaceholder template)
  | .sprite _ _ => True

/-- A URL of a key is its template, filled. -/
theorem filledByKey_of_resolveWith {templates : ResourceTemplates} {base : List Char}
    (hplaceholder : templates.placeholder = styleIdPlaceholder ∨ templates = {}) (hkey : checkStyleKey styleKey = .ok ())
    (h : templates.resolveWith styleKey.toList encodeTextSegments = some base) (suffix : List Char) :
    FilledByKey templates styleKey.toList suffix (base ++ suffix) := by
  unfold ResourceTemplates.resolveWith at h
  split at h
  · cases h
  · rename_i template relativeKey hselect
    rcases hplaceholder with hplaceholder | rfl
    · simp only at h
      split at h
      · cases h
      · refine ⟨template, relativeKey, hselect, ?_, confined_relativeKey hkey hselect⟩
        rw [← Option.some.inj h, hplaceholder]
    · cases hsplit : splitOnce '/' styleKey.toList <;> simp [NamespacedEntries.select, hsplit] at hselect

/-- What is parsed keeps the placeholder of its policy. -/
theorem placeholder_of_parse {env : TemplateEnv} {policy : TemplatePolicy} {raw : List Char} {templates : ResourceTemplates}
    (h : ResourceTemplates.parse env policy raw = .ok templates) : templates.placeholder = policy.placeholder := by
  unfold ResourceTemplates.parse at h
  obtain ⟨entries, -, h⟩ := Except.bind_eq_ok_iff.mp h
  obtain ⟨_, -, h⟩ := Except.bind_eq_ok_iff.mp h
  cases hdefault : entries.default with
  | none =>
    rw [hdefault] at h
    rw [← Except.ok.inj h]
  | some template =>
    rw [hdefault] at h
    obtain ⟨_, -, h⟩ := Except.bind_eq_ok_iff.mp h
    rw [← Except.ok.inj h]

/-- What a configuration is made of. -/
theorem new_eq (env : TemplateEnv) (style glyph sprite : Option (List Char)) : ProviderConfig.new env style glyph sprite =
    (match style with | some raw => ResourceTemplates.parse env (resourcePolicy "STYLE_TEMPLATES") raw | none => .ok {}) >>=
      fun style =>
      (match glyph with | some template => (validateGlyphTemplate env template).map some | none => .ok none) >>= fun glyph =>
        (match sprite with | some raw => ResourceTemplates.parse env (resourcePolicy "SPRITE_TEMPLATES") raw | none => .ok {}) >>=
          fun sprite => .ok ⟨style, glyph, sprite⟩ := by
  cases style <;> cases glyph <;> cases sprite <;> rfl

theorem placeholder_of_new {env : TemplateEnv} {style glyph sprite : Option (List Char)} {config : ProviderConfig}
    (h : ProviderConfig.new env style glyph sprite = .ok config) :
    (config.styleTemplates.placeholder = styleIdPlaceholder ∨ config.styleTemplates = {}) ∧
      (config.spriteTemplates.placeholder = styleIdPlaceholder ∨ config.spriteTemplates = {}) := by
  rw [new_eq] at h
  obtain ⟨styleTemplates, hstyle, h⟩ := Except.bind_eq_ok_iff.mp h
  obtain ⟨glyphUrlTemplate, -, h⟩ := Except.bind_eq_ok_iff.mp h
  obtain ⟨spriteTemplates, hsprite, h⟩ := Except.bind_eq_ok_iff.mp h
  cases h
  constructor
  · cases style with
    | none => exact Or.inr (Except.ok.inj hstyle).symm
    | some raw => exact Or.inl (placeholder_of_parse hstyle)
  · cases sprite with
    | none => exact Or.inr (Except.ok.inj hsprite).symm
    | some raw => exact Or.inl (placeholder_of_parse hsprite)

/-- A range stays where it is put. -/
theorem confined_range {raw range : String} (h : validateRange raw = .ok range) : Confined range.toList ∧
    '\x7b' ∉ range.toList := by
  obtain ⟨start, -, -, rfl⟩ := of_validateRange h
  have hlist : (start.repr ++ "-" ++ (start + 255).repr).toList = start.repr.toList ++ '-' :: (start + 255).repr.toList := by
    simp [String.toList_append]
  have hchars : ∀ c ∈ start.repr.toList ++ '-' :: (start + 255).repr.toList, c.isDigit = true ∨ c = '-' := by
    intro c hc
    rcases List.mem_append.mp hc with hc | hc
    · exact Or.inl (isDigit_of_mem_repr hc)
    · rcases List.mem_cons.mp hc with rfl | hc
      · exact Or.inr rfl
      · exact Or.inl (isDigit_of_mem_repr hc)
  have hplain : ∀ c ∈ start.repr.toList ++ '-' :: (start + 255).repr.toList, c.toNat < 127 ∧
    isPathByte (UInt8.ofNat c.toNat) = true := by
    intro c hc
    rcases hchars c hc with hdigit | rfl
    · have hle : 48 ≤ c.toNat ∧ c.toNat ≤ 57 := by simpa [Char.isDigit, UInt32.le_iff_toNat_le] using hdigit
      exact ⟨by omega, isPathByte_of_isDigit hdigit⟩
    · decide
  have hdot : ∀ dots : List Char, '-' ∉ dots → start.repr.toList ++ '-' :: (start + 255).repr.toList ≠ dots := by
    rintro dots hdash rfl
    exact hdash (List.mem_append_right _ List.mem_cons_self)
  rw [hlist]
  constructor
  · rw [← encodeText_of_plain hplain, confined_encodeText_iff (hdot [] (by decide))]
    exact ⟨hdot _ (by decide), hdot _ (by decide)⟩
  · intro hbrace
    rcases hchars _ hbrace with hdigit | hdash
    · exact absurd hdigit (by decide)
    · exact absurd hdash (by decide)

/-- A font stack stays in its template exactly when it is no dot segment and makes no placeholder. -/
theorem urlConfined_glyph_iff (config : ProviderConfig) {fontstack raw range : String}
    (hfontstack : validateFontstack fontstack = .ok ())
    (hrange : validateRange raw = .ok range) :
    UrlConfined config (.glyph fontstack range) ↔ (ResourceName.glyph fontstack range).KeepsTemplate config := by
  have hne : fontstack.toList ≠ [] := fun hnil => validateFontstack_ne_empty hfontstack (String.toList_eq_nil_iff.mp hnil)
  have hfill : encodeText fontstack.toList ≠ [] := fun hnil => hne (eq_nil_of_encodeText hnil)
  have hdots : (fontstack.toList ≠ ".".toList ∧ fontstack.toList ≠ "..".toList) ↔ fontstack ≠ "." ∧ fontstack ≠ ".." := by
    simp only [ne_eq, String.toList_inj]
  have hbrace : ∀ c ∈ ['\x7b', '\x7d'], c ∉ encodeText fontstack.toList := by
    intro c hc hmem
    have hsubset : ['\x7b', '\x7d'] ⊆ ['?', '#', '\\', '/', '\x7b', '\x7d'] := by decide
    exact (mem_encodeText hmem).2 (hsubset hc)
  have hlast : ∀ d ∈ rangePlaceholder.getLast?, d ∉ encodeText fontstack.toList := by
    intro d hd
    cases hd
    exact hbrace '\x7d' (by decide)
  obtain ⟨hconfined, hfree⟩ := confined_range hrange
  constructor
  · intro h template htemplate
    obtain ⟨template', htemplate', heq, hescaped, -⟩ := h _ (by rw [ProviderConfig.resolveGlyphUrl, htemplate, Option.map_some])
    cases htemplate.symm.trans htemplate'
    obtain ⟨hsingle, hdouble⟩ := hdots.mp ((confined_encodeText_iff hne).mp hescaped)
    exact ⟨hsingle, hdouble, (Pattern.replace_fill_iff (by decide) hfill (hbrace _ (by decide)) hlast hfree
      (Pattern.piecesFrom_ne_nil _ _ _)).mp heq⟩
  · intro h url hurl
    obtain ⟨template, htemplate, rfl⟩ := Option.map_eq_some_iff.mp hurl
    obtain ⟨hsingle, hdouble, hbridged⟩ := h template htemplate
    refine ⟨template, htemplate, ?_, (confined_encodeText_iff hne).mpr (hdots.mpr ⟨hsingle, hdouble⟩), hconfined⟩
    exact (Pattern.replace_fill_iff (by decide) hfill (hbrace _ (by decide)) hlast hfree (Pattern.piecesFrom_ne_nil _ _ _)).mpr
      hbridged

/-- The URL of a resource that was checked is its template, filled with what stays where it is put, exactly when its name keeps
the template: a style's and a sprite's always do. -/
theorem urlConfined_iff {env : TemplateEnv} {style glyph sprite : Option (List Char)} {config : ProviderConfig}
    {resource : ResourceName}
    (hconfig : ProviderConfig.new env style glyph sprite = .ok config) (hresource : resource.Validated) :
    UrlConfined config resource ↔ resource.KeepsTemplate config := by
  obtain ⟨hstyle, hsprite⟩ := placeholder_of_new hconfig
  cases resource with
  | style styleKey =>
    refine iff_of_true (fun url hurl => ?_) trivial
    have hfilled := filledByKey_of_resolveWith hstyle hresource hurl []
    rwa [List.append_nil] at hfilled
  | glyph fontstack range =>
    obtain ⟨hfontstack, raw, hrange⟩ := hresource
    exact urlConfined_glyph_iff config hfontstack hrange
  | sprite styleKey variant =>
    refine iff_of_true (fun url hurl => ?_) trivial
    obtain ⟨base, hbase, rfl⟩ := Option.map_eq_some_iff.mp hurl
    exact filledByKey_of_resolveWith hsprite hresource hbase variant.suffix.toList

/-- A parser of URLs for the examples: what comes after the host is the path. -/
def exampleUrls : TemplateEnv where
  urlParse text := .ok ⟨"https", text.drop "https://up.example".length⟩

def exampleGlyphTemplate : List Char := "https://up.example/fonts/\x7bfontstack\x7d/\x7brange\x7d.pbf".toList

/-- A font stack of two dots leaves the directory of its template. -/
theorem urlConfined_dots :
    ¬ ∀ (env : TemplateEnv) (style glyph sprite : Option (List Char)) (config : ProviderConfig) (resource : ResourceName),
    ProviderConfig.new env style glyph sprite = .ok config → resource.Validated → UrlConfined config resource := by
  intro h
  have hurl := h exampleUrls none (some exampleGlyphTemplate) none ⟨{}, some exampleGlyphTemplate, {}⟩ (.glyph ".." "0-255")
    (by decide) ⟨by decide, "0-255.pbf", by decide⟩ _ rfl
  obtain ⟨-, -, -, hconfined, -⟩ := hurl
  exact (hconfined.segments "..".toList (by decide)).2 rfl

theorem urlConfined_noto : UrlConfined ⟨{}, some exampleGlyphTemplate, {}⟩ (.glyph "Noto Sans" "0-255") ↔
    (ResourceName.glyph "Noto Sans" "0-255").KeepsTemplate ⟨{}, some exampleGlyphTemplate, {}⟩ :=
  urlConfined_iff (show ProviderConfig.new exampleUrls none (some exampleGlyphTemplate) none = .ok _ by decide)
    (show ResourceName.Validated (.glyph "Noto Sans" "0-255") from ⟨by decide, "0-255", by decide⟩)

end Biei.Ishikari
