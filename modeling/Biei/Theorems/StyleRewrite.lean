import Biei.Lemmas.StyleRewrite

/-! # Rewritten styles -/

namespace Biei.Ishikari

/-! ## What is rewritten -/

/-- A value of a shape is changed inside, and any other is left as it is. -/
def Inside {α : Type} (shape : α → Json) (R : α → α → Prop) (old new : Json) : Prop :=
  (∃ a b, old = shape a ∧ new = shape b ∧ R a b) ∨ ((∀ a, old ≠ shape a) ∧ new = old)

/-- A reference of the kind becomes a URL that has the property, and any other value is left as it is. -/
def ReferenceTo (names P : List Char → Prop) (old new : Json) : Prop :=
  (IsReference names old ∧ ∃ url, new = textValue url ∧ P url) ∨ (¬ IsReference names old ∧ new = old)

variable (env : StyleEnv) (baseUrl : List Char) (token : Option PropagatedAccessToken)

/-- A reference of the kind becomes a URL of this server. -/
def Reference (names : List Char → Prop) (old new : Json) : Prop := ReferenceTo names (OwnUrl env baseUrl token) old new

/-- The fields of a source. -/
structure SourceFields (old new : List (String × Json)) : Prop where
  others : ∀ keep : String → Bool, keep "url" = false → keep "tiles" = false → keep "encoding" = false →
    new.filter (fun field => keep field.1) = old.filter fun field => keep field.1
  url : Option.Rel (Reference env baseUrl token NamesTileset) (Fields.get old "url") (Fields.get new "url")
  tiles : Option.Rel (Inside .array (List.Forall₂ (Reference env baseUrl token NamesTiles))) (Fields.get old "tiles")
    (Fields.get new "tiles")
  encoding : Fields.get new "encoding" = Fields.get old "encoding" ∨ Fields.get new "encoding" = some (textValue "mlt".toList)

/-- The sources of a style, each under its name. -/
def Sources (old new : List (String × Json)) : Prop :=
  List.Forall₂ (fun a b => a.1 = b.1 ∧ Inside .object (SourceFields env baseUrl token) a.2 b.2) old new

/-- The fields of a style: `glyphs` and `sprite` where there is a provider for them, and what is in `sources`. -/
structure StyleFields (styleKey : List Char) (provider : ProviderConfig) (old new : List (String × Json)) : Prop where
  others : ∀ keep : String → Bool, (provider.hasGlyphProvider = true → keep "glyphs" = false) →
    (provider.hasSpriteProvider styleKey = true → keep "sprite" = false) → keep "sources" = false →
      new.filter (fun field => keep field.1) = old.filter fun field => keep field.1
  glyphs : provider.hasGlyphProvider = true → ∃ url, Fields.get new "glyphs" = some (textValue url) ∧ OwnUrl env baseUrl token url
  sprite : provider.hasSpriteProvider styleKey = true → ∃ url, Fields.get new "sprite" = some (textValue url) ∧
    OwnUrl env baseUrl token url
  sources : Option.Rel (Inside .object (Sources env baseUrl token)) (Fields.get old "sources") (Fields.get new "sources")

variable {env baseUrl token}

/-! ## Sources -/

theorem forall₂_exists_right {α β : Type} {R : α → β → Prop} {as : List α} {bs : List β} (h : List.Forall₂ R as bs) {a : α}
    (ha : a ∈ as) :
    ∃ b ∈ bs, R a b := by
  induction h with
  | nil => nomatch ha
  | cons hR _ ih =>
    rcases List.mem_cons.mp ha with rfl | ha
    · exact ⟨_, List.mem_cons_self, hR⟩
    · obtain ⟨b, hb, hab⟩ := ih ha
      exact ⟨b, List.mem_cons_of_mem _ hb, hab⟩

theorem forall₂_exists_left {α β : Type} {R : α → β → Prop} {as : List α} {bs : List β} (h : List.Forall₂ R as bs) {b : β}
    (hb : b ∈ bs) :
    ∃ a ∈ as, R a b := forall₂_exists_right h.flip hb

theorem optionRel_refl {α : Type} {R : α → α → Prop} (value : Option α) (h : ∀ a, value = some a → R a a) :
    Option.Rel R value value := by
  cases value with
  | none => exact Option.Rel.none
  | some a => exact Option.Rel.some (h a rfl)

/-- The fields before `encoding` is added. -/
def rewrittenFields (env : StyleEnv) (baseUrl : List Char) (token : Option PropagatedAccessToken) (mlt : Bool)
    (fields : List (String × Json)) : List (String × Json) :=
  (rewriteTilesField env baseUrl token mlt (rewriteUrlField env baseUrl token mlt fields).1).1

variable (env baseUrl token) in
theorem rewriteSourceFields_cases (wantsMlt : Bool) (fields : List (String × Json)) :
    let mlt := sourceMlt wantsMlt fields
    let rewritten := rewrittenFields env baseUrl token mlt fields
    (rewriteSourceFields env baseUrl token wantsMlt fields = Fields.insert rewritten "encoding" (textValue "mlt".toList) ∧
      mlt = true ∧
        ((rewriteUrlField env baseUrl token mlt fields).2 = true ∨
          (rewriteTilesField env baseUrl token mlt (rewriteUrlField env baseUrl token mlt fields).1).2 = true)) ∨
      rewriteSourceFields env baseUrl token wantsMlt fields = rewritten := by
  intro mlt rewritten
  unfold rewriteSourceFields
  simp only
  split
  · rename_i h
    obtain ⟨hmlt, hrewrote⟩ := Bool.and_eq_true_iff.mp h
    exact Or.inl ⟨rfl, hmlt, Bool.or_eq_true_iff.mp hrewrote⟩
  · exact Or.inr rfl

theorem url_rewritten {P : List Char → Prop} {mlt : Bool} (fields : List (String × Json))
    (hP : ∀ key, isTilesetKey key = true → P (withToken env token (tilejsonTarget baseUrl mlt key))) :
    Option.Rel (ReferenceTo NamesTileset P) (Fields.get fields "url")
      (Fields.get (rewrittenFields env baseUrl token mlt fields) "url") := by
  rw [rewrittenFields, get_rewriteTilesField_of_ne mlt _ (by decide)]
  rcases rewriteUrlField_cases env baseUrl token mlt fields with ⟨value, key, hvalue, href, hkey, heq⟩ | ⟨hother, heq⟩
  · rw [heq, Fields.get_insert_self, hvalue]
    exact Option.Rel.some (Or.inl ⟨href, _, rfl, hP key hkey⟩)
  · rw [heq]
    exact optionRel_refl _ fun value hvalue => Or.inr ⟨hother value hvalue, rfl⟩

theorem tiles_rewritten {P : List Char → Prop} {mlt : Bool} (fields : List (String × Json))
    (hP : ∀ key, isTilesetKey key = true → P (withToken env token (tileTarget baseUrl mlt key))) :
    Option.Rel (Inside .array (List.Forall₂ (ReferenceTo NamesTiles P))) (Fields.get fields "tiles")
      (Fields.get (rewrittenFields env baseUrl token mlt fields) "tiles") := by
  have hsame : Fields.get (rewriteUrlField env baseUrl token mlt fields).1 "tiles" = Fields.get fields "tiles" :=
    get_rewriteUrlField_of_ne mlt fields (by decide)
  have htile : ∀ tile, ReferenceTo NamesTiles P tile (rewriteTile env baseUrl token mlt tile).1 := by
    intro tile
    rcases rewriteTile_cases env baseUrl token mlt tile with ⟨href, key, hkey, heq⟩ | ⟨hother, heq⟩
    · exact Or.inl ⟨href, _, by rw [heq], hP key hkey⟩
    · exact Or.inr ⟨hother, by rw [heq]⟩
  unfold rewrittenFields
  rcases rewriteTilesField_cases env baseUrl token mlt (rewriteUrlField env baseUrl token mlt fields).1 with ⟨tiles, htiles,
    heq⟩ | ⟨hother, heq⟩
  · rw [heq, Fields.get_set_self _ (by rw [htiles]; rfl), ← hsame, htiles]
    refine Option.Rel.some (Or.inl ⟨tiles, _, rfl, rfl, ?_⟩)
    exact List.forall₂_map_right_iff.mpr (List.forall₂_same.mpr fun tile _ => htile tile)
  · rw [heq, hsame]
    exact optionRel_refl _ fun value hvalue => Or.inr ⟨fun tiles htiles => hother tiles (by rw [hsame, hvalue, htiles]), rfl⟩

theorem get_rewrittenFields_encoding (mlt : Bool) (fields : List (String × Json)) :
    Fields.get (rewrittenFields env baseUrl token mlt fields) "encoding" = Fields.get fields "encoding" := by
  rw [rewrittenFields, get_rewriteTilesField_of_ne mlt _ (by decide), get_rewriteUrlField_of_ne mlt _ (by decide)]

variable (env baseUrl token) in
theorem sourceFields_rewritten (mlt : Bool) (fields : List (String × Json)) :
    SourceFields env baseUrl token fields (rewrittenFields env baseUrl token mlt fields) where
  others keep hurl htiles _ := by rw [rewrittenFields, filter_rewriteTilesField keep htiles, filter_rewriteUrlField keep hurl]
  url := url_rewritten fields fun _ hkey => ownUrl_tilejsonTarget hkey mlt
  tiles := tiles_rewritten fields fun _ hkey => ownUrl_tileTarget hkey mlt
  encoding := Or.inl (get_rewrittenFields_encoding mlt fields)

variable (env baseUrl token) in
theorem sourceFields_rewriteSourceFields (wantsMlt : Bool) (fields : List (String × Json)) :
    SourceFields env baseUrl token fields (rewriteSourceFields env baseUrl token wantsMlt fields) := by
  have hrewritten := sourceFields_rewritten env baseUrl token (sourceMlt wantsMlt fields) fields
  rcases rewriteSourceFields_cases env baseUrl token wantsMlt fields with ⟨heq, -, -⟩ | heq
  · rw [heq]
    refine ⟨fun keep hurl htiles hencoding => ?_, ?_, ?_, Or.inr (Fields.get_insert_self _ _ _)⟩
    · rw [Fields.filter_insert keep hencoding, hrewritten.others keep hurl htiles hencoding]
    · rw [Fields.get_insert_of_ne (by decide)]
      exact hrewritten.url
    · rw [Fields.get_insert_of_ne (by decide)]
      exact hrewritten.tiles
  · rw [heq]
    exact hrewritten

/-! ## Once more -/

/-- A base that is not nothing and does not begin with a slash. -/
def IsOrigin (baseUrl : List Char) : Prop := baseUrl ≠ [] ∧ baseUrl.head? ≠ some '/'

/-- A URL of this server is not provider-relative. -/
theorem OwnUrl.ne_slash {url : List Char} (h : OwnUrl env baseUrl token url) (hbase : IsOrigin baseUrl) (rest : List Char) :
    url ≠ '/' :: rest := by
  intro heq
  obtain ⟨hne, hslash⟩ := hbase
  have hprefix := h.base
  rw [heq] at hprefix
  cases baseUrl with
  | nil => exact hne rfl
  | cons c baseUrl => exact hslash (congrArg some (List.cons_prefix_cons.mp hprefix).1)

theorem not_isReference_of_ownUrl {names : List Char → Prop} (hnames : ∀ url, names url → ∃ rest, url = '/' :: rest)
    (hbase : IsOrigin baseUrl)
    {url : List Char} (h : OwnUrl env baseUrl token url) : ¬ IsReference names (textValue url) := by
  rintro ⟨text, htext, hname⟩
  rw [asText_textValue] at htext
  cases htext
  obtain ⟨rest, hrest⟩ := hnames url hname
  exact h.ne_slash hbase rest hrest

/-- What a reference has become is no reference. -/
theorem Reference.not_isReference {names : List Char → Prop} (hnames : ∀ url, names url → ∃ rest, url = '/' :: rest)
    (hbase : IsOrigin baseUrl)
    {old new : Json} (h : Reference env baseUrl token names old new) : ¬ IsReference names new := by
  rcases h with ⟨-, url, rfl, hurl⟩ | ⟨hother, rfl⟩
  · exact not_isReference_of_ownUrl hnames hbase hurl
  · exact hother

theorem slash_of_namesTileset : ∀ url, NamesTileset url → ∃ rest, url = '/' :: rest := fun _ ⟨key, _, h⟩ => ⟨key, h⟩

theorem slash_of_namesTiles : ∀ url, NamesTiles url → ∃ rest, url = '/' :: rest
  | _, ⟨key, _, Or.inl h⟩ => ⟨key, h⟩
  | _, ⟨_, _, Or.inr h⟩ => ⟨_, h⟩

variable {fields : List (String × Json)}

/-- Fields without references stay as they are. -/
theorem rewriteSourceFields_eq_self (wantsMlt : Bool)
    (hurl : ∀ value, Fields.get fields "url" = some value → ¬ IsReference NamesTileset value)
    (htiles : ∀ tiles, Fields.get fields "tiles" = some (.array tiles) → ∀ tile ∈ tiles, ¬ IsReference NamesTiles tile) :
    rewriteSourceFields env baseUrl token wantsMlt fields = fields := by
  have hurlField : ∀ mlt, rewriteUrlField env baseUrl token mlt fields = (fields, false) := by
    intro mlt
    rcases rewriteUrlField_cases env baseUrl token mlt fields with ⟨value, key, hvalue, href, -⟩ | ⟨-, heq⟩
    · exact absurd href (hurl value hvalue)
    · exact heq
  have htilesField : ∀ mlt, rewriteTilesField env baseUrl token mlt fields = (fields, false) := by
    intro mlt
    rcases rewriteTilesField_cases env baseUrl token mlt fields with ⟨tiles, hget, heq⟩ | ⟨-, heq⟩
    · have htile : ∀ tile ∈ tiles, rewriteTile env baseUrl token mlt tile = (tile, false) := by
        intro tile htile
        rcases rewriteTile_cases env baseUrl token mlt tile with ⟨href, -⟩ | ⟨-, heq⟩
        · exact absurd href (htiles tiles hget tile htile)
        · exact heq
      have hmap : (tiles.map fun tile => (rewriteTile env baseUrl token mlt tile).1) = tiles := by
        conv => rhs; rw [← List.map_id tiles]
        exact List.map_congr_left fun tile hmem => congrArg Prod.fst (htile tile hmem)
      have hany : (tiles.any fun tile => (rewriteTile env baseUrl token mlt tile).2) = false :=
        List.any_eq_false.mpr fun tile hmem => by rw [htile tile hmem]; exact Bool.false_ne_true
      rw [heq, hmap, hany, Fields.set_of_get hget]
    · exact heq
  unfold rewriteSourceFields
  simp [hurlField, htilesField]

/-- A source that was rewritten is rewritten no more. -/
theorem rewriteSourceFields_idem (hbase : IsOrigin baseUrl) (wantsMlt : Bool) (fields : List (String × Json)) :
    rewriteSourceFields env baseUrl token wantsMlt (rewriteSourceFields env baseUrl token wantsMlt fields) =
      rewriteSourceFields env baseUrl token wantsMlt fields := by
  have hspec := sourceFields_rewriteSourceFields env baseUrl token wantsMlt fields
  refine rewriteSourceFields_eq_self wantsMlt (fun value hvalue => ?_) fun tiles hget tile htile => ?_
  · have hurl := hspec.url
    rw [hvalue] at hurl
    cases hold : Fields.get fields "url" with
    | none => rw [hold] at hurl; nomatch hurl
    | some old =>
      rw [hold] at hurl
      cases hurl with
      | some href => exact href.not_isReference slash_of_namesTileset hbase
  · have htiles := hspec.tiles
    rw [hget] at htiles
    cases hold : Fields.get fields "tiles" with
    | none => rw [hold] at htiles; nomatch htiles
    | some old =>
      rw [hold] at htiles
      cases htiles with
      | some hinside =>
        rcases hinside with ⟨olds, news, -, hnew, hforall⟩ | ⟨hother, hsame⟩
        · cases hnew
          obtain ⟨old', -, href⟩ := forall₂_exists_left hforall htile
          exact href.not_isReference slash_of_namesTiles hbase
        · exact absurd hsame.symm (hother tiles)

/-! ## Styles -/

variable (env baseUrl token) in
theorem inside_rewriteSourceObject (wantsMlt : Bool) (source : Json) :
    Inside Json.object (SourceFields env baseUrl token) source (rewriteSourceObject env baseUrl token wantsMlt source) := by
  unfold rewriteSourceObject
  split
  · rename_i fields
    exact Or.inl ⟨fields, _, rfl, rfl, sourceFields_rewriteSourceFields env baseUrl token wantsMlt fields⟩
  · rename_i hother
    exact Or.inr ⟨hother, rfl⟩

theorem rewriteSourceObject_idem (hbase : IsOrigin baseUrl) (wantsMlt : Bool) (source : Json) :
    rewriteSourceObject env baseUrl token wantsMlt (rewriteSourceObject env baseUrl token wantsMlt source) =
      rewriteSourceObject env baseUrl token wantsMlt source := by
  cases source with
  | object fields => exact congrArg Json.object (rewriteSourceFields_idem hbase wantsMlt fields)
  | _ => rfl

variable (env baseUrl token) in
theorem rewriteSourcesField_cases (wantsMlt : Bool) (fields : List (String × Json)) :
    (∃ sources, Fields.get fields "sources" = some (.object sources) ∧ rewriteSourcesField env baseUrl token wantsMlt fields =
        Fields.set "sources" (.object (sources.map fun source =>
          (source.1, rewriteSourceObject env baseUrl token wantsMlt source.2))) fields) ∨
      ((∀ sources, Fields.get fields "sources" ≠ some (.object sources)) ∧
        rewriteSourcesField env baseUrl token wantsMlt fields = fields) := by
  unfold rewriteSourcesField
  split
  · rename_i sources hsources
    exact Or.inl ⟨sources, hsources, rfl⟩
  · rename_i hother
    exact Or.inr ⟨hother, rfl⟩

variable {name : String}

theorem get_rewriteSourcesField_of_ne (wantsMlt : Bool) (fields : List (String × Json)) (h : name ≠ "sources") :
    Fields.get (rewriteSourcesField env baseUrl token wantsMlt fields) name = Fields.get fields name := by
  rcases rewriteSourcesField_cases env baseUrl token wantsMlt fields with ⟨sources, -, heq⟩ | ⟨-, heq⟩
  · rw [heq, Fields.get_set_of_ne h]
  · rw [heq]

theorem rewriteSourcesField_idem (hbase : IsOrigin baseUrl) (wantsMlt : Bool) (fields : List (String × Json)) :
    rewriteSourcesField env baseUrl token wantsMlt (rewriteSourcesField env baseUrl token wantsMlt fields) =
      rewriteSourcesField env baseUrl token wantsMlt fields := by
  rcases rewriteSourcesField_cases env baseUrl token wantsMlt fields with ⟨sources, hget, heq⟩ | ⟨-, heq⟩
  · rw [heq]
    have hget' : Fields.get (Fields.set "sources" (Json.object (sources.map fun source =>
        (source.1, rewriteSourceObject env baseUrl token wantsMlt source.2))) fields) "sources" = some _ :=
      Fields.get_set_self _ (by rw [hget]; rfl)
    unfold rewriteSourcesField
    rw [hget']
    simp only [List.map_map, Function.comp_def, rewriteSourceObject_idem hbase]
    exact Fields.set_of_get hget'
  · rw [heq, heq]

/-- The fields of a style before its sources are rewritten. -/
def pointedFields (env : StyleEnv) (baseUrl : List Char) (token : Option PropagatedAccessToken) (styleKey : List Char)
    (provider : ProviderConfig)
    (fields : List (String × Json)) : List (String × Json) :=
  let fields := if provider.hasGlyphProvider then Fields.insert fields "glyphs" (textValue (glyphsUrl env baseUrl token)) else
    fields
  if provider.hasSpriteProvider styleKey then Fields.insert fields "sprite"
    (textValue (spriteUrl env baseUrl token styleKey)) else fields

/-- An insertion that a condition allows. -/
theorem filter_insertIf {condition : Bool} (keep : String → Bool) (h : condition = true → keep name = false) (value : Json)
    (fields : List (String × Json)) :
    (if condition then Fields.insert fields name value else fields).filter (fun field => keep field.1) = fields.filter
      fun field => keep field.1 := by
  split
  · rename_i hcondition
    exact Fields.filter_insert keep (h hcondition) value fields
  · rfl

theorem get_insertIf_of_ne (condition : Bool) {name other : String} (h : other ≠ name) (value : Json)
    (fields : List (String × Json)) :
    Fields.get (if condition then Fields.insert fields name value else fields) other = Fields.get fields other := by
  split
  · exact Fields.get_insert_of_ne h fields value
  · rfl

theorem get_pointedFields (styleKey : List Char) (provider : ProviderConfig) (fields : List (String × Json))
    (hglyphs : name ≠ "glyphs") (hsprite : name ≠ "sprite") :
    Fields.get (pointedFields env baseUrl token styleKey provider fields) name = Fields.get fields name := by
  rw [pointedFields, get_insertIf_of_ne _ hsprite, get_insertIf_of_ne _ hglyphs]

variable {styleKey : List Char} {provider : ProviderConfig}

theorem get_pointedFields_glyphs (h : provider.hasGlyphProvider = true) (fields : List (String × Json)) :
    Fields.get (pointedFields env baseUrl token styleKey provider fields) "glyphs" =
      some (textValue (glyphsUrl env baseUrl token)) := by
  rw [pointedFields, get_insertIf_of_ne _ (by decide), if_pos h, Fields.get_insert_self]

theorem get_pointedFields_sprite (h : provider.hasSpriteProvider styleKey = true) (fields : List (String × Json)) :
    Fields.get (pointedFields env baseUrl token styleKey provider fields) "sprite" =
      some (textValue (spriteUrl env baseUrl token styleKey)) := by
  rw [pointedFields, if_pos h, Fields.get_insert_self]

/-- Fields that are pointed at this server stay as they are. -/
theorem pointedFields_eq_self
    (hglyphs : provider.hasGlyphProvider = true → Fields.get fields "glyphs" = some (textValue (glyphsUrl env baseUrl token)))
    (hsprite : provider.hasSpriteProvider styleKey = true →
      Fields.get fields "sprite" = some (textValue (spriteUrl env baseUrl token styleKey))) :
    pointedFields env baseUrl token styleKey provider fields = fields := by
  have hfirst : (if provider.hasGlyphProvider then Fields.insert fields "glyphs" (textValue (glyphsUrl env baseUrl token)) else
    fields) = fields := by
    split
    · rename_i h
      exact Fields.insert_of_get (hglyphs h)
    · rfl
  unfold pointedFields
  simp only [hfirst]
  split
  · rename_i h
    exact Fields.insert_of_get (hsprite h)
  · rfl

theorem styleFields_rewritten (styleKey : List Char) (provider : ProviderConfig) (wantsMlt : Bool)
    (fields : List (String × Json)) :
    StyleFields env baseUrl token styleKey provider fields
      (rewriteSourcesField env baseUrl token wantsMlt (pointedFields env baseUrl token styleKey provider fields)) where
  others keep hglyphs hsprite hsources := by
    have hpointed : (pointedFields env baseUrl token styleKey provider fields).filter (fun field => keep field.1) =
        fields.filter fun field => keep field.1 := by
      rw [pointedFields, filter_insertIf keep hsprite, filter_insertIf keep hglyphs]
    rcases rewriteSourcesField_cases env baseUrl token wantsMlt (pointedFields env baseUrl token styleKey provider fields)
      with ⟨sources, -, heq⟩ | ⟨-, heq⟩
    · rw [heq, Fields.filter_set keep hsources, hpointed]
    · rw [heq, hpointed]
  glyphs h := by
    rw [get_rewriteSourcesField_of_ne wantsMlt _ (by decide), get_pointedFields_glyphs h]
    exact ⟨_, rfl, ownUrl_glyphsUrl⟩
  sprite h := by
    rw [get_rewriteSourcesField_of_ne wantsMlt _ (by decide), get_pointedFields_sprite h]
    exact ⟨_, rfl, ownUrl_spriteUrl styleKey⟩
  sources := by
    have hsame : Fields.get (pointedFields env baseUrl token styleKey provider fields) "sources" = Fields.get fields "sources" :=
      get_pointedFields styleKey provider fields (by decide) (by decide)
    rcases rewriteSourcesField_cases env baseUrl token wantsMlt (pointedFields env baseUrl token styleKey provider fields)
      with ⟨sources, hget, heq⟩ | ⟨hother, heq⟩
    · rw [heq, Fields.get_set_self _ (by rw [hget]; rfl), ← hsame, hget]
      refine Option.Rel.some (Or.inl ⟨sources, _, rfl, rfl, ?_⟩)
      refine List.forall₂_map_right_iff.mpr (List.forall₂_same.mpr fun source _ => ⟨rfl, ?_⟩)
      exact inside_rewriteSourceObject env baseUrl token wantsMlt source.2
    · rw [heq, hsame]
      exact optionRel_refl _ fun value hvalue => Or.inr
        ⟨fun sources hsources => hother sources (by rw [hsame, hvalue, hsources]), rfl⟩

/-- Over any style: nothing is changed but what is this server's to rewrite, every URL that is put there begins with the base and
has the token once, and what is rewritten is rewritten no more. -/
theorem rewriteStyle_touches_owned (env : StyleEnv) {baseUrl : List Char} (hbase : IsOrigin baseUrl)
    (token : Option PropagatedAccessToken)
    (styleKey : List Char) (provider : ProviderConfig) (encoding : Option String) (style : Json) :
    Inside Json.object (StyleFields env baseUrl token styleKey provider) style
      (rewriteStyle env baseUrl token styleKey provider encoding style) ∧
      rewriteStyle env baseUrl token styleKey provider encoding
        (rewriteStyle env baseUrl token styleKey provider encoding style) =
        rewriteStyle env baseUrl token styleKey provider encoding style := by
  cases style with
  | object fields =>
    refine ⟨Or.inl ⟨fields, _, rfl, rfl, styleFields_rewritten styleKey provider _ fields⟩, congrArg Json.object ?_⟩
    show rewriteSourcesField env baseUrl token _ (pointedFields env baseUrl token styleKey provider
      (rewriteSourcesField env baseUrl token _ (pointedFields env baseUrl token styleKey provider fields))) = _
    rw [pointedFields_eq_self, rewriteSourcesField_idem hbase]
    · rfl
    · intro h
      rw [get_rewriteSourcesField_of_ne _ _ (by decide), get_pointedFields_glyphs h]
    · intro h
      rw [get_rewriteSourcesField_of_ne _ _ (by decide), get_pointedFields_sprite h]
  | _ => exact ⟨Or.inr ⟨nofun, rfl⟩, rfl⟩

/-! ## Sources that are tagged -/

variable (env baseUrl token) in
/-- The TileJSON of a tileset in MLT, at this server. -/
def IsMltTilejson (url : List Char) : Prop := ∃ key, isTilesetKey key = true ∧
    url = withToken env token (tilejsonTarget baseUrl true key)

variable (env baseUrl token) in
/-- The tiles of a tileset in MLT, at this server. -/
def IsMltTiles (url : List Char) : Prop := ∃ key, isTilesetKey key = true ∧
    url = withToken env token (tileTarget baseUrl true key)

/-- Every reference to TileJSON of a source has one property, and every reference to tiles another. -/
structure AllReferences (tilejson tiles : List Char → Prop) (fields : List (String × Json)) : Prop where
  url : ∀ value text, Fields.get fields "url" = some value → asText value = some text → tilejson text
  tiles : ∀ values value text, Fields.get fields "tiles" = some (.array values) → value ∈ values → asText value = some text →
    tiles text

/-- The encoding was not there, and is now. -/
def AddsMlt (old new : List (String × Json)) : Prop :=
  Fields.get new "encoding" = some (textValue "mlt".toList) ∧ Fields.get old "encoding" ≠ some (textValue "mlt".toList)

variable (env baseUrl token) in
/-- A source that is tagged: one of its references at least named a tileset, each that did is a reference in MLT now, and the
others are as they were; so all of them are in MLT where all of them named tilesets, or were in MLT. -/
structure TaggedFields (old new : List (String × Json)) : Prop where
  url : Option.Rel (ReferenceTo NamesTileset (IsMltTilejson env baseUrl token)) (Fields.get old "url") (Fields.get new "url")
  tiles : Option.Rel (Inside .array (List.Forall₂ (ReferenceTo NamesTiles (IsMltTiles env baseUrl token))))
    (Fields.get old "tiles")
    (Fields.get new "tiles")
  named : ¬ AllReferences (fun url => ¬ NamesTileset url) (fun url => ¬ NamesTiles url) old
  wholly : AllReferences (IsMltTilejson env baseUrl token) (IsMltTiles env baseUrl token) new ↔
    AllReferences (fun url => NamesTileset url ∨ IsMltTilejson env baseUrl token url)
      (fun url => NamesTiles url ∨ IsMltTiles env baseUrl token url) old

variable {names P : List Char → Prop}

/-- What a reference has become has the property where the reference names something, or had the property. -/
theorem ReferenceTo.forall_iff {old new : Json} (h : ReferenceTo names P old new) :
    (∀ text, asText new = some text → P text) ↔ ∀ text, asText old = some text → names text ∨ P text := by
  rcases h with ⟨⟨text, htext, hnames⟩, url, rfl, hurl⟩ | ⟨hother, rfl⟩
  · refine iff_of_true (fun text' htext' => ?_) fun text' htext' => ?_
    · rw [asText_textValue] at htext'
      exact Option.some.inj htext' ▸ hurl
    · rw [htext] at htext'
      exact Or.inl (Option.some.inj htext' ▸ hnames)
  · refine forall_congr' fun text => forall_congr' fun htext => (or_iff_right fun hnames => ?_).symm
    exact hother ⟨text, htext, hnames⟩

theorem forall_url_iff {old new : List (String × Json)}
    (h : Option.Rel (ReferenceTo names P) (Fields.get old "url") (Fields.get new "url")) :
    (∀ value text, Fields.get new "url" = some value → asText value = some text → P text) ↔
      ∀ value text, Fields.get old "url" = some value → asText value = some text → names text ∨ P text := by
  cases hold : Fields.get old "url" with
  | none =>
    rw [hold] at h
    cases hnew : Fields.get new "url" with
    | none => exact iff_of_true nofun nofun
    | some value => rw [hnew] at h; nomatch h
  | some value =>
    rw [hold] at h
    cases hnew : Fields.get new "url" with
    | none => rw [hnew] at h; nomatch h
    | some value' =>
      rw [hnew] at h
      cases h with
      | some href =>
        have hiff := href.forall_iff
        constructor
        · intro hall v text hv htext
          exact hiff.mp (fun t ht => hall value' t rfl ht) text (Option.some.inj hv ▸ htext)
        · intro hall v text hv htext
          exact hiff.mpr (fun t ht => hall value t rfl ht) text (Option.some.inj hv ▸ htext)

theorem forall_tiles_iff {old new : List (String × Json)}
    (h : Option.Rel (Inside .array (List.Forall₂ (ReferenceTo names P))) (Fields.get old "tiles") (Fields.get new "tiles")) :
    (∀ values value text, Fields.get new "tiles" = some (.array values) → value ∈ values → asText value = some text → P text) ↔
      ∀ values value text, Fields.get old "tiles" = some (.array values) → value ∈ values → asText value = some text →
        names text ∨ P text := by
  cases hold : Fields.get old "tiles" with
  | none =>
    rw [hold] at h
    cases hnew : Fields.get new "tiles" with
    | none => exact iff_of_true nofun nofun
    | some value => rw [hnew] at h; nomatch h
  | some value =>
    rw [hold] at h
    cases hnew : Fields.get new "tiles" with
    | none => rw [hnew] at h; nomatch h
    | some value' =>
      rw [hnew] at h
      cases h with
      | some hinside =>
        rcases hinside with ⟨olds, news, rfl, rfl, hforall⟩ | ⟨hother, rfl⟩
        · constructor
          · intro hall values v text hv hmem htext
            cases hv
            obtain ⟨new', hnew', href⟩ := forall₂_exists_right hforall hmem
            exact href.forall_iff.mp (fun t ht => hall news new' t rfl hnew' ht) text htext
          · intro hall values v text hv hmem htext
            cases hv
            obtain ⟨old', hold', href⟩ := forall₂_exists_left hforall hmem
            exact href.forall_iff.mpr (fun t ht => hall olds old' t rfl hold' ht) text htext
        · have harray : ∀ values, Option.some value' ≠ some (Json.array values) := fun values heq =>
            hother values (Option.some.inj heq)
          exact iff_of_true (fun values _ _ heq => absurd heq (harray values)) fun values _ _ heq => absurd heq (harray values)

theorem taggedFields_rewriteSourceFields {wantsMlt : Bool}
    (h : AddsMlt fields (rewriteSourceFields env baseUrl token wantsMlt fields)) :
    TaggedFields env baseUrl token fields (rewriteSourceFields env baseUrl token wantsMlt fields) := by
  obtain ⟨hadded, hbefore⟩ := h
  rcases rewriteSourceFields_cases env baseUrl token wantsMlt fields with ⟨heq, hmlt, hrewrote⟩ | heq
  · have hurl : Option.Rel (ReferenceTo NamesTileset (IsMltTilejson env baseUrl token)) (Fields.get fields "url")
        (Fields.get (rewriteSourceFields env baseUrl token wantsMlt fields) "url") := by
      rw [heq, hmlt, Fields.get_insert_of_ne (by decide)]
      exact url_rewritten fields fun key hkey => ⟨key, hkey, rfl⟩
    have htiles : Option.Rel (Inside .array (List.Forall₂ (ReferenceTo NamesTiles (IsMltTiles env baseUrl token))))
      (Fields.get fields "tiles")
        (Fields.get (rewriteSourceFields env baseUrl token wantsMlt fields) "tiles") := by
      rw [heq, hmlt, Fields.get_insert_of_ne (by decide)]
      exact tiles_rewritten fields fun key hkey => ⟨key, hkey, rfl⟩
    refine ⟨hurl, htiles, fun hnone => ?_, ?_⟩
    · -- The flag was raised by the `url` or by one of the `tiles`.
      rcases hrewrote with hflag | hflag
      · rcases rewriteUrlField_cases env baseUrl token (sourceMlt wantsMlt fields)
          fields with ⟨value, key, hvalue, ⟨text, htext, hnames⟩, -⟩ | ⟨-, hsame⟩
        · exact hnone.url value text hvalue htext hnames
        · rw [hsame] at hflag
          cases hflag
      · rcases rewriteTilesField_cases env baseUrl token (sourceMlt wantsMlt fields)
          (rewriteUrlField env baseUrl token (sourceMlt wantsMlt fields) fields).1 with ⟨tiles, hget, hsame⟩ | ⟨-, hsame⟩
        · rw [hsame] at hflag
          obtain ⟨tile, hmem, hrewritten⟩ := List.any_eq_true.mp hflag
          rw [get_rewriteUrlField_of_ne _ _ (by decide)] at hget
          rcases rewriteTile_cases env baseUrl token (sourceMlt wantsMlt fields)
            tile with ⟨⟨text, htext, hnames⟩, -⟩ | ⟨-, hother⟩
          · exact hnone.tiles tiles tile text hget hmem htext hnames
          · rw [hother] at hrewritten
            cases hrewritten
        · rw [hsame] at hflag
          cases hflag
    · exact ⟨fun hall => ⟨(forall_url_iff hurl).mp hall.url, (forall_tiles_iff htiles).mp hall.tiles⟩,
        fun hall => ⟨(forall_url_iff hurl).mpr hall.url, (forall_tiles_iff htiles).mpr hall.tiles⟩⟩
  · rw [heq, get_rewrittenFields_encoding] at hadded
    exact absurd hadded hbefore

/-- Whenever a source of a style is tagged, one of its references at least named a tileset, each that did is a reference in MLT
now, and the others are as they were. -/
theorem rewriteStyle_tags (env : StyleEnv) (baseUrl : List Char) (token : Option PropagatedAccessToken) (styleKey : List Char)
    (provider : ProviderConfig) (encoding : Option String) {fields sources : List (String × Json)}
    (hsources : Fields.get fields "sources" = some (.object sources)) :
    ∃ fields' sources', rewriteStyle env baseUrl token styleKey provider encoding (.object fields) = .object fields' ∧
      Fields.get fields' "sources" = some (.object sources') ∧
      List.Forall₂ (fun a b => a.1 = b.1 ∧ Inside .object
        (fun old new => AddsMlt old new → TaggedFields env baseUrl token old new) a.2 b.2)
        sources sources' := by
  have hpointed : Fields.get (pointedFields env baseUrl token styleKey provider fields) "sources" = some (.object sources) :=
    (get_pointedFields styleKey provider fields (by decide) (by decide)).trans hsources
  rcases rewriteSourcesField_cases env baseUrl token (encoding == some "mlt")
    (pointedFields env baseUrl token styleKey provider fields)
    with ⟨sources', hget, heq⟩ | ⟨hother, -⟩
  · cases Option.some.inj (hget.symm.trans hpointed)
    refine ⟨_, _, congrArg Json.object heq, Fields.get_set_self _ (by rw [hget]; rfl), ?_⟩
    refine List.forall₂_map_right_iff.mpr (List.forall₂_same.mpr fun source _ => ⟨rfl, ?_⟩)
    unfold rewriteSourceObject
    split
    · rename_i old _
      exact Or.inl ⟨old, _, ‹_›, rfl, taggedFields_rewriteSourceFields⟩
    · rename_i hshape
      exact Or.inr ⟨hshape, rfl⟩
  · exact absurd hpointed (hother sources)

/-! ## Nothing before the path, and references from elsewhere -/

/-- `application/x-www-form-urlencoded`, byte by byte. -/
def formByte (byte : UInt8) : List Char :=
  if isIdentifierByte byte || byte == 42 then [Char.ofNat byte.toNat]
  else if byte == 32 then ['+']
  else ['%', Char.ofNat (upperHexDigit (byte >>> 4)).toNat, Char.ofNat (upperHexDigit (byte &&& 15)).toNat]

theorem formByte_separators : ∀ byte : UInt8, ∀ c ∈ formByte byte, c ≠ '?' ∧ c ≠ '&' := forall_byte (by decide +kernel)

def formEnv : StyleEnv where
  byteSerialize bytes := bytes.flatMap formByte
  byteSerialize_separators := by
    intro bytes c hc
    obtain ⟨byte, -, hmem⟩ := List.mem_flatMap.mp hc
    exact formByte_separators byte c hmem

def noProvider : ProviderConfig := ⟨{}, none, {}⟩

/-- A style with one source. -/
def rainStyle (fields : List (String × Json)) : Json := .object [("sources", .object [("rain", .object fields)])]

/-- The fields of a source. -/
def sourceFieldsOf (style : Json) (name : String) : List (String × Json) :=
  match style with
  | .object fields =>
    match Fields.get fields "sources" with
    | some (.object sources) =>
      match Fields.get sources name with
      | some (.object fields) => fields
      | _ => []
    | _ => []
  | _ => []

/-- Where the base is nothing, what a reference becomes is provider-relative again. -/
theorem rewriteStyle_no_base :
    ([] : List Char).head? ≠ some '/' ∧
      rewriteStyle formEnv [] none "demo".toList noProvider none
          (rewriteStyle formEnv [] none "demo".toList noProvider none (rainStyle [("url", .string "/rain")])) ≠
        rewriteStyle formEnv [] none "demo".toList noProvider none (rainStyle [("url", .string "/rain")]) := by
  refine ⟨by decide, fun h => ?_⟩
  have hurl := congrArg (fun style => (Fields.get (sourceFieldsOf style "rain") "url").bind asText) h
  revert hurl
  decide

/-- A source of a tileset, with a token. -/
theorem rewriteStyle_touches_owned_rain :
    let rewrite := rewriteStyle formEnv "https://tiles.example".toList (some ⟨"a b"⟩) "demo".toList noProvider (some "mlt")
    rewrite (rewrite (rainStyle [("type", .string "vector"), ("url", .string "/analysis/rain")])) =
        rewrite (rainStyle [("type", .string "vector"), ("url", .string "/analysis/rain")]) ∧
      (Fields.get (sourceFieldsOf (rewrite (rainStyle [("type", .string "vector"), ("url", .string "/analysis/rain")])) "rain")
        "url").bind asText =
        some "https://tiles.example/tilesets/analysis/rain?encoding=mlt&access_token=a+b".toList :=
  ⟨(rewriteStyle_touches_owned formEnv (by unfold IsOrigin; decide) (some ⟨"a b"⟩) "demo".toList noProvider (some "mlt") _).2, by
    decide⟩

/-- A vector source with TileJSON from elsewhere and tiles of a tileset. -/
def mixedFields : List (String × Json) :=
  [("tiles", .array [.string "/analysis/rain/\x7bz\x7d/\x7bx\x7d/\x7by\x7d"]), ("type", .string "vector"),
    ("url", .string "https://example.test/tilejson.json")]

theorem eq_textValue {value : Json} {text : List Char} (h : asText value = some text) : value = textValue text := by
  cases value with
  | string s => rw [textValue, ← Option.some.inj h, String.ofList_toList]
  | _ => cases h

/-- The source is tagged for its tiles, and its TileJSON is still from elsewhere. -/
theorem rewriteStyle_tags_mixed :
    let new := sourceFieldsOf (rewriteStyle formEnv "https://tiles.example".toList none "demo".toList noProvider (some "mlt")
      (rainStyle mixedFields)) "rain"
    AddsMlt mixedFields new ∧ ¬ AllReferences (IsMltTilejson formEnv "https://tiles.example".toList none)
      (IsMltTiles formEnv "https://tiles.example".toList none) new := by
  intro new
  have hencoding : (Fields.get new "encoding").bind asText = some "mlt".toList := by decide
  have hurl : (Fields.get new "url").bind asText = some "https://example.test/tilejson.json".toList := by decide
  obtain ⟨value, hvalue, htext⟩ := Option.bind_eq_some_iff.mp hencoding
  refine ⟨⟨by rw [hvalue, eq_textValue htext], ?_⟩, fun hall => ?_⟩
  · have hnone : Fields.get mixedFields "encoding" = none := by
      rw [← Option.not_isSome_iff_eq_none]
      decide
    rw [hnone]
    nofun
  · obtain ⟨value, hvalue, htext⟩ := Option.bind_eq_some_iff.mp hurl
    obtain ⟨key, hkey, heq⟩ := hall.url value _ hvalue htext
    have hown : OwnUrl formEnv "https://tiles.example".toList none
      (withToken formEnv none (tilejsonTarget "https://tiles.example".toList true key)) :=
      ownUrl_tilejsonTarget hkey true
    have hbase := hown.base
    rw [← heq] at hbase
    exact absurd hbase (by decide)

/-- A source of a tileset in MLT. -/
theorem rewriteStyle_tags_rain :
    ∃ fields' sources', rewriteStyle formEnv "https://tiles.example".toList none "demo".toList noProvider (some "mlt")
        (rainStyle [("type", .string "vector"), ("url", .string "/analysis/rain")]) = .object fields' ∧
      Fields.get fields' "sources" = some (.object sources') ∧
      List.Forall₂ (fun a b => a.1 = b.1 ∧ Inside .object (fun old new => AddsMlt old new →
          TaggedFields formEnv "https://tiles.example".toList none old new) a.2 b.2)
        [("rain", .object [("type", .string "vector"), ("url", .string "/analysis/rain")])] sources' :=
  rewriteStyle_tags formEnv "https://tiles.example".toList none "demo".toList noProvider (some "mlt")
    (show Fields.get [("sources", _)] "sources" = some _ from rfl)

end Biei.Ishikari
