import Biei.Ishikari.StyleRewrite
import Biei.Lemmas.Accept
import Biei.Lemmas.ProviderRoute

/-! # Lemmas on rewritten styles -/

namespace Biei.Ishikari

/-! ## Parameters -/

def isSeparator (c : Char) : Bool := c == '?' || c == '&'

/-- The parameters of a URL, after what comes before the first of them. -/
def urlPieces (url : List Char) : List (List Char) := url.splitOnP isSeparator

/-- How often a URL has a parameter for the token. -/
def tokenCount (url : List Char) : Nat := (urlPieces url).countP fun piece => tokenParameter.isPrefixOf piece

theorem urlPieces_append (before after : List Char) {c : Char} (hc : isSeparator c = true) :
    urlPieces (before ++ c :: after) = urlPieces before ++ urlPieces after := List.splitOnP_append_cons before after hc

theorem urlPieces_of_forall {text : List Char} (h : ∀ c ∈ text, isSeparator c = false) : urlPieces text = [text] :=
  List.splitOnP_eq_singleton h

theorem tokenCount_append (before after : List Char) {c : Char} (hc : isSeparator c = true) :
    tokenCount (before ++ c :: after) = tokenCount before + tokenCount after := by
  rw [tokenCount, urlPieces_append before after hc, List.countP_append, tokenCount, tokenCount]

/-- What follows a slash does not make a parameter the token's. -/
theorem isPrefixOf_tokenParameter (text rest : List Char) :
    tokenParameter.isPrefixOf (text ++ '/' :: rest) = tokenParameter.isPrefixOf text := by
  rw [Bool.eq_iff_iff, List.isPrefixOf_iff_prefix, List.isPrefixOf_iff_prefix]
  constructor
  · intro h
    rcases List.prefix_or_prefix_of_prefix h (List.prefix_append text ('/' :: rest)) with hprefix | ⟨tail, htail⟩
    · exact hprefix
    · rw [← htail, List.prefix_append_right_inj] at h
      cases tail with
      | nil => rw [← htail, List.append_nil]
      | cons c tail =>
        have hslash : c = '/' := (List.cons_prefix_cons.mp h).1
        have hmem : '/' ∈ tokenParameter := htail ▸ List.mem_append_right _ (hslash ▸ List.mem_cons_self)
        exact absurd hmem (by decide)
  · exact fun h => h.trans (List.prefix_append _ _)

/-- A path has no parameters. -/
theorem tokenCount_path (url : List Char) {rest : List Char} (h : ∀ c ∈ rest, isSeparator c = false) :
    tokenCount (url ++ '/' :: rest) = tokenCount url := by
  have hpath : ∀ c ∈ '/' :: rest, isSeparator c = false := List.forall_mem_cons.mpr ⟨rfl, h⟩
  by_cases hmem : ∃ c ∈ url, isSeparator c = true
  · obtain ⟨c, hc, hsep⟩ := hmem
    obtain ⟨before, after, rfl, -⟩ := List.eq_append_cons_of_mem hc
    have hshorter : after.length < (before ++ c :: after).length := by simp; omega
    rw [List.append_assoc, List.cons_append, tokenCount_append _ _ hsep, tokenCount_append _ _ hsep, tokenCount_path after h]
  · have hurl : ∀ c ∈ url, isSeparator c = false := fun c hc => Bool.eq_false_iff.mpr fun hsep => hmem ⟨c, hc, hsep⟩
    rw [tokenCount, tokenCount, urlPieces_of_forall hurl, urlPieces_of_forall (List.forall_mem_append.mpr ⟨hurl, hpath⟩)]
    simp only [List.countP_singleton, isPrefixOf_tokenParameter]
  termination_by url.length

/-! ## Keys -/

theorem splitSlash_bytes {text : Bytes} {P : UInt8 → Prop} (hslash : P slash)
    (h : ∀ segment ∈ splitSlash text, ∀ b ∈ segment, P b) :
    ∀ b ∈ text, P b := by
  intro b hb
  have hjoined : b ∈ joinSegments (splitSlash text) := joinSegments_splitSlash text ▸ List.mem_cons_of_mem slash hb
  obtain ⟨segment, hsegment, hmem⟩ := List.mem_flatMap.mp hjoined
  rcases List.mem_cons.mp hmem with rfl | hmem
  · exact hslash
  · exact h segment hsegment b hmem

/-- The bytes of an identifier. -/
def isIdentifierByte (b : UInt8) : Bool := isIdentifierSegment [b]

theorem bytes_of_validateTilesetSegment {segment : Bytes} (h : validateTilesetSegment segment = .ok ()) :
    ∀ b ∈ segment, isIdentifierByte b = true := by
  have hidentifier : isIdentifierSegment segment = true := by
    by_contra hno
    by_cases hempty : segment.isEmpty = true
    · rw [List.isEmpty_iff.mp hempty] at hno
      exact hno rfl
    · have hrefused : (!isIdentifierSegment segment) = true := by simpa using hno
      simp only [validateTilesetSegment, if_neg hempty, if_pos hrefused] at h
      by_cases hdot : segment = utf8 "." ∨ segment = utf8 ".."
      · rw [if_pos hdot] at h
        cases h
      · rw [if_neg hdot] at h
        cases h
  intro b hb
  have hbyte := List.all_eq_true.mp hidentifier b hb
  simpa [isIdentifierByte, isIdentifierSegment] using hbyte

/-- A key is made of identifiers and slashes. -/
theorem bytes_of_validateTilesetId {key : Bytes} (h : validateTilesetId key = .ok ()) : ∀ b ∈ key, isIdentifierByte b = true ∨
    b = slash := by
  refine splitSlash_bytes (Or.inr rfl) fun segment hsegment b hb => Or.inl ?_
  simp only [validateTilesetId] at h
  by_cases hempty : key.isEmpty = true
  · rw [if_pos hempty] at h
    cases h
  rw [if_neg hempty] at h
  by_cases hlong : maxTilesetIdLen < key.length
  · rw [if_pos hlong] at h
    cases h
  rw [if_neg hlong] at h
  match hsegments : splitSlash key with
  | [] => rw [hsegments] at hsegment; nomatch hsegment
  | [first] =>
    rw [hsegments] at h hsegment
    rw [List.mem_singleton.mp hsegment] at hb
    exact bytes_of_validateTilesetSegment h b hb
  | [first, second] =>
    rw [hsegments] at h hsegment
    obtain ⟨_, hfirst, h⟩ := Except.bind_eq_ok_iff.mp h
    obtain ⟨_, hsecond, h⟩ := Except.bind_eq_ok_iff.mp h
    rcases List.mem_cons.mp hsegment with rfl | hsegment
    · exact bytes_of_validateTilesetSegment hfirst b hb
    · rw [List.mem_singleton.mp hsegment] at hb
      exact bytes_of_validateTilesetSegment hsecond b hb
  | _ :: _ :: _ :: _ =>
    rw [hsegments] at h
    cases h

variable {key : List Char}

/-- The characters of a key. -/
theorem forall_mem_of_isTilesetKey (h : isTilesetKey key = true) :
    ∀ c ∈ key, isSeparator c = false ∧ c ≠ '\x7b' := by
  have hbytes : ∀ b ∈ utf8 (String.ofList key), isIdentifierByte b = true ∨ b = slash := by
    refine bytes_of_validateTilesetId ?_
    unfold isTilesetKey at h
    cases hvalid : validateTilesetId (utf8 (String.ofList key)) with
    | ok u => rfl
    | error e => rw [hvalid] at h; cases h
  have hnone : ∀ d : Char, d.toNat < 128 → ¬ (isIdentifierByte (UInt8.ofNat d.toNat) = true ∨ UInt8.ofNat d.toNat = slash) →
    ∀ c ∈ key, c ≠ d := by
    intro d hd hno c hc heq
    subst heq
    exact hno (hbytes _ ((mem_utf8_iff hd).mpr (by rwa [String.toList_ofList])))
  intro c hc
  have hquery := hnone '?' (by decide) (by decide) c hc
  have hand := hnone '&' (by decide) (by decide) c hc
  exact ⟨by simp [isSeparator, hquery, hand], hnone '\x7b' (by decide) (by decide) c hc⟩

/-- What is escaped of a key of a style is no separator. -/
theorem isSeparator_encodeTextSegments (text : List Char) : ∀ c ∈ encodeTextSegments text, isSeparator c = false := by
  have hbyte : ∀ byte : UInt8, ∀ b ∈ escapeByte byte, isSeparator (Char.ofNat b.toNat) = false := forall_byte (by decide +kernel)
  unfold encodeTextSegments
  have hslash : (fun c => isSeparator c = false) '/' := rfl
  refine Quoted.forall_mem_intercalate hslash fun segment hsegment c hc => ?_
  obtain ⟨part, -, rfl⟩ := List.mem_map.mp hsegment
  obtain ⟨b, hb, rfl⟩ := List.mem_map.mp hc
  obtain ⟨byte, -, hmem⟩ := List.mem_flatMap.mp hb
  exact hbyte byte b hmem

/-! ## References -/

/-- A provider-relative reference to a tileset. -/
def NamesTileset (url : List Char) : Prop := ∃ key, isTilesetKey key = true ∧ url = '/' :: key

/-- A provider-relative reference to the tiles of a tileset. -/
def NamesTiles (url : List Char) : Prop := ∃ key, isTilesetKey key = true ∧
    (url = '/' :: key ∨ url = '/' :: (key ++ tilePathTemplate))

theorem stripTilesetRef_eq_some_iff {url rest : List Char} : stripTilesetRef url = some rest ↔ url = '/' :: rest := by
  unfold stripTilesetRef
  cases url with
  | nil => simp [stripLead]
  | cons c url =>
    by_cases hc : c = '/'
    · subst hc
      simp [stripLead]
    · have hne : ¬ '/' = c := fun h => hc h.symm
      simp [stripLead, hne, hc]

theorem of_stripEnd {tail text rest : List Char} (h : stripEnd tail text = some rest) : text = rest ++ tail := by
  unfold stripEnd at h
  split at h
  · rename_i hsuffix
    obtain ⟨head, rfl⟩ := List.isSuffixOf_iff_suffix.mp hsuffix
    cases h
    simp
  · cases h

/-- A key does not end in the template of a tile's path. -/
theorem stripEnd_of_isTilesetKey (h : isTilesetKey key = true) : stripEnd tilePathTemplate key = none := by
  refine if_neg fun hsuffix => ?_
  have hmem : '\x7b' ∈ key := (List.isSuffixOf_iff_suffix.mp hsuffix).subset (by decide)
  exact (forall_mem_of_isTilesetKey h _ hmem).2 rfl

/-- The TileJSON of a tileset at this server. -/
def tilejsonTarget (baseUrl : List Char) (mlt : Bool) (key : List Char) : List Char :=
  if mlt then baseUrl ++ "/tilesets/".toList ++ key ++ "?encoding=mlt".toList else baseUrl ++ "/tilesets/".toList ++ key

/-- The tiles of a tileset at this server. -/
def tileTarget (baseUrl : List Char) (mlt : Bool) (key : List Char) : List Char :=
  if mlt then baseUrl ++ "/tilesets/".toList ++ key ++ tilePathTemplate ++ ".mlt".toList
  else baseUrl ++ "/tilesets/".toList ++ key ++ tilePathTemplate

variable {env : StyleEnv} {baseUrl : List Char} {token : Option PropagatedAccessToken}

theorem tilejsonUrl_of_key (h : isTilesetKey key = true) (mlt : Bool) :
    tilejsonUrl env baseUrl token mlt ('/' :: key) = some (withToken env token (tilejsonTarget baseUrl mlt key)) := by
  have hrewrite : rewriteTilesetRefTilejsonUrl ('/' :: key) baseUrl = some (baseUrl ++ "/tilesets/".toList ++ key) := by
    rw [rewriteTilesetRefTilejsonUrl, stripTilesetRef_eq_some_iff.mpr rfl]
    exact if_pos h
  rw [tilejsonUrl, hrewrite]
  rfl

variable {url : List Char}

theorem tilejsonUrl_eq_none (h : ¬ NamesTileset url) (mlt : Bool) : tilejsonUrl env baseUrl token mlt url = none := by
  have hrewrite : rewriteTilesetRefTilejsonUrl url baseUrl = none := by
    rw [rewriteTilesetRefTilejsonUrl]
    cases hstrip : stripTilesetRef url with
    | none => rfl
    | some key => exact if_neg fun hkey => h ⟨key, hkey, stripTilesetRef_eq_some_iff.mp hstrip⟩
  rw [tilejsonUrl, hrewrite]
  rfl

theorem tileUrl_of_key {key url : List Char} (h : isTilesetKey key = true)
    (hurl : url = '/' :: key ∨ url = '/' :: (key ++ tilePathTemplate))
    (mlt : Bool) : tileUrl env baseUrl token mlt url = some (withToken env token (tileTarget baseUrl mlt key)) := by
  obtain ⟨rest, hrest, hkey⟩ : ∃ rest, url = '/' :: rest ∧ (stripEnd tilePathTemplate rest).getD rest = key := by
    rcases hurl with rfl | rfl
    · exact ⟨key, rfl, by rw [stripEnd_of_isTilesetKey h]; rfl⟩
    · exact ⟨_, rfl, by rw [stripEnd_append]; rfl⟩
  have hrewrite : rewriteTilesetRefTileUrl url baseUrl = some (baseUrl ++ "/tilesets/".toList ++ key ++ tilePathTemplate) := by
    rw [rewriteTilesetRefTileUrl, stripTilesetRef_eq_some_iff.mpr hrest]
    simp only [Option.bind_eq_bind, Option.bind_some, hkey]
    exact if_pos h
  rw [tileUrl, hrewrite]
  rfl

theorem tileUrl_eq_none (h : ¬ NamesTiles url) (mlt : Bool) : tileUrl env baseUrl token mlt url = none := by
  have hrewrite : rewriteTilesetRefTileUrl url baseUrl = none := by
    rw [rewriteTilesetRefTileUrl]
    cases hstrip : stripTilesetRef url with
    | none => rfl
    | some rest =>
      refine if_neg fun hkey => h ⟨_, hkey, ?_⟩
      rw [stripTilesetRef_eq_some_iff.mp hstrip]
      cases hend : stripEnd tilePathTemplate rest with
      | none => exact Or.inl rfl
      | some key => exact Or.inr (congrArg _ (of_stripEnd hend))
  rw [tileUrl, hrewrite]
  rfl

/-! ## URLs of this server -/

/-- A URL that begins with the base, and has one parameter more than the base for the token, if there is one. -/
structure OwnUrl (env : StyleEnv) (baseUrl : List Char) (token : Option PropagatedAccessToken) (url : List Char) : Prop where
  base : baseUrl <+: url
  tokens : tokenCount url = tokenCount baseUrl + token.toList.length
  token : ∀ t, token = some t → tokenParameter ++ env.byteSerialize (utf8 t.value) ∈ urlPieces url

theorem ownUrl_withToken (hbase : baseUrl <+: url) (htokens : tokenCount url = tokenCount baseUrl) :
    OwnUrl env baseUrl token (withToken env token url) := by
  cases token with
  | none => exact ⟨hbase, htokens, nofun⟩
  | some t =>
    have hsep : isSeparator (if '?' ∈ url then '&' else '?') = true := by split <;> rfl
    have hparameter : ∀ c ∈ tokenParameter ++ env.byteSerialize (utf8 t.value), isSeparator c = false := by
      refine List.forall_mem_append.mpr ⟨by decide, fun c hc => ?_⟩
      obtain ⟨hquery, hand⟩ := env.byteSerialize_separators _ c hc
      simp [isSeparator, hquery, hand]
    have hpieces := urlPieces_of_forall hparameter
    refine ⟨hbase.trans (List.prefix_append _ _), ?_, fun t' ht' => ?_⟩
    · have hone : tokenCount (tokenParameter ++ env.byteSerialize (utf8 t.value)) = 1 := by
        rw [tokenCount, hpieces]
        simp
      rw [withToken, PropagatedAccessToken.appendTo, tokenCount_append _ _ hsep, htokens, hone]
      rfl
    · cases ht'
      rw [withToken, PropagatedAccessToken.appendTo, urlPieces_append _ _ hsep, hpieces]
      exact List.mem_append_right _ (List.mem_singleton_self _)

theorem ownUrl_path {rest : List Char} (h : ∀ c ∈ rest, isSeparator c = false) :
    OwnUrl env baseUrl token (withToken env token (baseUrl ++ '/' :: rest)) :=
  ownUrl_withToken (List.prefix_append _ _) (tokenCount_path baseUrl h)

theorem ownUrl_tilejsonTarget (h : isTilesetKey key = true) (mlt : Bool) :
    OwnUrl env baseUrl token (withToken env token (tilejsonTarget baseUrl mlt key)) := by
  have hrest : ∀ c ∈ "tilesets/".toList ++ key, isSeparator c = false :=
    List.forall_mem_append.mpr ⟨by decide, fun c hc => (forall_mem_of_isTilesetKey h c hc).1⟩
  have hpath : baseUrl ++ "/tilesets/".toList ++ key = baseUrl ++ '/' :: ("tilesets/".toList ++ key) := by simp
  unfold tilejsonTarget
  rw [hpath]
  split
  · refine ownUrl_withToken ((List.prefix_append _ _).trans (List.prefix_append _ _)) ?_
    have hencoding : "?encoding=mlt".toList = '?' :: "encoding=mlt".toList := by decide
    rw [hencoding, tokenCount_append _ _ rfl, tokenCount_path baseUrl hrest]
    rfl
  · exact ownUrl_path hrest

theorem ownUrl_tileTarget (h : isTilesetKey key = true) (mlt : Bool) :
    OwnUrl env baseUrl token (withToken env token (tileTarget baseUrl mlt key)) := by
  have hkey : ∀ c ∈ key, isSeparator c = false := fun c hc => (forall_mem_of_isTilesetKey h c hc).1
  unfold tileTarget
  split
  · have hpath : baseUrl ++ "/tilesets/".toList ++ key ++ tilePathTemplate ++ ".mlt".toList =
        baseUrl ++ '/' :: ("tilesets/".toList ++ key ++ tilePathTemplate ++ ".mlt".toList) := by simp
    rw [hpath]
    exact ownUrl_path (by simp only [List.forall_mem_append]; exact ⟨⟨⟨by decide, hkey⟩, by decide⟩, by decide⟩)
  · have hpath : baseUrl ++ "/tilesets/".toList ++ key ++ tilePathTemplate =
        baseUrl ++ '/' :: ("tilesets/".toList ++ key ++ tilePathTemplate) := by simp
    rw [hpath]
    exact ownUrl_path (by simp only [List.forall_mem_append]; exact ⟨⟨by decide, hkey⟩, by decide⟩)

theorem ownUrl_glyphsUrl : OwnUrl env baseUrl token (glyphsUrl env baseUrl token) := by
  have hpath : "/fonts/\x7bfontstack\x7d/\x7brange\x7d.pbf".toList = '/' ::
    "fonts/\x7bfontstack\x7d/\x7brange\x7d.pbf".toList := by decide
  rw [glyphsUrl, hpath]
  exact ownUrl_path (by decide)

theorem ownUrl_spriteUrl (styleKey : List Char) : OwnUrl env baseUrl token (spriteUrl env baseUrl token styleKey) := by
  have hpath : baseUrl ++ "/styles/".toList ++ encodeTextSegments styleKey ++ "/sprite".toList =
      baseUrl ++ '/' :: ("styles/".toList ++ encodeTextSegments styleKey ++ "/sprite".toList) := by simp
  rw [spriteUrl, hpath]
  refine ownUrl_path ?_
  simp only [List.forall_mem_append]
  exact ⟨⟨by decide, isSeparator_encodeTextSegments styleKey⟩, by decide⟩

/-! ## Sources -/

/-- The value is a reference of the kind. -/
def IsReference (names : List Char → Prop) (value : Json) : Prop := ∃ text, asText value = some text ∧ names text

theorem asText_textValue (text : List Char) : asText (textValue text) = some text := by
  rw [textValue, asText, String.toList_ofList]

variable (env baseUrl token) in
theorem rewriteTile_cases (mlt : Bool) (tile : Json) :
    (IsReference NamesTiles tile ∧
        ∃ key, isTilesetKey key = true ∧ rewriteTile env baseUrl token mlt tile =
          (textValue (withToken env token (tileTarget baseUrl mlt key)), true)) ∨
      (¬ IsReference NamesTiles tile ∧ rewriteTile env baseUrl token mlt tile = (tile, false)) := by
  unfold rewriteTile
  by_cases h : IsReference NamesTiles tile
  · obtain ⟨text, htext, key, hkey, hurl⟩ := h
    refine Or.inl ⟨⟨text, htext, key, hkey, hurl⟩, key, hkey, ?_⟩
    rw [htext, Option.bind_some, tileUrl_of_key hkey hurl]
  · refine Or.inr ⟨h, ?_⟩
    have hnone : (asText tile).bind (tileUrl env baseUrl token mlt) = none := by
      cases htext : asText tile with
      | none => rfl
      | some text => exact tileUrl_eq_none (fun hnames => h ⟨text, htext, hnames⟩) mlt
    rw [hnone]

variable (env baseUrl token) in
theorem rewriteUrlField_cases (mlt : Bool) (fields : List (String × Json)) :
    (∃ value key, Fields.get fields "url" = some value ∧ IsReference NamesTileset value ∧ isTilesetKey key = true ∧
        rewriteUrlField env baseUrl token mlt fields =
          (Fields.insert fields "url" (textValue (withToken env token (tilejsonTarget baseUrl mlt key))), true)) ∨
      ((∀ value, Fields.get fields "url" = some value → ¬ IsReference NamesTileset value) ∧
        rewriteUrlField env baseUrl token mlt fields = (fields, false)) := by
  unfold rewriteUrlField
  by_cases h : ∃ value, Fields.get fields "url" = some value ∧ IsReference NamesTileset value
  · obtain ⟨value, hvalue, text, htext, key, hkey, rfl⟩ := h
    refine Or.inl ⟨value, key, hvalue, ⟨_, htext, key, hkey, rfl⟩, hkey, ?_⟩
    rw [hvalue, Option.bind_some, htext, Option.bind_some, tilejsonUrl_of_key hkey]
  · have hother : ∀ value, Fields.get fields "url" = some value → ¬ IsReference NamesTileset value :=
      fun value hvalue hnames => h ⟨value, hvalue, hnames⟩
    refine Or.inr ⟨hother, ?_⟩
    have hnone : ((Fields.get fields "url").bind asText).bind (tilejsonUrl env baseUrl token mlt) = none := by
      cases hvalue : Fields.get fields "url" with
      | none => rfl
      | some value =>
        cases htext : asText value with
        | none => rw [Option.bind_some, htext]; rfl
        | some text =>
          rw [Option.bind_some, htext, Option.bind_some]
          exact tilejsonUrl_eq_none (fun hnames => hother value hvalue ⟨text, htext, hnames⟩) mlt
    rw [hnone]

variable (env baseUrl token) in
theorem rewriteTilesField_cases (mlt : Bool) (fields : List (String × Json)) :
    (∃ tiles, Fields.get fields "tiles" = some (.array tiles) ∧ rewriteTilesField env baseUrl token mlt fields =
        (Fields.set "tiles" (.array (tiles.map fun tile => (rewriteTile env baseUrl token mlt tile).1)) fields,
          tiles.any fun tile => (rewriteTile env baseUrl token mlt tile).2)) ∨
      ((∀ tiles, Fields.get fields "tiles" ≠ some (.array tiles)) ∧
        rewriteTilesField env baseUrl token mlt fields = (fields, false)) := by
  unfold rewriteTilesField
  split
  · rename_i tiles htiles
    refine Or.inl ⟨tiles, htiles, ?_⟩
    simp only [List.map_map, List.any_map]
    rfl
  · rename_i hother
    exact Or.inr ⟨hother, rfl⟩

theorem get_rewriteUrlField_of_ne (mlt : Bool) (fields : List (String × Json)) {name : String} (h : name ≠ "url") :
    Fields.get (rewriteUrlField env baseUrl token mlt fields).1 name = Fields.get fields name := by
  rcases rewriteUrlField_cases env baseUrl token mlt fields with ⟨value, key, -, -, -, heq⟩ | ⟨-, heq⟩
  · rw [heq, Fields.get_insert_of_ne h]
  · rw [heq]

theorem get_rewriteTilesField_of_ne (mlt : Bool) (fields : List (String × Json)) {name : String} (h : name ≠ "tiles") :
    Fields.get (rewriteTilesField env baseUrl token mlt fields).1 name = Fields.get fields name := by
  rcases rewriteTilesField_cases env baseUrl token mlt fields with ⟨tiles, -, heq⟩ | ⟨-, heq⟩
  · rw [heq, Fields.get_set_of_ne h]
  · rw [heq]

theorem filter_rewriteUrlField (keep : String → Bool) (h : keep "url" = false) (mlt : Bool) (fields : List (String × Json)) :
    (rewriteUrlField env baseUrl token mlt fields).1.filter (fun field => keep field.1) = fields.filter fun field =>
      keep field.1 := by
  rcases rewriteUrlField_cases env baseUrl token mlt fields with ⟨value, key, -, -, -, heq⟩ | ⟨-, heq⟩
  · rw [heq, Fields.filter_insert keep h]
  · rw [heq]

theorem filter_rewriteTilesField (keep : String → Bool) (h : keep "tiles" = false) (mlt : Bool) (fields : List (String × Json)) :
    (rewriteTilesField env baseUrl token mlt fields).1.filter (fun field => keep field.1) = fields.filter fun field =>
      keep field.1 := by
  rcases rewriteTilesField_cases env baseUrl token mlt fields with ⟨tiles, -, heq⟩ | ⟨-, heq⟩
  · rw [heq, Fields.filter_set keep h]
  · rw [heq]

end Biei.Ishikari
