import Biei.Ishikari.Derived
import Biei.Lemmas.ProviderRoute

/-! # Lemmas on derived tiles -/

namespace Biei.Ishikari

open Provider (HttpError)

/-! ## Requests -/

/-- What `parse_derived_tile_request` has checked of a request. -/
structure DerivedTileRequest.Accepted (state : DerivedState) (request : DerivedTileRequest) : Prop where
  mapterhorn : validatedMapterhorn state request.tilesetId.value = .ok request.tilesetId
  coord : tileCoordNew request.z request.x request.y = .ok ()
  tileId : request.tileId = state.tileIdOf request.z request.x request.y
  format : normalizedFormat request.product request.format = request.format

theorem TilesetId.of_tryFrom {value : String} {tilesetId : TilesetId} (h : TilesetId.tryFrom value = .ok tilesetId) :
    tilesetId.value = value := by
  unfold TilesetId.tryFrom at h
  split at h
  · rw [← Except.ok.inj h]
  · cases h

theorem TilesetId.value_ne_empty (tilesetId : TilesetId) : tilesetId.value ≠ "" := by
  intro hempty
  have hvalid := tilesetId.valid
  rw [hempty] at hvalid
  cases hvalid

theorem normalizedFormat_idem (product : DerivedProduct) (format : RequestedTileFormat) :
    normalizedFormat product (normalizedFormat product format) = normalizedFormat product format := by
  unfold normalizedFormat
  split <;> rfl

variable {state : DerivedState} {request : DerivedTileRequest}

theorem accepted_of_parse {tilesetId product yRaw : String} {z x : Nat} {headers : HeaderMap}
    (h : parseDerivedTileRequest state tilesetId product z x yRaw headers = .ok request) :
    request.Accepted state := by
  obtain ⟨id, hid, h⟩ := Except.bind_eq_ok_iff.mp h
  obtain ⟨product, -, h⟩ := Except.bind_eq_ok_iff.mp h
  simp only at h
  split at h
  · cases h
  · split at h
    · cases h
    · rename_i hcoord
      cases h
      have hvalue : id.value = tilesetId := by
        unfold validatedMapterhorn at hid
        split at hid
        · cases hid
        · rename_i hfrom
          split at hid
          · cases hid
            exact TilesetId.of_tryFrom hfrom
          · cases hid
      exact ⟨hvalue ▸ hid, hcoord, rfl, normalizedFormat_idem _ _⟩

/-- A coordinate fits the types that its parts are read as. -/
theorem of_tileCoordNew {z x y : Nat} (h : tileCoordNew z x y = .ok ()) : z < 256 ∧ x < 2 ^ 32 ∧ y < 2 ^ 32 := by
  unfold tileCoordNew at h
  split at h
  · cases h
  · split at h
    · cases h
    · have hpow : 2 ^ z ≤ 2 ^ 31 := Nat.pow_le_pow_right (by decide) (by omega)
      omega

/-! ## The internal path -/

theorem DerivedProduct.parse_path (product : DerivedProduct) : DerivedProduct.parse product.path = .ok product := by
  cases product <;> decide

theorem carries_product (product : DerivedProduct) : Carries (utf8 product.path) product.path := by
  cases product <;> exact carries_utf8 (by decide) (by decide) (by decide)

/-- The last part of the internal path. -/
def yPath (y : Nat) : RequestedTileFormat → String
  | .asStored => y.repr
  | .mlt => y.repr ++ ".mlt"

theorem carries_yPath (y : Nat) (format : RequestedTileFormat) : Carries (utf8 (yPath y format)) (yPath y format) := by
  cases format with
  | asStored => exact carries_repr y
  | mlt =>
    have hlist : (y.repr ++ ".mlt").toList = y.repr.toList ++ ".mlt".toList := String.toList_append
    refine carries_utf8 (fun h => repr_ne_empty y (String.append_eq_empty_iff.mp h).1) ?_ ?_ <;>
      rw [yPath, hlist, List.mem_append, not_or] <;> exact ⟨not_mem_repr (by decide), by decide⟩

theorem derivedInternalPath_eq (request : DerivedTileRequest) :
    derivedInternalPath request = slash :: (utf8 "_internal" ++ slash :: (utf8 "derived" ++
      slash :: (pathPercentEncode (utf8 request.tilesetId.value) ++ slash :: (utf8 request.product.path ++
        slash :: (utf8 request.z.repr ++ slash :: (utf8 request.x.repr ++ slash ::
          (utf8 (yPath request.y request.format) ++ []))))))) := by
  have hlead : utf8 "/_internal/derived" = slash :: (utf8 "_internal" ++ slash :: utf8 "derived") := by decide
  unfold derivedInternalPath
  rw [hlead]
  cases request.format with
  | asStored => simp [yPath]
  | mlt => simp [yPath, utf8_append]

/-- What the owner's handler is given of the internal path. -/
theorem parameters_derivedInternalPath (request : DerivedTileRequest) :
    derivedRoute.parameters (derivedInternalPath request) =
      some [request.tilesetId.value, request.product.path, request.z.repr, request.x.repr, yPath request.y request.format] := by
  have htileset := carries_pathPercentEncode request.tilesetId.value_ne_empty
  have hproduct := carries_product request.product
  have hz := carries_repr request.z
  have hx := carries_repr request.x
  have hy := carries_yPath request.y request.format
  have hslash : ∀ rest, AtBoundary (slash :: rest) := fun rest => Or.inr ⟨rest, rfl⟩
  rw [RoutePattern.parameters, derivedInternalPath_eq, derivedRoute, captures_text, captures_text,
    captures_parameter htileset _ _ (hslash _), captures_parameter hproduct _ _ (hslash _), captures_parameter hz _ _ (hslash _),
    captures_parameter hx _ _ (hslash _), captures_parameter hy _ _ (Or.inl rfl)]
  simp [RoutePattern.captures, htileset.decodedText, hproduct.decodedText, hz.decodedText, hx.decodedText, hy.decodedText]

theorem negotiateFormat_yPath (state : DerivedState) (y : Nat) (format : RequestedTileFormat) :
    negotiateFormat state (yPath y format).toList ⟨[]⟩ = (y.repr.toList, format) := by
  have hdot : '.' ∉ y.repr.toList := not_mem_repr (by decide)
  cases format with
  | asStored =>
    simp only [negotiateFormat, yPath, rsplitOnce_eq_none hdot]
    rfl
  | mlt =>
    have hlist : (y.repr ++ ".mlt").toList = y.repr.toList ++ '.' :: "mlt".toList := String.toList_append
    have hsplit : rsplitOnce '.' (y.repr.toList ++ '.' :: "mlt".toList) = some (y.repr.toList, "mlt".toList) :=
      rsplitOnce_append (by decide) _
    simp only [negotiateFormat, yPath, hlist, hsplit, if_true]

theorem DerivedTileRequest.Accepted.parse (h : request.Accepted state) :
    parseDerivedTileRequest state request.tilesetId.value request.product.path request.z request.x
      (yPath request.y request.format) ⟨[]⟩ = .ok request := by
  obtain ⟨-, -, hy⟩ := of_tileCoordNew h.coord
  refine Except.bind_eq_ok_iff.mpr ⟨_, h.mapterhorn, Except.bind_eq_ok_iff.mpr ⟨_, DerivedProduct.parse_path _, ?_⟩⟩
  simp only [negotiateFormat_yPath, parseUnsigned_repr hy, h.coord, h.format, ← h.tileId]

/-- The owner reads the request that was accepted. -/
theorem internalDerivedRequest_eq (h : request.Accepted state) :
    internalDerivedRequest state (derivedInternalPath request) = some (.ok request) := by
  obtain ⟨hz, hx, -⟩ := of_tileCoordNew h.coord
  simp only [internalDerivedRequest, parameters_derivedInternalPath, Option.bind_eq_bind, Option.bind_some, parseUnsigned_repr hz,
    parseUnsigned_repr hx, h.parse]

/-! ## Outcomes -/

/-- The tile that is served for an outcome. -/
def DerivedOutcome.data : DerivedOutcome → Option TileData
  | .tile data => some data
  | .degraded data => some data
  | .absent => none

/-- The encodings that the wire form knows. -/
def wireEncodings : List (Option String) := [none, some "gzip", some "br", some "zstd"]

/-- What a tile of a request is. -/
structure IsTileOf (product : DerivedProduct) (format : RequestedTileFormat) (tile : TileData) : Prop where
  contentType : tile.contentType = expectedContentType product format
  contentEncoding : tile.contentEncoding ∈ wireEncodings

variable {product : DerivedProduct} {tile : TileData}

theorem isTileOf_generated {payload : Bytes}
    (h : tileFromGeneratedPayload state product payload = .ok tile) : IsTileOf product .asStored tile := by
  unfold tileFromGeneratedPayload at h
  split at h
  · rename_i hraster
    cases h
    refine ⟨?_, List.mem_cons_self⟩
    rw [expectedContentType, if_pos hraster]
  · rename_i hvector
    obtain ⟨bytes, -, rfl⟩ := Except.map_eq_ok_iff.mp h
    refine ⟨?_, List.mem_cons_of_mem _ List.mem_cons_self⟩
    have hjpeg : product ≠ .hillshadeJpeg := fun hjpeg => hvector (hjpeg ▸ rfl)
    rw [expectedContentType, if_neg hjpeg, if_neg hvector]

variable {format : RequestedTileFormat}

/-- A raster product is served as it is stored; of the others the stored tile is a vector tile, which is transcoded. -/
theorem isTileOf_inFormat {generated tile : TileData}
    (hgenerated : IsTileOf product .asStored generated) (hformat : normalizedFormat product format = format)
    (h : inFormat state format generated = .ok tile) : IsTileOf product format tile := by
  cases format with
  | asStored =>
    cases h
    exact hgenerated
  | mlt =>
    have hvector : ¬product.isRaster = true := fun hraster => by
      rw [normalizedFormat, if_pos hraster] at hformat
      cases hformat
    have hjpeg : product ≠ .hillshadeJpeg := fun hjpeg => hvector (hjpeg ▸ rfl)
    have htype : generated.contentType = TileType.mvt.contentType := by
      rw [hgenerated.contentType, expectedContentType, if_neg hjpeg, if_neg hvector]
    have hne : TileType.mvt.contentType ≠ mltContentType := by decide
    rw [inFormat, mltResponseBytes, htype, if_neg hne, if_neg (not_not_intro rfl)] at h
    obtain ⟨response, hresponse, rfl⟩ := Except.map_eq_ok_iff.mp h
    obtain ⟨bytes, -, rfl⟩ := Except.map_eq_ok_iff.mp hresponse
    exact ⟨rfl, List.mem_cons_of_mem _ List.mem_cons_self⟩

variable {outcome : DerivedOutcome}

theorem generateTile_data {tilesetId : TilesetId} {z x y : Nat} (h : generateTile state tilesetId product z x y = .ok outcome)
    (htile : outcome.data = some tile) : IsTileOf product .asStored tile := by
  obtain ⟨generated, -, h⟩ := Except.bind_eq_ok_iff.mp h
  cases generated with
  | none =>
    cases h
    cases htile
  | some generated =>
    obtain ⟨payload, degraded⟩ := generated
    obtain ⟨stored, hstored, h⟩ := Except.bind_eq_ok_iff.mp h
    have hdata : outcome.data = some stored := by
      cases degraded <;> cases h <;> rfl
    rw [hdata] at htile
    exact Option.some.inj htile ▸ isTileOf_generated hstored

/-- What is served for an accepted request is a tile of the request. -/
theorem localDerivedOutput_data (hrequest : request.Accepted state) (h : localDerivedOutput state request = .ok outcome)
    (htile : outcome.data = some tile) : IsTileOf request.product request.format tile := by
  obtain ⟨generated, hgenerated, h⟩ := Except.bind_eq_ok_iff.mp h
  have hdata := fun {tile : TileData} (htile : generated.data = some tile) => generateTile_data hgenerated htile
  cases generated with
  | absent =>
    cases h
    cases htile
  | tile stored =>
    obtain ⟨converted, hformat, rfl⟩ := Except.map_eq_ok_iff.mp h
    cases htile
    exact isTileOf_inFormat (hdata rfl) hrequest.format hformat
  | degraded stored =>
    obtain ⟨converted, hformat, rfl⟩ := Except.map_eq_ok_iff.mp h
    cases htile
    exact isTileOf_inFormat (hdata rfl) hrequest.format hformat

/-! ## The wire -/

theorem exists_contentTypeCode (product : DerivedProduct) (format : RequestedTileFormat) :
    ∃ code, derivedContentTypeCode (expectedContentType product format) = .ok code ∧
      derivedContentType code = .ok (expectedContentType product format) := by
  have hcode : ∀ tileType ∈ [TileType.mvt, .mlt, .jpeg, .webp], ∃ code ∈ [1, 2, 4, 5],
      derivedContentTypeCode tileType.contentType = .ok code ∧ derivedContentType code = .ok tileType.contentType := by
    decide
  have htype : ∃ tileType ∈ [TileType.mvt, .mlt, .jpeg, .webp], expectedContentType product format = tileType.contentType := by
    cases product <;> cases format <;> decide
  obtain ⟨tileType, hmem, htype⟩ := htype
  obtain ⟨code, -, hcode⟩ := hcode tileType hmem
  exact ⟨code, htype ▸ hcode⟩

theorem exists_contentEncodingCode {encoding : Option String} (h : encoding ∈ wireEncodings) :
    ∃ code, derivedContentEncodingCode encoding = .ok code ∧ derivedContentEncoding code = .ok encoding := by
  have hcode : ∀ encoding ∈ wireEncodings, ∃ code ∈ [0, 1, 2, 3],
      derivedContentEncodingCode encoding = .ok code ∧ derivedContentEncoding code = .ok encoding := by
    decide
  obtain ⟨code, -, hcode⟩ := hcode encoding h
  exact ⟨code, hcode⟩

theorem decodeDerivedWire_magic {rest : Bytes} (h : rest ≠ []) (product : DerivedProduct) (format : RequestedTileFormat) :
    decodeDerivedWire (derivedWireMagic ++ rest) product format = decodeDerivedWireV2 (derivedWireMagic ++ rest) product
      format := by
  have hlength : ¬(derivedWireMagic ++ rest).length < derivedWireMagic.length + 1 := by
    have hpos := List.length_pos_iff.mpr h
    rw [List.length_append]
    omega
  have hmagic : slice? (derivedWireMagic ++ rest) 0 derivedWireMagic.length = some derivedWireMagic := by
    rw [slice?_eq_some (Nat.zero_le _) (by rw [List.length_append]; omega)]
    exact congrArg some (List.take_left' rfl)
  rw [decodeDerivedWire, if_neg hlength, hmagic, Option.bind_eq_bind, Option.bind_some]
  exact if_neg (not_not_intro rfl)

theorem decode_absent (product : DerivedProduct) (format : RequestedTileFormat) :
    decodeDerivedWire (derivedWireMagic ++ [0]) product format = some (.ok .absent) := by
  rw [decodeDerivedWire_magic (by simp)]
  rfl

theorem decode_tile (contentType contentEncoding : UInt8) (bytes : Bytes) (product : DerivedProduct)
    (format : RequestedTileFormat) :
    decodeDerivedWire (derivedWireMagic ++ 1 :: contentType :: contentEncoding :: bytes) product format =
      some (decodedTile product format bytes contentType contentEncoding) := by
  have hlength : (derivedWireMagic ++ 1 :: contentType :: contentEncoding :: bytes).length = derivedWireMagic.length + 3 +
    bytes.length := by
    simp only [List.length_append, List.length_cons]
    omega
  have hbytes : slice? (derivedWireMagic ++ 1 :: contentType :: contentEncoding :: bytes) (derivedWireMagic.length + 3)
      (derivedWireMagic ++ 1 :: contentType :: contentEncoding :: bytes).length = some bytes := by
    rw [slice?_eq_some (by omega) le_rfl]
    have hsplit : derivedWireMagic ++ 1 :: contentType :: contentEncoding :: bytes =
      (derivedWireMagic ++ [1, contentType, contentEncoding]) ++ bytes := by simp
    rw [hsplit]
    exact congrArg some (slice_append_right _ bytes)
  rw [decodeDerivedWire_magic (by simp), decodeDerivedWireV2, hbytes]
  have hge : (derivedWireMagic ++ 1 :: contentType :: contentEncoding :: bytes).length ≥ derivedWireMagic.length + 3 := by omega
  have htype : (derivedWireMagic ++ 1 :: contentType :: contentEncoding :: bytes)[derivedWireMagic.length + 1]? =
    some contentType := rfl
  have hencoding : (derivedWireMagic ++ 1 :: contentType :: contentEncoding :: bytes)[derivedWireMagic.length + 2]? =
    some contentEncoding := rfl
  simp [htype, hencoding, hge]

/-- A tile of a request comes through the wire as it is. -/
theorem exists_wire_of_isTileOf (h : IsTileOf product format tile) :
    ∃ wire, encodeDerivedTile tile = .ok wire ∧ decodeDerivedWire wire product format = some (.ok (.tile tile)) := by
  obtain ⟨contentType, hencodeType, hdecodeType⟩ := exists_contentTypeCode product format
  obtain ⟨contentEncoding, hencodeEncoding, hdecodeEncoding⟩ := exists_contentEncodingCode h.contentEncoding
  rw [← h.contentType] at hencodeType hdecodeType
  refine ⟨_, Except.bind_eq_ok_iff.mpr ⟨_, hencodeType, Except.bind_eq_ok_iff.mpr ⟨_, hencodeEncoding, rfl⟩⟩, ?_⟩
  have hdecoded : decodedTile product format tile.bytes contentType contentEncoding = .ok (.tile tile) := by
    refine Except.bind_eq_ok_iff.mpr ⟨_, hdecodeType, Except.bind_eq_ok_iff.mpr ⟨_, hdecodeEncoding, ?_⟩⟩
    exact Except.bind_eq_ok_iff.mpr ⟨tile, if_neg (not_not_intro h.contentType), rfl⟩
  rw [decode_tile, hdecoded]

theorem exists_wire (h : ∀ tile, outcome.data = some tile → IsTileOf product format tile) :
    ∃ wire decoded, encodeDerivedWire outcome = .ok wire ∧ decodeDerivedWire wire product format = some (.ok decoded) ∧
      decoded.data = outcome.data := by
  cases outcome with
  | absent => exact ⟨_, _, rfl, decode_absent product format, rfl⟩
  | tile tile =>
    obtain ⟨wire, hencode, hdecode⟩ := exists_wire_of_isTileOf (h tile rfl)
    exact ⟨wire, _, hencode, hdecode, rfl⟩
  | degraded tile =>
    obtain ⟨wire, hencode, hdecode⟩ := exists_wire_of_isTileOf (h tile rfl)
    exact ⟨wire, _, hencode, hdecode, rfl⟩

theorem decodedTile_contentType {bytes : Bytes} {contentType contentEncoding : UInt8}
    (h : decodedTile product format bytes contentType contentEncoding = .ok outcome) :
    ∃ tile, outcome = .tile tile ∧ tile.contentType = expectedContentType product format := by
  obtain ⟨type, -, h⟩ := Except.bind_eq_ok_iff.mp h
  obtain ⟨encoding, -, h⟩ := Except.bind_eq_ok_iff.mp h
  obtain ⟨tile, hvalid, h⟩ := Except.bind_eq_ok_iff.mp h
  unfold validateDerivedTileData at hvalid
  split at hvalid
  · cases hvalid
  · rename_i htype
    cases hvalid
    exact ⟨_, (Except.ok.inj h).symm, not_not.mp htype⟩

/-- What is decoded of any bytes: nothing is read out of range, and a tile has the content type of the request. -/
structure Decoded (product : DerivedProduct) (format : RequestedTileFormat) (decoded : Option (Except String DerivedOutcome)) :
    Prop where
  inRange : decoded ≠ none
  contentType : ∀ outcome, decoded = some (.ok outcome) →
    outcome = .absent ∨ ∃ tile, outcome = .tile tile ∧ tile.contentType = expectedContentType product format

theorem decoded_error (product : DerivedProduct) (format : RequestedTileFormat) (e : String) :
    Decoded product format (some (.error e)) :=
  ⟨Option.some_ne_none _, fun _ h => by cases h⟩

theorem decoded_decodeDerivedWire (wire : Bytes) (product : DerivedProduct) (format : RequestedTileFormat) :
    Decoded product format (decodeDerivedWire wire product format) := by
  unfold decodeDerivedWire
  split
  · exact decoded_error _ _ _
  · rename_i hlength
    rw [slice?_eq_some (Nat.zero_le _) (by omega), Option.bind_eq_bind, Option.bind_some]
    split
    · exact decoded_error _ _ _
    · obtain ⟨status, hstatus⟩ : ∃ status, wire[derivedWireMagic.length]? = some status :=
        ⟨_, List.getElem?_eq_getElem (by omega)⟩
      simp only [decodeDerivedWireV2, hstatus, Option.bind_eq_bind, Option.bind_some]
      split
      · exact ⟨Option.some_ne_none _, fun outcome h => Or.inl (Except.ok.inj (Option.some.inj h)).symm⟩
      · split
        · exact decoded_error _ _ _
        · split
          · rename_i htile
            have hbound := htile.2
            rw [slice?_eq_some (by omega) le_rfl, List.getElem?_eq_getElem (by omega), List.getElem?_eq_getElem (by omega)]
            exact ⟨Option.some_ne_none _, fun outcome h => Or.inr (decodedTile_contentType (Option.some.inj h))⟩
          · split <;> exact decoded_error _ _ _

end Biei.Ishikari
