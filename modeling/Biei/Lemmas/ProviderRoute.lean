import Biei.Ishikari.ProviderRoute
import Biei.Lemmas.Delivery
import Biei.Lemmas.Headers

/-!
# Lemmas on internal paths

A part is `Carried` by a segment when the router captures the segment and the handler reads the part of it.
-/

namespace Biei.Ishikari

/-! ## Escapes -/

/-- What is read of an escaped byte is the byte. -/
theorem decodeHex_upperHexDigit : ∀ byte : UInt8,
    decodeHex (upperHexDigit (byte >>> 4)) = some (byte >>> 4) ∧ decodeHex (upperHexDigit (byte &&& 15)) = some (byte &&& 15) ∧
      hexByte (byte >>> 4) (byte &&& 15) = byte :=
  forall_byte (by decide +kernel)

/-- A byte escapes to bytes of a path, and to percent signs. -/
theorem escapeByte_spec : ∀ byte : UInt8, escapeByte byte ≠ [] ∧ slash ∉ escapeByte byte ∧
    (isPathByte byte = true → byte ≠ percent) :=
  forall_byte (by decide +kernel)

theorem decodeStrict_cons {b : UInt8} (h : b ≠ percent) (rest : Bytes) :
    decodeStrict (b :: rest) = (decodeStrict rest).map fun decoded => b :: decoded := by
  conv => lhs; unfold decodeStrict
  rw [if_pos h]

/-- An escaped text decodes, strictly, to what it was. -/
theorem decodeStrict_pathPercentEncode (value : Bytes) : decodeStrict (pathPercentEncode value) = .ok value := by
  induction value with
  | nil => rfl
  | cons byte value ih =>
    have hcons : pathPercentEncode (byte :: value) = escapeByte byte ++ pathPercentEncode value := rfl
    rw [hcons, escapeByte]
    split
    · rename_i hbyte
      rw [List.singleton_append, decodeStrict_cons ((escapeByte_spec byte).2.2 hbyte), ih]
      rfl
    · obtain ⟨hhigh, hlow, hwhole⟩ := decodeHex_upperHexDigit byte
      simp only [List.cons_append, List.nil_append, decodeStrict, ne_eq, not_true_eq_false, if_false, hhigh, hlow, ih, Except.map,
        hwhole]

theorem slash_not_mem_pathPercentEncode (value : Bytes) : slash ∉ pathPercentEncode value := by
  intro h
  obtain ⟨byte, -, hmem⟩ := List.mem_flatMap.mp h
  exact (escapeByte_spec byte).2.1 hmem

theorem pathPercentEncode_ne_nil {value : Bytes} (h : value ≠ []) : pathPercentEncode value ≠ [] := by
  cases value with
  | nil => exact absurd rfl h
  | cons byte value => exact fun hnil => (escapeByte_spec byte).1 (List.append_eq_nil_iff.mp hnil).1

/-- A text without escapes stays as it is. -/
theorem decodeStrict_of_not_mem {text : Bytes} (h : percent ∉ text) : decodeStrict text = .ok text := by
  induction text with
  | nil => rfl
  | cons b text ih =>
    have hb : b ≠ percent := fun hb => h (hb ▸ List.mem_cons_self)
    rw [decodeStrict_cons hb, ih fun hmem => h (List.mem_cons_of_mem b hmem)]
    rfl

/-! ## Texts -/

theorem fromUTF8?_utf8 (s : String) : String.fromUTF8? ⟨(utf8 s).toArray⟩ = some s := by
  unfold String.fromUTF8? utf8
  simp [s.isValidUTF8]
  rfl

/-- The part is what a handler reads of the segment. -/
structure Carries (segment : Bytes) (part : String) : Prop where
  ne_nil : segment ≠ []
  slash : slash ∉ segment
  decoded : decodeStrict segment = .ok (utf8 part)

namespace Carries

theorem decodedText {segment : Bytes} {part : String} (h : Carries segment part) : decodedText segment = some part := by
  have hdecode := percentDecode_append h.decoded []
  rw [List.append_nil, show percentDecode [] = [] from rfl, List.append_nil] at hdecode
  rw [Ishikari.decodedText, hdecode, fromUTF8?_utf8]

theorem firstSegment {segment : Bytes} {part : String} (h : Carries segment part) {rest : Bytes} (hrest : AtBoundary rest) :
    firstSegment (segment ++ rest) = segment := by
  rw [firstSegment_append hrest, Ishikari.firstSegment, List.takeWhile_eq_self_iff]
  intro b hb
  have hne : b ≠ Ishikari.slash := fun h' => h.slash (h' ▸ hb)
  simpa using hne

end Carries

theorem utf8_ne_nil {s : String} (h : s ≠ "") : utf8 s ≠ [] := fun hnil => h (utf8_injective hnil)

variable {part : String}

/-- An escaped text is carried. -/
theorem carries_pathPercentEncode (h : part ≠ "") : Carries (pathPercentEncode (utf8 part)) part :=
  ⟨pathPercentEncode_ne_nil (utf8_ne_nil h), slash_not_mem_pathPercentEncode _, decodeStrict_pathPercentEncode _⟩

/-- A text that has nothing to escape is carried as it is. -/
theorem carries_utf8 (h : part ≠ "") (hslash : '/' ∉ part.toList) (hpercent : '%' ∉ part.toList) :
    Carries (utf8 part) part :=
  ⟨utf8_ne_nil h, fun hmem => hslash ((mem_utf8_iff (by decide)).mp hmem),
    decodeStrict_of_not_mem fun hmem => hpercent ((mem_utf8_iff (by decide)).mp hmem)⟩

theorem repr_ne_empty (n : Nat) : n.repr ≠ "" := by
  intro h
  have hlist : n.repr.toList = [] := by rw [h]; rfl
  rw [Nat.toList_repr] at hlist
  exact Nat.toDigits_ne_nil hlist

theorem carries_repr (n : Nat) : Carries (utf8 n.repr) n.repr :=
  carries_utf8 (repr_ne_empty n) (not_mem_repr (by decide)) (not_mem_repr (by decide))

/-! ## Routes -/

theorem captures_text (segment : String) (parts : RoutePattern) (rest : Bytes) :
    RoutePattern.captures (.text segment :: parts) (slash :: (utf8 segment ++ rest)) = RoutePattern.captures parts rest := by
  have hstrip : (slash :: utf8 segment).isPrefixOf? (slash :: (utf8 segment ++ rest)) = some rest :=
    List.isPrefixOf?_eq_some_iff_append_eq.mpr rfl
  simp only [RoutePattern.captures, hstrip, Option.bind_eq_bind, Option.bind_some]

/-- A segment that carries a part is captured whole. -/
theorem captures_parameter {segment : Bytes} (h : Carries segment part) (name : String) (parts : RoutePattern)
    {rest : Bytes} (hrest : AtBoundary rest) :
    RoutePattern.captures (.parameter name :: parts) (slash :: (segment ++ rest)) =
      (RoutePattern.captures parts rest).map fun raws => segment :: raws := by
  have hfirst := h.firstSegment hrest
  have hdrop : (segment ++ rest).dropWhile (fun b => b != slash) = rest := by
    have happend := List.takeWhile_append_dropWhile (p := fun b => b != slash) (l := segment ++ rest)
    rw [firstSegment] at hfirst
    rw [hfirst] at happend
    exact List.append_cancel_left happend
  simp only [RoutePattern.captures, hfirst, hdrop, h.ne_nil, ne_eq, not_false_eq_true, and_self, if_true]

/-! ## Lemmas on provider paths -/

open Provider (HttpError)

/-! ## Segments -/

theorem joinSegments_cons (segment : Bytes) (segments : List Bytes) :
    joinSegments (segment :: segments) = slash :: (segment ++ joinSegments segments) := rfl

theorem joinSegments_append (left right : List Bytes) : joinSegments (left ++ right) = joinSegments left ++ joinSegments right :=
  List.flatMap_append

theorem slash_intercalate {segments : List Bytes} (h : segments ≠ []) :
    slash :: [slash].intercalate segments = joinSegments segments := by
  induction segments with
  | nil => exact absurd rfl h
  | cons segment segments ih =>
    cases segments with
    | nil => simp [joinSegments]
    | cons next segments =>
      rw [joinSegments_cons, ← ih (List.cons_ne_nil _ _), List.intercalate_cons_cons]
      simp

/-- Where no segment is a dot segment, all are kept. -/
theorem keptSegments_eq_append {segments : List Bytes} (h : ∀ segment ∈ segments, isSingleDot segment = false ∧
    isDoubleDot segment = false)
    (kept : List Bytes) : keptSegments kept segments = kept ++ segments := by
  induction segments generalizing kept with
  | nil => simp [keptSegments]
  | cons segment segments ih =>
    obtain ⟨hsingle, hdouble⟩ := h segment List.mem_cons_self
    cases segments with
    | nil => simp [keptSegments, hsingle, hdouble]
    | cons next segments =>
      rw [keptSegments, ih fun s hs => h s (List.mem_cons_of_mem _ hs)]
      · simp [hsingle, hdouble]
      · exact fun hnil => by cases hnil

theorem decodeStrict_dots : ∀ first ∈ dots, decodeStrict first = .ok (utf8 ".") ∧
    ∀ second ∈ dots, decodeStrict (first ++ second) = .ok (utf8 "..") := by
  decide +kernel

/-- A dot segment among the escaped ones is made of dots. -/
theorem isSingleDot_pathPercentEncode (value : Bytes) : isSingleDot (pathPercentEncode value) = true ↔ value = utf8 "." := by
  constructor
  · intro h
    have hmem : pathPercentEncode value ∈ dots := List.contains_iff_mem.mp h
    have hdecode := (decodeStrict_dots _ hmem).1
    rw [decodeStrict_pathPercentEncode] at hdecode
    exact Except.ok.inj hdecode
  · rintro rfl
    decide

theorem isDoubleDot_pathPercentEncode (value : Bytes) : isDoubleDot (pathPercentEncode value) = true ↔ value = utf8 ".." := by
  constructor
  · intro h
    obtain ⟨first, hfirst, h⟩ := List.any_eq_true.mp h
    obtain ⟨second, hsecond, h⟩ := List.any_eq_true.mp h
    have hdecode := (decodeStrict_dots _ hfirst).2 _ hsecond
    rw [← beq_iff_eq.mp h, decodeStrict_pathPercentEncode] at hdecode
    exact Except.ok.inj hdecode
  · rintro rfl
    decide

theorem escapeByte_plain : ∀ byte : UInt8, (escapeByte byte).all isPlainByte = true := forall_byte (by decide +kernel)

theorem plain_pathPercentEncode (value : Bytes) : (pathPercentEncode value).all isPlainByte = true := by
  rw [List.all_eq_true]
  intro b hb
  obtain ⟨byte, -, hmem⟩ := List.mem_flatMap.mp hb
  exact List.all_eq_true.mp (escapeByte_plain byte) b hmem

/-! ## Decoding -/

theorem decodeStrict_append {text decoded : Bytes} (h : decodeStrict text = .ok decoded) (rest : Bytes) :
    decodeStrict (text ++ rest) = (decodeStrict rest).map fun tail => decoded ++ tail := by
  fun_induction decodeStrict text generalizing decoded with
  | case1 =>
    cases h
    cases hrest : decodeStrict rest <;> rw [List.nil_append, hrest] <;> rfl
  | case2 b text hb ih =>
    obtain ⟨tail, htext, rfl⟩ := Except.map_eq_ok_iff.mp h
    rw [List.cons_append, decodeStrict_cons hb, ih htext]
    cases decodeStrict rest <;> rfl
  | case3 b hb digit digit' text high low hlow hhigh ih =>
    obtain ⟨tail, htext, rfl⟩ := Except.map_eq_ok_iff.mp h
    simp only [List.cons_append, decodeStrict, if_neg hb, hhigh, hlow, ih htext]
    cases decodeStrict rest <;> rfl
  | case4 => cases h
  | case5 => cases h

/-- Segments that were escaped one by one decode to the path that they make. -/
theorem decodeStrict_joinSegments (segments : List Bytes) :
    decodeStrict (joinSegments (segments.map pathPercentEncode)) = .ok (joinSegments segments) := by
  induction segments with
  | nil => rfl
  | cons segment segments ih =>
    rw [List.map_cons, joinSegments_cons, joinSegments_cons, decodeStrict_cons (by decide),
      decodeStrict_append (decodeStrict_pathPercentEncode segment), ih]
    rfl

theorem splitSlash_ne_nil (text : Bytes) : splitSlash text ≠ [] := List.splitOn_ne_nil _ _

/-- A path with these segments is that of the text. -/
theorem joinSegments_splitSlash (text : Bytes) : joinSegments (splitSlash text) = slash :: text := by
  rw [← slash_intercalate (splitSlash_ne_nil text), splitSlash, List.intercalate_splitOn]

theorem slash_pathPercentEncodeSegments (text : Bytes) :
    slash :: pathPercentEncodeSegments text = joinSegments ((splitSlash text).map pathPercentEncode) :=
  slash_intercalate fun h => splitSlash_ne_nil text (List.map_eq_nil_iff.mp h)

theorem decodeStrict_pathPercentEncodeSegments (text : Bytes) : decodeStrict (pathPercentEncodeSegments text) = .ok text := by
  have h := decodeStrict_joinSegments (splitSlash text)
  rw [← slash_pathPercentEncodeSegments, joinSegments_splitSlash, decodeStrict_cons (by decide)] at h
  obtain ⟨decoded, hdecoded, heq⟩ := Except.map_eq_ok_iff.mp h
  rw [hdecoded, (List.cons.inj heq).2]

theorem decodedText_eq_some {raw : Bytes} {text : String} (h : decodeStrict raw = .ok (utf8 text)) :
    decodedText raw = some text := by
  have hdecode := percentDecode_append h []
  rw [List.append_nil, show percentDecode [] = [] from rfl, List.append_nil] at hdecode
  rw [decodedText, hdecode, fromUTF8?_utf8]

/-! ## Names of styles -/

/-- The path of a style or of a sprite: a key, and what is asked of it. -/
def stylePath (styleKey tail : String) : Bytes :=
  utf8 "/_internal/provider/styles/" ++ pathPercentEncodeSegments (utf8 styleKey) ++ utf8 "/" ++ utf8 tail

theorem stylePath_eq (styleKey tail : String) :
    stylePath styleKey tail = slash :: (utf8 "_internal" ++ slash :: (utf8 "provider" ++ slash :: (utf8 "styles" ++
      slash :: (pathPercentEncodeSegments (utf8 styleKey) ++ slash :: utf8 tail)))) := by
  have hlead : utf8 "/_internal/provider/styles/" =
    slash :: (utf8 "_internal" ++ slash :: (utf8 "provider" ++ slash :: (utf8 "styles" ++ [slash]))) := by decide
  have hslash : utf8 "/" = [slash] := by decide
  rw [stylePath, hlead, hslash]
  simp

theorem stylePath_eq_join (styleKey tail : String) :
    stylePath styleKey tail =
      joinSegments ([utf8 "_internal", utf8 "provider", utf8 "styles"] ++ (splitSlash (utf8 styleKey)).map pathPercentEncode ++
        [utf8 tail]) := by
  rw [stylePath_eq, joinSegments_append, joinSegments_append, ← slash_pathPercentEncodeSegments]
  simp [joinSegments]

/-- What the owner's handler is given of the path. -/
theorem parameters_stylePath {styleKey tail : String} (htail : '%' ∉ tail.toList) :
    stylesRoute.parameters (stylePath styleKey tail) = some [styleKey ++ "/" ++ tail] := by
  have hpercent : percent ∉ slash :: utf8 tail := by
    rw [List.mem_cons, not_or]
    exact ⟨by decide, fun hmem => htail ((mem_utf8_iff (by decide)).mp hmem)⟩
  have hdecode : decodeStrict (pathPercentEncodeSegments (utf8 styleKey) ++ slash :: utf8 tail) = .ok
    (utf8 (styleKey ++ "/" ++ tail)) := by
    rw [decodeStrict_append (decodeStrict_pathPercentEncodeSegments _), decodeStrict_of_not_mem hpercent, utf8_append,
      utf8_append]
    exact congrArg Except.ok (by rw [List.append_assoc]; rfl)
  have hne : pathPercentEncodeSegments (utf8 styleKey) ++ slash :: utf8 tail ≠ [] := by simp
  rw [RoutePattern.parameters, stylePath_eq, stylesRoute, captures_text, captures_text, captures_text]
  simp [RoutePattern.captures, hne, decodedText_eq_some hdecode]

variable {styleKey : String}

/-- The segments of a style's key. -/
theorem segment_of_checkStyleKey (h : checkStyleKey styleKey = .ok ()) :
    ∀ segment ∈ splitSlash (utf8 styleKey), segment ≠ [] ∧ segment ≠ utf8 "." ∧ segment ≠ utf8 ".." := by
  have hvalid : validateStyleKey (utf8 styleKey) = .ok () := by
    unfold checkStyleKey at h
    split at h
    · cases h
    · assumption
  unfold validateStyleKey at hvalid
  split at hvalid
  · cases hvalid
  intro segment hsegment
  have hchecked := Except.forM_eq_ok_iff.mp hvalid segment hsegment
  rw [← not_or, ← not_or]
  intro hcases
  have hrefused : segment.isEmpty = true ∨ segment = utf8 "." ∨ segment = utf8 ".." := by simpa using hcases
  simp only [hrefused, if_true] at hchecked
  cases hchecked

/-- The path of a valid key stays as it is in a URL. -/
theorem path_stylePath (url : UrlParser) {styleKey tail : String} (hkey : checkStyleKey styleKey = .ok ())
    (htail : (utf8 tail).all isPlainByte = true ∧ isSingleDot (utf8 tail) = false ∧ isDoubleDot (utf8 tail) = false) :
    url.path (stylePath styleKey tail) = stylePath styleKey tail := by
  have hsegments : ∀ segment ∈ [utf8 "_internal", utf8 "provider", utf8 "styles"] ++ (splitSlash (utf8 styleKey)).map
    pathPercentEncode ++
      [utf8 tail], segment.all isPlainByte = true ∧ isSingleDot segment = false ∧ isDoubleDot segment = false := by
    intro segment hsegment
    rcases List.mem_append.mp hsegment with hsegment | hsegment
    · rcases List.mem_append.mp hsegment with hsegment | hsegment
      · have hlead : ∀ segment ∈ [utf8 "_internal", utf8 "provider", utf8 "styles"],
            segment.all isPlainByte = true ∧ isSingleDot segment = false ∧ isDoubleDot segment = false := by decide
        exact hlead segment hsegment
      · obtain ⟨part, hpart, rfl⟩ := List.mem_map.mp hsegment
        obtain ⟨-, hsingle, hdouble⟩ := segment_of_checkStyleKey hkey part hpart
        refine ⟨plain_pathPercentEncode part, ?_, ?_⟩
        · exact Bool.eq_false_iff.mpr fun hdot => hsingle ((isSingleDot_pathPercentEncode part).mp hdot)
        · exact Bool.eq_false_iff.mpr fun hdot => hdouble ((isDoubleDot_pathPercentEncode part).mp hdot)
    · rw [List.mem_singleton.mp hsegment]
      exact htail
  rw [stylePath_eq_join, url.path_joinSegments _ (by simp) fun segment h => (hsegments segment h).1,
    keptSegments_eq_append (fun segment h => (hsegments segment h).2), List.nil_append]

theorem stripEnd_append (tail text : List Char) : stripEnd tail (text ++ tail) = some text := by
  have hsuffix : tail.isSuffixOf (text ++ tail) = true := List.isSuffixOf_iff_suffix.mpr (List.suffix_append text tail)
  rw [stripEnd, if_pos hsuffix]
  simp

/-- A text that ends otherwise. -/
theorem stripEnd_eq_none {tail ending : List Char} (h : ¬tail <:+ ending) (h' : ¬ending <:+ tail) (text : List Char) :
    stripEnd tail (text ++ ending) = none := by
  refine if_neg fun hsuffix => ?_
  rcases List.suffix_or_suffix_of_suffix (List.isSuffixOf_iff_suffix.mp hsuffix) (List.suffix_append text ending) with hs | hs
  · exact h hs
  · exact h' hs

theorem internalStyleResource_style (hkey : checkStyleKey styleKey = .ok ()) :
    internalStyleResource (styleKey ++ "/" ++ "style.json") = .ok (.style styleKey) := by
  have hlist : (styleKey ++ "/" ++ "style.json").toList = styleKey.toList ++ "/style.json".toList := by
    simp [String.toList_append]
  rw [internalStyleResource, hlist, stripEnd_append]
  simp [hkey]
  rfl

/-- What only one element of a list gives. -/
theorem findSome?_eq_of_only {α β : Type} {f : α → Option β} {l : List α} {a : α} {b : β} (ha : a ∈ l) (hf : f a = some b)
    (hother : ∀ x ∈ l, x ≠ a → f x = none) : l.findSome? f = some b := by
  induction l with
  | nil => exact absurd ha List.not_mem_nil
  | cons x l ih =>
    by_cases hx : x = a
    · rw [List.findSome?_cons, hx, hf]
    · have hmem : a ∈ l := (List.mem_cons.mp ha).resolve_left (Ne.symm hx)
      rw [List.findSome?_cons, hother x List.mem_cons_self hx]
      exact ih hmem fun y hy => hother y (List.mem_cons_of_mem x hy)

/-- How the path of a sprite ends. -/
def spriteTail (variant : ProviderSpriteVariant) : String := "sprite" ++ variant.suffix

theorem parseSpritePath_eq (hne : styleKey ≠ "") (variant : ProviderSpriteVariant) :
    parseSpritePath (styleKey ++ "/" ++ spriteTail variant) = some (styleKey, variant) := by
  have hlist : (styleKey ++ "/" ++ spriteTail variant).toList = styleKey.toList ++ ("/" ++ spriteTail variant).toList := by
    simp [String.toList_append]
  have hkey : styleKey.toList.isEmpty = false := by
    rw [List.isEmpty_eq_false_iff]
    exact fun hnil => hne (String.toList_eq_nil_iff.mp hnil)
  have hdistinct : ∀ first ∈ [("/sprite@2x.json", ProviderSpriteVariant.json2x), ("/sprite@2x.png", .png2x),
    ("/sprite.json", .json),
      ("/sprite.png", .png)], first ≠ ("/" ++ spriteTail variant, variant) →
        ¬first.1.toList <:+ ("/" ++ spriteTail variant).toList ∧ ¬("/" ++ spriteTail variant).toList <:+ first.1.toList := by
    cases variant <;> decide
  rw [parseSpritePath]
  refine findSome?_eq_of_only (a := ("/" ++ spriteTail variant, variant)) (by cases variant <;> decide) ?_
    fun first hfirst hother => ?_
  · simp only [hlist, stripEnd_append, Option.filter_some, hkey, Bool.not_false, if_true, Option.map_some, String.ofList_toList]
  · obtain ⟨h, h'⟩ := hdistinct first hfirst hother
    simp only [hlist, stripEnd_eq_none h h', Option.filter_none, Option.map_none]

theorem internalStyleResource_sprite (hkey : checkStyleKey styleKey = .ok ()) (variant : ProviderSpriteVariant) :
    internalStyleResource (styleKey ++ "/" ++ spriteTail variant) = .ok (.sprite styleKey variant) := by
  have hlist : (styleKey ++ "/" ++ spriteTail variant).toList = styleKey.toList ++ ("/" ++ spriteTail variant).toList := by
    simp [String.toList_append]
  have hne : styleKey ≠ "" := by
    rintro rfl
    cases hkey
  have hstyle : stripEnd "/style.json".toList (styleKey ++ "/" ++ spriteTail variant).toList = none := by
    rw [hlist]
    cases variant <;> exact stripEnd_eq_none (by decide) (by decide) _
  rw [internalStyleResource, hstyle, parseSpritePath_eq hne]
  simp only [hkey]
  rfl

/-! ## Names of glyphs -/

variable {raw range : String}

/-- What a range that was checked is. -/
theorem of_validateRange (h : validateRange raw = .ok range) :
    ∃ start, start % 256 = 0 ∧ start + 255 < 2 ^ 32 ∧ range = start.repr ++ "-" ++ (start + 255).repr := by
  unfold validateRange at h
  extract_lets invalid at h
  split at h
  · cases h
  · split at h
    · rename_i start stop hstart hstop
      by_cases hlt : start + 255 < 2 ^ 32
      · rw [if_pos hlt] at h
        by_cases hrange : start % 256 ≠ 0 ∨ some (start + 255) ≠ some stop
        · rw [if_pos hrange] at h
          cases h
        · rw [if_neg hrange] at h
          rw [not_or, not_not, not_not] at hrange
          obtain ⟨haligned, hstop⟩ := hrange
          cases hstop
          exact ⟨start, haligned, hlt, (Except.ok.inj h).symm⟩
      · rw [if_neg hlt, if_pos (Or.inr (Option.some_ne_none stop).symm)] at h
        cases h
    · cases h

/-- A range is read again as it is. -/
theorem validateRange_range (h : validateRange raw = .ok range) : validateRange (range ++ ".pbf") = .ok range := by
  obtain ⟨start, haligned, hlt, rfl⟩ := of_validateRange h
  have hlist : (start.repr ++ "-" ++ (start + 255).repr ++ ".pbf").toList =
      (start.repr.toList ++ '-' :: (start + 255).repr.toList) ++ ".pbf".toList := by
    simp [String.toList_append]
  have hdash : '-' ∉ start.repr.toList := not_mem_repr (by decide)
  rw [validateRange, hlist, stripEnd_append]
  simp only [Option.getD_some, splitOnce_append hdash, parseUnsigned_repr hlt, parseUnsigned_repr (show start < 2 ^ 32 by omega),
    haligned, hlt, if_true, ne_eq, not_true_eq_false, or_self, if_false]

variable {c : Char}

/-- The characters of a range. -/
theorem not_mem_range (h : validateRange raw = .ok range) (hdigit : c.isDigit = false) (hdash : c ≠ '-')
    (hpbf : c ∉ ".pbf".toList) : c ∉ (range ++ ".pbf").toList := by
  obtain ⟨start, -, -, rfl⟩ := of_validateRange h
  have hlist : (start.repr ++ "-" ++ (start + 255).repr ++ ".pbf").toList =
      start.repr.toList ++ '-' :: ((start + 255).repr.toList ++ ".pbf".toList) := by
    simp [String.toList_append]
  rw [hlist, List.mem_append, List.mem_cons, List.mem_append]
  rintro (hc | rfl | hc | hc)
  · exact not_mem_repr hdigit hc
  · exact hdash rfl
  · exact not_mem_repr hdigit hc
  · exact hpbf hc

theorem isPathByte_of_isDigit (h : c.isDigit = true) : isPathByte (UInt8.ofNat c.toNat) = true := by
  have hdigit : 48 ≤ c.toNat ∧ c.toNat ≤ 57 := by simpa [Char.isDigit, UInt32.le_iff_toNat_le] using h
  have hbyte : (UInt8.ofNat c.toNat).toNat = c.toNat := toNat_ofNat_of_lt (by omega)
  have hle : 48 ≤ UInt8.ofNat c.toNat ∧ UInt8.ofNat c.toNat ≤ 57 := by
    rw [UInt8.le_iff_toNat_le, UInt8.le_iff_toNat_le, hbyte]
    exact hdigit
  simp [isPathByte, hle]

/-- Nothing of a range is escaped. -/
theorem pathPercentEncode_range (h : validateRange raw = .ok range) :
    pathPercentEncode (utf8 (range ++ ".pbf")) = utf8 (range ++ ".pbf") := by
  obtain ⟨start, -, -, rfl⟩ := of_validateRange h
  have hdigits : ∀ n : Nat, pathPercentEncode (utf8 n.repr) = utf8 n.repr := by
    intro n
    have hbytes : utf8 n.repr = n.repr.toList.map fun c => UInt8.ofNat c.toNat := by
      rw [← utf8_of_visible, String.ofList_toList]
      intro c hc
      have hdigit := isDigit_of_mem_repr hc
      have hle : 48 ≤ c.toNat ∧ c.toNat ≤ 57 := by simpa [Char.isDigit, UInt32.le_iff_toNat_le] using hdigit
      omega
    rw [hbytes, pathPercentEncode, List.flatMap_map]
    conv => rhs; rw [← List.flatMap_singleton' (n.repr.toList.map fun c => UInt8.ofNat c.toNat), List.flatMap_map]
    refine List.flatMap_congr fun c hc => ?_
    rw [escapeByte, if_pos (isPathByte_of_isDigit (isDigit_of_mem_repr hc))]
  have happend : ∀ left right : Bytes, pathPercentEncode (left ++ right) = pathPercentEncode left ++ pathPercentEncode right :=
    fun left right => List.flatMap_append
  rw [utf8_append, utf8_append, utf8_append, happend, happend, happend, hdigits, hdigits]
  rfl

theorem glyphPath_eq_join (fontstack range : String) :
    (ResourceName.glyph fontstack range).internalPath = joinSegments
      [utf8 "_internal", utf8 "provider", utf8 "fonts", pathPercentEncode (utf8 fontstack), utf8 (range ++ ".pbf")] := by
  have hlead : utf8 "/_internal/provider/fonts/" =
    slash :: (utf8 "_internal" ++ slash :: (utf8 "provider" ++ slash :: (utf8 "fonts" ++ [slash]))) := by decide
  have hslash : utf8 "/" = [slash] := by decide
  rw [ResourceName.internalPath, hlead, hslash, utf8_append]
  simp [joinSegments]

theorem carries_range (h : validateRange raw = .ok range) : Carries (utf8 (range ++ ".pbf")) (range ++ ".pbf") :=
  carries_utf8 (fun hnil => by simp [String.append_eq_empty_iff] at hnil) (not_mem_range h (by decide) (by decide) (by decide))
    (not_mem_range h (by decide) (by decide) (by decide))

/-- The segments of a glyph's path, all but that of the fontstack. -/
theorem glyph_segments (h : validateRange raw = .ok range) :
    ∀ segment ∈ [utf8 "_internal", utf8 "provider", utf8 "fonts", utf8 (range ++ ".pbf")],
      segment.all isPlainByte = true ∧ isSingleDot segment = false ∧ isDoubleDot segment = false := by
  have hlead : ∀ segment ∈ [utf8 "_internal", utf8 "provider", utf8 "fonts"],
      segment.all isPlainByte = true ∧ isSingleDot segment = false ∧ isDoubleDot segment = false := by decide
  have hne : ∀ dots : String, 'p' ∉ dots.toList → utf8 (range ++ ".pbf") ≠ utf8 dots := by
    intro dots hdots heq
    refine hdots ?_
    rw [← utf8_injective heq, String.toList_append]
    exact List.mem_append_right _ (by decide)
  intro segment hsegment
  rcases List.mem_append.mp (show segment ∈ [utf8 "_internal", utf8 "provider", utf8 "fonts"] ++
    [utf8 (range ++ ".pbf")] from hsegment)
    with hsegment | hsegment
  · exact hlead segment hsegment
  · rw [List.mem_singleton.mp hsegment]
    have hencode := pathPercentEncode_range h
    refine ⟨hencode ▸ plain_pathPercentEncode _, ?_, ?_⟩
    · rw [← hencode]
      exact Bool.eq_false_iff.mpr fun hdot => hne "." (by decide) ((isSingleDot_pathPercentEncode _).mp hdot)
    · rw [← hencode]
      exact Bool.eq_false_iff.mpr fun hdot => hne ".." (by decide) ((isDoubleDot_pathPercentEncode _).mp hdot)

/-- A segment of a glyph's path is that of the fontstack, or one of the others. -/
theorem glyph_segment_cases {fontstack range : String} {segment : Bytes}
    (h : segment ∈ [utf8 "_internal", utf8 "provider", utf8 "fonts", pathPercentEncode (utf8 fontstack),
      utf8 (range ++ ".pbf")]) :
    segment = pathPercentEncode (utf8 fontstack) ∨ segment ∈
      [utf8 "_internal", utf8 "provider", utf8 "fonts", utf8 (range ++ ".pbf")] := by
  simp only [List.mem_cons, List.not_mem_nil, or_false] at h ⊢
  tauto

theorem glyph_plain (fontstack : String) (h : validateRange raw = .ok range) :
    ∀ segment ∈ [utf8 "_internal", utf8 "provider", utf8 "fonts", pathPercentEncode (utf8 fontstack), utf8 (range ++ ".pbf")],
      segment.all isPlainByte = true := by
  intro segment hsegment
  rcases glyph_segment_cases hsegment with rfl | hsegment
  · exact plain_pathPercentEncode _
  · exact (glyph_segments h segment hsegment).1

/-- A fontstack that is a dot segment. -/
def ResourceName.IsDots : ResourceName → Prop
  | .glyph fontstack _ => fontstack = "." ∨ fontstack = ".."
  | .style _ => False
  | .sprite _ _ => False

theorem path_glyph (url : UrlParser) {fontstack raw range : String} (h : validateRange raw = .ok range)
    (hdots : fontstack ≠ "." ∧ fontstack ≠ "..") :
    url.path (ResourceName.glyph fontstack range).internalPath = (ResourceName.glyph fontstack range).internalPath := by
  have hkept : ∀ segment ∈ [utf8 "_internal", utf8 "provider", utf8 "fonts", pathPercentEncode (utf8 fontstack),
      utf8 (range ++ ".pbf")], isSingleDot segment = false ∧ isDoubleDot segment = false := by
    intro segment hsegment
    rcases glyph_segment_cases hsegment with rfl | hsegment
    · refine ⟨Bool.eq_false_iff.mpr fun hdot => ?_, Bool.eq_false_iff.mpr fun hdot => ?_⟩
      · exact hdots.1 (utf8_injective ((isSingleDot_pathPercentEncode _).mp hdot))
      · exact hdots.2 (utf8_injective ((isDoubleDot_pathPercentEncode _).mp hdot))
    · exact (glyph_segments h segment hsegment).2
  rw [glyphPath_eq_join, url.path_joinSegments _ (by simp) (glyph_plain fontstack h), keptSegments_eq_append hkept,
    List.nil_append]

/-- What the owner's handler is given of a glyph's path. -/
theorem parameters_glyph {fontstack raw range : String} (hne : fontstack ≠ "") (h : validateRange raw = .ok range) :
    stylesRoute.parameters (ResourceName.glyph fontstack range).internalPath = none ∧
      fontsRoute.parameters (ResourceName.glyph fontstack range).internalPath = some [fontstack, range ++ ".pbf"] := by
  have hfontstack := carries_pathPercentEncode hne
  have hrange := carries_range h
  have hpath : (ResourceName.glyph fontstack range).internalPath = slash :: (utf8 "_internal" ++ slash :: (utf8 "provider" ++
      slash :: (utf8 "fonts" ++ slash :: (pathPercentEncode (utf8 fontstack) ++ slash :: (utf8 (range ++ ".pbf") ++ []))))) := by
    rw [glyphPath_eq_join]
    simp [joinSegments]
  refine ⟨?_, ?_⟩
  · rw [RoutePattern.parameters, hpath, stylesRoute, captures_text, captures_text]
    rfl
  · rw [RoutePattern.parameters, hpath, fontsRoute, captures_text, captures_text, captures_text,
      captures_parameter hfontstack _ _ (Or.inr ⟨_, rfl⟩), captures_parameter hrange _ _ (Or.inl rfl)]
    simp [RoutePattern.captures, hfontstack.decodedText, hrange.decodedText]

theorem validateFontstack_ne_empty {fontstack : String} (h : validateFontstack fontstack = .ok ()) : fontstack ≠ "" := by
  rintro rfl
  cases h

/-- The owner's handler reads what the path was made of, where no dot segment is in it. -/
theorem internalResource_internalPath (url : UrlParser) {resource : ResourceName} (hvalid : resource.Validated)
    (hdots : ¬resource.IsDots) :
    internalResource (url.path resource.internalPath) = some (.ok resource) := by
  cases resource with
  | style styleKey =>
    have hpath : (ResourceName.style styleKey).internalPath = stylePath styleKey "style.json" := by
      have htail : utf8 "/style.json" = utf8 "/" ++ utf8 "style.json" := by decide
      rw [ResourceName.internalPath, htail, stylePath]
      simp
    rw [hpath, path_stylePath url hvalid (by decide), internalResource, parameters_stylePath (by decide)]
    simp only [internalStyleResource_style hvalid]
  | glyph fontstack range =>
    obtain ⟨hfontstack, raw, hrange⟩ := hvalid
    obtain ⟨hstyles, hfonts⟩ := parameters_glyph (validateFontstack_ne_empty hfontstack) hrange
    rw [path_glyph url hrange (not_or.mp hdots), internalResource, hstyles, hfonts]
    simp only [internalGlyphResource, hfontstack, validateRange_range hrange]
    rfl
  | sprite styleKey variant =>
    have hpath : (ResourceName.sprite styleKey variant).internalPath = stylePath styleKey (spriteTail variant) := by
      have htail : utf8 "/sprite" = utf8 "/" ++ utf8 "sprite" := by decide
      rw [ResourceName.internalPath, htail, stylePath, spriteTail, utf8_append]
      simp
    rw [hpath, path_stylePath url hvalid (by cases variant <;> decide), internalResource,
      parameters_stylePath (by cases variant <;> decide)]
    simp only [internalStyleResource_sprite hvalid]

/-- A text without the letter is no path below one with it. -/
theorem captures_eq_none_of_not_mem {segment part : String} (hc : c.toNat < 128) (hsegment : c ∈ segment.toList)
    (hpart : c ∉ part.toList) (parts : RoutePattern) :
    RoutePattern.captures (.text segment :: parts) (slash :: (utf8 part ++ [])) = none := by
  have hnone : (slash :: utf8 segment).isPrefixOf? (slash :: (utf8 part ++ [])) = none := by
    rw [Option.eq_none_iff_forall_ne_some]
    intro rest hrest
    rw [List.isPrefixOf?_eq_some_iff_append_eq, List.append_nil] at hrest
    have hmem : UInt8.ofNat c.toNat ∈ utf8 part := by
      rw [← (List.cons.inj hrest).2]
      exact List.mem_append_left _ ((mem_utf8_iff hc).mpr hsegment)
    exact hpart ((mem_utf8_iff hc).mp hmem)
  simp only [RoutePattern.captures, hnone, Option.bind_eq_bind, Option.bind_none]

/-- No route takes a path that has a range where its fontstack would be. -/
theorem internalResource_fontless (h : validateRange raw = .ok range) :
    internalResource (joinSegments [utf8 "_internal", utf8 "provider", utf8 "fonts", utf8 (range ++ ".pbf")]) = none := by
  have hpath : joinSegments [utf8 "_internal", utf8 "provider", utf8 "fonts", utf8 (range ++ ".pbf")] =
      slash :: (utf8 "_internal" ++ slash :: (utf8 "provider" ++ slash ::
        (utf8 "fonts" ++ slash :: (utf8 (range ++ ".pbf") ++ [])))) := by
    simp [joinSegments]
  have hstyles : stylesRoute.parameters (joinSegments [utf8 "_internal", utf8 "provider", utf8 "fonts", utf8 (range ++ ".pbf")]) =
    none := by
    rw [RoutePattern.parameters, hpath, stylesRoute, captures_text, captures_text]
    rfl
  have hfonts : fontsRoute.parameters (joinSegments [utf8 "_internal", utf8 "provider", utf8 "fonts", utf8 (range ++ ".pbf")]) =
    none := by
    rw [RoutePattern.parameters, hpath, fontsRoute, captures_text, captures_text, captures_text,
      captures_parameter (carries_range h) _ _ (Or.inl rfl)]
    rfl
  rw [internalResource, hstyles, hfonts]

/-- The letter is in `styles` and in `fonts`, and not in a range. -/
theorem internalResource_kindless (h : validateRange raw = .ok range) :
    internalResource (joinSegments [utf8 "_internal", utf8 "provider", utf8 (range ++ ".pbf")]) = none := by
  have hpath : joinSegments [utf8 "_internal", utf8 "provider", utf8 (range ++ ".pbf")] =
      slash :: (utf8 "_internal" ++ slash :: (utf8 "provider" ++ slash :: (utf8 (range ++ ".pbf") ++ []))) := by
    simp [joinSegments]
  have hnone : ∀ segment : String, 's' ∈ segment.toList → ∀ parts,
    RoutePattern.parameters (.text "_internal" :: .text "provider" ::
      .text segment :: parts) (joinSegments [utf8 "_internal", utf8 "provider", utf8 (range ++ ".pbf")]) = none := by
    intro segment hsegment parts
    rw [RoutePattern.parameters, hpath, captures_text, captures_text,
      captures_eq_none_of_not_mem (by decide) hsegment (not_mem_range h (by decide) (by decide) (by decide))]
    rfl
  rw [internalResource, stylesRoute, fontsRoute, hnone "styles" (by decide), hnone "fonts" (by decide)]

/-- With a dot segment in it, the path becomes one that no route takes. -/
theorem internalResource_dots (url : UrlParser) {resource : ResourceName} (hvalid : resource.Validated)
    (hdots : resource.IsDots) :
    internalResource (url.path resource.internalPath) = none := by
  cases resource with
  | style styleKey => exact hdots.elim
  | sprite styleKey variant => exact hdots.elim
  | glyph fontstack range =>
    obtain ⟨-, raw, hrange⟩ := hvalid
    have hlast := (glyph_segments hrange (utf8 (range ++ ".pbf")) (by simp)).2
    rw [glyphPath_eq_join, url.path_joinSegments _ (by simp) (glyph_plain fontstack hrange)]
    rcases hdots with rfl | rfl
    · have hkept : keptSegments [] [utf8 "_internal", utf8 "provider", utf8 "fonts", pathPercentEncode (utf8 "."),
        utf8 (range ++ ".pbf")] =
          keptSegments [utf8 "_internal", utf8 "provider", utf8 "fonts"] [utf8 (range ++ ".pbf")] := rfl
      rw [hkept, keptSegments, hlast.1, hlast.2]
      exact internalResource_fontless hrange
    · have hkept : keptSegments [] [utf8 "_internal", utf8 "provider", utf8 "fonts", pathPercentEncode (utf8 ".."),
        utf8 (range ++ ".pbf")] =
          keptSegments [utf8 "_internal", utf8 "provider"] [utf8 (range ++ ".pbf")] := rfl
      rw [hkept, keptSegments, hlast.1, hlast.2]
      exact internalResource_kindless hrange

end Biei.Ishikari
