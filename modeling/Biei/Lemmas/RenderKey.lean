import Biei.Lib.Framing
import Biei.RenderKey

/-! # What a key can be read back to -/

namespace Biei

/-! ## JSON strings -/

/-- The value of a lower-case hexadecimal digit. -/
def hexVal (c : Char) : Nat := if c.isDigit then c.toNat - 48 else c.toNat - 87

/-- The character of a two-character escape. -/
def shortEscape (c : Char) : Char :=
  if c = 'b' then Char.ofNat 0x08
  else if c = 't' then Char.ofNat 0x09
  else if c = 'n' then Char.ofNat 0x0a
  else if c = 'f' then Char.ofNat 0x0c
  else if c = 'r' then Char.ofNat 0x0d
  else c

/-- Reads one character of a JSON string. -/
def readChar : List Char → Option (Char × List Char)
  | [] => none
  | c :: r =>
    if c = '\\' then
      match r with
      | [] => none
      | e :: r =>
        if e = 'u' then
          match r with
          | _ :: _ :: hi :: lo :: r => some (Char.ofNat (16 * hexVal hi + hexVal lo), r)
          | _ => none
        else some (shortEscape e, r)
    else some (c, r)

theorem hexVal_digitChar : ∀ n < 32, 16 * hexVal (Nat.digitChar (n / 16)) + hexVal (Nat.digitChar (n % 16)) = n := by
  decide

theorem readChar_escapeChar (c : Char) (r : List Char) : readChar ((escapeChar c).toList ++ r) = some (c, r) := by
  have hof : ∀ n, c.toNat = n → c = Char.ofNat n := fun n hn => by rw [← hn, Char.ofNat_toNat]
  unfold escapeChar
  split_ifs with hquote hback hbs htab hnl hff hcr hctl
  · rw [hof _ hquote]
    rfl
  · rw [hof _ hback]
    rfl
  · rw [hof _ hbs]
    rfl
  · rw [hof _ htab]
    rfl
  · rw [hof _ hnl]
    rfl
  · rw [hof _ hff]
    rfl
  · rw [hof _ hcr]
    rfl
  · have hval := hexVal_digitChar c.toNat hctl
    simp [readChar, hval, Char.ofNat_toNat]
  · have hne : c ≠ '\\' := fun hc => hback (congrArg Char.toNat hc)
    simp [readChar, hne]

theorem escapeChar_cancels : ∀ c, Cancels (fun c => (escapeChar c).toList) (fun _ => True) c :=
    cancels_of_read readChar_escapeChar

/-- No escape begins with the quote that ends a string. -/
theorem escapeChar_ne_quote (c : Char) (r r' : List Char) : (escapeChar c).toList ++ r ≠ '"' :: r' := by
  intro heq
  have hread := (readChar_escapeChar c r).symm.trans (congrArg readChar heq)
  obtain ⟨rfl, -⟩ : c = '"' ∧ r = r' := by simpa [readChar] using hread
  exact absurd (List.head_eq_of_cons_eq heq) (by decide)

theorem toList_printString (s : String) : (printString s).toList = '"' ::
    (s.toList.flatMap (fun c => (escapeChar c).toList) ++ ['"']) := by
  simp [printString, List.flatMap_map]

theorem printString_cancels (s : String) : Cancels (fun s => (printString s).toList) (fun _ => True) s := by
  intro s' r r' _ _ heq
  simp only [toList_printString, List.cons_append, List.cons.injEq, true_and] at heq
  obtain ⟨hlist, hr⟩ := cancels_flatMap_close escapeChar_ne_quote (fun c _ => escapeChar_cancels c) s'.toList r r' trivial
    trivial heq
  exact ⟨String.toList_inj.mp hlist, hr⟩

/-! ## JSON documents -/

/-- What follows a document does not go on with a number. -/
def EndsNumber (r : List Char) : Prop := ∀ c ∈ r.head?, isNumberChar c = false

theorem Json.printItems_eq (items : List Json) : Json.printItems items = items.map Json.print := by
  induction items with
  | nil => rfl
  | cons j items ih => rw [Json.printItems, ih, List.map_cons]

theorem Json.printFields_eq (fields : List (String × Json)) :
    Json.printFields fields = fields.map fun field => printString field.1 ++ ":" ++ field.2.print := by
  induction fields with
  | nil => rfl
  | cons field fields ih => rw [Json.printFields, ih, List.map_cons]

/-- The text of a field of an object. -/
def fieldChars (field : String × Json) : List Char := (printString field.1).toList ++ ':' :: field.2.print.toList

theorem Json.toList_print_array (items : List Json) :
    (Json.array items).print.toList = '[' :: sepBy (fun j : Json => j.print.toList) ',' ']' items := by
  rw [Json.print, Json.printItems_eq, ← intercalate_append_close]
  simp [List.map_map, Function.comp_def]

theorem Json.toList_print_object (fields : List (String × Json)) :
    (Json.object fields).print.toList = '\x7b' :: sepBy fieldChars ',' '\x7d' fields := by
  have hfield : (fun field : String × Json => (printString field.1 ++ ":" ++ field.2.print).toList) = fieldChars := by
    funext field
    simp [fieldChars]
  rw [Json.print, Json.printFields_eq, ← intercalate_append_close, ← hfield]
  simp [List.map_map, Function.comp_def]

/-- Which kind of document begins with the character. -/
def kindOfHead (c : Char) : Nat :=
  if c = 'n' then 0
  else if c = 't' ∨ c = 'f' then 1
  else if c = '"' then 3
  else if c = '[' then 4
  else if c = '\x7b' then 5
  else if c.isDigit || c == '-' then 2
  else 6

def Json.kind : Json → Nat
  | .null => 0
  | .bool _ => 1
  | .number _ => 2
  | .string _ => 3
  | .array _ => 4
  | .object _ => 5

theorem kindOfHead_number {c : Char} (h : (c.isDigit || c == '-') = true) : kindOfHead c = 2 := by
  have hno : ∀ d : Char, (d.isDigit || d == '-') = false → c ≠ d := by
    rintro d hd rfl
    rw [h] at hd
    cases hd
  have htf : ¬(c = 't' ∨ c = 'f') := fun hor => hor.elim (hno _ (by decide)) (hno _ (by decide))
  unfold kindOfHead
  rw [if_neg (hno _ (by decide)), if_neg htf, if_neg (hno _ (by decide)), if_neg (hno _ (by decide)), if_neg (hno _ (by decide)),
    if_pos h]

/-- A document begins with a character of its kind. -/
theorem Json.print_head (j : Json) : ∃ c cs, j.print.toList = c :: cs ∧ kindOfHead c = j.kind := by
  cases j with
  | null => exact ⟨'n', _, rfl, rfl⟩
  | bool b =>
    cases b with
    | false => exact ⟨'f', _, rfl, rfl⟩
    | true => exact ⟨'t', _, rfl, rfl⟩
  | number n =>
    have hvalid := (Bool.and_eq_true_iff.mp n.valid).2
    rw [Json.print]
    cases hchars : n.text.toList with
    | nil => simp [hchars] at hvalid
    | cons c cs => exact ⟨c, cs, rfl, kindOfHead_number (by simpa [hchars] using hvalid)⟩
  | string s => exact ⟨'"', _, by rw [Json.print, toList_printString], rfl⟩
  | array items => exact ⟨'[', _, Json.toList_print_array items, rfl⟩
  | object fields => exact ⟨'\x7b', _, Json.toList_print_object fields, rfl⟩

theorem Json.kind_eq {j j' : Json} {r r' : List Char} (heq : j.print.toList ++ r = j'.print.toList ++ r') : j.kind = j'.kind := by
  obtain ⟨c, cs, hc, hkind⟩ := j.print_head
  obtain ⟨c', cs', hc', hkind'⟩ := j'.print_head
  rw [hc, hc'] at heq
  rw [← hkind, ← hkind', List.head_eq_of_cons_eq heq]

theorem Json.print_ne_close (j : Json) (r r' : List Char) : j.print.toList ++ r ≠ ']' :: r' := by
  obtain ⟨c, cs, hc, hkind⟩ := j.print_head
  rw [hc]
  intro heq
  rw [List.head_eq_of_cons_eq heq] at hkind
  cases j <;> cases hkind

theorem fieldChars_ne_close (field : String × Json) (r r' : List Char) : fieldChars field ++ r ≠ '\x7d' :: r' := by
  intro heq
  simp only [fieldChars, toList_printString, List.cons_append] at heq
  exact absurd (List.head_eq_of_cons_eq heq) (by decide)

theorem fieldChars_cancels {field : String × Json} (h : Cancels (fun j : Json => j.print.toList) EndsNumber field.2) :
    Cancels fieldChars EndsNumber field := by
  intro field' r r' hr hr' heq
  simp only [fieldChars, List.append_assoc] at heq
  obtain ⟨hkey, hrest⟩ := printString_cancels field.1 field'.1 _ _ trivial trivial heq
  obtain ⟨hvalue, hend⟩ := h field'.2 r r' hr hr' (List.tail_eq_of_cons_eq hrest)
  exact ⟨Prod.ext hkey hvalue, hend⟩

theorem EndsNumber.cons {c : Char} (h : isNumberChar c = false) (r : List Char) : EndsNumber (c :: r) := by
  intro d hd
  cases hd
  exact h

theorem Json.number_cancels (n : JsonNumber) : Cancels (fun j : Json => j.print.toList) EndsNumber (.number n) := by
  intro j' r r' hr hr' heq
  match j', Json.kind_eq heq with
  | .number n', _ =>
    have hall : ∀ n : JsonNumber, ∀ c ∈ n.text.toList, isNumberChar c = true :=
      fun n => List.all_eq_true.mp (Bool.and_eq_true_iff.mp n.valid).1
    obtain ⟨htext, hend⟩ := append_inj_of_all (hall n) (hall n') hr hr' (by simpa [Json.print] using heq)
    obtain ⟨text, hvalid⟩ := n
    obtain ⟨text', hvalid'⟩ := n'
    obtain rfl : text = text' := String.toList_inj.mp htext
    exact ⟨rfl, hend⟩

theorem Json.array_cancels {items : List Json} (h : ∀ item ∈ items, Cancels (fun j : Json => j.print.toList) EndsNumber item) :
    Cancels (fun j : Json => j.print.toList) EndsNumber (.array items) := by
  intro j' r r' _ _ heq
  match j', Json.kind_eq heq with
  | .array items', _ =>
    simp only [Json.toList_print_array, List.cons_append, List.cons.injEq, true_and] at heq
    obtain ⟨rfl, hend⟩ := cancels_sepBy (by decide) (fun r => ⟨EndsNumber.cons rfl r, EndsNumber.cons rfl r⟩)
      Json.print_ne_close h
      items' r r' trivial trivial heq
    exact ⟨rfl, hend⟩

theorem Json.object_cancels {fields : List (String × Json)}
    (h : ∀ field ∈ fields, Cancels (fun j : Json => j.print.toList) EndsNumber field.2) :
    Cancels (fun j : Json => j.print.toList) EndsNumber (.object fields) := by
  intro j' r r' _ _ heq
  match j', Json.kind_eq heq with
  | .object fields', _ =>
    simp only [Json.toList_print_object, List.cons_append, List.cons.injEq, true_and] at heq
    obtain ⟨rfl, hend⟩ := cancels_sepBy (by decide) (fun r => ⟨EndsNumber.cons rfl r, EndsNumber.cons rfl r⟩) fieldChars_ne_close
      (fun field hfield => fieldChars_cancels (h field hfield)) fields' r r' trivial trivial heq
    exact ⟨rfl, hend⟩

/-- A document without parts that is printed as a fixed text, different from that of all others of its kind. -/
theorem Json.cancels_of_fixed {j : Json} (h : ∀ j' r r', j'.kind = j.kind → j.print.toList ++ r = j'.print.toList ++ r' →
    j = j') :
    Cancels (fun j : Json => j.print.toList) EndsNumber j := by
  intro j' r r' _ _ heq
  obtain rfl := h j' r r' (Json.kind_eq heq).symm heq
  exact ⟨rfl, List.append_cancel_left heq⟩

/-- The text of a document can be told from what follows it. -/
theorem Json.cancels (j : Json) : Cancels (fun j : Json => j.print.toList) EndsNumber j := by
  match j with
  | .null =>
    refine Json.cancels_of_fixed fun j' r r' hkind _ => ?_
    match j', hkind with
    | .null, _ => rfl
  | .bool b =>
    refine Json.cancels_of_fixed fun j' r r' hkind heq => ?_
    match j', hkind with
    | .bool b', _ =>
      cases b with
      | false =>
        cases b' with
        | false => rfl
        | true => exact absurd (List.head_eq_of_cons_eq heq) (by decide)
      | true =>
        cases b' with
        | false => exact absurd (List.head_eq_of_cons_eq heq) (by decide)
        | true => rfl
  | .number n => exact Json.number_cancels n
  | .string s =>
    intro j' r r' _ _ heq
    match j', Json.kind_eq heq with
    | .string s', _ =>
      obtain ⟨rfl, hend⟩ := printString_cancels s s' r r' trivial trivial (by simpa [Json.print] using heq)
      exact ⟨rfl, hend⟩
  | .array items => exact Json.array_cancels fun item _ => item.cancels
  | .object fields => exact Json.object_cancels fun field _ => field.2.cancels
termination_by sizeOf j
decreasing_by
  all_goals simp_wf
  · have := List.sizeOf_lt_of_mem (by assumption : item ∈ items)
    omega
  · have hlt := List.sizeOf_lt_of_mem (by assumption : field ∈ fields)
    have hsnd : sizeOf field = 1 + sizeOf field.1 + sizeOf field.2 := by cases field; rfl
    omega

theorem Json.print_inj {j j' : Json} (h : j.print = j'.print) : j = j' :=
  j.cancels.eq (fun c hc => by cases hc) (congrArg String.toList h)

/-! ## Frames -/

/-- Of two texts that begin a third one, those of one size in bytes are one. -/
theorem append_inj_of_utf8ByteSize {s s' : String} {r r' : List Char} (hsize : s.utf8ByteSize = s'.utf8ByteSize)
    (heq : s.toList ++ r = s'.toList ++ r') : s = s' ∧ r = r' := by
  have hlonger : ∀ {s s' : String} {a : List Char}, s.utf8ByteSize = s'.utf8ByteSize → s'.toList = s.toList ++ a → a = [] := by
    intro s s' a hsize ha
    have hs' : s' = s ++ String.ofList a := by
      rw [← String.toList_inj, ha, String.toList_append, String.toList_ofList]
    rw [hs', String.utf8ByteSize_append] at hsize
    have hempty : String.ofList a = "" := String.utf8ByteSize_eq_zero_iff.mp (by omega)
    simpa using congrArg String.toList hempty
  rcases List.append_eq_append_iff.mp heq with ⟨a, hs', hr⟩ | ⟨a, hs, hr⟩
  · obtain rfl := hlonger hsize hs'
    exact ⟨String.toList_inj.mp (by simpa using hs'.symm), by simpa using hr⟩
  · obtain rfl := hlonger hsize.symm hs
    exact ⟨String.toList_inj.mp (by simpa using hs), by simpa using hr.symm⟩

theorem colon_not_mem_repr (n : Nat) : ':' ∉ n.repr.toList := by
  rw [Nat.toList_repr]
  intro hmem
  exact absurd (Nat.isDigit_of_mem_toDigits (by decide) (by decide) hmem) (by decide)

theorem frame_cancels (component : String) : Cancels (fun c => (frame c).toList) (fun _ => True) component := by
  intro component' r r' _ _ heq
  have hparts : ∀ c r, (frame c).toList ++ r = (Nat.repr c.utf8ByteSize).toList ++ ':' :: (c.toList ++ r) := by
    intro c r
    simp [frame, toString]
  rw [hparts, hparts] at heq
  obtain ⟨hsize, hrest⟩ := append_cons_inj_of_notMem_both (colon_not_mem_repr _) (colon_not_mem_repr _) heq
  exact append_inj_of_utf8ByteSize (Nat.repr_injective (String.toList_inj.mp hsize)) hrest

theorem frame_ne_nil (component : String) : (frame component).toList ≠ [] := by
  simp [frame]

/-- Components framed one after another are told apart, however many there are. -/
theorem join_frame_injective : Function.Injective fun components : List String => String.join (components.map frame) := by
  intro l l' heq
  have hchars : l.flatMap (fun c => (frame c).toList) = l'.flatMap (fun c => (frame c).toList) := by
    simpa [List.flatMap_map] using congrArg String.toList heq
  exact flatMap_inj_of_cancels frame_cancels frame_ne_nil hchars

/-- The components of an added layer, in order. -/
def AddLayer.components (addlayer : AddLayer) : List String :=
  addlayer.json :: addlayer.source.elim [] fun source => [source.tilesetId, source.json]

theorem addlayerIdentity_eq (addlayer : AddLayer) : addlayerIdentity addlayer = String.join (addlayer.components.map frame) := by
  unfold addlayerIdentity AddLayer.components
  split
  · rename_i hsource
    simp [hsource]
  · rename_i source hsource
    simp [hsource, String.append_assoc]

/-- An identity gives back the layer and its source. -/
theorem addlayerIdentity_inj {a b : AddLayer} (h : addlayerIdentity a = addlayerIdentity b) : a.json = b.json ∧
    a.source = b.source := by
  rw [addlayerIdentity_eq, addlayerIdentity_eq] at h
  have hcomponents : a.components = b.components := join_frame_injective h
  obtain ⟨json, hash, source⟩ := a
  obtain ⟨json', hash', source'⟩ := b
  simp only [AddLayer.components, List.cons.injEq] at hcomponents
  obtain ⟨rfl, hsource⟩ := hcomponents
  cases source with
  | none =>
    cases source' with
    | none => exact ⟨rfl, rfl⟩
    | some source' => simp at hsource
  | some source =>
    cases source' with
    | none => simp at hsource
    | some source' =>
      obtain ⟨tilesetId, sourceJson⟩ := source
      obtain ⟨tilesetId', sourceJson'⟩ := source'
      simp only [Option.elim_some, List.cons.injEq, and_true] at hsource
      obtain ⟨rfl, rfl⟩ := hsource
      exact ⟨rfl, rfl⟩

/-! ## Views and overlays -/

theorem F32.bits_injective : Function.Injective F32.bits := fun a b h => by
  cases a
  cases b
  exact congrArg F32.mk h

theorem F64.bits_injective : Function.Injective F64.bits := fun a b h => by
  cases a
  cases b
  exact congrArg F64.mk h

theorem LngLatKey.ofPoint_injective : Function.Injective LngLatKey.ofPoint := by
  intro a b h
  obtain ⟨hlon, hlat⟩ := LngLatKey.mk.inj h
  cases a
  cases b
  exact congrArg₂ LngLat.mk (F64.bits_injective hlon) (F64.bits_injective hlat)

theorem PositioningKey.ofPositioning_injective : Function.Injective PositioningKey.ofPositioning := by
  intro a b h
  cases a with
  | center lon lat zoom bearing pitch =>
    cases b with
    | center lon' lat' zoom' bearing' pitch' =>
      simp only [ofPositioning, PositioningKey.center.injEq] at h
      obtain ⟨hlon, hlat, hzoom, hbearing, hpitch⟩ := h
      rw [F64.bits_injective hlon, F64.bits_injective hlat, F64.bits_injective hzoom, F32.bits_injective hbearing,
        F32.bits_injective hpitch]
    | bbox => cases h
    | auto => cases h
  | bbox minLon minLat maxLon maxLat =>
    cases b with
    | center => cases h
    | bbox minLon' minLat' maxLon' maxLat' =>
      simp only [ofPositioning, PositioningKey.bbox.injEq] at h
      obtain ⟨hminLon, hminLat, hmaxLon, hmaxLat⟩ := h
      rw [F64.bits_injective hminLon, F64.bits_injective hminLat, F64.bits_injective hmaxLon, F64.bits_injective hmaxLat]
    | auto => cases h
  | auto =>
    cases b with
    | center => cases h
    | bbox => cases h
    | auto => rfl

theorem StaticOverlayKey.ofOverlay_injective : Function.Injective StaticOverlayKey.ofOverlay := by
  have hopt : ∀ {x y : Option F32}, x.map F32.bits = y.map F32.bits → x = y :=
    fun h => Option.map_injective F32.bits_injective h
  intro a b h
  cases a with
  | path o =>
    cases b with
    | path o' =>
      obtain ⟨strokeWidth, strokeColor, strokeOpacity, fillColor, fillOpacity, coordinates⟩ := o
      obtain ⟨strokeWidth', strokeColor', strokeOpacity', fillColor', fillOpacity', coordinates'⟩ := o'
      simp only [ofOverlay, StaticOverlayKey.path.injEq] at h
      obtain ⟨hwidth, rfl, hstroke, rfl, hfill, hcoordinates⟩ := h
      rw [hopt hwidth, hopt hstroke, hopt hfill, List.map_injective_iff.mpr LngLatKey.ofPoint_injective hcoordinates]
    | geoJson => cases h
    | pin => cases h
  | geoJson o =>
    cases b with
    | path => cases h
    | geoJson o' =>
      cases o
      cases o'
      simp only [ofOverlay, StaticOverlayKey.geoJson.injEq] at h
      rw [Json.print_inj h]
    | pin => cases h
  | pin o =>
    cases b with
    | path => cases h
    | geoJson => cases h
    | pin o' =>
      obtain ⟨size, label, color, coordinate⟩ := o
      obtain ⟨size', label', color', coordinate'⟩ := o'
      simp only [ofOverlay, StaticOverlayKey.pin.injEq] at h
      obtain ⟨rfl, rfl, rfl, hcoordinate⟩ := h
      rw [LngLatKey.ofPoint_injective hcoordinate]

end Biei
