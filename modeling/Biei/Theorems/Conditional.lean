import Biei.Lemmas.EntityTag
import Biei.Theorems.Provider

/-! # Conditional requests -/

namespace Biei.Ishikari.Conditional

open EntityTags

/-! ## The headers of a response -/

variable {value : Bytes}

theorem of_mem_getAll_insertText {headers : HeaderMap} {name : String} (hnone : headers.getAll name = []) {text : Option (List
    Char)} (h : value ∈ (headers.insertText name text).getAll name) : ∃ t, text = some t ∧ headerFromText t = some value := by
  unfold HeaderMap.insertText at h
  split at h
  · rename_i sent hsent
    rw [HeaderMap.getAll_insert_self, List.mem_singleton] at h
    subst h
    exact Option.bind_eq_some_iff.mp hsent
  · rw [hnone] at h
    nomatch h

theorem getAll_insertText_of_ne (headers : HeaderMap) {name other : String} (h : other ≠ name) (text : Option (List Char)) :
    (headers.insertText name text).getAll other = headers.getAll other := by
  unfold HeaderMap.insertText
  split
  · exact HeaderMap.getAll_insert_of_ne headers h _
  · rfl

/-- The `ETag` that is emitted is the one of the validators. -/
theorem of_mem_getAll_etag {env : WireEnv} {v : Validators} {headers out : HeaderMap} (hnone : headers.getAll "etag" = [])
    (h : apply env v headers = some out) (hvalue : value ∈ out.getAll "etag") :
    ∃ e, v.etag = some e ∧ value = utf8 (String.ofList e) := by
  obtain ⟨lastModified, -, rfl⟩ := Option.map_eq_some_iff.mp h
  rw [getAll_insertText_of_ne _ (by decide)] at hvalue
  obtain ⟨e, he, htext⟩ := of_mem_getAll_insertText hnone hvalue
  exact ⟨e, he, of_headerFromText htext⟩

/-- The `Last-Modified` that is emitted is read as the time of the validators, to the second. -/
theorem of_mem_getAll_lastModified {env : WireEnv} {v : Validators} {headers out : HeaderMap}
    (hnone : headers.getAll "last-modified" = [])
    (h : apply env v headers = some out) (hvalue : value ∈ out.getAll "last-modified") :
    ∃ t : SystemTime, v.lastModified = some (Int.ofNat t) ∧
      (headerToStr value).bind env.parseHttpDate = some (t / second * second) := by
  obtain ⟨lastModified, hdate, rfl⟩ := Option.map_eq_some_iff.mp h
  have hother : (headers.insertText "etag" v.etag).getAll "last-modified" = [] :=
    (getAll_insertText_of_ne headers (show "last-modified" ≠ "etag" by decide) v.etag).trans hnone
  obtain ⟨text, rfl, htext⟩ := of_mem_getAll_insertText hother hvalue
  unfold lastModifiedHttpDate at hdate
  cases htime : v.lastModified with
  | none => rw [htime] at hdate; cases hdate
  | some time =>
    rw [htime] at hdate
    simp only at hdate
    split at hdate
    · rename_i hnonneg
      obtain ⟨text', hfmt, heq⟩ := Option.map_eq_some_iff.mp hdate
      cases heq
      refine ⟨time.toNat, by rw [Int.ofNat_eq_natCast, Int.toNat_of_nonneg hnonneg], ?_⟩
      have hvisible := (env.isFieldText_fmtHttpDate _ _ hfmt).visible
      have hbytes := Option.some.inj (htext.symm.trans (headerFromText_eq_some hvisible))
      rw [hbytes, headerToStr_eq_some_iff.mpr ⟨hvisible, rfl⟩, Option.bind_some, env.parseHttpDate_fmtHttpDate _ _ hfmt]
    · cases hdate

/-! ## Answers -/

/-- `If-None-Match` asks for the representation not to be sent: a field that is a text is a star, or lists a tag that is weakly
equal. -/
def NoneMatch (fields : List Field) (etag : Option (List Char)) : Prop :=
  ∃ f ∈ fields, f.IsText ∧ (f.IsStar ∨ ∃ t, f.Lists t ∧ ∃ e, etag = some e ∧ t.WeaklyEqual e)

/-- `If-Modified-Since` asks for it: it is a date that is not before the last second of the modification. -/
def UnmodifiedSince (env : WireEnv) (lastModified : Option ClockTime) (request : HeaderMap) : Prop :=
  ∃ since time, headerDate env.toHttpEnv request "if-modified-since" = some since ∧ lastModified = some time ∧
    time / second * second ≤ (since : ClockTime)

theorem truncateToSeconds_le_iff (time : ClockTime) (since : SystemTime) :
    truncateToSeconds time ≤ (since : ClockTime) ↔ time / second * second ≤ (since : ClockTime) := by
  unfold truncateToSeconds
  split
  · rfl
  · -- Before the epoch both hold: no date of a header is earlier.
    rename_i hneg
    have hpos : (0 : Int) < (second : Int) := by decide
    have hfloor : time / (second : Int) * (second : Int) ≤ time := Int.ediv_mul_le time (ne_of_gt hpos)
    have hbefore : time ≤ (since : Int) := le_trans (le_of_lt (not_le.mp hneg)) (Int.natCast_nonneg since)
    exact iff_of_true hbefore (le_trans hfloor hbefore)

theorem notModified_iff (env : WireEnv) (v : Validators) {request : HeaderMap} {fields : List Field}
    (hfields : request.getAll "if-none-match" = fields.map Field.bytes)
    (hetag : ∀ e, v.etag = some e → stripWeak e = [] → ∀ f ∈ fields, f.IsText → ¬ f.HasBlank) :
    notModified env v request = true ↔
      (fields ≠ [] ∧ NoneMatch fields v.etag) ∨ (fields = [] ∧ UnmodifiedSince env v.lastModified request) := by
  unfold notModified
  rw [hfields]
  cases fields with
  | nil =>
    simp only [List.map_nil, List.isEmpty_nil, Bool.not_true, Bool.false_eq_true, if_false, ne_eq, not_true_eq_false, false_and,
      true_and,
      false_or, UnmodifiedSince, headerDate, HeaderMap.getStr]
    cases (request.getAll "if-modified-since").head? with
    | none => simp
    | some value =>
      cases v.lastModified with
      | none => simp
      | some time =>
        cases hdate : (headerToStr value).bind env.parseHttpDate with
        | none => simp [hdate]
        | some since => simp [hdate, truncateToSeconds_le_iff]
  | cons first rest =>
    have hpresent : (!(((first :: rest).map Field.bytes).isEmpty)) = true := rfl
    rw [if_pos hpresent, HeaderMap.getAllStr, hfields, List.any_eq_true]
    simp only [ne_eq, reduceCtorEq, not_false_eq_true, true_and, false_and, or_false]
    constructor
    · rintro ⟨value, hvalue, hmatch⟩
      obtain ⟨bytes, hbytes, hstr⟩ := List.mem_filterMap.mp hvalue
      obtain ⟨f, hf, rfl⟩ := List.mem_map.mp hbytes
      obtain ⟨htext, rfl⟩ := headerToStr_bytes.mp hstr
      rcases (ifNoneMatchMatches_text htext v.etag).mp hmatch with h | ⟨hblank, e, he, hempty⟩
      · exact ⟨f, hf, htext, h⟩
      · exact absurd hblank (hetag e he hempty f hf htext)
    · rintro ⟨f, hf, htext, h⟩
      refine ⟨f.text, ?_, (ifNoneMatchMatches_text htext v.etag).mpr (Or.inl h)⟩
      exact List.mem_filterMap.mpr ⟨f.bytes, List.mem_map.mpr ⟨f, hf, rfl⟩, headerToStr_bytes.mpr ⟨htext, rfl⟩⟩

/-- For lists of entity tags, or stars, in `If-None-Match`, and without regard to those that are not texts: a request is answered
with `304` exactly as the rules say, and a client that sends the `ETag` or the `Last-Modified` it was given is. -/
theorem conditional_requests_eq_reference (env : WireEnv) (v : Validators) {request : HeaderMap} {fields : List Field}
    (hfields : request.getAll "if-none-match" = fields.map Field.bytes)
    (hetag : ∀ e, v.etag = some e → stripWeak e = [] → ∀ f ∈ fields, f.IsText → ¬ f.HasBlank) :
    (notModified env v request = true ↔
        (fields ≠ [] ∧ NoneMatch fields v.etag) ∨ (fields = [] ∧ UnmodifiedSince env v.lastModified request)) ∧
      ∀ headers out, apply env v headers = some out →
        (headers.getAll "etag" = [] → ∀ value ∈ out.getAll "etag", ∀ f ∈ fields, f.IsText → ∀ t, f.Lists t →
          (t.text.map fun c => UInt8.ofNat c.toNat) = value → notModified env v request = true) ∧
        (headers.getAll "last-modified" = [] → ∀ value ∈ out.getAll "last-modified", fields = [] →
          (request.getAll "if-modified-since").head? = some value → notModified env v request = true) := by
  have hiff := notModified_iff env v hfields hetag
  refine ⟨hiff, fun headers out happly => ⟨fun hnone value hvalue f hf htext t ht hbytes => ?_,
    fun hnone value hvalue hfields' hsent => ?_⟩⟩
  · obtain ⟨e, he, rfl⟩ := of_mem_getAll_etag hnone happly hvalue
    have hvisible := ht.visible htext
    -- The tag's bytes are those of the text of the `ETag`, so it is that text.
    have hetext : t.text = e := by
      rw [← utf8_of_visible fun c hc => (hvisible c hc).lt] at hbytes
      exact String.ofList_injective (utf8_injective hbytes)
    refine hiff.mpr (Or.inl ⟨List.ne_nil_of_mem hf, f, hf, htext, Or.inr ⟨t, ht, e, he, ?_⟩⟩)
    exact (EntityTag.weaklyEqual_iff hvisible).mpr (congrArg stripWeak hetext)
  · obtain ⟨time, htime, hdate⟩ := of_mem_getAll_lastModified hnone happly hvalue
    refine hiff.mpr (Or.inr ⟨hfields', time / second * second, Int.ofNat time, ?_, htime, ?_⟩)
    · rw [headerDate, HeaderMap.getStr, hsent, Option.bind_some, hdate]
    · exact Int.le_of_eq rfl

/-! ## A tag with obs-text -/

theorem isBlankText_nil : Accept.IsBlankText [] := fun _ h => absurd h List.not_mem_nil

theorem isBlankText_space : Accept.IsBlankText [' '] := by decide

/-- The tag `"abc"`. -/
def abcTag (weak : Bool) : EntityTag := ⟨weak, "abc".toList, by decide⟩

/-- The field `"é", "abc"` in Latin-1. -/
def latinField : Field :=
  .list [.tag [] ⟨false, [Char.ofNat 233], by decide⟩ [] isBlankText_nil isBlankText_nil,
    .tag [' '] (abcTag false) [] isBlankText_space isBlankText_nil]

/-- The field `"x",`, with an empty element at its end. -/
def trailingField : Field :=
  .list [.tag [] ⟨false, "x".toList, by decide⟩ [] isBlankText_nil isBlankText_nil, .blank [] isBlankText_nil]

/-- A field that lists the tag is not read, because another tag in it has `obs-text`; and an empty element is taken for an empty
`ETag`. -/
theorem conditional_requests_obs_text :
    ¬ (notModified epochEnv ⟨some "\"abc\"".toList, none⟩ ⟨[("if-none-match", latinField.bytes)]⟩ = true ↔
      ∃ f ∈ [latinField], f.IsStar ∨ ∃ t, f.Lists t ∧ ∃ e, some "\"abc\"".toList = some e ∧ t.WeaklyEqual e) ∧
      notModified epochEnv ⟨some [], none⟩ ⟨[("if-none-match", trailingField.bytes)]⟩ = true ∧
      ¬ ∃ f ∈ [trailingField], f.IsStar ∨ ∃ t, f.Lists t ∧ ∃ e, some [] = some e ∧ t.WeaklyEqual e := by
  have hread : notModified epochEnv ⟨some "\"abc\"".toList, none⟩ ⟨[("if-none-match", latinField.bytes)]⟩ = false := by decide
  have hlists : latinField.Lists (abcTag false) := ⟨_, _, _, _, _, rfl, List.mem_cons_of_mem _ (List.mem_singleton_self _)⟩
  have hequal : (abcTag false).WeaklyEqual "\"abc\"".toList := by
    unfold EntityTag.WeaklyEqual
    decide
  refine ⟨fun h => ?_, by decide, ?_⟩
  · rw [hread] at h
    exact Bool.noConfusion (h.mpr ⟨latinField, List.mem_singleton_self _, Or.inr ⟨_, hlists, _, rfl, hequal⟩⟩)
  · rintro ⟨f, hf, hmatch⟩
    cases List.mem_singleton.mp hf
    obtain ⟨t, ht, e, he, hequal⟩ := hmatch.resolve_left id
    cases he
    obtain ⟨elements, _, _, _, _, helements, hmem⟩ := ht
    cases helements
    rcases List.mem_cons.mp hmem with htag | hmem
    · cases htag
      revert hequal
      unfold EntityTag.WeaklyEqual
      decide
    · cases List.mem_singleton.mp hmem

/-- The field `"x,y", W/"abc"`. -/
def abcField : Field :=
  .list [.tag [] ⟨false, "x,y".toList, by decide⟩ [] isBlankText_nil isBlankText_nil,
    .tag [' '] (abcTag true) [] isBlankText_space isBlankText_nil]

/-- A tag after one with a comma. -/
theorem conditional_requests_eq_reference_abc :
    notModified epochEnv ⟨some "\"abc\"".toList, some 1400000000⟩ ⟨[("if-none-match", abcField.bytes)]⟩ = true := by
  have htext : abcField.IsText := by
    unfold Field.IsText
    decide
  have hlists : abcField.Lists (abcTag true) := ⟨_, _, _, _, _, rfl, List.mem_cons_of_mem _ (List.mem_singleton_self _)⟩
  have hequal : (abcTag true).WeaklyEqual "\"abc\"".toList := by
    unfold EntityTag.WeaklyEqual
    decide
  have hmatch : NoneMatch [abcField] (some "\"abc\"".toList) :=
    ⟨abcField, List.mem_singleton_self _, htext, Or.inr ⟨_, hlists, _, rfl, hequal⟩⟩
  have hetag : ∀ e, some "\"abc\"".toList = some e → stripWeak e = [] → ∀ f ∈ [abcField], f.IsText → ¬ f.HasBlank := by
    intro e he hempty
    cases he
    exact absurd hempty (by decide)
  exact (conditional_requests_eq_reference epochEnv ⟨some "\"abc\"".toList, some 1400000000⟩
    (show _ = [abcField].map Field.bytes from rfl) hetag).1.mpr (Or.inl ⟨List.cons_ne_nil _ _, hmatch⟩)

end Biei.Ishikari.Conditional
