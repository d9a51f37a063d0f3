import Biei.Lemmas.Headers
import Biei.Lib.Quoted

/-! # Lemmas on Cache-Control -/

namespace Biei

open Quoted

/-! ## Splitting -/

theorem splitUnquoted_eq_pieces (quoted escaped : Bool) (token text : List Char) :
    splitUnquoted quoted escaped token text = (pieces true ',' ⟨quoted, escaped⟩ text).modifyHead (token.reverse ++ ·) := by
  induction text generalizing quoted escaped token with
  | nil => simp [splitUnquoted, pieces]
  | cons c text ih =>
    have hgo : ∀ m : Mode, splitUnquoted m.quoted m.escaped (c :: token) text =
        ((pieces true ',' m text).modifyHead (c :: ·)).modifyHead (token.reverse ++ ·) := by
      intro m
      rw [ih, List.modifyHead_modifyHead]
      congr 1
      funext piece
      simp
    unfold splitUnquoted pieces advance
    simp only [true_and]
    split
    · exact hgo ⟨quoted, false⟩
    · rename_i hescaped
      cases Bool.eq_false_iff.mpr hescaped
      split
      · rename_i h
        obtain ⟨-, rfl⟩ := h
        exact hgo ⟨true, true⟩
      · split
        · exact hgo ⟨!quoted, false⟩
        · split
          · simp only [List.modifyHead_cons, List.append_nil, List.cons.injEq, true_and]
            rw [ih]
            cases hpieces : pieces true ',' ⟨false, false⟩ text with
            | nil => exact absurd hpieces (pieces_ne_nil _ _)
            | cons head tail => simpa [plain] using hpieces.symm
          · exact hgo ⟨quoted, false⟩

/-- The tokens of a field, before they are trimmed. -/
def fieldPieces (text : List Char) : List (List Char) := pieces true ',' plain text

theorem splitUnquoted_eq_fieldPieces (text : List Char) : splitUnquoted false false [] text = fieldPieces text := by
  rw [splitUnquoted_eq_pieces]
  show (fieldPieces text).modifyHead ([] ++ ·) = fieldPieces text
  cases fieldPieces text <;> rfl

theorem directives_eq (text : List Char) :
    directives text = (((fieldPieces text).map trim).filter fun token => !token.isEmpty).map directive := by
  rw [directives, splitUnquoted_eq_fieldPieces]

/-! ## The iterator -/

theorem splitAtByte_append (head tail : List Char) :
    splitAtByte (head.flatMap String.utf8EncodeChar).length (head ++ tail) = some (head, tail) := by
  induction head with
  | nil => cases tail <;> rfl
  | cons c head ih =>
    obtain ⟨n, hn⟩ := Nat.exists_eq_succ_of_ne_zero (Nat.pos_iff_ne_zero.mp c.utf8Size_pos)
    have hlength : ((c :: head).flatMap String.utf8EncodeChar).length = (n + (head.flatMap String.utf8EncodeChar).length) +
      1 := by
      rw [List.flatMap_cons, List.length_append, String.length_utf8EncodeChar, hn]
      omega
    have hrest : n + (head.flatMap String.utf8EncodeChar).length + 1 - (n + 1) =
      (head.flatMap String.utf8EncodeChar).length := by omega
    rw [hlength, List.cons_append, splitAtByte, hn, if_pos (by omega), hrest, ih]
    rfl

/-- Bytes that mean nothing to the scanner end an escape, at most. -/
theorem boundary_append_of_forall {quoted escaped : Bool} {bytes : Bytes} (hne : bytes ≠ [])
    (h : ∀ byte ∈ bytes, byte ≠ 0x5c ∧ byte ≠ 0x22 ∧ byte ≠ 0x2c) (rest : Bytes) :
    boundary quoted escaped (bytes ++ rest) = boundary quoted false rest + bytes.length := by
  induction bytes generalizing escaped with
  | nil => exact absurd rfl hne
  | cons byte bytes ih =>
    obtain ⟨hescape, hquote, hcomma⟩ := h byte List.mem_cons_self
    have hgo : boundary quoted false (bytes ++ rest) = boundary quoted false rest + bytes.length := by
      cases bytes with
      | nil => rfl
      | cons next bytes => exact ih (List.cons_ne_nil _ _) fun b hb => h b (List.mem_cons_of_mem _ hb)
    rw [List.cons_append, boundary]
    simp only [hescape, hquote, hcomma, false_and, if_false, hgo, List.length_cons]
    split <;> omega

variable {c : Char}

/-- The bytes of a character take the scanner where the character takes it. -/
theorem boundary_utf8EncodeChar {m m' : Mode} (h : advance true ',' m c = some m') (rest : Bytes) :
    boundary m.quoted m.escaped (String.utf8EncodeChar c ++ rest) = boundary m'.quoted m'.escaped rest + c.utf8Size := by
  obtain ⟨quoted, escaped⟩ := m
  by_cases hspecial : c = '\\' ∨ c = '\"' ∨ c = ','
  · have hbytes : ∀ b : UInt8, String.utf8EncodeChar c = [b] →
      boundary quoted escaped (b :: rest) = boundary m'.quoted m'.escaped rest + 1 →
        boundary quoted escaped (String.utf8EncodeChar c ++ rest) = boundary m'.quoted m'.escaped rest + c.utf8Size := by
      intro b hb hboundary
      rw [← String.length_utf8EncodeChar, hb]
      exact hboundary
    rcases hspecial with rfl | rfl | rfl
    · refine hbytes 0x5c (by decide) ?_
      cases escaped <;> cases quoted <;> simp [advance] at h <;> subst h <;> simp [boundary]
    · refine hbytes 0x22 (by decide) ?_
      cases escaped <;> cases quoted <;> simp [advance] at h <;> subst h <;> simp [boundary]
    · refine hbytes 0x2c (by decide) ?_
      cases escaped <;> cases quoted <;> simp [advance] at h <;> subst h <;> simp [boundary]
  · simp only [not_or] at hspecial
    obtain ⟨hescape, hquote, hcomma⟩ := hspecial
    have hplain : m' = ⟨quoted, false⟩ := by
      cases escaped <;> simp [advance, hescape, hquote, hcomma] at h <;> exact h.symm
    have hne : String.utf8EncodeChar c ≠ [] := by
      rw [← List.length_pos_iff, String.length_utf8EncodeChar]
      exact c.utf8Size_pos
    have hnot : ∀ d : Char, d.toNat < 128 → c ≠ d → ∀ byte ∈ String.utf8EncodeChar c, byte ≠ UInt8.ofNat d.toNat := by
      rintro d hd hcd byte hbyte rfl
      exact hcd ((mem_utf8EncodeChar_iff hd).mp hbyte)
    rw [boundary_append_of_forall hne, String.length_utf8EncodeChar, hplain]
    exact fun byte hbyte => ⟨hnot '\\' (by decide) hescape byte hbyte, hnot '\"' (by decide) hquote byte hbyte,
      hnot ',' (by decide) hcomma byte hbyte⟩

theorem boundary_flatMap {m m' : Mode} {head : List Char} (h : scan true ',' m head = some m') (rest : Bytes) :
    boundary m.quoted m.escaped (head.flatMap String.utf8EncodeChar ++ rest) =
      boundary m'.quoted m'.escaped rest + (head.flatMap String.utf8EncodeChar).length := by
  induction head generalizing m with
  | nil =>
    cases h
    rfl
  | cons c head ih =>
    rw [scan, Option.bind_eq_some_iff] at h
    obtain ⟨next, hnext, h⟩ := h
    rw [List.flatMap_cons, List.append_assoc, boundary_utf8EncodeChar hnext, ih h, List.length_append,
      String.length_utf8EncodeChar]
    omega

/-- A turn of the iterator takes the first piece, and slices at character boundaries. -/
theorem Directives.advance_eq (text : List Char) :
    (fieldPieces text = [text] ∧ Directives.advance text = some (trim text, [])) ∨
      ∃ head rest, text = head ++ ',' :: rest ∧ fieldPieces text = head :: fieldPieces rest ∧
        Directives.advance text = some (trim head, rest) := by
  have hbytes : ∀ l : List Char, utf8 (String.ofList l) = l.flatMap String.utf8EncodeChar := by
    intro l
    rw [utf8_eq_flatMap, String.toList_ofList]
  obtain ⟨init, last, hpieces, htext, hinit, hlast⟩ := exists_pieces true (show ',' ≠ '\"' by decide) text
  cases init with
  | nil =>
    simp only [List.nil_append, List.intercalate_singleton] at htext hpieces
    subst htext
    obtain ⟨m, hm⟩ : ∃ m, scan true ',' plain text = some m := by
      rcases hlast with hlast | hlast
      · exact ⟨plain, (scan_eq_plain_iff (by decide)).mpr hlast⟩
      · obtain ⟨m, hm, -⟩ := scan_unterminated hlast
        exact ⟨m, hm⟩
    refine Or.inl ⟨hpieces, ?_⟩
    have hboundary : boundary false false (text.flatMap String.utf8EncodeChar) = (text.flatMap String.utf8EncodeChar).length := by
      have h := boundary_flatMap hm []
      rwa [List.append_nil, boundary, Nat.zero_add] at h
    have hsplit := splitAtByte_append text []
    rw [List.append_nil] at hsplit
    simp only [Directives.advance, hbytes, hboundary, hsplit, Nat.lt_irrefl, if_false]
  | cons head init =>
    have hjoin : text = head ++ ',' :: [','].intercalate (init ++ [last]) := by
      rw [htext]
      cases init <;> simp
    have hhead := hinit head List.mem_cons_self
    refine Or.inr ⟨head, _, hjoin, ?_, ?_⟩
    · conv_lhs => rw [hjoin]
      exact pieces_balanced (by decide) hhead _
    · set rest := [','].intercalate (init ++ [last])
      have hcomma : String.utf8EncodeChar ',' = [0x2c] := by decide
      have hflat : text.flatMap String.utf8EncodeChar = head.flatMap String.utf8EncodeChar ++ 0x2c :: rest.flatMap
        String.utf8EncodeChar := by
        rw [hjoin, List.flatMap_append, List.flatMap_cons, hcomma]
        rfl
      have hboundary : boundary false false (text.flatMap String.utf8EncodeChar) =
        (head.flatMap String.utf8EncodeChar).length := by
        have h := boundary_flatMap ((scan_eq_plain_iff (by decide)).mpr hhead) (0x2c :: rest.flatMap String.utf8EncodeChar)
        rw [hflat]
        exact h.trans (by simp [boundary, plain])
      have hlt : (head.flatMap String.utf8EncodeChar).length < (text.flatMap String.utf8EncodeChar).length := by
        rw [hflat, List.length_append, List.length_cons]
        omega
      have hsplit : splitAtByte (head.flatMap String.utf8EncodeChar).length text = some (head, ',' :: rest) := by
        rw [hjoin]
        exact splitAtByte_append head (',' :: rest)
      have hnext : splitAtByte ((head.flatMap String.utf8EncodeChar).length + 1) text = some (head ++ [','], rest) := by
        have h := splitAtByte_append (head ++ [',']) rest
        rw [List.append_assoc, List.singleton_append, ← hjoin, List.flatMap_append, List.length_append, List.flatMap_singleton,
          hcomma] at h
        exact h
      simp only [Directives.advance, hbytes, hboundary, hsplit, hlt, if_true, hnext, Option.map_some]

theorem directives_nil : directives [] = [] := rfl

/-- One piece of a field is a directive, unless nothing is in it. -/
theorem directives_of_fieldPieces {text head : List Char} {more : List (List Char)} (h : fieldPieces text = head :: more) :
    directives text = (if (trim head).isEmpty then [] else [directive (trim head)]) ++
      ((more.map trim).filter fun token => !token.isEmpty).map directive := by
  rw [directives_eq, h, List.map_cons, List.filter_cons]
  cases (trim head).isEmpty <;> rfl

/-- The iterator yields the directives of the field, and ends. -/
theorem Directives.collect_eq : ∀ text : List Char, Directives.collect text = some (directives text)
  | [] => by
    rw [Directives.collect, dif_pos rfl]
    rfl
  | c :: text => by
    rw [Directives.collect, dif_neg (List.cons_ne_nil c text)]
    rcases Directives.advance_eq (c :: text) with ⟨hpieces, hadvance⟩ | ⟨head, rest, htext, hpieces, hadvance⟩
    · have ih := Directives.collect_eq []
      split
      · rename_i hnone
        rw [hnone] at hadvance
        cases hadvance
      · rename_i token rest hsome
        cases hsome.symm.trans hadvance
        rw [ih, directives_of_fieldPieces hpieces, directives_nil]
        cases (trim (c :: text)).isEmpty <;> rfl
    · have hshorter := Directives.length_advance_lt (List.cons_ne_nil c text) hadvance
      have ih := Directives.collect_eq rest
      split
      · rename_i hnone
        rw [hnone] at hadvance
        cases hadvance
      · rename_i token more hsome
        cases hsome.symm.trans hadvance
        rw [ih, directives_of_fieldPieces hpieces, ← directives_eq]
        cases (trim head).isEmpty <;> rfl
  termination_by text => text.length
  decreasing_by
  · exact Nat.succ_pos _
  · exact hshorter

/-- A comma outside quotes ends what comes before it. -/
theorem directives_append {head : List Char} (h : Balanced true ',' head) (rest : List Char) :
    directives (head ++ ',' :: rest) = directives head ++ directives rest := by
  have hpieces : fieldPieces (head ++ ',' :: rest) = head :: fieldPieces rest := pieces_balanced (by decide) h rest
  have hhead : fieldPieces head = [head] := pieces_of_scan ((scan_eq_plain_iff (by decide)).mpr h)
  rw [directives_of_fieldPieces hpieces, directives_of_fieldPieces hhead, ← directives_eq]
  simp

/-! ## What is parsed -/

/-- The named directives, as a field of the parse has them: the least of the numbers, where a malformed one counts as zero. -/
def leastSeconds (ds : List Directive) (name : String) : Option Nat :=
  ((ds.filter fun d => d.nameEq name).map fun d => d.deltaSeconds.getD 0).min?

def hasDirective (ds : List Directive) (name : String) : Bool := ds.any fun d => d.nameEq name

/-- What the parse of the directives is, field by field. -/
def summary (ds : List Directive) : ParsedCacheControl where
  noStore := hasDirective ds "no-store"
  noCache := hasDirective ds "no-cache"
  «private» := hasDirective ds "private"
  mustRevalidate := hasDirective ds "must-revalidate"
  proxyRevalidate := hasDirective ds "proxy-revalidate"
  noTransform := hasDirective ds "no-transform"
  immutable := hasDirective ds "immutable"
  maxAge := leastSeconds ds "max-age"
  sMaxage := leastSeconds ds "s-maxage"
  staleWhileRevalidate := leastSeconds ds "stale-while-revalidate"

variable {name : String}

/-- A directive has one name. -/
theorem Directive.nameEq_ne {d : Directive} (h : d.nameEq name = true) {other : String}
    (hne : name.toList.map Char.toLower ≠ other.toList.map Char.toLower) : d.nameEq other = false := by
  have hname : d.name.map Char.toLower = name.toList.map Char.toLower := beq_iff_eq.mp h
  exact beq_eq_false_iff_ne.mpr fun hother => hne (hname.symm.trans hother)

theorem hasDirective_append (ds ds' : List Directive) (name : String) :
    hasDirective (ds ++ ds') name = (hasDirective ds name || hasDirective ds' name) := List.any_append

theorem min?_append (xs ys : List Nat) : (xs ++ ys).min? = Option.merge min xs.min? ys.min? := by
  have hcons : ∀ (x : Nat) (l : List Nat), (x :: l).min? = Option.merge min (some x) l.min? := by
    intro x l
    rw [List.min?_cons]
    cases l.min? <;> rfl
  induction xs with
  | nil => simp
  | cons x xs ih => rw [List.cons_append, hcons, hcons, ih, (Option.associative_merge (min : Nat → Nat → Nat)).assoc]

theorem leastSeconds_append (ds ds' : List Directive) (name : String) :
    leastSeconds (ds ++ ds') name = Option.merge min (leastSeconds ds name) (leastSeconds ds' name) := by
  rw [leastSeconds, List.filter_append, List.map_append, min?_append]
  rfl

theorem leastSeconds_singleton (d : Directive) (name : String) :
    leastSeconds [d] name = if d.nameEq name then some (d.deltaSeconds.getD 0) else none := by
  unfold leastSeconds
  cases h : d.nameEq name <;> simp [h]

theorem mergeConservative_eq (target parsed : Option Nat) :
    mergeConservative target parsed = Option.merge min target (some (parsed.getD 0)) := by
  cases target <;> rfl

/-- One directive more is merged into the summary. -/
theorem summary_concat (ds : List Directive) (d : Directive) : summary (ds ++ [d]) = (summary ds).apply d := by
  have hflag : ∀ name, hasDirective (ds ++ [d]) name = (hasDirective ds name || d.nameEq name) := by
    intro name
    rw [hasDirective_append]
    simp [hasDirective]
  unfold ParsedCacheControl.apply
  simp only [summary, hflag, leastSeconds_append, leastSeconds_singleton, mergeConservative_eq]
  -- The directive has at most one of the names, so that at most one field changes.
  repeat' (split; · rename_i h; simp (disch := decide) [h, Directive.nameEq_ne h])
  simp_all

theorem foldl_apply_eq_summary (ds : List Directive) : ds.foldl ParsedCacheControl.apply {} = summary ds := by
  induction ds using List.reverseRecOn with
  | nil => rfl
  | append_singleton ds d ih => rw [List.foldl_append, ih, List.foldl_cons, List.foldl_nil, summary_concat]

theorem parseValues_eq (values : List (List Char)) :
    parseValues values = if values.isEmpty then none else some (summary (values.flatMap directives)) := by
  rw [parseValues, foldl_apply_eq_summary]

/-! ## Merging -/

/-- The merge of two parses: or of flags, minimum of numbers. -/
def ParsedCacheControl.merge (a b : ParsedCacheControl) : ParsedCacheControl where
  noStore := a.noStore || b.noStore
  noCache := a.noCache || b.noCache
  «private» := a.private || b.private
  mustRevalidate := a.mustRevalidate || b.mustRevalidate
  proxyRevalidate := a.proxyRevalidate || b.proxyRevalidate
  noTransform := a.noTransform || b.noTransform
  immutable := a.immutable || b.immutable
  maxAge := Option.merge min a.maxAge b.maxAge
  sMaxage := Option.merge min a.sMaxage b.sMaxage
  staleWhileRevalidate := Option.merge min a.staleWhileRevalidate b.staleWhileRevalidate

theorem ParsedCacheControl.merge_comm (a b : ParsedCacheControl) : a.merge b = b.merge a := by
  simp only [merge, Bool.or_comm, (Option.commutative_merge (min : Nat → Nat → Nat)).comm]

theorem ParsedCacheControl.merge_assoc (a b c : ParsedCacheControl) : (a.merge b).merge c = a.merge (b.merge c) := by
  simp only [merge, Bool.or_assoc, (Option.associative_merge (min : Nat → Nat → Nat)).assoc]

theorem summary_append (ds ds' : List Directive) : summary (ds ++ ds') = (summary ds).merge (summary ds') := by
  simp only [summary, ParsedCacheControl.merge, hasDirective_append, leastSeconds_append]

theorem summary_nil : summary [] = {} := rfl

theorem summary_cons (d : Directive) (ds : List Directive) : summary (d :: ds) = (summary [d]).merge (summary ds) :=
  summary_append [d] ds

variable {ds ds' : List Directive}

/-- The order of the directives does not matter. -/
theorem summary_perm (h : ds.Perm ds') : summary ds = summary ds' := by
  induction h with
  | nil => rfl
  | cons d _ ih => rw [summary_cons, ih, ← summary_cons]
  | swap d e ds =>
    have hpair : ∀ d e : Directive, summary (d :: e :: ds) = ((summary [d]).merge (summary [e])).merge (summary ds) :=
      fun d e => by
      rw [summary_cons d (e :: ds), summary_cons e ds, ParsedCacheControl.merge_assoc]
    rw [hpair, hpair, ParsedCacheControl.merge_comm (summary [e])]
  | trans _ _ ih ih' => exact ih.trans ih'

/-- A number that is there, and not greater. -/
def NotGreater (a b : Option Nat) : Prop := ∀ n, a = some n → ∃ m, b = some m ∧ m ≤ n

/-- The second parse has every flag of the first, and each of its numbers, none of them greater. -/
structure ParsedCacheControl.NotLooser (a b : ParsedCacheControl) : Prop where
  noStore : a.noStore = true → b.noStore = true
  noCache : a.noCache = true → b.noCache = true
  private' : a.private = true → b.private = true
  mustRevalidate : a.mustRevalidate = true → b.mustRevalidate = true
  proxyRevalidate : a.proxyRevalidate = true → b.proxyRevalidate = true
  noTransform : a.noTransform = true → b.noTransform = true
  immutable : a.immutable = true → b.immutable = true
  maxAge : NotGreater a.maxAge b.maxAge
  sMaxage : NotGreater a.sMaxage b.sMaxage
  staleWhileRevalidate : NotGreater a.staleWhileRevalidate b.staleWhileRevalidate

theorem hasDirective_mono (h : ds ⊆ ds') (hd : hasDirective ds name = true) :
    hasDirective ds' name = true := by
  obtain ⟨d, hmem, hname⟩ := List.any_eq_true.mp hd
  exact List.any_eq_true.mpr ⟨d, h hmem, hname⟩

theorem leastSeconds_mono (h : ds ⊆ ds') (name : String) :
    NotGreater (leastSeconds ds name) (leastSeconds ds' name) := by
  intro n hn
  have hmem := List.map_subset (fun d : Directive => d.deltaSeconds.getD 0) (List.filter_subset _ h) (List.min?_mem hn)
  obtain ⟨m, hm⟩ := Option.isSome_iff_exists.mp (List.isSome_min?_of_mem hmem)
  exact ⟨m, hm, List.le_min?_iff hm |>.mp (Nat.le_refl m) n hmem⟩

/-- More directives make the parse no looser. -/
theorem notLooser_summary (h : ds ⊆ ds') : (summary ds).NotLooser (summary ds') where
  noStore := hasDirective_mono h
  noCache := hasDirective_mono h
  private' := hasDirective_mono h
  mustRevalidate := hasDirective_mono h
  proxyRevalidate := hasDirective_mono h
  noTransform := hasDirective_mono h
  immutable := hasDirective_mono h
  maxAge := leastSeconds_mono h _
  sMaxage := leastSeconds_mono h _
  staleWhileRevalidate := leastSeconds_mono h _

/-! ## Numbers -/

/-- Digits are read as the number they stand for, or as the largest there is. -/
theorem parseDeltaSeconds_eq (value : List Char) :
    parseDeltaSeconds value = if value ≠ [] ∧ value.all Char.isDigit = true then some (min (decimal value) (u64Bound - 1)) else
      none := by
  have hfold : ∀ (n : Nat), value.foldl (fun seconds c => min (min (seconds * 10) (u64Bound - 1) + (c.toNat - 48)) (u64Bound - 1))
      (min n (u64Bound - 1)) = min (value.foldl (fun n c => n * 10 + (c.toNat - 48)) n) (u64Bound - 1) := by
    generalize u64Bound - 1 = largest
    induction value with
    | nil => intro n; rfl
    | cons c value ih =>
      intro n
      have hstep : min (min (min n largest * 10) largest + (c.toNat - 48)) largest = min (n * 10 + (c.toNat - 48))
        largest := by omega
      rw [List.foldl_cons, hstep, ih, List.foldl_cons]
  unfold parseDeltaSeconds decimal
  rw [← hfold 0, Nat.zero_min]
  cases value with
  | nil => rfl
  | cons c value =>
    rw [List.isEmpty_cons, Bool.false_or]
    cases (c :: value).all Char.isDigit <;> simp

/-- A decimal text is read back. -/
theorem parseDeltaSeconds_repr {n : Nat} (h : n < u64Bound) : parseDeltaSeconds n.repr.toList = some n := by
  have hall : n.repr.toList.all Char.isDigit = true := List.all_eq_true.mpr fun c => isDigit_of_mem_repr
  have hne : n.repr.toList ≠ [] := by
    rw [Nat.toList_repr]
    exact Nat.toDigits_ne_nil
  have hvalue : decimal n.repr.toList = n := by
    rw [Nat.toList_repr]
    exact decimal_toDigits n
  rw [parseDeltaSeconds_eq, if_pos ⟨hne, hall⟩, hvalue, Nat.min_eq_left (by omega)]

/-! ## What is printed is read back -/

/-- A text that is a token of a printed policy. -/
def IsPrintedToken (token : List Char) : Prop :=
  token ≠ [] ∧ ∀ c ∈ token, c ≠ '\"' ∧ c ≠ ',' ∧ isWhitespace c = false ∧ IsVisible c

instance : DecidablePred IsVisible := fun _ => inferInstanceAs (Decidable (_ ∨ _))

instance : DecidablePred IsPrintedToken := fun _ => inferInstanceAs (Decidable (_ ∧ _))

theorem trim_of_forall {text : List Char} (h : ∀ c ∈ text, isWhitespace c = false) : trim text = text := by
  have hkeep : ∀ l : List Char, (∀ c ∈ l, isWhitespace c = false) → l.dropWhile isWhitespace = l := by
    intro l hl
    cases l with
    | nil => rfl
    | cons c l => rw [List.dropWhile_cons, hl c List.mem_cons_self]; rfl
  rw [trim, hkeep text h, hkeep text.reverse fun c hc => h c (List.mem_reverse.mp hc), List.reverse_reverse]

theorem directives_token {token : List Char} (h : IsPrintedToken token) : directives token = [directive token] := by
  have hpieces : fieldPieces token = [token] :=
    pieces_of_scan ((scan_eq_plain_iff (by decide)).mpr (balanced_of_forall fun c hc => ⟨(h.2 c hc).1, (h.2 c hc).2.1⟩))
  rw [directives_of_fieldPieces hpieces, trim_of_forall fun c hc => (h.2 c hc).2.2.1]
  simp [h.1]

/-- The blank after a comma is nothing. -/
theorem directives_blank (text : List Char) : directives (' ' :: text) = directives text := by
  have hpieces : fieldPieces (' ' :: text) = (fieldPieces text).modifyHead (' ' :: ·) := rfl
  have htrim : ∀ l : List Char, trim (' ' :: l) = trim l := fun l => rfl
  rw [directives_eq, directives_eq, hpieces]
  cases fieldPieces text with
  | nil => rfl
  | cons piece more => rw [List.modifyHead_cons, List.map_cons, htrim, ← List.map_cons]

/-- The directives of tokens that were joined. -/
theorem directives_joined {tokens : List (List Char)} (h : ∀ token ∈ tokens, IsPrintedToken token) :
    directives (", ".toList.intercalate tokens) = tokens.map directive := by
  induction tokens with
  | nil => rfl
  | cons token tokens ih =>
    rw [List.forall_mem_cons] at h
    cases tokens with
    | nil => simpa using directives_token h.1
    | cons next tokens =>
      have hjoin : ", ".toList.intercalate (token :: next :: tokens) = token ++ ',' :: ' ' :: ", ".toList.intercalate
        (next :: tokens) := by
        simp
      have hbalanced : Balanced true ',' token := balanced_of_forall fun c hc => ⟨(h.1.2 c hc).1, (h.1.2 c hc).2.1⟩
      rw [hjoin, directives_append hbalanced, directives_token h.1, directives_blank, ih h.2]
      rfl

/-- What is joined is visible, and a legal header value. -/
theorem isVisible_joined {tokens : List (List Char)} (h : ∀ token ∈ tokens, IsPrintedToken token) :
    ∀ c ∈ ", ".toList.intercalate tokens, IsVisible c := by
  induction tokens with
  | nil => nofun
  | cons token tokens ih =>
    rw [List.forall_mem_cons] at h
    cases tokens with
    | nil =>
      intro c hc
      exact (h.1.2 c (by simpa using hc)).2.2.2
    | cons next tokens =>
      intro c hc
      have hjoin : ", ".toList.intercalate (token :: next :: tokens) = token ++ ',' :: ' ' :: ", ".toList.intercalate
        (next :: tokens) := by
        simp
      rw [hjoin, List.mem_append, List.mem_cons, List.mem_cons] at hc
      rcases hc with hc | rfl | rfl | hc
      · exact (h.1.2 c hc).2.2.2
      · decide
      · decide
      · exact ih h.2 c hc

theorem toNat_of_isDigit (h : c.isDigit = true) : 48 ≤ c.toNat ∧ c.toNat ≤ 57 := by
  simp only [Char.isDigit, Bool.and_eq_true, decide_eq_true_eq, ge_iff_le, UInt32.le_iff_toNat_le] at h
  exact h

theorem isWhitespace_of_isDigit (h : c.isDigit = true) : isWhitespace c = false := by
  obtain ⟨hlow, hhigh⟩ := toNat_of_isDigit h
  simp only [isWhitespace, Bool.or_eq_false_iff, Bool.and_eq_false_iff, decide_eq_false_iff_not, beq_eq_false_iff_ne]
  omega

/-- A name with a number. -/
def secondsToken (name : String) (n : Nat) : List Char := name.toList ++ '=' :: n.repr.toList

theorem isPrintedToken_secondsToken
    (hname : ∀ c ∈ name.toList, c ≠ '\"' ∧ c ≠ ',' ∧ isWhitespace c = false ∧ IsVisible c) (n : Nat) :
      IsPrintedToken (secondsToken name n) := by
  refine ⟨by simp [secondsToken], fun c hc => ?_⟩
  rcases List.mem_append.mp hc with hc | hc
  · exact hname c hc
  · rcases List.mem_cons.mp hc with rfl | hc
    · decide
    · have hdigit := isDigit_of_mem_repr hc
      obtain ⟨hlow, hhigh⟩ := toNat_of_isDigit hdigit
      exact ⟨by rintro rfl; exact absurd hlow (by decide), by rintro rfl; exact absurd hlow (by decide),
        isWhitespace_of_isDigit hdigit,
        Or.inr ⟨by omega, by omega⟩⟩

theorem directive_secondsToken (hname : ∀ c ∈ name.toList, c ≠ '=' ∧ isWhitespace c = false) (n : Nat) :
    directive (secondsToken name n) = ⟨name.toList, some n.repr.toList⟩ := by
  have hsplit : splitOnce '=' (secondsToken name n) = some (name.toList, n.repr.toList) :=
    splitOnce_append (fun hc => (hname _ hc).1 rfl) _
  have hvalue : normalizeValue n.repr.toList = n.repr.toList := by
    refine if_pos (Or.inr (Or.inl fun hhead => ?_))
    exact absurd (isDigit_of_mem_repr (List.mem_of_mem_head? (Option.mem_def.mpr hhead))) (by decide)
  unfold directive
  rw [hsplit]
  simp only
  rw [trim_of_forall fun c hc => (hname c hc).2, trim_of_forall fun c hc => isWhitespace_of_isDigit (isDigit_of_mem_repr hc),
    hvalue]

end Biei
