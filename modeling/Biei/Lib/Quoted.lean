import Mathlib.Data.List.Basic

/-!
# Texts with quoted strings

Scanning a text from left to right, with double quotes that open and close and, where there are escapes, a backslash in quotes
that takes the next character with it. A text is split where a separator stands outside quotes; the pieces are told by a grammar,
and joining them gives the text back.
-/

namespace Quoted

/-- Where a scanner stands: in a quoted string or not, and after a backslash there or not. -/
structure Mode where
  quoted : Bool
  escaped : Bool
deriving DecidableEq

/-- Outside quotes. -/
def plain : Mode := ⟨false, false⟩

/-- In a quoted string. -/
def inside : Mode := ⟨true, false⟩

variable (escapes : Bool) (sep : Char)

/-- One more character; `none` when it is a separator outside quotes. -/
def advance (m : Mode) (c : Char) : Option Mode :=
  if m.escaped then some { m with escaped := false }
  else if escapes ∧ c = '\\' ∧ m.quoted then some { m with escaped := true }
  else if c = '\"' then some { m with quoted := !m.quoted }
  else if c = sep ∧ !m.quoted then none
  else some m

/-- A text without separators outside quotes. -/
def scan : Mode → List Char → Option Mode
  | m, [] => some m
  | m, c :: text => (advance escapes sep m c).bind fun m' => scan m' text

/-- The pieces between the separators. -/
def pieces : Mode → List Char → List (List Char)
  | _, [] => [[]]
  | m, c :: text =>
    match advance escapes sep m c with
    | none => [] :: pieces plain text
    | some m' => (pieces m' text).modifyHead (c :: ·)

/-! ## The grammar -/

/-- What follows an opening quote, up to the quote that closes it. -/
inductive Closes : List Char → Prop where
  | close : Closes ['\"']
  | char {c : Char} {text : List Char} : c ≠ '\"' → (escapes = true → c ≠ '\\') → Closes text → Closes (c :: text)
  | escape {c : Char} {text : List Char} : escapes = true → Closes text → Closes ('\\' :: c :: text)

/-- A text whose quotes are closed and whose separators are all in them. -/
inductive Balanced : List Char → Prop where
  | nil : Balanced []
  | char {c : Char} {text : List Char} : c ≠ '\"' → c ≠ sep → Balanced text → Balanced (c :: text)
  | quoted {body text : List Char} : Closes escapes body → Balanced text → Balanced ('\"' :: (body ++ text))

/-- A text whose last quote is never closed. -/
def Unterminated (text : List Char) : Prop :=
  ∃ head tail, text = head ++ '\"' :: tail ∧ Balanced escapes sep head ∧ ∀ body, body <+: tail → ¬ Closes escapes body

variable {escapes sep}

/-! ## Scanning -/

theorem scan_append (m : Mode) (head rest : List Char) :
    scan escapes sep m (head ++ rest) = (scan escapes sep m head).bind fun m' => scan escapes sep m' rest := by
  induction head generalizing m with
  | nil => rfl
  | cons c head ih =>
    simp only [List.cons_append, scan]
    cases advance escapes sep m c with
    | none => rfl
    | some m' => exact ih m'

variable {c : Char}

/-- Only a separator ends a piece, and only outside quotes. -/
theorem advance_eq_none_iff (hsep : sep ≠ '\"') {m : Mode} : advance escapes sep m c = none ↔ m = plain ∧ c = sep := by
  constructor
  · intro h
    unfold advance at h
    obtain ⟨quoted, escaped⟩ := m
    split at h
    · nomatch h
    · rename_i hescaped
      split at h
      · nomatch h
      · split at h
        · nomatch h
        · split at h
          · rename_i hend
            obtain ⟨hc, hquoted⟩ := hend
            exact ⟨Mode.mk.injEq .. ▸ ⟨by simpa using hquoted, by simpa using hescaped⟩, hc⟩
          · nomatch h
  · rintro ⟨rfl, rfl⟩
    simp [advance, plain, hsep]

theorem advance_plain_of_ne (hquote : c ≠ '\"') (hc : c ≠ sep) : advance escapes sep plain c = some plain := by
  simp [advance, plain, hquote, hc]

theorem advance_plain_quote : advance escapes sep plain '\"' = some inside := by
  simp [advance, plain, inside]

theorem advance_inside_quote : advance escapes sep inside '\"' = some plain := by
  simp [advance, plain, inside]

theorem advance_inside_of_ne (hquote : c ≠ '\"') (hescape : escapes = true → c ≠ '\\') :
    advance escapes sep inside c = some inside := by
  simp only [advance, inside, hquote]
  cases escapes
  · simp
  · simp [hescape rfl]

/-- A backslash in quotes takes the next character with it. -/
theorem scan_inside_escape (hescapes : escapes = true) (c : Char) (text : List Char) :
    scan escapes sep inside ('\\' :: c :: text) = scan escapes sep inside text := by
  subst hescapes
  simp [scan, advance, inside]

/-- After the closing quote the scan is outside quotes. -/
theorem scan_closes {body : List Char} (h : Closes escapes body) (rest : List Char) :
    scan escapes sep inside (body ++ rest) = scan escapes sep plain rest := by
  induction h with
  | close => rw [List.singleton_append, scan, advance_inside_quote, Option.bind_some]
  | char hquote hescape _ ih => rw [List.cons_append, scan, advance_inside_of_ne hquote hescape, Option.bind_some, ih]
  | escape hescapes _ ih => rw [List.cons_append, List.cons_append, scan_inside_escape hescapes, ih]

variable {text : List Char}

theorem scan_balanced (h : Balanced escapes sep text) (rest : List Char) :
    scan escapes sep plain (text ++ rest) = scan escapes sep plain rest := by
  induction h with
  | nil => rfl
  | char hquote hc _ ih => rw [List.cons_append, scan, advance_plain_of_ne hquote hc, Option.bind_some, ih]
  | quoted hbody _ ih => rw [List.cons_append, scan, advance_plain_quote, Option.bind_some, List.append_assoc,
      scan_closes hbody, ih]

theorem Closes.ne_nil {body : List Char} (h : Closes escapes body) : body ≠ [] := by
  cases h <;> exact List.cons_ne_nil _ _

theorem balanced_of_forall (h : ∀ c ∈ text, c ≠ '\"' ∧ c ≠ sep) : Balanced escapes sep text := by
  induction text with
  | nil => exact Balanced.nil
  | cons c text ih =>
    rw [List.forall_mem_cons] at h
    exact Balanced.char h.1.1 h.1.2 (ih h.2)

theorem Balanced.append {head tail : List Char} (h : Balanced escapes sep head) (h' : Balanced escapes sep tail) :
    Balanced escapes sep (head ++ tail) := by
  induction h with
  | nil => exact h'
  | char hquote hc _ ih => exact Balanced.char hquote hc ih
  | quoted hbody _ ih =>
    rw [List.cons_append, List.append_assoc]
    exact Balanced.quoted hbody ih

/-- A closing text begins with the quote, with another character that it goes on after, or with an escape. -/
theorem closes_cons (h : Closes escapes (c :: text)) :
    (c = '\"' ∧ text = []) ∨ (c ≠ '\"' ∧ (escapes = true → c ≠ '\\') ∧ Closes escapes text) ∨
      (escapes = true ∧ c = '\\' ∧ ∃ d rest, text = d :: rest ∧ Closes escapes rest) := by
  cases h with
  | close => exact Or.inl ⟨rfl, rfl⟩
  | char hquote hescape h => exact Or.inr (Or.inl ⟨hquote, hescape, h⟩)
  | escape hescapes h => exact Or.inr (Or.inr ⟨hescapes, rfl, _, _, rfl, h⟩)

variable (escapes sep) in
/-- In quotes, a text closes them somewhere, or all of it is in them. -/
theorem closes_or_quoted : ∀ text : List Char,
    (∃ body rest, text = body ++ rest ∧ Closes escapes body) ∨
      ((∀ body, body <+: text → ¬ Closes escapes body) ∧ ∃ m, scan escapes sep inside text = some m ∧ m.quoted = true)
  | [] => Or.inr ⟨fun body hbody h => h.ne_nil (List.prefix_nil.mp hbody), inside, rfl, rfl⟩
  | c :: text => by
    by_cases hquote : c = '\"'
    · subst hquote
      exact Or.inl ⟨['\"'], text, rfl, Closes.close⟩
    by_cases hescape : escapes = true ∧ c = '\\'
    · obtain ⟨hescapes, rfl⟩ := hescape
      match text with
      | [] =>
        refine Or.inr ⟨fun body hbody h => ?_, ⟨true, true⟩, ?_, rfl⟩
        · rcases List.prefix_cons_iff.mp hbody with rfl | ⟨rest, rfl, hrest⟩
          · exact h.ne_nil rfl
          · cases List.prefix_nil.mp hrest
            rcases closes_cons h with ⟨heq, -⟩ | ⟨-, -, hclose⟩ | ⟨-, -, d, rest, heq, -⟩
            · exact hquote heq
            · exact hclose.ne_nil rfl
            · nomatch heq
        · subst hescapes
          simp [scan, advance, inside]
      | d :: text =>
        rcases closes_or_quoted text with ⟨body, rest, rfl, hbody⟩ | ⟨hnone, m, hm, hquoted⟩
        · exact Or.inl ⟨'\\' :: d :: body, rest, rfl, Closes.escape hescapes hbody⟩
        · refine Or.inr ⟨fun body hbody h => ?_, m, by rw [scan_inside_escape hescapes, hm], hquoted⟩
          rcases List.prefix_cons_iff.mp hbody with rfl | ⟨rest, rfl, hrest⟩
          · exact h.ne_nil rfl
          · rcases closes_cons h with ⟨heq, -⟩ | ⟨-, hne, -⟩ | ⟨-, -, e, rest, rfl, hclose⟩
            · exact hquote heq
            · exact hne hescapes rfl
            · exact hnone rest (List.cons_prefix_cons.mp hrest).2 hclose
    · have hne : escapes = true → c ≠ '\\' := fun h heq => hescape ⟨h, heq⟩
      rcases closes_or_quoted text with ⟨body, rest, rfl, hbody⟩ | ⟨hnone, m, hm, hquoted⟩
      · exact Or.inl ⟨c :: body, rest, rfl, Closes.char hquote hne hbody⟩
      · refine Or.inr ⟨fun body hbody h => ?_, m, by rw [scan, advance_inside_of_ne hquote hne, Option.bind_some, hm], hquoted⟩
        rcases List.prefix_cons_iff.mp hbody with rfl | ⟨rest, rfl, hrest⟩
        · exact h.ne_nil rfl
        · rcases closes_cons h with ⟨heq, -⟩ | ⟨-, -, hclose⟩ | ⟨hescapes, heq, -⟩
          · exact hquote heq
          · exact hnone rest hrest hclose
          · exact hne hescapes heq

/-- A text without separators outside quotes is balanced, or its last quote is not closed. -/
theorem balanced_or_unterminated (hsep : sep ≠ '\"') : ∀ {text : List Char} {m : Mode}, scan escapes sep plain text = some m →
    (m = plain ∧ Balanced escapes sep text) ∨ (m.quoted = true ∧ Unterminated escapes sep text)
  | [], m, h => Or.inl ⟨(Option.some.inj h).symm, Balanced.nil⟩
  | c :: text, m, h => by
    by_cases hquote : c = '\"'
    · subst hquote
      rw [scan, advance_plain_quote, Option.bind_some] at h
      rcases closes_or_quoted escapes sep text with ⟨body, rest, rfl, hbody⟩ | ⟨hnone, m', hm', hquoted⟩
      · rw [scan_closes hbody] at h
        have hshorter : rest.length < ('\"' :: (body ++ rest)).length := by
          rw [List.length_cons, List.length_append]
          omega
        rcases balanced_or_unterminated hsep h with ⟨hm, hrest⟩ | ⟨hm, head, tail, rfl, hhead, htail⟩
        · exact Or.inl ⟨hm, Balanced.quoted hbody hrest⟩
        · exact Or.inr ⟨hm, '\"' :: (body ++ head), tail, by simp, Balanced.quoted hbody hhead, htail⟩
      · rw [hm'] at h
        exact Or.inr ⟨Option.some.inj h ▸ hquoted, [], text, rfl, Balanced.nil, hnone⟩
    · by_cases hc : c = sep
      · subst hc
        rw [scan, (advance_eq_none_iff hsep).mpr ⟨rfl, rfl⟩] at h
        nomatch h
      · rw [scan, advance_plain_of_ne hquote hc, Option.bind_some] at h
        rcases balanced_or_unterminated hsep h with ⟨hm, hrest⟩ | ⟨hm, head, tail, rfl, hhead, htail⟩
        · exact Or.inl ⟨hm, Balanced.char hquote hc hrest⟩
        · exact Or.inr ⟨hm, c :: head, tail, rfl, Balanced.char hquote hc hhead, htail⟩
  termination_by text => text.length

/-- A text is balanced where the scan ends outside quotes. -/
theorem scan_eq_plain_iff (hsep : sep ≠ '\"') : scan escapes sep plain text = some plain ↔ Balanced escapes sep text := by
  constructor
  · intro h
    rcases balanced_or_unterminated hsep h with ⟨-, hbalanced⟩ | ⟨hquoted, -⟩
    · exact hbalanced
    · nomatch hquoted
  · intro h
    have hscan := scan_balanced h []
    rwa [List.append_nil] at hscan

/-- The scan of an unterminated text ends in quotes. -/
theorem scan_unterminated (h : Unterminated escapes sep text) :
    ∃ m, scan escapes sep plain text = some m ∧ m.quoted = true := by
  obtain ⟨head, tail, rfl, hhead, htail⟩ := h
  rw [scan_balanced hhead, scan, advance_plain_quote, Option.bind_some]
  rcases closes_or_quoted escapes sep tail with ⟨body, rest, rfl, hbody⟩ | ⟨-, hm⟩
  · exact absurd hbody (htail body (List.prefix_append _ _))
  · exact hm

/-! ## Pieces -/

theorem pieces_ne_nil (m : Mode) (text : List Char) : pieces escapes sep m text ≠ [] := by
  induction text generalizing m with
  | nil => exact List.cons_ne_nil _ _
  | cons c text ih =>
    unfold pieces
    split
    · exact List.cons_ne_nil _ _
    · rw [Ne, List.modifyHead_eq_nil_iff]
      exact ih _

/-- Text that no separator ends lengthens the first piece of what follows it. -/
theorem pieces_append {m m' : Mode} {head : List Char} (h : scan escapes sep m head = some m') (rest : List Char) :
    pieces escapes sep m (head ++ rest) = (pieces escapes sep m' rest).modifyHead (head ++ ·) := by
  induction head generalizing m with
  | nil =>
    rw [List.nil_append, ← Option.some.inj h]
    cases pieces escapes sep m rest <;> rfl
  | cons c head ih =>
    rw [scan, Option.bind_eq_some_iff] at h
    obtain ⟨next, hnext, h⟩ := h
    rw [List.cons_append, pieces, hnext]
    simp only [ih h, List.modifyHead_modifyHead]
    rfl

theorem pieces_of_scan {m m' : Mode} (h : scan escapes sep m text = some m') : pieces escapes sep m text = [text] := by
  have hpieces := pieces_append h []
  rwa [List.append_nil, pieces, List.modifyHead_cons, List.append_nil] at hpieces

/-- Balanced text up to a separator is a piece. -/
theorem pieces_balanced (hsep : sep ≠ '\"') {head : List Char} (h : Balanced escapes sep head) (rest : List Char) :
    pieces escapes sep plain (head ++ sep :: rest) = head :: pieces escapes sep plain rest := by
  rw [pieces_append ((scan_eq_plain_iff hsep).mpr h), pieces, (advance_eq_none_iff hsep).mpr ⟨rfl, rfl⟩]
  simp

variable (escapes) in
/-- Every text is made of pieces: balanced ones, and a last one whose quotes may stay open. -/
theorem exists_pieces (hsep : sep ≠ '\"') (text : List Char) : ∃ init last, pieces escapes sep plain text = init ++ [last] ∧
    text = [sep].intercalate (init ++ [last]) ∧ (∀ piece ∈ init, Balanced escapes sep piece) ∧
    (Balanced escapes sep last ∨ Unterminated escapes sep last) := by
  -- The induction is on the text after what has been scanned of its first piece.
  suffices h : ∀ (rest head : List Char) (m : Mode), scan escapes sep plain head = some m →
      ∃ init last, pieces escapes sep plain (head ++ rest) = init ++ [last] ∧ head ++ rest = [sep].intercalate (init ++ [last]) ∧
        (∀ piece ∈ init, Balanced escapes sep piece) ∧ (Balanced escapes sep last ∨ Unterminated escapes sep last) by
    exact h text [] plain rfl
  intro rest
  induction rest with
  | nil =>
    intro head m hm
    refine ⟨[], head, ?_, by simp, by simp, (balanced_or_unterminated hsep hm).imp And.right And.right⟩
    rw [List.append_nil, pieces_of_scan hm]
    rfl
  | cons c rest ih =>
    intro head m hm
    cases hc : advance escapes sep m c with
    | none =>
      obtain ⟨rfl, rfl⟩ := (advance_eq_none_iff hsep).mp hc
      have hhead := (scan_eq_plain_iff hsep).mp hm
      obtain ⟨init, last, hpieces, hjoin, hinit, hlast⟩ := ih [] plain rfl
      refine ⟨head :: init, last, ?_, ?_, List.forall_mem_cons.mpr ⟨hhead, hinit⟩, hlast⟩
      · rw [pieces_balanced hsep hhead, ← List.nil_append rest, hpieces]
        rfl
      · rw [List.nil_append] at hjoin
        rw [hjoin]
        cases init <;> simp
    | some next =>
      have hlonger : scan escapes sep plain (head ++ [c]) = some next := by
        rw [scan_append, hm, Option.bind_some, scan, hc, Option.bind_some, scan]
      have hih := ih (head ++ [c]) next hlonger
      rwa [List.append_assoc, List.singleton_append] at hih

/-- Joined pieces are split again. -/
theorem pieces_intercalate (hsep : sep ≠ '\"') {init : List (List Char)} {last : List Char}
    (hinit : ∀ piece ∈ init, Balanced escapes sep piece) (hlast : Balanced escapes sep last ∨ Unterminated escapes sep last) :
    pieces escapes sep plain ([sep].intercalate (init ++ [last])) = init ++ [last] := by
  induction init with
  | nil =>
    simp only [List.nil_append, List.intercalate_singleton]
    rcases hlast with hlast | hlast
    · exact pieces_of_scan ((scan_eq_plain_iff hsep).mpr hlast)
    · obtain ⟨m, hm, -⟩ := scan_unterminated hlast
      exact pieces_of_scan hm
  | cons head init ih =>
    rw [List.forall_mem_cons] at hinit
    have hjoin : [sep].intercalate (head :: init ++ [last]) = head ++ sep :: [sep].intercalate (init ++ [last]) := by
      cases init <;> simp
    rw [hjoin, pieces_balanced hsep hinit.1, ih hinit.2]
    rfl

/-- Balanced pieces that are joined are split again. -/
theorem pieces_intercalate_balanced (hsep : sep ≠ '\"') {items : List (List Char)} (hne : items ≠ [])
    (h : ∀ item ∈ items, Balanced escapes sep item) : pieces escapes sep plain ([sep].intercalate items) = items := by
  rw [← List.dropLast_append_getLast hne]
  exact pieces_intercalate hsep (fun item hitem => h item (List.dropLast_subset items hitem))
    (Or.inl (h _ (List.getLast_mem hne)))

/-- What is joined is made of the pieces and of separators. -/
theorem forall_mem_intercalate {P : Char → Prop} (hsep : P sep) {items : List (List Char)} (h : ∀ item ∈ items, ∀ c ∈ item, P c) :
    ∀ c ∈ [sep].intercalate items, P c := by
  induction items with
  | nil => nofun
  | cons item items ih =>
    rw [List.forall_mem_cons] at h
    cases items with
    | nil => simpa using h.1
    | cons next items =>
      simp only [List.intercalate_cons_cons, List.forall_mem_append, List.forall_mem_singleton]
      exact ⟨⟨h.1, hsep⟩, ih h.2⟩

end Quoted
