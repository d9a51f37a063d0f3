import Biei.Http.Accept
import Biei.Ishikari.ProviderWire

/-!
# The grammar of If-None-Match

Lists of entity tags, or a star, with the blanks around them. A character stands for a byte, so that tags may hold `obs-text`.
-/

namespace Biei.EntityTags

open Accept (IsBlankText)

/-- `etagc`: any visible character but the quote, and `obs-text`. -/
def IsEtagChar (c : Char) : Prop := c.toNat = 33 ∨ (35 ≤ c.toNat ∧ c.toNat < 127) ∨ (128 ≤ c.toNat ∧ c.toNat < 256)

instance : DecidablePred IsEtagChar := fun _ => inferInstanceAs (Decidable (_ ∨ _))

structure EntityTag where
  weak : Bool
  /-- What stands between the quotes. -/
  body : List Char
  valid : ∀ c ∈ body, IsEtagChar c

namespace EntityTag

/-- The tag without its weakness. -/
def strong (t : EntityTag) : List Char := '\"' :: (t.body ++ ['\"'])

def text (t : EntityTag) : List Char := if t.weak then 'W' :: '/' :: t.strong else t.strong

end EntityTag

/-- An element of a list: a tag between blanks, or nothing but blanks. -/
inductive Element where
  | blank (text : List Char) (h : IsBlankText text)
  | tag (lead : List Char) (t : EntityTag) (trail : List Char) (hlead : IsBlankText lead) (htrail : IsBlankText trail)

def Element.text : Element → List Char
  | .blank text _ => text
  | .tag lead t trail _ _ => lead ++ t.text ++ trail

inductive Field where
  | star (lead trail : List Char) (hlead : IsBlankText lead) (htrail : IsBlankText trail)
  | list (elements : List Element)

namespace Field

def text : Field → List Char
  | star lead trail _ _ => lead ++ '*' :: trail
  | list elements => [','].intercalate (elements.map Element.text)

/-- The field as it is sent: a byte for each character. -/
def bytes (f : Field) : Bytes := f.text.map fun c => UInt8.ofNat c.toNat

/-- The field is a text for the server: nothing in it is `obs-text`. -/
def IsText (f : Field) : Prop := ∀ c ∈ f.text, IsVisible c

def IsStar : Field → Prop
  | star .. => True
  | list _ => False

/-- The tag is in the list. -/
def Lists (f : Field) (t : EntityTag) : Prop :=
  ∃ elements lead trail hlead htrail, f = list elements ∧ Element.tag lead t trail hlead htrail ∈ elements

/-- A list with an element that is nothing but blanks, or with no element at all. -/
def HasBlank : Field → Prop
  | star .. => False
  | list elements => elements = [] ∨ ∃ text h, Element.blank text h ∈ elements

end Field

end Biei.EntityTags

/-! ## Conditional requests

The validators of `conditional.rs` with any time of the clock, also one before the epoch, which no validator of the servers has.
-/

namespace Biei.Ishikari.Conditional

/-- A point of the system's clock, in nanoseconds after `UNIX_EPOCH`, or before it where it is negative. -/
abbrev ClockTime := Int

structure Validators where
  etag : Option (List Char)
  lastModified : Option ClockTime

/-- The validators that resources carry. -/
def ofProvider (validators : Provider.Validators) : Validators := ⟨validators.etag, validators.lastModified.map Int.ofNat⟩

/-- `last_modified_http_date`; nothing when it panics, as it does before the epoch. -/
def lastModifiedHttpDate (env : WireEnv) (validators : Validators) : Option (Option (List Char)) :=
  match validators.lastModified with
  | none => some none
  | some time => if 0 ≤ time then (env.fmtHttpDate time.toNat).map some else none

/-- `Validators::apply`; nothing when it panics. -/
def apply (env : WireEnv) (validators : Validators) (headers : HeaderMap) : Option HeaderMap :=
  (lastModifiedHttpDate env validators).map fun lastModified =>
    (headers.insertText "etag" validators.etag).insertText "last-modified" lastModified

def truncateToSeconds (time : ClockTime) : ClockTime := if 0 ≤ time then time / second * second else time

def notModified (env : WireEnv) (validators : Validators) (request : HeaderMap) : Bool :=
  if !(request.getAll "if-none-match").isEmpty then
    (request.getAllStr "if-none-match").any fun value => ifNoneMatchMatches value validators.etag
  else
    match (request.getAll "if-modified-since").head?, validators.lastModified with
    | some value, some lastModified =>
      match (headerToStr value).bind env.parseHttpDate with
      | some since => decide (truncateToSeconds lastModified ≤ (since : ClockTime))
      | none => false
    | _, _ => false

/-- A time after the epoch loses what is past the second. -/
theorem truncateToSeconds_ofNat (t : SystemTime) : truncateToSeconds (Int.ofNat t) = Int.ofNat (t / second * second) := by
  have hnonneg : (0 : ClockTime) ≤ Int.ofNat t := Int.natCast_nonneg t
  rw [truncateToSeconds, if_pos hnonneg]
  rfl

/-- What is served of a resource is told by its validators here. -/
theorem notModified_ofProvider (env : WireEnv) (validators : Provider.Validators) (request : HeaderMap) :
    notModified env (ofProvider validators) request = Ishikari.notModified env validators request := by
  obtain ⟨etag, lastModified⟩ := validators
  unfold notModified Ishikari.notModified ofProvider
  split
  · rfl
  · cases (request.getAll "if-modified-since").head? with
    | none => rfl
    | some value =>
      cases lastModified with
      | none => rfl
      | some lastModified =>
        simp only [Option.map_some, truncateToSeconds_ofNat]
        cases (headerToStr value).bind env.parseHttpDate with
        | none => rfl
        | some since => exact decide_eq_decide.mpr Int.ofNat_le

end Biei.Ishikari.Conditional
