import Biei.Http.Headers
import Biei.Lib.Quoted

/-!
# The grammar of Accept

Lists of media ranges with their parameters, each with the blanks around it, and their texts: tokens, quoted strings with escapes,
and weights with at most three decimals.
-/

namespace Biei.Accept

open Quoted

/-! ## Texts -/

/-- Optional white space. -/
def IsBlankText (text : List Char) : Prop := ∀ c ∈ text, c = ' ' ∨ c = '\t'

instance : DecidablePred IsBlankText := fun text => inferInstanceAs (Decidable (∀ c ∈ text, _))

/-- `tchar`: a letter, a digit or one of fifteen marks. -/
def isTokenChar (c : Char) : Bool :=
  c.isAlphanum || c.toNat ∈ [33, 35, 36, 37, 38, 39, 42, 43, 45, 46, 94, 95, 96, 124, 126]

def IsToken (text : List Char) : Prop := text ≠ [] ∧ ∀ c ∈ text, isTokenChar c = true

instance : DecidablePred IsToken := fun _ => inferInstanceAs (Decidable (_ ∧ _))

/-- What may stand in a quoted string: tabs, visible characters and `obs-text`, a character for each byte. -/
def IsQuotedChar (c : Char) : Prop := IsVisible c ∨ (128 ≤ c.toNat ∧ c.toNat < 256)

/-- What follows the opening quote of a quoted string. -/
structure IsQuotedBody (body : List Char) : Prop where
  closes : Closes true body
  chars : ∀ c ∈ body, IsQuotedChar c

/-- `qvalue`. -/
inductive IsQvalue : List Char → Prop where
  | zero : IsQvalue ['0']
  | fraction {digits : List Char} : digits.length ≤ 3 → (∀ c ∈ digits, c.isDigit = true) → IsQvalue ('0' :: '.' :: digits)
  | one : IsQvalue ['1']
  | whole {digits : List Char} : digits.length ≤ 3 → (∀ c ∈ digits, c = '0') → IsQvalue ('1' :: '.' :: digits)

/-- A weight that is not zero. -/
def IsNonzero (q : List Char) : Prop := ∃ c ∈ q, c ≠ '0' ∧ c ≠ '.'

/-! ## Ranges -/

structure Parameter where
  /-- The blanks before and after the semicolon. -/
  before : List Char
  after : List Char
  name : List Char
  value : List Char
  before_blank : IsBlankText before
  after_blank : IsBlankText after
  name_token : IsToken name
  value_valid : IsToken value ∨ ∃ body, value = '\"' :: body ∧ IsQuotedBody body

namespace Parameter

/-- The parameter without its blanks. -/
def content (p : Parameter) : List Char := p.name ++ '=' :: p.value

def text (p : Parameter) : List Char := p.before ++ ';' :: (p.after ++ p.content)

def isWeight (p : Parameter) : Bool := eqIgnoreAsciiCase p.name ['q']

end Parameter

structure MediaRange where
  lead : List Char
  mediaType : List Char
  parameters : List Parameter
  trail : List Char
  lead_blank : IsBlankText lead
  trail_blank : IsBlankText trail
  type_tokens : ∃ main sub, mediaType = main ++ '/' :: sub ∧ IsToken main ∧ IsToken sub
  weights_le : (parameters.filter Parameter.isWeight).length ≤ 1
  weights_valid : ∀ p ∈ parameters, p.isWeight = true → IsQvalue p.value

namespace MediaRange

def text (r : MediaRange) : List Char := r.lead ++ r.mediaType ++ (r.parameters.flatMap Parameter.text ++ r.trail)

/-- The weight of the range, if it names one. -/
def weight? (r : MediaRange) : Option (List Char) := (r.parameters.find? Parameter.isWeight).map Parameter.value

/-- The range is acceptable: its weight is absent, or not zero. -/
def Acceptable (r : MediaRange) : Prop := ∀ q, r.weight? = some q → IsNonzero q

end MediaRange

/-! ## Fields -/

/-- An element of a list: a range, or nothing but blanks. -/
inductive Element where
  | blank (text : List Char) (h : IsBlankText text)
  | range (r : MediaRange)

def Element.text : Element → List Char
  | .blank text _ => text
  | .range r => r.text

abbrev Field := List Element

namespace Field

def text (f : Field) : List Char := [','].intercalate (f.map Element.text)

/-- The field as it is sent: a byte for each character. -/
def bytes (f : Field) : Bytes := f.text.map fun c => UInt8.ofNat c.toNat

/-- The field is a text for the server: nothing in it is `obs-text`. -/
def IsText (f : Field) : Prop := ∀ c ∈ f.text, IsVisible c

end Field

end Biei.Accept
