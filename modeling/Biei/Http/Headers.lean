import Biei.Text

/-!
# Headers

Header maps as `http` has them, and the readings of them that the servers share.
-/

namespace Biei

/-- `HeaderMap`: names in lower case, with their raw values. -/
structure HeaderMap where
  entries : List (String × Bytes)

def HeaderMap.getAll (headers : HeaderMap) (name : String) : List Bytes :=
  (headers.entries.filter fun entry => entry.1 == name).map Prod.snd

/-- `to_str` of a header value: visible ASCII and tabs only. -/
def headerToStr (value : Bytes) : Option (List Char) :=
  if value.all fun b => b == 9 || (32 ≤ b && b < 127) then some (value.map fun b => Char.ofNat b.toNat) else none

/-- `HeaderValue::from_str`, and `from_bytes`: no control characters, other than tabs. -/
def headerFromText (text : List Char) : Option Bytes :=
  let bytes := utf8 (String.ofList text)
  if bytes.all fun b => b == 9 || (32 ≤ b && b != 127) then some bytes else none

/-- `headers.insert(name, value)`. -/
def HeaderMap.insert (headers : HeaderMap) (name : String) (value : Bytes) : HeaderMap :=
  ⟨(headers.entries.filter fun entry => entry.1 != name) ++ [(name, value)]⟩

/-- `headers.insert` of a text, if there is one and it is a header value. -/
def HeaderMap.insertText (headers : HeaderMap) (name : String) (text : Option (List Char)) : HeaderMap :=
  match text.bind headerFromText with
  | some value => headers.insert name value
  | none => headers

def isBlank (b : UInt8) : Bool := b == 32 || b == 9

/-- A field value as it is received: without the blanks around it. -/
def fieldValue (value : Bytes) : Bytes := ((value.dropWhile isBlank).reverse.dropWhile isBlank).reverse

/-- Visible ASCII, and tabs. -/
def IsVisible (c : Char) : Prop := c.toNat = 9 ∨ (32 ≤ c.toNat ∧ c.toNat < 127)

/-- A text that comes through a header as it is: of visible characters, with no blanks around it. -/
structure IsFieldText (text : List Char) : Prop where
  visible : ∀ c ∈ text, IsVisible c
  head : ∀ c ∈ text.head?, c ≠ ' ' ∧ c ≠ '\t'
  last : ∀ c ∈ text.getLast?, c ≠ ' ' ∧ c ≠ '\t'

/-- Headers as they are received. -/
def HeaderMap.received (headers : HeaderMap) : HeaderMap := ⟨headers.entries.map fun entry => (entry.1, fieldValue entry.2)⟩

/-- `char::is_whitespace`: the code points with the property `White_Space`. -/
def isWhitespace (c : Char) : Bool :=
  (9 ≤ c.toNat && c.toNat ≤ 13) || c.toNat == 0x20 || c.toNat == 0x85 || c.toNat == 0xa0 || c.toNat == 0x1680 ||
    (0x2000 ≤ c.toNat && c.toNat ≤ 0x200a) || c.toNat == 0x2028 || c.toNat == 0x2029 || c.toNat == 0x202f || c.toNat == 0x205f ||
    c.toNat == 0x3000

/-- `str::trim`. -/
def trim (text : List Char) : List Char := ((text.dropWhile isWhitespace).reverse.dropWhile isWhitespace).reverse

/-- `eq_ignore_ascii_case`. -/
def eqIgnoreAsciiCase (a b : List Char) : Bool := a.map Char.toLower == b.map Char.toLower

/-- `headers.get(name)` as a text. -/
def HeaderMap.getStr (headers : HeaderMap) (name : String) : Option (List Char) := (headers.getAll name).head?.bind headerToStr

/-- `headers.get_all(name)`, those that are texts. -/
def HeaderMap.getAllStr (headers : HeaderMap) (name : String) : List (List Char) := (headers.getAll name).filterMap headerToStr

/-! ## Dates

The system's clock, and the dates in headers, which `httpdate` reads. -/

/-- A point of the system's clock, in nanoseconds after `UNIX_EPOCH`. -/
abbrev SystemTime := Nat

def unixEpoch : SystemTime := 0

def second : Nat := 1000000000

/-- What `SystemTime` can represent: seconds in an `i64`. -/
def systemTimeBound : Nat := 2 ^ 63 * second

/-- `SystemTime::checked_add`. -/
def checkedAddTime (t : SystemTime) (d : Duration) : Option SystemTime := if t + d < systemTimeBound then some (t + d) else none

/-- `SystemTime::duration_since`, when it is not negative. -/
def durationSince (t earlier : SystemTime) : Option Duration := if earlier ≤ t then some (t - earlier) else none

/-- What is needed of code that is not here: `httpdate::parse_http_date`. -/
structure HttpEnv where
  parseHttpDate : List Char → Option SystemTime

def headerDate (env : HttpEnv) (headers : HeaderMap) (name : String) : Option SystemTime :=
  (headers.getStr name).bind env.parseHttpDate

/-! ## Cache-Control

The directives of `Cache-Control` as `mmpf-http` reads them. A number that is repeated keeps its smallest value, and one that is
malformed counts as zero, so that no order of the fields makes a response fresh for longer. -/

structure Directive where
  name : List Char
  value : Option (List Char)
deriving DecidableEq

/-- The pieces between commas that are not in quotes. A quote that is not closed takes the rest. -/
def splitUnquoted (quoted escaped : Bool) (token : List Char) : List Char → List (List Char)
  | [] => [token.reverse]
  | c :: rest =>
    if escaped then splitUnquoted quoted false (c :: token) rest
    else if c = '\\' ∧ quoted then splitUnquoted quoted true (c :: token) rest
    else if c = '\"' then splitUnquoted (!quoted) false (c :: token) rest
    else if c = ',' ∧ !quoted then token.reverse :: splitUnquoted false false [] rest
    else splitUnquoted quoted false (c :: token) rest

/-- Whether an escape is still open, or `none` when a bare quote occurs. -/
def quotedEscape (escaped : Bool) : List Char → Option Bool
  | [] => some escaped
  | c :: rest =>
    if escaped then quotedEscape false rest
    else if c = '\\' then quotedEscape true rest
    else if c = '\"' then none
    else quotedEscape false rest

/-- `normalize_value`: without the quotes that surround it, when they are complete. -/
def normalizeValue (value : List Char) : List Char :=
  if value.length < 2 ∨ value.head? ≠ some '\"' ∨ value.getLast? ≠ some '\"' then value
  else
    match quotedEscape false value.tail.dropLast with
    | some false => value.tail.dropLast
    | some true => value
    | none => value

def directive (token : List Char) : Directive :=
  match splitOnce '=' token with
  | some (name, value) => ⟨trim name, some (normalizeValue (trim value))⟩
  | none => ⟨token, none⟩

def directives (value : List Char) : List Directive :=
  (((splitUnquoted false false [] value).map trim).filter fun token => !token.isEmpty).map directive

def Directive.nameEq (d : Directive) (expected : String) : Bool := eqIgnoreAsciiCase d.name expected.toList

/-- `parse_delta_seconds`: decimal digits, saturating at the largest `u64`. -/
def parseDeltaSeconds (value : List Char) : Option Nat :=
  if value.isEmpty || !value.all Char.isDigit then none
  else some (value.foldl (fun seconds c => min (min (seconds * 10) (u64Bound - 1) + (c.toNat - 48)) (u64Bound - 1)) 0)

def Directive.deltaSeconds (d : Directive) : Option Nat := d.value.bind parseDeltaSeconds

structure ParsedCacheControl where
  noStore : Bool := false
  noCache : Bool := false
  «private» : Bool := false
  mustRevalidate : Bool := false
  proxyRevalidate : Bool := false
  noTransform : Bool := false
  immutable : Bool := false
  maxAge : Option Nat := none
  sMaxage : Option Nat := none
  staleWhileRevalidate : Option Nat := none
deriving DecidableEq

/-- `merge_conservative`. -/
def mergeConservative (target parsed : Option Nat) : Option Nat :=
  let candidate := parsed.getD 0
  some (match target with | some current => min current candidate | none => candidate)

/-- What one directive changes. -/
def ParsedCacheControl.apply (control : ParsedCacheControl) (d : Directive) : ParsedCacheControl :=
  if d.nameEq "no-store" then { control with noStore := true }
  else if d.nameEq "no-cache" then { control with noCache := true }
  else if d.nameEq "private" then { control with «private» := true }
  else if d.nameEq "must-revalidate" then { control with mustRevalidate := true }
  else if d.nameEq "proxy-revalidate" then { control with proxyRevalidate := true }
  else if d.nameEq "no-transform" then { control with noTransform := true }
  else if d.nameEq "immutable" then { control with immutable := true }
  else if d.nameEq "max-age" then { control with maxAge := mergeConservative control.maxAge d.deltaSeconds }
  else if d.nameEq "s-maxage" then { control with sMaxage := mergeConservative control.sMaxage d.deltaSeconds }
  else if d.nameEq "stale-while-revalidate" then
    { control with staleWhileRevalidate := mergeConservative control.staleWhileRevalidate d.deltaSeconds }
  else control

/-- `parse_values`: every field, or `none` when there is none. -/
def parseValues (values : List (List Char)) : Option ParsedCacheControl :=
  if values.isEmpty then none else some ((values.flatMap directives).foldl ParsedCacheControl.apply {})

/-! ## The directive iterator

How `mmpf-http` walks through a field: bytes are scanned up to a comma outside quotes, and the text is sliced there. A slice that
is not at a character boundary would panic. -/

/-- `&text[..index]` and `&text[index..]`, where the index is at a character boundary. -/
def splitAtByte : Nat → List Char → Option (List Char × List Char)
  | 0, text => some ([], text)
  | _ + 1, [] => none
  | index + 1, c :: text =>
    if c.utf8Size ≤ index + 1 then (splitAtByte (index + 1 - c.utf8Size) text).map fun (head, tail) => (c :: head, tail) else none

/-- The loop of `Directives::next`: how many bytes come before a comma outside quotes, or the end. -/
def boundary (quoted escaped : Bool) : Bytes → Nat
  | [] => 0
  | byte :: rest =>
    if escaped then boundary quoted false rest + 1
    else if byte = 0x5c ∧ quoted then boundary quoted true rest + 1
    else if byte = 0x22 then boundary (!quoted) false rest + 1
    else if byte = 0x2c ∧ !quoted then 0
    else boundary quoted false rest + 1

/-- One turn of `Directives::next`: the token, and what remains. -/
def Directives.advance (remaining : List Char) : Option (List Char × List Char) :=
  let bytes := utf8 (String.ofList remaining)
  let index := boundary false false bytes
  match splitAtByte index remaining with
  | none => none
  | some (token, _) =>
    if index < bytes.length then (splitAtByte (index + 1) remaining).map fun (_, rest) => (trim token, rest)
    else some (trim token, [])

/-- A split text is its two parts. -/
theorem splitAtByte_eq_some {index : Nat} {text head tail : List Char} (h : splitAtByte index text = some (head, tail)) :
    text = head ++ tail ∧ (0 < index → head ≠ []) := by
  induction text generalizing index head with
  | nil =>
    cases index with
    | zero => cases h; exact ⟨rfl, fun hpos => absurd hpos (Nat.lt_irrefl 0)⟩
    | succ index => cases h
  | cons c text ih =>
    cases index with
    | zero => cases h; exact ⟨rfl, fun hpos => absurd hpos (Nat.lt_irrefl 0)⟩
    | succ index =>
      unfold splitAtByte at h
      split at h
      · obtain ⟨⟨before, after⟩, hsplit, heq⟩ := Option.map_eq_some_iff.mp h
        cases heq
        exact ⟨by rw [(ih hsplit).1, List.cons_append], fun _ => List.cons_ne_nil _ _⟩
      · cases h

/-- Every turn takes something of what remains. -/
theorem Directives.length_advance_lt {remaining token rest : List Char} (hne : remaining ≠ [])
    (h : Directives.advance remaining = some (token, rest)) : rest.length < remaining.length := by
  unfold advance at h
  extract_lets bytes index at h
  split at h
  · cases h
  · split at h
    · obtain ⟨⟨before, after⟩, hsplit, heq⟩ := Option.map_eq_some_iff.mp h
      cases heq
      obtain ⟨rfl, hbefore⟩ := splitAtByte_eq_some hsplit
      rw [List.length_append]
      have := List.length_pos_iff.mpr (hbefore (Nat.succ_pos _))
      omega
    · cases h
      exact List.length_pos_iff.mpr hne

/-- The iterator to its end: the directives of the tokens that are not empty. -/
def Directives.collect (remaining : List Char) : Option (List Directive) :=
  if hne : remaining = [] then some []
  else
    match h : Directives.advance remaining with
    | none => none
    | some (token, rest) =>
      (collect rest).map fun found => if token.isEmpty then found else directive token :: found
  termination_by remaining.length
  decreasing_by exact Directives.length_advance_lt hne h

/-- `conservative_delta_seconds_values`. -/
def conservativeDeltaSecondsValues (values : List (List Char)) (expected : String) : Option Nat :=
  (((values.flatMap directives).filter fun d => d.nameEq expected).map fun d => d.deltaSeconds.getD 0).min?

end Biei
