import Biei.Ishikari.DeliveryPath

/-!
# Internal paths

How a part of an internal path is escaped, what the client's parser of URLs makes of the path, and how a handler reads a parameter
that the router has captured.
-/

namespace Biei.Ishikari

def upperHexDigit (n : UInt8) : UInt8 := if n < 10 then 48 + n else 55 + n

/-- What `path_percent_encode` and `provider_path_encode` leave as it is. -/
def isPathByte (byte : UInt8) : Bool :=
  decide (48 ≤ byte ∧ byte ≤ 57) || decide (65 ≤ byte ∧ byte ≤ 90) || decide (97 ≤ byte ∧ byte ≤ 122) || byte == 45 ||
    byte == 46 ||
    byte == 95 || byte == 126 || byte == 44

def escapeByte (byte : UInt8) : Bytes :=
  if isPathByte byte then [byte] else [percent, upperHexDigit (byte >>> 4), upperHexDigit (byte &&& 15)]

/-- `path_percent_encode`, and `provider_path_encode`. -/
def pathPercentEncode (value : Bytes) : Bytes := value.flatMap escapeByte

/-- `provider_path_encode_segments`. -/
def pathPercentEncodeSegments (value : Bytes) : Bytes := [slash].intercalate ((splitSlash value).map pathPercentEncode)

/-- The text of a captured parameter; the request is refused when it is none. -/
def decodedText (raw : Bytes) : Option String := String.fromUTF8? ⟨(percentDecode raw).toArray⟩

/-- The texts of the parameters of a path that the pattern matches. -/
def RoutePattern.parameters (route : RoutePattern) (path : Bytes) : Option (List String) := do
  let raws ← route.captures path
  raws.mapM decodedText

/-! ## Paths of URLs -/

/-- A byte that stays as it is when a path is made part of a URL. -/
def isPlainByte (byte : UInt8) : Bool := isPathByte byte || byte == percent || byte == 64

/-- A path with these segments. -/
def joinSegments (segments : List Bytes) : Bytes := segments.flatMap fun segment => slash :: segment

/-- The spellings of a dot in a segment. -/
def dots : List Bytes := [utf8 ".", utf8 "%2e", utf8 "%2E"]

/-- A segment that stands for the directory it is in. -/
def isSingleDot (segment : Bytes) : Bool := dots.contains segment

/-- A segment that stands for the directory above. -/
def isDoubleDot (segment : Bytes) : Bool := dots.any fun first => dots.any fun second => segment == first ++ second

/-- What is kept of the segments of a path, after those that are kept already. -/
def keptSegments (kept : List Bytes) : List Bytes → List Bytes
  | [] => kept
  | [segment] =>
    if isDoubleDot segment then kept.dropLast ++ [[]] else if isSingleDot segment then kept ++ [[]] else kept ++ [segment]
  | segment :: segments =>
    keptSegments (if isDoubleDot segment then kept.dropLast else if isSingleDot segment then kept else kept ++ [segment]) segments

/-- The parser of URLs, as far as paths go: the dot segments of a path are resolved. -/
structure UrlParser where
  path : Bytes → Bytes
  path_joinSegments : ∀ segments, segments ≠ [] → (∀ segment ∈ segments, segment.all isPlainByte = true) →
    path (joinSegments segments) = joinSegments (keptSegments [] segments)

end Biei.Ishikari
