import Biei.Text

/-!
# Polylines

`decode_polyline` of `overlay/path.rs`. A coordinate is an integer of hundred thousandths of a degree; that the quotient by a
hundred thousand is in a range whose ends are whole degrees is that the integer is.
-/

namespace Biei.PathOverlay

/-- The errors of `OverlayParseError` that a polyline can have. -/
inductive OverlayParseError where
  | empty
  | invalidByte (byte : UInt8) (index : Nat)
  | truncated
  | coordinateOverflow
  | coordinateOutOfRange
  | tooManyPoints
deriving DecidableEq, Repr

def OverlayParseError.text : OverlayParseError → String
  | .empty => "polyline must not be empty"
  | .invalidByte byte index => "invalid polyline byte " ++ toString byte ++ " at index " ++ toString index
  | .truncated => "polyline ended in the middle of a coordinate"
  | .coordinateOverflow => "polyline coordinate overflow"
  | .coordinateOutOfRange => "polyline coordinate is out of range"
  | .tooManyPoints => "path overlay has too many points"

/-- A point, in hundred thousandths of a degree. -/
structure Point where
  lon : Int
  lat : Int
deriving DecidableEq, Repr

def maxPathPoints : Nat := 500
def minLat : Int := -90
def maxLat : Int := 90
def minLon : Int := -180
def maxLon : Int := 180
def scale : Int := 100000

/-- What `validate_coordinate` accepts. -/
def Point.InRange (p : Point) : Prop :=
  minLon * scale ≤ p.lon ∧ p.lon ≤ maxLon * scale ∧ minLat * scale ≤ p.lat ∧ p.lat ≤ maxLat * scale

instance (p : Point) : Decidable p.InRange := inferInstanceAs (Decidable (_ ∧ _ ∧ _ ∧ _))

/-- `<<` of an `i64` that is not negative: none for a shift of 64 or more, and where bits are lost. -/
def shiftLeft (a shift : Nat) : Option Nat := if shift < 64 ∧ a <<< shift < 2 ^ 63 then some (a <<< shift) else none

/-- `checked_add` of two `i64`. -/
def checkedAddI64 (a b : Int) : Option Int := if -(2 ^ 63) ≤ a + b ∧ a + b < 2 ^ 63 then some (a + b) else none

/-- The sign is the last bit of the bits that were read: `!(result >> 1)` or `result >> 1`. -/
def unzigzag (result : Nat) : Int := if result &&& 1 = 1 then -((result >>> 1 : Nat) : Int) - 1 else ((result >>> 1 : Nat) : Int)

/-- The loop of `decode_delta`, with what it leaves and where: none where an operation is out of its range. -/
def decodeDeltaFrom : Bytes → Nat → Nat → Nat → Option (Except OverlayParseError (Int × Bytes × Nat))
  | [], _, _, _ => some (.error .truncated)
  | byte :: bytes, index, result, shift =>
    if byte.toNat < 63 ∨ 0x3f < byte.toNat - 63 then some (.error (.invalidByte byte index))
    else if 60 ≤ shift then some (.error .coordinateOverflow)
    else
      match shiftLeft ((byte.toNat - 63) &&& 0x1f) shift with
      | none => none
      | some group =>
        if byte.toNat - 63 < 0x20 then some (.ok (unzigzag (result ||| group), bytes, index + 1))
        else decodeDeltaFrom bytes (index + 1) (result ||| group) (shift + 5)

def decodeDelta (bytes : Bytes) (index : Nat) : Option (Except OverlayParseError (Int × Bytes × Nat)) :=
    decodeDeltaFrom bytes index 0 0

/-- The loop of `decode_polyline`: none also where the fuel is used up. -/
def decodePoints : Nat → Bytes → Nat → Int → Int → List Point → Option (Except OverlayParseError (List Point))
  | _, [], _, _, _, points => some (.ok points)
  | 0, _ :: _, _, _, _, _ => none
  | fuel + 1, bytes@(_ :: _), index, lat, lon, points =>
    match decodeDelta bytes index with
    | none => none
    | some (.error e) => some (.error e)
    | some (.ok (deltaLat, bytes, index)) =>
      match decodeDelta bytes index with
      | none => none
      | some (.error e) => some (.error e)
      | some (.ok (deltaLon, bytes, index)) =>
        match checkedAddI64 lat deltaLat, checkedAddI64 lon deltaLon with
        | some lat, some lon =>
          if maxPathPoints ≤ points.length then some (.error .tooManyPoints)
          else if Point.InRange ⟨lon, lat⟩ then decodePoints fuel bytes index lat lon (points ++ [⟨lon, lat⟩])
          else some (.error .coordinateOutOfRange)
        | _, _ => some (.error .coordinateOverflow)

def decodePolyline (encoded : String) : Option (Except OverlayParseError (List Point)) :=
  if encoded.isEmpty then some (.error .empty) else decodePoints (utf8 encoded).length (utf8 encoded) 0 0 0 []

end Biei.PathOverlay
