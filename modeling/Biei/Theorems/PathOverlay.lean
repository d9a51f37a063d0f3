import Biei.Http.PathOverlay
import Biei.Lemmas.Headers

/-! # Polylines are read as they were written -/

namespace Biei.PathOverlay

/-! ## The encoding -/

/-- A number in base 32, the least digit first: a digit that others follow has 32 more, and every digit is a character from 63
on. -/
def groups (n : Nat) : Bytes := if n < 32 then [UInt8.ofNat (n + 63)] else UInt8.ofNat (n % 32 + 32 + 63) :: groups (n / 32)
termination_by n

/-- A number whose last bit is the sign. -/
def zigzag (d : Int) : Nat := if d < 0 then (-(2 * d) - 1).toNat else (2 * d).toNat

def encodeDelta (d : Int) : Bytes := groups (zigzag d)

/-- The points as differences, of the latitude before the longitude. -/
def encodePoints (previous : Point) : List Point → Bytes
  | [] => []
  | p :: points => encodeDelta (p.lat - previous.lat) ++ (encodeDelta (p.lon - previous.lon) ++ encodePoints p points)

/-- The standard encoding of some points. -/
def encodePolyline (points : List Point) : String := String.ofList ((encodePoints ⟨0, 0⟩ points).map fun b => Char.ofNat b.toNat)

theorem unzigzag_zigzag (d : Int) : unzigzag (zigzag d) = d := by
  unfold unzigzag zigzag
  simp only [Nat.and_one_is_mod, Nat.shiftRight_eq_div_pow]
  split <;> split <;> omega

variable {n : Nat}

theorem groups_of_lt (h : n < 32) : groups n = [UInt8.ofNat (n + 63)] := by
  rw [groups, if_pos h]

theorem groups_of_ge (h : 32 ≤ n) : groups n = UInt8.ofNat (n % 32 + 32 + 63) :: groups (n / 32) := by
  rw [groups, if_neg (Nat.not_lt.mpr h)]

theorem groups_ne_nil (n : Nat) : groups n ≠ [] := by
  rcases Nat.lt_or_ge n 32 with hlt | hge
  · rw [groups_of_lt hlt]
    exact List.cons_ne_nil _ _
  · rw [groups_of_ge hge]
    exact List.cons_ne_nil _ _

theorem lt_of_mem_groups : ∀ b ∈ groups n, b.toNat < 127 := by
  induction n using Nat.strongRecOn with
  | ind n ih =>
    intro b hb
    rcases Nat.lt_or_ge n 32 with hlt | hge
    · rw [groups_of_lt hlt, List.mem_singleton] at hb
      rw [hb, UInt8.toNat_ofNat']
      omega
    · rw [groups_of_ge hge] at hb
      rcases List.mem_cons.mp hb with rfl | hb
      · rw [UInt8.toNat_ofNat']
        omega
      · exact ih (n / 32) (by omega) b hb

theorem lt_of_mem_encodePoints {points : List Point} {previous : Point} : ∀ b ∈ encodePoints previous points, b.toNat < 127 := by
  induction points generalizing previous with
  | nil => exact nofun
  | cons p points ih =>
    intro b hb
    rw [encodePoints, List.mem_append, List.mem_append] at hb
    rcases hb with hb | hb | hb
    · exact lt_of_mem_groups b hb
    · exact lt_of_mem_groups b hb
    · exact ih b hb

theorem toNat_ofNat_byte : ∀ byte : UInt8, (Char.ofNat byte.toNat).toNat = byte.toNat := forall_byte (by decide +kernel)

/-- The bytes of the text. -/
theorem utf8_encodePolyline (points : List Point) : utf8 (encodePolyline points) = encodePoints ⟨0, 0⟩ points := by
  have hchar : ∀ b ∈ encodePoints ⟨0, 0⟩ points, (Char.ofNat b.toNat).toNat = b.toNat := fun b _ => toNat_ofNat_byte b
  rw [encodePolyline, utf8_of_visible]
  · rw [List.map_map]
    conv => rhs; rw [← List.map_id (encodePoints ⟨0, 0⟩ points)]
    refine List.map_congr_left fun b hb => ?_
    rw [Function.comp_apply, hchar b hb, UInt8.ofNat_toNat]
    rfl
  · intro c hc
    obtain ⟨b, hb, rfl⟩ := List.mem_map.mp hc
    rw [hchar b hb]
    exact lt_of_mem_encodePoints b hb

/-! ## One number -/

/-- Bits above those that were read are added. -/
theorem or_shiftLeft {result shift : Nat} (h : result < 2 ^ shift) (value : Nat) :
    result ||| (value <<< shift) = result + value * 2 ^ shift := by
  rw [Nat.or_comm, ← Nat.shiftLeft_add_eq_or_of_lt h, Nat.shiftLeft_eq, Nat.add_comm]

theorem and_mask (value : Nat) : value &&& 0x1f = value % 32 := Nat.and_two_pow_sub_one_eq_mod value 5

/-- What was read so far: whole groups of five bits, below the place of the next. -/
structure Reading (result shift : Nat) : Prop where
  groups : shift % 5 = 0
  lt : result < 2 ^ shift

theorem Reading.start : Reading 0 0 := ⟨rfl, by decide⟩

/-- One more group: the shift is in its range, and no bit is lost. -/
theorem Reading.next {result shift : Nat} (h : Reading result shift) (hshift : shift < 60) (value : Nat) :
    shiftLeft (value &&& 0x1f) shift = some ((value % 32) <<< shift) ∧
      result ||| ((value % 32) <<< shift) = result + value % 32 * 2 ^ shift ∧
      Reading (result + value % 32 * 2 ^ shift) (shift + 5) := by
  have hle : shift ≤ 55 := by
    have := h.groups
    omega
  have hpow : 2 ^ shift ≤ 2 ^ 55 := Nat.pow_le_pow_right (by decide) hle
  have hmod : value % 32 ≤ 31 := by omega
  have hproduct : value % 32 * 2 ^ shift ≤ 31 * 2 ^ shift := Nat.mul_le_mul_right _ hmod
  refine ⟨?_, or_shiftLeft h.lt _, by have := h.groups; omega, ?_⟩
  · rw [and_mask, shiftLeft, if_pos]
    rw [Nat.shiftLeft_eq]
    omega
  · rw [pow_add]
    have := h.lt
    omega

/-- Reading a number ends, leaves less than there was and stays in range. -/
theorem decodeDeltaFrom_total (bytes : Bytes) : ∀ (index : Nat) {result shift : Nat}, Reading result shift →
    ∃ outcome, decodeDeltaFrom bytes index result shift = some outcome ∧
      ∀ d rest stop, outcome = .ok (d, rest, stop) → rest.length < bytes.length := by
  induction bytes with
  | nil => exact fun _ _ _ _ => ⟨_, rfl, nofun⟩
  | cons byte bytes ih =>
    intro index result shift h
    unfold decodeDeltaFrom
    split
    · exact ⟨_, rfl, nofun⟩
    · split
      · exact ⟨_, rfl, nofun⟩
      · rename_i hshift
        obtain ⟨hgroup, hor, hnext⟩ := h.next (Nat.lt_of_not_le hshift) (byte.toNat - 63)
        rw [hgroup]
        dsimp only
        split
        · refine ⟨_, rfl, ?_⟩
          intro d rest stop heq
          obtain ⟨-, rfl, -⟩ := Prod.mk.inj (Except.ok.inj heq)
          exact Nat.lt_succ_self _
        · rw [hor]
          obtain ⟨outcome, heq, hlt⟩ := ih (index + 1) hnext
          exact ⟨outcome, heq, fun d rest stop hok => Nat.lt_succ_of_lt (hlt d rest stop hok)⟩

/-- A number that was written in groups is read back. -/
theorem decodeDeltaFrom_groups (n : Nat) : ∀ (index : Nat) {result shift : Nat} (rest : Bytes), Reading result shift →
    n * 2 ^ shift < 2 ^ 60 →
    shift < 60 → ∃ stop, decodeDeltaFrom (groups n ++ rest) index result shift =
      some (.ok (unzigzag (result + n * 2 ^ shift), rest, stop)) := by
  induction n using Nat.strongRecOn with
  | ind n ih =>
    intro index result shift rest h hn hshift
    rcases Nat.lt_or_ge n 32 with hlt | hge
    · have hbyte : (UInt8.ofNat (n + 63)).toNat = n + 63 := by
        rw [UInt8.toNat_ofNat']
        omega
      obtain ⟨hgroup, hor, -⟩ := h.next hshift n
      rw [Nat.mod_eq_of_lt hlt] at hgroup hor
      refine ⟨index + 1, ?_⟩
      rw [groups_of_lt hlt, List.singleton_append, decodeDeltaFrom, hbyte, Nat.add_sub_cancel, hgroup, if_neg (by omega),
        if_neg (Nat.not_le.mpr hshift)]
      dsimp only
      rw [if_pos hlt, hor]
    · have hbyte : (UInt8.ofNat (n % 32 + 32 + 63)).toNat = n % 32 + 32 + 63 := by
        rw [UInt8.toNat_ofNat']
        omega
      have hdigit : (n % 32 + 32) % 32 = n % 32 := by omega
      obtain ⟨hgroup, hor, hnext⟩ := h.next hshift (n % 32 + 32)
      rw [hdigit] at hgroup hor hnext
      have hsplit : n % 32 + 32 * (n / 32) = n := Nat.mod_add_div n 32
      have hpow : 2 ^ (shift + 5) = 32 * 2 ^ shift := by
        rw [pow_add]
        omega
      have hproduct : n % 32 * 2 ^ shift + n / 32 * 2 ^ (shift + 5) = n * 2 ^ shift := by
        rw [hpow, ← Nat.mul_assoc, ← Nat.add_mul, Nat.mul_comm (n / 32), hsplit]
      have hone : 1 * 2 ^ (shift + 5) ≤ n / 32 * 2 ^ (shift + 5) := Nat.mul_le_mul_right _ (by omega)
      have hroom : shift + 5 < 60 := by
        rw [Nat.one_mul] at hone
        exact (Nat.pow_lt_pow_iff_right (by decide : 1 < 2)).mp (by omega)
      obtain ⟨stop, heq⟩ := ih (n / 32) (by omega) (index + 1) rest hnext (by omega) hroom
      refine ⟨stop, ?_⟩
      rw [groups_of_ge hge, List.cons_append, decodeDeltaFrom, hbyte, Nat.add_sub_cancel, hgroup, if_neg (by omega),
        if_neg (Nat.not_le.mpr hshift)]
      dsimp only
      rw [if_neg (by omega), hor, heq, Nat.add_assoc, hproduct]

/-- A difference that was written is read back. -/
theorem decodeDelta_encodeDelta {d : Int} (h : zigzag d < 2 ^ 60) (rest : Bytes) (index : Nat) :
    ∃ stop, decodeDelta (encodeDelta d ++ rest) index = some (.ok (d, rest, stop)) := by
  obtain ⟨stop, heq⟩ := decodeDeltaFrom_groups (zigzag d) index rest Reading.start (by omega) (by decide)
  refine ⟨stop, ?_⟩
  rw [pow_zero, Nat.mul_one, Nat.zero_add, unzigzag_zigzag] at heq
  exact heq

/-! ## All points -/

/-- Differences of points are short. -/
theorem zigzag_lt {p q : Point} (hp : p.InRange) (hq : q.InRange) : zigzag (p.lat - q.lat) < 2 ^ 60 ∧
    zigzag (p.lon - q.lon) < 2 ^ 60 := by
  simp only [Point.InRange, minLon, maxLon, minLat, maxLat, scale] at hp hq
  unfold zigzag
  constructor <;> split <;> omega

theorem checkedAddI64_difference {p q : Point} (hp : p.InRange) : checkedAddI64 q.lat (p.lat - q.lat) = some p.lat ∧
    checkedAddI64 q.lon (p.lon - q.lon) = some p.lon := by
  simp only [Point.InRange, minLon, maxLon, minLat, maxLat, scale] at hp
  unfold checkedAddI64
  constructor
  · rw [if_pos (by omega)]
    exact congrArg some (by omega)
  · rw [if_pos (by omega)]
    exact congrArg some (by omega)

/-- Points that were written are read back, after those that were read before. -/
theorem decodePoints_encodePoints (points : List Point) : ∀ (fuel index : Nat) (previous : Point) (before : List Point),
    previous.InRange →
    (∀ p ∈ points, p.InRange) → before.length + points.length ≤ maxPathPoints → (encodePoints previous points).length ≤ fuel →
    decodePoints fuel (encodePoints previous points) index previous.lat previous.lon before = some (.ok (before ++ points)) := by
  induction points with
  | nil =>
    intro _ _ previous before _ _ _ _
    rw [encodePoints, decodePoints, List.append_nil]
  | cons p points ih =>
    intro fuel index previous before hprevious hpoints hcount hfuel
    rw [List.forall_mem_cons] at hpoints
    obtain ⟨hlat, hlon⟩ := zigzag_lt hpoints.1 hprevious
    obtain ⟨hsumLat, hsumLon⟩ := checkedAddI64_difference (q := previous) hpoints.1
    obtain ⟨middle, hdecodeLat⟩ := decodeDelta_encodeDelta hlat
      (encodeDelta (p.lon - previous.lon) ++ encodePoints p points) index
    obtain ⟨stop, hdecodeLon⟩ := decodeDelta_encodeDelta hlon (encodePoints p points) middle
    rw [encodePoints] at hfuel ⊢
    rw [List.length_append, List.length_append] at hfuel
    rw [List.length_cons] at hcount
    obtain ⟨byte, bytes, hbytes⟩ := List.exists_cons_of_ne_nil (groups_ne_nil (zigzag (p.lat - previous.lat)))
    have hcons : encodeDelta (p.lat - previous.lat) = byte :: bytes := hbytes
    cases fuel with
    | zero =>
      rw [hcons, List.length_cons] at hfuel
      omega
    | succ fuel =>
      have hroom : (encodePoints p points).length ≤ fuel := by
        rw [hcons, List.length_cons] at hfuel
        omega
      have hrest := ih fuel stop p (before ++ [p]) hpoints.1 hpoints.2
        (by simp only [List.length_append, List.length_singleton]; omega) hroom
      rw [hcons, List.cons_append] at hdecodeLat ⊢
      rw [decodePoints, hdecodeLat]
      dsimp only
      rw [hdecodeLon]
      dsimp only
      rw [hsumLat, hsumLon]
      dsimp only
      rw [if_neg (by omega), if_pos hpoints.1, hrest, List.append_assoc, List.singleton_append]

/-- Reading points ends, and what is accepted is in range and not too many. -/
theorem decodePoints_total : ∀ (fuel : Nat) (bytes : Bytes) (index : Nat) (lat lon : Int) (before : List Point),
    bytes.length ≤ fuel →
    ∃ outcome, decodePoints fuel bytes index lat lon before = some outcome ∧
      ∀ points, outcome = .ok points → (∀ p ∈ before, p.InRange) → ∀ p ∈ points, p.InRange := by
  intro fuel
  induction fuel with
  | zero =>
    intro bytes index lat lon before hfuel
    obtain rfl := List.length_eq_zero_iff.mp (Nat.le_zero.mp hfuel)
    refine ⟨.ok before, by rw [decodePoints], fun points h hbefore => ?_⟩
    rwa [← Except.ok.inj h]
  | succ fuel ih =>
    intro bytes index lat lon before hfuel
    cases bytes with
    | nil =>
      refine ⟨.ok before, by rw [decodePoints], fun points h hbefore => ?_⟩
      rwa [← Except.ok.inj h]
    | cons byte bytes =>
      rw [decodePoints]
      obtain ⟨outcome, hlat, hltLat⟩ := decodeDeltaFrom_total (byte :: bytes) index Reading.start
      rw [decodeDelta, hlat]
      cases outcome with
      | error e => exact ⟨_, rfl, nofun⟩
      | ok found =>
        obtain ⟨deltaLat, afterLat, middle⟩ := found
        have hshorter := hltLat deltaLat afterLat middle rfl
        obtain ⟨outcome, hlon, hltLon⟩ := decodeDeltaFrom_total afterLat middle Reading.start
        dsimp only
        rw [decodeDelta, hlon]
        cases outcome with
        | error e => exact ⟨_, rfl, nofun⟩
        | ok found =>
          obtain ⟨deltaLon, afterLon, stop⟩ := found
          have hshortest := hltLon deltaLon afterLon stop rfl
          dsimp only
          split
          · split
            · exact ⟨_, rfl, nofun⟩
            · split
              · rename_i hrange
                obtain ⟨outcome, hrest, hpoints⟩ := ih afterLon stop _ _ (before ++ [_])
                  (by rw [List.length_cons] at hfuel hshorter; omega)
                refine ⟨outcome, hrest, fun points h hbefore => hpoints points h ?_⟩
                intro p hp
                rcases List.mem_append.mp hp with hp | hp
                · exact hbefore p hp
                · rw [List.mem_singleton.mp hp]
                  exact hrange
              · exact ⟨_, rfl, nofun⟩
          · exact ⟨_, rfl, nofun⟩

/-- A polyline is read as it was written, and any text at all is either read as points in range or refused, with every operation
in its range. -/
theorem decodePolyline_spec :
    (∀ points : List Point, points ≠ [] → points.length ≤ maxPathPoints → (∀ p ∈ points, p.InRange) →
      decodePolyline (encodePolyline points) = some (.ok points)) ∧
    ∀ encoded, ∃ outcome, decodePolyline encoded = some outcome ∧ ∀ points, outcome = .ok points → ∀ p ∈ points, p.InRange := by
  constructor
  · intro points hne hcount hrange
    have hutf8 := utf8_encodePolyline points
    have hnonempty : (encodePolyline points).isEmpty = false := by
      rw [Bool.eq_false_iff]
      intro hempty
      rw [String.isEmpty_iff.mp hempty] at hutf8
      cases points with
      | nil => exact hne rfl
      | cons p points => exact groups_ne_nil _ (List.append_eq_nil_iff.mp hutf8.symm).1
    have hdecode := decodePoints_encodePoints points (encodePoints ⟨0, 0⟩ points).length 0 ⟨0, 0⟩ [] (by decide) hrange
      (by simpa using hcount) (Nat.le_refl _)
    rw [decodePolyline, hnonempty, hutf8, if_neg (by decide)]
    exact hdecode
  · intro encoded
    unfold decodePolyline
    split
    · exact ⟨_, rfl, nofun⟩
    · obtain ⟨outcome, heq, hrange⟩ := decodePoints_total _ (utf8 encoded) 0 0 0 [] (Nat.le_refl _)
      exact ⟨outcome, heq, fun points h => hrange points h nofun⟩

theorem decodePolyline_reference :
    decodePolyline (encodePolyline [⟨-12020000, 3850000⟩, ⟨-12095000, 4070000⟩, ⟨-12645300, 4325200⟩]) =
    some (.ok [⟨-12020000, 3850000⟩, ⟨-12095000, 4070000⟩, ⟨-12645300, 4325200⟩]) :=
  decodePolyline_spec.1 _ (by decide) (by decide) (by decide)

example : decodePolyline "_p~iF~ps|U_ulLnnqC_mqNvxq`@" =
    some (.ok [⟨-12020000, 3850000⟩, ⟨-12095000, 4070000⟩, ⟨-12645300, 4325200⟩]) := by decide +kernel

end Biei.PathOverlay
