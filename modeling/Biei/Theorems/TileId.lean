import Biei.Pmtiles.Walker

/-! # Tile ids -/

namespace Biei

/-! ## Zooms -/

/-- The ids before a zoom. -/
def baseOf (z : Nat) : Nat := (4 ^ z - 1) / 3

theorem three_mul_baseOf (z : Nat) : 3 * baseOf z + 1 = 4 ^ z := by
  unfold baseOf
  induction z with
  | zero => rfl
  | succ z ih =>
    rw [pow_succ]
    omega

theorem baseOf_succ (z : Nat) : baseOf (z + 1) = baseOf z + 4 ^ z := by
  have hz := three_mul_baseOf z
  have hnext := three_mul_baseOf (z + 1)
  rw [pow_succ] at hnext
  omega

theorem baseOf_mono {a b : Nat} (h : a ≤ b) : baseOf a ≤ baseOf b := by
  induction h with
  | refl => exact Nat.le_refl _
  | step _ ih =>
    rw [Nat.succ_eq_add_one, baseOf_succ]
    exact ih.trans (Nat.le_add_right _ _)

theorem pyramidSizeBeforeZoom_eq (h : z.toNat ≤ maxZoom) : pyramidSizeBeforeZoom z = baseOf z.toNat := by
  have hshift : z.toNat * 2 < 64 := by
    unfold maxZoom at h
    omega
  rw [pyramidSizeBeforeZoom, checkedShlOne_eq hshift, baseOf, Nat.mul_comm, pow_mul]
  rfl

/-- The last id is the last of the last zoom. -/
theorem maxTileId_eq : maxTileId + 1 = baseOf (maxZoom + 1) := by decide

/-! ## Ids of coordinates -/

variable {z : UInt8} {x y : UInt32}

theorem TileCoord.new_eq_ok (h : z.toNat ≤ maxZoom ∧ x.toNat < 2 ^ z.toNat ∧ y.toNat < 2 ^ z.toNat) :
    TileCoord.new z x y = .ok ⟨z, x, y, h⟩ := by
  have hshift : z.toNat < 64 := Nat.lt_of_le_of_lt h.1 (by decide)
  unfold TileCoord.new
  split
  · rename_i hextent
    rw [checkedShlOne_eq hshift] at hextent
    cases hextent
  · rename_i extent hextent
    rw [checkedShlOne_eq hshift] at hextent
    cases hextent
    have hvalid : ¬ (z.toNat > maxZoom ∨ x.toNat ≥ 2 ^ z.toNat ∨ y.toNat ≥ 2 ^ z.toNat) := by omega
    rw [dif_neg hvalid]

/-- What is accepted are the coordinates of a tile. -/
theorem TileCoord.new_iff : (∃ coord, TileCoord.new z x y = .ok coord) ↔
    z.toNat ≤ maxZoom ∧ x.toNat < 2 ^ z.toNat ∧ y.toNat < 2 ^ z.toNat := by
  constructor
  · rintro ⟨coord, h⟩
    unfold TileCoord.new at h
    split at h
    · cases h
    · rename_i hextent
      split at h
      · cases h
      · rename_i hvalid
        exact valid_of_extent hextent hvalid
  · intro h
    exact ⟨_, new_eq_ok h⟩

section Curve

variable {xy2h : UInt32 → UInt32 → UInt8 → UInt64}

/-- What is assumed of the curve: at each zoom it passes every tile once. -/
def IsCurve (xy2h : UInt32 → UInt32 → UInt8 → UInt64) : Prop :=
  ∀ z : UInt8, 1 ≤ z.toNat → z.toNat ≤ maxZoom → Set.BijOn (fun p : UInt32 × UInt32 => (xy2h p.1 p.2 z).toNat)
    {p | p.1.toNat < 2 ^ z.toNat ∧ p.2.toNat < 2 ^ z.toNat} {h | h < 4 ^ z.toNat}

/-- The place of a tile among those of its zoom. -/
def placeOf (xy2h : UInt32 → UInt32 → UInt8 → UInt64) (coord : TileCoord) : Nat :=
  if coord.z = 0 then 0 else (xy2h coord.x coord.y coord.z).toNat

theorem one_le_toNat {z : UInt8} (h : z ≠ 0) : 1 ≤ z.toNat := by
  rw [Nat.one_le_iff_ne_zero]
  exact fun hzero => h (UInt8.toNat_inj.mp hzero)

theorem placeOf_lt (hcurve : IsCurve xy2h) (coord : TileCoord) : placeOf xy2h coord < 4 ^ coord.z.toNat := by
  unfold placeOf
  split
  · exact Nat.pow_pos (by decide)
  · rename_i hz
    exact (hcurve coord.z (one_le_toNat hz) coord.valid.1).mapsTo (x := (coord.x, coord.y)) coord.valid.2

/-- The id is the place after the zooms below, and no sum overflows. -/
theorem tileIdFrom_eq (hcurve : IsCurve xy2h) (coord : TileCoord) :
    tileIdFrom xy2h coord = some (baseOf coord.z.toNat + placeOf xy2h coord) := by
  have hplace := placeOf_lt hcurve coord
  have hmono : baseOf (coord.z.toNat + 1) ≤ baseOf (maxZoom + 1) := baseOf_mono (Nat.succ_le_succ coord.valid.1)
  have hfits : baseOf (maxZoom + 1) < u64Bound := by decide
  rw [baseOf_succ] at hmono
  unfold tileIdFrom
  unfold placeOf at hplace ⊢
  split
  · rename_i hz
    rw [hz]
    rfl
  · rename_i hz
    rw [if_neg hz] at hplace
    rw [pyramidSizeBeforeZoom_eq coord.valid.1, checkedAdd, if_pos (by omega)]

/-- Every place of a zoom is the place of a tile. -/
theorem exists_placeOf (hcurve : IsCurve xy2h) {z : Nat} (place : Nat) (hz : z ≤ maxZoom) (h : place < 4 ^ z) :
    ∃ coord : TileCoord, coord.z.toNat = z ∧ placeOf xy2h coord = place := by
  have hbyte : (UInt8.ofNat z).toNat = z := UInt8.toNat_ofNat_of_lt' (Nat.lt_of_le_of_lt hz (by decide))
  by_cases hzero : z = 0
  · subst hzero
    exact ⟨⟨0, 0, 0, by decide⟩, rfl, (Nat.lt_one_iff.mp h).symm⟩
  · have hbij := hcurve (UInt8.ofNat z) (by omega) (by omega)
    rw [hbyte] at hbij
    obtain ⟨⟨x, y⟩, hxy, hplace⟩ := hbij.surjOn (show place ∈ {h | h < 4 ^ z} from h)
    refine ⟨⟨UInt8.ofNat z, x, y, ?_⟩, hbyte, ?_⟩
    · rw [hbyte]
      exact ⟨hz, hxy⟩
    · unfold placeOf
      rw [if_neg]
      · exact hplace
      · intro heq
        rw [show UInt8.ofNat z = 0 from heq] at hbyte
        exact hzero hbyte.symm

theorem eq_of_placeOf (hcurve : IsCurve xy2h) {a b : TileCoord} (hz : a.z = b.z) (h : placeOf xy2h a = placeOf xy2h b) :
    a = b := by
  obtain ⟨z, x, y, hvalid⟩ := a
  obtain ⟨z', x', y', hvalid'⟩ := b
  obtain rfl : z = z' := hz
  simp only [placeOf] at h
  split at h
  · rename_i hzero
    subst hzero
    have hx : x = x' := UInt32.toNat_inj.mp ((Nat.lt_one_iff.mp hvalid.2.1).trans (Nat.lt_one_iff.mp hvalid'.2.1).symm)
    have hy : y = y' := UInt32.toNat_inj.mp ((Nat.lt_one_iff.mp hvalid.2.2).trans (Nat.lt_one_iff.mp hvalid'.2.2).symm)
    subst hx hy
    rfl
  · rename_i hne
    have heq := (hcurve z (one_le_toNat hne) hvalid.1).injOn (show (x, y) ∈ _ from hvalid.2) (show (x', y') ∈ _ from hvalid'.2) h
    cases heq
    rfl

/-- The ids of a zoom are an interval. -/
theorem exists_tileIdFrom_iff (hcurve : IsCurve xy2h) {z id : Nat} (hz : z ≤ maxZoom) :
    (∃ coord, coord.z.toNat = z ∧ tileIdFrom xy2h coord = some id) ↔ baseOf z ≤ id ∧ id < baseOf (z + 1) := by
  rw [baseOf_succ]
  constructor
  · rintro ⟨coord, rfl, h⟩
    rw [tileIdFrom_eq hcurve] at h
    have hplace := placeOf_lt hcurve coord
    have hid := Option.some.inj h
    omega
  · rintro ⟨hbase, hlt⟩
    obtain ⟨coord, rfl, hplace⟩ := exists_placeOf hcurve (id - baseOf z) hz (by omega)
    refine ⟨coord, rfl, ?_⟩
    rw [tileIdFrom_eq hcurve, hplace, Nat.add_sub_cancel' hbase]

/-- Every id up to the last is in the interval of a zoom. -/
theorem exists_zoom {id : Nat} (n : Nat) (h : id < baseOf n) : ∃ z < n, baseOf z ≤ id ∧ id < baseOf (z + 1) := by
  induction n with
  | zero => exact absurd h (Nat.not_lt_zero id)
  | succ n ih =>
    rcases Nat.lt_or_ge id (baseOf n) with hlt | hge
    · obtain ⟨z, hz, hid⟩ := ih hlt
      exact ⟨z, Nat.lt_succ_of_lt hz, hid⟩
    · exact ⟨n, Nat.lt_succ_self n, hge, h⟩

/-- Tile ids are distinct and ordered by zoom: those of a zoom are an interval that follows on the zoom below, no sum overflows,
and together they are what is accepted as a tile id. -/
theorem tileIdFrom_spec (hcurve : IsCurve xy2h) :
    (∀ z x y, (∃ coord, TileCoord.new z x y = .ok coord) ↔ z.toNat ≤ maxZoom ∧ x.toNat < 2 ^ z.toNat ∧ y.toNat < 2 ^ z.toNat) ∧
      (∀ coord, (tileIdFrom xy2h coord).isSome) ∧
      (∀ z x y z' x' y' coord coord', TileCoord.new z x y = .ok coord → TileCoord.new z' x' y' = .ok coord' →
        tileIdFrom xy2h coord = tileIdFrom xy2h coord' → (z, x, y) = (z', x', y')) ∧
      (∀ z ≤ maxZoom, ∀ id, (∃ coord, coord.z.toNat = z ∧ tileIdFrom xy2h coord = some id) ↔
        (4 ^ z - 1) / 3 ≤ id ∧ id < (4 ^ (z + 1) - 1) / 3) ∧
      ∀ id, (∃ coord, tileIdFrom xy2h coord = some id) ↔ tileIdNew id = .ok id := by
  refine ⟨fun z x y => TileCoord.new_iff, fun coord => ?_, ?_, fun z hz id => exists_tileIdFrom_iff hcurve hz, fun id => ?_⟩
  · rw [tileIdFrom_eq hcurve]
    rfl
  · intro z x y z' x' y' coord coord' hnew hnew' hid
    have hcoord := hnew
    rw [TileCoord.new_eq_ok (TileCoord.new_iff.mp ⟨coord, hnew⟩)] at hcoord
    have hcoord' := hnew'
    rw [TileCoord.new_eq_ok (TileCoord.new_iff.mp ⟨coord', hnew'⟩)] at hcoord'
    rw [tileIdFrom_eq hcurve, tileIdFrom_eq hcurve] at hid
    have hplace := placeOf_lt hcurve coord
    have hplace' := placeOf_lt hcurve coord'
    have hsum := Option.some.inj hid
    -- Tiles of different zooms are in different intervals.
    have hzoom : coord.z.toNat = coord'.z.toNat := by
      rcases Nat.lt_trichotomy coord.z.toNat coord'.z.toNat with hlt | heq | hgt
      · have hmono := baseOf_mono (Nat.succ_le_of_lt hlt)
        rw [Nat.succ_eq_add_one, baseOf_succ] at hmono
        omega
      · exact heq
      · have hmono := baseOf_mono (Nat.succ_le_of_lt hgt)
        rw [Nat.succ_eq_add_one, baseOf_succ] at hmono
        omega
    have heq : coord = coord' := eq_of_placeOf hcurve (UInt8.toNat_inj.mp hzoom) (by rw [hzoom] at hsum; omega)
    rw [← Except.ok.inj hcoord, ← Except.ok.inj hcoord'] at heq
    simpa using heq
  · have hlast := maxTileId_eq
    have haccepted : tileIdNew id = .ok id ↔ id < baseOf (maxZoom + 1) := by
      unfold tileIdNew
      split
      · exact iff_of_false nofun (by omega)
      · exact iff_of_true rfl (by omega)
    rw [haccepted]
    constructor
    · rintro ⟨coord, h⟩
      have hid := ((exists_tileIdFrom_iff hcurve coord.valid.1).mp ⟨coord, rfl, h⟩).2
      exact Nat.lt_of_lt_of_le hid (baseOf_mono (Nat.succ_le_succ coord.valid.1))
    · intro h
      obtain ⟨z, hz, hid⟩ := exists_zoom _ h
      obtain ⟨coord, -, hfrom⟩ := (exists_tileIdFrom_iff hcurve (Nat.lt_succ_iff.mp hz)).mpr hid
      exact ⟨coord, hfrom⟩

end Curve

/-! ## The curve of Hilbert -/

/-- The place of a tile on the curve of Hilbert: the quarters of a square are passed in turn, the first and the last mirrored. -/
def hilbert : Nat → Nat → Nat → Nat
  | 0, _, _ => 0
  | z + 1, x, y =>
    if x < 2 ^ z then if y < 2 ^ z then hilbert z y x else 4 ^ z + hilbert z x (y - 2 ^ z)
    else if y < 2 ^ z then 3 * 4 ^ z + hilbert z (2 ^ z - 1 - y) (2 ^ (z + 1) - 1 - x)
    else 2 * 4 ^ z + hilbert z (x - 2 ^ z) (y - 2 ^ z)

theorem hilbert_lt : ∀ {z x y : Nat}, x < 2 ^ z → y < 2 ^ z → hilbert z x y < 4 ^ z := by
  intro z
  induction z with
  | zero => intro x y _ _; exact Nat.zero_lt_one
  | succ z ih =>
    intro x y hx hy
    rw [pow_succ] at hx hy
    have hpow : 4 ^ (z + 1) = 4 * 4 ^ z := by rw [pow_succ, Nat.mul_comm]
    have htwo : 2 ^ (z + 1) = 2 * 2 ^ z := by rw [pow_succ, Nat.mul_comm]
    unfold hilbert
    rw [hpow, htwo]
    split
    · rename_i hleft
      split
      · rename_i hlow
        have hlt := ih hlow hleft
        omega
      · have hlt := ih (x := x) (y := y - 2 ^ z) hleft (by omega)
        omega
    · split
      · have hlt := ih (x := 2 ^ z - 1 - y) (y := 2 * 2 ^ z - 1 - x) (by omega) (by omega)
        omega
      · have hlt := ih (x := x - 2 ^ z) (y := y - 2 ^ z) (by omega) (by omega)
        omega

/-- The curve comes to every place. -/
theorem exists_hilbert : ∀ {z : Nat} (place : Nat), place < 4 ^ z → ∃ x < 2 ^ z, ∃ y < 2 ^ z, hilbert z x y = place := by
  intro z
  induction z with
  | zero => intro place h; exact ⟨0, by decide, 0, by decide, (Nat.lt_one_iff.mp h).symm⟩
  | succ z ih =>
    intro place h
    have hpow : 4 ^ (z + 1) = 4 * 4 ^ z := by rw [pow_succ, Nat.mul_comm]
    have htwo : 2 ^ (z + 1) = 2 * 2 ^ z := by rw [pow_succ, Nat.mul_comm]
    rw [hpow] at h
    rw [htwo]
    simp only [hilbert, htwo]
    rcases Nat.lt_or_ge place (4 ^ z) with h1 | h1
    · obtain ⟨x, hx, y, hy, rfl⟩ := ih place h1
      exact ⟨y, by omega, x, by omega, by rw [if_pos hy, if_pos hx]⟩
    rcases Nat.lt_or_ge place (2 * 4 ^ z) with h2 | h2
    · obtain ⟨x, hx, y, hy, heq⟩ := ih (place - 4 ^ z) (by omega)
      refine ⟨x, by omega, 2 ^ z + y, by omega, ?_⟩
      rw [if_pos hx, if_neg (by omega), Nat.add_sub_cancel_left, heq]
      omega
    rcases Nat.lt_or_ge place (3 * 4 ^ z) with h3 | h3
    · obtain ⟨x, hx, y, hy, heq⟩ := ih (place - 2 * 4 ^ z) (by omega)
      refine ⟨2 ^ z + x, by omega, 2 ^ z + y, by omega, ?_⟩
      rw [if_neg (by omega), if_neg (by omega), Nat.add_sub_cancel_left, Nat.add_sub_cancel_left, heq]
      omega
    · obtain ⟨x, hx, y, hy, heq⟩ := ih (place - 3 * 4 ^ z) (by omega)
      refine ⟨2 * 2 ^ z - 1 - y, by omega, 2 ^ z - 1 - x, by omega, ?_⟩
      have hx' : 2 ^ z - 1 - (2 ^ z - 1 - x) = x := by omega
      have hy' : 2 * 2 ^ z - 1 - (2 * 2 ^ z - 1 - y) = y := by omega
      rw [if_neg (by omega), if_pos (by omega), hx', hy', heq]
      omega

/-- The curve of Hilbert on machine integers. -/
def hilbertCurve (x y : UInt32) (z : UInt8) : UInt64 := UInt64.ofNat (hilbert z.toNat x.toNat y.toNat)

/-- It comes to as many places as there are tiles, so to none of them twice. -/
theorem hilbert_inj {z x y x' y' : Nat} (hx : x < 2 ^ z) (hy : y < 2 ^ z) (hx' : x' < 2 ^ z) (hy' : y' < 2 ^ z)
    (h : hilbert z x y = hilbert z x' y') : x = x' ∧ y = y' := by
  let place (p : Fin (2 ^ z) × Fin (2 ^ z)) : Fin (4 ^ z) := ⟨hilbert z p.1 p.2, hilbert_lt p.1.2 p.2.2⟩
  have hsurjective : Function.Surjective place := by
    intro i
    obtain ⟨x, hx, y, hy, heq⟩ := exists_hilbert i.1 i.2
    exact ⟨(⟨x, hx⟩, ⟨y, hy⟩), Fin.ext heq⟩
  have hcard : Fintype.card (Fin (2 ^ z) × Fin (2 ^ z)) = Fintype.card (Fin (4 ^ z)) := by
    rw [Fintype.card_prod, Fintype.card_fin, Fintype.card_fin, ← mul_pow]
    rfl
  have hinjective := ((Fintype.bijective_iff_surjective_and_card place).mpr ⟨hsurjective, hcard⟩).1
  have heq : ((⟨x, hx⟩, ⟨y, hy⟩) : Fin (2 ^ z) × Fin (2 ^ z)) = (⟨x', hx'⟩, ⟨y', hy'⟩) := hinjective (Fin.ext h)
  simpa using heq

theorem isCurve_hilbert : IsCurve hilbertCurve := by
  intro z _ hz
  have hle : 4 ^ z.toNat ≤ 4 ^ maxZoom := Nat.pow_le_pow_right (by decide) hz
  have hside : 2 ^ z.toNat ≤ 2 ^ maxZoom := Nat.pow_le_pow_right (by decide) hz
  have hfits : 4 ^ maxZoom < 2 ^ 64 ∧ 2 ^ maxZoom < 2 ^ 32 := by decide
  have hword : ∀ {place}, place < 4 ^ z.toNat → (UInt64.ofNat place).toNat = place :=
    fun h => UInt64.toNat_ofNat_of_lt' (by show _ < 2 ^ 64; omega)
  have hcoordinate : ∀ {n}, n < 2 ^ z.toNat → (UInt32.ofNat n).toNat = n :=
    fun h => UInt32.toNat_ofNat_of_lt' (by show _ < 2 ^ 32; omega)
  refine ⟨fun p hp => ?_, fun p hp q hq h => ?_, fun place hplace => ?_⟩
  · show (UInt64.ofNat _).toNat < 4 ^ z.toNat
    rw [hword (hilbert_lt hp.1 hp.2)]
    exact hilbert_lt hp.1 hp.2
  · change (UInt64.ofNat _).toNat = (UInt64.ofNat _).toNat at h
    rw [hword (hilbert_lt hp.1 hp.2), hword (hilbert_lt hq.1 hq.2)] at h
    obtain ⟨hx, hy⟩ := hilbert_inj hp.1 hp.2 hq.1 hq.2 h
    exact Prod.ext (UInt32.toNat_inj.mp hx) (UInt32.toNat_inj.mp hy)
  · obtain ⟨x, hx, y, hy, rfl⟩ := exists_hilbert place hplace
    refine ⟨(UInt32.ofNat x, UInt32.ofNat y), ⟨?_, ?_⟩, ?_⟩
    · show (UInt32.ofNat x).toNat < 2 ^ z.toNat
      rwa [hcoordinate hx]
    · show (UInt32.ofNat y).toNat < 2 ^ z.toNat
      rwa [hcoordinate hy]
    · show (UInt64.ofNat (hilbert _ (UInt32.ofNat x).toNat (UInt32.ofNat y).toNat)).toNat = _
      rw [hcoordinate hx, hcoordinate hy, hword hplace]

example : (TileCoord.new 12 3423 1763).toOption.bind (tileIdFrom hilbertCurve) = some 19078479 := by decide +kernel

theorem tileIdFrom_hilbert : ∃ coord, tileIdFrom hilbertCurve coord = some 19078479 :=
  ((tileIdFrom_spec isCurve_hilbert).2.2.2.2 19078479).mpr (by decide +kernel)

end Biei
