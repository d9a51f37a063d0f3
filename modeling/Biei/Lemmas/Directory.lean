import Biei.Lib.Fallible
import Biei.Lib.Varint
import Biei.Pmtiles.Format

/-! # The columns of a directory -/

namespace Biei

/-! ## Varints -/

/-- A varint of a `u64`, which has ten bytes at most. -/
abbrev U64Varint (bytes : Bytes) (n : Nat) : Prop := Varint.Encodes 10 (2 ^ 64) bytes n

/-- A column of them. -/
abbrev U64Column (ns : List Nat) (bytes : Bytes) : Prop := Varint.Column 10 (2 ^ 64) ns bytes

/-- The digits that are still to come are put above those that were gathered. -/
theorem or_shiftLeft {value i payload : Nat} (h : value < 2 ^ i) : value ||| payload <<< i = value + 2 ^ i * payload := by
  rw [Nat.shiftLeft_eq, Nat.mul_comm payload, Nat.or_comm, ← Nat.two_pow_add_eq_or_of_lt h, Nat.add_comm]

/-- The buffer goes on with a varint that makes `n` of the value of the `i` digits before it, within ten bytes and a `u64`. -/
def GoesOn (i value n : Nat) (buffer rest : Bytes) : Prop :=
  ∃ bytes, Varint.Closed bytes ∧ buffer = bytes ++ rest ∧ bytes.length + i ≤ 10 ∧ n = value + 2 ^ (7 * i) * Varint.value bytes ∧
    n < 2 ^ 64

variable {i value n : Nat}

/-- It goes on with a last byte, or with one after which it goes on. -/
theorem goesOn_cons_iff {byte : UInt8} {tail rest : Bytes} :
    GoesOn i value n (byte :: tail) rest ↔
      (byte.toNat < 128 ∧ tail = rest ∧ i ≤ 9 ∧ n = value + 2 ^ (7 * i) * (byte.toNat % 128) ∧ n < 2 ^ 64) ∨
        (128 ≤ byte.toNat ∧ GoesOn (i + 1) (value + 2 ^ (7 * i) * (byte.toNat % 128)) n tail rest) := by
  have hpow : 2 ^ (7 * (i + 1)) = 2 ^ (7 * i) * 128 := by rw [Nat.mul_succ, Nat.pow_add]
  constructor
  · rintro ⟨bytes, hclosed, heq, hlength, rfl, hlt⟩
    cases bytes with
    | nil => exact hclosed.elim
    | cons b bytes =>
      cases heq
      rw [List.length_cons] at hlength
      rcases Varint.closed_cons_iff.mp hclosed with ⟨rfl, hlast⟩ | ⟨hmore, hrest⟩
      · exact Or.inl ⟨hlast, rfl, by omega, by simp [Varint.value], hlt⟩
      · refine Or.inr ⟨hmore, bytes, hrest, rfl, by omega, ?_, hlt⟩
        rw [Varint.value, hpow]
        ring
  · rintro (⟨hlast, rfl, hi, rfl, hlt⟩ | ⟨hmore, bytes, hclosed, rfl, hlength, rfl, hlt⟩)
    · exact ⟨[byte], hlast, rfl, by simp; omega, by simp [Varint.value], hlt⟩
    · refine ⟨byte :: bytes, Varint.closed_cons_iff.mpr (Or.inr ⟨hmore, hclosed⟩), rfl, ?_, ?_, hlt⟩
      · rw [List.length_cons]
        omega
      · rw [Varint.value, hpow]
        ring

variable {buffer rest : Bytes}

/-- A varint takes a byte at least. -/
theorem GoesOn.lt_ten (h : GoesOn i value n buffer rest) : i < 10 := by
  obtain ⟨bytes, hclosed, -, hlength, -⟩ := h
  have hpos := hclosed.length_pos
  omega

/-- After `i` digits the loop reads the rest of a varint, and nothing else. -/
theorem readU64VarintLoop_iff (hi : i ≤ 9) (hvalue : value < 2 ^ (7 * i)) :
    readU64VarintLoop (7 * i) value buffer = .ok (n, rest) ↔ GoesOn i value n buffer rest := by
  induction buffer generalizing i value with
  | nil =>
    constructor
    · intro h
      cases h
    · rintro ⟨bytes, hclosed, heq, -⟩
      exact absurd (List.append_eq_nil_iff.mp heq.symm).1 hclosed.ne_nil
  | cons byte tail ih =>
    have hpow : 2 ^ (7 * (i + 1)) = 2 ^ (7 * i) * 128 := by rw [Nat.mul_succ, Nat.pow_add]
    have hpayload : byte.toNat % 128 < 128 := Nat.mod_lt _ (by decide)
    have hnext : value + 2 ^ (7 * i) * (byte.toNat % 128) < 2 ^ (7 * (i + 1)) := by
      rw [hpow]
      nlinarith
    unfold readU64VarintLoop
    dsimp only
    rw [or_shiftLeft hvalue, goesOn_cons_iff]
    split
    · -- at the last place only one bit is left
      rename_i hover
      obtain rfl : i = 9 := by omega
      constructor
      · intro h
        cases h
      · rintro (⟨-, -, -, rfl, hlt⟩ | ⟨-, hmore⟩)
        · omega
        · exact absurd hmore.lt_ten (by decide)
    · rename_i hfits
      have hlt : value + 2 ^ (7 * i) * (byte.toNat % 128) < 2 ^ 64 := by
        rcases Nat.lt_or_ge i 9 with hlt | hge
        · exact hnext.trans_le (Nat.pow_le_pow_right (by decide) (by omega))
        · obtain rfl : i = 9 := by omega
          have hone : byte.toNat % 128 ≤ 1 := by omega
          omega
      split
      · rename_i hlast
        constructor
        · intro h
          cases h
          exact Or.inl ⟨hlast, rfl, hi, rfl, hlt⟩
        · rintro (⟨-, rfl, -, rfl, -⟩ | ⟨hmore, -⟩)
          · rfl
          · omega
      · rename_i hmore
        split
        · constructor
          · intro h
            cases h
          · rintro (⟨hlast, -⟩ | ⟨-, hgoes⟩)
            · exact absurd hlast hmore
            · have hten := hgoes.lt_ten
              omega
        · rw [show 7 * i + 7 = 7 * (i + 1) from rfl, ih (by omega) hnext]
          constructor
          · exact fun h => Or.inr ⟨Nat.not_lt.mp hmore, h⟩
          · rintro (⟨hlast, -⟩ | ⟨-, hgoes⟩)
            · exact absurd hlast hmore
            · exact hgoes

/-- What is read is a varint of a `u64`, and what follows it is left. -/
theorem readU64Varint_iff {n : Nat} :
    readU64Varint buffer = .ok (n, rest) ↔ ∃ bytes, U64Varint bytes n ∧ buffer = bytes ++ rest := by
  rw [readU64Varint, show 0 = 7 * 0 from rfl, readU64VarintLoop_iff (by decide) (by decide)]
  constructor
  · rintro ⟨bytes, hclosed, heq, hlength, hn, hlt⟩
    exact ⟨bytes, ⟨hclosed, by omega, by simpa using hn.symm, hlt⟩, heq⟩
  · rintro ⟨bytes, ⟨hclosed, hlength, hn, hlt⟩, heq⟩
    exact ⟨bytes, hclosed, heq, by omega, by simpa using hn.symm, hlt⟩

/-! ## Columns -/

/-- What the values of a column stand for, each decoded with the one before. -/
inductive Decoded (decode : Option Nat → Nat → Except String Nat) : Option Nat → List Nat → List Nat → Prop where
  | nil {previous : Option Nat} : Decoded decode previous [] []
  | cons {previous : Option Nat} {raw value : Nat} {raws values : List Nat} : decode previous raw = .ok value →
      Decoded decode (some value) raws values → Decoded decode previous (raw :: raws) (value :: values)

variable {previous : Option Nat}

theorem readColumn_iff {decode : Option Nat → Nat → Except String Nat} {n : Nat} {values : List Nat} :
    readColumn decode n previous buffer = .ok (values, rest) ↔
      ∃ raws bytes, raws.length = n ∧ U64Column raws bytes ∧ buffer = bytes ++ rest ∧ Decoded decode previous raws values := by
  induction n generalizing previous values buffer with
  | zero =>
    unfold readColumn
    constructor
    · intro h
      cases h
      exact ⟨[], [], rfl, .nil, rfl, .nil⟩
    · rintro ⟨raws, bytes, hlength, hcolumn, rfl, hdecoded⟩
      obtain rfl := List.length_eq_zero_iff.mp hlength
      cases hcolumn
      cases hdecoded
      rfl
  | succ n ih =>
    unfold readColumn
    constructor
    · intro h
      obtain ⟨⟨raw, tail⟩, hraw, h⟩ := Except.bind_eq_ok_iff.mp h
      obtain ⟨value, hvalue, h⟩ := Except.bind_eq_ok_iff.mp h
      obtain ⟨⟨values', rest'⟩, hrest, h⟩ := Except.bind_eq_ok_iff.mp h
      cases h
      obtain ⟨first, hfirst, rfl⟩ := readU64Varint_iff.mp hraw
      obtain ⟨raws, bytes, hlength, hcolumn, rfl, hdecoded⟩ := ih.mp hrest
      exact ⟨raw :: raws, first ++ bytes, by rw [List.length_cons, hlength], .cons hfirst hcolumn, (List.append_assoc ..).symm,
        .cons hvalue hdecoded⟩
    · rintro ⟨raws, bytes, hlength, hcolumn, rfl, hdecoded⟩
      cases hcolumn with
      | nil => cases hlength
      | cons hfirst hcolumn =>
        cases hdecoded with
        | cons hvalue hdecoded =>
          refine Except.bind_eq_ok_iff.mpr ⟨(_, _), readU64Varint_iff.mpr ⟨_, hfirst, List.append_assoc ..⟩, ?_⟩
          refine Except.bind_eq_ok_iff.mpr ⟨_, hvalue, ?_⟩
          exact Except.bind_eq_ok_iff.mpr ⟨(_, _), ih.mpr ⟨_, _, Nat.succ.inj hlength, hcolumn, rfl, hdecoded⟩, rfl⟩

/-- The sums of the numbers so far. -/
def sumsFrom (start : Nat) : List Nat → List Nat
  | [] => []
  | delta :: deltas => (start + delta) :: sumsFrom (start + delta) deltas

theorem length_sumsFrom (start : Nat) (deltas : List Nat) : (sumsFrom start deltas).length = deltas.length := by
  induction deltas generalizing start with
  | nil => rfl
  | cons delta deltas ih => rw [sumsFrom, List.length_cons, List.length_cons, ih]

/-- A column whose values are checked one by one against a bound is what its values are before the checks. -/
theorem decoded_iff {decode : Option Nat → Nat → Except String Nat} {bound : Nat} (value : Option Nat → Nat → Nat)
    (column : Option Nat → List Nat → List Nat) (hnil : ∀ previous, column previous [] = [])
    (hcons : ∀ previous raw raws, column previous (raw :: raws) = value previous raw :: column (some (value previous raw)) raws)
    (hdecode : ∀ previous raw, ∃ error, decode previous raw = if value previous raw < bound then .ok (value previous raw) else
      .error error)
    {raws values : List Nat} : Decoded decode previous raws values ↔ values = column previous raws ∧ ∀ v ∈ values, v < bound := by
  have hchecked : ∀ {previous : Option Nat} {raw v : Nat}, decode previous raw = .ok v ↔ v = value previous raw ∧ v < bound := by
    intro previous raw v
    obtain ⟨error, herror⟩ := hdecode previous raw
    rw [herror]
    by_cases h : value previous raw < bound
    · rw [if_pos h]
      exact ⟨fun heq => ⟨(Except.ok.inj heq).symm, Except.ok.inj heq ▸ h⟩, fun heq => congrArg Except.ok heq.1.symm⟩
    · rw [if_neg h]
      exact ⟨fun heq => (by cases heq), fun heq => absurd (heq.1 ▸ heq.2) h⟩
  induction raws generalizing previous values with
  | nil =>
    rw [hnil]
    constructor
    · rintro ⟨⟩
      exact ⟨rfl, nofun⟩
    · rintro ⟨rfl, -⟩
      exact .nil
  | cons raw raws ih =>
    rw [hcons]
    constructor
    · intro h
      cases h with
      | cons hfirst hrest =>
        obtain ⟨rfl, hlt⟩ := hchecked.mp hfirst
        obtain ⟨rfl, hall⟩ := ih.mp hrest
        exact ⟨rfl, List.forall_mem_cons.mpr ⟨hlt, hall⟩⟩
    · rintro ⟨rfl, hall⟩
      obtain ⟨hlt, hall⟩ := List.forall_mem_cons.mp hall
      exact .cons (hchecked.mpr ⟨rfl, hlt⟩) (ih.mpr ⟨rfl, hall⟩)

theorem decoded_tileId_iff {deltas tileIds : List Nat} :
    Decoded decodeTileId previous deltas tileIds ↔
      tileIds = sumsFrom (previous.getD 0) deltas ∧ ∀ tileId ∈ tileIds, tileId < u64Bound := by
  refine decoded_iff (fun previous delta => previous.getD 0 + delta) (fun previous deltas => sumsFrom (previous.getD 0) deltas)
    (fun _ => rfl) (fun _ _ _ => rfl) fun previous delta => ⟨"PMTiles directory tile id overflow", ?_⟩
  unfold decodeTileId checkedAdd
  by_cases h : previous.getD 0 + delta < u64Bound
  · rw [if_pos h, if_pos h]
  · rw [if_neg h, if_neg h]

theorem decoded_u32_iff {raws values : List Nat} :
    Decoded decodeU32 previous raws values ↔ values = raws ∧ ∀ value ∈ values, value < 2 ^ 32 :=
  decoded_iff (fun _ raw => raw) (fun _ raws => raws) (fun _ => rfl) (fun _ _ _ => rfl) fun _ _ => ⟨_, rfl⟩

/-- What the column of offsets stands for, of entries by offset and length: a zero for the end of the entry before, which the
first has none of, and any other number for one less. -/
inductive OffsetsOf : Option (Nat × Nat) → List Nat → List (Nat × Nat) → Prop where
  | nil {previous : Option (Nat × Nat)} : OffsetsOf previous [] []
  | adjacent {offset length length' : Nat} {raws : List Nat} {entries : List (Nat × Nat)} : offset + length < u64Bound →
      OffsetsOf (some (offset + length, length')) raws entries →
      OffsetsOf (some (offset, length)) (0 :: raws) ((offset + length, length') :: entries)
  | apart {previous : Option (Nat × Nat)} {offset length : Nat} {raws : List Nat} {entries : List (Nat × Nat)} :
      OffsetsOf (some (offset, length)) raws entries → OffsetsOf previous ((offset + 1) :: raws) ((offset, length) :: entries)

variable {previous : Option (Nat × Nat)}

theorem OffsetsOf.length_eq {raws : List Nat} {entries : List (Nat × Nat)}
    (h : OffsetsOf previous raws entries) : raws.length = entries.length := by
  induction h with
  | nil => rfl
  | adjacent _ _ ih => rw [List.length_cons, List.length_cons, ih]
  | apart _ ih => rw [List.length_cons, List.length_cons, ih]

/-- What an offset is read as. -/
def decodeOffset (previous : Option (Nat × Nat)) (raw : Nat) : Except String Nat :=
  if raw = 0 then
    match previous with
    | none => .error "invalid PMTiles directory entry"
    | some (offset, length) =>
      match checkedAdd offset length with
      | some stop => .ok stop
      | none => .error "PMTiles directory offset overflow"
  else .ok (raw - 1)

theorem readOffsets_cons (length : Nat) (lengths : List Nat) (previous : Option (Nat × Nat)) (buffer : Bytes) :
    readOffsets (length :: lengths) previous buffer =
      readU64Varint buffer >>= fun first => decodeOffset previous first.1 >>= fun offset =>
        readOffsets lengths (some (offset, length)) first.2 >>= fun more => .ok (offset :: more.1, more.2) := by
  rw [readOffsets]
  refine congrArg _ (funext fun first => ?_)
  unfold decodeOffset
  dsimp only
  split
  · cases previous with
    | none => rfl
    | some before =>
      cases hstop : checkedAdd before.1 before.2 with
      | none => simp [hstop]
      | some stop => simp [hstop]
  · rfl

theorem decodeOffset_iff {raw offset : Nat} :
    decodeOffset previous raw = .ok offset ↔
      (raw = 0 ∧ ∃ before, previous = some before ∧ offset = before.1 + before.2 ∧ offset < u64Bound) ∨ raw = offset + 1 := by
  unfold decodeOffset
  by_cases hzero : raw = 0
  · rw [if_pos hzero]
    cases previous with
    | none => simp [hzero]
    | some before =>
      by_cases hlt : before.1 + before.2 < u64Bound
      · simp [checkedAdd, hlt, hzero]
        constructor
        · rintro rfl
          exact ⟨rfl, hlt⟩
        · exact fun h => h.1.symm
      · simp [checkedAdd, hlt, hzero]
        rintro rfl
        exact Nat.not_lt.mp hlt
  · rw [if_neg hzero]
    constructor
    · intro h
      cases h
      exact Or.inr (by omega)
    · rintro (⟨rfl, -⟩ | rfl)
      · exact absurd rfl hzero
      · rfl

theorem readOffsets_iff {lengths offsets : List Nat} :
    readOffsets lengths previous buffer = .ok (offsets, rest) ↔
      offsets.length = lengths.length ∧ ∃ raws bytes, U64Column raws bytes ∧ buffer = bytes ++ rest ∧
        OffsetsOf previous raws (offsets.zip lengths) := by
  induction lengths generalizing previous offsets buffer with
  | nil =>
    unfold readOffsets
    constructor
    · intro h
      cases h
      exact ⟨rfl, [], [], .nil, rfl, .nil⟩
    · rintro ⟨hlength, raws, bytes, hcolumn, rfl, hoffsets⟩
      obtain rfl := List.length_eq_zero_iff.mp hlength
      cases hoffsets
      cases hcolumn
      rfl
  | cons length lengths ih =>
    rw [readOffsets_cons]
    constructor
    · intro h
      obtain ⟨⟨raw, tail⟩, hraw, h⟩ := Except.bind_eq_ok_iff.mp h
      obtain ⟨offset, hoffset, h⟩ := Except.bind_eq_ok_iff.mp h
      obtain ⟨⟨offsets', rest'⟩, hrest, h⟩ := Except.bind_eq_ok_iff.mp h
      cases h
      obtain ⟨first, hfirst, rfl⟩ := readU64Varint_iff.mp hraw
      obtain ⟨hlength, raws, bytes, hcolumn, heq, hoffsets⟩ := ih.mp hrest
      refine ⟨by rw [List.length_cons, List.length_cons, hlength], raw :: raws, first ++ bytes, .cons hfirst hcolumn, ?_, ?_⟩
      · rw [List.append_assoc, ← heq]
      · rcases decodeOffset_iff.mp hoffset with ⟨rfl, before, rfl, rfl, hlt⟩ | rfl
        · exact .adjacent hlt hoffsets
        · exact .apart hoffsets
    · rintro ⟨hlength, raws, bytes, hcolumn, rfl, hoffsets⟩
      cases offsets with
      | nil => cases hlength
      | cons offset offsets =>
        rw [List.zip_cons_cons] at hoffsets
        have hnext : ∀ {raw : Nat} {raws : List Nat} {first bytes : Bytes}, U64Varint first raw → U64Column raws bytes →
            decodeOffset previous raw = .ok offset → OffsetsOf (some (offset, length)) raws (offsets.zip lengths) →
            readU64Varint (first ++ bytes ++ rest) >>= (fun first => decodeOffset previous first.1 >>= fun offset =>
              readOffsets lengths (some (offset, length)) first.2 >>= fun more => .ok (offset :: more.1, more.2)) =
              .ok (offset :: offsets, rest) := by
          intro raw raws first bytes hfirst hcolumn hdecode hrest
          refine Except.bind_eq_ok_iff.mpr ⟨(raw, bytes ++ rest), readU64Varint_iff.mpr ⟨first, hfirst, List.append_assoc ..⟩, ?_⟩
          refine Except.bind_eq_ok_iff.mpr ⟨offset, hdecode, ?_⟩
          exact Except.bind_eq_ok_iff.mpr ⟨(offsets, rest), ih.mpr ⟨Nat.succ.inj hlength, raws, bytes, hcolumn, rfl, hrest⟩, rfl⟩
        generalize hentries : (offset, length) :: offsets.zip lengths = entries at hoffsets
        cases hoffsets with
        | nil => cases hentries
        | adjacent hlt hrest =>
          obtain ⟨hentry, rfl⟩ := List.cons.inj hentries
          cases hentry
          cases hcolumn with
          | cons hfirst hcolumn => exact hnext hfirst hcolumn (decodeOffset_iff.mpr (Or.inl ⟨rfl, _, rfl, rfl, hlt⟩)) hrest
        | apart hrest =>
          obtain ⟨hentry, rfl⟩ := List.cons.inj hentries
          cases hentry
          cases hcolumn with
          | cons hfirst hcolumn => exact hnext hfirst hcolumn (decodeOffset_iff.mpr (Or.inr rfl)) hrest

/-! ## The whole of it -/

namespace Directory

/-- The bytes begin with a directory of the entries: their number, and a column for each field. -/
def LaidOut (bytes : Bytes) (entries : List DirectoryEntry) : Prop :=
  ∃ deltas offsets count deltaBytes runLengthBytes lengthBytes offsetBytes rest,
    bytes = count ++ (deltaBytes ++ (runLengthBytes ++ (lengthBytes ++ (offsetBytes ++ rest)))) ∧
    U64Varint count entries.length ∧ U64Column deltas deltaBytes ∧ U64Column (entries.map (·.runLength)) runLengthBytes ∧
    U64Column (entries.map (·.length)) lengthBytes ∧ U64Column offsets offsetBytes ∧
    entries.map (·.tileId) = sumsFrom 0 deltas ∧ OffsetsOf none offsets (entries.map fun e => (e.offset, e.length)) ∧
    ∀ e ∈ entries, e.tileId < u64Bound ∧ e.runLength < 2 ^ 32 ∧ e.length < 2 ^ 32

/-- The parser up to where it reserves: how many entries it reserves, and the bytes that remain. -/
def reserve (decompressed : Bytes) : Except String (Nat × Bytes) := do
  let (nEntries, buffer) ← readU64Varint decompressed
  match checkedMul nEntries 4 with
  | none => .error "PMTiles directory entry count overflow"
  | some minimumEncodedLen =>
    if minimumEncodedLen > buffer.length then
      .error ("PMTiles directory declares " ++ toString nEntries ++ " entries but only " ++ toString buffer.length ++
        " encoded bytes remain")
    else .ok (nEntries, buffer)

/-- The parser from there on. -/
def readColumns (nEntries : Nat) (buffer : Bytes) : Except String Directory := do
  let (tileIds, buffer) ← readColumn decodeTileId nEntries none buffer
  let (runLengths, buffer) ← readColumn decodeU32 nEntries none buffer
  let (lengths, buffer) ← readColumn decodeU32 nEntries none buffer
  let (offsets, _) ← readOffsets lengths none buffer
  .ok ⟨(List.zip (List.zip tileIds offsets) (List.zip lengths runLengths)).map fun (((tileId, offset), (length, runLength))) =>
    ⟨tileId, offset, length, runLength⟩⟩

theorem parseWithLimit_eq (decoders : Decoders) (compression : Compression) (bytes : Bytes) (maxDecompressedBytes : Nat) :
    parseWithLimit decoders compression bytes maxDecompressedBytes =
      decoders.decompressBytesWithLimit compression bytes maxDecompressedBytes >>= fun decompressed =>
        reserve decompressed >>= fun reserved => readColumns reserved.1 reserved.2 := by
  unfold parseWithLimit
  refine congrArg _ (funext fun decompressed => ?_)
  unfold reserve readColumns
  cases readU64Varint decompressed with
  | error e => rfl
  | ok first =>
    obtain ⟨nEntries, buffer⟩ := first
    cases hmul : checkedMul nEntries 4 with
    | none => simp [hmul, bind, Except.bind]
    | some minimum =>
      by_cases hlong : buffer.length < minimum
      · simp [hmul, hlong, bind, Except.bind]
      · simp [hmul, hlong, bind, Except.bind]

variable {n : Nat}

theorem reserve_iff {decompressed rest : Bytes} (hlength : decompressed.length < u64Bound) :
    reserve decompressed = .ok (n, rest) ↔ ∃ count, U64Varint count n ∧ decompressed = count ++ rest ∧ 4 * n ≤ rest.length := by
  unfold reserve
  constructor
  · intro h
    obtain ⟨⟨nEntries, buffer⟩, hread, hchecked⟩ := Except.bind_eq_ok_iff.mp h
    obtain ⟨count, hcount, rfl⟩ := readU64Varint_iff.mp hread
    dsimp only at hchecked
    split at hchecked
    · cases hchecked
    · rename_i minimum hmul
      split at hchecked
      · cases hchecked
      · rename_i hfits
        cases hchecked
        have hmin := checkedMul_eq_some hmul
        exact ⟨count, hcount, rfl, by omega⟩
  · rintro ⟨count, hcount, rfl, hfits⟩
    refine Except.bind_eq_ok_iff.mpr ⟨(n, rest), readU64Varint_iff.mpr ⟨count, hcount, rfl⟩, ?_⟩
    rw [List.length_append] at hlength
    have hmul : checkedMul n 4 = some (n * 4) := if_pos (by omega)
    simp [hmul, Nat.not_lt.mpr (show n * 4 ≤ rest.length by omega)]

/-- The entries that four columns make are told by the columns. -/
theorem columns_of_entries (entries : List DirectoryEntry) :
    (List.zip (List.zip (entries.map (·.tileId)) (entries.map (·.offset)))
      (List.zip (entries.map (·.length)) (entries.map (·.runLength)))).map
        (fun (((tileId, offset), (length, runLength))) => (⟨tileId, offset, length, runLength⟩ : DirectoryEntry)) = entries := by
  induction entries with
  | nil => rfl
  | cons e entries ih => simp only [List.map_cons, List.zip_cons_cons, ih]

theorem entries_of_columns {tileIds offsets lengths runLengths : List Nat} (htileIds : tileIds.length = n)
    (hoffsets : offsets.length = n) (hlengths : lengths.length = n) (hrunLengths : runLengths.length = n) :
    ∃ entries : List DirectoryEntry, entries.map (·.tileId) = tileIds ∧ entries.map (·.offset) = offsets ∧
      entries.map (·.length) = lengths ∧ entries.map (·.runLength) = runLengths := by
  induction n generalizing tileIds offsets lengths runLengths with
  | zero =>
    exact ⟨[], (List.length_eq_zero_iff.mp htileIds).symm, (List.length_eq_zero_iff.mp hoffsets).symm,
      (List.length_eq_zero_iff.mp hlengths).symm, (List.length_eq_zero_iff.mp hrunLengths).symm⟩
  | succ n ih =>
    obtain ⟨tileId, tileIds, rfl⟩ := List.exists_cons_of_length_eq_add_one htileIds
    obtain ⟨offset, offsets, rfl⟩ := List.exists_cons_of_length_eq_add_one hoffsets
    obtain ⟨length, lengths, rfl⟩ := List.exists_cons_of_length_eq_add_one hlengths
    obtain ⟨runLength, runLengths, rfl⟩ := List.exists_cons_of_length_eq_add_one hrunLengths
    obtain ⟨entries, rfl, rfl, rfl, rfl⟩ := ih (Nat.succ.inj htileIds) (Nat.succ.inj hoffsets) (Nat.succ.inj hlengths)
      (Nat.succ.inj hrunLengths)
    exact ⟨⟨tileId, offset, length, runLength⟩ :: entries, rfl, rfl, rfl, rfl⟩

theorem readColumns_iff {buffer : Bytes} {entries : List DirectoryEntry} :
    readColumns n buffer = .ok ⟨entries⟩ ↔
      entries.length = n ∧ ∃ deltas offsets deltaBytes runLengthBytes lengthBytes offsetBytes rest,
        buffer = deltaBytes ++ (runLengthBytes ++ (lengthBytes ++ (offsetBytes ++ rest))) ∧
        U64Column deltas deltaBytes ∧ U64Column (entries.map (·.runLength)) runLengthBytes ∧
        U64Column (entries.map (·.length)) lengthBytes ∧ U64Column offsets offsetBytes ∧
        entries.map (·.tileId) = sumsFrom 0 deltas ∧ OffsetsOf none offsets (entries.map fun e => (e.offset, e.length)) ∧
        ∀ e ∈ entries, e.tileId < u64Bound ∧ e.runLength < 2 ^ 32 ∧ e.length < 2 ^ 32 := by
  unfold readColumns
  constructor
  · intro h
    obtain ⟨⟨tileIds, buffer1⟩, htileIds, h⟩ := Except.bind_eq_ok_iff.mp h
    obtain ⟨⟨runLengths, buffer2⟩, hrunLengths, h⟩ := Except.bind_eq_ok_iff.mp h
    obtain ⟨⟨lengths, buffer3⟩, hlengths, h⟩ := Except.bind_eq_ok_iff.mp h
    obtain ⟨⟨offsets, rest⟩, hoffsets, h⟩ := Except.bind_eq_ok_iff.mp h
    obtain ⟨deltas, deltaBytes, hn1, hcolumn1, hbuffer, hdecoded1⟩ := readColumn_iff.mp htileIds
    obtain ⟨raws2, runLengthBytes, hn2, hcolumn2, hbuffer1, hdecoded2⟩ := readColumn_iff.mp hrunLengths
    obtain ⟨raws3, lengthBytes, hn3, hcolumn3, hbuffer2, hdecoded3⟩ := readColumn_iff.mp hlengths
    obtain ⟨hn4, raws4, offsetBytes, hcolumn4, hbuffer3, hoffsetsOf⟩ := readOffsets_iff.mp hoffsets
    obtain ⟨hsums, htileIdLt⟩ := decoded_tileId_iff.mp hdecoded1
    obtain ⟨rfl, hrunLt⟩ := decoded_u32_iff.mp hdecoded2
    obtain ⟨rfl, hlengthLt⟩ := decoded_u32_iff.mp hdecoded3
    have hn0 : tileIds.length = n := by rw [hsums, length_sumsFrom, hn1]
    obtain ⟨made, rfl, rfl, rfl, rfl⟩ := entries_of_columns hn0 (hn4.trans hn3) hn3 hn2
    have hmade : entries = made := by
      have heq := congrArg Directory.entries (Except.ok.inj h)
      rw [columns_of_entries] at heq
      exact heq.symm
    subst hmade
    rw [List.zip_map'] at hoffsetsOf
    refine ⟨by simpa using hn2, deltas, raws4, deltaBytes, runLengthBytes, lengthBytes, offsetBytes, rest, ?_, hcolumn1, hcolumn2,
      hcolumn3, hcolumn4, hsums, hoffsetsOf, fun e he => ⟨htileIdLt _ (List.mem_map_of_mem he), hrunLt _ (List.mem_map_of_mem he),
        hlengthLt _ (List.mem_map_of_mem he)⟩⟩
    rw [hbuffer, hbuffer1, hbuffer2, hbuffer3]
  · rintro ⟨rfl, deltas, offsets, deltaBytes, runLengthBytes, lengthBytes, offsetBytes, rest, rfl, hcolumn1, hcolumn2, hcolumn3,
      hcolumn4,
      hsums, hoffsetsOf, hlt⟩
    have hlengthDeltas : deltas.length = entries.length := by
      have heq := congrArg List.length hsums
      rw [length_sumsFrom, List.length_map] at heq
      exact heq.symm
    refine Except.bind_eq_ok_iff.mpr ⟨(entries.map (·.tileId), _),
      readColumn_iff.mpr ⟨deltas, deltaBytes, hlengthDeltas, hcolumn1, rfl,
      decoded_tileId_iff.mpr ⟨hsums, fun tileId h => ?_⟩⟩, ?_⟩
    · obtain ⟨e, he, rfl⟩ := List.mem_map.mp h
      exact (hlt e he).1
    refine Except.bind_eq_ok_iff.mpr ⟨(entries.map (·.runLength), _),
      readColumn_iff.mpr ⟨_, runLengthBytes, List.length_map .., hcolumn2,
      rfl, decoded_u32_iff.mpr ⟨rfl, fun runLength h => ?_⟩⟩, ?_⟩
    · obtain ⟨e, he, rfl⟩ := List.mem_map.mp h
      exact (hlt e he).2.1
    refine Except.bind_eq_ok_iff.mpr ⟨(entries.map (·.length), _),
      readColumn_iff.mpr ⟨_, lengthBytes, List.length_map .., hcolumn3,
      rfl, decoded_u32_iff.mpr ⟨rfl, fun length h => ?_⟩⟩, ?_⟩
    · obtain ⟨e, he, rfl⟩ := List.mem_map.mp h
      exact (hlt e he).2.2
    refine Except.bind_eq_ok_iff.mpr ⟨(entries.map (·.offset), rest),
      readOffsets_iff.mpr ⟨by simp, offsets, offsetBytes, hcolumn4, rfl,
      ?_⟩, ?_⟩
    · rwa [List.zip_map']
    · exact congrArg Except.ok (congrArg Directory.mk (columns_of_entries entries))

/-- A directory without the zeroes for adjacent entries, or with those that are chosen. -/
def offsetsOf (shorthand : Nat → Bool) : Nat → Option (Nat × Nat) → List (Nat × Nat) → List Nat
  | _, _, [] => []
  | i, previous, (offset, length) :: entries =>
    (if shorthand i && previous.any (fun before => before.1 + before.2 == offset) then 0 else offset + 1) ::
      offsetsOf shorthand (i + 1) (some (offset, length)) entries

theorem offsetsOf_spec (shorthand : Nat → Bool) (i : Nat) (previous : Option (Nat × Nat)) {entries : List (Nat × Nat)}
    (hlt : ∀ e ∈ entries, e.1 < u64Bound - 1) :
    OffsetsOf previous (offsetsOf shorthand i previous entries) entries ∧ ∀ raw ∈ offsetsOf shorthand i previous entries,
      raw < u64Bound := by
  induction entries generalizing i previous with
  | nil => exact ⟨.nil, nofun⟩
  | cons e entries ih =>
    obtain ⟨offset, length⟩ := e
    obtain ⟨hfirst, hrest⟩ := List.forall_mem_cons.mp hlt
    obtain ⟨hoffsets, hraws⟩ := ih (i + 1) (some (offset, length)) hrest
    have hfirst : offset < u64Bound - 1 := hfirst
    rw [offsetsOf]
    split
    · rename_i hshort
      obtain ⟨-, hadjacent⟩ := Bool.and_eq_true_iff.mp hshort
      cases previous with
      | none => cases hadjacent
      | some before =>
        obtain rfl : before.1 + before.2 = offset := by simpa using hadjacent
        exact ⟨.adjacent (by omega) hoffsets, List.forall_mem_cons.mpr ⟨by decide, hraws⟩⟩
    · exact ⟨.apart hoffsets, List.forall_mem_cons.mpr ⟨by omega, hraws⟩⟩

/-- The differences of ascending numbers. -/
def deltasFrom : Nat → List Nat → List Nat
  | _, [] => []
  | start, n :: ns => (n - start) :: deltasFrom n ns

theorem sumsFrom_deltasFrom {start : Nat} {ns : List Nat} (h : (start :: ns).Pairwise (· ≤ ·)) :
    sumsFrom start (deltasFrom start ns) = ns := by
  induction ns generalizing start with
  | nil => rfl
  | cons n ns ih =>
    obtain ⟨hstart, hns⟩ := List.pairwise_cons.mp h
    have hle : start ≤ n := hstart n List.mem_cons_self
    rw [deltasFrom, sumsFrom, Nat.add_sub_cancel' hle, ih hns]

theorem deltasFrom_lt {start bound : Nat} {ns : List Nat} (h : ∀ n ∈ ns, n < bound) : ∀ delta ∈ deltasFrom start ns,
    delta < bound := by
  induction ns generalizing start with
  | nil => exact nofun
  | cons n ns ih =>
    obtain ⟨hn, hns⟩ := List.forall_mem_cons.mp h
    exact List.forall_mem_cons.mpr ⟨Nat.lt_of_le_of_lt (Nat.sub_le n start) hn, ih hns⟩

/-- The layout of the entries in shortest varints. -/
def encode (shorthand : Nat → Bool) (entries : List DirectoryEntry) : Bytes :=
  Varint.encode entries.length ++ ((deltasFrom 0 (entries.map (·.tileId))).flatMap Varint.encode ++
    ((entries.map (·.runLength)).flatMap Varint.encode ++ ((entries.map (·.length)).flatMap Varint.encode ++
      (offsetsOf shorthand 0 none (entries.map fun e => (e.offset, e.length))).flatMap Varint.encode)))

theorem length_le_encode (shorthand : Nat → Bool) (entries : List DirectoryEntry) :
    entries.length ≤ (encode shorthand entries).length := by
  have hcolumn : ∀ ns : List Nat, ns.length ≤ (ns.flatMap Varint.encode).length := by
    intro ns
    induction ns with
    | nil => exact Nat.le_refl _
    | cons n ns ih =>
      rw [List.flatMap_cons, List.length_append, List.length_cons]
      have hpos := (Varint.closed_encode n).length_pos
      omega
  have hlengths := hcolumn (entries.map (·.length))
  rw [List.length_map] at hlengths
  simp only [encode, List.length_append]
  omega

/-- What a directory can hold: fields of their types, ascending tile ids, and offsets that can be told from none. -/
structure Encodable (entries : List DirectoryEntry) : Prop where
  ascending : (entries.map (·.tileId)).Pairwise (· ≤ ·)
  tileId_lt : ∀ e ∈ entries, e.tileId < u64Bound
  offset_lt : ∀ e ∈ entries, e.offset < u64Bound - 1
  length_lt : ∀ e ∈ entries, e.length < 2 ^ 32
  runLength_lt : ∀ e ∈ entries, e.runLength < 2 ^ 32

theorem laidOut_encode (shorthand : Nat → Bool) {entries : List DirectoryEntry} (h : Encodable entries)
    (hlength : entries.length < 2 ^ 64)
    (rest : Bytes) : LaidOut (encode shorthand entries ++ rest) entries := by
  have hten : 2 ^ 64 ≤ 128 ^ (9 + 1) := by decide
  have hoffsets : ∀ e ∈ entries.map (fun e => (e.offset, e.length)), e.1 < u64Bound - 1 := by
    intro e he
    obtain ⟨entry, hentry, rfl⟩ := List.mem_map.mp he
    exact h.offset_lt entry hentry
  obtain ⟨hoffsetsOf, hraws⟩ := offsetsOf_spec shorthand 0 none hoffsets
  have hmap : ∀ {f : DirectoryEntry → Nat} {bound : Nat}, (∀ e ∈ entries, f e < bound) → ∀ n ∈ entries.map f, n < bound := by
    intro f bound hf n hn
    obtain ⟨e, he, rfl⟩ := List.mem_map.mp hn
    exact hf e he
  refine ⟨deltasFrom 0 (entries.map (·.tileId)), offsetsOf shorthand 0 none (entries.map fun e => (e.offset, e.length)),
    _, _, _, _, _, rest, ?_, Varint.encodes_encode hlength hten, Varint.column_encode (deltasFrom_lt (hmap h.tileId_lt)) hten,
    Varint.column_encode (fun n hn => ?_) hten, Varint.column_encode (fun n hn => ?_) hten, Varint.column_encode hraws hten, ?_,
    hoffsetsOf, fun e he => ⟨h.tileId_lt e he, h.runLength_lt e he, h.length_lt e he⟩⟩
  · simp only [encode, List.append_assoc]
  · exact (hmap h.runLength_lt n hn).trans_le (by decide)
  · exact (hmap h.length_lt n hn).trans_le (by decide)
  · exact (sumsFrom_deltasFrom (List.pairwise_cons.mpr ⟨fun _ _ => Nat.zero_le _, h.ascending⟩)).symm

end Directory

/-- What was decompressed is within the limit. -/
theorem Decoders.length_decompressBytesWithLimit {decoders : Decoders} {compression : Compression} {bytes decompressed : Bytes}
    {maxBytes : Nat} (h : decoders.decompressBytesWithLimit compression bytes maxBytes = .ok decompressed) :
    decompressed.length ≤ maxBytes := by
  unfold Decoders.decompressBytesWithLimit at h
  dsimp only at h
  split at h
  · split at h
    · cases h
    · rename_i hle
      cases h
      exact Nat.not_lt.mp hle
  · cases h
  · split at h
    · cases h
    · split at h
      · cases h
      · split at h
        · cases h
        · rename_i hle
          cases h
          exact Nat.not_lt.mp hle

end Biei
