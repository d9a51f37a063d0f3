import Biei.ForwardResponse
import Biei.Lemmas.RenderKey
import Biei.Lemmas.Text

/-! # Headers and frames -/

namespace Biei

/-! ## Times -/

theorem durationMillis_mono {a b : Duration} (h : a ≤ b) : durationMillis a ≤ durationMillis b := by
  have hlt : ∀ d : Duration, min (d / 1000000) (u64Bound - 1) < 2 ^ 64 :=
    fun d => Nat.lt_of_le_of_lt (Nat.min_le_right _ _) (by decide)
  rw [UInt64.le_iff_toNat_le, durationMillis, durationMillis, UInt64.toNat_ofNat_of_lt' (hlt a),
    UInt64.toNat_ofNat_of_lt' (hlt b)]
  exact min_le_min (Nat.div_le_div_right h) (Nat.le_refl _)

theorem millisSince_mono {a b : Instant} (base : Instant) (h : a ≤ b) : millisSince a base ≤ millisSince b base :=
  durationMillis_mono (Nat.sub_le_sub_right h base)

theorem millisSince_self (base instant : Instant) : millisSince base base ≤ millisSince instant base := by
  unfold millisSince
  rw [Nat.sub_self]
  exact durationMillis_mono (Nat.zero_le _)

theorem fromMillis_mono {a b : UInt64} (h : a ≤ b) : fromMillis a ≤ fromMillis b :=
  Nat.mul_le_mul_right _ (UInt64.le_iff_toNat_le.mp h)

/-- The times of a completed outcome are in order, up to how late after its arrival they are. -/
def TaskOutcome.Ordered (outcome : TaskOutcome) : Prop :=
  ∀ info output, outcome.result = .completed info output →
    (info.startedAt ≤ info.nativeRenderStartedAt ∨ info.startedAt = outcome.arrivedAt) ∧
      info.nativeRenderStartedAt ≤ info.nativeRenderCompletedAt ∧ info.nativeRenderCompletedAt ≤ info.completedAt

/-- A header made of an outcome has its times in order. -/
theorem timelineOk_fromTaskOutcome {outcome : TaskOutcome} (h : outcome.Ordered) (styleId : StyleId) :
    (OutcomeHeader.fromTaskOutcome outcome styleId).1.result.timelineOk = true := by
  unfold OutcomeHeader.fromTaskOutcome
  split
  · rename_i info output hresult
    obtain ⟨hstart, hnative, hend⟩ := h info output hresult
    simp only [OutcomeResult.timelineOk, decide_eq_true_eq]
    refine ⟨?_, millisSince_mono _ hnative, millisSince_mono _ hend⟩
    rcases hstart with hstart | hstart
    · exact millisSince_mono _ hstart
    · rw [hstart]
      exact millisSince_self _ _
  · rfl
  · rfl

/-- A header whose times are in order gives back an outcome whose times are. -/
theorem ordered_intoTaskOutcome {header : OutcomeHeader} (h : header.result.timelineOk = true) (arrivedAt receivedAt : Instant)
    (output : Option RenderOutput) : (header.intoTaskOutcome arrivedAt receivedAt output).Ordered := by
  intro info output' hresult
  unfold OutcomeHeader.intoTaskOutcome at hresult ⊢
  dsimp only at hresult ⊢
  split at hresult
  · rename_i hheader
    rw [hheader] at h
    simp only [OutcomeResult.timelineOk, decide_eq_true_eq] at h
    obtain ⟨hstart, hnative, hend⟩ := h
    split at hresult
    · obtain ⟨rfl, -⟩ := TaskOutcome.Result.completed.inj hresult
      dsimp only
      have hoffset : ∀ (base span : Nat) (x y : UInt64), x ≤ y →
        base + min (fromMillis x) span ≤ base + min (fromMillis y) span :=
        fun base span x y hxy => Nat.add_le_add_left (min_le_min (fromMillis_mono hxy) (Nat.le_refl span)) base
      refine ⟨Or.inl (hoffset _ _ _ _ hstart), hoffset _ _ _ _ hnative, ?_⟩
      -- the peer is not taken to have arrived after its response was received
      have hbegin : ∀ d r a : Nat, max (if d ≤ max r a then max r a - d else a) a ≤ max r a := by
        intro d r a
        split <;> omega
      have hspan : ∀ base off total : Nat, base ≤ total → base + min off (total - base) ≤ total := by
        intro base off total hle
        omega
      exact hspan _ _ _ (hbegin _ _ _)
    · cases hresult
  · cases hresult
  · cases hresult

/-! ## Frames -/

section

variable (fromSlice : Bytes → Except String OutcomeHeader)

/-- The four bytes of a length. -/
theorem ofBeBytes_four_lt (b0 b1 b2 b3 : UInt8) : ofBeBytes [b0, b1, b2, b3] < 2 ^ 32 := by
  have h := ofBeBytes_lt [b0, b1, b2, b3]
  simpa using h

theorem exists_four_bytes {lead : Bytes} (h : lead.length = headerPrefixBytes) : ∃ b0 b1 b2 b3, lead = [b0, b1, b2, b3] := by
  match lead, h with
  | [b0, b1, b2, b3], _ => exact ⟨b0, b1, b2, b3, rfl⟩

/-- What the decoder does with a body that is long enough for a length. -/
theorem decodeResponsePrefix_cons (b0 b1 b2 b3 : UInt8) (rest : Bytes) :
    decodeResponsePrefix fromSlice (b0 :: b1 :: b2 :: b3 :: rest) =
      some (if rest.length < ofBeBytes [b0, b1, b2, b3] then .error .truncated
        else
          match fromSlice (rest.take (ofBeBytes [b0, b1, b2, b3])) with
          | .error err => .error (.decode err)
          | .ok header =>
            if header.result.timelineOk then .ok (header, headerPrefixBytes + ofBeBytes [b0, b1, b2, b3])
            else .error .invalidCompletedTimeline) := by
  have hlt := ofBeBytes_four_lt b0 b1 b2 b3
  have hadd : checkedAdd headerPrefixBytes (ofBeBytes [b0, b1, b2, b3]) =
      some (headerPrefixBytes + ofBeBytes [b0, b1, b2, b3]) := by
    unfold checkedAdd u64Bound headerPrefixBytes
    rw [if_pos (by omega)]
  unfold decodeResponsePrefix
  rw [if_neg (by simp [headerPrefixBytes])]
  simp only [List.getElem?_cons_zero, List.getElem?_cons_succ, Option.bind_eq_bind, Option.bind_some, hadd]
  split
  · rename_i hshort
    rw [if_pos (by simp [headerPrefixBytes] at hshort; omega)]
  · rename_i hlong
    have hlen : headerPrefixBytes + ofBeBytes [b0, b1, b2, b3] ≤ (b0 :: b1 :: b2 :: b3 :: rest).length := Nat.le_of_not_lt hlong
    rw [if_neg (by simp [headerPrefixBytes] at hlen; omega), slice?_eq_some (Nat.le_add_right _ _) hlen]
    have hpayload : slice (b0 :: b1 :: b2 :: b3 :: rest) headerPrefixBytes (headerPrefixBytes + ofBeBytes [b0, b1, b2, b3]) =
        rest.take (ofBeBytes [b0, b1, b2, b3]) := by
      simp [slice, headerPrefixBytes]
    rw [hpayload, Option.bind_some]
    cases fromSlice (rest.take (ofBeBytes [b0, b1, b2, b3])) with
    | error err => rfl
    | ok header =>
      by_cases htimeline : header.result.timelineOk = true
      · simp only [htimeline, if_true]
      · simp only [htimeline, Bool.false_eq_true, if_false]

/-- A prefix is decoded without a panic, and ends within the body. -/
theorem decodeResponsePrefix_total (body : Bytes) :
    ∃ r, decodeResponsePrefix fromSlice body = some r ∧ ∀ header payloadEnd, r = .ok (header, payloadEnd) →
      payloadEnd ≤ body.length ∧ header.result.timelineOk = true := by
  match body with
  | [] => exact ⟨_, rfl, fun _ _ h => by cases h⟩
  | [_] => exact ⟨_, rfl, fun _ _ h => by cases h⟩
  | [_, _] => exact ⟨_, rfl, fun _ _ h => by cases h⟩
  | [_, _, _] => exact ⟨_, rfl, fun _ _ h => by cases h⟩
  | b0 :: b1 :: b2 :: b3 :: rest =>
    refine ⟨_, decodeResponsePrefix_cons fromSlice b0 b1 b2 b3 rest, fun header payloadEnd h => ?_⟩
    split at h
    · cases h
    · rename_i hlong
      split at h
      · cases h
      · split at h
        · rename_i htimeline
          cases h
          refine ⟨?_, htimeline⟩
          simp only [List.length_cons, headerPrefixBytes]
          omega
        · cases h

theorem decodeResponseBytes_total (body : Bytes) :
    ∃ r, decodeResponseBytes fromSlice body = some r ∧ ∀ header image, r = .ok (header, image) →
      header.result.timelineOk = true := by
  obtain ⟨r, hr, hbound⟩ := decodeResponsePrefix_total fromSlice body
  unfold decodeResponseBytes
  rw [hr]
  match r with
  | .error err => exact ⟨_, rfl, fun _ _ h => by cases h⟩
  | .ok (header, payloadEnd) =>
    obtain ⟨hend, htimeline⟩ := hbound header payloadEnd rfl
    refine ⟨.ok (header, slice body payloadEnd body.length), ?_, fun header' image h => ?_⟩
    · simp [slice?_eq_some hend (Nat.le_refl _)]
    · cases h
      exact htimeline

variable {fromSlice}

/-- What was framed is decoded, whatever image follows it. -/
theorem decodeResponseBytes_frame {json : Bytes} {header : OutcomeHeader} (hjson : fromSlice json = .ok header)
    (htimeline : header.result.timelineOk = true) (hlen : json.length < 2 ^ 32) (image : Bytes) :
    decodeResponseBytes fromSlice (beBytes headerPrefixBytes json.length ++ json ++ image) = some (.ok (header, image)) := by
  have hread : ofBeBytes (beBytes headerPrefixBytes json.length) = json.length := ofBeBytes_beBytes hlen
  obtain ⟨b0, b1, b2, b3, hbytes⟩ := exists_four_bytes (length_beBytes headerPrefixBytes json.length)
  rw [hbytes] at hread ⊢
  have hlead : decodeResponsePrefix fromSlice ([b0, b1, b2, b3] ++ json ++ image) =
      some (.ok (header, headerPrefixBytes + json.length)) := by
    have h := decodeResponsePrefix_cons fromSlice b0 b1 b2 b3 (json ++ image)
    rw [hread, if_neg (by simp), List.take_left, hjson] at h
    simpa [htimeline] using h
  have himage : slice? ([b0, b1, b2, b3] ++ json ++ image) (headerPrefixBytes + json.length)
      ([b0, b1, b2, b3] ++ json ++ image).length = some image := by
    have hstart : headerPrefixBytes + json.length = ([b0, b1, b2, b3] ++ json).length := by
      rw [List.length_append]
      rfl
    rw [hstart, slice?_eq_some (by simp) (Nat.le_refl _), slice_append_right]
  unfold decodeResponseBytes
  simp only [hlead, himage, Option.bind_eq_bind, Option.bind_some]

end

/-! ## The JSON of a header -/

theorem Json.ofNat_inj {m n : Nat} (h : Json.ofNat m = Json.ofNat n) : m = n := by
  have htext := congrArg JsonNumber.text (Json.number.inj h)
  exact Nat.repr_injective htext

theorem Json.ofOption_inj {α : Type} {f : α → Json} (hf : Function.Injective f) (hnull : ∀ a, f a ≠ .null) {a b : Option α}
    (h : Json.ofOption f a = Json.ofOption f b) : a = b := by
  cases a with
  | none =>
    cases b with
    | none => rfl
    | some b => exact absurd h.symm (hnull b)
  | some a =>
    cases b with
    | none => exact absurd h (hnull a)
    | some b => rw [hf h]

theorem RenderMode.name_injective : Function.Injective RenderMode.name := fun a b => by cases a <;> cases b <;> decide

theorem Scale.name_injective : Function.Injective Scale.name := fun a b => by cases a <;> cases b <;> decide

theorem ImageFormat.name_injective : Function.Injective ImageFormat.name := fun a b => by cases a <;> cases b <;> decide

theorem RouteTier.name_injective : Function.Injective RouteTier.name := fun a b => by cases a <;> cases b <;> decide

theorem RejectionReason.name_injective : Function.Injective RejectionReason.name := fun a b => by cases a <;> cases b <;> decide

theorem FailureKind.name_injective : Function.Injective FailureKind.name := fun a b => by cases a <;> cases b <;> decide

theorem DeadlineStage.name_injective : Function.Injective DeadlineStage.name := fun a b => by cases a <;> cases b <;> decide

theorem ofOption_u64_inj {a b : Option UInt64}
    (h : Json.ofOption (fun ms : UInt64 => Json.ofNat ms.toNat) a = Json.ofOption (fun ms : UInt64 => Json.ofNat ms.toNat) b) :
      a = b :=
  Json.ofOption_inj (fun _ _ hab => UInt64.toNat_inj.mp (Json.ofNat_inj hab)) (fun _ hnull => by cases hnull) h

theorem WireRenderObservation.toJson_injective : Function.Injective WireRenderObservation.toJson := by
  intro a b h
  simp only [WireRenderObservation.toJson, Json.object.injEq, List.cons.injEq, Prod.mk.injEq, Json.string.injEq, true_and,
    and_true] at h
  obtain ⟨hmode, hscale, hformat, hwidth, hheight, hstyle, hsource⟩ := h
  cases a
  cases b
  rw [WireRenderObservation.mk.injEq]
  exact ⟨RenderMode.name_injective hmode, Scale.name_injective hscale, ImageFormat.name_injective hformat,
    UInt16.toNat_inj.mp (Json.ofNat_inj hwidth), UInt16.toNat_inj.mp (Json.ofNat_inj hheight), ofOption_u64_inj hstyle,
    ofOption_u64_inj hsource⟩

theorem OutcomeResult.toField_injective : Function.Injective OutcomeResult.toField := by
  intro a b h
  cases a with
  | completed nodeId workerId routeTier started nativeStarted nativeCompleted completed swap cold loaded overflow observation =>
    cases b with
    | completed nodeId' workerId' routeTier' started' nativeStarted' nativeCompleted' completed' swap' cold' loaded' overflow'
        observation' =>
      simp only [toField, Json.object.injEq, List.cons.injEq, Prod.mk.injEq, Json.string.injEq, Json.bool.injEq, true_and,
        and_true] at h
      obtain ⟨hnode, hworker, htier, hstarted, hnative, hnative', hcompleted, rfl, rfl, rfl, rfl, hobservation⟩ := h
      cases nodeId
      cases nodeId'
      have hworkerId := Json.ofOption_inj (fun _ _ hab => UInt32.toNat_inj.mp (Json.ofNat_inj hab))
        (fun _ hnull => by cases hnull)
        hworker
      have hseen := Json.ofOption_inj WireRenderObservation.toJson_injective (fun _ hnull => by cases hnull) hobservation
      have hms : ∀ {x y : UInt64}, Json.ofNat x.toNat = Json.ofNat y.toNat → x = y :=
        fun hxy => UInt64.toNat_inj.mp (Json.ofNat_inj hxy)
      simp only at hnode
      rw [hnode, hworkerId, RouteTier.name_injective htier, hms hstarted, hms hnative, hms hnative', hms hcompleted, hseen]
    | rejected => simp [toField] at h
    | failed => simp [toField] at h
  | rejected reason stage =>
    cases b with
    | completed => simp [toField] at h
    | rejected reason' stage' =>
      simp only [toField, Json.object.injEq, List.cons.injEq, Prod.mk.injEq, Json.string.injEq, true_and, and_true] at h
      obtain ⟨hreason, hstage⟩ := h
      have hstages := Json.ofOption_inj (fun _ _ hab => DeadlineStage.name_injective (Json.string.inj hab))
        (fun _ hnull => by cases hnull) hstage
      rw [RejectionReason.name_injective hreason, hstages]
    | failed => simp [toField] at h
  | failed error kind =>
    cases b with
    | completed => simp [toField] at h
    | rejected => simp [toField] at h
    | failed error' kind' =>
      simp only [toField, Json.object.injEq, List.cons.injEq, Prod.mk.injEq, Json.string.injEq, true_and, and_true] at h
      rw [h.1, FailureKind.name_injective h.2]

/-- The bytes of a header stand for no other header. -/
theorem OutcomeHeader.toVec_injective : Function.Injective OutcomeHeader.toVec := by
  intro a b h
  unfold toVec at h
  have hjson : a.toJson = b.toJson := Json.print_inj (utf8_injective h)
  simp only [toJson, Json.object.injEq, List.cons.injEq, Prod.mk.injEq, Json.string.injEq, Json.bool.injEq, true_and,
    and_true] at hjson
  obtain ⟨htask, hrequest, hstyle, hsource, hformat, hresult⟩ := hjson
  obtain ⟨taskId, ⟨requestId, hvalid⟩, ⟨styleId⟩, hadSource, imageFormat, result⟩ := a
  obtain ⟨taskId', ⟨requestId', hvalid'⟩, ⟨styleId'⟩, hadSource', imageFormat', result'⟩ := b
  simp only at hrequest hstyle hsource hresult
  subst hrequest hstyle hsource
  have hformats := Json.ofOption_inj (fun _ _ hab => ImageFormat.name_injective (Json.string.inj hab))
    (fun _ hnull => by cases hnull) hformat
  have htasks := UInt64.toNat_inj.mp (Json.ofNat_inj htask)
  simp only at hformats htasks
  rw [htasks, hformats, OutcomeResult.toField_injective hresult]

end Biei
