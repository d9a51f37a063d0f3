import Biei.Lib.Selection
import Biei.Lemmas.WorkerPool

/-! # Picking a worker -/

namespace Biei

/-! ## The order of the scores -/

namespace PickScore

/-- The fields of a score, in the order in which they are compared. -/
def key (score : PickScore) : ℕ ×ₗ ℕ ×ₗ ℕ ×ₗ ℕ ×ₗ ℕ ×ₗ ℕᵒᵈ ×ₗ ℕ :=
  toLex (score.tier.rank, toLex (score.sourceMiss.toNat, toLex (score.queueDepth, toLex (score.protectedSingleton.toNat,
    toLex (score.shapeMismatch.toNat, toLex (OrderDual.toDual score.profileCount, score.lastSeen.elim 0 Nat.succ))))))

variable {a b : PickScore}

theorem cmp_eq_lt_iff : a.cmp b = .lt ↔ a.key < b.key := by
  unfold cmp key
  refine then_eq_lt_iff Nat.compare_eq_lt Nat.compare_eq_eq ?_
  refine then_eq_lt_iff Nat.compare_eq_lt Nat.compare_eq_eq ?_
  refine then_eq_lt_iff Nat.compare_eq_lt Nat.compare_eq_eq ?_
  refine then_eq_lt_iff Nat.compare_eq_lt Nat.compare_eq_eq ?_
  refine then_eq_lt_iff Nat.compare_eq_lt Nat.compare_eq_eq ?_
  refine then_eq_lt_iff Nat.compare_eq_lt ?_ Nat.compare_eq_lt
  rw [Nat.compare_eq_eq]
  exact eq_comm

theorem tier_le_of_key_le (h : a.key ≤ b.key) : a.tier.rank ≤ b.tier.rank := Prod.Lex.monotone_fst _ _ h

/-- Within a tier, a source affinity and a queue depth, whoever is protected comes after whoever is not. -/
theorem protected_le_of_key_le (h : a.key ≤ b.key) (htier : a.tier = b.tier) (hsource : a.sourceMiss = b.sourceMiss)
    (hdepth : a.queueDepth = b.queueDepth) : a.protectedSingleton.toNat ≤ b.protectedSingleton.toNat := by
  unfold key at h
  rw [htier, hsource, hdepth] at h
  simp only [Prod.Lex.toLex_le_toLex, lt_self_iff_false, true_and, false_or] at h
  rcases h with hlt | ⟨heq, -⟩
  · exact hlt.le
  · exact heq.le

end PickScore

/-! ## The scan -/

section

variable {spec : PoolSpec} {state : PoolState spec.workers} {profile : WorkerProfile} {sourceId : Option String} {seen : List Nat}

/-- The workers below the hard limit, with their scores. -/
def scored (spec : PoolSpec) (state : PoolState spec.workers) (profile : WorkerProfile) (sourceId : Option String)
    (seen : List Nat) :
    List (Fin spec.workers × PickScore) :=
  (List.finRange spec.workers).filterMap fun idx =>
    if seen.getD idx.val 0 < spec.queueCapacity then some (idx,
      pickScore spec state profile sourceId idx (seen.getD idx.val 0)) else none

theorem mem_scored {idx : Fin spec.workers} {score : PickScore} :
    (idx, score) ∈ scored spec state profile sourceId seen ↔
      seen.getD idx.val 0 < spec.queueCapacity ∧ score = pickScore spec state profile sourceId idx (seen.getD idx.val 0) := by
  unfold scored
  rw [List.mem_filterMap]
  constructor
  · rintro ⟨i, -, hi⟩
    split at hi
    · rename_i hlt
      cases hi
      exact ⟨hlt, rfl⟩
    · cases hi
  · rintro ⟨hlt, rfl⟩
    exact ⟨idx, List.mem_finRange idx, if_pos hlt⟩

/-- The scan keeps the first of the least key. -/
theorem bestAvailableWorker_eq_argmin :
    bestAvailableWorker spec state profile sourceId seen =
      ((scored spec state profile sourceId seen).argmin fun c => c.2.key).map Prod.fst := by
  refine congrArg (Option.map Prod.fst) (List.foldl_ext _ _ _ fun best candidate _ => ?_)
  cases best with
  | none => rfl
  | some kept => exact if_congr PickScore.cmp_eq_lt_iff rfl rfl

theorem bestAvailableWorker_eq_none :
    bestAvailableWorker spec state profile sourceId seen = none ↔
      ∀ idx : Fin spec.workers, spec.queueCapacity ≤ seen.getD idx.val 0 := by
  rw [bestAvailableWorker_eq_argmin, Option.map_eq_none_iff, List.argmin_eq_none, List.eq_nil_iff_forall_not_mem]
  constructor
  · intro h idx
    by_contra hlt
    exact h _ (mem_scored.mpr ⟨Nat.not_le.mp hlt, rfl⟩)
  · rintro h ⟨idx, score⟩ hmem
    exact Nat.not_le.mpr (mem_scored.mp hmem).1 (h idx)

/-- The worker that is picked is below the hard limit, and no other such has a lesser score. -/
theorem bestAvailableWorker_eq_some {idx : Fin spec.workers}
    (h : bestAvailableWorker spec state profile sourceId seen = some idx) :
    seen.getD idx.val 0 < spec.queueCapacity ∧ ∀ other : Fin spec.workers, seen.getD other.val 0 < spec.queueCapacity →
      (pickScore spec state profile sourceId idx (seen.getD idx.val 0)).key ≤
        (pickScore spec state profile sourceId other (seen.getD other.val 0)).key := by
  rw [bestAvailableWorker_eq_argmin, Option.map_eq_some_iff] at h
  obtain ⟨⟨i, score⟩, hbest, rfl⟩ := h
  obtain ⟨hlt, rfl⟩ := mem_scored.mp (List.argmin_mem hbest)
  exact ⟨hlt, fun other hother => List.le_of_mem_argmin (f := fun c => c.2.key) (mem_scored.mpr ⟨hother, rfl⟩) hbest⟩

/-! ## What a score tells -/

variable {idx : Fin spec.workers} {queueDepth : Nat}

/-- The depth from which a warm worker is no longer comfortable. -/
def expandThreshold (spec : PoolSpec) : Nat := max (spec.blCapacity * 2 / 3) 1

theorem rank_eq_zero_iff : (pickScore spec state profile sourceId idx queueDepth).tier.rank = 0 ↔
    state.loaded idx = some profile ∧ queueDepth < expandThreshold spec := by
  unfold pickScore expandThreshold
  cases hloaded : state.loaded idx with
  | none => simp [PickTier.rank]
  | some loaded =>
    by_cases hwarm : loaded = profile
    · subst hwarm
      by_cases hcomfort : queueDepth < max (spec.blCapacity * 2 / 3) 1
      · simp [hcomfort, PickTier.rank]
      · by_cases hsoft : queueDepth < spec.blCapacity <;> by_cases hhard : queueDepth < spec.queueCapacity <;>
          simp [hcomfort, hsoft, hhard, PickTier.rank]
    · by_cases hidle : queueDepth = 0 <;> simp [hwarm, hidle, PickTier.rank]

theorem rank_of_fresh (hfresh : state.loaded idx = none) :
    (pickScore spec state profile sourceId idx queueDepth).tier.rank = 1 := by
  simp [pickScore, hfresh, PickTier.rank]

theorem rank_of_warm (hwarm : state.loaded idx = some profile) (hsoft : queueDepth < spec.blCapacity) :
    (pickScore spec state profile sourceId idx queueDepth).tier.rank ≤ 2 := by
  unfold pickScore
  by_cases hcomfort : queueDepth < max (spec.blCapacity * 2 / 3) 1 <;> simp [hwarm, hcomfort, hsoft, PickTier.rank]

theorem rank_of_other {loaded : WorkerProfile} (hloaded : state.loaded idx = some loaded) (hother : loaded ≠ profile) :
    3 ≤ (pickScore spec state profile sourceId idx queueDepth).tier.rank := by
  unfold pickScore
  by_cases hidle : queueDepth = 0 <;> simp [hloaded, hother, hidle, PickTier.rank]

/-- What an idle worker of another profile is scored by. -/
theorem pickScore_of_idle (sourceId : Option String) {loaded : WorkerProfile} (hloaded : state.loaded idx = some loaded)
    (hother : loaded ≠ profile) :
    (pickScore spec state profile sourceId idx 0).tier = .allocSwapIdle ∧
      (pickScore spec state profile sourceId idx 0).sourceMiss = sourceId.any
        (fun id => decide (id ∉ state.addlayerSourceIds idx)) ∧
      (pickScore spec state profile sourceId idx 0).queueDepth = 0 ∧
      (pickScore spec state profile sourceId idx 0).protectedSingleton = decide ((state.profileCounts loaded).getD 0 ≤ 1) := by
  unfold pickScore
  simp [hloaded, hother]

end

/-! ## What the scan has read -/

namespace WorkerPool

variable {spec : PoolSpec} {s s' : WorkerPool spec} {p : Nat}

/-- The call is scanning, and has read these queue depths. -/
def Scanning (s : WorkerPool spec) (p : Nat) (seen : List Nat) : Prop := ∃ c, s.calls[p]? = some c ∧ c.phase = .scanning seen

variable {seen : List Nat}

/-- Where one call is changed, who is scanning is that call or was before. -/
theorem Scanning.of_set {q : Nat} {c c' : ProcessCall spec.workers} (h : s'.Scanning p seen)
    (hcalls : s'.calls = s.calls.set q c') (hc : s.calls[q]? = some c) :
    s.Scanning p seen ∨ (p = q ∧ c'.phase = .scanning seen) := by
  obtain ⟨x, hx, hphase⟩ := h
  rw [hcalls] at hx
  rcases getElem?_set_cases hc hx with ⟨rfl, rfl⟩ | ⟨-, hx⟩
  · exact Or.inr ⟨rfl, hphase⟩
  · exact Or.inl ⟨x, hx, hphase⟩

/-- The depths that a scan has read were read already, all but one that the step reads; a scan begins with none. -/
theorem scanning_of_step {a : PoolAction spec} (hs : s.step a = some s') (h : s'.Scanning p seen) :
    seen = [] ∨ s.Scanning p seen ∨ ∃ (before : List Nat) (hlt : before.length < spec.workers),
      s.Scanning p before ∧ seen = before ++ [s.queueDepths ⟨before.length, hlt⟩] := by
  have hset : ∀ {q : Nat} {c c' : ProcessCall spec.workers}, s.calls[q]? = some c → s'.calls = s.calls.set q c' →
      c'.phase ≠ .scanning seen → seen = [] ∨ s.Scanning p seen ∨ ∃ (before : List Nat) (hlt : before.length < spec.workers),
        s.Scanning p before ∧ seen = before ++ [s.queueDepths ⟨before.length, hlt⟩] := by
    intro q c c' hc hcalls hne
    rcases h.of_set hcalls hc with hold | ⟨-, hphase⟩
    · exact Or.inr (Or.inl hold)
    · exact absurd hphase hne
  cases step_stepped hs with
  | arrive task prepared routeTier workerHint =>
    obtain ⟨x, hx, hphase⟩ := h
    rcases getElem?_concat_cases hx with ⟨-, rfl⟩ | hx
    · cases hphase
    · exact Or.inr (Or.inl ⟨x, hx, hphase⟩)
  | seek _ q c ph result hc hbefore hafter hseeks =>
    rcases h.of_set rfl hc with hold | ⟨rfl, hphase⟩
    · exact Or.inr (Or.inl hold)
    · rcases hseeks.scanned seen hphase with hnil | ⟨before, hlt, hbefore, heq⟩
      · exact Or.inl hnil
      · exact Or.inr (Or.inr ⟨before, hlt, ⟨c, hc, hbefore⟩, heq⟩)
  | reserve q c idx hinted overflow hc hp hlt => exact hset hc rfl nofun
  | mark q c now idx hc hp => exact hset hc rfl nofun
  | acquire q c completion hc hp => exact hset hc rfl nofun
  | push q c completion hc hp => exact hset hc rfl nofun
  | unsent _ q c completion result hc hp => exact hset hc rfl nofun
  | forget q c hc =>
    rcases h.of_set rfl hc with hold | ⟨rfl, hphase⟩
    · exact Or.inr (Or.inl hold)
    · exact Or.inr (Or.inl ⟨c, hc, hphase⟩)
  | release q c completion hc hp => exact hset hc rfl nofun
  | take w q c completion rest hw hq hc hp => exact hset hc rfl nofun
  | stop w rest hw hq => exact Or.inr (Or.inl h)
  | execute w q c stageEnd current result hw hc hrun => exact Or.inr (Or.inl h)
  | finish w q c completion result hw hc hp => exact hset hc rfl nofun
  | respond w q c result answer hw hc =>
    rcases h.of_set rfl hc with hold | ⟨rfl, hphase⟩
    · exact Or.inr (Or.inl hold)
    · exact Or.inr (Or.inl ⟨c, hc, hphase⟩)
  | crash w hw => exact Or.inr (Or.inl h)
  | crashInHand w q c completion result hw hc hp => exact hset hc rfl nofun
  | drain w q c completion rest result hw hq hc hp => exact hset hc rfl nofun
  | discard w rest hw hq => exact Or.inr (Or.inl h)
  | retire w => exact Or.inr (Or.inl h)

/-- A call ends without a place when the worker it was told of is full, or when its scan finds nobody. -/
theorem refused_of_step {a : PoolAction spec} {c c' : ProcessCall spec.workers} (hs : s.step a = some s')
    (hc : s.calls[p]? = some c)
    (hc' : s'.calls[p]? = some c') (hopen : c.phase ≠ .ended none) (hended : c'.phase = .ended none) :
    (∃ idx current, c.phase = .reserving idx true current ∧ spec.queueCapacity ≤ current) ∨
    ∃ seen, c.phase = .scanning seen ∧ spec.workers ≤ seen.length ∧
      bestAvailableWorker spec s.state c.task.workerProfile (addlayerSourceId spec c) seen = none := by
  -- the call is the one that the step changes, and to this phase; any other is as it was
  have hchanged : ∀ {q : Nat} {before after : ProcessCall spec.workers}, s.calls[q]? = some before →
      s'.calls = s.calls.set q after → before = c ∧ after.phase = .ended none := by
    intro q before after hq hcalls
    rw [hcalls] at hc'
    rcases getElem?_set_cases hq hc' with ⟨rfl, rfl⟩ | ⟨-, hsame⟩
    · exact ⟨Option.some.inj (hq.symm.trans hc), hended⟩
    · rw [hc] at hsame
      exact absurd (Option.some.inj hsame ▸ hended) hopen
  have hsame : s'.calls = s.calls → False := by
    intro hcalls
    rw [hcalls, hc] at hc'
    exact hopen (Option.some.inj hc' ▸ hended)
  cases step_stepped hs with
  | arrive task prepared routeTier workerHint =>
    have hold := getElem?_concat_of_some hc (arrived task prepared routeTier workerHint)
    rw [show ({ s with calls := s.calls ++ [arrived task prepared routeTier workerHint] } : WorkerPool spec).calls[p]? =
      some c from hold]
      at hc'
    exact absurd (Option.some.inj hc' ▸ hended) hopen
  | seek _ q before ph result hq hbefore hafter hseeks =>
    obtain ⟨rfl, hph⟩ := hchanged hq rfl
    rcases hseeks.refused hph with hscan | hhinted
    · exact Or.inr hscan
    · exact Or.inl hhinted
  | reserve q before idx hinted overflow hq hp hlt => exact nomatch (hchanged hq rfl).2
  | mark q before now idx hq hp => exact nomatch (hchanged hq rfl).2
  | acquire q before completion hq hp => exact nomatch (hchanged hq rfl).2
  | push q before completion hq hp => exact nomatch (hchanged hq rfl).2
  | unsent _ q before completion result hq hp => exact nomatch (hchanged hq rfl).2
  | forget q before hq =>
    obtain ⟨rfl, hph⟩ := hchanged hq rfl
    exact absurd hph hopen
  | release q before completion hq hp => exact nomatch (hchanged hq rfl).2
  | take w q before completion rest hw hqueue hq hp => exact nomatch (hchanged hq rfl).2
  | stop w rest hw hqueue => exact (hsame rfl).elim
  | execute w q before stageEnd current result hw hq hrun => exact (hsame rfl).elim
  | finish w q before completion result hw hq hp => exact nomatch (hchanged hq rfl).2
  | respond w q before result answer hw hq =>
    obtain ⟨rfl, hph⟩ := hchanged hq rfl
    exact absurd hph hopen
  | crash w hw => exact (hsame rfl).elim
  | crashInHand w q before completion result hw hq hp => exact nomatch (hchanged hq rfl).2
  | drain w q before completion rest result hw hqueue hq hp => exact nomatch (hchanged hq rfl).2
  | discard w rest hw hqueue => exact (hsame rfl).elim
  | retire w => exact (hsame rfl).elim

/-- Every depth that a scan has read was the depth of the worker in a state that the run has passed, when the scan had read those
before. -/
theorem observed_of_run {actions : List (PoolAction spec)} (hrun : (machine spec).run new actions = some s)
    (h : s.Scanning p seen) (i : Nat) (hi : i < seen.length) :
    ∃ pre, pre <+: actions ∧ ∃ u, (machine spec).run new pre = some u ∧ u.Scanning p (seen.take i) ∧
      ∃ hlt : i < spec.workers, u.queueDepths ⟨i, hlt⟩ = seen[i] := by
  induction actions using List.reverseRecOn generalizing s seen with
  | nil =>
    cases hrun
    obtain ⟨c, hc, -⟩ := h
    cases hc
  | append_singleton actions a ih =>
    rw [Machine.run_snoc] at hrun
    obtain ⟨t, ht, hstep⟩ := Option.bind_eq_some_iff.mp hrun
    have hearlier : ∀ {seen : List Nat} (hi : i < seen.length), t.Scanning p seen →
        ∃ pre, pre <+: actions ++ [a] ∧ ∃ u, (machine spec).run new pre = some u ∧ u.Scanning p (seen.take i) ∧
          ∃ hlt : i < spec.workers, u.queueDepths ⟨i, hlt⟩ = seen[i] := by
      intro seen hi hscan
      obtain ⟨pre, hpre, hfound⟩ := ih ht hscan hi
      exact ⟨pre, hpre.trans (List.prefix_append _ _), hfound⟩
    rcases scanning_of_step hstep h with rfl | hold | ⟨before, hlt, hscan, rfl⟩
    · cases hi
    · exact hearlier hi hold
    · rcases Nat.lt_or_ge i before.length with hib | hib
      · obtain ⟨pre, hpre, u, hu, hscan', hlt', hdepth⟩ := hearlier hib hscan
        refine ⟨pre, hpre, u, hu, ?_, hlt', ?_⟩
        · rwa [List.take_append_of_le_length hib.le]
        · rw [hdepth, List.getElem_append_left hib]
      · -- the depth that this step reads
        obtain rfl : i = before.length := by
          rw [List.length_append, List.length_singleton] at hi
          omega
        refine ⟨actions, List.prefix_append _ _, t, ht, ?_, hlt, ?_⟩
        · rwa [List.take_append_of_le_length (Nat.le_refl _), List.take_length]
        · rw [List.getElem_append_right (Nat.le_refl _)]
          simp

end WorkerPool

end Biei
