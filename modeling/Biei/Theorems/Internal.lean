import Biei.Http.Internal
import Biei.Theorems.Dispatcher

/-! # The time a forward grants -/

namespace Biei

/-! ## Rounding -/

theorem asU32_of_le {n : Nat} (h : n ≤ 2 ^ 32 - 1) : asU32 n = n := Nat.mod_eq_of_lt (by omega)

theorem asU32_min (n : Nat) : asU32 (min n (2 ^ 32 - 1)) = min n (2 ^ 32 - 1) := asU32_of_le (Nat.min_le_right _ _)

/-- Rounded up and clamped: neither the sum nor the cast wraps. -/
theorem durationMillisCeil_eq (d : Nat) : durationMillisCeil d = min ((d + 999999) / 1000000) (2 ^ 32 - 1) := by
  unfold durationMillisCeil asMillis Duration
  simp only [asU32_min]
  split <;> omega

variable {d : Nat}

theorem asMillis_lt (h : d ≤ durationMax) : asMillis d + 1 < 2 ^ 128 := by
  unfold durationMax at h
  unfold asMillis
  omega

/-- A lookup costs at least the time it took. -/
theorem le_durationMillisCeil (h : durationMillisCeil d < 2 ^ 32 - 1) : d ≤ durationMillisCeil d * 1000000 := by
  rw [durationMillisCeil_eq] at h ⊢
  omega

theorem durationMillisCeil_pos (h : 0 < d) : 0 < durationMillisCeil d := by
  rw [durationMillisCeil_eq]
  omega

/-- It costs less than a millisecond more. -/
theorem durationMillisCeil_mul_lt (d : Nat) : durationMillisCeil d * 1000000 < d + 1000000 := by
  rw [durationMillisCeil_eq]
  omega

theorem durationMillisCeil_mul_le (h : d % 1000000 = 0) : durationMillisCeil d * 1000000 ≤ d := by
  rw [durationMillisCeil_eq]
  omega

theorem clampedMillis_le (d : Nat) : clampedMillis d ≤ 2 ^ 32 - 1 := by
  show min (d / 1000000) (2 ^ 32 - 1) ≤ _
  omega

theorem clampedMillis_mul_le (d : Nat) : clampedMillis d * 1000000 ≤ d := by
  unfold clampedMillis Duration
  omega

theorem lt_clampedMillis (h : d < 2 ^ 32 * 1000000) : d < (clampedMillis d + 1) * 1000000 := by
  have hsmall : d / 1000000 ≤ 2 ^ 32 - 1 := by omega
  have hclamped : clampedMillis d = d / 1000000 := Nat.min_eq_left hsmall
  rw [hclamped, Nat.mul_comm]
  exact Nat.lt_mul_div_succ d (by decide)

/-- Twice a latency is `Duration::MAX` only where it leaves no time before an instant. -/
theorem min_roundTrip {deadline now hopLatency : Nat} (hdeadline : deadline < instantBound)
    (h : 0 < deadline - now - min (2 * hopLatency) durationMax) : min (2 * hopLatency) durationMax = 2 * hopLatency := by
  unfold instantBound at hdeadline
  unfold durationMax at h ⊢
  omega

theorem fits_of_charge {deadline now roundTrip lookup whole charge budget : Nat} (hpos : 0 < budget)
    (hbudget : budget = whole - charge)
    (hwhole : whole * 1000000 ≤ deadline - now - roundTrip) (hcharge : lookup ≤ charge * 1000000) :
    now + roundTrip + lookup + budget * 1000000 ≤ deadline := by
  omega

/-- Between two budgets lie the lookup of the first and the rounding of both. -/
theorem later_budget {left left' lookup whole whole' charge charge' budget budget' : Nat} (hbudget : budget = whole - charge)
    (hbudget' : budget' = whole' - charge') (hwhole : left < (whole + 1) * 1000000) (hwhole' : whole' * 1000000 ≤ left')
    (hleft : left' + lookup ≤ left) (hcharge : charge * 1000000 < lookup + 1000000) :
    budget' ≤ budget + 1 ∧ (0 < charge' ∨ charge * 1000000 ≤ lookup → budget' ≤ budget) := by
  omega

/-! ## The requests that are posted -/

namespace HttpTransport

/-- What is posted is the request with the lookup charged, and there is budget left. -/
theorem of_send_ok {target : NodeId} {fwd : ForwardRequest} {pass : Pass} {post : PeerPost}
    (h : send target fwd pass = some (.ok post)) :
    post.request = charge fwd (durationMillisCeil (pass.resolvedAt - pass.startedAt)) ∧ 0 < post.budget := by
  unfold send at h
  split at h
  · cases h
  · split at h
    · cases h
    · cases h
    · cases h
    · simp only at h
      split at h
      · cases h
      · rename_i hleft
        cases h
        exact ⟨rfl, Nat.pos_of_ne_zero hleft⟩

end HttpTransport

open HttpTransport

namespace Handler

/-- The budget that the loop gives a request, before the transport charges it. -/
def budgetAt (h : Handler) (hopLatency : Duration) (now : Instant) : Nat :=
  (h.task.toForwardWire now hopLatency).remainingBudgetMs

theorem budgetAt_eq (h : Handler) (hopLatency : Duration) (now : Instant) :
    h.budgetAt hopLatency now = min ((h.task.deadline - now - min (2 * hopLatency) durationMax) / 1000000) (2 ^ 32 - 1) :=
  rfl

theorem budgetAt_mono (h : Handler) (hopLatency : Duration) {now later : Instant} (hle : now ≤ later) :
    h.budgetAt hopLatency later ≤ h.budgetAt hopLatency now := by
  rw [budgetAt_eq, budgetAt_eq]
  unfold Instant at *
  omega

/-- Every posted request had its pass, and was sent in it. -/
theorem mem_failover {h : Handler} {hopLatency : Duration} {call : ForwardCall} {passes : List (ForwardCandidate × Pass)}
    {x : Pass × PeerPost} (hx : x ∈ h.failover hopLatency call passes) :
    ∃ candidate, (candidate, x.1) ∈ passes ∧
      send candidate.nodeId (h.forwardRequest x.1.computedAt hopLatency call candidate) x.1 = some (.ok x.2) := by
  induction passes with
  | nil => cases hx
  | cons p rest ih =>
    obtain ⟨candidate, pass⟩ := p
    have hlater : x ∈ h.failover hopLatency call rest → ∃ c, (c, x.1) ∈ (candidate, pass) :: rest ∧
        send c.nodeId (h.forwardRequest x.1.computedAt hopLatency call c) x.1 = some (.ok x.2) := by
      intro hmem
      obtain ⟨c, hc, hsend⟩ := ih hmem
      exact ⟨c, List.mem_cons_of_mem _ hc, hsend⟩
    unfold failover at hx
    split at hx
    · cases hx
    · split at hx
      · cases hx
      · exact hlater hx
      · rename_i post hsend
        rcases List.mem_cons.mp hx with rfl | hx
        · exact ⟨candidate, List.mem_cons_self, hsend⟩
        · split at hx
          · exact hlater hx
          · cases hx

/-- The requests are posted in the order of the passes. -/
theorem failover_sublist (h : Handler) (hopLatency : Duration) (call : ForwardCall) (passes : List (ForwardCandidate × Pass)) :
    ((h.failover hopLatency call passes).map Prod.fst).Sublist (passes.map Prod.snd) := by
  induction passes with
  | nil => exact List.Sublist.slnil
  | cons p rest ih =>
    obtain ⟨candidate, pass⟩ := p
    unfold failover
    split
    · exact List.nil_sublist _
    · split
      · exact List.nil_sublist _
      · exact ih.cons pass
      · refine List.Sublist.cons_cons pass ?_
        split
        · exact ih
        · exact List.nil_sublist _

/-- What a posted request carries, in the terms of its pass. -/
theorem budget_of_mem {h : Handler} {hopLatency : Duration} {call : ForwardCall} {passes : List (ForwardCandidate × Pass)}
    {x : Pass × PeerPost} (hx : x ∈ h.failover hopLatency call passes) :
    0 < x.2.budget ∧
      x.2.budget = h.budgetAt hopLatency x.1.computedAt - durationMillisCeil (x.1.resolvedAt - x.1.startedAt) ∧
      x.2.request.originResponseBudgetMs =
        max (clampedMillis (h.task.deadline - x.1.computedAt) - durationMillisCeil (x.1.resolvedAt - x.1.startedAt)) 1 := by
  obtain ⟨candidate, -, hsend⟩ := mem_failover hx
  obtain ⟨hrequest, hpos⟩ := of_send_ok hsend
  refine ⟨hpos, ?_, ?_⟩
  · unfold PeerPost.budget
    rw [hrequest]
    rfl
  · rw [hrequest]
    rfl

end Handler

/-- The deadline a receiver reconstructs when its clock shows `receivedAt`, read on the clock of the origin, which shows
`arrivedAt` then. -/
def PeerPost.deadlineAt (post : PeerPost) (arrivedAt receivedAt : Instant) : Int :=
  arrivedAt + ((post.request.task.intoInternal receivedAt).deadline - receivedAt : Int)

theorem PeerPost.deadlineAt_eq (post : PeerPost) (arrivedAt receivedAt : Instant) :
    post.deadlineAt arrivedAt receivedAt = arrivedAt + post.budget * 1000000 := by
  have hdeadline : (post.request.task.intoInternal receivedAt).deadline = receivedAt + post.budget * 1000000 := rfl
  unfold deadlineAt
  rw [hdeadline]
  unfold Instant at *
  omega

namespace Handler

variable {h : Handler} {hopLatency : Duration} {call : ForwardCall} {passes : List (ForwardCandidate × Pass)}

/-- A posted request has the whole round trip off its budget: a saturated one leaves nothing. -/
theorem budget_eq_of_mem (hdeadline : h.task.deadline < instantBound) {x : Pass × PeerPost}
    (hx : x ∈ h.failover hopLatency call passes) :
    x.2.budget = clampedMillis (h.task.deadline - x.1.computedAt - 2 * hopLatency) -
      durationMillisCeil (x.1.resolvedAt - x.1.startedAt) := by
  obtain ⟨hpos, hbudget, -⟩ := budget_of_mem hx
  rw [budgetAt_eq] at hbudget
  have hleft : 0 < h.task.deadline - x.1.computedAt - min (2 * hopLatency) durationMax := by
    refine Nat.pos_of_ne_zero fun hzero => ?_
    rw [hbudget, hzero] at hpos
    simp at hpos
  rw [hbudget, min_roundTrip hdeadline hleft]
  rfl

/-- With budget left after the lookup, the round trip and the lookup both fit before the deadline. -/
theorem budget_fits (hdeadline : h.task.deadline < instantBound) {x : Pass × PeerPost}
    (hx : x ∈ h.failover hopLatency call passes) :
    x.1.computedAt + 2 * hopLatency + (x.1.resolvedAt - x.1.startedAt) + x.2.budget * 1000000 ≤ h.task.deadline := by
  obtain ⟨hpos, -, -⟩ := budget_of_mem hx
  have hbudget := budget_eq_of_mem hdeadline hx
  generalize hcharge : durationMillisCeil (x.1.resolvedAt - x.1.startedAt) = charge at hbudget
  have hclamped := clampedMillis_mul_le (h.task.deadline - x.1.computedAt - 2 * hopLatency)
  have hsmall := clampedMillis_le (h.task.deadline - x.1.computedAt - 2 * hopLatency)
  have hcost : x.1.resolvedAt - x.1.startedAt ≤ charge * 1000000 := by
    rw [← hcharge]
    exact le_durationMillisCeil (by omega)
  generalize clampedMillis (h.task.deadline - x.1.computedAt - 2 * hopLatency) = whole at hbudget hclamped
  exact fits_of_charge hpos hbudget hclamped hcost

/-- Of two posted requests the later was computed after the lookup of the earlier. -/
theorem computed_after (hclock : InOrder passes) :
    (h.failover hopLatency call passes).Pairwise fun a b =>
      a.1.computedAt + (a.1.resolvedAt - a.1.startedAt) ≤ b.1.computedAt := by
  have horder : ((h.failover hopLatency call passes).map Prod.fst).Pairwise fun p q => p.endedAt ≤ q.checkedAt :=
    (List.pairwise_map.mpr hclock.2).sublist (failover_sublist h hopLatency call passes)
  refine (List.pairwise_map.mp horder).imp_of_mem ?_
  intro a b ha hb hle
  obtain ⟨c, hc, -⟩ := mem_failover ha
  obtain ⟨d, hd, -⟩ := mem_failover hb
  have hfirst : a.1.Ordered := hclock.1 _ hc
  have hsecond : b.1.Ordered := hclock.1 _ hd
  have h₁ := hfirst.computed
  have h₂ := hfirst.started
  have h₃ := hfirst.resolved
  have h₄ := hfirst.posted
  have h₅ := hsecond.checked
  unfold Instant at *
  omega

/-- A later budget is not larger but for the rounding of the lookups. -/
theorem budget_after (hdeadline : h.task.deadline < instantBound) {a b : Pass × PeerPost}
    (ha : a ∈ h.failover hopLatency call passes) (hb : b ∈ h.failover hopLatency call passes)
    (hafter : a.1.computedAt + (a.1.resolvedAt - a.1.startedAt) ≤ b.1.computedAt)
    (hfits : h.task.deadline - a.1.computedAt - 2 * hopLatency < 2 ^ 32 * 1000000) :
    b.2.budget ≤ a.2.budget + 1 ∧
      (b.1.startedAt < b.1.resolvedAt ∨ (a.1.resolvedAt - a.1.startedAt) % 1000000 = 0 → b.2.budget ≤ a.2.budget) := by
  have hroom := budget_fits hdeadline hb
  have hleft : h.task.deadline - b.1.computedAt - 2 * hopLatency + (a.1.resolvedAt - a.1.startedAt) ≤
      h.task.deadline - a.1.computedAt - 2 * hopLatency := by
    unfold Instant at *
    omega
  obtain ⟨hgrown, hnot⟩ := later_budget (budget_eq_of_mem hdeadline ha) (budget_eq_of_mem hdeadline hb) (lt_clampedMillis hfits)
    (clampedMillis_mul_le _) hleft (durationMillisCeil_mul_lt _)
  refine ⟨hgrown, ?_⟩
  rintro (hlt | hexact)
  · exact hnot (Or.inl (durationMillisCeil_pos (Nat.sub_pos_of_lt hlt)))
  · exact hnot (Or.inr (durationMillisCeil_mul_le hexact))

end Handler

/-- What is true of every run of the failover loop over the transport. No step of the conversion wraps; each posted request has
budget left, and its receiver's deadline, on the clock of the origin, is no later than the origin's less the round trip plus the
delay that was not charged as a lookup; and the budget before the lookup is charged never grows from one request to a later one,
while the budget after it grows by one millisecond at most, and only when the later lookup took no time and the earlier one was
rounded up. -/
theorem Handler.failover_grants_no_time (h : Handler) (hopLatency : Duration) (call : ForwardCall)
    (passes : List (ForwardCandidate × Pass)) (hclock : InOrder passes) (hdeadline : h.task.deadline < instantBound) :
    (∀ d ≤ durationMax, asMillis d + 1 < 2 ^ 128 ∧ durationMillisCeil d = min ((d + 999999) / 1000000) (2 ^ 32 - 1) ∧
        asU32 (min (asMillis d) (2 ^ 32 - 1)) = clampedMillis d ∧ clampedMillis d = min (d / 1000000) (2 ^ 32 - 1)) ∧
      (∀ x ∈ h.failover hopLatency call passes,
        0 < x.2.budget ∧ x.2.budget < 2 ^ 32 ∧
          x.2.budget = clampedMillis (h.task.deadline - x.1.computedAt - 2 * hopLatency) -
            durationMillisCeil (x.1.resolvedAt - x.1.startedAt) ∧
          x.2.request.originResponseBudgetMs =
            max (clampedMillis (h.task.deadline - x.1.computedAt) - durationMillisCeil (x.1.resolvedAt - x.1.startedAt)) 1 ∧
          ∀ arrivedAt receivedAt : Instant,
            x.2.deadlineAt arrivedAt receivedAt ≤
              (h.task.deadline : Int) - 2 * hopLatency +
                (((arrivedAt : Int) - x.1.computedAt) - (x.1.resolvedAt - x.1.startedAt : Nat))) ∧
      (h.failover hopLatency call passes).Pairwise fun a b =>
        b.2.budget + durationMillisCeil (b.1.resolvedAt - b.1.startedAt) ≤
            a.2.budget + durationMillisCeil (a.1.resolvedAt - a.1.startedAt) ∧
          (h.task.deadline - a.1.computedAt - 2 * hopLatency < 2 ^ 32 * 1000000 →
            b.2.budget ≤ a.2.budget + 1 ∧
              (b.1.startedAt < b.1.resolvedAt ∨ (a.1.resolvedAt - a.1.startedAt) % 1000000 = 0 → b.2.budget ≤ a.2.budget)) := by
  refine ⟨fun d hd => ⟨asMillis_lt hd, durationMillisCeil_eq d, asU32_min _, rfl⟩, fun x hx => ?_, ?_⟩
  · have hroom := budget_fits hdeadline hx
    obtain ⟨hpos, -, hresponse⟩ := budget_of_mem hx
    have hbudget := budget_eq_of_mem hdeadline hx
    refine ⟨hpos, ?_, hbudget, hresponse, fun arrivedAt receivedAt => ?_⟩
    · unfold clampedMillis at hbudget
      omega
    · rw [PeerPost.deadlineAt_eq]
      unfold Instant at *
      omega
  · refine (computed_after hclock).imp_of_mem ?_
    intro a b ha hb hafter
    refine ⟨?_, budget_after hdeadline ha hb hafter⟩
    obtain ⟨hpos, hbudget, -⟩ := budget_of_mem ha
    obtain ⟨hpos', hbudget', -⟩ := budget_of_mem hb
    have hmono := h.budgetAt_mono hopLatency (Nat.le_trans (Nat.le_add_right _ _) hafter)
    omega

/-! ## A later budget that is larger -/

/-- A pass that starts at once and looks the address up for so long, then fails to connect. -/
def failedPass (start lookup : Duration) : Pass where
  checkedAt := start
  computedAt := start
  startedAt := start
  resolvedAt := start + lookup
  postedAt := start + lookup
  endedAt := start + lookup + 100000
  resolution := some (.addr "10.0.0.1:9000")
  ended := .retryable

/-- A task with 10.5 ms over its round trip; its first lookup takes 0.3 ms and its second no time that the clock shows. -/
def tightHandler : Handler where
  node := ⟨"a"⟩
  task := { Dispatcher.tileTask with deadline := 210500000 }
  entry := .incoming
  caller := none
  phase := .forwarding []
  call := none

def tightPasses : List (ForwardCandidate × Pass) :=
  [(⟨⟨"b"⟩, none⟩, failedPass 0 300000), (⟨⟨"c"⟩, none⟩, failedPass 400000 0)]

theorem inOrder_tightPasses : InOrder tightPasses := by
  refine ⟨?_, ?_⟩
  · intro p hp
    simp only [tightPasses, List.mem_cons, List.not_mem_nil, or_false] at hp
    rcases hp with rfl | rfl <;> constructor <;> decide
  · simp [tightPasses, failedPass]

theorem Handler.failover_grants_no_time_tight :
    InOrder tightPasses ∧ tightHandler.task.deadline < instantBound ∧
      ∀ x ∈ tightHandler.failover 100000000 ⟨.tier2HrwBl, [], []⟩ tightPasses, 0 < x.2.budget := by
  have horder := inOrder_tightPasses
  have hdeadline : tightHandler.task.deadline < instantBound := by decide
  refine ⟨horder, hdeadline, fun x hx => ?_⟩
  exact ((Handler.failover_grants_no_time tightHandler 100000000 ⟨.tier2HrwBl, [], []⟩ tightPasses horder hdeadline).2.1 x hx).1

/-- The second request carries 10 ms, the first carried 9. -/
theorem Handler.failover_budget_grows :
    InOrder tightPasses ∧
      (tightHandler.failover 100000000 ⟨.tier2HrwBl, [], []⟩ tightPasses).map (fun x => x.2.budget) = [9, 10] ∧
      ¬ (tightHandler.failover 100000000 ⟨.tier2HrwBl, [], []⟩ tightPasses).Pairwise fun a b => b.2.budget ≤ a.2.budget := by
  refine ⟨inOrder_tightPasses, by decide, by decide⟩

end Biei
