import Biei.Lib.Update
import Biei.RenderCache

/-!
# The invariants of the render output cache

`FlightInv` ties the flight map to the leader guards and the waiting callers; `OutputInv` says where every image came from.
-/

namespace Biei

namespace RenderOutputCache

variable {K : Type} {s s' : RenderOutputCache K}

/-! ## Callers -/

variable {ph : CallerPhase}

/-- The callers after one of them moved. -/
theorem setPhase_get {p q : Nat} {c d : RenderCaller K} (hc : s.callers[p]? = some c)
    (h : (s.setPhase p c ph).callers[q]? = some d) :
    (q = p ∧ d = { c with phase := ph }) ∨ (q ≠ p ∧ s.callers[q]? = some d) := getElem?_set_cases hc h

variable {p : Nat} {c : RenderCaller K}

theorem setPhase_get_self (hc : s.callers[p]? = some c) (ph : CallerPhase) :
    (s.setPhase p c ph).callers[p]? = some { c with phase := ph } := getElem?_set_of_some hc _

theorem setPhase_get_of_ne {p q : Nat} (hqp : q ≠ p) (ph : CallerPhase) :
    (s.setPhase p c ph).callers[q]? = s.callers[q]? := List.getElem?_set_ne (Ne.symm hqp)

/-! ## Flights -/

/-- The caller holds a leader guard of the flight. -/
def Leads (c : RenderCaller K) (f : Nat) : Prop := c.phase = .leading f ∨ ∃ o, c.phase = .inserting f o

/-- A guard's drop is about to send the change of the flight. -/
def Notifying (s : RenderOutputCache K) (f : Nat) : Prop :=
  ∃ (q : Nat) (d : RenderCaller K), s.callers[q]? = some d ∧ d.phase = .notifying (some f)

/-- What the flight map owes a caller in each phase. -/
def CallerOk (s : RenderOutputCache K) (c : RenderCaller K) : CallerPhase → Prop
  | .lookup after => ∀ f, after = some f → f < s.nextFlight ∧ s.changed f = true ∧ ∀ f', s.inFlight c.key = some f' → f < f'
  | .locking after => ∀ f, after = some f → f < s.nextFlight ∧ s.changed f = true ∧ ∀ f', s.inFlight c.key = some f' → f < f'
  | .leading f => s.inFlight c.key = some f
  | .inserting f _ => s.inFlight c.key = some f
  | .notifying (some f) => f < s.nextFlight ∧ ∀ k, s.inFlight k ≠ some f
  | .waiting f => f < s.nextFlight ∧ (s.inFlight c.key = some f ∨ Notifying s f ∨ s.changed f = true) ∧
      ∀ f', s.inFlight c.key = some f' → f ≤ f'
  | _ => True

/-- The flight map and the leader guards agree: a guard that is alive has its flight in the map, a flight in the map has its guard
alive, and no flight has two. -/
structure FlightInv (s : RenderOutputCache K) : Prop where
  callers : ∀ (p : Nat) c, s.callers[p]? = some c → CallerOk s c c.phase
  leader : ∀ k f, s.inFlight k = some f → ∃ (p : Nat) (c : RenderCaller K), s.callers[p]? = some c ∧ c.key = k ∧ Leads c f
  unique : ∀ (p q : Nat) c d f, s.callers[p]? = some c → s.callers[q]? = some d → Leads c f → Leads d f → p = q
  fresh : ∀ k f, s.inFlight k = some f → f < s.nextFlight
  changed : ∀ f, s.changed f = true → f < s.nextFlight ∧ ∀ k, s.inFlight k ≠ some f

theorem FlightInv.new : FlightInv (RenderOutputCache.new : RenderOutputCache K) where
  callers := by simp [RenderOutputCache.new]
  leader := by simp [RenderOutputCache.new]
  unique := by simp [RenderOutputCache.new]
  fresh := by simp [RenderOutputCache.new]
  changed := by simp [RenderOutputCache.new]

variable {f : Nat}

/-- A live leader's flight is in the map. -/
theorem FlightInv.leads (h : FlightInv s) (hc : s.callers[p]? = some c) (hl : Leads c f) : s.inFlight c.key = some f := by
  have hok := h.callers p c hc
  rcases hl with hl | ⟨o, hl⟩
  · rw [hl] at hok
    exact hok
  · rw [hl] at hok
    exact hok

/-- One flight is in the map for one key only. -/
theorem FlightInv.key_eq (h : FlightInv s) {k k' : K} (hk : s.inFlight k = some f) (hk' : s.inFlight k' = some f) :
    k = k' := by
  obtain ⟨p, c, hc, rfl, hl⟩ := h.leader k f hk
  obtain ⟨q, d, hd, rfl, hl'⟩ := h.leader k' f hk'
  obtain rfl := h.unique p q c d f hc hd hl hl'
  rw [Option.some.inj (hc.symm.trans hd)]

/-- What the map owes a caller survives when flights enter the map only with new numbers, and one that leaves it is about to send
its change. -/
theorem CallerOk.transfer (h : CallerOk s c ph) (hn : s.nextFlight ≤ s'.nextFlight)
    (hmap : ∀ k f, s'.inFlight k = some f → s.inFlight k = some f ∨ s.nextFlight ≤ f)
    (hlead : ∀ f, Leads { c with phase := ph } f → s.inFlight c.key = some f → s'.inFlight c.key = some f)
    (hwait : ∀ f, s.inFlight c.key = some f → s'.inFlight c.key = some f ∨ Notifying s' f)
    (hnot : ∀ f, Notifying s f → Notifying s' f ∨ s'.changed f = true)
    (hch : ∀ f, s.changed f = true → s'.changed f = true) : CallerOk s' c ph := by
  have hlater : ∀ f, (f < s.nextFlight ∧ s.changed f = true ∧ ∀ f', s.inFlight c.key = some f' → f < f') →
      f < s'.nextFlight ∧ s'.changed f = true ∧ ∀ f', s'.inFlight c.key = some f' → f < f' := by
    rintro f ⟨h1, h2, h3⟩
    refine ⟨Nat.lt_of_lt_of_le h1 hn, hch f h2, fun f' hf' => ?_⟩
    rcases hmap _ _ hf' with hf' | hf'
    · exact h3 f' hf'
    · exact Nat.lt_of_lt_of_le h1 hf'
  cases ph with
  | lookup after => exact fun f hafter => hlater f (h f hafter)
  | locking after => exact fun f hafter => hlater f (h f hafter)
  | leading f => exact hlead f (Or.inl rfl) h
  | inserting f o => exact hlead f (Or.inr ⟨o, rfl⟩) h
  | notifying removed =>
    cases removed with
    | none => exact trivial
    | some f =>
      obtain ⟨h1, h2⟩ := h
      refine ⟨Nat.lt_of_lt_of_le h1 hn, fun k hkf => ?_⟩
      rcases hmap _ _ hkf with hkf | hkf
      · exact h2 k hkf
      · omega
  | waiting f =>
    obtain ⟨h1, h2, h3⟩ := h
    refine ⟨Nat.lt_of_lt_of_le h1 hn, ?_, fun f' hf' => ?_⟩
    · rcases h2 with h2 | h2 | h2
      · exact (hwait f h2).imp_right Or.inl
      · exact Or.inr (hnot f h2)
      · exact Or.inr (Or.inr (hch f h2))
    · rcases hmap _ _ hf' with hf' | hf'
      · exact h3 f' hf'
      · omega
  | hit e => exact trivial
  | gone => exact trivial

/-- What the map owes a caller depends on the map, the channels and the drops under way. -/
theorem CallerOk.congr (h : CallerOk s c ph) (hf : s'.inFlight = s.inFlight)
    (hn : s'.nextFlight = s.nextFlight) (hch : s'.changed = s.changed) (hnot : ∀ f, Notifying s f → Notifying s' f) :
    CallerOk s' c ph := by
  refine h.transfer (Nat.le_of_eq hn.symm) (fun k f hkf => ?_) (fun f _ hkf => ?_) (fun f hkf => ?_) (fun f hn' => ?_)
    fun f hf' => ?_
  · exact Or.inl (hf ▸ hkf)
  · rw [hf]
    exact hkf
  · rw [hf]
    exact Or.inl hkf
  · exact Or.inl (hnot f hn')
  · rw [hch]
    exact hf'

/-! ### One caller moves -/

section

variable {p : Nat} {c : RenderCaller K}

/-- A drop under way stays so when another caller moves. -/
theorem Notifying.setPhase {f : Nat} (h : Notifying s f) (hc : s.callers[p]? = some c) (hnot : c.phase ≠ .notifying (some f))
    (ph : CallerPhase) : Notifying (s.setPhase p c ph) f := by
  obtain ⟨q, d, hd, hph⟩ := h
  have hqp : q ≠ p := by
    rintro rfl
    cases hc.symm.trans hd
    exact hnot hph
  exact ⟨q, d, (setPhase_get_of_ne hqp ph).trans hd, hph⟩

/-- A flight keeps its leader when another caller moves. -/
theorem FlightInv.leader_setPhase (h : FlightInv s) (hc : s.callers[p]? = some c) {k : K} {f : Nat} (hkf : s.inFlight k = some f)
    (hnot : c.key = k → ¬Leads c f) (ph : CallerPhase) :
    ∃ (q : Nat) (d : RenderCaller K), (s.setPhase p c ph).callers[q]? = some d ∧ d.key = k ∧ Leads d f := by
  obtain ⟨q, d, hd, hdk, hl⟩ := h.leader k f hkf
  have hqp : q ≠ p := by
    rintro rfl
    cases hc.symm.trans hd
    exact hnot hdk hl
  exact ⟨q, d, (setPhase_get_of_ne hqp ph).trans hd, hdk, hl⟩

/-- No flight has two leaders after a move to a phase that leads none of the others' flights. -/
theorem FlightInv.unique_setPhase (h : FlightInv s) (hc : s.callers[p]? = some c) {ph : CallerPhase}
    (hself : ∀ (r : Nat) e f, Leads { c with phase := ph } f → s.callers[r]? = some e → ¬Leads e f) {q r : Nat}
    {d e : RenderCaller K} {f : Nat} (hd : (s.setPhase p c ph).callers[q]? = some d)
      (he : (s.setPhase p c ph).callers[r]? = some e)
    (hl : Leads d f) (hl' : Leads e f) : q = r := by
  rcases setPhase_get hc hd with ⟨hq, rfl⟩ | ⟨-, hd⟩
  · rcases setPhase_get hc he with ⟨hr, rfl⟩ | ⟨-, he⟩
    · exact hq.trans hr.symm
    · exact absurd hl' (hself r e f hl he)
  · rcases setPhase_get hc he with ⟨-, rfl⟩ | ⟨-, he⟩
    · exact absurd hl (hself q d f hl' hd)
    · exact h.unique q r d e f hd he hl hl'

/-- A phase that is neither of the two with a guard. -/
theorem not_leads {d : RenderCaller K} (h1 : ∀ f, d.phase ≠ .leading f) (h2 : ∀ f o, d.phase ≠ .inserting f o) (f : Nat) :
    ¬Leads d f := by
  rintro (hl | ⟨o, hl⟩)
  · exact h1 f hl
  · exact h2 f o hl

/-- A move of one caller that neither takes nor gives up a guard, and sends no change. -/
theorem FlightInv.move (h : FlightInv s) {ph : CallerPhase} (hc : s.callers[p]? = some c)
    (hlead : ∀ f, Leads c f ↔ Leads { c with phase := ph } f) (hnot : ∀ f, c.phase ≠ .notifying (some f))
    (hok : CallerOk s c ph) : FlightInv (s.setPhase p c ph) := by
  have hkeep : ∀ f, Notifying s f → Notifying (s.setPhase p c ph) f := fun f hn => hn.setPhase hc (hnot f) ph
  -- Who leads what has not changed, whoever moved.
  have hold : ∀ (q : Nat) d f, (s.setPhase p c ph).callers[q]? = some d → Leads d f →
      ∃ d', s.callers[q]? = some d' ∧ Leads d' f := by
    intro q d f hd hl
    rcases setPhase_get hc hd with ⟨rfl, rfl⟩ | ⟨-, hd⟩
    · exact ⟨c, hc, (hlead f).mpr hl⟩
    · exact ⟨d, hd, hl⟩
  refine ⟨fun q d hd => ?_, fun k f hf => ?_, fun q r d e f hd he hl hl' => ?_, h.fresh, h.changed⟩
  · rcases setPhase_get hc hd with ⟨-, rfl⟩ | ⟨-, hd⟩
    · exact hok.congr rfl rfl rfl hkeep
    · exact (h.callers q d hd).congr rfl rfl rfl hkeep
  · obtain ⟨q, d, hd, hk, hl⟩ := h.leader k f hf
    by_cases hqp : q = p
    · subst hqp
      cases hc.symm.trans hd
      exact ⟨q, _, setPhase_get_self hc ph, hk, (hlead f).mp hl⟩
    · exact ⟨q, d, (setPhase_get_of_ne hqp ph).trans hd, hk, hl⟩
  · obtain ⟨d', hd', hl⟩ := hold q d f hd hl
    obtain ⟨e', he', hl'⟩ := hold r e f he hl'
    exact h.unique q r d' e' f hd' he' hl hl'

end

variable [DecidableEq K]

/-! ## What a step can do -/

/-- The kinds of steps, with what each found when it was taken. -/
inductive Stepped (s : RenderOutputCache K) : RenderCacheAction K → RenderOutputCache K → Prop where
  | arrive (k : K) (ns : Option NamespaceSet) :
      Stepped s (.lookupOrJoin k ns) { s with callers := s.callers ++ [⟨k, ns, .lookup none⟩] }
  | hit (a : RenderCacheAction K) (p : Nat) (c : RenderCaller K) (after : Option Nat) (e : CachedRenderOutput)
      (ha : a = .cacheGet p ∨ a = .lockFlights p) (hc : s.callers[p]? = some c)
      (hp : c.phase = .lookup after ∨ c.phase = .locking after) (he : s.authorizedGet c = some e) :
      Stepped s a (s.setPhase p c (.hit e))
  | miss (p : Nat) (c : RenderCaller K) (after : Option Nat) (hc : s.callers[p]? = some c) (hp : c.phase = .lookup after)
      (he : s.authorizedGet c = none) : Stepped s (.cacheGet p) (s.setPhase p c (.locking after))
  | join (p : Nat) (c : RenderCaller K) (after : Option Nat) (f : Nat) (hc : s.callers[p]? = some c)
      (hp : c.phase = .locking after) (he : s.authorizedGet c = none) (hf : s.inFlight c.key = some f) :
      Stepped s (.lockFlights p) (s.setPhase p c (.waiting f))
  | lead (p : Nat) (c : RenderCaller K) (after : Option Nat) (hc : s.callers[p]? = some c) (hp : c.phase = .locking after)
      (he : s.authorizedGet c = none) (hf : s.inFlight c.key = none) :
      Stepped s (.lockFlights p)
        { s.setPhase p c (.leading s.nextFlight) with
          inFlight := Function.update s.inFlight c.key (some s.nextFlight)
          nextFlight := s.nextFlight + 1 }
  | keepBack (p : Nat) (result : TaskResult) (produced : List (Nat × RenderOutput)) (hsub : ∀ x ∈ s.produced, x ∈ produced) :
      Stepped s (.insertFromOutcome p result) { s with produced := produced }
  | insertCheck (p : Nat) (c : RenderCaller K) (f : Nat) (tier : RouteTier) (output : RenderOutput)
      (hc : s.callers[p]? = some c) (hp : c.phase = .leading f)
      (he : ∀ e, s.cache c.key = some e → e.requiredNamespaces = c.readableNamespaces) :
      Stepped s (.insertFromOutcome p (.completed tier output))
        { s.setPhase p c (.inserting f output) with produced := s.produced ++ [(p, output)] }
  | insert (p : Nat) (c : RenderCaller K) (f : Nat) (output : RenderOutput) (hc : s.callers[p]? = some c)
      (hp : c.phase = .inserting f output) :
      Stepped s (.cacheInsert p)
        { s.setPhase p c (.leading f) with cache := Function.update s.cache c.key (some ⟨output, c.readableNamespaces⟩) }
  | drop (p : Nat) (c : RenderCaller K) (f : Nat) (hc : s.callers[p]? = some c) (hp : c.phase = .leading f) :
      Stepped s (.dropLeader p)
        { s.setPhase p c (.notifying (s.inFlight c.key)) with inFlight := Function.update s.inFlight c.key none }
  | notify (p : Nat) (c : RenderCaller K) (f : Nat) (hc : s.callers[p]? = some c) (hp : c.phase = .notifying (some f)) :
      Stepped s (.sendModify p) { s.setPhase p c .gone with changed := Function.update s.changed f true }
  | leave (a : RenderCacheAction K) (p : Nat) (c : RenderCaller K) (hc : s.callers[p]? = some c)
      (hp : a = .sendModify p ∧ c.phase = .notifying none ∨ a = .giveUp p ∧ ∃ f, c.phase = .waiting f) :
      Stepped s a (s.setPhase p c .gone)
  | wake (p : Nat) (c : RenderCaller K) (f : Nat) (hc : s.callers[p]? = some c) (hp : c.phase = .waiting f)
      (hch : s.changed f = true) : Stepped s (.wake p) (s.setPhase p c (.lookup (some f)))
  | evict (k : K) : Stepped s (.evict k) { s with cache := Function.update s.cache k none }

/-- Under the lock, a caller is served, joins the flight of its key, or leads a new one. -/
theorem lockFlights_stepped {after : Option Nat} (hc : s.callers[p]? = some c)
    (hp : c.phase = .locking after) : Stepped s (.lockFlights p) (s.lockFlights p c) := by
  unfold lockFlights
  split
  · rename_i e he
    exact .hit _ p c after e (Or.inr rfl) hc (Or.inr hp) he
  · rename_i he
    split
    · rename_i f hf
      exact .join p c after f hc hp he hf
    · rename_i hf
      exact .lead p c after hc hp he hf

/-- A finished render is inserted, or kept back. -/
theorem insertFromOutcome_stepped (result : TaskResult) (hc : s.callers[p]? = some c)
    (hp : c.phase = .leading f) : Stepped s (.insertFromOutcome p result) (s.insertFromOutcome p c f result) := by
  unfold insertFromOutcome
  split
  · rename_i tier output
    simp only
    split
    · rename_i existing hex
      split
      · exact .keepBack p _ _ fun x hx => List.mem_append_left _ hx
      · rename_i hreq
        refine .insertCheck p c f tier output hc hp fun e he => ?_
        obtain rfl : existing = e := by simpa [hex] using he
        exact not_not.mp hreq
    · rename_i hnone
      exact .insertCheck p c f tier output hc hp (by simp [hnone])
  · exact .keepBack p _ s.produced fun x hx => hx

variable {a : RenderCacheAction K}

theorem step_stepped (h : s.step a = some s') : Stepped s a s' := by
  cases a with
  | lookupOrJoin k ns =>
    simp only [step, Option.some.injEq] at h
    exact h ▸ .arrive k ns
  | cacheGet p =>
    simp only [step] at h
    split at h
    · rename_i c hc
      split at h
      · rename_i after hp
        split at h
        · rename_i e he
          exact Option.some.inj h ▸ .hit _ p c after e (Or.inl rfl) hc (Or.inl hp) he
        · rename_i he
          exact Option.some.inj h ▸ .miss p c after hc hp he
      · cases h
    · cases h
  | lockFlights p =>
    simp only [step] at h
    split at h
    · rename_i c hc
      split at h
      · rename_i after hp
        exact Option.some.inj h ▸ lockFlights_stepped hc hp
      · cases h
    · cases h
  | insertFromOutcome p result =>
    simp only [step] at h
    split at h
    · rename_i c hc
      split at h
      · rename_i f hp
        exact Option.some.inj h ▸ insertFromOutcome_stepped result hc hp
      · cases h
    · cases h
  | cacheInsert p =>
    simp only [step] at h
    split at h
    · rename_i c hc
      split at h
      · rename_i f output hp
        exact Option.some.inj h ▸ .insert p c f output hc hp
      · cases h
    · cases h
  | dropLeader p =>
    simp only [step] at h
    split at h
    · rename_i c hc
      split at h
      · rename_i f hp
        exact Option.some.inj h ▸ .drop p c f hc hp
      · cases h
    · cases h
  | sendModify p =>
    simp only [step] at h
    split at h
    · rename_i c hc
      split at h
      · rename_i f hp
        exact Option.some.inj h ▸ .notify p c f hc hp
      · rename_i hp
        exact Option.some.inj h ▸ .leave _ p c hc (Or.inl ⟨rfl, hp⟩)
      · cases h
    · cases h
  | wake p =>
    simp only [step] at h
    split at h
    · rename_i c hc
      split at h
      · rename_i f hp
        split at h
        · rename_i hch
          exact Option.some.inj h ▸ .wake p c f hc hp hch
        · cases h
      · cases h
    · cases h
  | giveUp p =>
    simp only [step] at h
    split at h
    · rename_i c hc
      split at h
      · rename_i f hp
        exact Option.some.inj h ▸ .leave _ p c hc (Or.inr ⟨rfl, f, hp⟩)
      · cases h
    · cases h
  | evict k =>
    simp only [step, Option.some.injEq] at h
    exact h ▸ .evict k

/-! ## Steps keep the flights -/

section

variable {p : Nat} {c : RenderCaller K}

/-- A caller that finds no flight for its key leads a new one. -/
theorem FlightInv.lead (h : FlightInv s) {after : Option Nat} (hc : s.callers[p]? = some c) (hp : c.phase = .locking after)
    (hf : s.inFlight c.key = none) :
    FlightInv { s.setPhase p c (.leading s.nextFlight) with
      inFlight := Function.update s.inFlight c.key (some s.nextFlight)
      nextFlight := s.nextFlight + 1 } := by
  have hnext : ∀ k f, Function.update s.inFlight c.key (some s.nextFlight) k = some f →
      (k = c.key ∧ f = s.nextFlight) ∨ (k ≠ c.key ∧ s.inFlight k = some f) := by
    intro k f hkf
    exact (update_eq_some hkf).imp_left fun ⟨hk, hsome⟩ => ⟨hk, (Option.some.inj hsome).symm⟩
  -- The map has only grown: nothing was in it for this key.
  have hgrown : ∀ k f, s.inFlight k = some f → Function.update s.inFlight c.key (some s.nextFlight) k = some f := by
    intro k f hkf
    refine (Function.update_of_ne (fun hkey => ?_) ..).trans hkf
    rw [hkey, hf] at hkf
    cases hkf
  refine ⟨fun q d hd => ?_, fun k f hkf => ?_, fun q r d e f hd he hl hl' => ?_, fun k f hkf => ?_, fun f hch => ?_⟩
  · rcases setPhase_get hc hd with ⟨-, rfl⟩ | ⟨-, hd⟩
    · exact Function.update_self ..
    · refine (h.callers q d hd).transfer (Nat.le_succ _) (fun k f hkf => ?_) (fun f _ hkf => hgrown _ f hkf)
        (fun f hkf => Or.inl (hgrown _ f hkf)) (fun f hn => Or.inl (hn.setPhase hc (by simp [hp]) _)) fun f hch => hch
      rcases hnext _ _ hkf with ⟨-, rfl⟩ | ⟨-, hkf⟩
      · exact Or.inr (Nat.le_refl _)
      · exact Or.inl hkf
  · rcases hnext _ _ hkf with ⟨rfl, rfl⟩ | ⟨-, hkf⟩
    · exact ⟨p, _, setPhase_get_self hc _, rfl, Or.inl rfl⟩
    · exact h.leader_setPhase hc hkf (fun _ => not_leads (by simp [hp]) (by simp [hp]) f) _
  · refine h.unique_setPhase hc (fun r e f hself he hl => ?_) hd he hl hl'
    have hnew : f = s.nextFlight := by
      rcases hself with hself | ⟨o, hself⟩
      · cases hself
        rfl
      · cases hself
    have hlt : f < s.nextFlight := h.fresh _ _ (h.leads he hl)
    omega
  · rcases hnext _ _ hkf with ⟨-, rfl⟩ | ⟨-, hkf⟩
    · exact Nat.lt_succ_self _
    · exact Nat.lt_succ_of_lt (h.fresh k f hkf)
  · obtain ⟨h1, h2⟩ := h.changed f hch
    refine ⟨Nat.lt_succ_of_lt h1, fun k hkf => ?_⟩
    rcases hnext _ _ hkf with ⟨-, rfl⟩ | ⟨-, hkf⟩
    · exact absurd h1 (Nat.lt_irrefl _)
    · exact h2 k hkf

/-- Dropping a guard takes its own flight out of the map, and leaves the sending of its change to do. -/
theorem FlightInv.drop (h : FlightInv s) {f : Nat} (hc : s.callers[p]? = some c) (hp : c.phase = .leading f) :
    FlightInv { s.setPhase p c (.notifying (s.inFlight c.key)) with inFlight := Function.update s.inFlight c.key none } := by
  have hown : s.inFlight c.key = some f := h.leads hc (Or.inl hp)
  rw [hown]
  have hnext : ∀ k f', Function.update s.inFlight c.key none k = some f' → k ≠ c.key ∧ s.inFlight k = some f' :=
    fun k f' hkf => update_none_eq_some hkf
  have hnotself : ∀ f', ¬Leads { c with phase := .notifying (some f) } f' := not_leads (by simp) (by simp)
  refine ⟨fun q d hd => ?_, fun k f' hkf => ?_, fun q r d e f' hd he hl hl' => ?_, fun k f' hkf => ?_, fun f' hch => ?_⟩
  · rcases setPhase_get hc hd with ⟨-, rfl⟩ | ⟨hqp, hd⟩
    · refine ⟨h.fresh _ _ hown, fun k hkf => ?_⟩
      obtain ⟨hk, hkf⟩ := hnext _ _ hkf
      exact hk (h.key_eq hkf hown)
    · refine (h.callers q d hd).transfer (Nat.le_refl _) (fun k f' hkf => Or.inl (hnext _ _ hkf).2) (fun f' hl hkf => ?_)
        (fun f' hkf => ?_) (fun f' hn => Or.inl (hn.setPhase hc (by simp [hp]) _)) fun f' hch => hch
      · -- Another live guard is of another key: of this key there is only the one that is dropped.
        refine (Function.update_of_ne (fun hkey => ?_) ..).trans hkf
        rw [hkey, hown] at hkf
        cases hkf
        exact hqp (h.unique q p d c f hd hc hl (Or.inl hp))
      · by_cases hkey : d.key = c.key
        · rw [hkey, hown] at hkf
          cases hkf
          exact Or.inr ⟨p, _, setPhase_get_self hc _, rfl⟩
        · exact Or.inl ((Function.update_of_ne hkey ..).trans hkf)
  · obtain ⟨hk, hkf⟩ := hnext _ _ hkf
    exact h.leader_setPhase hc hkf (fun hkey => absurd hkey.symm hk) _
  · exact h.unique_setPhase hc (fun _ _ f' hself => absurd hself (hnotself f')) hd he hl hl'
  · exact h.fresh k f' (hnext _ _ hkf).2
  · obtain ⟨h1, h2⟩ := h.changed f' hch
    exact ⟨h1, fun k hkf => h2 k (hnext _ _ hkf).2⟩

omit [DecidableEq K] in
/-- Sending the change of a flight that has left the map wakes its waiters and nobody else. -/
theorem FlightInv.notify (h : FlightInv s) {f : Nat} (hc : s.callers[p]? = some c) (hp : c.phase = .notifying (some f)) :
    FlightInv { s.setPhase p c .gone with changed := Function.update s.changed f true } := by
  have hown := h.callers p c hc
  rw [hp] at hown
  have hmono : ∀ f', s.changed f' = true → Function.update s.changed f true f' = true := by
    intro f' hch
    by_cases hf : f' = f
    · rw [hf, Function.update_self]
    · rwa [Function.update_of_ne hf]
  have hgone : ∀ f', ¬Leads { c with phase := .gone } f' := not_leads (by simp) (by simp)
  refine ⟨fun q d hd => ?_, fun k f' hkf => ?_, fun q r d e f' hd he hl hl' => ?_, h.fresh, fun f' hch => ?_⟩
  · rcases setPhase_get hc hd with ⟨-, rfl⟩ | ⟨-, hd⟩
    · exact trivial
    · refine (h.callers q d hd).transfer (Nat.le_refl _) (fun _ _ hkf => Or.inl hkf) (fun _ _ hkf => hkf)
        (fun _ hkf => Or.inl hkf)
        (fun f' hn => ?_) hmono
      by_cases hf : f' = f
      · subst hf
        exact Or.inr (Function.update_self ..)
      · refine Or.inl (hn.setPhase hc (fun hph => hf ?_) _)
        rw [hp] at hph
        cases hph
        rfl
  · exact h.leader_setPhase hc hkf (fun _ => not_leads (by simp [hp]) (by simp [hp]) f') _
  · exact h.unique_setPhase hc (fun _ _ f' hself => absurd hself (hgone f')) hd he hl hl'
  · by_cases hf : f' = f
    · subst hf
      exact hown
    · simp only [Function.update_of_ne hf] at hch
      exact h.changed f' hch

end

omit [DecidableEq K] in
/-- A new caller waits for nothing yet. -/
theorem FlightInv.arrive (h : FlightInv s) (k : K) (ns : Option NamespaceSet) :
    FlightInv { s with callers := s.callers ++ [⟨k, ns, .lookup none⟩] } := by
  have hkeep : ∀ {q : Nat} {d : RenderCaller K}, s.callers[q]? = some d →
      (s.callers ++ [⟨k, ns, .lookup none⟩])[q]? = some d := by
    intro q d hd
    rw [List.getElem?_append_left (List.getElem?_eq_some_iff.mp hd).1]
    exact hd
  have hnolead : ∀ f, ¬Leads (⟨k, ns, .lookup none⟩ : RenderCaller K) f := not_leads (by simp) (by simp)
  refine ⟨fun q d hd => ?_, fun k' f hkf => ?_, fun q r d e f hd he hl hl' => ?_, h.fresh, h.changed⟩
  · rcases getElem?_concat_cases hd with ⟨-, rfl⟩ | hd
    · intro f hf
      cases hf
    · exact (h.callers q d hd).congr rfl rfl rfl fun f ⟨r, e, he, hph⟩ => ⟨r, e, hkeep he, hph⟩
  · obtain ⟨q, d, hd, hdk, hl⟩ := h.leader k' f hkf
    exact ⟨q, d, hkeep hd, hdk, hl⟩
  · rcases getElem?_concat_cases hd with ⟨-, rfl⟩ | hd
    · exact absurd hl (hnolead f)
    · rcases getElem?_concat_cases he with ⟨-, rfl⟩ | he
      · exact absurd hl' (hnolead f)
      · exact h.unique q r d e f hd he hl hl'

omit [DecidableEq K] in
/-- Two phases without a guard. -/
theorem leads_iff_of_not (h1 : ∀ f, c.phase ≠ .leading f)
    (h2 : ∀ f o, c.phase ≠ .inserting f o) (h3 : ∀ f, ph ≠ .leading f) (h4 : ∀ f o, ph ≠ .inserting f o) (f : Nat) :
    Leads c f ↔ Leads { c with phase := ph } f := by
  have hold : ¬Leads c f := not_leads h1 h2 f
  have hnew : ¬Leads { c with phase := ph } f := not_leads h3 h4 f
  exact ⟨fun hl => absurd hl hold, fun hl => absurd hl hnew⟩

/-- Every step keeps the flights. -/
theorem FlightInv.step (h : FlightInv s) (hs : Stepped s a s') : FlightInv s' := by
  cases hs with
  | arrive k ns => exact h.arrive k ns
  | hit _ p c after e _ hc hp _ =>
    rcases hp with hp | hp
    · exact h.move hc (leads_iff_of_not (by simp [hp]) (by simp [hp]) (by simp) (by simp)) (by simp [hp]) trivial
    · exact h.move hc (leads_iff_of_not (by simp [hp]) (by simp [hp]) (by simp) (by simp)) (by simp [hp]) trivial
  | miss p c after hc hp _ =>
    have hok := h.callers p c hc
    rw [hp] at hok
    exact h.move hc (leads_iff_of_not (by simp [hp]) (by simp [hp]) (by simp) (by simp)) (by simp [hp]) hok
  | join p c after f hc hp _ hf =>
    refine h.move hc (leads_iff_of_not (by simp [hp]) (by simp [hp]) (by simp) (by simp)) (by simp [hp]) ?_
    refine ⟨h.fresh _ _ hf, Or.inl hf, fun f' hf' => ?_⟩
    rw [Option.some.inj (hf.symm.trans hf')]
  | lead p c after hc hp _ hf => exact h.lead hc hp hf
  | keepBack p result produced hsub =>
    refine ⟨fun q d hd => ?_, h.leader, h.unique, h.fresh, h.changed⟩
    exact (h.callers q d hd).congr rfl rfl rfl fun f hn => hn
  | insertCheck p c f tier output hc hp _ =>
    have hmoved : FlightInv (s.setPhase p c (.inserting f output)) := by
      refine h.move hc (fun f' => ?_) (by simp [hp]) (h.leads hc (Or.inl hp))
      simp [Leads, hp]
    refine ⟨fun q d hd => ?_, hmoved.leader, hmoved.unique, hmoved.fresh, hmoved.changed⟩
    exact (hmoved.callers q d hd).congr rfl rfl rfl fun f hn => hn
  | insert p c f output hc hp =>
    have hmoved : FlightInv (s.setPhase p c (.leading f)) := by
      refine h.move hc (fun f' => ?_) (by simp [hp]) (h.leads hc (Or.inr ⟨output, hp⟩))
      simp [Leads, hp]
    refine ⟨fun q d hd => ?_, hmoved.leader, hmoved.unique, hmoved.fresh, hmoved.changed⟩
    exact (hmoved.callers q d hd).congr rfl rfl rfl fun f hn => hn
  | drop p c f hc hp => exact h.drop hc hp
  | notify p c f hc hp => exact h.notify hc hp
  | leave _ p c hc hp =>
    rcases hp with ⟨-, hp⟩ | ⟨-, f, hp⟩
    · exact h.move hc (leads_iff_of_not (by simp [hp]) (by simp [hp]) (by simp) (by simp)) (by simp [hp]) trivial
    · exact h.move hc (leads_iff_of_not (by simp [hp]) (by simp [hp]) (by simp) (by simp)) (by simp [hp]) trivial
  | wake p c f hc hp hch =>
    have hok := h.callers p c hc
    rw [hp] at hok
    obtain ⟨h1, -, h3⟩ := hok
    refine h.move hc (leads_iff_of_not (by simp [hp]) (by simp [hp]) (by simp) (by simp)) (by simp [hp]) ?_
    rintro f' ⟨⟩
    refine ⟨h1, hch, fun f'' hf' => Nat.lt_of_le_of_ne (h3 f'' hf') ?_⟩
    rintro rfl
    exact (h.changed f hch).2 _ hf'
  | evict k =>
    refine ⟨fun q d hd => ?_, h.leader, h.unique, h.fresh, h.changed⟩
    exact (h.callers q d hd).congr rfl rfl rfl fun f hn => hn

/-! ## Where an image came from -/

/-- Some caller of the key, with exactly the grants the entry requires, handed in the entry's image. -/
def Produced (s : RenderOutputCache K) (k : K) (e : CachedRenderOutput) : Prop :=
  ∃ (q : Nat) (d : RenderCaller K), s.callers[q]? = some d ∧ d.key = k ∧ d.readableNamespaces = e.requiredNamespaces ∧
    (q, e.output) ∈ s.produced

/-- Every image that is resident or was served has its producer, and who is about to insert one found nothing that requires other
grants. -/
structure OutputInv (s : RenderOutputCache K) : Prop where
  resident : ∀ k e, s.cache k = some e → Produced s k e
  served : ∀ (p : Nat) (c : RenderCaller K) e, s.callers[p]? = some c → c.phase = .hit e →
    e.isAuthorizedFor c.readableNamespaces = true ∧ Produced s c.key e
  inserting : ∀ (p : Nat) (c : RenderCaller K) f o, s.callers[p]? = some c → c.phase = .inserting f o →
    (p, o) ∈ s.produced ∧ ∀ e, s.cache c.key = some e → e.requiredNamespaces = c.readableNamespaces

omit [DecidableEq K] in
theorem OutputInv.new : OutputInv (RenderOutputCache.new : RenderOutputCache K) where
  resident := by simp [RenderOutputCache.new]
  served := by simp [RenderOutputCache.new]
  inserting := by simp [RenderOutputCache.new]

/-- Callers stay, with their key and their grants, and so do the records of who produced what. -/
theorem Stepped.callers_kept (hs : Stepped s a s') :
    (∀ (q : Nat) (d : RenderCaller K), s.callers[q]? = some d →
      ∃ d' : RenderCaller K, s'.callers[q]? = some d' ∧ d'.key = d.key ∧ d'.readableNamespaces = d.readableNamespaces) ∧
    ∀ x ∈ s.produced, x ∈ s'.produced := by
  have hset : ∀ (p : Nat) (c : RenderCaller K) (ph : CallerPhase), s.callers[p]? = some c →
      ∀ (q : Nat) (d : RenderCaller K), s.callers[q]? = some d → ∃ d' : RenderCaller K,
        (s.setPhase p c ph).callers[q]? = some d' ∧ d'.key = d.key ∧ d'.readableNamespaces = d.readableNamespaces := by
    intro p c ph hc q d hd
    by_cases hqp : q = p
    · subst hqp
      cases hc.symm.trans hd
      exact ⟨_, setPhase_get_self hc ph, rfl, rfl⟩
    · exact ⟨d, (setPhase_get_of_ne hqp ph).trans hd, rfl, rfl⟩
  cases hs with
  | arrive k ns =>
    refine ⟨fun q d hd => ⟨d, ?_, rfl, rfl⟩, fun x hx => hx⟩
    rw [List.getElem?_append_left (List.getElem?_eq_some_iff.mp hd).1]
    exact hd
  | hit _ p c after e _ hc _ _ => exact ⟨hset p c _ hc, fun x hx => hx⟩
  | miss p c after hc _ _ => exact ⟨hset p c _ hc, fun x hx => hx⟩
  | join p c after f hc _ _ _ => exact ⟨hset p c _ hc, fun x hx => hx⟩
  | lead p c after hc _ _ _ => exact ⟨hset p c _ hc, fun x hx => hx⟩
  | keepBack p result produced hsub => exact ⟨fun q d hd => ⟨d, hd, rfl, rfl⟩, hsub⟩
  | insertCheck p c f tier output hc _ _ => exact ⟨hset p c _ hc, fun x hx => List.mem_append_left _ hx⟩
  | insert p c f output hc _ => exact ⟨hset p c _ hc, fun x hx => hx⟩
  | drop p c f hc _ => exact ⟨hset p c _ hc, fun x hx => hx⟩
  | notify p c f hc _ => exact ⟨hset p c _ hc, fun x hx => hx⟩
  | leave _ p c hc _ => exact ⟨hset p c _ hc, fun x hx => hx⟩
  | wake p c f hc _ _ => exact ⟨hset p c _ hc, fun x hx => hx⟩
  | evict k => exact ⟨fun q d hd => ⟨d, hd, rfl, rfl⟩, fun x hx => hx⟩

/-- A producer stays a producer. -/
theorem Produced.step {k : K} {e : CachedRenderOutput} (h : Produced s k e) (hs : Stepped s a s') :
    Produced s' k e := by
  obtain ⟨q, d, hd, hk, hr, ho⟩ := h
  obtain ⟨hcallers, hproduced⟩ := hs.callers_kept
  obtain ⟨d', hd', hk', hr'⟩ := hcallers q d hd
  exact ⟨q, d', hd', hk'.trans hk, hr'.trans hr, hproduced _ ho⟩

/-- A step in which one caller moves to a phase that neither serves an image nor inserts one. -/
theorem OutputInv.move (h : OutputInv s) (hs : Stepped s a s') (hc : s.callers[p]? = some c) (hcache : s'.cache = s.cache)
    (hcallers : s'.callers = (s.setPhase p c ph).callers) (h1 : ∀ e, ph ≠ .hit e) (h2 : ∀ f o, ph ≠ .inserting f o) :
    OutputInv s' := by
  have hproduced := hs.callers_kept.2
  refine ⟨fun k e he => ?_, fun q d e hd hph => ?_, fun q d f o hd hph => ?_⟩
  · rw [hcache] at he
    exact (h.resident k e he).step hs
  · rw [hcallers] at hd
    rcases setPhase_get hc hd with ⟨-, rfl⟩ | ⟨-, hd⟩
    · exact absurd hph (h1 e)
    · obtain ⟨hauth, hprod⟩ := h.served q d e hd hph
      exact ⟨hauth, hprod.step hs⟩
  · rw [hcallers] at hd
    rcases setPhase_get hc hd with ⟨-, rfl⟩ | ⟨-, hd⟩
    · exact absurd hph (h2 f o)
    · obtain ⟨ho, hres⟩ := h.inserting q d f o hd hph
      refine ⟨hproduced _ ho, fun e he => hres e ?_⟩
      rwa [hcache] at he

omit [DecidableEq K] in
/-- What an authorized lookup returns is resident and allowed. -/
theorem authorizedGet_eq_some {e : CachedRenderOutput} (h : s.authorizedGet c = some e) :
    s.cache c.key = some e ∧ e.isAuthorizedFor c.readableNamespaces = true := by
  unfold authorizedGet at h
  exact Option.filter_eq_some_iff.mp h

/-- Every step keeps the provenance of images. -/
theorem OutputInv.step (h : OutputInv s) (hf : FlightInv s) (hs : Stepped s a s') : OutputInv s' := by
  have hproduced := hs.callers_kept.2
  cases hs with
  | arrive k ns =>
    have hs : Stepped s _ _ := .arrive k ns
    refine ⟨fun k e he => (h.resident k e he).step hs, fun q d e hd hph => ?_, fun q d f o hd hph => ?_⟩
    · rcases getElem?_concat_cases hd with ⟨-, rfl⟩ | hd
      · cases hph
      · obtain ⟨hauth, hprod⟩ := h.served q d e hd hph
        exact ⟨hauth, hprod.step hs⟩
    · rcases getElem?_concat_cases hd with ⟨-, rfl⟩ | hd
      · cases hph
      · exact h.inserting q d f o hd hph
  | hit _ p c after e ha hc hp he =>
    have hs : Stepped s _ _ := .hit _ p c after e ha hc hp he
    obtain ⟨hres, hauth⟩ := authorizedGet_eq_some he
    refine ⟨fun k e' he' => (h.resident k e' he').step hs, fun q d e' hd hph => ?_, fun q d f o hd hph => ?_⟩
    · rcases setPhase_get hc hd with ⟨-, rfl⟩ | ⟨-, hd⟩
      · cases hph
        exact ⟨hauth, (h.resident _ _ hres).step hs⟩
      · obtain ⟨hauth', hprod⟩ := h.served q d e' hd hph
        exact ⟨hauth', hprod.step hs⟩
    · rcases setPhase_get hc hd with ⟨-, rfl⟩ | ⟨-, hd⟩
      · cases hph
      · exact h.inserting q d f o hd hph
  | miss p c after hc hp he => exact h.move (.miss p c after hc hp he) hc rfl rfl (by simp) (by simp)
  | join p c after f hc hp he hfl => exact h.move (.join p c after f hc hp he hfl) hc rfl rfl (by simp) (by simp)
  | lead p c after hc hp he hfl => exact h.move (.lead p c after hc hp he hfl) hc rfl rfl (by simp) (by simp)
  | keepBack p result produced hsub =>
    have hs : Stepped s (.insertFromOutcome p result) _ := .keepBack p result produced hsub
    refine ⟨fun k e he => (h.resident k e he).step hs, fun q d e hd hph => ?_, fun q d f o hd hph => ?_⟩
    · obtain ⟨hauth, hprod⟩ := h.served q d e hd hph
      exact ⟨hauth, hprod.step hs⟩
    · obtain ⟨ho, hres⟩ := h.inserting q d f o hd hph
      exact ⟨hsub _ ho, hres⟩
  | insertCheck p c f tier output hc hp he =>
    have hs : Stepped s _ _ := .insertCheck p c f tier output hc hp he
    refine ⟨fun k e' he' => (h.resident k e' he').step hs, fun q d e' hd hph => ?_, fun q d f' o hd hph => ?_⟩
    · rcases setPhase_get hc hd with ⟨-, rfl⟩ | ⟨-, hd⟩
      · cases hph
      · obtain ⟨hauth, hprod⟩ := h.served q d e' hd hph
        exact ⟨hauth, hprod.step hs⟩
    · rcases setPhase_get hc hd with ⟨rfl, rfl⟩ | ⟨-, hd⟩
      · cases hph
        exact ⟨List.mem_append_right _ (List.mem_singleton.mpr rfl), he⟩
      · obtain ⟨ho, hres⟩ := h.inserting q d f' o hd hph
        exact ⟨hproduced _ ho, hres⟩
  | insert p c f output hc hp =>
    have hs : Stepped s _ _ := .insert p c f output hc hp
    obtain ⟨hout, -⟩ := h.inserting p c f output hc hp
    refine ⟨fun k e he => ?_, fun q d e hd hph => ?_, fun q d f' o hd hph => ?_⟩
    · rcases update_eq_some he with ⟨rfl, hsome⟩ | ⟨-, he⟩
      · cases hsome
        exact Produced.step ⟨p, c, hc, rfl, rfl, hout⟩ hs
      · exact (h.resident k e he).step hs
    · rcases setPhase_get hc hd with ⟨-, rfl⟩ | ⟨-, hd⟩
      · cases hph
      · obtain ⟨hauth, hprod⟩ := h.served q d e hd hph
        exact ⟨hauth, hprod.step hs⟩
    · rcases setPhase_get hc hd with ⟨-, rfl⟩ | ⟨hqp, hd⟩
      · cases hph
      · obtain ⟨ho, hres⟩ := h.inserting q d f' o hd hph
        refine ⟨ho, fun e he => ?_⟩
        rcases update_eq_some he with ⟨hkey, -⟩ | ⟨-, he⟩
        · -- Two guards of one key would be one caller.
          have h1 := hf.leads hd (Or.inr ⟨o, hph⟩)
          have h2 := hf.leads hc (Or.inr ⟨output, hp⟩)
          rw [hkey, h2] at h1
          cases h1
          exact absurd (hf.unique q p d c f hd hc (Or.inr ⟨o, hph⟩) (Or.inr ⟨output, hp⟩)) hqp
        · exact hres e he
  | drop p c f hc hp => exact h.move (.drop p c f hc hp) hc rfl rfl (by simp) (by simp)
  | notify p c f hc hp => exact h.move (.notify p c f hc hp) hc rfl rfl (by simp) (by simp)
  | leave _ p c hc hp => exact h.move (.leave _ p c hc hp) hc rfl rfl (by simp) (by simp)
  | wake p c f hc hp hch => exact h.move (.wake p c f hc hp hch) hc rfl rfl (by simp) (by simp)
  | evict k =>
    have hs : Stepped s _ _ := .evict k
    have hgone : ∀ k' e, Function.update s.cache k none k' = some e → s.cache k' = some e :=
      fun k' e he => (update_none_eq_some he).2
    refine ⟨fun k' e he => (h.resident k' e (hgone k' e he)).step hs, fun q d e hd hph => ?_, fun q d f o hd hph => ?_⟩
    · obtain ⟨hauth, hprod⟩ := h.served q d e hd hph
      exact ⟨hauth, hprod.step hs⟩
    · obtain ⟨ho, hres⟩ := h.inserting q d f o hd hph
      exact ⟨ho, fun e he => hres e (hgone _ e he)⟩

end RenderOutputCache

end Biei
