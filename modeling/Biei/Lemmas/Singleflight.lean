import Biei.Filesource.Singleflight
import Biei.Lib.Update

/-!
# Flights and those who wait for them

A flight is in the map for as long as its leader has not ended, and a caller that waits can rely on the leader to notify it.
-/

namespace Biei.Filesource

/-! ## One flight -/

namespace LeaderStage

/-- The leader holds the lock of the map. -/
def locks : LeaderStage → Bool
  | .completing _ _ | .published _ | .leaving _ => true
  | _ => false

/-- The leader will change a pending flight. -/
def changes : LeaderStage → Bool
  | .fetching | .completing _ true | .dropping => true
  | _ => false

/-- The leader will notify the waiters. -/
def notifies : LeaderStage → Bool
  | .published _ | .aborting => true
  | stage => stage.changes

/-- A leader that will change its flight will notify the waiters. -/
theorem notifies_of_changes {stage : LeaderStage} (h : stage.changes = true) : stage.notifies = true := by
  cases stage <;> first | rfl | exact h

end LeaderStage

namespace Flight

/-- What the stage of the leader says of the state of a flight. -/
def StateOk (fl : Flight) : Prop :=
  match fl.stage with
  | .fetching => fl.state = .pending ∧ fl.outcome = none
  | .completing r _ => fl.state = .pending ∧ fl.outcome = some r
  | .published r => fl.state = .complete r
  | .leaving r => fl.state = .complete r
  | .dropping => fl.state = .pending
  | .aborting => fl.state = .aborted
  | .removing => fl.state = .aborted
  | .ended => True

/-- A caller can wait for the flight: it is settled, or the leader will settle it. -/
def Awaited (fl : Flight) : Prop := fl.state = .pending → fl.stage.changes = true

end Flight

/-! ## The invariant -/

/-- What holds of a caller, given the flights. -/
structure CallerOk (nextFlight : Nat) (flights : Nat → Flight) (i : Nat) (c : FlightCaller) : Prop where
  leads : ∀ f, c.phase = .leading f →
    f < nextFlight ∧ (flights f).key = c.key ∧ (flights f).leader = i ∧ (flights f).stage ≠ .ended
  waits : ∀ f, c.phase.waits = some f → f < nextFlight ∧ (flights f).key = c.key ∧ (flights f).Awaited
  parked : ∀ f, c.phase = .parked f false → (flights f).stage.notifies = true
  returned : ∀ f r, c.phase = .returned f r → f < nextFlight ∧ (flights f).outcome = some r

namespace Coalescer

/-- What holds of a flight whose leader has not ended. -/
structure Live (hash : FlightKey → Nat) (s : Coalescer) (f : Nat) : Prop where
  mapped : s.entries (s.flights f).key = some f
  led : ∃ c, s.callers[(s.flights f).leader]? = some c ∧ c.phase = .leading f
  locked : (s.flights f).stage.locks = true → s.locked (flightShard hash (s.flights f).key) = some (s.flights f).leader

structure Inv (hash : FlightKey → Nat) (s : Coalescer) : Prop where
  callers : ∀ i c, s.callers[i]? = some c → CallerOk s.nextFlight s.flights i c
  stateOk : ∀ f, f < s.nextFlight → (s.flights f).StateOk
  outcome : ∀ f r, f < s.nextFlight → (s.flights f).state = .complete r → (s.flights f).outcome = some r
  live : ∀ f, f < s.nextFlight → (s.flights f).stage ≠ .ended → s.Live hash f
  entries : ∀ k f, s.entries k = some f → f < s.nextFlight ∧ (s.flights f).key = k ∧ (s.flights f).stage ≠ .ended

end Coalescer

/-! ## Callers and changes of the flights -/

section CallerOk

variable {n : Nat} {flights : Nat → Flight} {i f : Nat} {c : FlightCaller} {fl : Flight}

/-- A caller and a change of one flight. -/
theorem CallerOk.update (h : CallerOk n flights i c) (hkey : fl.key = (flights f).key) (hleader : fl.leader = (flights f).leader)
    (hleads : c.phase = .leading f → fl.stage ≠ .ended)
    (hwaits : c.phase.waits = some f → (flights f).Awaited → fl.Awaited)
    (hparked : c.phase = .parked f false → (flights f).stage.notifies = true → fl.stage.notifies = true)
    (houtcome : ∀ r, (flights f).outcome = some r → fl.outcome = some r) :
    CallerOk n (Function.update flights f fl) i c where
  leads := fun g hg => by
    have hold := h.leads g hg
    by_cases hgf : g = f
    · subst hgf
      rw [Function.update_self]
      exact ⟨hold.1, hkey.trans hold.2.1, hleader.trans hold.2.2.1, hleads hg⟩
    · rwa [Function.update_of_ne hgf]
  waits := fun g hg => by
    have hold := h.waits g hg
    by_cases hgf : g = f
    · subst hgf
      rw [Function.update_self]
      exact ⟨hold.1, hkey.trans hold.2.1, hwaits hg hold.2.2⟩
    · rwa [Function.update_of_ne hgf]
  parked := fun g hg => by
    have hold := h.parked g hg
    by_cases hgf : g = f
    · subst hgf
      rw [Function.update_self]
      exact hparked hg hold
    · rwa [Function.update_of_ne hgf]
  returned := fun g r hg => by
    have hold := h.returned g r hg
    by_cases hgf : g = f
    · subst hgf
      rw [Function.update_self]
      exact ⟨hold.1, houtcome r hold.2⟩
    · rwa [Function.update_of_ne hgf]

/-- A caller and a flight that is new. -/
theorem CallerOk.new (h : CallerOk n flights i c) : CallerOk (n + 1) (Function.update flights n fl) i c where
  leads := fun g hg => by
    obtain ⟨hlt, hold⟩ := h.leads g hg
    rw [Function.update_of_ne (Nat.ne_of_lt hlt)]
    exact ⟨Nat.lt_succ_of_lt hlt, hold⟩
  waits := fun g hg => by
    obtain ⟨hlt, hold⟩ := h.waits g hg
    rw [Function.update_of_ne (Nat.ne_of_lt hlt)]
    exact ⟨Nat.lt_succ_of_lt hlt, hold⟩
  parked := fun g hg => by
    have hlt := (h.waits g (by rw [hg]; rfl)).1
    rw [Function.update_of_ne (Nat.ne_of_lt hlt)]
    exact h.parked g hg
  returned := fun g r hg => by
    obtain ⟨hlt, hold⟩ := h.returned g r hg
    rw [Function.update_of_ne (Nat.ne_of_lt hlt)]
    exact ⟨Nat.lt_succ_of_lt hlt, hold⟩

variable {key : FlightKey}

/-- A caller that neither leads, nor waits, nor has returned. -/
theorem CallerOk.of_idle {p : CallerPhase} (hp : p = .entering ∨ p = .cancelled) :
    CallerOk n flights i ⟨key, p⟩ := by
  rcases hp with rfl | rfl <;> constructor <;> intros <;> rename_i h <;> cases h

/-- A caller that waits, and is not parked without a notification. -/
theorem CallerOk.of_waits {p : CallerPhase} (hp : p.waits = some f) (hparked : p = .parked f false →
    (flights f).stage.notifies = true) (hlt : f < n) (hkey : (flights f).key = key) (hawaited : (flights f).Awaited) :
    CallerOk n flights i ⟨key, p⟩ where
  leads := fun g hg => by
    subst hg
    cases hp
  waits := fun g hg => by
    cases hp.symm.trans hg
    exact ⟨hlt, hkey, hawaited⟩
  parked := fun g hg => by
    subst hg
    cases hp
    exact hparked rfl
  returned := fun g r hg => by
    subst hg
    cases hp

theorem CallerOk.of_returned {r : Response} (hlt : f < n) (hr : (flights f).outcome = some r) :
    CallerOk n flights i ⟨key, .returned f r⟩ where
  leads := fun _ hg => nomatch hg
  waits := fun _ hg => nomatch hg
  parked := fun _ hg => nomatch hg
  returned := fun g r' hg => by
    obtain ⟨rfl, rfl⟩ := CallerPhase.returned.inj hg
    exact ⟨hlt, hr⟩

/-- The notification of a flight. -/
theorem CallerOk.notify (h : CallerOk n flights i c) (hkey : fl.key = (flights f).key) (hleader : fl.leader = (flights f).leader)
    (hlive : fl.stage ≠ .ended) (hwaits : (flights f).Awaited → fl.Awaited)
    (houtcome : ∀ r, (flights f).outcome = some r → fl.outcome = some r) :
    CallerOk n (Function.update flights f fl) i { c with phase := c.phase.notify f } := by
  have hsame : (c.phase.notify f).waits = c.phase.waits := by
    cases c.phase <;> rfl
  constructor
  · intro g hg
    have hphase : c.phase = .leading g := by
      revert hg
      cases c.phase <;> simp [CallerPhase.notify]
    exact (h.update hkey hleader (fun _ => hlive) (fun _ => hwaits) (fun hp => by rw [hphase] at hp; cases hp) houtcome).leads g
      hphase
  · intro g hg
    have hold := h.waits g (hsame ▸ hg)
    by_cases hgf : g = f
    · subst hgf
      rw [Function.update_self]
      exact ⟨hold.1, hkey.trans hold.2.1, hwaits hold.2.2⟩
    · rwa [Function.update_of_ne hgf]
  · intro g hg
    -- whoever is parked at this flight is notified now
    have hphase : c.phase = .parked g false ∧ g ≠ f := by
      cases hc : c.phase with
      | parked g' notified =>
        simp only [hc, CallerPhase.notify, CallerPhase.parked.injEq, Bool.or_eq_false_iff, beq_eq_false_iff_ne] at hg
        obtain ⟨rfl, rfl, hne⟩ := hg
        exact ⟨rfl, hne⟩
      | _ =>
        rw [hc] at hg
        cases hg
    rw [Function.update_of_ne hphase.2]
    exact h.parked g hphase.1
  · intro g r hg
    have hphase : c.phase = .returned g r := by
      revert hg
      cases c.phase <;> simp [CallerPhase.notify]
    have hold := h.returned g r hphase
    by_cases hgf : g = f
    · subst hgf
      rw [Function.update_self]
      exact ⟨hold.1, houtcome r hold.2⟩
    · rwa [Function.update_of_ne hgf]

end CallerOk

/-! ## Steps -/

namespace Coalescer

variable {hash : FlightKey → Nat} {s : Coalescer} {i f : Nat} {c : FlightCaller} {fl : Flight}

theorem inv_new : Inv hash .new where
  callers := fun _ _ h => nomatch h
  stateOk := fun _ h => nomatch h
  outcome := fun _ _ h => nomatch h
  live := fun _ h => nomatch h
  entries := fun _ _ h => nomatch h

theorem Inv.call (h : Inv hash s) (key : FlightKey) : Inv hash { s with callers := s.callers ++ [⟨key, .entering⟩] } where
  callers := fun j d hd => by
    rcases getElem?_concat_cases hd with ⟨rfl, rfl⟩ | hd
    · exact CallerOk.of_idle (Or.inl rfl)
    · exact h.callers j d hd
  stateOk := h.stateOk
  outcome := h.outcome
  live := fun g hg hne => by
    obtain ⟨d, hd, hlead⟩ := (h.live g hg hne).led
    exact ⟨(h.live g hg hne).mapped, ⟨d, getElem?_concat_of_some hd _, hlead⟩, (h.live g hg hne).locked⟩
  entries := h.entries

/-- A caller that leads no flight moves on. -/
theorem Inv.setPhase (h : Inv hash s) (hc : s.callers[i]? = some c) (hnl : ∀ f, c.phase ≠ .leading f) {p : CallerPhase}
    (hp : CallerOk s.nextFlight s.flights i ⟨c.key, p⟩) : Inv hash (s.setPhase i c p) where
  callers := fun j d hd => by
    rcases getElem?_set_cases hc hd with ⟨rfl, rfl⟩ | ⟨-, hd⟩
    · exact hp
    · exact h.callers j d hd
  stateOk := h.stateOk
  outcome := h.outcome
  live := fun g hg hne => by
    obtain ⟨d, hd, hlead⟩ := (h.live g hg hne).led
    have hij : i ≠ (s.flights g).leader := by
      rintro rfl
      rw [hc] at hd
      cases hd
      exact hnl g hlead
    exact ⟨(h.live g hg hne).mapped, ⟨d, (List.getElem?_set_ne hij).trans hd, hlead⟩, (h.live g hg hne).locked⟩
  entries := h.entries

variable {s' : Coalescer}

/-- The leader of a flight moves on, without ending it. -/
theorem Inv.leaderMoves (h : Inv hash s) (hf : f < s.nextFlight) (hentries : s'.entries = s.entries)
    (hnext : s'.nextFlight = s.nextFlight) (hflights : s'.flights = Function.update s.flights f fl)
    (hkey : fl.key = (s.flights f).key) (hleader : fl.leader = (s.flights f).leader) (hold : (s.flights f).stage ≠ .ended)
    (hlive : fl.stage ≠ .ended) (hstate : fl.StateOk) (houtcome : ∀ r, fl.state = .complete r → fl.outcome = some r)
    (hcallers : ∀ j d, s'.callers[j]? = some d → CallerOk s.nextFlight s'.flights j d)
    (hled : ∀ (j : Nat) (d : FlightCaller) (g : Nat), s.callers[j]? = some d → d.phase = .leading g →
      ∃ d', s'.callers[j]? = some d' ∧ d'.phase = .leading g)
    (hlocks : fl.stage.locks = true → s'.locked (flightShard hash fl.key) = some fl.leader)
    (hothers : ∀ g, g < s.nextFlight → g ≠ f → (s.flights g).stage.locks = true →
      s'.locked (flightShard hash (s.flights g).key) = s.locked (flightShard hash (s.flights g).key)) : Inv hash s' where
  callers := fun j d hd => by
    rw [hnext]
    exact hcallers j d hd
  stateOk := fun g hg => by
    rw [hflights]
    by_cases hgf : g = f
    · rw [hgf, Function.update_self]
      exact hstate
    · rw [Function.update_of_ne hgf]
      exact h.stateOk g (hnext ▸ hg)
  outcome := fun g r hg => by
    rw [hflights]
    by_cases hgf : g = f
    · rw [hgf, Function.update_self]
      exact houtcome r
    · rw [Function.update_of_ne hgf]
      exact h.outcome g r (hnext ▸ hg)
  live := fun g hg hne => by
    by_cases hgf : g = f
    · subst hgf
      obtain ⟨d, hd, hlead⟩ := (h.live g hf hold).led
      obtain ⟨d', hd', hlead'⟩ := hled _ d g hd hlead
      refine ⟨?_, ⟨d', ?_, hlead'⟩, ?_⟩
      · rw [hentries, hflights, Function.update_self, hkey]
        exact (h.live g hf hold).mapped
      · rw [hflights, Function.update_self, hleader]
        exact hd'
      · rw [hflights, Function.update_self]
        exact hlocks
    · rw [hflights, Function.update_of_ne hgf] at hne
      have hg' : g < s.nextFlight := hnext ▸ hg
      obtain ⟨d, hd, hlead⟩ := (h.live g hg' hne).led
      obtain ⟨d', hd', hlead'⟩ := hled _ d g hd hlead
      refine ⟨?_, ⟨d', ?_, hlead'⟩, ?_⟩
      · rw [hentries, hflights, Function.update_of_ne hgf]
        exact (h.live g hg' hne).mapped
      · rw [hflights, Function.update_of_ne hgf]
        exact hd'
      · rw [hflights, Function.update_of_ne hgf]
        intro hl
        rw [hothers g hg' hgf hl]
        exact (h.live g hg' hne).locked hl
  entries := fun k g hg => by
    rw [hentries] at hg
    obtain ⟨hlt, hk, hne⟩ := h.entries k g hg
    rw [hnext, hflights]
    by_cases hgf : g = f
    · subst hgf
      rw [Function.update_self]
      exact ⟨hlt, hkey.trans hk, hlive⟩
    · rw [Function.update_of_ne hgf]
      exact ⟨hlt, hk, hne⟩

/-- The leader of a flight ends it: the flight leaves the map, and what locked the map does not any more. -/
theorem Inv.leaderEnds (h : Inv hash s) (hc : s.callers[i]? = some c) (hlead : c.phase = .leading f) {p : CallerPhase}
    (locked : Nat → Option Nat) (hp : p = .cancelled ∨ ∃ r, p = .returned f r ∧ (s.flights f).outcome = some r)
    (hsettled : (s.flights f).Awaited → (s.flights f).state ≠ .pending)
    (hquiet : (s.flights f).stage.notifies = false)
    (hothers : ∀ g, g < s.nextFlight → g ≠ f → (s.flights g).stage.locks = true →
      locked (flightShard hash (s.flights g).key) = s.locked (flightShard hash (s.flights g).key)) :
    Inv hash { ((s.removeFlight f).setFlight f { s.flights f with stage := .ended }).setPhase i c p with locked } := by
  obtain ⟨hlt, hkey, hleader, hne⟩ := (h.callers i c hc).leads f hlead
  have hmapped := (h.live f hlt hne).mapped
  have hentries : (s.removeFlight f).entries = Function.update s.entries (s.flights f).key none := by
    unfold removeFlight
    rw [if_pos hmapped]
  have hremove : (s.removeFlight f).flights = s.flights ∧ (s.removeFlight f).nextFlight = s.nextFlight ∧
      (s.removeFlight f).callers = s.callers := by
    unfold removeFlight
    rw [if_pos hmapped]
    exact ⟨rfl, rfl, rfl⟩
  obtain ⟨hflights, hnext, hcallers⟩ := hremove
  -- callers other than the leader, who waits for nothing
  have hkept : ∀ j d, j ≠ i → s.callers[j]? = some d →
      CallerOk s.nextFlight (Function.update s.flights f { s.flights f with stage := .ended }) j d := by
    intro j d hji hd
    refine (h.callers j d hd).update rfl rfl (fun hl => ?_) (fun _ hawaited hpending => ?_) (fun _ hn => ?_) (fun _ hr => hr)
    · exact absurd (((h.callers j d hd).leads f hl).2.2.1.symm.trans hleader) hji
    · exact absurd hpending (hsettled hawaited)
    · rw [hquiet] at hn
      cases hn
  constructor
  · intro j d hd
    simp only [Coalescer.setPhase, Coalescer.setFlight, hcallers, hflights, hnext] at hd ⊢
    rcases getElem?_set_cases hc hd with ⟨rfl, rfl⟩ | ⟨hji, hd⟩
    · rcases hp with rfl | ⟨r, rfl, hr⟩
      · exact CallerOk.of_idle (Or.inr rfl)
      · refine CallerOk.of_returned hlt ?_
        rw [Function.update_self]
        exact hr
    · exact hkept j d hji hd
  · intro g hg
    simp only [Coalescer.setPhase, Coalescer.setFlight, hflights, hnext] at hg ⊢
    by_cases hgf : g = f
    · rw [hgf, Function.update_self]
      trivial
    · rw [Function.update_of_ne hgf]
      exact h.stateOk g hg
  · intro g r hg
    simp only [Coalescer.setPhase, Coalescer.setFlight, hflights, hnext] at hg ⊢
    by_cases hgf : g = f
    · rw [hgf, Function.update_self]
      exact h.outcome f r hlt
    · rw [Function.update_of_ne hgf]
      exact h.outcome g r hg
  · intro g hg hne'
    simp only [Coalescer.setPhase, Coalescer.setFlight, hflights, hnext] at hg hne'
    have hgf : g ≠ f := by
      rintro rfl
      rw [Function.update_self] at hne'
      exact hne' rfl
    rw [Function.update_of_ne hgf] at hne'
    have hlive := h.live g hg hne'
    obtain ⟨d, hd, hdlead⟩ := hlive.led
    have hij : i ≠ (s.flights g).leader := by
      rintro rfl
      rw [hc] at hd
      cases hd
      rw [hlead] at hdlead
      exact hgf (CallerPhase.leading.inj hdlead).symm
    have hkeys : (s.flights g).key ≠ (s.flights f).key := by
      intro hk
      have hmap := hlive.mapped
      rw [hk, hmapped] at hmap
      exact hgf (Option.some.inj hmap).symm
    constructor
    · simp only [Coalescer.setPhase, Coalescer.setFlight, hflights, hentries]
      rw [Function.update_of_ne hgf, Function.update_of_ne hkeys]
      exact hlive.mapped
    · simp only [Coalescer.setPhase, Coalescer.setFlight, hflights, hcallers]
      rw [Function.update_of_ne hgf, List.getElem?_set_ne hij]
      exact ⟨d, hd, hdlead⟩
    · simp only [Coalescer.setPhase, Coalescer.setFlight, hflights]
      rw [Function.update_of_ne hgf]
      intro hl
      rw [hothers g hg hgf hl]
      exact hlive.locked hl
  · intro k g hg
    simp only [Coalescer.setPhase, Coalescer.setFlight, hflights, hnext, hentries] at hg ⊢
    obtain ⟨hk, hg⟩ := update_none_eq_some hg
    obtain ⟨hlt', hk', hne'⟩ := h.entries k g hg
    have hgf : g ≠ f := by
      rintro rfl
      exact hk hk'.symm
    rw [Function.update_of_ne hgf]
    exact ⟨hlt', hk', hne'⟩

/-- A flight whose leader has the lock is the only one of its shard. -/
theorem Inv.eq_of_locks (h : Inv hash s) {g : Nat} (hf : f < s.nextFlight) (hg : g < s.nextFlight)
    (hfl : (s.flights f).stage.locks = true) (hgl : (s.flights g).stage.locks = true)
    (hshard : flightShard hash (s.flights f).key = flightShard hash (s.flights g).key) : f = g := by
  have hne : ∀ x, (s.flights x).stage.locks = true → (s.flights x).stage ≠ .ended := by
    intro x hx he
    rw [he] at hx
    cases hx
  have h1 := (h.live f hf (hne f hfl)).locked hfl
  have h2 := (h.live g hg (hne g hgl)).locked hgl
  rw [hshard, h2] at h1
  obtain ⟨d, hd, hdlead⟩ := (h.live f hf (hne f hfl)).led
  obtain ⟨e, he, helead⟩ := (h.live g hg (hne g hgl)).led
  rw [← Option.some.inj h1, he] at hd
  cases hd
  rw [hdlead] at helead
  exact CallerPhase.leading.inj helead

/-- When nobody is counted beside the leader and the map, nobody waits. -/
theorem Inv.not_waits (h : Inv hash s) (hc : s.callers[i]? = some c) (hlead : c.phase = .leading f)
    (hcount : ¬ s.strongCount f > 1 + if s.entries c.key = some f then 1 else 0) {j : Nat} {d : FlightCaller}
    (hd : s.callers[j]? = some d) : d.phase.waits ≠ some f := by
  intro hwaits
  have hij : i ≠ j := by
    rintro rfl
    rw [hc] at hd
    cases hd
    rw [hlead] at hwaits
    cases hwaits
  have hholds : d.phase.holds = some f := by
    cases hp : d.phase with
    | leading g =>
      rw [hp] at hwaits
      cases hwaits
    | _ =>
      rw [hp] at hwaits
      exact hwaits
  have htwo := two_le_countP (p := fun c => c.phase.holds == some f) hij hc hd (by simp [hlead, CallerPhase.holds])
    (by simp [hholds])
  have hkey := ((h.callers i c hc).leads f hlead).2.1
  apply hcount
  unfold strongCount
  rw [hkey]
  omega

/-- The leader of a flight has its fetch returned. -/
theorem Inv.fetched (h : Inv hash s) (hc : s.callers[i]? = some c) (hlead : c.phase = .leading f) (response : Response)
    (hs : s.leaderStep hash i c f (.fetched i response) = some s') : Inv hash s' := by
  obtain ⟨hlt, hkey, hleader, hne⟩ := (h.callers i c hc).leads f hlead
  simp only [leaderStep, Option.ite_none_right_eq_some, Option.some.injEq] at hs
  obtain ⟨⟨hstage, hfree⟩, rfl⟩ := hs
  have hstate := h.stateOk f hlt
  rw [Flight.StateOk, hstage] at hstate
  refine h.leaderMoves hlt rfl rfl rfl rfl rfl hne (by simp) ⟨hstate.1, rfl⟩ (fun r hr => ?_) (fun j d hd => ?_)
    (fun j d g hd hg => ⟨d, hd, hg⟩) (fun _ => ?_) (fun g hg hgf hgl => ?_)
  · simp only [hstate.1] at hr
    cases hr
  · refine (h.callers j d hd).update rfl rfl (fun _ => by simp) (fun hwaits _ _ => ?_) (fun hparked _ => ?_) (fun r hr => ?_)
    -- a caller that waits was counted
    · have hjoined : s.strongCount f > 1 + if s.entries c.key = some f then 1 else 0 := by
        by_contra hcount
        exact h.not_waits hc hlead hcount hd hwaits
      simp [LeaderStage.changes, hjoined]
    · have hjoined : s.strongCount f > 1 + if s.entries c.key = some f then 1 else 0 := by
        by_contra hcount
        exact h.not_waits hc hlead hcount hd (by rw [hparked]; rfl)
      simp [LeaderStage.notifies, LeaderStage.changes, hjoined]
    · rw [hstate.2] at hr
      cases hr
  · rw [← hleader] at hc ⊢
    simp [hkey]
  · -- the lock was free, so no other leader of the shard has it
    have hgne : (s.flights g).stage ≠ .ended := by
      intro he
      rw [he] at hgl
      cases hgl
    have hglocked := (h.live g hg hgne).locked hgl
    have hshard : flightShard hash (s.flights g).key ≠ flightShard hash c.key := by
      intro hsame
      rw [hsame, hfree] at hglocked
      cases hglocked
    exact Function.update_of_ne hshard _ _

/-- The leader of a flight changes the flight alone. -/
theorem Inv.setFlight (h : Inv hash s) (hc : s.callers[i]? = some c) (hlead : c.phase = .leading f)
    (hkey : fl.key = (s.flights f).key)
    (hleader : fl.leader = (s.flights f).leader) (hlive : fl.stage ≠ .ended) (hstate : fl.StateOk)
    (houtcome : fl.outcome = (s.flights f).outcome) (hcomplete : ∀ r, fl.state = .complete r → fl.outcome = some r)
    (hawaited : (s.flights f).Awaited → fl.Awaited) (hnotifies : (s.flights f).stage.notifies = true → fl.stage.notifies = true)
    (hlocks : fl.stage.locks = true → (s.flights f).stage.locks = true) : Inv hash (s.setFlight f fl) := by
  obtain ⟨hlt, -, -, hne⟩ := (h.callers i c hc).leads f hlead
  refine h.leaderMoves hlt rfl rfl rfl hkey hleader hne hlive hstate hcomplete (fun j d hd => ?_) (fun j d g hd hg => ⟨d, hd, hg⟩)
    (fun hl => ?_) (fun _ _ _ _ => rfl)
  · exact (h.callers j d hd).update hkey hleader (fun _ => hlive) (fun _ => hawaited) (fun _ => hnotifies)
      (fun r hr => houtcome.trans hr)
  · rw [hkey, hleader]
    exact (h.live f hlt hne).locked (hlocks hl)

/-- The leader of a flight notifies the waiters. -/
theorem Inv.notify (h : Inv hash s) (hc : s.callers[i]? = some c) (hlead : c.phase = .leading f) {stage : LeaderStage}
    (hlive : stage ≠ .ended) (hstate : ({ s.flights f with stage } : Flight).StateOk) (hsettled : (s.flights f).state ≠ .pending)
    (hlocks : stage.locks = true → (s.flights f).stage.locks = true) :
    Inv hash ((s.setFlight f { s.flights f with stage }).notifyWaiters f) := by
  obtain ⟨hlt, -, -, hne⟩ := (h.callers i c hc).leads f hlead
  refine h.leaderMoves hlt rfl rfl rfl rfl rfl hne hlive hstate (fun r hr => h.outcome f r hlt hr) (fun j d hd => ?_)
    (fun j d g hd hg => ?_) (fun hl => (h.live f hlt hne).locked (hlocks hl)) (fun _ _ _ _ => rfl)
  · simp only [notifyWaiters, Coalescer.setFlight, List.getElem?_map, Option.map_eq_some_iff] at hd
    obtain ⟨d', hd', rfl⟩ := hd
    exact (h.callers j d' hd').notify rfl rfl hlive (fun _ hpending => absurd hpending hsettled) (fun _ hr => hr)
  · refine ⟨{ d with phase := d.phase.notify f }, ?_, ?_⟩
    · simp only [notifyWaiters, Coalescer.setFlight, List.getElem?_map, hd, Option.map_some]
    · simp only [hg]
      rfl

variable {a : FlightAction}

/-- A step of the leader of a flight. -/
theorem Inv.leaderStep (h : Inv hash s) (hc : s.callers[i]? = some c) (hlead : c.phase = .leading f)
    (hs : s.leaderStep hash i c f a = some s') : Inv hash s' := by
  obtain ⟨hlt, hkey, hleader, hne⟩ := (h.callers i c hc).leads f hlead
  have hstate := h.stateOk f hlt
  -- the lock that the leader releases is its own
  have hreleased : (s.flights f).stage.locks = true → ∀ g, g < s.nextFlight → g ≠ f → (s.flights g).stage.locks = true →
      Function.update s.locked (flightShard hash c.key) none (flightShard hash (s.flights g).key) =
        s.locked (flightShard hash (s.flights g).key) := by
    intro hl g hg hgf hgl
    refine Function.update_of_ne (fun hshard => hgf ?_) _ _
    rw [← hkey] at hshard
    exact h.eq_of_locks hg hlt hgl hl hshard
  cases a with
  | fetched j response =>
    have hs' : s.leaderStep hash i c f (.fetched i response) = some s' := hs
    exact h.fetched hc hlead response hs'
  | publish j =>
    simp only [Coalescer.leaderStep] at hs
    split at hs
    · rename_i response hstage
      cases hs
      rw [Flight.StateOk, hstage] at hstate
      refine h.setFlight hc hlead rfl rfl (by simp) rfl rfl (fun r hr => ?_) (fun _ hp => nomatch hp) (fun _ => rfl)
        (fun _ => by rw [hstage]; rfl)
      obtain rfl := FlightState.complete.inj hr
      exact hstate.2
    · cases hs
  | notify j =>
    simp only [Coalescer.leaderStep] at hs
    split at hs
    · rename_i response hstage
      cases hs
      rw [Flight.StateOk, hstage] at hstate
      exact h.notify hc hlead (by simp) hstate (by rw [hstate]; simp) (fun _ => by rw [hstage]; rfl)
    · rename_i hstage
      cases hs
      rw [Flight.StateOk, hstage] at hstate
      exact h.notify hc hlead (by simp) hstate (by rw [hstate]; simp) (fun hl => nomatch hl)
    · cases hs
  | leave j =>
    simp only [Coalescer.leaderStep] at hs
    split at hs
    · rename_i response hstage
      cases hs
      rw [Flight.StateOk, hstage] at hstate
      refine h.leaderEnds hc hlead _ (Or.inr ⟨response, rfl, hstate.2⟩) (fun hawaited => ?_) (by rw [hstage]; rfl)
        (hreleased (by rw [hstage]; rfl))
      have hchanges := hawaited hstate.1
      rw [hstage] at hchanges
      cases hchanges
    · rename_i response hstage
      cases hs
      rw [Flight.StateOk, hstage] at hstate
      exact h.leaderEnds hc hlead _ (Or.inr ⟨response, rfl, h.outcome f response hlt hstate⟩) (fun _ => by rw [hstate]; simp)
        (by rw [hstage]; rfl) (hreleased (by rw [hstage]; rfl))
    · rename_i hstage
      split at hs
      · cases hs
        rw [Flight.StateOk, hstage] at hstate
        have hends := h.leaderEnds hc hlead s.locked (Or.inl rfl) (fun _ => by rw [hstate]; simp) (by rw [hstage]; rfl)
          (fun _ _ _ _ => rfl)
        have hsame : (((s.removeFlight f).setFlight f { s.flights f with stage := .ended }).setPhase i c .cancelled).locked =
            s.locked := by
          unfold removeFlight Coalescer.setFlight Coalescer.setPhase
          split <;> rfl
        rw [← hsame] at hends
        exact hends
      · cases hs
    · cases hs
  | abort j =>
    simp only [Coalescer.leaderStep] at hs
    split at hs
    · cases hs
      exact h.setFlight hc hlead rfl rfl (by simp) rfl rfl (fun _ hr => nomatch hr) (fun _ hp => nomatch hp) (fun _ => rfl)
        (fun hl => nomatch hl)
    · cases hs
  | cancel j =>
    simp only [Coalescer.leaderStep, Option.ite_none_right_eq_some, Option.some.injEq] at hs
    obtain ⟨hstage, rfl⟩ := hs
    rw [Flight.StateOk, hstage] at hstate
    refine h.setFlight hc hlead rfl rfl (by simp) hstate.1 rfl (fun r hr => ?_) (fun _ _ => rfl) (fun _ => rfl)
      (fun hl => nomatch hl)
    simp only [hstate.1] at hr
    cases hr
  | call request => cases hs
  | enter j => cases hs
  | check j => cases hs
  | register j => cases hs
  | recheck j => cases hs
  | wake j => cases hs

/-- A caller joins the flight of its key, or leads a new one. -/
theorem Inv.enter (h : Inv hash s) (hc : s.callers[i]? = some c) (hphase : c.phase = .entering)
    (hfree : s.locked (flightShard hash c.key) = none) : Inv hash (s.enter i c) := by
  have hnl : ∀ f, c.phase ≠ .leading f := by simp [hphase]
  unfold Coalescer.enter
  cases he : s.entries c.key with
  | some f =>
    obtain ⟨hlt, hkey, hne⟩ := h.entries c.key f he
    -- the lock is free: the leader is fetching, or has aborted the flight
    refine h.setPhase hc hnl (CallerOk.of_waits rfl (fun hp => nomatch hp) hlt hkey (fun hpending => ?_))
    have hstate := h.stateOk f hlt
    have hunlocked : (s.flights f).stage.locks ≠ true := by
      intro hl
      have hlocked := (h.live f hlt hne).locked hl
      rw [hkey, hfree] at hlocked
      cases hlocked
    rw [Flight.StateOk] at hstate
    cases hstage : (s.flights f).stage with
    | fetching => rfl
    | dropping => rfl
    | ended => exact absurd hstage hne
    | aborting =>
      rw [hstage, hpending] at hstate
      cases hstate
    | removing =>
      rw [hstage, hpending] at hstate
      cases hstate
    | completing r b =>
      rw [hstage] at hunlocked
      exact absurd rfl hunlocked
    | published r =>
      rw [hstage] at hunlocked
      exact absurd rfl hunlocked
    | leaving r =>
      rw [hstage] at hunlocked
      exact absurd rfl hunlocked
  | none =>
    have hold : ∀ g, g < s.nextFlight → (s.flights g).stage ≠ .ended → (s.flights g).key ≠ c.key := by
      intro g hg hne hk
      have hmapped := (h.live g hg hne).mapped
      rw [hk, he] at hmapped
      cases hmapped
    constructor
    · intro j d hd
      rcases getElem?_set_cases hc hd with ⟨rfl, rfl⟩ | ⟨-, hd⟩
      · refine ⟨fun g hg => ?_, (fun _ hg => nomatch hg), (fun _ hg => nomatch hg), (fun _ _ hg => nomatch hg)⟩
        obtain rfl := CallerPhase.leading.inj hg
        exact ⟨Nat.lt_succ_self _, by simp [Coalescer.setFlight]⟩
      · exact (h.callers j d hd).new
    · intro g hg
      by_cases hgn : g = s.nextFlight
      · subst hgn
        simp only [Coalescer.setFlight, Coalescer.setPhase, Function.update_self]
        exact ⟨rfl, rfl⟩
      · simp only [Coalescer.setFlight, Coalescer.setPhase, Function.update_of_ne hgn]
        exact h.stateOk g (Nat.lt_of_le_of_ne (Nat.lt_succ_iff.mp hg) hgn)
    · intro g r hg hr
      by_cases hgn : g = s.nextFlight
      · subst hgn
        simp only [Coalescer.setFlight, Coalescer.setPhase, Function.update_self] at hr
        cases hr
      · simp only [Coalescer.setFlight, Coalescer.setPhase, Function.update_of_ne hgn] at hr ⊢
        exact h.outcome g r (Nat.lt_of_le_of_ne (Nat.lt_succ_iff.mp hg) hgn) hr
    · intro g hg hne
      by_cases hgn : g = s.nextFlight
      · subst hgn
        constructor
        · simp only [Coalescer.setFlight, Coalescer.setPhase, Function.update_self]
        · simp only [Coalescer.setFlight, Coalescer.setPhase, Function.update_self]
          exact ⟨_, getElem?_set_of_some hc _, rfl⟩
        · simp only [Coalescer.setFlight, Coalescer.setPhase, Function.update_self]
          exact fun hl => nomatch hl
      · have hlt := Nat.lt_of_le_of_ne (Nat.lt_succ_iff.mp hg) hgn
        simp only [Coalescer.setFlight, Coalescer.setPhase, Function.update_of_ne hgn] at hne
        have hlive := h.live g hlt hne
        obtain ⟨d, hd, hlead⟩ := hlive.led
        have hij : i ≠ (s.flights g).leader := by
          rintro rfl
          rw [hc] at hd
          cases hd
          exact hnl g hlead
        constructor
        · simp only [Coalescer.setFlight, Coalescer.setPhase, Function.update_of_ne hgn, Function.update_of_ne (hold g hlt hne)]
          exact hlive.mapped
        · simp only [Coalescer.setFlight, Coalescer.setPhase, Function.update_of_ne hgn, List.getElem?_set_ne hij]
          exact ⟨d, hd, hlead⟩
        · simp only [Coalescer.setFlight, Coalescer.setPhase, Function.update_of_ne hgn]
          exact hlive.locked
    · intro k g hg
      rcases update_eq_some hg with ⟨rfl, hnew⟩ | ⟨-, hg'⟩
      · cases hnew
        exact ⟨Nat.lt_succ_self _, by simp [Coalescer.setFlight]⟩
      · obtain ⟨hlt, hk, hne⟩ := h.entries k g hg'
        simp only [Coalescer.setFlight, Coalescer.setPhase, Function.update_of_ne (Nat.ne_of_lt hlt)]
        exact ⟨Nat.lt_succ_of_lt hlt, hk, hne⟩

/-- A waiting caller looks at its flight. -/
theorem Inv.settle (h : Inv hash s) (hc : s.callers[i]? = some c) (hwaits : c.phase.waits = some f) {p : CallerPhase}
    (hp : p.waits = some f) (hparked : p = .parked f false → (s.flights f).state = .pending →
      (s.flights f).stage.notifies = true) :
    Inv hash (s.settle i c f p) := by
  have hnl : ∀ g, c.phase ≠ .leading g := by
    intro g hg
    rw [hg] at hwaits
    cases hwaits
  obtain ⟨hlt, hkey, hawaited⟩ := (h.callers i c hc).waits f hwaits
  unfold Coalescer.settle
  cases hstate : (s.flights f).state with
  | pending => exact h.setPhase hc hnl (CallerOk.of_waits hp (fun hpp => hparked hpp hstate) hlt hkey hawaited)
  | complete response => exact h.setPhase hc hnl (CallerOk.of_returned hlt (h.outcome f response hlt hstate))
  | aborted => exact h.setPhase hc hnl (CallerOk.of_idle (Or.inl rfl))

/-- A step of a caller. -/
theorem step_caller (ha : a.caller = some i) (hs : s.step hash a = some s') :
    ∃ c, s.callers[i]? = some c ∧ s.callerStep hash i c a = some s' := by
  have hbind : (s.callers[i]?).bind (fun c => s.callerStep hash i c a) = some s' := by
    cases a with
    | call request => cases ha
    | _ =>
      cases ha
      exact hs
  exact Option.bind_eq_some_iff.mp hbind

/-- What a caller can do. -/
theorem callerStep_cases (hs : s.callerStep hash i c a = some s') :
    (c.phase = .entering ∧ s.locked (flightShard hash c.key) = none ∧ s' = s.enter i c) ∨
      (∃ f, c.phase = .leading f ∧ s.leaderStep hash i c f a = some s') ∨
      (∃ f, c.phase = .joined f ∧ s' = s.settle i c f (.registering f)) ∨
      (∃ f, c.phase = .registering f ∧ s' = s.setPhase i c (.registered f false)) ∨
      (∃ f notified, c.phase = .registered f notified ∧ s' = s.settle i c f (.parked f notified)) ∨
      (∃ f, c.phase = .parked f true ∧ s' = s.setPhase i c (.registering f)) ∨
      ((∀ f, c.phase ≠ .leading f) ∧ (∃ j, a = .cancel j) ∧ s' = s.setPhase i c .cancelled) := by
  obtain ⟨key, phase⟩ := c
  cases phase with
  | entering =>
    cases a with
    | enter j =>
      simp only [callerStep, Option.ite_none_right_eq_some, Option.some.injEq] at hs
      exact Or.inl ⟨rfl, hs.1, hs.2.symm⟩
    | cancel j => exact Or.inr (Or.inr (Or.inr (Or.inr (Or.inr (Or.inr ⟨by simp, ⟨j, rfl⟩, (Option.some.inj hs).symm⟩)))))
    | _ => cases hs
  | leading f => exact Or.inr (Or.inl ⟨f, rfl, hs⟩)
  | joined f =>
    cases a with
    | check j => exact Or.inr (Or.inr (Or.inl ⟨f, rfl, (Option.some.inj hs).symm⟩))
    | cancel j => exact Or.inr (Or.inr (Or.inr (Or.inr (Or.inr (Or.inr ⟨by simp, ⟨j, rfl⟩, (Option.some.inj hs).symm⟩)))))
    | _ => cases hs
  | registering f =>
    cases a with
    | register j => exact Or.inr (Or.inr (Or.inr (Or.inl ⟨f, rfl, (Option.some.inj hs).symm⟩)))
    | cancel j => exact Or.inr (Or.inr (Or.inr (Or.inr (Or.inr (Or.inr ⟨by simp, ⟨j, rfl⟩, (Option.some.inj hs).symm⟩)))))
    | _ => cases hs
  | registered f notified =>
    cases a with
    | recheck j => exact Or.inr (Or.inr (Or.inr (Or.inr (Or.inl ⟨f, notified, rfl, (Option.some.inj hs).symm⟩))))
    | cancel j => exact Or.inr (Or.inr (Or.inr (Or.inr (Or.inr (Or.inr ⟨by simp, ⟨j, rfl⟩, (Option.some.inj hs).symm⟩)))))
    | _ => cases hs
  | parked f notified =>
    cases notified with
    | true =>
      cases a with
      | wake j => exact Or.inr (Or.inr (Or.inr (Or.inr (Or.inr (Or.inl ⟨f, rfl, (Option.some.inj hs).symm⟩)))))
      | cancel j => exact Or.inr (Or.inr (Or.inr (Or.inr (Or.inr (Or.inr ⟨by simp, ⟨j, rfl⟩, (Option.some.inj hs).symm⟩)))))
      | _ => cases hs
    | false =>
      cases a with
      | cancel j => exact Or.inr (Or.inr (Or.inr (Or.inr (Or.inr (Or.inr ⟨by simp, ⟨j, rfl⟩, (Option.some.inj hs).symm⟩)))))
      | _ => cases hs
  | returned f response => cases a <;> cases hs
  | cancelled => cases a <;> cases hs

/-- Every step keeps the invariant. -/
theorem Inv.step (h : Inv hash s) (hs : s.step hash a = some s') : Inv hash s' := by
  cases ha : a.caller with
  | none =>
    cases a with
    | call request =>
      simp only [Coalescer.step, Option.some.injEq] at hs
      subst hs
      exact h.call _
    | _ => cases ha
  | some i =>
    obtain ⟨c, hc, hstep⟩ := step_caller ha hs
    rcases callerStep_cases hstep with ⟨hphase, hfree, rfl⟩ | ⟨f, hphase, hstep⟩ | ⟨f, hphase, rfl⟩ | ⟨f, hphase, rfl⟩ |
      ⟨f, notified, hphase, rfl⟩ | ⟨f, hphase, rfl⟩ | ⟨hnl, -, rfl⟩
    · exact h.enter hc hphase hfree
    · exact h.leaderStep hc hphase hstep
    · exact h.settle hc (by rw [hphase]; rfl) rfl (fun hp => nomatch hp)
    · obtain ⟨hlt, hkey, hawaited⟩ := (h.callers i c hc).waits f (by rw [hphase]; rfl)
      exact h.setPhase hc (by simp [hphase]) (CallerOk.of_waits rfl (fun hp => nomatch hp) hlt hkey hawaited)
    · have hwaits : c.phase.waits = some f := by rw [hphase]; rfl
      obtain ⟨-, -, hawaited⟩ := (h.callers i c hc).waits f hwaits
      -- the flight is pending with the notification enabled: whoever changes it will notify
      exact h.settle hc hwaits rfl (fun _ hpending => LeaderStage.notifies_of_changes (hawaited hpending))
    · obtain ⟨hlt, hkey, hawaited⟩ := (h.callers i c hc).waits f (by rw [hphase]; rfl)
      exact h.setPhase hc (by simp [hphase]) (CallerOk.of_waits rfl (fun hp => nomatch hp) hlt hkey hawaited)
    · exact h.setPhase hc hnl (CallerOk.of_idle (Or.inr rfl))

end Coalescer

end Biei.Filesource
