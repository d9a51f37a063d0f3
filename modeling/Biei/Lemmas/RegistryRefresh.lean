import Biei.Auth.Delivery
import Biei.Lib.Update

/-!
# What a caller does to a registry

Every step of a caller is one of a few moves, from which the invariants follow.
-/

namespace Biei

variable {env : RegistryEnv} {registryId : String}

/-! ## Phases -/

/-- The refresh has passed the check and is writing its snapshot. -/
def RefreshPhase.accepted : RefreshPhase env registryId → Bool
  | .checked _ _ => true
  | .installed _ _ => true
  | .warmed _ _ => true
  | _ => false

/-- Nothing that was read or parsed is to be used: the phases before the reading, and those of a failure. -/
def RefreshPhase.emptyHanded : RefreshPhase env registryId → Bool
  | .acquiring => true
  | .reading => true
  | .fetching _ => true
  | .parsed _ _ => true
  | .failing => true
  | .cooling => true
  | .completing => true
  | _ => false

/-- What was read from the cache and may be put back. -/
def SnapshotPhase.held : SnapshotPhase env registryId → Option (CachedRegistry env registryId)
  | .leading (.requesting previous) => previous
  | .leading (.notModified previous) => some previous
  | .leading (.deferring stale) => some stale
  | _ => none

/-- The revision is installed, and its snapshot is not in the cache yet. -/
def SnapshotPhase.writes : SnapshotPhase env registryId → Bool
  | .leading (.installed _ _) => true
  | .leading (.warmed _ _) => true
  | _ => false

variable {phase : RefreshPhase env registryId}

theorem RefreshPhase.writes_of_not_accepted (h : phase.accepted = false) :
    (SnapshotPhase.leading phase).writes = false := by
  cases phase with
  | installed p etag => cases h
  | warmed p etag => cases h
  | acquiring => rfl
  | reading => rfl
  | requesting previous => rfl
  | fetching etag => rfl
  | notModified previous => rfl
  | parsed p etag => rfl
  | checked p etag => rfl
  | failing => rfl
  | deferring stale => rfl
  | cooling => rfl
  | completing => rfl
  | returning p => rfl

variable {phase : SnapshotPhase env registryId}

theorem SnapshotPhase.leads_of_writes (h : phase.writes = true) : phase.leads = true := by
  cases phase with
  | leading p => rfl
  | start => cases h
  | missed now => cases h
  | cold now => cases h
  | electing => cases h
  | following leader => cases h
  | done result => cases h
  | decided => cases h
  | dropped => cases h

theorem SnapshotPhase.leads_of_held {c : CachedRegistry env registryId} (h : phase.held = some c) : phase.leads = true := by
  cases phase with
  | leading p => rfl
  | start => cases h
  | missed now => cases h
  | cold now => cases h
  | electing => cases h
  | following leader => cases h
  | done result => cases h
  | decided => cases h
  | dropped => cases h

theorem RefreshPhase.held_of_emptyHanded {phase : RefreshPhase env registryId} (h : phase.emptyHanded = true) :
    (SnapshotPhase.leading phase).held = none := by
  cases phase with
  | requesting previous => cases h
  | notModified previous => cases h
  | deferring stale => cases h
  | acquiring => rfl
  | reading => rfl
  | fetching etag => rfl
  | parsed p etag => rfl
  | checked p etag => rfl
  | installed p etag => rfl
  | warmed p etag => rfl
  | failing => rfl
  | cooling => rfl
  | completing => rfl
  | returning p => rfl

/-- What a caller can do in one step: to the registry, and to where it stands. -/
inductive Moves (reg : RegistryState env registryId) (i : Nat) :
    SnapshotPhase env registryId → RegistryState env registryId → SnapshotPhase env registryId → Prop where
  | hit {cached : CachedRegistry env registryId} : reg.cache = some cached → Moves reg i .start reg (.done (some cached.registry))
  | idle {phase phase' : SnapshotPhase env registryId} : phase.leads = false → phase'.leads = false →
      (∀ p, phase' ≠ .done (some p)) →
      Moves reg i phase reg phase'
  | lead : reg.leader = none → Moves reg i .electing { reg with leader := some i } (.leading .acquiring)
  | work {phase phase' : RefreshPhase env registryId} : phase.accepted = false → phase'.emptyHanded = true →
      Moves reg i (.leading phase) reg (.leading phase')
  | read : Moves reg i (.leading .reading) reg (.leading (.requesting reg.cache))
  | unmodified {previous : CachedRegistry env registryId} :
      Moves reg i (.leading (.requesting (some previous))) reg (.leading (.notModified previous))
  | check {p : ParsedRegistry env registryId} {etag : Option String} : reg.accepts p = true →
      Moves reg i (.leading (.parsed p etag)) reg (.leading (.checked p etag))
  | install {p : ParsedRegistry env registryId} {etag : Option String} :
      Moves reg i (.leading (.checked p etag)) { reg with installed := some p.revision, installs := p :: reg.installs }
        (.leading (.installed p etag))
  | warm {p : ParsedRegistry env registryId} {etag : Option String} :
      Moves reg i (.leading (.installed p etag)) { reg with coldRetryAfter := none } (.leading (.warmed p etag))
  | store {p : ParsedRegistry env registryId} {etag : Option String} {t : Instant} :
      Moves reg i (.leading (.warmed p etag)) { reg with cache := some ⟨p, etag, t⟩ } (.leading (.returning p))
  | renew {phase : RefreshPhase env registryId} {c : CachedRegistry env registryId} {t : Instant} :
      phase = .notModified c ∨ phase = .deferring c →
      Moves reg i (.leading phase) { reg with cache := some { c with refreshAfter := t } } (.leading (.returning c.registry))
  | defer {stale : CachedRegistry env registryId} : reg.cache = some stale →
      Moves reg i (.leading .failing) reg (.leading (.deferring stale))
  | cool {t : Instant} : Moves reg i (.leading .cooling) { reg with coldRetryAfter := some t } (.leading .completing)
  | fail : Moves reg i (.leading .completing) { reg with leader := none } (.done none)
  | finish {p : ParsedRegistry env registryId} : Moves reg i (.leading (.returning p)) { reg with leader := none }
      (.done (some p))
  /-- A leader that is cancelled: nobody cancels one that has begun to write. -/
  | drop {phase : RefreshPhase env registryId} : phase.accepted = false →
      Moves reg i (.leading phase) { reg with leader := none } .dropped

namespace RegistryState

variable {reg reg' : RegistryState env registryId} {i : Nat}

theorem emptyHanded_fetched (etag : Option String) (body : Bytes) : (fetched env registryId etag body).emptyHanded = true := by
  unfold fetched
  split
  · rfl
  · split
    · rfl
    · rfl

theorem refresh_moves {permitFree : Bool} {phase : RefreshPhase env registryId} {input : AuthInput}
    {phase' : SnapshotPhase env registryId} (h : reg.refresh permitFree phase input = some (reg', phase')) :
    Moves reg i (.leading phase) reg' phase' := by
  unfold refresh at h
  split at h
  · cases h
    refine .work rfl ?_
    split
    · rfl
    · rfl
  · cases h
    exact .read
  · split at h
    · cases h
      refine .work rfl ?_
      split
      · rfl
      · rfl
    · cases h
      exact .unmodified
    · cases h
      exact .work rfl rfl
    · cases h
      exact .work rfl rfl
  · split at h
    · cases h
      exact .work rfl rfl
    · cases h
      exact .work rfl (emptyHanded_fetched _ _)
  · cases h
    exact .renew (Or.inl rfl)
  · cases h
    split
    · rename_i haccepts
      exact .check haccepts
    · exact .work rfl rfl
  · cases h
    exact .install
  · cases h
    exact .warm
  · cases h
    exact .store
  · split at h
    · rename_i stale hcache
      cases h
      exact .defer hcache
    · cases h
      exact .work rfl rfl
  · cases h
    exact .renew (Or.inr rfl)
  · cases h
    exact .cool
  · cases h
    exact .fail
  · cases h
    exact .finish
  · cases h

theorem advance_moves {permitFree : Bool} {flights : Nat → Option FlightEnd} {phase phase' : SnapshotPhase env registryId}
    {input : AuthInput} (h : reg.advance permitFree flights i phase input = some (reg', phase')) :
      Moves reg i phase reg' phase' := by
  unfold advance at h
  split at h
  · split at h
    · rename_i cached hcache
      cases h
      split
      · exact .hit hcache
      · exact .idle rfl rfl (by simp)
    · cases h
      exact .idle rfl rfl (by simp)
  · cases h
    split
    · exact .idle rfl rfl (by simp)
    · exact .idle rfl rfl (by simp)
  · cases h
    split
    · exact .idle rfl rfl (by simp)
    · exact .idle rfl rfl (by simp)
  · split at h
    · cases h
      exact .idle rfl rfl (by simp)
    · rename_i hleader
      cases h
      exact .lead hleader
  · split at h
    · cases h
    · cases h
      exact .idle rfl rfl (by simp)
    · cases h
      exact .idle rfl rfl (by simp)
  · exact refresh_moves h
  · cases h

end RegistryState

/-! ## What is installed -/

/-- A snapshot that may follow another: of a greater revision, or of the same and from a body with the same digest. -/
def ParsedRegistry.Supersedes (p q : ParsedRegistry env registryId) : Prop :=
  q.snapshot.revision ≤ p.snapshot.revision ∧
    (q.snapshot.revision = p.snapshot.revision → env.sha256 q.body = env.sha256 p.body)

namespace RegistryState

variable {reg reg' : RegistryState env registryId} {i : Nat} {phase phase' : SnapshotPhase env registryId}

/-- The snapshot was installed, and its revision is the installed one. -/
def Current (reg : RegistryState env registryId) (p : ParsedRegistry env registryId) : Prop :=
  p ∈ reg.installs ∧ reg.installed = some p.revision

/-- What is kept of a registry, without the times before which nothing is tried again. -/
def kept (reg : RegistryState env registryId) :
    Option InstalledRevision × Option (ParsedRegistry env registryId × Option String) :=
  (reg.installed, reg.cache.map fun cached => (cached.registry, cached.etag))

/-- The installed revision is that of the last snapshot installed, and each superseded those before it. -/
structure Recorded (reg : RegistryState env registryId) : Prop where
  last : reg.installed = reg.installs.head?.map ParsedRegistry.revision
  order : reg.installs.Pairwise ParsedRegistry.Supersedes

theorem Recorded.new : Recorded (RegistryState.new : RegistryState env registryId) := ⟨rfl, List.Pairwise.nil⟩

variable {p : ParsedRegistry env registryId}

theorem le_of_accepts {v : InstalledRevision} (haccepts : reg.accepts p = true)
    (hv : reg.installed = some v) : v.revision ≤ p.snapshot.revision := by
  simp only [accepts, hv, Bool.and_eq_true, Bool.not_eq_true', decide_eq_false_iff_not, UInt64.not_lt] at haccepts
  exact haccepts.1

/-- What is accepted supersedes everything installed so far. -/
theorem Recorded.supersedes (h : reg.Recorded) (haccepts : reg.accepts p = true) :
    ∀ q ∈ reg.installs, p.Supersedes q := by
  obtain ⟨hlast, horder⟩ := h
  cases hinstalls : reg.installs with
  | nil => exact fun q hq => absurd hq List.not_mem_nil
  | cons newest older =>
    rw [hinstalls] at hlast horder
    have hnewest : p.Supersedes newest := by
      simp only [accepts, hlast, List.head?_cons, Option.map_some, ParsedRegistry.revision, Bool.and_eq_true, Bool.not_eq_true',
        decide_eq_false_iff_not, UInt64.not_lt, Bool.and_eq_false_iff, beq_eq_false_iff_ne, bne_eq_false_iff_eq] at haccepts
      refine ⟨haccepts.1, fun heq => ?_⟩
      rcases haccepts.2 with hne | hsame
      · exact absurd heq.symm hne
      · exact hsame.symm
    intro q hq
    rcases List.mem_cons.mp hq with rfl | hq
    · exact hnewest
    · obtain ⟨hle, hsame⟩ := (List.pairwise_cons.mp horder).1 q hq
      refine ⟨UInt64.le_trans hle hnewest.1, fun heq => ?_⟩
      have hmiddle : q.snapshot.revision = newest.snapshot.revision := UInt64.le_antisymm hle (heq ▸ hnewest.1)
      exact (hsame hmiddle).trans (hnewest.2 (hmiddle ▸ heq))

theorem Recorded.installed (h : reg.Recorded) (haccepts : reg.accepts p = true) :
    Recorded { reg with installed := some p.revision, installs := p :: reg.installs } where
  last := rfl
  order := List.pairwise_cons.mpr ⟨h.supersedes haccepts, h.order⟩

end RegistryState

/-! ## What a caller has in hand -/

/-- What the leader of a refresh has read is current, until it installs something else, which is current then. -/
def RefreshPhase.Ok (reg : RegistryState env registryId) : RefreshPhase env registryId → Prop
  | .requesting (some previous) => reg.Current previous.registry
  | .notModified previous => reg.Current previous.registry
  | .deferring stale => reg.Current stale.registry
  | .checked p _ => reg.accepts p = true
  | .installed p _ => reg.Current p
  | .warmed p _ => reg.Current p
  | .returning p => reg.Current p
  | _ => True

/-- What is returned was installed once. -/
def SnapshotPhase.Ok (reg : RegistryState env registryId) : SnapshotPhase env registryId → Prop
  | .leading phase => phase.Ok reg
  | .done (some p) => p ∈ reg.installs
  | _ => True

theorem RefreshPhase.ok_of_emptyHanded {phase : RefreshPhase env registryId} {reg : RegistryState env registryId}
    (h : phase.emptyHanded = true) : phase.Ok reg := by
  cases phase with
  | acquiring => trivial
  | reading => trivial
  | requesting previous => cases h
  | fetching etag => trivial
  | notModified previous => cases h
  | parsed p etag => trivial
  | checked p etag => cases h
  | installed p etag => cases h
  | warmed p etag => cases h
  | failing => trivial
  | deferring stale => cases h
  | cooling => trivial
  | completing => trivial
  | returning p => cases h

theorem SnapshotPhase.ok_of_idle {reg : RegistryState env registryId}
    (hleads : phase.leads = false) (hdone : ∀ p, phase ≠ .done (some p)) : phase.Ok reg := by
  cases phase with
  | leading p => cases hleads
  | done result =>
    cases result with
    | none => trivial
    | some p => exact absurd rfl (hdone p)
  | start => trivial
  | missed now => trivial
  | cold now => trivial
  | electing => trivial
  | following leader => trivial
  | decided => trivial
  | dropped => trivial

/-- What a caller has in hand depends on what is installed only. -/
theorem SnapshotPhase.Ok.congr {reg reg' : RegistryState env registryId} (h : phase.Ok reg)
    (hinstalled : reg'.installed = reg.installed) (hinstalls : reg'.installs = reg.installs) : phase.Ok reg' := by
  have hcurrent : ∀ p, reg.Current p → reg'.Current p := fun p hp => ⟨hinstalls ▸ hp.1, hinstalled.trans hp.2⟩
  cases phase with
  | leading phase =>
    cases phase with
    | requesting previous =>
      cases previous with
      | none => trivial
      | some previous => exact hcurrent _ h
    | notModified previous => exact hcurrent _ h
    | deferring stale => exact hcurrent _ h
    | checked p etag =>
      have haccepts : reg'.accepts p = reg.accepts p := by
        unfold RegistryState.accepts
        rw [hinstalled]
      exact haccepts.trans h
    | installed p etag => exact hcurrent _ h
    | warmed p etag => exact hcurrent _ h
    | returning p => exact hcurrent _ h
    | acquiring => trivial
    | reading => trivial
    | fetching etag => trivial
    | parsed p etag => trivial
    | failing => trivial
    | cooling => trivial
    | completing => trivial
  | done result =>
    cases result with
    | none => trivial
    | some p =>
      show p ∈ reg'.installs
      rw [hinstalls]
      exact h
  | start => trivial
  | missed now => trivial
  | cold now => trivial
  | electing => trivial
  | following leader => trivial
  | decided => trivial
  | dropped => trivial

/-- A caller that leads nothing keeps what it has when more is installed. -/
theorem SnapshotPhase.Ok.mono {reg reg' : RegistryState env registryId} (h : phase.Ok reg)
    (hleads : phase.leads = false) (hinstalls : ∀ p ∈ reg.installs, p ∈ reg'.installs) : phase.Ok reg' := by
  cases phase with
  | leading phase => cases hleads
  | done result =>
    cases result with
    | none => trivial
    | some p => exact hinstalls p h
  | start => trivial
  | missed now => trivial
  | cold now => trivial
  | electing => trivial
  | following leader => trivial
  | decided => trivial
  | dropped => trivial

/-! ## What a move does -/

namespace Moves

variable {reg reg' : RegistryState env registryId} {i : Nat} {phase phase' : SnapshotPhase env registryId}

/-- A move leaves the leadership as it is, takes it when nobody has it, or gives it up. -/
theorem leader_cases (h : Moves reg i phase reg' phase') :
    (reg'.leader = reg.leader ∧ phase'.leads = phase.leads) ∨
      (reg.leader = none ∧ reg'.leader = some i ∧ phase.leads = false ∧ phase'.leads = true) ∨
      (reg'.leader = none ∧ phase.leads = true ∧ phase'.leads = false) := by
  cases h with
  | hit hcache => exact Or.inl ⟨rfl, rfl⟩
  | idle hleads hleads' hdone => exact Or.inl ⟨rfl, hleads'.trans hleads.symm⟩
  | lead hnone => exact Or.inr (Or.inl ⟨hnone, rfl, rfl, rfl⟩)
  | fail => exact Or.inr (Or.inr ⟨rfl, rfl, rfl⟩)
  | finish => exact Or.inr (Or.inr ⟨rfl, rfl, rfl⟩)
  | drop hphase => exact Or.inr (Or.inr ⟨rfl, rfl, rfl⟩)
  | work hphase hphase' => exact Or.inl ⟨rfl, rfl⟩
  | read => exact Or.inl ⟨rfl, rfl⟩
  | unmodified => exact Or.inl ⟨rfl, rfl⟩
  | check haccepts => exact Or.inl ⟨rfl, rfl⟩
  | install => exact Or.inl ⟨rfl, rfl⟩
  | warm => exact Or.inl ⟨rfl, rfl⟩
  | store => exact Or.inl ⟨rfl, rfl⟩
  | renew hphase => exact Or.inl ⟨rfl, rfl⟩
  | defer hcache => exact Or.inl ⟨rfl, rfl⟩
  | cool => exact Or.inl ⟨rfl, rfl⟩

/-- Only a leader whose refresh was checked installs. -/
theorem installed_cases (h : Moves reg i phase reg' phase') :
    (reg'.installed = reg.installed ∧ reg'.installs = reg.installs) ∨
      ∃ p etag, phase = .leading (.checked p etag) ∧ phase' = .leading (.installed p etag) ∧ reg'.cache = reg.cache ∧
        reg'.installed = some p.revision ∧ reg'.installs = p :: reg.installs := by
  cases h with
  | install => exact Or.inr ⟨_, _, rfl, rfl, rfl, rfl, rfl⟩
  | hit hcache => exact Or.inl ⟨rfl, rfl⟩
  | idle hleads hleads' hdone => exact Or.inl ⟨rfl, rfl⟩
  | lead hnone => exact Or.inl ⟨rfl, rfl⟩
  | fail => exact Or.inl ⟨rfl, rfl⟩
  | finish => exact Or.inl ⟨rfl, rfl⟩
  | drop hphase => exact Or.inl ⟨rfl, rfl⟩
  | work hphase hphase' => exact Or.inl ⟨rfl, rfl⟩
  | read => exact Or.inl ⟨rfl, rfl⟩
  | unmodified => exact Or.inl ⟨rfl, rfl⟩
  | check haccepts => exact Or.inl ⟨rfl, rfl⟩
  | warm => exact Or.inl ⟨rfl, rfl⟩
  | store => exact Or.inl ⟨rfl, rfl⟩
  | renew hphase => exact Or.inl ⟨rfl, rfl⟩
  | defer hcache => exact Or.inl ⟨rfl, rfl⟩
  | cool => exact Or.inl ⟨rfl, rfl⟩

/-- What is put into the cache: the snapshot that was installed, or one that was read from the cache, with another time. -/
theorem cache_cases (h : Moves reg i phase reg' phase') :
    (reg'.cache = reg.cache ∧ (phase.writes = true → phase'.writes = true)) ∨
      (∃ p etag t, phase = .leading (.warmed p etag) ∧ reg'.cache = some ⟨p, etag, t⟩) ∨
      ∃ refresh c t, phase = .leading refresh ∧ (refresh = .notModified c ∨ refresh = .deferring c) ∧
        reg'.cache = some { c with refreshAfter := t } := by
  cases h with
  | store => exact Or.inr (Or.inl ⟨_, _, _, rfl, rfl⟩)
  | renew hphase => exact Or.inr (Or.inr ⟨_, _, _, rfl, hphase, rfl⟩)
  | warm => exact Or.inl ⟨rfl, fun _ => rfl⟩
  | install => exact Or.inl ⟨rfl, fun _ => rfl⟩
  | hit hcache => exact Or.inl ⟨rfl, fun h => by cases h⟩
  | idle hleads hleads' hdone =>
    refine Or.inl ⟨rfl, fun hwrites => ?_⟩
    rw [SnapshotPhase.leads_of_writes hwrites] at hleads
    cases hleads
  | lead hnone => exact Or.inl ⟨rfl, fun h => by cases h⟩
  | fail => exact Or.inl ⟨rfl, fun h => by cases h⟩
  | finish => exact Or.inl ⟨rfl, fun h => by cases h⟩
  | work hphase hphase' =>
    refine Or.inl ⟨rfl, fun hwrites => ?_⟩
    rw [RefreshPhase.writes_of_not_accepted hphase] at hwrites
    cases hwrites
  | drop hphase =>
    refine Or.inl ⟨rfl, fun hwrites => ?_⟩
    rw [RefreshPhase.writes_of_not_accepted hphase] at hwrites
    cases hwrites
  | read => exact Or.inl ⟨rfl, fun h => by cases h⟩
  | unmodified => exact Or.inl ⟨rfl, fun h => by cases h⟩
  | check haccepts => exact Or.inl ⟨rfl, fun h => by cases h⟩
  | defer hcache => exact Or.inl ⟨rfl, fun h => by cases h⟩
  | cool => exact Or.inl ⟨rfl, fun h => by cases h⟩

theorem recorded (h : Moves reg i phase reg' phase') (hrecorded : reg.Recorded) (hok : phase.Ok reg) : reg'.Recorded := by
  rcases h.installed_cases with ⟨hinstalled, hinstalls⟩ | ⟨p, etag, rfl, -, -, hinstalled, hinstalls⟩
  · exact ⟨by rw [hinstalled, hinstalls]; exact hrecorded.last, hinstalls ▸ hrecorded.order⟩
  · have hnext := hrecorded.installed hok
    exact ⟨by rw [hinstalled, hinstalls]; rfl, hinstalls ▸ hnext.order⟩

/-- A caller that reads the cache takes what was installed, and a leader what is current. -/
theorem ok (h : Moves reg i phase reg' phase') (hok : phase.Ok reg)
    (hcached : ∀ cached, reg.cache = some cached → cached.registry ∈ reg.installs)
    (hcurrent : phase.leads = true → phase.writes = false → ∀ cached, reg.cache = some cached → reg.Current cached.registry) :
    phase'.Ok reg' := by
  cases h with
  | hit hcache => exact hcached _ hcache
  | idle hleads hleads' hdone => exact SnapshotPhase.ok_of_idle hleads' hdone
  | lead hnone => trivial
  | work hphase hphase' => exact RefreshPhase.ok_of_emptyHanded hphase'
  | read =>
    cases hcache : reg.cache with
    | none => trivial
    | some cached =>
      simp only [SnapshotPhase.Ok]
      exact hcurrent rfl rfl cached hcache
  | unmodified => exact hok
  | check haccepts => exact haccepts
  | install => exact ⟨List.mem_cons_self, rfl⟩
  | warm => exact hok
  | store => exact hok
  | renew hphase =>
    rcases hphase with rfl | rfl
    · exact hok
    · exact hok
  | defer hcache => exact hcurrent rfl rfl _ hcache
  | cool => trivial
  | fail => trivial
  | finish => exact hok.1
  | drop hphase => trivial

/-- Nobody but the leader writes to the cache. -/
theorem cache_of_not_leads (h : Moves reg i phase reg' phase') (hleads : phase.leads = false) : reg'.cache = reg.cache := by
  rcases h.cache_cases with ⟨hcache, -⟩ | ⟨p, etag, t, rfl, -⟩ | ⟨refresh, c, t, rfl, -, -⟩
  · exact hcache
  · cases hleads
  · cases hleads

/-- What is held is what was read. -/
theorem held (h : Moves reg i phase reg' phase')
    (hheld : ∀ c, phase.held = some c → ∀ cached, reg.cache = some cached → cached = c) :
    ∀ c, phase'.held = some c → ∀ cached, reg'.cache = some cached → cached = c := by
  intro c hc cached hcached
  cases h with
  | read => exact Option.some.inj (hcached.symm.trans hc)
  | unmodified => exact hheld c hc cached hcached
  | defer hcache =>
    cases hc
    exact Option.some.inj (hcached.symm.trans hcache)
  | idle hleads hleads' hdone =>
    rw [SnapshotPhase.leads_of_held hc] at hleads'
    cases hleads'
  | work hphase hphase' =>
    rw [RefreshPhase.held_of_emptyHanded hphase'] at hc
    cases hc
  | hit hcache => cases hc
  | lead hnone => cases hc
  | check haccepts => cases hc
  | install => cases hc
  | warm => cases hc
  | store => cases hc
  | renew hphase => cases hc
  | cool => cases hc
  | fail => cases hc
  | finish => cases hc
  | drop hphase => cases hc

/-- The installed revision does not decrease. -/
theorem installed_le (h : Moves reg i phase reg' phase') (hok : phase.Ok reg) {v : InstalledRevision}
    (hv : reg.installed = some v) : ∃ v', reg'.installed = some v' ∧ v.revision ≤ v'.revision := by
  rcases h.installed_cases with ⟨hinstalled, -⟩ | ⟨p, etag, rfl, -, -, hinstalled, -⟩
  · exact ⟨v, hinstalled.trans hv, UInt64.le_refl _⟩
  · exact ⟨p.revision, hinstalled, RegistryState.le_of_accepts hok hv⟩

/-- A refresh that was not accepted changes the retry times only; at most it puts back what was evicted since it read it. -/
theorem kept {refresh : RefreshPhase env registryId} (h : Moves reg i (.leading refresh) reg' phase')
    (hrefresh : refresh.accepted = false)
    (hheld : ∀ c, (SnapshotPhase.leading refresh).held = some c → ∀ cached, reg.cache = some cached → cached = c) :
    reg'.kept = reg.kept ∨ (reg.cache = none ∧ ∃ c, (refresh = .notModified c ∨ refresh = .deferring c) ∧
      reg'.kept = (reg.installed, some (c.registry, c.etag))) := by
  have hinstalled : reg'.installed = reg.installed := by
    rcases h.installed_cases with ⟨hinstalled, -⟩ | ⟨p, etag, hphase, -, -, -, -⟩
    · exact hinstalled
    · rw [SnapshotPhase.leading.inj hphase] at hrefresh
      cases hrefresh
  rcases h.cache_cases with ⟨hcache, -⟩ | ⟨p, etag, t, hphase, -⟩ | ⟨other, c, t, hphase, hother, hcache⟩
  · left
    rw [RegistryState.kept, RegistryState.kept, hinstalled, hcache]
  · rw [SnapshotPhase.leading.inj hphase] at hrefresh
    cases hrefresh
  · obtain rfl := SnapshotPhase.leading.inj hphase
    have hkept : reg'.kept = (reg.installed, some (c.registry, c.etag)) := by
      rw [RegistryState.kept, hinstalled, hcache]
      rfl
    have hc : (SnapshotPhase.leading refresh).held = some c := by
      rcases hother with rfl | rfl
      · rfl
      · rfl
    cases hnow : reg.cache with
    | none => exact Or.inr ⟨rfl, c, hother, hkept⟩
    | some cached =>
      left
      rw [hkept, RegistryState.kept, hnow, hheld c hc cached hnow]
      rfl

/-- A refresh that was accepted does not fail. -/
theorem accepted {refresh : RefreshPhase env registryId} (h : Moves reg i (.leading refresh) reg' phase')
    (hrefresh : refresh.accepted = true) :
    ∃ refresh', phase' = .leading refresh' ∧ (refresh'.accepted = true ∨ ∃ p, refresh' = .returning p) := by
  cases h with
  | idle hleads hleads' hdone => cases hleads
  | work hphase hphase' =>
    rw [hphase] at hrefresh
    cases hrefresh
  | drop hphase =>
    rw [hphase] at hrefresh
    cases hrefresh
  | install => exact ⟨_, rfl, Or.inl rfl⟩
  | warm => exact ⟨_, rfl, Or.inl rfl⟩
  | store => exact ⟨_, rfl, Or.inr ⟨_, rfl⟩⟩
  | renew hphase => exact ⟨_, rfl, Or.inr ⟨_, rfl⟩⟩
  | read => cases hrefresh
  | unmodified => cases hrefresh
  | check haccepts => cases hrefresh
  | defer hcache => cases hrefresh
  | cool => cases hrefresh
  | fail => cases hrefresh
  | finish => cases hrefresh

/-- What was installed stays on record. -/
theorem installs_subset (h : Moves reg i phase reg' phase') : ∀ p ∈ reg.installs, p ∈ reg'.installs := by
  intro p hp
  rcases h.installed_cases with ⟨-, hinstalls⟩ | ⟨q, etag, -, -, -, -, hinstalls⟩
  · rw [hinstalls]
    exact hp
  · rw [hinstalls]
    exact List.mem_cons_of_mem q hp

end Moves

/-! ## The invariant of a registry -/

/-- What holds of a registry and of where its callers stand. -/
structure RegistryInv (reg : RegistryState env registryId) (standing : Nat → Option (SnapshotPhase env registryId)) : Prop where
  leader : ∀ j phase, standing j = some phase → phase.leads = true → reg.leader = some j
  recorded : reg.Recorded
  cached : ∀ cached, reg.cache = some cached → cached.registry ∈ reg.installs
  /-- The cache is behind what is installed only while a leader is between its writes. -/
  current : (∀ cached, reg.cache = some cached → reg.Current cached.registry) ∨
    ∃ j phase, standing j = some phase ∧ phase.writes = true
  phases : ∀ j phase, standing j = some phase → phase.Ok reg
  held : ∀ j phase c, standing j = some phase → phase.held = some c → ∀ cached, reg.cache = some cached → cached = c

namespace RegistryInv

variable {reg reg' : RegistryState env registryId} {standing : Nat → Option (SnapshotPhase env registryId)} {i j : Nat}
  {phase phase' : SnapshotPhase env registryId}

theorem new : RegistryInv (RegistryState.new : RegistryState env registryId) (fun _ => none) where
  leader := fun j phase h => by cases h
  recorded := RegistryState.Recorded.new
  cached := fun cached h => by cases h
  current := Or.inl fun cached h => by cases h
  phases := fun j phase h => by cases h
  held := fun j phase c h => by cases h

/-- There is one leader at most. -/
theorem alone (h : RegistryInv reg standing) (hi : standing i = some phase) (hleads : phase.leads = true)
    (hj : standing j = some phase') (hleads' : phase'.leads = true) : i = j :=
  Option.some.inj ((h.leader i phase hi hleads).symm.trans (h.leader j phase' hj hleads'))

/-- A leader that does not write itself finds what is current. -/
theorem current_of_leads (h : RegistryInv reg standing) (hi : standing i = some phase) (hleads : phase.leads = true)
    (hwrites : phase.writes = false) : ∀ cached, reg.cache = some cached → reg.Current cached.registry := by
  rcases h.current with hcurrent | ⟨j, phase', hj, hwrites'⟩
  · exact hcurrent
  · obtain rfl := h.alone hi hleads hj (SnapshotPhase.leads_of_writes hwrites')
    cases hi.symm.trans hj
    rw [hwrites] at hwrites'
    cases hwrites'

theorem enter (h : RegistryInv reg standing) (hj : standing j = none) :
    RegistryInv reg (Function.update standing j (some .start)) where
  leader := by
    intro k phase hk hleads
    rcases update_eq_some hk with ⟨-, heq⟩ | ⟨-, hk⟩
    · cases heq
      cases hleads
    · exact h.leader k phase hk hleads
  recorded := h.recorded
  cached := h.cached
  current := by
    refine h.current.imp_right fun hwriting => ?_
    obtain ⟨k, phase, hk, hwrites⟩ := hwriting
    have hne : k ≠ j := by
      rintro rfl
      rw [hj] at hk
      cases hk
    exact ⟨k, phase, by rw [Function.update_of_ne hne]; exact hk, hwrites⟩
  phases := by
    intro k phase hk
    rcases update_eq_some hk with ⟨-, heq⟩ | ⟨-, hk⟩
    · cases heq
      trivial
    · exact h.phases k phase hk
  held := by
    intro k phase c hk hc
    rcases update_eq_some hk with ⟨-, heq⟩ | ⟨-, hk⟩
    · cases heq
      cases hc
    · exact h.held k phase c hk hc

theorem evict (h : RegistryInv reg standing) : RegistryInv { reg with cache := none } standing where
  leader := h.leader
  recorded := ⟨h.recorded.last, h.recorded.order⟩
  cached := fun cached hcached => by cases hcached
  current := Or.inl fun cached hcached => by cases hcached
  phases := fun k phase hk => (h.phases k phase hk).congr rfl rfl
  held := fun k phase c hk hc cached hcached => by cases hcached

/-- What is in the cache after a move was installed. -/
theorem cached_moves (h : RegistryInv reg standing) (hi : standing i = some phase) (hm : Moves reg i phase reg' phase') :
    ∀ cached, reg'.cache = some cached → cached.registry ∈ reg'.installs := by
  intro cached hcached
  have hok := h.phases i phase hi
  apply hm.installs_subset
  rcases hm.cache_cases with ⟨hcache, -⟩ | ⟨p, etag, t, rfl, hcache⟩ | ⟨refresh, c, t, rfl, hrefresh, hcache⟩
  · exact h.cached cached (hcache ▸ hcached)
  · cases hcached.symm.trans hcache
    exact hok.1
  · cases hcached.symm.trans hcache
    rcases hrefresh with rfl | rfl
    · exact hok.1
    · exact hok.1

/-- A move that installs begins to write; one that puts something into the cache puts there what is current. -/
theorem current_moves (h : RegistryInv reg standing) (hi : standing i = some phase) (hm : Moves reg i phase reg' phase') :
    (∀ cached, reg'.cache = some cached → reg'.Current cached.registry) ∨
      ∃ j phase, Function.update standing i (some phase') j = some phase ∧ phase.writes = true := by
  have hok := h.phases i phase hi
  rcases hm.installed_cases with ⟨hinstalled, hinstalls⟩ | ⟨p, etag, -, rfl, -, -, -⟩
  · have hkept : ∀ p, reg.Current p → reg'.Current p := fun p hp => ⟨hinstalls ▸ hp.1, hinstalled.trans hp.2⟩
    rcases hm.cache_cases with ⟨hcache, hwrites⟩ | ⟨p, etag, t, rfl, hcache⟩ | ⟨refresh, c, t, rfl, hrefresh, hcache⟩
    · rcases h.current with hcurrent | ⟨j, other, hj, hother⟩
      · exact Or.inl fun cached hcached => hkept _ (hcurrent cached (hcache ▸ hcached))
      · -- the one that writes goes on writing, whether it is the one that moves or another
        right
        by_cases hji : j = i
        · subst hji
          cases hi.symm.trans hj
          exact ⟨j, phase', Function.update_self .., hwrites hother⟩
        · exact ⟨j, other, by rw [Function.update_of_ne hji]; exact hj, hother⟩
    · refine Or.inl fun cached hcached => hkept _ ?_
      cases hcached.symm.trans hcache
      exact hok
    · refine Or.inl fun cached hcached => hkept _ ?_
      cases hcached.symm.trans hcache
      rcases hrefresh with rfl | rfl
      · exact hok
      · exact hok
  · exact Or.inr ⟨i, _, Function.update_self .., rfl⟩

theorem moves (h : RegistryInv reg standing) (hi : standing i = some phase) (hm : Moves reg i phase reg' phase') :
    RegistryInv reg' (Function.update standing i (some phase')) where
  leader := by
    intro j other hj hleads
    rcases update_eq_some hj with ⟨rfl, heq⟩ | ⟨hji, hj⟩
    · cases heq
      rcases hm.leader_cases with ⟨hleader, hsame⟩ | ⟨-, hleader, -, -⟩ | ⟨-, -, hnot⟩
      · exact hleader.trans (h.leader j phase hi (hsame ▸ hleads))
      · exact hleader
      · rw [hnot] at hleads
        cases hleads
    · have hother := h.leader j other hj hleads
      rcases hm.leader_cases with ⟨hleader, -⟩ | ⟨hnone, -, -, -⟩ | ⟨-, hmine, -⟩
      · exact hleader.trans hother
      · rw [hnone] at hother
        cases hother
      · exact absurd (h.alone hj hleads hi hmine) hji
  recorded := hm.recorded h.recorded (h.phases i phase hi)
  cached := h.cached_moves hi hm
  current := h.current_moves hi hm
  phases := by
    intro j other hj
    rcases update_eq_some hj with ⟨rfl, heq⟩ | ⟨hji, hj⟩
    · cases heq
      exact hm.ok (h.phases j phase hi) h.cached (h.current_of_leads hi)
    · have hok := h.phases j other hj
      rcases hm.installed_cases with ⟨hinstalled, hinstalls⟩ | ⟨p, etag, rfl, -, -, -, -⟩
      · exact hok.congr hinstalled hinstalls
      · refine hok.mono ?_ hm.installs_subset
        by_contra hleads
        exact hji (h.alone hj (Bool.eq_true_of_not_eq_false hleads) hi rfl)
  held := by
    intro j other c hj hc
    rcases update_eq_some hj with ⟨rfl, heq⟩ | ⟨hji, hj⟩
    · cases heq
      exact hm.held (fun c hc => h.held j phase c hi hc) c hc
    · have hleads : phase.leads = false := by
        by_contra hleads
        exact hji (h.alone hj (SnapshotPhase.leads_of_held hc) hi (Bool.eq_true_of_not_eq_false hleads))
      rw [hm.cache_of_not_leads hleads]
      exact h.held j other c hj hc

end RegistryInv

end Biei
