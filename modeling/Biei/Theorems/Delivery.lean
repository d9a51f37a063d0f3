import Biei.Lemmas.Derived
import Biei.Theorems.Auth

/-! # Revisions of a registry -/

namespace Biei

variable {env : RegistryEnv}

/-- The grant a request was decided by. -/
def AuthDecision.grant (d : AuthDecision env) : Option CredentialGrant :=
  d.registry.snapshot.credentials.lookup (credentialDigest env.toAuthEnv d.presentation.registryId d.presentation.credential)

namespace DeliveryAuth

variable {configured : String → Bool} {s s' : DeliveryAuth env} {a : AuthAction}

/-- What was digested: the bodies that were installed, and the partitions of what was decided. -/
def digested (s : DeliveryAuth env) : Set Bytes :=
  { b | (∃ r, ∃ p ∈ (s.registries r).installs, p.body = b) ∨
    ∃ d ∈ s.decisions, partitionInput d.presentation.registryId d.presentation.credential d.registry.snapshot.revision = b }

/-- What holds in every state. -/
structure RevisionSafe (s : DeliveryAuth env) : Prop where
  /-- One refresh of a registry runs at a time. -/
  oneRefresh : ∀ (i j : Nat) (c d : AuthCaller env), s.callers[i]? = some c → s.callers[j]? = some d →
    c.presentation.registryId = d.presentation.registryId → c.phase.leads = true → d.phase.leads = true → i = j
  /-- The cached snapshot is that of the installed revision, or an older one while a leader has yet to write the newer. -/
  cached : ∀ r cached, (s.registries r).cache = some cached →
    ∃ v, (s.registries r).installed = some v ∧ cached.registry.snapshot.revision ≤ v.revision ∧
      (v = cached.registry.revision ∨ ∃ c ∈ s.callers, c.presentation.registryId = r ∧ c.phase.writes = true)
  /-- A revision that requests were decided by stands for one body. -/
  sameBody : ∀ d ∈ s.decisions, ∀ d' ∈ s.decisions, d.presentation.registryId = d'.presentation.registryId →
    d.registry.snapshot.revision = d'.registry.snapshot.revision → env.sha256 d.registry.body = env.sha256 d'.registry.body
  /-- A partition stands for one grant, of one credential in one snapshot. -/
  sameGrants : Set.InjOn env.sha256 s.digested → ∀ d ∈ s.decisions, ∀ d' ∈ s.decisions, ∀ authorized authorized',
    d.result = .ok authorized → d'.result = .ok authorized' → authorized.cachePartition = authorized'.cachePartition →
    d.presentation.registryId = d'.presentation.registryId ∧ d.presentation.credential = d'.presentation.credential ∧
      d.registry.snapshot = d'.registry.snapshot ∧ d.grant = d'.grant

/-- What holds of every step. -/
structure KeepsRevisions (s : DeliveryAuth env) (a : AuthAction) (s' : DeliveryAuth env) : Prop where
  ascending : ∀ r v, (s.registries r).installed = some v →
    ∃ v', (s'.registries r).installed = some v' ∧ v.revision ≤ v'.revision
  /-- A revision is installed by the leader of a refresh, and it is accepted then. -/
  installs : ∀ r, (s'.registries r).installed ≠ (s.registries r).installed →
    ∃ i p etag, a.caller = some i ∧ s.standing r i = some (.leading (.checked p etag)) ∧ (s.registries r).accepts p = true ∧
      (s'.registries r).installed = some p.revision
  /-- A refresh that was not accepted changes nothing but the retry times; at most it puts back what it had read from the cache,
  when that was evicted since. -/
  rejected : ∀ r i refresh, a.caller = some i → s.standing r i = some (.leading refresh) → refresh.accepted = false →
    (s'.registries r).kept = (s.registries r).kept ∨
      ((s.registries r).cache = none ∧ ∃ c, (refresh = .notModified c ∨ refresh = .deferring c) ∧
        (s.registries r).installed = some c.registry.revision ∧
        (s'.registries r).kept = ((s.registries r).installed, some (c.registry, c.etag)))
  /-- A refresh that was accepted does not fail any more. -/
  accepted : ∀ r i refresh, s.standing r i = some (.leading refresh) → refresh.accepted = true →
    ∃ refresh', s'.standing r i = some (.leading refresh') ∧ (refresh'.accepted = true ∨ ∃ p, refresh' = .returning p)

/-! ## States -/

theorem mem_callers_of_standing {r : String} {i : Nat} {phase : SnapshotPhase env r} (h : s.standing r i = some phase) :
    ∃ c ∈ s.callers, c.presentation.registryId = r ∧ (phase.writes = true → c.phase.writes = true) := by
  obtain ⟨c, hc, hphase⟩ := Option.bind_eq_some_iff.mp h
  unfold AuthCaller.phaseAt at hphase
  split at hphase
  · rename_i hr
    subst hr
    cases hphase
    exact ⟨c, List.mem_of_getElem? hc, rfl, fun hwrites => hwrites⟩
  · cases hphase

end DeliveryAuth

variable {registryId : String}

/-- The installed revision is the greatest. -/
theorem RegistryState.Recorded.le_installed {reg : RegistryState env registryId} (h : reg.Recorded)
    {p : ParsedRegistry env registryId} (hp : p ∈ reg.installs) :
    ∃ v, reg.installed = some v ∧ p.snapshot.revision ≤ v.revision := by
  obtain ⟨hlast, horder⟩ := h
  cases hinstalls : reg.installs with
  | nil =>
    rw [hinstalls] at hp
    exact absurd hp List.not_mem_nil
  | cons newest older =>
    rw [hinstalls] at hp hlast horder
    refine ⟨newest.revision, hlast, ?_⟩
    rcases List.mem_cons.mp hp with rfl | hp
    · exact UInt64.le_refl _
    · exact ((List.pairwise_cons.mp horder).1 p hp).1

/-- Two snapshots that were installed with one revision have one digest. -/
theorem RegistryState.Recorded.sameBody {reg : RegistryState env registryId} (h : reg.Recorded)
    {p q : ParsedRegistry env registryId} (hp : p ∈ reg.installs) (hq : q ∈ reg.installs)
    (heq : p.snapshot.revision = q.snapshot.revision) : env.sha256 p.body = env.sha256 q.body := by
  have hforward : reg.installs.Pairwise fun p q => p.snapshot.revision = q.snapshot.revision →
    env.sha256 p.body = env.sha256 q.body :=
    h.order.imp fun hsupersedes heq => (hsupersedes.2 heq.symm).symm
  have hbackward : reg.installs.Pairwise fun p q => q.snapshot.revision = p.snapshot.revision →
    env.sha256 q.body = env.sha256 p.body :=
    h.order.imp fun hsupersedes heq => hsupersedes.2 heq
  exact hforward.forall_of_forall_of_flip (fun _ _ _ => rfl) hbackward hp hq heq

namespace AuthInv

variable {configured : String → Bool} {s s' : DeliveryAuth env} {a : AuthAction} {d d' : AuthDecision env}

theorem sameBody (h : AuthInv configured s) (hd : d ∈ s.decisions) (hd' : d' ∈ s.decisions)
    (hid : d.presentation.registryId = d'.presentation.registryId)
    (hrevision : d.registry.snapshot.revision = d'.registry.snapshot.revision) :
    env.sha256 d.registry.body = env.sha256 d'.registry.body := by
  have hinstalled := (h.decisions d hd).1
  have hinstalled' := (h.decisions d' hd').1
  obtain ⟨⟨presented, r, credential⟩, p, result⟩ := d
  obtain ⟨⟨presented', r', credential'⟩, p', result'⟩ := d'
  obtain rfl : r = r' := hid
  exact (h.registries r).recorded.sameBody hinstalled hinstalled' hrevision

/-- The registry, the credential and the revision of a request are told from its partition. -/
theorem partition_inj (h : AuthInv configured s) (hsha : Set.InjOn env.sha256 s.digested)
    (hd : d ∈ s.decisions) (hd' : d' ∈ s.decisions) {authorized authorized' : AuthorizedDelivery}
    (hresult : d.result = .ok authorized) (hresult' : d'.result = .ok authorized')
    (hpartition : authorized.cachePartition = authorized'.cachePartition) :
    d.presentation.registryId = d'.presentation.registryId ∧ d.presentation.credential = d'.presentation.credential ∧
      d.registry.snapshot.revision = d'.registry.snapshot.revision := by
  obtain ⟨headers, query, requiredNamespace, action, hpresent, hdecide⟩ := (h.decisions d hd).2
  obtain ⟨headers', query', requiredNamespace', action', hpresent', hdecide'⟩ := (h.decisions d' hd').2
  obtain ⟨-, -, -, -, hcache⟩ := decideRequest_ok (hdecide.symm.trans hresult)
  obtain ⟨-, -, -, -, hcache'⟩ := decideRequest_ok (hdecide'.symm.trans hresult')
  obtain ⟨hid, hcredential⟩ := size_of_parseTokenEnvelope (present_ok hpresent).2.1
  obtain ⟨hid', hcredential'⟩ := size_of_parseTokenEnvelope (present_ok hpresent').2.1
  rw [hcache, hcache'] at hpartition
  have hinput := hsha (Or.inr ⟨d, hd, rfl⟩) (Or.inr ⟨d', hd', rfl⟩) hpartition
  exact partitionInput_inj hid hid' hcredential hcredential' hinput

/-- Two decisions of one registry by bodies with one digest are by one snapshot. -/
theorem snapshot_eq (h : AuthInv configured s) (hsha : Set.InjOn env.sha256 s.digested)
    (hd : d ∈ s.decisions) (hd' : d' ∈ s.decisions) (hid : d.presentation.registryId = d'.presentation.registryId)
    (hrevision : d.registry.snapshot.revision = d'.registry.snapshot.revision) : d.registry.snapshot = d'.registry.snapshot := by
  have hbody : d.registry.body = d'.registry.body :=
    hsha (Or.inl ⟨_, _, (h.decisions d hd).1, rfl⟩) (Or.inl ⟨_, _, (h.decisions d' hd').1, rfl⟩) (h.sameBody hd hd' hid hrevision)
  obtain ⟨⟨presented, r, credential⟩, ⟨body, snapshot, hparsed⟩, result⟩ := d
  obtain ⟨⟨presented', r', credential'⟩, ⟨body', snapshot', hparsed'⟩, result'⟩ := d'
  obtain rfl : r = r' := hid
  obtain rfl : body = body' := hbody
  exact Except.ok.inj (hparsed.symm.trans hparsed')

theorem revisionSafe (h : AuthInv configured s) : s.RevisionSafe where
  oneRefresh := by
    intro i j c d hi hj hid hc hd
    have hstands := DeliveryAuth.standing_self hi
    have hstands' := DeliveryAuth.standing_self hj
    obtain ⟨headers, ⟨presented, r, credential⟩, requiredNamespace, action, phase⟩ := c
    obtain ⟨headers', ⟨presented', r', credential'⟩, requiredNamespace', action', phase'⟩ := d
    obtain rfl : r = r' := hid
    exact (h.registries r).alone hstands hc hstands' hd
  cached := by
    intro r cached hcached
    have hinv := h.registries r
    obtain ⟨v, hv, hle⟩ := hinv.recorded.le_installed (hinv.cached cached hcached)
    refine ⟨v, hv, hle, ?_⟩
    rcases hinv.current with hcurrent | ⟨j, phase, hj, hwrites⟩
    · exact Or.inl (Option.some.inj (hv.symm.trans (hcurrent cached hcached).2))
    · obtain ⟨c, hc, hr, hphase⟩ := DeliveryAuth.mem_callers_of_standing hj
      exact Or.inr ⟨c, hc, hr, hphase hwrites⟩
  sameBody := fun _ hd _ hd' hid hrevision => h.sameBody hd hd' hid hrevision
  sameGrants := by
    intro hsha d hd d' hd' authorized authorized' hresult hresult' hpartition
    obtain ⟨hid, hcredential, hrevision⟩ := h.partition_inj hsha hd hd' hresult hresult' hpartition
    have hsnapshot := h.snapshot_eq hsha hd hd' hid hrevision
    refine ⟨hid, hcredential, hsnapshot, ?_⟩
    rw [AuthDecision.grant, AuthDecision.grant, hsnapshot, hid, hcredential]

/-! ## Steps -/

theorem ascending (h : AuthInv configured s) (hs : DeliveryAuth.step env configured s a = some s') (r : String)
    (v : InstalledRevision) (hv : (s.registries r).installed = some v) :
    ∃ v', (s'.registries r).installed = some v' ∧ v.revision ≤ v'.revision := by
  rcases DeliveryAuth.step_registry hs r with ⟨hreg, -⟩ | ⟨hreg, -⟩ | ⟨i, phase, phase', -, hi, hmoves, -⟩ | ⟨-, hreg, -⟩
  · rw [hreg]
    exact ⟨v, hv, UInt64.le_refl _⟩
  · rw [hreg]
    exact ⟨v, hv, UInt64.le_refl _⟩
  · exact hmoves.installed_le ((h.registries r).phases i phase hi) hv
  · rw [hreg]
    exact ⟨v, hv, UInt64.le_refl _⟩

theorem keepsRevisions (h : AuthInv configured s) (hs : DeliveryAuth.step env configured s a = some s') :
    s.KeepsRevisions a s' where
  ascending := h.ascending hs
  installs := by
    intro r hne
    rcases DeliveryAuth.step_registry hs r with ⟨hreg, -⟩ | ⟨hreg, -⟩ | ⟨i, phase, phase', hcaller, hi, hmoves, -⟩ | ⟨-, hreg, -⟩
    · exact absurd (by rw [hreg]) hne
    · exact absurd (by rw [hreg]) hne
    · rcases hmoves.installed_cases with ⟨hinstalled, -⟩ | ⟨p, etag, rfl, -, -, hinstalled, -⟩
      · exact absurd hinstalled hne
      · exact ⟨i, p, etag, hcaller, hi, (h.registries r).phases i _ hi, hinstalled⟩
    · exact absurd (by rw [hreg]) hne
  rejected := by
    intro r i refresh hcaller hi hrefresh
    rcases DeliveryAuth.step_registry hs r with ⟨hreg, -⟩ | ⟨hreg, -⟩ | ⟨j, phase, phase', hcaller', hj, hmoves, -⟩ | ⟨rfl, -, -⟩
    · exact Or.inl (by rw [hreg])
    · exact Or.inl (by rw [hreg])
    · cases hcaller.symm.trans hcaller'
      cases hi.symm.trans hj
      refine (hmoves.kept hrefresh fun c hc => (h.registries r).held i _ c hi hc).imp_right ?_
      rintro ⟨hnone, c, hphase, hkept⟩
      have hok := (h.registries r).phases i _ hi
      rcases hphase with rfl | rfl
      · exact ⟨hnone, c, Or.inl rfl, hok.2, hkept⟩
      · exact ⟨hnone, c, Or.inr rfl, hok.2, hkept⟩
    · cases hcaller
  accepted := by
    intro r i refresh hi hrefresh
    rcases DeliveryAuth.step_registry hs r with ⟨-, hstanding⟩ | ⟨-, j, hj, hstanding⟩ | ⟨j, phase, phase', -, hj, hmoves,
      hstanding⟩ |
      ⟨-, -, hstanding⟩
    · exact ⟨refresh, hstanding ▸ hi, Or.inl hrefresh⟩
    · have hne : i ≠ j := by
        rintro rfl
        rw [hj] at hi
        cases hi
      rw [hstanding, Function.update_of_ne hne]
      exact ⟨refresh, hi, Or.inl hrefresh⟩
    · rw [hstanding]
      by_cases hij : i = j
      · subst hij
        cases hi.symm.trans hj
        obtain ⟨refresh', rfl, hnext⟩ := hmoves.accepted hrefresh
        exact ⟨refresh', Function.update_self .., hnext⟩
      · rw [Function.update_of_ne hij]
        exact ⟨refresh, hi, Or.inl hrefresh⟩
    · exact ⟨refresh, hstanding ▸ hi, Or.inl hrefresh⟩

/-- Along a run the installed revision does not decrease. -/
theorem ascending_run (h : AuthInv configured s) {actions : List AuthAction}
    (hrun : (DeliveryAuth.machine env configured).run s actions = some s') (r : String) (v : InstalledRevision)
    (hv : (s.registries r).installed = some v) : ∃ v', (s'.registries r).installed = some v' ∧ v.revision ≤ v'.revision := by
  induction actions generalizing s v with
  | nil =>
    cases hrun
    exact ⟨v, hv, UInt64.le_refl _⟩
  | cons a actions ih =>
    obtain ⟨u, hu, hrest⟩ := Option.bind_eq_some_iff.mp hrun
    obtain ⟨w, hw, hvw⟩ := h.ascending hu r v hv
    obtain ⟨v', hv', hwv'⟩ := ih (h.step hu) hrest w hw
    exact ⟨v', hv', UInt64.le_trans hvw hwv'⟩

end AuthInv

/-- Over any interleaving of callers with what the object store answers, what is evicted and who is cancelled: in every state one
refresh of a registry runs at most, what is cached is what is installed but between the writes of a leader, and decisions of one
revision are by one body, those of one partition by one grant; every step keeps the installed revision or increases it, and leaves
it and the cached snapshot as they are when the refresh was not accepted; and so the revision does not decrease along any run. -/
theorem registry_revision_safe (env : RegistryEnv) (configured : String → Bool) {s : DeliveryAuth env}
    (h : (DeliveryAuth.machine env configured).Reachable s) :
    s.RevisionSafe ∧ (∀ a s', DeliveryAuth.step env configured s a = some s' → s.KeepsRevisions a s') ∧
      ∀ actions s', (DeliveryAuth.machine env configured).run s actions = some s' →
        ∀ r v, (s.registries r).installed = some v → ∃ v', (s'.registries r).installed = some v' ∧ v.revision ≤ v'.revision := by
  have hinv := AuthInv.reachable h
  exact ⟨hinv.revisionSafe, fun a s' hs => hinv.keepsRevisions hs, fun actions s' hrun => hinv.ascending_run hrun⟩

/-! ## A registry of two revisions -/

/-- The registry of `letterX` at the next revision. -/
def letterXNextBody : Bytes :=
  utf8 ("\x7b\"schema_version\":1,\"registry_id\":\"a\",\"revision\":8,\"credentials\":[\x7b\"credential_sha256\":\"" ++
    letterX.hex ++
    "\",\"principal_id\":\"tester\",\"enabled\":true,\"namespaces\":[\"maps\"],\"actions\":[\"render.static\"]," ++
    "\"allow_missing_origin\":false\x7d]\x7d")

def letterXBodyDigest : Digest :=
  #v[110, 167, 114, 158, 101, 18, 142, 81, 222, 39, 75, 118, 102, 86, 222, 111,
    15, 172, 76, 102, 28, 170, 223, 137, 197, 104, 232, 109, 48, 10, 36, 16]

def letterXNextBodyDigest : Digest :=
  #v[232, 77, 194, 195, 243, 201, 141, 83, 55, 169, 174, 237, 251, 204, 140, 87,
    79, 39, 130, 192, 114, 170, 14, 14, 254, 17, 24, 234, 52, 255, 42, 41]

/-- The digests of the two bodies, of the credential and of its partition. -/
def twoRevisions : RegistryEnv where
  urlParse := fun _ => none
  formUrlencodedParse := fun _ => []
  sha256 := fun bytes =>
    if bytes = letterX.body then letterXBodyDigest
    else if bytes = letterXNextBody then letterXNextBodyDigest
    else if bytes.take digestDomain.length = digestDomain then letterX.digest
    else letterX.partition
  registryFromSlice := fun body =>
    if body = letterX.body then .ok letterX.wire
    else if body = letterXNextBody then .ok { letterX.wire with revision := 8 }
    else .error "parse auth registry JSON"

def presentLetterX : AuthAction := .authorize letterX.headers none (some "maps") .renderStatic

/-- A refresh, from the election to the answer of the object store, and what is installed. -/
def refreshActions (i : Nat) (body : Bytes) : List AuthAction :=
  [.advance i .go, .advance i .go, .advance i .go, .advance i (.answer (.ok 274 none)), .advance i (.body (some body)),
    .advance i .go, .advance i .go]

/-- The first revision is loaded and decides two requests. -/
def twoRequests : List AuthAction :=
  [presentLetterX, .advance 0 (.clock 0), .advance 0 .go, .advance 0 .go] ++ refreshActions 0 letterX.body ++
    [.advance 0 .go, .advance 0 (.clock 0), .advance 0 .go, .decide 0, presentLetterX, .advance 1 (.clock 1), .decide 1]

/-- A third request, after the refresh interval, finds the next revision. -/
def nextRevision : List AuthAction :=
  [presentLetterX, .advance 2 (.clock refreshInterval), .advance 2 .go] ++ refreshActions 2 letterXNextBody

/-- A third request, after the refresh interval, finds the store failing; by then the cache has lost what was read of it. -/
def failedRefresh : List AuthAction :=
  [presentLetterX, .advance 2 (.clock refreshInterval), .advance 2 .go, .advance 2 .go, .advance 2 .go, .advance 2 .go,
    .advance 2 (.answer .failed), .advance 2 .go, .evict "a"]

def twoRevisionsMachine : Machine (DeliveryAuth twoRevisions) AuthAction := DeliveryAuth.machine twoRevisions fun id => id == "a"

theorem twoRevisions_body (p : ParsedRegistry twoRevisions registryId) :
    p.body = letterX.body ∨ p.body = letterXNextBody := by
  obtain ⟨wire, hwire, -⟩ := Except.bind_eq_ok_iff.mp p.parsed
  simp only [twoRevisions] at hwire
  split at hwire
  · exact Or.inl ‹_›
  · split at hwire
    · exact Or.inr ‹_›
    · cases hwire

/-- The two bodies and what is digested for the partition have three digests. -/
theorem injOn_twoRevisions {s : DeliveryAuth twoRevisions}
    (hdecisions : ∀ d ∈ s.decisions,
      partitionInput d.presentation.registryId d.presentation.credential d.registry.snapshot.revision = partitionInput "a"
        "x" 7) :
    Set.InjOn twoRevisions.sha256 s.digested := by
  have hcases : ∀ b ∈ s.digested, b ∈ [letterX.body, letterXNextBody, partitionInput "a" "x" 7] := by
    rintro b (⟨r, p, -, rfl⟩ | ⟨d, hd, rfl⟩)
    · rcases twoRevisions_body p with hbody | hbody <;> simp [hbody]
    · simp [hdecisions d hd]
  have hnodup : ([letterX.body, letterXNextBody, partitionInput "a" "x" 7].map twoRevisions.sha256).Nodup := by decide +kernel
  exact fun x hx y hy hxy => List.inj_on_of_nodup_map hnodup (hcases x hx) (hcases y hy) hxy

/-- The decision is that of the first revision on the credential. -/
def AuthDecision.isFirst (d : AuthDecision twoRevisions) : Bool :=
  d.presentation.registryId == "a" && d.presentation.credential == "x" && d.registry.snapshot.revision == 7 &&
    (d.result.toOption.map AuthorizedDelivery.cachePartition == some letterX.partition)

theorem AuthDecision.eq_of_isFirst {d : AuthDecision twoRevisions} (h : d.isFirst = true) :
    partitionInput d.presentation.registryId d.presentation.credential d.registry.snapshot.revision = partitionInput "a" "x" 7 ∧
      ∃ authorized, d.result = .ok authorized ∧ authorized.cachePartition = letterX.partition := by
  simp only [isFirst, Bool.and_eq_true, beq_iff_eq] at h
  obtain ⟨⟨⟨hid, hcredential⟩, hrevision⟩, hpartition⟩ := h
  refine ⟨by rw [hrevision, hcredential, hid], ?_⟩
  cases hresult : d.result with
  | error e =>
    rw [hresult] at hpartition
    cases hpartition
  | ok authorized =>
    rw [hresult] at hpartition
    exact ⟨authorized, rfl, Option.some.inj hpartition⟩

/-- Two requests are decided by the first revision, with one partition, and so by one grant; the next revision is being
written. -/
theorem registry_revision_safe_letterX :
    ∃ s : DeliveryAuth twoRevisions, s.decisions.length = 2 ∧ s.RevisionSafe ∧ Set.InjOn twoRevisions.sha256 s.digested ∧
      ∀ d ∈ s.decisions, ∀ d' ∈ s.decisions, d.grant = d'.grant := by
  have hrun : ((twoRevisionsMachine.run twoRevisionsMachine.init (twoRequests ++ nextRevision)).map fun s =>
      (s.decisions.length, s.decisions.all AuthDecision.isFirst)) = some (2, true) := by
    decide +kernel
  obtain ⟨s, hs, hdecided⟩ := Option.map_eq_some_iff.mp hrun
  obtain ⟨hlength, hfirst⟩ := Prod.mk.inj hdecided
  have hmem : ∀ d ∈ s.decisions, d.isFirst = true := List.all_eq_true.mp hfirst
  have hsafe := (registry_revision_safe twoRevisions (fun id => id == "a") (Machine.reachable_of_run hs)).1
  have hsha : Set.InjOn twoRevisions.sha256 s.digested :=
    injOn_twoRevisions fun d hd => (AuthDecision.eq_of_isFirst (hmem d hd)).1
  refine ⟨s, hlength, hsafe, hsha, fun d hd d' hd' => ?_⟩
  obtain ⟨-, authorized, hresult, hpartition⟩ := AuthDecision.eq_of_isFirst (hmem d hd)
  obtain ⟨-, authorized', hresult', hpartition'⟩ := AuthDecision.eq_of_isFirst (hmem d' hd')
  exact (hsafe.sameGrants hsha d hd d' hd' authorized authorized' hresult hresult' (hpartition.trans hpartition'.symm)).2.2.2

/-- A failed refresh is about to put back what it has read of the cache. -/
def SnapshotPhase.defers {env : RegistryEnv} {registryId : String} : SnapshotPhase env registryId → Bool
  | .leading (.deferring _) => true
  | _ => false

theorem SnapshotPhase.exists_deferring {env : RegistryEnv} {registryId : String} {phase : SnapshotPhase env registryId}
    (h : phase.defers = true) : ∃ stale, phase = .leading (.deferring stale) := by
  cases phase with
  | leading refresh =>
    cases refresh with
    | deferring stale => exact ⟨stale, rfl⟩
    | _ => cases h
  | _ => cases h

/-- When the next revision is installed, the cache has the first one still; and a refresh that failed puts back what was
evicted. -/
theorem cached_behind_installed :
    (¬∀ s, twoRevisionsMachine.Reachable s → ∀ r cached v, (s.registries r).cache = some cached →
      (s.registries r).installed = some v → v = cached.registry.revision) ∧
      ¬∀ s, twoRevisionsMachine.Reachable s → ∀ i input s', twoRevisionsMachine.step s (.advance i input) = some s' →
        ∀ r refresh, s.standing r i = some (.leading refresh) → refresh.accepted = false →
          (s'.registries r).kept = (s.registries r).kept := by
  refine ⟨fun hall => ?_, fun hall => ?_⟩
  · have hrun : ((twoRevisionsMachine.run twoRevisionsMachine.init (twoRequests ++ nextRevision)).map fun s =>
        ((s.registries "a").cache.map fun cached => cached.registry.snapshot.revision,
          (s.registries "a").installed.map InstalledRevision.revision)) = some (some 7, some 8) := by
      decide +kernel
    obtain ⟨s, hs, hrevisions⟩ := Option.map_eq_some_iff.mp hrun
    obtain ⟨hseven, height⟩ := Prod.mk.inj hrevisions
    obtain ⟨cached, hcached, hseven⟩ := Option.map_eq_some_iff.mp hseven
    obtain ⟨v, hv, height⟩ := Option.map_eq_some_iff.mp height
    have heq := hall s (Machine.reachable_of_run hs) "a" cached v hcached hv
    rw [heq] at height
    exact absurd (hseven.symm.trans height) (by decide)
  · have hrun : ((twoRevisionsMachine.run twoRevisionsMachine.init (twoRequests ++ failedRefresh)).bind fun s =>
        (twoRevisionsMachine.step s (.advance 2 (.clock refreshInterval))).map fun s' =>
          ((s.standing "a" 2).map SnapshotPhase.defers, (s.registries "a").kept.2.isSome, (s'.registries "a").kept.2.isSome)) =
        some (some true, false, true) := by
      decide +kernel
    obtain ⟨s, hs, hnext⟩ := Option.bind_eq_some_iff.mp hrun
    obtain ⟨s', hs', hkept⟩ := Option.map_eq_some_iff.mp hnext
    obtain ⟨hphase, hbefore, hafter⟩ := by simpa only [Prod.mk.injEq] using hkept
    obtain ⟨phase, hphase, hdefers⟩ := Option.map_eq_some_iff.mp hphase
    obtain ⟨stale, rfl⟩ := phase.exists_deferring hdefers
    have heq := hall s (Machine.reachable_of_run hs) 2 _ s' hs' "a" _ hphase rfl
    rw [heq, hbefore] at hafter
    exact Bool.false_ne_true hafter

end Biei

/-! ## A routed derived tile is the one generated locally -/

namespace Biei.Ishikari

/-- The owner reads the request that the entry node accepted; whatever is generated for it comes through the wire as the same
tile, or as absent; and what is decoded of any bytes has the content type of the request, if it is a tile. -/
theorem routed_derived_tile_eq_local (state : DerivedState) :
    (∀ tilesetId product z x yRaw headers request,
      parseDerivedTileRequest state tilesetId product z x yRaw headers = .ok request →
        internalDerivedRequest state (derivedInternalPath request) = some (.ok request) ∧
          ∀ outcome, localDerivedOutput state request = .ok outcome → ∃ wire decoded,
            encodeDerivedWire outcome = .ok wire ∧ decodeDerivedWire wire request.product request.format = some (.ok decoded) ∧
              decoded.data = outcome.data) ∧
      ∀ wire product format, Decoded product format (decodeDerivedWire wire product format) := by
  refine ⟨?_, decoded_decodeDerivedWire⟩
  intro tilesetId product z x yRaw headers request h
  have haccepted := accepted_of_parse h
  refine ⟨internalDerivedRequest_eq haccepted, fun outcome hlocal => exists_wire fun tile htile => ?_⟩
  exact localDerivedOutput_data haccepted hlocal htile

/-- A terrain whose tiles are all degraded. -/
def degradedTerrain : DerivedState where
  mapterhorn := some fun tilesetId => tilesetId.value = "ns/terrain"
  qualityAllows := fun _ => true
  tileIdOf := fun z x y => 4 ^ z + 2 ^ z * x + y
  generate := fun _ _ _ _ _ => .ok (some ([1, 2, 3], true))
  gzip := fun bytes => .ok (31 :: bytes)
  transcodeMlt := fun tile => .ok (77 :: tile.bytes)

def hillshadeRequest : DerivedTileRequest where
  tilesetId := ⟨"ns/terrain", by decide +kernel⟩
  product := .hillshade
  z := 14
  x := 14552
  y := 6451
  tileId := 4 ^ 14 + 2 ^ 14 * 14552 + 6451
  format := .mlt

/-- A degraded tile in the format of the `Accept` header. -/
theorem routed_derived_tile_eq_local_degraded :
    parseDerivedTileRequest degradedTerrain "ns/terrain" "hillshade" 14 14552 "6451.pbf"
        ⟨[("accept", utf8 "application/vnd.maplibre-tile; q=0.9")]⟩ = .ok hillshadeRequest ∧
      localDerivedOutput degradedTerrain hillshadeRequest = .ok (.degraded ⟨[77, 31, 1, 2, 3], mltContentType, some "gzip"⟩) ∧
      internalDerivedRequest degradedTerrain (derivedInternalPath hillshadeRequest) = some (.ok hillshadeRequest) := by
  have hrequest : parseDerivedTileRequest degradedTerrain "ns/terrain" "hillshade" 14 14552 "6451.pbf"
      ⟨[("accept", utf8 "application/vnd.maplibre-tile; q=0.9")]⟩ = .ok hillshadeRequest := rfl
  have houtcome : localDerivedOutput degradedTerrain hillshadeRequest =
    .ok (.degraded ⟨[77, 31, 1, 2, 3], mltContentType, some "gzip"⟩) := rfl
  obtain ⟨hinternal, -⟩ := (routed_derived_tile_eq_local degradedTerrain).1 _ _ _ _ _ _ _ hrequest
  exact ⟨hrequest, houtcome, hinternal⟩

/-- Whatever the peers do, what is served is what would have been generated locally, if a peer answers with what its handler
gives. -/
theorem serveDerivedTile_eq_local {state : DerivedState} {route : Bytes → Except String (Option Bytes)}
    {tilesetId product : String}
    {z x : Nat} {yRaw : String} {headers : HeaderMap} {request : DerivedTileRequest}
    (hrequest : parseDerivedTileRequest state tilesetId product z x yRaw headers = .ok request)
    (hroute : ∀ path wire, route path = .ok (some wire) → internalDerivedTileHandler state path = some (.ok wire)) :
    ∃ served, serveDerivedTile state route tilesetId product z x yRaw headers = some served ∧
      served.map DerivedOutcome.data = (localDerivedOutput state request).map DerivedOutcome.data := by
  have haccepted := accepted_of_parse hrequest
  simp only [serveDerivedTile, hrequest]
  cases hanswer : route (derivedInternalPath request) with
  | error e => exact ⟨_, rfl, rfl⟩
  | ok answer =>
    cases answer with
    | none => exact ⟨_, rfl, rfl⟩
    | some wire =>
      have hhandler := hroute _ _ hanswer
      rw [internalDerivedTileHandler, internalDerivedRequest_eq haccepted] at hhandler
      obtain ⟨_, hread, hanswered⟩ := Except.bind_eq_ok_iff.mp (Option.some.inj hhandler)
      cases hread
      obtain ⟨outcome, hlocal, hencode⟩ := Except.bind_eq_ok_iff.mp hanswered
      obtain ⟨wire', decoded, hwire, hdecode, hdata⟩ :=
        exists_wire fun tile htile => localDerivedOutput_data haccepted hlocal htile
      rw [hwire] at hencode
      cases hencode
      refine ⟨.ok decoded, ?_, ?_⟩
      · simp only [hdecode, Option.bind_eq_bind, Option.bind_some]
      · rw [hlocal]
        exact congrArg Except.ok hdata

/-- What the handler of the owner gives. -/
def routeToOwner (state : DerivedState) (path : Bytes) : Except String (Option Bytes) :=
  match internalDerivedTileHandler state path with
  | some (.ok wire) => .ok (some wire)
  | _ => .error ""

/-- A degraded tile from its owner. -/
theorem serveDerivedTile_eq_local_degraded :
    ∃ served, serveDerivedTile degradedTerrain (routeToOwner degradedTerrain) "ns/terrain" "hillshade" 14 14552 "6451.pbf"
        ⟨[("accept", utf8 "application/vnd.maplibre-tile; q=0.9")]⟩ = some served ∧
      served.map DerivedOutcome.data = (localDerivedOutput degradedTerrain hillshadeRequest).map DerivedOutcome.data := by
  refine serveDerivedTile_eq_local rfl fun path wire h => ?_
  unfold routeToOwner at h
  split at h
  · rename_i answer hanswer
    cases h
    exact hanswer
  · cases h

end Biei.Ishikari
