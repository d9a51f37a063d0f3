import Biei.Lemmas.RenderCache
import Biei.Lemmas.RenderKey
import Biei.Theorems.Dispatcher

/-! # The render output cache: authorization and single flight -/

namespace Biei

namespace RenderOutputCache

variable {K : Type} [DecidableEq K] {s : RenderOutputCache K}

/-- Both invariants hold of every reachable state. -/
theorem reachable_inv (h : (machine K).Reachable s) : FlightInv s ∧ OutputInv s := by
  refine h.invariant (I := fun s => FlightInv s ∧ OutputInv s) ⟨FlightInv.new, OutputInv.new⟩ ?_
  rintro s a s' ⟨hf, ho⟩ hs
  have hstep := step_stepped hs
  exact ⟨hf.step hstep, ho.step hf hstep⟩

/-! ## Authorization -/

/-- The caller whose step an action is; evictions are nobody's. -/
def actor : RenderCacheAction K → Option Nat
  | .lookupOrJoin .. => none
  | .cacheGet p => some p
  | .lockFlights p => some p
  | .insertFromOutcome p _ => some p
  | .cacheInsert p => some p
  | .dropLeader p => some p
  | .sendModify p => some p
  | .wake p => some p
  | .giveUp p => some p
  | .evict _ => none

omit [DecidableEq K] in
/-- A grant set that allows another names each of its namespaces, or is the wildcard. -/
theorem mem_of_allows {readable required : NamespaceSet} (h : readable.allows required = true) :
    ∀ ns ∈ required.names, readable.names.toList = ["*"] ∨ (ns ≠ "*" ∧ ns ∈ readable.names) := by
  intro ns hns
  unfold NamespaceSet.allows at h
  split at h
  · rename_i hhead
    have hmem : "*" ∈ readable.names := by
      rw [OrderedSet.mem_def]
      exact List.mem_of_mem_head? hhead
    exact Or.inl (readable.canonical hmem)
  · have hall := List.all_eq_true.mp h ns hns
    simp only [Bool.and_eq_true, decide_eq_true_eq] at hall
    exact Or.inr hall

omit [DecidableEq K] in
/-- An entry that requires exactly the caller's own grants may be read by it. -/
theorem isAuthorizedFor_of_eq {e : CachedRenderOutput} {ns : Option NamespaceSet} (h : e.requiredNamespaces = ns) :
    e.isAuthorizedFor ns = true := by
  unfold CachedRenderOutput.isAuthorizedFor
  rw [h]
  cases ns with
  | none => rfl
  | some set => exact set.allows_self

/-- Whenever a caller is served cached bytes, its grants allow every namespace the entry requires, which are exactly the grants of
the caller that produced those bytes under the same key, and public entries are served to callers without grants only; and no step
of a caller changes a resident entry that the caller may not read. -/
theorem cached_bytes_authorized (s : RenderOutputCache K) (h : (machine K).Reachable s) :
    (∀ (p : Nat) (c : RenderCaller K) (e : CachedRenderOutput), s.callers[p]? = some c → c.phase = .hit e →
      (e.requiredNamespaces = none ↔ c.readableNamespaces = none) ∧
      (∀ required readable, e.requiredNamespaces = some required → c.readableNamespaces = some readable →
        ∀ ns ∈ required.names, readable.names.toList = ["*"] ∨ (ns ≠ "*" ∧ ns ∈ readable.names)) ∧
      ∃ (q : Nat) (d : RenderCaller K), s.callers[q]? = some d ∧ d.key = c.key ∧
        d.readableNamespaces = e.requiredNamespaces ∧ (q, e.output) ∈ s.produced) ∧
    (∀ (a : RenderCacheAction K) (s' : RenderOutputCache K) (p : Nat) (c : RenderCaller K) (e : CachedRenderOutput),
      s.step a = some s' → actor a = some p → s.callers[p]? = some c → s.cache c.key = some e →
      e.isAuthorizedFor c.readableNamespaces = false → s'.cache = s.cache) := by
  obtain ⟨hf, ho⟩ := reachable_inv h
  refine ⟨fun p c e hc hp => ?_, fun a s' p c e hs ha hc he hauth => ?_⟩
  · obtain ⟨hauth, hprod⟩ := ho.served p c e hc hp
    unfold CachedRenderOutput.isAuthorizedFor at hauth
    refine ⟨?_, fun required readable hreq hread => ?_, hprod⟩
    · split at hauth
      · rename_i h1 h2
        exact iff_of_true h1 h2
      · rename_i required readable h1 h2
        exact iff_of_false (by simp [h1]) (by simp [h2])
      · cases hauth
      · cases hauth
    · rw [hreq, hread] at hauth
      exact mem_of_allows hauth
  · cases step_stepped hs with
    | insert q d f output hd hp =>
      -- Who inserts found an entry with its own grants, or none.
      obtain rfl : q = p := by simpa [actor] using ha
      cases hc.symm.trans hd
      have hown := (ho.inserting q c f output hc hp).2 e he
      rw [isAuthorizedFor_of_eq hown] at hauth
      cases hauth
    | evict k => cases ha
    | arrive k ns => rfl
    | hit _ q d after e' _ _ _ _ => rfl
    | miss q d after _ _ _ => rfl
    | join q d after f _ _ _ _ => rfl
    | lead q d after _ _ _ _ => rfl
    | keepBack q result produced _ => rfl
    | insertCheck q d f tier output _ _ _ => rfl
    | drop q d f _ _ => rfl
    | notify q d f _ _ => rfl
    | leave _ q d _ _ => rfl
    | wake q d f _ _ _ => rfl

/-- The grants of a caller that may read one namespace. -/
def basemapGrant : NamespaceSet where
  names := ⟨["basemap"], List.pairwise_singleton _ _⟩
  nonempty := by simp
  bounded := by simp [maxAuthorizationNamespaces]
  valid := by
    intro s hs
    rw [List.mem_singleton.mp hs]
    decide
  canonical := by
    intro hs
    have := List.mem_singleton.mp hs
    revert this
    decide

/-- One caller renders and inserts an image, a caller with the same grant is served it, and one without grants is not. -/
def servedRun : List (RenderCacheAction Nat) :=
  [.lookupOrJoin 7 (some basemapGrant), .cacheGet 0, .lockFlights 0, .insertFromOutcome 0 (.completed .tier2HrwBl ⟨[1, 2], .png⟩),
    .cacheInsert 0, .dropLeader 0, .sendModify 0, .lookupOrJoin 7 (some basemapGrant), .cacheGet 1, .lookupOrJoin 7 none,
      .cacheGet 2]

theorem cached_bytes_authorized_servedRun :
    ∃ s c, (machine Nat).run (machine Nat).init servedRun = some s ∧ s.callers[1]? = some c ∧
      c.phase = .hit ⟨⟨[1, 2], .png⟩, some basemapGrant⟩ ∧
      (∀ ns ∈ basemapGrant.names, basemapGrant.names.toList = ["*"] ∨ (ns ≠ "*" ∧ ns ∈ basemapGrant.names)) := by
  refine ⟨_, _, rfl, rfl, rfl, ?_⟩
  have h := cached_bytes_authorized _ (Machine.reachable_of_run (show (machine Nat).run _ servedRun = some _ from rfl))
  exact (h.1 1 _ _ rfl rfl).2.1 _ _ rfl rfl

/-! ## Single flight -/

/-- What the flight map guarantees, in one state. -/
structure SingleFlight (s : RenderOutputCache K) : Prop where
  /-- At most one live leader guard per key. -/
  oneLeader : ∀ (p q : Nat) (c d : RenderCaller K) f g, s.callers[p]? = some c → s.callers[q]? = some d → Leads c f → Leads d g →
    c.key = d.key → p = q
  /-- A flight is in the map exactly while its leader guard is alive. -/
  whileAlive : ∀ k f, s.inFlight k = some f ↔ ∃ (p : Nat) (c : RenderCaller K), s.callers[p]? = some c ∧ c.key = k ∧ Leads c f
  /-- Who waits for a flight waits for a live leader, or can wake up now, or can wake up once the leader's drop has sent its
  change, which is the next thing that drop does. -/
  woken : ∀ (p : Nat) (c : RenderCaller K) f, s.callers[p]? = some c → c.phase = .waiting f →
    (∃ (q : Nat) (d : RenderCaller K), s.callers[q]? = some d ∧ d.key = c.key ∧ Leads d f) ∨
    (∃ s', s.step (.wake p) = some s') ∨
    ∃ (q : Nat) (d : RenderCaller K) (s' s'' : RenderOutputCache K), s.callers[q]? = some d ∧ d.phase = .notifying (some f) ∧
      s.step (.sendModify q) = some s' ∧ s'.step (.wake p) = some s''
  /-- A drop of a leader takes its own flight out of the map. -/
  dropsOwn : ∀ (p : Nat) (c : RenderCaller K) f s', s.callers[p]? = some c → c.phase = .leading f →
    s.step (.dropLeader p) = some s' → s'.inFlight = Function.update s.inFlight c.key none ∧
      ∃ c', s'.callers[p]? = some c' ∧ c'.phase = .notifying (some f)
  /-- A woken caller's first lookup serves it, or leads it to the lock. -/
  recheckGet : ∀ (p : Nat) (c : RenderCaller K) f s', s.callers[p]? = some c → c.phase = .lookup (some f) →
    s.step (.cacheGet p) = some s' → ∃ c' : RenderCaller K, s'.callers[p]? = some c' ∧
      ((∃ e, c'.phase = .hit e ∧ e.isAuthorizedFor c.readableNamespaces = true) ∨ c'.phase = .locking (some f))
  /-- Under the lock it is served, leads a new flight, or joins a newer flight, whose leader is alive. -/
  recheckLock : ∀ (p : Nat) (c : RenderCaller K) f s', s.callers[p]? = some c → c.phase = .locking (some f) →
    s.step (.lockFlights p) = some s' → ∃ c' : RenderCaller K, s'.callers[p]? = some c' ∧
      ((∃ e, c'.phase = .hit e ∧ e.isAuthorizedFor c.readableNamespaces = true) ∨
        (∃ g, f < g ∧ c'.phase = .leading g) ∨
        ∃ g, f < g ∧ c'.phase = .waiting g ∧
          ∃ (q : Nat) (d : RenderCaller K), s'.callers[q]? = some d ∧ d.key = c.key ∧ Leads d g)

/-- A waiting caller can wake up once its flight's change was sent. -/
theorem wake_enabled {p : Nat} {c : RenderCaller K} {f : Nat} (hc : s.callers[p]? = some c)
    (hp : c.phase = .waiting f) (hch : s.changed f = true) : ∃ s', s.step (.wake p) = some s' := by
  refine ⟨s.setPhase p c (.lookup (some f)), ?_⟩
  simp only [step, hc, hp, hch, if_true]

/-- A drop under way can send its change, and then whoever waits for the flight can wake up. -/
theorem wake_after_sendModify {p q : Nat} {c d : RenderCaller K} {f : Nat} (hc : s.callers[p]? = some c)
    (hp : c.phase = .waiting f) (hd : s.callers[q]? = some d) (hq : d.phase = .notifying (some f)) :
    ∃ s' s'', s.step (.sendModify q) = some s' ∧ s'.step (.wake p) = some s'' := by
  have hqp : p ≠ q := by
    rintro rfl
    cases hc.symm.trans hd
    rw [hp] at hq
    cases hq
  have hsend : s.step (.sendModify q) =
      some { s.setPhase q d .gone with changed := Function.update s.changed f true } := by
    simp only [step, hd, hq]
  obtain ⟨s'', hwake⟩ := wake_enabled (s := { s.setPhase q d .gone with changed := Function.update s.changed f true })
    ((setPhase_get_of_ne hqp .gone).trans hc) hp (Function.update_self ..)
  exact ⟨_, s'', hsend, hwake⟩

/-- Renders are single flight in every reachable state, whatever the order of lookups, completions, failures, aborts and
wake-ups. -/
theorem render_single_flight (s : RenderOutputCache K) (h : (machine K).Reachable s) : SingleFlight s := by
  obtain ⟨hf, -⟩ := reachable_inv h
  refine ⟨?_, ?_, ?_, ?_, ?_, ?_⟩
  · intro p q c d f g hc hd hl hl' hkey
    have h1 := hf.leads hc hl
    have h2 := hf.leads hd hl'
    rw [hkey, h2] at h1
    obtain rfl := Option.some.inj h1
    exact hf.unique p q c d g hc hd hl hl'
  · intro k f
    refine ⟨hf.leader k f, ?_⟩
    rintro ⟨p, c, hc, rfl, hl⟩
    exact hf.leads hc hl
  · intro p c f hc hp
    have hok := hf.callers p c hc
    rw [hp] at hok
    rcases hok.2.1 with hin | ⟨q, d, hd, hq⟩ | hch
    · exact Or.inl (hf.leader c.key f hin)
    · obtain ⟨s', s'', h1, h2⟩ := wake_after_sendModify hc hp hd hq
      exact Or.inr (Or.inr ⟨q, d, s', s'', hd, hq, h1, h2⟩)
    · exact Or.inr (Or.inl (wake_enabled hc hp hch))
  · intro p c f s' hc hp hs
    simp only [step, hc, hp, Option.some.injEq] at hs
    subst hs
    refine ⟨rfl, _, setPhase_get_self hc _, ?_⟩
    show CallerPhase.notifying (s.inFlight c.key) = _
    rw [hf.leads hc (Or.inl hp)]
  · intro p c f s' hc hp hs
    simp only [step, hc, hp] at hs
    split at hs
    · rename_i e he
      cases hs
      exact ⟨_, setPhase_get_self hc _, Or.inl ⟨e, rfl, (authorizedGet_eq_some he).2⟩⟩
    · cases hs
      exact ⟨_, setPhase_get_self hc _, Or.inr rfl⟩
  · intro p c f s' hc hp hs
    have hok := hf.callers p c hc
    rw [hp] at hok
    obtain ⟨hlt, -, hnewer⟩ := hok f rfl
    simp only [step, hc, hp, Option.some.injEq] at hs
    subst hs
    unfold lockFlights
    split
    · rename_i e he
      exact ⟨_, setPhase_get_self hc _, Or.inl ⟨e, rfl, (authorizedGet_eq_some he).2⟩⟩
    · split
      · rename_i g hg
        refine ⟨_, setPhase_get_self hc _, Or.inr (Or.inr ⟨g, hnewer g hg, rfl, ?_⟩)⟩
        obtain ⟨q, d, hd, hk, hl⟩ := hf.leader c.key g hg
        have hqp : q ≠ p := by
          rintro rfl
          cases hc.symm.trans hd
          rcases hl with hl | ⟨o, hl⟩
          · rw [hp] at hl
            cases hl
          · rw [hp] at hl
            cases hl
        exact ⟨q, d, (setPhase_get_of_ne hqp _).trans hd, hk, hl⟩
      · exact ⟨_, setPhase_get_self hc _, Or.inr (Or.inl ⟨s.nextFlight, hlt, rfl⟩)⟩

/-- A follower joins a flight whose leader is aborted, wakes up and leads the next one. -/
def abortedRun : List (RenderCacheAction Nat) :=
  [.lookupOrJoin 7 none, .cacheGet 0, .lockFlights 0, .lookupOrJoin 7 none, .cacheGet 1, .lockFlights 1, .dropLeader 0,
    .sendModify 0, .wake 1, .cacheGet 1, .lockFlights 1]

theorem render_single_flight_abortedRun :
    ∃ s c, (machine Nat).run (machine Nat).init abortedRun = some s ∧ s.callers[1]? = some c ∧ c.phase = .leading 1 ∧
      SingleFlight s := by
  refine ⟨_, _, rfl, rfl, rfl, ?_⟩
  exact render_single_flight _ (Machine.reachable_of_run (show (machine Nat).run _ abortedRun = some _ from rfl))

end RenderOutputCache

/-! ## Tasks of one key ask for one image -/

/-- The same view, with the same layers and overlays in the same order. -/
def SameRequest : RenderRequest → RenderRequest → Prop
  | .tile z x y tileSize, .tile z' x' y' tileSize' => z = z' ∧ x = x' ∧ y = y' ∧ tileSize = tileSize'
  | .staticImage positioning width height overlays beforeLayer padding addlayer,
    .staticImage positioning' width' height' overlays' beforeLayer' padding' addlayer' =>
    positioning = positioning' ∧ width = width' ∧ height = height' ∧ overlays = overlays' ∧ beforeLayer = beforeLayer' ∧
      padding = padding' ∧
      (addlayer.map fun a => (a.json, a.source)) = addlayer'.map fun a => (a.json, a.source)
  | .tile .., .staticImage .. => False
  | .staticImage .., .tile .. => False

/-- Two tasks ask for the same image. -/
structure SameOutput (a b : InternalTask) : Prop where
  style : a.style = b.style
  request : SameRequest a.request b.request
  pixelRatio : a.pixelRatio = b.pixelRatio
  outputFormat : a.outputFormat = b.outputFormat
  source : a.source.map SourceRef.hash = b.source.map SourceRef.hash

/-- The content is what the task's reference is the hash of. -/
def RefersTo {Content : Type} (contentHash : Content → UInt64) (task : InternalTask) (content : Option Content) : Prop :=
  task.source.map SourceRef.hash = content.map contentHash

theorem sameRequest_of_key_eq {a b : RenderRequest} (h : RenderRequestKey.ofRequest a = .ofRequest b) : SameRequest a b := by
  cases a with
  | tile z x y tileSize =>
    cases b with
    | tile z' x' y' tileSize' => exact RenderRequestKey.tile.inj h
    | staticImage => cases h
  | staticImage positioning width height overlays beforeLayer padding addlayer =>
    cases b with
    | tile => cases h
    | staticImage positioning' width' height' overlays' beforeLayer' padding' addlayer' =>
      simp only [RenderRequestKey.ofRequest, RenderRequestKey.staticImage.injEq] at h
      obtain ⟨hpositioning, hwidth, hheight, hoverlays, hbefore, hpadding, haddlayer⟩ := h
      refine ⟨PositioningKey.ofPositioning_injective hpositioning, hwidth, hheight,
        List.map_injective_iff.mpr StaticOverlayKey.ofOverlay_injective hoverlays, hbefore, hpadding, ?_⟩
      cases addlayer with
      | none =>
        cases addlayer' with
        | none => rfl
        | some layer' => cases haddlayer
      | some layer =>
        cases addlayer' with
        | none => cases haddlayer
        | some layer' =>
          obtain ⟨hjson, hsource⟩ := addlayerIdentity_inj (Option.some.inj haddlayer)
          simp [hjson, hsource]

theorem sameOutput_of_key_eq {a b : InternalTask} (h : RenderCacheKey.fromTask a = .fromTask b) : SameOutput a b := by
  simp only [RenderCacheKey.fromTask, RenderCacheKey.mk.injEq] at h
  obtain ⟨hid, hversion, hrequest, hscale, hformat, hsource⟩ := h
  refine ⟨?_, sameRequest_of_key_eq hrequest, ?_, hformat, hsource⟩
  · exact congrArg₂ (fun id version => StyleRevision.mk ⟨id⟩ version) hid hversion
  · rw [← a.pixelRatio.ofScale_toScale, hscale, b.pixelRatio.ofScale_toScale]

/-- Tasks of one cache key ask for one image: the same style, view, overlays and added layer, and, as far as the content hash does
not collide, the same source. The identity of an added layer tells all lists of components apart. -/
theorem render_cache_key_sound {Content : Type} {contentHash : Content → UInt64} {contents : Set Content}
    (hfree : Set.InjOn contentHash contents) {a b : InternalTask} (h : RenderCacheKey.fromTask a = .fromTask b) :
    SameOutput a b ∧
      (∀ x y : Option Content, (∀ c ∈ x, c ∈ contents) → (∀ c ∈ y, c ∈ contents) → RefersTo contentHash a x →
        RefersTo contentHash b y → x = y) ∧
      (∀ layer : AddLayer, addlayerIdentity layer = String.join (layer.components.map frame)) ∧
      Function.Injective fun components : List String => String.join (components.map frame) := by
  have hsame := sameOutput_of_key_eq h
  refine ⟨hsame, fun x y hx hy ha hb => ?_, addlayerIdentity_eq, join_frame_injective⟩
  have hhash : x.map contentHash = y.map contentHash := ha.symm.trans (hsame.source.trans hb)
  cases x with
  | none =>
    cases y with
    | none => rfl
    | some d => cases hhash
  | some c =>
    cases y with
    | none => cases hhash
    | some d => rw [hfree (hx c rfl) (hy d rfl) (Option.some.inj hhash)]

/-- A tile with a source that is to be kept, and a later task for the same tile that is to use it once. -/
def earlierTile : InternalTask := { Dispatcher.tileTask with source := some ⟨7, .cacheable⟩ }

def laterTile : InternalTask :=
  { Dispatcher.tileTask with id := 2, requestId := ⟨"s", by decide⟩, arrivedAt := 5, source := some ⟨7, .oneShot⟩ }

theorem render_cache_key_sound_tiles :
    RenderCacheKey.fromTask earlierTile = .fromTask laterTile ∧ SameOutput earlierTile laterTile := by
  have hkey : RenderCacheKey.fromTask earlierTile = .fromTask laterTile := by decide
  have hfree : Set.InjOn (fun content : Bytes => UInt64.ofNat content.length + 6) {[], [0]} := by
    rintro x (rfl | rfl) y (rfl | rfl) hxy
    · rfl
    · exact absurd hxy (by decide)
    · exact absurd hxy (by decide)
    · rfl
  exact ⟨hkey, (render_cache_key_sound hfree hkey).1⟩

end Biei
