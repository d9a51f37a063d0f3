import Biei.Profile.Preparer

/-!
# Lemmas on the profile preparer

Everything is stored, shared and found under a key that its own fetch determines.
-/

namespace Biei.Profile

open Preparer

/-! ## Provenance -/

/-- What a failure is known to be from how it was made: one of the whole attempt is no deadline, and only such a one may be
cached. -/
def ProfileFetchError.Sound (failure : ProfileFetchError) : Prop :=
  (failure.scope = .attempt → failure.error ≠ .callerDeadlineExceeded) ∧
    (failure.negativeCacheable = true → failure.scope = .attempt)

/-- What made an error entry of the key. -/
def ErrorSource.Suits (s : Preparer) (key : LoadKey) (error : ProfilePreparationError) : ErrorSource → Prop
  | .failure f source => (source, .error f) ∈ s.fetches ∧ source.key = key ∧ f.negativeCacheable = true ∧ f.error = error
  | .rejected revision authorization =>
    key = ⟨.style revision, credentialPartition authorization⟩ ∧
      error = .styleUnavailable revision.id "MapLibre rejected the prepared style" ∧
      ∃ (j : Nat) (c : Caller), s.callers[j]? = some c ∧ c.call = .mark revision authorization

/-- Where the failure of a load may come from. -/
def Via.Suits (s : Preparer) (me : Fetched) (failure : ProfileFetchError) : Via → Prop
  | .own => (me, .error failure) ∈ s.fetches ∨ failure = .callerDeadline
  | .joined source => (source, .error failure) ∈ s.fetches ∧ source.key = me.key ∧ failure.isAttemptWide = true
  | .negative entry time =>
    time < entry.insertedAt + jsonNegativeCacheTtl ∧ failure = .permanent entry.error ∧ entry.source.Suits s me.key entry.error

/-- What a load may end with. -/
def LoadEnd.Suits (s : Preparer) (me : Fetched) : LoadEnd → Prop
  | .json text source => (source, .ok text) ∈ s.fetches ∧ source.key = me.key
  | .failed failure via => via.Suits s me failure

/-- What holds of a load in each of its phases. -/
def LoadPhase.Ok (s : Preparer) (me : Fetched) (load : Load) : LoadPhase → Prop
  | .probing _ => load.fetch = true
  | .beginning => load.fetch = true
  | .fetching => True
  | .storing result => (me, result) ∈ s.fetches
  | .releasing result => (me, result) ∈ s.fetches
  | .waiting channel =>
    load.fetch = true ∧ s.inflight.Follows me.key channel ∧
      ∀ shared, s.inflight.channels channel = .closed (some shared) → Via.Suits s me shared.failure (.joined shared.source)
  | .ended result => result.Suits s me
  | .panicked => False

/-! ## Later states -/

/-- Nothing that was fetched is forgotten, and the calls stay what they are. -/
structure Preparer.Extends (s s' : Preparer) : Prop where
  fetches : ∀ f ∈ s.fetches, f ∈ s'.fetches
  calls : ∀ (j : Nat) (c : Caller), s.callers[j]? = some c → ∃ c', s'.callers[j]? = some c' ∧ c'.call = c.call

section Mono

variable {s s' : Preparer}

theorem ErrorSource.Suits.mono (h : s.Extends s') {key : LoadKey} {error : ProfilePreparationError} {source : ErrorSource}
    (hs : source.Suits s key error) : source.Suits s' key error := by
  cases source with
  | failure failure source => exact ⟨h.fetches _ hs.1, hs.2⟩
  | rejected revision authorization =>
    obtain ⟨hkey, herror, j, c, hc, hcall⟩ := hs
    obtain ⟨c', hc', hcall'⟩ := h.calls j c hc
    exact ⟨hkey, herror, j, c', hc', hcall'.trans hcall⟩

variable {me : Fetched}

theorem Via.Suits.mono (h : s.Extends s') {failure : ProfileFetchError} {via : Via} (hv : via.Suits s me failure) :
    via.Suits s' me failure := by
  cases via with
  | own =>
    rcases hv with hv | hv
    · exact Or.inl (h.fetches _ hv)
    · exact Or.inr hv
  | joined source => exact ⟨h.fetches _ hv.1, hv.2⟩
  | negative entry time => exact ⟨hv.1, hv.2.1, hv.2.2.mono h⟩

theorem LoadEnd.Suits.mono (h : s.Extends s') {result : LoadEnd} (hr : result.Suits s me) : result.Suits s' me := by
  cases result with
  | json json source => exact ⟨h.fetches _ hr.1, hr.2⟩
  | failed failure via => exact Via.Suits.mono h hr

/-- What holds of a load goes on to hold, when its flight does. -/
theorem LoadPhase.Ok.mono (h : s.Extends s') {load : Load} {phase : LoadPhase} (hp : phase.Ok s me load)
    (hfollows : ∀ c, s.inflight.Follows me.key c → s'.inflight.Follows me.key c)
    (htold : ∀ c shared, s.inflight.Follows me.key c → s'.inflight.channels c = .closed (some shared) →
      s.inflight.channels c = .closed (some shared) ∨ Via.Suits s' me shared.failure (.joined shared.source)) :
    phase.Ok s' me load := by
  cases phase with
  | probing second => exact hp
  | beginning => exact hp
  | fetching => trivial
  | storing result => exact h.fetches _ hp
  | releasing result => exact h.fetches _ hp
  | waiting channel =>
    obtain ⟨hfetch, hf, hshared⟩ := hp
    refine ⟨hfetch, hfollows channel hf, fun shared hc => ?_⟩
    rcases htold channel shared hf hc with hold | hnew
    · exact (hshared shared hold).mono h
    · exact hnew
  | ended result => exact LoadEnd.Suits.mono h hp
  | panicked => exact hp

end Mono

/-! ## Effects -/

/-- What an effect under a key may be. -/
def Effect.Ok (s : Preparer) (me : Fetched) (key : LoadKey) : Effect → Prop
  | .nothing => True
  | .fetched result => ∀ failure, result = .error failure → failure.Sound
  | .insertJson json => (me, .ok json) ∈ s.fetches ∧ me.key = key
  | .insertError error source => source.Suits s key error
  | .invalidateJson => True
  | .lead => s.inflight.entries key = none
  | .drop outcome => ∀ shared, outcome = some shared →
    (shared.source, .error shared.failure) ∈ s.fetches ∧ shared.source.key = key ∧ shared.failure.isAttemptWide = true

/-- What the caches, the flights and the log of fetches are known to be. -/
structure Preparer.StoresOk (s : Preparer) : Prop where
  flights : s.inflight.Wf
  log : ∀ f ∈ s.fetches, ∀ failure, f.2 = .error failure → failure.Sound
  json : ∀ key entry, s.json key = some entry → (entry.source, .ok entry.json) ∈ s.fetches ∧ entry.source.key = key
  errors : ∀ key entry, s.errors key = some entry → entry.source.Suits s key entry.error

theorem perform_callers (s : Preparer) (me : Fetched) (key : LoadKey) (effect : Effect) :
    (s.perform me key effect).callers = s.callers := by
  cases effect <;> rfl

theorem perform_fetches_subset (s : Preparer) (me : Fetched) (key : LoadKey) (effect : Effect) :
    ∀ f ∈ s.fetches, f ∈ (s.perform me key effect).fetches := by
  cases effect with
  | fetched result => exact fun f hf => List.mem_cons_of_mem _ hf
  | _ => exact fun f hf => hf

theorem perform_extends (s : Preparer) (me : Fetched) (key : LoadKey) (effect : Effect) :
    s.Extends (s.perform me key effect) := by
  refine ⟨perform_fetches_subset s me key effect, fun j c hc => ⟨c, ?_, rfl⟩⟩
  rw [perform_callers]
  exact hc

variable {s : Preparer} {me : Fetched} {effect : Effect}

/-- A follower goes on following, whatever the effect is. -/
theorem Effect.Ok.follows {key key' : LoadKey} (he : effect.Ok s me key') {c : Nat}
    (h : s.inflight.Follows key c) : (s.perform me key' effect).inflight.Follows key c := by
  cases effect with
  | lead => exact h.lead he
  | drop outcome => exact h.dropGuard outcome
  | _ => exact h

/-- What a follower is told was there before, or is a failure of the whole attempt at its own key. -/
theorem Effect.Ok.told {key key' : LoadKey} (he : effect.Ok s me key')
    (hwf : s.inflight.Wf) {c : Nat} (h : s.inflight.Follows key c) {shared : SharedFailure}
    (hc : (s.perform me key' effect).inflight.channels c = .closed (some shared)) :
    s.inflight.channels c = .closed (some shared) ∨
      (shared.source, .error shared.failure) ∈ s.fetches ∧ shared.source.key = key ∧ shared.failure.isAttemptWide = true := by
  cases effect with
  | lead => exact Or.inl (h.channels_lead.symm.trans hc)
  | drop outcome =>
    rcases h.channels_dropGuard hwf hc with hc | ⟨hkey, houtcome⟩
    · exact Or.inl hc
    · rw [hkey]
      exact Or.inr (he shared houtcome)
  | _ => exact Or.inl hc

variable {key : LoadKey}

/-- The stores stay as they are known to be. -/
theorem Preparer.StoresOk.perform (h : s.StoresOk) (he : effect.Ok s me key) : (s.perform me key effect).StoresOk := by
  have hext := perform_extends s me key effect
  have herrors : ∀ k entry, s.errors k = some entry → entry.source.Suits (s.perform me key effect) k entry.error :=
    fun k entry hentry => (h.errors k entry hentry).mono hext
  cases effect with
  | nothing => exact h
  | fetched result =>
    refine ⟨h.flights, fun f hf failure hfailure => ?_, fun k entry hentry => ?_, herrors⟩
    · rcases List.mem_cons.mp hf with rfl | hf
      · exact he failure hfailure
      · exact h.log f hf failure hfailure
    · exact ⟨List.mem_cons_of_mem _ (h.json k entry hentry).1, (h.json k entry hentry).2⟩
  | insertJson json =>
    refine ⟨h.flights, h.log, fun k entry hentry => ?_, herrors⟩
    rcases update_eq_some hentry with ⟨rfl, hnew⟩ | ⟨-, hold⟩
    · cases hnew
      exact he
    · exact h.json k entry hold
  | insertError error source =>
    refine ⟨h.flights, h.log, h.json, fun k entry hentry => ?_⟩
    rcases update_eq_some hentry with ⟨hk, hnew⟩ | ⟨-, hold⟩
    · cases hnew
      rw [hk]
      exact ErrorSource.Suits.mono hext he
    · exact herrors k entry hold
  | invalidateJson => exact ⟨h.flights, h.log, fun k entry hentry => h.json k entry (update_none_eq_some hentry).2, herrors⟩
  | lead => exact ⟨h.flights.lead key, h.log, h.json, herrors⟩
  | drop outcome => exact ⟨h.flights.dropGuard key outcome, h.log, h.json, herrors⟩

/-! ## Steps of a load -/

/-- The failures that a fetch can give are what they are known to be. -/
theorem fetchUncached_sound {styleId : StyleId} {target : LoadTarget} {ending : FetchEnd} {failure : ProfileFetchError}
    (h : fetchUncached styleId target ending = some (.error failure)) : failure.Sound := by
  have hpermanent : ∀ error, error ≠ ProfilePreparationError.callerDeadlineExceeded → (ProfileFetchError.permanent error).Sound :=
    fun error hne => ⟨fun _ => hne, fun _ => rfl⟩
  have htransient : ∀ error, error ≠ ProfilePreparationError.callerDeadlineExceeded → (ProfileFetchError.transient error).Sound :=
    fun error hne => ⟨fun _ => hne, fun _ => rfl⟩
  cases ending with
  | deadline =>
    cases h
    exact ⟨nofun, nofun⟩
  | semaphoreClosed =>
    cases h
    exact htransient _ nofun
  | notRegistered =>
    cases target with
    | style revision =>
      cases h
      exact htransient _ nofun
    | tileset url => cases h
  | invalid text =>
    cases h
    exact hpermanent _ nofun
  | unreadable text =>
    cases h
    exact htransient _ nofun
  | status status text =>
    simp only [fetchUncached] at h
    split at h
    · cases h
    · split at h
      · cases h
        exact hpermanent _ nofun
      · cases h
        exact htransient _ nofun
  | body json => cases h

variable {result : LoadEnd}

/-- What `lookup` finds. -/
theorem Preparer.StoresOk.probe (h : s.StoresOk) {kind : CacheKind} (hp : s.probe me.key kind = some result) :
    result.Suits s me := by
  cases kind with
  | json =>
    obtain ⟨entry, hentry, rfl⟩ := Option.map_eq_some_iff.mp hp
    exact h.json me.key entry (Option.filter_eq_some_iff.mp hentry).1
  | error =>
    obtain ⟨entry, hentry, rfl⟩ := Option.map_eq_some_iff.mp hp
    obtain ⟨hsome, hfresh⟩ := Option.filter_eq_some_iff.mp hentry
    exact ⟨of_decide_eq_true hfresh, rfl, h.errors me.key entry hsome⟩

variable {result : Except ProfileFetchError String}

/-- A result that is stored is stored for the key of its fetch. -/
theorem storeEffect_ok (h : (me, result) ∈ s.fetches) :
    (storeEffect me result).Ok s me me.key := by
  cases result with
  | ok json => exact ⟨h, rfl⟩
  | error failure =>
    simp only [storeEffect]
    split
    · exact ⟨h, rfl, ‹_›, rfl⟩
    · trivial

/-- What is shared is shared with the followers of the key of its fetch. -/
theorem sharedOutcome_ok (h : (me, result) ∈ s.fetches) :
    (Effect.drop (sharedOutcome me result)).Ok s me me.key := by
  intro shared hshared
  cases result with
  | ok json => cases hshared
  | error failure =>
    simp only [sharedOutcome] at hshared
    split at hshared
    · cases hshared
      exact ⟨h, rfl, ‹_›⟩
    · cases hshared

/-- What the leader returns is what its fetch gave. -/
theorem ownEnd_suits (h : (me, result) ∈ s.fetches) :
    (ownEnd me result).Suits s me := by
  cases result with
  | ok json => exact ⟨h, rfl⟩
  | error failure => exact Or.inl h

variable {load load' : Load} {phase phase' : LoadPhase}

/-- One step of a load, of itself. -/
theorem loadStep_ok (h : s.StoresOk) (hp : phase.Ok s me load) (hs : s.loadStep me load phase = some (load', phase', effect)) :
    load'.target = load.target ∧ effect.Ok s me me.key ∧ phase'.Ok (s.perform me me.key effect) me load' := by
  have hext : ∀ effect, s.Extends (s.perform me me.key effect) := perform_extends s me me.key
  cases phase with
  | probing second =>
    simp only [Preparer.loadStep] at hs
    split at hs
    · rename_i result hprobe
      cases hs
      exact ⟨rfl, trivial, h.probe hprobe⟩
    · cases hs
      refine ⟨rfl, trivial, ?_⟩
      cases second with
      | true => exact hp
      | false => exact hp
  | beginning =>
    simp only [Preparer.loadStep] at hs
    split at hs
    · rename_i channel hentry
      cases hs
      refine ⟨rfl, trivial, hp, h.flights.follows hentry, fun shared hshared => ?_⟩
      have hpending := h.flights.pending me.key channel hentry
      rw [show (s.perform me me.key .nothing).inflight = s.inflight from rfl, hpending] at hshared
      cases hshared
    · rename_i hnone
      split at hs
      · cases hs
        exact ⟨rfl, hnone, trivial⟩
      · rename_i hfetch
        exact absurd hp hfetch
  | fetching => cases hs
  | storing result =>
    cases hs
    exact ⟨rfl, storeEffect_ok hp, (hext _).fetches _ hp⟩
  | releasing result =>
    cases hs
    exact ⟨rfl, sharedOutcome_ok hp, (ownEnd_suits hp).mono (hext _)⟩
  | waiting channel =>
    obtain ⟨hfetch, -, hshared⟩ := hp
    simp only [Preparer.loadStep] at hs
    split at hs
    · cases hs
    · cases hs
      exact ⟨rfl, trivial, hfetch⟩
    · rename_i shared hclosed
      cases hs
      exact ⟨rfl, trivial, hshared shared hclosed⟩
  | ended result => cases hs
  | panicked => cases hs

/-- The end of a load's own fetch. -/
theorem fetchStep_ok {styleId : StyleId}
    {late : Bool} {ending : FetchEnd} (hs : fetchStep styleId load late ending phase = some (load', phase', effect)) :
    load'.target = load.target ∧ effect.Ok s me me.key ∧ phase'.Ok (s.perform me me.key effect) me load' := by
  cases phase with
  | fetching =>
    simp only [fetchStep] at hs
    split at hs
    · cases hs
    · obtain ⟨result, hresult, heq⟩ := Option.map_eq_some_iff.mp hs
      cases heq
      refine ⟨rfl, fun failure hfailure => ?_, List.mem_cons_self⟩
      rw [hfailure] at hresult
      exact fetchUncached_sound hresult
  | _ => cases hs

/-- A follower whose time is over. -/
theorem timeoutStep_ok {late : Bool} (hs : timeoutStep load late phase = some (load', phase', effect)) :
    load'.target = load.target ∧ effect.Ok s me me.key ∧ phase'.Ok (s.perform me me.key effect) me load' := by
  cases phase with
  | waiting channel =>
    simp only [timeoutStep] at hs
    split at hs
    · cases hs
      exact ⟨rfl, trivial, Or.inr rfl⟩
    · cases hs
  | _ => cases hs

variable {phase : LoadPhase}

/-- Dropping a load sends nothing. -/
theorem cancelEffect_ok (hs : cancelEffect phase = some effect) : effect.Ok s me key := by
  cases phase with
  | fetching =>
    cases hs
    exact fun shared hshared => by cases hshared
  | waiting channel =>
    cases hs
    trivial
  | _ => cases hs

/-! ## Callers -/

/-- A style that was fetched for the caller's revision with its credential partition. -/
def Preparer.StyleFor (s : Preparer) (call : Call) (json : String) (style : Fetched) : Prop :=
  (style, .ok json) ∈ s.fetches ∧ style.key = ⟨.style call.revision, credentialPartition call.authorization⟩

/-- The addlayer of a call has a source with this TileJSON URL. -/
def Call.SourceAt (env : SourceEnv) (call : Call) (addlayer : AddLayerSource × UInt64) (url : String) : Prop :=
  call.addlayer = some addlayer ∧ env.sourceUrl call.revision.id addlayer.1 = .ok url

/-- What a call may return. -/
def Returned.Suits (env : SourceEnv) (s : Preparer) (i : Nat) (call : Call) : Returned → Prop
  | .profile p style tileset =>
    s.StyleFor call p.styleJson style ∧ p.revision = call.revision ∧
      p.authorizationPartition = credentialPartition call.authorization ∧
      match tileset with
      | none => p.addlayerSource = none
      | some (source, tilejson) => ∃ addlayer url rewritten, call.SourceAt env addlayer url ∧ (source, .ok tilejson) ∈ s.fetches ∧
          source.key = ⟨.tileset url, credentialPartition call.authorization⟩ ∧
          env.rewrite call.revision.id addlayer.1 url tilejson = .ok rewritten ∧
          p.addlayerSource = some ⟨addlayer.1.tilesetId, rewritten⟩
  | .available style => ∃ json, s.StyleFor call json style
  | .error err (.load target failure via) =>
    via.Suits s ⟨i, target, call.authorization⟩ failure ∧
      ((target = .style call.revision ∧ err = failure.error) ∨
        ∃ addlayer url, call.SourceAt env addlayer url ∧ target = .tileset url ∧ err = failure.error.intoSource addlayer.2)
  | .error err .source => ∃ addlayer e, call.addlayer = some addlayer ∧ err = e.intoSource addlayer.2 ∧
      (env.sourceUrl call.revision.id addlayer.1 = .error e ∨
        ∃ url source tilejson, call.SourceAt env addlayer url ∧ (source, .ok tilejson) ∈ s.fetches ∧
          source.key = ⟨.tileset url, credentialPartition call.authorization⟩ ∧
          env.rewrite call.revision.id addlayer.1 url tilejson = .error e)
  | .unavailable err failure via =>
    via.Suits s ⟨i, .style call.revision, call.authorization⟩ failure ∧ err = failure.intoAvailabilityError
  | .marked => True

/-- What holds of a caller in each of its phases. -/
def CallerPhase.Ok (env : SourceEnv) (s : Preparer) (i : Nat) (call : Call) : CallerPhase → Prop
  | .loading load phase => load.target = .style call.revision ∧ phase.Ok s ⟨i, load.target, call.authorization⟩ load
  | .styled json style => s.StyleFor call json style
  | .loadingTileset json style load phase =>
    s.StyleFor call json style ∧ (∃ addlayer url, call.SourceAt env addlayer url ∧ load.target = .tileset url) ∧
      phase.Ok s ⟨i, load.target, call.authorization⟩ load
  | .invalidating => ∃ revision authorization, call = .mark revision authorization
  | .rejecting => ∃ revision authorization, call = .mark revision authorization
  | .returned result => result.Suits env s i call
  | .cancelled => True

variable {env : SourceEnv} {i : Nat} {call : Call} {s s' : Preparer}

theorem Returned.Suits.mono {result : Returned} (h : s.Extends s') (hr : result.Suits env s i call) :
    result.Suits env s' i call := by
  cases result with
  | profile profile style tileset =>
    obtain ⟨hstyle, hrev, hpart, htileset⟩ := hr
    refine ⟨⟨h.fetches _ hstyle.1, hstyle.2⟩, hrev, hpart, ?_⟩
    cases tileset with
    | none => exact htileset
    | some t =>
      obtain ⟨addlayer, url, rewritten, hat, hmem, hrest⟩ := htileset
      exact ⟨addlayer, url, rewritten, hat, h.fetches _ hmem, hrest⟩
  | available style =>
    obtain ⟨json, hstyle⟩ := hr
    exact ⟨json, h.fetches _ hstyle.1, hstyle.2⟩
  | error error cause =>
    cases cause with
    | load target failure via => exact ⟨Via.Suits.mono h hr.1, hr.2⟩
    | source =>
      obtain ⟨addlayer, e, hadd, herror, hurl | ⟨url, source, tilejson, hat, hmem, hrest⟩⟩ := hr
      · exact ⟨addlayer, e, hadd, herror, Or.inl hurl⟩
      · exact ⟨addlayer, e, hadd, herror, Or.inr ⟨url, source, tilejson, hat, h.fetches _ hmem, hrest⟩⟩
  | unavailable error failure via => exact ⟨Via.Suits.mono h hr.1, hr.2⟩
  | marked => trivial

/-- What holds of a caller goes on to hold, when the flight of its load does. -/
theorem CallerPhase.Ok.mono {phase : CallerPhase} (h : s.Extends s') (hp : phase.Ok env s i call)
    (hfollows : ∀ key c, s.inflight.Follows key c → s'.inflight.Follows key c)
    (htold : ∀ key c shared, s.inflight.Follows key c → s'.inflight.channels c = .closed (some shared) →
      s.inflight.channels c = .closed (some shared) ∨ ((shared.source, .error shared.failure) ∈ s'.fetches ∧
        shared.source.key = key ∧ shared.failure.isAttemptWide = true)) :
    phase.Ok env s' i call := by
  cases phase with
  | loading load phase =>
    exact ⟨hp.1, hp.2.mono h (fun c => hfollows _ c) fun c shared => htold _ c shared⟩
  | styled json style => exact ⟨h.fetches _ hp.1, hp.2⟩
  | loadingTileset json style load phase =>
    exact ⟨⟨h.fetches _ hp.1.1, hp.1.2⟩, hp.2.1, hp.2.2.mono h (fun c => hfollows _ c) fun c shared => htold _ c shared⟩
  | invalidating => exact hp
  | rejecting => exact hp
  | returned result => exact Returned.Suits.mono h hp
  | cancelled => trivial

/-- What a caller makes of the end of its style's load. -/
theorem afterStyle_ok {result : LoadEnd} (h : result.Suits s ⟨i, .style call.revision, call.authorization⟩) :
    (afterStyle call result).Ok env s i call := by
  cases result with
  | failed failure via =>
    cases call with
    | ensure revision deadline => exact ⟨h, rfl⟩
    | prepare revision authorization deadline addlayer => exact ⟨h, Or.inl ⟨rfl, rfl⟩⟩
    | mark revision authorization => exact ⟨h, Or.inl ⟨rfl, rfl⟩⟩
  | json json source =>
    cases call with
    | ensure revision deadline => exact ⟨json, h⟩
    | mark revision authorization => exact ⟨h, rfl, rfl, rfl⟩
    | prepare revision authorization deadline addlayer =>
      cases addlayer with
      | none => exact ⟨h, rfl, rfl, rfl⟩
      | some addlayer => exact h

variable {json : String} {style : Fetched}

/-- What a caller makes of the end of its tileset's load. -/
theorem afterTileset_ok {result : LoadEnd} {addlayer : AddLayerSource × UInt64} {url : String}
    (hstyle : s.StyleFor call json style)
    (hat : call.SourceAt env addlayer url) (h : result.Suits s ⟨i, .tileset url, call.authorization⟩) :
    (afterTileset env call json style addlayer url result).Ok env s i call := by
  cases result with
  | failed failure via => exact ⟨h, Or.inr ⟨addlayer, url, hat, rfl, rfl⟩⟩
  | json tilejson source =>
    simp only [afterTileset]
    split
    · rename_i e he
      exact ⟨addlayer, e, hat.1, rfl, Or.inr ⟨url, source, tilejson, hat, h.1, h.2, he⟩⟩
    · rename_i rewritten hrewritten
      exact ⟨hstyle, rfl, rfl, addlayer, url, rewritten, hat, h.1, h.2, hrewritten, rfl⟩

/-! ## Steps of a caller -/

/-- What a caller may do: of itself, by the end of its fetch, when its time is over, or by being dropped. -/
def Moves (env : SourceEnv) (s : Preparer) (i : Nat) (c : Caller) (move : CallerPhase × LoadKey × Effect) : Prop :=
  s.callerStep env i c = some move ∨
    (∃ ending, loadEvent c (fun load phase => fetchStep c.call.revision.id load (s.late c) ending phase) = some move) ∨
    loadEvent c (fun load phase => timeoutStep load (s.late c) phase) = some move ∨ cancelStep c = some move

/-- What a step is. -/
theorem step_cases {act : Action} (h : s.step env act = some s') :
    (∃ i c move, s.callers[i]? = some c ∧ Moves env s i c move ∧ s' = s.apply i c move) ∨
    (∃ call : Call, s' = { s with callers := s.callers ++ [⟨call, call.start⟩] }) ∨
    (∃ d, s' = { s with now := s.now + d }) ∨
    (∃ key, s' = { s with json := Function.update s.json key none }) ∨
    (∃ key, s' = { s with errors := Function.update s.errors key none }) := by
  cases act with
  | call call => exact Or.inr (Or.inl ⟨call, (Option.some.inj h).symm⟩)
  | step i =>
    obtain ⟨c, hc, h⟩ := Option.bind_eq_some_iff.mp h
    obtain ⟨move, hm, rfl⟩ := Option.map_eq_some_iff.mp h
    exact Or.inl ⟨i, c, move, hc, Or.inl hm, rfl⟩
  | fetched i ending =>
    obtain ⟨c, hc, h⟩ := Option.bind_eq_some_iff.mp h
    obtain ⟨move, hm, rfl⟩ := Option.map_eq_some_iff.mp h
    exact Or.inl ⟨i, c, move, hc, Or.inr (Or.inl ⟨ending, hm⟩), rfl⟩
  | timeout i =>
    obtain ⟨c, hc, h⟩ := Option.bind_eq_some_iff.mp h
    obtain ⟨move, hm, rfl⟩ := Option.map_eq_some_iff.mp h
    exact Or.inl ⟨i, c, move, hc, Or.inr (Or.inr (Or.inl hm)), rfl⟩
  | cancel i =>
    obtain ⟨c, hc, h⟩ := Option.bind_eq_some_iff.mp h
    obtain ⟨move, hm, rfl⟩ := Option.map_eq_some_iff.mp h
    exact Or.inl ⟨i, c, move, hc, Or.inr (Or.inr (Or.inr hm)), rfl⟩
  | advance d => exact Or.inr (Or.inr (Or.inl ⟨d, (Option.some.inj h).symm⟩))
  | evictJson key => exact Or.inr (Or.inr (Or.inr (Or.inl ⟨key, (Option.some.inj h).symm⟩)))
  | evictError key => exact Or.inr (Or.inr (Or.inr (Or.inr ⟨key, (Option.some.inj h).symm⟩)))

/-- Who makes a move, for the log. -/
def mover (i : Nat) (c : Caller) (move : CallerPhase × LoadKey × Effect) : Fetched := ⟨i, move.2.1.target, c.call.authorization⟩

/-- A move that is right: under the caller's own key, with an effect and to a phase that are as they should be. -/
def MoveOk (env : SourceEnv) (s : Preparer) (i : Nat) (c : Caller) (move : CallerPhase × LoadKey × Effect) : Prop :=
  (mover i c move).key = move.2.1 ∧ move.2.2.Ok s (mover i c move) move.2.1 ∧
    move.1.Ok env (s.perform (mover i c move) move.2.1 move.2.2) i c.call

variable {c : Caller}

/-- What a step of a load gives, for the caller of which it is the style's. -/
theorem moveOk_loading {phase' : LoadPhase} (htarget : load.target = .style c.call.revision)
    (h : load'.target = load.target ∧ effect.Ok s ⟨i, load.target, c.call.authorization⟩
      (Fetched.key ⟨i, load.target, c.call.authorization⟩) ∧
      phase'.Ok (s.perform ⟨i, load.target, c.call.authorization⟩ (Fetched.key ⟨i, load.target, c.call.authorization⟩) effect)
        ⟨i, load.target, c.call.authorization⟩ load') :
    MoveOk env s i c (.loading load' phase', ⟨load.target, credentialPartition c.call.authorization⟩, effect) := by
  obtain ⟨hsame, heffect, hphase⟩ := h
  exact ⟨rfl, heffect, hsame.trans htarget, hsame ▸ hphase⟩

/-- The same for its tileset's. -/
theorem moveOk_loadingTileset {phase' : LoadPhase} (hstyle : s.StyleFor c.call json style)
    (htarget : ∃ addlayer url, c.call.SourceAt env addlayer url ∧ load.target = .tileset url)
    (h : load'.target = load.target ∧ effect.Ok s ⟨i, load.target, c.call.authorization⟩
      (Fetched.key ⟨i, load.target, c.call.authorization⟩) ∧
      phase'.Ok (s.perform ⟨i, load.target, c.call.authorization⟩ (Fetched.key ⟨i, load.target, c.call.authorization⟩) effect)
        ⟨i, load.target, c.call.authorization⟩ load') :
    MoveOk env s i c (.loadingTileset json style load' phase', ⟨load.target, credentialPartition c.call.authorization⟩,
      effect) := by
  obtain ⟨hsame, heffect, hphase⟩ := h
  exact ⟨rfl, heffect, ⟨perform_fetches_subset _ _ _ _ _ hstyle.1, hstyle.2⟩, hsame ▸ htarget, hsame ▸ hphase⟩

/-- While its style's load has not ended, a caller only moves that on. -/
theorem callerStep_loading {load : Load} (hphase : ∀ result, phase ≠ .ended result) :
    s.callerStep env i ⟨call, .loading load phase⟩ =
      (s.loadStep ⟨i, load.target, call.authorization⟩ load phase).map fun (load', phase', effect) =>
        (.loading load' phase', ⟨load.target, credentialPartition call.authorization⟩, effect) := by
  cases phase with
  | ended result => exact absurd rfl (hphase result)
  | _ => rfl

/-- The same for its tileset's. -/
theorem callerStep_loadingTileset {load : Load} (hphase : ∀ result, phase ≠ .ended result) :
    s.callerStep env i ⟨call, .loadingTileset json style load phase⟩ =
      (s.loadStep ⟨i, load.target, call.authorization⟩ load phase).map fun (load', phase', effect) =>
        (.loadingTileset json style load' phase', ⟨load.target, credentialPartition call.authorization⟩, effect) := by
  cases phase with
  | ended result => exact absurd rfl (hphase result)
  | _ => rfl

variable {move : CallerPhase × LoadKey × Effect}

/-- What a caller does of itself is right. -/
theorem callerStep_ok (h : s.StoresOk)
    (hmem : s.callers[i]? = some c) (hc : c.phase.Ok env s i c.call) (hm : s.callerStep env i c = some move) :
      MoveOk env s i c move := by
  obtain ⟨call, phase⟩ := c
  cases phase with
  | loading load phase =>
    obtain ⟨htarget, hload⟩ := hc
    cases phase with
    | ended result =>
      cases hm
      refine ⟨rfl, trivial, afterStyle_ok ?_⟩
      rw [← htarget]
      exact hload
    | _ =>
      rw [callerStep_loading fun result heq => by cases heq] at hm
      obtain ⟨⟨load', phase', effect⟩, hstep, rfl⟩ := Option.map_eq_some_iff.mp hm
      exact moveOk_loading htarget (loadStep_ok h hload hstep)
  | styled json style =>
    simp only [Preparer.callerStep] at hm
    split at hm
    · cases hm
    · rename_i addlayer hadd
      split at hm
      · rename_i e he
        cases hm
        exact ⟨rfl, trivial, addlayer, e, hadd, rfl, Or.inl he⟩
      · rename_i url hurl
        cases hm
        exact ⟨rfl, trivial, hc, ⟨addlayer, url, ⟨hadd, hurl⟩, rfl⟩, rfl⟩
  | loadingTileset json style load phase =>
    obtain ⟨hstyle, ⟨addlayer, url, hat, htarget⟩, hload⟩ := hc
    cases phase with
    | ended result =>
      simp only [Preparer.callerStep, hat.1, htarget] at hm
      cases hm
      refine ⟨rfl, trivial, afterTileset_ok hstyle hat ?_⟩
      rw [← htarget]
      exact hload
    | _ =>
      rw [callerStep_loadingTileset fun result heq => by cases heq] at hm
      obtain ⟨⟨load', phase', effect⟩, hstep, rfl⟩ := Option.map_eq_some_iff.mp hm
      exact moveOk_loadingTileset hstyle ⟨addlayer, url, hat, htarget⟩ (loadStep_ok h hload hstep)
  | invalidating =>
    cases hm
    exact ⟨rfl, trivial, hc⟩
  | rejecting =>
    cases hm
    obtain ⟨revision, authorization, rfl⟩ := hc
    exact ⟨rfl, ⟨rfl, rfl, i, _, hmem, rfl⟩, trivial⟩
  | returned result => cases hm
  | cancelled => cases hm

/-- What happens to a load from outside is right. -/
theorem loadEvent_ok {event : Load → LoadPhase → Option (Load × LoadPhase × Effect)} (hc : c.phase.Ok env s i c.call)
    (hevent : ∀ (me : Fetched) load phase load' phase' effect, event load phase = some (load', phase', effect) →
      load'.target = load.target ∧ effect.Ok s me me.key ∧ phase'.Ok (s.perform me me.key effect) me load')
    (hm : loadEvent c event = some move) : MoveOk env s i c move := by
  obtain ⟨call, phase⟩ := c
  cases phase with
  | loading load phase =>
    obtain ⟨⟨load', phase', effect⟩, hstep, rfl⟩ := Option.map_eq_some_iff.mp hm
    exact moveOk_loading hc.1 (hevent _ load phase load' phase' effect hstep)
  | loadingTileset json style load phase =>
    obtain ⟨⟨load', phase', effect⟩, hstep, rfl⟩ := Option.map_eq_some_iff.mp hm
    exact moveOk_loadingTileset hc.1 hc.2.1 (hevent _ load phase load' phase' effect hstep)
  | _ => cases hm

/-- Dropping a caller is right. -/
theorem cancelStep_ok (hm : cancelStep c = some move) : MoveOk env s i c move := by
  obtain ⟨call, phase⟩ := c
  cases phase with
  | loading load phase =>
    obtain ⟨effect, heffect, rfl⟩ := Option.map_eq_some_iff.mp hm
    exact ⟨rfl, cancelEffect_ok heffect, trivial⟩
  | loadingTileset json style load phase =>
    obtain ⟨effect, heffect, rfl⟩ := Option.map_eq_some_iff.mp hm
    exact ⟨rfl, cancelEffect_ok heffect, trivial⟩
  | _ => cases hm

/-- Whatever a caller does is right. -/
theorem Moves.ok (h : s.StoresOk)
    (hmem : s.callers[i]? = some c) (hc : c.phase.Ok env s i c.call) (hm : Moves env s i c move) : MoveOk env s i c move := by
  rcases hm with hm | ⟨ending, hm⟩ | hm | hm
  · exact callerStep_ok h hmem hc hm
  · exact loadEvent_ok hc (fun _ _ _ _ _ _ hs => fetchStep_ok hs) hm
  · exact loadEvent_ok hc (fun _ _ _ _ _ _ hs => timeoutStep_ok hs) hm
  · exact cancelStep_ok hm

/-! ## Runs -/

/-- A fetch was made by a caller with the credential that the fetch has. -/
def Preparer.MadeBy (s : Preparer) (f : Fetched) : Prop := ∃ c, s.callers[f.caller]? = some c ∧
    c.call.authorization = f.authorization

theorem Preparer.MadeBy.mono (h : s.Extends s') {f : Fetched} (hf : s.MadeBy f) : s'.MadeBy f := by
  obtain ⟨c, hc, hauthorization⟩ := hf
  obtain ⟨c', hc', hcall⟩ := h.calls f.caller c hc
  exact ⟨c', hc', hcall ▸ hauthorization⟩

/-- The log grows by what the one who performs has fetched. -/
theorem mem_perform_fetches {f : Fetched × Except ProfileFetchError String}
    (h : f ∈ (s.perform me key effect).fetches) : f ∈ s.fetches ∨ f.1 = me := by
  cases effect with
  | fetched result =>
    rcases List.mem_cons.mp h with rfl | h
    · exact Or.inr rfl
    · exact Or.inl h
  | _ => exact Or.inl h

/-- What holds in every state. -/
structure Preparer.Inv (env : SourceEnv) (s : Preparer) : Prop where
  stores : s.StoresOk
  made : ∀ f ∈ s.fetches, s.MadeBy f.1
  callers : ∀ (i : Nat) (c : Caller), s.callers[i]? = some c → c.phase.Ok env s i c.call

/-- The callers after a move, with everything else done. -/
theorem apply_extends (hmem : s.callers[i]? = some c) (move : CallerPhase × LoadKey × Effect) :
    (s.perform (mover i c move) move.2.1 move.2.2).Extends (s.apply i c move) := by
  refine ⟨fun f hf => hf, fun j b hb => ?_⟩
  rw [perform_callers] at hb
  by_cases hij : j = i
  · subst hij
    cases hmem.symm.trans hb
    exact ⟨_, getElem?_set_of_some hmem _, rfl⟩
  · exact ⟨b, (List.getElem?_set_ne (Ne.symm hij)).trans hb, rfl⟩

/-- The stores do not depend on where the callers are. -/
theorem Preparer.StoresOk.extend (h : s.StoresOk) (hext : s.Extends s') (hfetches : s'.fetches = s.fetches)
    (hjson : ∀ key entry, s'.json key = some entry → s.json key = some entry)
    (herrors : ∀ key entry, s'.errors key = some entry → s.errors key = some entry) (hflights : s'.inflight = s.inflight) :
      s'.StoresOk := by
  refine ⟨hflights ▸ h.flights, hfetches ▸ h.log, fun key entry hentry => ?_, fun key entry hentry => ?_⟩
  · rw [hfetches]
    exact h.json key entry (hjson key entry hentry)
  · exact (h.errors key entry (herrors key entry hentry)).mono hext

theorem Preparer.Inv.apply (h : s.Inv env) (hmem : s.callers[i]? = some c) (hm : Moves env s i c move) :
    (s.apply i c move).Inv env := by
  obtain ⟨hkey, heffect, hphase⟩ := hm.ok h.stores hmem (h.callers i c hmem)
  have hperform := perform_extends s (mover i c move) move.2.1 move.2.2
  have hext := apply_extends hmem move
  refine ⟨(h.stores.perform heffect).extend hext rfl (fun _ _ he => he) (fun _ _ he => he) rfl, fun f hf => ?_, fun j b hb => ?_⟩
  · rcases mem_perform_fetches hf with hf | hme
    · exact ((h.made f hf).mono hperform).mono hext
    · rw [hme]
      exact ⟨_, getElem?_set_of_some hmem _, rfl⟩
  rcases getElem?_set_cases hmem hb with ⟨rfl, rfl⟩ | ⟨-, hb⟩
  · exact hphase.mono hext (fun _ _ hf => hf) fun _ _ _ _ hc => Or.inl hc
  · refine ((h.callers j b hb).mono hperform (fun _ _ hf => heffect.follows hf) fun key ch shared hf hc => ?_).mono hext
      (fun _ _ hf => hf)
      fun _ _ _ _ hc => Or.inl hc
    rcases heffect.told h.stores.flights hf hc with hc | hnew
    · exact Or.inl hc
    · exact Or.inr ⟨hperform.fetches _ hnew.1, hnew.2⟩

/-- A call starts as it should. -/
theorem start_ok (env : SourceEnv) (s : Preparer) (i : Nat) (call : Call) : call.start.Ok env s i call := by
  cases call with
  | prepare revision authorization deadline addlayer => exact ⟨rfl, rfl⟩
  | ensure revision deadline => exact ⟨rfl, rfl⟩
  | mark revision authorization => exact ⟨revision, authorization, rfl⟩

theorem Preparer.Inv.step {act : Action} (h : s.Inv env) (hstep : s.step env act = some s') :
    s'.Inv env := by
  have hsame : ∀ s'', s.Extends s'' → s''.inflight = s.inflight →
      ∀ (i : Nat) (c : Caller), s.callers[i]? = some c → c.phase.Ok env s'' i c.call := fun s'' hext hflights i c hc => by
    refine (h.callers i c hc).mono hext (fun _ _ hf => hflights ▸ hf) fun _ _ _ _ hc => Or.inl ?_
    rw [← hflights]
    exact hc
  rcases step_cases hstep with ⟨i, c, move, hmem, hm, rfl⟩ | ⟨call, rfl⟩ | ⟨d, rfl⟩ | ⟨key, rfl⟩ | ⟨key, rfl⟩
  · exact h.apply hmem hm
  · have hext : s.Extends { s with callers := s.callers ++ [⟨call, call.start⟩] } :=
      ⟨fun f hf => hf, fun j c hc => ⟨c, getElem?_concat_of_some hc _, rfl⟩⟩
    refine ⟨h.stores.extend hext rfl (fun _ _ he => he) (fun _ _ he => he) rfl, fun f hf => (h.made f hf).mono hext,
      fun i c hc => ?_⟩
    rcases getElem?_concat_cases hc with ⟨-, rfl⟩ | hc
    · exact start_ok env _ i call
    · exact hsame _ hext rfl i c hc
  · have hext : s.Extends { s with now := s.now + d } := ⟨fun f hf => hf, fun j c hc => ⟨c, hc, rfl⟩⟩
    exact ⟨h.stores.extend hext rfl (fun _ _ he => he) (fun _ _ he => he) rfl, fun f hf => (h.made f hf).mono hext,
      hsame _ hext rfl⟩
  · have hext : s.Extends { s with json := Function.update s.json key none } := ⟨fun f hf => hf, fun j c hc => ⟨c, hc, rfl⟩⟩
    exact ⟨h.stores.extend hext rfl (fun _ _ he => (update_none_eq_some he).2) (fun _ _ he => he) rfl, fun f hf =>
      (h.made f hf).mono hext, hsame _ hext rfl⟩
  · have hext : s.Extends { s with errors := Function.update s.errors key none } := ⟨fun f hf => hf, fun j c hc => ⟨c, hc, rfl⟩⟩
    exact ⟨h.stores.extend hext rfl (fun _ _ he => he) (fun _ _ he => (update_none_eq_some he).2) rfl, fun f hf =>
      (h.made f hf).mono hext, hsame _ hext rfl⟩

/-- In every run, everything comes from where it should. -/
theorem inv_of_reachable {start : Instant} (h : (preparer env start).Reachable s) : s.Inv env := by
  refine h.invariant ⟨⟨SingleFlight.Wf.empty, ?_, ?_, ?_⟩, ?_, ?_⟩ fun _ _ _ hi hs => hi.step hs
  · exact fun f hf => by cases hf
  · exact fun key entry he => by cases he
  · exact fun key entry he => by cases he
  · exact fun f hf => by cases hf
  · intro i c hc
    rw [show (preparer env start).init.callers = [] from rfl] at hc
    cases hc

end Biei.Profile
