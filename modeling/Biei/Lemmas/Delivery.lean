import Biei.Ishikari.DeliveryPath
import Biei.Lemmas.Auth
import Biei.Lemmas.RegistryRefresh

/-!
# What a step of the verifier does

What holds of each registry holds of all of them along every run.
-/

namespace Biei

variable {env : RegistryEnv}

/-! ## Where callers stand -/

/-- Where a caller stands with a registry, when that is the registry it is for. -/
def AuthCaller.phaseAt (c : AuthCaller env) (registryId : String) : Option (SnapshotPhase env registryId) :=
  if h : c.presentation.registryId = registryId then some (h ▸ c.phase) else none

theorem AuthCaller.phaseAt_self (c : AuthCaller env) : c.phaseAt c.presentation.registryId = some c.phase := dif_pos rfl

theorem AuthCaller.phaseAt_of_ne {c : AuthCaller env} {registryId : String} (h : c.presentation.registryId ≠ registryId) :
    c.phaseAt registryId = none := dif_neg h

/-- The caller that an action is of. -/
def AuthAction.caller : AuthAction → Option Nat
  | .authorize _ _ _ _ => none
  | .advance i _ => some i
  | .decide i => some i
  | .cancel i => some i
  | .evict _ => none

namespace DeliveryAuth

variable {configured : String → Bool} {s s' : DeliveryAuth env} {a : AuthAction} {i : Nat} {c : AuthCaller env}

/-- Where the callers of each registry stand. -/
def standing (s : DeliveryAuth env) (registryId : String) (i : Nat) : Option (SnapshotPhase env registryId) :=
  s.callers[i]?.bind fun c => c.phaseAt registryId

theorem standing_self (hi : s.callers[i]? = some c) : s.standing c.presentation.registryId i = some c.phase := by
  rw [standing, hi]
  exact c.phaseAt_self

theorem standing_of_ne (hi : s.callers[i]? = some c) {r : String} (hr : r ≠ c.presentation.registryId) :
    s.standing r i = none := by
  rw [standing, hi]
  exact AuthCaller.phaseAt_of_ne (Ne.symm hr)

theorem standing_length (s : DeliveryAuth env) (r : String) : s.standing r s.callers.length = none := by
  rw [standing, List.getElem?_eq_none (Nat.le_refl _)]
  rfl

/-- A move of a caller changes where the callers of its registry stand, and not where those of the others do. -/
theorem standing_moved (hi : s.callers[i]? = some c) (reg : RegistryState env c.presentation.registryId)
    (phase : SnapshotPhase env c.presentation.registryId) :
    (s.moved i c reg phase).standing = Function.update s.standing c.presentation.registryId
      (Function.update (s.standing c.presentation.registryId) i (some phase)) := by
  funext r
  have hset : (s.moved i c reg phase).standing r = Function.update (s.standing r) i (AuthCaller.phaseAt { c with phase } r) :=
    bind_getElem?_set _ hi _
  rw [hset]
  by_cases hr : r = c.presentation.registryId
  · subst hr
    rw [Function.update_self]
    exact congrArg _ (AuthCaller.phaseAt_self _)
  · have hnone : AuthCaller.phaseAt { c with phase } r = none := AuthCaller.phaseAt_of_ne (Ne.symm hr)
    rw [Function.update_of_ne hr, hnone, ← standing_of_ne hi hr, Function.update_eq_self]

theorem standing_concat (s : DeliveryAuth env) (c : AuthCaller env) :
    standing { s with callers := s.callers ++ [c] } = Function.update s.standing c.presentation.registryId
      (Function.update (s.standing c.presentation.registryId) s.callers.length (some c.phase)) := by
  funext r
  have hconcat : standing { s with callers := s.callers ++ [c] } r = Function.update (s.standing r) s.callers.length
    (c.phaseAt r) :=
    bind_getElem?_concat _ s.callers c
  rw [hconcat]
  by_cases hr : r = c.presentation.registryId
  · subst hr
    rw [Function.update_self, c.phaseAt_self]
  · rw [Function.update_of_ne hr, AuthCaller.phaseAt_of_ne (Ne.symm hr), ← s.standing_length r, Function.update_eq_self]

/-! ## Steps -/

theorem step_cases (h : step env configured s a = some s') :
    s' = s ∨
      (∃ c query, present env.toAuthEnv configured c.headers query = .ok c.presentation ∧ c.phase = .start ∧
        s' = { s with callers := s.callers ++ [c] }) ∨
      (∃ i c reg phase, a.caller = some i ∧ s.callers[i]? = some c ∧
        Moves (s.registries c.presentation.registryId) i c.phase reg phase ∧
        (s' = s.moved i c reg phase ∨
          ∃ registry, c.phase = .done (some registry) ∧
            s' = { s.moved i c reg phase with decisions := ⟨c.presentation, registry,
              decideRequest env.toAuthEnv registry.snapshot c.headers c.presentation c.requiredNamespace c.action⟩ ::
                s.decisions })) ∨
      ∃ r, a = .evict r ∧
        s' = { s with registries := Function.update s.registries r { s.registries r with cache := none } } := by
  cases a with
  | authorize headers query requiredNamespace action =>
    simp only [step] at h
    split at h
    · exact Or.inl (Option.some.inj h).symm
    · rename_i p hp
      exact Or.inr (Or.inl ⟨⟨headers, p, requiredNamespace, action, .start⟩, query, hp, rfl, (Option.some.inj h).symm⟩)
  | advance i input =>
    simp only [step] at h
    split at h
    · cases h
    · rename_i c hi
      split at h
      · cases h
      · rename_i reg phase hadvance
        exact Or.inr (Or.inr (Or.inl ⟨i, c, reg, phase, rfl, hi, RegistryState.advance_moves hadvance,
          Or.inl (Option.some.inj h).symm⟩))
  | decide i =>
    simp only [step] at h
    split at h
    · cases h
    · rename_i c hi
      split at h
      · rename_i registry hphase
        have hidle : Moves (s.registries c.presentation.registryId) i c.phase (s.registries c.presentation.registryId) .decided :=
          .idle (by rw [hphase]; rfl) rfl (by simp)
        exact Or.inr (Or.inr (Or.inl ⟨i, c, _, _, rfl, hi, hidle, Or.inr ⟨registry, hphase, (Option.some.inj h).symm⟩⟩))
      · cases h
  | cancel i =>
    simp only [step] at h
    split at h
    · cases h
    · rename_i c hi
      split at h
      · rename_i hawaits
        refine Or.inr (Or.inr (Or.inl ⟨i, c, _, _, rfl, hi, ?_, Or.inl (Option.some.inj h).symm⟩))
        cases hphase : c.phase with
        | leading phase =>
          rw [hphase] at hawaits
          cases phase with
          | requesting previous => exact .drop rfl
          | fetching etag => exact .drop rfl
          | acquiring => cases hawaits
          | reading => cases hawaits
          | notModified previous => cases hawaits
          | parsed p etag => cases hawaits
          | checked p etag => cases hawaits
          | installed p etag => cases hawaits
          | warmed p etag => cases hawaits
          | failing => cases hawaits
          | deferring stale => cases hawaits
          | cooling => cases hawaits
          | completing => cases hawaits
          | returning p => cases hawaits
        | start => exact .idle rfl rfl (by simp)
        | missed now => exact .idle rfl rfl (by simp)
        | cold now => exact .idle rfl rfl (by simp)
        | electing => exact .idle rfl rfl (by simp)
        | following leader => exact .idle rfl rfl (by simp)
        | done result => exact .idle rfl rfl (by simp)
        | decided => exact .idle rfl rfl (by simp)
        | dropped => exact .idle rfl rfl (by simp)
      · cases h
  | evict r => exact Or.inr (Or.inr (Or.inr ⟨r, rfl, (Option.some.inj h).symm⟩))

/-- What a step does to a registry and to where its callers stand: nothing, a new caller, a move, or the loss of what is
cached. -/
theorem step_registry (h : step env configured s a = some s') (r : String) :
    (s'.registries r = s.registries r ∧ s'.standing r = s.standing r) ∨
      (s'.registries r = s.registries r ∧
        ∃ j, s.standing r j = none ∧ s'.standing r = Function.update (s.standing r) j (some .start)) ∨
      (∃ i phase phase', a.caller = some i ∧ s.standing r i = some phase ∧
        Moves (s.registries r) i phase (s'.registries r) phase' ∧
        s'.standing r = Function.update (s.standing r) i (some phase')) ∨
      (a = .evict r ∧ s'.registries r = { s.registries r with cache := none } ∧ s'.standing r = s.standing r) := by
  rcases step_cases h with rfl | ⟨c, query, -, hstart, rfl⟩ | ⟨i, c, reg, phase, hcaller, hi, hmoves, hs'⟩ | ⟨r', rfl, rfl⟩
  · exact Or.inl ⟨rfl, rfl⟩
  · rw [standing_concat]
    by_cases hr : r = c.presentation.registryId
    · subst hr
      rw [Function.update_self, hstart]
      exact Or.inr (Or.inl ⟨rfl, _, s.standing_length _, rfl⟩)
    · rw [Function.update_of_ne hr]
      exact Or.inl ⟨rfl, rfl⟩
  · have hregistries : s'.registries = Function.update s.registries c.presentation.registryId reg := by
      rcases hs' with rfl | ⟨registry, -, rfl⟩
      · rfl
      · rfl
    have hstanding : s'.standing = Function.update s.standing c.presentation.registryId
        (Function.update (s.standing c.presentation.registryId) i (some phase)) := by
      rw [← standing_moved hi reg phase]
      rcases hs' with rfl | ⟨registry, -, rfl⟩
      · rfl
      · rfl
    rw [hregistries, hstanding]
    by_cases hr : r = c.presentation.registryId
    · subst hr
      rw [Function.update_self, Function.update_self]
      exact Or.inr (Or.inr (Or.inl ⟨i, c.phase, phase, hcaller, standing_self hi, hmoves, rfl⟩))
    · rw [Function.update_of_ne hr, Function.update_of_ne hr]
      exact Or.inl ⟨rfl, rfl⟩
  · by_cases hr : r = r'
    · subst hr
      exact Or.inr (Or.inr (Or.inr ⟨rfl, Function.update_self .., rfl⟩))
    · exact Or.inl ⟨Function.update_of_ne hr .., rfl⟩

theorem installs_step (h : step env configured s a = some s') (r : String) :
    ∀ p ∈ (s.registries r).installs, p ∈ (s'.registries r).installs := by
  intro p hp
  rcases step_registry h r with ⟨hreg, -⟩ | ⟨hreg, -⟩ | ⟨i, phase, phase', -, -, hmoves, -⟩ | ⟨-, hreg, -⟩
  · exact hreg ▸ hp
  · exact hreg ▸ hp
  · exact hmoves.installs_subset p hp
  · exact hreg ▸ hp

end DeliveryAuth

/-! ## The invariant -/

/-- The decision is that of the code on a request with that token. -/
def AuthDecision.Made (configured : String → Bool) (d : AuthDecision env) : Prop :=
  ∃ headers query requiredNamespace action, present env.toAuthEnv configured headers query = .ok d.presentation ∧
    d.result = decideRequest env.toAuthEnv d.registry.snapshot headers d.presentation requiredNamespace action

/-- What holds of the verifier. -/
structure AuthInv (configured : String → Bool) (s : DeliveryAuth env) : Prop where
  registries : ∀ r, RegistryInv (s.registries r) (s.standing r)
  presented : ∀ c ∈ s.callers, ∃ query, present env.toAuthEnv configured c.headers query = .ok c.presentation
  decisions : ∀ d ∈ s.decisions, d.registry ∈ (s.registries d.presentation.registryId).installs ∧ d.Made configured

namespace AuthInv

variable {configured : String → Bool} {s s' : DeliveryAuth env} {a : AuthAction}

theorem new : AuthInv configured (DeliveryAuth.new : DeliveryAuth env) where
  registries := fun _ => RegistryInv.new
  presented := fun _ hc => absurd hc List.not_mem_nil
  decisions := fun _ hd => absurd hd List.not_mem_nil

theorem registries_step (h : AuthInv configured s) (hs : DeliveryAuth.step env configured s a = some s') (r : String) :
    RegistryInv (s'.registries r) (s'.standing r) := by
  rcases DeliveryAuth.step_registry hs r with ⟨hreg, hstanding⟩ | ⟨hreg, j, hj, hstanding⟩ | ⟨i, phase, phase', -, hi, hmoves,
    hstanding⟩ |
    ⟨-, hreg, hstanding⟩
  · rw [hreg, hstanding]
    exact h.registries r
  · rw [hreg, hstanding]
    exact (h.registries r).enter hj
  · rw [hstanding]
    exact (h.registries r).moves hi hmoves
  · rw [hreg, hstanding]
    exact (h.registries r).evict

theorem presented_step (h : AuthInv configured s) (hs : DeliveryAuth.step env configured s a = some s') :
    ∀ c ∈ s'.callers, ∃ query, present env.toAuthEnv configured c.headers query = .ok c.presentation := by
  rcases DeliveryAuth.step_cases hs with rfl | ⟨c, query, hquery, -, rfl⟩ | ⟨i, c, reg, phase, -, hi, -, hs'⟩ | ⟨r', rfl, rfl⟩
  · exact h.presented
  · intro d hd
    rcases List.mem_append.mp hd with hd | hd
    · exact h.presented d hd
    · rw [List.mem_singleton.mp hd]
      exact ⟨query, hquery⟩
  · have hcallers : s'.callers = s.callers.set i { c with phase } := by
      rcases hs' with rfl | ⟨registry, -, rfl⟩
      · rfl
      · rfl
    rw [hcallers]
    intro d hd
    rcases List.mem_or_eq_of_mem_set hd with hd | rfl
    · exact h.presented d hd
    · exact h.presented c (List.mem_of_getElem? hi)
  · exact h.presented

theorem decisions_step (h : AuthInv configured s) (hs : DeliveryAuth.step env configured s a = some s') :
    ∀ d ∈ s'.decisions, d.registry ∈ (s'.registries d.presentation.registryId).installs ∧ d.Made configured := by
  have hkept : ∀ d ∈ s.decisions, d.registry ∈ (s'.registries d.presentation.registryId).installs ∧ d.Made configured :=
    fun d hd => (h.decisions d hd).imp_left (DeliveryAuth.installs_step hs _ _)
  have hinstalls := DeliveryAuth.installs_step hs
  rcases DeliveryAuth.step_cases hs with rfl | ⟨c, query, -, -, rfl⟩ | ⟨i, c, reg, phase, -, hi, hmoves, hs'⟩ | ⟨r', rfl, rfl⟩
  · exact hkept
  · exact hkept
  · rcases hs' with rfl | ⟨registry, hphase, rfl⟩
    · exact hkept
    · intro d hd
      rcases List.mem_cons.mp hd with rfl | hd
      · obtain ⟨query, hquery⟩ := h.presented c (List.mem_of_getElem? hi)
        have hok := (h.registries c.presentation.registryId).phases i c.phase (DeliveryAuth.standing_self hi)
        rw [hphase] at hok
        exact ⟨hinstalls _ registry hok, c.headers, query, c.requiredNamespace, c.action, hquery, rfl⟩
      · exact hkept d hd
  · exact hkept

theorem step (h : AuthInv configured s) (hs : DeliveryAuth.step env configured s a = some s') : AuthInv configured s' :=
  ⟨h.registries_step hs, h.presented_step hs, h.decisions_step hs⟩

theorem reachable (h : (DeliveryAuth.machine env configured).Reachable s) : AuthInv configured s :=
  h.invariant AuthInv.new fun _ _ _ hinv hs => hinv.step hs

end AuthInv

end Biei

/-! ## Lemmas on public paths -/

namespace Biei.Ishikari

/-! ## First segments -/

/-- What follows a segment begins with a slash, or is nothing. -/
def AtBoundary (text : Bytes) : Prop := text = [] ∨ ∃ rest, text = slash :: rest

theorem firstSegment_append {text rest : Bytes} (h : AtBoundary rest) : firstSegment (text ++ rest) = firstSegment text := by
  induction text with
  | nil =>
    rcases h with rfl | ⟨rest, rfl⟩
    · rfl
    · exact List.takeWhile_cons_of_neg (by simp)
  | cons b text ih =>
    unfold firstSegment at ih ⊢
    rw [List.cons_append, List.takeWhile_cons, List.takeWhile_cons, ih]

/-- A text is its first segment and what follows. -/
theorem firstSegment_append_rest (text : Bytes) : ∃ rest, AtBoundary rest ∧ text = firstSegment text ++ rest := by
  refine ⟨text.dropWhile fun b => b != slash, ?_, List.takeWhile_append_dropWhile.symm⟩
  cases hrest : text.dropWhile fun b => b != slash with
  | nil => exact Or.inl rfl
  | cons b rest =>
    have hb := List.head?_dropWhile_not (fun b => b != slash) text
    rw [hrest] at hb
    have hslash : b = slash := by simpa using hb
    exact Or.inr ⟨rest, by rw [hslash]⟩

/-! ## Decoding -/

theorem percentDecode_cons {b : UInt8} (h : b ≠ percent) (text : Bytes) :
    percentDecode (b :: text) = b :: percentDecode text := by
  match text with
  | [] => rfl
  | [_] => rfl
  | _ :: _ :: _ => rw [percentDecode, if_pos h]

/-- What `decode_namespace` decodes, the handler's decoding decodes as well, whatever follows. -/
theorem percentDecode_append {text decoded : Bytes} (h : decodeStrict text = .ok decoded) (rest : Bytes) :
    percentDecode (text ++ rest) = decoded ++ percentDecode rest := by
  fun_induction decodeStrict text generalizing decoded with
  | case1 =>
    cases h
    rfl
  | case2 b text hb ih =>
    cases htext : decodeStrict text with
    | error e =>
      rw [htext] at h
      cases h
    | ok tail =>
      rw [htext] at h
      cases h
      rw [List.cons_append, percentDecode_cons hb, ih htext, List.cons_append]
  | case3 b hb digit digit' text high low hlow hhigh ih =>
    cases htext : decodeStrict text with
    | error e =>
      rw [htext] at h
      cases h
    | ok tail =>
      rw [htext] at h
      cases h
      simp only [List.cons_append, percentDecode, if_neg hb, hhigh, hlow, ih htext]
  | case4 => cases h
  | case5 => cases h

/-- Where the first segment decodes, the handler reads the same first segment. -/
theorem firstSegment_percentDecode {rest decoded : Bytes} (h : decodeStrict (firstSegment rest) = .ok decoded) :
    percentDecode (firstSegment rest) = decoded ∧ firstSegment (percentDecode rest) = firstSegment decoded := by
  refine ⟨?_, ?_⟩
  · have hdecode := percentDecode_append h []
    rw [List.append_nil] at hdecode
    rw [hdecode]
    exact List.append_nil _
  · obtain ⟨tail, hboundary, hrest⟩ := firstSegment_append_rest rest
    rw [hrest, percentDecode_append h]
    refine firstSegment_append ?_
    rcases hboundary with rfl | ⟨tail, rfl⟩
    · exact Or.inl rfl
    · exact Or.inr ⟨percentDecode tail, percentDecode_cons (by decide) tail⟩

/-! ## Keys -/

theorem of_stripTail {tail text key : Bytes} (h : stripTail tail text = some key) : text = key ++ tail := by
  unfold stripTail at h
  split at h
  · rename_i hsuffix
    cases h
    obtain ⟨lead, rfl⟩ := List.isSuffixOf_iff_suffix.mp hsuffix
    simp
  · cases h

/-- The path of a style goes on with a slash after its key. -/
theorem of_styleKeyOf {stylePath key : Bytes} (h : styleKeyOf stylePath = some key) : ∃ tail, AtBoundary tail ∧
    stylePath = key ++ tail := by
  unfold styleKeyOf at h
  split at h
  · rename_i styleKey hstrip
    cases h
    exact ⟨_, Or.inr ⟨utf8 "style.json", rfl⟩, of_stripTail hstrip⟩
  · split at h
    · rename_i styleKey hstrip
      cases h
      exact ⟨_, Or.inr ⟨utf8 "preview", rfl⟩, of_stripTail hstrip⟩
    · obtain ⟨tail, htail, hstrip⟩ := List.mem_filterMap.mp (List.mem_of_find?_eq_some h)
      refine ⟨utf8 tail, ?_, of_stripTail hstrip⟩
      simp only [List.mem_cons, List.not_mem_nil, or_false] at htail
      rcases htail with rfl | rfl | rfl | rfl
      · exact Or.inr ⟨utf8 "sprite@2x.json", rfl⟩
      · exact Or.inr ⟨utf8 "sprite@2x.png", rfl⟩
      · exact Or.inr ⟨utf8 "sprite.json", rfl⟩
      · exact Or.inr ⟨utf8 "sprite.png", rfl⟩

/-- The first segment of a key is that of the first parameter that it is made of. -/
theorem firstSegment_accept {source : KeySource} {parameter : Bytes} {parameters : List Bytes} {key : Bytes}
    (h : source.accept (parameter :: parameters) = some key) : firstSegment key = firstSegment parameter := by
  unfold KeySource.accept at h
  split at h
  · rename_i hparameters
    cases hparameters
    split at h
    · cases h
      rfl
    · cases h
  · rename_i hparameters
    cases hparameters
    split at h
    · cases h
      exact firstSegment_append (Or.inr ⟨_, rfl⟩)
    · cases h
  · rename_i hparameters
    cases hparameters
    obtain ⟨hkey, -⟩ := Option.filter_eq_some_iff.mp h
    obtain ⟨tail, hboundary, rfl⟩ := of_styleKeyOf hkey
    exact (firstSegment_append hboundary).symm
  · cases h

/-! ## Routes -/

/-- The first parameter of a route below one text is the first segment after it. -/
theorem of_captures_parameter {segment name : String} {parts : RoutePattern} {path : Bytes} {raws : List Bytes}
    (h : RoutePattern.captures (.text segment :: .parameter name :: parts) path = some raws) :
    ∃ rest raws', path = slash :: utf8 segment ++ slash :: rest ∧ raws = firstSegment rest :: raws' := by
  simp only [RoutePattern.captures] at h
  obtain ⟨rest, hrest, h⟩ := Option.bind_eq_some_iff.mp h
  rw [List.isPrefixOf?_eq_some_iff_append_eq] at hrest
  split at h
  · cases h
  · rename_i b rest
    split at h
    · rename_i hb
      obtain ⟨raws', -, rfl⟩ := Option.map_eq_some_iff.mp h
      exact ⟨rest, raws', by rw [← hrest, hb.1], rfl⟩
    · cases h

theorem of_captures_wildcard {segment name : String} {path : Bytes} {raws : List Bytes}
    (h : RoutePattern.captures [.text segment, .wildcard name] path = some raws) :
    ∃ rest, path = slash :: utf8 segment ++ slash :: rest ∧ raws = [rest] := by
  simp only [RoutePattern.captures] at h
  obtain ⟨rest, hrest, h⟩ := Option.bind_eq_some_iff.mp h
  rw [List.isPrefixOf?_eq_some_iff_append_eq] at hrest
  split at h
  · cases h
  · rename_i b rest
    split at h
    · rename_i hb
      cases h
      exact ⟨rest, by rw [← hrest, hb.1], rfl⟩
    · cases h

/-- The routes below `/tilesets/` and `/styles/`, which alone serve keys. -/
theorem route_cases {route : RoutePattern × KeySource} (h : route ∈ publicRouter) (hsource : route.2 ≠ .unscoped) :
    (∃ name parts, route.1 = .text "tilesets" :: .parameter name :: parts) ∨
      route.1 = [.text "styles", .wildcard "style_path"] := by
  simp only [publicRouter, List.mem_cons, List.not_mem_nil, or_false] at h
  rcases h with rfl | rfl | rfl | rfl | rfl | rfl | rfl | rfl | rfl | rfl | rfl | rfl | rfl | rfl | rfl | rfl <;>
    first
    | exact absurd rfl hsource
    | exact Or.inl ⟨_, _, rfl⟩
    | exact Or.inr rfl

/-- What `decoded_namespace` finds behind its lead. -/
theorem of_decodedNamespace {lead rest ns : Bytes} (h : decodedNamespace (lead ++ rest) lead = .ok ns) :
    ∃ decoded, decodeStrict (firstSegment rest) = .ok decoded ∧ ns = firstSegment decoded := by
  have hlead : lead.isPrefixOf? (lead ++ rest) = some rest := List.isPrefixOf?_eq_some_iff_append_eq.mpr rfl
  unfold decodedNamespace at h
  rw [hlead] at h
  simp only at h
  split at h
  · cases h
  · split at h
    · cases h
    · rename_i decoded hdecoded
      split at h
      · cases h
      · split at h
        · cases h
        · cases h
          exact ⟨decoded, hdecoded, rfl⟩

/-- A path on a route with a key: where the namespace that is found in it is, and the first parameter of the handler. -/
theorem served_below {route : RoutePattern × KeySource} (hroute : route ∈ publicRouter) {path key : Bytes}
    (hkey : servedKey route path = some key) :
    ∃ lead rest, path = lead ++ rest ∧ deliveryNamespace route.1 path = (decodedNamespace path lead).map
      (fun ns => some (some ns)) ∧
      (firstSegment key = firstSegment (percentDecode (firstSegment rest)) ∨
        firstSegment key = firstSegment (percentDecode rest)) := by
  obtain ⟨raws, hraws, hkey⟩ := Option.bind_eq_some_iff.mp hkey
  obtain ⟨parameters, hparameters, hkey⟩ := Option.bind_eq_some_iff.mp hkey
  have hsource : route.2 ≠ .unscoped := by
    intro hsource
    rw [hsource] at hkey
    unfold KeySource.accept at hkey
    split at hkey <;> simp_all
  have hfirst : ∀ raw raws', raws = raw :: raws' → firstSegment key = firstSegment (percentDecode raw) := by
    rintro raw raws' rfl
    rw [List.mapM_cons] at hparameters
    obtain ⟨parameter, hparameter, hparameters⟩ := Option.bind_eq_some_iff.mp hparameters
    obtain ⟨rest, -, hparameters⟩ := Option.bind_eq_some_iff.mp hparameters
    cases hparameters
    rw [firstSegment_accept hkey]
    unfold decodedParameter at hparameter
    split at hparameter
    · cases hparameter
      rfl
    · cases hparameter
  rcases route_cases hroute hsource with ⟨name, parts, hpattern⟩ | hpattern
  · rw [hpattern] at hraws
    obtain ⟨rest, raws', rfl, hcaptured⟩ := of_captures_parameter hraws
    refine ⟨utf8 "/tilesets/", rest, rfl, ?_, Or.inl (hfirst _ _ hcaptured)⟩
    rw [hpattern]
    rfl
  · rw [hpattern] at hraws
    obtain ⟨rest, rfl, hcaptured⟩ := of_captures_wildcard hraws
    refine ⟨utf8 "/styles/", rest, rfl, ?_, Or.inr (hfirst _ _ hcaptured)⟩
    rw [hpattern]
    rfl

end Biei.Ishikari
