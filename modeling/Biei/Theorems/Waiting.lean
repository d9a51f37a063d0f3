import Biei.Lemmas.Waiting
import Biei.Theorems.Forwarding

/-!
# Waiting across nodes

A forwarded task joins the flight of its key on the node it reaches, also when that flight's leader is itself waiting for a peer.
-/

open Relation

namespace Biei

namespace Cluster

variable {S : ClusterSpec} {s s' : Cluster}

/-- The leader of a flight sends its task to a node from which the hops of the same key do not lead back to its own. -/
def ClearSend (s : Cluster) (a : ClusterAction) : Prop :=
  ∀ i now h candidate rest, a = .send i now → s.handlers[i]? = some h → h.caller ≠ none →
    h.phase = .forwarding (candidate :: rest) → forwardBudgetTooSmall h.task now = false →
    ¬ReflTransGen (s.Hop (.fromTask h.task)) candidate.nodeId h.node

/-- The handling goes on without waiting for another task: it runs on its node, or what it waits for is a message on its way. -/
def AtWork (s : Cluster) (h : Handler) : Prop :=
  match h.phase with
  -- in the middle of a lookup, or to be woken because the leader of its flight is gone
  | .acquiring => ∃ c, s.callerOf h = some c ∧ ∀ f, c.phase = .waiting f → (s.caches h.node).inFlight c.key ≠ some f
  -- the request or its answer is on its way
  | .sent m _ => ∃ msg, s.messages[m]? = some msg ∧
      ∀ j, msg.delivered = some j → ∃ d, s.handlers[j]? = some d ∧ d.phase.isOver = true
  | _ => True

/-- The steps that meet the condition make no circle of hops. -/
theorem hops_acyclic_step {a : ClusterAction} (hforward : ForwardInv S s) (hs : Stepped S s a s') (hclear : ClearSend s a)
    (hhops : ∀ k, Acyclic (s.Hop k)) : ∀ k, Acyclic (s'.Hop k) := by
  intro k
  by_cases hsend : ∃ i now h candidate rest, a = .send i now ∧ s.handlers[i]? = some h ∧ h.caller ≠ none ∧
      h.phase = .forwarding (candidate :: rest) ∧ forwardBudgetTooSmall h.task now = false ∧
      RenderCacheKey.fromTask h.task = k
  · obtain ⟨i, now, h, candidate, rest, ha, hi, hcaller, hp, hb, rfl⟩ := hsend
    have hback := hclear i now h candidate rest ha hi hcaller hp hb
    refine ((hhops _).insert hback).mono ?_
    intro x y hhop
    rcases Hop.of_step hforward hs hhop with hold | ⟨i', now', h', candidate', rest', ha', hi', -, hp', -, -, rfl, rfl⟩
    · exact Or.inl hold
    · obtain ⟨rfl, rfl⟩ := ClusterAction.send.inj (ha.symm.trans ha')
      cases hi.symm.trans hi'
      obtain ⟨rfl, -⟩ := List.cons.inj (HandlerPhase.forwarding.inj (hp.symm.trans hp'))
      exact Or.inr ⟨rfl, rfl⟩
  · refine (hhops k).mono ?_
    intro x y hhop
    rcases Hop.of_step hforward hs hhop with hold | ⟨i, now, h, candidate, rest, ha, hi, hcaller, hp, hb, hkey, -⟩
    · exact hold
    · exact absurd ⟨i, now, h, candidate, rest, ha, hi, hcaller, hp, hb, hkey⟩ hsend

theorem reachedBy_inv (h : (machine S).ReachedBy ClearSend s) :
    FlightsInv s ∧ ForwardInv S s ∧ ∀ k, Acyclic (s.Hop k) := by
  refine h.invariant (I := fun s => FlightsInv s ∧ ForwardInv S s ∧ ∀ k, Acyclic (s.Hop k)) ?_ ?_
  · refine ⟨FlightsInv.new, ForwardInv.new, ?_⟩
    intro k x hx
    obtain ⟨y, hxy, -⟩ := TransGen.head'_iff.mp hx
    obtain ⟨i, h, -, -, -, hi, -⟩ := hxy
    cases hi
  · intro s a s' hinv hclear hs
    have hstepped : Stepped S s a s' := step_stepped hs
    exact ⟨hinv.1.step hstepped, hinv.2.1.step hstepped, hops_acyclic_step hinv.2.1 hstepped hclear hinv.2.2⟩

/-- Who waits for no task is at work. -/
theorem atWork_of_not_waiting (hflights : FlightsInv s) (hforward : ForwardInv S s) {i : Nat} {h : Handler}
    (hi : s.handlers[i]? = some h) (hend : ∀ j, ¬s.WaitsFor i j) : s.AtWork h := by
  unfold AtWork
  split
  · rename_i hp
    cases hcaller : h.caller with
    | none => exact absurd hp (hflights.uncached i h hi hcaller)
    | some p =>
      obtain ⟨c, hc, -⟩ := hflights.caller i h p hi hcaller
      have hcaller' : s.callerOf h = some c := by
        simp only [callerOf, hcaller, Option.bind_some]
        exact hc
      refine ⟨c, hcaller', ?_⟩
      intro f hw hmap
      -- the flight is in the map, so its leader is alive and belongs to a handler of the node
      obtain ⟨q, e, he, -, hleads⟩ := (hflights.caches h.node).leader c.key f hmap
      obtain ⟨j, d, hd, hnode, hq⟩ := hflights.owner h.node q (List.getElem?_eq_some_iff.mp he).1
      have hcallerd : s.callerOf d = some e := by
        simp only [callerOf, hq, Option.bind_some, hnode]
        exact he
      exact hend j (Or.inl ⟨h, d, c, e, f, hi, hd, hnode.symm, hcaller', hcallerd, hw, hleads⟩)
  · rename_i m rest hp
    obtain ⟨msg, hm, -⟩ := hforward.sent i h m rest hi hp
    refine ⟨msg, hm, ?_⟩
    intro j hdel
    obtain ⟨d, tier, hd, -⟩ := hforward.delivered m msg j hm hdel
    refine ⟨d, hd, ?_⟩
    by_contra hover
    exact hend j (Or.inr ⟨h, d, m, rest, msg, hi, hp, hm, hdel, hd, Bool.eq_false_iff.mpr hover⟩)
  · exact trivial

/-- Whoever is waited for is a task that is not over. -/
theorem WaitsFor.live (hflights : FlightsInv s) {i j : Nat} (h : s.WaitsFor i j) :
    ∃ d, s.handlers[j]? = some d ∧ d.phase.isOver = false := by
  rcases h with ⟨-, d, -, e, f, -, hj, -, -, he, -, hl⟩ | ⟨-, d, -, -, -, -, -, -, -, hj, hover⟩
  · refine ⟨d, hj, ?_⟩
    have hsuits := (hflights.callerOf hj he).2
    rcases hl with hl | ⟨o, hl⟩
    · rw [hl] at hsuits
      cases hph : d.phase <;> rw [hph] at hsuits <;> simp [HandlerPhase.suits, HandlerPhase.isOver] at hsuits ⊢
    · rw [hl] at hsuits
      cases hph : d.phase <;> rw [hph] at hsuits <;> simp [HandlerPhase.suits, HandlerPhase.isOver] at hsuits ⊢
  · exact ⟨d, hj, hover⟩

/-- In every run in which no send closes a circle of hops: nobody waits, over any number of tasks, for itself; every chain of
waiting tasks ends in a task that is at work; and no set of tasks waits for itself only. -/
theorem waiting_acyclic_of_clear_sends (S : ClusterSpec) (s : Cluster) (h : (machine S).ReachedBy ClearSend s) :
    Acyclic s.WaitsFor ∧
    (∀ (i : Nat) h, s.handlers[i]? = some h → h.phase.isOver = false →
      ∃ j d, ReflTransGen s.WaitsFor i j ∧ (∀ k, ¬s.WaitsFor j k) ∧ s.handlers[j]? = some d ∧ d.phase.isOver = false ∧
        s.AtWork d) ∧
    ∀ T : Set Nat, T.Nonempty → ¬∀ i ∈ T, ∃ j ∈ T, s.WaitsFor i j := by
  obtain ⟨hflights, hforward, hhops⟩ := reachedBy_inv h
  have hacyclic := waitsFor_acyclic hflights hforward hhops
  have hfin : {i | ∃ j, s.WaitsFor i j}.Finite := by
    refine (Set.finite_lt_nat s.handlers.length).subset ?_
    intro i hi
    obtain ⟨j, ⟨d, -, -, -, -, hd, -⟩ | ⟨d, -, -, -, -, hd, -⟩⟩ := hi
    · exact (List.getElem?_eq_some_iff.mp hd).1
    · exact (List.getElem?_eq_some_iff.mp hd).1
  refine ⟨hacyclic, ?_, fun T hT => hacyclic.not_closed hfin hT⟩
  intro i h hi hlive
  obtain ⟨j, hij, hend⟩ := hacyclic.exists_end hfin i
  have hj : ∃ d, s.handlers[j]? = some d ∧ d.phase.isOver = false := by
    rcases ReflTransGen.cases_tail hij with rfl | ⟨l, -, hlj⟩
    · exact ⟨h, hi, hlive⟩
    · exact hlj.live hflights
  obtain ⟨d, hd, hover⟩ := hj
  exact ⟨j, d, hij, hend, hd, hover, atWork_of_not_waiting hflights hforward hd hend⟩

/-! ## Two runs -/

/-- Two members; gossip still tells of an idle peer. -/
def idlePeer (peer : String) : ClusterView where
  members := [⟨"a"⟩, ⟨"b"⟩]
  states := [(⟨peer⟩, Dispatcher.oneWorker peer none 0)]
  keys := List.nodup_singleton _
  ids := by simp [Dispatcher.oneWorker]

/-- `a` leads the flight of a task and decides to send it to `b`. -/
def leadRun : List ClusterAction :=
  [.handleIncoming ⟨"a"⟩ Dispatcher.tileTask 0, .cache ⟨"a"⟩ (.cacheGet 0), .cache ⟨"a"⟩ (.lockFlights 0), .acquired 0 true,
    .route 0 0 (some (idlePeer "b")) true [⟨0, none, 4⟩] true]

/-- While nobody waits for a peer, a send to another node is clear. -/
theorem clearSend_of_first {s : Cluster} (hs : (s.handlers.all fun h =>
      match h.phase with
      | .sent .. => false
      | .forwarding (candidate :: _) => decide (candidate.nodeId ≠ h.node)
      | _ => true) = true) (a : ClusterAction) : ClearSend s a := by
  rw [List.all_eq_true] at hs
  intro i now h candidate rest _ hi _ hp _ hback
  rcases ReflTransGen.cases_head hback with heq | ⟨y, hhop, -⟩
  · have hne := hs h (List.mem_of_getElem? hi)
    rw [hp] at hne
    exact of_decide_eq_true hne heq
  · obtain ⟨j, d, m, rest', msg, hd, -, -, -, hph, -⟩ := hhop
    have hno := hs d (List.mem_of_getElem? hd)
    rw [hph] at hno
    cases hno

theorem waiting_acyclic_of_clear_sends_leadRun :
    ∃ s, (machine uniformSpec).run new (leadRun ++ [.send 0 0, .deliver 0 0 0 true true]) = some s ∧ s.WaitsFor 0 1 ∧
      Acyclic s.WaitsFor := by
  have hquiet : ∀ a : ClusterAction, (∀ i now, a ≠ .send i now) → ∀ u, ClearSend u a :=
    fun a ha u i now _ _ _ hsend => absurd hsend (ha i now)
  have hlead : ∀ a ∈ leadRun, ∀ u, ClearSend u a := by
    intro a ha
    refine hquiet a ?_
    intro i now hsend
    subst hsend
    simp [leadRun] at ha
  refine ⟨_, rfl, Or.inr ⟨_, _, 0, [], _, rfl, rfl, rfl, rfl, rfl, rfl⟩, ?_⟩
  have hled := Machine.ReachedBy.run .init hlead (show (machine uniformSpec).run _ leadRun = some _ from rfl)
  have hsent := hled.step (clearSend_of_first rfl (.send 0 0)) (show (machine uniformSpec).step _ _ = some _ from rfl)
  exact (waiting_acyclic_of_clear_sends uniformSpec _ (hsent.step (hquiet (.deliver 0 0 0 true true) (fun _ _ => nofun) _)
    (show (machine uniformSpec).step _ _ = some _ from rfl))).1

/-- The same task arrives at two nodes, each full and each told that the other is idle. Both lead a flight for its key, each sends
its task to the other, and the sent tasks join the flights they find. -/
def crossRun : List ClusterAction :=
  [.handleIncoming ⟨"a"⟩ Dispatcher.tileTask 0, .cache ⟨"a"⟩ (.cacheGet 0), .cache ⟨"a"⟩ (.lockFlights 0), .acquired 0 true,
    .handleIncoming ⟨"b"⟩ Dispatcher.tileTask 0, .cache ⟨"b"⟩ (.cacheGet 0), .cache ⟨"b"⟩ (.lockFlights 0), .acquired 1 true,
    .route 0 0 (some (idlePeer "b")) true [⟨0, none, 4⟩] true, .send 0 0,
    .route 1 0 (some (idlePeer "a")) true [⟨0, none, 4⟩] true, .send 1 0,
    .deliver 0 0 0 true true, .cache ⟨"b"⟩ (.cacheGet 1), .cache ⟨"b"⟩ (.lockFlights 1),
    .deliver 1 0 0 true true, .cache ⟨"a"⟩ (.cacheGet 1), .cache ⟨"a"⟩ (.lockFlights 1)]

/-- The two leaders and the two forwarded tasks wait in a circle. -/
theorem crossRun_waits_in_circle :
    ∃ s, (machine uniformSpec).run new crossRun = some s ∧
      s.WaitsFor 0 2 ∧ s.WaitsFor 2 1 ∧ s.WaitsFor 1 3 ∧ s.WaitsFor 3 0 ∧ ¬Acyclic s.WaitsFor := by
  have hcircle : ∀ r : Nat → Nat → Prop, r 0 2 → r 2 1 → r 1 3 → r 3 0 → r 0 2 ∧ r 2 1 ∧ r 1 3 ∧ r 3 0 ∧ ¬Acyclic r :=
    fun r h1 h2 h3 h4 => ⟨h1, h2, h3, h4, fun h => h 0 (((TransGen.single h1).tail h2).tail h3 |>.tail h4)⟩
  refine ⟨_, rfl, hcircle _ ?_ ?_ ?_ ?_⟩
  · exact Or.inr ⟨_, _, 0, [], _, rfl, rfl, rfl, rfl, rfl, rfl⟩
  · exact Or.inl ⟨_, _, _, _, 0, rfl, rfl, rfl, rfl, rfl, rfl, Or.inl rfl⟩
  · exact Or.inr ⟨_, _, 1, [], _, rfl, rfl, rfl, rfl, rfl, rfl⟩
  · exact Or.inl ⟨_, _, _, _, 0, rfl, rfl, rfl, rfl, rfl, rfl, Or.inl rfl⟩

end Cluster

end Biei
