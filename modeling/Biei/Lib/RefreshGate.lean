import Biei.Lib.Run
import Biei.Lib.Update

/-!
# A flag that one party holds and the others wait for

Parties that find the flag set register for an announcement, look at the flag again and then park; the one that sets it clears it
and announces that afterwards, as a step of its own. An announcement reaches whoever had registered before it. Nobody is left
parked: as long as a parked party has not been reached, the flag is set or its announcement is still to be made.
-/

/-- Where a party is. What it registered with is the number of announcements there had been. -/
inductive GateParty where
  | idle
  | registered (seen : Nat)
  | parked (seen : Nat)
  | refreshing
  | announcing
deriving DecidableEq

structure RefreshGate where
  busy : Bool
  announced : Nat
  parties : List GateParty

inductive GateMove where
  | register
  | park
  | claim
  | finish
  | announce
  | leave
deriving DecidableEq

inductive GateAction where
  | join
  | move (i : Nat) (move : GateMove)
deriving DecidableEq

namespace RefreshGate

def empty : RefreshGate := ⟨false, 0, []⟩

def setParty (g : RefreshGate) (i : Nat) (party : GateParty) : RefreshGate := { g with parties := g.parties.set i party }

/-- The flag is set by who finds it clear. -/
def claim (g : RefreshGate) (i : Nat) : Option RefreshGate :=
  if g.busy then none else some { g.setParty i .refreshing with busy := true }

theorem claim_of_clear {g : RefreshGate} {i : Nat} (h : ¬g.busy = true) :
    g.claim i = some { g.setParty i .refreshing with busy := true } :=
  if_neg h

/-- A move of the party at position `i`. -/
def move (g : RefreshGate) (i : Nat) : GateMove → GateParty → Option RefreshGate
  | .register, .idle => some (g.setParty i (.registered g.announced))
  | .park, .registered seen => if g.busy then some (g.setParty i (.parked seen)) else none
  | .claim, .idle => g.claim i
  | .claim, .registered _ => g.claim i
  | .finish, .refreshing => some { g.setParty i .announcing with busy := false }
  | .announce, .announcing => some { g.setParty i .idle with announced := g.announced + 1 }
  | .leave, .registered _ => some (g.setParty i .idle)
  | .leave, .parked _ => some (g.setParty i .idle)
  | _, _ => none

def step (g : RefreshGate) : GateAction → Option RefreshGate
  | .join => some { g with parties := g.parties ++ [.idle] }
  | .move i m => g.parties[i]?.bind (g.move i m)

def machine : Machine RefreshGate GateAction where
  init := empty
  step := step

/-- One party refreshes while the flag is set and none otherwise; parties registered with announcements that were made; and a
parked party has been reached, or is to be. -/
structure Sound (g : RefreshGate) : Prop where
  one : g.parties.countP (· == .refreshing) = if g.busy then 1 else 0
  seen : ∀ party ∈ g.parties, ∀ seen, party = .registered seen ∨ party = .parked seen → seen ≤ g.announced
  reached : ∀ party ∈ g.parties, ∀ seen, party = .parked seen → g.busy = true ∨ seen < g.announced ∨ .announcing ∈ g.parties

variable {g g' : RefreshGate} {i : Nat} {party : GateParty}

/-- The flag is set exactly while somebody refreshes. -/
theorem Sound.busy_iff (h : g.Sound) : g.busy = true ↔ .refreshing ∈ g.parties := by
  have hpos : 0 < g.parties.countP (· == .refreshing) ↔ .refreshing ∈ g.parties := by simp [List.countP_pos_iff]
  rw [← hpos, h.one]
  cases g.busy <;> simp

/-- Nobody else refreshes. -/
theorem Sound.refreshing_unique (h : g.Sound) {j : Nat} (hi : g.parties[i]? = some .refreshing)
    (hj : g.parties[j]? = some .refreshing) :
    i = j := by
  by_contra hne
  have htwo := two_le_countP (p := (· == .refreshing)) hne hi hj rfl rfl
  rw [h.one] at htwo
  cases hb : g.busy with
  | false =>
    rw [hb] at htwo
    simp at htwo
  | true =>
    rw [hb] at htwo
    simp at htwo

/-- Who is still among the parties after one of them moved. -/
theorem mem_set_of_ne {p q r : GateParty} (hi : g.parties[i]? = some p) (hr : r ∈ g.parties) (hne : r ≠ p) :
    r ∈ g.parties.set i q := by
  obtain ⟨j, hj⟩ := List.mem_iff_getElem?.mp hr
  refine List.mem_of_getElem? (i := j) ?_
  have hij : i ≠ j := by
    rintro rfl
    exact hne (Option.some.inj (hj.symm.trans hi))
  rw [List.getElem?_set_ne hij]
  exact hj

/-- A party moves that neither refreshes nor announces, to a place that does neither. -/
theorem Sound.setParty (h : g.Sound) (hi : g.parties[i]? = some party) {party' : GateParty} (hr : party ≠ .refreshing)
    (ha : party ≠ .announcing) (hr' : party' ≠ .refreshing)
      (hseen : ∀ k, party' = .registered k ∨ party' = .parked k → k ≤ g.announced)
    (hpark : ∀ k, party' = .parked k → g.busy = true) : (g.setParty i party').Sound := by
  refine ⟨?_, fun p hp k hk => ?_, fun p hp k hk => ?_⟩
  · have hcount := countP_set_add (· == GateParty.refreshing) hi party'
    rw [if_neg (by simpa using hr), if_neg (by simpa using hr')] at hcount
    exact hcount.trans h.one
  · rcases List.mem_or_eq_of_mem_set hp with hp | rfl
    · exact h.seen p hp k hk
    · exact hseen k hk
  · rcases List.mem_or_eq_of_mem_set hp with hp | rfl
    · rcases h.reached p hp k hk with hb | hlt | hann
      · exact Or.inl hb
      · exact Or.inr (Or.inl hlt)
      · exact Or.inr (Or.inr (mem_set_of_ne hi hann (Ne.symm ha)))
    · exact Or.inl (hpark k hk)

theorem Sound.claim (h : g.Sound) (hi : g.parties[i]? = some party) (hr : party ≠ .refreshing) (hs : g.claim i = some g') :
    g'.Sound := by
  unfold RefreshGate.claim at hs
  split at hs
  · cases hs
  · rename_i hbusy
    cases hs
    refine ⟨?_, fun p hp k hk => ?_, fun _ _ _ _ => Or.inl rfl⟩
    · have hcount := countP_set_add (· == GateParty.refreshing) hi .refreshing
      rw [if_neg (by simpa using hr), if_pos (by simp), h.one, if_neg hbusy] at hcount
      exact hcount
    · rcases List.mem_or_eq_of_mem_set hp with hp | rfl
      · exact h.seen p hp k hk
      · rcases hk with hk | hk
        · cases hk
        · cases hk

/-- The flag is cleared: whoever is parked is to be told. -/
theorem Sound.finish (h : g.Sound) (hi : g.parties[i]? = some .refreshing) :
    Sound { g.setParty i .announcing with busy := false } := by
  have hbusy : g.busy = true := h.busy_iff.mpr (List.mem_of_getElem? hi)
  refine ⟨?_, fun p hp k hk => ?_, fun _ _ _ _ => Or.inr (Or.inr (List.mem_of_getElem? (getElem?_set_of_some hi _)))⟩
  · have hcount := countP_set_add (· == GateParty.refreshing) hi .announcing
    rw [if_pos (by simp), if_neg (by simp), h.one, if_pos hbusy] at hcount
    show (g.parties.set i .announcing).countP _ = 0
    omega
  · rcases List.mem_or_eq_of_mem_set hp with hp | rfl
    · exact h.seen p hp k hk
    · rcases hk with hk | hk
      · cases hk
      · cases hk

/-- An announcement reaches all that are registered or parked. -/
theorem Sound.announce (h : g.Sound) (hi : g.parties[i]? = some .announcing) :
    Sound { g.setParty i .idle with announced := g.announced + 1 } := by
  refine ⟨?_, fun p hp k hk => ?_, fun p hp k hk => ?_⟩
  · have hcount := countP_set_add (· == GateParty.refreshing) hi .idle
    rw [if_neg (by simp), if_neg (by simp)] at hcount
    exact hcount.trans h.one
  · rcases List.mem_or_eq_of_mem_set hp with hp | rfl
    · exact Nat.le_succ_of_le (h.seen p hp k hk)
    · rcases hk with hk | hk
      · cases hk
      · cases hk
  · rcases List.mem_or_eq_of_mem_set hp with hp | rfl
    · exact Or.inr (Or.inl (Nat.lt_succ_of_le (h.seen p hp k (Or.inr hk))))
    · cases hk

theorem Sound.join (h : g.Sound) : Sound { g with parties := g.parties ++ [.idle] } := by
  have hcases : ∀ p ∈ g.parties ++ [GateParty.idle], p ∈ g.parties ∨ p = .idle := fun p hp => by
    simpa using hp
  refine ⟨?_, fun p hp k hk => ?_, fun p hp k hk => ?_⟩
  · show (g.parties ++ [GateParty.idle]).countP _ = _
    rw [List.countP_append, h.one]
    rfl
  · rcases hcases p hp with hp | rfl
    · exact h.seen p hp k hk
    · rcases hk with hk | hk
      · cases hk
      · cases hk
  · rcases hcases p hp with hp | rfl
    · rcases h.reached p hp k hk with hb | hlt | hann
      · exact Or.inl hb
      · exact Or.inr (Or.inl hlt)
      · exact Or.inr (Or.inr (List.mem_append_left _ hann))
    · cases hk

theorem Sound.move {m : GateMove} (h : g.Sound) (hi : g.parties[i]? = some party) (hs : g.move i m party = some g') :
    g'.Sound := by
  unfold RefreshGate.move at hs
  split at hs
  · cases hs
    refine h.setParty hi (by simp) (by simp) (by simp) (fun k hk => ?_) fun k hk => by cases hk
    rcases hk with hk | hk
    · injection hk with hk
      exact Nat.le_of_eq hk.symm
    · cases hk
  · rename_i seen
    split at hs
    · rename_i hbusy
      cases hs
      refine h.setParty hi (by simp) (by simp) (by simp) (fun k hk => ?_) fun _ _ => hbusy
      rcases hk with hk | hk
      · cases hk
      · injection hk with hk
        exact hk ▸ h.seen _ (List.mem_of_getElem? hi) seen (Or.inl rfl)
    · cases hs
  · exact h.claim hi (by simp) hs
  · exact h.claim hi (by simp) hs
  · cases hs
    exact h.finish hi
  · cases hs
    exact h.announce hi
  · cases hs
    exact h.setParty hi (by simp) (by simp) (by simp) (fun k hk => by rcases hk with hk | hk <;> cases hk) fun k hk => by cases hk
  · cases hs
    exact h.setParty hi (by simp) (by simp) (by simp) (fun k hk => by rcases hk with hk | hk <;> cases hk) fun k hk => by cases hk
  · cases hs

theorem sound_of_reachable (h : machine.Reachable g) : g.Sound := by
  refine h.invariant (I := Sound) ⟨rfl, fun _ hp => absurd hp List.not_mem_nil, fun _ hp => absurd hp List.not_mem_nil⟩ ?_
  intro g a g' hg hs
  cases a with
  | join =>
    cases hs
    exact hg.join
  | move i m =>
    obtain ⟨party, hi, hmove⟩ := Option.bind_eq_some_iff.mp hs
    exact hg.move hi hmove

/-- One party at the most refreshes, the flag says whether one does, and while none does nobody is parked whom no announcement has
reached or is about to. -/
structure Kept (g : RefreshGate) : Prop where
  one : ∀ i j : Nat, g.parties[i]? = some .refreshing → g.parties[j]? = some .refreshing → i = j
  flag : g.busy = true ↔ .refreshing ∈ g.parties
  awake : g.busy = false → ∀ seen, .parked seen ∈ g.parties → seen < g.announced ∨ .announcing ∈ g.parties

theorem Sound.kept (h : g.Sound) : g.Kept := by
  refine ⟨fun i j hi hj => h.refreshing_unique hi hj, h.busy_iff, fun hclear seen hseen => ?_⟩
  rcases h.reached _ hseen seen rfl with hbusy | hrest
  · exact absurd (hclear.symm.trans hbusy) (by decide)
  · exact hrest

/-! ## Following the gate -/

/-- The gate makes a step, or none. -/
def Goes (g g' : RefreshGate) : Prop := g' = g ∨ ∃ a, g.step a = some g'

theorem Goes.refl (g : RefreshGate) : g.Goes g := Or.inl rfl

theorem Goes.join (g : RefreshGate) : g.Goes { g with parties := g.parties ++ [.idle] } := Or.inr ⟨.join, rfl⟩

theorem Goes.move {m : GateMove} {party : GateParty} (hi : g.parties[i]? = some party) (hs : g.move i m party = some g') :
    g.Goes g' := by
  refine Or.inr ⟨.move i m, ?_⟩
  show g.parties[i]?.bind (g.move i m) = some g'
  rw [hi]
  exact hs

section

variable {γ : Type*} {place : γ → GateParty} {l : List γ} {c c' : γ} {busy busy' : Bool} {announced announced' : Nat}

/-- One of those that are at the gate with a place of their own moves there. -/
theorem Goes.move_map {m : GateMove} (hi : l[i]? = some c) (hc : place c = party)
    (hs : RefreshGate.move ⟨busy, announced, l.map place⟩ i m party = some ⟨busy', announced', (l.map place).set i (place c')⟩) :
    Goes ⟨busy, announced, l.map place⟩ ⟨busy', announced', (l.set i c').map place⟩ := by
  rw [List.map_set]
  refine .move ?_ hs
  show (l.map place)[i]? = _
  rw [List.getElem?_map, hi, Option.map_some, hc]

/-- One that moves on keeps its place at the gate. -/
theorem Goes.stay_map (hi : l[i]? = some c) (hc : place c' = place c) :
    Goes ⟨busy, announced, l.map place⟩ ⟨busy, announced, (l.set i c').map place⟩ := by
  obtain ⟨hlt, rfl⟩ := List.getElem?_eq_some_iff.mp hi
  have hsame : (l.set i c').map place = l.map place := by
    rw [List.map_set, hc, ← List.map_set, List.set_getElem_self]
  rw [hsame]
  exact .refl _

theorem Goes.join_map (hc : place c = .idle) :
    Goes ⟨busy, announced, l.map place⟩ ⟨busy, announced, (l ++ [c]).map place⟩ := by
  rw [List.map_append, List.map_singleton, hc]
  exact .join _

end

end RefreshGate
