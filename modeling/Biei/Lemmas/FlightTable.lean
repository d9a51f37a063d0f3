import Biei.Common.FlightTable

/-!
# What the flight table keeps

Each channel is the one of its guard and is as the guard's phase says.
-/

namespace Biei

section

variable {κ ε : Type}

namespace LeaderGuard

/-- The guard has not taken its entry out of the map. -/
def Holds (guard : LeaderGuard κ ε) : Prop := guard.phase = .live ∨ guard.phase = .dropping

/-- A follower of the guard has something to wake for. -/
def Told (guard : LeaderGuard κ ε) : Prop := (∃ sender, guard.phase = .sent sender ∧ guard.outcome ≠ none) ∨ guard.phase = .ended

/-- The channel of a guard. -/
def channelState (guard : LeaderGuard κ ε) : WatchChannel ε :=
  match guard.phase with
  | .live => ⟨none, false, false⟩
  | .dropping => ⟨none, false, false⟩
  | .removed _ => ⟨none, false, false⟩
  | .sent _ => ⟨guard.outcome, guard.outcome.isSome, false⟩
  | .ended => ⟨guard.outcome, guard.outcome.isSome, true⟩

/-- The guard at position `g`: live guards have no outcome yet, and the sender taken out was the guard's own. -/
structure Ok (g : Nat) (guard : LeaderGuard κ ε) : Prop where
  channel : guard.channel = g
  fresh : guard.phase = .live → guard.outcome = none
  removed : ∀ sender, guard.phase = .removed sender → sender = some g
  sent : ∀ sender, guard.phase = .sent sender → sender = some g

/-- The channel has something to wake for when the guard says so. -/
theorem told_iff (guard : LeaderGuard κ ε) : (guard.channelState.changed || guard.channelState.closed) = true ↔ guard.Told := by
  unfold channelState Told
  cases hphase : guard.phase with
  | live => simp
  | dropping => simp
  | removed sender => simp
  | sent sender => simp [Option.isSome_iff_ne_none]
  | ended => simp

/-- A guard whose followers are told has its outcome in the channel. -/
theorem Told.value {guard : LeaderGuard κ ε} (h : guard.Told) : guard.channelState.value = guard.outcome := by
  unfold channelState
  rcases h with ⟨sender, hphase, -⟩ | hphase
  · rw [hphase]
  · rw [hphase]

end LeaderGuard

namespace FlightTable

/-- What a follower has seen of its guard. -/
def Seen (t : FlightTable κ ε) (follower : Follower ε) : Prop :=
  ∃ guard, t.guards[follower.receiver]? = some guard ∧ (follower.phase = .woken → guard.Told) ∧
    ∀ value, follower.phase = .returned value → guard.Told ∧ value = guard.outcome

/-- The table is as the code leaves it. -/
structure Sound (t : FlightTable κ ε) : Prop where
  length : t.channels.length = t.guards.length
  guards : ∀ (g : Nat) guard, t.guards[g]? = some guard → guard.Ok g ∧ t.channels[g]? = some guard.channelState
  entry : ∀ key c, t.entries key = some c ↔ ∃ guard, t.guards[c]? = some guard ∧ guard.key = key ∧ guard.Holds
  followers : ∀ follower ∈ t.followers, t.Seen follower

variable {t t' : FlightTable κ ε}

/-- The guards of a key that are in the map are one. -/
theorem Sound.unique {g g' : Nat} {guard guard' : LeaderGuard κ ε} (h : t.Sound) (hg : t.guards[g]? = some guard)
    (hg' : t.guards[g']? = some guard') (hkey : guard.key = guard'.key) (hh : guard.Holds) (hh' : guard'.Holds) : g = g' := by
  have he := (h.entry guard.key g).mpr ⟨guard, hg, rfl, hh⟩
  have he' := (h.entry guard.key g').mpr ⟨guard', hg', hkey.symm, hh'⟩
  exact Option.some.inj (he.symm.trans he')

variable {g : Nat}

/-- What a guard in the map has there. -/
theorem Sound.entry_of_holds {guard : LeaderGuard κ ε} (h : t.Sound) (hg : t.guards[g]? = some guard) (hh : guard.Holds) :
    t.entries guard.key = some g :=
  (h.entry guard.key g).mpr ⟨guard, hg, rfl, hh⟩

/-- A follower that has returned has the outcome of a guard that told it. -/
theorem Sound.returned (h : t.Sound) {follower : Follower ε} (hf : follower ∈ t.followers) {value : Option ε}
    (hv : follower.phase = .returned value) :
    ∃ guard, t.guards[follower.receiver]? = some guard ∧ guard.Told ∧ value = guard.outcome := by
  obtain ⟨guard, hg, -, hreturned⟩ := h.followers follower hf
  exact ⟨guard, hg, hreturned value hv⟩

/-- A follower that was told nothing had a guard that has ended. -/
theorem Sound.ended_of_none (h : t.Sound) {follower : Follower ε} (hf : follower ∈ t.followers)
    (hv : follower.phase = .returned none) : ∃ guard, t.guards[follower.receiver]? = some guard ∧ guard.phase = .ended := by
  obtain ⟨guard, hg, ⟨sender, -, hsome⟩ | hended, hnone⟩ := h.returned hf hv
  · exact absurd hnone.symm hsome
  · exact ⟨guard, hg, hended⟩

section

variable {g : Nat} {guard guard' : LeaderGuard κ ε}

/-- One guard moves on: the channels and followers are as before but for its own. -/
theorem Sound.setGuard {entries : κ → Option Nat} {channels : List (WatchChannel ε)} (h : t.Sound)
    (hg : t.guards[g]? = some guard)
    (hkey : guard'.key = guard.key) (hok : guard'.Ok g) (hlength : channels.length = t.channels.length)
    (hchannels : ∀ c, channels[c]? = if c = g then some guard'.channelState else t.channels[c]?)
    (hentry : ∀ key c, entries key = some c ↔ if c = g then guard.key = key ∧ guard'.Holds else t.entries key = some c)
    (htold : guard.Told → guard'.Told ∧ guard'.outcome = guard.outcome) :
    Sound { t with entries := entries, channels := channels, guards := t.guards.set g guard' } := by
  have hself := getElem?_set_of_some hg guard'
  refine ⟨by simpa [hlength] using h.length, fun g' other hother => ?_, fun key c => ?_, fun follower hf => ?_⟩
  · rcases getElem?_set_cases hg hother with ⟨rfl, rfl⟩ | ⟨hne, hother⟩
    · exact ⟨hok, by rw [hchannels, if_pos rfl]⟩
    · obtain ⟨hothers, hchannel⟩ := h.guards g' other hother
      exact ⟨hothers, by rw [hchannels, if_neg hne, hchannel]⟩
  · rw [hentry key c]
    by_cases hc : c = g
    · subst hc
      rw [if_pos rfl]
      constructor
      · rintro ⟨hk, hholds⟩
        exact ⟨guard', hself, hkey.trans hk, hholds⟩
      · rintro ⟨other, hother, hk, hholds⟩
        cases hself.symm.trans hother
        exact ⟨hkey.symm.trans hk, hholds⟩
    · rw [if_neg hc, h.entry key c]
      simp only [List.getElem?_set_ne (Ne.symm hc)]
  · obtain ⟨seen, hseen, hwoken, hreturned⟩ := h.followers follower hf
    by_cases hr : follower.receiver = g
    · rw [hr] at hseen
      cases hg.symm.trans hseen
      refine ⟨guard', hr ▸ hself, fun hw => (htold (hwoken hw)).1, fun value hv => ?_⟩
      obtain ⟨ht, rfl⟩ := hreturned value hv
      exact ⟨(htold ht).1, (htold ht).2.symm⟩
    · refine ⟨seen, ?_, hwoken, hreturned⟩
      rw [← hseen]
      exact List.getElem?_set_ne (Ne.symm hr)

/-- A guard that stays where it was with regard to the map. -/
theorem Sound.entry_same (h : t.Sound) (hg : t.guards[g]? = some guard) (hholds : guard'.Holds ↔ guard.Holds) (key : κ)
    (c : Nat) :
    t.entries key = some c ↔ if c = g then guard.key = key ∧ guard'.Holds else t.entries key = some c := by
  by_cases hc : c = g
  · subst hc
    rw [if_pos rfl, h.entry, hholds]
    constructor
    · rintro ⟨other, hother, hk, hh⟩
      cases hg.symm.trans hother
      exact ⟨hk, hh⟩
    · rintro ⟨hk, hh⟩
      exact ⟨guard, hg, hk, hh⟩
  · rw [if_neg hc]

/-- The channel of a guard is set to what the guard's new phase says. -/
theorem Sound.channels_set (h : t.Sound) (hg : t.guards[g]? = some guard) (change : WatchChannel ε → WatchChannel ε)
    (hchange : change guard.channelState = guard'.channelState) (c : Nat) :
    (t.channels.modify g change)[c]? = if c = g then some guard'.channelState else t.channels[c]? := by
  by_cases hc : c = g
  · subst hc
    rw [if_pos rfl, List.getElem?_modify_eq, (h.guards c guard hg).2, Option.map_eq_map, Option.map_some, hchange]
  · simp [hc, Ne.symm hc]

theorem Sound.channels_same (h : t.Sound) (hg : t.guards[g]? = some guard) (hsame : guard'.channelState = guard.channelState)
    (c : Nat) :
    t.channels[c]? = if c = g then some guard'.channelState else t.channels[c]? := by
  by_cases hc : c = g
  · subst hc
    rw [if_pos rfl, (h.guards c guard hg).2, hsame]
  · rw [if_neg hc]

/-- A live guard is dropped, with or without an outcome. -/
theorem Sound.release (h : t.Sound) (hg : t.guards[g]? = some guard) (hphase : guard.phase = .live) (outcome : Option ε) :
    Sound { t with guards := t.guards.set g { guard with outcome := outcome, phase := .dropping } } := by
  obtain ⟨hok, -⟩ := h.guards g guard hg
  refine h.setGuard hg rfl ⟨hok.channel, fun hp => (by cases hp), fun _ hp => (by cases hp), fun _ hp => by cases hp⟩ rfl ?_ ?_ ?_
  · exact h.channels_same hg (by simp [LeaderGuard.channelState, hphase])
  · exact h.entry_same hg ⟨fun _ => Or.inl hphase, fun _ => Or.inr rfl⟩
  · rintro (⟨sender, hp, -⟩ | hp)
    · rw [hphase] at hp
      cases hp
    · rw [hphase] at hp
      cases hp

end

theorem Sound.empty : (FlightTable.empty : FlightTable κ ε).Sound := by
  refine ⟨rfl, fun g guard hg => ?_, fun key c => ⟨fun hc => (by cases hc), ?_⟩, fun _ hf => absurd hf List.not_mem_nil⟩
  · simp [FlightTable.empty] at hg
  · rintro ⟨guard, hg, -⟩
    simp [FlightTable.empty] at hg

/-- The guard that a step moves, with its phase. -/
theorem moveGuard_inv {move : LeaderGuard κ ε → Option (LeaderGuard κ ε)} (hs : t.moveGuard g move = some t') :
    ∃ guard guard', t.guards[g]? = some guard ∧ move guard = some guard' ∧ t' = { t with guards := t.guards.set g guard' } := by
  obtain ⟨guard, hg, hmap⟩ := Option.bind_eq_some_iff.mp hs
  obtain ⟨guard', hmove, rfl⟩ := Option.map_eq_some_iff.mp hmap
  exact ⟨guard, guard', hg, hmove, rfl⟩

theorem completeWith_inv {value : ε} (hs : t.moveGuard g (completeWith value) = some t') :
    ∃ guard, t.guards[g]? = some guard ∧ guard.phase = .live ∧
      t' = { t with guards := t.guards.set g { guard with outcome := some value, phase := .dropping } } := by
  obtain ⟨guard, guard', hg, hmove, rfl⟩ := moveGuard_inv hs
  unfold completeWith at hmove
  split at hmove
  · rename_i hphase
    cases hmove
    exact ⟨guard, hg, hphase, rfl⟩
  · cases hmove

theorem dropGuard_inv (hs : t.moveGuard g dropGuard = some t') :
    ∃ guard, t.guards[g]? = some guard ∧ guard.phase = .live ∧
      t' = { t with guards := t.guards.set g { guard with phase := .dropping } } := by
  obtain ⟨guard, guard', hg, hmove, rfl⟩ := moveGuard_inv hs
  unfold dropGuard at hmove
  split at hmove
  · rename_i hphase
    cases hmove
    exact ⟨guard, hg, hphase, rfl⟩
  · cases hmove

/-- What was made of the guard's outcome once its sender was taken out of the map. -/
theorem send_inv (hs : t.send g = some t') :
    ∃ guard sender, t.guards[g]? = some guard ∧ guard.phase = .removed sender ∧ t' = { t with
      channels :=
        match guard.outcome with
        | some value => t.setChannel sender fun channel => { channel with value := some value, changed := true }
        | none => t.channels
      guards := t.guards.set g { guard with phase := .sent sender } } := by
  obtain ⟨guard, hg, hmove⟩ := Option.bind_eq_some_iff.mp hs
  split at hmove
  · rename_i sender hphase
    exact ⟨guard, sender, hg, hphase, (Option.some.inj hmove).symm⟩
  · cases hmove

theorem close_inv (hs : t.close g = some t') :
    ∃ guard sender, t.guards[g]? = some guard ∧ guard.phase = .sent sender ∧ t' = { t with
      channels := t.setChannel sender fun channel => { channel with closed := true }
      guards := t.guards.set g { guard with phase := .ended } } := by
  obtain ⟨guard, hg, hmove⟩ := Option.bind_eq_some_iff.mp hs
  split at hmove
  · rename_i sender hphase
    exact ⟨guard, sender, hg, hphase, (Option.some.inj hmove).symm⟩
  · cases hmove

variable {f : Nat}

theorem wake_inv (hs : t.wake f = some t') :
    ∃ follower channel, t.followers[f]? = some follower ∧ follower.phase = .waiting ∧
      t.channels[follower.receiver]? = some channel ∧
      (channel.changed || channel.closed) = true ∧ t' =
        { t with followers := t.followers.set f { follower with phase := .woken } } := by
  obtain ⟨follower, hf, hmove⟩ := Option.bind_eq_some_iff.mp hs
  split at hmove
  · rename_i channel hphase hchannel
    split at hmove
    · rename_i hready
      exact ⟨follower, channel, hf, hphase, hchannel, hready, (Option.some.inj hmove).symm⟩
    · cases hmove
  · cases hmove

theorem read_inv (hs : t.read f = some t') :
    ∃ follower channel, t.followers[f]? = some follower ∧ follower.phase = .woken ∧
      t.channels[follower.receiver]? = some channel ∧
      t' = { t with followers := t.followers.set f { follower with phase := .returned channel.value } } := by
  obtain ⟨follower, hf, hmove⟩ := Option.bind_eq_some_iff.mp hs
  split at hmove
  · rename_i channel hphase hchannel
    exact ⟨follower, channel, hf, hphase, hchannel, (Option.some.inj hmove).symm⟩
  · cases hmove

theorem cancel_inv (hs : t.cancel f = some t') :
    ∃ follower, t.followers[f]? = some follower ∧ (follower.phase = .waiting ∨ follower.phase = .woken) ∧
      t' = { t with followers := t.followers.set f { follower with phase := .cancelled } } := by
  obtain ⟨follower, hf, hmove⟩ := Option.bind_eq_some_iff.mp hs
  split at hmove
  · rename_i hphase
    exact ⟨follower, hf, Or.inl hphase, (Option.some.inj hmove).symm⟩
  · rename_i hphase
    exact ⟨follower, hf, Or.inr hphase, (Option.some.inj hmove).symm⟩
  · cases hmove

theorem Sound.send (h : t.Sound) (hs : t.send g = some t') : t'.Sound := by
  obtain ⟨guard, sender, hg, hphase, rfl⟩ := send_inv hs
  obtain ⟨hok, -⟩ := h.guards g guard hg
  obtain rfl := hok.removed sender hphase
  have hguard : LeaderGuard.Ok g { guard with phase := .sent (some g) } :=
    ⟨hok.channel, fun hp => (by cases hp), fun _ hp => (by cases hp), fun sender hp => by injection hp with hp; exact hp.symm⟩
  have hholds : LeaderGuard.Holds { guard with phase := .sent (some g) } ↔ guard.Holds := by
    simp [LeaderGuard.Holds, hphase]
  have hnot : ¬guard.Told := by
    rintro (⟨sender, hp, -⟩ | hp)
    · rw [hphase] at hp
      cases hp
    · rw [hphase] at hp
      cases hp
  refine h.setGuard hg rfl hguard ?_ ?_ (h.entry_same hg hholds) fun ht => absurd ht hnot
  · split
    · exact List.length_modify _ _ _
    · rfl
  · intro c
    cases hout : guard.outcome with
    | none => exact h.channels_same hg (by simp [LeaderGuard.channelState, hphase]) c
    | some value => exact h.channels_set hg _ (by simp [LeaderGuard.channelState, hphase]) c

theorem Sound.close (h : t.Sound) (hs : t.close g = some t') : t'.Sound := by
  obtain ⟨guard, sender, hg, hphase, rfl⟩ := close_inv hs
  obtain ⟨hok, -⟩ := h.guards g guard hg
  obtain rfl := hok.sent sender hphase
  refine h.setGuard hg rfl ⟨hok.channel, fun hp => (by cases hp), fun _ hp => (by cases hp), fun _ hp => by cases hp⟩
    (by simp [setChannel]) ?_ ?_ fun _ => ⟨Or.inr rfl, rfl⟩
  · exact h.channels_set hg _ (by simp [LeaderGuard.channelState, hphase])
  · exact h.entry_same hg (by simp [LeaderGuard.Holds, hphase])

/-- One follower moves on. -/
theorem Sound.setFollower {follower follower' : Follower ε} (h : t.Sound) (hf : t.followers[f]? = some follower)
    (hseen : t.Seen follower → t.Seen follower') : Sound { t with followers := t.followers.set f follower' } := by
  refine ⟨h.length, h.guards, h.entry, fun other hother => ?_⟩
  rcases List.mem_or_eq_of_mem_set hother with hother | rfl
  · exact h.followers other hother
  · exact hseen (h.followers follower (List.mem_of_getElem? hf))

theorem Sound.wake (h : t.Sound) (hs : t.wake f = some t') : t'.Sound := by
  obtain ⟨follower, channel, hf, hphase, hchannel, hready, rfl⟩ := wake_inv hs
  refine h.setFollower hf ?_
  rintro ⟨guard, hg, -, -⟩
  refine ⟨guard, hg, fun _ => ?_, fun _ hv => by cases hv⟩
  cases (h.guards _ guard hg).2.symm.trans hchannel
  exact guard.told_iff.mp hready

theorem Sound.read (h : t.Sound) (hs : t.read f = some t') : t'.Sound := by
  obtain ⟨follower, channel, hf, hphase, hchannel, rfl⟩ := read_inv hs
  refine h.setFollower hf ?_
  rintro ⟨guard, hg, hwoken, -⟩
  refine ⟨guard, hg, fun hw => (by cases hw), fun value hv => ?_⟩
  have htold := hwoken hphase
  cases (h.guards _ guard hg).2.symm.trans hchannel
  injection hv with hv
  exact ⟨htold, hv.symm.trans htold.value⟩

theorem Sound.cancel (h : t.Sound) (hs : t.cancel f = some t') : t'.Sound := by
  obtain ⟨follower, hf, -, rfl⟩ := cancel_inv hs
  refine h.setFollower hf ?_
  rintro ⟨guard, hg, -, -⟩
  exact ⟨guard, hg, fun hw => (by cases hw), fun _ hv => by cases hv⟩

section

variable [DecidableEq κ]

theorem Sound.begin (h : t.Sound) (key : κ) : (t.begin key).Sound := by
  unfold FlightTable.begin
  split
  · rename_i sender hsome
    obtain ⟨guard, hg, -, hh⟩ := (h.entry key sender).mp hsome
    refine ⟨h.length, h.guards, h.entry, fun follower hf => ?_⟩
    rcases List.mem_append.mp hf with hf | hf
    · exact h.followers follower hf
    · rw [List.mem_singleton.mp hf]
      exact ⟨guard, hg, fun hw => (by cases hw), fun _ hv => by cases hv⟩
  · rename_i hnone
    have hlast : (t.guards ++ [⟨key, t.channels.length, none, .live⟩])[t.channels.length]? =
        some (⟨key, t.channels.length, none, .live⟩ : LeaderGuard κ ε) := by
      rw [h.length]
      exact List.getElem?_concat_length
    refine ⟨by simp [h.length], fun g guard hg => ?_, fun k c => ?_, fun follower hf => ?_⟩
    · rcases getElem?_concat_cases hg with ⟨hlen, rfl⟩ | hg
      · refine ⟨⟨h.length.trans hlen.symm, fun _ => rfl, fun _ hp => (by cases hp), fun _ hp => by cases hp⟩, ?_⟩
        rw [hlen, ← h.length]
        exact List.getElem?_concat_length
      · obtain ⟨hok, hchannel⟩ := h.guards g guard hg
        exact ⟨hok, getElem?_concat_of_some hchannel _⟩
    · constructor
      · intro hc
        rcases update_eq_some hc with ⟨rfl, hnew⟩ | ⟨-, hold⟩
        · cases hnew
          exact ⟨_, hlast, rfl, Or.inl rfl⟩
        · obtain ⟨guard, hg, hk, hh⟩ := (h.entry k c).mp hold
          exact ⟨guard, getElem?_concat_of_some hg _, hk, hh⟩
      · rintro ⟨guard, hg, rfl, hh⟩
        rcases getElem?_concat_cases hg with ⟨hlen, rfl⟩ | hg
        · show Function.update t.entries key _ key = some c
          rw [Function.update_self, h.length, hlen]
        · have hentry := h.entry_of_holds hg hh
          have hne : guard.key ≠ key := fun heq => by
            rw [heq, hnone] at hentry
            cases hentry
          show Function.update t.entries key _ guard.key = some c
          rw [Function.update_of_ne hne]
          exact hentry
    · obtain ⟨guard, hg, hrest⟩ := h.followers follower hf
      exact ⟨guard, getElem?_concat_of_some hg _, hrest⟩

theorem remove_inv {g : Nat} (hs : t.remove g = some t') :
    ∃ guard, t.guards[g]? = some guard ∧ guard.phase = .dropping ∧ t' = { t with
      entries := Function.update t.entries guard.key none
      guards := t.guards.set g { guard with phase := .removed (t.entries guard.key) } } := by
  obtain ⟨guard, hg, hmove⟩ := Option.bind_eq_some_iff.mp hs
  split at hmove
  · rename_i hphase
    exact ⟨guard, hg, hphase, (Option.some.inj hmove).symm⟩
  · cases hmove

/-- A guard takes its own entry out of the map, and no other. -/
theorem Sound.remove {g : Nat} (h : t.Sound) (hs : t.remove g = some t') :
    t'.Sound ∧ ∃ guard, t.guards[g]? = some guard ∧ t.entries guard.key = some g ∧
      t'.entries = Function.update t.entries guard.key none := by
  obtain ⟨guard, hg, hphase, rfl⟩ := remove_inv hs
  have hentry := h.entry_of_holds hg (Or.inr hphase)
  obtain ⟨hok, -⟩ := h.guards g guard hg
  refine ⟨?_, guard, hg, hentry, rfl⟩
  rw [hentry]
  refine h.setGuard hg rfl ⟨hok.channel, fun hp => (by cases hp), fun sender hp => ?_, fun _ hp => by cases hp⟩ rfl ?_ ?_ ?_
  · injection hp with hp
    exact hp.symm
  · exact h.channels_same hg (by simp [LeaderGuard.channelState, hphase])
  · -- the key's entry is gone; no other guard had it
    intro key c
    by_cases hc : c = g
    · subst hc
      rw [if_pos rfl]
      constructor
      · intro hk
        obtain ⟨hne, hold⟩ := update_none_eq_some hk
        obtain ⟨other, hother, hk', -⟩ := (h.entry key c).mp hold
        cases hg.symm.trans hother
        exact absurd hk'.symm hne
      · rintro ⟨-, hh | hh⟩
        · cases hh
        · cases hh
    · rw [if_neg hc]
      by_cases hk : key = guard.key
      · subst hk
        rw [Function.update_self, hentry]
        exact ⟨fun hnone => (by cases hnone), fun hsome => absurd (Option.some.inj hsome).symm hc⟩
      · rw [Function.update_of_ne hk]
  · rintro (⟨sender, hp, -⟩ | hp)
    · rw [hphase] at hp
      cases hp
    · rw [hphase] at hp
      cases hp

/-- Every step keeps the table sound. -/
theorem Sound.step {action : FlightStep κ ε} (h : t.Sound) (hs : t.step action = some t') : t'.Sound := by
  cases action with
  | begin key =>
    cases hs
    exact h.begin key
  | completeWith g value =>
    obtain ⟨guard, hg, hphase, rfl⟩ := completeWith_inv hs
    exact h.release hg hphase _
  | drop g =>
    obtain ⟨guard, hg, hphase, rfl⟩ := dropGuard_inv hs
    exact h.release hg hphase _
  | remove g => exact (h.remove hs).1
  | send g => exact h.send hs
  | close g => exact h.close hs
  | wake f => exact h.wake hs
  | read f => exact h.read hs
  | cancel f => exact h.cancel hs

theorem sound_of_reachable (h : machine.Reachable t) : t.Sound := h.invariant (I := Sound) Sound.empty fun _ _ _ hi hs =>
    hi.step hs

end

/-! ## What a step leaves alone -/

/-- A live guard stays but for the one that is dropped, and keeps its outcome once it is; a follower stays but for the one that
moves. -/
structure Evolves (dropped moved : Option Nat) (t t' : FlightTable κ ε) : Prop where
  guards : ∀ (g : Nat) guard, t.guards[g]? = some guard → ∃ guard', t'.guards[g]? = some guard' ∧ guard'.key = guard.key ∧
    (guard.phase = .live → dropped ≠ some g → guard' = guard) ∧
    (guard.phase ≠ .live → guard'.phase ≠ .live ∧ guard'.outcome = guard.outcome)
  followers : ∀ (f : Nat) follower, t.followers[f]? = some follower → ∃ follower', t'.followers[f]? = some follower' ∧
    follower'.receiver = follower.receiver ∧ (moved ≠ some f → follower' = follower) ∧
    (∀ value, follower.phase = .returned value → follower' = follower)

theorem Evolves.refl (t : FlightTable κ ε) : Evolves none none t t :=
  ⟨fun _ guard hg => ⟨guard, hg, rfl, fun _ _ => rfl, fun h => ⟨h, rfl⟩⟩,
    fun _ follower hf => ⟨follower, hf, rfl, fun _ => rfl, fun _ _ => rfl⟩⟩

/-- A step of one guard. -/
theorem Evolves.setGuard {dropped moved : Option Nat} {t' : FlightTable κ ε} {guard guard' : LeaderGuard κ ε}
    (hg : t.guards[g]? = some guard) (hguards : t'.guards = t.guards.set g guard') (hfollowers : t'.followers = t.followers)
    (hkey : guard'.key = guard.key) (hlive : guard.phase = .live → dropped = some g)
    (hdone : guard.phase ≠ .live → guard'.phase ≠ .live ∧ guard'.outcome = guard.outcome) : Evolves dropped moved t t' := by
  refine ⟨fun g' other hother => ?_, fun f follower hf => ⟨follower, hfollowers ▸ hf, rfl, fun _ => rfl, fun _ _ => rfl⟩⟩
  by_cases hne : g' = g
  · subst hne
    cases hg.symm.trans hother
    exact ⟨guard', hguards ▸ getElem?_set_of_some hg guard', hkey, fun hl hd => absurd (hlive hl) hd, hdone⟩
  · refine ⟨other, ?_, rfl, fun _ _ => rfl, fun h => ⟨h, rfl⟩⟩
    rw [hguards, List.getElem?_set_ne (Ne.symm hne)]
    exact hother

/-- A step of one follower. -/
theorem Evolves.setFollower {dropped : Option Nat} {t' : FlightTable κ ε} {follower follower' : Follower ε}
    (hf : t.followers[f]? = some follower) (hguards : t'.guards = t.guards)
      (hfollowers : t'.followers = t.followers.set f follower')
    (hreceiver : follower'.receiver = follower.receiver) (hnot : ∀ value, follower.phase ≠ .returned value) :
    Evolves dropped (some f) t t' := by
  refine ⟨fun g guard hg => ⟨guard, hguards ▸ hg, rfl, fun _ _ => rfl, fun h => ⟨h, rfl⟩⟩, fun f' other hother => ?_⟩
  by_cases hne : f' = f
  · subst hne
    cases hf.symm.trans hother
    exact ⟨follower', hfollowers ▸ getElem?_set_of_some hf follower', hreceiver, fun hm => absurd rfl hm,
      fun value hv => absurd hv (hnot value)⟩
  · refine ⟨other, ?_, rfl, fun _ => rfl, fun _ _ => rfl⟩
    rw [hfollowers, List.getElem?_set_ne (Ne.symm hne)]
    exact hother

end FlightTable

/-- The guard that a step drops. -/
def FlightStep.dropped : FlightStep κ ε → Option Nat
  | .completeWith g _ => some g
  | .drop g => some g
  | .begin _ => none
  | .remove _ => none
  | .send _ => none
  | .close _ => none
  | .wake _ => none
  | .read _ => none
  | .cancel _ => none

/-- The follower that a step moves. -/
def FlightStep.moved : FlightStep κ ε → Option Nat
  | .wake f => some f
  | .read f => some f
  | .cancel f => some f
  | .begin _ => none
  | .completeWith .. => none
  | .drop _ => none
  | .remove _ => none
  | .send _ => none
  | .close _ => none

namespace FlightTable

variable {t t' : FlightTable κ ε}

theorem evolves_step [DecidableEq κ] {action : FlightStep κ ε} (hs : t.step action = some t') :
    Evolves action.dropped action.moved t t' := by
  cases action with
  | begin key =>
    cases hs
    unfold FlightTable.begin
    split
    · exact ⟨fun g guard hg => ⟨guard, hg, rfl, fun _ _ => rfl, fun h => ⟨h, rfl⟩⟩,
        fun f follower hf => ⟨follower, getElem?_concat_of_some hf _, rfl, fun _ => rfl, fun _ _ => rfl⟩⟩
    · exact ⟨fun g guard hg => ⟨guard, getElem?_concat_of_some hg _, rfl, fun _ _ => rfl, fun h => ⟨h, rfl⟩⟩,
        fun f follower hf => ⟨follower, hf, rfl, fun _ => rfl, fun _ _ => rfl⟩⟩
  | completeWith g value =>
    obtain ⟨guard, hg, hphase, rfl⟩ := completeWith_inv hs
    exact Evolves.setGuard hg rfl rfl rfl (fun _ => rfl) fun hne => absurd hphase hne
  | drop g =>
    obtain ⟨guard, hg, hphase, rfl⟩ := dropGuard_inv hs
    exact Evolves.setGuard hg rfl rfl rfl (fun _ => rfl) fun hne => absurd hphase hne
  | remove g =>
    obtain ⟨guard, hg, hphase, rfl⟩ := remove_inv hs
    refine Evolves.setGuard hg rfl rfl rfl (fun hl => ?_) fun _ => ⟨fun h => (by cases h), rfl⟩
    rw [hphase] at hl
    cases hl
  | send g =>
    obtain ⟨guard, sender, hg, hphase, rfl⟩ := send_inv hs
    refine Evolves.setGuard hg rfl rfl rfl (fun hl => ?_) fun _ => ⟨fun h => (by cases h), rfl⟩
    rw [hphase] at hl
    cases hl
  | close g =>
    obtain ⟨guard, sender, hg, hphase, rfl⟩ := close_inv hs
    refine Evolves.setGuard hg rfl rfl rfl (fun hl => ?_) fun _ => ⟨fun h => (by cases h), rfl⟩
    rw [hphase] at hl
    cases hl
  | wake f =>
    obtain ⟨follower, channel, hf, hphase, -, -, rfl⟩ := wake_inv hs
    refine Evolves.setFollower hf rfl rfl rfl fun value hv => ?_
    rw [hphase] at hv
    cases hv
  | read f =>
    obtain ⟨follower, channel, hf, hphase, -, rfl⟩ := read_inv hs
    refine Evolves.setFollower hf rfl rfl rfl fun value hv => ?_
    rw [hphase] at hv
    cases hv
  | cancel f =>
    obtain ⟨follower, hf, hphase, rfl⟩ := cancel_inv hs
    refine Evolves.setFollower hf rfl rfl rfl fun value hv => ?_
    rcases hphase with hphase | hphase
    · rw [hphase] at hv
      cases hv
    · rw [hphase] at hv
      cases hv

/-- An outcome was there before, or is the one a guard is completed with. -/
theorem step_outcome [DecidableEq κ] {action : FlightStep κ ε} {g : Nat} {guard' : LeaderGuard κ ε} {e : ε}
    (hs : t.step action = some t') (hg : t'.guards[g]? = some guard') (he : guard'.outcome = some e) :
    (∃ guard, t.guards[g]? = some guard ∧ guard.outcome = some e ∧ guard.key = guard'.key) ∨
      (action = .completeWith g e ∧ ∃ guard, t.guards[g]? = some guard ∧ guard.key = guard'.key) := by
  have hset : ∀ {g0 : Nat} {guard0 guard1 : LeaderGuard κ ε}, t.guards[g0]? = some guard0 → t'.guards = t.guards.set g0 guard1 →
      guard1.outcome = guard0.outcome → guard1.key = guard0.key →
      ∃ guard, t.guards[g]? = some guard ∧ guard.outcome = some e ∧ guard.key = guard'.key := by
    intro g0 guard0 guard1 h0 hguards hout hkey
    rcases getElem?_set_cases h0 (hguards ▸ hg) with ⟨rfl, rfl⟩ | ⟨-, hold⟩
    · exact ⟨guard0, h0, hout ▸ he, hkey.symm⟩
    · exact ⟨guard', hold, he, rfl⟩
  cases action with
  | begin key =>
    cases hs
    unfold FlightTable.begin at hg
    split at hg
    · exact Or.inl ⟨guard', hg, he, rfl⟩
    · rcases getElem?_concat_cases hg with ⟨-, rfl⟩ | hg
      · cases he
      · exact Or.inl ⟨guard', hg, he, rfl⟩
  | completeWith g0 value =>
    obtain ⟨guard, h0, -, rfl⟩ := completeWith_inv hs
    rcases getElem?_set_cases h0 hg with ⟨rfl, rfl⟩ | ⟨-, hold⟩
    · exact Or.inr ⟨by rw [Option.some.inj he], guard, h0, rfl⟩
    · exact Or.inl ⟨guard', hold, he, rfl⟩
  | drop g0 =>
    obtain ⟨guard, h0, -, rfl⟩ := dropGuard_inv hs
    exact Or.inl (hset h0 rfl rfl rfl)
  | remove g0 =>
    obtain ⟨guard, h0, -, rfl⟩ := remove_inv hs
    exact Or.inl (hset h0 rfl rfl rfl)
  | send g0 =>
    obtain ⟨guard, sender, h0, -, rfl⟩ := send_inv hs
    exact Or.inl (hset h0 rfl rfl rfl)
  | close g0 =>
    obtain ⟨guard, sender, h0, -, rfl⟩ := close_inv hs
    exact Or.inl (hset h0 rfl rfl rfl)
  | wake f =>
    obtain ⟨follower, channel, -, -, -, -, rfl⟩ := wake_inv hs
    exact Or.inl ⟨guard', hg, he, rfl⟩
  | read f =>
    obtain ⟨follower, channel, -, -, -, rfl⟩ := read_inv hs
    exact Or.inl ⟨guard', hg, he, rfl⟩
  | cancel f =>
    obtain ⟨follower, -, -, rfl⟩ := cancel_inv hs
    exact Or.inl ⟨guard', hg, he, rfl⟩

/-- A key that is not in the map gets a live guard. -/
theorem begin_leads [DecidableEq κ] {key : κ} (h : t.entries key = none) :
    (t.begin key).guards[t.guards.length]? = some ⟨key, t.channels.length, none, .live⟩ := by
  unfold FlightTable.begin
  rw [h]
  exact List.getElem?_concat_length

/-- A key that is in the map gets a follower of the guard that has it there. -/
theorem begin_follows [DecidableEq κ] {key : κ} {sender : Nat} (h : t.entries key = some sender) :
    t.begin key = { t with followers := t.followers ++ [⟨sender, .waiting⟩] } := by
  unfold FlightTable.begin
  rw [h]

/-! ## Followers return -/

section

variable [DecidableEq κ]

/-- A guard has an outcome only from being completed with it. -/
theorem completed_of_outcome {actions : List (FlightStep κ ε)} (h : machine.run empty actions = some t) {g : Nat}
    {guard : LeaderGuard κ ε} {value : ε} (hg : t.guards[g]? = some guard) (hv : guard.outcome = some value) :
    .completeWith g value ∈ actions := by
  induction actions using List.reverseRecOn generalizing t guard with
  | nil =>
    cases h
    simp [empty] at hg
  | append_singleton actions action ih =>
    rw [Machine.run_snoc] at h
    obtain ⟨before, hbefore, hstep⟩ := Option.bind_eq_some_iff.mp h
    rcases step_outcome hstep hg hv with ⟨old, hold, hout, -⟩ | ⟨rfl, -⟩
    · exact List.mem_append_left _ (ih hbefore hold hout)
    · exact List.mem_append_right _ (List.mem_singleton.mpr rfl)

/-- The steps that a guard and a follower take of themselves. -/
def OwnStep (g f : Nat) (action : FlightStep κ ε) : Prop :=
  action = .remove g ∨ action = .send g ∨ action = .close g ∨ action = .wake f ∨ action = .read f

/-- A follower can return, with steps of its own and of its guard's drop. -/
def CanReturn (t : FlightTable κ ε) (g f : Nat) (value : Option ε) : Prop :=
  ∃ steps t' follower, machine.run t steps = some t' ∧ (∀ action ∈ steps, OwnStep g f action) ∧
    t'.followers[f]? = some follower ∧ follower.phase = .returned value

theorem CanReturn.cons {g f : Nat} {value : Option ε} {action : FlightStep κ ε} (h : t'.CanReturn g f value)
    (ha : OwnStep g f action) (hs : t.step action = some t') : t.CanReturn g f value := by
  obtain ⟨steps, last, follower, hrun, hown, hf, hv⟩ := h
  refine ⟨action :: steps, last, follower, ?_, fun a ha' => ?_, hf, hv⟩
  · show (t.step action).bind _ = _
    rw [hs]
    exact hrun
  · rcases List.mem_cons.mp ha' with rfl | ha'
    · exact ha
    · exact hown a ha'

variable {g f : Nat} {guard : LeaderGuard κ ε} {follower : Follower ε}

theorem remove_enabled (hg : t.guards[g]? = some guard) (hp : guard.phase = .dropping) :
    ∃ t', t.step (.remove g) = some t' ∧ t'.followers = t.followers ∧
      t'.guards[g]? = some { guard with phase := .removed (t.entries guard.key) } := by
  have hs : t.remove g = some { t with
      entries := Function.update t.entries guard.key none
      guards := t.guards.set g { guard with phase := .removed (t.entries guard.key) } } := by
    unfold FlightTable.remove
    rw [hg, Option.bind_some, hp]
  exact ⟨_, hs, rfl, getElem?_set_of_some hg _⟩

variable {sender : Option Nat}

theorem send_enabled (hg : t.guards[g]? = some guard) (hp : guard.phase = .removed sender) :
    ∃ t', t.step (.send g) = some t' ∧ t'.followers = t.followers ∧
      t'.guards[g]? = some { guard with phase := .sent sender } := by
  have hs : t.send g = some { t with
      channels :=
        match guard.outcome with
        | some value => t.setChannel sender fun channel => { channel with value := some value, changed := true }
        | none => t.channels
      guards := t.guards.set g { guard with phase := .sent sender } } := by
    unfold FlightTable.send
    rw [hg, Option.bind_some, hp] <;> rfl
  exact ⟨_, hs, rfl, getElem?_set_of_some hg _⟩

theorem close_enabled (hg : t.guards[g]? = some guard) (hp : guard.phase = .sent sender) :
    ∃ t', t.step (.close g) = some t' ∧ t'.followers = t.followers ∧ t'.guards[g]? = some { guard with phase := .ended } := by
  have hs : t.close g = some { t with
      channels := t.setChannel sender fun channel => { channel with closed := true }
      guards := t.guards.set g { guard with phase := .ended } } := by
    unfold FlightTable.close
    rw [hg, Option.bind_some, hp]
  exact ⟨_, hs, rfl, getElem?_set_of_some hg _⟩

/-- A follower that waits wakes once its guard has told it. -/
theorem Sound.wake_enabled (h : t.Sound) (hf : t.followers[f]? = some follower) (hg : t.guards[follower.receiver]? = some guard)
    (htold : guard.Told) (hp : follower.phase = .waiting) :
    ∃ t', t.step (.wake f) = some t' ∧ t'.guards = t.guards ∧ t'.followers[f]? = some { follower with phase := .woken } := by
  have hs : t.wake f = some { t with followers := t.followers.set f { follower with phase := .woken } } := by
    unfold FlightTable.wake
    rw [hf, Option.bind_some, hp, (h.guards _ guard hg).2]
    exact if_pos (guard.told_iff.mpr htold)
  exact ⟨_, hs, rfl, getElem?_set_of_some hf _⟩

/-- A follower that is awake reads the outcome. -/
theorem Sound.read_enabled (h : t.Sound) (hf : t.followers[f]? = some follower) (hg : t.guards[follower.receiver]? = some guard)
    (htold : guard.Told) (hp : follower.phase = .woken) :
    ∃ t', t.step (.read f) = some t' ∧ t'.followers[f]? = some { follower with phase := .returned guard.outcome } := by
  have hs : t.read f = some { t with followers := t.followers.set f { follower with phase := .returned guard.outcome } } := by
    unfold FlightTable.read
    rw [hf, Option.bind_some, hp, (h.guards _ guard hg).2, ← htold.value]
  exact ⟨_, hs, getElem?_set_of_some hf _⟩

theorem Sound.canReturn_woken (h : t.Sound) (hf : t.followers[f]? = some follower)
    (hg : t.guards[follower.receiver]? = some guard)
    (htold : guard.Told) (hp : follower.phase = .woken) : t.CanReturn follower.receiver f guard.outcome := by
  obtain ⟨t', hs, hf'⟩ := h.read_enabled hf hg htold hp
  have hdone : t'.CanReturn follower.receiver f guard.outcome :=
    ⟨[], t', _, rfl, fun _ ha => absurd ha List.not_mem_nil, hf', rfl⟩
  exact hdone.cons (Or.inr (Or.inr (Or.inr (Or.inr rfl)))) hs

theorem Sound.canReturn_told (h : t.Sound) (hf : t.followers[f]? = some follower) (hg : t.guards[follower.receiver]? = some guard)
    (htold : guard.Told) (hphase : follower.phase = .waiting ∨ follower.phase = .woken) :
    t.CanReturn follower.receiver f guard.outcome := by
  rcases hphase with hphase | hphase
  · obtain ⟨t', hs, hguards, hf'⟩ := h.wake_enabled hf hg htold hphase
    have hwoken := (h.step hs).canReturn_woken hf' (hguards ▸ hg) htold rfl
    exact hwoken.cons (Or.inr (Or.inr (Or.inr (Or.inl rfl)))) hs
  · exact h.canReturn_woken hf hg htold hphase

theorem Sound.canReturn_sent (h : t.Sound) (hf : t.followers[f]? = some follower) (hg : t.guards[follower.receiver]? = some guard)
    (hp : guard.phase = .sent sender) (hphase : follower.phase = .waiting ∨ follower.phase = .woken) :
    t.CanReturn follower.receiver f guard.outcome := by
  obtain ⟨t', hs, hfollowers, hg'⟩ := close_enabled hg hp
  have htold := (h.step hs).canReturn_told (hfollowers ▸ hf) hg' (Or.inr rfl) hphase
  exact htold.cons (Or.inr (Or.inr (Or.inl rfl))) hs

theorem Sound.canReturn_removed (h : t.Sound) (hf : t.followers[f]? = some follower) (hg : t.guards[follower.receiver]? =
    some guard) (hp : guard.phase = .removed sender) (hphase : follower.phase = .waiting ∨ follower.phase = .woken) :
    t.CanReturn follower.receiver f guard.outcome := by
  obtain ⟨t', hs, hfollowers, hg'⟩ := send_enabled hg hp
  have hsent := (h.step hs).canReturn_sent (hfollowers ▸ hf) hg' rfl hphase
  exact hsent.cons (Or.inr (Or.inl rfl)) hs

/-- The drop of a guard goes through and its follower returns, whatever the others do. -/
theorem Sound.canReturn (h : t.Sound) (hf : t.followers[f]? = some follower) (hg : t.guards[follower.receiver]? = some guard)
    (hended : guard.phase ≠ .live) (hphase : follower.phase = .waiting ∨ follower.phase = .woken) :
    t.CanReturn follower.receiver f guard.outcome := by
  cases hp : guard.phase with
  | live => exact absurd hp hended
  | dropping =>
    obtain ⟨t', hs, hfollowers, hg'⟩ := remove_enabled hg hp
    have hremoved := (h.step hs).canReturn_removed (hfollowers ▸ hf) hg' rfl hphase
    exact hremoved.cons (Or.inl rfl) hs
  | removed sender => exact h.canReturn_removed hf hg hp hphase
  | sent sender => exact h.canReturn_sent hf hg hp hphase
  | ended => exact h.canReturn_told hf hg (Or.inr hp) hphase

end

end FlightTable

end

end Biei
