import Mathlib.Data.List.Forall2

/-!
# Code that may fail and keeps what it did

Stateful code that stops at the first error, with the state it had reached. `Ends x s ok err` says how such code ends when it is
started in `s`: in success with `ok`, or in failure with `err` of the state it leaves behind. The rules follow the code.
-/

/-- Code without a state succeeds when each part does. -/
theorem Except.bind_eq_ok_iff {ε α β : Type} {x : Except ε α} {f : α → Except ε β} {b : β} :
    (x >>= f) = .ok b ↔ ∃ a, x = .ok a ∧ f a = .ok b := by
  cases x with
  | error e =>
    constructor
    · exact fun h => by cases h
    · rintro ⟨a, h, -⟩
      cases h
  | ok a =>
    constructor
    · exact fun h => ⟨a, rfl, h⟩
    · rintro ⟨a', h, hf⟩
      rw [Except.ok.inj h]
      exact hf

theorem Except.map_eq_ok_iff {ε α β : Type} {x : Except ε α} {f : α → β} {b : β} : x.map f = .ok b ↔ ∃ a, x = .ok a ∧
    f a = b := by
  cases x with
  | error e =>
    constructor
    · exact fun h => by cases h
    · rintro ⟨a, h, -⟩
      cases h
  | ok a =>
    constructor
    · exact fun h => ⟨a, rfl, Except.ok.inj h⟩
    · rintro ⟨a', h, rfl⟩
      rw [Except.ok.inj h]
      rfl

/-- What was written one by one is read one by one. -/
theorem Except.mapM_map_ok {ε α β : Type} {f : β → Except ε α} {g : α → β} (hf : ∀ a, f (g a) = .ok a) (l : List α) :
    (l.map g).mapM f = .ok l := by
  induction l with
  | nil => rfl
  | cons a l ih =>
    rw [List.map_cons, List.mapM_cons, hf a, ih]
    rfl

/-- A fallible map succeeds when it does so at each element. -/
theorem Except.exists_mapM_ok_iff {ε α β : Type} {f : α → Except ε β} {l : List α} :
    (∃ l', l.mapM f = .ok l') ↔ ∀ a ∈ l, ∃ b, f a = .ok b := by
  induction l with
  | nil => exact ⟨fun _ => nofun, fun _ => ⟨[], rfl⟩⟩
  | cons a l ih =>
    rw [List.forall_mem_cons, ← ih, List.mapM_cons]
    constructor
    · rintro ⟨l', h⟩
      obtain ⟨b, hb, hrest⟩ := Except.bind_eq_ok_iff.mp h
      obtain ⟨l'', hl, -⟩ := Except.bind_eq_ok_iff.mp hrest
      exact ⟨⟨b, hb⟩, l'', hl⟩
    · rintro ⟨⟨b, hb⟩, l', hl⟩
      exact ⟨b :: l', Except.bind_eq_ok_iff.mpr ⟨b, hb, Except.bind_eq_ok_iff.mpr ⟨l', hl, rfl⟩⟩⟩

/-- Every element of the result of a fallible map comes from an element of the list. -/
theorem Except.mem_of_mapM_ok {α β ε : Type} {f : α → Except ε β} {l : List α} {l' : List β} (h : l.mapM f = .ok l') :
    ∀ b ∈ l', ∃ a ∈ l, f a = .ok b := by
  induction l generalizing l' with
  | nil =>
    rw [List.mapM_nil] at h
    cases h
    intro b hb
    cases hb
  | cons a l ih =>
    rw [List.mapM_cons] at h
    cases ha : f a with
    | error e =>
      rw [ha] at h
      cases h
    | ok b' =>
      cases hl : l.mapM f with
      | error e =>
        rw [ha, hl] at h
        cases h
      | ok l'' =>
        rw [ha, hl] at h
        cases h
        intro b hb
        rcases List.mem_cons.mp hb with rfl | hb
        · exact ⟨a, List.mem_cons_self, ha⟩
        · obtain ⟨a', ha', hfa'⟩ := ih hl b hb
          exact ⟨a', List.mem_cons_of_mem _ ha', hfa'⟩

/-- A loop that only checks succeeds when it does so at each element. -/
theorem Except.forM_eq_ok_iff {ε α : Type} {f : α → Except ε Unit} {l : List α} : l.forM f = .ok () ↔ ∀ a ∈ l, f a = .ok () := by
  induction l with
  | nil => exact ⟨fun _ _ h => absurd h List.not_mem_nil, fun _ => rfl⟩
  | cons a l ih =>
    have hcons : (a :: l).forM f = f a >>= fun _ => l.forM f := rfl
    rw [hcons, List.forall_mem_cons, ← ih, Except.bind_eq_ok_iff]
    exact ⟨fun ⟨_, ha, hl⟩ => ⟨ha, hl⟩, fun ⟨ha, hl⟩ => ⟨(), ha, hl⟩⟩

/-- Started in `s`, the code succeeds with `ok` of its result and state, or fails with `err` of its state. -/
def Ends {ε σ α : Type} (x : EStateM ε σ α) (s : σ) (ok : α → σ → Prop) (err : σ → Prop) : Prop :=
  match x s with
  | .ok a s' => ok a s'
  | .error _ s' => err s'

namespace Ends

variable {ε σ α β : Type} {x : EStateM ε σ α} {s : σ} {ok ok' : α → σ → Prop} {err err' : σ → Prop} {t : σ} {a : α}

theorem of_ok (h : x s = .ok a t) (hok : ok a t) : Ends x s ok err := by
  unfold Ends
  rw [h]
  exact hok

theorem of_error {e : ε} (h : x s = .error e t) (herr : err t) : Ends x s ok err := by
  unfold Ends
  rw [h]
  exact herr

theorem ok_of (h : Ends x s ok err) (hx : x s = .ok a t) : ok a t := by
  unfold Ends at h
  rw [hx] at h
  exact h

theorem err_of {e : ε} (h : Ends x s ok err) (hx : x s = .error e t) : err t := by
  unfold Ends at h
  rw [hx] at h
  exact h

theorem mono (h : Ends x s ok err) (hok : ∀ a t, ok a t → ok' a t) (herr : ∀ t, err t → err' t) : Ends x s ok' err' := by
  unfold Ends at h ⊢
  split at h
  · exact hok _ _ h
  · exact herr _ h

theorem pure (h : ok a s) : Ends (Pure.pure a : EStateM ε σ α) s ok err := h

/-- The rule of sequencing: what the first part ends in is where the second starts; a failure of the first is one of the whole. -/
theorem bind {f : α → EStateM ε σ β} {ok' : β → σ → Prop} (h : Ends x s ok err) (hf : ∀ a t, ok a t → Ends (f a) t ok' err) :
    Ends (x >>= f) s ok' err := by
  cases hx : x s with
  | ok a t =>
    have hbind : (x >>= f) s = f a t := by simp only [Bind.bind, EStateM.bind, hx]
    have hend := hf a t (h.ok_of hx)
    unfold Ends at hend ⊢
    rw [hbind]
    exact hend
  | error e t =>
    have hbind : (x >>= f) s = .error e t := by simp only [Bind.bind, EStateM.bind, hx]
    exact of_error hbind (h.err_of hx)

/-- Reading the state. -/
theorem get_bind {f : σ → EStateM ε σ β} {ok' : β → σ → Prop} (h : Ends (f s) s ok' err) : Ends (get >>= f) s ok' err := h

end Ends

/-- Wherever it is started, what the code fails with is one of `P`. -/
def Raises {ε σ α : Type} (P : ε → Prop) (x : EStateM ε σ α) : Prop := ∀ s e t, x s = .error e t → P e

namespace Raises

variable {ε σ α β : Type} {P : ε → Prop} {x : EStateM ε σ α}

theorem pure (a : α) : Raises P (Pure.pure a : EStateM ε σ α) := by
  intro s e t h
  cases h

theorem throw {e : ε} (h : P e) : Raises P (MonadExcept.throw e : EStateM ε σ α) := by
  intro s e' t he
  injection he with he
  exact he ▸ h

theorem modify (f : σ → σ) : Raises P (modify f : EStateM ε σ PUnit) := by
  intro s e t h
  cases h

/-- The rule of sequencing for failures. -/
theorem bind {f : α → EStateM ε σ β} (hx : Raises P x) (hf : ∀ a, Raises P (f a)) : Raises P (x >>= f) := by
  intro s e t h
  cases hs : x s with
  | ok a s' =>
    have hbind : (x >>= f) s = f a s' := by simp only [Bind.bind, EStateM.bind, hs]
    exact hf a s' e t (hbind ▸ h)
  | error e' s' =>
    have hbind : (x >>= f) s = .error e' s' := by simp only [Bind.bind, EStateM.bind, hs]
    rw [hbind] at h
    injection h with he
    exact he ▸ hx s e' s' hs

theorem get_bind {f : σ → EStateM ε σ β} (hf : ∀ s, Raises P (f s)) : Raises P (get >>= f) :=
  fun s e t h => hf s s e t h

end Raises
