import Mathlib.Data.Set.Finite.Basic
import Mathlib.Order.WellFounded

/-!
# Who waits for whom

A relation without a cycle: how it survives one more edge, and what it means when only finitely many wait. Everything is about any
relation on any type.
-/

open Relation

/-- Nothing waits, over any number of steps, for itself. -/
def Acyclic {α : Type*} (r : α → α → Prop) : Prop := ∀ a, ¬TransGen r a a

namespace Acyclic

variable {α : Type*} {r r' : α → α → Prop}

theorem mono (h : Acyclic r) (hr : ∀ a b, r' a b → r a b) : Acyclic r' :=
  fun a ha => h a (TransGen.mono hr _ _ ha)

/-- A path in the relation with one more edge is a path without it, or passes the edge. -/
theorem transGen_insert {a b x y : α} (h : TransGen (fun x y => r x y ∨ (x = a ∧ y = b)) x y) :
    TransGen r x y ∨ (ReflTransGen r x a ∧ ReflTransGen r b y) := by
  induction h with
  | single h =>
    rcases h with h | ⟨rfl, rfl⟩
    · exact Or.inl (.single h)
    · exact Or.inr ⟨.refl, .refl⟩
  | tail _ h ih =>
    rcases h with h | ⟨rfl, rfl⟩
    · rcases ih with ih | ⟨ih1, ih2⟩
      · exact Or.inl (ih.tail h)
      · exact Or.inr ⟨ih1, ih2.tail h⟩
    · rcases ih with ih | ⟨ih1, _⟩
      · exact Or.inr ⟨ih.to_reflTransGen, .refl⟩
      · exact Or.inr ⟨ih1, .refl⟩

/-- One more edge makes no cycle when its end does not lead back to its start. -/
theorem insert {a b : α} (h : Acyclic r) (hab : ¬ReflTransGen r b a) :
    Acyclic fun x y => r x y ∨ (x = a ∧ y = b) := by
  intro x hx
  rcases transGen_insert hx with hx | ⟨hxa, hbx⟩
  · exact h x hx
  · exact hab (hbx.trans hxa)

/-- When finitely many wait, following who waits for whom comes to an end. -/
theorem wellFounded (h : Acyclic r) (hfin : {a | ∃ b, r a b}.Finite) : WellFounded fun b a => r a b := by
  -- on the finite set of those who wait the paths form a strict order; an end of a path is accessible at once
  have htrans : IsTrans {a | ∃ b, r a b} fun x y => TransGen r y.1 x.1 := ⟨fun _ _ _ hxy hyz => hyz.trans hxy⟩
  have hirrefl : Std.Irrefl fun x y : {a | ∃ b, r a b} => TransGen r y.1 x.1 := ⟨fun x => h x.1⟩
  have : Finite {a | ∃ b, r a b} := hfin
  have hwf := Finite.wellFounded_of_trans_of_irrefl fun x y : {a | ∃ b, r a b} => TransGen r y.1 x.1
  have hacc : ∀ x : {a | ∃ b, r a b}, Acc (fun b a => r a b) x.1 := by
    intro x
    induction x using hwf.induction with
    | _ x ih =>
      refine ⟨_, ?_⟩
      intro b hb
      by_cases hw : ∃ c, r b c
      · exact ih ⟨b, hw⟩ (.single hb)
      · exact ⟨_, fun c hc => absurd ⟨c, hc⟩ hw⟩
  refine ⟨fun a => ?_⟩
  by_cases hw : ∃ b, r a b
  · exact hacc ⟨a, hw⟩
  · exact ⟨_, fun b hb => absurd ⟨b, hb⟩ hw⟩

/-- Every chain ends in one who waits for nobody. -/
theorem exists_end (h : Acyclic r) (hfin : {a | ∃ b, r a b}.Finite) (a : α) :
    ∃ b, ReflTransGen r a b ∧ ∀ c, ¬r b c := by
  induction a using (h.wellFounded hfin).induction with
  | _ a ih =>
    by_cases hw : ∃ b, r a b
    · obtain ⟨b, hb⟩ := hw
      obtain ⟨c, hbc, hend⟩ := ih b hb
      exact ⟨c, .head hb hbc, hend⟩
    · exact ⟨a, .refl, fun c hc => hw ⟨c, hc⟩⟩

/-- No nonempty set waits for itself only. -/
theorem not_closed (h : Acyclic r) (hfin : {a | ∃ b, r a b}.Finite) {s : Set α} (hs : s.Nonempty) :
    ¬∀ a ∈ s, ∃ b ∈ s, r a b := by
  intro hclosed
  obtain ⟨m, hm, hmin⟩ := (h.wellFounded hfin).has_min s hs
  obtain ⟨b, hb, hmb⟩ := hclosed m hm
  exact hmin b hb hmb

/-- Two kinds of waiting that alternate: who is waited for in the first kind waits, if at all, in the second, and the other way
round. A cycle of both is a cycle of their composition. -/
theorem alternate {f p : α → α → Prop} (hff : ∀ a b c, f a b → ¬f b c) (hpp : ∀ a b c, p a b → ¬p b c)
    (hfp : ∀ a b c, f a b → ¬p a c) (h : Acyclic fun a c => ∃ b, p a b ∧ f b c) : Acyclic fun a b => f a b ∨ p a b := by
  -- a path that starts with the second kind, read two steps at a time
  have hpath : ∀ i j, (∃ t, p i t) → TransGen (fun a b => f a b ∨ p a b) i j →
      (∃ q, ReflTransGen (fun a c => ∃ b, p a b ∧ f b c) i q ∧ p q j) ∨ TransGen (fun a c => ∃ b, p a b ∧ f b c) i j := by
    intro i j hi hij
    induction hij with
    | single hij =>
      obtain ⟨t, ht⟩ := hi
      rcases hij with hij | hij
      · exact absurd ht (hfp _ _ _ hij)
      · exact Or.inl ⟨i, .refl, hij⟩
    | @tail j t _ hjt ih =>
      rcases ih with ⟨q, hiq, hqj⟩ | hij
      · rcases hjt with hjt | hjt
        · exact Or.inr (TransGen.tail' hiq ⟨j, hqj, hjt⟩)
        · exact absurd hjt (hpp _ _ _ hqj)
      · rcases hjt with hjt | hjt
        · obtain ⟨q, -, b, -, hbj⟩ := TransGen.tail'_iff.mp hij
          exact absurd hjt (hff _ _ _ hbj)
        · exact Or.inl ⟨j, hij.to_reflTransGen, hjt⟩
  have hstart : ∀ i t, p i t → ¬TransGen (fun a b => f a b ∨ p a b) i i := by
    intro i t ht hii
    rcases hpath i i ⟨t, ht⟩ hii with ⟨q, -, hqi⟩ | hii
    · exact hpp _ _ _ hqi ht
    · exact h i hii
  intro i hii
  obtain ⟨j, hij, hji⟩ := TransGen.head'_iff.mp hii
  rcases hij with hij | hij
  · -- the cycle passes `j` too, which waits in the second kind
    have hjj : TransGen (fun a b => f a b ∨ p a b) j j := TransGen.tail' hji (Or.inl hij)
    obtain ⟨t, hjt, -⟩ := TransGen.head'_iff.mp hjj
    rcases hjt with hjt | hjt
    · exact hff _ _ _ hij hjt
    · exact hstart j t hjt hjj
  · exact hstart i j hij hii

end Acyclic
