/-
Labels that tell the components of a growing graph apart.

A graph is built vertex by vertex, and every vertex has a label.  The labels are right
when two vertices have the same one exactly if a chain of edges joins them.  A new
vertex may join components that were apart, so its arrival relabels them: every
component with an edge to it gets one and the same label, and so does the vertex.

`IsLabelling.add` is the one step.  Nothing has to be known about chains to use it.
-/
import Mathlib.Logic.Relation

namespace FlyMail

variable {α κ : Type} {E : α → α → Prop} {S : α → Prop}

/-- Labels that agree along every edge agree along every chain. -/
theorem lab_eq_of_eqvGen {lab : α → κ} (hlab : ∀ a b, E a b → lab a = lab b) {x y : α}
    (h : Relation.EqvGen E x y) : lab x = lab y := by
  induction h with
  | rel a b hab => exact hlab a b hab
  | refl a => rfl
  | symm a b _ ih => exact ih.symm
  | trans a b c _ _ ihab ihbc => exact ihab.trans ihbc

/-- A chain of edges between vertices of `S` joins the two. -/
def Joined (E : α → α → Prop) (S : α → Prop) : α → α → Prop :=
  Relation.EqvGen fun x y => S x ∧ S y ∧ E x y

theorem Joined.refl (x : α) : Joined E S x x := Relation.EqvGen.refl x

theorem Joined.symm {x y : α} (h : Joined E S x y) : Joined E S y x :=
  Relation.EqvGen.symm x y h

theorem Joined.trans {x y z : α} (hxy : Joined E S x y) (hyz : Joined E S y z) :
    Joined E S x z :=
  Relation.EqvGen.trans x y z hxy hyz

theorem Joined.of_edge {x y : α} (hx : S x) (hy : S y) (h : E x y) : Joined E S x y :=
  Relation.EqvGen.rel x y ⟨hx, hy, h⟩

theorem Joined.mono {T : α → Prop} {x y : α} (h : Joined E S x y) (hST : ∀ z, S z → T z) :
    Joined E T x y :=
  Relation.EqvGen.mono
    (show (fun x y => S x ∧ S y ∧ E x y) ≤ fun x y => T x ∧ T y ∧ E x y from
      fun _ _ ⟨ha, hb, he⟩ => ⟨hST _ ha, hST _ hb, he⟩) x y h

theorem Joined.lab_eq {lab : α → κ} {x y : α} (h : Joined E S x y)
    (hlab : ∀ a b, S a → S b → E a b → lab a = lab b) : lab x = lab y :=
  lab_eq_of_eqvGen (fun a b hab => hlab a b hab.1 hab.2.1 hab.2.2) h

/-- Two vertices of `S` have the same label exactly if a chain joins them. -/
def IsLabelling (E : α → α → Prop) (S : α → Prop) (lab : α → κ) : Prop :=
  ∀ a b, S a → S b → (lab a = lab b ↔ Joined E S a b)

theorem isLabelling_of_empty {lab : α → κ} (h : ∀ x, ¬ S x) : IsLabelling E S lab :=
  fun a _ ha _ => absurd ha (h a)

/-- Labels matter on the vertices only. -/
theorem IsLabelling.congr {T : α → Prop} {lab lab' : α → κ} (h : IsLabelling E S lab)
    (hST : ∀ x, S x ↔ T x) (hlab : ∀ x, S x → lab' x = lab x) : IsLabelling E T lab' := by
  have hT : S = T := funext fun x => propext (hST x)
  subst hT
  intro a b ha hb
  rw [hlab a ha, hlab b hb]
  exact h a b ha hb

/-- **A vertex arrives.** `F` are the labels of its neighbours, and all of them become
`t`, which is one of them or, where there is none, new. -/
theorem IsLabelling.add {lab lab' : α → κ} {v : α} {F : κ → Prop} {t : κ}
    (h : IsLabelling E S lab) (hsymm : ∀ x y, E x y → E y x)
    (hF : ∀ k, F k ↔ ∃ x, S x ∧ E v x ∧ lab x = k)
    (ht : F t ∨ (∀ k, ¬ F k) ∧ ∀ a, S a → lab a ≠ t)
    (hv : lab' v = t) (hin : ∀ a, S a → F (lab a) → lab' a = t)
    (hout : ∀ a, S a → ¬ F (lab a) → lab' a = lab a) :
    IsLabelling E (fun x => S x ∨ x = v) lab' := by
  have hmono : ∀ {x y}, Joined E S x y → Joined E (fun x => S x ∨ x = v) x y :=
    fun hj => hj.mono fun _ hz => Or.inl hz
  -- a vertex whose label is a neighbour's is joined to `v`
  have hjoin : ∀ a, S a → F (lab a) → Joined E (fun x => S x ∨ x = v) a v := by
    intro a ha hFa
    obtain ⟨x, hx, hvx, hlab⟩ := (hF _).mp hFa
    have hax : Joined E S a x := (h a x ha hx).mp hlab.symm
    exact (hmono hax).trans (Joined.of_edge (Or.inl hx) (Or.inr rfl) (hsymm v x hvx))
  have hnot : ∀ b, S b → ¬ F (lab b) → lab' b ≠ t := by
    intro b hb hnb heq
    rw [hout b hb hnb] at heq
    rcases ht with ht | ⟨-, hfresh⟩
    · exact hnb (heq ▸ ht)
    · exact hfresh b hb heq
  -- chains keep the labels, so it is enough to look at edges
  have hedge : ∀ a b, (S a ∨ a = v) → (S b ∨ b = v) → E a b → lab' a = lab' b := by
    have hnbr : ∀ b, S b → E v b → lab' b = t :=
      fun b hb hvb => hin b hb ((hF _).mpr ⟨b, hb, hvb, rfl⟩)
    intro a b ha hb hab
    rcases ha with ha | rfl
    · rcases hb with hb | rfl
      · have hlab : lab a = lab b := (h a b ha hb).mpr (Joined.of_edge ha hb hab)
        by_cases hFa : F (lab a)
        · rw [hin a ha hFa, hin b hb (hlab ▸ hFa)]
        · rw [hout a ha hFa, hout b hb (hlab ▸ hFa), hlab]
      · rw [hnbr a ha (hsymm _ _ hab), hv]
    · rcases hb with hb | rfl
      · rw [hnbr b hb hab, hv]
      · rfl
  intro a b ha hb
  refine ⟨fun heq => ?_, fun hj => hj.lab_eq hedge⟩
  rcases ha with ha | rfl
  · rcases hb with hb | rfl
    · by_cases hFa : F (lab a)
      · by_cases hFb : F (lab b)
        · exact (hjoin a ha hFa).trans (hjoin b hb hFb).symm
        · rw [hin a ha hFa] at heq
          exact absurd heq.symm (hnot b hb hFb)
      · by_cases hFb : F (lab b)
        · rw [hin b hb hFb] at heq
          exact absurd heq (hnot a ha hFa)
        · rw [hout a ha hFa, hout b hb hFb] at heq
          exact hmono ((h a b ha hb).mp heq)
    · by_cases hFa : F (lab a)
      · exact hjoin a ha hFa
      · rw [hv] at heq
        exact absurd heq (hnot a ha hFa)
  · rcases hb with hb | rfl
    · by_cases hFb : F (lab b)
      · exact (hjoin b hb hFb).symm
      · rw [hv] at heq
        exact absurd heq.symm (hnot b hb hFb)
    · exact Joined.refl _

end FlyMail
