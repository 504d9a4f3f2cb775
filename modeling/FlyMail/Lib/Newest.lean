/-
A register that keeps the newest of what arrives.

What arrives replaces what is there, unless its stamp is smaller.  So in the end there is one of the
largest stamp, whatever the order of arrival, and however often something arrives.
-/
import Mathlib.Order.Lattice

namespace FlyMail

variable {α κ : Type} [LinearOrder κ]

/-- What is kept of what is there and what arrives. -/
def keepNewer (stamp : α → κ) (there : Option α) (new : α) : Option α :=
  match there with
  | some old => if stamp old ≤ stamp new then some new else some old
  | none => some new

/-- What is there has the largest stamp of all that arrived. -/
def IsNewest (stamp : α → κ) (l : List α) (there : Option α) : Prop :=
  (there = none ∧ l = []) ∨ ∃ a, there = some a ∧ a ∈ l ∧ ∀ b ∈ l, stamp b ≤ stamp a

theorem isNewest_keepNewer {stamp : α → κ} {l : List α} {there : Option α} (h : IsNewest stamp l there) (new : α) :
    IsNewest stamp (l ++ [new]) (keepNewer stamp there new) := by
  rcases h with ⟨rfl, rfl⟩ | ⟨old, rfl, hmem, hmax⟩
  · exact Or.inr ⟨new, rfl, List.mem_singleton_self new, fun b hb => by rw [List.mem_singleton.mp hb]⟩
  · unfold keepNewer
    by_cases hle : stamp old ≤ stamp new
    · refine Or.inr ⟨new, if_pos hle, List.mem_append_right _ (List.mem_singleton_self new), fun b hb => ?_⟩
      rcases List.mem_append.mp hb with hb | hb
      · exact (hmax b hb).trans hle
      · rw [List.mem_singleton.mp hb]
    · refine Or.inr ⟨old, if_neg hle, List.mem_append_left _ hmem, fun b hb => ?_⟩
      rcases List.mem_append.mp hb with hb | hb
      · exact hmax b hb
      · rw [List.mem_singleton.mp hb]
        exact (not_le.mp hle).le

/-- **What is kept in the end has the largest stamp.** -/
theorem isNewest_foldl (stamp : α → κ) (l : List α) : IsNewest stamp l (l.foldl (keepNewer stamp) none) := by
  have hrun : ∀ (l seen : List α) (there : Option α), IsNewest stamp seen there →
      IsNewest stamp (seen ++ l) (l.foldl (keepNewer stamp) there) := by
    intro l
    induction l with
    | nil =>
      intro seen there h
      rwa [List.append_nil]
    | cons new l ih =>
      intro seen there h
      rw [List.foldl_cons, List.append_cons]
      exact ih _ _ (isNewest_keepNewer h new)
  exact hrun l [] none (Or.inl ⟨rfl, rfl⟩)

/-- One of the largest stamp is kept if no other has it. -/
theorem foldl_keepNewer_eq_iff {stamp : α → κ} {l : List α} {a : α} (ha : a ∈ l)
    (hinj : ∀ b ∈ l, stamp b = stamp a → b = a) :
    l.foldl (keepNewer stamp) none = some a ↔ ∀ b ∈ l, b ≠ a → stamp b < stamp a := by
  rcases isNewest_foldl stamp l with ⟨-, rfl⟩ | ⟨m, hm, hmem, hmax⟩
  · exact absurd ha List.not_mem_nil
  · rw [hm, Option.some.injEq]
    constructor
    · rintro rfl b hb hne
      exact lt_of_le_of_ne (hmax b hb) fun heq => hne (hinj b hb heq)
    · intro hlt
      by_contra hne
      exact absurd (hmax a ha) (not_le.mpr (hlt m hmem hne))

end FlyMail
