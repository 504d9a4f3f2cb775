/-
Items taken one after another until one fails.

What was done for the items before it stays done.  A loop whose body returns the error it meets, with
no transaction around it, is of this form.
-/
import Mathlib.Data.List.Forall2

namespace FlyMail

variable {σ α ε : Type}

/-- Take the items in turn; on the first error stop with it, where things stand. -/
def untilError (step : σ → α → Except ε σ) : σ → List α → σ × Option ε
  | s, [] => (s, none)
  | s, a :: rest =>
      match step s a with
      | .error e => (s, some e)
      | .ok t => untilError step t rest

section

variable {f : σ → α → Except ε σ} {s : σ} {l : List α}

/-- **The loop rule.**  What holds of the state and the items still to come, and is kept by a step that
succeeds, holds where the loop stops. -/
theorem untilError_invariant {I : σ → List α → Prop}
    (hpres : ∀ s a rest t, I s (a :: rest) → f s a = .ok t → I t rest) (hs : I s l) :
    ∃ rest, I (untilError f s l).1 rest ∧ ((untilError f s l).2 = none ↔ rest = []) := by
  induction l generalizing s with
  | nil => exact ⟨[], hs, by simp [untilError]⟩
  | cons a rest ih =>
      cases h : f s a with
      | error e => exact ⟨a :: rest, by simpa [untilError, h] using hs, by simp [untilError, h]⟩
      | ok t => simpa [untilError, h] using ih (hpres s a rest t hs h)

/-- The loop comes to its end if and only if no item is one of those that fail. -/
theorem untilError_none_iff {I : σ → Prop} {p : α → Prop}
    (hpres : ∀ s a t, I s → f s a = .ok t → I t)
    (hfails : ∀ s a, I s → ((∃ e, f s a = .error e) ↔ p a)) (hs : I s) :
    (untilError f s l).2 = none ↔ ∀ a ∈ l, ¬ p a := by
  induction l generalizing s with
  | nil => simp [untilError]
  | cons a rest ih =>
      rw [List.forall_mem_cons]
      cases h : f s a with
      | error e =>
          have ha : p a := (hfails s a hs).mp ⟨e, h⟩
          simp [untilError, h, ha]
      | ok t =>
          have ha : ¬ p a := fun hf => by
            obtain ⟨e, he⟩ := (hfails s a hs).mpr hf
            rw [h] at he
            cases he
          simp only [untilError, h, ih (hpres s a t hs h), ha, not_false_eq_true, true_and]

/-- Where the first item fails nothing is done. -/
theorem untilError_head (h : ∀ a ∈ l.head?, ∃ e, f s a = .error e) : (untilError f s l).1 = s := by
  cases l with
  | nil => rfl
  | cons a rest =>
      obtain ⟨e, he⟩ := h a rfl
      simp [untilError, he]

variable {m : σ → Nat} (hcount : ∀ s a t, f s a = .ok t → m s < m t)
include hcount

/-- Where every item leaves a mark the marks never get fewer. -/
theorem le_untilError : m s ≤ m (untilError f s l).1 := by
  induction l generalizing s with
  | nil => exact Nat.le_refl _
  | cons a rest ih =>
      cases h : f s a with
      | error e => simp [untilError, h]
      | ok t =>
          have hlt := hcount s a t h
          have hle := ih (s := t)
          simp only [untilError, h]
          omega

/-- **A loop leaves no mark** if and only if there is nothing to take or the first item fails. -/
theorem untilError_unmarked_iff :
    m (untilError f s l).1 = m s ↔ ∀ a ∈ l.head?, ∃ e, f s a = .error e := by
  cases l with
  | nil => simp [untilError]
  | cons a rest =>
      cases h : f s a with
      | error e => simp [untilError, h]
      | ok t =>
          have hlt := hcount s a t h
          have hle := le_untilError hcount (s := t) (l := rest)
          simp only [untilError, h, List.head?_cons, Option.mem_def, Option.some.injEq]
          refine ⟨fun he => by omega, fun he => ?_⟩
          obtain ⟨e, he⟩ := he a rfl
          rw [h] at he
          cases he

end

/-! ### What comes of the items -/

/-- What agrees entry by entry agrees as a list. -/
theorem map_eq_of_forall₂ {α β γ : Type} {r : α → β → Prop} {f : α → γ} {g : β → γ} {l : List α} {k : List β}
    (h : List.Forall₂ r l k) : (∀ a ∈ l, ∀ b, r a b → g b = f a) → k.map g = l.map f := by
  induction h with
  | nil => exact fun _ => rfl
  | cons hab _ ih =>
      intro hfg
      rw [List.map_cons, List.map_cons, hfg _ List.mem_cons_self _ hab,
        ih fun a ha => hfg a (List.mem_cons_of_mem _ ha)]

/-- A list with its places, read without them. -/
theorem map_zipIdx {α β : Type} (f : α → β) (l : List α) (n : Nat) : (l.zipIdx n).map (fun x => f x.1) = l.map f := by
  conv_rhs => rw [← List.zipIdx_map_fst n l]
  rw [List.map_map]
  rfl

end FlyMail
