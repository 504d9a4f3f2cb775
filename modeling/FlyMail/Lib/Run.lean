/-
Runs of a transition system, and what holds along them.

A system is a partial step function: `step s a = some t` says that `a` can happen
in `s` and leads to `t`.  All choice, whether a scheduler's or a network's, sits
in the label `a`.

Two ways of talking about runs are needed.  A claim quantifies over runs whose
every step meets a side condition, and that is the relation `Run`.  A single run
that breaks a claim is a list of labels, and that is the function `exec`, which
evaluates.  `Run.ofExec` joins the two.
-/
import Mathlib.Init

namespace FlyMail

variable {σ α : Type}

/-- `Run step ok s t`: steps that all meet `ok` lead from `s` to `t`. -/
inductive Run (step : σ → α → Option σ) (ok : σ → α → Prop) (s : σ) : σ → Prop
  | refl : Run step ok s s
  | tail {t u : σ} {a : α} (h : Run step ok s t) (hok : ok t a) (hstep : step t a = some u) :
      Run step ok s u

namespace Run

variable {step : σ → α → Option σ} {ok : σ → α → Prop} {s t u : σ}

/-- **The run rule.**  What one step keeps, a run keeps. -/
theorem invariant {I : σ → Prop} (hpres : ∀ s a t, I s → ok s a → step s a = some t → I t)
    (h : Run step ok s t) (hs : I s) : I t := by
  induction h with
  | refl => exact hs
  | tail _ hok hstep ih => exact hpres _ _ _ ih hok hstep

/-- A run whose steps meet the stronger condition meets the weaker one. -/
theorem mono {ok' : σ → α → Prop} (hok : ∀ s a, ok s a → ok' s a) (h : Run step ok s t) :
    Run step ok' s t := by
  induction h with
  | refl => exact .refl
  | tail _ h1 h2 ih => exact .tail ih (hok _ _ h1) h2

theorem trans (h1 : Run step ok s t) (h2 : Run step ok t u) : Run step ok s u := by
  induction h2 with
  | refl => exact h1
  | tail _ hok hstep ih => exact .tail ih hok hstep

end Run

/-- Perform the labels one after another; `none` when one of them cannot happen or does
not meet the condition. -/
def exec (step : σ → α → Option σ) (ok : σ → α → Bool) : σ → List α → Option σ
  | s, [] => some s
  | s, a :: rest => if ok s a then (step s a).bind fun t => exec step ok t rest else none

/-- **A list of labels that can be performed is a run.** -/
theorem Run.ofExec {step : σ → α → Option σ} {ok : σ → α → Bool} (labels : List α) :
    ∀ {s t : σ}, exec step ok s labels = some t → Run step (fun s a => ok s a = true) s t := by
  induction labels with
  | nil =>
      intro s t h
      have hst : s = t := by simpa [exec] using h
      rw [hst]
      exact .refl
  | cons a rest ih =>
      intro s t h
      by_cases hok : ok s a = true
      · rw [exec, if_pos hok] at h
        obtain ⟨u, hu, hrest⟩ := Option.bind_eq_some_iff.mp h
        exact Run.trans (.tail .refl hok hu) (ih hrest)
      · rw [exec, if_neg hok] at h
        cases h

/-! ### Total systems -/

/-- Every step of the run of these labels meets the condition. -/
def Along (step : σ → α → σ) (P : σ → α → Prop) : σ → List α → Prop
  | _, [] => True
  | s, a :: rest => P s a ∧ Along step P (step s a) rest

/-- Conditions that agree on every step agree on every run. -/
theorem along_congr {step : σ → α → σ} {P Q : σ → α → Prop} (h : ∀ s a, P s a ↔ Q s a) (labels : List α) :
    ∀ s, Along step P s labels ↔ Along step Q s labels := by
  induction labels with
  | nil => exact fun s => Iff.rfl
  | cons a rest ih => exact fun s => and_congr (h s a) (ih (step s a))

end FlyMail
