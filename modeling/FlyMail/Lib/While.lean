/-
A loop, pass by pass.

A pass leaves the loop with an answer or goes on to the next one from another state.  Whether a loop
comes to an end is not taken for granted here: `loop` is a partial function, which has a value where
it does.

A function that does a pass for each unit of its fuel is the loop wherever some size gets smaller with
every pass that goes on and the fuel is more than that (`loop_eq_some`).
-/
import Mathlib.Data.PFun

namespace FlyMail

variable {σ α : Type}

/-- Pass after pass, until one leaves the loop. -/
def loop (pass : σ → α ⊕ σ) : σ →. α := PFun.fix fun s => Part.some (pass s)

variable {pass : σ → α ⊕ σ}

theorem loop_stop {s : σ} {a : α} (h : pass s = .inl a) : loop pass s = Part.some a :=
  Part.eq_some_iff.mpr (PFun.fix_stop (Part.mem_some_iff.mpr h.symm))

theorem loop_next {s t : σ} (h : pass s = .inr t) : loop pass s = loop pass t :=
  PFun.fix_fwd_eq (Part.mem_some_iff.mpr h.symm)

/-- **The loop rule.**  Where every pass that goes on keeps `I` and makes the size smaller, the loop
comes to an end, and a function that does its passes has its answer. -/
theorem loop_eq_some {I : σ → Prop} {size : σ → Nat} {run : Nat → σ → α}
    (hpass : ∀ s t, I s → pass s = .inr t → I t ∧ size t < size s)
    (hstop : ∀ n s a, pass s = .inl a → run (n + 1) s = a)
    (hnext : ∀ n s t, pass s = .inr t → run (n + 1) s = run n t) (n : Nat) :
    ∀ s, I s → size s < n → loop pass s = Part.some (run n s) := by
  induction n with
  | zero => exact fun s _ hn => absurd hn (Nat.not_lt_zero _)
  | succ n ih =>
      intro s hs hn
      cases h : pass s with
      | inl a => rw [loop_stop h, hstop n s a h]
      | inr t =>
          obtain ⟨ht, hlt⟩ := hpass s t hs h
          rw [loop_next h, hnext n s t h]
          exact ih t ht (Nat.lt_of_lt_of_le hlt (Nat.le_of_lt_succ hn))

end FlyMail
