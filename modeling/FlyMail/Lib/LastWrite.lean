/-
A register with a queue of writes on their way to it.

Whoever writes sees the value written last, whether or not the write has arrived.
`latest` is that value: the last one in the queue, or the register's own where the
queue is empty.  Writes may arrive out of order.  What keeps `latest` as it was is not
that they arrive in order but something weaker: the last write of the queue does not
arrive while an earlier one with another value is still queued.
-/
import Mathlib.Init

namespace FlyMail

variable {β : Type}

/-- The value written last: the queue's last one, or the register's. -/
def latest (queue : List β) (register : β) : β := queue.getLastD register

@[simp] theorem latest_nil (v : β) : latest [] v = v := rfl

/-- A new write is the latest. -/
@[simp] theorem latest_concat (queue : List β) (v w : β) : latest (queue ++ [v]) w = v := by
  simp [latest, List.getLastD_eq_getLast?]

/-- While a write is queued, the register does not matter. -/
theorem latest_of_ne_nil {queue : List β} (h : queue ≠ []) (v w : β) :
    latest queue v = latest queue w := by
  unfold latest
  rw [List.getLastD_eq_getLast?, List.getLastD_eq_getLast?]
  cases hl : queue.getLast? with
  | none => exact absurd (List.getLast?_eq_none_iff.mp hl) h
  | some a => rfl

/-- **A write arrives.** The latest value stays what it was, provided that the write has
a later one behind it or no earlier one with another value before it. -/
theorem latest_arrive {before after : List β} {v w : β}
    (h : after ≠ [] ∨ ∀ u ∈ before, u = v) :
    latest (before ++ after) v = latest (before ++ v :: after) w := by
  unfold latest
  rw [List.getLastD_eq_getLast?, List.getLastD_eq_getLast?]
  by_cases hafter : after = []
  · subst hafter
    have hall := h.resolve_left (fun hne => hne rfl)
    rw [List.append_nil, List.getLast?_concat, Option.getD_some]
    cases hl : before.getLast? with
    | none => rfl
    | some u => exact hall u (List.mem_of_getLast? hl)
  · obtain ⟨a, rest, rfl⟩ := List.exists_cons_of_ne_nil hafter
    rw [List.getLast?_append, List.getLast?_append, List.getLast?_cons_cons]
    cases hl : (a :: rest).getLast? with
    | none => simp at hl
    | some u => rfl

/-! ### A copy with a stamp

Whoever copies a register and writes the copy back later overwrites what was written in
between.  A journal of the writes tells: the copy is stamped with the length the journal
had when it was taken, and while the journal has that length the copy is still right.
-/

variable {γ : Type}

/-- `c` was copied from the register when the journal had `n` entries. -/
def Stamped (journal : List γ) (register : β) (n : Nat) (c : β) : Prop :=
  n ≤ journal.length ∧ (n = journal.length → register = c)

/-- The register was left alone, or the journal tells. -/
def Told (journal journal' : List γ) (register register' : β) : Prop :=
  (journal' = journal ∧ register' = register) ∨ journal.length < journal'.length

theorem Told.refl (journal : List γ) (register : β) : Told journal journal register register :=
  Or.inl ⟨rfl, rfl⟩

theorem Told.concat (journal : List γ) (e : γ) (register register' : β) :
    Told journal (journal ++ [e]) register register' := by
  refine Or.inr ?_
  rw [List.length_append, List.length_singleton]
  omega

theorem Stamped.self (journal : List γ) (register : β) :
    Stamped journal register journal.length register :=
  ⟨Nat.le_refl _, fun _ => rfl⟩

/-- **A stamp stays true whatever is written.** -/
theorem Stamped.told {journal journal' : List γ} {register register' : β} {n : Nat} {c : β}
    (h : Stamped journal register n c) (hstep : Told journal journal' register register') :
    Stamped journal' register' n c := by
  obtain ⟨hle, hval⟩ := h
  rcases hstep with ⟨rfl, rfl⟩ | hlt
  · exact ⟨hle, hval⟩
  · refine ⟨by omega, fun he => ?_⟩
    omega

end FlyMail
