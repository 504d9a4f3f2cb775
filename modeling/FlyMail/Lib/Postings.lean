/-
An index that keeps nothing of what it indexes.

All it has are entries, each a key and what was entered under it.  Nothing keeps a key from
being entered twice: the second entry then stands beside the first, and both are found.
Removing a key removes all its entries.
-/
import Mathlib.Init

namespace FlyMail

abbrev Postings (β : Type) := List (Nat × β)

namespace Postings

variable {β : Type} {p : Postings β} {id : Nat}

/-- What is entered under a key. -/
def entries (p : Postings β) (id : Nat) : List β := (p.filter fun e => e.1 == id).map Prod.snd

def remove (p : Postings β) (id : Nat) : Postings β := p.filter fun e => e.1 != id

@[simp] theorem entries_nil : entries ([] : Postings β) id = [] := rfl

@[simp] theorem entries_append (p q : Postings β) :
    entries (p ++ q) id = entries p id ++ entries q id := by
  simp [entries]

@[simp] theorem entries_remove_self : (p.remove id).entries id = [] := by
  simp [entries, remove]

theorem entries_remove_of_ne {id' : Nat} (h : id' ≠ id) :
    (p.remove id).entries id' = p.entries id' := by
  unfold entries remove
  rw [List.filter_filter]
  refine congrArg _ (List.filter_congr fun e _ => ?_)
  by_cases he : e.1 = id'
  · simp [he, h]
  · simp [he]

/-- Entries taken from rows with keys of their own. -/
theorem entries_map {α : Type} (f : α → β) (key : α → Nat) (rows : List α) :
    entries (rows.map fun r => (key r, f r)) id = (rows.filter fun r => key r == id).map f := by
  induction rows with
  | nil => rfl
  | cons r rest ih =>
      unfold entries at ih ⊢
      by_cases hr : key r = id
      · simp [hr, ih]
      · simp [hr, ih]

end Postings

end FlyMail
