/-
Rows by a key.

An index of a list is filled row after row, so of rows with one key it keeps the last.
-/
import Mathlib.Data.List.Induction
import Mathlib.Logic.Function.Basic

namespace FlyMail

variable {α κ : Type} [DecidableEq κ]

/-- The rows by their keys; of two with one key the later. -/
def byKey (key : α → κ) (rows : List α) : κ → Option α :=
  rows.foldl (fun m r => Function.update m (key r) (some r)) fun _ => none

variable {key : α → κ} {rows : List α} {k : κ}

@[simp] theorem byKey_nil : byKey key [] = fun _ => none := rfl

theorem byKey_concat (rows : List α) (r : α) :
    byKey key (rows ++ [r]) = Function.update (byKey key rows) (key r) (some r) := by
  simp [byKey, List.foldl_append]

/-- What is found under a key is a row with that key. -/
theorem byKey_mem {r : α} (h : byKey key rows k = some r) : r ∈ rows ∧ key r = k := by
  induction rows using List.reverseRecOn with
  | nil => simp at h
  | append_singleton rows a ih =>
      rw [byKey_concat] at h
      by_cases hk : k = key a
      · rw [hk, Function.update_self] at h
        cases h
        simp [hk]
      · rw [Function.update_of_ne hk] at h
        obtain ⟨hmem, heq⟩ := ih h
        exact ⟨List.mem_append_left _ hmem, heq⟩

/-- **Nothing is found** just when no row has the key. -/
theorem byKey_eq_none : byKey key rows k = none ↔ ∀ r ∈ rows, key r ≠ k := by
  induction rows using List.reverseRecOn with
  | nil => simp
  | append_singleton rows a ih =>
      rw [byKey_concat]
      by_cases hk : k = key a
      · rw [hk, Function.update_self]
        exact iff_of_false (Option.some_ne_none _) fun h => absurd rfl (h a (by simp))
      · rw [Function.update_of_ne hk, ih]
        refine ⟨fun h r hr => ?_, fun h r hr => h r (List.mem_append_left _ hr)⟩
        rcases List.mem_append.mp hr with hr | hr
        · exact h r hr
        · rw [List.mem_singleton.mp hr]
          exact fun he => hk he.symm

/-- Where rows have different keys, the index is the rows. -/
theorem byKey_eq_some_iff (h : ∀ a ∈ rows, ∀ b ∈ rows, key a = key b → a = b) {r : α} :
    byKey key rows k = some r ↔ r ∈ rows ∧ key r = k := by
  refine ⟨byKey_mem, fun ⟨hr, hk⟩ => ?_⟩
  cases hfound : byKey key rows k with
  | none => exact absurd hk (byKey_eq_none.mp hfound r hr)
  | some a =>
      obtain ⟨ha, hak⟩ := byKey_mem hfound
      rw [h a ha r hr (hak.trans hk.symm)]

end FlyMail
