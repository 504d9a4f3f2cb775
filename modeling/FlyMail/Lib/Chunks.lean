/-
Work on a list in pieces of bounded length.

A query with a list of keys, or a call over many rows, is cut into pieces of at most
`n`.  Nothing is lost or reordered by the cut: the pieces one after another are the
list.
-/
import Mathlib.Data.List.Nodup

namespace FlyMail

variable {α : Type}

/-- The first `fuel` pieces of length `n`. -/
def chunksUpTo (n : Nat) : Nat → List α → List (List α)
  | 0, _ => []
  | _ + 1, [] => []
  | fuel + 1, a :: rest => (a :: rest).take n :: chunksUpTo n fuel ((a :: rest).drop n)

/-- The list cut into pieces of length `n`, the last one possibly shorter. -/
def chunksOf (n : Nat) (l : List α) : List (List α) := chunksUpTo n l.length l

private theorem flatten_chunksUpTo {n : Nat} (hn : 0 < n) :
    ∀ (fuel : Nat) (l : List α), l.length ≤ fuel → (chunksUpTo n fuel l).flatten = l := by
  intro fuel
  induction fuel with
  | zero =>
      intro l hl
      have hnil : l = [] := List.length_eq_zero_iff.mp (by omega)
      rw [hnil]
      rfl
  | succ fuel ih =>
      intro l hl
      cases l with
      | nil => rfl
      | cons a rest =>
          have hlen : ((a :: rest).drop n).length ≤ fuel := by
            rw [List.length_drop]
            rw [List.length_cons] at hl ⊢
            omega
          show (a :: rest).take n ++ (chunksUpTo n fuel ((a :: rest).drop n)).flatten = a :: rest
          rw [ih _ hlen, List.take_append_drop]

/-- **The pieces make up the list.** -/
theorem flatten_chunksOf {n : Nat} (hn : 0 < n) (l : List α) : (chunksOf n l).flatten = l :=
  flatten_chunksUpTo hn l.length l (Nat.le_refl _)

@[simp] theorem chunksOf_nil (n : Nat) : chunksOf n ([] : List α) = [] := rfl

/-- The pieces hold the list's elements. -/
theorem exists_mem_chunksOf {n : Nat} (hn : 0 < n) {l : List α} {a : α} :
    (∃ c ∈ chunksOf n l, a ∈ c) ↔ a ∈ l := by
  rw [← List.mem_flatten, flatten_chunksOf hn]

/-- The pieces of a list without repetitions have nothing in common. -/
theorem disjoint_chunksOf {n : Nat} (hn : 0 < n) {l : List α} (h : l.Nodup) :
    (chunksOf n l).Pairwise List.Disjoint := by
  rw [← flatten_chunksOf hn l, List.nodup_flatten] at h
  exact h.2

end FlyMail
