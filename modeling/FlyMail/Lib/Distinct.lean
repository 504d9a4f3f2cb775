/-
How many keys there are among things.

`distinct f l` counts each key of the list once.  It depends only on which things have one key
(`distinct_congr`), not on the order, and adds up over parts that share no key.
-/
import Mathlib.Algebra.Ring.Nat
import Mathlib.Data.List.Dedup
import Mathlib.Data.List.Perm.Basic

namespace FlyMail

variable {α κ μ : Type} [DecidableEq κ] [DecidableEq μ]

/-- How many values `f` takes on the list. -/
def distinct (f : α → κ) (l : List α) : Nat := (l.map f).dedup.length

variable {f : α → κ} {l : List α} {a : α}

@[simp] theorem distinct_nil (f : α → κ) : distinct f [] = 0 := rfl

theorem distinct_cons_of_exists (h : ∃ b ∈ l, f b = f a) : distinct f (a :: l) = distinct f l := by
  unfold distinct
  rw [List.map_cons, List.dedup_cons_of_mem (List.mem_map.mpr h)]

theorem distinct_cons_of_forall (h : ∀ b ∈ l, f b ≠ f a) :
    distinct f (a :: l) = distinct f l + 1 := by
  unfold distinct
  rw [List.map_cons, List.dedup_cons_of_notMem, List.length_cons]
  rw [List.mem_map]
  rintro ⟨b, hb, heq⟩
  exact h b hb heq

theorem distinct_perm {l' : List α} (h : l.Perm l') : distinct f l = distinct f l' :=
  ((h.map f).dedup).length_eq

theorem distinct_concat_of_exists (h : ∃ b ∈ l, f b = f a) :
    distinct f (l ++ [a]) = distinct f l :=
  (distinct_perm (List.perm_append_singleton a l)).trans (distinct_cons_of_exists h)

theorem distinct_concat_of_forall (h : ∀ b ∈ l, f b ≠ f a) :
    distinct f (l ++ [a]) = distinct f l + 1 :=
  (distinct_perm (List.perm_append_singleton a l)).trans (distinct_cons_of_forall h)

/-- **Functions that agree on which things are alike take as many values.** -/
theorem distinct_congr {g : α → μ} (h : ∀ a ∈ l, ∀ b ∈ l, f a = f b ↔ g a = g b) :
    distinct f l = distinct g l := by
  induction l with
  | nil => rfl
  | cons a rest ih =>
      have hrest := ih fun b hb c hc => h b (List.mem_cons_of_mem _ hb) c (List.mem_cons_of_mem _ hc)
      have ha : ∀ b ∈ rest, f b = f a ↔ g b = g a := fun b hb =>
        h b (List.mem_cons_of_mem _ hb) a List.mem_cons_self
      by_cases hex : ∃ b ∈ rest, f b = f a
      · obtain ⟨b, hb, heq⟩ := hex
        rw [distinct_cons_of_exists ⟨b, hb, heq⟩, distinct_cons_of_exists ⟨b, hb, (ha b hb).mp heq⟩,
          hrest]
      · have hno : ∀ b ∈ rest, f b ≠ f a := fun b hb heq => hex ⟨b, hb, heq⟩
        rw [distinct_cons_of_forall hno, distinct_cons_of_forall fun b hb heq => hno b hb ((ha b hb).mpr heq),
          hrest]

theorem distinct_map {β : Type} (g : β → α) (l : List β) :
    distinct f (l.map g) = distinct (fun b => f (g b)) l := by
  unfold distinct
  rw [List.map_map]
  rfl

/-- Parts that share no value. -/
theorem distinct_append {l' : List α} (h : ∀ a ∈ l, ∀ b ∈ l', f a ≠ f b) :
    distinct f (l ++ l') = distinct f l + distinct f l' := by
  induction l with
  | nil => simp
  | cons a rest ih =>
      have hrest := ih fun b hb => h b (List.mem_cons_of_mem _ hb)
      rw [List.cons_append]
      by_cases hex : ∃ b ∈ rest, f b = f a
      · obtain ⟨b, hb, heq⟩ := hex
        rw [distinct_cons_of_exists ⟨b, List.mem_append_left _ hb, heq⟩,
          distinct_cons_of_exists ⟨b, hb, heq⟩, hrest]
      · have hno : ∀ b ∈ rest, f b ≠ f a := fun b hb heq => hex ⟨b, hb, heq⟩
        have hnone : ∀ b ∈ rest ++ l', f b ≠ f a := by
          intro b hb
          rcases List.mem_append.mp hb with hb | hb
          · exact hno b hb
          · exact (h a List.mem_cons_self b hb).symm
        rw [distinct_cons_of_forall hnone, distinct_cons_of_forall hno, hrest]
        omega

/-- **Parts by a key**, where things of one value have one key. -/
theorem distinct_eq_sum {ν : Type} [DecidableEq ν] (key : α → ν) (keys : List ν) :
    ∀ {l : List α}, keys.Nodup → (∀ a ∈ l, key a ∈ keys) →
      (∀ a ∈ l, ∀ b ∈ l, f a = f b → key a = key b) →
      distinct f l = (keys.map fun k => distinct f (l.filter fun a => key a = k)).sum := by
  induction keys with
  | nil =>
      intro l _ hkeys _
      have hnil : l = [] := List.eq_nil_iff_forall_not_mem.mpr fun a ha => List.not_mem_nil (hkeys a ha)
      rw [hnil]
      rfl
  | cons k rest ih =>
      intro l hnodup hkeys hone
      obtain ⟨hk, hrest⟩ := List.nodup_cons.mp hnodup
      have hperm : (l.filter (fun a => key a = k) ++ l.filter fun a => !decide (key a = k)).Perm l :=
        List.filter_append_perm _ l
      have happart : ∀ a ∈ l.filter (fun a => key a = k), ∀ b ∈ l.filter (fun a => !decide (key a = k)),
          f a ≠ f b := by
        intro a ha b hb heq
        simp only [List.mem_filter, decide_eq_true_eq, Bool.not_eq_true', decide_eq_false_iff_not] at ha hb
        exact hb.2 ((hone a ha.1 b hb.1 heq).symm.trans ha.2)
      rw [List.map_cons, List.sum_cons, ← distinct_perm hperm, distinct_append happart]
      congr 1
      rw [ih hrest]
      · refine congrArg List.sum (List.map_congr_left fun j hj => ?_)
        rw [List.filter_filter]
        refine congrArg _ (List.filter_congr fun a _ => ?_)
        by_cases haj : key a = j
        · have hne : ¬ key a = k := fun hak => hk (hak ▸ haj ▸ hj)
          simp [haj, haj ▸ hne]
        · simp [haj]
      · intro a ha
        simp only [List.mem_filter, Bool.not_eq_true', decide_eq_false_iff_not] at ha
        exact (List.mem_cons.mp (hkeys a ha.1)).resolve_left ha.2
      · intro a ha b hb
        exact hone a (List.mem_filter.mp ha).1 b (List.mem_filter.mp hb).1

end FlyMail
