/-
What comes first of its key.

In a sequence of things, some of which have a key, a thing repeats when an earlier one has
the same key.  Whoever lets through only what does not repeat lets through `firsts`.

`sum_eq_one_iff` says when a quantity that each thing has a share of comes to exactly one:
one thing has one, and all the others have none.
-/
import Mathlib.Algebra.BigOperators.Group.List.Basic
import Mathlib.Algebra.Ring.Nat

namespace FlyMail

variable {α κ : Type} [DecidableEq κ]

/-- An earlier thing has the same key. -/
def repeats (key : α → Option κ) (earlier : List α) (a : α) : Bool :=
  match key a with
  | none => false
  | some k => earlier.any fun e => key e == some k

/-- The things that do not repeat, where `earlier` came before. -/
def firsts (key : α → Option κ) : List α → List α → List α
  | _, [] => []
  | earlier, a :: rest =>
      if repeats key earlier a then firsts key (a :: earlier) rest
      else a :: firsts key (a :: earlier) rest

theorem repeats_iff {key : α → Option κ} {earlier : List α} {a : α} {k : κ}
    (hkey : key a = some k) : repeats key earlier a = true ↔ ∃ e ∈ earlier, key e = some k := by
  unfold repeats
  rw [hkey]
  simp only [List.any_eq_true, beq_iff_eq]

theorem not_repeats_of_key_none {key : α → Option κ} {earlier : List α} {a : α}
    (hkey : key a = none) : repeats key earlier a = false := by
  unfold repeats
  rw [hkey]

theorem mem_of_mem_firsts {key : α → Option κ} {rest : List α} {a : α} :
    ∀ {earlier : List α}, a ∈ firsts key earlier rest → a ∈ rest := by
  induction rest with
  | nil =>
      intro earlier h
      exact h
  | cons b rest ih =>
      intro earlier h
      unfold firsts at h
      by_cases hrep : repeats key earlier b = true
      · rw [if_pos hrep] at h
        exact List.mem_cons_of_mem _ (ih h)
      · rw [if_neg hrep] at h
        rcases List.mem_cons.mp h with rfl | h
        · exact List.mem_cons_self
        · exact List.mem_cons_of_mem _ (ih h)

/-- **Every key is let through once.** -/
theorem exists_mem_firsts {key : α → Option κ} {rest : List α} {a : α} {k : κ} (ha : a ∈ rest) (hkey : key a = some k) :
    ∀ {earlier : List α}, (∃ e ∈ earlier, key e = some k) ∨ ∃ b ∈ firsts key earlier rest, key b = some k := by
  induction rest with
  | nil => cases ha
  | cons b rest ih =>
      intro earlier
      unfold firsts
      by_cases hrep : repeats key earlier b = true
      · rw [if_pos hrep]
        rcases List.mem_cons.mp ha with rfl | ha
        · exact Or.inl ((repeats_iff hkey).mp hrep)
        · rcases @ih ha (b :: earlier) with ⟨e, he, hek⟩ | h
          · rcases List.mem_cons.mp he with rfl | he
            · exact Or.inl ((repeats_iff hek).mp hrep)
            · exact Or.inl ⟨e, he, hek⟩
          · exact Or.inr h
      · rw [if_neg hrep]
        rcases List.mem_cons.mp ha with rfl | ha
        · exact Or.inr ⟨a, List.mem_cons_self, hkey⟩
        · rcases @ih ha (b :: earlier) with ⟨e, he, hek⟩ | ⟨c, hc, hck⟩
          · rcases List.mem_cons.mp he with rfl | he
            · exact Or.inr ⟨e, List.mem_cons_self, hek⟩
            · exact Or.inl ⟨e, he, hek⟩
          · exact Or.inr ⟨c, List.mem_cons_of_mem _ hc, hck⟩

/-- What is let through has no key of what came before. -/
theorem key_ne_of_mem_firsts {key : α → Option κ} {rest : List α} {a : α} {k : κ} (hkey : key a = some k) :
    ∀ {earlier : List α}, a ∈ firsts key earlier rest → ∀ e ∈ earlier, key e ≠ some k := by
  induction rest with
  | nil =>
      intro earlier h
      cases h
  | cons b rest ih =>
      intro earlier h e he hek
      unfold firsts at h
      by_cases hrep : repeats key earlier b = true
      · rw [if_pos hrep] at h
        exact ih h e (List.mem_cons_of_mem _ he) hek
      · rw [if_neg hrep] at h
        rcases List.mem_cons.mp h with rfl | h
        · exact hrep ((repeats_iff hkey).mpr ⟨e, he, hek⟩)
        · exact ih h e (List.mem_cons_of_mem _ he) hek

/-- No two that are let through have one key. -/
theorem nodup_firsts {f : α → κ} {rest : List α} :
    ∀ {earlier : List α}, ((firsts (fun a => some (f a)) earlier rest).map f).Nodup := by
  induction rest with
  | nil => exact List.nodup_nil
  | cons b rest ih =>
      intro earlier
      unfold firsts
      split
      · exact ih
      · refine List.nodup_cons.mpr ⟨fun hmem => ?_, ih⟩
        obtain ⟨a, ha, heq⟩ := List.mem_map.mp hmem
        have hne : ∀ e ∈ b :: earlier, some (f e) ≠ some (f a) :=
          @key_ne_of_mem_firsts α κ _ (fun a => some (f a)) rest a (f a) rfl _ ha
        exact hne b List.mem_cons_self (congrArg some heq.symm)

/-! ### Shares that come to one -/

theorem sum_eq_zero_of_forall {l : List α} {f : α → Nat} (h : ∀ a ∈ l, f a = 0) :
    (l.map f).sum = 0 := by
  rw [List.sum_eq_zero_iff_forall_eq_nat]
  intro n hn
  obtain ⟨a, ha, rfl⟩ := List.mem_map.mp hn
  exact h a ha

theorem eq_zero_of_sum_eq_zero {l : List α} {f : α → Nat} (h : (l.map f).sum = 0) {a : α}
    (ha : a ∈ l) : f a = 0 :=
  List.sum_eq_zero_iff_forall_eq_nat.mp h _ (List.mem_map_of_mem ha)

/-- **The shares come to one** just when one thing has one and the others have none. -/
theorem sum_eq_one_iff {l : List α} {f : α → Nat} :
    (l.map f).sum = 1 ↔
      (∃ a ∈ l, f a ≠ 0) ∧ (∀ a ∈ l, f a ≤ 1) ∧ l.Pairwise fun a b => f a = 0 ∨ f b = 0 := by
  induction l with
  | nil => simp
  | cons b rest ih =>
      rw [List.map_cons, List.sum_cons, List.pairwise_cons]
      by_cases hb : f b = 0
      · rw [hb, Nat.zero_add, ih]
        constructor
        · rintro ⟨⟨a, ha, hne⟩, hle, hpair⟩
          refine ⟨⟨a, List.mem_cons_of_mem _ ha, hne⟩, ?_, fun _ _ => Or.inl rfl, hpair⟩
          intro c hc
          rcases List.mem_cons.mp hc with rfl | hc
          · omega
          · exact hle c hc
        · rintro ⟨⟨a, ha, hne⟩, hle, -, hpair⟩
          refine ⟨?_, fun c hc => hle c (List.mem_cons_of_mem _ hc), hpair⟩
          rcases List.mem_cons.mp ha with rfl | ha
          · exact absurd hb hne
          · exact ⟨a, ha, hne⟩
      · constructor
        · intro h
          have hrest : (rest.map f).sum = 0 := by omega
          refine ⟨⟨b, List.mem_cons_self, hb⟩, ?_, ?_, ?_⟩
          · intro c hc
            rcases List.mem_cons.mp hc with rfl | hc
            · omega
            · have hzero := eq_zero_of_sum_eq_zero hrest hc
              omega
          · exact fun c hc => Or.inr (eq_zero_of_sum_eq_zero hrest hc)
          · exact List.pairwise_of_forall_mem_list fun c hc _ _ =>
              Or.inl (eq_zero_of_sum_eq_zero hrest hc)
        · rintro ⟨-, hle, hothers, -⟩
          have hone := hle b List.mem_cons_self
          have hrest : (rest.map f).sum = 0 :=
            sum_eq_zero_of_forall fun c hc => (hothers c hc).resolve_left hb
          omega

end FlyMail
