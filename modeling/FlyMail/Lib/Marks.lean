/-
Numbered marks in a text.

A mark is an opening sign, digits, and a closing sign.  A text falls apart into what is in front of
its first mark, and the marks with the text behind each.  No sign is escaped, so a mark is one
wherever it stands; two cannot overlap, since the opening sign is only at a mark's beginning.

Texts written one after another with a sign between them that is none of a mark keep their marks,
and what is behind the last mark goes on into the next text (`split_append`).
-/
import Mathlib.Data.List.Basic
import Mathlib.Data.List.TakeWhile

namespace FlyMail.Marks

variable {α : Type} [DecidableEq α] (opener closer : α) (digit : α → Bool)

/-- Digits and a closing sign, and what is behind them. -/
def readMark (t : List α) : Option (List α × List α) :=
  match t.dropWhile digit with
  | c :: rest => if c = closer ∧ t.takeWhile digit ≠ [] then some (t.takeWhile digit, rest) else none
  | [] => none

/-- What is in front of the first mark, and the marks with the text behind each. -/
def split : List α → List α × List (List α × List α)
  | [] => ([], [])
  | c :: t =>
      let (front, found) := split t
      if c = opener then
        match readMark closer digit front with
        | some (ds, text) => ([], (ds, text) :: found)
        | none => (c :: front, found)
      else (c :: front, found)

/-- The text without its marks. -/
def remove (t : List α) : List α :=
  (split opener closer digit t).1 ++ (split opener closer digit t).2.flatMap Prod.snd

def mark (ds : List α) : List α := opener :: (ds ++ [closer])

/-- More text behind the last of the marks. -/
def extend (more : List α) : List (List α × List α) → List (List α × List α)
  | [] => []
  | [(ds, t)] => [(ds, t ++ more)]
  | x :: y :: rest => x :: extend more (y :: rest)

variable {opener closer : α} {digit : α → Bool}

theorem split_cons_of_ne {c : α} (h : c ≠ opener) (t : List α) :
    split opener closer digit (c :: t)
      = (c :: (split opener closer digit t).1, (split opener closer digit t).2) := by
  simp only [split, if_neg h]

theorem split_opener (t : List α) :
    split opener closer digit (opener :: t) =
      match readMark closer digit (split opener closer digit t).1 with
      | some (ds, text) => ([], (ds, text) :: (split opener closer digit t).2)
      | none => (opener :: (split opener closer digit t).1, (split opener closer digit t).2) := by
  simp only [split, if_true]

theorem split_append_of_notMem {a : List α} (h : opener ∉ a) (t : List α) :
    split opener closer digit (a ++ t)
      = (a ++ (split opener closer digit t).1, (split opener closer digit t).2) := by
  induction a with
  | nil => rfl
  | cons c a ih =>
      have hc : c ≠ opener := fun heq => h (heq ▸ List.mem_cons_self)
      rw [List.cons_append, split_cons_of_ne hc, ih fun hmem => h (List.mem_cons_of_mem _ hmem), List.cons_append]

/-! ### Reading a mark -/

theorem readMark_some {t ds rest : List α} (h : readMark closer digit t = some (ds, rest)) :
    t = ds ++ closer :: rest ∧ ds ≠ [] ∧ ∀ c ∈ ds, digit c = true := by
  unfold readMark at h
  split at h
  · rename_i c rest' hdrop
    split at h
    · rename_i hcond
      obtain ⟨rfl, rfl⟩ := Prod.mk.inj (Option.some.inj h)
      refine ⟨?_, hcond.2, fun c hc => List.mem_takeWhile_imp hc⟩
      rw [← hcond.1, ← hdrop, List.takeWhile_append_dropWhile]
    · cases h
  · cases h

/-- The signs of a mark are no digits and differ. -/
structure Signs (opener closer : α) (digit : α → Bool) : Prop where
  opener_digit : digit opener = false
  closer_digit : digit closer = false
  differ : opener ≠ closer

/-- A sign that is none of a mark. -/
structure Between (opener closer : α) (digit : α → Bool) (sep : α) : Prop where
  no_digit : digit sep = false
  ne_opener : sep ≠ opener
  ne_closer : sep ≠ closer

section Signs

variable (hsigns : Signs opener closer digit)

include hsigns

theorem readMark_mark {ds : List α} (hne : ds ≠ []) (hds : ∀ c ∈ ds, digit c = true) (t : List α) :
    readMark closer digit (ds ++ closer :: t) = some (ds, t) := by
  unfold readMark
  rw [List.dropWhile_append_of_pos hds, List.takeWhile_append_of_pos hds,
    List.dropWhile_cons_of_neg (by simp [hsigns.closer_digit]), List.takeWhile_cons_of_neg (by simp [hsigns.closer_digit]),
    List.append_nil]
  exact if_pos ⟨rfl, hne⟩

/-- A mark that was read is read with more text behind it too. -/
theorem readMark_append {t ds rest : List α} (h : readMark closer digit t = some (ds, rest)) (more : List α) :
    readMark closer digit (t ++ more) = some (ds, rest ++ more) := by
  obtain ⟨rfl, hne, hds⟩ := readMark_some h
  rw [List.append_assoc, List.cons_append]
  exact readMark_mark hsigns hne hds _

/-- A sign that is none of a mark ends the digits. -/
theorem readMark_stop {sep : α} (hsep : Between opener closer digit sep) {t : List α}
    (h : readMark closer digit t = none) (more : List α) : readMark closer digit (t ++ sep :: more) = none := by
  cases hread : readMark closer digit (t ++ sep :: more) with
  | none => rfl
  | some p =>
      obtain ⟨ds, rest⟩ := p
      obtain ⟨heq, hne, hds⟩ := readMark_some hread
      -- the mark would end in front of the separator
      rcases List.append_eq_append_iff.mp heq with ⟨a, hdsEq, hrest⟩ | ⟨a, ht, hrest⟩
      · cases a with
        | nil => exact absurd (List.cons.inj hrest).1 hsep.ne_closer
        | cons c a =>
            have hc := hds c (by rw [hdsEq]; simp)
            rw [← (List.cons.inj hrest).1, hsep.no_digit] at hc
            cases hc
      · cases a with
        | nil => exact absurd (List.cons.inj hrest).1.symm hsep.ne_closer
        | cons c a =>
            obtain ⟨rfl, -⟩ := List.cons.inj hrest
            rw [ht, readMark_mark hsigns hne hds] at h
            cases h

/-- A mark with text behind it. -/
theorem split_mark {ds : List α} (hne : ds ≠ []) (hds : ∀ c ∈ ds, digit c = true) (t : List α) :
    split opener closer digit (mark opener closer ds ++ t)
      = ([], (ds, (split opener closer digit t).1) :: (split opener closer digit t).2) := by
  have hnot : opener ∉ ds ++ [closer] := by
    intro hmem
    rcases List.mem_append.mp hmem with hmem | hmem
    · exact absurd (hds _ hmem) (by simp [hsigns.opener_digit])
    · exact hsigns.differ (List.mem_singleton.mp hmem)
  rw [mark, List.cons_append, split_opener, split_append_of_notMem hnot, List.append_assoc,
    List.singleton_append, readMark_mark hsigns hne hds]

/-- **Two texts with a sign between them.** -/
theorem split_append {sep : α} (hsep : Between opener closer digit sep) (a t : List α) :
    split opener closer digit (a ++ sep :: t) =
      if (split opener closer digit a).2 = [] then
        ((split opener closer digit a).1 ++ sep :: (split opener closer digit t).1, (split opener closer digit t).2)
      else
        ((split opener closer digit a).1,
          extend (sep :: (split opener closer digit t).1) (split opener closer digit a).2 ++
            (split opener closer digit t).2) := by
  induction a with
  | nil =>
      rw [List.nil_append, split_cons_of_ne hsep.ne_opener]
      rfl
  | cons c a ih =>
      rw [List.cons_append]
      by_cases hc : c = opener
      · subst hc
        rw [split_opener, split_opener, ih]
        by_cases hfound : (split c closer digit a).2 = []
        · rw [if_pos hfound]
          cases hread : readMark closer digit (split c closer digit a).1 with
          | none =>
              simp only [readMark_stop hsigns hsep hread, if_pos hfound]
              rfl
          | some p =>
              simp only [readMark_append hsigns hread, hfound]
              rfl
        · rw [if_neg hfound]
          cases hread : readMark closer digit (split c closer digit a).1 with
          | none => simp only [if_neg hfound]
          | some p =>
              obtain ⟨x, rest, hx⟩ := List.exists_cons_of_ne_nil hfound
              simp only [hx, extend, if_neg (List.cons_ne_nil _ _), List.cons_append]
      · rw [split_cons_of_ne hc, split_cons_of_ne hc, ih]
        split
        · rfl
        · rfl

end Signs

/-! ### Texts without marks -/

variable (opener closer digit) in
def Unmarked (t : List α) : Prop := (split opener closer digit t).2 = []

theorem Unmarked.front {t : List α} (h : Unmarked opener closer digit t) : (split opener closer digit t).1 = t := by
  induction t with
  | nil => rfl
  | cons c t ih =>
      unfold Unmarked at h ih
      by_cases hc : c = opener
      · subst hc
        rw [split_opener] at h ⊢
        cases hread : readMark closer digit (split c closer digit t).1 with
        | none =>
            rw [hread] at h
            exact congrArg (c :: ·) (ih h)
        | some p =>
            rw [hread] at h
            cases h
      · rw [split_cons_of_ne hc] at h ⊢
        exact congrArg (c :: ·) (ih h)

theorem Unmarked.remove_eq {t : List α} (h : Unmarked opener closer digit t) :
    remove opener closer digit t = t := by
  unfold remove
  rw [h.front, show (split opener closer digit t).2 = [] from h, List.flatMap_nil, List.append_nil]

theorem Unmarked.of_cons {c : α} {t : List α} (h : Unmarked opener closer digit (c :: t)) :
    Unmarked opener closer digit t := by
  unfold Unmarked at h ⊢
  by_cases hc : c = opener
  · subst hc
    rw [split_opener] at h
    cases hread : readMark closer digit (split c closer digit t).1 with
    | none =>
        rw [hread] at h
        exact h
    | some p =>
        rw [hread] at h
        cases h
  · rw [split_cons_of_ne hc] at h
    exact h

theorem Unmarked.of_append_right {a t : List α} (h : Unmarked opener closer digit (a ++ t)) :
    Unmarked opener closer digit t := by
  induction a with
  | nil => exact h
  | cons c a ih => exact ih h.of_cons

theorem Unmarked.of_append_left (hsigns : Signs opener closer digit) {a t : List α}
    (h : Unmarked opener closer digit (a ++ t)) : Unmarked opener closer digit a := by
  induction a with
  | nil => rfl
  | cons c a ih =>
      have hrest : Unmarked opener closer digit (a ++ t) := h.of_cons
      have ha := ih hrest
      unfold Unmarked
      by_cases hc : c = opener
      · subst hc
        rw [split_opener, ha.front]
        cases hread : readMark closer digit a with
        | none => exact ha
        | some p =>
            -- the mark would be one of the whole too
            have hwhole : (split c closer digit (c :: (a ++ t))).2 = [] := h
            rw [split_opener, hrest.front, readMark_append hsigns hread] at hwhole
            cases hwhole
      · rw [split_cons_of_ne hc]
        exact ha

/-- **No mark is left in front of the first one, nor behind any.** -/
theorem unmarked_split (t : List α) : Unmarked opener closer digit (split opener closer digit t).1 ∧
    ∀ p ∈ (split opener closer digit t).2, Unmarked opener closer digit p.2 := by
  induction t with
  | nil => exact ⟨rfl, fun p hp => absurd hp List.not_mem_nil⟩
  | cons c t ih =>
      obtain ⟨hfront, hfound⟩ := ih
      by_cases hc : c = opener
      · subst hc
        rw [split_opener]
        cases hread : readMark closer digit (split c closer digit t).1 with
        | none =>
            refine ⟨?_, hfound⟩
            show (split c closer digit (c :: (split c closer digit t).1)).2 = []
            rw [split_opener, hfront.front, hread]
            exact hfront
        | some p =>
            obtain ⟨heq, -, -⟩ := readMark_some hread
            rw [heq] at hfront
            refine ⟨rfl, fun q hq => ?_⟩
            rcases List.mem_cons.mp hq with rfl | hq
            · exact hfront.of_append_right.of_cons
            · exact hfound q hq
      · rw [split_cons_of_ne hc]
        refine ⟨?_, hfound⟩
        show (split opener closer digit (c :: (split opener closer digit t).1)).2 = []
        rw [split_cons_of_ne hc]
        exact hfront

/-- Without the opening sign there are no marks. -/
theorem unmarked_of_notMem {t : List α} (h : opener ∉ t) : Unmarked opener closer digit t := by
  have hsplit := @split_append_of_notMem _ _ opener closer digit t h []
  rw [List.append_nil] at hsplit
  exact congrArg Prod.snd hsplit

end FlyMail.Marks
