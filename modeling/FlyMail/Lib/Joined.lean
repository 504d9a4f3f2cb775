/-
Lists of texts written as one.

Several texts are written one after another, with a separator and a blank between any two.  A
value that is looked for in the whole, perhaps only at its beginning or at its end, is found
within one of the texts, and then within one that stands where the value must stand; or it runs
over a separator.  `fits_join` says that it is found nowhere else.

Blanks at the ends of a text do not count, and the value has none at its ends.
-/
import FlyMail.Lib.Text
import Mathlib.Data.List.DropRight
import Mathlib.Data.List.Basic

namespace FlyMail.Joined

variable {α : Type} (blank : α → Bool)

/-- The text without the blanks at its two ends. -/
def trim (t : List α) : List α := (t.dropWhile blank).rdropWhile blank

/-- No blanks at the ends. -/
def Tight (val : List α) : Prop :=
  (∀ a ∈ val.head?, blank a = false) ∧ ∀ a ∈ val.getLast?, blank a = false

/-- The value stands in the text, at its beginning and at its end if so asked. -/
def Fits (atStart atEnd : Bool) (val t : List α) : Prop :=
  ∃ u w, trim blank t = u ++ val ++ w ∧ (atStart = true → u = []) ∧ (atEnd = true → w = [])

/-- The value runs from the one text over the separator into the other. -/
def Across (sep : α) (atStart atEnd : Bool) (val p q : List α) : Prop :=
  ∃ a b, val = a ++ sep :: b ∧ a <:+ p.dropWhile blank ∧ b <+: q.rdropWhile blank ∧
    (atStart = true → a = p.dropWhile blank) ∧ (atEnd = true → b = q.rdropWhile blank)

def join (sep gap : α) : List (List α) → List α
  | [] => []
  | [x] => x
  | x :: y :: rest => x ++ sep :: gap :: join sep gap (y :: rest)

/-- The texts that stand where the value must stand. -/
def seen {β : Type} : Bool → Bool → List β → List β
  | false, false, xs => xs
  | true, false, xs => xs.take 1
  | false, true, xs => xs.getLast?.toList
  | true, true, xs => if xs.length = 1 then xs else []

/-- The value runs over a separator. -/
def Runs (sep gap : α) (atStart atEnd : Bool) (val : List α) : List (List α) → Prop
  | x :: y :: rest =>
      Across blank sep atStart atEnd val x (gap :: join sep gap (y :: rest)) ∨
        (atStart = false ∧ Runs sep gap false atEnd val (y :: rest))
  | _ => False

variable {blank}

/-! ### Blanks -/

theorem dropWhile_append_cons {sep : α} (h : blank sep = false) (p q : List α) :
    (p ++ sep :: q).dropWhile blank = p.dropWhile blank ++ sep :: q := by
  induction p with
  | nil => rw [List.nil_append, List.dropWhile_cons_of_neg (by simp [h]), List.dropWhile_nil, List.nil_append]
  | cons a p ih =>
      rw [List.cons_append]
      by_cases ha : blank a = true
      · rw [List.dropWhile_cons_of_pos ha, List.dropWhile_cons_of_pos ha, ih]
      · rw [List.dropWhile_cons_of_neg ha, List.dropWhile_cons_of_neg ha, List.cons_append]

theorem rdropWhile_append_cons {sep : α} (h : blank sep = false) (p q : List α) :
    (p ++ sep :: q).rdropWhile blank = p ++ sep :: q.rdropWhile blank := by
  have hreverse : (p ++ sep :: q).reverse = q.reverse ++ sep :: p.reverse := by simp
  unfold List.rdropWhile
  rw [hreverse, dropWhile_append_cons h]
  simp

theorem trim_append_cons {sep : α} (h : blank sep = false) (p q : List α) :
    trim blank (p ++ sep :: q) = p.dropWhile blank ++ sep :: q.rdropWhile blank := by
  rw [trim, dropWhile_append_cons h, rdropWhile_append_cons h]

theorem trim_cons {gap : α} (h : blank gap = true) (t : List α) : trim blank (gap :: t) = trim blank t := by
  rw [trim, List.dropWhile_cons_of_pos h, trim]

/-- The blanks may be taken off in either order. -/
theorem trim_eq (t : List α) : trim blank t = (t.rdropWhile blank).dropWhile blank := by
  by_cases hall : ∀ a ∈ t, blank a = true
  · rw [trim, List.dropWhile_eq_nil_iff.mpr hall, List.rdropWhile_eq_nil_iff.mpr hall]
    rfl
  · obtain ⟨a, ha, hnot⟩ : ∃ a ∈ t, blank a = false := by simpa using hall
    obtain ⟨p, q, rfl⟩ := List.append_of_mem ha
    rw [trim_append_cons hnot, rdropWhile_append_cons hnot, dropWhile_append_cons hnot]

theorem trim_blank_append {b : List α} (hb : ∀ a ∈ b, blank a = true) (t : List α) :
    trim blank (b ++ t) = trim blank t := by
  rw [trim, List.dropWhile_append_of_pos hb, trim]

theorem trim_append_blank {b : List α} (hb : ∀ a ∈ b, blank a = true) (t : List α) :
    trim blank (t ++ b) = trim blank t := by
  have hright : (t ++ b).rdropWhile blank = t.rdropWhile blank := by
    unfold List.rdropWhile
    rw [List.reverse_append, List.dropWhile_append_of_pos fun a ha => hb a (List.mem_reverse.mp ha)]
  rw [trim_eq, hright, ← trim_eq]

/-- Nothing but blanks is taken off. -/
theorem trim_spec (t : List α) : ∃ u w, t = u ++ trim blank t ++ w ∧ ∀ a ∈ u ++ w, blank a = true := by
  refine ⟨t.takeWhile blank, (t.dropWhile blank).rtakeWhile blank, ?_, fun a ha => ?_⟩
  · rw [List.append_assoc, trim, List.rdropWhile_append_rtakeWhile, List.takeWhile_append_dropWhile]
  · rcases List.mem_append.mp ha with ha | ha
    · exact List.mem_takeWhile_imp ha
    · exact List.mem_rtakeWhile_imp ha

theorem tight_trim (t : List α) : Tight blank (trim blank t) := by
  constructor
  · intro a ha
    rw [trim_eq] at ha
    have hnot := List.head?_dropWhile_not blank (t.rdropWhile blank)
    rw [Option.mem_def.mp ha] at hnot
    simpa using hnot
  · intro a ha
    obtain ⟨hne, rfl⟩ := List.mem_getLast?_eq_getLast ha
    exact Bool.eq_false_iff.mpr (List.rdropWhile_last_not blank (t.dropWhile blank) hne)

theorem Tight.map {f : α → α} (hf : ∀ a, blank (f a) = blank a) {val : List α} (h : Tight blank val) :
    Tight blank (val.map f) := by
  unfold Tight
  rw [List.head?_map, List.getLast?_map]
  constructor
  · intro a ha
    obtain ⟨b, hb, rfl⟩ := Option.map_eq_some_iff.mp ha
    rw [hf]
    exact h.1 b hb
  · intro a ha
    obtain ⟨b, hb, rfl⟩ := Option.map_eq_some_iff.mp ha
    rw [hf]
    exact h.2 b hb

/-- Behind a value the blanks may be taken off. -/
theorem rdropWhile_tight {val : List α} (hne : val ≠ []) (h : Tight blank val) (u w : List α) :
    (u ++ val ++ w).rdropWhile blank = u ++ val ++ w.rdropWhile blank := by
  have hlast := h.2 _ (List.getLast?_eq_some_getLast hne)
  have hsplit := List.dropLast_concat_getLast hne
  have hwhole : ∀ w, u ++ val ++ w = (u ++ val.dropLast) ++ val.getLast hne :: w := by
    intro w
    conv => lhs; rw [← hsplit]
    simp
  rw [hwhole, hwhole, rdropWhile_append_cons hlast]

theorem dropWhile_tight {val : List α} (hne : val ≠ []) (h : Tight blank val) (u w : List α) :
    (u ++ val ++ w).dropWhile blank = u.dropWhile blank ++ val ++ w := by
  obtain ⟨a, more, rfl⟩ := List.exists_cons_of_ne_nil hne
  have hwhole : ∀ u : List α, u ++ (a :: more) ++ w = u ++ a :: (more ++ w) := by simp
  rw [hwhole, hwhole, dropWhile_append_cons (h.1 a rfl)]

/-- Anywhere in the text. -/
theorem fits_anywhere {val : List α} (hne : val ≠ []) (h : Tight blank val) {t : List α} :
    Fits blank false false val t ↔ val <:+: t := by
  constructor
  · rintro ⟨u, w, heq, -⟩
    have hin : val <:+: trim blank t := ⟨u, w, heq.symm⟩
    exact hin.trans ((List.rdropWhile_prefix blank _).isInfix.trans (List.dropWhile_suffix blank).isInfix)
  · rintro ⟨u, w, rfl⟩
    refine ⟨u.dropWhile blank, w.rdropWhile blank, ?_, (fun h => by cases h), (fun h => by cases h)⟩
    rw [trim, dropWhile_tight hne h, rdropWhile_tight hne h]

theorem fits_start {val t : List α} : Fits blank true false val t ↔ val <+: trim blank t := by
  constructor
  · rintro ⟨u, w, heq, hstart, -⟩
    rw [hstart rfl, List.nil_append] at heq
    exact ⟨w, heq.symm⟩
  · rintro ⟨w, heq⟩
    exact ⟨[], w, heq.symm, fun _ => rfl, (fun h => by cases h)⟩

theorem fits_end {val t : List α} : Fits blank false true val t ↔ val <:+ trim blank t := by
  constructor
  · rintro ⟨u, w, heq, -, hend⟩
    rw [hend rfl, List.append_nil] at heq
    exact ⟨u, heq.symm⟩
  · rintro ⟨u, heq⟩
    exact ⟨u, [], by rw [List.append_nil, heq], (fun h => by cases h), fun _ => rfl⟩

theorem fits_whole {val t : List α} : Fits blank true true val t ↔ trim blank t = val := by
  constructor
  · rintro ⟨u, w, heq, hstart, hend⟩
    rw [heq, hstart rfl, hend rfl, List.nil_append, List.append_nil]
  · intro heq
    exact ⟨[], [], by simpa using heq, fun _ => rfl, fun _ => rfl⟩

/-! ### Two texts -/

variable {sep gap : α} {atStart atEnd : Bool} {val : List α}

/-- In the first text and not at the end of the whole. -/
theorem fits_left (hsep : blank sep = false) {p q : List α} (h : Fits blank atStart false val p) :
    Fits blank atStart false val (p ++ sep :: q) := by
  obtain ⟨u, w, heq, hstart, -⟩ := h
  obtain ⟨blanks, hblanks⟩ := List.rdropWhile_prefix blank (p.dropWhile blank)
  refine ⟨u, w ++ blanks ++ sep :: q.rdropWhile blank, ?_, hstart, (fun h => by cases h)⟩
  rw [trim] at heq
  rw [trim_append_cons hsep, ← hblanks, heq]
  simp

/-- In the second text and not at the beginning of the whole. -/
theorem fits_right (hsep : blank sep = false) {p q : List α} (h : Fits blank false atEnd val q) :
    Fits blank false atEnd val (p ++ sep :: q) := by
  obtain ⟨u, w, heq, -, hend⟩ := h
  obtain ⟨blanks, hblanks⟩ := List.dropWhile_suffix blank (l := q.rdropWhile blank)
  refine ⟨p.dropWhile blank ++ sep :: (blanks ++ u), w, ?_, (fun h => by cases h), hend⟩
  rw [trim_eq] at heq
  rw [trim_append_cons hsep, ← hblanks, heq]
  simp

theorem fits_across (hsep : blank sep = false) {p q : List α}
    (h : Across blank sep atStart atEnd val p q) : Fits blank atStart atEnd val (p ++ sep :: q) := by
  obtain ⟨a, b, rfl, ⟨u, hu⟩, ⟨w, hw⟩, hstart, hend⟩ := h
  refine ⟨u, w, ?_, fun h => ?_, fun h => ?_⟩
  · rw [trim_append_cons hsep, ← hu, ← hw]
    simp
  · rw [hstart h] at hu
    simpa using hu
  · rw [hend h] at hw
    simpa using hw

theorem fits_of_left (hne : val ≠ []) (htight : Tight blank val) {p u c : List α}
    (heq : p.dropWhile blank = u ++ val ++ c) (hstart : atStart = true → u = []) :
    Fits blank atStart false val p := by
  refine ⟨u, c.rdropWhile blank, ?_, hstart, (fun h => by cases h)⟩
  rw [trim, heq, rdropWhile_tight hne htight]

theorem fits_of_right (hne : val ≠ []) (htight : Tight blank val) {q d w : List α}
    (heq : q.rdropWhile blank = d ++ val ++ w) (hend : atEnd = true → w = []) :
    Fits blank false atEnd val q := by
  refine ⟨d.dropWhile blank, w, ?_, (fun h => by cases h), hend⟩
  rw [trim_eq, heq, dropWhile_tight hne htight]

/-- **A value in two texts with a separator between them** is in the one or in the other, or runs
from the one into the other. -/
theorem fits_append (hsep : blank sep = false) (hne : val ≠ []) (htight : Tight blank val)
    (p q : List α) : Fits blank atStart atEnd val (p ++ sep :: q) ↔
      (atEnd = false ∧ Fits blank atStart false val p) ∨
        (atStart = false ∧ Fits blank false atEnd val q) ∨
        Across blank sep atStart atEnd val p q := by
  constructor
  · rintro ⟨u, w, heq, hstart, hend⟩
    rw [trim_append_cons hsep] at heq
    rcases List.append_eq_append_iff.mp heq with ⟨c, hval, hrest⟩ | ⟨c, hleft, hw⟩
    · cases c with
      | nil =>
          -- the value ends where the first text ends
          have hw : w = sep :: q.rdropWhile blank := hrest.symm
          have hfalse : atEnd = false := Bool.eq_false_iff.mpr fun h => by
            rw [hend h] at hw
            cases hw
          refine Or.inl ⟨hfalse, fits_of_left (c := []) hne htight ?_ hstart⟩
          rw [List.append_nil] at hval ⊢
          exact hval.symm
      | cons x c =>
          obtain ⟨rfl, htail⟩ := List.cons.inj hrest
          have hright : q.rdropWhile blank = c ++ w := htail
          rcases List.append_eq_append_iff.mp hval with ⟨a, hleft, hval⟩ | ⟨d, hleft, hval⟩
          · refine Or.inr (Or.inr ⟨a, c, hval, ⟨u, hleft.symm⟩, ⟨w, hright.symm⟩, ?_, ?_⟩)
            · intro h
              rw [hleft, hstart h, List.nil_append]
            · intro h
              rw [hright, hend h, List.append_nil]
          · cases d with
            | nil =>
                rw [List.append_nil] at hleft
                refine Or.inr (Or.inr ⟨[], c, hval.symm, List.nil_suffix, ⟨w, hright.symm⟩, ?_, ?_⟩)
                · intro h
                  rw [← hleft, hstart h]
                · intro h
                  rw [hright, hend h, List.append_nil]
            | cons y d =>
                have hfalse : atStart = false := Bool.eq_false_iff.mpr fun h => by
                  rw [hstart h] at hleft
                  simp at hleft
                obtain ⟨-, hc⟩ := List.cons.inj hval
                exact Or.inr (Or.inl ⟨hfalse, fits_of_right hne htight (hc ▸ hright) hend⟩)
    · have hfalse : atEnd = false := Bool.eq_false_iff.mpr fun h => by
        rw [hend h] at hw
        simp at hw
      exact Or.inl ⟨hfalse, fits_of_left hne htight hleft hstart⟩
  · rintro (⟨rfl, h⟩ | ⟨rfl, h⟩ | h)
    · exact fits_left hsep h
    · exact fits_right hsep h
    · exact fits_across hsep h

/-! ### Many texts -/

theorem fits_cons_gap (hgap : blank gap = true) (t : List α) :
    Fits blank atStart atEnd val (gap :: t) ↔ Fits blank atStart atEnd val t := by
  unfold Fits
  rw [trim_cons hgap]

theorem mem_of_mem_seen {β : Type} {atStart atEnd : Bool} {xs : List β} {x : β}
    (h : x ∈ seen atStart atEnd xs) : x ∈ xs := by
  cases atStart with
  | false =>
      cases atEnd with
      | false => exact h
      | true => exact List.mem_of_getLast? (Option.mem_toList.mp h)
  | true =>
      cases atEnd with
      | false => exact List.mem_of_mem_take h
      | true =>
          rw [seen] at h
          split at h
          · exact h
          · exact (List.not_mem_nil h).elim

theorem seen_map {β γ : Type} (f : β → γ) (atStart atEnd : Bool) (xs : List β) :
    seen atStart atEnd (xs.map f) = (seen atStart atEnd xs).map f := by
  cases atStart with
  | false =>
      cases atEnd with
      | false => rfl
      | true => cases h : xs.getLast? <;> simp [seen, List.getLast?_map, h]
  | true =>
      cases atEnd with
      | false => simp [seen, List.map_take]
      | true => by_cases h : xs.length = 1 <;> simp [seen, h]

theorem join_map {f : α → α} (hsep : f sep = sep) (hgap : f gap = gap) (xs : List (List α)) :
    join sep gap (xs.map fun x => x.map f) = (join sep gap xs).map f := by
  induction xs with
  | nil => rfl
  | cons x xs ih =>
      cases xs with
      | nil => rfl
      | cons y rest =>
          have hwhole : join sep gap ((x :: y :: rest).map fun x => x.map f)
              = x.map f ++ sep :: gap :: join sep gap ((y :: rest).map fun x => x.map f) := rfl
          rw [hwhole, ih, join, List.map_append, List.map_cons, List.map_cons, hsep, hgap]

theorem exists_seen_cons {β : Type} {P : β → Prop} (x y : β) (rest : List β) (atStart atEnd : Bool) :
    (∃ z ∈ seen atStart atEnd (x :: y :: rest), P z) ↔
      (atEnd = false ∧ P x) ∨ (atStart = false ∧ ∃ z ∈ seen false atEnd (y :: rest), P z) := by
  cases atStart with
  | false =>
      cases atEnd with
      | false => simp [seen]
      | true => simp [seen, List.getLast?_cons_cons]
  | true =>
      cases atEnd with
      | false => simp [seen]
      | true => simp [seen]

/-- **A value in texts that are written as one** is in one of those that are seen, or runs over a
separator. -/
theorem fits_join (hsep : blank sep = false) (hgap : blank gap = true) (hne : val ≠ [])
    (htight : Tight blank val) (xs : List (List α)) : ∀ atStart,
    Fits blank atStart atEnd val (join sep gap xs) ↔
      (∃ x ∈ seen atStart atEnd xs, Fits blank atStart atEnd val x) ∨
        Runs blank sep gap atStart atEnd val xs := by
  induction xs with
  | nil =>
      intro atStart
      have hno : ¬ Fits blank atStart atEnd val (join sep gap []) := by
        rintro ⟨u, w, heq, -⟩
        have hnil : u ++ val ++ w = [] := heq.symm
        simp [hne] at hnil
      cases atStart <;> cases atEnd <;> simp [hno, seen, Runs]
  | cons x xs ih =>
      intro atStart
      cases xs with
      | nil => cases atStart <;> cases atEnd <;> simp [join, seen, Runs]
      | cons y rest =>
          rw [join, fits_append hsep hne htight, fits_cons_gap hgap, ih false, exists_seen_cons, Runs]
          constructor
          · rintro (⟨rfl, h⟩ | ⟨rfl, h | h⟩ | h)
            · exact Or.inl (Or.inl ⟨rfl, h⟩)
            · exact Or.inl (Or.inr ⟨rfl, h⟩)
            · exact Or.inr (Or.inr ⟨rfl, h⟩)
            · exact Or.inr (Or.inl h)
          · rintro ((⟨rfl, h⟩ | ⟨rfl, h⟩) | h | ⟨rfl, h⟩)
            · exact Or.inl ⟨rfl, h⟩
            · exact Or.inr (Or.inl ⟨rfl, Or.inl h⟩)
            · exact Or.inr (Or.inr h)
            · exact Or.inr (Or.inl ⟨rfl, Or.inr h⟩)

end FlyMail.Joined
