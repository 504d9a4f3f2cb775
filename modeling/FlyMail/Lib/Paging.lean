/-
Reading page after page.

A reader asks for the first page, then for the page behind the cursor that came with the last one,
until none comes.  What it reads are all items, each once, if every page is the beginning of what
is left and its cursor stands for the rest (`follow_serves`).

Where the items are in an order, a cursor need only say which item was the last: what is left is
what comes after it (`filter_after`), whether one sorts before one leaves out the others or after
(`insertionSort_filter`).
-/
import Mathlib.Data.List.Pairwise
import Mathlib.Data.List.Sort

namespace FlyMail.Paging

variable {α κ π : Type}

/-- Ask for pages until one comes without a cursor. -/
def follow (fetch : Option κ → π) (next : π → Option κ) : Nat → Option κ → Option (List π)
  | 0, _ => none
  | fuel + 1, cursor =>
      match next (fetch cursor) with
      | none => some [fetch cursor]
      | some k => (follow fetch next fuel (some k)).map (fetch cursor :: ·)

/-- With a cursor at which `rest` is left comes the beginning of `rest`, and a cursor for what is
left then, if anything is. -/
structure Serves (fetch : Option κ → π) (next : π → Option κ) (items : π → List α)
    (left : Option κ → List α → Prop) : Prop where
  page : ∀ {cursor rest}, left cursor rest → ∃ n, items (fetch cursor) = rest.take n ∧
    match next (fetch cursor) with
    | none => rest.drop n = []
    | some k => 0 < n ∧ rest ≠ [] ∧ left (some k) (rest.drop n)

variable {fetch : Option κ → π} {next : π → Option κ} {items : π → List α}
  {left : Option κ → List α → Prop}

/-- **What is read is what is left**, however many pages it takes. -/
theorem follow_serves (h : Serves fetch next items left) (fuel : Nat) :
    ∀ {cursor rest}, left cursor rest → rest.length < fuel →
      ∃ pages, follow fetch next fuel cursor = some (fetch cursor :: pages) ∧
        (fetch cursor :: pages).flatMap items = rest := by
  induction fuel with
  | zero => exact fun _ hfuel => absurd hfuel (Nat.not_lt_zero _)
  | succ fuel ih =>
      intro cursor rest hleft hfuel
      obtain ⟨n, hitems, hnext⟩ := h.page hleft
      unfold follow
      cases hk : next (fetch cursor) with
      | none =>
          rw [hk] at hnext
          refine ⟨[], rfl, ?_⟩
          have hall : rest.take n ++ rest.drop n = rest := List.take_append_drop n rest
          rw [hnext, List.append_nil] at hall
          simp [hitems, hall]
      | some k =>
          rw [hk] at hnext
          obtain ⟨hn, hne, hrest⟩ := hnext
          have hshort : (rest.drop n).length < fuel := by
            have hlen := List.length_pos_iff.mpr hne
            rw [List.length_drop]
            omega
          obtain ⟨pages, hrun, hflat⟩ := ih hrest hshort
          refine ⟨fetch (some k) :: pages, ?_, ?_⟩
          · dsimp only
            rw [hrun]
            rfl
          rw [List.flatMap_cons, hitems, hflat, List.take_append_drop]

/-! ### Items in an order -/

section Sorted

variable {r : α → α → Prop}

theorem insertionSort_filter [DecidableRel r] [Std.Total r] [IsTrans α r] {l : List α}
    (hanti : ∀ a ∈ l, ∀ b ∈ l, r a b → r b a → a = b) (p : α → Bool) :
    (l.filter p).insertionSort r = (l.insertionSort r).filter p := by
  refine List.Perm.eq_of_pairwise ?_ (List.pairwise_insertionSort r _)
    ((List.pairwise_insertionSort r l).filter p) ?_
  · intro a b ha hb
    have ha := (List.mem_insertionSort r).mp ha
    have hb := (List.mem_filter.mp hb).1
    exact hanti a (List.mem_filter.mp ha).1 b ((List.mem_insertionSort r).mp hb)
  · exact (List.perm_insertionSort r _).trans ((List.perm_insertionSort r l).filter p).symm

/-- The first of the sorted items comes before all. -/
theorem head?_insertionSort [DecidableRel r] [Std.Total r] [IsTrans α r] {l : List α} {a : α}
    (h : (l.insertionSort r).head? = some a) : a ∈ l ∧ ∀ b ∈ l, r a b := by
  have hsorted := List.pairwise_insertionSort r l
  have hmem : ∀ b, b ∈ l.insertionSort r ↔ b ∈ l := fun b => List.mem_insertionSort r
  cases hl : l.insertionSort r with
  | nil =>
      rw [hl] at h
      exact absurd h.symm (Option.some_ne_none a)
  | cons c rest =>
      rw [hl] at h hsorted hmem
      obtain rfl := Option.some.inj h
      refine ⟨(hmem c).mp List.mem_cons_self, fun b hb => ?_⟩
      rcases List.mem_cons.mp ((hmem b).mpr hb) with rfl | hb
      · exact (Std.Total.total b b).elim id id
      · exact (List.pairwise_cons.mp hsorted).1 b hb

/-- **What comes after an item is what is left behind it.** -/
theorem filter_after (hasymm : ∀ a b, r a b → ¬ r b a) {before rest : List α} {a : α}
    (h : (before ++ a :: rest).Pairwise r) {p : α → Bool} (hp : ∀ b, p b = true ↔ r a b) :
    (before ++ a :: rest).filter p = rest := by
  obtain ⟨-, hrest, hacross⟩ := List.pairwise_append.mp h
  have hbefore : before.filter p = [] := by
    refine List.filter_eq_nil_iff.mpr fun b hb hpb => ?_
    exact hasymm _ _ ((hp b).mp hpb) (hacross b hb a List.mem_cons_self)
  have hself : p a = false := by
    rw [Bool.eq_false_iff]
    intro hpa
    exact hasymm _ _ ((hp a).mp hpa) ((hp a).mp hpa)
  have hafter : rest.filter p = rest :=
    List.filter_eq_self.mpr fun b hb => (hp b).mpr ((List.pairwise_cons.mp hrest).1 b hb)
  rw [List.filter_append, hbefore, List.nil_append, List.filter_cons_of_neg (by simp [hself]), hafter]

/-! ### Items with two keys -/

variable {β γ : Type} [LinearOrder β] [LinearOrder γ] {f : α → β} {g : α → γ}

/-- The larger first; of one size the one whose second key is the larger. -/
def Descends (f : α → β) (g : α → γ) (a b : α) : Prop := f b < f a ∨ (f a = f b ∧ g b ≤ g a)

/-- The same, of two that differ. -/
def Precedes (f : α → β) (g : α → γ) (a b : α) : Prop := f b < f a ∨ (f b = f a ∧ g b < g a)

/-- The keys tell the two apart. -/
def Differ (f : α → β) (g : α → γ) (a b : α) : Prop := f a = f b → g a ≠ g b

instance : Std.Symm (Differ f g) := ⟨fun _ _ h hf hg => h hf.symm hg.symm⟩

theorem Precedes.asymm {a b : α} (h : Precedes f g a b) : ¬ Precedes f g b a := by
  rintro (h' | ⟨heq', h'⟩)
  · rcases h with h | ⟨heq, -⟩
    · exact lt_asymm h h'
    · exact ne_of_lt h' heq.symm
  · rcases h with h | ⟨-, h⟩
    · exact ne_of_lt h heq'.symm
    · exact lt_asymm h h'

theorem descends_total (a b : α) : Descends f g a b ∨ Descends f g b a := by
  rcases lt_trichotomy (f a) (f b) with h | h | h
  · exact Or.inr (Or.inl h)
  · exact (le_total (g b) (g a)).imp (fun hg => Or.inr ⟨h, hg⟩) fun hg => Or.inr ⟨h.symm, hg⟩
  · exact Or.inl (Or.inl h)

theorem descends_trans {a b c : α} (hab : Descends f g a b) (hbc : Descends f g b c) :
    Descends f g a c := by
  rcases hab with hab | ⟨hf, hg⟩
  · rcases hbc with hbc | ⟨hf', -⟩
    · exact Or.inl (lt_trans hbc hab)
    · exact Or.inl (hf' ▸ hab)
  · rcases hbc with hbc | ⟨hf', hg'⟩
    · exact Or.inl (hf ▸ hbc)
    · exact Or.inr ⟨hf.trans hf', le_trans hg' hg⟩

theorem descends_antisymm {a b : α} (h : Descends f g a b) (h' : Descends f g b a) :
    f a = f b ∧ g a = g b := by
  rcases h with h | ⟨hf, hg⟩
  · rcases h' with h' | ⟨hf', -⟩
    · exact absurd h (lt_asymm h')
    · exact absurd hf' (ne_of_lt h)
  · rcases h' with h' | ⟨-, hg'⟩
    · exact absurd hf (ne_of_lt h')
    · exact ⟨hf, le_antisymm hg' hg⟩

variable [DecidableRel r] {l : List α}

/-- **Sorted by keys that tell the items apart**, each precedes the later ones. -/
theorem pairwise_precedes (hr : ∀ a b, r a b ↔ Descends f g a b)
    (hkeys : l.Pairwise (Differ f g)) :
    (l.insertionSort r).Pairwise (Precedes f g) := by
  have : Std.Total r := ⟨fun a b => (descends_total a b).imp (hr a b).mpr (hr b a).mpr⟩
  have : IsTrans α r :=
    ⟨fun a b c hab hbc => (hr a c).mpr (descends_trans ((hr a b).mp hab) ((hr b c).mp hbc))⟩
  have hdiffer : (l.insertionSort r).Pairwise (Differ f g) :=
    hkeys.perm (List.perm_insertionSort r l).symm fun h => Std.Symm.symm _ _ h
  refine List.Pairwise.imp (fun {a b} h => ?_) ((List.pairwise_insertionSort r l).and hdiffer)
  rcases (hr a b).mp h.1 with hlt | ⟨hf, hg⟩
  · exact Or.inl hlt
  · exact Or.inr ⟨hf.symm, lt_of_le_of_ne hg (h.2 hf).symm⟩

/-- **What an item precedes, sorted, is what is left behind it.** -/
theorem insertionSort_precedes (hr : ∀ a b, r a b ↔ Descends f g a b)
    (hkeys : l.Pairwise (Differ f g)) {before rest : List α} {a : α}
    (hall : l.insertionSort r = before ++ a :: rest) {p : α → Bool}
    (hp : ∀ b, p b = true ↔ Precedes f g a b) : (l.filter p).insertionSort r = rest := by
  have : Std.Total r := ⟨fun a b => (descends_total a b).imp (hr a b).mpr (hr b a).mpr⟩
  have : IsTrans α r :=
    ⟨fun a b c hab hbc => (hr a c).mpr (descends_trans ((hr a b).mp hab) ((hr b c).mp hbc))⟩
  have hanti : ∀ a ∈ l, ∀ b ∈ l, r a b → r b a → a = b := by
    intro a ha b hb hab hba
    obtain ⟨hf, hg⟩ := descends_antisymm ((hr a b).mp hab) ((hr b a).mp hba)
    by_contra hne
    exact hkeys.forall ha hb hne hf hg
  rw [insertionSort_filter hanti, hall]
  exact filter_after (fun _ _ => Precedes.asymm) (hall ▸ pairwise_precedes hr hkeys) hp

end Sorted

/-! ### Cursors that name an item -/

/-- What is left at a cursor that names the last item. -/
def Behind (cursorOf : α → κ) (all : List α) : Option κ → List α → Prop
  | none, rest => rest = all
  | some c, rest => ∃ before a, all = before ++ a :: rest ∧ c = cursorOf a

theorem Behind.of_map {δ : Type} {toItem : δ → α} {cursorOf : α → κ} {all : List δ} {cursor : Option κ}
    {rest : List α} (h : Behind cursorOf (all.map toItem) cursor rest) :
    ∃ left, rest = left.map toItem ∧ Behind (cursorOf ∘ toItem) all cursor left := by
  cases cursor with
  | none => exact ⟨all, h, rfl⟩
  | some c =>
      obtain ⟨before, a, hall, hc⟩ := h
      obtain ⟨first, others, rfl, -, hothers⟩ := List.map_eq_append_iff.mp hall
      obtain ⟨d, left, rfl, rfl, hleft⟩ := List.map_eq_cons_iff.mp hothers
      exact ⟨left, hleft.symm, first, d, rfl, hc⟩

/-- **Pages of `n` items**, each with a cursor for its last item if there may be more, serve all. -/
theorem serves_behind {cursorOf : α → κ} {all : List α} {n : Nat} (hn : 0 < n)
    (hpage : ∀ cursor rest, Behind cursorOf all cursor rest → items (fetch cursor) = rest.take n ∧
      (next (fetch cursor) = none ∧ rest.length ≤ n ∨
        n ≤ rest.length ∧ next (fetch cursor) = (rest.take n).getLast?.map cursorOf)) :
    Serves fetch next items (Behind cursorOf all) := by
  refine ⟨fun {cursor rest} hleft => ⟨n, (hpage cursor rest hleft).1, ?_⟩⟩
  rcases (hpage cursor rest hleft).2 with ⟨hnone, hlen⟩ | ⟨hlen, hsome⟩
  · rw [hnone]
    exact List.drop_eq_nil_of_le hlen
  · have hne : rest.take n ≠ [] := by
      rw [← List.length_pos_iff, List.length_take]
      omega
    have hlast := List.getLast?_eq_some_getLast hne
    rw [hsome, hlast]
    refine ⟨hn, fun hnil => hne (by rw [hnil, List.take_nil]), ?_⟩
    have hsplit : rest = (rest.take n).dropLast ++ (rest.take n).getLast hne :: rest.drop n := by
      have happend := List.dropLast_append_getLast hne
      calc rest = rest.take n ++ rest.drop n := (List.take_append_drop n rest).symm
        _ = ((rest.take n).dropLast ++ [(rest.take n).getLast hne]) ++ rest.drop n := by rw [happend]
        _ = _ := by simp
    cases cursor with
    | none =>
        have hall : rest = all := hleft
        exact ⟨(rest.take n).dropLast, _, hall ▸ hsplit, rfl⟩
    | some c =>
        obtain ⟨before, a, hall, -⟩ := hleft
        refine ⟨before ++ a :: (rest.take n).dropLast, _, ?_, rfl⟩
        rw [hall, List.append_assoc, List.cons_append, ← hsplit]

end FlyMail.Paging
