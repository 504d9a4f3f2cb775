/-
Nothing is lost in the cuts.

A text is cut again and again from the front, at a place that is looked for backwards in the second
half of what a part may hold.  The place is never at the front, so the rest gets shorter with every cut
and the loop ends (`splitLoop_eq`), and it is always in the second half, so every part but the last is
longer than that (`lt_length_splitText`).

The units are gathered into batches in one walk, a batch being closed in front of the unit that would
make it too long.  What holds all the way is that the batches so far, the open one included, are in
the budget or of one unit (`Gathered`).
-/
import FlyMail.Lib.While
import FlyMail.Proofs.Codec
import FlyMail.Proofs.Segments

namespace FlyMail.Translate

/-! ### A text in parts -/

/-- One pass of the loop that cuts: the parts so far, and the rest. -/
def splitPass (max : Nat) (c : List Text × Text) : List Text ⊕ (List Text × Text) :=
  if c.2.length > max then
    .inr (c.1 ++ [c.2.take (breakPoint c.2 max)], c.2.drop (breakPoint c.2 max))
  else .inl (if c.2 = [] then c.1 else c.1 ++ [c.2])

/-- `splitText` as it runs, which has a value if it comes to an end. -/
def splitLoop (s : Text) (max : Nat) : Part (List Text) :=
  if s.length ≤ max then Part.some [s] else loop (splitPass max) ([], s)

theorem half_lt_breakPoint {max : Nat} (hmax : 0 < max) (runes : Text) : max / 2 < breakPoint runes max := by
  unfold breakPoint
  split
  · rename_i i hfind
    obtain ⟨n, hn, rfl⟩ := List.mem_map.mp (List.mem_of_find?_eq_some hfind)
    have hrange := List.mem_range.mp hn
    omega
  · omega

/-- **The text is cut to its end.** -/
theorem splitLoop_eq (s : Text) {max : Nat} (hmax : 0 < max) : splitLoop s max = Part.some (splitText s max) := by
  unfold splitLoop splitText
  split
  · rfl
  · rename_i hlong
    -- What is too much gets less with every cut.
    refine @loop_eq_some _ _ (splitPass max) (fun _ => True) (fun c => c.2.length - max)
      (fun n c => c.1 ++ splitFrom max n c.2) ?_ ?_ ?_ s.length ([], s) trivial ?_
    · intro c d _ h
      unfold splitPass at h
      split at h
      · have hpos := breakPoint_pos hmax c.2
        cases h
        refine ⟨trivial, ?_⟩
        show (c.2.drop (breakPoint c.2 max)).length - max < c.2.length - max
        rw [List.length_drop]
        omega
      · cases h
    · intro n c parts h
      unfold splitPass at h
      unfold splitFrom
      split at h
      · cases h
      · rename_i hshort
        rw [if_neg hshort, ← Sum.inl.inj h]
        split
        · exact List.append_nil _
        · rfl
    · intro n c d h
      unfold splitPass at h
      split at h
      · rename_i hlong
        cases h
        show c.1 ++ splitFrom max (n + 1) c.2 = c.1 ++ [_] ++ splitFrom max n _
        rw [splitFrom, if_pos hlong, List.append_assoc]
        rfl
      · cases h
    · show s.length - max < s.length
      omega

theorem lt_length_splitFrom {max : Nat} (hmax : 0 < max) (fuel : Nat) : ∀ runes : Text,
    ∀ p ∈ (splitFrom max fuel runes).dropLast, max / 2 < p.length := by
  induction fuel with
  | zero =>
      intro runes p hp
      unfold splitFrom at hp
      split at hp
      · exact absurd hp List.not_mem_nil
      · exact absurd hp List.not_mem_nil
  | succ fuel ih =>
      intro runes p hp
      unfold splitFrom at hp
      split at hp
      · rename_i hlong
        by_cases hlast : splitFrom max fuel (runes.drop (breakPoint runes max)) = []
        · rw [hlast] at hp
          exact absurd hp List.not_mem_nil
        · rw [List.dropLast_cons_of_ne_nil hlast] at hp
          rcases List.mem_cons.mp hp with rfl | hp
          · have hhalf := half_lt_breakPoint hmax runes
            have hle := breakPoint_le hmax runes
            rw [List.length_take]
            omega
          · exact ih _ p hp
      · split at hp
        · exact absurd hp List.not_mem_nil
        · exact absurd hp List.not_mem_nil

/-- **Every part but the last is longer than half of what a part may hold.** -/
theorem lt_length_splitText {max : Nat} (hmax : 0 < max) (s : Text) :
    ∀ p ∈ (splitText s max).dropLast, max / 2 < p.length := by
  intro p hp
  unfold splitText at hp
  split at hp
  · exact absurd hp List.not_mem_nil
  · exact lt_length_splitFrom hmax _ s p hp

/-! ### Units in batches -/

/-- How much text there is in a batch. -/
def runesOf (units : List Unit) : Nat := (units.map fun u => u.text.length).sum

/-- A batch is in the budget, or there is nothing to take out of it. -/
def Fits (budget : Int) (units : List Unit) : Prop := (runesOf units : Int) ≤ budget ∨ units.length ≤ 1

/-- The closed batches and the open one fit, and of the open one it is known how long it is. -/
structure Gathered (budget : Int) (c : Chunking) : Prop where
  chunks : ∀ chunk ∈ c.chunks, chunk ≠ [] ∧ Fits budget chunk
  cur : Fits budget c.cur
  curLen : c.curLen = runesOf c.cur

theorem runesOf_append (units : List Unit) (u : Unit) : runesOf (units ++ [u]) = runesOf units + u.text.length := by
  simp [runesOf]

theorem gathered_add {budget : Int} {c : Chunking} (h : Gathered budget c) (u : Unit) :
    Gathered budget (c.add budget u) := by
  unfold Chunking.add
  split
  · rename_i hfull
    refine ⟨fun chunk hchunk => ?_, Or.inr (Nat.le_refl 1), ?_⟩
    · rcases List.mem_append.mp hchunk with hchunk | hchunk
      · exact h.chunks chunk hchunk
      · rw [List.mem_singleton.mp hchunk]
        exact ⟨hfull.1, h.cur⟩
    · simp [runesOf]
  · rename_i hroom
    have hlen : c.curLen + u.text.length = runesOf (c.cur ++ [u]) := by rw [runesOf_append, h.curLen]
    refine ⟨h.chunks, ?_, hlen⟩
    by_cases hnil : c.cur = []
    · rw [hnil]
      exact Or.inr (Nat.le_refl 1)
    · left
      show (runesOf (c.cur ++ [u]) : Int) ≤ budget
      rw [← hlen]
      exact not_lt.mp fun hlt => hroom ⟨hnil, hlt⟩

theorem gathered_foldl {budget : Int} (units : List Unit) : ∀ {c : Chunking}, Gathered budget c →
    Gathered budget (units.foldl (Chunking.add budget) c) := by
  induction units with
  | nil => exact fun h => h
  | cons u units ih => exact fun h => ih (gathered_add h u)

/-- **No batch is empty, and every batch is in the budget or of one unit.** -/
theorem chunkUnits_fits (units : List Unit) (budget : Int) : ∀ chunk ∈ chunkUnits units budget,
    chunk ≠ [] ∧ ((runesOf chunk : Int) ≤ budget ∨ chunk.length = 1) := by
  have hstart : Gathered budget ⟨[], [], 0⟩ :=
    ⟨fun chunk hchunk => absurd hchunk List.not_mem_nil, Or.inr (Nat.zero_le 1), rfl⟩
  have hall := gathered_foldl units hstart
  have hone : ∀ chunk : List Unit, chunk ≠ [] → Fits budget chunk →
      (runesOf chunk : Int) ≤ budget ∨ chunk.length = 1 := by
    intro chunk hne hfits
    have hpos := List.length_pos_iff.mpr hne
    exact hfits.imp_right fun hle => by omega
  intro chunk hchunk
  unfold chunkUnits at hchunk
  dsimp only at hchunk
  split at hchunk
  · rename_i hopen
    rcases List.mem_append.mp hchunk with hchunk | hchunk
    · obtain ⟨hne, hfits⟩ := hall.chunks chunk hchunk
      exact ⟨hne, hone chunk hne hfits⟩
    · rw [List.mem_singleton.mp hchunk]
      exact ⟨hopen, hone _ hopen hall.cur⟩
  · obtain ⟨hne, hfits⟩ := hall.chunks chunk hchunk
    exact ⟨hne, hone chunk hne hfits⟩

/-! ### Both -/

/-- The text is cut into these parts: together they are the text, none is empty or too long, and all
but the last are long enough. -/
structure CutInto (s : Text) (max : Nat) (parts : List Text) : Prop where
  whole : parts.flatten = s
  ne_nil : ∀ p ∈ parts, p ≠ []
  short : ∀ p ∈ parts, p.length ≤ max
  long : ∀ p ∈ parts.dropLast, max / 2 - 1 < p.length

/-- **Nothing is lost on the way to the model.**  A text with something in it is cut into parts and the
cutting ends; of an empty text there is one empty part.  The units are gathered into batches. -/
theorem splitText_chunkUnits_whole :
    (∀ max, 2 ≤ max → splitLoop [] max = Part.some [[]] ∧
      ∀ s : Text, s ≠ [] → splitLoop s max = Part.some (splitText s max) ∧ CutInto s max (splitText s max)) ∧
    ∀ (units : List Unit) (budget : Int), (chunkUnits units budget).flatten = units ∧
      ∀ chunk ∈ chunkUnits units budget,
        chunk ≠ [] ∧ ((runesOf chunk : Int) ≤ budget ∨ chunk.length = 1) := by
  refine ⟨fun max hmax => ?_, fun units budget => ⟨flatten_chunkUnits units budget, chunkUnits_fits units budget⟩⟩
  have hpos : 0 < max := Nat.lt_of_lt_of_le Nat.zero_lt_two hmax
  refine ⟨if_pos (Nat.zero_le max), fun s hne => ⟨splitLoop_eq s hpos, flatten_splitText s max, ?_, ?_, ?_⟩⟩
  · exact fun p hp => (splitText_bounds hpos hne p hp).1
  · exact fun p hp => (splitText_bounds hpos hne p hp).2
  · intro p hp
    have hhalf := lt_length_splitText hpos s p hp
    omega

theorem splitText_chunkUnits_whole_two :
    2 ≤ 2 ∧ "ab。c".toList ≠ [] ∧ CutInto "ab。c".toList 2 (splitText "ab。c".toList 2) :=
  ⟨by decide, by decide, ((splitText_chunkUnits_whole.1 2 (by decide)).2 _ (by decide)).2⟩

/-- Of the empty text there is an empty part. -/
theorem empty_part : ¬ ∀ (s : Text) (max : Nat), 2 ≤ max → ∀ p ∈ splitText s max, p ≠ [] :=
  fun h => h [] 2 (Nat.le_refl 2) [] List.mem_cons_self rfl

end FlyMail.Translate
