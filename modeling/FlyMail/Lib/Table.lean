/-
A database table as a list of rows, with its keys.

A row has a primary key, which the table hands out and never hands out twice, and
a unique key, which is an index over the row's own columns.  The table carries
what the database guarantees of both, so no proof ever shows it again: the rows
stand in primary-key order, no key is above the last one handed out, and no two
rows share the unique key.

The operations are the four statements a store is made of: `insert`, `delete`
with a condition, `modify` with a condition, and `upsert`, which is an insert that
turns into an update where the unique key is taken.
-/
import Mathlib.Init

namespace FlyMail

/-- A table of rows `α` with primary key `pk` and unique key `uk`. -/
structure Table (α : Type) {κ : Type} (pk : α → Nat) (uk : α → κ) where
  rows : List α
  /-- The last primary key handed out. -/
  last : Nat
  sorted : rows.Pairwise fun a b => pk a < pk b
  below : ∀ r ∈ rows, pk r ≤ last
  uniq : rows.Pairwise fun a b => uk a ≠ uk b

namespace Table

variable {α κ : Type} {pk : α → Nat} {uk : α → κ}

/-! ### Keys identify rows -/

private theorem eq_of_pairwise {r : α → α → Prop} {l : List α} (h : l.Pairwise r)
    {a b : α} (ha : a ∈ l) (hb : b ∈ l) (hab : ¬ r a b) (hba : ¬ r b a) : a = b := by
  induction l with
  | nil => simp at ha
  | cons c rest ih =>
      rw [List.pairwise_cons] at h
      rcases List.mem_cons.mp ha with hac | har
      · rcases List.mem_cons.mp hb with hbc | hbr
        · rw [hac, hbc]
        · exact absurd (hac ▸ h.1 b hbr) hab
      · rcases List.mem_cons.mp hb with hbc | hbr
        · exact absurd (hbc ▸ h.1 a har) hba
        · exact ih h.2 har hbr

theorem eq_of_pk (t : Table α pk uk) {a b : α} (ha : a ∈ t.rows) (hb : b ∈ t.rows)
    (h : pk a = pk b) : a = b :=
  eq_of_pairwise t.sorted ha hb (by omega) (by omega)

theorem eq_of_uk (t : Table α pk uk) {a b : α} (ha : a ∈ t.rows) (hb : b ∈ t.rows)
    (h : uk a = uk b) : a = b :=
  eq_of_pairwise t.uniq ha hb (fun hn => hn h) (fun hn => hn h.symm)

/-- Rows in the table's order have different keys. -/
theorem nodup_pk (t : Table α pk uk) {l : List α} (h : l.Sublist t.rows) : (l.map pk).Nodup :=
  List.pairwise_map.mpr ((t.sorted.sublist h).imp fun hlt => Nat.ne_of_lt hlt)

/-! ### Statements -/

/-- The table with no rows. -/
def empty : Table α pk uk := ⟨[], 0, .nil, by simp, .nil⟩

/-- The table with one row. -/
def single (r : α) : Table α pk uk where
  rows := [r]
  last := pk r
  sorted := List.pairwise_singleton _ _
  below a ha := Nat.le_of_eq (by rw [List.mem_singleton.mp ha])
  uniq := List.pairwise_singleton _ _

/-- The row with the given primary key. -/
def get? (t : Table α pk uk) (id : Nat) : Option α := t.rows.find? fun r => pk r == id

/-- `DELETE … WHERE p`. -/
def delete (t : Table α pk uk) (p : α → Bool) : Table α pk uk where
  rows := t.rows.filter fun r => !p r
  last := t.last
  sorted := t.sorted.filter _
  below r hr := t.below r (List.mem_filter.mp hr).1
  uniq := t.uniq.filter _

/-- `UPDATE … SET f WHERE p`, where `f` leaves both keys alone. -/
def modify (t : Table α pk uk) (p : α → Bool) (f : α → α) (hpk : ∀ r, pk (f r) = pk r)
    (huk : ∀ r, uk (f r) = uk r) : Table α pk uk where
  rows := t.rows.map fun r => if p r then f r else r
  last := t.last
  sorted := by
    rw [List.pairwise_map]
    refine t.sorted.imp fun {a b} h => ?_
    split <;> split <;> simpa only [hpk] using h
  below := by
    intro r hr
    obtain ⟨a, ha, rfl⟩ := List.mem_map.mp hr
    split
    · rw [hpk]; exact t.below a ha
    · exact t.below a ha
  uniq := by
    rw [List.pairwise_map]
    refine t.uniq.imp fun {a b} h => ?_
    split <;> split <;> simpa only [huk] using h

/-- `INSERT`: the new row is built from the primary key the table hands out. -/
def insert (t : Table α pk uk) (mk : Nat → α) (hpk : ∀ n, pk (mk n) = n)
    (huk : ∀ r ∈ t.rows, uk r ≠ uk (mk (t.last + 1))) : Table α pk uk where
  rows := t.rows ++ [mk (t.last + 1)]
  last := t.last + 1
  sorted := by
    refine List.pairwise_append.mpr ⟨t.sorted, List.pairwise_singleton _ _, ?_⟩
    intro a ha b hb
    have hle := t.below a ha
    rw [List.mem_singleton.mp hb, hpk]
    omega
  below := by
    intro r hr
    rcases List.mem_append.mp hr with hold | hnew
    · have := t.below r hold
      omega
    · exact Nat.le_of_eq (by rw [List.mem_singleton.mp hnew, hpk])
  uniq := by
    refine List.pairwise_append.mpr ⟨t.uniq, List.pairwise_singleton _ _, ?_⟩
    intro a ha b hb
    rw [List.mem_singleton.mp hb]
    exact huk a ha

/-- `INSERT … ON CONFLICT (uk) DO UPDATE`: where a row has the unique key `k` it is
updated by `f`, otherwise a new row is built. -/
def upsert [DecidableEq κ] (t : Table α pk uk) (k : κ) (mk : Nat → α) (f : α → α)
    (hmk : ∀ n, pk (mk n) = n) (hk : ∀ n, uk (mk n) = k) (hpk : ∀ r, pk (f r) = pk r)
    (huk : ∀ r, uk (f r) = uk r) : Table α pk uk :=
  if h : ∃ r ∈ t.rows, uk r = k then t.modify (fun r => uk r == k) f hpk huk
  else t.insert mk hmk fun r hr he => h ⟨r, hr, by rw [he, hk]⟩

/-! ### What the statements leave in the table -/

theorem get?_eq_some {t : Table α pk uk} {id : Nat} {r : α} :
    t.get? id = some r ↔ r ∈ t.rows ∧ pk r = id := by
  refine ⟨fun h => ?_, fun h => ?_⟩
  · exact ⟨List.mem_of_find?_eq_some h, by simpa using List.find?_some h⟩
  · obtain ⟨hr, rfl⟩ := h
    cases hf : t.get? (pk r) with
    | none => simpa using List.find?_eq_none.mp hf r hr
    | some a =>
        have ha := List.mem_of_find?_eq_some hf
        have hk : pk a = pk r := by simpa using List.find?_some hf
        rw [t.eq_of_pk ha hr hk]

theorem get?_eq_none {t : Table α pk uk} {id : Nat} :
    t.get? id = none ↔ ∀ r ∈ t.rows, pk r ≠ id := by
  simp [get?, List.find?_eq_none]

@[simp] theorem mem_delete {t : Table α pk uk} {p : α → Bool} {r : α} :
    r ∈ (t.delete p).rows ↔ r ∈ t.rows ∧ p r = false := by
  simp [delete, List.mem_filter]

@[simp] theorem delete_last {t : Table α pk uk} {p : α → Bool} :
    (t.delete p).last = t.last := rfl

@[simp] theorem mem_modify {t : Table α pk uk} {p : α → Bool} {f : α → α} {hpk huk} {r : α} :
    r ∈ (t.modify p f hpk huk).rows ↔ ∃ a ∈ t.rows, (if p a then f a else a) = r := by
  simp [modify, List.mem_map]

theorem modify_rows {t : Table α pk uk} {p : α → Bool} {f : α → α} {hpk huk} :
    (t.modify p f hpk huk).rows = t.rows.map fun r => if p r then f r else r := rfl

@[simp] theorem modify_last {t : Table α pk uk} {p : α → Bool} {f : α → α} {hpk huk} :
    (t.modify p f hpk huk).last = t.last := rfl

@[simp] theorem mem_insert {t : Table α pk uk} {mk : Nat → α} {hpk huk} {r : α} :
    r ∈ (t.insert mk hpk huk).rows ↔ r ∈ t.rows ∨ r = mk (t.last + 1) := by
  simp [insert]

@[simp] theorem insert_rows {t : Table α pk uk} {mk : Nat → α} {hpk huk} :
    (t.insert mk hpk huk).rows = t.rows ++ [mk (t.last + 1)] := rfl

@[simp] theorem insert_last {t : Table α pk uk} {mk : Nat → α} {hpk huk} :
    (t.insert mk hpk huk).last = t.last + 1 := rfl

/-- An `UPDATE` moves no row: each row of the result comes from the row with its key. -/
theorem exists_mem_modify {t : Table α pk uk} {p : α → Bool} {f : α → α} {hpk huk} {a : α}
    (ha : a ∈ t.rows) : (if p a then f a else a) ∈ (t.modify p f hpk huk).rows :=
  mem_modify.mpr ⟨a, ha, rfl⟩

section Upsert

variable [DecidableEq κ] {t : Table α pk uk} {k : κ} {mk : Nat → α} {f : α → α}
  (hmk : ∀ n, pk (mk n) = n) (hk : ∀ n, uk (mk n) = k) (hpk : ∀ r, pk (f r) = pk r)
  (huk : ∀ r, uk (f r) = uk r)

/-- **What an upsert leaves**: the other rows as they were, and with key `k` the
updated row or, where there was none, the new one. -/
theorem mem_upsert {r : α} :
    r ∈ (t.upsert k mk f hmk hk hpk huk).rows ↔
      (r ∈ t.rows ∧ uk r ≠ k) ∨ (∃ a ∈ t.rows, uk a = k ∧ r = f a) ∨
        ((∀ a ∈ t.rows, uk a ≠ k) ∧ r = mk (t.last + 1)) := by
  unfold upsert
  by_cases h : ∃ a ∈ t.rows, uk a = k
  · rw [dif_pos h, mem_modify]
    refine ⟨fun hr => ?_, fun hr => ?_⟩
    · obtain ⟨a, ha, rfl⟩ := hr
      by_cases hak : uk a = k
      · exact Or.inr (Or.inl ⟨a, ha, hak, by simp [hak]⟩)
      · exact Or.inl ⟨by simpa [hak] using ha, by simp [hak]⟩
    · rcases hr with ⟨hr, hne⟩ | ⟨a, ha, hak, rfl⟩ | ⟨hno, -⟩
      · exact ⟨r, hr, by simp [hne]⟩
      · exact ⟨a, ha, by simp [hak]⟩
      · obtain ⟨a, ha, hak⟩ := h
        exact absurd hak (hno a ha)
  · have hno : ∀ a ∈ t.rows, uk a ≠ k := fun a ha hak => h ⟨a, ha, hak⟩
    rw [dif_neg h, mem_insert]
    refine ⟨fun hr => ?_, fun hr => ?_⟩
    · rcases hr with hr | rfl
      · exact Or.inl ⟨hr, hno r hr⟩
      · exact Or.inr (Or.inr ⟨hno, rfl⟩)
    · rcases hr with ⟨hr, -⟩ | ⟨a, ha, hak, -⟩ | ⟨-, rfl⟩
      · exact Or.inl hr
      · exact absurd hak (hno a ha)
      · exact Or.inr rfl

theorem upsert_rows_of_new (h : ∀ r ∈ t.rows, uk r ≠ k) :
    (t.upsert k mk f hmk hk hpk huk).rows = t.rows ++ [mk (t.last + 1)] := by
  unfold upsert
  rw [dif_neg (fun ⟨r, hr, he⟩ => h r hr he)]
  rfl

/-- A row with another key stays as it was. -/
theorem mem_upsert_of_ne {r : α} (h : uk r ≠ k) :
    r ∈ (t.upsert k mk f hmk hk hpk huk).rows ↔ r ∈ t.rows := by
  rw [mem_upsert]
  refine ⟨fun hr => ?_, fun hr => Or.inl ⟨hr, h⟩⟩
  · rcases hr with ⟨hr, -⟩ | ⟨a, -, hak, rfl⟩ | ⟨-, rfl⟩
    · exact hr
    · exact absurd (by rw [huk, hak]) h
    · exact absurd (hk _) h

theorem last_le_upsert_last : t.last ≤ (t.upsert k mk f hmk hk hpk huk).last := by
  unfold upsert
  split
  · exact Nat.le_refl _
  · exact Nat.le_succ _

end Upsert

end Table

end FlyMail
