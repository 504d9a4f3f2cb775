/-
Statements that delete rows.

A database is a list of rows for each table.  A deletion names a table and says, by what the tables hold when it
is run, which rows of that table go.  A script is run statement by statement up to the first that fails, and what
is deleted by then stays deleted.

Statements that read no table the script writes to delete as if all were run at once: which rows go can be told
from the tables as they were (`sweep_spec`).
-/
import FlyMail.Lib.Until
import Mathlib.Data.List.Infix
import Mathlib.Logic.Function.Basic

namespace FlyMail

variable {τ ρ δ ε : Type}

/-- `DELETE FROM table WHERE takes`. -/
structure Deletion (τ ρ : Type) where
  table : τ
  takes : (τ → List ρ) → ρ → Bool

/-- Some rows are gone, and the others are as they were. -/
def Thinned (db' db : τ → List ρ) : Prop := ∀ t, ∃ p : ρ → Bool, db' t = (db t).filter p

namespace Thinned

variable {db db' db'' : τ → List ρ}

theorem refl (db : τ → List ρ) : Thinned db db := fun _ => ⟨fun _ => true, by simp⟩

theorem trans (h : Thinned db'' db') (h' : Thinned db' db) : Thinned db'' db := by
  intro t
  obtain ⟨p, hp⟩ := h t
  obtain ⟨q, hq⟩ := h' t
  exact ⟨fun r => p r && q r, by rw [hp, hq, List.filter_filter]⟩

theorem sublist (h : Thinned db' db) (t : τ) : (db' t).Sublist (db t) := by
  obtain ⟨p, hp⟩ := h t
  rw [hp]
  exact List.filter_sublist

theorem mem (h : Thinned db' db) {t : τ} {r : ρ} (hr : r ∈ db' t) : r ∈ db t := (h.sublist t).subset hr

/-- What is left is told by which rows are left. -/
theorem eq_filter (h : Thinned db' db) {t : τ} {q : ρ → Bool} (hq : ∀ r ∈ db t, r ∈ db' t ↔ q r = true) :
    db' t = (db t).filter q := by
  obtain ⟨p, hp⟩ := h t
  rw [hp]
  refine List.filter_congr fun r hr => ?_
  have hpq : p r = true ↔ q r = true := by simpa [hp, hr] using hq r hr
  exact Bool.eq_iff_iff.mpr hpq

end Thinned

section Without

variable [DecidableEq τ]

def Deletion.run (d : Deletion τ ρ) (db : τ → List ρ) : τ → List ρ :=
  Function.update db d.table ((db d.table).filter fun r => !d.takes db r)

/-- What is left when all these are run at once. -/
def without (db : τ → List ρ) (ds : List (Deletion τ ρ)) : τ → List ρ := fun t =>
  (db t).filter fun r => ds.all fun d => !(decide (d.table = t) && d.takes db r)

variable {db db' : τ → List ρ} {ds : List (Deletion τ ρ)}

@[simp] theorem without_nil : without db [] = db := by
  funext t
  simp [without]

theorem thinned_without (db : τ → List ρ) (ds : List (Deletion τ ρ)) : Thinned (without db ds) db :=
  fun _ => ⟨_, rfl⟩

theorem mem_without {t : τ} {r : ρ} :
    r ∈ without db ds t ↔ r ∈ db t ∧ ∀ d ∈ ds, d.table = t → d.takes db r = false := by
  simp [without, imp_iff_not_or]

/-- A table none of them names stays as it is. -/
theorem without_of_ne {t : τ} (h : ∀ d ∈ ds, d.table ≠ t) : without db ds t = db t :=
  List.filter_eq_self.mpr fun _ _ => List.all_eq_true.mpr fun d hd => by simp [h d hd]

/-- The deletions write to the tables in `W` only, and read none of these. -/
def Apart (W : τ → Prop) (ds : List (Deletion τ ρ)) : Prop :=
  ∀ d ∈ ds, W d.table ∧ ∀ db db' : τ → List ρ, (∀ t, ¬ W t → db' t = db t) → d.takes db' = d.takes db

variable {W : τ → Prop}

theorem Apart.run_eq {d : Deletion τ ρ} (h : Apart W (d :: ds)) {t : τ} (ht : ¬ W t) : d.run db t = db t := by
  have hne : t ≠ d.table := fun he => ht (he ▸ (h d List.mem_cons_self).1)
  simp [Deletion.run, hne]

/-- **Deletions that read nothing they write** delete as if all were run at once. -/
theorem foldl_run (h : Apart W ds) : ds.foldl (fun db d => d.run db) db = without db ds := by
  induction ds generalizing db with
  | nil => simp
  | cons d rest ih =>
      have hrest : Apart W rest := fun e he => h e (List.mem_cons_of_mem _ he)
      rw [List.foldl_cons, ih hrest]
      funext t
      have htakes : ∀ e ∈ rest, e.takes (d.run db) = e.takes db := fun e he =>
        (hrest e he).2 db (d.run db) fun _ => h.run_eq
      have hall : ∀ r, (rest.all fun e => !(decide (e.table = t) && e.takes (d.run db) r)) =
          rest.all fun e => !(decide (e.table = t) && e.takes db r) := by
        intro r
        rw [Bool.eq_iff_iff, List.all_eq_true, List.all_eq_true]
        exact forall₂_congr fun e he => by rw [htakes e he]
      simp only [without, hall, List.all_cons]
      by_cases hd : d.table = t
      · subst hd
        simp [Deletion.run, List.filter_filter, Bool.and_comm]
      · simp [Deletion.run, Ne.symm hd, hd]

end Without

/-! ### Scripts -/

section Sweep

variable [DecidableEq τ] (del : δ → Deletion τ ρ) (fault : (τ → List ρ) → δ → Option ε)

def runOr (db : τ → List ρ) (s : δ) : Except ε (τ → List ρ) :=
  match fault db s with
  | some e => .error e
  | none => .ok ((del s).run db)

/-- Run the statements up to the first that fails. -/
def sweep (db : τ → List ρ) (l : List δ) : (τ → List ρ) × Option ε := untilError (runOr del fault) db l

/-- Go on where things stand, unless something failed. -/
def goOn (o : (τ → List ρ) × Option ε) (next : (τ → List ρ) → (τ → List ρ) × Option ε) : (τ → List ρ) × Option ε :=
  match o.2 with
  | some _ => o
  | none => next o.1

omit [DecidableEq τ] in
theorem Thinned.goOn {o : (τ → List ρ) × Option ε} {next : (τ → List ρ) → (τ → List ρ) × Option ε} {db : τ → List ρ}
    (ho : Thinned o.1 db) (hnext : Thinned (next o.1).1 o.1) : Thinned (goOn o next).1 db := by
  unfold FlyMail.goOn
  split
  · exact ho
  · exact hnext.trans ho

variable {del fault} {db : τ → List ρ} {l : List δ} {W : τ → Prop}

theorem thinned_run (d : Deletion τ ρ) (db : τ → List ρ) : Thinned (d.run db) db := by
  intro t
  by_cases ht : t = d.table
  · exact ⟨fun r => !d.takes db r, by simp [Deletion.run, ht]⟩
  · exact ⟨fun _ => true, by simp [Deletion.run, ht]⟩

/-- A script takes rows away and does nothing else, wherever it stops. -/
theorem thinned_sweep (db : τ → List ρ) (l : List δ) : Thinned (sweep del fault db l).1 db := by
  have h := untilError_invariant (f := runOr del fault) (s := db) (l := l) (I := fun tx _ => Thinned tx db)
    (fun tx s rest tx' htx hs => ?_) (Thinned.refl db)
  · obtain ⟨_, hrest, -⟩ := h
    exact hrest
  · cases hf : fault tx s with
    | some e => simp [runOr, hf] at hs
    | none =>
        have he : (del s).run tx = tx' := by simpa [runOr, hf] using hs
        exact he ▸ (thinned_run _ _).trans htx

theorem sweep_done : ∃ done, done <+: l ∧ ((sweep del fault db l).2 = none → done = l) ∧
    (sweep del fault db l).1 = (done.map del).foldl (fun db d => d.run db) db := by
  unfold sweep
  induction l generalizing db with
  | nil => exact ⟨[], List.nil_prefix, fun _ => rfl, rfl⟩
  | cons s rest ih =>
      cases hf : fault db s with
      | some e => exact ⟨[], List.nil_prefix, by simp [untilError, runOr, hf], by simp [untilError, runOr, hf]⟩
      | none =>
          obtain ⟨done, hdone, hnone, heq⟩ := @ih ((del s).run db)
          refine ⟨s :: done, List.prefix_cons_inj s |>.mpr hdone, fun h => ?_, ?_⟩
          · rw [hnone (by simpa [untilError, runOr, hf] using h)]
          · simpa [untilError, runOr, hf] using heq

/-- **What a script leaves.**  The statements that were run are the first ones, all of them if none failed, and
what they take can be told beforehand. -/
theorem sweep_spec (h : Apart W (l.map del)) :
    ∃ done, done <+: l ∧ ((sweep del fault db l).2 = none → done = l) ∧
      (sweep del fault db l).1 = without db (done.map del) := by
  obtain ⟨done, hdone, hnone, heq⟩ := @sweep_done _ _ _ _ _ del fault db l
  refine ⟨done, hdone, hnone, ?_⟩
  rw [heq]
  exact foldl_run fun d hd => h d ((List.Sublist.map del hdone.sublist).subset hd)

end Sweep

end FlyMail
