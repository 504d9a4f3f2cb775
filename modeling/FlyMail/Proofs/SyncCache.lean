/-
Which status is cached in the end.

The cache is a register that keeps the text that sorts last, so a snapshot is there in the end if the
texts of all others that arrived sort before its own.  That is the latest one as long as no two
snapshots are of the same local second; within one it depends on the digits and on the zone.
-/
import FlyMail.Lib.Newest
import FlyMail.Ui.SyncCache
import Mathlib.Data.List.Nodup

namespace FlyMail.Ui.SyncCache

open Rfc3339 (Stamp)

variable {β : Type}

/-! ### One arrival -/

theorem writeSyncStatus_map (there : Option (Snapshot β)) (new : Snapshot β) :
    writeSyncStatus (there.map Snapshot.status) new.status
      = (keepNewer (fun s : Snapshot β => s.updatedAt.text) there new).map Snapshot.status := by
  cases there with
  | none => rfl
  | some old =>
    have hnewer : isNewerStatus (some old.status) new.status = !decide (new.updatedAt.text < old.updatedAt.text) := rfl
    rw [Option.map_some, writeSyncStatus, hnewer, keepNewer]
    by_cases hlt : new.updatedAt.text < old.updatedAt.text
    · simp [hlt, not_le.mpr hlt]
    · simp [hlt, not_lt.mp hlt]

/-- The cache is a register that keeps the text that sorts last. -/
theorem cached_eq (arrivals : List (Snapshot β)) :
    cached arrivals
      = (arrivals.foldl (keepNewer fun s : Snapshot β => s.updatedAt.text) none).map Snapshot.status := by
  have hrun : ∀ (arrivals : List (Snapshot β)) (there : Option (Snapshot β)),
      (arrivals.map Snapshot.status).foldl writeSyncStatus (there.map Snapshot.status)
        = (arrivals.foldl (keepNewer fun s : Snapshot β => s.updatedAt.text) there).map Snapshot.status := by
    intro arrivals
    induction arrivals with
    | nil => exact fun _ => rfl
    | cons new arrivals ih =>
      intro there
      rw [List.map_cons, List.foldl_cons, List.foldl_cons, writeSyncStatus_map]
      exact ih _
  exact hrun arrivals none

/-! ### All arrivals -/

/-- The snapshot is the latest of those that arrived. -/
structure IsLatest (arrivals : List (Snapshot β)) (latest : Snapshot β) : Prop where
  arrived : latest ∈ arrivals
  last : ∀ s ∈ arrivals, s.updatedAt.instant ≤ latest.updatedAt.instant

/-- Snapshots of one moment are one snapshot. -/
theorem eq_of_updatedAt {snapshots : List (Snapshot β)}
    (hincreasing : snapshots.Pairwise fun s t => s.updatedAt.instant < t.updatedAt.instant) {s t : Snapshot β}
    (hs : s ∈ snapshots) (ht : t ∈ snapshots) (h : s.updatedAt = t.updatedAt) : s = t := by
  have hnodup : (snapshots.map fun s => s.updatedAt.instant).Nodup :=
    List.pairwise_map.mpr (hincreasing.imp Int.ne_of_lt)
  exact List.inj_on_of_nodup_map hnodup hs ht (by rw [h])

theorem status_inj {s t : Snapshot β} (h : s.status = t.status) : s = t := by
  obtain ⟨htext, hprogress⟩ := SyncStatus.mk.inj h
  have hstamp := Stamp.text_inj (Option.some.inj htext)
  cases s
  cases t
  simp_all

/-- What is cached is the snapshot that all others sort before. -/
theorem cached_eq_iff {arrivals : List (Snapshot β)} {s : Snapshot β} (hs : s ∈ arrivals)
    (hone : ∀ t ∈ arrivals, t.updatedAt = s.updatedAt → t = s) :
    cached arrivals = some s.status ↔ ∀ t ∈ arrivals, t ≠ s → t.updatedAt.Sorts s.updatedAt := by
  have hmap : cached arrivals = some s.status ↔
      arrivals.foldl (keepNewer fun t : Snapshot β => t.updatedAt.text) none = some s := by
    rw [cached_eq]
    constructor
    · intro h
      obtain ⟨t, ht, heq⟩ := Option.map_eq_some_iff.mp h
      rw [ht, status_inj heq]
    · intro h
      rw [h]
      rfl
  rw [hmap, foldl_keepNewer_eq_iff hs fun t ht htext => hone t ht (Stamp.text_inj htext)]
  exact forall_congr' fun t => imp_congr_right fun _ => imp_congr_right fun _ => Stamp.text_lt_iff

/-- **The cached status is the latest just if every other that arrived sorts before it.** -/
theorem cached_latest_iff {snapshots arrivals : List (Snapshot β)} {latest : Snapshot β}
    (hincreasing : snapshots.Pairwise fun s t => s.updatedAt.instant < t.updatedAt.instant)
    (harrivals : ∀ s ∈ arrivals, s ∈ snapshots) (hlatest : IsLatest arrivals latest) :
    cached arrivals = some latest.status ↔ ∀ s ∈ arrivals, s ≠ latest → s.updatedAt.Sorts latest.updatedAt :=
  cached_eq_iff hlatest.arrived fun s hs h =>
    eq_of_updatedAt hincreasing (harrivals s hs) (harrivals _ hlatest.arrived) h

/-- The first second of 2026 or half a second later, in UTC or in a zone an hour ahead. -/
def newYear (half ahead : Bool) : Stamp where
  second := if ahead then 63902826000 else 63902822400
  nanos := if half then 500000000 else 0
  offset := if ahead then 60 else 0
  inYears := by cases ahead <;> decide
  inSecond := by cases half <;> decide
  inDay := by cases ahead <;> decide

theorem cached_latest_iff_ahead :
    cached [⟨newYear true true, 2⟩, ⟨newYear false true, 1⟩] = some (Snapshot.status ⟨newYear true true, 2⟩) ↔
      ∀ s ∈ [(⟨newYear true true, 2⟩ : Snapshot Nat), ⟨newYear false true, 1⟩],
        s ≠ ⟨newYear true true, 2⟩ → s.updatedAt.Sorts (newYear true true) :=
  @cached_latest_iff Nat [⟨newYear false true, 1⟩, ⟨newYear true true, 2⟩] _ _ (by decide) (by decide)
    ⟨by decide, by decide⟩

/-- Half a second after a whole one is taken for older. -/
theorem fraction_dropped : ¬ ∀ (snapshots arrivals : List (Snapshot Nat)) (latest : Snapshot Nat),
    (snapshots.Pairwise fun s t => s.updatedAt.instant < t.updatedAt.instant) →
    (∀ s ∈ arrivals, s ∈ snapshots) → IsLatest arrivals latest → cached arrivals = some latest.status := by
  intro h
  have hcached := h [⟨newYear false false, 1⟩, ⟨newYear true false, 2⟩]
    [⟨newYear false false, 1⟩, ⟨newYear true false, 2⟩] ⟨newYear true false, 2⟩ (by decide) (by decide)
    ⟨by decide, by decide⟩
  have hsorts := (cached_eq_iff (by decide) (by decide)).mp hcached ⟨newYear false false, 1⟩ (by decide) (by decide)
  exact absurd hsorts (by decide)

end FlyMail.Ui.SyncCache
