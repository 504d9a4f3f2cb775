/-
Who holds a slot and waits for one.

The slots taken are the slots the runners hold (`Accounted`), so a slot that is taken is
held by some runner.  A runner that waits holds a slot only if it took the task up between
two folders of its own poll.  With one slot that is enough for the poll to wait for itself
(`poll_waits_for_itself`).
-/
import FlyMail.Sync.Slots
import Mathlib.Algebra.Order.BigOperators.Group.List
import Mathlib.Algebra.Order.Ring.Nat
import Mathlib.Tactic.ByContra

namespace FlyMail.Sync.Slots

/-- No runner that holds a slot waits for one, and if all slots are taken some runner that
holds one does not wait. -/
def NoHoldAndWait (p : Pool Phase Counter) : Prop :=
  (∀ f ∈ p.calls, 0 < f.holds → f.waits = false) ∧
    (p.store.limit ≤ p.store.active → ∃ f ∈ p.calls, 0 < f.holds ∧ f.waits = false)

/-- What is kept along a run. -/
structure Accounted (p : Pool Phase Counter) : Prop where
  active : p.store.active = (p.calls.map Phase.holds).sum
  limit : 1 ≤ p.store.limit
  apart : ∀ f ∈ p.calls, 0 < f.holds → f.waits = false

theorem Accounted.noHoldAndWait {p : Pool Phase Counter} (h : Accounted p) : NoHoldAndWait p := by
  refine ⟨h.apart, fun hfull => ?_⟩
  have hlimit := h.limit
  have hactive := h.active
  have hsome : ∃ f ∈ p.calls, 0 < f.holds := by
    by_contra hnone
    have hzero : (p.calls.map Phase.holds).sum = 0 := by
      refine List.sum_eq_zero fun n hn => ?_
      obtain ⟨f, hf, rfl⟩ := List.mem_map.mp hn
      exact Nat.eq_zero_of_not_pos fun hpos => hnone ⟨f, hf, hpos⟩
    omega
  obtain ⟨f, hf, hpos⟩ := hsome
  exact ⟨f, hf, hpos, h.apart f hf hpos⟩

/-! ### What a step does to the slots -/

theorem triggeredFullSync_holds (p : Place) (s : Counter) :
    (triggeredFullSync p s).1.limit = s.limit ∧
      (triggeredFullSync p s).1.active + p.holds = s.active + (triggeredFullSync p s).2.holds := by
  unfold triggeredFullSync acquireSyncSlot
  by_cases hfull : s.active ≥ s.limit
  · rw [if_pos hfull]
    exact ⟨rfl, rfl⟩
  · rw [if_neg hfull]
    refine ⟨rfl, ?_⟩
    show s.active + 1 + p.holds = s.active + (p.holds + 1)
    omega

theorem triggeredFullSync_waits {p : Place} {s : Counter} (h : s.active < s.limit) :
    (triggeredFullSync p s).2.waits = false := by
  unfold triggeredFullSync acquireSyncSlot
  rw [if_neg (Nat.not_le.mpr h)]
  rfl

theorem releaseSyncSlot_active {s : Counter} (h : 0 < s.active) :
    (releaseSyncSlot s).limit = s.limit ∧ (releaseSyncSlot s).active + 1 = s.active := by
  unfold releaseSyncSlot
  rw [if_pos h]
  refine ⟨rfl, ?_⟩
  show s.active - 1 + 1 = s.active
  omega

/-- **The slots taken change by those of the runner that goes on.** -/
theorem next_holds {x : Happening} {f f' : Phase} {s s' : Counter} (hle : f.holds ≤ s.active)
    (h : next x f s = some (s', f')) :
    s'.limit = s.limit ∧ s'.active + f.holds = s.active + f'.holds := by
  unfold next at h
  split at h
  · split at h
    · rename_i s₁ hacquire
      obtain ⟨rfl, rfl⟩ := Prod.mk.inj (Option.some.inj h)
      unfold acquireSyncSlot at hacquire
      split at hacquire
      · cases hacquire
      · obtain rfl := Option.some.inj hacquire
        exact ⟨rfl, rfl⟩
    · obtain ⟨rfl, rfl⟩ := Prod.mk.inj (Option.some.inj h)
      exact ⟨rfl, rfl⟩
  · obtain ⟨rfl, rfl⟩ := Prod.mk.inj (Option.some.inj h)
    exact triggeredFullSync_holds _ s
  · obtain ⟨rfl, rfl⟩ := Prod.mk.inj (Option.some.inj h)
    exact triggeredFullSync_holds _ s
  · obtain ⟨rfl, rfl⟩ := Prod.mk.inj (Option.some.inj h)
    exact ⟨rfl, rfl⟩
  · rename_i ok
    obtain ⟨rfl, rfl⟩ := Prod.mk.inj (Option.some.inj h)
    obtain ⟨hlimit, hactive⟩ := releaseSyncSlot_active (s := s) hle
    refine ⟨hlimit, ?_⟩
    cases ok <;> exact hactive
  · obtain ⟨rfl, rfl⟩ := Prod.mk.inj (Option.some.inj h)
    exact ⟨rfl, rfl⟩
  · rename_i ok p
    obtain ⟨rfl, rfl⟩ := Prod.mk.inj (Option.some.inj h)
    have hpos : p.holds + 1 ≤ s.active := hle
    obtain ⟨hlimit, hactive⟩ := releaseSyncSlot_active (s := s) (by omega)
    refine ⟨hlimit, ?_⟩
    cases ok
    · show (releaseSyncSlot s).active + (p.holds + 1) = s.active + p.holds
      omega
    · show (releaseSyncSlot s).active + (p.holds + 1) = s.active + p.holds
      omega
  · obtain ⟨rfl, rfl⟩ := Prod.mk.inj (Option.some.inj h)
    exact ⟨rfl, rfl⟩
  · cases h

/-- A runner without a slot may well wait. -/
theorem triggeredFullSync_apart {p : Place} {s : Counter} (h : p.holds = 0) :
    0 < (triggeredFullSync p s).2.holds → (triggeredFullSync p s).2.waits = false := by
  unfold triggeredFullSync
  intro hpos
  split at hpos
  · rfl
  · exact absurd h (Nat.pos_iff_ne_zero.mp hpos)

/-- **A runner that waits has no slot**, if a poll takes the task up only when there is a
slot for it. -/
theorem next_apart {p : Pool Phase Counter} {i : Nat} {x : Happening} {f f' : Phase} {s : Counter}
    (h : 0 < f.holds → f.waits = false) (hok : slotForTrigger p (.go i x) = true)
    (hf : p.calls[i]? = some f) (hnext : next x f p.store = some (s, f')) :
    0 < f'.holds → f'.waits = false := by
  unfold next at hnext
  split at hnext
  · split at hnext <;>
    · obtain ⟨rfl, rfl⟩ := Prod.mk.inj (Option.some.inj hnext)
      exact fun _ => rfl
  · rename_i place
    obtain ⟨rfl, rfl⟩ := Prod.mk.inj (Option.some.inj hnext)
    cases place with
    | polling =>
        simp only [slotForTrigger, hf, decide_eq_true_eq] at hok
        exact fun _ => triggeredFullSync_waits hok
    | ready => exact triggeredFullSync_apart rfl
    | bodies => exact triggeredFullSync_apart rfl
  · rename_i place
    obtain ⟨rfl, rfl⟩ := Prod.mk.inj (Option.some.inj hnext)
    refine triggeredFullSync_apart (Nat.eq_zero_of_not_pos fun hpos => ?_)
    cases h hpos
  · obtain ⟨rfl, rfl⟩ := Prod.mk.inj (Option.some.inj hnext)
    exact fun _ => rfl
  · obtain ⟨rfl, rfl⟩ := Prod.mk.inj (Option.some.inj hnext)
    exact fun _ => rfl
  · obtain ⟨rfl, rfl⟩ := Prod.mk.inj (Option.some.inj hnext)
    exact fun _ => rfl
  · rename_i ok place
    obtain ⟨rfl, rfl⟩ := Prod.mk.inj (Option.some.inj hnext)
    cases ok <;> exact fun _ => rfl
  · obtain ⟨rfl, rfl⟩ := Prod.mk.inj (Option.some.inj hnext)
    exact fun _ => rfl
  · cases hnext

/-! ### Along a run -/

theorem accounted_step {p q : Pool Phase Counter} {turn : Turn Unit Happening { n : Nat // 1 ≤ n }}
    (h : Accounted p) (hok : slotForTrigger p turn = true) (hstep : p.step service turn = some q) :
    Accounted q := by
  cases turn with
  | start c =>
      obtain rfl := Option.some.inj hstep
      refine ⟨?_, h.limit, fun f hf => ?_⟩
      · show p.store.active = ((p.calls ++ [Phase.working .ready]).map Phase.holds).sum
        rw [h.active, List.map_append, List.sum_append]
        rfl
      · rcases List.mem_append.mp hf with hold | hnew
        · exact h.apart f hold
        · rw [List.mem_singleton.mp hnew]
          exact fun _ => rfl
  | go i x =>
      obtain ⟨f, s, f', hf, hnext, rfl⟩ := Pool.step_go hstep
      have hsum := Pool.sum_goOn (s := s) (g := f') Phase.holds hf
      have hmem := List.mem_of_getElem? hf
      have hle : f.holds ≤ p.store.active := by
        rw [h.active]
        exact List.single_le_sum (fun _ _ => Nat.zero_le _) _ (List.mem_map.mpr ⟨f, hmem, rfl⟩)
      obtain ⟨hlimit, hactive⟩ := next_holds hle hnext
      refine ⟨?_, ?_, fun g hg => ?_⟩
      · have hold := h.active
        show s.active = _
        omega
      · show 1 ≤ s.limit
        rw [hlimit]
        exact h.limit
      · obtain ⟨j, hj⟩ := List.mem_iff_getElem?.mp hg
        rcases Pool.getElem?_goOn hj with ⟨-, rfl⟩ | ⟨-, hold⟩
        · exact next_apart (h.apart f hmem) hok hf hnext
        · exact h.apart g (List.mem_of_getElem? hold)
  | outside n =>
      obtain rfl := Option.some.inj hstep
      exact ⟨h.active, n.property, h.apart⟩

/-- **No runner that holds a slot waits for one**, in every run in which a poll takes up a
synchronisation the user asked for only if there is a slot for it. -/
theorem no_hold_and_wait {limit : Nat} (hlimit : 1 ≤ limit) {p : Pool Phase Counter}
    (h : Run (Pool.step service) (fun p turn => slotForTrigger p turn = true)
      ⟨⟨0, limit⟩, []⟩ p) :
    NoHoldAndWait p := by
  refine Accounted.noHoldAndWait (Run.invariant (fun _ _ _ => accounted_step) h ?_)
  exact ⟨rfl, hlimit, fun f hf => by cases hf⟩

/-! ### One slot -/

theorem no_hold_and_wait_one : ∃ p : Pool Phase Counter,
    exec (Pool.step service) slotForTrigger ⟨⟨0, 1⟩, []⟩
      [.start (), .start (), .go 0 .poll, .go 1 .trigger, .go 0 (.finish true),
        .go 1 .retry] = some p ∧
      p.calls = [.working .bodies, .syncing .ready] ∧ NoHoldAndWait p := by
  have hview : (exec (Pool.step service) slotForTrigger ⟨⟨0, 1⟩, []⟩
      [.start (), .start (), .go 0 .poll, .go 1 .trigger, .go 0 (.finish true),
        .go 1 .retry]).map (fun p => p.calls) = some [.working .bodies, .syncing .ready] := rfl
  obtain ⟨p, hp, hcalls⟩ := Option.map_eq_some_iff.mp hview
  exact ⟨p, hp, hcalls, no_hold_and_wait (Nat.le_refl 1) (Run.ofExec _ hp)⟩

/-- **A poll that holds the only slot waits for it.** -/
theorem poll_waits_for_itself : ¬ ∀ (limit : Nat) (p : Pool Phase Counter), 1 ≤ limit →
    Run (Pool.step service) (fun _ _ => true = true) ⟨⟨0, limit⟩, []⟩ p → NoHoldAndWait p := by
  intro h
  have hview : (exec (Pool.step service) (fun _ _ => true) ⟨⟨0, 1⟩, []⟩
      [.start (), .go 0 .poll, .go 0 .trigger]).map (fun p => p.calls)
      = some [.waiting .polling] := rfl
  obtain ⟨p, hp, hcalls⟩ := Option.map_eq_some_iff.mp hview
  have hwaits := (h 1 p (Nat.le_refl 1) (Run.ofExec _ hp)).1 (.waiting .polling)
    (by rw [hcalls]; exact List.mem_singleton.mpr rfl) Nat.one_pos
  cases hwaits

end FlyMail.Sync.Slots
