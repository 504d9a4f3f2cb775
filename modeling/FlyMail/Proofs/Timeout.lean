/-
A hard deadline and the calls that are under way.

While a hard deadline is set, either the read deadline in force is not later, or a call is under way
that will see to it: one that has not taken its locked section yet, or one that is about to set a
deadline that is not later.  A call that takes its locked section becomes of the second kind.  Only
setting a deadline that was worked out before the hard one can break this, and the runs considered
are those in which that does not happen when nobody is left to repair it.
-/
import FlyMail.Imap.Timeout

namespace FlyMail.Imap.Timeout

/-- The deadline is there, and it is not later. -/
def NotLater (t : Option Seconds) (h : Seconds) : Prop := ∃ t', t = some t' ∧ t' ≤ h

theorem notLater_some {t h : Seconds} : NotLater (some t) h ↔ t ≤ h :=
  ⟨fun ⟨_, ht, hle⟩ => Option.some.inj ht ▸ hle, fun hle => ⟨t, rfl, hle⟩⟩

theorem notLater_capped (h : Seconds) (t : Option Seconds) : NotLater (capped (some h) t) h := by
  unfold capped
  cases t with
  | none => exact notLater_some.mpr (Int.le_refl h)
  | some t =>
      simp only
      split
      · exact notLater_some.mpr (Int.le_refl h)
      · rename_i hlt
        exact notLater_some.mpr (Int.not_lt.mp hlt)

/-- The call will set a read deadline that is not later than the hard one, or replace that. -/
def Frame.Heeds (h : Seconds) : Frame → Prop
  | .setReadDeadline _ => True
  | .setIdleTimeout _ => True
  | .setHardDeadline _ => True
  | .locking _ => True
  | .clearHardDeadline => True
  | .setting t => NotLater t h
  | .rearming _ hard => NotLater hard h
  | .settingBoth deadline => deadline ≤ h
  | .clearing _ => False
  | .resetting _ => False
  | .done => False

/-- The read deadline that the next operation of the call sets. -/
def Frame.sets (now : Seconds) : Frame → Option (Option Seconds)
  | .setting t => some t
  | .rearming d hard => some (capped hard (some (now + d)))
  | .settingBoth deadline => some (some deadline)
  | .resetting idle => some (some (now + idle))
  | _ => none

/-- A deadline later than the hard one, or none, is set only while another call is under way that heeds
the hard one; and no deadline is asked for only while there is a time to be idle or a hard deadline. -/
def InTime (p : Pool Frame TimeoutConn) : Turn Request Seconds Empty → Prop
  | .go i now => ∀ f, p.calls[i]? = some f →
      (∀ t h, f.sets now = some t → p.store.hard = some h → NotLater t h ∨
        ∃ j, j ≠ i ∧ ∃ g, p.calls[j]? = some g ∧ g.Heeds h) ∧
        (f = .setReadDeadline none → 0 < p.store.idle ∨ p.store.hard ≠ none)
  | _ => True

/-- No call is under way. -/
def Quiet (p : Pool Frame TimeoutConn) : Prop := ∀ f ∈ p.calls, f = .done

/-- The hard deadline is kept, or will be. -/
def Kept (p : Pool Frame TimeoutConn) : Prop :=
  ∀ h, p.store.hard = some h → NotLater p.store.read h ∨ ∃ (i : Nat) (f : Frame), p.calls[i]? = some f ∧ f.Heeds h

/-- No call is about to set no deadline at all, and that has not happened. -/
structure Bounded (p : Pool Frame TimeoutConn) : Prop where
  store : p.store.armed = true → p.store.read ≠ none
  calls : ∀ f ∈ p.calls, f ≠ .setting none

/-! ### One operation -/

/-- An operation that sets a read deadline does nothing else to it, and the call is over. -/
structure Sets (now : Seconds) (f : Frame) (c c' : TimeoutConn) (f' : Frame) (t : Option Seconds) : Prop where
  sets : f.sets now = some t
  read : c'.read = t
  hard : c'.hard = c.hard
  finished : f' = .done

/-- An operation that sets none leaves the call heeding the hard deadline there is then, unless it did
not before and nothing has changed. -/
structure SetsNone (f : Frame) (c c' : TimeoutConn) (f' : Frame) : Prop where
  read : c'.read = c.read
  armed : c'.armed = c.armed
  heeds : ∀ h, c'.hard = some h → f'.Heeds h ∨ (c.hard = some h ∧ ¬ f.Heeds h)
  setting : f' = .setting none → f = .setReadDeadline none ∧ c.idle ≤ 0 ∧ c.hard = none

theorem deadline_eq_none {c : TimeoutConn} {now : Seconds} {t : Option Seconds} (h : c.deadline now t = none) :
    t = none ∧ c.idle ≤ 0 ∧ c.hard = none := by
  unfold TimeoutConn.deadline capped at h
  cases hhard : c.hard with
  | none =>
      rw [hhard] at h
      simp only at h
      split at h
      · exact absurd h (Option.some_ne_none _)
      · rename_i hidle
        exact ⟨h, Int.not_lt.mp fun hpos => hidle ⟨h, hpos⟩, rfl⟩
  | some hard =>
      rw [hhard] at h
      split at h
      · exact absurd h (Option.some_ne_none _)
      · split at h
        · exact absurd h (Option.some_ne_none _)
        · exact absurd h (Option.some_ne_none _)
      · rename_i heq
        exact absurd heq.symm (Option.some_ne_none _ ·.symm)

theorem next_cases {now : Seconds} {f f' : Frame} {c c' : TimeoutConn} (h : next now f c = some (c', f')) :
    (∃ t, Sets now f c c' f' t) ∨ (f.sets now = none ∧ SetsNone f c c' f') := by
  cases f with
  | setReadDeadline t =>
      obtain ⟨rfl, rfl⟩ := Prod.mk.inj (Option.some.inj h)
      refine Or.inr ⟨rfl, rfl, rfl, fun hard hhard => Or.inl ?_, fun heq => ?_⟩
      · show NotLater (capped c.hard _) hard
        rw [hhard]
        exact notLater_capped hard _
      · obtain ⟨rfl, hrest⟩ := deadline_eq_none (Frame.setting.inj heq)
        exact ⟨rfl, hrest⟩
  | setIdleTimeout d =>
      obtain ⟨rfl, rfl⟩ := Prod.mk.inj (Option.some.inj h)
      refine Or.inr ⟨rfl, rfl, rfl, fun hard hhard => Or.inl ?_, fun heq => Frame.noConfusion heq⟩
      exact ⟨hard, hhard, Int.le_refl hard⟩
  | setHardDeadline d =>
      obtain ⟨rfl, rfl⟩ := Prod.mk.inj (Option.some.inj h)
      exact Or.inr ⟨rfl, rfl, rfl, fun hard _ => Or.inl trivial, fun heq => Frame.noConfusion heq⟩
  | locking deadline =>
      obtain ⟨rfl, rfl⟩ := Prod.mk.inj (Option.some.inj h)
      refine Or.inr ⟨rfl, rfl, rfl, fun hard hhard => Or.inl ?_, fun heq => Frame.noConfusion heq⟩
      exact Int.le_of_eq (Option.some.inj hhard)
  | clearHardDeadline =>
      obtain ⟨rfl, rfl⟩ := Prod.mk.inj (Option.some.inj h)
      refine Or.inr ⟨rfl, rfl, rfl, fun hard hhard => ?_, fun heq => Frame.noConfusion heq⟩
      exact absurd hhard.symm (Option.some_ne_none hard)
  | clearing idle =>
      obtain ⟨rfl, rfl⟩ := Prod.mk.inj (Option.some.inj h)
      exact Or.inr ⟨rfl, rfl, rfl, fun hard hhard => Or.inr ⟨hhard, id⟩, fun heq => Frame.noConfusion heq⟩
  | setting t =>
      obtain ⟨rfl, rfl⟩ := Prod.mk.inj (Option.some.inj h)
      exact Or.inl ⟨_, rfl, rfl, rfl, rfl⟩
  | rearming d hard =>
      obtain ⟨rfl, rfl⟩ := Prod.mk.inj (Option.some.inj h)
      exact Or.inl ⟨_, rfl, rfl, rfl, rfl⟩
  | settingBoth deadline =>
      obtain ⟨rfl, rfl⟩ := Prod.mk.inj (Option.some.inj h)
      exact Or.inl ⟨_, rfl, rfl, rfl, rfl⟩
  | resetting idle =>
      obtain ⟨rfl, rfl⟩ := Prod.mk.inj (Option.some.inj h)
      exact Or.inl ⟨_, rfl, rfl, rfl, rfl⟩
  | done => exact absurd h.symm (Option.some_ne_none _)

/-- Which frames set no deadline. -/
theorem setting_none_of_sets {now : Seconds} {f : Frame} (h : f.sets now = some none) : f = .setting none := by
  cases f with
  | setting t => exact congrArg Frame.setting (Option.some.inj h)
  | rearming d hard =>
      refine absurd (Option.some.inj h) ?_
      unfold capped
      cases hard with
      | none => exact Option.some_ne_none _
      | some hard =>
          simp only
          split
          · exact Option.some_ne_none _
          · exact Option.some_ne_none _
  | settingBoth deadline => exact absurd (Option.some.inj h) (Option.some_ne_none _)
  | resetting idle => exact absurd (Option.some.inj h) (Option.some_ne_none _)
  | setReadDeadline t => exact absurd h.symm (Option.some_ne_none _)
  | setIdleTimeout d => exact absurd h.symm (Option.some_ne_none _)
  | setHardDeadline d => exact absurd h.symm (Option.some_ne_none _)
  | locking deadline => exact absurd h.symm (Option.some_ne_none _)
  | clearHardDeadline => exact absurd h.symm (Option.some_ne_none _)
  | clearing idle => exact absurd h.symm (Option.some_ne_none _)
  | done => exact absurd h.symm (Option.some_ne_none _)

/-! ### Runs -/

variable {p q : Pool Frame TimeoutConn}

/-- What a step in time keeps. -/
structure Inv (p : Pool Frame TimeoutConn) : Prop where
  kept : Kept p
  bounded : Bounded p

theorem inv_new : Inv ⟨newTimeoutConn, []⟩ where
  kept h hhard := absurd hhard.symm (Option.some_ne_none h)
  bounded := ⟨fun h => absurd h Bool.false_ne_true, fun _ hf => absurd hf List.not_mem_nil⟩

theorem Inv.go {i : Nat} {now : Seconds} {f f' : Frame} {c : TimeoutConn} (hp : Inv p) (hok : InTime p (.go i now))
    (hf : p.calls[i]? = some f) (hnext : next now f p.store = some (c, f')) : Inv (p.goOn i c f') := by
  obtain ⟨hlate, hzero⟩ := hok f hf
  have hmem : f ∈ p.calls := List.mem_of_getElem? hf
  have hothers {P : Frame → Prop} (hall : ∀ g ∈ p.calls, P g) (hnew : P f') : ∀ g ∈ (p.goOn i c f').calls, P g := by
    intro g hg
    rcases List.mem_or_eq_of_mem_set hg with hold | rfl
    · exact hall g hold
    · exact hnew
  rcases next_cases hnext with ⟨t, hsets⟩ | ⟨-, hsets⟩
  · refine ⟨fun h hhard => ?_, ?_, hothers hp.bounded.calls ?_⟩
    · rcases hlate t h hsets.sets (hsets.hard ▸ hhard) with htime | ⟨j, hj, g, hg, hheeds⟩
      · refine Or.inl ?_
        show NotLater c.read h
        rw [hsets.read]
        exact htime
      · exact Or.inr ⟨j, g, Pool.getElem?_goOn_of_ne hj hg, hheeds⟩
    · intro _ hnone
      have ht : t = none := hsets.read.symm.trans hnone
      have hsetting := setting_none_of_sets (ht ▸ hsets.sets)
      exact hp.bounded.calls f hmem hsetting
    · rw [hsets.finished]
      exact fun heq => Frame.noConfusion heq
  · refine ⟨fun h hhard => ?_, ?_, hothers hp.bounded.calls fun heq => ?_⟩
    · rcases hsets.heeds h hhard with hheeds | ⟨hold, hnot⟩
      · exact Or.inr ⟨i, f', Pool.getElem?_goOn_self hf, hheeds⟩
      · rcases hp.kept h hold with htime | ⟨j, g, hg, hheeds⟩
        · refine Or.inl ?_
          show NotLater c.read h
          rw [hsets.read]
          exact htime
        · have hj : j ≠ i := by
            rintro rfl
            rw [hf] at hg
            exact hnot (Option.some.inj hg ▸ hheeds)
          exact Or.inr ⟨j, g, Pool.getElem?_goOn_of_ne hj hg, hheeds⟩
    · intro harmed
      show c.read ≠ none
      rw [hsets.read]
      exact hp.bounded.store (hsets.armed ▸ harmed)
    · obtain ⟨hzeroAsked, hidle, hhard⟩ := hsets.setting heq
      rcases hzero hzeroAsked with hpos | hsome
      · exact absurd hpos (Int.not_lt.mpr hidle)
      · exact hsome hhard

theorem Inv.step {turn : Turn Request Seconds Empty} (hp : Inv p) (hok : InTime p turn)
    (hstep : p.step service turn = some q) : Inv q := by
  cases turn with
  | start r =>
      obtain rfl := Option.some.inj hstep
      refine ⟨fun h hhard => ?_, hp.bounded.store, fun f hf => ?_⟩
      · rcases hp.kept h hhard with htime | ⟨i, f, hf, hheeds⟩
        · exact Or.inl htime
        · refine Or.inr ⟨i, f, ?_, hheeds⟩
          rw [List.getElem?_append_left (List.getElem?_eq_some_iff.mp hf).1]
          exact hf
      · rcases List.mem_append.mp hf with hold | hnew
        · exact hp.bounded.calls f hold
        · rw [List.mem_singleton.mp hnew]
          cases r with
          | setReadDeadline t => exact fun heq => Frame.noConfusion heq
          | setIdleTimeout d => exact fun heq => Frame.noConfusion heq
          | setHardDeadline d => exact fun heq => Frame.noConfusion heq
          | clearHardDeadline => exact fun heq => Frame.noConfusion heq
  | go i now =>
      obtain ⟨f, c, f', hf, hnext, rfl⟩ := Pool.step_go hstep
      exact hp.go hok hf hnext
  | outside e => exact nomatch e

/-- **The hard deadline wins in the end**, over runs in which no deadline is set that has been
overtaken, and once a deadline has been set there is always one. -/
theorem hard_wins (h : Run (Pool.step service) InTime ⟨newTimeoutConn, []⟩ q) :
    (Quiet q → ∀ hard, q.store.hard = some hard → NotLater q.store.read hard) ∧
      (q.store.armed = true → q.store.read ≠ none) := by
  have hinv : Inv q := h.invariant (fun p turn q hp hok hstep => hp.step hok hstep) inv_new
  refine ⟨fun hquiet hard hhard => ?_, hinv.bounded.store⟩
  rcases hinv.kept hard hhard with htime | ⟨i, f, hf, hheeds⟩
  · exact htime
  · rw [hquiet f (List.mem_of_getElem? hf)] at hheeds
    exact hheeds.elim

section Example

/-- A call of `setHardDeadline` by itself, at the moment 5. -/
private theorem handshake :
    Run (Pool.step service) InTime ⟨newTimeoutConn, []⟩
      ⟨⟨connIdleTimeout, some 25, some 25, some 25, true⟩, [.done]⟩ := by
  have hstart : Run (Pool.step service) InTime ⟨newTimeoutConn, []⟩ ⟨newTimeoutConn, [.setHardDeadline 20]⟩ :=
    .tail .refl (a := .start (.setHardDeadline 20)) trivial rfl
  have hclock : Run (Pool.step service) InTime ⟨newTimeoutConn, []⟩ ⟨newTimeoutConn, [.locking 25]⟩ := by
    refine .tail hstart (a := .go 0 5) (fun f hf => ?_) rfl
    obtain rfl := Option.some.inj hf
    exact ⟨fun t h hsets => absurd hsets.symm (Option.some_ne_none t), fun heq => Frame.noConfusion heq⟩
  have hlocked : Run (Pool.step service) InTime ⟨newTimeoutConn, []⟩
      ⟨{ newTimeoutConn with hard := some 25 }, [.settingBoth 25]⟩ := by
    refine .tail hclock (a := .go 0 5) (fun f hf => ?_) rfl
    obtain rfl := Option.some.inj hf
    exact ⟨fun t h hsets => absurd hsets.symm (Option.some_ne_none t), fun heq => Frame.noConfusion heq⟩
  refine .tail hlocked (a := .go 0 5) (fun f hf => ?_) rfl
  obtain rfl := Option.some.inj hf
  refine ⟨fun t h hsets hhard => Or.inl ?_, fun heq => Frame.noConfusion heq⟩
  obtain rfl := Option.some.inj hsets
  exact notLater_some.mpr (Int.le_of_eq (Option.some.inj hhard))

theorem hard_wins_alone : NotLater (some 25) 25 ∧ (some (25 : Seconds)) ≠ none := by
  obtain ⟨hquiet, harmed⟩ := hard_wins handshake
  refine ⟨hquiet (fun f hf => List.mem_singleton.mp hf) 25 rfl, harmed rfl⟩

/-- A deadline that was worked out before the handshake began is set when `setHardDeadline` is over. -/
theorem hard_loses_to_stale :
    ∃ q, exec (Pool.step service) (fun _ _ => true) ⟨newTimeoutConn, []⟩
        [.start (.setReadDeadline none), .go 0 0, .start (.setHardDeadline 20), .go 1 0, .go 1 0, .go 1 0, .go 0 0]
          = some q ∧
      Quiet q ∧ q.store.hard = some 20 ∧ ¬ NotLater q.store.read 20 := by
  refine ⟨_, rfl, fun f hf => ?_, rfl, fun h => absurd (notLater_some.mp h) (by decide)⟩
  rcases List.mem_cons.mp hf with hfirst | hsecond
  · exact hfirst
  · exact List.mem_singleton.mp hsecond

end Example

end FlyMail.Imap.Timeout
