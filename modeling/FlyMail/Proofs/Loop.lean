/-
The session is there when it is used.

All methods are called behind a check, or right after the session was opened, but for one:
a poll whose `FullSync` fails closes the session without asking whether it is still there.
It is not if the last foreground task that was let in closed it (`failing_poll_panics`).

What is kept: from the call of `FullSync` on there is a session, unless the last
foreground task let in has failed.
-/
import FlyMail.Sync.Loop

namespace FlyMail.Sync.Loop

/-! ### Programs that do not panic -/

/-- The program does not panic, and what it returns meets `P`. -/
def Returns {α : Type} (x : Except Panic α) (P : α → Prop) : Prop := ∃ a, x = .ok a ∧ P a

theorem Returns.pure {α : Type} {a : α} {P : α → Prop} (h : P a) :
    Returns (pure a : Except Panic α) P := ⟨a, rfl, h⟩

theorem Returns.bind {α β : Type} {x : Except Panic α} {f : α → Except Panic β} {P : α → Prop}
    {Q : β → Prop} (hx : Returns x P) (hf : ∀ a, P a → Returns (f a) Q) :
    Returns (x >>= f) Q := by
  obtain ⟨a, rfl, ha⟩ := hx
  exact hf a ha

theorem Returns.mono {α : Type} {x : Except Panic α} {P Q : α → Prop} (hx : Returns x P)
    (hPQ : ∀ a, P a → Q a) : Returns x Q := by
  obtain ⟨a, ha, hP⟩ := hx
  exact ⟨a, ha, hPQ a hP⟩

/-! ### The pieces of the loop -/

variable {r : Runner}

private theorem isSome_of_not_isNone (h : ¬ r.sess.isNone = true) : r.sess.isSome = true := by
  rw [Option.isSome_iff_ne_none]
  intro hnone
  exact h (by rw [hnone]; rfl)

theorem returns_session (h : r.sess.isSome = true) : Returns r.session fun _ => True := by
  obtain ⟨s, hs⟩ := Option.isSome_iff_exists.mp h
  exact ⟨s, by simp [Runner.session, hs], trivial⟩

theorem returns_close (h : r.sess.isSome = true) :
    Returns r.close fun r' => r' = { r with sess := none } :=
  (returns_session h).bind fun _ _ => .pure rfl

/-- A probe changes neither the place in the loop nor anything a later check relies on. -/
theorem returns_ensureAlive (r : Runner) (noop : Bool) :
    Returns (r.ensureAlive noop) fun r' => r'.phase = r.phase := by
  unfold Runner.ensureAlive
  split
  · exact .pure rfl
  · rename_i s hsess
    split
    · exact .pure rfl
    · split
      · exact .pure rfl
      · refine (returns_close (by simp [hsess])).bind fun r' hr' => .pure ?_
        rw [hr']

theorem dialConn_phase (r : Runner) (d : Dial) : (r.dialConn d).1.phase = r.phase := by
  cases d <;> rfl

theorem dialConn_isSome {d : Dial} (h : (r.dialConn d).2 = true) :
    (r.dialConn d).1.sess.isSome = true := by
  cases d with
  | connected s => rfl
  | failed => cases h
  | needsReauth => cases h

/-- A task that has succeeded leaves the session open. -/
def AfterTask (phase : Phase) (out : Runner × Bool) : Prop :=
  out.1.phase = phase ∧ (out.1.sess.isSome = true ∨ out.2 = false)

theorem returns_runTask {ok foreground : Bool} (h : r.sess.isSome = true) :
    Returns (r.runTask ok foreground) (AfterTask r.phase) := by
  refine (returns_session h).bind fun _ _ => ?_
  cases ok with
  | true => exact .pure ⟨rfl, Or.inl h⟩
  | false =>
      refine (returns_close h).bind fun r' hr' => .pure ⟨?_, Or.inr rfl⟩
      rw [hr']

/-- **A task never meets a session that is not there.** -/
theorem returns_exec (r : Runner) (t : TaskLuck) (foreground : Bool) :
    Returns (r.exec t foreground) (AfterTask r.phase) := by
  unfold Runner.exec
  split
  · exact .pure ⟨rfl, Or.inr rfl⟩
  · refine (returns_ensureAlive r t.noop).bind fun r₁ hphase => ?_
    rw [← hphase]
    split
    · have hdialed := dialConn_phase r₁ t.dial
      split
      · rename_i r₂ hdial
        rw [hdial] at hdialed
        have hsome : r₂.sess.isSome = true := by
          have hdialSome := dialConn_isSome (r := r₁) (d := t.dial) (by rw [hdial])
          rwa [hdial] at hdialSome
        rw [← hdialed]
        exact returns_runTask hsome
      · rename_i r₂ hdial
        rw [hdial] at hdialed
        exact .pure ⟨hdialed, Or.inr rfl⟩
    · rename_i hsess
      exact returns_runTask (isSome_of_not_isNone hsess)

theorem returns_execAll (ts : List TaskLuck) :
    ∀ r : Runner, Returns (r.execAll ts) fun r' => r'.phase = r.phase := by
  induction ts with
  | nil =>
      intro r
      exact .pure rfl
  | cons t rest ih =>
      intro r
      refine (returns_exec r t true).bind fun out hout => ?_
      rw [← hout.1]
      exact ih out.1

theorem returns_leaveIdle (r : Runner) (stopped : Bool) :
    Returns (r.leaveIdle stopped) fun r' => r'.phase = r.phase := by
  unfold Runner.leaveIdle
  split
  · rename_i h
    simp only [Bool.and_eq_true] at h
    refine (returns_close (r := { r with idle := false }) h.2).mono fun r' hr' => ?_
    rw [hr']
  · exact .pure rfl

theorem returns_enterIdle (r : Runner) (allowed selected started : Bool) :
    Returns (r.enterIdle allowed selected started) fun _ => True := by
  unfold Runner.enterIdle
  split
  · rename_i h
    simp only [Bool.and_eq_true] at h
    refine (returns_session h.1).bind fun s _ => ?_
    split <;> exact .pure trivial
  · exact .pure trivial

theorem returns_inboxSync (r : Runner) (ok : Bool) :
    Returns (r.inboxSync ok) fun _ => True := by
  unfold Runner.inboxSync
  split
  · rename_i h
    refine (returns_session h).bind fun _ _ => ?_
    split
    · exact .pure trivial
    · exact (returns_close h).bind fun _ _ => .pure trivial
  · exact .pure trivial

/-- What is kept between the steps. -/
def Safe (r : Runner) : Prop :=
  match r.phase with
  | .fullSync => r.sess.isSome = true
  | .folders last => r.sess.isSome = true ∨ last = some false
  | _ => True

theorem safe_of_top (h : r.phase = .top) : Safe r := by
  unfold Safe
  rw [h]
  trivial

/-- **`FullSync` is called with a session.** -/
theorem returns_beginPoll (r : Runner) (noop : Bool) (dial : Dial) :
    Returns (r.beginPoll noop dial) Safe := by
  unfold Runner.beginPoll
  split
  · exact .pure (safe_of_top rfl)
  · refine (returns_ensureAlive r noop).bind fun r₁ _ => ?_
    split
    · split
      · exact .pure (safe_of_top rfl)
      · split
        · rename_i r₂ hdial
          have hsome := dialConn_isSome (r := r₁) (d := dial) (by rw [hdial])
          rw [hdial] at hsome
          exact (returns_session hsome).bind fun _ _ => .pure hsome
        · exact .pure (safe_of_top rfl)
    · rename_i hsess
      have hsome := isSome_of_not_isNone hsess
      exact (returns_session hsome).bind fun _ _ => .pure hsome

theorem returns_failPoll (h : r.sess.isSome = true) : Returns r.failPoll Safe :=
  (returns_close h).bind fun _ _ => .pure (safe_of_top rfl)

/-! ### A step of the loop -/

theorem safe_step {l : Label} {x : Except Panic Runner} (h : Safe r)
    (hok : lastTaskSucceeded (.running r) l = true) (hstep : r.step l = some x) :
    Returns x Safe := by
  cases l with
  | tick seconds =>
      obtain rfl := Option.some.inj hstep
      exact .pure h
  | enter allowed selected started =>
      simp only [Runner.step] at hstep
      split at hstep
      · obtain rfl := Option.some.inj hstep
        obtain ⟨r', hr', -⟩ := returns_enterIdle r allowed selected started
        rw [hr']
        exact .pure trivial
      · cases hstep
  | shutdown => cases hstep
  | foreground stopped t =>
      simp only [Runner.step] at hstep
      split at hstep
      · obtain rfl := Option.some.inj hstep
        refine (returns_leaveIdle r stopped).bind fun r₁ _ => ?_
        exact (returns_exec r₁ t true).bind fun _ _ => .pure (safe_of_top rfl)
      · cases hstep
  | background stopped first t =>
      simp only [Runner.step] at hstep
      split at hstep
      · obtain rfl := Option.some.inj hstep
        refine (returns_leaveIdle r stopped).bind fun r₁ _ => ?_
        refine (returns_execAll first r₁).bind fun r₂ _ => ?_
        exact (returns_exec r₂ t false).bind fun _ _ => .pure (safe_of_top rfl)
      · cases hstep
  | idleEvent stopped ok =>
      simp only [Runner.step] at hstep
      split at hstep
      · obtain rfl := Option.some.inj hstep
        refine (returns_leaveIdle r stopped).bind fun r₁ _ => ?_
        exact (returns_inboxSync r₁ ok).bind fun _ _ => .pure (safe_of_top rfl)
      · cases hstep
  | poll stopped noop dial =>
      simp only [Runner.step] at hstep
      split at hstep
      · obtain rfl := Option.some.inj hstep
        exact (returns_leaveIdle r stopped).bind fun r₁ _ => returns_beginPoll r₁ noop dial
      · cases hstep
  | refresh =>
      simp only [Runner.step] at hstep
      split at hstep
      · obtain rfl := Option.some.inj hstep
        exact .pure (safe_of_top rfl)
      · cases hstep
  | idleDone =>
      simp only [Runner.step] at hstep
      split at hstep
      · obtain rfl := Option.some.inj hstep
        by_cases hsess : r.sess.isSome = true
        · rw [if_pos hsess]
          exact (returns_close hsess).bind fun _ _ => .pure (safe_of_top rfl)
        · rw [if_neg hsess]
          exact .pure (safe_of_top rfl)
      · cases hstep
  | idleClose =>
      simp only [Runner.step] at hstep
      split at hstep
      · rename_i hidle
        obtain rfl := Option.some.inj hstep
        exact (returns_close hidle.2.1).bind fun _ _ => .pure (safe_of_top rfl)
      · cases hstep
  | slotBusy =>
      simp only [Runner.step] at hstep
      split at hstep
      · obtain rfl := Option.some.inj hstep
        exact .pure (safe_of_top rfl)
      · cases hstep
  | slotTaken =>
      simp only [Runner.step] at hstep
      split at hstep
      · rename_i hphase
        obtain rfl := Option.some.inj hstep
        unfold Safe at h
        rw [hphase] at h
        exact .pure (Or.inl h)
      · cases hstep
  | boundary t =>
      simp only [Runner.step] at hstep
      split at hstep
      · obtain rfl := Option.some.inj hstep
        refine (returns_exec r t true).bind fun out hout => .pure ?_
        rcases hout.2 with hsome | hfailed
        · exact Or.inl hsome
        · exact Or.inr (by rw [hfailed])
      · obtain rfl := Option.some.inj hstep
        exact (returns_exec r t true).bind fun _ _ => .pure trivial
      · cases hstep
  | foldersEnd ok =>
      simp only [Runner.step] at hstep
      split at hstep
      · rename_i last hphase
        obtain rfl := Option.some.inj hstep
        cases ok with
        | true => exact .pure trivial
        | false =>
            unfold Safe at h
            rw [hphase] at h
            refine returns_failPoll (h.resolve_right fun hlast => ?_)
            simp only [lastTaskSucceeded, hphase, hlast] at hok
            cases hok
      · cases hstep
  | bodiesEnd =>
      simp only [Runner.step] at hstep
      split at hstep
      · obtain rfl := Option.some.inj hstep
        exact .pure (safe_of_top rfl)
      · cases hstep

/-- The loop runs safely, or was shut down. -/
def Sane : Life → Prop
  | .running r => Safe r
  | .stopped => True
  | .panicked => False

theorem sane_step {s t : Life} {l : Label} (h : Sane s) (hok : lastTaskSucceeded s l = true)
    (hstep : s.step l = some t) : Sane t := by
  cases s with
  | running r =>
      by_cases hshutdown : l = .shutdown
      · subst hshutdown
        simp only [Life.step] at hstep
        split at hstep
        · obtain rfl := Option.some.inj hstep
          trivial
        · cases hstep
      · have hrun : (r.step l).map Life.of = some t := by
          cases l <;> first | exact hstep | exact absurd rfl hshutdown
        obtain ⟨x, hx, rfl⟩ := Option.map_eq_some_iff.mp hrun
        obtain ⟨r', rfl, hsafe⟩ := safe_step h hok hx
        exact hsafe
  | stopped => cases l <;> cases hstep
  | panicked => cases l <;> cases hstep

/-- **The loop does not panic**, in every run in which `FullSync` fails only if the last
foreground task it let in had succeeded. -/
theorem loop_never_panics {now : Time} {s : Life}
    (h : Run Life.step (fun s l => lastTaskSucceeded s l = true) (.running (.fresh now)) s) :
    s ≠ .panicked := by
  have hfresh : Safe (Runner.fresh now) := safe_of_top rfl
  have hsane : Sane s := Run.invariant (fun _ _ _ => sane_step) h hfresh
  intro hpanicked
  rw [hpanicked] at hsane
  exact hsane

/-! ### A poll that fails -/

private def goodTask : TaskLuck := ⟨true, .connected ⟨true, true⟩, true⟩

private def failingTask : TaskLuck := ⟨true, .connected ⟨true, true⟩, false⟩

private def pollWith (t : TaskLuck) : List Label :=
  [.enter true true true, .poll true true (.connected ⟨true, true⟩), .slotTaken, .boundary t,
    .foldersEnd false]

theorem loop_never_panics_failing : ∃ s,
    exec Life.step lastTaskSucceeded (.running (.fresh 5)) (pollWith goodTask) = some s ∧
      s ≠ .panicked := by
  have hview : (exec Life.step lastTaskSucceeded (.running (.fresh 5))
      (pollWith goodTask)).isSome = true := rfl
  obtain ⟨s, hs⟩ := Option.isSome_iff_exists.mp hview
  exact ⟨s, hs, loop_never_panics (Run.ofExec _ hs)⟩

/-- **A poll and a foreground task that fail together end the program.** -/
theorem failing_poll_panics : ¬ ∀ (now : Time) (s : Life),
    Run Life.step (fun _ _ => true = true) (.running (.fresh now)) s → s ≠ .panicked := by
  intro h
  have hview : exec Life.step (fun _ _ => true) (.running (.fresh 5)) (pollWith failingTask)
      = some .panicked := rfl
  exact h 5 .panicked (Run.ofExec _ hview) rfl

end FlyMail.Sync.Loop
