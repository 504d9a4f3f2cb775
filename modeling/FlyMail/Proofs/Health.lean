/-
When a recovery that is announced is one.

The breaker forgets that it was open in two ways, by a success and by the mere end of its
cool-down, and the watcher cannot tell them apart.  Only the first sets `openUntil` back, so
what carries the proof is that a breaker without `openUntil` has succeeded since the account
was last announced as failing.  If no round of the watcher meets an account at fault whose
cool-down has run out, then an announced recovery has a success behind it; a dead server is
announced as recovered ten minutes after the fifth failure.
-/
import FlyMail.Sync.Health

namespace FlyMail.Sync.Health

open Loop (Breaker)

variable {id : Nat}

/-- The account is announced as failing. -/
def Entry.saysFailing (id : Nat) : Entry → Prop
  | .alert a => a.event = .syncFailed ∧ a.accountID = id
  | .success _ => False

/-- The account is announced as recovered. -/
def Entry.saysRecovered (id : Nat) : Entry → Prop
  | .alert a => a.event = .accountStatus ∧ a.accountID = id
  | .success _ => False

/-- Between the announcement that an account fails and the one that it has recovered there is
a success. -/
def Honest (id : Nat) (log : List Entry) : Prop :=
  ∀ pre mid post f r, log = pre ++ f :: mid ++ r :: post → f.saysFailing id →
    r.saysRecovered id → .success id ∈ mid

/-- Every announcement that the account fails is followed by a success. -/
def Answered (id : Nat) (log : List Entry) : Prop :=
  ∀ pre post f, log = pre ++ f :: post → f.saysFailing id → .success id ∈ post

/-! ### The log -/

section Log

variable {log : List Entry} {e : Entry}

theorem answered_nil : Answered id [] := by
  intro pre post f h
  simp at h

theorem honest_nil : Honest id [] := by
  intro pre mid post f r h
  simp at h

/-- Where an element of a list that has grown by one stands. -/
theorem concat_split {pre post : List Entry} {f : Entry} (h : log ++ [e] = pre ++ f :: post) :
    (post = [] ∧ f = e) ∨ ∃ rest, post = rest ++ [e] ∧ log = pre ++ f :: rest := by
  rcases List.eq_nil_or_concat post with hnil | ⟨rest, a, hpost⟩
  · rw [hnil] at h
    have hlast := congrArg List.getLast? h
    simp only [List.getLast?_concat, Option.some.injEq] at hlast
    exact Or.inl ⟨hnil, hlast.symm⟩
  · have hwhole : log ++ [e] = (pre ++ f :: rest) ++ [a] := by
      rw [h, hpost, List.concat_eq_append, List.append_assoc, List.cons_append]
    obtain ⟨hlog, ha⟩ := List.append_inj' hwhole rfl
    rw [List.cons.injEq] at ha
    exact Or.inr ⟨rest, by rw [hpost, ha.1, List.concat_eq_append], hlog⟩

theorem Answered.concat (h : Answered id log) (he : ¬ e.saysFailing id) :
    Answered id (log ++ [e]) := by
  intro pre post f heq hf
  rcases concat_split heq with ⟨-, rfl⟩ | ⟨rest, rfl, hlog⟩
  · exact absurd hf he
  · exact List.mem_append_left _ (h pre rest f hlog hf)

theorem answered_success (log : List Entry) : Answered id (log ++ [.success id]) := by
  intro pre post f heq hf
  rcases concat_split heq with ⟨-, rfl⟩ | ⟨rest, rfl, -⟩
  · exact hf.elim
  · exact List.mem_append_right _ (List.mem_singleton.mpr rfl)

theorem Honest.concat (h : Honest id log) (he : e.saysRecovered id → Answered id log) :
    Honest id (log ++ [e]) := by
  intro pre mid post f r heq hf hr
  have hsplit : log ++ [e] = (pre ++ f :: mid) ++ r :: post := heq
  rcases concat_split hsplit with ⟨rfl, rfl⟩ | ⟨rest, rfl, hlog⟩
  · obtain ⟨hlog, -⟩ := List.append_inj' heq rfl
    exact he hr pre mid f hlog hf
  · exact h pre mid rest f r hlog hf hr

end Log

/-! ### One round -/

section Round

variable {byStat : Nat → Option RunnerStat} {now : Time} {b : AccountBrief} {faults : Faults}
  {log : List Entry}

/-- The account is enabled and need not be authorised again. -/
def AccountBrief.well (id : Nat) (b : AccountBrief) : Bool :=
  b.id != id || (b.enabled && b.status != .needsReauth)

/-- **What the watcher does about one account**: nothing, or announce a recovery that was
missing, or announce a fault. -/
theorem check_cases (byStat : Nat → Option RunnerStat) (now : Time) (b : AccountBrief)
    (faults : Faults) :
    (check byStat now b faults).2 = [] ∨
      (faultKind b (byStat b.id) = none ∧ (faults b.id).isSome ∧
        (check byStat now b faults).2 = [recovered b]) ∨
      ∃ a, faultKind b (byStat b.id) ≠ none ∧ (check byStat now b faults).2 = [a] ∧
        a.event = .syncFailed ∧ a.accountID = b.id := by
  unfold check
  split
  · exact Or.inl rfl
  · split
    · exact Or.inl rfl
    · rename_i f hkind hfault
      exact Or.inr (Or.inl ⟨hkind, by simp [hfault], rfl⟩)
    · rename_i kind f hkind hfault
      split
      · exact Or.inr (Or.inr ⟨_, by simp [hkind], rfl, rfl, rfl⟩)
      · exact Or.inl rfl
    · rename_i kind hkind hfault
      split
      · exact Or.inr (Or.inr ⟨_, by simp [hkind], rfl, rfl, rfl⟩)
      · exact Or.inl rfl

/-- An account that is not at fault is not written down as such. -/
theorem check_faults (hkind : b.id = id → faultKind b (byStat b.id) = none)
    (h : ((check byStat now b faults).1 id).isSome) : (faults id).isSome := by
  unfold check at h
  split at h
  · change (if id = b.id then none else faults id).isSome = true at h
    split at h
    · simp at h
    · exact h
  · split at h
    · exact h
    · change (if id = b.id then none else faults id).isSome = true at h
      split at h
      · simp at h
      · exact h
    · rename_i kind f hsome hfault
      by_cases hid : id = b.id
      · rw [hkind hid.symm] at hsome
        cases hsome
      · split at h
        · simpa [Faults.set, hid] using h
        · exact h
    · rename_i kind hsome hfault
      by_cases hid : id = b.id
      · rw [hkind hid.symm] at hsome
        cases hsome
      · simpa [Faults.set, hid] using h

/-- A round that finds the account at fault. -/
theorem honest_of_fault {briefs : List AccountBrief}
    (hkind : ∀ b ∈ briefs, b.id = id → faultKind b (byStat b.id) ≠ none) (h : Honest id log) :
    Honest id (log ++ (runOnce byStat now briefs faults).2.map .alert) := by
  induction briefs generalizing faults log with
  | nil => simpa [runOnce] using h
  | cons b rest ih =>
      have hrest := fun b' hb' => hkind b' (List.mem_cons_of_mem b hb')
      have hlog : Honest id (log ++ (check byStat now b faults).2.map .alert) := by
        rcases check_cases byStat now b faults with hnil | ⟨hnone, -, hone⟩ | ⟨a, -, hone, hevent, -⟩
        · simpa [hnil] using h
        · rw [hone]
          refine h.concat fun hr => ?_
          exact absurd hnone (hkind b List.mem_cons_self hr.2)
        · rw [hone]
          refine h.concat fun hr => ?_
          rw [hr.1] at hevent
          cases hevent
      have hwhole : Honest id _ := @ih (check byStat now b faults).1 _ hrest hlog
      unfold runOnce
      simpa using hwhole

/-- A round that finds the account not at fault. -/
theorem kept_of_well {briefs : List AccountBrief}
    (hkind : ∀ b ∈ briefs, b.id = id → faultKind b (byStat b.id) = none)
    (hfault : (faults id).isSome → Answered id log) (h : Honest id log) :
    Honest id (log ++ (runOnce byStat now briefs faults).2.map .alert) ∧
      (Answered id log → Answered id (log ++ (runOnce byStat now briefs faults).2.map .alert)) := by
  induction briefs generalizing faults log with
  | nil => simpa [runOnce] using h
  | cons b rest ih =>
      have hrest := fun b' hb' => hkind b' (List.mem_cons_of_mem b hb')
      have hlog : Honest id (log ++ (check byStat now b faults).2.map .alert) ∧
          (Answered id log → Answered id (log ++ (check byStat now b faults).2.map .alert)) := by
        rcases check_cases byStat now b faults with hnil | ⟨-, hsome, hone⟩ | ⟨a, hsome, hone, -, haccount⟩
        · simpa [hnil] using h
        · rw [hone]
          refine ⟨h.concat fun hr => hfault ?_, fun ha => ha.concat fun hf => ?_⟩
          · rw [← hr.2]
            exact hsome
          · cases hf.1
        · rw [hone]
          have hother : b.id ≠ id := fun hid => hsome (hkind b List.mem_cons_self hid)
          refine ⟨h.concat fun hr => ?_, fun ha => ha.concat fun hf => ?_⟩
          · exact absurd (haccount.symm.trans hr.2) hother
          · exact absurd (haccount.symm.trans hf.2) hother
      have hfault' : ((check byStat now b faults).1 id).isSome →
          Answered id (log ++ (check byStat now b faults).2.map .alert) := by
        intro hsome
        exact hlog.2 (hfault (check_faults (hkind b List.mem_cons_self) hsome))
      obtain ⟨hhonest, hanswered⟩ := ih hrest hfault' hlog.1
      unfold runOnce
      exact ⟨by simpa using hhonest, fun ha => by simpa using hanswered (hlog.2 ha)⟩

end Round

/-! ### Runs -/

/-- The cool-down is over, and nothing else has closed the breaker. -/
def ranOut (br : Breaker) (now : Time) : Bool := br.openUntil != 0 && decide (br.openUntil < now)

/-- The account stays enabled and need not be authorised again, and a round of the watcher
does not find it at fault with a cool-down that has run out. -/
def fair (id : Nat) (w : World) : Act → Bool
  | .runOnce (some briefs) _ =>
      briefs.all (AccountBrief.well id) &&
        ((w.faults id).isNone || !((w.breakers id).map fun br => ranOut br w.now).getD false)
  | _ => true

theorem well_of_fair {w : World} {briefs : List AccountBrief} {lastError : Nat → Text}
    (h : fair id w (.runOnce (some briefs) lastError) = true) :
    ∀ b ∈ briefs, b.id = id → b.status ≠ .needsReauth := by
  intro b hb hid
  have hwell := List.all_eq_true.mp (Bool.and_eq_true_iff.mp h).1 b hb
  simp [AccountBrief.well, hid] at hwell
  exact hwell.2

theorem not_ranOut_of_fair {w : World} {briefs : List AccountBrief} {lastError : Nat → Text}
    (h : fair id w (.runOnce (some briefs) lastError) = true) {br : Breaker}
    (hbr : w.breakers id = some br) (hfault : (w.faults id).isSome) : ranOut br w.now = false := by
  have hrest := (Bool.and_eq_true_iff.mp h).2
  obtain ⟨f, hf⟩ := Option.isSome_iff_exists.mp hfault
  simpa [hbr, hf] using hrest

structure Inv (id : Nat) (w : World) : Prop where
  runner : (w.breakers id).isSome
  honest : Honest id w.log
  /-- A breaker that has been set back has succeeded. -/
  answered : ∀ br, w.breakers id = some br → br.openUntil = 0 → Answered id w.log

theorem isSome_setBreaker {w : World} (h : (w.breakers id).isSome) {k : Nat} (b : Breaker) :
    ((w.setBreaker k b).breakers id).isSome := by
  unfold World.setBreaker
  dsimp only
  split
  · rfl
  · exact h

theorem breakers_setBreaker {w : World} {k : Nat} {b br : Breaker}
    (h : (w.setBreaker k b).breakers id = some br) :
    (id = k ∧ b = br) ∨ w.breakers id = some br := by
  unfold World.setBreaker at h
  dsimp only at h
  split at h
  · rename_i hid
    exact Or.inl ⟨hid, Option.some.inj h⟩
  · exact Or.inr h

theorem inv_step {w w' : World} (h : Inv id w) {a : Act} (hfair : fair id w a = true)
    (hstep : step w a = some w') : Inv id w' := by
  cases a with
  | recordFailure k =>
      obtain ⟨b, hb, rfl⟩ := Option.map_eq_some_iff.mp hstep
      refine ⟨isSome_setBreaker h.runner _, h.honest, fun br hbr hzero => ?_⟩
      rcases breakers_setBreaker hbr with ⟨rfl, rfl⟩ | hold
      · refine h.answered b hb ?_
        have hopen : w.now + Loop.breakerCooldown ≠ 0 := Nat.succ_ne_zero _
        unfold Breaker.recordFailure at hzero
        split at hzero
        · exact absurd hzero hopen
        · exact hzero
      · exact h.answered br hold hzero
  | recordSuccess k =>
      obtain ⟨b, hb, rfl⟩ := Option.map_eq_some_iff.mp hstep
      refine ⟨isSome_setBreaker h.runner _, h.honest.concat fun hr => hr.elim, fun br hbr hzero => ?_⟩
      rcases breakers_setBreaker hbr with ⟨rfl, rfl⟩ | hold
      · exact answered_success w.log
      · exact (h.answered br hold hzero).concat fun hf => hf.elim
  | allowBackground k =>
      obtain ⟨b, hb, rfl⟩ := Option.map_eq_some_iff.mp hstep
      exact h
  | pass d =>
      obtain rfl := Option.some.inj hstep
      exact ⟨h.runner, h.honest, h.answered⟩
  | runOnce briefs lastError =>
      cases briefs with
      | none =>
          obtain rfl := Option.some.inj hstep
          exact h
      | some briefs =>
          obtain rfl := Option.some.inj hstep
          obtain ⟨br, hbr⟩ := Option.isSome_iff_exists.mp h.runner
          have hkind : ∀ b ∈ briefs, b.id = id → faultKind b (w.stat lastError b.id)
              = if openLocked br w.now then some .breaker else none := by
            intro b hb hid
            unfold faultKind World.stat
            rw [if_neg (well_of_fair hfair b hb hid), hid, hbr]
            rfl
          by_cases hopen : openLocked br w.now = true
          · refine ⟨h.runner, honest_of_fault (fun b hb hid => ?_) h.honest, fun br' hbr' hzero => ?_⟩
            · rw [hkind b hb hid, if_pos hopen]
              exact fun hnone => nomatch hnone
            · obtain rfl := Option.some.inj (hbr.symm.trans hbr')
              simp [openLocked, Breaker.allowBackground, hzero] at hopen
          · have hset : (w.faults id).isSome → Answered id w.log := by
              intro hsome
              refine h.answered br hbr ?_
              have hnot := not_ranOut_of_fair hfair hbr hsome
              by_contra hne
              simp [openLocked, Breaker.allowBackground, ranOut, hne] at hopen hnot
              exact absurd hopen (Nat.not_lt.mpr hnot)
            have hwell : ∀ b ∈ briefs, b.id = id → faultKind b (w.stat lastError b.id) = none := by
              intro b hb hid
              rw [hkind b hb hid, if_neg hopen]
            obtain ⟨hhonest, hanswered⟩ := @kept_of_well id (w.stat lastError) w.now _ _ _ hwell
              hset h.honest
            exact ⟨h.runner, hhonest, fun br' hbr' hzero => hanswered (h.answered br' hbr' hzero)⟩

/-- **No recovery is announced for a dead connection**, if the watcher meets no account at
fault whose cool-down has run out. -/
theorem honest_of_run {breakers : Nat → Option Breaker} {now : Time} {w : World}
    (hrunner : (breakers id).isSome) (hrun : Run step (fun w a => fair id w a = true) (World.new breakers now) w) :
    Honest id w.log := by
  refine (hrun.invariant (fun _ _ _ h hfair hstep => inv_step h hfair hstep) ?_).honest
  exact ⟨hrunner, honest_nil, fun _ _ _ => answered_nil⟩

/-- One account, whose server has gone. -/
private def brief : AccountBrief := ⟨1, [], [], .ok, true⟩

private def closed : World := .new (fun _ => some ⟨0, 0⟩) 1

private def fiveFailures : List Act := List.replicate 5 (.recordFailure 1)

private def look : Act := .runOnce (some [brief]) fun _ => []

/-- Five failures, a round of the watcher, a success, another round. -/
theorem honest_of_run_success : ∃ w, exec step (fair 1) closed
    (fiveFailures ++ [look, .recordSuccess 1, look]) = some w ∧ w.log.length = 3 ∧
      Honest 1 w.log := by
  have hview : (exec step (fair 1) closed (fiveFailures ++ [look, .recordSuccess 1, look])).map
      (fun w => w.log.length) = some 3 := by decide
  obtain ⟨w, hw, hlength⟩ := Option.map_eq_some_iff.mp hview
  exact ⟨w, hw, hlength, honest_of_run rfl (Run.ofExec _ hw)⟩

/-- **Five failures and ten minutes**: the account is announced as recovered, and nothing has
succeeded. -/
theorem recovered_by_waiting : ∃ w, exec step (fun _ _ => true) closed
    (fiveFailures ++ [look, .pass (10 * 60 + 1), look]) = some w ∧ ¬ Honest 1 w.log := by
  have hview : (exec step (fun _ _ => true) closed
      (fiveFailures ++ [look, .pass (10 * 60 + 1), look])).map World.log
        = some [.alert (failing brief .breaker (some ⟨true, 5, []⟩)), .alert (recovered brief)] := by
    decide
  obtain ⟨w, hw, hlog⟩ := Option.map_eq_some_iff.mp hview
  refine ⟨w, hw, fun hhonest => ?_⟩
  have hnone := hhonest [] [] [] _ _ hlog ⟨rfl, rfl⟩ ⟨rfl, rfl⟩
  simp at hnone

end FlyMail.Sync.Health
