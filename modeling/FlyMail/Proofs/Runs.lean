/-
What the record of the rules keeps from happening again.

All that the rules ask of the record is whether a rule was applied to a mail with some key.  A
rule that applied is recorded under the key of the mail, so when the same mails come in again,
nothing applies: a rule either was applied or, as before, does not apply, and where the rules
stopped they stop again.  This holds as long as the clean-up of the record spares what is
recorded of these mails.
-/
import FlyMail.Proofs.Rules

namespace FlyMail.Rules

/-! ### The record -/

namespace RunLog

variable {l : RunLog} {r : RuleRun} {key : Nat × Text × Nat} {t : Time}

/-- The record has an entry of this time under the key. -/
def Has (l : RunLog) (key : Nat × Text × Nat) (t : Time) : Prop :=
  ∃ r ∈ l.rows, r.key = key ∧ r.createdAt = t

theorem ran_iff {accountID : Nat} {k : Text} {id : Nat} :
    l.ran accountID k id = true ↔ ∃ t, l.Has (accountID, k, id) t := by
  simp only [ran, List.any_eq_true, beq_iff_eq, Has]
  constructor
  · rintro ⟨r, hr, hkey⟩
    exact ⟨_, r, hr, hkey, rfl⟩
  · rintro ⟨_, r, hr, hkey, -⟩
    exact ⟨r, hr, hkey⟩

/-- A run is recorded unless its key is there. -/
theorem has_record : (l.record r).Has key t ↔
    l.Has key t ∨ (r.key = key ∧ r.createdAt = t ∧ ∀ t', ¬ l.Has key t') := by
  unfold record
  split
  · rename_i hnew
    constructor
    · rintro ⟨a, ha, hkey, ht⟩
      rcases List.mem_append.mp ha with ha | ha
      · exact Or.inl ⟨a, ha, hkey, ht⟩
      · rw [List.mem_singleton.mp ha] at hkey ht
        refine Or.inr ⟨hkey, ht, fun t' ⟨b, hb, hb', _⟩ => hnew b hb (hb'.trans hkey.symm)⟩
    · rintro (⟨a, ha, hkey, ht⟩ | ⟨hkey, ht, -⟩)
      · exact ⟨a, List.mem_append_left _ ha, hkey, ht⟩
      · exact ⟨r, List.mem_append_right _ List.mem_cons_self, hkey, ht⟩
  · rename_i hold
    refine ⟨Or.inl, fun h => h.elim id fun ⟨hkey, _, hnone⟩ => ?_⟩
    exact absurd (fun a ha heq => hnone _ ⟨a, ha, heq.trans hkey, rfl⟩) hold

/-- Runs of one time are recorded unless their keys are there. -/
theorem has_recordRuns {runs : List RuleRun} {now : Time} (hnow : ∀ r ∈ runs, r.createdAt = now) :
    (l.recordRuns runs).Has key t ↔
      l.Has key t ∨ (t = now ∧ key ∈ runs.map RuleRun.key ∧ ∀ t', ¬ l.Has key t') := by
  unfold recordRuns
  induction runs generalizing l with
  | nil => simp
  | cons r rest ih =>
      have hr := hnow r List.mem_cons_self
      rw [List.foldl_cons, ih fun r' hr' => hnow r' (List.mem_cons_of_mem _ hr')]
      simp only [has_record, List.map_cons, List.mem_cons, hr]
      by_cases hnone : ∀ t', ¬ l.Has key t'
      · by_cases hkey : r.key = key
        · simp [hkey, hnone, eq_comm]
        · simp [hkey, Ne.symm hkey, hnone]
      · simp only [hnone, and_false, or_false]

/-- The clean-up removes what is older. -/
theorem has_pruneRuns {before : Time} :
    (l.pruneRuns before).Has key t ↔ l.Has key t ∧ before ≤ t := by
  constructor
  · rintro ⟨r, hr, hkey, ht⟩
    obtain ⟨hmem, hage⟩ := List.mem_filter.mp hr
    subst ht
    exact ⟨⟨r, hmem, hkey, rfl⟩, by simpa using hage⟩
  · rintro ⟨⟨r, hr, hkey, ht⟩, hage⟩
    refine ⟨r, List.mem_filter.mpr ⟨hr, ?_⟩, hkey, ht⟩
    simpa [ht] using hage

end RunLog

/-! ### What a plan records -/

/-- What is recorded of a mail, by rule. -/
def Work.logs (lib : Lib) (w : Work) (m : Mail) : List Nat :=
  if (w.blocked lib m).isSome then if w.done m 0 then [] else [0]
  else (w.fired lib m).map fun c => c.rule.id

/-- The keys of the runs of a mail. -/
def Work.keys (lib : Lib) (w : Work) (m : Mail) : List (Nat × Text × Nat) :=
  (w.logs lib m).map fun id => (w.accountID, messageKey m.row, id)

section Plan

variable {env : Env} {w : Work} {c : Compiled} {m : Message} {f : Folder} {p : Plan}

theorem collectActions_runs (actions : List Action) :
    (collectActions env c m f p actions).1.runs = p.runs := by
  induction actions generalizing p with
  | nil => rfl
  | cons a rest ih =>
      refine ih.trans ?_
      unfold collectAction
      repeat' split
      all_goals rfl

theorem runs_collects (accountID : Nat) (rules : List Compiled) :
    (rules.foldl (collect env accountID m f) p).runs.map (fun r => (r.key, r.createdAt))
      = p.runs.map (fun r => (r.key, r.createdAt))
        ++ rules.map fun c => ((accountID, messageKey m, c.rule.id), env.now) := by
  induction rules generalizing p with
  | nil => simp
  | cons c rest ih =>
      rw [List.foldl_cons, ih]
      simp [collect, collectActions_runs, RuleRun.key]

theorem runs_visit (acc : Plan × List Nat) (m : Mail) :
    (visit env w acc m).1.runs.map (fun r => (r.key, r.createdAt))
      = acc.1.runs.map (fun r => (r.key, r.createdAt))
        ++ (w.keys env.lib m).map fun key => (key, env.now) := by
  unfold visit Work.keys Work.logs
  cases w.blocked env.lib m with
  | some pat =>
      cases hdone : w.done m 0 with
      | true => simp
      | false => simp [RuleRun.key]
  | none =>
      rw [runs_collects]
      simp [Function.comp_def]

/-- **What is recorded**: the rules that apply, under the keys of the mails. -/
theorem runs_planned (msgs : List Mail) :
    (planned env w msgs).1.runs.map (fun r => (r.key, r.createdAt))
      = (msgs.flatMap (w.keys env.lib)).map fun key => (key, env.now) := by
  have hfold : ∀ acc : Plan × List Nat,
      (msgs.foldl (visit env w) acc).1.runs.map (fun r => (r.key, r.createdAt))
        = acc.1.runs.map (fun r => (r.key, r.createdAt))
          ++ (msgs.flatMap (w.keys env.lib)).map fun key => (key, env.now) := by
    induction msgs with
    | nil => simp
    | cons m rest ih =>
        intro acc
        rw [List.foldl_cons, ih, runs_visit, List.flatMap_cons, List.map_append, List.append_assoc]
  exact hfold (.empty, [])

/-- Mails of which nothing is recorded leave the plan as it is. -/
theorem visit_silent (acc : Plan × List Nat) {m : Mail} (h : w.logs env.lib m = []) :
    visit env w acc m = acc := by
  unfold Work.logs at h
  unfold visit
  cases hblocked : w.blocked env.lib m with
  | some pat =>
      rw [hblocked, Option.isSome_some, if_pos rfl] at h
      cases hdone : w.done m 0 with
      | true => rfl
      | false =>
          rw [hdone] at h
          cases h
  | none =>
      rw [hblocked] at h
      rw [List.map_eq_nil_iff.mp h]
      rfl

theorem planned_silent {msgs : List Mail} (h : ∀ m ∈ msgs, w.logs env.lib m = []) :
    planned env w msgs = (.empty, []) := by
  unfold planned
  induction msgs with
  | nil => rfl
  | cons m rest ih =>
      rw [List.foldl_cons, visit_silent _ (h m List.mem_cons_self)]
      exact ih fun m' hm' => h m' (List.mem_cons_of_mem _ hm')

end Plan

/-! ### Once more -/

section Again

variable {lib : Lib} {w w' : Work} {m : Mail}

/-- Where every rule that applied is known to have applied, none applies. -/
theorem fire_again {done done' : Nat → Bool} {v : MessageView} {compiled : List Compiled}
    (hdone : ∀ id, done id = true → done' id = true)
    (hfired : ∀ c ∈ fire lib done v compiled, done' c.rule.id = true) :
    fire lib done' v compiled = [] := by
  induction compiled with
  | nil => rfl
  | cons c rest ih =>
      unfold fire at hfired ⊢
      cases hc : done c.rule.id with
      | true =>
          rw [hc, if_pos rfl] at hfired
          rw [hdone _ hc, if_pos rfl]
          cases hstop : c.rule.stopProcessing with
          | true => rfl
          | false =>
              rw [hstop] at hfired
              exact ih hfired
      | false =>
          rw [hc] at hfired
          cases hhit : (evaluate lib c v).1 with
          | false =>
              rw [hhit] at hfired
              have hnone := ih hfired
              cases done' c.rule.id <;> cases c.rule.stopProcessing <;> simp [hnone]
          | true =>
              rw [hhit] at hfired
              cases hstop : c.rule.stopProcessing with
              | true =>
                  rw [hstop] at hfired
                  rw [hfired c (by simp)]
                  rfl
              | false =>
                  rw [hstop] at hfired
                  rw [hfired c (by simp), if_pos rfl]
                  exact ih fun c' hc' => hfired c' (List.mem_cons_of_mem _ hc')

/-- The same mail, the same rules, and a record that has at least what was recorded of it. -/
theorem logs_again (hfolder : w'.accountID = w.accountID ∧ w'.patterns = w.patterns ∧
      w'.compiled = w.compiled)
    (hdone : ∀ id, w.done m id = true → w'.done m id = true)
    (hlogs : ∀ id ∈ w.logs lib m, w'.done m id = true) : w'.logs lib m = [] := by
  obtain ⟨-, hpatterns, hcompiled⟩ := hfolder
  have hblocked : w'.blocked lib m = w.blocked lib m := by
    unfold Work.blocked
    rw [hpatterns]
  have hview : w'.view m = w.view m := by
    unfold Work.view
    rw [hcompiled]
  unfold Work.logs at hlogs ⊢
  rw [hblocked]
  cases hsome : (w.blocked lib m).isSome with
  | true =>
      rw [hsome, if_pos rfl] at hlogs
      have hzero : w'.done m 0 = true := by
        cases h0 : w.done m 0 with
        | true => exact hdone 0 h0
        | false =>
            rw [h0] at hlogs
            exact hlogs 0 List.mem_cons_self
      rw [hzero]
      rfl
  | false =>
      rw [hsome] at hlogs
      have hnone : w'.fired lib m = [] := by
        unfold Work.fired
        rw [hview, hcompiled]
        exact fire_again hdone fun c hc => hlogs _ (List.mem_map_of_mem hc)
      rw [hnone]
      rfl

end Again

section Apply

variable {env env' : Env} {s : State} {accountID : Nat} {f : Folder} {msgs : List Mail}

/-- The state once these runs are recorded. -/
def recorded (env : Env) (s : State) (runs : List RuleRun) : State :=
  maybePrune env { s with runs := if env.faults.recordRuns then s.runs else s.runs.recordRuns runs }

/-- Nothing is to be done, or the rules cannot be read, or they are applied. -/
theorem apply_cases (env : Env) (s : State) (accountID : Nat) (f : Folder) (msgs : List Mail) :
    (apply env s accountID f msgs = (.idle, s) ∧
      (msgs = [] ∨ (s.blocks = [] ∧ listEnabledFor s.rules accountID = []))) ∨
    (apply env s accountID f msgs = (.error, s) ∧ msgs ≠ []) ∨
    (msgs ≠ [] ∧ ¬ (s.blocks = [] ∧ listEnabledFor s.rules accountID = []) ∧
      ∃ changed calls, apply env s accountID f msgs =
        (⟨false, changed, calls, notices env accountID (planned env (work env s accountID f) msgs).1,
          (planned env (work env s accountID f) msgs).1.runs⟩,
          recorded env s (planned env (work env s accountID f) msgs).1.runs) ∧
        calls = (if (planned env (work env s accountID f) msgs).2 = [] then []
          else applyBlock env (env.order.apply (uniq (planned env (work env s accountID f) msgs).2)))
            ++ execute (planned env (work env s accountID f) msgs).1) := by
  unfold apply
  cases msgs with
  | nil => exact Or.inl ⟨rfl, Or.inl rfl⟩
  | cons m rest =>
      rw [List.isEmpty_cons]
      simp only [Bool.false_eq_true, if_false]
      split
      · exact Or.inr (Or.inl ⟨rfl, List.cons_ne_nil _ _⟩)
      split
      · rename_i hnothing
        exact Or.inl ⟨rfl, Or.inr hnothing⟩
      split
      · exact Or.inr (Or.inl ⟨rfl, List.cons_ne_nil _ _⟩)
      · rename_i hsome _
        exact Or.inr (Or.inr ⟨List.cons_ne_nil _ _, hsome, _, _, rfl, rfl⟩)

/-- An entry of this time goes with the clean-up. -/
def Forgotten (env : Env) (s : State) (t : Time) : Prop :=
  ¬ env.now < s.lastPrune + day ∧ env.faults.pruneRuns = false ∧ t < env.now - runRetention

theorem has_maybePrune (key : Nat × Text × Nat) (t : Time) :
    (maybePrune env s).runs.Has key t ↔ s.runs.Has key t ∧ ¬ Forgotten env s t := by
  unfold maybePrune Forgotten
  split
  · rename_i hnot
    simp [hnot]
  · rename_i hdue
    cases env.faults.pruneRuns with
    | true => simp
    | false =>
        show (s.runs.pruneRuns _).Has key t ↔ _
        rw [RunLog.has_pruneRuns]
        simp [hdue]

theorem maybePrune_rules : (maybePrune env s).rules = s.rules ∧ (maybePrune env s).blocks = s.blocks := by
  unfold maybePrune
  split
  · exact ⟨rfl, rfl⟩
  · exact ⟨rfl, rfl⟩

/-- The runs of a plan are of the time it was made, under the keys of its mails. -/
theorem runs_of_planned (env : Env) (w : Work) (msgs : List Mail) :
    (∀ r ∈ (planned env w msgs).1.runs, r.createdAt = env.now) ∧
      (planned env w msgs).1.runs.map RuleRun.key = msgs.flatMap (w.keys env.lib) := by
  have hruns : (planned env w msgs).1.runs.map (fun r => (r.key, r.createdAt))
      = (msgs.flatMap (w.keys env.lib)).map fun key => (key, env.now) := runs_planned msgs
  constructor
  · intro r hr
    have hmem : (r.key, r.createdAt) ∈ (msgs.flatMap (w.keys env.lib)).map fun key => (key, env.now) :=
      hruns ▸ List.mem_map_of_mem hr
    obtain ⟨key, -, heq⟩ := List.mem_map.mp hmem
    exact (Prod.mk.inj heq).2.symm
  · have hkeys := congrArg (List.map Prod.fst) hruns
    simpa [Function.comp_def] using hkeys

/-- What the record has once the rules are applied. -/
theorem has_recorded (env : Env) (s : State) (w : Work) (msgs : List Mail) (key : Nat × Text × Nat) (t : Time) :
    (recorded env s (planned env w msgs).1.runs).runs.Has key t ↔
      (s.runs.Has key t ∧ ¬ Forgotten env s t) ∨
        (env.faults.recordRuns = false ∧ t = env.now ∧ key ∈ msgs.flatMap (w.keys env.lib) ∧
          ∀ t', ¬ s.runs.Has key t') := by
  obtain ⟨hnow, hkeys⟩ := runs_of_planned env w msgs
  have hfresh : ¬ Forgotten env s env.now := fun h =>
    absurd h.2.2 (Nat.not_lt.mpr (Nat.sub_le _ _))
  have hsame : ∀ runs, Forgotten env { s with runs := runs } t ↔ Forgotten env s t := fun _ => Iff.rfl
  unfold recorded
  rw [has_maybePrune, hsame]
  cases hrecord : env.faults.recordRuns with
  | true => simp
  | false =>
      simp only [Bool.false_eq_true, if_false, true_and]
      rw [RunLog.has_recordRuns hnow, hkeys]
      constructor
      · rintro ⟨hhas | hnew, hnot⟩
        · exact Or.inl ⟨hhas, hnot⟩
        · exact Or.inr hnew
      · rintro (⟨hhas, hnot⟩ | hnew)
        · exact ⟨Or.inl hhas, hnot⟩
        · exact ⟨Or.inr hnew, hnew.1 ▸ hfresh⟩

/-- The clean-up spares what is recorded of these mails. -/
def Spares (env : Env) (s : State) (accountID : Nat) (msgs : List Mail) : Prop :=
  ∀ m ∈ msgs, ∀ id t, s.runs.Has (accountID, messageKey m.row, id) t → ¬ Forgotten env s t

/-- **The rules act once**: applied once more to the same mails, they ask for nothing, give no
notice and record nothing. -/
theorem acts_once (hlib : env'.lib = env.lib)
    (hok : (apply env s accountID f msgs).1.failed = false)
    (hrecord : env.faults.recordRuns = false) (hspares : Spares env s accountID msgs) :
    (apply env' (apply env s accountID f msgs).2 accountID f msgs).1.calls = [] ∧
      (apply env' (apply env s accountID f msgs).2 accountID f msgs).1.notices = [] ∧
      (apply env' (apply env s accountID f msgs).2 accountID f msgs).1.runs = [] := by
  rcases apply_cases env s accountID f msgs with ⟨hidle, hnothing⟩ | ⟨herror, -⟩ | hdone
  · rw [hidle]
    rcases apply_cases env' s accountID f msgs with ⟨hagain, -⟩ | ⟨hagain, -⟩ | ⟨hmsgs, hsome, -⟩
    · rw [hagain]
      exact ⟨rfl, rfl, rfl⟩
    · rw [hagain]
      exact ⟨rfl, rfl, rfl⟩
    · exact absurd hnothing (not_or.mpr ⟨hmsgs, hsome⟩)
  · rw [herror] at hok
    cases hok
  · obtain ⟨-, -, changed, calls, happly, -⟩ := hdone
    rw [happly]
    generalize ht : recorded env s (planned env (work env s accountID f) msgs).1.runs = t
    rcases apply_cases env' t accountID f msgs with ⟨hagain, -⟩ | ⟨hagain, -⟩ | hagain
    · rw [hagain]
      exact ⟨rfl, rfl, rfl⟩
    · rw [hagain]
      exact ⟨rfl, rfl, rfl⟩
    · obtain ⟨-, -, changed', calls', hagain, hcalls⟩ := hagain
      have hrules : t.rules = s.rules ∧ t.blocks = s.blocks := ht ▸ maybePrune_rules
      have hhas := fun key t' => ht ▸ has_recorded env s (work env s accountID f) msgs key t'
      have hknown : ∀ m ∈ msgs, ∀ id, (work env s accountID f).done m id = true →
          (work env' t accountID f).done m id = true := by
        intro m hm id hid
        obtain ⟨t', hold⟩ := RunLog.ran_iff.mp hid
        exact RunLog.ran_iff.mpr ⟨t', (hhas _ _).mpr (Or.inl ⟨hold, hspares m hm id t' hold⟩)⟩
      have hsilent : planned env' (work env' t accountID f) msgs = (.empty, []) := by
        refine planned_silent fun m hm => ?_
        rw [hlib]
        refine logs_again (w := work env s accountID f) ⟨rfl, hrules.2, ?_⟩ (hknown m hm) fun id hid => ?_
        · show compileAll env'.lib (listEnabledFor t.rules accountID)
            = compileAll env.lib (listEnabledFor s.rules accountID)
          rw [hlib, hrules.1]
        · by_cases hold : (work env s accountID f).done m id = true
          · exact hknown m hm id hold
          · have hnew : ∀ t', ¬ s.runs.Has (accountID, messageKey m.row, id) t' :=
              fun t' ht' => hold (RunLog.ran_iff.mpr ⟨t', ht'⟩)
            exact RunLog.ran_iff.mpr ⟨env.now, (hhas _ _).mpr (Or.inr
              ⟨hrecord, rfl, List.mem_flatMap.mpr ⟨m, hm, List.mem_map_of_mem hid⟩, hnew⟩)⟩
      have hempty : env'.order.apply [] = [] := (env'.order.perm []).eq_nil
      have hnotices : notices env' accountID .empty = [] := by
        unfold notices
        rw [show uniq (Plan.empty.notify.map Prod.fst) = [] from rfl, hempty]
        rfl
      rw [hagain, hcalls, hsilent]
      exact ⟨rfl, hnotices, rfl⟩

/-- An entry of half a year ago, and a clean-up that is due. -/
private def longAgo : State :=
  { office with
    runs := RunLog.empty.record ⟨1, "a@b.example".toList, 1, "rule".toList, "mark_read".toList,
      1000000000 - runRetention - 1⟩
    lastPrune := 0 }

/-- A mail to which both rules apply comes in twice. -/
theorem acts_once_office :
    (apply oneOffice office 1 theInbox [mailFrom 7 "a@b.example"]).1.calls.length = 3 ∧
      (apply oneOffice (apply oneOffice office 1 theInbox [mailFrom 7 "a@b.example"]).2 1 theInbox
        [mailFrom 7 "a@b.example"]).1.calls = [] :=
  ⟨by decide, (acts_once rfl (by decide) rfl fun _ _ _ _ _ h => h.1 (by decide)).1⟩

/-- **Once in half a year**: what was recorded long ago is cleaned up behind the first
application, and the second applies the rule again. -/
theorem acts_again : (apply oneOffice longAgo 1 theInbox [mailFrom 7 "a@b.example"]).1.failed = false ∧
    oneOffice.faults.recordRuns = false ∧
      (apply oneOffice (apply oneOffice longAgo 1 theInbox [mailFrom 7 "a@b.example"]).2 1 theInbox
        [mailFrom 7 "a@b.example"]).1.calls = [.setRead [7] true] := by
  decide

end Apply

end FlyMail.Rules
