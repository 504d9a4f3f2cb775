/-
Mail that comes with the Message-ID of another.

A mail is known by its Message-ID, and it is the sender who chooses that.  So what is recorded of
one mail counts for another with the same.  Here a mail is put into a batch, and what happens
without it is compared with what happens with it, to every mail with that Message-ID and in
every later batch: nothing else happens exactly if the mail adds nothing to the record.

The rules and the block list may be others at each application.
-/
import FlyMail.Proofs.Runs

namespace FlyMail.Rules

/-! ### Applications -/

/-- What is kept from one application of the rules to the next. -/
structure Memory where
  runs : RunLog
  lastPrune : Time

structure Application where
  env : Env
  rules : List Rule
  blocks : List Text
  accountID : Nat
  folder : Folder
  msgs : List Mail

namespace Application

def on (c : Application) (x : Memory) : State := ⟨c.rules, c.blocks, x.runs, x.lastPrune⟩

def work (c : Application) (x : Memory) : Work := Rules.work c.env (c.on x) c.accountID c.folder

def run (c : Application) (x : Memory) : Outcome × Memory :=
  let out := apply c.env (c.on x) c.accountID c.folder c.msgs
  (out.1, ⟨out.2.runs, out.2.lastPrune⟩)

/-- The rules that apply to a mail, and what is done to it. -/
def reaction (c : Application) (x : Memory) (m : Mail) : List Nat × List Deed :=
  if (c.run x).1.failed then ([], [])
  else ((c.work x).logs c.env.lib m, deeds m.row.id (c.run x).1.calls)

/-- The same with other mails. -/
def for_ (c : Application) (msgs : List Mail) : Application := { c with msgs := msgs }

end Application

def runAll (x : Memory) (rest : List Application) : Memory := rest.foldl (fun x c => (c.run x).2) x

/-- Putting the mail between these changes nothing for the mails with its Message-ID. -/
structure Unmoved (c : Application) (x : Memory) (before after : List Mail) (m' : Mail) : Prop where
  /-- In the same batch. -/
  batch : ∀ m ∈ before ++ after, m.row.messageID = m'.row.messageID →
    (c.for_ (before ++ m' :: after)).reaction x m = (c.for_ (before ++ after)).reaction x m
  /-- In any later one. -/
  later : ∀ (rest : List Application) (d : Application), ∀ m ∈ d.msgs,
    m.row.messageID = m'.row.messageID →
      d.reaction (runAll ((c.for_ (before ++ m' :: after)).run x).2 rest) m
        = d.reaction (runAll ((c.for_ (before ++ after)).run x).2 rest) m
  handled : ∀ (rest : List Application) (d : Application) (m : Message),
    m.messageID = m'.row.messageID →
      handled false (d.on (runAll ((c.for_ (before ++ m' :: after)).run x).2 rest)) d.accountID [m]
        = handled false (d.on (runAll ((c.for_ (before ++ after)).run x).2 rest)) d.accountID [m]

/-- There are rules or blocked senders, and they can be read. -/
def Application.applies (c : Application) : Prop :=
  ¬ (c.env.faults.blockPatterns = true ∨ c.env.faults.listEnabledFor = true) ∧
    ¬ (c.blocks = [] ∧ listEnabledFor c.rules c.accountID = []) ∧ ¬ c.env.faults.ranRules = true

/-- The mail leaves no trace in the record. -/
structure Traceless (c : Application) (x : Memory) (others : List Mail) (m' : Mail) : Prop where
  /-- Nothing applies to it, but for what applies to a mail with the same key that came with it. -/
  logs : c.env.faults.recordRuns = false → ∀ id ∈ (c.work x).logs c.env.lib m', ∃ m ∈ others,
    messageKey m.row = messageKey m'.row ∧ id ∈ (c.work x).logs c.env.lib m
  /-- It does not bring about the clean-up. -/
  prune : others ≠ [] ∨ c.env.now < x.lastPrune + day

/-! ### Records that say the same -/

/-- The records have the same entries of the same times. -/
structure Same (x y : Memory) : Prop where
  lastPrune : x.lastPrune = y.lastPrune
  has : ∀ key t, x.runs.Has key t ↔ y.runs.Has key t

section Same

variable {x y : Memory} {c : Application}

theorem Same.refl (x : Memory) : Same x x := ⟨rfl, fun _ _ => Iff.rfl⟩

theorem Same.ran (h : Same x y) : x.runs.ran = y.runs.ran := by
  funext accountID k id
  rw [Bool.eq_iff_iff, RunLog.ran_iff, RunLog.ran_iff]
  exact exists_congr fun t => h.has _ t

theorem Same.done (h : Same x y) (m : Mail) : (c.work x).done m = (c.work y).done m :=
  congrFun (congrFun h.ran c.accountID) (messageKey m.row)

theorem Same.logs (h : Same x y) (m : Mail) :
    (c.work x).logs c.env.lib m = (c.work y).logs c.env.lib m := by
  unfold Work.logs Work.fired
  rw [h.done m]
  rfl

theorem Same.planned (h : Same x y) (msgs : List Mail) :
    planned c.env (c.work x) msgs = planned c.env (c.work y) msgs := by
  have hvisit : visit c.env (c.work x) = visit c.env (c.work y) := by
    funext acc m
    unfold visit Work.fired
    rw [h.done m]
    rfl
  unfold Rules.planned
  rw [hvisit]

/-- What is done by the plan. -/
def Application.outcome (c : Application) (acc : Plan × List Nat) : Outcome :=
  let calls := (if acc.2 = [] then [] else applyBlock c.env (c.env.order.apply (uniq acc.2)))
    ++ execute acc.1
  ⟨false, (List.range calls.length).any c.env.accepts, calls, notices c.env c.accountID acc.1, acc.1.runs⟩

/-- What is remembered of it. -/
def Application.remember (c : Application) (x : Memory) (runs : List RuleRun) : Memory :=
  ⟨(recorded c.env (c.on x) runs).runs, (recorded c.env (c.on x) runs).lastPrune⟩

theorem run_eq (c : Application) (x : Memory) :
    c.run x =
      if c.msgs.isEmpty then (.idle, x)
      else if c.env.faults.blockPatterns ∨ c.env.faults.listEnabledFor then (.error, x)
      else if c.blocks = [] ∧ listEnabledFor c.rules c.accountID = [] then (.idle, x)
      else if c.env.faults.ranRules then (.error, x)
      else (c.outcome (planned c.env (c.work x) c.msgs),
        c.remember x (planned c.env (c.work x) c.msgs).1.runs) := by
  unfold Application.run apply Application.on
  dsimp only
  by_cases hempty : c.msgs.isEmpty = true
  · rw [if_pos hempty, if_pos hempty]
  by_cases hread : c.env.faults.blockPatterns = true ∨ c.env.faults.listEnabledFor = true
  · rw [if_neg hempty, if_neg hempty, if_pos hread, if_pos hread]
  by_cases hnothing : c.blocks = [] ∧ listEnabledFor c.rules c.accountID = []
  · rw [if_neg hempty, if_neg hempty, if_neg hread, if_neg hread, if_pos hnothing, if_pos hnothing]
  by_cases hran : c.env.faults.ranRules = true
  · rw [if_neg hempty, if_neg hempty, if_neg hread, if_neg hread, if_neg hnothing, if_neg hnothing,
      if_pos hran, if_pos hran]
  · rw [if_neg hempty, if_neg hempty, if_neg hread, if_neg hread, if_neg hnothing, if_neg hnothing,
      if_neg hran, if_neg hran]
    rfl

theorem same_remember (h : Same x y) (w : Work) (msgs : List Mail) :
    Same (c.remember x (planned c.env w msgs).1.runs) (c.remember y (planned c.env w msgs).1.runs) := by
  have hforgotten : ∀ t, Forgotten c.env (c.on x) t ↔ Forgotten c.env (c.on y) t := by
    intro t
    unfold Forgotten Application.on
    rw [h.lastPrune]
  constructor
  · show (maybePrune _ _).lastPrune = (maybePrune _ _).lastPrune
    unfold maybePrune Application.on
    dsimp only
    rw [h.lastPrune]
    split <;> rfl
  · intro key t
    show (recorded _ _ _).runs.Has key t ↔ (recorded _ _ _).runs.Has key t
    rw [has_recorded, has_recorded, hforgotten]
    show (x.runs.Has key t ∧ _) ∨ (_ ∧ _ ∧ _ ∧ ∀ t', ¬ x.runs.Has key t')
      ↔ (y.runs.Has key t ∧ _) ∨ (_ ∧ _ ∧ _ ∧ ∀ t', ¬ y.runs.Has key t')
    simp only [h.has]

/-- On records that say the same an application does the same, and leaves such records. -/
theorem Same.run (h : Same x y) : (c.run x).1 = (c.run y).1 ∧ Same (c.run x).2 (c.run y).2 := by
  rw [run_eq, run_eq, h.planned]
  split
  · exact ⟨rfl, h⟩
  split
  · exact ⟨rfl, h⟩
  split
  · exact ⟨rfl, h⟩
  split
  · exact ⟨rfl, h⟩
  · exact ⟨rfl, same_remember h _ _⟩

theorem Same.runAll (h : Same x y) (rest : List Application) :
    Same (Rules.runAll x rest) (Rules.runAll y rest) := by
  unfold Rules.runAll
  induction rest generalizing x y with
  | nil => exact h
  | cons c rest ih => exact ih h.run.2

theorem Same.reaction (h : Same x y) (m : Mail) : c.reaction x m = c.reaction y m := by
  unfold Application.reaction
  rw [h.run.1, h.logs m]

theorem Same.handled (h : Same x y) (msgs : List Message) :
    handled false (c.on x) c.accountID msgs = handled false (c.on y) c.accountID msgs := by
  have hany : ∀ m : Message, (x.runs.rows.any fun r => r.accountID == c.accountID && r.messageKey == messageKey m)
      = y.runs.rows.any fun r => r.accountID == c.accountID && r.messageKey == messageKey m := by
    intro m
    have hrows : ∀ z : Memory, (z.runs.rows.any fun r => r.accountID == c.accountID && r.messageKey == messageKey m) = true
        ↔ ∃ id t, z.runs.Has (c.accountID, messageKey m, id) t := by
      intro z
      simp only [List.any_eq_true, Bool.and_eq_true, beq_iff_eq, RunLog.Has, RuleRun.key, Prod.mk.injEq]
      constructor
      · rintro ⟨r, hr, ha, hk⟩
        exact ⟨_, _, r, hr, ⟨ha, hk, rfl⟩, rfl⟩
      · rintro ⟨_, _, r, hr, ⟨ha, hk, _⟩, _⟩
        exact ⟨r, hr, ha, hk⟩
    rw [Bool.eq_iff_iff, hrows, hrows]
    exact exists_congr fun id => exists_congr fun t => h.has _ t
  unfold Rules.handled
  simp only [Bool.false_eq_true, if_false]
  exact congrArg _ (List.filter_congr fun m _ => hany m)

end Same

/-! ### A mail that leaves no trace -/

section Insert

variable {c : Application} {x : Memory} {before after msgs : List Mail} {m m' : Mail}

/-- A rule that is recorded did not apply before. -/
theorem not_done_of_logs {lib : Lib} {w : Work} {id : Nat} (h : id ∈ w.logs lib m) :
    w.done m id = false := by
  unfold Work.logs at h
  split at h
  · split at h
    · simp at h
    · rename_i hdone
      rw [List.mem_singleton.mp h]
      simpa using hdone
  · obtain ⟨r, hr, rfl⟩ := List.mem_map.mp h
    rw [fired_eq] at hr
    simpa using (List.mem_filter.mp hr).2

theorem run_for_eq (c : Application) (msgs : List Mail) (x : Memory) :
    (c.for_ msgs).run x =
      if msgs.isEmpty then (.idle, x)
      else if c.env.faults.blockPatterns ∨ c.env.faults.listEnabledFor then (.error, x)
      else if c.blocks = [] ∧ listEnabledFor c.rules c.accountID = [] then (.idle, x)
      else if c.env.faults.ranRules then (.error, x)
      else (c.outcome (planned c.env (c.work x) msgs),
        c.remember x (planned c.env (c.work x) msgs).1.runs) :=
  run_eq (c.for_ msgs) x

theorem run_nil : (c.for_ []).run x = (.idle, x) := run_for_eq c [] x

/-- Applied to some mails, the rules remember what they plan. -/
theorem run_for (h : c.applies) (hne : msgs ≠ []) :
    (c.for_ msgs).run x = (c.outcome (planned c.env (c.work x) msgs),
      c.remember x (planned c.env (c.work x) msgs).1.runs) := by
  rw [run_for_eq, if_neg (by simpa using hne), if_neg h.1, if_neg h.2.1, if_neg h.2.2]

/-- Where the rules are not applied nothing is remembered. -/
theorem run_for_idle (h : ¬ c.applies) (msgs : List Mail) : ((c.for_ msgs).run x).2 = x := by
  rw [run_for_eq]
  split
  · rfl
  split
  · rfl
  split
  · rfl
  split
  · rfl
  · exact absurd ⟨‹_›, ‹_›, ‹_›⟩ h

theorem failed_for (hne : msgs ≠ []) : ((c.for_ msgs).run x).1.failed =
    if c.env.faults.blockPatterns ∨ c.env.faults.listEnabledFor then true
    else if c.blocks = [] ∧ listEnabledFor c.rules c.accountID = [] then false
    else c.env.faults.ranRules := by
  have hempty : ¬ msgs.isEmpty = true := by simpa using hne
  rw [run_for_eq, if_neg hempty]
  split
  · rfl
  split
  · rfl
  split
  · exact Eq.symm ‹_›
  · simp_all [Application.outcome]

theorem maybePrune_early {env : Env} {s : State} (h : env.now < s.lastPrune + day) :
    maybePrune env s = s :=
  if_pos h

theorem remember_nil (h : c.env.now < x.lastPrune + day) : c.remember x [] = x := by
  have hrecorded : recorded c.env (c.on x) [] = c.on x := by
    unfold recorded
    rw [maybePrune_early h]
    cases c.env.faults.recordRuns with
    | true => rfl
    | false => rfl
  unfold Application.remember
  rw [hrecorded]
  rfl

theorem lastPrune_maybePrune (env : Env) (s : State) : (maybePrune env s).lastPrune =
    if env.now < s.lastPrune + day then s.lastPrune else env.now := by
  unfold maybePrune
  split
  · rfl
  · rfl

/-- When the record was last cleaned up, once this is remembered. -/
theorem lastPrune_remember (runs : List RuleRun) : (c.remember x runs).lastPrune =
    if c.env.now < x.lastPrune + day then x.lastPrune else c.env.now :=
  lastPrune_maybePrune c.env _

/-- A mail that leaves no trace leaves a record that says the same. -/
theorem same_of_traceless (happlies : c.applies) (h : Traceless c x (before ++ after) m') :
    Same ((c.for_ (before ++ m' :: after)).run x).2 ((c.for_ (before ++ after)).run x).2 := by
  have hwithout : ((c.for_ (before ++ after)).run x).2
      = c.remember x (planned c.env (c.work x) (before ++ after)).1.runs := by
    by_cases hnil : before ++ after = []
    · rw [hnil, run_nil]
      exact (remember_nil (h.prune.resolve_left fun hne => hne hnil)).symm
    · rw [run_for happlies hnil]
  have hkeys : c.env.faults.recordRuns = false → ∀ key,
      key ∈ (before ++ m' :: after).flatMap ((c.work x).keys c.env.lib) ↔
        key ∈ (before ++ after).flatMap ((c.work x).keys c.env.lib) := by
    intro hrecord key
    simp only [List.mem_flatMap]
    constructor
    · rintro ⟨m, hm, hkey⟩
      by_cases hown : m = m'
      · subst hown
        obtain ⟨id, hid, rfl⟩ := List.mem_map.mp hkey
        obtain ⟨other, hother, hsame, hlogs⟩ := h.logs hrecord id hid
        exact ⟨other, hother, List.mem_map.mpr ⟨id, hlogs, by rw [hsame]⟩⟩
      · exact ⟨m, by simpa [hown] using hm, hkey⟩
    · rintro ⟨m, hm, hkey⟩
      refine ⟨m, ?_, hkey⟩
      rcases List.mem_append.mp hm with hm | hm
      · exact List.mem_append_left _ hm
      · exact List.mem_append_right _ (List.mem_cons_of_mem _ hm)
  rw [hwithout, run_for happlies (by simp)]
  refine ⟨(lastPrune_remember _).trans (lastPrune_remember _).symm, fun key t => ?_⟩
  show (recorded _ _ _).runs.Has key t ↔ (recorded _ _ _).runs.Has key t
  rw [has_recorded, has_recorded]
  refine or_congr Iff.rfl (and_congr_right fun hrecord => and_congr_right fun _ => ?_)
  rw [hkeys hrecord key]

/-- What happens to a mail does not depend on what else is in the batch. -/
theorem reaction_for {msgs' : List Mail} (hm : m ∈ msgs) (hm' : m ∈ msgs')
    (hids : (msgs.map fun m => m.row.id).Nodup) (hids' : (msgs'.map fun m => m.row.id).Nodup) :
    (c.for_ msgs).reaction x m = (c.for_ msgs').reaction x m := by
  have hfailed : ((c.for_ msgs).run x).1.failed = ((c.for_ msgs').run x).1.failed :=
    (failed_for (List.ne_nil_of_mem hm)).trans (failed_for (List.ne_nil_of_mem hm')).symm
  unfold Application.reaction
  rw [hfailed]
  by_cases hok : ((c.for_ msgs').run x).1.failed = true
  · rw [if_pos hok, if_pos hok]
  · rw [if_neg hok, if_neg hok]
    have hok' := Bool.not_eq_true _ ▸ hok
    refine Prod.ext rfl ?_
    exact (deeds_apply hids hm (hfailed.trans hok')).trans (deeds_apply hids' hm' hok').symm

end Insert

/-! ### What tells records apart -/

/-- A blocked sender, or a rule that applies, under the number it is recorded by. -/
def probe (lib : Lib) (accountID : Nat) (name : Text) (id : Nat) (now : Time) : Application where
  env := { calmEnv [] keyed_nil with lib := lib, now := now }
  rules := if id = 0 then [] else [attachmentRule id [⟨actionMarkRead, []⟩]]
  blocks := if id = 0 then [lib.toLower "a@b".toList] else []
  accountID := accountID
  folder := theInbox
  msgs := [{ mailFrom 1 "a@b" with row := { (mailFrom 1 "a@b").row with messageID := name } }]

section Probe

variable {lib : Lib} {accountID : Nat} {name : Text} {id : Nat} {now : Time} {y z : Memory} {m : Mail}

theorem key_of_mem_probe (hname : name ≠ []) (hm : m ∈ (probe lib accountID name id now).msgs) :
    m.row.messageID = name ∧ messageKey m.row = name := by
  obtain rfl := List.mem_singleton.mp hm
  exact ⟨rfl, if_pos hname⟩

theorem compileAll_probe (lib : Lib) (id : Nat) : ∃ c, compileAll lib [attachmentRule id [⟨actionMarkRead, []⟩]] = [c] ∧
    c.rule.id = id ∧ c.rule.stopProcessing = false ∧
    c.rule.match_ = matchAll ∧ c.conditions = [(⟨fieldHasAttachment, opEquals, "true".toList⟩, none)] :=
  ⟨_, rfl, rfl, rfl, rfl, rfl⟩

theorem blocked_probe (lib : Lib) : blocked lib "a@b".toList [lib.toLower "a@b".toList] =
    some (lib.toLower "a@b".toList) := by
  have hat : '@' ∈ lib.toLower "a@b".toList :=
    List.mem_map.mpr ⟨'@', by decide, lib.lower_ascii '@' (by decide)⟩
  have hblocks : blocks (lib.toLower "a@b".toList) (lib.toLower "a@b".toList) = true := by
    unfold blocks
    rw [if_pos hat]
    exact beq_self_eq_true _
  have htrim : Text.trimSpace "a@b".toList = "a@b".toList := by decide
  unfold blocked
  rw [htrim]
  simp only [if_neg (List.ne_nil_of_mem hat), List.find?_cons_of_pos hblocks]

/-- The probe says whether the number is recorded for the mail. -/
theorem logs_probe (hname : name ≠ []) (y : Memory) (hm : m ∈ (probe lib accountID name id now).msgs) :
    ((probe lib accountID name id now).work y).logs lib m =
      if y.runs.ran accountID name id then [] else [id] := by
  have hkey := (key_of_mem_probe hname hm).2
  have hdone : ∀ id', ((probe lib accountID name id now).work y).done m id' = y.runs.ran accountID name id' := by
    intro id'
    show y.runs.ran accountID (messageKey m.row) id' = _
    rw [hkey]
  have hblocked : ((probe lib accountID name id now).work y).blocked lib m =
      if id = 0 then some (lib.toLower "a@b".toList) else none := by
    obtain rfl := List.mem_singleton.mp hm
    show blocked lib "a@b".toList (if id = 0 then _ else _) = _
    split
    · exact blocked_probe lib
    · unfold blocked
      simp
  unfold Work.logs
  rw [hblocked, hdone]
  by_cases hid : id = 0
  · rw [if_pos hid, hid]
    rfl
  · rw [if_neg hid]
    obtain ⟨c, hc, hrule, hstop, hmatch, hconditions⟩ := compileAll_probe lib id
    have hcompiled : ((probe lib accountID name id now).work y).compiled = [c] := by
      show compileAll lib (listEnabledFor (if id = 0 then [] else _) accountID) = [c]
      rw [if_neg hid]
      exact hc
    have hhit : (evaluate lib c (((probe lib accountID name id now).work y).view m)).1 = true := by
      have hknown : (((probe lib accountID name id now).work y).view m).bodyKnown = true := by
        obtain rfl := List.mem_singleton.mp hm
        exact ite_self _
      have hattached : (((probe lib accountID name id now).work y).view m).hasAttachment = true := by
        obtain rfl := List.mem_singleton.mp hm
        rfl
      unfold evaluate
      rw [hconditions, hmatch, if_neg (List.cons_ne_nil _ _)]
      unfold evalConditions evalCondition
      rw [hknown, hattached]
      rfl
    unfold Work.fired
    rw [hcompiled]
    unfold fire
    rw [hdone, hrule, hhit, hstop]
    cases y.runs.ran accountID name id with
    | true => rfl
    | false =>
        show [c].map (fun c => c.rule.id) = [id]
        rw [List.map_singleton, hrule]

theorem applies_probe : (probe lib accountID name id now).applies := by
  refine ⟨by simp [probe, calmEnv], ?_, by simp [probe, calmEnv]⟩
  by_cases hid : id = 0
  · simp [probe, hid]
  · rintro ⟨-, hrules⟩
    have hlist : listEnabledFor [attachmentRule id [⟨actionMarkRead, []⟩]] accountID
        = [attachmentRule id [⟨actionMarkRead, []⟩]] := rfl
    have hnone : listEnabledFor (if id = 0 then [] else [attachmentRule id [⟨actionMarkRead, []⟩]]) accountID
        = [] := hrules
    rw [if_neg hid, hlist] at hnone
    cases hnone

theorem run_probe (y : Memory) : (probe lib accountID name id now).run y =
    ((probe lib accountID name id now).outcome (planned (probe lib accountID name id now).env
        ((probe lib accountID name id now).work y) (probe lib accountID name id now).msgs),
      (probe lib accountID name id now).remember y (planned (probe lib accountID name id now).env
        ((probe lib accountID name id now).work y) (probe lib accountID name id now).msgs).1.runs) :=
  run_for applies_probe (List.cons_ne_nil _ _)

theorem reaction_probe (hname : name ≠ []) (y : Memory) (hm : m ∈ (probe lib accountID name id now).msgs) :
    ((probe lib accountID name id now).reaction y m).1 =
      if y.runs.ran accountID name id then [] else [id] := by
  unfold Application.reaction
  rw [run_probe]
  exact logs_probe hname y hm

theorem lastPrune_probe (y : Memory) : ((probe lib accountID name id now).run y).2.lastPrune =
    if now < y.lastPrune + day then y.lastPrune else now := by
  rw [run_probe]
  exact lastPrune_remember _

theorem has_probe (hname : name ≠ []) (y : Memory) (key : Nat × Text × Nat) (t : Time) :
    ((probe lib accountID name id now).run y).2.runs.Has key t ↔
      (y.runs.Has key t ∧ ¬ (¬ now < y.lastPrune + day ∧ t < now - runRetention)) ∨
        (t = now ∧ key = (accountID, name, id) ∧ ∀ t', ¬ y.runs.Has key t') := by
  rw [run_probe]
  show (recorded _ _ _).runs.Has key t ↔ _
  rw [has_recorded]
  refine or_congr (and_congr_right fun _ => not_congr ?_) ?_
  · exact ⟨fun h => ⟨h.1, h.2.2⟩, fun h => ⟨h.1, rfl, h.2⟩⟩
  · have hkeys : (∀ t', ¬ y.runs.Has key t') →
        (key ∈ (probe lib accountID name id now).msgs.flatMap
          (((probe lib accountID name id now).work y).keys lib) ↔ key = (accountID, name, id)) := by
      intro hnone
      obtain ⟨m, hm⟩ : ∃ m, m ∈ (probe lib accountID name id now).msgs := ⟨_, List.mem_cons_self⟩
      have hlogs := logs_probe hname y hm
      obtain rfl := List.mem_singleton.mp hm
      show key ∈ [_].flatMap _ ↔ _
      rw [List.flatMap_singleton]
      unfold Work.keys
      rw [hlogs, (key_of_mem_probe hname hm).2]
      split
      · rename_i hran
        obtain ⟨t', ht'⟩ := RunLog.ran_iff.mp hran
        have hne : key ≠ (accountID, name, id) := fun heq => hnone t' (heq ▸ ht')
        simp [hne]
      · rw [List.map_singleton, List.mem_singleton]
        exact Iff.rfl
    constructor
    · rintro ⟨-, hnow, hkey, hnone⟩
      exact ⟨hnow, (hkeys hnone).mp hkey, hnone⟩
    · rintro ⟨hnow, hkey, hnone⟩
      exact ⟨rfl, hnow, (hkeys hnone).mpr hkey, hnone⟩

/-- The record has an entry under the key, of this time. -/
def Memory.Once (y : Memory) (key : Nat × Text × Nat) (t : Time) : Prop :=
  ∀ t', y.runs.Has key t' ↔ t' = t

section Once

variable {t : Time}

theorem Memory.Once.ran (h : y.Once (accountID, name, id) t) : y.runs.ran accountID name id = true :=
  RunLog.ran_iff.mpr ⟨t, (h t).mpr rfl⟩

/-- What the entry comes to when the record is looked at. -/
theorem Memory.Once.has_probe (hname : name ≠ []) (h : y.Once (accountID, name, id) t) (t' : Time) :
    ((probe lib accountID name id now).run y).2.runs.Has (accountID, name, id) t' ↔
      t' = t ∧ ¬ (¬ now < y.lastPrune + day ∧ t < now - runRetention) := by
  rw [Rules.has_probe hname, h t']
  constructor
  · rintro (⟨rfl, hkept⟩ | ⟨-, -, hnone⟩)
    · exact ⟨rfl, hkept⟩
    · exact absurd ((h t).mpr rfl) (hnone t)
  · rintro ⟨rfl, hkept⟩
    exact Or.inl ⟨rfl, hkept⟩

theorem Memory.Once.kept (hname : name ≠ []) (h : y.Once (accountID, name, id) t)
    (hkept : now < y.lastPrune + day ∨ ¬ t < now - runRetention) :
    ((probe lib accountID name id now).run y).2.Once (accountID, name, id) t := fun t' =>
  (h.has_probe hname t').trans (and_iff_left (fun hgone => hkept.elim hgone.1 fun hold => hold hgone.2))

theorem Memory.Once.gone (hname : name ≠ []) (h : y.Once (accountID, name, id) t)
    (hdue : ¬ now < y.lastPrune + day) (hold : t < now - runRetention) :
    ((probe lib accountID name id now).run y).2.runs.ran accountID name id = false := by
  refine Bool.eq_false_iff.mpr fun hran => ?_
  obtain ⟨t', ht'⟩ := RunLog.ran_iff.mp hran
  exact ((h.has_probe hname t').mp ht').2 ⟨hdue, hold⟩

theorem once_of_fresh (hname : name ≠ []) (h : ∀ t', ¬ y.runs.Has (accountID, name, id) t') :
    ((probe lib accountID name id now).run y).2.Once (accountID, name, id) now := by
  intro t'
  rw [Rules.has_probe hname]
  constructor
  · rintro (⟨hhas, -⟩ | ⟨hnow, -⟩)
    · exact absurd hhas (h t')
    · exact hnow
  · rintro rfl
    exact Or.inr ⟨rfl, rfl, h⟩

/-- When the clean-up is due in one record and not in the other. -/
def Memory.dueIn (z : Memory) : Time := z.lastPrune + 86399

theorem dueIn_due (h : y.lastPrune < z.lastPrune) : ¬ z.dueIn < y.lastPrune + day :=
  Nat.not_lt.mpr (Nat.add_le_add_right (Nat.succ_le_of_lt h) 86399 |>.trans' (by
    rw [Nat.succ_add]
    exact Nat.le_refl _))

theorem dueIn_early (z : Memory) : z.dueIn < z.lastPrune + day := Nat.lt_succ_self _

/-- An entry that is half a year old when the clean-up is due in one record only. -/
theorem apart_now (lib : Lib) (hname : name ≠ []) (hlast : y.lastPrune < z.lastPrune)
    (hy : y.Once (accountID, name, id) t) (hz : z.Once (accountID, name, id) t)
    (hold : t < z.dueIn - runRetention) :
    ∃ rest, (runAll y rest).runs.ran accountID name id ≠ (runAll z rest).runs.ran accountID name id := by
  refine ⟨[probe lib accountID name id z.dueIn], ?_⟩
  show ((probe lib accountID name id _).run y).2.runs.ran _ _ _
    ≠ ((probe lib accountID name id _).run z).2.runs.ran _ _ _
  rw [hy.gone hname (dueIn_due hlast) hold, (hz.kept hname (Or.inl (dueIn_early z))).ran]
  exact Bool.false_ne_true

/-- **Two records that are cleaned up at different times come apart.**  The clean-up is due in one
and then in the other, until an entry is half a year old when it is due in one only. -/
theorem apart (lib : Lib) (hname : name ≠ []) (n : Nat) (hlast : y.lastPrune < z.lastPrune)
    (hy : y.Once (accountID, name, id) t) (hz : z.Once (accountID, name, id) t)
    (hage : t + runRetention < z.lastPrune + n) :
    ∃ rest, (runAll y rest).runs.ran accountID name id ≠ (runAll z rest).runs.ran accountID name id := by
  induction n generalizing y z with
  | zero =>
      exact apart_now lib hname hlast hy hz (Nat.lt_sub_of_add_lt (Nat.lt_add_right 86399 hage))
  | succ n ih =>
      by_cases hold : t < z.dueIn - runRetention
      · exact apart_now lib hname hlast hy hz hold
      have hyLast : ((probe lib accountID name id z.dueIn).run y).2.lastPrune = z.dueIn :=
        (lastPrune_probe y).trans (if_neg (dueIn_due hlast))
      have hzLast : ((probe lib accountID name id z.dueIn).run z).2.lastPrune = z.lastPrune :=
        (lastPrune_probe z).trans (if_pos (dueIn_early z))
      have hswapped : ((probe lib accountID name id z.dueIn).run z).2.lastPrune
          < ((probe lib accountID name id z.dueIn).run y).2.lastPrune := by
        rw [hyLast, hzLast]
        exact Nat.lt_add_of_pos_right (by decide)
      have hnext : t + runRetention < z.lastPrune + 86399 + n := by
        refine Nat.lt_of_lt_of_le hage ?_
        rw [Nat.add_assoc, Nat.add_comm 86399 n]
        exact Nat.add_le_add_left (Nat.add_le_add_left (by decide) n) _
      obtain ⟨rest, hrest⟩ := ih hswapped (hz.kept hname (Or.inl (dueIn_early z)))
        (hy.kept hname (Or.inr hold)) (hyLast.symm ▸ hnext)
      exact ⟨probe lib accountID name id z.dueIn :: rest, hrest.symm⟩

end Once

end Probe

section Reuse

variable {c : Application} {x : Memory} {before after : List Mail} {m' : Mail}

/-- Records on which nothing happens otherwise have the same entries under the Message-ID. -/
theorem Unmoved.ran (h : Unmoved c x before after m') (hname : m'.row.messageID ≠ [])
    (rest : List Application) (accountID id : Nat) :
    (runAll ((c.for_ (before ++ m' :: after)).run x).2 rest).runs.ran accountID m'.row.messageID id
      = (runAll ((c.for_ (before ++ after)).run x).2 rest).runs.ran accountID m'.row.messageID id := by
  obtain ⟨m, hm⟩ : ∃ m, m ∈ (probe c.env.lib accountID m'.row.messageID id 0).msgs :=
    ⟨_, List.mem_cons_self⟩
  have hlater := congrArg Prod.fst
    (h.later rest (probe c.env.lib accountID m'.row.messageID id 0) m hm (key_of_mem_probe hname hm).1)
  rw [reaction_probe hname _ hm, reaction_probe hname _ hm] at hlater
  cases hran : (runAll ((c.for_ (before ++ m' :: after)).run x).2 rest).runs.ran accountID m'.row.messageID id <;>
    cases hran' : (runAll ((c.for_ (before ++ after)).run x).2 rest).runs.ran accountID m'.row.messageID id
  all_goals simp [hran, hran'] at hlater ⊢

theorem traceless_logs (h : Unmoved c x before after m') (hname : m'.row.messageID ≠ [])
    (happlies : c.applies) (hrecord : c.env.faults.recordRuns = false) {id : Nat}
    (hid : id ∈ (c.work x).logs c.env.lib m') : ∃ m ∈ before ++ after,
      messageKey m.row = messageKey m'.row ∧ id ∈ (c.work x).logs c.env.lib m := by
  have hkey : messageKey m'.row = m'.row.messageID := if_pos hname
  have hfresh : ∀ t, ¬ x.runs.Has (c.accountID, m'.row.messageID, id) t := by
    intro t ht
    have hdone : (c.work x).done m' id = true := RunLog.ran_iff.mpr ⟨t, hkey.symm ▸ ht⟩
    rw [not_done_of_logs hid] at hdone
    cases hdone
  have hwith : (((c.for_ (before ++ m' :: after)).run x).2).runs.ran c.accountID m'.row.messageID id
      = true := by
    rw [run_for happlies (by simp)]
    refine RunLog.ran_iff.mpr ⟨c.env.now, (has_recorded _ _ _ _ _ _).mpr (Or.inr ⟨hrecord, rfl, ?_, hfresh⟩)⟩
    exact List.mem_flatMap.mpr ⟨m', by simp, List.mem_map.mpr ⟨id, hid, by rw [hkey]; rfl⟩⟩
  obtain ⟨t, ht⟩ := RunLog.ran_iff.mp ((h.ran hname [] c.accountID id).symm.trans hwith)
  by_cases hnil : before ++ after = []
  · rw [hnil, run_nil] at ht
    exact absurd ht (hfresh t)
  · rw [run_for happlies hnil] at ht
    rcases (has_recorded _ _ _ _ _ _).mp ht with ⟨hold, -⟩ | ⟨-, -, hmem, -⟩
    · exact absurd hold (hfresh t)
    · obtain ⟨m, hm, hkeys⟩ := List.mem_flatMap.mp hmem
      obtain ⟨id', hid', heq⟩ := List.mem_map.mp hkeys
      obtain ⟨-, hsame, rfl⟩ := by simpa using heq
      exact ⟨m, by simpa using hm, hsame.trans hkey.symm, hid'⟩

private theorem exists_above (l : List Nat) : ∃ n, ∀ a ∈ l, a < n := by
  induction l with
  | nil => exact ⟨0, by simp⟩
  | cons a rest ih =>
      obtain ⟨n, hn⟩ := ih
      refine ⟨max (a + 1) n, fun b hb => ?_⟩
      rcases List.mem_cons.mp hb with rfl | hb
      · exact Nat.lt_of_lt_of_le (Nat.lt_succ_self _) (Nat.le_max_left _ _)
      · exact Nat.lt_of_lt_of_le (hn b hb) (Nat.le_max_right _ _)

/-- A number under which neither has an entry. -/
theorem fresh (y z : Memory) : ∃ id, (∀ accountID key t, ¬ y.runs.Has (accountID, key, id) t) ∧
    ∀ accountID key t, ¬ z.runs.Has (accountID, key, id) t := by
  obtain ⟨id, hid⟩ := exists_above ((y.runs.rows ++ z.runs.rows).map RuleRun.ruleID)
  have hnot : ∀ r ∈ y.runs.rows ++ z.runs.rows, r.ruleID ≠ id := fun r hr =>
    Nat.ne_of_lt (hid _ (List.mem_map_of_mem hr))
  refine ⟨id, ?_, ?_⟩
  · rintro _ _ _ ⟨r, hr, hkey, _⟩
    exact hnot r (List.mem_append_left _ hr) (congrArg (fun key => key.2.2) hkey)
  · rintro _ _ _ ⟨r, hr, hkey, _⟩
    exact hnot r (List.mem_append_right _ hr) (congrArg (fun key => key.2.2) hkey)

/-- A mail that comes alone and brings about the clean-up is noticed in time. -/
theorem traceless_prune (h : Unmoved c x before after m') (hname : m'.row.messageID ≠ [])
    (happlies : c.applies) : before ++ after ≠ [] ∨ c.env.now < x.lastPrune + day := by
  by_contra hnot
  obtain ⟨hnil, hdue⟩ := not_or.mp hnot
  have hnil : before ++ after = [] := not_ne_iff.mp hnil
  have hran := h.ran hname
  rw [hnil, run_nil, run_for happlies (by simp)] at hran
  generalize hy : c.remember x (planned c.env (c.work x) (before ++ m' :: after)).1.runs = y at hran
  have hlast : y.lastPrune = c.env.now := by
    rw [← hy, lastPrune_remember, if_neg hdue]
  obtain ⟨id, hfreshY, hfreshX⟩ := fresh y x
  -- a rule applies, just after
  have hyNext : ((probe c.env.lib c.accountID m'.row.messageID id (c.env.now + 1)).run y).2.lastPrune
      = c.env.now := by
    rw [lastPrune_probe, hlast]
    exact if_pos (Nat.add_lt_add_left (by decide) _)
  have hxNext : ((probe c.env.lib c.accountID m'.row.messageID id (c.env.now + 1)).run x).2.lastPrune
      = c.env.now + 1 := by
    rw [lastPrune_probe]
    exact if_neg fun hlt => hdue (Nat.lt_of_succ_lt hlt)
  obtain ⟨rest, hrest⟩ := apart c.env.lib hname (c.env.now + 1 + runRetention)
    (by rw [hyNext, hxNext]; exact Nat.lt_succ_self _)
    (once_of_fresh hname (hfreshY _ _)) (once_of_fresh hname (hfreshX _ _))
    (by rw [hxNext]; exact Nat.lt_add_of_pos_left (Nat.succ_pos _))
  exact hrest (hran (probe c.env.lib c.accountID m'.row.messageID id (c.env.now + 1) :: rest) c.accountID id)

/-- **Mail with the Message-ID of another changes nothing for it exactly if it leaves no trace in
the record.** -/
theorem unmoved_iff (hname : m'.row.messageID ≠ [])
    (hids : ((before ++ m' :: after).map fun m => m.row.id).Nodup) :
    Unmoved c x before after m' ↔ (c.applies → Traceless c x (before ++ after) m') := by
  constructor
  · intro h happlies
    exact ⟨fun hrecord id hid => traceless_logs h hname happlies hrecord hid,
      traceless_prune h hname happlies⟩
  · intro h
    have hsame : Same ((c.for_ (before ++ m' :: after)).run x).2 ((c.for_ (before ++ after)).run x).2 := by
      by_cases happlies : c.applies
      · exact same_of_traceless happlies (h happlies)
      · rw [run_for_idle happlies, run_for_idle happlies]
        exact Same.refl x
    have hsub : (before ++ after).Sublist (before ++ m' :: after) :=
      (List.sublist_cons_self m' after).append_left before
    refine ⟨fun m hm _ => ?_, fun rest d m _ _ => ?_, fun rest d m _ => ?_⟩
    · exact reaction_for (hsub.subset hm) hm hids (hids.sublist (hsub.map _))
    · exact (hsame.runAll rest).reaction m
    · exact (hsame.runAll rest).handled [m]

/-- The rules of the office, for a batch. -/
private def atOffice (msgs : List Mail) : Application :=
  ⟨oneOffice, office.rules, office.blocks, 1, theInbox, msgs⟩

private def atFirst : Memory := ⟨.empty, 1000000000⟩

/-- A mail of another sender with the Message-ID of `a@b.example`. -/
private def forged (attached : Bool) : Mail :=
  { mailFrom 9 "eve@x.example" with
    row := { (mailFrom 9 "eve@x.example").row with
      messageID := "a@b.example".toList, hasAttachment := attached } }

/-- To a mail without an attachment no rule applies. -/
theorem unmoved_iff_plain :
    Unmoved (atOffice []) atFirst [] [mailFrom 7 "a@b.example"] (forged false) :=
  (unmoved_iff (by decide) (by decide)).mpr fun _ => ⟨by decide, Or.inl (by decide)⟩

/-- **A forged Message-ID keeps the rules from a mail.**  The rules apply to the forged mail, and to
the mail that comes in after it they do not. -/
theorem preempted :
    (atOffice [mailFrom 7 "a@b.example"]).reaction ((atOffice [forged true]).run atFirst).2
        (mailFrom 7 "a@b.example") = ([], []) ∧
      (atOffice [mailFrom 7 "a@b.example"]).reaction ((atOffice []).run atFirst).2
        (mailFrom 7 "a@b.example") = ([1, 2], [.setRead true, .setFlagged true, .move 2]) := by
  decide

end Reuse

end FlyMail.Rules
