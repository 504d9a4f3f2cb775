/-
What the snapshots of a synchronisation's progress say.

There is one record for all who write it, and who writes it last does not know whether it is
still his own.  As long as only one synchronisation is under way or asked for at a time, the
record fits where it stands: `Fits` says how, one case for each place, and from it follow the
bounds of the counters.  A record is terminal when the mails are there or the synchronisation
has failed; only the bodies of older mails, and a failure that is reported twice, write to it
after that.

`strict` tells two orders on the snapshots apart: that no snapshot of a record follows a
terminal one, or only terminal ones do.
-/
import FlyMail.Lib.Run
import FlyMail.Sync.Status

namespace FlyMail.Sync.Progress

/-! ### Snapshots -/

/-- What a snapshot has to be like. -/
structure Good (st : Status) : Prop where
  folders : st.foldersDone ≤ st.foldersTotal
  bodies : st.bodiesDone ≤ st.bodiesTotal
  quiet : st.terminal = true → st.currentFolder = [] ∧ st.currentFolderType = none

/-- What may follow the snapshot `s`. -/
def Follows (strict : Bool) (s t : Status) : Prop :=
  s.terminal = true → t.startedAt = s.startedAt → strict = false ∧ t.terminal = true

/-- What holds of the store at any time. -/
structure Kept (strict : Bool) (s : Store) : Prop where
  good : ∀ st ∈ s.log, Good st
  order : s.log.Pairwise (Follows strict)
  serial : ∀ st ∈ s.log, st.startedAt ≤ s.begun
  current : ∀ st, s.status = some st → Good st ∧ st.startedAt = s.begun ∧
    (st.terminal = false → ∀ t ∈ s.log, t.startedAt = s.begun → t.terminal = false)

section Store

variable {strict : Bool} {s : Store}

theorem kept_new : Kept strict ⟨none, 0, []⟩ where
  good st hst := by simp at hst
  order := List.Pairwise.nil
  serial st hst := by simp at hst
  current st hst := by simp at hst

theorem Kept.begin (h : Kept strict s) {phase : Phase} (hphase : phase ≠ .done)
    (herror : phase ≠ .error) : Kept strict (s.begin phase) := by
  have hfresh : Status.terminal ⟨phase, [], s.begun + 1, 0, 0, 0, 0, [], none⟩ = false := by
    simp [Status.terminal, hphase, herror]
  have hgood : Good ⟨phase, [], s.begun + 1, 0, 0, 0, 0, [], none⟩ :=
    ⟨Nat.le_refl _, Nat.le_refl _, fun _ => ⟨rfl, rfl⟩⟩
  refine ⟨?_, ?_, ?_, ?_⟩
  · intro st hst
    rcases List.mem_append.mp hst with hst | hst
    · exact h.good st hst
    · rw [List.mem_singleton.mp hst]
      exact hgood
  · refine List.pairwise_append.mpr ⟨h.order, List.pairwise_singleton _ _, ?_⟩
    intro a ha b hb _ hsame
    have hle := h.serial a ha
    rw [List.mem_singleton.mp hb] at hsame
    simp only at hsame
    omega
  · intro st hst
    show st.startedAt ≤ s.begun + 1
    rcases List.mem_append.mp hst with hst | hst
    · have hle := h.serial st hst
      omega
    · rw [List.mem_singleton.mp hst]
  · intro st hst
    obtain rfl := Option.some.inj hst
    refine ⟨hgood, rfl, fun _ t ht hsame => ?_⟩
    rcases List.mem_append.mp ht with ht | ht
    · have hle := h.serial t ht
      have heq : t.startedAt = s.begun + 1 := hsame
      omega
    · rw [List.mem_singleton.mp ht]
      exact hfresh

/-- A snapshot that may follow the one before. -/
theorem Kept.mutate (h : Kept strict s) {st : Status} (hst : s.status = some st)
    {f : Status → Status} (hgood : Good (f st)) (hsame : (f st).startedAt = st.startedAt)
    (hphase : st.terminal = false ∨ (strict = false ∧ (f st).terminal = true)) :
    Kept strict (s.mutate f) := by
  obtain ⟨-, hbegun, hopen⟩ := h.current st hst
  have hmutate : s.mutate f = { s with status := some (f st), log := s.log ++ [f st] } := by
    unfold Store.mutate
    rw [hst]
  rw [hmutate]
  refine ⟨?_, ?_, ?_, ?_⟩
  · intro t ht
    rcases List.mem_append.mp ht with ht | ht
    · exact h.good t ht
    · rw [List.mem_singleton.mp ht]
      exact hgood
  · refine List.pairwise_append.mpr ⟨h.order, List.pairwise_singleton _ _, ?_⟩
    intro a ha b hb hterminal heq
    rw [List.mem_singleton.mp hb, hsame, hbegun] at heq
    rcases hphase with hphase | ⟨hstrict, hphase⟩
    · rw [hopen hphase a ha heq.symm] at hterminal
      cases hterminal
    · rw [List.mem_singleton.mp hb]
      exact ⟨hstrict, hphase⟩
  · intro t ht
    rcases List.mem_append.mp ht with ht | ht
    · exact h.serial t ht
    · rw [List.mem_singleton.mp ht, hsame, hbegun]
  · intro t ht
    obtain rfl := Option.some.inj ht
    refine ⟨hgood, hsame.trans hbegun, fun hnot t ht heq => ?_⟩
    rcases List.mem_append.mp ht with ht | ht
    · rcases hphase with hphase | ⟨-, hphase⟩
      · exact hopen hphase t ht heq
      · rw [hnot] at hphase
        cases hphase
    · rw [List.mem_singleton.mp ht]
      exact hnot

theorem status_mutate {st : Status} (hst : s.status = some st) (f : Status → Status) :
    (s.mutate f).status = some (f st) := by
  unfold Store.mutate
  rw [hst]

end Store

/-! ### Where a synchronisation stands -/

/-- How the record fits where the synchronisation stands. -/
def Fits (strict : Bool) : Round → Status → Prop
  | .waiting, st => st.phase = .queued
  | .listing, st => st.phase = .folders
  | .counting _, st => st.phase = .messages
  | .next rest _ _ _, st => st.phase = .messages ∧ st.foldersDone + rest.length = st.foldersTotal
  | .inside rest _ _ _, st =>
      st.phase = .messages ∧ st.foldersDone + (rest.length + 1) = st.foldersTotal
  | .boundary rest _ _ _, st =>
      st.phase = .messages ∧ st.foldersDone + rest.length = st.foldersTotal
  | .synced, st => st.phase = .messages
  | .prefetch, st => st.phase = .done
  | .bodies rest fetched, st =>
      strict = false ∧ st.phase = .done ∧ fetched + rest.flatten.length ≤ st.bodiesTotal
  | .bodiesBoundary rest fetched, st =>
      strict = false ∧ st.phase = .done ∧ fetched + rest.flatten.length ≤ st.bodiesTotal
  | .over _, _ => True

/-- The server answers no mail twice; and where `strict`, no bodies of older mails are
fetched. -/
def Luck.fair (strict : Bool) (r : Round) : Luck → Bool
  | .pending _ => !strict
  | .fetched answer =>
      match r with
      | .bodies (uids :: _) _ =>
          decide ((answers answer 0 (chunksOf bodyFetchBatch uids)).map Prod.fst).Nodup
      | _ => true
  | _ => true

/-- No more bodies are fetched than are asked for. -/
theorem fetchBodies_le {uids : List Nat} {answered : List (Nat × Bool)}
    (h : (answered.map Prod.fst).Nodup) : fetchBodies uids answered ≤ uids.length := by
  have hsub : (answered.filter fun e => uids.contains e.1 && e.2).map Prod.fst ⊆ uids := by
    intro uid huid
    obtain ⟨e, he, rfl⟩ := List.mem_map.mp huid
    have hin := (List.mem_filter.mp he).2
    simp only [Bool.and_eq_true, List.contains_iff_mem] at hin
    exact hin.1
  have hnodup : ((answered.filter fun e => uids.contains e.1 && e.2).map Prod.fst).Nodup :=
    h.sublist (List.filter_sublist.map _)
  have hle := (List.subperm_of_subset hnodup hsub).length_le
  unfold fetchBodies
  rw [List.countP_eq_length_filter]
  simpa using hle

section Round

variable {strict : Bool} {s : Store} {st : Status}

/-- What a step of a synchronisation leaves. -/
def Leaves (strict : Bool) (r : Round) (s : Store) : Prop :=
  Kept strict s ∧ ∃ st, s.status = some st ∧ Fits strict r st

theorem leaves_same {r : Round} (h : Kept strict s) (hst : s.status = some st)
    (hfits : Fits strict r st) : Leaves strict r (id s) := ⟨h, st, hst, hfits⟩

theorem leaves_mutate {r : Round} (h : Kept strict s) (hst : s.status = some st)
    {f : Status → Status} (hgood : Good (f st)) (hsame : (f st).startedAt = st.startedAt)
    (hphase : st.terminal = false ∨ (strict = false ∧ (f st).terminal = true))
    (hfits : Fits strict r (f st)) : Leaves strict r (s.mutate f) :=
  ⟨h.mutate hst hgood hsame hphase, f st, status_mutate hst f, hfits⟩

theorem leaves_finish (h : Kept strict s) (hst : s.status = some st) {rest : List Folder}
    {attempted failed : Nat} {err : Option Text} (hphase : st.phase = .messages)
    (hcount : st.foldersDone + (rest.length + 1) = st.foldersTotal) :
    Leaves strict (.boundary rest attempted failed err) s.finishFolder := by
  obtain ⟨hgood, -, -⟩ := h.current st hst
  have hnot : st.terminal = false := by simp [Status.terminal, hphase]
  refine leaves_mutate h hst ⟨?_, hgood.bodies, fun hc => ?_⟩ rfl (Or.inl hnot) ⟨hphase, ?_⟩
  · show st.foldersDone + 1 ≤ st.foldersTotal
    omega
  · exact absurd (hnot.symm.trans hc) Bool.false_ne_true
  · show st.foldersDone + 1 + rest.length = st.foldersTotal
    omega

/-- **Each step writes a snapshot that fits where it leads.** -/
theorem leaves_step (h : Kept strict s) {r r' : Round} {l : Luck} {f : Store → Store}
    (hst : s.status = some st) (hfits : Fits strict r st) (hfair : l.fair strict r = true)
    (hstep : r.step l = some (r', f)) : Leaves strict r' (f s) := by
  obtain ⟨hgood, -, -⟩ := h.current st hst
  have hopen : ∀ p : Phase, p ≠ .done → p ≠ .error → st.phase = p → st.terminal = false := by
    intro p hdone herror hphase
    simp [Status.terminal, hphase, hdone, herror]
  unfold Round.step at hstep
  split at hstep
  · -- the folders could not be fetched
    cases hstep
    exact leaves_mutate h hst ⟨hgood.folders, hgood.bodies, fun _ => ⟨rfl, rfl⟩⟩ rfl
      (Or.inl (hopen .folders nofun nofun hfits)) trivial
  · cases hstep
    exact leaves_mutate h hst ⟨hgood.folders, hgood.bodies, nofun⟩ rfl
      (Or.inl (hopen .folders nofun nofun hfits)) rfl
  · cases hstep
    exact leaves_mutate h hst ⟨Nat.zero_le _, hgood.bodies, fun _ => ⟨rfl, rfl⟩⟩ rfl
      (Or.inl (hopen .messages nofun nofun hfits)) ⟨hfits, Nat.zero_add _⟩
  · -- a folder is entered
    cases hstep
    obtain ⟨hphase, hcount⟩ := hfits
    have hnot := hopen .messages nofun nofun hphase
    refine leaves_mutate h hst ⟨hgood.folders, hgood.bodies, fun hc => ?_⟩ rfl (Or.inl hnot)
      ⟨hphase, hcount⟩
    exact absurd (hnot.symm.trans hc) Bool.false_ne_true
  · obtain ⟨hphase, -⟩ := hfits
    have hnot := hopen .messages nofun nofun hphase
    split at hstep
    · cases hstep
      exact leaves_mutate h hst ⟨hgood.folders, hgood.bodies, fun _ => ⟨rfl, rfl⟩⟩ rfl
        (Or.inl hnot) trivial
    · cases hstep
      exact leaves_same h hst hphase
  · -- a folder is finished, well or not
    cases hstep
    obtain ⟨hphase, hcount⟩ := hfits
    exact leaves_finish h hst hphase hcount
  · cases hstep
    obtain ⟨hphase, hcount⟩ := hfits
    exact leaves_finish h hst hphase hcount
  · cases hstep
    exact leaves_same h hst hfits
  · cases hstep
    exact leaves_mutate h hst ⟨hgood.folders, hgood.bodies, fun _ => ⟨rfl, rfl⟩⟩ rfl
      (Or.inl (hopen .messages nofun nofun hfits)) rfl
  · cases hstep
    exact leaves_same h hst trivial
  · -- older bodies are to be fetched
    split at hstep
    · cases hstep
    · cases hstep
      have hstrict : strict = false := by simpa [Luck.fair] using hfair
      have hdone : st.terminal = true := by simp [Status.terminal, show st.phase = _ from hfits]
      exact leaves_mutate h hst ⟨hgood.folders, Nat.zero_le _, fun _ => hgood.quiet hdone⟩ rfl
        (Or.inr ⟨hstrict, hdone⟩) ⟨hstrict, hfits, Nat.le_of_eq (Nat.zero_add _)⟩
  · cases hstep
    obtain ⟨hstrict, hphase, hcount⟩ := hfits
    rw [List.flatten_cons, List.length_append] at hcount
    exact leaves_same h hst ⟨hstrict, hphase, by omega⟩
  · rename_i uids rest fetched answer
    cases hstep
    obtain ⟨hstrict, hphase, hcount⟩ := hfits
    rw [List.flatten_cons, List.length_append] at hcount
    have hle : fetchBodies uids (answers answer 0 (chunksOf bodyFetchBatch uids)) ≤ uids.length :=
      fetchBodies_le (of_decide_eq_true hfair)
    have hdone : st.terminal = true := by simp [Status.terminal, hphase]
    refine leaves_mutate h hst ⟨hgood.folders, ?_, fun _ => hgood.quiet hdone⟩ rfl
      (Or.inr ⟨hstrict, hdone⟩) ⟨hstrict, hphase, ?_⟩
    · show fetched + _ ≤ st.bodiesTotal
      omega
    · show fetched + _ + rest.flatten.length ≤ st.bodiesTotal
      omega
  · cases hstep
    obtain ⟨hstrict, hphase, -⟩ := hfits
    have hdone : st.terminal = true := by simp [Status.terminal, hphase]
    exact leaves_mutate h hst ⟨hgood.folders, Nat.le_refl _, fun _ => hgood.quiet hdone⟩ rfl
      (Or.inr ⟨hstrict, hdone⟩) trivial
  · cases hstep
    exact leaves_same h hst hfits
  · cases hstep

end Round

/-! ### The runner and the user -/

/-- One synchronisation at a time: none is asked for while one is under way, and no poll begins
while one is asked for.  Where `strict`, a failure is not reported when the record says so. -/
def System.fair (strict : Bool) (s : System) : Act → Bool
  | .trigger => s.poll.isNone && s.task.isNone
  | .poll => decide (s.trigger = .idle)
  | .pollGoes l => (s.poll.map fun r => l.fair strict r).getD true
  | .taskGoes l => (s.task.map fun r => l.fair strict r).getD true
  | .report => !strict || !(s.store.status.map Status.terminal).getD false
  | _ => true

structure Inv (strict : Bool) (s : System) : Prop where
  kept : Kept strict s.store
  poll : ∀ r, s.poll = some r → Leaves strict r s.store ∧ s.trigger = .idle ∧ s.task = none
  task : ∀ r, s.task = some r → Leaves strict r s.store
  requested : s.trigger = .requested →
    s.task = none ∧ ∃ st, s.store.status = some st ∧ st.phase = .queued
  failing : ∀ err, s.trigger = .failing err → s.task = none

section System

variable {strict : Bool} {s t : System}

theorem leaves_begin (h : Kept strict s.store) :
    Leaves strict .listing (s.store.begin .folders) :=
  ⟨h.begin nofun nofun, _, rfl, rfl⟩

/-- The record is queued, and stays so. -/
theorem leaves_queued (h : Kept strict s.store) {st : Status} (hst : s.store.status = some st)
    (hphase : st.phase = .queued) : Leaves strict .waiting (s.store.markPhase .queued) := by
  obtain ⟨hgood, -, -⟩ := h.current st hst
  exact leaves_mutate h hst ⟨hgood.folders, hgood.bodies, nofun⟩ rfl
    (Or.inl (by simp [Status.terminal, hphase])) rfl

theorem leaves_start (h : Kept strict s.store) {st : Status} (hst : s.store.status = some st)
    (hphase : st.phase = .queued) (slot : Bool) :
    ∃ r, (s.start slot).task = some r ∧ Leaves strict r (s.start slot).store := by
  cases slot with
  | true => exact ⟨.listing, rfl, leaves_begin h⟩
  | false => exact ⟨.waiting, rfl, leaves_queued h hst hphase⟩

theorem poll_start (slot : Bool) : (s.start slot).poll = s.poll := by
  cases slot <;> rfl

/-- A task is begun, and no poll is under way. -/
theorem inv_start (h : Inv strict s) (hpoll : s.poll = none) {st : Status}
    (hst : s.store.status = some st) (hphase : st.phase = .queued) (slot : Bool) {trigger : Trigger}
    (hrequested : trigger ≠ .requested) (hfailing : ∀ err, trigger ≠ .failing err) :
    Inv strict { s.start slot with trigger := trigger } := by
  obtain ⟨r, hr, hleaves⟩ := leaves_start h.kept hst hphase slot
  refine ⟨hleaves.1, fun r' hr' => ?_, fun r' hr' => ?_, fun hc => absurd hc hrequested,
    fun err hc => absurd hc (hfailing err)⟩
  · have hnone := (poll_start slot).trans hpoll
    rw [hnone] at hr'
    cases hr'
  · obtain rfl := Option.some.inj (hr.symm.trans hr')
    exact hleaves

theorem kept_fail (h : Kept strict s.store) (err : Text)
    (hfair : s.fair strict .report = true) : Kept strict (s.store.fail err) := by
  cases hst : s.store.status with
  | none =>
      have hsame : s.store.fail err = s.store := by
        unfold Store.fail Store.mutate
        rw [hst]
      rw [hsame]
      exact h
  | some st =>
      obtain ⟨hgood, -, -⟩ := h.current st hst
      refine h.mutate hst ⟨hgood.folders, hgood.bodies, fun _ => ⟨rfl, rfl⟩⟩ rfl ?_
      cases strict with
      | false => exact Or.inr ⟨rfl, rfl⟩
      | true =>
          refine Or.inl ?_
          simpa [System.fair, hst] using hfair

theorem underWay_eq {r r' : Round} (h : r.underWay = some r') : r = r' := by
  unfold Round.underWay at h
  split at h
  · cases h
  · exact Option.some.inj h

/-- A request is answered when the task is over. -/
theorem answer_cases (trigger : Trigger) (r : Round) :
    trigger.answer r = trigger ∨ (r.underWay = none ∧ trigger.answer r ≠ .requested) := by
  unfold Trigger.answer
  split
  · exact Or.inr ⟨rfl, nofun⟩
  · exact Or.inr ⟨rfl, nofun⟩
  · exact Or.inl rfl

/-- While a synchronisation is asked for, no poll is under way. -/
theorem no_poll (h : Inv strict s) {trigger : Trigger} (htrigger : s.trigger = trigger)
    (hidle : trigger ≠ .idle) : s.poll = none := by
  cases hp : s.poll with
  | none => rfl
  | some r => exact absurd (htrigger.symm.trans (h.poll r hp).2.1) hidle

/-- **One synchronisation at a time keeps the record in order.** -/
theorem inv_step (h : Inv strict s) {a : Act} (hfair : s.fair strict a = true)
    (hstep : step s a = some t) : Inv strict t := by
  cases a with
  | trigger =>
      simp only [step] at hstep
      split at hstep
      · obtain rfl := Option.some.inj hstep
        simp only [System.fair, Bool.and_eq_true, Option.isNone_iff_eq_none] at hfair
        refine ⟨h.kept.begin nofun nofun, fun r hr => ?_, fun r hr => ?_,
          fun _ => ⟨hfair.2, _, rfl, rfl⟩, nofun⟩
        · rw [show s.poll = some r from hr] at hfair
          cases hfair.1
        · rw [show s.task = some r from hr] at hfair
          cases hfair.2
      · cases hstep
  | poll =>
      simp only [step] at hstep
      split at hstep
      · rename_i hfree
        simp only [Bool.and_eq_true, Option.isNone_iff_eq_none] at hfree
        obtain rfl := Option.some.inj hstep
        have hidle : s.trigger = .idle := of_decide_eq_true hfair
        refine ⟨(leaves_begin h.kept).1, fun r hr => ?_, fun r hr => ?_, fun hc => ?_, fun err hc => ?_⟩
        · obtain rfl := Option.some.inj hr
          exact ⟨leaves_begin h.kept, hidle, hfree.2⟩
        · rw [show s.task = some r from hr] at hfree
          cases hfree.2
        · exact absurd (hidle.symm.trans hc) nofun
        · exact absurd (hidle.symm.trans hc) nofun
      · cases hstep
  | take slot =>
      simp only [step] at hstep
      split at hstep
      · rename_i hready
        obtain rfl := Option.some.inj hstep
        obtain ⟨-, st, hst, hphase⟩ := h.requested hready.1
        have hpoll : s.poll = none := no_poll h hready.1 nofun
        have hstart : Inv strict { s.start slot with trigger := .running } :=
          inv_start h hpoll hst hphase slot nofun nofun
        have hsame : { s.start slot with trigger := .running } = s.start slot := by
          cases slot <;> rfl
        rw [hsame] at hstart
        exact hstart
      · cases hstep
  | retry slot =>
      simp only [step] at hstep
      split at hstep
      · rename_i htask
        obtain rfl := Option.some.inj hstep
        obtain ⟨-, st, hst, hphase⟩ := h.task _ htask
        have hpoll : s.poll = none := by
          cases hp : s.poll with
          | none => rfl
          | some r =>
              have hnone := (h.poll r hp).2.2
              rw [htask] at hnone
              cases hnone
        refine inv_start h hpoll hst hphase slot (fun hc => ?_) fun err hc => ?_
        · rw [(h.requested hc).1] at htask
          cases htask
        · rw [h.failing err hc] at htask
          cases htask
      · cases hstep
  | taskFails err =>
      simp only [step] at hstep
      split at hstep
      · rename_i hready
        obtain rfl := Option.some.inj hstep
        obtain ⟨hnone, -⟩ := h.requested hready.1
        refine ⟨h.kept, fun r hr => ?_, h.task, nofun, fun _ _ => hnone⟩
        have hidle := (h.poll r hr).2.1
        rw [hready.1] at hidle
        cases hidle
      · cases hstep
  | pollGoes l =>
      simp only [step] at hstep
      split at hstep
      · rename_i htask
        rw [Option.isNone_iff_eq_none] at htask
        split at hstep
        · cases hstep
        · rename_i r hpoll
          obtain ⟨⟨r', f⟩, hround, rfl⟩ := Option.map_eq_some_iff.mp hstep
          obtain ⟨⟨-, st, hst, hfits⟩, hidle, -⟩ := h.poll r hpoll
          have hleaves := leaves_step h.kept hst hfits (by simpa [System.fair, hpoll] using hfair) hround
          refine ⟨hleaves.1, fun r'' hr'' => ?_, fun r'' hr'' => ?_, fun hc => ?_, fun err hc => ?_⟩
          · exact ⟨underWay_eq hr'' ▸ hleaves, hidle, htask⟩
          · rw [show s.task = some r'' from hr''] at htask
            cases htask
          · exact absurd (hidle.symm.trans hc) nofun
          · exact absurd (hidle.symm.trans hc) nofun
      · cases hstep
  | taskGoes l =>
      simp only [step] at hstep
      split at hstep
      · cases hstep
      · rename_i r htask
        obtain ⟨⟨r', f⟩, hround, rfl⟩ := Option.map_eq_some_iff.mp hstep
        obtain ⟨-, st, hst, hfits⟩ := h.task r htask
        have hleaves := leaves_step h.kept hst hfits (by simpa [System.fair, htask] using hfair) hround
        refine ⟨hleaves.1, fun r'' hr'' => ?_, fun r'' hr'' => underWay_eq hr'' ▸ hleaves,
          fun hc => ?_, fun err hc => ?_⟩
        · rw [(h.poll r'' hr'').2.2] at htask
          cases htask
        · rcases answer_cases s.trigger r' with hsame | ⟨-, hnot⟩
          · have hnone := (h.requested (hsame.symm.trans hc)).1
            rw [htask] at hnone
            cases hnone
          · exact absurd hc hnot
        · rcases answer_cases s.trigger r' with hsame | ⟨hover, -⟩
          · have hnone := h.failing err (hsame.symm.trans hc)
            rw [htask] at hnone
            cases hnone
          · exact hover
  | report =>
      simp only [step] at hstep
      split at hstep
      · rename_i err htrigger
        obtain rfl := Option.some.inj hstep
        have hnone := h.failing err htrigger
        refine ⟨kept_fail h.kept err hfair, fun r hr => ?_, fun r hr => ?_, nofun, nofun⟩
        · have hidle := (h.poll r hr).2.1
          rw [htrigger] at hidle
          cases hidle
        · rw [show s.task = some r from hr] at hnone
          cases hnone
      · cases hstep
  | abandon =>
      simp only [step] at hstep
      split at hstep
      · obtain rfl := Option.some.inj hstep
        refine ⟨h.kept, fun r hr => ?_, h.task, nofun, nofun⟩
        obtain ⟨hleaves, -, hnone⟩ := h.poll r hr
        exact ⟨hleaves, rfl, hnone⟩
      · obtain rfl := Option.some.inj hstep
        refine ⟨h.kept, fun r hr => ?_, h.task, nofun, nofun⟩
        obtain ⟨hleaves, -, hnone⟩ := h.poll r hr
        exact ⟨hleaves, rfl, hnone⟩
      · cases hstep

theorem inv_new : Inv strict .new where
  kept := kept_new
  poll r hr := by cases hr
  task r hr := by cases hr
  requested hr := by cases hr
  failing err hr := by cases hr

end System

/-! ### Counters -/

/-- The counters keep to their bounds, a record that is done or has failed names no folder, and
a record that is done is not taken up again. -/
structure Bounded (log : List Status) : Prop where
  folders : ∀ st ∈ log, st.foldersDone ≤ st.foldersTotal
  bodies : ∀ st ∈ log, st.bodiesDone ≤ st.bodiesTotal
  folder : ∀ st ∈ log, st.phase = .done ∨ st.phase = .error →
    st.currentFolder = [] ∧ st.currentFolderType = none
  order : log.Pairwise fun s t => s.phase = .done → t.startedAt = s.startedAt →
    t.phase = .done ∨ t.phase = .error

theorem terminal_iff (st : Status) : st.terminal = true ↔ st.phase = .done ∨ st.phase = .error := by
  simp [Status.terminal]

/-- **The progress that is published keeps to its bounds** in every run in which one
synchronisation at a time is under way or asked for, and no server answers a mail twice. -/
theorem bounded_of_run {s : System}
    (hrun : Run step (fun s a => s.fair false a = true) .new s) : Bounded s.store.log := by
  have hinv : Inv false s :=
    hrun.invariant (fun _ _ _ h hfair hstep => inv_step h hfair hstep) inv_new
  refine ⟨fun st hst => (hinv.kept.good st hst).folders, fun st hst => (hinv.kept.good st hst).bodies,
    fun st hst hphase => ?_, hinv.kept.order.imp fun {a b} hfollows hdone hsame => ?_⟩
  · exact (hinv.kept.good st hst).quiet ((terminal_iff st).mpr hphase)
  · exact (terminal_iff b).mp (hfollows ((terminal_iff a).mpr (Or.inl hdone)) hsame).2

private def inbox : Folder := .bare 1 1 "INBOX".toList .inbox

private def label : Folder := .bare 2 1 "Label".toList .custom

/-- The steps of a synchronisation through folders that all succeed. -/
private def through (fs : List Folder) : List Luck :=
  [.listed fs, .ok] ++ fs.flatMap (fun _ => [.ok, .ok, .ok]) ++ [.ok, .ok]

/-- The steps of fetching one older body. -/
private def oneBody : List Luck := [.pending [[7]], .fetched fun _ => some [(7, true)], .ok, .ok]

/-- A poll of one folder, and one older body. -/
private def pollOnce : List Act := .poll :: (through [inbox] ++ oneBody).map .pollGoes

theorem bounded_of_run_poll : ∃ s, exec step (System.fair false) .new pollOnce = some s ∧
    s.store.log.length = 9 ∧ Bounded s.store.log := by
  have hview : (exec step (System.fair false) .new pollOnce).map (fun s => s.store.log.length)
      = some 9 := by decide
  obtain ⟨s, hs, hlength⟩ := Option.map_eq_some_iff.mp hview
  exact ⟨s, hs, hlength, bounded_of_run (Run.ofExec _ hs)⟩

/-- A poll of two folders; behind the first the user's request is carried out. -/
private def nested : List Act :=
  .poll :: ((through [inbox, label]).take 4).map .pollGoes ++ [.trigger, .take true] ++
    (through [inbox, label] ++ [Luck.ok]).map .taskGoes ++
      ((through [inbox, label]).drop 4).map .pollGoes

/-- **Three folders of two**: a synchronisation the user asked for ends between two folders of
a poll, and the poll goes on counting. -/
theorem three_of_two : ∃ s, exec step (fun _ _ => true) .new nested = some s ∧
    ¬ Bounded s.store.log := by
  have hview : (exec step (fun _ _ => true) .new nested).map (fun s =>
      s.store.log.any fun st => decide (st.foldersTotal < st.foldersDone)) = some true := by decide
  obtain ⟨s, hs, hany⟩ := Option.map_eq_some_iff.mp hview
  refine ⟨s, hs, fun hbounded => ?_⟩
  obtain ⟨st, hst, hlt⟩ := List.any_eq_true.mp hany
  have hle := hbounded.folders st hst
  rw [decide_eq_true_eq] at hlt
  omega

end FlyMail.Sync.Progress
