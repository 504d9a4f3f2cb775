/-
Frames that may be dropped, and those that may not.

A snapshot is terminal if no other of its record follows; only these go into the queue for
events, next to new mail and notices.  In a run in which a record gets no snapshot after its
terminal one, every queue for events holds at most one snapshot of a record.  That is counted:
what a queue holds of a record and what the publisher still owes it never exceeds what was put
into the record's terminal snapshots.

The frames of progress do not come into it at all: no step of their publication touches a
queue for events.
-/
import FlyMail.Proofs.Hub
import FlyMail.Proofs.Progress
import FlyMail.Sync.Feed

namespace FlyMail.Sse.Hub

variable {α : Type} {h t : Hub α} {p : α → Bool}

/-! ### What a queue for events holds -/

/-- How many such frames the subscriber's queue holds. -/
def held (p : α → Bool) (h : Hub α) (j : Nat) : Nat :=
  (h.subs[j]?.map fun s => s.events.queue.countP p).getD 0

/-- Whether the publisher is still to give the subscriber such a frame. -/
def owed (p : α → Bool) (h : Hub α) (j : Nat) : Nat :=
  match h.lock with
  | some (.publish x rest) => if p x && rest.contains j then 1 else 0
  | _ => 0

/-- An event is published. -/
def published? (p : α → Bool) : Act α → Nat
  | .publish x _ => if p x then 1 else 0
  | _ => 0

theorem held_modify (i j : Nat) {f : Subscriber α → Subscriber α}
    (hf : ∀ s, (f s).events.queue.countP p ≤ s.events.queue.countP p) :
    held p (h.modify i f) j ≤ held p h j := by
  unfold held
  rw [getElem?_modify]
  split
  · cases hs : h.subs[j]? with
    | none => exact Nat.le_refl _
    | some s => exact hf s
  · exact Nat.le_refl _

theorem held_modify_of_ne {i j : Nat} (hij : i ≠ j) (f : Subscriber α → Subscriber α) :
    held p (h.modify i f) j = held p h j := by
  unfold held
  rw [getElem?_modify, if_neg hij]

/-- An offer adds at most the frame. -/
theorem countP_offer {cap : Nat} (c : Chan α cap) (x : α) :
    (c.offer x).queue.countP p ≤ c.queue.countP p + if p x then 1 else 0 := by
  cases hroom : c.room with
  | false =>
      rw [Chan.offer_eq_self hroom]
      exact Nat.le_add_right _ _
  | true =>
      rw [Chan.offer_queue hroom, List.countP_append, List.countP_singleton]

theorem held_append (s : Subscriber α) (hempty : s.events.queue = []) (j : Nat) :
    held p { h with subs := h.subs ++ [s] } j ≤ held p h j := by
  unfold held
  show (((h.subs ++ [s])[j]?.map _).getD 0 : Nat) ≤ _
  rcases Nat.lt_trichotomy j h.subs.length with hlt | heq | hgt
  · rw [List.getElem?_append_left hlt]
  · subst heq
    rw [List.getElem?_concat_length]
    simp [hempty]
  · rw [List.getElem?_eq_none (by rw [List.length_append, List.length_singleton]; omega)]
    exact Nat.zero_le _

/-- The one who publishes goes on: what was owed is held now, if there was room. -/
theorem held_go (hinv : Inv h) {holder : Holder α} (hlock : h.lock = some holder)
    (hstep : h.go holder = some t) (j : Nat) :
    held p t j + owed p t j ≤ held p h j + owed p h j + 0 := by
  have hfree : ∀ i (f : Subscriber α → Subscriber α) (lock : Option (Holder α)) (panicked : Bool),
      (∀ s, (f s).events = s.events) → (∀ x rest, lock ≠ some (.publish x rest)) →
        held p { h.modify i f with lock := lock, panicked := panicked } j
          + owed p { h.modify i f with lock := lock, panicked := panicked } j
          ≤ held p h j + owed p h j + 0 := by
    intro i f lock panicked hf hnot
    have hheld : held p { h.modify i f with lock := lock, panicked := panicked } j ≤ held p h j :=
      held_modify (h := h) i j fun s => by rw [hf s]
    have howed : owed p { h.modify i f with lock := lock, panicked := panicked } j = 0 := by
      cases lock with
      | none => rfl
      | some holder =>
          cases holder with
          | publish x rest => exact absurd rfl (hnot x rest)
          | _ => rfl
    omega
  unfold go at hstep
  split at hstep
  · obtain rfl := Option.some.inj hstep
    exact Nat.add_le_add_left (Nat.zero_le _) _
  · obtain rfl := Option.some.inj hstep
    exact Nat.add_le_add_left (Nat.zero_le _) _
  · rename_i x i rest
    obtain ⟨s, hs, rfl⟩ := Option.map_eq_some_iff.mp hstep
    have hnot : i ∉ rest := (List.nodup_cons.mp (hinv.holding _ hlock).nodup).1
    by_cases hij : i = j
    · subst hij
      have howes : owed p h i = if p x then 1 else 0 := by
        simp only [owed, hlock]
        simp
      have howed : owed p (h.sendEvent i s x (.publish x rest)) i = 0 := by
        simp only [owed, sendEvent]
        simp [hnot]
      have hheld : held p (h.sendEvent i s x (.publish x rest)) i
          ≤ held p h i + if p x then 1 else 0 := by
        show held p (h.modify i _) i ≤ _
        unfold held
        rw [getElem?_modify, if_pos rfl, hs]
        exact countP_offer s.events x
      omega
    · have hheld : held p (h.sendEvent i s x (.publish x rest)) j = held p h j :=
        held_modify_of_ne hij _
      have howed : owed p (h.sendEvent i s x (.publish x rest)) j = owed p h j := by
        simp only [owed, sendEvent, hlock]
        simp [Ne.symm hij]
      omega
  · rename_i x i rest
    obtain ⟨s, hs, rfl⟩ := Option.map_eq_some_iff.mp hstep
    refine hfree i _ _ _ (fun _ => rfl) fun y rest' => ?_
    split <;> exact nofun
  · obtain rfl := Option.some.inj hstep
    exact hfree _ _ _ h.panicked (fun _ => rfl) nofun
  · obtain ⟨s, hs, rfl⟩ := Option.map_eq_some_iff.mp hstep
    exact hfree _ _ _ _ (fun _ => rfl) nofun

/-- **What a step adds to what a queue holds and is owed**: an event that is published. -/
theorem held_step (hinv : Inv h) {a : Act α} (hstep : h.step a = some t) (j : Nat) :
    held p t j + owed p t j ≤ held p h j + owed p h j + published? p a := by
  have hkeep : ∀ i (f : Subscriber α → Subscriber α),
      (∀ s, (f s).events.queue.countP p ≤ s.events.queue.countP p) →
        held p (h.modify i f) j + owed p (h.modify i f) j ≤ held p h j + owed p h j + 0 := by
    intro i f hf
    have hheld := held_modify (h := h) i j hf
    have howed : owed p (h.modify i f) j = owed p h j := rfl
    omega
  cases a with
  | subscribe =>
      simp only [step] at hstep
      split at hstep
      · obtain rfl := Option.some.inj hstep
        have hheld := held_append (h := h) (p := p) ⟨.empty, .empty, true, h.log.length, []⟩ rfl j
        exact Nat.add_le_add_right hheld _
      · cases hstep
  | remove i =>
      simp only [step] at hstep
      split at hstep
      · split at hstep
        · obtain rfl := Option.some.inj hstep
          exact hkeep i _ fun _ => Nat.le_refl _
        · cases hstep
      · cases hstep
  | closeEvents i =>
      simp only [step] at hstep
      split at hstep
      · split at hstep
        · cases hstep
        · obtain rfl := Option.some.inj hstep
          exact hkeep i _ fun _ => Nat.le_refl _
      · cases hstep
  | closeProgress i =>
      simp only [step] at hstep
      split at hstep
      · split at hstep
        · obtain rfl := Option.some.inj hstep
          exact hkeep i _ fun _ => Nat.le_refl _
        · cases hstep
      · cases hstep
  | publish x order =>
      simp only [step] at hstep
      split at hstep
      · obtain rfl := Option.some.inj hstep
        have howed : owed p { h with lock := some (.publish x order) } j ≤ if p x then 1 else 0 := by
          simp only [owed]
          cases p x <;> split <;> simp_all
        have hheld : held p { h with lock := some (.publish x order) } j = held p h j := rfl
        simp only [published?]
        omega
      · cases hstep
  | publishProgress x order =>
      simp only [step] at hstep
      split at hstep
      · obtain rfl := Option.some.inj hstep
        have howed : owed p { h with lock := some (.offer x order), log := h.log ++ [x] } j = 0 := rfl
        have hheld : held p { h with lock := some (.offer x order), log := h.log ++ [x] } j
          = held p h j := rfl
        omega
      · cases hstep
  | go =>
      simp only [step] at hstep
      split at hstep
      · rename_i holder hlock
        exact held_go hinv hlock hstep j
      · cases hstep
  | receiveEvent i =>
      simp only [step] at hstep
      split at hstep
      · split at hstep
        · cases hstep
        · obtain rfl := Option.some.inj hstep
          exact hkeep i _ fun s => (List.tail_sublist s.events.queue).countP_le
      · cases hstep
  | receiveProgress i =>
      simp only [step] at hstep
      split at hstep
      · split at hstep
        · cases hstep
        · obtain rfl := Option.some.inj hstep
          exact hkeep i _ fun _ => Nat.le_refl _
      · cases hstep

end FlyMail.Sse.Hub

namespace FlyMail.Sync.Progress

open Sse (Hub Subscriber)

/-! ### What is written is published -/

theorem grows_mutate (f : Status → Status) (s : Store) : s.log <+: (s.mutate f).log := by
  unfold Store.mutate
  split
  · exact List.prefix_rfl
  · exact List.prefix_append _ _

theorem grows_begin (phase : Phase) (s : Store) : s.log <+: (s.begin phase).log :=
  List.prefix_append _ _

/-- A step of a synchronisation changes the record once, or not at all. -/
theorem Round.writes {r r' : Round} {l : Luck} {f : Store → Store}
    (hstep : r.step l = some (r', f)) : f = id ∨ ∃ g, f = Store.mutate g := by
  unfold Round.step at hstep
  split at hstep
  -- after the last folder the synchronisation fails, or goes on without a word
  case h_5 =>
    split at hstep
    · cases hstep
      exact Or.inr ⟨_, rfl⟩
    · cases hstep
      exact Or.inl rfl
  -- there must be a body to fetch
  case h_11 =>
    split at hstep
    · cases hstep
    · cases hstep
      exact Or.inr ⟨_, rfl⟩
  all_goals
    first
      | (cases hstep; exact Or.inr ⟨_, rfl⟩)
      | (cases hstep; exact Or.inl rfl)
      | cases hstep

theorem Round.grows {r r' : Round} {l : Luck} {f : Store → Store}
    (hstep : r.step l = some (r', f)) (s : Store) : s.log <+: (f s).log := by
  rcases Round.writes hstep with rfl | ⟨g, rfl⟩
  · exact List.prefix_rfl
  · exact grows_mutate g s

theorem grows_start (s : System) (slot : Bool) : s.store.log <+: (s.start slot).store.log := by
  cases slot with
  | true => exact grows_begin _ _
  | false => exact grows_mutate _ _

/-- The snapshots of a step stand behind those before. -/
theorem log_grows {s t : System} {a : Act} (hstep : step s a = some t) :
    s.store.log <+: t.store.log := by
  cases a with
  | trigger =>
      simp only [step] at hstep
      split at hstep
      · exact Option.some.inj hstep ▸ grows_begin _ _
      · cases hstep
  | poll =>
      simp only [step] at hstep
      split at hstep
      · exact Option.some.inj hstep ▸ grows_begin _ _
      · cases hstep
  | take slot =>
      simp only [step] at hstep
      split at hstep
      · exact Option.some.inj hstep ▸ grows_start s slot
      · cases hstep
  | retry slot =>
      simp only [step] at hstep
      split at hstep
      · exact Option.some.inj hstep ▸ grows_start s slot
      · cases hstep
  | taskFails err =>
      simp only [step] at hstep
      split at hstep
      · exact Option.some.inj hstep ▸ List.prefix_rfl
      · cases hstep
  | pollGoes l =>
      simp only [step] at hstep
      split at hstep
      · split at hstep
        · cases hstep
        · obtain ⟨⟨r', f⟩, hround, rfl⟩ := Option.map_eq_some_iff.mp hstep
          exact Round.grows hround s.store
      · cases hstep
  | taskGoes l =>
      simp only [step] at hstep
      split at hstep
      · cases hstep
      · obtain ⟨⟨r', f⟩, hround, rfl⟩ := Option.map_eq_some_iff.mp hstep
        exact Round.grows hround s.store
  | report =>
      simp only [step] at hstep
      split at hstep
      · exact Option.some.inj hstep ▸ grows_mutate _ _
      · cases hstep
  | abandon =>
      simp only [step] at hstep
      split at hstep
      · exact Option.some.inj hstep ▸ List.prefix_rfl
      · exact Option.some.inj hstep ▸ List.prefix_rfl
      · cases hstep

/-- At most one terminal snapshot of a record. -/
theorem terminal_once {log : List Status} (h : log.Pairwise (Follows true)) (round : Nat) :
    (log.countP fun st => st.startedAt == round && st.terminal) ≤ 1 := by
  induction log with
  | nil => exact Nat.zero_le _
  | cons st rest ih =>
      obtain ⟨hfirst, hrest⟩ := List.pairwise_cons.mp h
      by_cases hst : (st.startedAt == round && st.terminal) = true
      · rw [Bool.and_eq_true, beq_iff_eq] at hst
        have hnone : (rest.countP fun st => st.startedAt == round && st.terminal) = 0 := by
          refine List.countP_eq_zero.mpr fun b hb hc => ?_
          rw [Bool.and_eq_true, beq_iff_eq] at hc
          have hfalse := (hfirst b hb hst.2 (hc.1.trans hst.1.symm)).1
          cases hfalse
        rw [List.countP_cons, hnone]
        split <;> omega
      · rw [List.countP_cons, if_neg hst]
        exact ih hrest

/-- A snapshot that others follow. -/
def Frame.droppable : Frame → Bool
  | .status st => !st.terminal
  | .other _ => false

structure FeedInv (f : Feed) : Prop where
  hub : Hub.Inv f.hub
  sys : Inv true f.sys
  /-- What the queues hold was put into terminal snapshots. -/
  counted : ∀ round j, Hub.held (Frame.ofRound round) f.hub j + Hub.owed (Frame.ofRound round) f.hub j
    + (f.outbox.countP fun st => st.startedAt == round && st.terminal)
    ≤ f.sys.store.log.countP fun st => st.startedAt == round && st.terminal
  pure_ : ∀ j, Hub.held Frame.droppable f.hub j + Hub.owed Frame.droppable f.hub j = 0

/-- The steps of the account's synchronisations are fair, and the others any. -/
def Feed.fair (f : Feed) : FeedAct → Bool
  | .sync a => f.sys.fair true a
  | _ => true

section Step

variable {f g : Feed}

/-- What is published of a snapshot is an event only if it is terminal. -/
theorem published_snapshot (order : List Nat) (st : Status) (p : Frame → Bool) :
    Hub.published? p (publishStatus .status order st)
      = if st.terminal && p (.status st) then 1 else 0 := by
  unfold publishStatus
  cases st.terminal with
  | true => simp [Hub.published?]
  | false => rfl

/-- Frames of others are no snapshots of the account's record. -/
theorem published_other {a : Hub.Act Frame} (hown : ownFrame a = false) {p : Frame → Bool}
    (hp : ∀ payload, p (.other payload) = false) : Hub.published? p a = 0 := by
  cases a with
  | publish x order =>
      cases x with
      | status st => cases hown
      | other payload => simp [Hub.published?, hp]
  | _ => rfl

theorem feedInv_step (h : FeedInv f) {a : FeedAct} (hfair : f.fair a = true)
    (hstep : f.step a = some g) : FeedInv g := by
  cases a with
  | sync a =>
      obtain ⟨s, hs, rfl⟩ := Option.map_eq_some_iff.mp hstep
      refine ⟨h.hub, inv_step h.sys hfair hs, fun round j => ?_, h.pure_⟩
      obtain ⟨new, hnew⟩ := log_grows hs
      have hcount := h.counted round j
      show Hub.held _ f.hub j + Hub.owed _ f.hub j
        + List.countP _ (f.outbox ++ s.store.log.drop f.sys.store.log.length)
        ≤ List.countP _ s.store.log
      rw [← hnew, List.drop_left, List.countP_append, List.countP_append]
      omega
  | send order =>
      simp only [Feed.step] at hstep
      split at hstep
      · cases hstep
      · rename_i st rest houtbox
        obtain ⟨hub, hhub, rfl⟩ := Option.map_eq_some_iff.mp hstep
        refine ⟨Hub.inv_step h.hub hhub, h.sys, fun round j => ?_, fun j => ?_⟩
        · have hstep := Hub.held_step (p := Frame.ofRound round) h.hub hhub j
          have hcount := h.counted round j
          rw [published_snapshot] at hstep
          rw [houtbox, List.countP_cons] at hcount
          have hsame : (st.terminal && Frame.ofRound round (.status st))
              = (st.startedAt == round && st.terminal) := Bool.and_comm _ _
          rw [hsame] at hstep
          show Hub.held _ hub j + Hub.owed _ hub j + List.countP _ rest ≤ List.countP _ f.sys.store.log
          omega
        · have hstep := Hub.held_step (p := Frame.droppable) h.hub hhub j
          have hnone : (st.terminal && Frame.droppable (.status st)) = false := by
            simp [Frame.droppable]
          rw [published_snapshot, hnone, h.pure_ j] at hstep
          exact Nat.le_zero.mp hstep
  | hub a =>
      simp only [Feed.step] at hstep
      split at hstep
      · cases hstep
      · rename_i hown
        obtain ⟨hub, hhub, rfl⟩ := Option.map_eq_some_iff.mp hstep
        rw [Bool.not_eq_true] at hown
        refine ⟨Hub.inv_step h.hub hhub, h.sys, fun round j => ?_, fun j => ?_⟩
        · have hstep := Hub.held_step (p := Frame.ofRound round) h.hub hhub j
          rw [published_other hown fun _ => rfl] at hstep
          have hcount := h.counted round j
          show Hub.held _ hub j + Hub.owed _ hub j + List.countP _ f.outbox
            ≤ List.countP _ f.sys.store.log
          omega
        · have hstep := Hub.held_step (p := Frame.droppable) h.hub hhub j
          rw [published_other hown fun _ => rfl, h.pure_ j] at hstep
          exact Nat.le_zero.mp hstep

theorem feedInv_new : FeedInv .new where
  hub := Hub.inv_new
  sys := inv_new
  counted _ _ := Nat.le_refl _
  pure_ _ := rfl

end Step

/-! ### Events are not displaced -/

/-- What the publication of progress does not touch. -/
theorem progress_leaves_events {h t : Hub Frame} (hprogress : h.publishing = true)
    (hstep : h.step .go = some t) (j : Nat) :
    t.subs[j]?.map Subscriber.events = h.subs[j]?.map Subscriber.events := by
  have hkeep : ∀ i (f : Subscriber Frame → Subscriber Frame), (∀ s, (f s).events = s.events) →
      (h.modify i f).subs[j]?.map Subscriber.events = h.subs[j]?.map Subscriber.events := by
    intro i f hf
    rw [Hub.getElem?_modify]
    split
    · rw [Option.map_map]
      exact congrArg (fun g => h.subs[j]?.map g) (funext hf)
    · rfl
  unfold Hub.publishing at hprogress
  simp only [Hub.step] at hstep
  split at hstep
  · rename_i holder hlock
    rw [hlock] at hprogress
    cases holder with
    | publish x rest => cases hprogress
    | offer x rest =>
        cases rest with
        | nil =>
            obtain rfl := Option.some.inj hstep
            rfl
        | cons i rest =>
            obtain ⟨s, -, rfl⟩ := Option.map_eq_some_iff.mp hstep
            exact hkeep i _ fun _ => rfl
    | drain x i rest =>
        obtain rfl := Option.some.inj hstep
        exact hkeep i _ fun _ => rfl
    | retry x i rest =>
        obtain ⟨s, -, rfl⟩ := Option.map_eq_some_iff.mp hstep
        exact hkeep i _ fun _ => rfl
  · cases hstep

/-- Snapshots that others follow stay out of the queues for events. -/
structure Undisplaced (f : Feed) : Prop where
  /-- A snapshot that another of its record follows is published as progress. -/
  followed : f.sys.store.log.Pairwise fun s t => t.startedAt = s.startedAt →
    ∀ order, publishStatus Frame.status order s = .publishProgress (.status s) order
  /-- No queue for events holds two snapshots of a record. -/
  once : ∀ round j, Hub.held (Frame.ofRound round) f.hub j ≤ 1
  /-- What a queue for events holds is not followed by another snapshot. -/
  last : ∀ j, Hub.held Frame.droppable f.hub j = 0
  /-- While progress is published, no queue for events changes. -/
  apart : ∀ hub, f.hub.publishing = true → f.hub.step .go = some hub →
    ∀ j : Nat, hub.subs[j]?.map Subscriber.events = f.hub.subs[j]?.map Subscriber.events

/-- **Progress displaces no event** in every run in which a record gets no snapshot after its
terminal one: one synchronisation at a time, no bodies of older mails, and no failure that is
reported twice. -/
theorem undisplaced_of_run {f : Feed}
    (hrun : Run Feed.step (fun f a => f.fair a = true) .new f) : Undisplaced f := by
  have hinv : FeedInv f :=
    hrun.invariant (fun _ _ _ h hfair hstep => feedInv_step h hfair hstep) feedInv_new
  refine ⟨?_, fun round j => ?_, fun j => ?_, fun hub => progress_leaves_events⟩
  · refine hinv.sys.kept.order.imp fun {a b} hfollows hsame order => ?_
    have hopen : a.terminal = false := by
      cases hterminal : a.terminal with
      | false => rfl
      | true =>
          have hstrict := (hfollows hterminal hsame).1
          cases hstrict
    unfold publishStatus
    rw [hopen]
    rfl
  · have hcounted := hinv.counted round j
    have honce := terminal_once hinv.sys.kept.order round
    omega
  · have hpure := hinv.pure_ j
    omega

/-- A subscriber that reads nothing. -/
private def listens : FeedAct := .hub .subscribe

/-- The next snapshot is published to it. -/
private def published : List FeedAct := [.send [0], .hub .go, .hub .go]

/-- A poll of one folder, and these steps behind it. -/
private def polls (more : List Luck) : List FeedAct :=
  (Act.poll :: ([Luck.listed [.bare 1 1 "INBOX".toList .inbox], .ok, .ok, .ok, .ok, .ok, .ok] ++
    more).map Act.pollGoes).map FeedAct.sync

/-- Six snapshots, of which the last is an event. -/
theorem undisplaced_of_run_poll : ∃ f, exec Feed.step Feed.fair .new
    (listens :: (polls [] ++ (List.replicate 6 published).flatten)) = some f ∧
      Hub.held (Frame.ofRound 1) f.hub 0 = 1 ∧ Undisplaced f := by
  have hview : (exec Feed.step Feed.fair .new
      (listens :: (polls [] ++ (List.replicate 6 published).flatten))).map
        (fun f => Hub.held (Frame.ofRound 1) f.hub 0) = some 1 := by decide
  obtain ⟨f, hf, hheld⟩ := Option.map_eq_some_iff.mp hview
  exact ⟨f, hf, hheld, undisplaced_of_run (Run.ofExec _ hf)⟩

/-- **Four events of one round**: after the mails a poll fetches the body of an older one. -/
theorem four_of_one_round : ∃ f, exec Feed.step (fun _ _ => true) .new
    (listens :: (polls [.pending [[7]], .fetched fun _ => some [(7, true)], .ok, .ok] ++
      (List.replicate 9 published).flatten)) = some f ∧
      Hub.held (Frame.ofRound 1) f.hub 0 = 4 ∧ ¬ Undisplaced f := by
  have hview : (exec Feed.step (fun _ _ => true) .new
      (listens :: (polls [.pending [[7]], .fetched fun _ => some [(7, true)], .ok, .ok] ++
        (List.replicate 9 published).flatten))).map
        (fun f => Hub.held (Frame.ofRound 1) f.hub 0) = some 4 := by decide
  obtain ⟨f, hf, hheld⟩ := Option.map_eq_some_iff.mp hview
  refine ⟨f, hf, hheld, fun h => ?_⟩
  have hle := h.once 1 0
  omega

end FlyMail.Sync.Progress
