/-
What a subscriber of the hub gets.

The frames a subscriber has read or has queued are, in this order, frames that were published
since it came, and outside of a publication the last of them is the last one published: with
the lock held only the consumer works on a queue beside the publisher, and it only makes
room.  So the second attempt to send, after the oldest frame has gone, never fails.

While a frame is published the subscribers fall into those that are still to get it and the
others.  `Good` says of one subscriber what holds in either case, and `Holding` what holds of
the one who publishes.
-/
import FlyMail.Sse.Hub

namespace FlyMail.Sse

variable {α : Type}

/-- Who is still to be gone through. -/
def Holder.targets : Holder α → List Nat
  | .publish _ rest => rest
  | .offer _ rest => rest
  | .drain _ i rest => i :: rest
  | .retry _ i rest => i :: rest

/-- The frame that is being published. -/
def Holder.frame : Holder α → Option α
  | .publish _ _ => none
  | .offer x _ => some x
  | .drain x _ _ => some x
  | .retry x _ _ => some x

/-- Who is still to get the frame that is being published. -/
def Holder.pending (holder : Holder α) : List Nat :=
  if holder.frame.isSome then holder.targets else []

/-- What a subscriber has read and what it has queued. -/
def Subscriber.frames (s : Subscriber α) : List α := s.received ++ s.progress.queue

namespace Hub

def pending (h : Hub α) : List Nat := (h.lock.map Holder.pending).getD []

/-- What holds of the `i`-th subscriber, the frames in `log` being published and those in
`pending` still to get the last of them. -/
structure Good (log : List α) (pending : List Nat) (i : Nat) (s : Subscriber α) : Prop where
  closed : s.events.closed = true ∨ s.progress.closed = true → s.live = false
  since : s.since ≤ log.length
  order : s.frames.Sublist (log.drop s.since)
  before : i ∈ pending → s.frames.Sublist (log.dropLast.drop s.since)
  newest : s.live = true → i ∉ pending → s.frames.getLast? = (log.drop s.since).getLast?

/-- What holds of the one who has the lock. -/
structure Holding (h : Hub α) (holder : Holder α) : Prop where
  live : ∀ i ∈ holder.targets, ∃ s, h.subs[i]? = some s ∧ s.live = true
  nodup : holder.targets.Nodup
  frame : ∀ x, holder.frame = some x → ∃ l, h.log = l ++ [x]
  since : holder.frame.isSome → ∀ s ∈ h.subs, s.since < h.log.length

structure Inv (h : Hub α) : Prop where
  no_panic : h.panicked = false
  good : ∀ i s, h.subs[i]? = some s → Good h.log h.pending i s
  holding : ∀ holder, h.lock = some holder → Holding h holder
  /-- The oldest frame of the queue has gone. -/
  room : ∀ x i rest, h.lock = some (.retry x i rest) → ∀ s, h.subs[i]? = some s →
    s.progress.room = true

/-! ### One subscriber -/

section Subscriber

variable {log : List α} {pending : List Nat} {i : Nat} {s t : Subscriber α}

/-- What only concerns the consumer changes nothing. -/
theorem Good.of_frames (hs : Good log pending i s)
    (hclosed : t.events.closed = true ∨ t.progress.closed = true → t.live = false)
    (hsince : t.since = s.since) (hframes : t.frames = s.frames)
    (hlive : t.live = true → s.live = true) : Good log pending i t where
  closed := hclosed
  since := hsince ▸ hs.since
  order := by rw [hframes, hsince]; exact hs.order
  before hi := by rw [hframes, hsince]; exact hs.before hi
  newest h hi := by rw [hframes, hsince]; exact hs.newest (hlive h) hi

/-- A subscriber that is not to be gone through does not see who is. -/
theorem Good.of_pending {pending' : List Nat} (hs : Good log pending i s)
    (h : i ∈ pending ↔ i ∈ pending') : Good log pending' i s where
  closed := hs.closed
  since := hs.since
  order := hs.order
  before hi := hs.before (h.mpr hi)
  newest hlive hi := hs.newest hlive fun hp => hi (h.mp hp)

/-- The oldest frame of a queue goes. -/
theorem Good.drain (hs : Good log pending i s) (hi : i ∈ pending) :
    Good log pending i { s with progress := s.progress.drop } where
  closed := hs.closed
  since := hs.since
  order := by
    refine List.Sublist.trans ?_ hs.order
    exact List.Sublist.append_left (List.tail_sublist _) _
  before hi := by
    refine List.Sublist.trans ?_ (hs.before hi)
    exact List.Sublist.append_left (List.tail_sublist _) _
  newest _ hnot := absurd hi hnot

/-- **The frame that is being published arrives** where there is room. -/
theorem Good.send {l : List α} {x : α} {pending' : List Nat}
    (hs : Good (l ++ [x]) pending i s) (hi : i ∈ pending) (hi' : i ∉ pending')
    (hsince : s.since ≤ l.length) (hroom : s.progress.room = true) :
    Good (l ++ [x]) pending' i { s with progress := s.progress.offer x } := by
  have hframes : Subscriber.frames { s with progress := s.progress.offer x } = s.frames ++ [x] := by
    unfold Subscriber.frames
    rw [Chan.offer_queue hroom, List.append_assoc]
  have hdrop : (l ++ [x]).drop s.since = l.drop s.since ++ [x] :=
    List.drop_append_of_le_length hsince
  refine ⟨?_, hs.since, ?_, fun h => absurd h hi', fun _ _ => ?_⟩
  · intro hclosed
    rw [Chan.offer_closed] at hclosed
    exact hs.closed hclosed
  · have hbefore := hs.before hi
    rw [List.dropLast_concat] at hbefore
    rw [hframes, hdrop]
    exact hbefore.append (List.Sublist.refl [x])
  · rw [hframes, hdrop, List.getLast?_concat, List.getLast?_concat]

/-- A frame begins to be published. -/
theorem Good.publish (hs : Good log [] i s) (x : α) (hi : s.live = true → i ∈ pending) :
    Good (log ++ [x]) pending i s where
  closed := hs.closed
  since := by
    have hsince := hs.since
    rw [List.length_append]
    omega
  order := by
    rw [List.drop_append_of_le_length hs.since]
    exact hs.order.trans (List.sublist_append_left _ _)
  before _ := by
    rw [List.dropLast_concat]
    exact hs.order
  newest hlive hnot := absurd (hi hlive) hnot

end Subscriber

/-! ### Steps -/

section Steps

variable {h : Hub α}

theorem getElem?_modify (h : Hub α) (i j : Nat) (f : Subscriber α → Subscriber α) :
    (h.modify i f).subs[j]? = if i = j then h.subs[j]?.map f else h.subs[j]? := by
  show (h.subs.modify i f)[j]? = _
  rw [List.getElem?_modify]
  split <;> simp

/-- The subscribers after one of them has changed. -/
theorem good_modify {log : List α} {pending : List Nat} {i : Nat} {s : Subscriber α}
    {f : Subscriber α → Subscriber α} (hs : h.subs[i]? = some s) (hgood : Good log pending i (f s))
    (hrest : ∀ j t, j ≠ i → h.subs[j]? = some t → Good log pending j t) :
    ∀ j t, (h.modify i f).subs[j]? = some t → Good log pending j t := by
  intro j t ht
  rw [getElem?_modify] at ht
  by_cases hij : i = j
  · rw [if_pos hij, ← hij, hs] at ht
    obtain rfl := Option.some.inj ht
    exact hij ▸ hgood
  · rw [if_neg hij] at ht
    exact hrest j t (fun heq => hij heq.symm) ht

/-- The one who holds the lock sees no difference if a subscriber changes but stays in the
hub. -/
theorem Holding.modify {holder : Holder α} (hh : Holding h holder) {i : Nat}
    {f : Subscriber α → Subscriber α} (hlive : ∀ s, (f s).live = s.live)
    (hsince : ∀ s, (f s).since = s.since) : Holding (h.modify i f) holder := by
  refine ⟨fun j hj => ?_, hh.nodup, hh.frame, fun hframe t ht => ?_⟩
  · obtain ⟨s, hs, hl⟩ := hh.live j hj
    rw [getElem?_modify, hs]
    split
    · exact ⟨f s, rfl, (hlive s).trans hl⟩
    · exact ⟨s, rfl, hl⟩
  · obtain ⟨j, hj⟩ := List.mem_iff_getElem?.mp ht
    rw [getElem?_modify] at hj
    split at hj
    · obtain ⟨s, hs, rfl⟩ := Option.map_eq_some_iff.mp hj
      rw [hsince]
      exact hh.since hframe s (List.mem_of_getElem? hs)
    · exact hh.since hframe t (List.mem_of_getElem? hj)

/-- Those that were gone through are behind. -/
theorem Holding.tail {holder holder' : Holder α} {i : Nat} (hh : Holding h holder)
    (htargets : holder.targets = i :: holder'.targets) (hframe : holder'.frame = holder.frame) :
    Holding h holder' where
  live j hj := hh.live j (by rw [htargets]; exact List.mem_cons_of_mem i hj)
  nodup := by
    have hnodup := hh.nodup
    rw [htargets] at hnodup
    exact (List.nodup_cons.mp hnodup).2
  frame := hframe ▸ hh.frame
  since := hframe ▸ hh.since

/-- A step of a consumer, or of a cancelled subscription that closes its channels. -/
theorem Inv.consumer (hinv : Inv h) {i : Nat} {s : Subscriber α} (hs : h.subs[i]? = some s)
    {f : Subscriber α → Subscriber α} (hgood : Good h.log h.pending i (f s))
    (hlive : ∀ s, (f s).live = s.live) (hsince : ∀ s, (f s).since = s.since)
    (hroom : ∀ s, s.progress.room = true → (f s).progress.room = true) :
    Inv (h.modify i f) where
  no_panic := hinv.no_panic
  good := good_modify hs hgood fun j t _ => hinv.good j t
  holding holder hlock := (hinv.holding holder hlock).modify hlive hsince
  room x j rest hlock t ht := by
    rw [getElem?_modify] at ht
    split at ht
    · obtain ⟨t', ht', rfl⟩ := Option.map_eq_some_iff.mp ht
      exact hroom t' (hinv.room x j rest hlock t' ht')
    · exact hinv.room x j rest hlock t ht

theorem pending_eq {holder : Holder α} (hlock : h.lock = some holder) :
    h.pending = holder.pending := by
  unfold pending
  rw [hlock]
  rfl

/-- The one who holds the lock goes on: a subscriber and the lock change at once. -/
theorem Inv.go_on (hinv : Inv h) {holder : Holder α} (holder' : Holder α)
    (hlock : h.lock = some holder) {i : Nat} {s : Subscriber α} (hs : h.subs[i]? = some s)
    (f : Subscriber α → Subscriber α) (hgood : Good h.log holder'.pending i (f s))
    (hrest : ∀ j, j ≠ i → (j ∈ holder.pending ↔ j ∈ holder'.pending))
    (hlive : ∀ s, (f s).live = s.live) (hsince : ∀ s, (f s).since = s.since)
    (hnext : Holding h holder')
    (hroom : ∀ x j rest, holder' = .retry x j rest → j = i ∧ (f s).progress.room = true)
    {sent : Bool} (hcalm : sent = false) :
    Inv { h.modify i f with lock := some holder', panicked := h.panicked || sent } where
  no_panic := by
    show (h.panicked || sent) = false
    rw [hinv.no_panic, hcalm]
    rfl
  good := by
    refine good_modify hs hgood fun j t hj ht => ?_
    have hold := hinv.good j t ht
    rw [pending_eq hlock] at hold
    exact hold.of_pending (hrest j hj)
  holding holder'' heq := by
    obtain rfl := Option.some.inj heq
    have hmodified := hnext.modify hlive hsince (i := i)
    exact ⟨hmodified.live, hmodified.nodup, hmodified.frame, hmodified.since⟩
  room x j rest heq t ht := by
    obtain ⟨rfl, hr⟩ := hroom x j rest (Option.some.inj heq)
    change (h.modify j f).subs[j]? = some t at ht
    rw [getElem?_modify, if_pos rfl, hs] at ht
    obtain rfl := Option.some.inj ht
    exact hr

/-- A subscriber that is still to be gone through is in the hub, so its channels are open. -/
theorem Inv.target (hinv : Inv h) {holder : Holder α} (hlock : h.lock = some holder) {i : Nat}
    (hi : i ∈ holder.targets) :
    ∃ s, h.subs[i]? = some s ∧ Good h.log holder.pending i s ∧ s.events.closed = false ∧
      s.progress.closed = false := by
  obtain ⟨s, hs, hlive⟩ := (hinv.holding holder hlock).live i hi
  have hgood := hinv.good i s hs
  have hopen : ∀ b, (b = true → s.live = false) → b = false := by
    intro b hb
    refine Bool.eq_false_iff.mpr fun htrue => ?_
    rw [hb htrue] at hlive
    exact Bool.false_ne_true hlive
  rw [pending_eq hlock] at hgood
  exact ⟨s, hs, hgood, hopen _ fun hc => hgood.closed (Or.inl hc),
    hopen _ fun hc => hgood.closed (Or.inr hc)⟩

theorem inv_unlock (hinv : Inv h) {holder : Holder α} (hlock : h.lock = some holder)
    (hdone : holder.targets = []) : Inv { h with lock := none } where
  no_panic := hinv.no_panic
  good i s hs := by
    have hpending : holder.pending = [] := by
      unfold Holder.pending
      rw [hdone, ite_self]
    have hgood := hinv.good i s hs
    rw [pending_eq hlock, hpending] at hgood
    exact hgood
  holding holder heq := by cases heq
  room x i rest heq := by cases heq

theorem inv_sendEvent (hinv : Inv h) {x : α} {i : Nat} {rest : List Nat}
    (hlock : h.lock = some (.publish x (i :: rest))) :
    ∃ s, h.subs[i]? = some s ∧ Inv (h.sendEvent i s x (.publish x rest)) := by
  obtain ⟨s, hs, hgood, hopen, -⟩ := hinv.target hlock List.mem_cons_self
  refine ⟨s, hs, hinv.go_on (.publish x rest) hlock hs
    (fun s => { s with events := s.events.offer x }) ?_ (fun _ _ => Iff.rfl) (fun _ => rfl)
    (fun _ => rfl) ((hinv.holding _ hlock).tail rfl rfl) (fun _ _ _ h => by cases h) hopen⟩
  refine hgood.of_frames (fun hc => ?_) rfl rfl id
  rw [Chan.offer_closed] at hc
  exact hgood.closed hc

/-- A frame is sent where there is room. -/
theorem inv_sendProgress (hinv : Inv h) {holder : Holder α} {x : α} {i : Nat} {rest : List Nat}
    (hlock : h.lock = some holder) (htargets : holder.targets = i :: rest)
    (hframe : holder.frame = some x)
    (hroom : ∀ s, h.subs[i]? = some s → s.progress.room = true) :
    ∃ s, h.subs[i]? = some s ∧ Inv (h.sendProgress i s x (.offer x rest)) := by
  have hholding := hinv.holding _ hlock
  have hpending : holder.pending = i :: rest := by
    unfold Holder.pending
    rw [hframe]
    exact htargets
  have hnot : i ∉ rest := by
    have hnodup := hholding.nodup
    rw [htargets] at hnodup
    exact (List.nodup_cons.mp hnodup).1
  obtain ⟨s, hs, hgood, -, hopen⟩ := hinv.target hlock (i := i) (htargets ▸ List.mem_cons_self)
  obtain ⟨l, hl⟩ := hholding.frame x hframe
  refine ⟨s, hs, hinv.go_on (.offer x rest) hlock hs
    (fun s => { s with progress := s.progress.offer x }) ?_ (fun j hj => ?_) (fun _ => rfl)
    (fun _ => rfl) (hholding.tail htargets hframe.symm) (fun _ _ _ h => by cases h) hopen⟩
  · have hsince := hholding.since (by rw [hframe]; rfl) s (List.mem_of_getElem? hs)
    rw [hl, List.length_append, List.length_singleton] at hsince
    rw [hl, hpending] at hgood
    rw [hl]
    exact hgood.send List.mem_cons_self hnot (Nat.lt_succ_iff.mp hsince) (hroom s hs)
  · rw [hpending]
    exact ⟨fun h => (List.mem_cons.mp h).resolve_left hj, List.mem_cons_of_mem i⟩

/-- The first attempt finds no room. -/
theorem inv_full (hinv : Inv h) {x : α} {i : Nat} {rest : List Nat}
    (hlock : h.lock = some (.offer x (i :: rest)))
    (hfull : ∀ s, h.subs[i]? = some s → s.progress.room = false) :
    ∃ s, h.subs[i]? = some s ∧ Inv (h.sendProgress i s x (.drain x i rest)) := by
  have hholding := hinv.holding _ hlock
  obtain ⟨s, hs, hgood, -, hopen⟩ := hinv.target hlock List.mem_cons_self
  refine ⟨s, hs, hinv.go_on (.drain x i rest) hlock hs
    (fun s => { s with progress := s.progress.offer x }) ?_ (fun _ _ => Iff.rfl) (fun _ => rfl)
    (fun _ => rfl) ⟨hholding.live, hholding.nodup, hholding.frame, hholding.since⟩
    (fun _ _ _ h => by cases h) hopen⟩
  have hsame : s.progress.offer x = s.progress := Chan.offer_eq_self (hfull s hs) x
  rw [hsame]
  exact hgood

theorem inv_drain (hinv : Inv h) {x : α} {i : Nat} {rest : List Nat}
    (hlock : h.lock = some (.drain x i rest)) :
    Inv { h.modify i (fun s => { s with progress := s.progress.drop }) with
      lock := some (.retry x i rest) } := by
  have hholding := hinv.holding _ hlock
  obtain ⟨s, hs, hgood, -, hopen⟩ := hinv.target hlock List.mem_cons_self
  have hnext := hinv.go_on (.retry x i rest) hlock hs
    (fun s => { s with progress := s.progress.drop }) (hgood.drain List.mem_cons_self)
    (fun _ _ => Iff.rfl) (fun _ => rfl) (fun _ => rfl)
    ⟨hholding.live, hholding.nodup, hholding.frame, hholding.since⟩
    (fun _ _ _ h => by cases h; exact ⟨rfl, Chan.room_drop (by decide) _⟩) hopen
  rw [hopen, Bool.or_false] at hnext
  exact hnext

theorem mem_liveIDs {i : Nat} :
    i ∈ h.liveIDs ↔ ∃ s, h.subs[i]? = some s ∧ s.live = true := by
  unfold liveIDs
  rw [List.mem_filter, List.mem_range]
  constructor
  · rintro ⟨hlt, hlive⟩
    rw [List.getElem?_eq_getElem hlt] at hlive ⊢
    exact ⟨_, rfl, hlive⟩
  · rintro ⟨s, hs, hlive⟩
    obtain ⟨hlt, -⟩ := List.getElem?_eq_some_iff.mp hs
    rw [hs]
    exact ⟨hlt, hlive⟩

theorem nodup_liveIDs (h : Hub α) : h.liveIDs.Nodup := List.nodup_range.filter _

theorem pending_none (hlock : h.lock = none) : h.pending = [] := by
  unfold pending
  rw [hlock]
  rfl

theorem inv_subscribe (hinv : Inv h) (hlock : h.lock = none) :
    Inv { h with subs := h.subs ++ [⟨.empty, .empty, true, h.log.length, []⟩] } where
  no_panic := hinv.no_panic
  good i s hs := by
    change (h.subs ++ [_])[i]? = some s at hs
    rcases Nat.lt_trichotomy i h.subs.length with hlt | heq | hgt
    · rw [List.getElem?_append_left hlt] at hs
      exact hinv.good i s hs
    · subst heq
      rw [List.getElem?_concat_length] at hs
      obtain rfl := Option.some.inj hs
      refine ⟨fun hc => ?_, Nat.le_refl _, List.nil_sublist _, fun _ => List.nil_sublist _, ?_⟩
      · rcases hc with hc | hc <;> cases hc
      · intro _ _
        show none = (h.log.drop h.log.length).getLast?
        rw [List.drop_length]
        rfl
    · rw [List.getElem?_eq_none (by rw [List.length_append, List.length_singleton]; omega)] at hs
      cases hs
  holding holder heq := by rw [show h.lock = some holder from heq] at hlock; cases hlock
  room x i rest heq := by
    rw [show h.lock = some (.retry x i rest) from heq] at hlock
    cases hlock

theorem inv_remove (hinv : Inv h) (hlock : h.lock = none) {i : Nat} {s : Subscriber α}
    (hs : h.subs[i]? = some s) : Inv (h.modify i fun s => { s with live := false }) where
  no_panic := hinv.no_panic
  good := by
    refine good_modify hs ?_ fun j t _ => hinv.good j t
    exact (hinv.good i s hs).of_frames (fun _ => rfl) rfl rfl (fun hc => by cases hc)
  holding holder heq := by rw [show h.lock = some holder from heq] at hlock; cases hlock
  room x i rest heq := by
    rw [show h.lock = some (.retry x i rest) from heq] at hlock
    cases hlock

theorem inv_publish (hinv : Inv h) (hlock : h.lock = none) (x : α) {order : List Nat}
    (horder : order.Perm h.liveIDs) : Inv { h with lock := some (.publish x order) } where
  no_panic := hinv.no_panic
  good i s hs := by
    have hgood := hinv.good i s hs
    rw [pending_none hlock] at hgood
    exact hgood
  holding holder heq := by
    obtain rfl := Option.some.inj heq
    have hnone : (Holder.publish x order).frame = none := rfl
    refine ⟨fun i hi => mem_liveIDs.mp (horder.mem_iff.mp hi),
      horder.nodup_iff.mpr h.nodup_liveIDs, fun y hf => ?_, fun hf => ?_⟩
    · rw [hnone] at hf
      cases hf
    · rw [hnone] at hf
      cases hf
  room x i rest heq := by cases heq

theorem inv_publishProgress (hinv : Inv h) (hlock : h.lock = none) (x : α) {order : List Nat}
    (horder : order.Perm h.liveIDs) :
    Inv { h with lock := some (.offer x order), log := h.log ++ [x] } where
  no_panic := hinv.no_panic
  good i s hs := by
    have hgood := hinv.good i s hs
    rw [pending_none hlock] at hgood
    exact hgood.publish x fun hlive => horder.mem_iff.mpr (mem_liveIDs.mpr ⟨s, hs, hlive⟩)
  holding holder heq := by
    obtain rfl := Option.some.inj heq
    refine ⟨fun i hi => mem_liveIDs.mp (horder.mem_iff.mp hi), horder.nodup_iff.mpr h.nodup_liveIDs,
      fun y hf => ⟨h.log, by rw [Option.some.inj hf]⟩, fun _ s hs => ?_⟩
    obtain ⟨i, hi⟩ := List.mem_iff_getElem?.mp hs
    have hsince := (hinv.good i s hi).since
    show s.since < (h.log ++ [x]).length
    rw [List.length_append, List.length_singleton]
    omega
  room x i rest heq := by cases heq

theorem inv_go (hinv : Inv h) {holder : Holder α} (hlock : h.lock = some holder) {t : Hub α}
    (hstep : h.go holder = some t) : Inv t := by
  unfold go at hstep
  split at hstep
  · exact Option.some.inj hstep ▸ inv_unlock hinv hlock rfl
  · exact Option.some.inj hstep ▸ inv_unlock hinv hlock rfl
  · obtain ⟨s, hs, hnext⟩ := inv_sendEvent hinv hlock
    rw [hs] at hstep
    exact Option.some.inj hstep ▸ hnext
  · rename_i x i rest
    by_cases hroom : ∀ s, h.subs[i]? = some s → s.progress.room = true
    · obtain ⟨s, hs, hnext⟩ := inv_sendProgress hinv hlock rfl rfl hroom
      rw [hs, Option.map_some, if_pos (hroom s hs)] at hstep
      exact Option.some.inj hstep ▸ hnext
    · have hfull : ∀ s, h.subs[i]? = some s → s.progress.room = false := by
        intro s hs
        refine Bool.eq_false_iff.mpr fun htrue => hroom fun t ht => ?_
        rw [hs] at ht
        exact Option.some.inj ht ▸ htrue
      obtain ⟨s, hs, hnext⟩ := inv_full hinv hlock hfull
      rw [hs, Option.map_some, if_neg (by rw [hfull s hs]; exact Bool.false_ne_true)] at hstep
      exact Option.some.inj hstep ▸ hnext
  · exact Option.some.inj hstep ▸ inv_drain hinv hlock
  · obtain ⟨s, hs, hnext⟩ := inv_sendProgress hinv hlock rfl rfl (hinv.room _ _ _ hlock)
    rw [hs] at hstep
    exact Option.some.inj hstep ▸ hnext

/-- **Every step keeps the invariant.** -/
theorem inv_step (hinv : Inv h) {a : Act α} {t : Hub α} (hstep : h.step a = some t) : Inv t := by
  cases a with
  | subscribe =>
      simp only [step] at hstep
      split at hstep
      · rename_i hlock
        exact Option.some.inj hstep ▸ inv_subscribe hinv (Option.isNone_iff_eq_none.mp hlock)
      · cases hstep
  | remove i =>
      simp only [step] at hstep
      split at hstep
      · rename_i s hlock hs
        split at hstep
        · exact Option.some.inj hstep ▸ inv_remove hinv hlock hs
        · cases hstep
      · cases hstep
  | closeEvents i =>
      simp only [step] at hstep
      split at hstep
      · rename_i s hs
        split at hstep
        · cases hstep
        · rename_i hnot
          rw [Bool.or_eq_true, not_or, Bool.not_eq_true] at hnot
          have hgood := (hinv.good i s hs).of_frames (t := { s with events := s.events.close })
            (fun _ => hnot.1) rfl rfl id
          exact Option.some.inj hstep ▸ hinv.consumer hs hgood (fun _ => rfl) (fun _ => rfl)
            fun _ hr => hr
      · cases hstep
  | closeProgress i =>
      simp only [step] at hstep
      split at hstep
      · rename_i s hs
        split at hstep
        · rename_i hclosed
          rw [Bool.and_eq_true] at hclosed
          have hgood := (hinv.good i s hs).of_frames (t := { s with progress := s.progress.close })
            (fun _ => (hinv.good i s hs).closed (Or.inl hclosed.1)) rfl rfl id
          exact Option.some.inj hstep ▸ hinv.consumer hs hgood (fun _ => rfl) (fun _ => rfl)
            fun _ hr => hr
        · cases hstep
      · cases hstep
  | publish x order =>
      simp only [step] at hstep
      split at hstep
      · rename_i hfree
        rw [Bool.and_eq_true] at hfree
        exact Option.some.inj hstep ▸ inv_publish hinv (Option.isNone_iff_eq_none.mp hfree.1) x
          (of_decide_eq_true hfree.2)
      · cases hstep
  | publishProgress x order =>
      simp only [step] at hstep
      split at hstep
      · rename_i hfree
        rw [Bool.and_eq_true] at hfree
        exact Option.some.inj hstep ▸ inv_publishProgress hinv
          (Option.isNone_iff_eq_none.mp hfree.1) x (of_decide_eq_true hfree.2)
      · cases hstep
  | go =>
      simp only [step] at hstep
      split at hstep
      · rename_i holder hlock
        exact inv_go hinv hlock hstep
      · cases hstep
  | receiveEvent i =>
      simp only [step] at hstep
      split at hstep
      · rename_i s hs
        split at hstep
        · cases hstep
        · have hgood := (hinv.good i s hs).of_frames (t := { s with events := s.events.drop })
            (hinv.good i s hs).closed rfl rfl id
          exact Option.some.inj hstep ▸ hinv.consumer hs hgood (fun _ => rfl) (fun _ => rfl)
            fun _ hr => hr
      · cases hstep
  | receiveProgress i =>
      simp only [step] at hstep
      split at hstep
      · rename_i s hs
        split at hstep
        · cases hstep
        · rename_i x rest hqueue
          have hframes : Subscriber.frames ⟨s.events, s.progress.drop, s.live, s.since,
              s.received ++ [x]⟩ = s.frames := by
            unfold Subscriber.frames
            rw [Chan.drop_queue, hqueue, List.tail_cons, List.append_assoc]
            rfl
          have hgood := (hinv.good i s hs).of_frames
            (t := ⟨s.events, s.progress.drop, s.live, s.since, s.received ++ [x]⟩)
            (hinv.good i s hs).closed rfl hframes id
          refine Option.some.inj hstep ▸ hinv.consumer hs hgood (fun _ => rfl) (fun _ => rfl) ?_
          intro t hroom
          refine Chan.room_of_le hroom ?_
          rw [Chan.drop_queue, List.length_tail]
          omega
      · cases hstep

theorem inv_new : Inv (new : Hub α) where
  no_panic := rfl
  good i s hs := by cases hs
  holding holder heq := by cases heq
  room x i rest heq := by cases heq

end Steps

/-! ### What is delivered -/

/-- What the hub is for. -/
structure Delivers (h : Hub α) : Prop where
  /-- Nothing was ever sent on a closed channel. -/
  no_panic : h.panicked = false
  /-- What a subscriber has read are frames published since it came, each once and in the order
  of publication. -/
  in_order : ∀ s ∈ h.subs, s.received.Sublist (h.published s)
  /-- Unless one is being published, the last frame is the last a subscriber has read or has
  queued. -/
  newest : h.publishing = false → ∀ s ∈ h.subs, s.live = true →
    (s.received ++ s.progress.queue).getLast? = (h.published s).getLast?

theorem Inv.delivers {h : Hub α} (hinv : Inv h) : Delivers h where
  no_panic := hinv.no_panic
  in_order s hs := by
    obtain ⟨i, hi⟩ := List.mem_iff_getElem?.mp hs
    exact (List.sublist_append_left _ _).trans (hinv.good i s hi).order
  newest hidle s hs hlive := by
    obtain ⟨i, hi⟩ := List.mem_iff_getElem?.mp hs
    refine (hinv.good i s hi).newest hlive ?_
    unfold publishing at hidle
    unfold pending
    cases hlock : h.lock with
    | none => exact List.not_mem_nil
    | some holder =>
        rw [hlock] at hidle
        cases holder with
        | publish x rest => exact List.not_mem_nil
        | offer x rest => cases hidle
        | drain x i rest => cases hidle
        | retry x i rest => cases hidle

/-- **The hub never panics, and the newest frame is never the one that is lost**, whoever
subscribes, cancels, publishes and reads, and in whatever order. -/
theorem delivers_of_run {h : Hub α} (hrun : Run step (fun _ _ => True) new h) : Delivers h :=
  (hrun.invariant (fun _ _ _ hinv _ hstep => inv_step hinv hstep) inv_new).delivers

/-- Nine frames, one more than the queue holds, published to a subscriber that reads the first
when its queue is full. -/
theorem delivers_of_run_nine : ∃ h : Hub Nat, exec step (fun _ _ => true) new
    ([.subscribe] ++ (List.range 8).flatMap (fun k => [.publishProgress k [0], .go, .go]) ++
      [.publishProgress 8 [0], .go, .receiveProgress 0, .go, .go, .go]) = some h ∧
        h.subs.map Subscriber.frames = [[0, 2, 3, 4, 5, 6, 7, 8]] ∧ Delivers h := by
  have hview : (exec step (fun _ _ => true) (new : Hub Nat)
      ([.subscribe] ++ (List.range 8).flatMap (fun k => [.publishProgress k [0], .go, .go]) ++
        [.publishProgress 8 [0], .go, .receiveProgress 0, .go, .go, .go])).map (fun h =>
          h.subs.map Subscriber.frames) = some [[0, 2, 3, 4, 5, 6, 7, 8]] := by decide
  obtain ⟨h, hh, hframes⟩ := Option.map_eq_some_iff.mp hview
  exact ⟨h, hh, hframes, delivers_of_run ((Run.ofExec _ hh).mono fun _ _ _ => trivial)⟩

end Hub

end FlyMail.Sse
