/-
Who may listen.

Sweeping out the expired tickets changes no answer, so what a stream is told follows from the log alone
(`consume_iff`).  Along a run the log keeps one offer for each ticket that was issued and one take for each
that was asked for (`Sound`).  A take that finds a ticket has an offer of its own, so no two streams are let
in with one ticket (`admits_of_run`).
-/
import FlyMail.Sse.Ticket

namespace FlyMail.Sse

open OneTime

/-! ### The store -/

/-- The ticket has expired. -/
def expired (now : Int) (exp : Int) : Bool := decide (exp < now)

theorem expired_mono {now now' : Int} (h : now ≤ now') (exp : Int) (he : expired now exp = true) :
    expired now' exp = true := by
  unfold expired at he ⊢
  simp only [decide_eq_true_eq] at he ⊢
  omega

namespace TicketStore

variable {s : TicketStore} {log : List (Event Text Int)} {now : Int} {k t : Text} {rand : Option Draw}

theorem follows_issue (h : Follows (expired now) s.items log) (ht : (s.issue rand now).1 = some t) :
    Follows (expired now) (s.issue rand now).2.items (.offer t (now + s.ttl) :: log) := by
  cases rand with
  | none => cases ht
  | some draw =>
      obtain rfl := Option.some.inj ht
      exact (h.sweep fun _ hexp => hexp).offer _ _

theorem issue_none (h : (s.issue rand now).1 = none) : (s.issue rand now).2 = s := by
  cases rand with
  | none => rfl
  | some draw => cases h

@[simp] theorem issue_ttl : (s.issue rand now).2.ttl = s.ttl := by
  cases rand <;> rfl

@[simp] theorem consume_ttl : (s.consume k now).2.ttl = s.ttl := by
  unfold consume
  split
  · rfl
  split <;> rfl

theorem follows_consume (h : Follows (expired now) s.items log) :
    Follows (expired now) (s.consume k now).2.items (if k = [] then log else .take k :: log) := by
  unfold consume
  by_cases hk : k = []
  · simpa [hk] using h
  · rw [if_neg hk, if_neg hk]
    cases hget : s.items.get k with
    | some exp => exact h.take k
    | none => exact h.take_none hget

/-- **A ticket is good if it is held and has not expired.** -/
theorem consume_iff (h : Follows (expired now) s.items log) :
    (s.consume k now).1 = true ↔ k ≠ [] ∧ ∃ exp, held log k = some exp ∧ now ≤ exp := by
  unfold consume
  by_cases hk : k = []
  · simp [hk]
  · have hfresh := h.fresh k
    rw [if_neg hk]
    constructor
    · intro hgood
      cases hget : s.items.get k with
      | none => simp [hget] at hgood
      | some exp =>
          simp only [hget, Bool.not_eq_true', decide_eq_false_iff_not, Int.not_lt] at hgood
          have hmem : (held log k).filter (fun v => !expired now v) = some exp := by
            rw [← hfresh, hget]
            simp [Option.filter, expired, hgood]
          exact ⟨hk, exp, (Option.filter_eq_some_iff.mp hmem).1, hgood⟩
    · rintro ⟨-, exp, hheld, hle⟩
      have hmem : (s.items.get k).filter (fun v => !expired now v) = some exp := by
        rw [hfresh, hheld]
        simp [Option.filter, expired, hle]
      rw [(Option.filter_eq_some_iff.mp hmem).1]
      simpa using hle

end TicketStore

/-! ### Along a run -/

/-- The tickets that requests were given, and those that let a stream in. -/
def part (ttl : Int) : Part Text Int Frame where
  gave
    | .issued t now => some (t, now + ttl)
    | _ => none
  got f := f.accepted.bind fun shown => (held shown.past shown.ticket).map fun exp => (shown.ticket, exp)

/-- The ticket was held, and had not expired. -/
def Shown.Good (shown : Shown) : Prop := ∃ exp, held shown.past shown.ticket = some exp ∧ shown.now ≤ exp

/-- The ticket was not held, or had expired. -/
def Shown.Bad (shown : Shown) : Prop :=
  shown.ticket = [] ∨ ∀ exp, held shown.past shown.ticket = some exp → exp < shown.now

structure Frame.Right (f : Frame) : Prop where
  good : ∀ shown, f.accepted = some shown → shown.Good
  bad : ∀ shown, f = .unauthorized shown → shown.Bad

variable {α : Type} {ttl : Int}

structure Sound (ttl : Int) (p : Pool Frame (Store α)) : Prop where
  ttl_eq : p.store.tickets.ttl = ttl
  follows : Follows (expired p.store.now) p.store.tickets.items p.store.log
  booked : Booked (part ttl) p.calls p.store.log
  right : ∀ f ∈ p.calls, f.Right
  streams : p.store.hub.subs.length = p.calls.countP Frame.streams

variable {p q : Pool Frame (Store α)} {i : Nat} {f f' : Frame} {s : Store α}

/-- What a request has to show when it goes on. -/
theorem Sound.goOn (h : Sound ttl p) (hf : p.calls[i]? = some f) (hstays : f.streams = false)
    (httl : s.tickets.ttl = ttl) (hfollows : Follows (expired s.now) s.tickets.items s.log)
    (hdeal : Deal (part ttl) p.store.log f f' s.log) (hright : f'.Right)
    (hstreams : s.hub.subs.length = p.store.hub.subs.length + if f'.streams then 1 else 0) :
    Sound ttl (p.goOn i s f') where
  ttl_eq := httl
  follows := hfollows
  booked := h.booked.goOn hf hdeal
  right g hg := by
    rcases mem_goOn hg with rfl | hold
    · exact hright
    · exact h.right g hold
  streams := by
    have hcount := Pool.countP_goOn (s := s) (g := f') Frame.streams hf
    have hold := h.streams
    rw [hstays, if_neg Bool.false_ne_true] at hcount
    show s.hub.subs.length = _
    omega

/-- One more subscriber. -/
theorem length_subscribe {hub hub' : Hub α} (h : hub.step .subscribe = some hub') :
    hub'.subs.length = hub.subs.length + 1 := by
  simp only [Hub.step] at h
  split at h
  · rw [← Option.some.inj h]
    simp
  · cases h

theorem sound_next {x : Luck} (h : Sound ttl p) (hf : p.calls[i]? = some f) (hnext : next x f p.store = some (s, f')) :
    Sound ttl (p.goOn i s f') := by
  cases f with
  | issued _ _ | internalServerError | unauthorized _ | unsupported _ | streaming _ _ => cases hnext
  | issue =>
      simp only [next] at hnext
      cases ht : (p.store.tickets.issue x.rand p.store.now).1 with
      | none =>
          simp only [ht, Option.some.injEq, Prod.mk.injEq] at hnext
          obtain ⟨rfl, rfl⟩ := hnext
          refine h.goOn hf rfl (by simp [h.ttl_eq]) ?_ (.none rfl (Or.inl rfl)) ⟨by simp [Frame.accepted], by simp⟩
            (by simp [Frame.streams])
          dsimp only
          rw [TicketStore.issue_none ht]
          exact h.follows
      | some t =>
          simp only [ht, Option.some.injEq, Prod.mk.injEq] at hnext
          obtain ⟨rfl, rfl⟩ := hnext
          exact h.goOn hf rfl (by simp [h.ttl_eq]) (TicketStore.follows_issue h.follows ht)
            (.offer t _ ⟨rfl, by rw [← h.ttl_eq]; rfl⟩ rfl) ⟨by simp [Frame.accepted], by simp⟩ (by simp [Frame.streams])
  | consume ticket =>
      simp only [next, Option.some.injEq, Prod.mk.injEq] at hnext
      obtain ⟨rfl, rfl⟩ := hnext
      have hiff := TicketStore.consume_iff (k := ticket) h.follows
      refine h.goOn hf rfl (by simp [h.ttl_eq]) (TicketStore.follows_consume h.follows) ?_ ?_
        (by cases (p.store.tickets.consume ticket p.store.now).1 <;> simp [Frame.streams])
      · by_cases hne : ticket = []
        · -- an empty ticket is nobody's
          have hbad : (p.store.tickets.consume ticket p.store.now).1 = false := by
            rw [← Bool.not_eq_true, hiff]
            simp [hne]
          rw [if_pos hne, hbad]
          exact .none rfl (Or.inl rfl)
        · rw [if_neg hne]
          refine .take ticket ?_ ?_
          · split <;> rfl
          · intro e he
            split at he
            · obtain ⟨exp, hheld, rfl⟩ := Option.map_eq_some_iff.mp he
              exact ⟨rfl, hheld⟩
            · cases he
      · by_cases hgood : (p.store.tickets.consume ticket p.store.now).1 = true
        · rw [if_pos hgood]
          refine ⟨?_, by simp⟩
          intro shown hshown
          obtain rfl := Option.some.inj hshown
          exact (hiff.mp hgood).2
        · rw [if_neg hgood]
          refine ⟨by simp [Frame.accepted], ?_⟩
          intro shown hshown
          obtain rfl := Frame.unauthorized.inj hshown
          by_cases hne : ticket = []
          · exact Or.inl hne
          · exact Or.inr fun exp hheld => Int.not_le.mp fun hle => hgood (hiff.mpr ⟨hne, exp, hheld, hle⟩)
  | subscribe shown =>
      have hright := h.right _ (List.mem_of_getElem? hf)
      simp only [next] at hnext
      split at hnext
      · obtain ⟨hub, hhub, heq⟩ := Option.map_eq_some_iff.mp hnext
        obtain ⟨rfl, rfl⟩ := Prod.mk.inj heq
        exact h.goOn hf rfl h.ttl_eq h.follows (.none rfl (Or.inl rfl)) ⟨hright.good, by simp⟩
          (by simp [Frame.streams, length_subscribe hhub])
      · obtain ⟨rfl, rfl⟩ := Prod.mk.inj (Option.some.inj hnext)
        exact h.goOn hf rfl h.ttl_eq h.follows (.none rfl (Or.inl rfl)) ⟨hright.good, by simp⟩ (by simp [Frame.streams])

@[simp] theorem length_modify (hub : Hub α) (j : Nat) (g : Subscriber α → Subscriber α) :
    (hub.modify j g).subs.length = hub.subs.length := by
  simp [Hub.modify]

theorem length_go {hub hub' : Hub α} {holder : Holder α} (h : hub.go holder = some hub') :
    hub'.subs.length = hub.subs.length := by
  cases holder with
  | publish x order | offer x order =>
      cases order with
      | nil =>
          rw [← Option.some.inj h]
      | cons j rest =>
          obtain ⟨sub, -, rfl⟩ := Option.map_eq_some_iff.mp h
          exact length_modify hub j _
  | drain x j rest =>
      rw [← Option.some.inj h]
      exact length_modify hub j _
  | retry x j rest =>
      obtain ⟨sub, -, rfl⟩ := Option.map_eq_some_iff.mp h
      exact length_modify hub j _

/-- The hub goes on without a new subscriber. -/
theorem length_step {hub hub' : Hub α} {a : Hub.Act α} (h : hub.step a = some hub') (ha : a ≠ .subscribe) :
    hub'.subs.length = hub.subs.length := by
  cases a with
  | subscribe => exact absurd rfl ha
  | remove j | closeEvents j | closeProgress j | receiveEvent j | receiveProgress j =>
      simp only [Hub.step] at h
      repeat' split at h
      all_goals cases h
      all_goals exact length_modify hub j _
  | publish x order | publishProgress x order =>
      simp only [Hub.step] at h
      split at h
      · rw [← Option.some.inj h]
      · cases h
  | go =>
      simp only [Hub.step] at h
      split at h
      · exact length_go h
      · cases h

theorem sound_outside (h : Sound ttl p) (e : Outside α) : Sound ttl { p with store := outside e p.store } := by
  cases e with
  | tick d =>
      exact { h with
        ttl_eq := h.ttl_eq
        follows := h.follows.later fun exp => expired_mono (by show p.store.now ≤ p.store.now + d; omega) exp }
  | hub a =>
      by_cases ha : a = .subscribe
      · rw [ha]
        exact h
      · have houtside : outside (.hub a) p.store = ((p.store.hub.step a).map fun hub => { p.store with hub }).getD
            p.store := by
          cases a with
          | subscribe => exact absurd rfl ha
          | _ => rfl
        rw [houtside]
        cases hstep : p.store.hub.step a with
        | none => exact h
        | some hub =>
            exact { h with
              ttl_eq := h.ttl_eq
              follows := h.follows
              streams := (length_step hstep ha).trans h.streams }

theorem sound_start (h : Sound ttl p) (c : Request) : Sound ttl { p with calls := p.calls ++ [enter c] } where
  ttl_eq := h.ttl_eq
  follows := h.follows
  booked := h.booked.start (by cases c <;> rfl) (by cases c <;> rfl)
  right g hg := by
    rcases List.mem_append.mp hg with hold | hnew
    · exact h.right g hold
    · rw [List.mem_singleton.mp hnew]
      cases c <;> exact ⟨by simp [enter, Frame.accepted], by simp [enter]⟩
  streams := by
    have hnot : (enter c).streams = false := by cases c <;> rfl
    have hold := h.streams
    simpa [List.countP_append, hnot] using hold

theorem sound_fresh (now : Int) : Sound ttl (⟨.fresh ttl now, []⟩ : Pool Frame (Store α)) where
  ttl_eq := rfl
  follows := follows_empty
  booked := booked_nil _
  right f hf := by cases hf
  streams := rfl

theorem sound_of_run {now : Int}
    (h : Run (Pool.step service) (fun _ _ => True) (⟨.fresh ttl now, []⟩ : Pool Frame (Store α)) p) : Sound ttl p := by
  refine Run.invariant (fun p turn q hp _ hstep => ?_) h (sound_fresh now)
  cases turn with
  | start c =>
      obtain rfl := Option.some.inj hstep
      exact sound_start hp c
  | go i x =>
      obtain ⟨f, s, f', hf, hnext, rfl⟩ := Pool.step_go hstep
      exact sound_next hp hf hnext
  | outside e =>
      obtain rfl := Option.some.inj hstep
      exact sound_outside hp e

theorem Sound.got (h : Sound ttl p) {shown : Shown} (hf : f ∈ p.calls) (hshown : f.accepted = some shown) :
    ∃ exp, (part ttl).got f = some (shown.ticket, exp) ∧ held shown.past shown.ticket = some exp ∧ shown.now ≤ exp := by
  obtain ⟨exp, hheld, hle⟩ := (h.right f hf).good shown hshown
  exact ⟨exp, by simp [part, hshown, hheld], hheld, hle⟩

/-- **A stream is let in if its ticket was issued, not yet asked for, and has not expired.** No two streams are
let in with one ticket, and the hub has no subscriber that did not come with one. -/
theorem admits_of_run {now : Int}
    (h : Run (Pool.step service) (fun _ _ => True) (⟨.fresh ttl now, []⟩ : Pool Frame (Store α)) p) :
    (∀ f ∈ p.calls, ∀ shown, f.accepted = some shown → ∃ t, .issued shown.ticket t ∈ p.calls ∧
        held shown.past shown.ticket = some (t + ttl) ∧ shown.now ≤ t + ttl) ∧
      (∀ shown, .unauthorized shown ∈ p.calls → shown.Bad) ∧
      (∀ k, p.calls.countP (Frame.acceptedAs k) ≤ p.calls.countP (Frame.issuedAs k)) ∧
      p.store.hub.subs.length = p.calls.countP Frame.streams := by
  have hsound := sound_of_run h
  refine ⟨?_, fun shown hshown => (hsound.right _ hshown).bad shown rfl, fun k => ?_, hsound.streams⟩
  · intro f hf shown hshown
    obtain ⟨exp, hgot, hheld, hle⟩ := hsound.got hf hshown
    obtain ⟨g, hg, hgave⟩ := hsound.booked.exists_gave hf hgot
    cases g with
    | issued k t =>
        obtain ⟨rfl, rfl⟩ := Prod.mk.inj (Option.some.inj hgave)
        exact ⟨t, hg, hheld, hle⟩
    | _ => cases hgave
  · calc p.calls.countP (Frame.acceptedAs k) ≤ p.calls.countP ((part ttl).gotAs k) := by
          refine List.countP_mono_left fun f hf hk => ?_
          obtain ⟨shown, hshown, hmine⟩ := (Option.any_eq_true _ _).mp hk
          obtain ⟨exp, hgot, -⟩ := hsound.got hf hshown
          simpa [Part.gotAs, hgot] using hmine
      _ ≤ p.calls.countP ((part ttl).gaveAs k) := hsound.booked.got_le_gave k
      _ = p.calls.countP (Frame.issuedAs k) := by
          refine List.countP_congr fun f _ => ?_
          cases f <;> simp [Part.gaveAs, part, Frame.issuedAs]

/-- The same ticket twice. -/
def visits : List (Turn Request Luck (Outside Unit)) :=
  let zeros : Luck := ⟨some ⟨List.replicate 32 ⟨0, Nat.zero_lt_succ _⟩, rfl⟩, true⟩
  [.start .ticket, .go 0 zeros, .start (.stream (List.replicate 64 '0')), .go 1 zeros, .go 1 zeros,
    .outside (.tick 5), .start (.stream (List.replicate 64 '0')), .go 2 zeros]

theorem admits_of_run_visits : ∃ p : Pool Frame (Store Unit),
    exec (Pool.step service) (fun _ _ => true) ⟨.fresh ticketTTL 0, []⟩ visits = some p ∧
      p.calls.length = 3 ∧ p.calls.countP Frame.streams = 1 ∧
      (∀ shown, .unauthorized shown ∈ p.calls → shown.Bad) ∧ p.store.hub.subs.length = p.calls.countP Frame.streams := by
  have hexec : ∃ p : Pool Frame (Store Unit),
      exec (Pool.step service) (fun _ _ => true) ⟨.fresh ticketTTL 0, []⟩ visits = some p ∧
        p.calls.length = 3 ∧ p.calls.countP Frame.streams = 1 := ⟨_, rfl, rfl, rfl⟩
  obtain ⟨p, hp, hthree, hone⟩ := hexec
  obtain ⟨-, hbad, -, hsubs⟩ := admits_of_run ((Run.ofExec visits hp).mono fun _ _ _ => trivial)
  exact ⟨p, hp, hthree, hone, hbad, hsubs⟩

end FlyMail.Sse
