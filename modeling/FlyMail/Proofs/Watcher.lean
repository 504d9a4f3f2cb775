/-
The workers match the database, once all calls are over.

Meanwhile they match, or some call is under way that would make them match if it were left to itself: it
has yet to save the row or to read it, what it has read is still the row, or it stops a worker that is not
wanted.  Such a call stays one as it goes on.  A call that has been overtaken does not, and the runs
considered are those in which it changes nothing, or only while another of the first kind is under way.
-/
import FlyMail.Mail2im.Watcher

namespace FlyMail.Mail2im.Watcher

/-- A worker is registered iff the row is there and enabled, and it was created from this row. -/
def Matches (s : State) : Prop := ∀ a, s.worker = some a ↔ s.row = some a ∧ a.enabled = true

/-- Left to itself, the call makes the worker match. -/
def Mends : Frame → State → Prop
  | .saving _, _ => True
  | .restartWorker, s => s.row ≠ none
  | .loaded a, s => s.row = some a
  | .startWorker a, s => s.row = some a ∧ s.worker = none
  | .stopWorker, s => ∀ a, s.row = some a → a.enabled = false
  | .leaving, _ => True
  | .deleting, s => s.worker = none
  | _, _ => False

theorem matches_of_stopped {s : State} (hworker : s.worker = none) (hrow : ∀ a, s.row = some a → a.enabled = false) :
    Matches s := by
  intro a
  constructor
  · intro h
    rw [hworker] at h
    exact absurd h.symm (Option.some_ne_none a)
  · rintro ⟨ha, henabled⟩
    rw [hrow a ha] at henabled
    exact absurd henabled Bool.false_ne_true

/-- Starting a worker from the row. -/
theorem matches_of_started {s : State} {a : Account} (hrow : s.row = some a) (hworker : s.worker = none) :
    Matches (s.startWorker a) := by
  unfold State.startWorker
  cases henabled : a.enabled with
  | false =>
      refine matches_of_stopped (s := s) hworker fun b hb => ?_
      rw [hrow] at hb
      exact Option.some.inj hb ▸ henabled
  | true =>
      rw [hworker]
      intro b
      constructor
      · intro hb
        obtain rfl := Option.some.inj hb
        exact ⟨hrow, henabled⟩
      · rintro ⟨hb, -⟩
        exact hrow.symm.trans hb

variable {C : Crypto}

/-- A call that mends goes on to do so. -/
theorem mends_next (nonce : Nat) (f : Frame) (s s' : State) (f' : Frame) (h : Mends f s)
    (hnext : next C nonce f s = some (s', f')) : Matches s' ∨ Mends f' s' := by
  cases f with
  | saving a =>
      obtain ⟨rfl, rfl⟩ := Prod.mk.inj (Option.some.inj hnext)
      refine Or.inr ?_
      cases henabled : a.enabled with
      | false => exact fun b hb => Option.some.inj hb ▸ henabled
      | true => exact Option.some_ne_none a
  | restartWorker =>
      simp only [next] at hnext
      split at hnext
      · rename_i hrow
        exact absurd hrow h
      · rename_i a hrow
        obtain ⟨rfl, rfl⟩ := Prod.mk.inj (Option.some.inj hnext)
        exact Or.inr hrow
  | loaded a =>
      obtain ⟨rfl, rfl⟩ := Prod.mk.inj (Option.some.inj hnext)
      exact Or.inr ⟨h, rfl⟩
  | startWorker a =>
      obtain ⟨rfl, rfl⟩ := Prod.mk.inj (Option.some.inj hnext)
      exact Or.inl (matches_of_started h.1 h.2)
  | stopWorker =>
      obtain ⟨rfl, rfl⟩ := Prod.mk.inj (Option.some.inj hnext)
      exact Or.inl (matches_of_stopped rfl h)
  | leaving =>
      obtain ⟨rfl, rfl⟩ := Prod.mk.inj (Option.some.inj hnext)
      exact Or.inr rfl
  | deleting =>
      obtain ⟨rfl, rfl⟩ := Prod.mk.inj (Option.some.inj hnext)
      exact Or.inl (matches_of_stopped h fun a ha => absurd ha.symm (Option.some_ne_none a))
  | updateAccount input => exact h.elim
  | deleteAccount => exact h.elim
  | done => exact h.elim

/-- All calls are over. -/
def Quiet (p : Pool Frame State) : Prop := ∀ f ∈ p.calls, f = .done

/-- **The worker matches the row** when all calls are over, over runs in which a call that has been overtaken
changes nothing unless another is under way that will mend it. -/
theorem worker_matches {s : State} (hs : Matches s) {q : Pool Frame State}
    (h : Run (Pool.step (service C)) (Pool.Mending (service C) Mends) ⟨s, []⟩ q) (hquiet : Quiet q) :
    Matches q.store := by
  have hmended : Pool.Mended Matches Mends q :=
    Pool.mended_of_run (fun nonce f s s' f' hf hnext => mends_next nonce f s s' f' hf hnext) (fun e => nomatch e) h
      (Or.inl hs)
  rcases hmended with hgood | ⟨i, f, hf, hmend⟩
  · exact hgood
  · rw [hquiet f (List.mem_of_getElem? hf)] at hmend
    exact hmend.elim

section Example

private def before : Account := { Account.zero with id := 1, email := "e@x".toList, enabled := true, status := ['A'] }

private def asked (server : Text) : CreateAccountRequest where
  email := "e@x".toList
  displayName := []
  login := []
  password := []
  authType := []
  provider := []
  imapServer := server
  imapPort := 993
  sslMode := ['s']
  useSSL := false
  proxyID := none
  useIDLE := false
  pollIntervalDay := 1
  pollIntervalNight := 1
  timezone := []
  enabled := none

/-- The row that a request leaves. -/
private def changed (server : Text) : Account :=
  { before with
    login := "e@x".toList
    imapServer := server
    imapPort := 993
    sslMode := ['s']
    pollIntervalDay := 1
    pollIntervalNight := 1 }

theorem worker_matches_update : Matches ⟨some (changed ['s']), some (changed ['s'])⟩ := by
  have hbefore : Matches ⟨some before, some before⟩ := fun a =>
    ⟨fun h => ⟨h, Option.some.inj h ▸ rfl⟩, fun h => h.1⟩
  have hmending (s : State) (f : Frame) (h : Mends f s ∨ ∃ f', next Crypto.plain 0 f s = some (s, f')) :
      Pool.Mending (service Crypto.plain) Mends ⟨s, [f]⟩ (.go 0 0) := by
    intro g s' g' hg hnext
    obtain rfl := Option.some.inj hg
    rcases h with hmends | ⟨f', hsame⟩
    · exact Or.inl hmends
    · exact Or.inr (Or.inl (Prod.mk.inj (Option.some.inj (hnext.symm.trans hsame))).1)
  refine worker_matches hbefore (.tail (.tail (.tail (.tail (.tail (.tail .refl
    (a := .start (.updateAccount (asked ['s']))) trivial rfl)
    (a := .go 0 0) (hmending _ _ (Or.inr ⟨_, rfl⟩)) rfl)
    (a := .go 0 0) (hmending _ _ (Or.inl trivial)) rfl)
    (a := .go 0 0) (hmending _ _ (Or.inl (Option.some_ne_none _))) rfl)
    (a := .go 0 0) (hmending _ _ (Or.inl rfl)) rfl)
    (a := .go 0 0) (hmending _ _ (Or.inl ⟨rfl, rfl⟩)) rfl) fun f hf => List.mem_singleton.mp hf

/-- The first request's goroutine has read the row when the second one comes, and starts the worker last. -/
theorem worker_stale :
    ∃ q, exec (Pool.step (service Crypto.plain)) (fun _ _ => true) ⟨⟨some before, some before⟩, []⟩
        ([.start (.updateAccount (asked ['s'])), .go 0 0, .go 0 0, .go 0 0, .start (.updateAccount (asked ['t']))] ++
          [.go 1 0, .go 1 0, .go 1 0, .go 1 0, .go 1 0, .go 0 0, .go 0 0]) = some q ∧
      Quiet q ∧ q.store.row = some (changed ['t']) ∧ q.store.worker = some (changed ['s']) ∧ ¬ Matches q.store := by
  refine ⟨⟨⟨some (changed ['t']), some (changed ['s'])⟩, [.done, .done]⟩, rfl, fun f hf => ?_, rfl, rfl, fun h => ?_⟩
  · rcases List.mem_cons.mp hf with hfirst | hsecond
    · exact hfirst
    · exact List.mem_singleton.mp hsecond
  · exact absurd ((h (changed ['s'])).mp rfl).1 (by decide)

end Example

end FlyMail.Mail2im.Watcher
