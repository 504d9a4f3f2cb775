/-
No token and no setting of the switch is lost.

What an operation does to the row is said once, in `Advance`: the token changes only
together with the journal of saved tokens, and the switch only together with the journal
of the user's settings.  So a copy of the row stays right for as long as its stamp is that
of the journal, and a save of such a copy writes back what is there.

Where the journal has moved on, a save takes the last write back
(`touch_restores_old_token`).
-/
import FlyMail.Account.Access
import FlyMail.Lib.LastWrite

namespace FlyMail.Account.Access

variable {D : Setup}

/-! ### What is kept -/

/-- Nothing written last is lost: the token saved last is the row's, its refresh token is
the last that came from the provider, and the switch is as the user set it last. -/
structure NothingLost (D : Setup) (s : Store) : Prop where
  token : s.tokens.getLast? = some s.account.oauthTokenEnc
  refreshToken : ∀ r, s.received.getLast? = some r →
    ∃ tok, loadToken D.codec s.account = .ok tok ∧ tok.refreshToken = r
  enabled : s.switched.getLast? = some s.account.enabled

/-- What is known of a row loaded at `seen`. -/
def Loaded (a : Account) (seen : Stamp) (s : Store) : Prop :=
  Stamped s.tokens s.account.oauthTokenEnc seen.tokens a.oauthTokenEnc ∧
    Stamped s.switched s.account.enabled seen.switched a.enabled

/-- What is known of the row a call holds. -/
def Fits (D : Setup) : Frame → Store → Prop
  | .refreshing a tok seen, s => loadToken D.codec a = .ok tok ∧ Loaded a seen s
  | .touching a seen, s => Loaded a seen s
  | .updating a seen, s => Loaded a seen s
  | _, _ => True

/-- What an operation may do to the row and the journal. -/
structure Advance (s s' : Store) : Prop where
  token : Told s.tokens s'.tokens s.account.oauthTokenEnc s'.account.oauthTokenEnc
  enabled : Told s.switched s'.switched s.account.enabled s'.account.enabled

theorem Advance.refl (s : Store) : Advance s s := ⟨.refl _ _, .refl _ _⟩

theorem Loaded.advance {a : Account} {seen : Stamp} {s s' : Store} (h : Loaded a seen s)
    (hstep : Advance s s') : Loaded a seen s' :=
  ⟨h.1.told hstep.token, h.2.told hstep.enabled⟩

/-- **What is known of a row outlives what the others do.** -/
theorem Fits.advance {f : Frame} {s s' : Store} (h : Fits D f s) (hstep : Advance s s') :
    Fits D f s' := by
  cases f with
  | refreshing a tok seen => exact ⟨h.1, h.2.advance hstep⟩
  | touching a seen => exact Loaded.advance h hstep
  | updating a seen => exact Loaded.advance h hstep
  | _ => trivial

theorem loaded_stamp {a : Account} {s : Store}
    (htoken : a.oauthTokenEnc = s.account.oauthTokenEnc) (henabled : a.enabled = s.account.enabled) :
    Loaded a s.stamp s := by
  unfold Loaded
  rw [htoken, henabled]
  exact ⟨.self _ _, .self _ _⟩

/-- Editing the settings leaves the token and the switch alone. -/
theorem applyProxy_keeps {C : Codec} {nonce : Nat} {a b : Account} {proxy : Option ProxySettings}
    (h : applyProxy C nonce a proxy = .ok b) :
    b.oauthTokenEnc = a.oauthTokenEnc ∧ b.enabled = a.enabled := by
  unfold applyProxy at h
  split at h
  · obtain rfl := Except.ok.inj h
    exact ⟨rfl, rfl⟩
  · split at h
    · obtain rfl := Except.ok.inj h
      exact ⟨rfl, rfl⟩
    · split at h
      · obtain rfl := Except.ok.inj h
        exact ⟨rfl, rfl⟩
      · split at h
        · cases h
        · obtain rfl := Except.ok.inj h
          exact ⟨rfl, rfl⟩

theorem edited_keeps {C : Codec} {nonce : Nat} {a b : Account} {req : UpdateAccountRequest}
    (h : edited C nonce a req = .ok b) :
    b.oauthTokenEnc = a.oauthTokenEnc ∧ b.enabled = a.enabled := by
  unfold edited at h
  dsimp only at h
  split at h
  · have hkeeps := applyProxy_keeps h
    exact hkeeps
  · split at h
    · cases h
    · have hkeeps := applyProxy_keeps h
      exact hkeeps

/-! ### The kinds of write -/

/-- The token and the switch are left alone. -/
structure Unwritten (s s' : Store) : Prop where
  tokens : s'.tokens = s.tokens
  received : s'.received = s.received
  switched : s'.switched = s.switched
  token : s'.account.oauthTokenEnc = s.account.oauthTokenEnc
  enabled : s'.account.enabled = s.account.enabled

theorem Unwritten.advance {s s' : Store} (h : Unwritten s s') : Advance s s' :=
  ⟨Or.inl ⟨h.tokens, h.token⟩, Or.inl ⟨h.switched, h.enabled⟩⟩

theorem Unwritten.nothingLost {s s' : Store} (h : Unwritten s s') (hs : NothingLost D s) :
    NothingLost D s' where
  token := by rw [h.tokens, h.token]; exact hs.token
  refreshToken := by
    rw [h.received, loadToken_congr D.codec h.token]
    exact hs.refreshToken
  enabled := by rw [h.switched, h.enabled]; exact hs.enabled

/-- A row whose stamp is the journal's is saved. -/
theorem unwritten_save {a : Account} {s : Store} (h : Loaded a s.stamp s) :
    Unwritten s { s with account := a } :=
  ⟨rfl, rfl, rfl, (h.1.2 rfl).symm, (h.2.2 rfl).symm⟩

theorem unwritten_status (s : Store) (status : AccountStatus) :
    Unwritten s (s.setStatus status) := ⟨rfl, rfl, rfl, rfl, rfl⟩

theorem unwritten_unlock (s : Store) : Unwritten s s.unlock := ⟨rfl, rfl, rfl, rfl, rfl⟩

theorem Unwritten.trans {s t u : Store} (h1 : Unwritten s t) (h2 : Unwritten t u) :
    Unwritten s u :=
  ⟨h2.tokens.trans h1.tokens, h2.received.trans h1.received, h2.switched.trans h1.switched,
    h2.token.trans h1.token, h2.enabled.trans h1.enabled⟩

theorem saveToken_eq_ok {C : Codec} {x : Luck} {provider : Text} {tok : Token} {s s' : Store}
    (h : saveToken C x provider tok s = .ok s') :
    ∃ enc, sealToken C x.nonce tok = some enc ∧
      s' = { s with account := s.account.withToken provider tok enc, tokens := s.tokens ++ [enc] } := by
  unfold saveToken at h
  split at h
  · cases h
  · rename_i enc henc
    split at h
    · cases h
    · exact ⟨enc, henc, (Except.ok.inj h).symm⟩

/-- **A token is saved.**  It has the refresh token that came with it or, where none came,
the one that came last. -/
theorem nothingLost_saveToken {x : Luck} {provider came : Text} {tok : Token} {s s' : Store}
    (hs : NothingLost D s) (hsave : saveToken D.codec x provider tok (s.receive came) = .ok s')
    (hcame : came ≠ [] → tok.refreshToken = came)
    (hlast : came = [] → ∀ r, s.received.getLast? = some r → tok.refreshToken = r) :
    NothingLost D s' ∧ Advance s s' := by
  obtain ⟨enc, henc, rfl⟩ := saveToken_eq_ok hsave
  have hload : ∀ a : Account, loadToken D.codec (a.withToken provider tok enc) = .ok tok :=
    fun a => loadToken_withToken D.codec henc
  unfold Store.receive
  by_cases hnil : came = []
  · rw [if_pos hnil]
    refine ⟨⟨by simp, fun r hr => ⟨tok, hload _, hlast hnil r hr⟩, hs.enabled⟩, ?_⟩
    exact ⟨.concat _ _ _ _, .refl _ _⟩
  · rw [if_neg hnil]
    refine ⟨⟨by simp, fun r hr => ⟨tok, hload _, ?_⟩, hs.enabled⟩, ?_⟩
    · have hr' : came = r := by simpa using hr
      rw [hcame hnil, hr']
    · exact ⟨.concat _ _ _ _, .refl _ _⟩

/-! ### The operations, one by one -/

/-- What is to be shown of an operation that ends in `s'` and `f'`. -/
def Good (D : Setup) (s s' : Store) (f' : Frame) : Prop :=
  NothingLost D s' ∧ Advance s s' ∧ Fits D f' s'

theorem good_of_unwritten {s s' : Store} {f' : Frame} (hs : NothingLost D s)
    (h : Unwritten s s') (hfits : Fits D f' s') : Good D s s' f' :=
  ⟨h.nothingLost hs, h.advance, hfits⟩

/-- A call that ends without having written. -/
theorem good_of_done {s s' : Store} {f' : Frame} {r : Except Err Answer} (hs : NothingLost D s)
    (h : some (s, Frame.done r) = some (s', f')) : Good D s s' f' := by
  obtain ⟨rfl, rfl⟩ := Prod.mk.inj (Option.some.inj h)
  exact ⟨hs, .refl s, trivial⟩

theorem loadToken_of_stored {a : Account} {tok : Token} (h : stored D a = .ok tok) :
    loadToken D.codec a = .ok tok := by
  unfold stored at h
  split at h
  · exact h
  · cases h

section Operation

variable {p : Pool Frame Store} {i : Nat} {x : Luck} {f' : Frame} {s : Store}

theorem good_accessToken (hs : NothingLost D p.store)
    (h : next D x .accessToken p.store = some (s, f')) : Good D p.store s f' := by
  simp only [next] at h
  split at h
  · cases h
  · split at h
    · exact good_of_done hs h
    · split at h
      · exact good_of_done hs h
      · rename_i tok hstored
        split at h
        · exact good_of_done hs h
        · split at h
          · exact good_of_done hs h
          · obtain ⟨rfl, rfl⟩ := Prod.mk.inj (Option.some.inj h)
            refine good_of_unwritten hs ⟨rfl, rfl, rfl, rfl, rfl⟩ ⟨loadToken_of_stored hstored, ?_⟩
            exact loaded_stamp rfl rfl

/-- The refresh token of a fresh token: the answer's, or the one it was asked with. -/
theorem freshToken_refreshToken {tok fresh : Token} (h : freshToken tok x = .ok fresh) :
    fresh.refreshToken
      = if answered x.answer = [] then tok.refreshToken else answered x.answer := by
  unfold freshToken at h
  cases hanswer : x.answer with
  | error e =>
      rw [hanswer] at h
      unfold refresh at h
      split at h <;> cases h
  | ok r =>
      rw [hanswer] at h
      cases hrefresh : refresh tok.refreshToken (.ok r) x.now with
      | error e => rw [hrefresh] at h; cases h
      | ok fresh₀ =>
          rw [hrefresh] at h
          obtain rfl := Except.ok.inj h
          have hfresh := refresh_refreshToken hrefresh
          show (if fresh₀.email = [] then { fresh₀ with email := tok.email } else fresh₀).refreshToken
            = _
          split <;> exact hfresh

theorem good_refreshing {a : Account} {tok : Token} {seen : Stamp} (hs : NothingLost D p.store)
    (hfits : Fits D (.refreshing a tok seen) p.store)
    (hsaved : answersSaved D p (.go i x) = true) (hfresh : writesFresh p (.go i x) = true)
    (hf : p.calls[i]? = some (.refreshing a tok seen))
    (h : next D x (.refreshing a tok seen) p.store = some (s, f')) : Good D p.store s f' := by
  simp only [next] at h
  simp only [answersSaved, hf] at hsaved
  simp only [writesFresh, hf] at hfresh
  split at h
  · obtain ⟨rfl, rfl⟩ := Prod.mk.inj (Option.some.inj h)
    refine good_of_unwritten hs (.trans ?_ (unwritten_unlock _)) trivial
    split
    · exact ⟨rfl, rfl, rfl, rfl, rfl⟩
    · exact unwritten_status _ _
  · obtain ⟨rfl, rfl⟩ := Prod.mk.inj (Option.some.inj h)
    exact good_of_unwritten hs (unwritten_unlock _) trivial
  · rename_i fresh hfreshToken
    rw [hfreshToken] at hsaved hfresh
    simp only [Bool.and_eq_true, Bool.not_eq_true', Bool.or_eq_true, bne_iff_ne, beq_iff_eq] at hsaved hfresh
    have hrefresh := freshToken_refreshToken hfreshToken
    split at h
    · rename_i e hsave
      obtain ⟨enc, henc⟩ := Option.isSome_iff_exists.mp hsaved.2
      simp only [saveToken, henc, hsaved.1, Bool.false_eq_true, if_false] at hsave
      cases hsave
    · rename_i s' hsave
      have hgood : NothingLost D s' ∧ Advance p.store s' := by
        refine nothingLost_saveToken hs hsave (fun hne => ?_) (fun hnil r hr => ?_)
        · rw [hrefresh, if_neg hne]
        · obtain ⟨hload, hloaded, -⟩ := hfits
          have hsame := hloaded.2 (hfresh.resolve_left (fun hne => hne hnil))
          obtain ⟨tok', htok', hr'⟩ := hs.refreshToken r hr
          rw [loadToken_congr D.codec hsame, hload] at htok'
          obtain rfl := Except.ok.inj htok'
          rw [hrefresh, if_pos hnil, hr']
      split at h
      · obtain ⟨rfl, rfl⟩ := Prod.mk.inj (Option.some.inj h)
        exact ⟨hgood.1, hgood.2, trivial⟩
      · obtain ⟨rfl, rfl⟩ := Prod.mk.inj (Option.some.inj h)
        exact ⟨(unwritten_unlock _).nothingLost hgood.1, ⟨hgood.2.token, hgood.2.enabled⟩, trivial⟩

theorem good_reauthSaving {provider : Text} {tok : Token} (hs : NothingLost D p.store)
    (hsaved : answersSaved D p (.go i x) = true) (hfresh : writesFresh p (.go i x) = true)
    (hf : p.calls[i]? = some (.reauthSaving provider tok))
    (h : next D x (.reauthSaving provider tok) p.store = some (s, f')) : Good D p.store s f' := by
  simp only [next] at h
  simp only [answersSaved, hf, Bool.and_eq_true, Bool.not_eq_true'] at hsaved
  simp only [writesFresh, hf, Bool.or_eq_true, bne_iff_ne, beq_iff_eq] at hfresh
  split at h
  · rename_i e hsave
    obtain ⟨enc, henc⟩ := Option.isSome_iff_exists.mp hsaved.2
    simp only [saveToken, henc, hsaved.1, Bool.false_eq_true, if_false] at hsave
    cases hsave
  · rename_i s' hsave
    obtain ⟨rfl, rfl⟩ := Prod.mk.inj (Option.some.inj h)
    have hgood : NothingLost D s' ∧ Advance p.store s' := by
      refine nothingLost_saveToken hs hsave (fun _ => rfl) (fun hnil r hr => ?_)
      rw [hfresh.resolve_left (fun hne => hne hnil)] at hr
      cases hr
    exact ⟨hgood.1, hgood.2, trivial⟩

/-- A whole row is saved. -/
theorem good_save {a : Account} {seen : Stamp} {r : Except Err Answer}
    (hs : NothingLost D p.store) (hfits : Loaded a seen p.store)
    (hfresh : (x.failed || seen == p.store.stamp) = true)
    (h : (if x.failed then some (p.store, .done (.error .db))
      else some ({ p.store with account := a }, .done r)) = some (s, f')) :
    Good D p.store s f' := by
  by_cases hfailed : x.failed = true
  · rw [if_pos hfailed] at h
    exact good_of_done hs h
  · rw [if_neg hfailed] at h
    obtain ⟨rfl, rfl⟩ := Prod.mk.inj (Option.some.inj h)
    simp only [Bool.or_eq_true, beq_iff_eq] at hfresh
    rw [hfresh.resolve_left hfailed] at hfits
    exact good_of_unwritten hs (unwritten_save hfits) trivial

/-- **What an operation of a call does.** -/
theorem good_next {f : Frame} (hs : NothingLost D p.store) (hfits : Fits D f p.store)
    (hsaved : answersSaved D p (.go i x) = true) (hfresh : writesFresh p (.go i x) = true)
    (hf : p.calls[i]? = some f) (h : next D x f p.store = some (s, f')) :
    Good D p.store s f' := by
  cases f with
  | accessToken => exact good_accessToken hs h
  | refreshing a tok seen => exact good_refreshing hs hfits hsaved hfresh hf h
  | clearing accessToken =>
      obtain ⟨rfl, rfl⟩ := Prod.mk.inj (Option.some.inj h)
      refine good_of_unwritten hs (.trans ?_ (unwritten_unlock _)) trivial
      split
      · exact ⟨rfl, rfl, rfl, rfl, rfl⟩
      · exact unwritten_status _ _
  | reauthorize provider tok email =>
      simp only [next] at h
      split at h
      · exact good_of_done hs h
      · split at h
        · obtain ⟨rfl, rfl⟩ := Prod.mk.inj (Option.some.inj h)
          exact ⟨hs, .refl _, trivial⟩
        · exact good_of_done hs h
  | reauthSaving provider tok => exact good_reauthSaving hs hsaved hfresh hf h
  | reauthClearing =>
      simp only [next] at h
      split at h
      · exact good_of_done hs h
      · obtain ⟨rfl, rfl⟩ := Prod.mk.inj (Option.some.inj h)
        exact good_of_unwritten hs (unwritten_status _ _) trivial
  | reauthLoading =>
      simp only [next] at h
      split at h
      · exact good_of_done hs h
      · exact good_of_done hs h
  | touchLastSync t =>
      simp only [next] at h
      split at h
      · exact good_of_done hs h
      · obtain ⟨rfl, rfl⟩ := Prod.mk.inj (Option.some.inj h)
        exact ⟨hs, .refl _, loaded_stamp rfl rfl⟩
  | touching a seen =>
      simp only [writesFresh, hf] at hfresh
      exact good_save hs hfits hfresh h
  | update req =>
      simp only [next] at h
      split at h
      · exact good_of_done hs h
      · split at h
        · exact good_of_done hs h
        · rename_i a hedited
          obtain ⟨rfl, rfl⟩ := Prod.mk.inj (Option.some.inj h)
          obtain ⟨htoken, henabled⟩ := edited_keeps hedited
          exact ⟨hs, .refl _, loaded_stamp htoken henabled⟩
  | updating a seen =>
      simp only [writesFresh, hf] at hfresh
      exact good_save hs hfits hfresh h
  | setEnabled enabled =>
      simp only [next] at h
      split at h
      · exact good_of_done hs h
      · obtain ⟨rfl, rfl⟩ := Prod.mk.inj (Option.some.inj h)
        refine ⟨⟨hs.token, hs.refreshToken, by simp⟩, ⟨.refl _ _, .concat _ _ _ _⟩, trivial⟩
  | done r => cases h

end Operation

theorem nothingLost_start (D : Setup) (a : Account) : NothingLost D (.start D a) := by
  refine ⟨rfl, fun r hr => ?_, rfl⟩
  simp only [Store.start] at hr ⊢
  split at hr
  · rename_i tok hload
    split at hr
    · cases hr
    · exact ⟨tok, hload, by simpa using hr⟩
  · cases hr

/-- **No token and no setting of the switch is lost**, in every run in which nothing is
written that is older than what was written since. -/
theorem nothing_lost (D : Setup) {a : Account} {p : Pool Frame Store}
    (h : Run (Pool.step (service D))
      (fun p turn => (answersSaved D p turn && writesFresh p turn) = true) ⟨.start D a, []⟩ p) :
    NothingLost D p.store := by
  refine (Pool.invariant (I := NothingLost D) (J := Fits D) ?_ ?_ ?_ h ?_).store
  · intro c s _
    cases c <;> trivial
  · intro p i x f s f' hp hok hf hnext
    obtain ⟨hsaved, hfresh⟩ := (Bool.and_eq_true _ _).mp hok
    obtain ⟨hs, hstep, hfits⟩ := good_next hp.store (hp.calls i f hf) hsaved hfresh hf hnext
    exact ⟨hs, hfits, fun j g _ hg => (hp.calls j g hg).advance hstep⟩
  · intro p e
    cases e
  · exact Pool.holds_of_no_calls (nothingLost_start D a)

/-! ### One account

A refresh that runs alone loses nothing.  One that falls between the two operations of
`TouchLastSync` is undone, and the refresh token the provider has just replaced is back.
-/

section Example

private def setup : Setup := ⟨Codec.plain, fun _ => .ok (), fun a b => a == b⟩

private def firstToken : Token := ⟨['a'], ['r'], [], [], 9, []⟩

private def oauthAccount : Account where
  id := 1
  name := []
  email := ['m']
  authType := .oauth
  username := []
  passwordEnc := []
  oauthProvider := ['g']
  oauthTokenEnc := Codec.plain.marshal firstToken
  oauthExpiresAt := some 9
  imap := ⟨[], 0, []⟩
  smtp := ⟨[], 0, []⟩
  proxy := .none
  enabled := true
  status := .ok
  lastSyncAt := none
  sortOrder := 1

/-- The provider replaces the refresh token. -/
private def rotated : Luck := ⟨false, 10, 0, .ok ⟨['b'], ['s'], [], [], 60, []⟩⟩

theorem nothing_lost_oauthAccount : ∃ p : Pool Frame Store,
    exec (Pool.step (service setup)) (fun p turn => answersSaved setup p turn && writesFresh p turn)
      ⟨.start setup oauthAccount, []⟩
      [.start .accessToken, .go 0 rotated, .go 0 rotated, .start (.touchLastSync 11),
        .start (.setEnabled false), .go 2 rotated, .go 1 rotated, .go 1 rotated] = some p ∧
      p.store.received = [['r'], ['s']] ∧ NothingLost setup p.store := by
  have hview : (exec (Pool.step (service setup))
      (fun p turn => answersSaved setup p turn && writesFresh p turn)
      ⟨.start setup oauthAccount, []⟩
      [.start .accessToken, .go 0 rotated, .go 0 rotated, .start (.touchLastSync 11),
        .start (.setEnabled false), .go 2 rotated, .go 1 rotated, .go 1 rotated]).map
        (fun p => p.store.received) = some [['r'], ['s']] := rfl
  obtain ⟨p, hp, hreceived⟩ := Option.map_eq_some_iff.mp hview
  exact ⟨p, hp, hreceived, nothing_lost setup (Run.ofExec _ hp)⟩

/-- **Recording the time of a synchronisation can bring a used refresh token back.** -/
theorem touch_restores_old_token : ¬ ∀ (D : Setup) (a : Account) (p : Pool Frame Store),
    Run (Pool.step (service D)) (fun p turn => answersSaved D p turn = true) ⟨.start D a, []⟩ p →
      (∀ f ∈ p.calls, ∃ r, f = .done r) → NothingLost D p.store := by
  intro h
  have hview : (exec (Pool.step (service setup)) (answersSaved setup)
      ⟨.start setup oauthAccount, []⟩
      [.start (.touchLastSync 11), .go 0 rotated, .start .accessToken, .go 1 rotated,
        .go 1 rotated, .go 0 rotated]).map
        (fun p => (p.calls, p.store.received.getLast?, p.store.account.oauthTokenEnc))
      = some ([.done (.ok .none), .done (.ok (.accessToken ['b']))], some ['s'],
        Codec.plain.marshal firstToken) := rfl
  obtain ⟨p, hp, heq⟩ := Option.map_eq_some_iff.mp hview
  simp only [Prod.mk.injEq] at heq
  obtain ⟨hcalls, hlast, htoken⟩ := heq
  have hkept := h setup oauthAccount p (Run.ofExec _ hp) fun f hf => by
    rw [hcalls] at hf
    rcases List.mem_cons.mp hf with rfl | hf
    · exact ⟨_, rfl⟩
    · rw [List.mem_singleton.mp hf]
      exact ⟨_, rfl⟩
  obtain ⟨tok, hload, hrefresh⟩ := hkept.refreshToken ['s'] hlast
  have hfirst : loadToken Codec.plain p.store.account = .ok firstToken := by
    rw [loadToken_congr Codec.plain (b := oauthAccount) htoken]
    rfl
  rw [show setup.codec = Codec.plain from rfl, hfirst] at hload
  obtain rfl := Except.ok.inj hload
  cases hrefresh

end Example

end FlyMail.Account.Access
