/-
Who gets the tokens.

The clean-up removes only claims that have expired, also when time has passed since it looked at the clock, so
it changes no answer (`Follows.sweep`).  A claim is then answered with the tokens if and only if it was stored
at most `claimTTL` ago and nobody asked for it before, and only the instance named in the state ever learns its
code (`claims_of_run`).
-/
import FlyMail.Mail2im.OAuthProxy

namespace FlyMail.Mail2im.OAuthProxy

open OneTime

/-- The claim has expired. -/
def expired (now : Int) (e : ClaimEntry) : Bool := decide (claimTTL < now - e.createdAt)

theorem expired_mono {now now' : Int} (h : now ≤ now') (e : ClaimEntry) (he : expired now e = true) :
    expired now' e = true := by
  unfold expired at he ⊢
  simp only [decide_eq_true_eq] at he ⊢
  omega

/-- The claims that were stored, and those that were handed out. -/
def part : Part Text ClaimEntry Frame where
  gave
    | .redirected _ _ stored => stored
    | _ => none
  got
    | .since shown entry => some (shown.code, entry)
    | .claimed shown entry _ => some (shown.code, entry)
    | _ => none

/-- The browser is sent on to the instance in the state, and with a claim if one was stored. -/
def Referred (cfg : Config) (finalize nonce : Text) : Prop :=
  ∃ state st, cfg.decodeState state = .ok st ∧ cfg.isValidInstance (st.instanceURL.rdropWhile (· == '/')) = true ∧
    finalize = st.instanceURL.rdropWhile (· == '/') ++ "/api/oauth/google/finalize".toList ∧ nonce = st.nonce

/-- What holds of a request at its point. -/
def Frame.Right (cfg : Config) (now : Int) : Frame → Prop
  | .mint finalize nonce _ => Referred cfg finalize nonce
  | .redirected finalize params stored => ∃ nonce, Referred cfg finalize nonce ∧
      ∀ e, stored = some e → params = [("claim".toList, e.1), ("state".toList, nonce)]
  | .since shown entry => held shown.past shown.code = some entry
  | .claimed shown entry at_ => held shown.past shown.code = some entry ∧ at_ ≤ entry.createdAt + claimTTL
  | .notFound _ shown at_ => ∀ e, held shown.past shown.code = some e → e.createdAt + claimTTL < at_
  | .sweep cutoff => cutoff ≤ now - claimTTL
  | _ => True

structure Sound (cfg : Config) (p : Pool Frame Store) : Prop where
  follows : Follows (expired p.store.now) p.store.claims p.store.log
  booked : Booked part p.calls p.store.log
  right : ∀ f ∈ p.calls, f.Right cfg p.store.now

variable {cfg : Config} {p : Pool Frame Store} {i : Nat} {f f' : Frame} {s : Store}

theorem Frame.Right.later {now now' : Int} (h : f.Right cfg now) (hle : now ≤ now') : f.Right cfg now' := by
  cases f with
  | sweep cutoff =>
      unfold Frame.Right at h ⊢
      omega
  | _ => exact h

/-- What a request has to show when it goes on. -/
theorem Sound.goOn (h : Sound cfg p) (hf : p.calls[i]? = some f) (hnow : s.now = p.store.now)
    (hfollows : Follows (expired s.now) s.claims s.log) (hdeal : Deal part p.store.log f f' s.log)
    (hright : f'.Right cfg s.now) : Sound cfg (p.goOn i s f') where
  follows := hfollows
  booked := h.booked.goOn hf hdeal
  right g hg := by
    rcases mem_goOn hg with rfl | hold
    · exact hright
    · exact (h.right g hold).later (Int.le_of_eq hnow.symm)

/-- A request that changes nothing. -/
theorem Sound.goOn_same (h : Sound cfg p) (hf : p.calls[i]? = some f) (hgave : part.gave f' = part.gave f)
    (hgot : part.got f' = part.got f ∨ part.got f' = none) (hright : f'.Right cfg p.store.now) :
    Sound cfg (p.goOn i p.store f') :=
  h.goOn hf rfl h.follows (.none hgave hgot) hright

theorem sound_next {x : Luck} (h : Sound cfg p) (hf : p.calls[i]? = some f)
    (hnext : next cfg x f p.store = some (s, f')) : Sound cfg (p.goOn i s f') := by
  have hright := h.right f (List.mem_of_getElem? hf)
  cases f with
  | redirected _ _ _ | badRequest _ | claimed _ _ _ | notFound _ _ _ | swept => cases hnext
  | callback state error code =>
      simp only [next] at hnext
      cases hst : cfg.decodeState state with
      | error err =>
          simp only [hst, Option.some.injEq, Prod.mk.injEq] at hnext
          obtain ⟨rfl, rfl⟩ := hnext
          exact h.goOn_same hf rfl (Or.inl rfl) trivial
      | ok st =>
          simp only [hst] at hnext
          cases hvalid : cfg.isValidInstance (st.instanceURL.rdropWhile (· == '/')) with
          | false =>
              simp only [hvalid, Bool.not_false, if_true, Option.some.injEq, Prod.mk.injEq] at hnext
              obtain ⟨rfl, rfl⟩ := hnext
              exact h.goOn_same hf rfl (Or.inl rfl) trivial
          | true =>
              have hreferred : Referred cfg
                  (st.instanceURL.rdropWhile (· == '/') ++ "/api/oauth/google/finalize".toList) st.nonce :=
                ⟨state, st, hst, hvalid, rfl, rfl⟩
              simp only [hvalid, Bool.not_true, Bool.false_eq_true, if_false] at hnext
              repeat' split at hnext
              all_goals
                obtain ⟨rfl, rfl⟩ := Prod.mk.inj (Option.some.inj hnext)
                first
                  | exact h.goOn_same hf rfl (Or.inl rfl) ⟨_, hreferred, by simp⟩
                  | exact h.goOn_same hf rfl (Or.inl rfl) hreferred
  | mint finalize nonce json =>
      simp only [next] at hnext
      split at hnext
      · obtain ⟨rfl, rfl⟩ := Prod.mk.inj (Option.some.inj hnext)
        exact h.goOn_same hf rfl (Or.inl rfl) ⟨nonce, hright, by simp⟩
      · obtain ⟨rfl, rfl⟩ := Prod.mk.inj (Option.some.inj hnext)
        refine h.goOn hf rfl (h.follows.offer _ _) (.offer _ _ ⟨rfl, rfl⟩ rfl) ⟨nonce, hright, ?_⟩
        intro e he
        rw [← Option.some.inj he]
  | claim code =>
      simp only [next] at hnext
      split at hnext
      · obtain ⟨rfl, rfl⟩ := Prod.mk.inj (Option.some.inj hnext)
        exact h.goOn_same hf rfl (Or.inl rfl) trivial
      · split at hnext
        · rename_i hget
          obtain ⟨rfl, rfl⟩ := Prod.mk.inj (Option.some.inj hnext)
          refine h.goOn hf rfl (h.follows.take_none hget) (.take code rfl fun e he => by cases he) ?_
          -- what is not there has been swept away, or was never offered
          intro e he
          have hfresh := h.follows.fresh code
          rw [hget, Option.filter_none] at hfresh
          have hstale := Option.filter_eq_none_iff.mp hfresh.symm e he
          simp [expired] at hstale
          omega
        · rename_i entry hget
          obtain ⟨rfl, rfl⟩ := Prod.mk.inj (Option.some.inj hnext)
          have hheld : held p.store.log code = some entry := h.follows.held_of_get hget
          refine h.goOn hf rfl (h.follows.take code) (.take code rfl fun e he => ?_) hheld
          rw [← Option.some.inj he]
          exact ⟨rfl, hheld⟩
  | since shown entry =>
      simp only [next] at hnext
      split at hnext
      · rename_i hold
        obtain ⟨rfl, rfl⟩ := Prod.mk.inj (Option.some.inj hnext)
        refine h.goOn_same hf rfl (Or.inr rfl) ?_
        intro e he
        obtain rfl := Option.some.inj ((show held shown.past shown.code = some entry from hright).symm.trans he)
        omega
      · rename_i hfresh
        obtain ⟨rfl, rfl⟩ := Prod.mk.inj (Option.some.inj hnext)
        exact h.goOn_same hf rfl (Or.inl rfl) ⟨hright, by omega⟩
  | cleanup =>
      obtain ⟨rfl, rfl⟩ := Prod.mk.inj (Option.some.inj hnext)
      exact h.goOn_same hf rfl (Or.inl rfl) (by unfold Frame.Right; omega)
  | sweep cutoff =>
      obtain ⟨rfl, rfl⟩ := Prod.mk.inj (Option.some.inj hnext)
      refine h.goOn hf rfl (h.follows.sweep fun v hv => ?_) (.none rfl (Or.inl rfl)) trivial
      unfold Frame.Right at hright
      unfold expired
      simp only [decide_eq_true_eq] at hv ⊢
      omega

theorem sound_of_run {now : Int} (h : Run (Pool.step (service cfg)) (fun _ _ => True) ⟨.fresh now, []⟩ p) :
    Sound cfg p := by
  have hfresh : Sound cfg ⟨.fresh now, []⟩ := ⟨follows_empty, booked_nil _, fun f hf => by cases hf⟩
  refine Run.invariant (fun p turn q hp _ hstep => ?_) h hfresh
  cases turn with
  | start c =>
      obtain rfl := Option.some.inj hstep
      refine ⟨hp.follows, hp.booked.start (by cases c <;> rfl) (by cases c <;> rfl), fun g hg => ?_⟩
      rcases List.mem_append.mp hg with hold | hnew
      · exact hp.right g hold
      · rw [List.mem_singleton.mp hnew]
        cases c <;> exact trivial
  | go i x =>
      obtain ⟨f, s, f', hf, hnext, rfl⟩ := Pool.step_go hstep
      exact sound_next hp hf hnext
  | outside d =>
      obtain rfl := Option.some.inj hstep
      have hle : p.store.now ≤ p.store.now + (d : Int) := by omega
      exact ⟨hp.follows.later (expired_mono hle), hp.booked, fun g hg => (hp.right g hg).later hle⟩

/-- **Tokens are handed out once, in time, for a code that only the instance in the state has learned.** A claim
that is refused was not stored, was asked for before or has expired. -/
theorem claims_of_run {now : Int} (h : Run (Pool.step (service cfg)) (fun _ _ => True) ⟨.fresh now, []⟩ p) :
    (∀ shown entry at_, .claimed shown entry at_ ∈ p.calls →
        held shown.past shown.code = some entry ∧ at_ ≤ entry.createdAt + claimTTL ∧
          ∃ finalize nonce, Referred cfg finalize nonce ∧ .redirected finalize
            [("claim".toList, shown.code), ("state".toList, nonce)] (some (shown.code, entry)) ∈ p.calls) ∧
      (∀ msg shown at_, .notFound msg shown at_ ∈ p.calls →
        ∀ e, held shown.past shown.code = some e → e.createdAt + claimTTL < at_) ∧
      ∀ k, p.calls.countP (Frame.claimedAs k) ≤ p.calls.countP (Frame.storedAs k) := by
  have hsound := sound_of_run h
  refine ⟨?_, fun msg shown at_ hmem => hsound.right _ hmem, fun k => ?_⟩
  · intro shown entry at_ hmem
    obtain ⟨hheld, hle⟩ := hsound.right _ hmem
    obtain ⟨g, hg, hgave⟩ := hsound.booked.exists_gave hmem (k := shown.code) (v := entry) rfl
    cases g with
    | redirected finalize params stored =>
        obtain ⟨nonce, hreferred, hparams⟩ := hsound.right _ hg
        have hstored : stored = some (shown.code, entry) := hgave
        rw [hparams _ hstored, hstored] at hg
        exact ⟨hheld, hle, finalize, nonce, hreferred, hg⟩
    | _ => cases hgave
  · calc p.calls.countP (Frame.claimedAs k) ≤ p.calls.countP (part.gotAs k) := by
          refine List.countP_mono_left fun f _ hk => ?_
          cases f with
          | claimed shown entry at_ => simpa [Part.gotAs, part, Frame.claimedAs] using hk
          | _ => cases hk
      _ ≤ p.calls.countP (part.gaveAs k) := hsound.booked.got_le_gave k
      _ = p.calls.countP (Frame.storedAs k) := by
          refine List.countP_congr fun f _ => ?_
          cases f with
          | redirected finalize params stored => cases stored <;> simp [Part.gaveAs, part, Frame.storedAs]
          | _ => simp [Part.gaveAs, part, Frame.storedAs]

/-- A state names the instance itself. -/
def anyone : Config := ⟨fun state => .ok ⟨state, "n".toList⟩, fun _ => true⟩

/-- Tokens are stored, claimed, and claimed again; the clean-up comes in between. -/
def claims : List (Turn Request Luck Nat) :=
  let x : Luck := ⟨.tokens [7], some ⟨List.replicate 32 0, rfl⟩⟩
  [.start (.callback "https://i/".toList [] "c".toList), .go 0 x, .go 0 x, .start .cleanup, .go 1 x, .outside 5,
    .start (.claim (List.replicate 64 '0')), .go 2 x, .go 1 x, .go 2 x, .start (.claim (List.replicate 64 '0')), .go 3 x]

theorem claims_of_run_claims : ∃ p : Pool Frame Store,
    exec (Pool.step (service anyone)) (fun _ _ => true) ⟨.fresh 0, []⟩ claims = some p ∧
      p.calls.countP (Frame.claimedAs (List.replicate 64 '0')) = 1 ∧
      ∀ k, p.calls.countP (Frame.claimedAs k) ≤ p.calls.countP (Frame.storedAs k) := by
  have hexec : ∃ p : Pool Frame Store,
      exec (Pool.step (service anyone)) (fun _ _ => true) ⟨.fresh 0, []⟩ claims = some p ∧
        p.calls.countP (Frame.claimedAs (List.replicate 64 '0')) = 1 := ⟨_, rfl, rfl⟩
  obtain ⟨p, hp, hone⟩ := hexec
  exact ⟨p, hp, hone, (claims_of_run ((Run.ofExec claims hp).mono fun _ _ _ => trivial)).2.2⟩

end FlyMail.Mail2im.OAuthProxy
