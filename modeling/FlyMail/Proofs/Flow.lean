/-
What a flow can be used for.

A state is meant to be used once, and a flow to become one account.  Both are decided by a
look into a map and an operation on the map later, and in between another call may look.
Where the calls that have looked are waited for, each state passes the checks once
(`state_used_once`) and each flow becomes one account at most (`completed_once`).

What a flow has come to does not change any more, whatever the calls do.  And a completion
that fails has written nothing, provided that it does not fail half-way.

All that an operation can do is said once, in `Op`.
-/
import FlyMail.Account.Flow

namespace FlyMail.Account.Flow

variable {D : Setup}

/-! ### What an operation can do -/

/-- The call has created a row or replaced a token. -/
def Frame.wrote : Frame → Bool
  | .createSaving _ _ _ _ => true
  | .createLoading _ _ => true
  | .createDiscarding _ _ => true
  | .reauthClearing _ _ => true
  | .reauthLoading _ _ => true
  | .reauthDiscarding _ _ => true
  | .done _ wrote => wrote
  | _ => false

/-- An operation of a call in the frame `f` leaves the store `s'` and the frame `f'`. -/
inductive Op (D : Setup) (x : Luck) (s : Store) : Frame → Store → Frame → Prop
  | quit {f : Frame} (e : Err) (hf : f.wrote = false) : Op D x s f s (.done (.error e) false)
  | fail {f : Frame} (e : Err) (hf : f.wrote = true)
      (h : next D x f s = some (s, .done (.error e) true)) : Op D x s f s (.done (.error e) true)
  | findState {c : Callback} {flowID : Text} (h : s.states c.state = some flowID) :
      Op D x s (.handleCallback c) s (.stateFound c flowID)
  | findFlow {c : Callback} {flowID : Text} :
      Op D x s (.stateFound c flowID) s (.flowFound c flowID)
  | accept {c : Callback} {flowID : Text} :
      Op D x s (.flowFound c flowID)
        { s with
          states := Function.update s.states c.state none
          accepted := s.accepted ++ [c.state] } (.accepted c flowID)
  | settle {c : Callback} {flowID : Text} (g : OAuthFlow) (r : Except Err Answer)
      (hg : (s.flow flowID).status = .success → g = s.flow flowID) :
      Op D x s (.accepted c flowID) (s.setFlow flowID g) (.done r false)
  | cancel {flowID : Text} :
      Op D x s (.cancelOAuthFlow flowID) (s.discard flowID) (.done (.ok .none) false)
  | look {req : CompleteOAuthRequest} (h : s.flows req.flowID = true) :
      Op D x s (.completeOAuth req) s (.completing req)
  | beginCreate {req : CompleteOAuthRequest} {provider : Text} {tok : Token} {a : Account} :
      Op D x s (.completing req) s (.creating req.flowID provider tok a)
  | beginReauth {req : CompleteOAuthRequest} {provider email : Text} {tok : Token} {id : Nat} :
      Op D x s (.completing req) s (.reauthorizing req.flowID provider tok id email)
  | create {flowID provider : Text} {tok : Token} {a : Account} {accounts : Accounts} {id : Nat}
      (h : Repository.create s.accounts a = .ok (accounts, id)) :
      Op D x s (.creating flowID provider tok a)
        { s with accounts := accounts, created := s.created ++ [flowID] }
        (.createSaving flowID provider tok id)
  | createSave {flowID provider : Text} {tok : Token} {id : Nat} {accounts : Accounts}
      (h : saveToken D x s.accounts id provider tok = .ok accounts) :
      Op D x s (.createSaving flowID provider tok id) { s with accounts := accounts }
        (.createLoading flowID id)
  | createLoad {flowID : Text} {id : Nat} {a : Account} :
      Op D x s (.createLoading flowID id) s (.createDiscarding flowID a)
  | createDiscard {flowID : Text} {a : Account} :
      Op D x s (.createDiscarding flowID a) (s.discard flowID) (.done (.ok (.account a)) true)
  | reauthFind {flowID provider email : Text} {tok : Token} {id : Nat} {a : Account} :
      Op D x s (.reauthorizing flowID provider tok id email) s
        (.reauthSaving flowID provider tok a.id)
  | reauthSave {flowID provider : Text} {tok : Token} {id : Nat} {accounts : Accounts}
      (h : saveToken D x s.accounts id provider tok = .ok accounts) :
      Op D x s (.reauthSaving flowID provider tok id) { s with accounts := accounts }
        (.reauthClearing flowID id)
  | reauthClear {flowID : Text} {id : Nat} {accounts : Accounts}
      (h : Repository.updateFields s.accounts id (fun a => a.withStatus .ok) (fun _ => rfl)
        (fun _ => rfl) = .ok accounts) :
      Op D x s (.reauthClearing flowID id) { s with accounts := accounts }
        (.reauthLoading flowID id)
  | reauthLoad {flowID : Text} {id : Nat} {a : Account} :
      Op D x s (.reauthLoading flowID id) s (.reauthDiscarding flowID a)
  | reauthDiscard {flowID : Text} {a : Account} :
      Op D x s (.reauthDiscarding flowID a) (s.discard flowID) (.done (.ok (.account a)) true)

theorem asked_ok {α : Type} {x : Luck} {r : Except Err α} {a : α} (h : asked x r = .ok a) :
    r = .ok a := by
  unfold asked at h
  split at h
  · cases h
  · exact h

theorem op_of_begin {x : Luck} {s : Store} (req : CompleteOAuthRequest) (f : OAuthFlow) :
    Op D x s (.completing req) s (begin D req f) := by
  unfold begin
  split
  · rename_i tok _ _
    dsimp only
    generalize (if Text.trimSpace req.email = [] then tok.email else Text.trimSpace req.email)
      = email
    split
    · exact .quit _ rfl
    · split
      · exact .beginReauth
      · split
        · exact .quit _ rfl
        · exact .beginCreate
  · exact .quit _ rfl

theorem succeed_of_success {f : OAuthFlow} (tok : Token) (h : f.status = .success) :
    f.succeed tok = f := by
  simp [OAuthFlow.succeed, h]

theorem fail_of_success {f : OAuthFlow} (e : Err) (h : f.status = .success) : f.fail e = f := by
  simp [OAuthFlow.fail, h]

/-- **Nothing but what `Op` says.** -/
theorem op_of_next {x : Luck} {f f' : Frame} {s s' : Store} (hnext : next D x f s = some (s', f')) :
    Op D x s f s' f' := by
  have h := hnext
  cases f with
  | handleCallback c =>
      simp only [next] at h
      split at h
      · obtain ⟨rfl, rfl⟩ := Prod.mk.inj (Option.some.inj h)
        exact .quit _ rfl
      · split at h
        · obtain ⟨rfl, rfl⟩ := Prod.mk.inj (Option.some.inj h)
          exact .quit _ rfl
        · rename_i flowID hfound
          obtain ⟨rfl, rfl⟩ := Prod.mk.inj (Option.some.inj h)
          exact .findState hfound
  | stateFound c flowID =>
      simp only [next] at h
      split at h
      · obtain ⟨rfl, rfl⟩ := Prod.mk.inj (Option.some.inj h)
        exact .findFlow
      · obtain ⟨rfl, rfl⟩ := Prod.mk.inj (Option.some.inj h)
        exact .quit _ rfl
  | flowFound c flowID =>
      obtain ⟨rfl, rfl⟩ := Prod.mk.inj (Option.some.inj h)
      exact .accept
  | accepted c flowID =>
      simp only [next] at h
      split at h
      · obtain ⟨rfl, rfl⟩ := Prod.mk.inj (Option.some.inj h)
        exact .settle _ _ (fail_of_success _)
      · obtain ⟨rfl, rfl⟩ := Prod.mk.inj (Option.some.inj h)
        exact .settle _ _ (succeed_of_success _)
  | cancelOAuthFlow flowID =>
      obtain ⟨rfl, rfl⟩ := Prod.mk.inj (Option.some.inj h)
      exact .cancel
  | completeOAuth req =>
      simp only [next] at h
      split at h
      · rename_i hflow
        obtain ⟨rfl, rfl⟩ := Prod.mk.inj (Option.some.inj h)
        exact .look hflow
      · obtain ⟨rfl, rfl⟩ := Prod.mk.inj (Option.some.inj h)
        exact .quit _ rfl
  | completing req =>
      obtain ⟨rfl, rfl⟩ := Prod.mk.inj (Option.some.inj h)
      exact op_of_begin req _
  | creating flowID provider tok a =>
      simp only [next] at h
      split at h
      · obtain ⟨rfl, rfl⟩ := Prod.mk.inj (Option.some.inj h)
        exact .quit _ rfl
      · rename_i accounts id hcreate
        obtain ⟨rfl, rfl⟩ := Prod.mk.inj (Option.some.inj h)
        exact .create (asked_ok hcreate)
  | createSaving flowID provider tok id =>
      simp only [next] at h
      split at h
      · obtain ⟨rfl, rfl⟩ := Prod.mk.inj (Option.some.inj h)
        exact .fail _ rfl hnext
      · rename_i accounts hsave
        obtain ⟨rfl, rfl⟩ := Prod.mk.inj (Option.some.inj h)
        exact .createSave hsave
  | createLoading flowID id =>
      simp only [next] at h
      split at h
      · obtain ⟨rfl, rfl⟩ := Prod.mk.inj (Option.some.inj h)
        exact .fail _ rfl hnext
      · obtain ⟨rfl, rfl⟩ := Prod.mk.inj (Option.some.inj h)
        exact .createLoad
  | createDiscarding flowID a =>
      obtain ⟨rfl, rfl⟩ := Prod.mk.inj (Option.some.inj h)
      exact .createDiscard
  | reauthorizing flowID provider tok id email =>
      simp only [next] at h
      split at h
      · obtain ⟨rfl, rfl⟩ := Prod.mk.inj (Option.some.inj h)
        exact .quit _ rfl
      · split at h
        · obtain ⟨rfl, rfl⟩ := Prod.mk.inj (Option.some.inj h)
          exact .reauthFind
        · obtain ⟨rfl, rfl⟩ := Prod.mk.inj (Option.some.inj h)
          exact .quit _ rfl
  | reauthSaving flowID provider tok id =>
      simp only [next] at h
      split at h
      · obtain ⟨rfl, rfl⟩ := Prod.mk.inj (Option.some.inj h)
        exact .quit _ rfl
      · rename_i accounts hsave
        obtain ⟨rfl, rfl⟩ := Prod.mk.inj (Option.some.inj h)
        exact .reauthSave hsave
  | reauthClearing flowID id =>
      simp only [next] at h
      split at h
      · obtain ⟨rfl, rfl⟩ := Prod.mk.inj (Option.some.inj h)
        exact .fail _ rfl hnext
      · rename_i accounts hclear
        obtain ⟨rfl, rfl⟩ := Prod.mk.inj (Option.some.inj h)
        exact .reauthClear (asked_ok hclear)
  | reauthLoading flowID id =>
      simp only [next] at h
      split at h
      · obtain ⟨rfl, rfl⟩ := Prod.mk.inj (Option.some.inj h)
        exact .fail _ rfl hnext
      · obtain ⟨rfl, rfl⟩ := Prod.mk.inj (Option.some.inj h)
        exact .reauthLoad
  | reauthDiscarding flowID a =>
      obtain ⟨rfl, rfl⟩ := Prod.mk.inj (Option.some.inj h)
      exact .reauthDiscard
  | done r wrote => cases h

/-! ### A state is used once -/

/-- No state was accepted twice, no two callbacks have the same state in hand, and an
accepted state is gone. -/
structure SingleUse (p : Pool Frame Store) : Prop where
  nodup : p.store.accepted.Nodup
  one : ∀ state, p.calls.countP (Frame.holds state) ≤ 1
  used : ∀ state ∈ p.store.accepted,
    p.store.states state = none ∧ p.calls.countP (Frame.holds state) = 0

theorem SingleUse.of_le {p q : Pool Frame Store} (h : SingleUse p)
    (haccepted : q.store.accepted = p.store.accepted)
    (hstates : ∀ state, p.store.states state = none → q.store.states state = none)
    (hcount : ∀ state, q.calls.countP (Frame.holds state) ≤ p.calls.countP (Frame.holds state)) :
    SingleUse q := by
  refine ⟨by rw [haccepted]; exact h.nodup, fun state => ?_, fun state hused => ?_⟩
  · exact Nat.le_trans (hcount state) (h.one state)
  · rw [haccepted] at hused
    obtain ⟨hgone, hnone⟩ := h.used state hused
    have hle := hcount state
    exact ⟨hstates state hgone, by omega⟩

section Turn

variable {p : Pool Frame Store} {i : Nat} {x : Luck} {f f' : Frame} {s : Store}

/-- A callback finds a state that no other has in hand. -/
theorem singleUse_findState {c : Callback} {flowID : Text} (h : SingleUse p)
    (hturn : p.calls.countP (Frame.holds c.state) = 0)
    (hf : p.calls[i]? = some (.handleCallback c)) (hfound : p.store.states c.state = some flowID) :
    SingleUse (p.goOn i p.store (.stateFound c flowID)) := by
  have hcount := fun state =>
    Pool.countP_goOn (s := p.store) (g := .stateFound c flowID) (Frame.holds state) hf
  simp only [Frame.holds, Bool.false_eq_true, if_false, Nat.add_zero, beq_iff_eq] at hcount
  refine ⟨h.nodup, fun state => ?_, fun state hused => ?_⟩
  · rw [hcount state]
    by_cases hstate : c.state = state
    · rw [if_pos hstate]
      have hzero := hstate ▸ hturn
      omega
    · rw [if_neg hstate]
      exact h.one state
  · obtain ⟨hgone, hnone⟩ := h.used state hused
    refine ⟨hgone, ?_⟩
    have hstate : c.state ≠ state := fun he => by
      rw [he, hgone] at hfound
      cases hfound
    rw [hcount state, if_neg hstate]
    exact hnone

/-- **A state is accepted, for the first and the last time.** -/
theorem singleUse_accept {c : Callback} {flowID : Text} (h : SingleUse p)
    (hf : p.calls[i]? = some (.flowFound c flowID))
    (haccepted : s.accepted = p.store.accepted ++ [c.state])
    (hstates : s.states = Function.update p.store.states c.state none) :
    SingleUse (p.goOn i s (.accepted c flowID)) := by
  have hcount := fun state =>
    Pool.countP_goOn (s := s) (g := .accepted c flowID) (Frame.holds state) hf
  simp only [Frame.holds, Bool.false_eq_true, if_false, Nat.add_zero, beq_iff_eq] at hcount
  have hself := hcount c.state
  rw [if_pos rfl] at hself
  have hone := h.one c.state
  have hnew : c.state ∉ p.store.accepted := fun hused => by
    obtain ⟨-, hnone⟩ := h.used c.state hused
    omega
  refine ⟨?_, fun state => ?_, fun state hused => ?_⟩
  · show s.accepted.Nodup
    rw [haccepted]
    refine List.nodup_append.mpr ⟨h.nodup, by simp, fun a ha b hb => ?_⟩
    rw [List.mem_singleton.mp hb]
    exact fun he => hnew (he ▸ ha)
  · have hle := hcount state
    have hone := h.one state
    omega
  · change state ∈ s.accepted at hused
    show s.states state = none ∧ _
    rw [haccepted] at hused
    rw [hstates]
    have hle := hcount state
    by_cases hstate : state = c.state
    · subst hstate
      refine ⟨Function.update_self _ _ _, ?_⟩
      omega
    · have hold : state ∈ p.store.accepted := by
        rcases List.mem_append.mp hused with hold | hnew
        · exact hold
        · exact absurd (List.mem_singleton.mp hnew) hstate
      obtain ⟨hgone, hnone⟩ := h.used state hold
      rw [Function.update_of_ne hstate]
      exact ⟨hgone, by omega⟩

theorem singleUse_go (h : SingleUse p) (hturn : statesInTurn p (.go i x) = true)
    (hf : p.calls[i]? = some f) (hop : Op D x p.store f s f') : SingleUse (p.goOn i s f') := by
  have hless : (∀ state, f'.holds state = true → f.holds state = true) →
      s.accepted = p.store.accepted → s.states = p.store.states → SingleUse (p.goOn i s f') := by
    intro hholds haccepted hstates
    refine h.of_le haccepted (fun state hgone => ?_) fun state =>
      Pool.countP_goOn_le _ hf (hholds state)
    show s.states state = none
    rw [hstates]
    exact hgone
  cases hop with
  | findState hfound =>
      simp only [statesInTurn, hf, beq_iff_eq] at hturn
      exact singleUse_findState h hturn hf hfound
  | findFlow => exact hless (fun _ hholds => hholds) rfl rfl
  | accept => exact singleUse_accept h hf rfl rfl
  | _ => exact hless (fun _ hholds => by cases hholds) rfl rfl

end Turn

theorem singleUse_step {p q : Pool Frame Store} {turn : Turn Request Luck Event}
    (h : SingleUse p) (hturn : statesInTurn p turn = true)
    (hstep : p.step (service D) turn = some q) : SingleUse q := by
  cases turn with
  | start c =>
      obtain rfl := Option.some.inj hstep
      refine h.of_le rfl (fun _ hgone => hgone) fun state => ?_
      have hnew : Frame.holds state (enter c) = false := by cases c <;> rfl
      simp [List.countP_append, service, hnew]
  | go i x =>
      obtain ⟨f, s, f', hf, hnext, rfl⟩ := Pool.step_go hstep
      exact singleUse_go h hturn hf (op_of_next hnext)
  | outside e =>
      obtain rfl := Option.some.inj hstep
      cases e with
      | flowExpires flowID => exact h.of_le rfl (fun _ hgone => hgone) fun _ => Nat.le_refl _
      | stateExpires state =>
          refine h.of_le rfl (fun state' hgone => ?_) fun _ => Nat.le_refl _
          show Function.update p.store.states state none state' = none
          by_cases hstate : state' = state
          · rw [hstate, Function.update_self]
          · rw [Function.update_of_ne hstate]
            exact hgone

/-! ### What has succeeded stays so -/

theorem success_go {x : Luck} {f f' : Frame} {s s' : Store} (hop : Op D x s f s' f')
    {flowID : Text} (h : (s.flow flowID).status = .success) : s'.flow flowID = s.flow flowID := by
  cases hop with
  | @settle c flowID' g r hg =>
      show Function.update s.flow flowID' g flowID = _
      by_cases hid : flowID = flowID'
      · subst hid
        rw [Function.update_self, hg h]
      · rw [Function.update_of_ne hid]
  | _ => rfl

/-- **A flow that has succeeded is not touched any more.** -/
theorem success_stays {p q : Pool Frame Store} {ok : Pool Frame Store → Turn Request Luck Event → Prop}
    (h : Run (Pool.step (service D)) ok p q) {flowID : Text}
    (hp : (p.store.flow flowID).status = .success) :
    q.store.flow flowID = p.store.flow flowID := by
  refine Run.invariant (I := fun q => q.store.flow flowID = p.store.flow flowID)
    (fun q turn r hq _ hstep => ?_) h rfl
  cases turn with
  | start c => exact (Option.some.inj hstep) ▸ hq
  | go i x =>
      obtain ⟨f, s, f', -, hnext, rfl⟩ := Pool.step_go hstep
      exact (success_go (op_of_next hnext) (by rw [hq]; exact hp)).trans hq
  | outside e =>
      obtain rfl := Option.some.inj hstep
      cases e <;> exact hq

/-- Flows that wait, and calls yet to be made. -/
def waiting (states : Text → Option Text) (flows : Text → Bool) (flow : Text → OAuthFlow)
    (accounts : Accounts) : Pool Frame Store :=
  ⟨⟨states, flows, flow, accounts, [], []⟩, []⟩

/-- **A state passes the checks once**, in every run in which a state is looked up only when
no other callback has it in hand; and in every run a flow that has succeeded stays so. -/
theorem state_used_once (D : Setup) {states : Text → Option Text} {flows : Text → Bool}
    {flow : Text → OAuthFlow} {accounts : Accounts} {p : Pool Frame Store}
    (h : Run (Pool.step (service D)) (fun p turn => statesInTurn p turn = true)
      (waiting states flows flow accounts) p) :
    p.store.accepted.Nodup ∧
      ∀ q, Run (Pool.step (service D)) (fun _ _ => True) p q → ∀ flowID,
        (p.store.flow flowID).status = .success → (q.store.flow flowID).status = .success := by
  refine ⟨?_, fun q hq flowID hsuccess => ?_⟩
  · have hstart : SingleUse (waiting states flows flow accounts) :=
      ⟨List.nodup_nil, fun _ => Nat.zero_le 1, fun _ hused => by cases hused⟩
    exact (Run.invariant (fun _ _ _ hp hok hstep => singleUse_step hp hok hstep) h hstart).nodup
  · rw [success_stays hq hsuccess]
    exact hsuccess

/-! ### A completion that fails has written nothing -/

theorem isSome_get?_iff {accounts : Accounts} {id : Nat} :
    (accounts.get? id).isSome = true ↔ ∃ a ∈ accounts.rows, a.id = id := by
  rw [Option.isSome_iff_exists]
  exact ⟨fun ⟨a, ha⟩ => ⟨a, Table.get?_eq_some.mp ha⟩, fun ⟨a, ha⟩ => ⟨a, Table.get?_eq_some.mpr ha⟩⟩

theorem updateFields_eq_ok {accounts accounts' : Accounts} {id : Nat} {change : Account → Account}
    {hid : ∀ a, (change a).id = a.id} {hemail : ∀ a, (change a).email = a.email}
    (h : Repository.updateFields accounts id change hid hemail = .ok accounts') :
    (accounts.get? id).isSome = true ∧
      accounts' = accounts.modify (fun a => a.id == id) change hid hemail := by
  unfold Repository.updateFields at h
  split at h
  · cases h
  · rename_i hnone
    refine ⟨?_, (Except.ok.inj h).symm⟩
    cases hget : accounts.get? id with
    | none => simp [hget] at hnone
    | some a => rfl

/-- A column update takes no row away. -/
theorem isSome_get?_updateFields {accounts accounts' : Accounts} {id id' : Nat}
    {change : Account → Account} {hid : ∀ a, (change a).id = a.id}
    {hemail : ∀ a, (change a).email = a.email}
    (h : Repository.updateFields accounts id change hid hemail = .ok accounts')
    (hsome : (accounts.get? id').isSome = true) : (accounts'.get? id').isSome = true := by
  obtain ⟨-, rfl⟩ := updateFields_eq_ok h
  obtain ⟨a, ha, rfl⟩ := isSome_get?_iff.mp hsome
  refine isSome_get?_iff.mpr ⟨_, Table.exists_mem_modify ha, ?_⟩
  split
  · exact hid a
  · rfl

theorem updateFields_of_saveToken {x : Luck} {accounts accounts' : Accounts} {id : Nat}
    {provider : Text} {tok : Token} (h : saveToken D x accounts id provider tok = .ok accounts') :
    ∃ enc, Repository.updateFields accounts id (fun a => a.withToken provider tok enc)
      (fun _ => rfl) (fun _ => rfl) = .ok accounts' := by
  unfold saveToken at h
  split at h
  · cases h
  · rename_i enc _
    split at h
    · cases h
    · exact ⟨enc, h⟩

theorem create_eq_ok {accounts accounts' : Accounts} {a : Account} {id : Nat}
    (h : Repository.create accounts a = .ok (accounts', id)) :
    (accounts'.get? id).isSome = true ∧
      ∀ id', (accounts.get? id').isSome = true → (accounts'.get? id').isSome = true := by
  unfold Repository.create at h
  dsimp only at h
  split at h
  · cases h
  · obtain ⟨rfl, rfl⟩ := Prod.mk.inj (Except.ok.inj h)
    refine ⟨isSome_get?_iff.mpr ⟨_, Table.mem_insert.mpr (Or.inr rfl), rfl⟩, fun id' hsome => ?_⟩
    obtain ⟨r, hr, hid⟩ := isSome_get?_iff.mp hsome
    exact isSome_get?_iff.mpr ⟨r, Table.mem_insert.mpr (Or.inl hr), hid⟩

/-- **No call takes a row away.** -/
theorem rows_stay {x : Luck} {f f' : Frame} {s s' : Store} (hop : Op D x s f s' f') (id : Nat)
    (h : (s.accounts.get? id).isSome = true) : (s'.accounts.get? id).isSome = true := by
  cases hop with
  | create hcreate => exact (create_eq_ok hcreate).2 id h
  | createSave hsave =>
      obtain ⟨enc, hupdate⟩ := updateFields_of_saveToken hsave
      exact isSome_get?_updateFields hupdate h
  | reauthSave hsave =>
      obtain ⟨enc, hupdate⟩ := updateFields_of_saveToken hsave
      exact isSome_get?_updateFields hupdate h
  | reauthClear hclear => exact isSome_get?_updateFields hclear h
  | _ => exact h

/-- What is known of a call: the row it works on is there, and if it failed it has not
written. -/
def Sound : Frame → Store → Prop
  | .createSaving _ _ _ id, s => (s.accounts.get? id).isSome = true
  | .createLoading _ id, s => (s.accounts.get? id).isSome = true
  | .reauthClearing _ id, s => (s.accounts.get? id).isSome = true
  | .reauthLoading _ id, s => (s.accounts.get? id).isSome = true
  | .done (.error _) wrote, _ => wrote = false
  | _, _ => True

theorem Sound.stays {f : Frame} {s s' : Store} (h : Sound f s)
    (hrows : ∀ id, (s.accounts.get? id).isSome = true → (s'.accounts.get? id).isSome = true) :
    Sound f s' := by
  cases f with
  | createSaving flowID provider tok id => exact hrows id h
  | createLoading flowID id => exact hrows id h
  | reauthClearing flowID id => exact hrows id h
  | reauthLoading flowID id => exact hrows id h
  | done r wrote => cases r <;> exact h
  | _ => trivial

theorem getByID_of_isSome {accounts : Accounts} {id : Nat}
    (h : (accounts.get? id).isSome = true) : ∃ a, Repository.getByID accounts id = .ok a := by
  obtain ⟨a, ha⟩ := Option.isSome_iff_exists.mp h
  exact ⟨a, by simp [Repository.getByID, ha]⟩

theorem updateFields_ne_error {accounts : Accounts} {id : Nat} {change : Account → Account}
    {hid : ∀ a, (change a).id = a.id} {hemail : ∀ a, (change a).email = a.email}
    (h : (accounts.get? id).isSome = true) (e : Err) :
    Repository.updateFields accounts id change hid hemail ≠ .error e := by
  obtain ⟨a, ha⟩ := Option.isSome_iff_exists.mp h
  simp [Repository.updateFields, ha]

theorem saveToken_ne_error {x : Luck} {accounts : Accounts} {id : Nat} {provider : Text}
    {tok : Token} (h : (accounts.get? id).isSome = true) (hfailed : x.failed = false)
    (hseal : (sealToken D.codec x.nonce tok).isSome = true) (e : Err) :
    saveToken D x accounts id provider tok ≠ .error e := by
  obtain ⟨enc, henc⟩ := Option.isSome_iff_exists.mp hseal
  unfold saveToken
  rw [henc]
  dsimp only
  rw [if_neg (by simp [hfailed])]
  exact updateFields_ne_error h e

theorem asked_eq {α : Type} {x : Luck} (h : x.failed = false) (r : Except Err α) :
    asked x r = r := by
  simp [asked, h]

section Turn

variable {p : Pool Frame Store} {i : Nat} {x : Luck} {f f' : Frame} {s : Store}

/-- A completion that has written does not fail, if the database and the encryption let it. -/
theorem not_fail {e : Err} (hsound : Sound f p.store)
    (hfinishes : finishesWriting D p (.go i x) = true) (hf : p.calls[i]? = some f)
    (hwrote : f.wrote = true) : next D x f p.store ≠ some (s, .done (.error e) true) := by
  intro h
  simp only [finishesWriting, hf] at hfinishes
  cases f with
  | createSaving flowID provider tok id =>
      simp only [Bool.and_eq_true, Bool.not_eq_true'] at hfinishes
      simp only [next] at h
      split at h
      · rename_i hsave
        exact saveToken_ne_error hsound hfinishes.1 hfinishes.2 _ hsave
      · cases h
  | createLoading flowID id =>
      obtain ⟨a, ha⟩ := getByID_of_isSome hsound
      simp only [next, asked_eq (Bool.not_eq_true' _ ▸ hfinishes), ha] at h
      cases h
  | reauthClearing flowID id =>
      simp only [next, asked_eq (Bool.not_eq_true' _ ▸ hfinishes)] at h
      split at h
      · rename_i hclear
        exact updateFields_ne_error hsound _ hclear
      · cases h
  | reauthLoading flowID id =>
      obtain ⟨a, ha⟩ := getByID_of_isSome hsound
      simp only [next, asked_eq (Bool.not_eq_true' _ ▸ hfinishes), ha] at h
      cases h
  | createDiscarding flowID a => cases h
  | reauthDiscarding flowID a => cases h
  | done r wrote => cases h
  | _ => cases hwrote

theorem sound_go (hsound : Sound f p.store) (hfinishes : finishesWriting D p (.go i x) = true)
    (hf : p.calls[i]? = some f) (hop : Op D x p.store f s f') : Sound f' s := by
  cases hop with
  | quit e hwrote => exact rfl
  | fail e hwrote h => exact absurd h (not_fail hsound hfinishes hf hwrote)
  | create hcreate => exact (create_eq_ok hcreate).1
  | createSave hsave =>
      obtain ⟨enc, hupdate⟩ := updateFields_of_saveToken hsave
      exact isSome_get?_updateFields hupdate hsound
  | reauthSave hsave =>
      obtain ⟨enc, hupdate⟩ := updateFields_of_saveToken hsave
      exact isSome_get?_updateFields hupdate (updateFields_eq_ok hupdate).1
  | reauthClear hclear => exact isSome_get?_updateFields hclear hsound
  | settle g r hg =>
      cases r with
      | ok a => trivial
      | error e => rfl
  | _ => trivial

end Turn

/-! ### A flow becomes one account at most -/

/-- The completion has found the flow and has not created an account yet. -/
def Frame.precreates (flowID : Text) : Frame → Bool
  | .completing req => req.flowID == flowID
  | .creating flowID' _ _ _ => flowID' == flowID
  | _ => false

/-- No flow became two accounts, no two completions have the same flow in hand, and a flow
that became an account is gone, or about to go. -/
structure OneAccount (p : Pool Frame Store) : Prop where
  nodup : p.store.created.Nodup
  one : ∀ flowID, p.calls.countP (Frame.completes flowID) ≤ 1
  used : ∀ flowID ∈ p.store.created, p.calls.countP (Frame.precreates flowID) = 0 ∧
    (p.store.flows flowID = false ∨ p.calls.countP (Frame.completes flowID) = 1)

section Turn

variable {p : Pool Frame Store} {i : Nat} {x : Luck} {f f' : Frame} {s : Store}

/-- An operation that gets a completion no further. -/
theorem oneAccount_of_same (h : OneAccount p) (hf : p.calls[i]? = some f)
    (hcreated : s.created = p.store.created)
    (hflows : ∀ flowID, p.store.flows flowID = false → s.flows flowID = false)
    (hcompletes : ∀ flowID, f'.completes flowID = f.completes flowID)
    (hprecreates : ∀ flowID, f'.precreates flowID = true → f.precreates flowID = true) :
    OneAccount (p.goOn i s f') := by
  have hcount : ∀ flowID, (p.goOn i s f').calls.countP (Frame.completes flowID)
      = p.calls.countP (Frame.completes flowID) := fun flowID => by
    have hsum := Pool.countP_goOn (s := s) (g := f') (Frame.completes flowID) hf
    rw [hcompletes flowID] at hsum
    omega
  refine ⟨?_, fun flowID => ?_, fun flowID hused => ?_⟩
  · show s.created.Nodup
    rw [hcreated]
    exact h.nodup
  · rw [hcount flowID]
    exact h.one flowID
  · change flowID ∈ s.created at hused
    rw [hcreated] at hused
    obtain ⟨hpre, hgone⟩ := h.used flowID hused
    have hle := Pool.countP_goOn_le (s := s) (Frame.precreates flowID) hf (hprecreates flowID)
    rw [hcount flowID]
    exact ⟨by omega, hgone.imp_left (hflows flowID)⟩

/-- A completion that leaves the flow alone before it has created an account. -/
theorem oneAccount_of_quit (h : OneAccount p) (hf : p.calls[i]? = some f)
    (hwrote : f.wrote = false) (hcompletes : ∀ flowID, f'.completes flowID = false)
    (hprecreates : ∀ flowID, f'.precreates flowID = false) :
    OneAccount (p.goOn i p.store f') := by
  have hpre : ∀ flowID, f.completes flowID = f.precreates flowID := fun flowID => by
    cases f <;> first | rfl | cases hwrote
  have hcount : ∀ flowID, (p.goOn i p.store f').calls.countP (Frame.completes flowID)
      + (if f.precreates flowID then 1 else 0) = p.calls.countP (Frame.completes flowID) :=
    fun flowID => by
      have hsum := Pool.countP_goOn (s := p.store) (g := f') (Frame.completes flowID) hf
      rw [hcompletes flowID, hpre flowID] at hsum
      exact hsum
  have hcount' : ∀ flowID, (p.goOn i p.store f').calls.countP (Frame.precreates flowID)
      + (if f.precreates flowID then 1 else 0) = p.calls.countP (Frame.precreates flowID) :=
    fun flowID => by
      have hsum := Pool.countP_goOn (s := p.store) (g := f') (Frame.precreates flowID) hf
      rw [hprecreates flowID] at hsum
      exact hsum
  refine ⟨h.nodup, fun flowID => ?_, fun flowID hused => ?_⟩
  · have hsum := hcount flowID
    have hone := h.one flowID
    omega
  · obtain ⟨hnone, hgone⟩ := h.used flowID hused
    have hsum := hcount flowID
    have hsum' := hcount' flowID
    refine ⟨by omega, hgone.imp_right fun hone => ?_⟩
    omega

/-- A completion finds a flow that no other has in hand. -/
theorem oneAccount_look {req : CompleteOAuthRequest} (h : OneAccount p)
    (hturn : p.calls.countP (Frame.completes req.flowID) = 0)
    (hf : p.calls[i]? = some (.completeOAuth req)) (hflow : p.store.flows req.flowID = true) :
    OneAccount (p.goOn i p.store (.completing req)) := by
  have hcompletes := fun flowID =>
    Pool.countP_goOn (s := p.store) (g := .completing req) (Frame.completes flowID) hf
  have hprecreates := fun flowID =>
    Pool.countP_goOn (s := p.store) (g := .completing req) (Frame.precreates flowID) hf
  simp only [Frame.completes, Frame.precreates, Bool.false_eq_true, if_false, Nat.add_zero,
    beq_iff_eq] at hcompletes hprecreates
  refine ⟨h.nodup, fun flowID => ?_, fun flowID hused => ?_⟩
  · rw [hcompletes flowID]
    by_cases hid : req.flowID = flowID
    · rw [if_pos hid]
      have hzero := hid ▸ hturn
      omega
    · rw [if_neg hid]
      exact h.one flowID
  · obtain ⟨hnone, hgone⟩ := h.used flowID hused
    have hid : req.flowID ≠ flowID := fun he => by
      subst he
      rcases hgone with hgone | hone
      · rw [hgone] at hflow
        cases hflow
      · omega
    rw [hcompletes flowID, hprecreates flowID, if_neg hid]
    exact ⟨hnone, hgone⟩

/-- **A flow becomes an account, for the first and the last time.** -/
theorem oneAccount_create {flowID provider : Text} {tok : Token} {a : Account} {id : Nat}
    (h : OneAccount p) (hf : p.calls[i]? = some (.creating flowID provider tok a))
    (hcreated : s.created = p.store.created ++ [flowID]) (hflows : s.flows = p.store.flows) :
    OneAccount (p.goOn i s (.createSaving flowID provider tok id)) := by
  have hcompletes := fun flowID' => Pool.countP_goOn (s := s)
    (g := .createSaving flowID provider tok id) (Frame.completes flowID') hf
  have hprecreates := fun flowID' => Pool.countP_goOn (s := s)
    (g := .createSaving flowID provider tok id) (Frame.precreates flowID') hf
  simp only [Frame.completes, Frame.precreates, Bool.false_eq_true, if_false, Nat.add_zero,
    beq_iff_eq, Nat.add_right_cancel_iff] at hcompletes hprecreates
  have hself := hprecreates flowID
  rw [if_pos rfl] at hself
  have hle : p.calls.countP (Frame.precreates flowID) ≤ p.calls.countP (Frame.completes flowID) := by
    refine List.countP_mono_left fun g _ hg => ?_
    cases g <;> first | exact hg | cases hg
  have hone := h.one flowID
  have hnew : flowID ∉ p.store.created := fun hused => by
    obtain ⟨hnone, -⟩ := h.used flowID hused
    omega
  refine ⟨?_, fun flowID' => ?_, fun flowID' hused => ?_⟩
  · show s.created.Nodup
    rw [hcreated]
    refine List.nodup_append.mpr ⟨h.nodup, by simp, fun a ha b hb => ?_⟩
    rw [List.mem_singleton.mp hb]
    exact fun he => hnew (he ▸ ha)
  · rw [hcompletes flowID']
    exact h.one flowID'
  · change flowID' ∈ s.created at hused
    show _ ∧ (s.flows flowID' = false ∨ _)
    rw [hcreated] at hused
    rw [hflows, hcompletes flowID']
    have hsum := hprecreates flowID'
    by_cases hid : flowID' = flowID
    · subst hid
      exact ⟨by omega, Or.inr (by omega)⟩
    · have hold : flowID' ∈ p.store.created := by
        rcases List.mem_append.mp hused with hold | hnew
        · exact hold
        · exact absurd (List.mem_singleton.mp hnew) hid
      obtain ⟨hnone, hgone⟩ := h.used flowID' hold
      exact ⟨by omega, hgone⟩

/-- A completion that is through discards its flow. -/
theorem oneAccount_discard {flowID : Text} {a : Account} {r : Except Err Answer} {wrote : Bool}
    (h : OneAccount p) (hf : p.calls[i]? = some (.createDiscarding flowID a)) :
    OneAccount (p.goOn i (p.store.discard flowID) (.done r wrote)) := by
  have hcompletes := fun flowID' => Pool.countP_goOn (s := p.store.discard flowID)
    (g := .done r wrote) (Frame.completes flowID') hf
  have hprecreates := fun flowID' => Pool.countP_goOn (s := p.store.discard flowID)
    (g := .done r wrote) (Frame.precreates flowID') hf
  simp only [Frame.completes, Frame.precreates, Bool.false_eq_true, if_false, Nat.add_zero,
    beq_iff_eq] at hcompletes hprecreates
  refine ⟨h.nodup, fun flowID' => ?_, fun flowID' hused => ?_⟩
  · have hsum := hcompletes flowID'
    have hone := h.one flowID'
    omega
  · obtain ⟨hnone, hgone⟩ := h.used flowID' hused
    have hsum := hcompletes flowID'
    rw [hprecreates flowID']
    refine ⟨hnone, ?_⟩
    show Function.update p.store.flows flowID false flowID' = false ∨ _
    by_cases hid : flowID' = flowID
    · exact Or.inl (by rw [hid, Function.update_self])
    · rw [Function.update_of_ne hid]
      refine hgone.imp_right fun hone => ?_
      rw [if_neg (fun he => hid he.symm)] at hsum
      omega

theorem discard_flows (s : Store) (flowID flowID' : Text) (h : s.flows flowID' = false) :
    (s.discard flowID).flows flowID' = false := by
  show Function.update s.flows flowID false flowID' = false
  by_cases hid : flowID' = flowID
  · rw [hid, Function.update_self]
  · rw [Function.update_of_ne hid]
    exact h

theorem oneAccount_go (h : OneAccount p) (hsound : Sound f p.store)
    (hturn : completionsInTurn p (.go i x) = true)
    (hfinishes : finishesWriting D p (.go i x) = true) (hf : p.calls[i]? = some f)
    (hop : Op D x p.store f s f') : OneAccount (p.goOn i s f') := by
  cases hop with
  | quit e hwrote => exact oneAccount_of_quit h hf hwrote (fun _ => rfl) (fun _ => rfl)
  | fail e hwrote hfail => exact absurd hfail (not_fail hsound hfinishes hf hwrote)
  | look hflow =>
      simp only [completionsInTurn, hf, beq_iff_eq] at hturn
      exact oneAccount_look h hturn hf hflow
  | create hcreate => exact oneAccount_create h hf rfl rfl
  | createDiscard => exact oneAccount_discard h hf
  | beginReauth => exact oneAccount_of_quit h hf rfl (fun _ => rfl) (fun _ => rfl)
  | cancel =>
      exact oneAccount_of_same h hf rfl (discard_flows _ _) (fun _ => rfl) (fun _ hpre => hpre)
  | reauthDiscard =>
      exact oneAccount_of_same h hf rfl (discard_flows _ _) (fun _ => rfl) (fun _ hpre => hpre)
  | _ =>
      exact oneAccount_of_same h hf rfl (fun _ hgone => hgone) (fun _ => rfl) (fun _ hpre => hpre)

end Turn

/-! ### Both along a run -/

/-- A flow is looked up for completion only when no other completion has it in hand, and a
completion that has written does not fail. -/
def completesWell (D : Setup) (p : Pool Frame Store) (turn : Turn Request Luck Event) : Bool :=
  completionsInTurn p turn && finishesWriting D p turn

/-- What is kept along such a run. -/
structure Kept (p : Pool Frame Store) : Prop where
  sound : ∀ (i : Nat) f, p.calls[i]? = some f → Sound f p.store
  once : OneAccount p

theorem kept_step {p q : Pool Frame Store} {turn : Turn Request Luck Event} (h : Kept p)
    (hok : completesWell D p turn = true) (hstep : p.step (service D) turn = some q) : Kept q := by
  obtain ⟨hturn, hfinishes⟩ := (Bool.and_eq_true _ _).mp hok
  cases turn with
  | start c =>
      obtain rfl := Option.some.inj hstep
      have hnew : ∀ flowID, Frame.completes flowID (enter c) = false ∧
          Frame.precreates flowID (enter c) = false := fun flowID => by
        cases c <;> exact ⟨rfl, rfl⟩
      refine ⟨fun i f hf => ?_, ⟨h.once.nodup, fun flowID => ?_, fun flowID hused => ?_⟩⟩
      · rcases List.mem_append.mp (List.mem_of_getElem? hf) with hold | hnew
        · obtain ⟨j, hj⟩ := List.mem_iff_getElem?.mp hold
          exact h.sound j f hj
        · rw [List.mem_singleton.mp hnew]
          cases c <;> trivial
      · simpa [List.countP_append, service, hnew flowID] using h.once.one flowID
      · simpa [List.countP_append, service, hnew flowID] using h.once.used flowID hused
  | go i x =>
      obtain ⟨f, s, f', hf, hnext, rfl⟩ := Pool.step_go hstep
      have hop := op_of_next hnext
      have hsound := h.sound i f hf
      refine ⟨fun j g hg => ?_, oneAccount_go h.once hsound hturn hfinishes hf hop⟩
      rcases Pool.getElem?_goOn hg with ⟨-, rfl⟩ | ⟨-, hold⟩
      · exact sound_go hsound hfinishes hf hop
      · exact (h.sound j g hold).stays (rows_stay hop)
  | outside e =>
      obtain rfl := Option.some.inj hstep
      have hsound : ∀ (i : Nat) f, p.calls[i]? = some f → Sound f (expire e p.store) :=
        fun i f hf => (h.sound i f hf).stays fun _ hrow => by cases e <;> exact hrow
      cases e with
      | stateExpires state => exact ⟨hsound, h.once.nodup, h.once.one, h.once.used⟩
      | flowExpires flowID =>
          refine ⟨hsound, h.once.nodup, h.once.one, fun flowID' hused => ?_⟩
          obtain ⟨hnone, hgone⟩ := h.once.used flowID' hused
          exact ⟨hnone, hgone.imp_left (discard_flows _ _ _)⟩

theorem kept_of_run {p q : Pool Frame Store}
    (h : Run (Pool.step (service D)) (fun p turn => completesWell D p turn = true) p q)
    (hp : Kept p) : Kept q :=
  Run.invariant (fun _ _ _ hp hok hstep => kept_step hp hok hstep) h hp

theorem kept_waiting (states : Text → Option Text) (flows : Text → Bool)
    (flow : Text → OAuthFlow) (accounts : Accounts) :
    Kept (waiting states flows flow accounts) := by
  refine ⟨fun i f hf => ?_, List.nodup_nil, fun _ => Nat.zero_le 1, fun _ hused => ?_⟩
  · simp [waiting] at hf
  · cases hused

/-- A call that has not written has left the table alone. -/
theorem accounts_of_not_wrote {x : Luck} {f f' : Frame} {s s' : Store} (hop : Op D x s f s' f')
    (h : f'.wrote = false) : s'.accounts = s.accounts := by
  cases hop <;> first | rfl | cases h

theorem wrote_stays {x : Luck} {f f' : Frame} {s s' : Store} (hop : Op D x s f s' f')
    (h : f.wrote = true) : f'.wrote = true := by
  cases hop with
  | quit e hwrote =>
      rw [hwrote] at h
      cases h
  | fail e hwrote hfail => rfl
  | _ => first | rfl | cases h

/-- What a call has written it has written for good. -/
theorem wrote_of_run {p q : Pool Frame Store} {ok : Pool Frame Store → Turn Request Luck Event → Prop}
    {i : Nat} (h : Run (Pool.step (service D)) ok p q)
    (hp : ∃ f, p.calls[i]? = some f ∧ f.wrote = true) :
    ∃ f, q.calls[i]? = some f ∧ f.wrote = true := by
  refine Run.invariant (I := fun p => ∃ f, p.calls[i]? = some f ∧ f.wrote = true)
    (fun p turn q hp _ hstep => ?_) h hp
  obtain ⟨f, hf, hwrote⟩ := hp
  cases turn with
  | start c =>
      obtain rfl := Option.some.inj hstep
      exact ⟨f, by rw [List.getElem?_append_left (List.getElem?_eq_some_iff.mp hf).1]; exact hf, hwrote⟩
  | go j x =>
      obtain ⟨g, s, g', hg, hnext, rfl⟩ := Pool.step_go hstep
      by_cases hij : i = j
      · subst hij
        rw [hf] at hg
        obtain rfl := Option.some.inj hg
        refine ⟨g', ?_, wrote_stays (op_of_next hnext) hwrote⟩
        exact List.getElem?_set_self (List.getElem?_eq_some_iff.mp hf).1
      · refine ⟨f, ?_, hwrote⟩
        unfold Pool.goOn
        rw [List.getElem?_set_ne (fun he => hij he.symm)]
        exact hf
  | outside e =>
      obtain rfl := Option.some.inj hstep
      exact ⟨f, hf, hwrote⟩

/-- No flow became two accounts, and no operation of a call that will fail changes the
table. -/
def CompletedOnce (D : Setup) (ok : Pool Frame Store → Turn Request Luck Event → Prop)
    (p : Pool Frame Store) : Prop :=
  p.store.created.Nodup ∧
    ∀ i x q r, ok p (.go i x) → p.step (service D) (.go i x) = some q →
      Run (Pool.step (service D)) ok q r →
        ∀ e wrote, r.calls[i]? = some (.done (.error e) wrote) →
          q.store.accounts = p.store.accounts

/-- **A flow becomes one account at most, and a completion that fails has changed nothing**,
in every run in which a flow is looked up for completion only when no other completion has
it in hand, and a completion that has written does not fail. -/
theorem completed_once (D : Setup) {states : Text → Option Text} {flows : Text → Bool}
    {flow : Text → OAuthFlow} {accounts : Accounts} {p : Pool Frame Store}
    (h : Run (Pool.step (service D)) (fun p turn => completesWell D p turn = true)
      (waiting states flows flow accounts) p) :
    CompletedOnce D (fun p turn => completesWell D p turn = true) p := by
  have hkept := kept_of_run h (kept_waiting states flows flow accounts)
  refine ⟨hkept.once.nodup, fun i x q r hok hstep hrun e wrote hfailed => ?_⟩
  have hq := kept_step hkept hok hstep
  have hsound : wrote = false := (kept_of_run hrun hq).sound i _ hfailed
  obtain ⟨f, s, f', hf, hnext, rfl⟩ := Pool.step_go hstep
  have hf' : (p.goOn i s f').calls[i]? = some f' :=
    List.getElem?_set_self (List.getElem?_eq_some_iff.mp hf).1
  refine accounts_of_not_wrote (op_of_next hnext) ?_
  by_cases hwrote : f'.wrote = true
  · obtain ⟨g, hg, hgwrote⟩ := wrote_of_run hrun ⟨f', hf', hwrote⟩
    rw [hfailed] at hg
    obtain rfl := Option.some.inj hg
    exact absurd hsound (by rw [show wrote = true from hgwrote]; decide)
  · simpa using hwrote

/-! ### One flow

Two callbacks with the same state that both look it up before one of them has deleted it
are both accepted.  A completion whose token is not saved leaves a new account behind.
-/

section Example

private def setup : Setup where
  codec := .plain
  oauthClient := fun _ => .ok ()
  equalFold := fun a b => a == b
  lookupProvider := fun _ => some (⟨['i'], 993, []⟩, ⟨['s'], 465, []⟩)

private def pendingFlow : OAuthFlow := ⟨['g'], 0, .pending, none, none, []⟩

/-- One flow `f` with the state `s`. -/
private def oneFlow (f : OAuthFlow) : Pool Frame Store :=
  waiting (fun state => if state = ['s'] then some ['f'] else none) (fun flowID => flowID == ['f'])
    (fun _ => f) .empty

private def callback : Request := .handleCallback ⟨['s'], ['c'], [], []⟩

private def calm : Luck := ⟨false, 10, 0, .ok ⟨['a'], ['r'], [], [], 60, ['m']⟩⟩

theorem state_used_once_oneFlow : ∃ p : Pool Frame Store,
    exec (Pool.step (service setup)) statesInTurn (oneFlow pendingFlow)
      [.start callback, .start callback, .go 0 calm, .go 0 calm, .go 0 calm, .go 0 calm,
        .go 1 calm] = some p ∧
      p.store.accepted = [['s']] ∧ (p.store.flow ['f']).status = .success ∧
      p.store.accepted.Nodup ∧
      ∀ q, Run (Pool.step (service setup)) (fun _ _ => True) p q → ∀ flowID,
        (p.store.flow flowID).status = .success → (q.store.flow flowID).status = .success := by
  have hview : (exec (Pool.step (service setup)) statesInTurn (oneFlow pendingFlow)
      [.start callback, .start callback, .go 0 calm, .go 0 calm, .go 0 calm, .go 0 calm,
        .go 1 calm]).map (fun p => (p.store.accepted, (p.store.flow ['f']).status))
      = some ([['s']], .success) := rfl
  obtain ⟨p, hp, heq⟩ := Option.map_eq_some_iff.mp hview
  obtain ⟨haccepted, hstatus⟩ := Prod.mk.inj heq
  exact ⟨p, hp, haccepted, hstatus, state_used_once setup (Run.ofExec _ hp)⟩

/-- **A state can be used twice.** -/
theorem state_used_twice : ¬ ∀ (D : Setup) (states : Text → Option Text) (flows : Text → Bool)
    (flow : Text → OAuthFlow) (accounts : Accounts) (p : Pool Frame Store),
    Run (Pool.step (service D)) (fun _ _ => true = true) (waiting states flows flow accounts) p →
      p.store.accepted.Nodup := by
  intro h
  have hview : (exec (Pool.step (service setup)) (fun _ _ => true) (oneFlow pendingFlow)
      [.start callback, .start callback, .go 0 calm, .go 1 calm, .go 0 calm, .go 1 calm,
        .go 0 calm, .go 1 calm]).map (fun p => p.store.accepted) = some [['s'], ['s']] := rfl
  obtain ⟨p, hp, haccepted⟩ := Option.map_eq_some_iff.mp hview
  have hnodup := h setup _ _ _ _ p (Run.ofExec _ hp)
  rw [haccepted] at hnodup
  exact absurd hnodup (by decide)

private def readyFlow : OAuthFlow :=
  ⟨['g'], 0, .success, none, some ⟨['a'], ['r'], [], [], 70, ['m']⟩, ['m']⟩

private def complete : Request := .completeOAuth ⟨['f'], [], []⟩

theorem completed_once_oneFlow : ∃ p : Pool Frame Store,
    exec (Pool.step (service setup)) (completesWell setup) (oneFlow readyFlow)
      [.start complete, .go 0 calm, .go 0 calm, .go 0 calm, .go 0 calm, .go 0 calm, .go 0 calm,
        .start complete, .go 1 calm] = some p ∧
      p.store.created = [['f']] ∧
      CompletedOnce setup (fun p turn => completesWell setup p turn = true) p := by
  have hview : (exec (Pool.step (service setup)) (completesWell setup) (oneFlow readyFlow)
      [.start complete, .go 0 calm, .go 0 calm, .go 0 calm, .go 0 calm, .go 0 calm, .go 0 calm,
        .start complete, .go 1 calm]).map (fun p => p.store.created) = some [['f']] := rfl
  obtain ⟨p, hp, hcreated⟩ := Option.map_eq_some_iff.mp hview
  exact ⟨p, hp, hcreated, completed_once setup (Run.ofExec _ hp)⟩

/-- The database refuses the statement. -/
private def refused : Luck := { calm with failed := true }

/-- **A completion can fail and leave an account behind.** -/
theorem failed_completion_leaves_account : ¬ ∀ (D : Setup) (states : Text → Option Text)
    (flows : Text → Bool) (flow : Text → OAuthFlow) (accounts : Accounts) (p : Pool Frame Store),
    Run (Pool.step (service D)) (fun _ _ => true = true) (waiting states flows flow accounts) p →
      CompletedOnce D (fun _ _ => true = true) p := by
  intro h
  have hview : ((exec (Pool.step (service setup)) (fun _ _ => true) (oneFlow readyFlow)
      [.start complete, .go 0 calm, .go 0 calm]).bind fun p =>
        (p.step (service setup) (.go 0 calm)).bind fun q =>
          (q.step (service setup) (.go 0 refused)).map fun r =>
            (p.store.accounts.rows.length, q.store.accounts.rows.length, r.calls[0]?))
      = some (0, 1, some (.done (.error .db) true)) := rfl
  obtain ⟨p, hp, hview⟩ := Option.bind_eq_some_iff.mp hview
  obtain ⟨q, hq, hview⟩ := Option.bind_eq_some_iff.mp hview
  obtain ⟨r, hr, hview⟩ := Option.map_eq_some_iff.mp hview
  simp only [Prod.mk.injEq] at hview
  obtain ⟨hnone, hone, hfailed⟩ := hview
  have hkept := (h setup _ _ _ _ p (Run.ofExec _ hp)).2 0 calm q r rfl hq
    (.tail .refl rfl hr) .db true hfailed
  rw [hkept, hnone] at hone
  cases hone

end Example

end FlyMail.Account.Flow
