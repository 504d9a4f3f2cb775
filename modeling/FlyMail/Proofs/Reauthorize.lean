/-
The mailbox an account is authorized for.

A flow that was started for an account ends with a token, and the provider says whose mailbox it
is.  `CompleteOAuth` puts the address of the request in its place if the request has one, and the
check compares the account's address with that.  So the check holds off another mailbox unless the
request names the account's own address (`reauthorize_binds_iff`): an address that is only meant to
stand in for one the provider did not send (`reauthorize_takes_other`).
-/
import FlyMail.Account.Flow

namespace FlyMail.Account.Flow

/-- A completed flow that was started for an account. -/
structure Reauthorizes (s : Store) (req : CompleteOAuthRequest) (a : Account) (tok : Token) : Prop where
  there : s.flows req.flowID = true
  success : (s.flow req.flowID).status = .success
  token : (s.flow req.flowID).token = some tok
  account : (s.flow req.flowID).accountID = a.id
  id : a.id ≠ 0
  row : s.accounts.get? a.id = some a

variable {D : Setup} {s : Store} {req : CompleteOAuthRequest} {a : Account} {tok : Token}

/-- The address that is compared. -/
def comparedEmail (req : CompleteOAuthRequest) (tok : Token) : Text :=
  if Text.trimSpace req.email = [] then tok.email else Text.trimSpace req.email

/-- If the token is stored for the account, the mailbox is the account's, and if the address is
refused, nothing has changed. -/
structure BindsMailbox (D : Setup) (s : Store) (req : CompleteOAuthRequest) (a : Account) (tok : Token) :
    Prop where
  stored : ∀ xs, ((service D).alone xs (.completeOAuth req) s).1 = .reauthClearing req.flowID a.id →
    tok.email ≠ [] → D.equalFold a.email tok.email = true
  refused : ∀ xs wrote,
    ((service D).alone xs (.completeOAuth req) s).1 = .done (.error .emailMismatch) wrote →
      ((service D).alone xs (.completeOAuth req) s).2.accounts = s.accounts

/-! ### How a completion goes on -/

/-- What is known at each point. -/
def Along (D : Setup) (s : Store) (req : CompleteOAuthRequest) (a : Account) (tok : Token) :
    Frame → Store → Prop
  | .completeOAuth req', s' => req' = req ∧ s' = s
  | .completing req', s' => req' = req ∧ s' = s
  | .reauthorizing _ _ tok' id email, s' =>
      tok' = tok ∧ id = a.id ∧ email = comparedEmail req tok ∧ s' = s
  | .reauthSaving _ _ tok' id, s' =>
      tok' = tok ∧ id = a.id ∧ D.equalFold a.email (comparedEmail req tok) = true ∧ s' = s
  | .reauthClearing _ _, _ => D.equalFold a.email (comparedEmail req tok) = true ∧
      ∃ nonce enc, sealToken D.codec nonce tok = some enc
  | .reauthLoading _ _, _ => True
  | .reauthDiscarding _ _, _ => True
  | .done r _, s' => r = .error .emailMismatch → s'.accounts = s.accounts
  | _, _ => False

theorem begin_eq (h : Reauthorizes s req a tok) : begin D req (s.flow req.flowID)
    = if comparedEmail req tok = [] then .done (.error .noEmail) false
      else .reauthorizing req.flowID (s.flow req.flowID).provider tok a.id (comparedEmail req tok) := by
  have hid := h.id
  unfold begin comparedEmail
  rw [h.success, h.token, h.account]
  dsimp only
  rw [if_pos hid]

theorem ne_emailMismatch_of_asked {α : Type} {x : Luck} {r : Except Err α} {e : Err}
    (hr : r ≠ .error .emailMismatch) (h : asked x r = .error e) : e ≠ .emailMismatch := by
  rintro rfl
  unfold asked at h
  split at h
  · exact absurd (Except.error.inj h) (by decide)
  · exact hr h

theorem updateFields_ne_emailMismatch {accounts : Accounts} {id : Nat} {change : Account → Account}
    {hid : ∀ a, (change a).id = a.id} {hemail : ∀ a, (change a).email = a.email} :
    Repository.updateFields accounts id change hid hemail ≠ .error .emailMismatch := by
  unfold Repository.updateFields
  split
  · simp
  · simp

theorem getByID_ne_emailMismatch (accounts : Accounts) (id : Nat) :
    Repository.getByID accounts id ≠ .error .emailMismatch := by
  unfold Repository.getByID
  split
  · simp
  · simp

theorem sealed_of_saveToken {x : Luck} {accounts accounts' : Accounts} {id : Nat} {provider : Text}
    (h : saveToken D x accounts id provider tok = .ok accounts') :
    ∃ enc, sealToken D.codec x.nonce tok = some enc := by
  unfold saveToken at h
  split at h
  · cases h
  · rename_i enc henc
    exact ⟨enc, henc⟩

/-- **One operation further.** -/
theorem along_next (h : Reauthorizes s req a tok) (x : Luck) (f : Frame) (s₁ s₂ : Store) (f' : Frame)
    (hf : Along D s req a tok f s₁) (hnext : (service D).next x f s₁ = some (s₂, f')) :
    Along D s req a tok f' s₂ := by
  change next D x f s₁ = some (s₂, f') at hnext
  cases f with
  | completeOAuth req' =>
      obtain ⟨rfl, rfl⟩ := hf
      simp only [next, h.there, if_true] at hnext
      obtain ⟨rfl, rfl⟩ := Prod.mk.inj (Option.some.inj hnext)
      exact ⟨rfl, rfl⟩
  | completing req' =>
      obtain ⟨rfl, rfl⟩ := hf
      simp only [next, begin_eq h] at hnext
      obtain ⟨rfl, rfl⟩ := Prod.mk.inj (Option.some.inj hnext)
      split
      · exact fun he => absurd (Except.error.inj he) (by decide)
      · exact ⟨rfl, rfl, rfl, rfl⟩
  | reauthorizing flowID provider tok' id email =>
      obtain ⟨rfl, rfl, rfl, rfl⟩ := hf
      simp only [next] at hnext
      cases hasked : asked x (Repository.getByID s₁.accounts a.id) with
      | error e =>
          rw [hasked] at hnext
          obtain ⟨rfl, rfl⟩ := Prod.mk.inj (Option.some.inj hnext)
          exact fun _ => rfl
      | ok b =>
          rw [hasked] at hnext
          have hb : b = a := by
            simp only [asked, Repository.getByID, h.row] at hasked
            split at hasked
            · cases hasked
            · exact (Except.ok.inj hasked).symm
          rw [hb] at hnext
          dsimp only at hnext
          split at hnext
          · rename_i hequal
            obtain ⟨rfl, rfl⟩ := Prod.mk.inj (Option.some.inj hnext)
            exact ⟨rfl, rfl, hequal, rfl⟩
          · obtain ⟨rfl, rfl⟩ := Prod.mk.inj (Option.some.inj hnext)
            exact fun _ => rfl
  | reauthSaving flowID provider tok' id =>
      obtain ⟨rfl, rfl, hequal, rfl⟩ := hf
      simp only [next] at hnext
      split at hnext
      · obtain ⟨rfl, rfl⟩ := Prod.mk.inj (Option.some.inj hnext)
        exact fun _ => rfl
      · rename_i hsaved
        obtain ⟨rfl, rfl⟩ := Prod.mk.inj (Option.some.inj hnext)
        exact ⟨hequal, x.nonce, sealed_of_saveToken hsaved⟩
  | reauthClearing flowID id =>
      simp only [next] at hnext
      split at hnext
      · rename_i e hasked
        obtain ⟨rfl, rfl⟩ := Prod.mk.inj (Option.some.inj hnext)
        exact fun he => absurd (Except.error.inj he)
          (ne_emailMismatch_of_asked updateFields_ne_emailMismatch hasked)
      · obtain ⟨rfl, rfl⟩ := Prod.mk.inj (Option.some.inj hnext)
        exact trivial
  | reauthLoading flowID id =>
      simp only [next] at hnext
      split at hnext
      · rename_i e hasked
        obtain ⟨rfl, rfl⟩ := Prod.mk.inj (Option.some.inj hnext)
        exact fun he => absurd (Except.error.inj he)
          (ne_emailMismatch_of_asked (getByID_ne_emailMismatch _ _) hasked)
      · obtain ⟨rfl, rfl⟩ := Prod.mk.inj (Option.some.inj hnext)
        exact trivial
  | reauthDiscarding flowID b =>
      obtain ⟨rfl, rfl⟩ := Prod.mk.inj (Option.some.inj hnext)
      exact fun he => by cases he
  | done r wrote => cases hnext
  | _ => exact hf.elim

/-! ### When the mailbox is the account's -/

/-- The request names the account's address, the provider another, and the token can be kept. -/
structure Misled (D : Setup) (req : CompleteOAuthRequest) (a : Account) (tok : Token) : Prop where
  reported : tok.email ≠ []
  other : D.equalFold a.email tok.email = false
  named : Text.trimSpace req.email ≠ []
  account : D.equalFold a.email (Text.trimSpace req.email) = true
  kept : ∃ nonce enc, sealToken D.codec nonce tok = some enc

theorem along_alone (h : Reauthorizes s req a tok) (xs : List Luck) :
    Along D s req a tok ((service D).alone xs (.completeOAuth req) s).1
      ((service D).alone xs (.completeOAuth req) s).2 :=
  Service.alone_invariant (along_next h) xs ⟨rfl, rfl⟩

/-- If nothing fails, the token of a misled request is stored. -/
theorem stored_of_misled (h : Reauthorizes s req a tok) (hmisled : Misled D req a tok) :
    ∃ xs, ((service D).alone xs (.completeOAuth req) s).1 = .reauthClearing req.flowID a.id := by
  obtain ⟨nonce, enc, henc⟩ := hmisled.kept
  have hcompared : comparedEmail req tok = Text.trimSpace req.email := if_neg hmisled.named
  let x : Luck := ⟨false, 0, nonce, .error .other⟩
  have hfound : (service D).next x (.completeOAuth req) s = some (s, .completing req) := by
    show next D x (.completeOAuth req) s = _
    simp only [next, h.there, if_true]
  have hbegun : (service D).next x (.completing req) s = some (s, .reauthorizing req.flowID
      (s.flow req.flowID).provider tok a.id (Text.trimSpace req.email)) := by
    show next D x (.completing req) s = _
    simp only [next, begin_eq h, hcompared, if_neg hmisled.named]
  have hchecked : (service D).next x (.reauthorizing req.flowID (s.flow req.flowID).provider tok a.id
      (Text.trimSpace req.email)) s
        = some (s, .reauthSaving req.flowID (s.flow req.flowID).provider tok a.id) := by
    have hasked : asked x (Repository.getByID s.accounts a.id) = .ok a := by
      simp [asked, Repository.getByID, h.row, x]
    show next D x (.reauthorizing _ _ _ _ _) s = _
    simp only [next, hasked, hmisled.account, if_true]
  obtain ⟨accounts, hsaved⟩ : ∃ accounts,
      saveToken D x s.accounts a.id (s.flow req.flowID).provider tok = .ok accounts := by
    have hseal : sealToken D.codec x.nonce tok = some enc := henc
    simp [saveToken, hseal, Repository.updateFields, h.row, x]
  have hstored : (service D).next x (.reauthSaving req.flowID (s.flow req.flowID).provider tok a.id) s
      = some ({ s with accounts := accounts }, .reauthClearing req.flowID a.id) := by
    show next D x (.reauthSaving _ _ _ _) s = _
    simp only [next, hsaved]
  refine ⟨[x, x, x, x], ?_⟩
  rw [Service.alone_cons hfound, Service.alone_cons hbegun, Service.alone_cons hchecked,
    Service.alone_cons hstored]
  rfl

/-- **The mailbox is the account's unless a request is misled.** -/
theorem reauthorize_binds_iff (h : Reauthorizes s req a tok) :
    BindsMailbox D s req a tok ↔ ¬ Misled D req a tok := by
  constructor
  · intro hbinds hmisled
    obtain ⟨xs, hstored⟩ := stored_of_misled h hmisled
    have hequal := hbinds.stored xs hstored hmisled.reported
    rw [hmisled.other] at hequal
    exact absurd hequal (by decide)
  · intro hnot
    refine ⟨fun xs hstored hreported => ?_, fun xs wrote hrefused => ?_⟩
    · have halong := along_alone (D := D) h xs
      rw [hstored] at halong
      obtain ⟨hequal, hkept⟩ := halong
      by_contra hother
      have hother := Bool.eq_false_iff.mpr hother
      by_cases hnamed : Text.trimSpace req.email = []
      · have hcompared : comparedEmail req tok = tok.email := if_pos hnamed
        rw [hcompared, hother] at hequal
        exact absurd hequal (by decide)
      · have hcompared : comparedEmail req tok = Text.trimSpace req.email := if_neg hnamed
        rw [hcompared] at hequal
        exact hnot ⟨hreported, hother, hnamed, hequal, hkept⟩
    · have halong := along_alone (D := D) h xs
      rw [hrefused] at halong
      exact halong rfl

section Example

private def folding : Setup where
  codec := .plain
  oauthClient := fun _ => .ok ()
  equalFold := fun a b => a.map Char.toLower == b.map Char.toLower
  lookupProvider := fun _ => none

private def alice : Account where
  id := 1
  name := ['A']
  email := "a@x".toList
  authType := .oauth
  username := []
  passwordEnc := []
  oauthProvider := ['g']
  oauthTokenEnc := []
  oauthExpiresAt := none
  imap := ⟨['i'], 993, []⟩
  smtp := ⟨['s'], 465, []⟩
  proxy := .none
  enabled := true
  status := .needsReauth
  lastSyncAt := none
  sortOrder := 1

private def tokenFor (email : Text) : Token := ⟨['t'], ['r'], [], [], 70, email⟩

/-- The flow `f` for the account has ended with a token for the mailbox. -/
private def authorized (email : Text) : Store where
  states _ := none
  flows _ := true
  flow _ := ⟨['g'], 1, .success, none, some (tokenFor email), email⟩
  accounts := .single alice
  accepted := []
  created := []

private theorem reauthorizes (req : CompleteOAuthRequest) (email : Text) :
    Reauthorizes (authorized email) req alice (tokenFor email) :=
  ⟨rfl, rfl, rfl, rfl, by decide, rfl⟩

theorem reauthorize_binds_ownMailbox :
    BindsMailbox folding (authorized "A@x".toList) ⟨['f'], [], "a@x".toList⟩ alice
      (tokenFor "A@x".toList) :=
  (reauthorize_binds_iff (reauthorizes _ _)).mpr fun h => absurd h.other (by decide)

/-- Another mailbox is accepted if the request names the account's. -/
theorem reauthorize_takes_other :
    ¬ BindsMailbox folding (authorized "b@x".toList) ⟨['f'], [], "a@x".toList⟩ alice
      (tokenFor "b@x".toList) := by
  intro h
  have hmisled : Misled folding ⟨['f'], [], "a@x".toList⟩ alice (tokenFor "b@x".toList) :=
    ⟨by decide, by decide, by decide, by decide, 0, _, rfl⟩
  obtain ⟨xs, hstored⟩ := stored_of_misled (reauthorizes _ _) hmisled
  exact absurd (h.stored xs hstored hmisled.reported) (by decide)

end Example

end FlyMail.Account.Flow
