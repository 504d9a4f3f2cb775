/-
A refreshed token is never saved.

The save names its column by a key that is neither a field of the account nor a column, so the statement
fails whatever the row, and with it the refresh.
-/
import FlyMail.Lib.Run
import FlyMail.Mail2im.OAuth

namespace FlyMail.Mail2im

variable {C : Crypto} {J : TokenCodec} {toLower : Text → Text}

/-! ### Saving -/

/-- A statement that names a column that is not there fails. -/
theorem updates_eq_none {accounts : List Account} {id : Nat} {values : List (String × Value)} {v : String × Value}
    (hv : v ∈ values) (hcolumn : isColumn (columnOf v.1) = false) : updates accounts id values = none := by
  refine if_neg fun hall => ?_
  have hthere := List.all_eq_true.mp hall v hv
  rw [hcolumn] at hthere
  exact Bool.false_ne_true hthere

theorem isColumn_oauth_token : isColumn (columnOf "oauth_token") = false := by decide

theorem saveOAuthToken_eq_none (nonce : Nat) (accounts : List Account) (id : Nat) (data : OAuthTokenData) :
    saveOAuthToken C J nonce accounts id data = none := by
  unfold saveOAuthToken
  cases C.encrypt nonce (J.marshal data) with
  | none => rfl
  | some enc => exact updates_eq_none List.mem_cons_self isColumn_oauth_token

/-! ### Refreshing -/

/-- The token that a worker's connecting refreshes its own to: there is one, it is about to end, and the
provider gives another. -/
def Watched.refreshed (C : Crypto) (J : TokenCodec) (w : Watched) (luck : BuildLuck) : Option OAuthTokenData :=
  if w.account.authType = "oauth2".toList then
    match parseOAuthToken C J w.account with
    | .error _ => none
    | .ok data => if isTokenExpired data luck.now then refreshAccessToken luck.provider data else none
  else none

def OAuthWorld.refreshed (C : Crypto) (J : TokenCodec) (w : OAuthWorld) : OAuthEvent → Option OAuthTokenData
  | .connect luck => w.worker.bind fun watched => watched.refreshed C J luck
  | .restart _ _ => none

/-- A configuration that was built with a refreshed token: the row holds that token, and a worker that is started
from the row finds it. -/
structure Saved (C : Crypto) (J : TokenCodec) (toLower : Text → Text) (id : Nat) (t : OAuthTokenData) (built : Built) :
    Prop where
  saved : built.result ≠ .error .save
  reread : ∀ a, rowOf built.accounts id = some a → parseOAuthToken C J a = .ok t
  found : ∀ a, rowOf built.accounts id = some a → ∀ proxy luck e,
    (buildIMAPConfig C J toLower built.accounts ⟨a, proxy⟩ luck).result ≠ .error (.parse e)

/-- If the step refreshes a token, that token is saved. -/
def Persists (C : Crypto) (J : TokenCodec) (toLower : Text → Text) (w : OAuthWorld) : OAuthEvent → Prop
  | .connect luck => ∀ watched, w.worker = some watched → ∀ t, watched.refreshed C J luck = some t →
      Saved C J toLower watched.account.id t (buildIMAPConfig C J toLower w.accounts watched luck)
  | .restart _ _ => True

/-- Whenever a token is refreshed the save fails. -/
theorem result_of_refreshed {accounts : List Account} {w : Watched} {luck : BuildLuck} {t : OAuthTokenData}
    (h : w.refreshed C J luck = some t) : (buildIMAPConfig C J toLower accounts w luck).result = .error .save := by
  unfold Watched.refreshed at h
  unfold buildIMAPConfig
  split at h
  · rename_i hauth
    rw [if_pos hauth]
    cases hparse : parseOAuthToken C J w.account with
    | error e =>
        rw [hparse] at h
        exact absurd h.symm (Option.some_ne_none t)
    | ok data =>
        rw [hparse] at h
        simp only at h ⊢
        split at h
        · rename_i hexpired
          rw [if_pos hexpired, h]
          simp only [saveOAuthToken_eq_none]
        · exact absurd h.symm (Option.some_ne_none t)
  · exact absurd h.symm (Option.some_ne_none t)

theorem persists_iff (w : OAuthWorld) (e : OAuthEvent) :
    Persists C J toLower w e ↔ w.refreshed C J e = none := by
  cases e with
  | restart id proxy => exact ⟨fun _ => rfl, fun _ => trivial⟩
  | connect luck =>
      refine ⟨fun h => ?_, fun h watched hworker t ht => ?_⟩
      · refine Option.eq_none_iff_forall_ne_some.mpr fun t ht => ?_
        obtain ⟨watched, hworker, hrefreshed⟩ := Option.bind_eq_some_iff.mp ht
        exact (h watched hworker t hrefreshed).saved (result_of_refreshed hrefreshed)
      · have hsome : w.refreshed C J (.connect luck) = some t := by
          unfold OAuthWorld.refreshed
          rw [hworker]
          exact ht
        rw [h] at hsome
        exact absurd hsome.symm (Option.some_ne_none t)

/-- **Tokens are saved exactly in the runs in which none is refreshed.** -/
theorem tokens_persist_iff (w : OAuthWorld) (events : List OAuthEvent) :
    Along (OAuthWorld.step C J toLower) (Persists C J toLower) w events ↔
      Along (OAuthWorld.step C J toLower) (fun w e => w.refreshed C J e = none) w events :=
  along_congr persists_iff events w

section Example

/-- Writes nothing but the access token. -/
private def accessOnly : TokenCodec where
  marshal data := data.accessToken
  unmarshal raw := some ⟨raw, ['r'], [], 60, ['m']⟩

private def dora : Account :=
  { Account.zero with id := 1, email := "d@x".toList, authType := "oauth2".toList, oauthToken := ['t'], enabled := true }

private def google : Provider := ⟨true, fun _ => some ⟨['n'], [], [], 4000⟩⟩

/-- The token has ended, the provider gives a new one, and the save fails. -/
theorem refreshed_token_lost :
    ¬ Along (OAuthWorld.step Crypto.plain accessOnly id) (Persists Crypto.plain accessOnly id)
      ⟨[dora], some ⟨dora, none⟩⟩ [.connect ⟨100, 0, google⟩] :=
  fun h => (h.1 _ rfl ⟨['n'], ['r'], [], 4000, ['m']⟩ (by decide)).saved rfl

end Example

end FlyMail.Mail2im
