/-
The writers of one account row.

Whoever needs an access token asks `AccessToken`, which refreshes the stored token when it
is about to expire; refreshes of one account wait for each other.  A re-authorization
writes a token it was given.  `TouchLastSync` and `Update` load the row, change some of
its columns in memory and save the whole row.  `SetEnabled` writes one column.  The calls
run at the same time, and the row is free for the others between two operations of a
call.

The journal `tokens`, `received`, `switched` plays no part in what happens.  It records
the encrypted tokens saved, the refresh tokens that came from the provider, and what the
user set the switch to; the first entries are what the row held in the beginning.
-/
import FlyMail.Lib.Calls
import FlyMail.Account.Model

namespace FlyMail.Account

/-- A token within this time of its end is refreshed. -/
def tokenLeeway : Time := 5 * 60

/-- What the account's service is built on: the encryption, which providers it has
credentials for, and which addresses are the same but for the case of letters. -/
structure Setup where
  codec : Codec
  oauthClient : Text → Except Err Unit
  equalFold : Text → Text → Bool

/-- The settings the user can edit.  An empty password leaves the old one. -/
structure UpdateAccountRequest where
  name : Text
  email : Text
  username : Text
  password : Text
  imap : Endpoint
  smtp : Endpoint
  /-- Type, host, port, username and password. -/
  proxy : Option ProxySettings
  deriving DecidableEq, Repr

/-- `applyProxy`; the request carries the password in clear. -/
def applyProxy (C : Codec) (nonce : Nat) (a : Account) (p : Option ProxySettings) :
    Except Err Account :=
  match p with
  | none => .ok { a with proxy := .none }
  | some p =>
      if p.host = [] then .ok { a with proxy := .none }
      else if p.passwordEnc = [] then
        .ok { a with proxy := { p with passwordEnc := a.proxy.passwordEnc } }
      else
        match C.encrypt nonce p.passwordEnc with
        | none => .error .encrypt
        | some enc => .ok { a with proxy := { p with passwordEnc := enc } }

/-- The row as `Update` will save it. -/
def edited (C : Codec) (nonce : Nat) (a : Account) (req : UpdateAccountRequest) :
    Except Err Account :=
  let a := { a with
    name := req.name
    email := req.email
    username := req.username
    imap := req.imap
    smtp := req.smtp }
  if req.password = [] then applyProxy C nonce a req.proxy
  else
    match C.encrypt nonce req.password with
    | none => .error .encrypt
    | some enc => applyProxy C nonce { a with passwordEnc := enc } req.proxy

namespace Access

structure Store where
  account : Account
  /-- The account's lock is taken. -/
  locked : Bool
  tokens : List Text
  received : List Text
  switched : List Bool

/-- How much of the journal had been written when a row was loaded. -/
structure Stamp where
  tokens : Nat
  switched : Nat
  deriving DecidableEq, Repr

def Store.stamp (s : Store) : Stamp := ⟨s.tokens.length, s.switched.length⟩

inductive Request
  | accessToken
  | reauthorize (provider : Text) (tok : Token) (email : Text)
  | touchLastSync (t : Time)
  | update (req : UpdateAccountRequest)
  | setEnabled (enabled : Bool)
  deriving DecidableEq, Repr

inductive Answer
  | accessToken (t : Text)
  | account (a : Account)
  | none
  deriving DecidableEq, Repr

/-- The point a call has come to, and the row it holds. -/
inductive Frame
  | accessToken
  /-- `AccessToken` has the lock and a token that has to be refreshed. -/
  | refreshing (a : Account) (tok : Token) (seen : Stamp)
  /-- `AccessToken` has the lock and has saved a fresh token. -/
  | clearing (accessToken : Text)
  | reauthorize (provider : Text) (tok : Token) (email : Text)
  /-- The addresses agree. -/
  | reauthSaving (provider : Text) (tok : Token)
  | reauthClearing
  | reauthLoading
  | touchLastSync (t : Time)
  /-- `TouchLastSync` holds the row it is about to save. -/
  | touching (a : Account) (seen : Stamp)
  | update (req : UpdateAccountRequest)
  /-- `Update` holds the row it is about to save. -/
  | updating (a : Account) (seen : Stamp)
  | setEnabled (enabled : Bool)
  | done (r : Except Err Answer)

/-- The luck of one operation: the database may refuse it; the clock; the nonce drawn; the
provider's answer. -/
structure Luck where
  failed : Bool
  now : Time
  nonce : Nat
  answer : Except OAuthErr TokenResponse

/-- `saveToken`. -/
def saveToken (C : Codec) (x : Luck) (provider : Text) (tok : Token) (s : Store) :
    Except Err Store :=
  match sealToken C x.nonce tok with
  | none => .error .encrypt
  | some enc =>
      if x.failed then .error .db
      else .ok { s with account := s.account.withToken provider tok enc, tokens := s.tokens ++ [enc] }

/-- A refresh token has come from the provider, if it sent one. -/
def Store.receive (s : Store) (refreshToken : Text) : Store :=
  if refreshToken = [] then s else { s with received := s.received ++ [refreshToken] }

/-- The refresh token in the provider's answer. -/
def answered : Except OAuthErr TokenResponse → Text
  | .ok r => r.refreshToken
  | .error _ => []

def Store.unlock (s : Store) : Store := { s with locked := false }

def Store.setStatus (s : Store) (status : AccountStatus) : Store :=
  { s with account := s.account.withStatus status }

/-- The fresh token; its address is the old one's where the answer has none. -/
def freshToken (tok : Token) (x : Luck) : Except OAuthErr Token :=
  (refresh tok.refreshToken x.answer x.now).map fun fresh =>
    if fresh.email = [] then { fresh with email := tok.email } else fresh

/-- What `AccessToken` finds when it has the lock. -/
def stored (D : Setup) (a : Account) : Except Err Token :=
  if a.authType = .oauth then loadToken D.codec a else .error .notOAuth

/-- The next operation of a call. -/
def next (D : Setup) (x : Luck) : Frame → Store → Option (Store × Frame)
  | .accessToken, s =>
      if s.locked then none
      else if x.failed then some (s, .done (.error .db))
      else
        match stored D s.account with
        | .error e => some (s, .done (.error e))
        | .ok tok =>
            if tok.valid x.now tokenLeeway then some (s, .done (.ok (.accessToken tok.accessToken)))
            else
              match D.oauthClient s.account.oauthProvider with
              | .error e => some (s, .done (.error e))
              | .ok _ => some ({ s with locked := true }, .refreshing s.account tok s.stamp)
  | .refreshing a tok _, s =>
      match freshToken tok x with
      | .error .invalidGrant =>
          some ((if a.status = .needsReauth ∨ x.failed = true then s
            else s.setStatus .needsReauth).unlock, .done (.error .needsReauth))
      | .error .other => some (s.unlock, .done (.error .refreshFailed))
      | .ok fresh =>
          match saveToken D.codec x a.oauthProvider fresh (s.receive (answered x.answer)) with
          | .error e => some ((s.receive (answered x.answer)).unlock, .done (.error e))
          | .ok s' =>
              if a.status = .needsReauth then some (s', .clearing fresh.accessToken)
              else some (s'.unlock, .done (.ok (.accessToken fresh.accessToken)))
  | .clearing accessToken, s =>
      some ((if x.failed then s else s.setStatus .ok).unlock,
        .done (.ok (.accessToken accessToken)))
  | .reauthorize provider tok email, s =>
      if x.failed then some (s, .done (.error .db))
      else if D.equalFold s.account.email email then some (s, .reauthSaving provider tok)
      else some (s, .done (.error .emailMismatch))
  | .reauthSaving provider tok, s =>
      match saveToken D.codec x provider tok (s.receive tok.refreshToken) with
      | .error e => some (s.receive tok.refreshToken, .done (.error e))
      | .ok s' => some (s', .reauthClearing)
  | .reauthClearing, s =>
      if x.failed then some (s, .done (.error .db)) else some (s.setStatus .ok, .reauthLoading)
  | .reauthLoading, s =>
      if x.failed then some (s, .done (.error .db)) else some (s, .done (.ok (.account s.account)))
  | .touchLastSync t, s =>
      if x.failed then some (s, .done (.error .db))
      else some (s, .touching { s.account with lastSyncAt := some t } s.stamp)
  | .touching a _, s =>
      if x.failed then some (s, .done (.error .db))
      else some ({ s with account := a }, .done (.ok .none))
  | .update req, s =>
      if x.failed then some (s, .done (.error .db))
      else
        match edited D.codec x.nonce s.account req with
        | .error e => some (s, .done (.error e))
        | .ok a => some (s, .updating a s.stamp)
  | .updating a _, s =>
      if x.failed then some (s, .done (.error .db))
      else some ({ s with account := a }, .done (.ok (.account a)))
  | .setEnabled enabled, s =>
      if x.failed then some (s, .done (.error .db))
      else some ({ s with
        account := { s.account with enabled := enabled }
        switched := s.switched ++ [enabled] }, .done (.ok .none))
  | .done _, _ => none

def enter : Request → Frame
  | .accessToken => .accessToken
  | .reauthorize provider tok email => .reauthorize provider tok email
  | .touchLastSync t => .touchLastSync t
  | .update req => .update req
  | .setEnabled enabled => .setEnabled enabled

/-- The service of one account; nobody else writes its row. -/
def service (D : Setup) : Service Request Luck Empty Frame Store where
  enter := enter
  next := next D
  outside := fun _ s => s

/-- Before the first call. -/
def Store.start (D : Setup) (a : Account) : Store where
  account := a
  locked := false
  tokens := [a.oauthTokenEnc]
  received :=
    match loadToken D.codec a with
    | .ok tok => if tok.refreshToken = [] then [] else [tok.refreshToken]
    | .error _ => []
  switched := [a.enabled]

/-! ### What a run may be asked to keep to -/

/-- Every answer of the provider is saved. -/
def answersSaved (D : Setup) (p : Pool Frame Store) : Turn Request Luck Empty → Bool
  | .go i x =>
      match p.calls[i]? with
      | some (.refreshing _ tok _) =>
          match freshToken tok x with
          | .ok fresh => !x.failed && (sealToken D.codec x.nonce fresh).isSome
          | .error _ => true
      | some (.reauthSaving _ tok) => !x.failed && (sealToken D.codec x.nonce tok).isSome
      | _ => true
  | _ => true

/-- What is written is not older than what was written since:
a whole row is saved only if no token was saved and the switch was not set since it was
loaded; a refresh that got no refresh token falls back on one loaded after the last token
was saved; and a re-authorization brings a refresh token. -/
def writesFresh (p : Pool Frame Store) : Turn Request Luck Empty → Bool
  | .go i x =>
      match p.calls[i]? with
      | some (.touching _ seen) => x.failed || seen == p.store.stamp
      | some (.updating _ seen) => x.failed || seen == p.store.stamp
      | some (.refreshing _ tok seen) =>
          match freshToken tok x with
          | .ok _ => answered x.answer != [] || seen.tokens == p.store.tokens.length
          | .error _ => true
      | some (.reauthSaving _ tok) => tok.refreshToken != [] || p.store.received == []
      | _ => true
  | _ => true

end Access

end FlyMail.Account
