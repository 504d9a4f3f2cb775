/-
Accounts and the tokens they log in with.

An account row holds its settings, the switch `enabled`, and for an account that logs in
with OAuth the whole token, as encrypted JSON in one column.  The encryption and the
JSON are parameters; what is relied on is that a token comes back as it went in.

The repository changes a row in two ways.  `UpdateFields` and `SetEnabled` write single
columns, `Update` writes the whole row as the caller has it in hand.
-/
import FlyMail.Store

namespace FlyMail

/-- An OAuth token.  An `expiry` of `0` is not known. -/
structure Token where
  accessToken : Text
  refreshToken : Text
  tokenType : Text
  scope : Text
  expiry : Time
  email : Text
  deriving DecidableEq, Repr

/-- Is the token still good for the next `leeway` seconds? -/
def Token.valid (tok : Token) (now leeway : Time) : Bool :=
  tok.accessToken != [] && tok.expiry != 0 && decide (now + leeway < tok.expiry)

inductive AuthType
  | password
  | oauth
  deriving DecidableEq, Repr

inductive AccountStatus
  | new
  | ok
  | needsReauth
  deriving DecidableEq, Repr

/-- Where a mail server listens. -/
structure Endpoint where
  host : Text
  port : Int
  security : Text
  deriving DecidableEq, Repr

structure ProxySettings where
  type : Text
  host : Text
  port : Int
  username : Text
  passwordEnc : Text
  deriving DecidableEq, Repr

/-- A row of `accounts`. -/
structure Account where
  id : Nat
  name : Text
  email : Text
  authType : AuthType
  username : Text
  passwordEnc : Text
  oauthProvider : Text
  oauthTokenEnc : Text
  oauthExpiresAt : Option Time
  imap : Endpoint
  smtp : Endpoint
  proxy : ProxySettings
  enabled : Bool
  status : AccountStatus
  lastSyncAt : Option Time
  sortOrder : Nat
  deriving DecidableEq, Repr

def ProxySettings.none : ProxySettings := ⟨[], [], 0, [], []⟩

namespace Account

inductive Err
  /-- The database refused a statement. -/
  | db
  | accountNotFound
  | notOAuth
  | needsReauth
  | decrypt
  | unmarshal
  | encrypt
  | unknownProvider
  | oauthNotConfigured
  /-- The provider could not be asked, or refused for another reason than the grant. -/
  | refreshFailed
  /-- The address authorized is not the account's. -/
  | emailMismatch
  | missingState
  | unknownState
  /-- The flow does not exist any more. -/
  | flowGone
  | denied (description : Text)
  | missingCode
  | exchangeFailed
  | flowPending
  | noEmail
  deriving DecidableEq, Repr

/-- The encryption of columns, and tokens as JSON. -/
structure Codec where
  /-- Encrypt with a nonce. -/
  encrypt : Nat → Text → Option Text
  decrypt : Text → Option Text
  marshal : Token → Text
  unmarshal : Text → Option Token
  decrypt_encrypt : ∀ n t c, encrypt n t = some c → decrypt c = some t
  encrypt_ne_nil : ∀ n t c, t ≠ [] → encrypt n t = some c → c ≠ []
  marshal_ne_nil : ∀ tok, marshal tok ≠ []
  unmarshal_marshal : ∀ tok, unmarshal (marshal tok) = some tok

/-! ### The laws of a codec can be met -/

/-- A text that can be told from what follows it. -/
def pack (t : Text) : Text := t.flatMap (fun c => ['+', c]) ++ ['.']

def unpack : Text → Option (Text × Text)
  | '.' :: rest => some ([], rest)
  | '+' :: c :: rest => (unpack rest).map fun r => (c :: r.1, r.2)
  | _ => none

theorem unpack_pack (t rest : Text) : unpack (pack t ++ rest) = some (t, rest) := by
  induction t with
  | nil => rfl
  | cons c t ih =>
      show (unpack (pack t ++ rest)).map _ = _
      rw [ih]
      rfl

/-- The fields of a token one after another, and no encryption. -/
def Codec.plain : Codec where
  encrypt _ t := some t
  decrypt t := some t
  marshal tok :=
    pack tok.accessToken ++ (pack tok.refreshToken ++ (pack tok.tokenType ++ (pack tok.scope ++
      (pack (List.replicate tok.expiry '1') ++ pack tok.email))))
  unmarshal t := do
    let (accessToken, t) ← unpack t
    let (refreshToken, t) ← unpack t
    let (tokenType, t) ← unpack t
    let (scope, t) ← unpack t
    let (expiry, t) ← unpack t
    let (email, _) ← unpack t
    return ⟨accessToken, refreshToken, tokenType, scope, expiry.length, email⟩
  decrypt_encrypt := fun _ _ _ h => h.symm
  encrypt_ne_nil := fun _ _ _ hne h => by
    obtain rfl := Option.some.inj h
    exact hne
  marshal_ne_nil := fun tok => by simp [pack]
  unmarshal_marshal := fun tok => by
    have hlast : unpack (pack tok.email) = some (tok.email, []) := by
      simpa using unpack_pack tok.email []
    simp [unpack_pack, hlast]

/-! ### The token of an account -/

variable (C : Codec)

/-- The token of an account. -/
def loadToken (a : Account) : Except Err Token :=
  if a.oauthTokenEnc = [] then .error .needsReauth
  else
    match C.decrypt a.oauthTokenEnc with
    | none => .error .decrypt
    | some raw =>
        match C.unmarshal raw with
        | none => .error .unmarshal
        | some tok => .ok tok

/-- A token as its column holds it. -/
def sealToken (nonce : Nat) (tok : Token) : Option Text := C.encrypt nonce (C.marshal tok)

/-- The columns `saveToken` writes. -/
def withToken (a : Account) (provider : Text) (tok : Token) (tokenEnc : Text) : Account :=
  { a with
    authType := .oauth
    oauthProvider := provider
    oauthTokenEnc := tokenEnc
    oauthExpiresAt := some tok.expiry }

def withStatus (a : Account) (status : AccountStatus) : Account := { a with status := status }

/-- **A saved token is read back.** -/
theorem loadToken_withToken {a : Account} {provider tokenEnc : Text} {tok : Token} {nonce : Nat}
    (h : sealToken C nonce tok = some tokenEnc) :
    loadToken C (a.withToken provider tok tokenEnc) = .ok tok := by
  have hne := C.encrypt_ne_nil _ _ _ (C.marshal_ne_nil tok) h
  have hplain := C.decrypt_encrypt _ _ _ h
  simp only [loadToken, withToken, if_neg hne, hplain, C.unmarshal_marshal]

/-- What `loadToken` answers depends on one column. -/
theorem loadToken_congr {a b : Account} (h : a.oauthTokenEnc = b.oauthTokenEnc) :
    loadToken C a = loadToken C b := by
  unfold loadToken
  rw [h]

@[simp] theorem withStatus_oauthTokenEnc (a : Account) (status : AccountStatus) :
    (a.withStatus status).oauthTokenEnc = a.oauthTokenEnc := rfl

@[simp] theorem withStatus_enabled (a : Account) (status : AccountStatus) :
    (a.withStatus status).enabled = a.enabled := rfl

@[simp] theorem withToken_oauthTokenEnc (a : Account) (provider tokenEnc : Text) (tok : Token) :
    (a.withToken provider tok tokenEnc).oauthTokenEnc = tokenEnc := rfl

@[simp] theorem withToken_enabled (a : Account) (provider tokenEnc : Text) (tok : Token) :
    (a.withToken provider tok tokenEnc).enabled = a.enabled := rfl

/-! ### The provider's answer -/

/-- What the token endpoint answers; the address is the one in its `id_token`. -/
structure TokenResponse where
  accessToken : Text
  refreshToken : Text
  tokenType : Text
  scope : Text
  expiresIn : Nat
  email : Text
  deriving DecidableEq, Repr

/-- The ways a request to the token endpoint fails. -/
inductive OAuthErr
  | invalidGrant
  | other
  deriving DecidableEq, Repr

/-- The token in an answer; `fallbackRefresh` stands in for a missing refresh token. -/
def tokenOf (r : TokenResponse) (fallbackRefresh : Text) (now : Time) : Except OAuthErr Token :=
  if r.accessToken = [] then .error .other
  else .ok
    { accessToken := r.accessToken
      refreshToken := if r.refreshToken = [] then fallbackRefresh else r.refreshToken
      tokenType := r.tokenType
      scope := r.scope
      expiry := if r.expiresIn > 0 then now + r.expiresIn else 0
      email := r.email }

/-- `Refresh`: without a refresh token the provider is not even asked. -/
def refresh (refreshToken : Text) (answer : Except OAuthErr TokenResponse) (now : Time) :
    Except OAuthErr Token :=
  if refreshToken = [] then .error .invalidGrant
  else
    match answer with
    | .error e => .error e
    | .ok r => tokenOf r refreshToken now

theorem refresh_refreshToken {refreshToken : Text} {r : TokenResponse} {now : Time} {tok : Token}
    (h : refresh refreshToken (.ok r) now = .ok tok) :
    tok.refreshToken = if r.refreshToken = [] then refreshToken else r.refreshToken := by
  unfold refresh tokenOf at h
  split at h
  · cases h
  · dsimp only at h
    split at h
    · cases h
    · obtain rfl := Except.ok.inj h
      rfl

end Account

end FlyMail
