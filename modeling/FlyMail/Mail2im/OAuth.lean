/-
The OAuth token of an account, in mail2im.

The token is one column of the account's row, encrypted JSON.  A struct is written and read by its
fields, whose columns the naming strategy makes; `Updates` with a map names the columns by the map's
keys, and a key that is neither a field nor a column is taken for a column as it stands.

A worker has a copy of the row from when it was started, and builds its configuration from that.
-/
import FlyMail.Mail2im.Account

namespace FlyMail.Mail2im

/-! ### Columns -/

/-- The fields of `Account`, each with its column. -/
def accountFields : List (String × String) :=
  [("ID", "id"), ("CreatedAt", "created_at"), ("UpdatedAt", "updated_at"), ("DeletedAt", "deleted_at"),
    ("Email", "email"), ("DisplayName", "display_name"), ("Login", "login"), ("AuthType", "auth_type"),
    ("Password", "password"), ("OAuthToken", "o_auth_token"), ("PasswordExpiresAt", "password_expires_at"),
    ("Enabled", "enabled"), ("ProxyID", "proxy_id"), ("Provider", "provider"), ("IMAPServer", "imap_server"),
    ("IMAPPort", "imap_port"), ("UseSSL", "use_ssl"), ("SSLMode", "ssl_mode"), ("UseIDLE", "use_id_le"),
    ("PollIntervalDay", "poll_interval_day"), ("PollIntervalNight", "poll_interval_night"),
    ("Timezone", "timezone"), ("Status", "status"), ("LastSyncAt", "last_sync_at"), ("LastUID", "last_uid")]

/-- The column that a key of an update map stands for. -/
def columnOf (key : String) : String :=
  match accountFields.find? fun f => f.1 == key || f.2 == key with
  | some f => f.2
  | none => key

def isColumn (column : String) : Bool := accountFields.any fun f => f.2 == column

inductive Value
  | text (t : Text)
  | time (t : Option Time)
  deriving DecidableEq, Repr

/-- The columns that are written by name. -/
def Account.setColumn (a : Account) : String → Value → Account
  | "o_auth_token", .text t => { a with oauthToken := t }
  | "password_expires_at", .time t => { a with passwordExpiresAt := t }
  | "status", .text t => { a with status := t }
  | _, _ => a

/-- `UPDATE accounts SET … WHERE id = ?`; `none` when there is no such column. -/
def updates (accounts : List Account) (id : Nat) (values : List (String × Value)) : Option (List Account) :=
  if values.all fun v => isColumn (columnOf v.1) then
    some <| accounts.map fun a =>
      if a.id = id ∧ a.deleted = false then values.foldl (fun a v => a.setColumn (columnOf v.1) v.2) a else a
  else none

/-! ### Tokens -/

/-- An expiry of `0` is the zero time. -/
structure OAuthTokenData where
  accessToken : Text
  refreshToken : Text
  tokenType : Text
  expiry : Time
  email : Text
  deriving DecidableEq, Repr

/-- The encoding as JSON. -/
structure TokenCodec where
  marshal : OAuthTokenData → Text
  unmarshal : Text → Option OAuthTokenData

inductive ParseErr
  /-- "no oauth token stored" -/
  | noToken
  /-- "decrypt oauth token" -/
  | decrypt
  /-- "parse oauth token JSON" -/
  | json
  deriving DecidableEq, Repr

def parseOAuthToken (C : Crypto) (J : TokenCodec) (account : Account) : Except ParseErr OAuthTokenData :=
  if account.oauthToken = [] then .error .noToken
  else
    match C.decrypt account.oauthToken with
    | none => .error .decrypt
    | some raw =>
        match J.unmarshal raw with
        | none => .error .json
        | some data => .ok data

/-- The rows afterwards; `none` when saving has failed. -/
def saveOAuthToken (C : Crypto) (J : TokenCodec) (nonce : Nat) (accounts : List Account) (id : Nat)
    (data : OAuthTokenData) : Option (List Account) :=
  (C.encrypt nonce (J.marshal data)).bind fun enc =>
    updates accounts id [("oauth_token", .text enc), ("password_expires_at", .time (some data.expiry))]

/-- Five minutes before its end a token counts as expired. -/
def isTokenExpired (data : OAuthTokenData) (now : Time) : Bool := decide (data.expiry < now + 5 * 60)

/-- What the provider answers. -/
structure Token where
  accessToken : Text
  refreshToken : Text
  tokenType : Text
  expiry : Time
  deriving DecidableEq, Repr

/-- The client is configured, and the token source's answer to a token. -/
structure Provider where
  configured : Bool
  token : OAuthTokenData → Option Token

def refreshAccessToken (P : Provider) (data : OAuthTokenData) : Option OAuthTokenData :=
  if P.configured then
    (P.token data).map fun newToken =>
      { accessToken := newToken.accessToken
        refreshToken := if newToken.refreshToken = [] then data.refreshToken else newToken.refreshToken
        tokenType := newToken.tokenType
        expiry := newToken.expiry
        email := data.email }
  else none

/-! ### The configuration -/

structure ProxyConfig where
  type : Text
  host : Text
  port : Int
  username : Text
  password : Text
  deriving DecidableEq, Repr

structure IMAPConfig where
  host : Text
  port : Int
  username : Text
  password : Text
  accessToken : Text
  security : Text
  proxy : Option ProxyConfig
  deriving DecidableEq, Repr

inductive BuildErr
  /-- "parse oauth token" -/
  | parse (e : ParseErr)
  /-- "oauth token refresh failed" -/
  | refresh
  /-- "save refreshed token" -/
  | save
  deriving DecidableEq, Repr

/-- The row with its proxy. -/
structure Watched where
  account : Account
  proxy : Option Proxy
  deriving DecidableEq, Repr

/-- What building a configuration depends on. -/
structure BuildLuck where
  now : Time
  nonce : Nat
  provider : Provider

structure Built where
  accounts : List Account
  /-- The worker's copy. -/
  watched : Watched
  result : Except BuildErr IMAPConfig

/-- The configuration of an account that logs in with its password. -/
def passwordConfig (C : Crypto) (toLower : Text → Text) (w : Watched) : IMAPConfig :=
  let a := w.account
  let mode := toLower a.sslMode
  { host := a.imapServer
    port := a.imapPort
    username := if a.login = [] then a.email else a.login
    password :=
      match C.decrypt a.password with
      | some plain => if plain = [] then a.password else plain
      | none => a.password
    accessToken := []
    security := sslModeOf mode a.useSSL
    proxy := w.proxy.map fun p => ⟨p.type, p.host, p.port, p.username, p.password⟩ }

/-- The configuration with a token in the password's place. -/
def withToken (cfg : IMAPConfig) (a : Account) (data : OAuthTokenData) : IMAPConfig :=
  { cfg with
    accessToken := data.accessToken
    password := []
    username :=
      if cfg.username = [] ∨ '@' ∉ cfg.username then (if data.email = [] then a.email else data.email)
      else cfg.username }

def buildIMAPConfig (C : Crypto) (J : TokenCodec) (toLower : Text → Text) (accounts : List Account) (w : Watched)
    (luck : BuildLuck) : Built :=
  let cfg := passwordConfig C toLower w
  if w.account.authType = "oauth2".toList then
    match parseOAuthToken C J w.account with
    | .error e => ⟨accounts, w, .error (.parse e)⟩
    | .ok data =>
        if isTokenExpired data luck.now then
          match refreshAccessToken luck.provider data with
          | none =>
              ⟨(updates accounts w.account.id [("status", .text "error".toList)]).getD accounts, w, .error .refresh⟩
          | some refreshed =>
              match saveOAuthToken C J luck.nonce accounts w.account.id refreshed with
              | none => ⟨accounts, w, .error .save⟩
              | some accounts =>
                  let account :=
                    match C.encrypt (luck.nonce + 1) (J.marshal refreshed) with
                    | some enc => { w.account with oauthToken := enc }
                    | none => w.account
                  ⟨accounts, { w with account := account }, .ok (withToken cfg account refreshed)⟩
        else ⟨accounts, w, .ok (withToken cfg w.account data)⟩
  else ⟨accounts, w, .ok cfg⟩

/-! ### Refreshes and restarts -/

structure OAuthWorld where
  accounts : List Account
  worker : Option Watched

inductive OAuthEvent
  /-- The worker connects. -/
  | connect (luck : BuildLuck)
  /-- A worker is started from the account's row. -/
  | restart (id : Nat) (proxy : Option Proxy)

def rowOf (accounts : List Account) (id : Nat) : Option Account :=
  accounts.find? fun a => a.id == id && !a.deleted

def OAuthWorld.step (C : Crypto) (J : TokenCodec) (toLower : Text → Text) (w : OAuthWorld) : OAuthEvent → OAuthWorld
  | .connect luck =>
      match w.worker with
      | none => w
      | some watched =>
          let built := buildIMAPConfig C J toLower w.accounts watched luck
          ⟨built.accounts, some built.watched⟩
  | .restart id proxy => { w with worker := (rowOf w.accounts id).map fun a => ⟨a, proxy⟩ }

end FlyMail.Mail2im
