/-
The configuration of mail2im in a file.

`ExportConfig` writes the rows out, with passwords in clear and the proxy of an account by its name.
`ImportConfig` reads what is there, refuses a payload that meets it unless it may overwrite, and then
writes the four sections one row after another.  The names of proxies are bound again through a map of
the rows that were there and of those the payload has brought.

A column with a default gets it when a row is created with the column's zero value.  A condition that
is a struct leaves out the fields that are zero.
-/
import FlyMail.Lib.Index
import FlyMail.Lib.Until
import FlyMail.Mail2im.Account
import FlyMail.Mail2im.Dispatcher

namespace FlyMail.Mail2im.Transfer

open Dispatcher (Channel Channels ChannelQuiet)

/-- A row of `system_settings`. -/
structure SystemSetting where
  id : Nat
  key : Text
  value : Text
  deriving DecidableEq, Repr

abbrev Proxies := Table Proxy Proxy.id Proxy.id

/-- The unique index sees deleted rows too. -/
abbrev Accounts := Table Account Account.id Account.email

abbrev Settings := Table SystemSetting SystemSetting.id SystemSetting.key

structure Database where
  proxies : Proxies
  accounts : Accounts
  channels : Channels
  settings : Settings
  /-- The latest `updated_at`.  Every statement that writes a row sets a later one. -/
  stamp : Nat

/-! ### Export -/

structure ExportAccount where
  email : Text
  displayName : Text
  login : Text
  password : Text
  authType : Text
  provider : Text
  imapServer : Text
  imapPort : Int
  sslMode : Text
  useIDLE : Bool
  pollIntervalDay : Int
  pollIntervalNight : Int
  timezone : Text
  proxyName : Text
  oauthToken : Text
  status : Text
  enabled : Bool
  deriving DecidableEq, Repr

structure ExportProxy where
  name : Text
  type : Text
  host : Text
  port : Int
  username : Text
  password : Text
  deriving DecidableEq, Repr

structure ExportChannel where
  name : Text
  type : Text
  config : Text
  status : Text
  minPriority : Int
  quiet : ChannelQuiet
  deriving DecidableEq, Repr

/-- A map of settings is its entries, in the order in which a loop meets them. -/
structure ConfigExportResponse where
  accounts : List ExportAccount
  proxies : List ExportProxy
  channels : List ExportChannel
  systemSettings : Option (List (Text × Text))
  deriving DecidableEq, Repr

structure Sections where
  accounts : Bool
  proxies : Bool
  settings : Bool
  channels : Bool
  deriving DecidableEq, Repr

/-- `parseSectionSelection`: without a selection everything. -/
def parseSectionSelection (lower : Text → Text) (raw : List Text) : Sections :=
  if raw = [] then ⟨true, true, true, true⟩
  else
    let named := raw.map fun part => Text.trimSpace (lower part)
    { accounts := named.contains "accounts".toList
      proxies := named.contains "proxies".toList
      settings := named.contains "settings".toList
      channels := named.contains "channels".toList }

/-- The text in clear, or as it is when it cannot be had in clear. -/
def decryptOrKeep (C : Crypto) (val : Text) : Text :=
  if val = [] then []
  else
    match C.decrypt val with
    | some plain => if plain ≠ [] then plain else val
    | none => val

/-- The rows that queries see. -/
def Database.liveAccounts (db : Database) : List Account := db.accounts.rows.filter fun a => !a.deleted

def proxyNameByID (db : Database) (id : Nat) : Text :=
  match db.proxies.get? id with
  | some p => p.name
  | none => []

def exportProxy (C : Crypto) (p : Proxy) : ExportProxy where
  name := p.name
  type := p.type
  host := p.host
  port := p.port
  username := p.username
  password := decryptOrKeep C p.password

def exportAccount (C : Crypto) (db : Database) (acc : Account) : ExportAccount where
  email := acc.email
  displayName := acc.displayName
  login := acc.login
  password := decryptOrKeep C acc.password
  authType := acc.authType
  provider := acc.provider
  imapServer := acc.imapServer
  imapPort := acc.imapPort
  sslMode := sslModeOf acc.sslMode acc.useSSL
  useIDLE := acc.useIDLE
  pollIntervalDay := acc.pollIntervalDay
  pollIntervalNight := acc.pollIntervalNight
  timezone := acc.timezone
  proxyName :=
    match acc.proxyID with
    | some id => proxyNameByID db id
    | none => []
  oauthToken := decryptOrKeep C acc.oauthToken
  status := acc.status
  enabled := acc.enabled

def exportChannel (ch : Channel) : ExportChannel where
  name := ch.name
  type := ch.type
  config := ch.config
  status := ch.status
  minPriority := ch.minPriority
  quiet := ch.quiet

def exportSetting (s : SystemSetting) : Text × Text := (s.key, s.value)

/-- `ExportConfig`, for a user who may have it. -/
def exportConfig (C : Crypto) (sections : Sections) (db : Database) : ConfigExportResponse where
  accounts := if sections.accounts then db.liveAccounts.map (exportAccount C db) else []
  proxies := if sections.proxies then db.proxies.rows.map (exportProxy C) else []
  channels := if sections.channels then db.channels.rows.map exportChannel else []
  systemSettings :=
    if sections.settings ∧ db.settings.rows ≠ [] then some (db.settings.rows.map exportSetting) else none

/-! ### Import -/

structure ConfigImportRequest where
  accounts : List ExportAccount
  proxies : List ExportProxy
  channels : List ExportChannel
  systemSettings : Option (List (Text × Text))
  overwrite : Bool
  deriving DecidableEq, Repr

structure Conflicts where
  accounts : List Text
  proxies : List Text
  channels : List Text
  deriving DecidableEq, Repr

structure Imported where
  accounts : Nat
  proxies : Nat
  channels : Nat
  systemSettings : Nat
  deriving DecidableEq, Repr

inductive Err
  | noData
  | conflicts (c : Conflicts)
  | encryptProxyPassword
  | encryptAccountPassword
  /-- `UNIQUE constraint failed: accounts.email` -/
  | duplicateEmail
  deriving DecidableEq, Repr

/-- What the loops work with. -/
structure State where
  db : Database
  existingProxyMap : Text → Option Proxy
  existingAccountMap : Text → Option Account
  existingChannelMap : Text → Option Channel
  proxyNameToID : Text → Option Nat

/-- The zero value. -/
def Proxy.zero : Proxy := ⟨0, [], [], [], 0, [], []⟩

/-! ### Statements -/

private theorem ne_next {α : Type} {pk : α → Nat} (t : Table α pk pk) : ∀ r ∈ t.rows, pk r ≠ t.last + 1 := by
  intro r hr
  have hle := t.below r hr
  omega

namespace Database

def stamped (db : Database) : Database := { db with stamp := db.stamp + 1 }

def createProxy (db : Database) (p : Proxy) : Database :=
  { db.stamped with
    proxies := db.proxies.insert (fun id => { p with id := id }) (fun _ => rfl) (ne_next db.proxies) }

/-- `Save`: a row that has no id yet is created.  With its id. -/
def saveProxy (db : Database) (p : Proxy) : Database × Proxy :=
  if p.id = 0 then (db.createProxy p, { p with id := db.proxies.last + 1 })
  else
    ({ db.stamped with
      proxies := db.proxies.modify (fun r => r.id == p.id) (fun r => { p with id := r.id }) (fun _ => rfl) fun _ => rfl },
      p)

/-- The row as it is created: `enabled` is true by default. -/
def withDefaults (a : Account) : Account := { a with enabled := if a.enabled = false then true else a.enabled }

def createAccount (db : Database) (a : Account) : Except Err (Database × Account) :=
  if h : ∃ r ∈ db.accounts.rows, r.email = a.email then .error .duplicateEmail
  else
    .ok ({ db.stamped with
      accounts := db.accounts.insert (fun id => { withDefaults a with id := id }) (fun _ => rfl)
        fun r hr he => h ⟨r, hr, he⟩ },
      { withDefaults a with id := db.accounts.last + 1 })

/-- `Save` for a row that was loaded by its address. -/
def saveAccount (db : Database) (a : Account) : Database :=
  { db.stamped with
    accounts := db.accounts.modify (fun r => r.id == a.id) (fun r => { a with id := r.id, email := r.email })
      (fun _ => rfl) fun _ => rfl }

def createChannel (db : Database) (ch : Channel) : Database × Channel :=
  ({ db.stamped with
    channels := db.channels.insert (fun id => { ch with id := id }) (fun _ => rfl) (ne_next db.channels) },
    { ch with id := db.channels.last + 1 })

def saveChannel (db : Database) (ch : Channel) : Database :=
  { db.stamped with
    channels := db.channels.modify (fun r => r.id == ch.id) (fun r => { ch with id := r.id }) (fun _ => rfl)
      fun _ => rfl }

/-- `SetSystemSetting`: the first row that meets the condition gets the value, and if there is none a row
is created.  An empty key is no condition, and an empty value is not assigned. -/
def setSystemSetting (db : Database) (key value : Text) : Database :=
  match h : db.settings.rows.find? fun s => key == [] || s.key == key with
  | some s =>
      { db.stamped with
        settings := db.settings.modify (fun r => r.id == s.id)
          (fun r => { r with value := if value = [] then r.value else value }) (fun _ => rfl) fun _ => rfl }
  | none =>
      { db.stamped with
        settings := db.settings.insert (fun id => ⟨id, key, value⟩) (fun _ => rfl) fun r hr he => by
          have hno := List.find?_eq_none.mp h r hr
          simp only [he, beq_self_eq_true, Bool.or_true, not_true_eq_false] at hno }

end Database

/-! ### The loops -/

/-- A proxy is written, and what is known of it then: of a new one the zero value. -/
def writeProxy (db : Database) (existing : Option Proxy) (p : ExportProxy) (encryptedPwd : Text) : Database × Proxy :=
  match existing with
  | none => (db.createProxy ⟨0, p.name, p.type, p.host, p.port, p.username, encryptedPwd⟩, Proxy.zero)
  | some existing =>
      db.saveProxy
        { existing with
          type := p.type
          host := p.host
          port := p.port
          username := p.username
          password := encryptedPwd }

/-- One proxy, and its place among the items. -/
def importProxy (C : Crypto) (nonce : Nat → Nat) (st : State) (item : ExportProxy × Nat) : Except Err State :=
  match C.encrypt (nonce (2 * item.2)) item.1.password with
  | none => .error .encryptProxyPassword
  | some encryptedPwd =>
      let written := writeProxy st.db (st.existingProxyMap item.1.name) item.1 encryptedPwd
      .ok { st with
        db := written.1
        existingProxyMap := Function.update st.existingProxyMap item.1.name (some written.2)
        proxyNameToID := Function.update st.proxyNameToID item.1.name (some written.2.id) }

/-- The proxies that were there come into the map, if there are accounts to be bound to them. -/
def State.bindExisting (st : State) (payload : ConfigImportRequest) : State :=
  if payload.accounts = [] then st
  else
    { st with
      proxyNameToID := fun name => (st.proxyNameToID name).orElse fun _ => (st.existingProxyMap name).map (·.id) }

def proxyIDFor (st : State) (acc : ExportAccount) : Option Nat :=
  if acc.proxyName ≠ [] then st.proxyNameToID acc.proxyName
  else (st.existingAccountMap acc.email).bind (·.proxyID)

def requestOf (acc : ExportAccount) (proxyID : Option Nat) : CreateAccountRequest where
  email := acc.email
  displayName := acc.displayName
  login := acc.login
  password := acc.password
  authType := acc.authType
  provider := acc.provider
  imapServer := acc.imapServer
  imapPort := acc.imapPort
  sslMode := acc.sslMode
  useSSL := false
  proxyID := proxyID
  useIDLE := acc.useIDLE
  pollIntervalDay := acc.pollIntervalDay
  pollIntervalNight := acc.pollIntervalNight
  timezone := acc.timezone
  enabled := some acc.enabled

/-- What the payload has besides: a token that cannot be encrypted is kept in clear. -/
def applyRest (C : Crypto) (nonce : Nat) (account : Account) (acc : ExportAccount) : Account :=
  { account with
    status := if acc.status ≠ [] then acc.status else account.status
    oauthToken :=
      if acc.oauthToken ≠ [] then (C.encrypt nonce acc.oauthToken).getD acc.oauthToken else account.oauthToken }

/-- One account, and its place among the items. -/
def importAccount (C : Crypto) (nonce : Nat → Nat) (st : State) (item : ExportAccount × Nat) : Except Err State :=
  let acc := item.1
  let existing := st.existingAccountMap acc.email
  match toAccount C (nonce (2 * item.2)) (requestOf acc (proxyIDFor st acc)) existing true with
  | none => .error .encryptAccountPassword
  | some account =>
      let account := applyRest C (nonce (2 * item.2 + 1)) account acc
      if existing.isSome then
        .ok { st with
          db := st.db.saveAccount account
          existingAccountMap := Function.update st.existingAccountMap acc.email (some account) }
      else
        match st.db.createAccount account with
        | .error e => .error e
        | .ok (db, account) =>
            .ok { st with
              db := db
              existingAccountMap := Function.update st.existingAccountMap acc.email (some account) }

def importChannel (st : State) (ch : ExportChannel) : State :=
  match st.existingChannelMap ch.name with
  | some existing =>
      let existing :=
        { existing with
          type := ch.type
          config := ch.config
          status := ch.status
          minPriority := ch.minPriority
          quiet := ch.quiet }
      { st with
        db := st.db.saveChannel existing
        existingChannelMap := Function.update st.existingChannelMap ch.name (some existing) }
  | none =>
      let (db, newCh) := st.db.createChannel ⟨0, ch.name, ch.type, ch.config, ch.status, ch.minPriority, [], ch.quiet⟩
      { st with
        db := db
        existingChannelMap := Function.update st.existingChannelMap ch.name (some newCh) }

def importSettings (db : Database) (settings : List (Text × Text)) : Database :=
  settings.foldl (fun db kv => db.setSystemSetting kv.1 kv.2) db

/-! ### The request -/

/-- What was there before. -/
def preload (db : Database) (payload : ConfigImportRequest) : State where
  db := db
  existingProxyMap :=
    if payload.proxies ≠ [] ∨ payload.accounts ≠ [] then byKey (·.name) db.proxies.rows else fun _ => none
  existingAccountMap := if payload.accounts ≠ [] then byKey (·.email) db.liveAccounts else fun _ => none
  existingChannelMap := if payload.channels ≠ [] then byKey (·.name) db.channels.rows else fun _ => none
  proxyNameToID := fun _ => none

def conflictsOf (st : State) (payload : ConfigImportRequest) : Conflicts where
  accounts := (payload.accounts.map (·.email)).filter fun email => (st.existingAccountMap email).isSome
  proxies := (payload.proxies.map (·.name)).filter fun name => (st.existingProxyMap name).isSome
  channels := (payload.channels.map (·.name)).filter fun name => (st.existingChannelMap name).isSome

/-- Channels and settings, which do not fail. -/
def writeRest (st : State) (payload : ConfigImportRequest) : Database :=
  importSettings (payload.channels.foldl importChannel st).db (payload.systemSettings.getD [])

/-- The payload as it is written.  The `k`-th of the proxies and accounts draws the nonces `2 * k` and
`2 * k + 1`. -/
def writeAll (C : Crypto) (nonce : Nat → Nat) (st : State) (payload : ConfigImportRequest) :
    Database × Except Err Imported :=
  match untilError (importProxy C nonce) st payload.proxies.zipIdx with
  | (st, some e) => (st.db, .error e)
  | (st, none) =>
      match untilError (importAccount C nonce) (st.bindExisting payload)
        (payload.accounts.zipIdx payload.proxies.length) with
      | (st, some e) => (st.db, .error e)
      | (st, none) =>
          (writeRest st payload,
            .ok ⟨payload.accounts.length, payload.proxies.length, payload.channels.length,
              (payload.systemSettings.getD []).length⟩)

/-- `ImportConfig`. -/
def importConfig (C : Crypto) (nonce : Nat → Nat) (db : Database) (payload : ConfigImportRequest) :
    Database × Except Err Imported :=
  if payload.accounts = [] ∧ payload.proxies = [] ∧ payload.systemSettings = none then (db, .error .noData)
  else
    let st := preload db payload
    let conflicts := conflictsOf st payload
    if (conflicts.accounts ≠ [] ∨ conflicts.proxies ≠ []) ∧ payload.overwrite = false then
      (db, .error (.conflicts conflicts))
    else writeAll C nonce st payload

end FlyMail.Mail2im.Transfer
