/-
Accounts in a file.

`Export` writes the settings of accounts into a bundle, with the passwords in clear if it is asked
to, and `Import` creates accounts from a bundle or, in `overwrite` mode, changes those that are
there.  An account is taken for one of the bundle's by its address, trimmed and in lower case.

`existing` is read once, at the beginning.  A row that is overwritten is changed in memory first, and
stays changed there when it could not be saved.
-/
import FlyMail.Account.Flow
import Mathlib.Data.List.Sort

namespace FlyMail.Account.Portable

open Flow (Accounts)

/-- `PortableVersion`. -/
def portableVersion : Int := 1

/-- The settings of one account.  Without a password the bundle says nothing of it. -/
structure PortableAccount where
  name : Text
  email : Text
  username : Text
  password : Option Text
  authType : AuthType
  imap : Endpoint
  smtp : Endpoint
  proxyType : Text
  proxyHost : Text
  proxyPort : Int
  proxyUsername : Text
  proxyPassword : Option Text
  enabled : Bool
  deriving DecidableEq, Repr

structure PortableBundle where
  version : Int
  encrypted : Bool
  exportedAt : Time
  accounts : List PortableAccount
  deriving DecidableEq, Repr

inductive Err
  | decryptPassword (email : Text)
  | decryptProxyPassword (email : Text)
  | portableVersion (version : Int)
  | portableEncrypted
  /-- What `validPortable` says. -/
  | invalid (text : Text)
  | encrypt
  | repo (e : Account.Err)
  deriving DecidableEq, Repr

/-! ### The repository -/

namespace Repository

/-- The order in which the user has put them. -/
def list (accounts : Accounts) : List Account :=
  accounts.rows.insertionSort fun a b => a.sortOrder < b.sortOrder ∨ (a.sortOrder = b.sortOrder ∧ a.id ≤ b.id)

/-- What a column with a default gets on an insert: a zero value is left to the default. -/
def orDefault {α : Type} [DecidableEq α] (zero default v : α) : α := if v = zero then default else v

/-- The row as it is inserted; the other columns with a default never hold their zero value. -/
def withDefaults (a : Account) : Account := { a with enabled := orDefault false true a.enabled }

def create (accounts : Accounts) (a : Account) : Except Err Accounts :=
  match Flow.Repository.create accounts (withDefaults a) with
  | .error e => .error (.repo e)
  | .ok (accounts, _) => .ok accounts

/-- `Update` with a row that was loaded, and whose keys are as they were. -/
def update (accounts : Accounts) (a : Account) : Accounts :=
  accounts.modify (fun r => r.id == a.id) (fun r => { a with id := r.id, email := r.email })
    (fun _ => rfl) (fun _ => rfl)

end Repository

/-! ### Export -/

/-- A stored password in clear, if it is wanted and there is one. -/
def exportPassword (C : Codec) (wanted : Bool) (stored : Text) (e : Err) : Except Err (Option Text) :=
  if wanted = false ∨ stored = [] then .ok none
  else
    match C.decrypt stored with
    | none => .error e
    | some clear => .ok (some clear)

def exportAccount (C : Codec) (includePasswords : Bool) (a : Account) : Except Err PortableAccount := do
  let password ←
    exportPassword C (includePasswords && a.authType == .password) a.passwordEnc (.decryptPassword a.email)
  let proxyPassword ← exportPassword C includePasswords a.proxy.passwordEnc (.decryptProxyPassword a.email)
  return {
    name := a.name
    email := a.email
    username := a.username
    password := password
    authType := a.authType
    imap := a.imap
    smtp := a.smtp
    proxyType := a.proxy.type
    proxyHost := a.proxy.host
    proxyPort := a.proxy.port
    proxyUsername := a.proxy.username
    proxyPassword := proxyPassword
    enabled := a.enabled }

/-- `Export`: no ids stand for all accounts. -/
def exportAccounts (C : Codec) (accounts : Accounts) (ids : List Nat) (includePasswords : Bool) (now : Time) :
    Except Err PortableBundle := do
  let wanted := (Repository.list accounts).filter fun a => ids == [] || ids.contains a.id
  let out ← wanted.mapM (exportAccount C includePasswords)
  return ⟨portableVersion, false, now, out⟩

/-! ### Import -/

inductive ImportMode
  | skip
  | overwrite
  deriving DecidableEq, Repr

inductive Action
  | created
  | updated
  | skipped
  | failed
  deriving DecidableEq, Repr

structure ImportOutcome where
  email : Text
  action : Action
  error : Option Err
  deriving DecidableEq, Repr

structure ImportResult where
  created : Nat
  updated : Nat
  skipped : Nat
  failed : Nat
  outcomes : List ImportOutcome
  deriving DecidableEq, Repr

def ImportResult.add (res : ImportResult) (o : ImportOutcome) : ImportResult where
  created := if o.action = .created then res.created + 1 else res.created
  updated := if o.action = .updated then res.updated + 1 else res.updated
  skipped := if o.action = .skipped then res.skipped + 1 else res.skipped
  failed := if o.action = .failed then res.failed + 1 else res.failed
  outcomes := res.outcomes ++ [o]

/-- What is drawn for the two passwords of an account. -/
structure Nonces where
  password : Nat
  proxy : Nat
  deriving DecidableEq, Repr

def validPortable (pa : PortableAccount) : Except Err Unit :=
  if Text.trimSpace pa.email = [] then .error (.invalid "缺少邮箱地址".toList)
  else if Text.trimSpace pa.imap.host = [] ∨ pa.imap.port ≤ 0 then .error (.invalid "缺少 IMAP 主机或端口".toList)
  else if Text.trimSpace pa.smtp.host = [] ∨ pa.smtp.port ≤ 0 then .error (.invalid "缺少 SMTP 主机或端口".toList)
  else .ok ()

/-- The password, if the bundle has one. -/
def applyPassword (C : Codec) (n : Nonces) (a : Account) (pa : PortableAccount) : Except Err Account :=
  match pa.password with
  | none => .ok a
  | some clear =>
      match C.encrypt n.password clear with
      | none => .error .encrypt
      | some enc => .ok { a with passwordEnc := enc }

/-- The settings of the proxy but for its password. -/
def withProxy (a : Account) (pa : PortableAccount) : Account :=
  { a with proxy :=
    { type := pa.proxyType
      host := pa.proxyHost
      port := pa.proxyPort
      username := pa.proxyUsername
      passwordEnc := a.proxy.passwordEnc } }

def applyPortableProxy (C : Codec) (n : Nonces) (a : Account) (pa : PortableAccount) : Except Err Account :=
  match pa.proxyPassword with
  | none => .ok (withProxy a pa)
  | some clear =>
      match C.encrypt n.proxy clear with
      | none => .error .encrypt
      | some enc => .ok { withProxy a pa with proxy := { (withProxy a pa).proxy with passwordEnc := enc } }

/-- The account before its passwords. -/
def draft (pa : PortableAccount) : Account where
  id := 0
  name := if Text.trimSpace pa.name = [] then pa.email else pa.name
  email := pa.email
  authType := .password
  username := pa.username
  passwordEnc := []
  oauthProvider := []
  oauthTokenEnc := []
  oauthExpiresAt := none
  imap := pa.imap
  smtp := pa.smtp
  proxy := .none
  enabled := pa.enabled
  status := .new
  lastSyncAt := none
  sortOrder := 0

def createFromPortable (C : Codec) (n : Nonces) (accounts : Accounts) (pa : PortableAccount) : Except Err Accounts := do
  validPortable pa
  let a ← applyPassword C n (draft pa) pa
  let a ← applyPortableProxy C n a pa
  Repository.create accounts a

/-- What is overwritten besides the passwords and the proxy. -/
def applySettings (cur : Account) (pa : PortableAccount) : Account :=
  { cur with
    name := if Text.trimSpace pa.name = [] then cur.name else pa.name
    username := pa.username
    imap := pa.imap
    smtp := pa.smtp
    enabled := pa.enabled }

/-- The row as it is in memory afterwards, and the table. -/
def applyPortable (C : Codec) (n : Nonces) (accounts : Accounts) (cur : Account) (pa : PortableAccount) :
    Account × Except Err Accounts :=
  match validPortable pa with
  | .error e => (cur, .error e)
  | .ok () =>
      let cur := applySettings cur pa
      match applyPassword C n cur pa with
      | .error e => (cur, .error e)
      | .ok cur =>
          match applyPortableProxy C n cur pa with
          | .error e => (withProxy cur pa, .error e)
          | .ok cur => (cur, .ok (Repository.update accounts cur))

/-- Which account an address stands for. -/
def key (lower : Text → Text) (email : Text) : Text := lower (Text.trimSpace email)

/-- The rows that were there, by their addresses in lower case; of two with one address the later. -/
def byEmail (lower : Text → Text) (existing : List Account) : Text → Option Account :=
  existing.foldl (fun m a => Function.update m (lower a.email) (some a)) fun _ => none

structure ImportState where
  accounts : Accounts
  byEmail : Text → Option Account
  result : ImportResult

def picked (lower : Text → Text) (only : List Text) (pa : PortableAccount) : Bool :=
  only == [] || (only.map (key lower)).contains (key lower pa.email)

/-- One account of the bundle. -/
def importAccount (lower : Text → Text) (C : Codec) (mode : ImportMode) (only : List Text) (n : Nonces)
    (st : ImportState) (pa : PortableAccount) : ImportState :=
  if !picked lower only pa then st
  else
    match st.byEmail (key lower pa.email) with
    | none =>
        match createFromPortable C n st.accounts pa with
        | .error e => { st with result := st.result.add ⟨pa.email, .failed, some e⟩ }
        | .ok accounts => { st with accounts := accounts, result := st.result.add ⟨pa.email, .created, none⟩ }
    | some cur =>
        match mode with
        | .skip => { st with result := st.result.add ⟨pa.email, .skipped, none⟩ }
        | .overwrite =>
            let (cur, saved) := applyPortable C n st.accounts cur pa
            let byEmail := Function.update st.byEmail (key lower pa.email) (some cur)
            match saved with
            | .error e => { st with byEmail := byEmail, result := st.result.add ⟨pa.email, .failed, some e⟩ }
            | .ok accounts =>
                { accounts := accounts, byEmail := byEmail, result := st.result.add ⟨pa.email, .updated, none⟩ }

/-- The accounts of a bundle one after another, with what is drawn for each. -/
def importAll (lower : Text → Text) (C : Codec) (mode : ImportMode) (only : List Text) :
    List (PortableAccount × Nonces) → ImportState → ImportState
  | [], st => st
  | (pa, n) :: entries, st => importAll lower C mode only entries (importAccount lower C mode only n st pa)

/-- The accounts of a bundle with what is drawn for them. -/
def drawing (nonces : Nat → Nonces) (b : PortableBundle) : List (PortableAccount × Nonces) :=
  b.accounts.zipIdx.map fun p => (p.1, nonces p.2)

/-- `Import`. -/
def importBundle (lower : Text → Text) (C : Codec) (nonces : Nat → Nonces) (accounts : Accounts)
    (b : PortableBundle) (mode : ImportMode) (only : List Text) : Except Err (Accounts × ImportResult) :=
  if portableVersion < b.version then .error (.portableVersion b.version)
  else if b.encrypted then .error .portableEncrypted
  else
    let st := importAll lower C mode only (drawing nonces b)
      ⟨accounts, byEmail lower (Repository.list accounts), ⟨0, 0, 0, 0, []⟩⟩
    .ok (st.accounts, st.result)

end FlyMail.Account.Portable
