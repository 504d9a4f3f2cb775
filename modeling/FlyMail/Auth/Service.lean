/-
The administrator's account: logging in, the profile, and changing the password.

Each of the three loads the user's whole row, changes some of its columns in memory and
saves the whole row.  Calls run at the same time, and the store is free for the others
between a call's two operations.

`bcrypt` is a parameter: how a password is hashed with a salt, and which passwords a hash
accepts.

The journal `changed` plays no part in what happens.  It records the changes of password
that returned success, and a copy of a row carries how many there were when it was
loaded.
-/
import FlyMail.Lib.Calls
import FlyMail.Lib.Table
import FlyMail.Store

namespace FlyMail.Auth

/-- A row of `admin_users`. -/
structure AdminUser where
  id : Nat
  username : Text
  passwordHash : Text
  displayName : Text
  email : Text
  lastLoginAt : Option Time
  deriving DecidableEq, Repr

abbrev AdminUsers := Table AdminUser AdminUser.id AdminUser.username

inductive Err
  | invalidCredentials
  | adminNotFound
  /-- The password cannot be hashed. -/
  | hash
  /-- The database refused a statement. -/
  | db
  deriving DecidableEq, Repr

/-- The password hash: `HashPassword`, with the salt it draws, and `VerifyPassword`. -/
structure Hasher where
  hashPassword : Nat → Text → Option Text
  verifyPassword : Text → Text → Bool

/-! ### The repository -/

namespace Repository

def getByUsername (users : AdminUsers) (username : Text) : Except Err AdminUser :=
  match users.rows.find? fun u => u.username == username with
  | some u => .ok u
  | none => .error .adminNotFound

/-- `Upsert` of a row that has its key: all columns are written.  No call changes the
username of a row it loaded. -/
def save (users : AdminUsers) (u : AdminUser) : AdminUsers :=
  users.modify (fun r => r.id == u.id) (fun r => { u with id := r.id, username := r.username })
    (fun _ => rfl) (fun _ => rfl)

/-- `Upsert` of a row without a key. -/
def create (users : AdminUsers) (username passwordHash : Text) : Except Err AdminUsers :=
  if h : ∃ r ∈ users.rows, r.username = username then .error .db
  else .ok (users.insert (fun n => ⟨n, username, passwordHash, [], [], none⟩) (fun _ => rfl)
    fun r hr he => h ⟨r, hr, he⟩)

/-- `Upsert` as `SetAdminPassword` calls it. -/
def upsert (users : AdminUsers) (existing : Option AdminUser) (username passwordHash : Text) :
    Except Err AdminUsers :=
  match existing with
  | none => create users username passwordHash
  | some u => .ok (save users { u with passwordHash := passwordHash })

end Repository

/-! ### The service -/

/-- A change of password. -/
structure Change where
  username : Text
  password : Text
  salt : Nat
  deriving DecidableEq, Repr

structure Store where
  users : AdminUsers
  changed : List Change

/-- What a client can ask for. -/
inductive Request
  | login (username password : Text)
  | updateProfile (username displayName email : Text)
  | changePassword (username oldPassword newPassword : Text)
  deriving DecidableEq, Repr

inductive Answer
  /-- A pair of tokens for the user. -/
  | tokens (username : Text)
  | profile (u : AdminUser)
  | changed
  deriving DecidableEq, Repr

/-- The point a call has come to, and the copy it holds. -/
inductive Frame
  | login (username password : Text)
  /-- `Login` holds the row it is about to save. -/
  | loggingIn (u : AdminUser) (seen : Nat)
  | updateProfile (username displayName email : Text)
  /-- `UpdateProfile` holds the row it is about to save. -/
  | updatingProfile (u : AdminUser) (seen : Nat)
  | changePassword (username oldPassword newPassword : Text)
  /-- The old password was right. -/
  | setAdminPassword (username password : Text)
  /-- `SetAdminPassword` holds the row it found, if any, and the new hash. -/
  | settingPassword (existing : Option AdminUser) (passwordHash : Text) (c : Change)
  | done (r : Except Err Answer)

/-- The luck of one operation: the database may refuse it; the clock; the salt drawn. -/
structure Luck where
  failed : Bool
  now : Time
  salt : Nat
  deriving DecidableEq, Repr

def authenticate (H : Hasher) (users : AdminUsers) (username password : Text) :
    Except Err AdminUser :=
  match Repository.getByUsername users username with
  | .error .adminNotFound => .error .invalidCredentials
  | .error e => .error e
  | .ok u => if H.verifyPassword u.passwordHash password then .ok u else .error .invalidCredentials

/-- What `SetAdminPassword` looks up before it saves. -/
def lookUp (users : AdminUsers) (username : Text) : Except Err (Option AdminUser) :=
  match Repository.getByUsername users username with
  | .error .adminNotFound => .ok none
  | .error e => .error e
  | .ok u => .ok (some u)

/-- The next operation of a call. -/
def next (H : Hasher) (x : Luck) : Frame → Store → Option (Store × Frame)
  | .login username password, s =>
      if x.failed then some (s, .done (.error .db)) else
      match authenticate H s.users username password with
      | .error e => some (s, .done (.error e))
      | .ok u => some (s, .loggingIn { u with lastLoginAt := some x.now } s.changed.length)
  | .loggingIn u _, s =>
      -- an error of the save does not stop the login
      some (if x.failed then s else { s with users := Repository.save s.users u },
        .done (.ok (.tokens u.username)))
  | .updateProfile username displayName email, s =>
      if x.failed then some (s, .done (.error .db)) else
      match Repository.getByUsername s.users username with
      | .error e => some (s, .done (.error e))
      | .ok u =>
          some (s, .updatingProfile
            { u with displayName := Text.trimSpace displayName, email := Text.trimSpace email }
            s.changed.length)
  | .updatingProfile u _, s =>
      if x.failed then some (s, .done (.error .db))
      else some ({ s with users := Repository.save s.users u }, .done (.ok (.profile u)))
  | .changePassword username oldPassword newPassword, s =>
      if x.failed then some (s, .done (.error .db)) else
      match authenticate H s.users username oldPassword with
      | .error e => some (s, .done (.error e))
      | .ok _ => some (s, .setAdminPassword username newPassword)
  | .setAdminPassword username password, s =>
      match H.hashPassword x.salt password with
      | none => some (s, .done (.error .hash))
      | some passwordHash =>
          if x.failed then some (s, .done (.error .db)) else
          match lookUp s.users username with
          | .error e => some (s, .done (.error e))
          | .ok existing =>
              some (s, .settingPassword existing passwordHash ⟨username, password, x.salt⟩)
  | .settingPassword existing passwordHash c, s =>
      if x.failed then some (s, .done (.error .db)) else
      match Repository.upsert s.users existing c.username passwordHash with
      | .error e => some (s, .done (.error e))
      | .ok users => some (⟨users, s.changed ++ [c]⟩, .done (.ok .changed))
  | .done _, _ => none

def enter : Request → Frame
  | .login username password => .login username password
  | .updateProfile username displayName email => .updateProfile username displayName email
  | .changePassword username oldPassword newPassword =>
      .changePassword username oldPassword newPassword

/-- The service; nobody else writes the table. -/
def service (H : Hasher) : Service Request Luck Empty Frame Store where
  enter := enter
  next := next H
  outside := fun _ s => s

/-! ### What the journal says -/

/-- The last change of the user's password. -/
def Store.lastChange (s : Store) (username : Text) : Option Change :=
  (s.changed.filter fun c => c.username == username).getLast?

/-- The user's password was not changed since `seen` changes had been made. -/
def Store.unchangedSince (s : Store) (username : Text) (seen : Nat) : Bool :=
  (s.changed.drop seen).all fun c => c.username != username

/-- `Login` and `UpdateProfile` save no row they loaded before a change of its password. -/
def savesFresh (p : Pool Frame Store) : Turn Request Luck Empty → Bool
  | .go i x =>
      match p.calls[i]? with
      | some (.loggingIn u seen) => x.failed || p.store.unchangedSince u.username seen
      | some (.updatingProfile u seen) => x.failed || p.store.unchangedSince u.username seen
      | _ => true
  | _ => true

end FlyMail.Auth
