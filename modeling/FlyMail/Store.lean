/-
The local store: mail rows, folder rows and the queue of changes still to be sent.

Three tables.  A mail row belongs to a folder row and carries the UID the server
gave the mail in that folder, which is a non-zero 32-bit number.  A row of the queue
stands for one change to a whole group of mails: the verb, the folder's path on the
server, and the UIDs of the group in one comma-separated column.

The keys are the tables' own: `(folder, uid)` for mails and `(account, path)` for
folders.  Columns no modelled function reads or writes are left out.
-/
import FlyMail.Lib.Table
import FlyMail.Lib.Text

namespace FlyMail

/-- A moment, in seconds. `0` is the zero time. -/
abbrev Time := Nat

/-- A UID as a server hands it out: 32 bits and never zero. -/
structure UID where
  val : Nat
  pos : 0 < val
  lt : val < 2 ^ 32
  deriving DecidableEq, Repr

/-- A UID by its number, and the first of all where the number is out of range. -/
def UID.numbered (n : Nat) : UID :=
  if h : 0 < n ∧ n < 2 ^ 32 then ⟨n, h.1, h.2⟩ else ⟨1, Nat.one_pos, by decide⟩

/-- What a folder is for. -/
inductive FolderType
  | unknown
  | inbox
  | sent
  | drafts
  | trash
  | junk
  | archive
  | custom
  deriving DecidableEq, Repr

/-- A name and an address. -/
structure Address where
  name : Text
  email : Text
  deriving DecidableEq, Repr

/-- A row of `messages`. -/
structure Message where
  id : Nat
  accountID : Nat
  folderID : Nat
  uid : UID
  messageID : Text
  inReplyTo : Text
  references : Text
  threadID : Text
  subject : Text
  fromName : Text
  fromAddr : Text
  toList : List Address
  ccList : List Address
  date : Time
  size : Int
  seen : Bool
  flagged : Bool
  answered : Bool
  deleted : Bool
  hasAttachment : Bool
  snippet : Text
  bodySynced : Bool
  deriving DecidableEq, Repr

/-- A row with nothing in it but its keys. -/
def Message.bare (id accountID folderID : Nat) (uid : UID) : Message where
  id := id
  accountID := accountID
  folderID := folderID
  uid := uid
  messageID := []
  inReplyTo := []
  references := []
  threadID := []
  subject := []
  fromName := []
  fromAddr := []
  toList := []
  ccList := []
  date := 0
  size := 0
  seen := false
  flagged := false
  answered := false
  deleted := false
  hasAttachment := false
  snippet := []
  bodySynced := false

/-- The columns of the index `idx_msg_folder_uid`. -/
def Message.key (m : Message) : Nat × UID := (m.folderID, m.uid)

/-- A row of `folders`. -/
structure Folder where
  id : Nat
  accountID : Nat
  /-- The name the server knows the folder by. -/
  path : Text
  displayName : Text
  delimiter : Text
  type : FolderType
  attributes : List Text
  selectable : Bool
  uidValidity : Nat
  uidNext : Nat
  lastSyncedAt : Time
  totalCount : Nat
  unreadCount : Nat
  sortOrder : Nat
  deriving DecidableEq, Repr

/-- A row with nothing in it but its keys and its type. -/
def Folder.bare (id accountID : Nat) (path : Text) (type : FolderType) : Folder where
  id := id
  accountID := accountID
  path := path
  displayName := path
  delimiter := ['/']
  type := type
  attributes := []
  selectable := true
  uidValidity := 1
  uidNext := 0
  lastSyncedAt := 0
  totalCount := 0
  unreadCount := 0
  sortOrder := 100

/-- The columns of the index `idx_folder_account_path`. -/
def Folder.key (f : Folder) : Nat × Text := (f.accountID, f.path)

/-- The verbs of the queue. -/
inductive WbOp
  | read
  | unread
  | star
  | unstar
  | move
  | expunge
  deriving DecidableEq, Repr

/-- A row of `writeback_ops`: one change of one group of mails. -/
structure WritebackOp where
  id : Nat
  accountID : Nat
  folderPath : Text
  uid : Nat
  /-- All UIDs of the group, comma-separated; empty in rows of an older version. -/
  uids : Text
  op : WbOp
  /-- The destination of a `move`. -/
  targetPath : Text
  attempts : Nat
  nextAttemptAt : Time
  lastError : Text
  deriving DecidableEq, Repr

abbrev Messages := Table Message Message.id Message.key
abbrev Folders := Table Folder Folder.id Folder.key
abbrev WritebackOps := Table WritebackOp WritebackOp.id WritebackOp.id

/-- The database. -/
structure DB where
  messages : Messages
  folders : Folders
  ops : WritebackOps

/-- The database before anything was stored. -/
def DB.empty : DB := ⟨.empty, .empty, .empty⟩

/-! ### What the application keeps of the store

A mail row never stands without its folder row: rows are written while a folder is
synchronised, and a folder that goes takes its rows with it. -/

/-- Every mail row belongs to a folder row, of its own account. -/
def DB.Linked (db : DB) : Prop :=
  ∀ m ∈ db.messages.rows, ∃ f ∈ db.folders.rows, f.id = m.folderID ∧ f.accountID = m.accountID

end FlyMail
