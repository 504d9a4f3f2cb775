/-
The statements over the tables `messages` and `folders`.

Each function here is one SQL statement, or in `getByIDs` and `uidsNotSearchable` a
few of the same kind, as a function of the database.  Whether a statement gets
through is not decided here: that is for the programs that issue them.

A query without `ORDER BY` answers in primary-key order here; nothing that is proved
rests on it.
-/
import FlyMail.Store
import FlyMail.Lib.Chunks
import Mathlib.Data.Char
import Mathlib.Data.List.Lex
import Mathlib.Data.List.Sort

namespace FlyMail

/-! ### Rows of `messages` -/

namespace Message.Repository

/-- How many keys one `IN` query carries. -/
def uidChunk : Nat := 900

def getByID (db : DB) (id : Nat) : Option Message := db.messages.get? id

/-- The rows of one `IN` query, by primary key. -/
def getChunk (db : DB) (ids : List Nat) : List Message :=
  db.messages.rows.filter fun m => ids.contains m.id

def getByFolderUID (db : DB) (folderID : Nat) (uid : UID) : Option Message :=
  db.messages.rows.find? fun m => m.folderID == folderID && m.uid == uid

def deleteByFolder (folderID : Nat) (db : DB) : DB :=
  { db with messages := db.messages.delete fun m => m.folderID == folderID }

def deleteByIDs (ids : List Nat) (db : DB) : DB :=
  { db with messages := db.messages.delete fun m => ids.contains m.id }

def setSeenByIDs (ids : List Nat) (seen : Bool) (db : DB) : DB :=
  { db with
    messages := db.messages.modify (fun m => ids.contains m.id) (fun m => { m with seen := seen })
      (fun _ => rfl) fun _ => rfl }

def setFlaggedByIDs (ids : List Nat) (flagged : Bool) (db : DB) : DB :=
  { db with
    messages := db.messages.modify (fun m => ids.contains m.id)
      (fun m => { m with flagged := flagged }) (fun _ => rfl) fun _ => rfl }

def countByFolder (db : DB) (folderID : Nat) : Nat :=
  db.messages.rows.countP fun m => m.folderID == folderID

def unreadCountByFolder (db : DB) (folderID : Nat) : Nat :=
  db.messages.rows.countP fun m => m.folderID == folderID && !m.seen

def unreadIDsByFolder (db : DB) (folderID : Nat) : List Nat :=
  (db.messages.rows.filter fun m => m.folderID == folderID && !m.seen).map Message.id

/-- The mail as a new row. -/
def asRow (m : Message) (n : Nat) : Message := { m with id := n }

/-- The row `r` once its mail is fetched again: it keeps its key, its thread and what is
known of its body. -/
def refreshed (m r : Message) : Message :=
  { m with
    id := r.id
    folderID := r.folderID
    uid := r.uid
    threadID := r.threadID
    hasAttachment := r.hasAttachment
    snippet := r.snippet
    bodySynced := r.bodySynced }

theorem asRow_id (m : Message) (n : Nat) : (asRow m n).id = n := rfl

theorem asRow_key (m : Message) (n : Nat) : (asRow m n).key = m.key := rfl

theorem refreshed_id (m r : Message) : (refreshed m r).id = r.id := rfl

theorem refreshed_key (m r : Message) : (refreshed m r).key = r.key := rfl

/-- `INSERT … ON CONFLICT (folder, uid) DO UPDATE`. -/
def upsert (m : Message) (db : DB) : DB :=
  { db with
    messages := db.messages.upsert m.key (asRow m) (refreshed m) (asRow_id m) (asRow_key m)
      (refreshed_id m) (refreshed_key m) }

theorem upsert_rows_of_new {m : Message} {db : DB} (h : ∀ r ∈ db.messages.rows, r.key ≠ m.key) :
    (upsert m db).messages.rows = db.messages.rows ++ [asRow m (db.messages.last + 1)] :=
  Table.upsert_rows_of_new (asRow_id m) (asRow_key m) (refreshed_id m) (refreshed_key m) h

/-- **What storing a mail leaves**: the other rows, and the mail's row, new or refreshed. -/
theorem mem_upsert {m r : Message} {db : DB} :
    r ∈ (upsert m db).messages.rows ↔
      (r ∈ db.messages.rows ∧ r.key ≠ m.key) ∨
        (∃ a ∈ db.messages.rows, a.key = m.key ∧ r = refreshed m a) ∨
          ((∀ a ∈ db.messages.rows, a.key ≠ m.key) ∧ r = asRow m (db.messages.last + 1)) :=
  Table.mem_upsert (asRow_id m) (asRow_key m) (refreshed_id m) (refreshed_key m)

theorem last_le_upsert {m : Message} {db : DB} :
    db.messages.last ≤ (upsert m db).messages.last :=
  Table.last_le_upsert_last (asRow_id m) (asRow_key m) (refreshed_id m) (refreshed_key m)

/-- The largest UID in the folder, `0` if it is empty. -/
def maxUID (db : DB) (folderID : Nat) : Nat :=
  ((db.messages.rows.filter fun m => m.folderID == folderID).map fun m => m.uid.val).foldl max 0

/-- The largest primary key in the folder, `0` if it is empty. -/
def maxIDByFolder (db : DB) (folderID : Nat) : Nat :=
  ((db.messages.rows.filter fun m => m.folderID == folderID).map Message.id).foldl max 0

def unseenAfterID (db : DB) (folderID afterID limit : Nat) : List Message :=
  (db.messages.rows.filter fun m =>
    m.folderID == folderID && decide (afterID < m.id) && !m.seen).take limit

def countUnseenAfterID (db : DB) (folderID afterID : Nat) : Nat :=
  db.messages.rows.countP fun m => m.folderID == folderID && decide (afterID < m.id) && !m.seen

/-- The first `limit` rows of the folder behind a primary key. -/
def listAfterID (db : DB) (folderID afterID limit : Nat) : List Message :=
  (db.messages.rows.filter fun m => m.folderID == folderID && decide (afterID < m.id)).take
    (if limit = 0 then 500 else limit)

/-- Two rows are label copies of one mail: same account, and the three columns that
tell a copy from another mail of the same thread. -/
def isCopy (m t : Message) : Bool :=
  m.accountID == t.accountID &&
    (m.id == t.id ||
      (t.messageID != [] && m.messageID == t.messageID && m.date == t.date && m.size == t.size))

/-- The rows given and all their label copies. -/
def copyIDs (db : DB) (ids : List Nat) : List Nat :=
  (db.messages.rows.filter fun m =>
    db.messages.rows.any fun t => ids.contains t.id && isCopy m t).map Message.id

end Message.Repository

/-! ### Rows of `folders` -/

namespace Folder.Repository

def getByID (db : DB) (id : Nat) : Option Folder := db.folders.get? id

def findByType (db : DB) (accountID : Nat) (type : FolderType) : Option Folder :=
  db.folders.rows.find? fun f => f.accountID == accountID && f.type == type

def updateUnreadCount (id unread : Nat) (db : DB) : DB :=
  { db with
    folders := db.folders.modify (fun f => f.id == id) (fun f => { f with unreadCount := unread })
      (fun _ => rfl) fun _ => rfl }

/-- The account's folders as they are listed. -/
def listByAccount (db : DB) (accountID : Nat) : List Folder :=
  (db.folders.rows.filter fun f => f.accountID == accountID).insertionSort fun a b =>
    a.sortOrder < b.sortOrder ∨ (a.sortOrder = b.sortOrder ∧ a.displayName ≤ b.displayName)

/-- Store a folder under its path. A row that is there keeps its key and how far it was
synchronised. -/
def upsertByPath (f : Folder) (db : DB) : DB :=
  { db with
    folders := db.folders.upsert f.key (fun n => { f with id := n })
      (fun r =>
        { f with
          id := r.id
          accountID := r.accountID
          path := r.path
          uidValidity := if f.uidValidity = 0 then r.uidValidity else f.uidValidity
          uidNext := if f.uidNext = 0 then r.uidNext else f.uidNext
          lastSyncedAt := if f.lastSyncedAt = 0 then r.lastSyncedAt else f.lastSyncedAt
          totalCount := if f.totalCount = 0 then r.totalCount else f.totalCount
          unreadCount := if f.unreadCount = 0 then r.unreadCount else f.unreadCount })
      (fun _ => rfl) (fun _ => rfl) (fun _ => rfl) fun _ => rfl }

/-- Take away the account's folders the server does not list, and their mails. -/
def pruneMissing (accountID : Nat) (keep : List Text) (db : DB) : DB :=
  let gone := (db.folders.rows.filter fun f =>
    f.accountID == accountID && !keep.contains f.path).map Folder.id
  { db with
    messages := db.messages.delete fun m => gone.contains m.folderID
    folders := db.folders.delete fun f => gone.contains f.id }

def updateSyncState (id uidValidity uidNext total unread : Nat) (syncedAt : Time) (db : DB) :
    DB :=
  { db with
    folders := db.folders.modify (fun f => f.id == id)
      (fun f =>
        { f with
          uidValidity := uidValidity
          uidNext := uidNext
          totalCount := total
          unreadCount := unread
          lastSyncedAt := syncedAt })
      (fun _ => rfl) fun _ => rfl }

def updateCounts (id total unread : Nat) (db : DB) : DB :=
  { db with
    folders := db.folders.modify (fun f => f.id == id)
      (fun f => { f with totalCount := total, unreadCount := unread }) (fun _ => rfl) fun _ => rfl }

end Folder.Repository

end FlyMail
