/-
The user's operations on mails.

Every operation changes the local rows first and queues the change for the server
second, group by group: a group is what the operation covers of one folder.  No
transaction holds the two together.  An error before the rows of a group are changed
ends the operation; an error after that is only logged.

A statement is named by its site, so that the world can decide for each one whether
it gets through.  Groups come out of a hash map: `Order` decides in which order.
-/
import FlyMail.Lib.Proc
import FlyMail.Message.Repository
import FlyMail.Sync.Writeback
import Mathlib.Data.List.Sort

namespace FlyMail.Sync

/-- The errors an operation reports. -/
inductive Err
  /-- The database refused a statement. -/
  | db
  | messageNotFound
  | folderNotFound
  | crossAccountMove
  deriving DecidableEq, Repr

/-- The statements an operation starts with. -/
inductive CallStmt
  | getMessage
  | getFolder
  | getTarget
  | withCopies
  | unreadIDs
  | getByIDs (chunk : Nat)
  deriving DecidableEq, Repr

/-- The statements about one group. -/
inductive GroupStmt
  | getFolder
  | findTrash
  | changeRows
  | countTotal
  | countUnread
  | setCounts
  | queueFolder
  | createOp
  deriving DecidableEq, Repr

/-- A statement of an operation. `n` tells the batches of one operation apart. -/
inductive Site
  | call (n : Nat) (s : CallStmt)
  | group (n accountID folderID : Nat) (s : GroupStmt)
  deriving DecidableEq, Repr

abbrev Prog (α : Type) := Proc Site Err DB α

open Proc

/-! ### Grouping -/

/-- What an operation covers of one folder. -/
structure Group where
  accountID : Nat
  folderID : Nat
  msgs : List Message
  deriving DecidableEq, Repr

def Group.ids (g : Group) : List Nat := g.msgs.map Message.id

def Group.uids (g : Group) : List UID := g.msgs.map Message.uid

/-- A map from keys to the rows with that key. -/
def groupBy (key : Message → Nat) (rows : List Message) : List (Nat × List Message) :=
  (rows.map key).dedup.map fun k => (k, rows.filter fun m => key m == k)

/-- The order in which maps are walked, as a rank of the keys. -/
structure Order where
  account : Nat → Nat → Nat
  folder : Nat → Nat → Nat

def byRank {α : Type} (rank : α → Nat) (l : List α) : List α :=
  l.insertionSort fun a b => rank a ≤ rank b

/-- The groups of some rows: by account, then by folder, as the maps are walked. -/
def Order.groups (o : Order) (n : Nat) (rows : List Message) : List Group :=
  (byRank (fun p => o.account n p.1) (groupBy Message.accountID rows)).flatMap fun a =>
    (byRank (fun p => o.folder n p.1) (groupBy Message.folderID a.2)).map fun f =>
      ⟨a.1, f.1, f.2⟩

/-- The rows with the given keys, one statement a chunk. -/
def getByIDs (n : Nat) : Nat → List (List Nat) → Prog (List Message)
  | _, [] => pure []
  | i, c :: rest => do
      let rows ← query (.call n (.getByIDs i)) .db fun db =>
        .ok (Message.Repository.getChunk db c)
      let more ← getByIDs n (i + 1) rest
      pure (rows ++ more)

def loadGrouped (o : Order) (n : Nat) (ids : List Nat) : Prog (List Group) := do
  let rows ← getByIDs n 0 (chunksOf Message.Repository.uidChunk ids)
  pure (o.groups n rows)

/-! ### The parts every operation is made of -/

def getMessage (site : Site) (id : Nat) : Prog Message :=
  query site .db fun db =>
    match Message.Repository.getByID db id with
    | some m => .ok m
    | none => .error .messageNotFound

def getFolder (site : Site) (id : Nat) : Prog Folder :=
  query site .db fun db =>
    match Folder.Repository.getByID db id with
    | some f => .ok f
    | none => .error .folderNotFound

/-- Count a folder's mails again. Errors are passed over. -/
def refreshFolderCounts (at_ : GroupStmt → Site) (folderID : Nat) : Prog Unit := do
  let total ← attempt <| query (at_ .countTotal) .db fun db =>
    .ok (Message.Repository.countByFolder db folderID)
  let unread ← attempt <| query (at_ .countUnread) .db fun db =>
    .ok (Message.Repository.unreadCountByFolder db folderID)
  match total, unread with
  | .ok total, .ok unread => do
      let _ ← attempt <| update (at_ .setCounts) .db
        (Folder.Repository.updateCounts folderID total unread)
      pure ()
  | _, _ => pure ()

/-- Count a folder's unread mails again. Errors are passed over. -/
def refreshUnreadCount (at_ : GroupStmt → Site) (folderID : Nat) : Prog Unit := do
  let unread ← attempt <| query (at_ .countUnread) .db fun db =>
    .ok (Message.Repository.unreadCountByFolder db folderID)
  match unread with
  | .ok unread => do
      let _ ← attempt <| update (at_ .setCounts) .db
        (Folder.Repository.updateUnreadCount folderID unread)
      pure ()
  | .error _ => pure ()

/-- The row that is queued for a group. -/
def newOp (accountID : Nat) (f : Folder) (uids : List UID) (op : WbOp) (targetPath : Text) :
    WritebackOp where
  id := 0
  accountID := accountID
  folderPath := f.path
  uid := (uids.head?.map UID.val).getD 0
  uids := joinUIDs uids
  op := op
  targetPath := targetPath
  attempts := 0
  nextAttemptAt := 0
  lastError := []

/-- Queue a change. What goes wrong here is only logged. -/
def enqueueWritebackUIDs (at_ : GroupStmt → Site) (now : Time) (accountID folderID : Nat)
    (uids : List UID) (op : WbOp) (targetPath : Text) : Prog Unit :=
  if uids = [] then pure ()
  else do
    let f ← attempt <| getFolder (at_ .queueFolder) folderID
    match f with
    | .ok f => do
        let _ ← attempt <| update (at_ .createOp) .db
          (WbStore.enqueue (newOp accountID f uids op targetPath) now)
        pure ()
    | .error _ => pure ()

/-- What deleting means in the folder `src`: into the account's trash, or for good where
the folder is the trash or there is none. -/
def deleteTarget (trash : Option Folder) (src : Folder) : WbOp × Text :=
  match trash with
  | none => (.expunge, [])
  | some t => if src.type = .trash ∨ t.id = src.id then (.expunge, []) else (.move, t.path)

/-- Look for the trash and decide. An error of the lookup counts as no trash. -/
def deleteTargetFor (at_ : GroupStmt → Site) (accountID : Nat) (src : Folder) :
    Prog (WbOp × Text) := do
  let found ← attempt <| query (at_ .findTrash) .db fun db =>
    .ok (Folder.Repository.findByType db accountID .trash)
  match found with
  | .ok trash => pure (deleteTarget trash src)
  | .error _ => pure (deleteTarget none src)

/-! ### Deleting and moving -/

def deleteRows (at_ : GroupStmt → Site) (ids : List Nat) : Prog Unit :=
  update (at_ .changeRows) .db (Message.Repository.deleteByIDs ids)

/-- Take a group's rows away and queue the change. -/
def removeGroup (at_ : GroupStmt → Site) (now : Time) (g : Group) (op : WbOp)
    (targetPath : Text) : Prog Unit := do
  deleteRows at_ g.ids
  refreshFolderCounts at_ g.folderID
  enqueueWritebackUIDs at_ now g.accountID g.folderID g.uids op targetPath

/-- The body of `batchDelete`'s loop. -/
def deleteGroup (now : Time) (n : Nat) (g : Group) : Prog Unit := do
  let at_ := Site.group n g.accountID g.folderID
  let src ← getFolder (at_ .getFolder) g.folderID
  let (op, target) ← deleteTargetFor at_ g.accountID src
  removeGroup at_ now g op target

def deleteMessage (now : Time) (messageID : Nat) : Prog Unit := do
  let m ← getMessage (.call 0 .getMessage) messageID
  deleteGroup now 0 ⟨m.accountID, m.folderID, [m]⟩

def moveMessage (now : Time) (messageID targetFolderID : Nat) : Prog Unit := do
  let m ← getMessage (.call 0 .getMessage) messageID
  let src ← getFolder (.call 0 .getFolder) m.folderID
  let dst ← getFolder (.call 0 .getTarget) targetFolderID
  if dst.accountID ≠ m.accountID then throw .crossAccountMove
  else if dst.id = src.id then pure ()
  else
    removeGroup (Site.group 0 m.accountID src.id) now ⟨m.accountID, src.id, [m]⟩ .move dst.path

def batchDelete (o : Order) (now : Time) (ids : List Nat) : Prog Unit := do
  let groups ← loadGrouped o 0 ids
  each (deleteGroup now 0) groups

def batchMove (o : Order) (now : Time) (ids : List Nat) (targetFolderID : Nat) : Prog Unit := do
  let dst ← getFolder (.call 0 .getTarget) targetFolderID
  let groups ← loadGrouped o 0 ids
  if groups.any fun g => g.accountID != dst.accountID then throw .crossAccountMove
  else
    each (fun g => removeGroup (Site.group 0 g.accountID g.folderID) now g .move dst.path)
      (groups.filter fun g => g.folderID != dst.id)

/-! ### Setting flags -/

/-- The two flags of a mail the user sets. -/
inductive MailFlag
  | seen
  | flagged
  deriving DecidableEq, Repr

def MailFlag.of (m : Message) : MailFlag → Bool
  | .seen => m.seen
  | .flagged => m.flagged

def MailFlag.put (on : Bool) (m : Message) : MailFlag → Message
  | .seen => { m with seen := on }
  | .flagged => { m with flagged := on }

def setFlagByIDs : MailFlag → List Nat → Bool → DB → DB
  | .seen => Message.Repository.setSeenByIDs
  | .flagged => Message.Repository.setFlaggedByIDs

/-- The verb that sets a flag. -/
def flagOp : MailFlag → Bool → WbOp
  | .seen, true => .read
  | .seen, false => .unread
  | .flagged, true => .star
  | .flagged, false => .unstar

/-- The body of `batchSetFlag`'s loop. -/
def setFlagGroup (now : Time) (n : Nat) (flag : MailFlag) (on : Bool) (g : Group) :
    Prog Unit := do
  let at_ := Site.group n g.accountID g.folderID
  update (at_ .changeRows) .db (setFlagByIDs flag g.ids on)
  match flag with
  | .seen => refreshUnreadCount at_ g.folderID
  | .flagged => pure ()
  enqueueWritebackUIDs at_ now g.accountID g.folderID g.uids (flagOp flag on) []

/-- Set a flag on the given rows and on all their label copies. -/
def batchSetFlag (o : Order) (now : Time) (n : Nat) (flag : MailFlag) (ids : List Nat)
    (on : Bool) : Prog Unit := do
  let ids ← if ids = [] then pure [] else
    query (.call n .withCopies) .db fun db => .ok (Message.Repository.copyIDs db ids)
  let groups ← loadGrouped o n ids
  each (setFlagGroup now n flag on) groups

def batchSetRead (o : Order) (now : Time) (n : Nat) (ids : List Nat) (read : Bool) : Prog Unit :=
  batchSetFlag o now n .seen ids read

def batchSetFlagged (o : Order) (now : Time) (ids : List Nat) (flagged : Bool) : Prog Unit :=
  batchSetFlag o now 0 .flagged ids flagged

def setRead (o : Order) (now : Time) (messageID : Nat) (read : Bool) : Prog Unit := do
  let _ ← getMessage (.call 0 .getMessage) messageID
  batchSetRead o now 0 [messageID] read

def setFlagged (o : Order) (now : Time) (messageID : Nat) (flagged : Bool) : Prog Unit := do
  let _ ← getMessage (.call 0 .getMessage) messageID
  batchSetFlagged o now [messageID] flagged

/-- How many mails one batch of "mark all as read" takes on. -/
def markFolderReadChunk : Nat := 500

/-- The batches of "mark all as read" from the `n`-th on, `start` mails being done. The
batches done stay done when one fails: the answer is how far it came, and the error. -/
def markChunks (o : Order) (now : Time) : Nat → Nat → List (List Nat) → Prog (Nat × Option Err)
  | _, start, [] => pure (start, none)
  | n, start, c :: rest => do
      let done ← attempt <| batchSetRead o now n c true
      match done with
      | .ok () => markChunks o now (n + 1) (start + c.length) rest
      | .error e => pure (start, some e)

def markFolderRead (o : Order) (now : Time) (folderID : Nat) : Prog (Nat × Option Err) := do
  let ids ← attempt <| query (.call 0 .unreadIDs) .db fun db =>
    .ok (Message.Repository.unreadIDsByFolder db folderID)
  match ids with
  | .ok ids => markChunks o now 0 0 (chunksOf markFolderReadChunk ids)
  | .error e => pure (0, some e)

/-! ### All of them -/

/-- A call of one of the operations. -/
inductive Call
  | deleteMessage (messageID : Nat)
  | moveMessage (messageID targetFolderID : Nat)
  | batchDelete (ids : List Nat)
  | batchMove (ids : List Nat) (targetFolderID : Nat)
  | batchSetRead (ids : List Nat) (read : Bool)
  | batchSetFlagged (ids : List Nat) (flagged : Bool)
  | setRead (messageID : Nat) (read : Bool)
  | setFlagged (messageID : Nat) (flagged : Bool)
  | markFolderRead (folderID : Nat)
  deriving DecidableEq, Repr

def Call.run (o : Order) (now : Time) : Call → Prog Unit
  | .deleteMessage id => Sync.deleteMessage now id
  | .moveMessage id target => Sync.moveMessage now id target
  | .batchDelete ids => Sync.batchDelete o now ids
  | .batchMove ids target => Sync.batchMove o now ids target
  | .batchSetRead ids read => Sync.batchSetRead o now 0 ids read
  | .batchSetFlagged ids flagged => Sync.batchSetFlagged o now ids flagged
  | .setRead id read => Sync.setRead o now id read
  | .setFlagged id flagged => Sync.setFlagged o now id flagged
  | .markFolderRead folderID => do
      let (_, failed) ← Sync.markFolderRead o now folderID
      match failed with
      | none => pure ()
      | some e => throw e

end FlyMail.Sync
