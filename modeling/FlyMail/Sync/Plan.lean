/-
What a call sets out to do, worked out before it starts.

A call of a mail operation is a list of items: statements that change nothing and end
the call where they fail, refusals the call finds itself, and groups whose rows are
changed and whose change is queued.  The list depends on the database the call starts
from and on nothing the call does, although the call itself works it out as it goes.

With the list in hand, the faults decide item by item: whether the rows of a group are
changed, which row of the queue is stored for it, and whether the call stops there.
-/
import FlyMail.Sync.MailOps

namespace FlyMail.Sync

/-- What is done to a group. -/
inductive Action
  | delete
  | move (targetPath : Text)
  | set (flag : MailFlag) (on : Bool)
  deriving DecidableEq, Repr

/-- One item of a plan. -/
inductive Item
  /-- A statement that changes nothing. -/
  | gate (site : Site)
  /-- An error the call finds itself. -/
  | refuse (e : Err)
  | group (n : Nat) (g : Group)
  deriving DecidableEq, Repr

/-- The rows of the item's group. -/
def Item.ids : Item → List Nat
  | .group _ g => g.ids
  | _ => []

/-! ### The plan of a call -/

/-- The rows found under the given keys. -/
def rowsOf (db : DB) (ids : List Nat) : List Message :=
  (chunksOf Message.Repository.uidChunk ids).flatMap (Message.Repository.getChunk db)

/-- The statements that load some rows, the number `i` of the first one given. -/
def loadGates (n : Nat) : Nat → List (List Nat) → List Item
  | _, [] => []
  | i, _ :: rest => .gate (.call n (.getByIDs i)) :: loadGates n (i + 1) rest

/-- The loading of some rows, and what is to be done with them. -/
def planBatch (o : Order) (db : DB) (n : Nat) (ids : List Nat) : List Item :=
  loadGates n 0 (chunksOf Message.Repository.uidChunk ids) ++
    (o.groups n (rowsOf db ids)).map (Item.group n)

/-- Setting a flag, on the rows given and their copies. -/
def planSet (o : Order) (db : DB) (n : Nat) (ids : List Nat) : List Item :=
  if ids = [] then []
  else .gate (.call n .withCopies) :: planBatch o db n (Message.Repository.copyIDs db ids)

def planChunks (o : Order) (db : DB) : Nat → List (List Nat) → List Item
  | _, [] => []
  | n, c :: rest => planSet o db n c ++ planChunks o db (n + 1) rest

def planMessage (db : DB) (id : Nat) (k : Message → List Item) : List Item :=
  .gate (.call 0 .getMessage) ::
    match Message.Repository.getByID db id with
    | none => [.refuse .messageNotFound]
    | some m => k m

def planFolder (db : DB) (s : CallStmt) (id : Nat) (k : Folder → List Item) : List Item :=
  .gate (.call 0 s) ::
    match Folder.Repository.getByID db id with
    | none => [.refuse .folderNotFound]
    | some f => k f

def Call.plan (o : Order) (db : DB) : Call → List Item
  | .deleteMessage id => planMessage db id fun m => [.group 0 ⟨m.accountID, m.folderID, [m]⟩]
  | .moveMessage id target =>
      planMessage db id fun m => planFolder db .getFolder m.folderID fun src =>
        planFolder db .getTarget target fun dst =>
          if dst.accountID ≠ m.accountID then [.refuse .crossAccountMove]
          else if dst.id = src.id then []
          else [.group 0 ⟨m.accountID, src.id, [m]⟩]
  | .batchDelete ids => planBatch o db 0 ids
  | .batchMove ids target =>
      planFolder db .getTarget target fun dst =>
        let groups := o.groups 0 (rowsOf db ids)
        loadGates 0 0 (chunksOf Message.Repository.uidChunk ids) ++
          if groups.any fun g => g.accountID != dst.accountID then [.refuse .crossAccountMove]
          else (groups.filter fun g => g.folderID != dst.id).map (Item.group 0)
  | .batchSetRead ids _ => planSet o db 0 ids
  | .batchSetFlagged ids _ => planSet o db 0 ids
  | .setRead id _ => planMessage db id fun _ => planSet o db 0 [id]
  | .setFlagged id _ => planMessage db id fun _ => planSet o db 0 [id]
  | .markFolderRead folderID =>
      .gate (.call 0 .unreadIDs) ::
        planChunks o db 0
          (chunksOf markFolderReadChunk (Message.Repository.unreadIDsByFolder db folderID))

/-- What the call does to every group of its plan. -/
def Call.action (db : DB) : Call → Action
  | .deleteMessage _ => .delete
  | .batchDelete _ => .delete
  | .moveMessage _ target =>
      .move (((Folder.Repository.getByID db target).map Folder.path).getD [])
  | .batchMove _ target =>
      .move (((Folder.Repository.getByID db target).map Folder.path).getD [])
  | .batchSetRead _ read => .set .seen read
  | .setRead _ read => .set .seen read
  | .markFolderRead _ => .set .seen true
  | .batchSetFlagged _ flagged => .set .flagged flagged
  | .setFlagged _ flagged => .set .flagged flagged

/-- The verb and destination the server should be sent for the rows of `src`. -/
def Action.intended (a : Action) (db : DB) (accountID : Nat) (src : Folder) : WbOp × Text :=
  match a with
  | .delete => deleteTarget (Folder.Repository.findByType db accountID .trash) src
  | .move target => (.move, target)
  | .set flag on => (flagOp flag on, [])

/-- The change of the group's rows. -/
def Action.change (a : Action) (ids : List Nat) (db : DB) : DB :=
  match a with
  | .set flag on => setFlagByIDs flag ids on db
  | _ => Message.Repository.deleteByIDs ids db

/-- The program an item stands for. -/
def Item.prog (now : Time) (a : Action) : Item → Prog Unit
  | .gate site => Proc.query site .db fun _ => .ok ()
  | .refuse e => Proc.throw e
  | .group n g =>
      match a with
      | .delete => deleteGroup now n g
      | .move target =>
          removeGroup (Site.group n g.accountID g.folderID) now g .move target
      | .set flag on => setFlagGroup now n flag on g

/-! ### What becomes of an item under given faults -/

variable (φ : Site → Fault) (db : DB)

/-- The verb and destination a group is queued with. -/
def verb (a : Action) (n : Nat) (g : Group) (src : Folder) : WbOp × Text :=
  match a with
  | .delete =>
      if φ (.group n g.accountID g.folderID .findTrash) = .none then
        deleteTarget (Folder.Repository.findByType db g.accountID .trash) src
      else deleteTarget none src
  | .move target => (.move, target)
  | .set flag on => (flagOp flag on, [])

/-- The folder row of a group. -/
def Group.src (g : Group) : Option Folder := Folder.Repository.getByID db g.folderID

/-- The statements in front of the change get through. -/
def opens (a : Action) (n : Nat) (g : Group) : Bool :=
  let at_ := Site.group n g.accountID g.folderID
  match a with
  | .delete => φ (at_ .getFolder) == .none && (g.src db).isSome && φ (at_ .findTrash) != .crash
  | .move _ => true
  | .set _ _ => true

/-- The process lives through `refreshFolderCounts`. -/
def survivesCounts (at_ : GroupStmt → Site) : Bool :=
  φ (at_ .countTotal) != .crash && φ (at_ .countUnread) != .crash &&
    !(φ (at_ .countTotal) == .none && φ (at_ .countUnread) == .none &&
      φ (at_ .setCounts) == .crash)

/-- The process lives through `refreshUnreadCount`. -/
def survivesUnread (at_ : GroupStmt → Site) : Bool :=
  φ (at_ .countUnread) != .crash &&
    !(φ (at_ .countUnread) == .none && φ (at_ .setCounts) == .crash)

/-- The process does not die while the folder's mails are counted again. -/
def survives (a : Action) (at_ : GroupStmt → Site) : Bool :=
  match a with
  | .set .flagged _ => true
  | .set .seen _ => survivesUnread φ at_
  | _ => survivesCounts φ at_

/-- The rows of the item's group are changed. -/
def Item.changes (a : Action) : Item → Bool
  | .group n g =>
      opens φ db a n g && φ (.group n g.accountID g.folderID .changeRows) == .none
  | _ => false

/-- The row the queue gains from `enqueueWritebackUIDs`. -/
def stored (at_ : GroupStmt → Site) (accountID folderID : Nat) (uids : List UID) (op : WbOp)
    (target : Text) : Option WritebackOp :=
  if φ (at_ .queueFolder) = .none ∧ φ (at_ .createOp) = .none then
    (Folder.Repository.getByID db folderID).map fun f => newOp accountID f uids op target
  else none

/-- The process dies in `enqueueWritebackUIDs`. -/
def diesQueueing (at_ : GroupStmt → Site) (folderID : Nat) : Bool :=
  φ (at_ .queueFolder) == .crash ||
    (φ (at_ .queueFolder) == .none && (Folder.Repository.getByID db folderID).isSome &&
      φ (at_ .createOp) == .crash)

/-- The row that is stored for the item's group. -/
def Item.stores (a : Action) : Item → Option WritebackOp
  | .group n g =>
      let at_ := Site.group n g.accountID g.folderID
      if Item.changes φ db a (.group n g) ∧ survives φ a at_ then
        (g.src db).bind fun src =>
          let v := verb φ db a n g src
          stored φ db at_ g.accountID g.folderID g.uids v.1 v.2
      else none
  | _ => none

/-- The call ends at this item. -/
def Item.stops (a : Action) : Item → Bool
  | .gate site => φ site != .none
  | .refuse _ => true
  | .group n g =>
      let at_ := Site.group n g.accountID g.folderID
      !Item.changes φ db a (.group n g) || !survives φ a at_ || diesQueueing φ db at_ g.folderID

/-- The items the call comes to. -/
def reached (a : Action) : List Item → List Item
  | [] => []
  | i :: rest => if i.stops φ db a then [i] else i :: reached a rest

end FlyMail.Sync
