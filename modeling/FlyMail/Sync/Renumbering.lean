/-
Mailboxes that are made anew, and what a queued row then names.

A server may make a mailbox anew.  It gets a larger UIDVALIDITY then, and its UIDs, which
start over, name other mails.  A queued row names mails by UID and nothing else, and whoever
executes it selects the mailbox and sends the UIDs.

The system of the user, the runners and the servers is extended by what happens to mailboxes
from elsewhere and by the rounds that bring mail.  What the rules make of new mail are calls
like the user's and are among these.

Two records play no part in what happens.  `shows` says of every mail row which mail it was
stored for, and `journal` says of every queued row which rows the call acted on, and how the
mailbox stood then.
-/
import FlyMail.Imap.Server
import FlyMail.Sync.System

namespace FlyMail

namespace Imap

/-- No UID of the mailbox names two mails, and none has still to be handed out. -/
structure Mailbox.Numbered (b : Mailbox) : Prop where
  old : ∀ m ∈ b.mails, m.uid < b.uidNext
  uids : (b.mails.map Mail.uid).Nodup

instance (b : Mailbox) : Decidable b.Numbered :=
  decidable_of_iff ((∀ m ∈ b.mails, m.uid < b.uidNext) ∧ (b.mails.map Mail.uid).Nodup)
    ⟨fun h => ⟨h.1, h.2⟩, fun h => ⟨h.old, h.uids⟩⟩

/-- `b'` is `b` some time later: what an old UID still names is the mail it named. -/
structure Mailbox.Continues (b b' : Mailbox) : Prop where
  next : b.uidNext ≤ b'.uidNext
  same : ∀ m ∈ b'.mails, m.uid < b.uidNext → ∃ m₀ ∈ b.mails, m₀.uid = m.uid ∧ m₀.serial = m.serial

instance (b b' : Mailbox) : Decidable (b.Continues b') :=
  decidable_of_iff (b.uidNext ≤ b'.uidNext ∧ ∀ m ∈ b'.mails, m.uid < b.uidNext →
      ∃ m₀ ∈ b.mails, m₀.uid = m.uid ∧ m₀.serial = m.serial)
    ⟨fun h => ⟨h.1, h.2⟩, fun h => ⟨h.next, h.same⟩⟩

/-- The mail the UID names. -/
def Mailbox.serialOf (b : Mailbox) (uid : Nat) : Option Nat :=
  (b.mails.find? fun m => m.uid == uid).map Mail.serial

end Imap

namespace Sync

/-- A row a call acted on. -/
structure Acted where
  uid : Nat
  /-- The mail the row was stored for. -/
  shown : Option Nat
  /-- The mail the server had under the UID. -/
  held : Option Nat
  deriving DecidableEq, Repr

/-- How things stood when a row was queued. -/
structure Queued where
  /-- The mailbox's UIDVALIDITY. -/
  uidValidity : Nat
  /-- The UIDVALIDITY in the folder's row. -/
  known : Nat
  acted : List Acted
  deriving DecidableEq, Repr

/-- The application and the servers over time. -/
structure Timeline where
  app : System
  uidValidity : Nat → Text → Nat
  bodies : Bodies
  seen : Notify.Seen
  shows : Nat → Option Nat
  journal : Nat → Option Queued

inductive Turn
  | app (l : Label)
  /-- Mail comes into a mailbox, or another client changes it. -/
  | others (accountID : Nat) (path : Text) (box : Imap.Mailbox)
  /-- The mailbox is made anew. -/
  | renumber (accountID : Nat) (path : Text) (uidValidity : Nat) (box : Imap.Mailbox)
  /-- The folders of an account are listed. -/
  | folders (accountID : Nat) (infos : List FolderInfo) (fault : Folder.ListStmt → Fault)
  /-- A round of a folder. -/
  | round (folderID : Nat) (tellsNext : Bool) (bodies : Text → List Nat → List FetchedEmail)
      (fault : FolderStmt Empty → Fault)

namespace Timeline

/-- The mailbox behind a queued row. -/
def box (w : Timeline) (o : WritebackOp) : Imap.Mailbox := w.app.boxes o.accountID o.folderPath

/-- The row of the folder with the path. -/
def folderAt (db : DB) (accountID : Nat) (path : Text) : Option Folder :=
  db.folders.rows.find? fun f => f.accountID == accountID && f.path == path

/-- How things stand for a row that is queued now. -/
def queued (w : Timeline) (o : WritebackOp) : Queued :=
  let src := folderAt w.app.db o.accountID o.folderPath
  let rows := w.app.db.messages.rows.filter fun m =>
    (src.map Folder.id == some m.folderID) && (opUIDs o).contains m.uid.val
  { uidValidity := w.uidValidity o.accountID o.folderPath
    known := (src.map Folder.uidValidity).getD 0
    acted := rows.map fun m => ⟨m.uid.val, w.shows m.id, (w.box o).serialOf m.uid.val⟩ }

/-- The journal with entries for the rows that a call queued. -/
def record (w : Timeline) (ops : List WritebackOp) : Nat → Option Queued := fun id =>
  match ops.find? fun o => o.id == id with
  | some o => some (w.queued o)
  | none => w.journal id

/-- What the rows behind the last key of before were stored for. -/
def showing (w : Timeline) (box : Imap.Mailbox) (db : DB) : Nat → Option Nat := fun id =>
  if id ≤ w.app.db.messages.last then w.shows id
  else (Message.Repository.getByID db id).bind fun m => box.serialOf m.uid.val

/-- The session with an account's server. -/
def session (w : Timeline) (accountID : Nat) (tellsNext : Bool) (infos : List FolderInfo)
    (bodies : Text → List Nat → List FetchedEmail) : FullSession :=
  Imap.serve (w.app.boxes accountID) (w.uidValidity accountID) tellsNext infos bodies

/-- The mailbox with another content. -/
def setBox (w : Timeline) (accountID : Nat) (path : Text) (box : Imap.Mailbox) : Timeline :=
  { w with
    app := { w.app with
      boxes := Function.update w.app.boxes accountID
        (Function.update (w.app.boxes accountID) path box) } }

/-- A round of the folder, without the rules. -/
def afterRound (m : Manager Empty Unit) (w : Timeline) (f : Folder) (tellsNext : Bool)
    (bodies : Text → List Nat → List FetchedEmail) (fault : FolderStmt Empty → Fault) : Timeline :=
  let c := w.session f.accountID tellsNext [] bodies
  let s : State Unit := ⟨w.app.db, w.bodies, w.seen, [], [], ()⟩
  let t := ({ m with rules := none }.syncFolder f c w.app.now (.faulty fault) s).2
  { w with
    app := { w.app with db := t.db }
    bodies := t.bodies
    seen := t.seen
    shows := w.showing (w.app.boxes f.accountID f.path) t.db }

def step (m : Manager Empty Unit) (w : Timeline) : Turn → Option Timeline
  | .app l =>
      (w.app.step l).map fun app =>
        { w with
          app := app
          journal := w.record (newOps w.app.db app.db) }
  | .others accountID path box =>
      if (w.app.boxes accountID path).Continues box ∧ box.Numbered then
        some (w.setBox accountID path box)
      else none
  | .renumber accountID path uidValidity box =>
      if w.uidValidity accountID path < uidValidity ∧ box.Numbered then
        some { w.setBox accountID path box with
          uidValidity := Function.update w.uidValidity accountID
            (Function.update (w.uidValidity accountID) path uidValidity) }
      else none
  | .folders accountID infos fault =>
      let c := (w.session accountID true infos fun _ _ => []).toSession
      some { w with
        app := { w.app with
          db := (Folder.syncFolders m.classifyFolder id accountID c (.faulty fault) w.app.db).2 } }
  | .round folderID tellsNext bodies fault =>
      (Folder.Repository.getByID w.app.db folderID).map fun f => afterRound m w f tellsNext bodies fault

/-! ### What a run may be asked to keep to -/

/-- No mailbox is made anew while the folder's first import is under way. -/
def settled (w : Timeline) : Turn → Bool
  | .renumber accountID path _ _ =>
      match folderAt w.app.db accountID path with
      | some f => f.uidValidity != 0 || w.app.db.messages.rows.all fun m => m.folderID != f.id
      | none => true
  | _ => true

/-- The mailbox has the UIDVALIDITY it had when the row was queued, and the folder's row did not
hold another one then. -/
def current (w : Timeline) (o : WritebackOp) : Bool :=
  match w.journal o.id with
  | some q =>
      q.uidValidity == w.uidValidity o.accountID o.folderPath &&
        (q.known == 0 || q.known == q.uidValidity)
  | none => false

/-! ### What executing a row may do -/

/-- The call acted on a row of the mail, and the server had the mail under the row's UID. -/
def ActedOn (w : Timeline) (o : WritebackOp) (uid serial : Nat) : Prop :=
  ∃ q, w.journal o.id = some q ∧ ∃ a ∈ q.acted, a.uid = uid ∧ a.shown = some serial ∧ a.held = some serial

/-- The row's UIDs name the mails they named when it was queued, and whatever comes of executing it,
no other mail is changed. A mail marked as deleted goes with any `EXPUNGE`. -/
structure Unmistaken (w : Timeline) (o : WritebackOp) : Prop where
  names : ∀ r ∈ (w.box o).mails, r.uid ∈ opUIDs o → w.ActedOn o r.uid r.serial
  spares : ∀ (canMove : Bool) (x : Imap.Exchange) (path : Text),
    ∀ r ∈ (w.app.boxes o.accountID path).mails, r.deleted = false → (∀ uid, ¬ w.ActedOn o uid r.serial) →
      r ∈ (Imap.runCommands o.folderPath (applyWriteback canMove o) x (w.app.boxes o.accountID) path).mails

/-- Nothing is stored or queued yet. -/
structure Start (w : Timeline) : Prop where
  db : w.app.db = .empty
  idle : ∀ accountID, w.app.runners accountID = ⟨[], []⟩
  numbered : ∀ accountID path, (w.app.boxes accountID path).Numbered
  said : ∀ accountID path, 0 < w.uidValidity accountID path

end Timeline

end Sync

end FlyMail
