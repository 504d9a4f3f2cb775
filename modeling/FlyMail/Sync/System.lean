/-
The user, the runners and the servers together.

A user's call changes the local rows and queues rows for the runners.  Each account has
one runner.  It executes queued rows one at a time, and it comes to them in two ways: by
the task submitted with each row, and by going through all rows that are due, which it
does at every poll and once after a restart.  Either way it works on a copy of the rows
it read when it began, and the outcome of every attempt is settled in the queue before
the next one.

Which of these things happens next is the label's choice, and so is how every exchange
with a server ends.  A refused task is gone from memory but its row stays queued.

The journal `moved` plays no part in what happens.  It records, for every mail a call
moves away, which mail that was and how the user had left it.
-/
import FlyMail.Lib.Run
import FlyMail.Sync.Plan

namespace FlyMail.Sync

/-- A task submitted to a runner. -/
inductive Task
  /-- `processWriteback`: execute one row, if it is still queued. -/
  | process (id : Nat)
  /-- `DrainWriteback`: execute the rows that are due. -/
  | drain
  deriving DecidableEq, Repr

/-- A runner: the tasks waiting for it, and the rows it has in hand. -/
structure Runner where
  tasks : List Task
  work : List WritebackOp
  deriving DecidableEq, Repr

/-- The runner's background queue takes this many tasks. -/
def taskCapacity : Nat := 64

/-- `submitBackground`: a task that finds the queue full is dropped. -/
def Runner.submit (r : Runner) (t : Task) : Runner :=
  if r.tasks.length < taskCapacity then { r with tasks := r.tasks ++ [t] } else r

/-- A mail a call moved away from its folder. -/
structure Moved where
  accountID : Nat
  /-- Where it was. -/
  folderPath : Text
  uid : UID
  /-- Where it is to go. -/
  target : Text
  /-- Which mail it is. -/
  serial : Nat
  seen : Bool
  flagged : Bool
  deriving DecidableEq, Repr

structure System where
  db : DB
  boxes : Nat → Imap.Boxes
  /-- The account's server has the `MOVE` extension. -/
  canMove : Nat → Bool
  runners : Nat → Runner
  now : Time
  moved : List Moved

/-- What can happen. -/
inductive Label
  | user (o : Order) (c : Call)
  | tick (seconds : Nat)
  /-- The account's runner polls: it goes through the rows that are due. -/
  | poll (accountID : Nat)
  /-- The account's runner takes its next task. -/
  | next (accountID : Nat)
  /-- The account's runner refuses its next task. -/
  | refuse (accountID : Nat)
  /-- The account's runner executes the next row it has in hand. -/
  | attempt (accountID : Nat) (x : Imap.Exchange)
  /-- The process is stopped and started again. -/
  | restart

/-- The rows the last call queued. -/
def newOps (db db' : DB) : List WritebackOp :=
  db'.ops.rows.filter fun o => decide (db.ops.last < o.id)

/-- The runners with a task for each of the rows. -/
def submitAll (runners : Nat → Runner) (ops : List WritebackOp) : Nat → Runner :=
  ops.foldl (fun rs o => Function.update rs o.accountID ((rs o.accountID).submit (.process o.id)))
    runners

/-- The journal entry of a row the call took away, if it moved it. -/
def movedEntry (s : System) (a : Action) (m : Message) : Option Moved :=
  match Folder.Repository.getByID s.db m.folderID with
  | none => none
  | some src =>
      match a.intended s.db m.accountID src with
      | (.move, target) =>
          ((s.boxes m.accountID src.path).mails.find? fun r => r.uid == m.uid.val).map fun r =>
            ⟨m.accountID, src.path, m.uid, target, r.serial, m.seen, m.flagged⟩
      | _ => none

/-- The journal entries of a call. -/
def movedBy (s : System) (a : Action) (db' : DB) : List Moved :=
  (s.db.messages.rows.filter fun m => (db'.messages.get? m.id).isNone).filterMap (movedEntry s a)

/-- The error text of a broken exchange. -/
def brokenText : Text := "connection lost".toList

/-- The rows a task has its runner execute. -/
def Task.rows (db : DB) (accountID : Nat) (now : Time) : Task → List WritebackOp
  | .process id => (WbStore.getByID db id).toList
  | .drain => WbStore.duePending db accountID now

/-- One attempt at the row `op`. -/
def System.attempt (s : System) (accountID : Nat) (op : WritebackOp) (rest : List WritebackOp)
    (x : Imap.Exchange) : System :=
  let failed : Option Text :=
    match x with
    | .ok => none
    | .broke _ _ => if opUIDs op = [] then none else some brokenText
  { s with
    db := settle op failed s.now s.db
    boxes := Function.update s.boxes accountID
      (Imap.runCommands op.folderPath (applyWriteback (s.canMove accountID) op) x
        (s.boxes accountID))
    runners := Function.update s.runners accountID
      { s.runners accountID with work := rest } }

/-- The system's step function. -/
def System.step (s : System) : Label → Option System
  | .user o c =>
      let db' := (c.run o s.now (.faulty fun _ => .none) s.db).2
      some { s with
        db := db'
        runners := submitAll s.runners (newOps s.db db')
        moved := s.moved ++ movedBy s (c.action s.db) db' }
  | .tick seconds => some { s with now := s.now + seconds }
  | .poll accountID =>
      let r := s.runners accountID
      if r.work = [] then
        some { s with
          runners := Function.update s.runners accountID
            { r with work := WbStore.duePending s.db accountID s.now } }
      else none
  | .next accountID =>
      let r := s.runners accountID
      match r.work, r.tasks with
      | [], t :: rest =>
          some { s with
            runners := Function.update s.runners accountID ⟨rest, t.rows s.db accountID s.now⟩ }
      | _, _ => none
  | .refuse accountID =>
      let r := s.runners accountID
      match r.work, r.tasks with
      | [], _ :: rest =>
          some { s with runners := Function.update s.runners accountID { r with tasks := rest } }
      | _, _ => none
  | .attempt accountID x =>
      match (s.runners accountID).work with
      | op :: rest => some (s.attempt accountID op rest x)
      | [] => none
  | .restart =>
      some { s with
        runners := fun accountID =>
          ⟨if WbStore.pendingByAccount s.db accountID = [] then [] else [.drain], []⟩ }

/-! ### What a run may be asked to keep to -/

/-- The row `op` would be given up by another failure. -/
def atLimit (db : DB) (op : WritebackOp) : Bool :=
  match WbStore.getByID db op.id with
  | some row => decide (row.attempts + 1 ≥ WbStore.maxWritebackAttempts)
  | none => false

/-- No row is given up. -/
def noGiveUp (s : System) : Label → Bool
  | .attempt accountID (.broke _ _) =>
      match (s.runners accountID).work with
      | op :: _ => !atLimit s.db op
      | [] => true
  | _ => true

/-! ### What is on its way to a mail -/

/-- Where a mail is on a server. -/
structure Place where
  accountID : Nat
  path : Text
  uid : Nat
  deriving DecidableEq, Repr

/-- Where the server has the mail of a row of the folder `src`. -/
def placeOf (m : Message) (src : Folder) : Place := ⟨m.accountID, src.path, m.uid.val⟩

/-- The row is about the mail at this place. -/
def Place.coveredBy (p : Place) (o : WritebackOp) : Bool :=
  o.accountID == p.accountID && o.folderPath == p.path && (opUIDs o).contains p.uid

/-- What the verb sets the flag to. -/
def WbOp.value (op : WbOp) : MailFlag → Option Bool
  | .seen =>
      match op with
      | .read => some true
      | .unread => some false
      | _ => none
  | .flagged =>
      match op with
      | .star => some true
      | .unstar => some false
      | _ => none

/-- What is queued for the flag of the mail at `p`, oldest first. -/
def pendingFlag (ops : List WritebackOp) (p : Place) (flag : MailFlag) : List Bool :=
  ops.filterMap fun o => if p.coveredBy o then WbOp.value o.op flag else none

end FlyMail.Sync
