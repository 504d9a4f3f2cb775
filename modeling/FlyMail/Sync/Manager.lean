/-
A round of a folder, from the server's answers to the notice.

`syncFolder` fetches what is new, then the bodies of the new mails, hands the new mails to
the rules page by page, and in the end announces what is still new and unread.  What is new
is told by a key, the largest in the folder before the round, and only if the folder has more
rows than before.

The rules are an interface here, as they are in the source.  What a round hands to them and
what it announces is written down in `events`; that list plays no part in what happens.
-/
import FlyMail.Folder.Service
import FlyMail.Message.Body
import FlyMail.Sync.Notify

namespace FlyMail

/-- A session that sends single mails with their bodies, too. -/
structure FullSession extends Session where
  fetchByUIDs : Text → List Nat → List FetchedEmail

namespace Sync

open Proc FlyMail.Message

/-- What leaves a round. -/
inductive Event
  /-- A page of new mails is handed to the rules. -/
  | rules (page : List FlyMail.Message)
  /-- What a round brought is announced. -/
  | notify (nm : NewMail)
  deriving DecidableEq, Repr

/-- What the manager works on. `ρ` is what the rules keep for themselves. -/
structure State (ρ : Type) where
  db : DB
  bodies : Bodies
  seen : Notify.Seen
  notices : List Notify.Notice
  events : List Event
  rules : ρ

variable {κ ρ : Type}

instance : HasDB (State ρ) := ⟨State.db, fun s d => { s with db := d }, fun _ _ => rfl⟩

instance : HasBodies (State ρ) where
  bodies := State.bodies
  setBodies := fun s b => { s with bodies := b }
  db_setBodies := fun _ _ => rfl
  bodies_setBodies := fun _ _ => rfl
  bodies_setDB := fun _ _ => rfl

@[simp] theorem State.db_eq (s : State ρ) : HasDB.db s = s.db := rfl

/-- The rules, as the manager sees them. -/
structure RuleRunner (κ ρ : Type) where
  /-- Apply the rules to new mails of an inbox. The answer says whether any mail changed. -/
  apply : Nat → Folder → List FlyMail.Message → Proc κ Message.Err (State ρ) Bool
  /-- The keys of those mails some rule acted on before. -/
  handled : Nat → List FlyMail.Message → Proc κ Message.Err (State ρ) (List Nat)

/-- The statements of a round of a folder. -/
inductive FolderStmt (κ : Type)
  | sync (s : SyncStmt)
  | pendingBodies
  | selectBodies
  | fetchBodies (batch : Nat)
  | body (messageID : Nat) (s : BodyStmt)
  | listPage (page : Nat)
  | apply (page : Nat) (s : κ)
  | countTotal
  | countUnread
  | countUnseen
  | unseen
  | listNew
  | handled (s : κ)
  | updateSyncState
  | snippet (messageID : Nat)
  deriving DecidableEq, Repr

abbrev FolderProg (κ ρ α : Type) := Proc (FolderStmt κ) Message.Err (State ρ) α

/-! ### Bodies -/

/-- How many bodies one fetch asks for. -/
def bodyFetchBatch : Nat := 20

/-- How many bodies of new mails a round fetches. -/
def bodyPrefetchNewCap : Nat := 50

def bodyPrefetchFolder (type : FolderType) : Bool := type == .inbox || type == .custom

/-- The row a fetched mail belongs to. -/
def idByUID (msgs : List FlyMail.Message) (uid : UID) : Option Nat :=
  (msgs.find? fun m => m.uid == uid).map FlyMail.Message.id

/-- Store a body; an error is only logged. -/
def storeBody (digest : Text → Text) (msgs : List FlyMail.Message) (e : FetchedEmail) :
    FolderProg κ ρ Unit :=
  match idByUID msgs e.uid with
  | none => pure ()
  | some messageID =>
      withDefault (storeParsedBody digest (FolderStmt.body messageID) messageID e) ()

/-- Fetch bodies batch by batch, from the `n`-th batch on. -/
def fetchBatches (digest : Text → Text) (c : FullSession) (path : Text)
    (msgs : List FlyMail.Message) : Nat → List (List Nat) → FolderProg κ ρ Unit
  | _, [] => pure ()
  | n, uids :: rest => do
      let emails ← ask (.fetchBodies n) (c.fetchByUIDs path uids)
      each (storeBody digest msgs) emails
      fetchBatches digest c path msgs (n + 1) rest

/-- Fetch the bodies of some mails of a folder. What goes wrong is only logged, and ends it. -/
def fetchBodies (digest : Text → Text) (c : FullSession) (path : Text)
    (msgs : List FlyMail.Message) : FolderProg κ ρ Unit :=
  withDefault (do
    let _ ← ask .selectBodies (c.selectFolder path)
    fetchBatches digest c path msgs 0
      (chunksOf bodyFetchBatch (msgs.map fun m => m.uid.val))) ()

/-- Fetch the bodies of what a round brought. -/
def prefetchNewBodies (digest : Text → Text) (f : Folder) (nm : NewMail) (c : FullSession) :
    FolderProg κ ρ Unit :=
  if nm.baseline ∨ nm.count = 0 ∨ bodyPrefetchFolder f.type = false then pure ()
  else do
    let msgs ← withDefault (queryDB .pendingBodies .db fun db =>
      Repository.pendingBodiesAfterID db f.id nm.afterID bodyPrefetchNewCap) []
    if msgs = [] then pure () else fetchBodies digest c f.path msgs

/-! ### Rules -/

/-- How many mails are handed to the rules at a time. -/
def ruleBatchCap : Nat := 500

/-- Write down what leaves the round. -/
def record (e : Event) : FolderProg κ ρ Unit := fun _ s => (.ok (), { s with events := s.events ++ [e] })

/-- Hand the mails behind a key to the rules, page by page. The answer says whether any mail
changed, and with which error it ended. A page ends behind a larger key than the one before,
so there are fewer pages than keys, and `fuel` is their number. -/
def runRules (r : RuleRunner κ ρ) (f : Folder) :
    Nat → Nat → Nat → Bool → FolderProg κ ρ (Bool × Option Message.Err)
  | 0, _, _, changed => pure (changed, none)
  | fuel + 1, page, afterID, changed => do
      let rows ← attempt (queryDB (.listPage page) .db fun db =>
        Repository.listAfterID db f.id afterID ruleBatchCap)
      match rows with
      | .error e => pure (changed, some e)
      | .ok rows =>
          match rows.getLast? with
          | none => pure (changed, none)
          | some last => do
              record (.rules rows)
              let c ← attempt (relabel (FolderStmt.apply page) (r.apply f.accountID f rows))
              match c with
              | .error e => pure (changed, some e)
              | .ok c =>
                  if rows.length < ruleBatchCap then pure (changed || c, none)
                  else runRules r f fuel (page + 1) last.id (changed || c)

/-- Count and load again what is new and unread. -/
def refreshNewMail (f : Folder) (nm : NewMail) : FolderProg κ ρ NewMail := do
  let unseenTotal ← withDefault (queryDB .countUnseen .db fun db =>
    Repository.countUnseenAfterID db f.id nm.afterID) 0
  if unseenTotal = 0 then pure { nm with unseen := [], unseenTotal := 0 }
  else do
    let unseen ← withDefault (queryDB .unseen .db fun db =>
      Repository.unseenAfterID db f.id nm.afterID newMailUnseenCap) []
    pure { nm with unseen := unseen, unseenTotal := unseenTotal }

/-- Take mails some rule acted on before out of what is announced. -/
def suppressHandled (r : RuleRunner κ ρ) (f : Folder) (nm : NewMail) : FolderProg κ ρ NewMail :=
  if nm.unseenTotal = 0 then pure nm
  else do
    let rows ← withDefault (queryDB .listNew .db fun db =>
      Repository.listAfterID db f.id nm.afterID ruleBatchCap) []
    if rows = [] then pure nm
    else do
      let handled ← relabel FolderStmt.handled (withDefault (r.handled f.accountID rows) [])
      if handled = [] then pure nm
      else
        let drop := rows.countP fun m => handled.contains m.id && !m.seen
        pure { nm with
          unseen := nm.unseen.filter fun u => !handled.contains u.id
          unseenTotal := nm.unseenTotal - drop }

/-- The mails of the inbox go through the rules, and what they changed is counted again. -/
def inboxRules (r : RuleRunner κ ρ) (f : Folder) (state : FolderState) (nm : NewMail) :
    FolderProg κ ρ (FolderState × NewMail) := do
  let fuel ← (fun _ s => (.ok (s.db.messages.last + 1), s) : FolderProg κ ρ Nat)
  let (changed, _) ← runRules r f fuel 0 nm.afterID false
  if changed then do
    let total ← withDefault (queryDB .countTotal .db fun db =>
      Repository.countByFolder db f.id) state.total
    let unread ← withDefault (queryDB .countUnread .db fun db =>
      Repository.unreadCountByFolder db f.id) state.unread
    let nm ← refreshNewMail f nm
    pure ({ state with total := total, unread := unread }, nm)
  else pure (state, nm)

/-- What the rules make of a round that is no baseline and brought something. -/
def applyRules (rules : Option (RuleRunner κ ρ)) (f : Folder) (state : FolderState)
    (nm : NewMail) : FolderProg κ ρ (FolderState × NewMail) :=
  match rules with
  | none => pure (state, nm)
  | some r =>
      if nm.baseline ∨ nm.count = 0 then pure (state, nm)
      else if f.type = .inbox then inboxRules r f state nm
      else if f.type = .custom then do
        let nm ← suppressHandled r f nm
        pure (state, nm)
      else pure (state, nm)

/-! ### A round -/

/-- The manager, with what was set up for it. -/
structure Manager (κ ρ : Type) where
  digest : Text → Text
  syncDepth : Nat
  classifyFolder : Text → Text → List Text → FolderType
  rules : Option (RuleRunner κ ρ)

/-- The line of its body a mail is announced with. -/
def snippetOf (fault : FolderStmt κ → Fault) (db : DB) (messageID : Nat) : Text :=
  if messageID = 0 ∨ fault (.snippet messageID) ≠ .none then []
  else ((Repository.getByID db messageID).map FlyMail.Message.snippet).getD []

/-- Announce what a round brought. -/
def announceNew (f : Folder) (nm : NewMail) (now : Time) : FolderProg κ ρ Unit := fun env s =>
  let told := Notify.notifyNewMail f.accountID f.type nm now (snippetOf env.fault s.db) s.seen
  (.ok (), { s with
    seen := told.1
    notices := s.notices ++ told.2
    events := s.events ++ if told.2 = [] then [] else [.notify nm] })

/-- The first part of a round: what is new, and its bodies. -/
def Manager.fetchFolder (m : Manager κ ρ) (f : Folder) (c : FullSession) :
    FolderProg κ ρ (FolderState × NewMail) := do
  let (state, nm) ← incrementalSync m.digest m.syncDepth FolderStmt.sync c.toSession f.accountID
    f.id f.path f.uidValidity f.uidNext
  prefetchNewBodies m.digest f nm c
  pure (state, nm)

/-- A round of the folder `f`. -/
def Manager.syncFolder (m : Manager κ ρ) (f : Folder) (c : FullSession) (now : Time) :
    FolderProg κ ρ Unit := do
  let (state, nm) ← m.fetchFolder f c
  let (state, nm) ← applyRules m.rules f state nm
  withDefault (updateDB .updateSyncState .db (Folder.Repository.updateSyncState f.id
    state.uidValidity state.uidNext state.total state.unread now)) ()
  announceNew f nm now

/-! ### A round of all folders -/

/-- The statements of a full round. -/
inductive FullStmt (κ : Type)
  | folders (s : Folder.ListStmt)
  | folder (folderID : Nat) (s : FolderStmt κ)
  deriving DecidableEq, Repr

/-- The rounds of the folders one after another, and how many of them failed. -/
def Manager.syncEach (m : Manager κ ρ) (c : FullSession) (now : Time) :
    List Folder → Proc (FullStmt κ) Message.Err (State ρ) (Nat × Option Message.Err)
  | [] => pure (0, none)
  | f :: rest => do
      let out ← attempt (relabel (FullStmt.folder f.id) (m.syncFolder f c now))
      let (failed, firstErr) ← m.syncEach c now rest
      match out with
      | .ok () => pure (failed, firstErr)
      | .error e => pure (failed + 1, some e)

/-- A round of all folders of an account. It fails if every folder's round does. -/
def Manager.fullSyncMessages (m : Manager κ ρ) (accountID : Nat) (c : FullSession) (now : Time) :
    Proc (FullStmt κ) Message.Err (State ρ) Unit := do
  Folder.syncFolders m.classifyFolder FullStmt.folders accountID c.toSession
  let fs ← Folder.list FullStmt.folders accountID
  let selectable := fs.filter Folder.selectable
  let (failed, firstErr) ← m.syncEach c now selectable
  match firstErr with
  | some e => if failed = selectable.length then throw e else pure ()
  | none => pure ()

end Sync

end FlyMail
