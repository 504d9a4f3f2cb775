/-
The progress of an account's synchronisation.

There is one record of progress for an account, and every change of it is published as a
whole.  A full synchronisation writes it step by step: it begins a new record, counts folders,
names the one it is in, is done, and then counts the bodies it fetches of older mails.  A poll
lets foreground tasks in between two folders, and one of them can be a full synchronisation
the user asked for, which writes the same record.  So does the request itself, from outside of
the runner, when it is made and when it has failed.

`startedAt` is the number of the record, in the order in which records were begun.  `log` is
what was published; nothing depends on it.
-/
import FlyMail.Lib.Chunks
import FlyMail.Sse.Hub
import FlyMail.Store

namespace FlyMail.Sync.Progress

inductive Phase
  | queued
  | folders
  | messages
  | done
  | error
  deriving DecidableEq, Repr

structure Status where
  phase : Phase
  error : Text
  startedAt : Nat
  foldersTotal : Nat
  foldersDone : Nat
  bodiesTotal : Nat
  bodiesDone : Nat
  currentFolder : Text
  currentFolderType : Option FolderType
  deriving DecidableEq, Repr

/-- No snapshot of the round but those of bodies is to come. -/
def Status.terminal (st : Status) : Bool := st.phase == .done || st.phase == .error

/-! ### The store -/

structure Store where
  status : Option Status
  /-- How many records were begun. -/
  begun : Nat
  log : List Status
  deriving DecidableEq, Repr

namespace Store

def begin (phase : Phase) (s : Store) : Store :=
  let st : Status := ⟨phase, [], s.begun + 1, 0, 0, 0, 0, [], none⟩
  ⟨some st, s.begun + 1, s.log ++ [st]⟩

def mutate (f : Status → Status) (s : Store) : Store :=
  match s.status with
  | none => s
  | some st => { s with status := some (f st), log := s.log ++ [f st] }

def markPhase (p : Phase) : Store → Store := mutate fun st => { st with phase := p }

def beginFolders (total : Nat) : Store → Store := mutate fun st =>
  { st with foldersTotal := total, foldersDone := 0, currentFolder := [], currentFolderType := none }

def enterFolder (name : Text) (type : FolderType) : Store → Store := mutate fun st =>
  { st with currentFolder := name, currentFolderType := some type }

def finishFolder : Store → Store := mutate fun st => { st with foldersDone := st.foldersDone + 1 }

def markDone : Store → Store := mutate fun st =>
  { st with phase := .done, currentFolder := [], currentFolderType := none }

def beginBodies (total : Nat) : Store → Store := mutate fun st =>
  { st with bodiesTotal := total, bodiesDone := 0 }

def advanceBodies (done : Nat) : Store → Store := mutate fun st => { st with bodiesDone := done }

def endBodies : Store → Store := mutate fun st => { st with bodiesTotal := 0, bodiesDone := 0 }

def fail (err : Text) : Store → Store := mutate fun st =>
  { st with phase := .error, error := err, currentFolder := [], currentFolderType := none }

end Store

/-- Publish a snapshot: those that others take the place of may be dropped. -/
def publishStatus {α : Type} (frame : Status → α) (order : List Nat) (st : Status) : Sse.Hub.Act α :=
  if st.terminal then .publish (frame st) order else .publishProgress (frame st) order

/-! ### A full synchronisation -/

def folderDisplayName (f : Folder) : Text := if f.displayName ≠ [] then f.displayName else f.path

def bodyFetchBatch : Nat := 20

/-- What the server answers to the batches of a folder, up to the first that fails: UIDs, and
whether the body could be stored. -/
def answers (answer : Nat → Option (List (Nat × Bool))) : Nat → List (List Nat) → List (Nat × Bool)
  | _, [] => []
  | n, _ :: rest =>
      match answer n with
      | none => []
      | some emails => emails ++ answers answer (n + 1) rest

/-- How many bodies of the mails with these UIDs are fetched and stored. -/
def fetchBodies (uids : List Nat) (answered : List (Nat × Bool)) : Nat :=
  answered.countP fun e => uids.contains e.1 && e.2

/-- How the first error is kept. -/
def firstErr (a : Option Text) (err : Text) : Option Text := some (a.getD err)

/-- Where a full synchronisation stands. -/
inductive Round
  /-- In the loop of `triggeredFullSync`, refused a slot. -/
  | waiting
  /-- The record is begun; the folders are fetched. -/
  | listing
  | counting (fs : List Folder)
  /-- In front of the next folder. -/
  | next (rest : List Folder) (attempted failed : Nat) (err : Option Text)
  | inside (rest : List Folder) (attempted failed : Nat) (err : Option Text)
  /-- Behind a folder: `yield`. -/
  | boundary (rest : List Folder) (attempted failed : Nat) (err : Option Text)
  | synced
  /-- The mails are there; older bodies may be fetched, too. -/
  | prefetch
  /-- In front of the next folder with bodies to fetch, given by their UIDs. -/
  | bodies (rest : List (List Nat)) (fetched : Nat)
  | bodiesBoundary (rest : List (List Nat)) (fetched : Nat)
  | over (err : Option Text)
  deriving DecidableEq, Repr

/-- How what comes next ends. -/
inductive Luck
  | ok
  | failed (err : Text)
  /-- The folders that can be selected. -/
  | listed (fs : List Folder)
  /-- Mails without a body, by folder. -/
  | pending (groups : List (List Nat))
  /-- The answers to the batches of a folder. -/
  | fetched (answer : Nat → Option (List (Nat × Bool)))

/-- The next step of a full synchronisation, and what it writes. -/
def Round.step : Round → Luck → Option (Round × (Store → Store))
  | .listing, .failed err => some (.over (some err), .fail err)
  | .listing, .listed fs => some (.counting fs, .markPhase .messages)
  | .counting fs, .ok => some (.next fs 0 0 none, .beginFolders fs.length)
  | .next (f :: rest) attempted failed err, .ok =>
      some (.inside rest (attempted + 1) failed err, .enterFolder (folderDisplayName f) f.type)
  | .next [] attempted failed err, .ok =>
      if attempted > 0 ∧ failed = attempted then
        some (.over (some (err.getD [])), .fail (err.getD []))
      else some (.synced, id)
  | .inside rest attempted failed err, .ok =>
      some (.boundary rest attempted failed err, .finishFolder)
  | .inside rest attempted failed err, .failed e =>
      some (.boundary rest attempted (failed + 1) (firstErr err e), .finishFolder)
  | .boundary rest attempted failed err, .ok => some (.next rest attempted failed err, id)
  | .synced, .ok => some (.prefetch, .markDone)
  | .prefetch, .ok => some (.over none, id)
  | .prefetch, .pending groups =>
      if groups.flatten = [] then none
      else some (.bodies groups 0, .beginBodies groups.flatten.length)
  | .bodies (_ :: rest) fetched, .failed _ => some (.bodies rest fetched, id)
  | .bodies (uids :: rest) fetched, .fetched answer =>
      let n := fetched + fetchBodies uids (answers answer 0 (chunksOf bodyFetchBatch uids))
      some (.bodiesBoundary rest n, .advanceBodies n)
  | .bodies [] _, .ok => some (.over none, .endBodies)
  | .bodiesBoundary rest fetched, .ok => some (.bodies rest fetched, id)
  | _, _ => none

/-- A poll lets foreground tasks in. -/
def Round.yields : Round → Bool
  | .boundary _ _ _ _ | .bodiesBoundary _ _ => true
  | _ => false

/-! ### An account's runner, and the user -/

/-- What has become of the synchronisation the user asked for. -/
inductive Trigger
  | idle
  | requested
  /-- The runner has taken it up. -/
  | running
  /-- It has failed, and `runTrigger` has not said so yet. -/
  | failing (err : Text)
  deriving DecidableEq, Repr

structure System where
  store : Store
  /-- The poll under way. -/
  poll : Option Round
  /-- The synchronisation the user asked for, as the runner carries it out. -/
  task : Option Round
  trigger : Trigger

def System.new : System := ⟨⟨none, 0, []⟩, none, none, .idle⟩

/-- What can happen. -/
inductive Act
  | trigger
  /-- A poll finds a slot. -/
  | poll
  /-- The runner takes the task up, which finds a slot or not. -/
  | take (slot : Bool)
  | retry (slot : Bool)
  /-- The runner has no session for the task. -/
  | taskFails (err : Text)
  | pollGoes (l : Luck)
  | taskGoes (l : Luck)
  /-- `runTrigger` says that the synchronisation has failed. -/
  | report
  /-- The runner is shut down, and nobody waits for the task any longer. -/
  | abandon

/-- The runner can take a foreground task up. -/
def System.free (s : System) : Bool :=
  s.task.isNone && (s.poll.map Round.yields).getD true

/-- `FullSync` for a task: it begins, or waits for a slot. -/
def System.start (s : System) (slot : Bool) : System :=
  if slot then { s with store := s.store.begin .folders, task := some .listing, trigger := .running }
  else { s with store := s.store.markPhase .queued, task := some .waiting, trigger := .running }

/-- A synchronisation that is not over. -/
def Round.underWay : Round → Option Round
  | .over _ => none
  | r => some r

/-- The request, once the runner's task stands at `r`. -/
def Trigger.answer (t : Trigger) (r : Round) : Trigger :=
  match t, r with
  | .running, .over none => .idle
  | .running, .over (some err) => .failing err
  | t, _ => t

def step (s : System) : Act → Option System
  | .trigger =>
      if s.trigger = .idle then
        some { s with store := s.store.begin .queued, trigger := .requested }
      else none
  | .poll =>
      if s.poll.isNone && s.task.isNone then
        some { s with store := s.store.begin .folders, poll := some .listing }
      else none
  | .take slot => if s.trigger = .requested ∧ s.free then some (s.start slot) else none
  | .retry slot =>
      if s.task = some .waiting then
        some { s.start slot with trigger := s.trigger }
      else none
  | .taskFails err =>
      if s.trigger = .requested ∧ s.free then some { s with trigger := .failing err } else none
  | .pollGoes l =>
      if s.task.isNone then
        match s.poll with
        | none => none
        | some r =>
            (r.step l).map fun out => { s with store := out.2 s.store, poll := out.1.underWay }
      else none
  | .taskGoes l =>
      match s.task with
      | none => none
      | some r =>
          (r.step l).map fun out =>
            { s with
              store := out.2 s.store
              task := out.1.underWay
              trigger := s.trigger.answer out.1 }
  | .report =>
      match s.trigger with
      | .failing err => some { s with store := s.store.fail err, trigger := .idle }
      | _ => none
  | .abandon =>
      match s.trigger with
      | .requested | .running => some { s with trigger := .idle }
      | _ => none

end FlyMail.Sync.Progress
