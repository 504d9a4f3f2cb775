/-
Fetching a folder's mail.

A folder is fetched in batches of UIDs, and every batch is stored before the next one is
asked for.  After the first time only what is new is fetched: the batches start at the
UID the server announced last time, so a mail below that anchor is never looked at
again.  What is new is told to the caller as a number of rows and the largest key there
was before.

What a server answers is a `Session`.  UIDs and counts are 32-bit numbers, and where the
source's arithmetic on them can wrap, so does the one here.
-/
import FlyMail.Message.Thread

namespace FlyMail

/-- A mail as it is fetched without its body. -/
structure ParsedEmail where
  messageID : Text
  uid : UID
  inReplyTo : Text
  references : Text
  subject : Text
  sender : List Address
  toList : List Address
  ccList : List Address
  date : Time
  size : Int
  flags : List Text
  isRead : Bool
  isStarred : Bool
  deriving DecidableEq, Repr

/-- What `SELECT` says; `0` stands for nothing said. -/
structure SelectedFolder where
  numMessages : Nat
  uidValidity : Nat
  uidNext : Nat
  deriving DecidableEq, Repr

/-- A folder as `LIST` names it. -/
structure FolderInfo where
  name : Text
  path : Text
  delimiter : Text
  attributes : List Text
  deriving DecidableEq, Repr

/-- What a server answers. A range from `n` to `0` is the range from `n` to the last. -/
structure Session where
  listFolders : List FolderInfo
  selectFolder : Text → SelectedFolder
  statusUIDValidity : Text → Option Nat
  statusUIDNext : Text → Option Nat
  fetchByUIDRange : Text → Nat → Nat → List ParsedEmail
  fetchBySeqRange : Text → Nat → Nat → List ParsedEmail

/-- A number as 32 bits hold it. -/
def u32 (n : Nat) : Nat := n % 2 ^ 32

namespace Message

open Proc

def defaultSyncDepth : Nat := 1000

/-- How many mails one fetch asks for. -/
def fetchBatchSize : Nat := 200

/-- The row of a fetched mail, without the columns that are filled in later. -/
def toMessage (accountID folderID : Nat) (e : ParsedEmail) : Message :=
  { Message.bare 0 accountID folderID e.uid with
    messageID := e.messageID
    inReplyTo := e.inReplyTo
    references := e.references
    subject := e.subject
    fromName := (e.sender.head?.map Address.name).getD []
    fromAddr := (e.sender.head?.map Address.email).getD []
    toList := e.toList
    ccList := e.ccList
    date := e.date
    size := e.size
    seen := e.isRead
    flagged := e.isStarred
    answered := e.flags.contains "\\Answered".toList
    deleted := e.flags.contains "\\Deleted".toList }

/-! ### Statements -/

/-- The statements about one batch. -/
inductive BatchStmt
  | fetch
  /-- Store the `n`-th mail of the batch. -/
  | upsert (n : Nat)
  | load (chunk : Nat)
  | thread (s : ThreadStmt)
  deriving DecidableEq, Repr

/-- The statements of fetching one folder. -/
inductive SyncStmt
  | select
  | statusUIDValidity
  | deleteByFolder
  | countBefore
  | maxIDBefore
  | statusUIDNext
  | maxUIDBefore
  /-- `start` is the first number the batch asks for. -/
  | batch (start : Nat) (s : BatchStmt)
  | countAfter
  | unreadAfter
  | countUnseen
  | unseen
  | maxUIDAfter
  /-- A statement of the full import after a change of UIDVALIDITY. -/
  | full (s : SyncStmt)
  deriving DecidableEq, Repr

section Service

variable {ι σ : Type} [HasDB σ]

/-- A command and its answer. -/
def ask {α : Type} (i : ι) (answer : α) : Proc ι Err σ α := query i .imap fun _ => .ok answer

/-- A row that must be there. -/
def getRow (i : ι) (f : DB → Option Message) : Proc ι Err σ Message :=
  query i .db fun s =>
    match f (db s) with
    | some m => .ok m
    | none => .error .messageNotFound

/-- What `SELECT` said or, where it said nothing, what `STATUS` says. -/
def reported (i : ι) (selected : Nat) (status : Option Nat) : Proc ι Err σ Nat :=
  if selected = 0 then withDefault (ask i (status.getD 0)) 0 else pure selected

/-! ### Storing batches -/

/-- The rows with the given UIDs, one statement a chunk. -/
def loadChunks (at_ : BatchStmt → ι) (folderID : Nat) :
    Nat → List (List UID) → Proc ι Err σ (List Message)
  | _, [] => pure []
  | i, c :: rest => do
      let rows ← queryDB (at_ (.load i)) .db fun db => Repository.getUIDChunk db folderID c
      let more ← loadChunks at_ folderID (i + 1) rest
      pure (rows ++ more)

def loadByFolderUIDs (at_ : BatchStmt → ι) (folderID : Nat) (uids : List UID) :
    Proc ι Err σ (List Message) :=
  loadChunks at_ folderID 0 (chunksOf Repository.uidChunk uids)

/-- Store mails one after another, the first being the `n`-th. -/
def upsertAll (at_ : BatchStmt → ι) (accountID folderID : Nat) :
    Nat → List ParsedEmail → Proc ι Err σ Unit
  | _, [] => pure ()
  | n, e :: rest => do
      updateDB (at_ (.upsert n)) .db (Repository.upsert (toMessage accountID folderID e))
      upsertAll at_ accountID folderID (n + 1) rest

/-- Store a batch, then find its threads. -/
def upsertBatch (digest : Text → Text) (at_ : BatchStmt → ι) (accountID folderID : Nat)
    (emails : List ParsedEmail) : Proc ι Err σ Unit :=
  if emails = [] then pure ()
  else do
    upsertAll at_ accountID folderID 0 emails
    let rows ← loadByFolderUIDs at_ folderID (emails.map ParsedEmail.uid)
    assignThreads digest (fun s => at_ (.thread s)) rows

/-- The batches of a range, which ends at `last`. -/
def batches : Nat → Nat → Nat → List (Nat × Nat)
  | 0, _, _ => []
  | n + 1, start, last =>
      if start ≤ last then
        let next := u32 (start + fetchBatchSize - 1)
        let batchEnd := if next > last ∨ next < start then last else next
        (start, batchEnd) ::
          if batchEnd = last then [] else batches n (u32 (batchEnd + 1)) last
      else []

/-- Fetch a range batch by batch and store each. -/
def fetchBatched (digest : Text → Text) (at_ : SyncStmt → ι) (accountID folderID : Nat)
    (fetch : Nat → Nat → List ParsedEmail) (start last : Nat) : Proc ι Err σ Unit :=
  each (fun b => do
    let emails ← ask (at_ (.batch b.1 .fetch)) (fetch b.1 b.2)
    upsertBatch digest (fun s => at_ (.batch b.1 s)) accountID folderID emails)
    (batches (last + 1 - start) start last)

def fetchRangeBatched (digest : Text → Text) (at_ : SyncStmt → ι) (c : Session)
    (accountID folderID : Nat) (path : Text) (start last : Nat) : Proc ι Err σ Unit :=
  fetchBatched digest at_ accountID folderID (c.fetchByUIDRange path) start last

def fetchSeqRangeBatched (digest : Text → Text) (at_ : SyncStmt → ι) (c : Session)
    (accountID folderID : Nat) (path : Text) (start last : Nat) : Proc ι Err σ Unit :=
  fetchBatched digest at_ accountID folderID (c.fetchBySeqRange path) start last

/-! ### Fetching a folder -/

/-- What is to be stored of a folder once it is fetched. -/
structure FolderState where
  uidValidity : Nat
  uidNext : Nat
  total : Nat
  unread : Nat
  deriving DecidableEq, Repr

/-- What a round brought. -/
structure NewMail where
  count : Nat
  /-- The folder was never synchronised before, or all of it was imported again. -/
  baseline : Bool
  /-- The largest key in the folder before the round. -/
  afterID : Nat
  unseen : List Message
  unseenTotal : Nat
  deriving DecidableEq, Repr

def newMailUnseenCap : Nat := 3

/-- Count the folder, and name the anchor for the next round. A server that does not say
which UID comes next is taken to give out the one after the largest stored. -/
def folderState (at_ : SyncStmt → ι) (folderID uidValidity uidNext : Nat) (total unread : Nat) :
    Proc ι Err σ FolderState :=
  if uidNext = 0 then do
    let maxUID ← withDefault
      (queryDB (at_ .maxUIDAfter) .db fun db => Repository.maxUID db folderID) 0
    pure ⟨uidValidity, u32 (maxUID + 1), total, unread⟩
  else pure ⟨uidValidity, uidNext, total, unread⟩

/-- The import of the last `syncDepth` mails. -/
def importRecent (digest : Text → Text) (syncDepth : Nat) (at_ : SyncStmt → ι) (c : Session)
    (accountID folderID : Nat) (path : Text) (numMessages uidNext : Nat) : Proc ι Err σ Unit :=
  if numMessages = 0 then pure ()
  else if uidNext > 0 then
    fetchRangeBatched digest at_ c accountID folderID path
      (if uidNext > syncDepth then uidNext - syncDepth else 1) (uidNext - 1)
  else
    fetchSeqRangeBatched digest at_ c accountID folderID path
      (if numMessages > syncDepth then numMessages - syncDepth + 1 else 1) numMessages

/-- Fetch the last `syncDepth` mails of a folder. The answer says whether it was emptied
before. -/
def syncFolderMessages (digest : Text → Text) (syncDepth : Nat) (at_ : SyncStmt → ι)
    (c : Session) (accountID folderID : Nat) (path : Text) (prevUIDValidity : Nat) :
    Proc ι Err σ (FolderState × Bool) := do
  let sel ← ask (at_ .select) (c.selectFolder path)
  let uidValidity ← reported (at_ .statusUIDValidity) sel.uidValidity (c.statusUIDValidity path)
  let rebuilt := prevUIDValidity != 0 && uidValidity != 0 && uidValidity != prevUIDValidity
  if rebuilt then updateDB (at_ .deleteByFolder) .db (Repository.deleteByFolder folderID)
  else pure ()
  let uidNext ← reported (at_ .statusUIDNext) sel.uidNext (c.statusUIDNext path)
  importRecent digest syncDepth at_ c accountID folderID path sel.numMessages uidNext
  let total ← withDefault
    (queryDB (at_ .countAfter) .db fun db => Repository.countByFolder db folderID) 0
  let unread ← withDefault
    (queryDB (at_ .unreadAfter) .db fun db => Repository.unreadCountByFolder db folderID) 0
  let state ← folderState at_ folderID uidValidity uidNext total unread
  pure (state, rebuilt)

/-- Where fetching starts: the stored anchor, or behind the largest UID stored. -/
def anchorFor (at_ : SyncStmt → ι) (folderID prevUIDNext : Nat) : Proc ι Err σ Nat :=
  if prevUIDNext = 0 then do
    let maxUID ← withDefault
      (queryDB (at_ .maxUIDBefore) .db fun db => Repository.maxUID db folderID) 0
    pure (if maxUID > 0 then u32 (maxUID + 1) else 1)
  else pure prevUIDNext

/-- Fetch what is new. Without a UIDNEXT the range is open, and an empty folder is
fetched by sequence numbers. -/
def fetchNew (digest : Text → Text) (syncDepth : Nat) (at_ : SyncStmt → ι) (c : Session)
    (accountID folderID : Nat) (path : Text) (prevUIDNext numMessages uidNext : Nat) :
    Proc ι Err σ Unit :=
  if uidNext > 0 then do
    let anchor ← anchorFor at_ folderID prevUIDNext
    if uidNext > anchor then
      fetchRangeBatched digest at_ c accountID folderID path anchor (uidNext - 1)
    else pure ()
  else do
    let maxUID ← withDefault
      (queryDB (at_ .maxUIDBefore) .db fun db => Repository.maxUID db folderID) 0
    if maxUID > 0 then do
      let start := u32 (maxUID + 1)
      let emails ← ask (at_ (.batch start .fetch)) (c.fetchByUIDRange path start 0)
      upsertBatch digest (fun s => at_ (.batch start s)) accountID folderID emails
    else
      importRecent digest syncDepth at_ c accountID folderID path numMessages 0

/-- What a round brought, from the counts before and after it. -/
def newMail (at_ : SyncStmt → ι) (folderID prevUIDNext before afterID total : Nat) :
    Proc ι Err σ NewMail := do
  let nm : NewMail := ⟨total - before, before == 0 && prevUIDNext == 0, afterID, [], 0⟩
  if nm.baseline ∨ nm.count = 0 then pure nm
  else do
    let unseenTotal ← withDefault
      (queryDB (at_ .countUnseen) .db fun db => Repository.countUnseenAfterID db folderID afterID) 0
    if unseenTotal = 0 then pure nm
    else do
      let unseen ← withDefault (queryDB (at_ .unseen) .db fun db =>
        Repository.unseenAfterID db folderID afterID newMailUnseenCap) []
      pure { nm with unseen := unseen, unseenTotal := unseenTotal }

/-- Fetch what came into a folder since the last round. A changed UIDVALIDITY empties the
folder and imports it again. -/
def incrementalSync (digest : Text → Text) (syncDepth : Nat) (at_ : SyncStmt → ι) (c : Session)
    (accountID folderID : Nat) (path : Text) (prevUIDValidity prevUIDNext : Nat) :
    Proc ι Err σ (FolderState × NewMail) := do
  let sel ← ask (at_ .select) (c.selectFolder path)
  let uidValidity ← reported (at_ .statusUIDValidity) sel.uidValidity (c.statusUIDValidity path)
  if prevUIDValidity ≠ 0 ∧ uidValidity ≠ 0 ∧ uidValidity ≠ prevUIDValidity then do
    updateDB (at_ .deleteByFolder) .db (Repository.deleteByFolder folderID)
    let (state, _) ← syncFolderMessages digest syncDepth (fun s => at_ (.full s)) c accountID
      folderID path 0
    pure (state, ⟨state.total, true, 0, [], 0⟩)
  else do
    let before ← withDefault
      (queryDB (at_ .countBefore) .db fun db => Repository.countByFolder db folderID) 0
    let afterID ← withDefault
      (queryDB (at_ .maxIDBefore) .db fun db => Repository.maxIDByFolder db folderID) 0
    let uidNext ← reported (at_ .statusUIDNext) sel.uidNext (c.statusUIDNext path)
    fetchNew digest syncDepth at_ c accountID folderID path prevUIDNext sel.numMessages uidNext
    let total ← withDefault
      (queryDB (at_ .countAfter) .db fun db => Repository.countByFolder db folderID) 0
    let unread ← withDefault
      (queryDB (at_ .unreadAfter) .db fun db => Repository.unreadCountByFolder db folderID) 0
    let nm ← newMail at_ folderID prevUIDNext before afterID total
    let state ← folderState at_ folderID uidValidity uidNext total unread
    pure (state, nm)

/-- Store a mail the server's own search found, and find its thread. Its body, which may
come with it, is not kept here. -/
def storeFetched (digest : Text → Text) (at_ : BatchStmt → ι) (accountID folderID : Nat)
    (e : ParsedEmail) : Proc ι Err σ Message := do
  updateDB (at_ (.upsert 0)) .db (Repository.upsert (toMessage accountID folderID e))
  let m ← getRow (at_ (.load 0)) fun db => Repository.getByFolderUID db folderID e.uid
  assignThreads digest (fun s => at_ (.thread s)) [m]
  pure m

end Service

/-! ### A range is covered by its batches -/

theorem mem_batches {n start last : Nat} (hlast : last < 2 ^ 32) (hn : last + 1 - start ≤ n)
    {uid : Nat} (hlo : start ≤ uid) (hhi : uid ≤ last) :
    ∃ b ∈ batches n start last, b.1 ≤ uid ∧ uid ≤ b.2 := by
  induction n generalizing start with
  | zero => omega
  | succ n ih =>
      unfold batches
      rw [if_pos (by omega)]
      dsimp only
      by_cases hcut : u32 (start + fetchBatchSize - 1) > last ∨
          u32 (start + fetchBatchSize - 1) < start
      · exact ⟨(start, last), by simp [if_pos hcut], hlo, hhi⟩
      · rw [if_neg hcut]
        have hnext : u32 (start + fetchBatchSize - 1) = start + 199 := by
          unfold u32 fetchBatchSize at hcut ⊢
          omega
        rw [hnext] at hcut ⊢
        by_cases hin : uid ≤ start + 199
        · exact ⟨(start, start + 199), by simp, hlo, hin⟩
        · have hne : start + 199 ≠ last := by omega
          have hwrap : u32 (start + 199 + 1) = start + 200 := by
            unfold u32
            omega
          obtain ⟨b, hb, hlo', hhi'⟩ := @ih (start + 200) (by omega) (by omega)
          refine ⟨b, ?_, hlo', hhi'⟩
          rw [if_neg hne, hwrap]
          exact List.mem_cons_of_mem _ hb

/-- No batch reaches beyond its range. -/
theorem batch_within {n start last : Nat} (hlast : last < 2 ^ 32) {b : Nat × Nat}
    (hb : b ∈ batches n start last) : start ≤ b.1 ∧ b.1 ≤ b.2 ∧ b.2 ≤ last := by
  induction n generalizing start with
  | zero => simp [batches] at hb
  | succ n ih =>
      unfold batches at hb
      by_cases hle : start ≤ last
      · rw [if_pos hle] at hb
        dsimp only at hb
        by_cases hcut : u32 (start + fetchBatchSize - 1) > last ∨
            u32 (start + fetchBatchSize - 1) < start
        · rw [if_pos hcut, if_pos rfl, List.mem_singleton] at hb
          subst hb
          exact ⟨Nat.le_refl _, hle, Nat.le_refl _⟩
        · rw [if_neg hcut] at hb
          rcases List.mem_cons.mp hb with rfl | hb
          · exact ⟨Nat.le_refl _, by omega, by omega⟩
          · by_cases hend : u32 (start + fetchBatchSize - 1) = last
            · rw [if_pos hend] at hb
              exact absurd hb List.not_mem_nil
            · rw [if_neg hend] at hb
              have hwrap : start ≤ u32 (u32 (start + fetchBatchSize - 1) + 1) := by
                unfold u32 at hcut hend ⊢
                omega
              obtain ⟨h1, h2, h3⟩ := ih hb
              exact ⟨Nat.le_trans hwrap h1, h2, h3⟩
      · rw [if_neg hle] at hb
        exact absurd hb List.not_mem_nil

end Message

end FlyMail
