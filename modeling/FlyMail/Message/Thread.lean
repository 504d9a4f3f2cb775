/-
Conversations.

Mails of one conversation share a `thread_id`.  It is found twice.  While mail comes in,
`assignThreads` looks for each new mail at the rows its header names and at the rows
whose header names it, and joins the threads it finds.  On demand `rebuildThreads` reads
all rows of an account at once, joins them in a union-find by what their headers say,
and falls back on subjects for replies whose header says nothing.

Two functions of the platform are parameters: the truncated digest of a Message-ID, and
lower case.  A lock keeps the two ways apart, so a rebuild is one step.
-/
import FlyMail.Lib.UnionFind
import FlyMail.Message.Repository
import FlyMail.Store.Statements
import Mathlib.Data.List.Dedup
import Mathlib.Data.List.Sort

namespace FlyMail

/-- The errors of fetching and storing mail. -/
inductive Message.Err
  /-- The database refused a statement. -/
  | db
  /-- A command to the server failed. -/
  | imap
  | messageNotFound
  deriving DecidableEq, Repr

namespace Message

open Proc

/-- Where a mail is kept, written as `u` folder `-` UID. -/
def place (m : Message) : Text :=
  'u' :: (Text.formatUint m.folderID ++ '-' :: Text.formatUint m.uid.val)

/-- The thread a mail opens by itself: its account and the digest of its Message-ID, or
its place if it has none. -/
def threadKey (digest : Text → Text) (m : Message) : Text :=
  Text.formatUint m.accountID ++ ':' :: if m.messageID ≠ [] then digest m.messageID else place m

/-- The Message-IDs the header mentions, the mail's own among them. -/
def linkedIDs (m : Message) : List Text :=
  (((Text.fields m.references).reverse ++ [m.inReplyTo, m.messageID]).filter
    fun id => id != []).eraseDups

/-- Oldest first; rows of one date by their keys. -/
def byDate (rows : List Message) : List Message :=
  rows.insertionSort fun a b => a.date < b.date ∨ (a.date = b.date ∧ a.id ≤ b.id)

/-! ### As mail comes in -/

/-- The statements about one row. -/
inductive ThreadStmt
  | forward (id : Nat)
  | backward (id : Nat)
  | earliest (id : Nat)
  | merge (id : Nat)
  | setOwn (id : Nat)
  deriving DecidableEq, Repr

namespace Repository

/-- The rows of a folder with the given UIDs. -/
def getUIDChunk (db : DB) (folderID : Nat) (uids : List UID) : List Message :=
  db.messages.rows.filter fun m => m.folderID == folderID && uids.contains m.uid

/-- The threads, each once, of the account's other rows that satisfy `p`. -/
def threadsOf (db : DB) (m : Message) (p : Message → Bool) : List Text :=
  ((db.messages.rows.filter fun r =>
    r.accountID == m.accountID && p r && r.threadID != [] && r.id != m.id).map
      Message.threadID).dedup

/-- The thread of the oldest row in one of the threads. -/
def earliestThread (db : DB) (accountID : Nat) (threads : List Text) : Text :=
  match byDate (db.messages.rows.filter fun r =>
    r.accountID == accountID && threads.contains r.threadID) with
  | [] => []
  | r :: _ => r.threadID

def mergeThreads (accountID : Nat) (threads : List Text) (target : Text) (db : DB) : DB :=
  { db with
    messages := db.messages.modify
      (fun m => m.accountID == accountID && threads.contains m.threadID)
      (fun m => { m with threadID := target }) (fun _ => rfl) fun _ => rfl }

def setThread (id : Nat) (target : Text) (db : DB) : DB :=
  { db with
    messages := db.messages.modify (fun m => m.id == id)
      (fun m => { m with threadID := target }) (fun _ => rfl) fun _ => rfl }

theorem mergeThreads_rows {accountID : Nat} {threads : List Text} {target : Text} {db : DB} :
    (mergeThreads accountID threads target db).messages.rows = db.messages.rows.map fun m =>
      if m.accountID == accountID && threads.contains m.threadID then
        { m with threadID := target }
      else m := rfl

theorem setThread_rows {id : Nat} {target : Text} {db : DB} :
    (setThread id target db).messages.rows = db.messages.rows.map fun m =>
      if m.id == id then { m with threadID := target } else m := rfl

end Repository

section Assign

variable {ι σ : Type} [HasDB σ]

/-- The thread the row is to have, from the threads found for it. -/
def chooseThread (digest : Text → Text) (at_ : ThreadStmt → ι) (m : Message)
    (found : List Text) : Proc ι Err σ Text :=
  match found with
  | [] => pure (if m.threadID = [] then threadKey digest m else m.threadID)
  | [t] => pure t
  | t :: _ => do
      let earliest ← queryDB (at_ (.earliest m.id)) .db fun db =>
        Repository.earliestThread db m.accountID found
      pure (if earliest = [] then t else earliest)

/-- The threads that become `target`: the others that were found, and the row's own. -/
def toMerge (m : Message) (found : List Text) (target : Text) : List Text :=
  (found.filter fun t => t != target) ++
    if m.threadID ≠ [] ∧ m.threadID ≠ target then [m.threadID] else []

/-- The threads of the mails the header mentions. -/
def forwardThreads (at_ : ThreadStmt → ι) (m : Message) : Proc ι Err σ (List Text) :=
  if linkedIDs m = [] then pure []
  else
    queryDB (at_ (.forward m.id)) .db fun db =>
      Repository.threadsOf db m fun r => (linkedIDs m).contains r.messageID

/-- The threads of the mails that answer this one. -/
def backwardThreads (at_ : ThreadStmt → ι) (m : Message) : Proc ι Err σ (List Text) :=
  if m.messageID = [] then pure []
  else
    queryDB (at_ (.backward m.id)) .db fun db =>
      Repository.threadsOf db m fun r => r.inReplyTo == m.messageID

/-- Give the row its thread, and the threads found with it the same one. -/
def joinThreads (at_ : ThreadStmt → ι) (m : Message) (merge : List Text) (target : Text) :
    Proc ι Err σ Unit := do
  if merge = [] then pure ()
  else updateDB (at_ (.merge m.id)) .db (Repository.mergeThreads m.accountID merge target)
  if m.threadID = target then pure ()
  else updateDB (at_ (.setOwn m.id)) .db (Repository.setThread m.id target)

/-- The body of `assignThreads`' loop. `m` is the row as it was loaded. -/
def assignThread (digest : Text → Text) (at_ : ThreadStmt → ι) (m : Message) :
    Proc ι Err σ Unit := do
  let forward ← forwardThreads at_ m
  let backward ← backwardThreads at_ m
  let target ← chooseThread digest at_ m (forward ++ backward)
  joinThreads at_ m (toMerge m (forward ++ backward) target) target

/-- Find the threads of rows that were just stored, one row after another. -/
def assignThreads (digest : Text → Text) (at_ : ThreadStmt → ι) (rows : List Message) :
    Proc ι Err σ Unit :=
  each (assignThread digest at_) rows

end Assign

/-! ### Subjects -/

/-- What a subject starts with when it answers or forwards, in lower case. -/
def replyPrefixes : List Text :=
  ["re:", "fw:", "fwd:", "回复:", "回复：", "回覆:", "回覆：", "答复:", "答复：", "答復:",
    "答復：", "转发:", "转发：", "轉發:", "轉發："].map String.toList

/-- `Re[2]:` and the like, without the prefix. The colon is looked for by bytes, and the
rest starts one byte after it: behind a full-width colon it starts with two bytes that
are no character. -/
def stripCounted (lower : Char → Char) (s : Text) : Option Text :=
  let start := (s.map lower).take 2
  if Text.byteLen s > 3 ∧ (start = ['r', 'e'] ∨ start = ['f', 'w']) then
    let before := s.takeWhile fun c => c != ':' && c != '：'
    let i := Text.byteLen before
    match s.drop before.length with
    | c :: rest =>
        if 0 < i ∧ i < 8 ∧ (before.drop 2).all "[]()0123456789 ".toList.contains then
          some (Text.trimSpace
            (if c = '：' then '\uFFFD' :: '\uFFFD' :: rest else rest))
        else none
    | [] => none
  else none

/-- The subject without its first reply prefix, if it has one. -/
def stripReply (lower : Char → Char) (s : Text) : Option Text :=
  match replyPrefixes.find? fun p => p.isPrefixOf (s.map lower) with
  | some p => some (Text.trimSpace (s.drop p.length))
  | none => stripCounted lower s

/-- Strip prefixes while there are any. -/
def stripReplies (lower : Char → Char) : Nat → Text → Bool → Text × Bool
  | 0, s, had => (s, had)
  | n + 1, s, had =>
      match stripReply lower s with
      | some rest => stripReplies lower n rest true
      | none => (s, had)

/-- The bare subject in lower case, and whether there was a reply prefix. -/
def normalizeSubject (lower : Char → Char) (s : Text) : Text × Bool :=
  let s := Text.trimSpace s
  let (s, hadPrefix) := stripReplies lower s.length s false
  ((Text.join (Text.fields s) [' ']).map lower, hadPrefix)

/-! ### The rebuild -/

/-- The node of a row: its Message-ID, or its place if it has none. -/
def node (m : Message) : Text := if m.messageID ≠ [] then m.messageID else place m

/-- First pass: the links of the headers. -/
def linkHeaders (u : UnionFind Text) (m : Message) : UnionFind Text :=
  let u := (u.find (node m)).2
  let u := (Text.fields m.references).foldl (fun u id => u.union (node m) id) u
  if m.inReplyTo ≠ [] then u.union (node m) m.inReplyTo else u

/-- Seconds: ninety days. -/
def subjectFallbackWindow : Nat := 90 * 24 * 3600

/-- Where a bare subject was seen last. -/
abbrev BySubject := Text → Option (Text × Time)

/-- Second pass: a reply whose header names nothing joins the last mail of its subject. -/
def linkSubject (lower : Char → Char) (st : UnionFind Text × BySubject) (m : Message) :
    UnionFind Text × BySubject :=
  let (norm, hadPrefix) := normalizeSubject lower m.subject
  if norm = [] then st
  else
    let u :=
      if m.references = [] ∧ m.inReplyTo = [] ∧ hadPrefix = true then
        match st.2 norm with
        | some (prev, date) =>
            if m.date - date ≤ subjectFallbackWindow then st.1.union prev (node m) else st.1
        | none => st.1
      else st.1
    (u, Function.update st.2 norm (some (node m, m.date)))

/-- What the last pass has found: the thread of each class, and the rows to change. -/
structure Renaming where
  uf : UnionFind Text
  rootOf : Text → Option Text
  threads : Nat
  updates : List (Nat × Text)

/-- Last pass: a class has the thread of its oldest row. -/
def rename (digest : Text → Text) (st : Renaming) (m : Message) : Renaming :=
  let found := st.uf.find (node m)
  match st.rootOf found.1 with
  | some tid =>
      { st with
        uf := found.2
        updates := if m.threadID ≠ tid then st.updates ++ [(m.id, tid)] else st.updates }
  | none =>
      let tid := if m.threadID = [] then threadKey digest m else m.threadID
      { uf := found.2
        rootOf := Function.update st.rootOf found.1 (some tid)
        threads := st.threads + 1
        updates := if m.threadID ≠ tid then st.updates ++ [(m.id, tid)] else st.updates }

/-- The three passes over the account's rows, oldest first. -/
def renameAll (digest : Text → Text) (lower : Char → Char) (rows : List Message) : Renaming :=
  let u := rows.foldl linkHeaders .empty
  let u := (rows.foldl (linkSubject lower) (u, fun _ => none)).1
  rows.foldl (rename digest) ⟨u, fun _ => none, 0, []⟩

/-- Give the rows their new threads. Every row is named at most once, so it does not
matter how the changes are grouped. -/
def applyUpdates (updates : List (Nat × Text)) (db : DB) : DB :=
  updates.foldl (fun db p => Repository.setThread p.1 p.2 db) db

/-- Rebuild one account: how many threads it has, and the rows with their threads. -/
def rebuildAccountThreads (digest : Text → Text) (lower : Char → Char) (db : DB)
    (accountID : Nat) : Nat × DB :=
  let rows := byDate (db.messages.rows.filter fun m => m.accountID == accountID)
  let r := renameAll digest lower rows
  (r.threads, applyUpdates r.updates db)

def rebuildThreads (digest : Text → Text) (lower : Char → Char) (db : DB) : Nat × DB :=
  ((db.messages.rows.map Message.accountID).dedup).foldl (fun st accountID =>
    let r := rebuildAccountThreads digest lower st.2 accountID
    (st.1 + r.1, r.2)) (0, db)

end Message

end FlyMail
