/-
Lists of mail, and of conversations.

A list has a scope: a folder, a view of all accounts, or a search, each with a filter.  Views and
searches show one mail once, though a server may keep copies of it in several folders: of the
copies `dedupeSameMessage` keeps the first, whichever of them are in the scope.

A list is read page by page, the latest first.  Dates are compared as the texts the database
keeps; the cursor of a page is such a text once more, and comes back as a moment.

Lower case is a parameter, and so is what the full-text index matches.
-/
import FlyMail.Account.Model
import FlyMail.Lib.Calendar
import FlyMail.Message.Repository
import Mathlib.Data.List.Dedup
import Mathlib.Data.List.Infix
import Mathlib.Data.List.Sort

namespace FlyMail.Message

/-! ### Scopes -/

structure Filter where
  seen : Option Bool
  flagged : Option Bool
  hasAttachment : Option Bool
  deriving DecidableEq, Repr

def Filter.apply (f : Filter) (rows : List Message) : List Message :=
  rows.filter fun m =>
    f.seen.all (· == m.seen) && f.flagged.all (· == m.flagged) &&
      f.hasAttachment.all (· == m.hasAttachment)

/-- What a search asks for. -/
structure Query where
  /-- The expression for the full-text index; empty if there is no text to search for. -/
  matchExpr : Text
  hasAttachment : Option Bool
  seen : Option Bool
  flagged : Option Bool
  before : Option Time
  after : Option Time
  folder : Text
  account : Text
  deriving DecidableEq, Repr

def Query.hasStructured (q : Query) : Bool :=
  q.hasAttachment.isSome || q.seen.isSome || q.flagged.isSome || q.before.isSome ||
    q.after.isSome || q.folder != [] || q.account != []

def Query.empty (q : Query) : Bool := q.matchExpr == [] && !q.hasStructured

/-- What lists are read from. -/
structure Source where
  db : DB
  accounts : List Account
  /-- The rows an expression matches. -/
  ftsMatch : Text → List Nat
  lower : Char → Char

/-- `t LIKE '%s%'`, where nothing in `s` is a wildcard. -/
def like (s t : Text) : Bool := decide (s.map Char.toLower <:+: t.map Char.toLower)

/-- The text of a folder type in the database. -/
def typeText : FolderType → Text
  | .unknown => "unknown".toList
  | .inbox => "inbox".toList
  | .sent => "sent".toList
  | .drafts => "drafts".toList
  | .trash => "trash".toList
  | .junk => "junk".toList
  | .archive => "archive".toList
  | .custom => "custom".toList

/-- The text of a date in the database. -/
def dbTime (t : Time) : Text := Calendar.text t

def searchScope (src : Source) (q : Query) : List Message :=
  src.db.messages.rows.filter fun m =>
    (q.matchExpr == [] || (src.ftsMatch q.matchExpr).contains m.id) &&
    q.seen.all (· == m.seen) &&
    q.flagged.all (· == m.flagged) &&
    q.hasAttachment.all (· == m.hasAttachment) &&
    q.before.all (fun t => decide (dbTime m.date < dbTime t)) &&
    q.after.all (fun t => !decide (dbTime m.date < dbTime t)) &&
    (q.folder == [] || src.db.folders.rows.any fun f => f.id == m.folderID &&
      (typeText f.type == q.folder.map src.lower || like q.folder f.displayName || like q.folder f.path)) &&
    (q.account == [] || src.accounts.any fun a => a.id == m.accountID &&
      (like q.account a.email || like q.account a.name))

def folderScope (db : DB) (folderID : Nat) (f : Filter) : List Message :=
  f.apply (db.messages.rows.filter fun m => m.folderID == folderID)

/-- The views of all accounts. -/
inductive View
  | inbox
  | unread
  | starred
  deriving DecidableEq, Repr

/-- What a view asks of a mail and its folder. -/
def View.holds (view : View) (m : Message) (folder : Folder) : Bool :=
  match view with
  | .inbox => folder.type == .inbox
  | .unread => !m.seen && (folder.type == .inbox || folder.type == .custom)
  | .starred => m.flagged && folder.type != .trash

def aggregateScope (db : DB) (view : View) : List Message :=
  db.messages.rows.filter fun m => (db.folders.get? m.folderID).any (view.holds m)

/-! ### Copies -/

/-- The row is a copy of the mail. -/
def isCopy (m m2 : Message) : Bool :=
  m2.accountID == m.accountID && m2.messageID == m.messageID && m2.date == m.date && m2.size == m.size

/-- Which folder's copy goes first. -/
def copyRank : FolderType → Nat
  | .inbox => 0
  | .custom => 1
  | _ => 2

/-- The copies of a mail that are in a folder, with their ranks. -/
def rankedCopies (db : DB) (m : Message) : List (Nat × Nat) :=
  (db.messages.rows.filter (isCopy m)).filterMap fun m2 =>
    (db.folders.get? m2.folderID).map fun f => (copyRank f.type, m2.id)

/-- The copy that stands for the mail. -/
def representative (db : DB) (m : Message) : Option Nat :=
  ((rankedCopies db m).insertionSort fun a b => a.1 < b.1 ∨ (a.1 = b.1 ∧ a.2 ≤ b.2)).head?.map Prod.snd

def dedupeSameMessage (db : DB) (rows : List Message) : List Message :=
  rows.filter fun m => m.messageID == [] || representative db m == some m.id

/-! ### Lists of mail -/

/-- How many a page may hold. -/
def pageLimit (limit : Int) : Nat := if limit ≤ 0 ∨ 200 < limit then 50 else limit.toNat

/-- Later first; of one date the larger key. -/
def laterFirst (a b : Message) : Prop :=
  dbTime b.date < dbTime a.date ∨ (dbTime a.date = dbTime b.date ∧ b.id ≤ a.id)

instance : DecidableRel laterFirst := fun a b => by
  unfold laterFirst
  infer_instance

/-- One page of rows, behind a moment and a key. -/
def messagePage (rows : List Message) (before : Option (Time × Nat)) (limit : Nat) : List Message :=
  ((rows.filter fun m => before.all fun b =>
      decide (dbTime m.date < dbTime b.1) || (dbTime m.date == dbTime b.1 && decide (m.id < b.2))).insertionSort
    laterFirst).take limit

/-- The cursor of a list of mail, as the client gets it. -/
structure AggCursor where
  beforeDate : Text
  beforeID : Nat
  deriving DecidableEq, Repr

/-- The cursor as the handler reads it. A date that cannot be read is none. -/
def AggCursor.parse (c : AggCursor) : Option (Time × Nat) :=
  (Calendar.parse 'T' c.beforeDate).map fun t => (t, c.beforeID)

structure MessagePage where
  rows : List Message
  next : Option AggCursor

/-- The page with its cursor: a full one has one. -/
def withCursor (rows : List Message) (limit : Nat) : MessagePage where
  rows := rows
  next := if rows.length = limit then rows.getLast?.map fun m => ⟨Calendar.text m.date, m.id⟩ else none

def listAggregate (src : Source) (view : View) (f : Filter) (before : Option (Time × Nat)) (limit : Int) :
    MessagePage :=
  withCursor (messagePage (f.apply (dedupeSameMessage src.db (aggregateScope src.db view))) before
    (pageLimit limit)) (pageLimit limit)

def listSearch (src : Source) (q : Query) (f : Filter) (before : Option (Time × Nat)) (limit : Int) :
    MessagePage :=
  if q.empty then ⟨[], none⟩
  else
    withCursor (messagePage (dedupeSameMessage src.db (f.apply (searchScope src q))) before
      (pageLimit limit)) (pageLimit limit)

/-! ### Lists of conversations -/

/-- A key of twelve digits, or of as many as it has. -/
def printfID (id : Nat) : Text := if id < 10 ^ 12 then Layout.pad 12 id else Text.formatUint id

/-- What the latest row of a conversation is told by. -/
def lastKey (m : Message) : Text := dbTime m.date ++ '#' :: printfID m.id

/-- The row whose key is the largest. -/
def maxRow : List Message → Option Message
  | [] => none
  | m :: rest =>
      match maxRow rest with
      | none => some m
      | some best => if lastKey m < lastKey best then some best else some m

/-- A conversation of a page, before it is summed up. -/
structure ThreadHead where
  threadID : Text
  lastDate : Text
  id : Nat
  latest : Option Message

/-- One row for each conversation of the scope. -/
def groupThreads (scope : List Message) : List ThreadHead :=
  (((scope.filter fun m => m.threadID != []).map Message.threadID).dedup).filterMap fun tid =>
    (maxRow (scope.filter fun m => m.threadID == tid)).map fun m =>
      { threadID := tid
        lastDate := (lastKey m).take ((lastKey m).length - 13)
        id := m.id
        latest := none }

def lastFirst (a b : ThreadHead) : Prop :=
  b.lastDate < a.lastDate ∨ (a.lastDate = b.lastDate ∧ ¬ a.threadID < b.threadID)

instance : DecidableRel lastFirst := fun a b => by
  unfold lastFirst
  infer_instance

def listThreads (db : DB) (scope : List Message) (before : Option (Time × Text)) (limit : Int) :
    List ThreadHead :=
  let limit := if limit ≤ 0 ∨ 201 < limit then 51 else limit.toNat
  let heads := (((groupThreads scope).filter fun h => before.all fun b =>
      decide (h.lastDate < dbTime b.1) ||
        (h.lastDate == dbTime b.1 && decide (h.threadID < b.2))).insertionSort lastFirst).take limit
  heads.map fun h => { h with latest := db.messages.get? h.id }

def countThreads (scope : List Message) : Nat :=
  (((scope.filter fun m => m.threadID != []).map Message.threadID).dedup).length

structure ThreadListItem where
  threadID : Text
  accountID : Nat
  count : Nat
  unread : Nat
  flagged : Bool
  hasAttachment : Bool
  subject : Text
  snippet : Text
  date : Text
  latestID : Nat
  latestFolderID : Nat
  participants : List Address

/-- A date as it was stored; the first moment of all if it cannot be read. -/
def parseDBTime (s : Text) : Time :=
  ((Calendar.parse ' ' s).or (Calendar.parse 'T' s)).getD 0

def maxParticipants : Nat := 8

/-- What a sender is told by. -/
def senderKey (lower : Char → Char) (m : Message) : Text :=
  if m.fromAddr.map lower = [] then m.fromName else m.fromAddr.map lower

/-- The senders of the rows, each once, and not too many. -/
def participants (lower : Char → Char) (rows : List Message) : List Address :=
  (rows.foldl (fun st m =>
    let key := senderKey lower m
    if key ≠ [] ∧ key ∉ st.1 ∧ st.2.length < maxParticipants then
      (key :: st.1, st.2 ++ [⟨m.fromName, m.fromAddr⟩])
    else st) (([], []) : List Text × List Address)).2

/-- A conversation with what its rows in all folders come to. -/
def summarize (src : Source) (h : ThreadHead) : ThreadListItem :=
  let rows := ((dedupeSameMessage src.db src.db.messages.rows).filter fun m =>
    m.threadID == h.threadID).insertionSort fun a b =>
      dbTime a.date < dbTime b.date ∨ (dbTime a.date = dbTime b.date ∧ a.id ≤ b.id)
  { threadID := h.threadID
    accountID := (h.latest.map Message.accountID).getD 0
    count := rows.length
    unread := rows.countP fun m => !m.seen
    flagged := rows.any Message.flagged
    hasAttachment := rows.any Message.hasAttachment
    subject := (h.latest.map Message.subject).getD []
    snippet := (h.latest.map Message.snippet).getD []
    date := Calendar.text (parseDBTime h.lastDate)
    latestID := h.id
    latestFolderID := (h.latest.map Message.folderID).getD 0
    participants := participants src.lower rows }

/-- The cursor of a list of conversations, as the client gets it. -/
structure ThreadCursor where
  beforeDate : Text
  beforeThread : Text
  deriving DecidableEq, Repr

/-- The cursor as the handler reads it; a date that cannot be read is refused. -/
def ThreadCursor.parse (c : ThreadCursor) : Option (Time × Text) :=
  (Calendar.parse 'T' c.beforeDate).map fun t => (t, c.beforeThread)

structure ThreadPage where
  threads : List ThreadListItem
  nextCursor : Option ThreadCursor
  /-- Only of the first page. -/
  total : Nat

def threadPage (src : Source) (scope : List Message) (before : Option (Time × Text)) (limit : Int) :
    ThreadPage :=
  let limit := pageLimit limit
  -- one more tells whether there is another page
  let found := listThreads src.db scope before (limit + 1 : Nat)
  let heads := if limit < found.length then found.take limit else found
  { threads := heads.map (summarize src)
    nextCursor :=
      if limit < found.length then
        heads.getLast?.map fun h => ⟨Calendar.text (parseDBTime h.lastDate), h.threadID⟩
      else none
    total := if before.isNone then countThreads scope else 0 }

/-- The lists of conversations. -/
inductive ThreadView
  | folder (folderID : Nat)
  | aggregate (view : View)
  | search (q : Query)

/-- Copies are left out where the scope asks for a state that copies may differ in. -/
def dedupeIf (db : DB) (rows : List Message) (need : Bool) : List Message :=
  if need then dedupeSameMessage db rows else rows

/-- The rows a list of conversations is made from. -/
def ThreadView.scope (src : Source) (f : Filter) : ThreadView → List Message
  | .folder folderID => folderScope src.db folderID f
  | .aggregate view =>
      f.apply (dedupeIf src.db (aggregateScope src.db view)
        (view == .unread || view == .starred || f.seen.isSome || f.flagged.isSome))
  | .search q => if q.empty then [] else f.apply (dedupeSameMessage src.db (searchScope src q))

/-- `FolderThreads`, `AggregateThreads` and `SearchThreads`. -/
def listThreadPage (src : Source) (v : ThreadView) (f : Filter) (before : Option (Time × Text)) (limit : Int) :
    ThreadPage :=
  threadPage src (v.scope src f) before limit

/-- What the handler makes of a client's cursor; one that it cannot read it refuses. -/
def threadPageArgs : Option ThreadCursor → Option (Option (Time × Text))
  | none => some none
  | some c => c.parse.map some

/-- The page a client is given, unless the request is refused. -/
def threadsHandler (src : Source) (v : ThreadView) (f : Filter) (cursor : Option ThreadCursor) (limit : Int) :
    Option ThreadPage :=
  (threadPageArgs cursor).map fun before => listThreadPage src v f before limit

end FlyMail.Message
