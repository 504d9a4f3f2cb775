/-
Fetching new mail, in mail2im.

A round selects the mailbox, asks for the messages that are unseen and whose UID is above the last
one, fetches them, and stores each.  A message that cannot be read off the stream, that comes without
a body, that cannot be parsed or cannot be inserted is passed over.  At the end the last UID becomes
the greatest one that came.

Parsing, the classification of mail and the rules are parameters.
-/
import FlyMail.Folder.Service
import Mathlib.Data.List.Infix

namespace FlyMail.Mail2im

/-- A row of `mailboxes`, or a copy of it. -/
structure Mailbox where
  id : Nat
  name : Text
  path : Text
  attributes : Text
  type : Text
  /-- The last UID pulled. -/
  lastUID : Nat
  deriving DecidableEq, Repr

/-- What the rounds read of an account. -/
structure WatchedAccount where
  id : Nat
  provider : Text
  /-- For the inbox, when the mailbox's row has none. -/
  lastUID : Nat
  deriving DecidableEq, Repr

/-- A row of `emails`. -/
structure Email where
  id : Text
  accountID : Nat
  messageID : Text
  mailboxID : Nat
  uid : Nat
  seqNum : Nat
  mailbox : Text
  mailboxPath : Text
  mailType : Text
  fromStr : Text
  toStr : Text
  subject : Text
  textBody : Text
  htmlBody : Text
  receivedAt : Time
  isRead : Bool
  deriving DecidableEq, Repr

structure Envelope where
  subject : Text
  messageID : Text
  senders : List Text
  recipients : List Text
  /-- `0` is the zero time. -/
  date : Time
  deriving DecidableEq, Repr

/-- What the stream delivers of a message. -/
structure MessageBuffer where
  uid : Nat
  seqNum : Nat
  envelope : Option Envelope
  internalDate : Time
  body : Option Text
  deriving DecidableEq, Repr

structure ParsedEmail where
  subject : Text
  messageID : Text
  senders : List Text
  recipients : List Text
  textBody : Text
  htmlBody : Text
  deriving DecidableEq, Repr

/-- The parser, and how mail is classified. -/
structure Classifier where
  decodeMIMEHeader : Text → Text
  /-- `ParseBody`, which fills in what the envelope did not say. -/
  parseBody : Text → ParsedEmail → Option ParsedEmail
  /-- The addresses in one text. -/
  addresses : List Text → Text
  classifyMailboxType : Text → Text → Text → Text
  /-- The type the rules decide on, of sender, subject, recipients and text. -/
  applyContentRules : Text → Text → Text → Text → Text
  priorityByType : Text → Int

/-- An `EventEmailReceived`. -/
structure Received where
  priority : Int
  email : Email
  deriving DecidableEq, Repr

structure Store where
  /-- `last_uid` of the mailbox's row, and of the account's. -/
  mailboxLastUID : Nat
  accountLastUID : Nat
  emails : List Email
  published : List Received
  deriving DecidableEq, Repr

/-- What storing a message depends on besides. -/
structure Luck where
  publicID : Text
  now : Time
  /-- The row can be inserted. -/
  saved : Bool
  deriving DecidableEq, Repr

namespace Worker

def isNoSelect (mb : Mailbox) : Bool :=
  decide ("\\noselect".toList <:+: mb.attributes.map Char.toLower)

def isInbox (mb : Mailbox) : Bool :=
  Folder.equalFold mb.name "inbox".toList || Folder.equalFold mb.path "inbox".toList

/-- Is there a row for the message? -/
def stored (emails : List Email) (accountID : Nat) (uid : Nat) (path : Text) : Bool :=
  emails.any fun e => e.accountID == accountID && e.uid == uid && e.mailboxPath == path

/-- What the envelope says. -/
def ofEnvelope (C : Classifier) : Option Envelope → ParsedEmail
  | none => ⟨[], [], [], [], [], []⟩
  | some env => ⟨C.decodeMIMEHeader env.subject, env.messageID, env.senders, env.recipients, [], []⟩

def receivedAt (buf : MessageBuffer) (now : Time) : Time :=
  let at₀ := if buf.internalDate = 0 then (buf.envelope.elim 0 Envelope.date) else buf.internalDate
  if at₀ = 0 then now else at₀

/-- The row of a message. -/
def emailOf (C : Classifier) (account : WatchedAccount) (mb : Mailbox) (buf : MessageBuffer) (parsed : ParsedEmail)
    (luck : Luck) : Email :=
  let folderType :=
    if mb.type = [] then C.classifyMailboxType account.provider mb.name mb.path else mb.type
  let fromStr := C.addresses parsed.senders
  let toStr := C.addresses parsed.recipients
  let override := C.applyContentRules fromStr parsed.subject toStr parsed.textBody
  { id := luck.publicID
    accountID := account.id
    messageID := parsed.messageID
    mailboxID := mb.id
    uid := buf.uid
    seqNum := buf.seqNum
    mailbox := mb.name
    mailboxPath := mb.path
    mailType := if override = [] then folderType else override
    fromStr := fromStr
    toStr := toStr
    subject := parsed.subject
    textBody := parsed.textBody
    htmlBody := parsed.htmlBody
    receivedAt := receivedAt buf luck.now
    isRead := false }

/-- Store one message; has it been new? -/
def processFetchedMessage (C : Classifier) (account : WatchedAccount) (mb : Mailbox) (st : Store) (buf : MessageBuffer)
    (luck : Luck) : Store × Bool :=
  match buf.body with
  | none => (st, false)
  | some body =>
      if 0 < buf.uid ∧ stored st.emails account.id buf.uid mb.path then (st, false)
      else
        match C.parseBody body (ofEnvelope C buf.envelope) with
        | none => (st, false)
        | some parsed =>
            if luck.saved then
              let email := emailOf C account mb buf parsed luck
              ({ st with
                  emails := st.emails ++ [email]
                  published := st.published ++ [⟨C.priorityByType email.mailType, email⟩] }, true)
            else (st, false)

/-- One step of the stream. -/
inductive Delivery
  /-- The message could not be read off it. -/
  | failed
  | collected (buf : MessageBuffer) (luck : Luck)
  deriving DecidableEq, Repr

structure Batch where
  maxUID : Nat
  newCount : Nat
  store : Store

def deliver (C : Classifier) (account : WatchedAccount) (mb : Mailbox) (b : Batch) : Delivery → Batch
  | .failed => b
  | .collected buf luck =>
      let (store, new) := processFetchedMessage C account mb b.store buf luck
      ⟨max b.maxUID buf.uid, if new then b.newCount + 1 else b.newCount, store⟩

/-- A UID has 32 bits. -/
def uidMod : Nat := 2 ^ 32

def startUID (account : WatchedAccount) (mb : Mailbox) : Nat :=
  let start :=
    if mb.lastUID = 0 ∧ isInbox mb ∧ 0 < account.lastUID then (account.lastUID + 1) % uidMod
    else (mb.lastUID + 1) % uidMod
  if start = 0 then 1 else start

/-- How a round goes: the steps that succeed, and what the stream delivers until it ends. -/
structure Round where
  connected : Bool
  selected : Bool
  searched : Bool
  stream : List Delivery
  deriving DecidableEq, Repr

/-- The round gets to the fetch. -/
def Round.reaches (r : Round) (mb : Mailbox) : Bool :=
  r.connected && !isNoSelect mb && r.selected && r.searched

/-- What is persisted at the end of a round, and the copy of the row. -/
def raise (mb : Mailbox) (maxUID : Nat) (st : Store) : Store × Mailbox :=
  if 0 < maxUID ∧ mb.lastUID < maxUID then
    ({ st with
        mailboxLastUID := maxUID
        accountLastUID := if isInbox mb then maxUID else st.accountLastUID },
      { mb with lastUID := maxUID })
  else (st, mb)

/-- A round; `answer` is what the server answers to the search. -/
def fetchMailboxMessages (C : Classifier) (account : WatchedAccount) (mb : Mailbox) (answer : Nat → List Nat)
    (r : Round) (st : Store) : Store × Mailbox × Nat :=
  if r.reaches mb && !(answer (startUID account mb)).isEmpty then
    let b := r.stream.foldl (deliver C account mb) ⟨0, 0, st⟩
    let (st, mb) := raise mb b.maxUID b.store
    (st, mb, b.newCount)
  else (st, mb, 0)

end Worker

/-! ### The mailbox on the server -/

structure Message where
  uid : Nat
  seen : Bool
  deriving DecidableEq, Repr

structure ServerMailbox where
  messages : List Message
  uidNext : Nat
  uids : ∀ m ∈ messages, 0 < m.uid ∧ m.uid < uidNext
  bound : 0 < uidNext ∧ uidNext ≤ Worker.uidMod
  deriving DecidableEq, Repr

namespace ServerMailbox

def arrive (s : ServerMailbox) (uid : Nat) (h : s.uidNext ≤ uid ∧ uid < Worker.uidMod) : ServerMailbox where
  messages := s.messages ++ [⟨uid, false⟩]
  uidNext := uid + 1
  uids m hm := by
    rcases List.mem_append.mp hm with hold | hnew
    · have := s.uids m hold
      omega
    · rw [List.mem_singleton.mp hnew]
      have := s.bound
      exact ⟨by show 0 < uid; omega, Nat.lt_succ_self uid⟩
  bound := ⟨Nat.succ_pos uid, h.2⟩

def read (s : ServerMailbox) (uid : Nat) : ServerMailbox where
  messages := s.messages.map fun m => if m.uid = uid then { m with seen := true } else m
  uidNext := s.uidNext
  uids m hm := by
    obtain ⟨m₀, hm₀, rfl⟩ := List.mem_map.mp hm
    have := s.uids m₀ hm₀
    split
    · exact this
    · exact this
  bound := s.bound

def expunge (s : ServerMailbox) (uid : Nat) : ServerMailbox where
  messages := s.messages.filter fun m => m.uid != uid
  uidNext := s.uidNext
  uids m hm := s.uids m (List.mem_filter.mp hm).1
  bound := s.bound

/-- The highest UID, for which `*` stands. -/
def highest (s : ServerMailbox) : Nat := (s.messages.map Message.uid).foldl max 0

/-- The unseen messages from `start` to `*`.  The ends of a range may be the other way round. -/
def searchUnseenSince (s : ServerMailbox) (start : Nat) : List Nat :=
  (s.messages.filter fun m => !m.seen && (decide (start ≤ m.uid) || m.uid == s.highest)).map Message.uid

end ServerMailbox

/-! ### Rounds and what happens between them -/

structure World where
  server : ServerMailbox
  store : Store
  /-- The worker's copies, of the account's row and of the mailbox's. -/
  account : WatchedAccount
  mailboxes : List Mailbox
  deriving DecidableEq, Repr

inductive Event
  /-- A new message. -/
  | arrive (uid : Nat)
  /-- Somebody reads a message. -/
  | read (uid : Nat)
  | expunge (uid : Nat)
  /-- The list of mailboxes is synchronised; the row is as it was but for `lastUID`. -/
  | load (row : Mailbox)
  | copy (i : Nat)
  /-- The row is deleted, and created anew. -/
  | recreate
  /-- Another worker takes over. -/
  | restart
  | round (i : Nat) (r : Worker.Round)
  deriving Repr

namespace World

/-- The stream delivers what was asked for. -/
def answers (uids : List Nat) : Worker.Delivery → Bool
  | .failed => true
  | .collected buf _ => uids.contains buf.uid

/-- The mailbox's path is `path`. -/
def step (C : Classifier) (path : Text) (w : World) : Event → Option World
  | .arrive uid =>
      if h : w.server.uidNext ≤ uid ∧ uid < Worker.uidMod then some { w with server := w.server.arrive uid h }
      else none
  | .read uid => some { w with server := w.server.read uid }
  | .expunge uid => some { w with server := w.server.expunge uid }
  | .load row =>
      some { w with mailboxes := w.mailboxes ++ [{ row with path := path, lastUID := w.store.mailboxLastUID }] }
  | .copy i => (w.mailboxes[i]?).map fun mb => { w with mailboxes := w.mailboxes ++ [mb] }
  | .recreate => some { w with store.mailboxLastUID := 0 }
  | .restart => some { w with account.lastUID := w.store.accountLastUID, mailboxes := [] }
  | .round i r =>
      match w.mailboxes[i]? with
      | none => none
      | some mb =>
          let answer := w.server.searchUnseenSince
          if r.stream.all (answers (answer (Worker.startUID w.account mb))) then
            let (store, mb', _) := Worker.fetchMailboxMessages C w.account mb answer r w.store
            some { w with store := store, mailboxes := w.mailboxes.set i mb' }
          else none

/-- Nothing has been fetched yet. -/
def init (server : ServerMailbox) (accountID : Nat) (provider : Text) : World :=
  ⟨server, ⟨0, 0, [], []⟩, ⟨accountID, provider, 0⟩, []⟩

end World

end FlyMail.Mail2im
