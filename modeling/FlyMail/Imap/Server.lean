/-
What a server answers.

The answers are read off the mailboxes.  A server that does not say which UID comes next
leaves that out of every answer.  A mail is sent under its UID, which is what names it for
good as long as the mailbox keeps its UIDVALIDITY.

What is in a mail's body is of no consequence here and comes from outside.
-/
import FlyMail.Sync.Manager
import FlyMail.Imap.Mailbox

namespace FlyMail.Imap

/-- The flags of a mail as they are sent. -/
def Mail.flags (m : Mail) : List Text :=
  (if m.seen then ["\\Seen".toList] else []) ++ (if m.flagged then ["\\Flagged".toList] else []) ++
    (if m.answered then ["\\Answered".toList] else []) ++
    (if m.deleted then ["\\Deleted".toList] else [])

/-- The mail as it is fetched. No mail has a UID that is `0` or does not fit 32 bits. -/
def Mail.fetched (m : Mail) : Option ParsedEmail :=
  if h : 0 < m.uid ∧ m.uid < 2 ^ 32 then
    some {
      messageID := m.envelope.messageID
      uid := ⟨m.uid, h.1, h.2⟩
      inReplyTo := m.envelope.inReplyTo
      references := m.envelope.references
      subject := m.envelope.subject
      sender := m.envelope.sender
      toList := m.envelope.toList
      ccList := m.envelope.ccList
      date := m.envelope.date
      size := m.envelope.size
      flags := m.flags
      isRead := m.seen
      isStarred := m.flagged }
  else none

/-- The mails of a range of UIDs. A range up to the last mail always has that one. -/
def Mailbox.uidRange (b : Mailbox) (start last : Nat) : List Mail :=
  if last = 0 then
    let largest := (b.mails.map Mail.uid).foldl max 0
    b.mails.filter fun m => decide (start ≤ m.uid) || m.uid == largest
  else b.mails.filter fun m => decide (start ≤ m.uid) && decide (m.uid ≤ last)

/-- The mails of a range of sequence numbers, which count from one. -/
def Mailbox.seqRange (b : Mailbox) (start last : Nat) : List Mail :=
  (b.mails.drop (start - 1)).take (last + 1 - start)

/-- A session with the server of these mailboxes. `bodies` is what it sends of single mails. -/
def serve (boxes : Boxes) (uidValidity : Text → Nat) (tellsNext : Bool) (folders : List FolderInfo)
    (bodies : Text → List Nat → List FetchedEmail) : FullSession where
  listFolders := folders
  selectFolder path :=
    ⟨(boxes path).mails.length, uidValidity path, if tellsNext then (boxes path).uidNext else 0⟩
  statusUIDValidity path := some (uidValidity path)
  statusUIDNext path := if tellsNext then some (boxes path).uidNext else none
  fetchByUIDRange path start last := ((boxes path).uidRange start last).filterMap Mail.fetched
  fetchBySeqRange path start last := ((boxes path).seqRange start last).filterMap Mail.fetched
  fetchByUIDs := bodies

end FlyMail.Imap
