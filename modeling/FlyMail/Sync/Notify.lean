/-
The notices of new mail.

A round of a folder that brought new unread mail ends in notices: one for each mail, or a
single one with their number when there are more than the few whose details were loaded.
The same mail turns up in several folders of an account, so a round first claims the right
to notify: it is let through unless a round with the same key was let through a short time
ago.  The key is made of the account, the number of new unread mails and the Message-IDs
of those whose details were loaded.

`Report` is what a round brings here.  The details are those of the first mails; how many
there are is left open, since fewer remain when some were handled by a rule elsewhere.
-/
import FlyMail.Lib.Firsts
import FlyMail.Message.Service
import Mathlib.Data.Char

namespace FlyMail.Sync.Notify

open Message (NewMail newMailUnseenCap)

/-! ### Texts -/

def snippetRunes : Nat := 80

/-- The text on one line. -/
def oneLine (s : Text) : Text := Text.join (Text.fields s) [' ']

def mailBody (subject snippet : Text) : Text :=
  let subject := oneLine subject
  let snippet := oneLine snippet
  if snippet = [] then subject
  else
    subject ++ '\n' ::
      (if snippet.length > snippetRunes then snippet.take snippetRunes ++ ['…'] else snippet)

/-! ### Notices -/

/-- A notice; the key `0` stands for no mail in particular. -/
structure Notice where
  accountID : Nat
  messageID : Nat
  title : Text
  body : Text
  deriving DecidableEq, Repr

def emitBaselineNotice (accountID : Nat) (type : FolderType) (nm : NewMail) : List Notice :=
  if type ≠ .inbox then []
  else
    [⟨accountID, 0, "账户已完成首次同步".toList,
      "收件箱里有 ".toList ++ Text.formatUint nm.unseenTotal ++
        " 封未读邮件。这些是账户接入前就有的，没有逐封提醒。".toList⟩]

/-- The notice of a single mail. -/
def mailNotice (accountID : Nat) (snippetOf : Nat → Text) (m : Message) : Notice :=
  let sender := if m.fromName = [] then m.fromAddr else m.fromName
  let subject := if m.subject = [] then "（无主题）".toList else m.subject
  ⟨accountID, m.id, "新邮件 · ".toList ++ oneLine sender, mailBody subject (snippetOf m.id)⟩

def emitNewMailNotices (accountID : Nat) (type : FolderType) (nm : NewMail)
    (snippetOf : Nat → Text) : List Notice :=
  if nm.baseline then emitBaselineNotice accountID type nm
  else if nm.unseenTotal ≤ nm.unseen.length then nm.unseen.map (mailNotice accountID snippetOf)
  else
    [⟨accountID, 0, "收到 ".toList ++ Text.formatUint nm.unseenTotal ++ " 封新邮件".toList,
      "一次来得太多，没有逐封提醒。打开收件箱查看。".toList⟩]

/-! ### The claim -/

def notifyDedupTTL : Time := 10 * 60

/-- The keys let through, and when. -/
abbrev Seen := List (Text × Time)

/-- What a round is known by; a round none of whose detailed mails has a Message-ID is not
known by anything. -/
def notifyKey (accountID : Nat) (nm : NewMail) : Option Text :=
  let ids := (nm.unseen.map Message.messageID).filter fun id => id != []
  if ids = [] then none
  else
    some (Text.formatUint accountID ++ '|' :: Text.formatUint nm.unseenTotal ++ '|' ::
      Text.commaJoin (ids.insertionSort (· ≤ ·)))

def claimNotify (accountID : Nat) (nm : NewMail) (now : Time) (seen : Seen) : Seen × Bool :=
  match notifyKey accountID nm with
  | none => (seen, true)
  | some key =>
      let seen := seen.filter fun e => !decide (now - e.2 > notifyDedupTTL)
      if seen.any fun e => e.1 == key && decide (now - e.2 ≤ notifyDedupTTL) then (seen, false)
      else ((key, now) :: seen, true)

/-- What a round of a folder does at its end about the mail it brought. -/
def notifyNewMail (accountID : Nat) (type : FolderType) (nm : NewMail) (now : Time)
    (snippetOf : Nat → Text) (seen : Seen) : Seen × List Notice :=
  if nm.count > 0 ∧ (type = .inbox ∨ type = .custom) ∧ nm.unseenTotal > 0 then
    let (seen, claimed) := claimNotify accountID nm now seen
    (seen, if claimed then emitNewMailNotices accountID type nm snippetOf else [])
  else (seen, [])

/-! ### Rounds -/

/-- A round of an inbox or a folder of the user's own that is no baseline, with the new
unread mails it brought. -/
structure Report where
  accountID : Nat
  type : FolderType
  nm : NewMail
  now : Time
  snippetOf : Nat → Text
  /-- The new unread mails, by key. -/
  unread : List Message
  notifiable : type = .inbox ∨ type = .custom
  no_baseline : nm.baseline = false
  counted : unread ≠ [] → 0 < nm.count
  total : nm.unseenTotal = unread.length
  details : nm.unseen <+: unread
  capped : nm.unseen.length ≤ newMailUnseenCap
  /-- Rows have keys of their own, and belong to the account. -/
  rows : (unread.map Message.id).Nodup ∧ ∀ m ∈ unread, 0 < m.id ∧ m.accountID = accountID

def Report.key (r : Report) : Option Text := notifyKey r.accountID r.nm

def Report.notify (r : Report) (seen : Seen) : Seen × List Notice :=
  notifyNewMail r.accountID r.type r.nm r.now r.snippetOf seen

/-- Rounds one after another, each with the notices it ends in. -/
def announce : Seen → List Report → List (Report × List Notice)
  | _, [] => []
  | seen, r :: rest => (r, (r.notify seen).2) :: announce (r.notify seen).1 rest

/-! ### What is announced -/

/-- The notice is about the mail: about it alone, or about all new unread mails. -/
def Notice.about (n : Notice) (r : Report) (m : Message) : Prop :=
  m ∈ r.unread ∧ (n.messageID = m.id ∨ n.messageID = 0)

instance (n : Notice) (r : Report) (m : Message) : Decidable (n.about r m) :=
  inferInstanceAs (Decidable (_ ∧ _))

/-- How many notices of the round are about mail with this Message-ID. -/
def mentions (messageID : Text) (e : Report × List Notice) : Nat :=
  e.2.countP fun n => e.1.unread.any fun m => m.messageID == messageID && decide (n.about e.1 m)

/-- How many notices are about the account's mail with this Message-ID. -/
def announcements (log : List (Report × List Notice)) (accountID : Nat) (messageID : Text) :
    Nat :=
  (log.map fun e => if e.1.accountID = accountID then mentions messageID e else 0).sum

/-- Every mail is announced, and a mail with a Message-ID once. -/
structure AnnouncedOnce (log : List (Report × List Notice)) : Prop where
  once : ∀ e ∈ log, ∀ m ∈ e.1.unread, m.messageID ≠ [] →
    announcements log e.1.accountID m.messageID = 1
  always : ∀ e ∈ log, ∀ m ∈ e.1.unread, m.messageID = [] →
    ∃ e' ∈ log, ∃ n ∈ e'.2, n.about e'.1 m

/-- How often the Message-ID occurs in the round's mail. -/
def Report.copies (r : Report) (messageID : Text) : Nat :=
  r.unread.countP fun m => m.messageID == messageID

/-- What has to be so of the rounds: of those that repeat no earlier one's key, no two have
a mail in common and none has one twice, unless it is told by number; and those that
repeat one have no mail that is in none of these. -/
structure Apart (rounds : List Report) : Prop where
  single : ∀ r ∈ firsts Report.key [] rounds, r.unread.length ≤ r.nm.unseen.length →
    ∀ m ∈ r.unread, m.messageID ≠ [] → r.copies m.messageID ≤ 1
  disjoint : (firsts Report.key [] rounds).Pairwise fun r s => r.accountID = s.accountID →
    ∀ m ∈ r.unread, m.messageID ≠ [] → s.copies m.messageID = 0
  known : ∀ r ∈ rounds, ∀ m ∈ r.unread, m.messageID ≠ [] →
    ∃ f ∈ firsts Report.key [] rounds, f.accountID = r.accountID ∧ f.copies m.messageID ≠ 0
  unnamed : ∀ r ∈ rounds, ∀ m ∈ r.unread, m.messageID = [] →
    ∃ f ∈ firsts Report.key [] rounds, m ∈ f.unread

end FlyMail.Sync.Notify
