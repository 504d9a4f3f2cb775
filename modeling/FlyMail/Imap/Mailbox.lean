/-
A mail server, as far as one account's commands can change it.

A mailbox hands out UIDs in order and never again: a mail that comes in, by delivery,
`COPY` or `MOVE`, gets the next one.  What a mail is stays the same whichever mailbox
holds it and whatever UID it has there, and that is its `serial`; a copy of a mail has
the mail's serial, so "the mail is there exactly once" can be said.

A command that breaks off may have taken effect on some of its mails.  `hit` says on
which.
-/
import FlyMail.Store
import Mathlib.Logic.Function.Basic

namespace FlyMail.Imap

/-- What a mail says about itself, read from its header. -/
structure Envelope where
  messageID : Text
  inReplyTo : Text
  references : Text
  subject : Text
  sender : List Address
  toList : List Address
  ccList : List Address
  date : Time
  size : Int
  deriving DecidableEq, Repr

/-- A mail in a mailbox. -/
structure Mail where
  /-- Which mail this is; the same in every mailbox. -/
  serial : Nat
  uid : Nat
  seen : Bool
  flagged : Bool
  answered : Bool
  deleted : Bool
  envelope : Envelope
  deriving DecidableEq, Repr

structure Mailbox where
  mails : List Mail
  /-- The UID the next mail to come gets. -/
  uidNext : Nat
  deriving DecidableEq, Repr

/-- The mailboxes of an account, by path. -/
abbrev Boxes := Text → Mailbox

/-- The flags that are set and cleared. -/
inductive Flag
  | seen
  | flagged
  | deleted
  deriving DecidableEq, Repr

def Mail.set (m : Mail) : Flag → Bool → Mail
  | .seen, on => { m with seen := on }
  | .flagged, on => { m with flagged := on }
  | .deleted, on => { m with deleted := on }

def Mail.has (m : Mail) : Flag → Bool
  | .seen => m.seen
  | .flagged => m.flagged
  | .deleted => m.deleted

/-- The mails under the UIDs from `next` on. -/
def renumber (next : Nat) : List Mail → List Mail
  | [] => []
  | m :: rest => { m with uid := next } :: renumber (next + 1) rest

/-- Mails coming into a mailbox get the next UIDs, in order. -/
def Mailbox.append (b : Mailbox) (ms : List Mail) : Mailbox where
  mails := b.mails ++ renumber b.uidNext ms
  uidNext := b.uidNext + ms.length

/-- The commands that change mails, on the selected mailbox. -/
inductive Command
  | store (flag : Flag) (on : Bool) (uids : List Nat)
  | move (target : Text) (uids : List Nat)
  | copy (target : Text) (uids : List Nat)
  | expunge
  deriving DecidableEq, Repr

/-- What a command does to the mails it hits while `path` is selected. -/
def Command.run (path : Text) (hit : Nat → Bool) (boxes : Boxes) : Command → Boxes
  | .store flag on uids =>
      let box := boxes path
      Function.update boxes path
        { box with
          mails := box.mails.map fun m =>
            if uids.contains m.uid && hit m.uid then m.set flag on else m }
  | .move target uids =>
      let box := boxes path
      let gone := box.mails.filter fun m => uids.contains m.uid && hit m.uid
      let rest := box.mails.filter fun m => !(uids.contains m.uid && hit m.uid)
      let boxes := Function.update boxes path { box with mails := rest }
      Function.update boxes target ((boxes target).append gone)
  | .copy target uids =>
      let copied := (boxes path).mails.filter fun m => uids.contains m.uid && hit m.uid
      Function.update boxes target ((boxes target).append copied)
  | .expunge =>
      let box := boxes path
      Function.update boxes path
        { box with mails := box.mails.filter fun m => !(m.deleted && hit m.uid) }

/-- How an exchange of commands ended: all of them answered, or broken off after
`done` commands, the next one having hit some of its mails. -/
inductive Exchange
  | ok
  | broke (done : Nat) (hit : Nat → Bool)

/-- What an exchange leaves on the server. -/
def runCommands (path : Text) : List Command → Exchange → Boxes → Boxes
  | [], _, boxes => boxes
  | c :: rest, .ok, boxes => runCommands path rest .ok (c.run path (fun _ => true) boxes)
  | c :: _, .broke 0 hit, boxes => c.run path hit boxes
  | c :: rest, .broke (k + 1) hit, boxes =>
      runCommands path rest (.broke k hit) (c.run path (fun _ => true) boxes)

/-! ### The commands a session's methods send -/

def storeFlags (uids : List Nat) (flag : Flag) (on : Bool) : List Command :=
  if uids = [] then [] else [.store flag on uids]

/-- Mark as deleted and expunge. The `EXPUNGE` takes every mail so marked with it. -/
def delete (uids : List Nat) : List Command := storeFlags uids .deleted true ++ [.expunge]

/-- `MOVE` where the server has it, otherwise `COPY` and delete. -/
def move (canMove : Bool) (target : Text) (uids : List Nat) : List Command :=
  if uids = [] then []
  else if canMove then [.move target uids]
  else .copy target uids :: delete uids

end FlyMail.Imap
