/-
What becomes of the snapshots of progress.

Whoever changes an account's record publishes the snapshot through the hub, in a queue for
events or in the one for progress, and the hub hands it to all who listen.  The hub carries
other frames, too: new mail, notices, the progress of other accounts.
-/
import FlyMail.Sync.Status

namespace FlyMail.Sync.Progress

/-- What is published. -/
inductive Frame
  | status (st : Status)
  | other (payload : Text)
  deriving DecidableEq, Repr

/-- The frame is a snapshot of the record. -/
def Frame.ofRound (startedAt : Nat) : Frame → Bool
  | .status st => st.startedAt == startedAt
  | .other _ => false

structure Feed where
  sys : System
  /-- Snapshots that are still to be published. -/
  outbox : List Status
  hub : Sse.Hub Frame

def Feed.new : Feed := ⟨.new, [], .new⟩

/-- What can happen. -/
inductive FeedAct
  | sync (a : Act)
  /-- The oldest snapshot is published. -/
  | send (order : List Nat)
  /-- The hub goes on, or others publish. -/
  | hub (a : Sse.Hub.Act Frame)

/-- The snapshot that is published. -/
def ownFrame : Sse.Hub.Act Frame → Bool
  | .publish (.status _) _ => true
  | .publishProgress (.status _) _ => true
  | _ => false

def Feed.step (f : Feed) : FeedAct → Option Feed
  | .sync a => (Progress.step f.sys a).map fun s =>
      { f with sys := s, outbox := f.outbox ++ s.store.log.drop f.sys.store.log.length }
  | .send order =>
      match f.outbox with
      | [] => none
      | st :: rest => (f.hub.step (publishStatus .status order st)).map fun h =>
          { f with outbox := rest, hub := h }
  | .hub a =>
      if ownFrame a then none else (f.hub.step a).map fun h => { f with hub := h }

end FlyMail.Sync.Progress
