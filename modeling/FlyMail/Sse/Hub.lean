/-
The hub: events to all who listen.

Every subscriber has two bounded queues.  Events that must not be lost go into the one; a
frame of progress goes into the other, where it may take the place of an older frame that
nobody has read.  Whoever publishes holds the hub's lock and goes through the subscribers,
in no particular order, one channel operation after another.  The consumers read without the
lock, and a subscription that is cancelled is taken from the hub under the lock and closes
its channels outside of it.

A step is one section under the lock or one operation on a channel.  `log`, `since` and
`received` play no part in what happens: they record which frames were published, how many
of them before a subscriber came, and which it has read.
-/
import FlyMail.Lib.Channel
import FlyMail.Lib.Run
import Mathlib.Data.List.Perm.Basic

namespace FlyMail.Sse

def eventBuffer : Nat := 16

def progressBuffer : Nat := 8

structure Subscriber (α : Type) where
  events : Chan α eventBuffer
  progress : Chan α progressBuffer
  /-- The hub has the subscriber. -/
  live : Bool
  since : Nat
  received : List α

/-- Where the one who holds the lock stands. The list names the subscribers that are still
to be gone through. -/
inductive Holder (α : Type)
  /-- `Publish`, in front of the next subscriber. -/
  | publish (x : α) (rest : List Nat)
  /-- `PublishProgress`, in front of the next subscriber. -/
  | offer (x : α) (rest : List Nat)
  /-- The queue of `i` was full, and its oldest frame is to go. -/
  | drain (x : α) (i : Nat) (rest : List Nat)
  | retry (x : α) (i : Nat) (rest : List Nat)

structure Hub (α : Type) where
  subs : List (Subscriber α)
  lock : Option (Holder α)
  log : List α
  /-- Something was sent on a closed channel. -/
  panicked : Bool

namespace Hub

variable {α : Type}

def new : Hub α := ⟨[], none, [], false⟩

/-- What can happen. -/
inductive Act (α : Type)
  | subscribe
  /-- `Cancel` takes the subscriber from the hub. -/
  | remove (i : Nat)
  | closeEvents (i : Nat)
  | closeProgress (i : Nat)
  /-- `Publish` takes the lock and is to go through the subscribers in this order. -/
  | publish (x : α) (order : List Nat)
  | publishProgress (x : α) (order : List Nat)
  /-- The one who holds the lock goes on. -/
  | go
  | receiveEvent (i : Nat)
  | receiveProgress (i : Nat)

/-- The subscribers the hub has. -/
def liveIDs (h : Hub α) : List Nat :=
  (List.range h.subs.length).filter fun i => (h.subs[i]?.map Subscriber.live).getD false

def modify (h : Hub α) (i : Nat) (f : Subscriber α → Subscriber α) : Hub α :=
  { h with subs := h.subs.modify i f }

/-- Send on a channel if there is room, and go on with `lock`. -/
def sendEvent (h : Hub α) (i : Nat) (s : Subscriber α) (x : α) (lock : Holder α) : Hub α :=
  { h.modify i (fun s => { s with events := s.events.offer x }) with
    lock := some lock
    panicked := h.panicked || s.events.closed }

def sendProgress (h : Hub α) (i : Nat) (s : Subscriber α) (x : α) (lock : Holder α) : Hub α :=
  { h.modify i (fun s => { s with progress := s.progress.offer x }) with
    lock := some lock
    panicked := h.panicked || s.progress.closed }

/-- The next operation of the one who holds the lock. -/
def go (h : Hub α) : Holder α → Option (Hub α)
  | .publish _ [] | .offer _ [] => some { h with lock := none }
  | .publish x (i :: rest) => h.subs[i]?.map fun s => h.sendEvent i s x (.publish x rest)
  | .offer x (i :: rest) => h.subs[i]?.map fun s =>
      h.sendProgress i s x (if s.progress.room then .offer x rest else .drain x i rest)
  | .drain x i rest => some { h.modify i (fun s => { s with progress := s.progress.drop }) with
      lock := some (.retry x i rest) }
  | .retry x i rest => h.subs[i]?.map fun s => h.sendProgress i s x (.offer x rest)

def step (h : Hub α) : Act α → Option (Hub α)
  | .subscribe =>
      if h.lock.isNone then
        some { h with subs := h.subs ++ [⟨.empty, .empty, true, h.log.length, []⟩] }
      else none
  | .remove i =>
      match h.lock, h.subs[i]? with
      | none, some s => if s.live then some (h.modify i fun s => { s with live := false }) else none
      | _, _ => none
  | .closeEvents i =>
      match h.subs[i]? with
      | some s =>
          if s.live || s.events.closed then none
          else some (h.modify i fun s => { s with events := s.events.close })
      | none => none
  | .closeProgress i =>
      match h.subs[i]? with
      | some s =>
          if s.events.closed && !s.progress.closed then
            some (h.modify i fun s => { s with progress := s.progress.close })
          else none
      | none => none
  | .publish x order =>
      if h.lock.isNone && decide (order.Perm h.liveIDs) then
        some { h with lock := some (.publish x order) }
      else none
  | .publishProgress x order =>
      if h.lock.isNone && decide (order.Perm h.liveIDs) then
        some { h with lock := some (.offer x order), log := h.log ++ [x] }
      else none
  | .go =>
      match h.lock with
      | some holder => h.go holder
      | none => none
  | .receiveEvent i =>
      match h.subs[i]? with
      | some s =>
          if s.events.queue = [] then none
          else some (h.modify i fun s => { s with events := s.events.drop })
      | none => none
  | .receiveProgress i =>
      match h.subs[i]? with
      | some s =>
          match s.progress.queue with
          | [] => none
          | x :: _ => some (h.modify i fun s =>
              { s with progress := s.progress.drop, received := s.received ++ [x] })
      | none => none

/-- A frame is being published. -/
def publishing (h : Hub α) : Bool :=
  match h.lock with
  | some (.offer _ _) | some (.drain _ _ _) | some (.retry _ _ _) => true
  | _ => false

/-- The frames published since the subscriber came. -/
def published (h : Hub α) (s : Subscriber α) : List α := h.log.drop s.since

end Hub

end FlyMail.Sse
