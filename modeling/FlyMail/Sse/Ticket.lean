/-
Tickets for the stream of events.

A browser cannot send a header along with its request for the stream, so it first fetches a ticket, on
a route that asks for its access token, and names it in the address of the stream.  A ticket is 32 random
bytes, is good for `ticketTTL` after it was issued, and only once.

The store is a table under one lock, and a call's section under the lock is one step.  Expired tickets
are swept out when one is issued.  A stream subscribes to the hub after its ticket was accepted, and the
hub goes on in between (`Hub.step`).

`log` plays no part in what happens: it records which tickets were issued, with the instant at which they
expire, and which were asked for.  A call keeps in its frame the log and the clock it found.
-/
import FlyMail.Lib.OneTime
import FlyMail.Sse.Hub

namespace FlyMail.Sse

open OneTime (Offers Event Draw encodeToString)

/-- A minute, in nanoseconds. -/
def ticketTTL : Int := 60 * 1000000000

structure TicketStore where
  ttl : Int
  /-- The instant at which each ticket expires. -/
  items : Offers Text Int

def newTicketStore (ttl : Int) : TicketStore := ⟨ttl, .empty⟩

namespace TicketStore

/-- Without randomness there is no ticket. -/
def issue (s : TicketStore) (rand : Option Draw) (now : Int) : Option Text × TicketStore :=
  match rand with
  | none => (none, s)
  | some draw =>
      let t := encodeToString draw.buf
      (some t, { s with items := (s.items.sweep fun exp => decide (exp < now)).offer t (now + s.ttl) })

def consume (s : TicketStore) (ticket : Text) (now : Int) : Bool × TicketStore :=
  if ticket = [] then (false, s) else
  match s.items.get ticket with
  | none => (false, s)
  | some exp => (!decide (exp < now), { s with items := s.items.take ticket })

end TicketStore

/-! ### Streams -/

inductive Request
  /-- For a ticket; the access token has been checked. -/
  | ticket
  | stream (ticket : Text)
  deriving DecidableEq, Repr

/-- What a stream knows of the ticket it came with: the log in front of its own entry, and the clock. -/
structure Shown where
  ticket : Text
  past : List (Event Text Int)
  now : Int
  deriving DecidableEq, Repr

/-- The point a request has come to. -/
inductive Frame
  | issue
  | issued (ticket : Text) (now : Int)
  | internalServerError
  | consume (ticket : Text)
  | unauthorized (shown : Shown)
  | subscribe (shown : Shown)
  /-- The writer cannot stream. -/
  | unsupported (shown : Shown)
  | streaming (shown : Shown) (i : Nat)
  deriving DecidableEq, Repr

structure Luck where
  rand : Option Draw
  flusher : Bool

structure Store (α : Type) where
  tickets : TicketStore
  hub : Hub α
  now : Int
  log : List (Event Text Int)

variable {α : Type}

/-- The next step of a request. -/
def next (x : Luck) : Frame → Store α → Option (Store α × Frame)
  | .issue, s =>
      let r := s.tickets.issue x.rand s.now
      match r.1 with
      | none => some ({ s with tickets := r.2 }, .internalServerError)
      | some t =>
          some ({ s with tickets := r.2, log := .offer t (s.now + s.tickets.ttl) :: s.log }, .issued t s.now)
  | .consume ticket, s =>
      let r := s.tickets.consume ticket s.now
      let shown : Shown := ⟨ticket, s.log, s.now⟩
      some ({ s with tickets := r.2, log := if ticket = [] then s.log else .take ticket :: s.log },
        if r.1 then .subscribe shown else .unauthorized shown)
  | .subscribe shown, s =>
      if x.flusher then
        (s.hub.step .subscribe).map fun hub => ({ s with hub }, .streaming shown s.hub.subs.length)
      else some (s, .unsupported shown)
  | .issued _ _, _ | .internalServerError, _ | .unauthorized _, _ | .unsupported _, _ | .streaming _ _, _ => none

/-- Time passes, and the hub goes on. -/
inductive Outside (α : Type)
  | tick (d : Nat)
  | hub (a : Hub.Act α)

/-- Only a stream subscribes. -/
def outside : Outside α → Store α → Store α
  | .tick d, s => { s with now := s.now + d }
  | .hub .subscribe, s => s
  | .hub a, s => ((s.hub.step a).map fun hub => { s with hub }).getD s

def enter : Request → Frame
  | .ticket => .issue
  | .stream ticket => .consume ticket

def service : Service Request Luck (Outside α) Frame (Store α) where
  enter := enter
  next := next
  outside := outside

/-- The ticket a stream was let in with. -/
def Frame.accepted : Frame → Option Shown
  | .subscribe shown | .unsupported shown | .streaming shown _ => some shown
  | _ => none

def Frame.acceptedAs (k : Text) (f : Frame) : Bool := f.accepted.any fun shown => shown.ticket == k

def Frame.issuedAs (k : Text) : Frame → Bool
  | .issued t _ => t == k
  | _ => false

def Frame.streams : Frame → Bool
  | .streaming _ _ => true
  | _ => false

/-- Before the first request. -/
def Store.fresh (ttl now : Int) : Store α := ⟨newTicketStore ttl, Hub.new, now, []⟩

end FlyMail.Sse
