/-
Deadlines of a connection to a mail server.

`timeoutConn` stands in front of a connection.  It turns "no deadline" into the time the connection
may be idle, and keeps a hard deadline for as long as a handshake, a probe or a logout may take.

Each call works out a deadline under the lock and sets it on the connection below after the lock is
released, so other calls may come in between.  A deadline of `none` is the zero time.

The journal `armed` plays no part in what happens.
-/
import FlyMail.Lib.Calls

namespace FlyMail.Imap.Timeout

/-- A moment or a length of time, in seconds. -/
abbrev Seconds := Int

def connIdleTimeout : Seconds := 5 * 60

structure TimeoutConn where
  /-- What no deadline is turned into. -/
  idle : Seconds
  hard : Option Seconds
  /-- The deadlines in force on the connection below. -/
  read : Option Seconds
  write : Option Seconds
  /-- The read deadline has been set. -/
  armed : Bool
  deriving DecidableEq, Repr

def newTimeoutConn : TimeoutConn := ⟨connIdleTimeout, none, none, none, false⟩

inductive Request
  | setReadDeadline (t : Option Seconds)
  | setIdleTimeout (d : Seconds)
  | setHardDeadline (d : Seconds)
  | clearHardDeadline
  deriving DecidableEq, Repr

/-- The point a call has come to. -/
inductive Frame
  | setReadDeadline (t : Option Seconds)
  | setIdleTimeout (d : Seconds)
  | setHardDeadline (d : Seconds)
  /-- `setHardDeadline` waits for the lock. -/
  | locking (deadline : Seconds)
  | clearHardDeadline
  /-- `SetReadDeadline` is about to set the deadline. -/
  | setting (t : Option Seconds)
  /-- `setIdleTimeout` is about to work out the deadline and set it. -/
  | rearming (d : Seconds) (hard : Option Seconds)
  /-- `setHardDeadline` is about to set both deadlines. -/
  | settingBoth (deadline : Seconds)
  /-- `clearHardDeadline` is about to set the write deadline. -/
  | clearing (idle : Seconds)
  /-- `clearHardDeadline` is about to set the read deadline. -/
  | resetting (idle : Seconds)
  | done
  deriving DecidableEq, Repr

/-- The hard deadline, if there is one and it is the earlier. -/
def capped (hard t : Option Seconds) : Option Seconds :=
  match hard, t with
  | some h, none => some h
  | some h, some t => if h < t then some h else some t
  | none, t => t

/-- What `SetReadDeadline` works out. -/
def TimeoutConn.deadline (c : TimeoutConn) (now : Seconds) (t : Option Seconds) : Option Seconds :=
  capped c.hard (if t = none ∧ 0 < c.idle then some (now + c.idle) else t)

/-- `SetReadDeadline` of the connection below. -/
def TimeoutConn.setRead (c : TimeoutConn) (t : Option Seconds) : TimeoutConn :=
  { c with read := t, armed := true }

/-- The next operation of a call, by the clock. -/
def next (now : Seconds) : Frame → TimeoutConn → Option (TimeoutConn × Frame)
  | .setReadDeadline t, c => some (c, .setting (c.deadline now t))
  | .setting t, c => some (c.setRead t, .done)
  | .setIdleTimeout d, c => some ({ c with idle := d }, .rearming d c.hard)
  | .rearming d hard, c => some (c.setRead (capped hard (some (now + d))), .done)
  | .setHardDeadline d, c => some (c, .locking (now + d))
  | .locking deadline, c => some ({ c with hard := some deadline }, .settingBoth deadline)
  | .settingBoth deadline, c => some ({ c.setRead (some deadline) with write := some deadline }, .done)
  | .clearHardDeadline, c => some ({ c with hard := none }, .clearing c.idle)
  | .clearing idle, c => some ({ c with write := none }, .resetting idle)
  | .resetting idle, c => some (c.setRead (some (now + idle)), .done)
  | .done, _ => none

def enter : Request → Frame
  | .setReadDeadline t => .setReadDeadline t
  | .setIdleTimeout d => .setIdleTimeout d
  | .setHardDeadline d => .setHardDeadline d
  | .clearHardDeadline => .clearHardDeadline

def service : Service Request Seconds Empty Frame TimeoutConn where
  enter := enter
  next := next
  outside := fun e _ => nomatch e

end FlyMail.Imap.Timeout
