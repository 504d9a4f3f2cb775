/-
The loop of a runner and the session it holds.

A runner holds at most one session with its account's server.  It opens one when it needs
it, keeps it in IDLE while there is nothing to do, and closes it when something went wrong
or when it has been idle for long.  The variable that holds the session is shared by
pointer: a poll hands it to `FullSync`, which lets foreground tasks in between two
folders, and each of these may close the session and open another one.

Calling a method on a session that is not there ends the program, and that is what
`panicked` stands for.  How long things take and how they end is the label's choice.
Timers and gates are the source's: the breaker, the growing delay between dials, and the
pause after the authorization was refused.  Times are in seconds; `0` is the zero time.
-/
import FlyMail.Lib.Run
import FlyMail.Store

namespace FlyMail.Sync.Loop

def dialBackoffBase : Time := 1
def dialBackoffMax : Time := 60
def staleAfter : Time := 30
def needsReauthBackoff : Time := 30 * 60
def breakerThreshold : Nat := 5
def breakerCooldown : Time := 10 * 60

/-! ### The breaker -/

structure Breaker where
  failures : Nat
  openUntil : Time
  deriving DecidableEq, Repr

def Breaker.recordSuccess (_ : Breaker) : Breaker := ⟨0, 0⟩

def Breaker.recordFailure (b : Breaker) (now : Time) : Breaker :=
  ⟨b.failures + 1, if b.failures + 1 ≥ breakerThreshold then now + breakerCooldown else b.openUntil⟩

def Breaker.allowBackground (b : Breaker) (now : Time) : Bool :=
  b.openUntil == 0 || decide (b.openUntil < now)

/-! ### The runner -/

/-- A session: what the server and the implementation offer. -/
structure Session where
  canIDLE : Bool
  /-- It has the optional `Noop`. -/
  canNoop : Bool
  deriving DecidableEq, Repr

/-- Where the loop stands. -/
inductive Phase
  /-- At the top of an iteration. -/
  | top
  /-- Waiting for something to happen. -/
  | select
  /-- In `doPoll`, `FullSync` called and no slot asked for yet. -/
  | fullSync
  /-- `FullSync` goes through the folders.  How the last foreground task that was let in
  ended, if any was. -/
  | folders (last : Option Bool)
  /-- `FullSync` has gone through the folders and fetches bodies. -/
  | bodies
  deriving DecidableEq, Repr

structure Runner where
  sess : Option Session
  /-- The session is in IDLE. -/
  idle : Bool
  breaker : Breaker
  dialBackoff : Time
  nextDialAt : Time
  needsReauthUntil : Time
  lastUsedAt : Time
  now : Time
  phase : Phase
  deriving DecidableEq, Repr

/-- A method was called on a session that is not there. -/
inductive Panic
  | nilSession
  deriving DecidableEq, Repr

/-- The session a method is called on. -/
def Runner.session (r : Runner) : Except Panic Session :=
  match r.sess with
  | some s => .ok s
  | none => .error .nilSession

/-- `Close`, and the variable is cleared. -/
def Runner.close (r : Runner) : Except Panic Runner := do
  let _ ← r.session
  return { r with sess := none }

/-- How an attempt to connect ends. -/
inductive Dial
  | connected (s : Session)
  | failed
  /-- There is no access token without a new authorization. -/
  | needsReauth
  deriving DecidableEq, Repr

/-- How a task ends: a `Noop` and a dial, where they are tried, and the task itself. -/
structure TaskLuck where
  noop : Bool
  dial : Dial
  run : Bool
  deriving DecidableEq, Repr

def Runner.onDialFailure (r : Runner) : Runner :=
  let backoff := if r.dialBackoff = 0 then dialBackoffBase else min (r.dialBackoff * 2) dialBackoffMax
  { r with
    breaker := r.breaker.recordFailure r.now
    dialBackoff := backoff
    nextDialAt := r.now + backoff }

/-- `dialConn`, and what its callers do about the outcome. -/
def Runner.dialConn (r : Runner) : Dial → Runner × Bool
  | .connected s =>
      ({ r with
        sess := some s
        lastUsedAt := r.now
        dialBackoff := 0
        nextDialAt := 0
        needsReauthUntil := 0 }, true)
  | .failed => (r.onDialFailure, false)
  | .needsReauth => ({ r.onDialFailure with needsReauthUntil := r.now + needsReauthBackoff }, false)

def Runner.ensureAlive (r : Runner) (noop : Bool) : Except Panic Runner :=
  match r.sess with
  | none => return r
  | some s =>
      if r.lastUsedAt = 0 ∨ r.now - r.lastUsedAt < staleAfter ∨ s.canNoop = false then return r
      else if noop then return { r with lastUsedAt := r.now }
      else do
        let r ← r.close
        return { r with lastUsedAt := 0 }

/-- A background task is not run now. -/
def Runner.gated (r : Runner) : Bool :=
  !r.breaker.allowBackground r.now ||
    (r.nextDialAt != 0 && r.sess.isNone && decide (r.now < r.nextDialAt)) ||
    (r.needsReauthUntil != 0 && decide (r.now < r.needsReauthUntil))

/-- `t.run` on the runner's session, and what follows from how it ends. -/
def Runner.runTask (r : Runner) (ok foreground : Bool) : Except Panic (Runner × Bool) := do
  let _ ← r.session
  if ok then return ({ r with breaker := r.breaker.recordSuccess, lastUsedAt := r.now }, true)
  else
    let r ← r.close
    let breaker := if foreground then r.breaker else r.breaker.recordFailure r.now
    return ({ r with lastUsedAt := 0, breaker := breaker }, false)

/-- `exec`; whether the task succeeded is what the caller is told. -/
def Runner.exec (r : Runner) (t : TaskLuck) (foreground : Bool) : Except Panic (Runner × Bool) :=
  if !foreground && r.gated then return (r, false)
  else do
    let r ← r.ensureAlive t.noop
    if r.sess.isNone then
      match r.dialConn t.dial with
      | (r, true) => r.runTask t.run foreground
      | (r, false) => return (r, false)
    else r.runTask t.run foreground

/-- Foreground tasks one after another. -/
def Runner.execAll (r : Runner) : List TaskLuck → Except Panic Runner
  | [] => return r
  | t :: rest => do
      let (r, _) ← r.exec t true
      r.execAll rest

/-- What every branch of the loop begins with: IDLE is ended, and a session on which that
failed is closed. -/
def Runner.leaveIdle (r : Runner) (stopped : Bool) : Except Panic Runner :=
  if r.idle && !stopped && r.sess.isSome then { r with idle := false }.close
  else return { r with idle := false }

/-- The top of an iteration: a session that can is put into IDLE. -/
def Runner.enterIdle (r : Runner) (allowed selected started : Bool) : Except Panic Runner :=
  if r.sess.isSome && !r.idle then do
    let s ← r.session
    if s.canIDLE && allowed && selected && started then return { r with idle := true } else return r
  else return r

/-- `case <-r.idleCh`. -/
def Runner.inboxSync (r : Runner) (ok : Bool) : Except Panic Runner :=
  if r.sess.isSome then do
    let _ ← r.session
    if ok then return { r with breaker := r.breaker.recordSuccess }
    else
      let r ← r.close
      return { r with breaker := r.breaker.recordFailure r.now }
  else return r

/-- `doPoll` up to the call of `FullSync`. -/
def Runner.beginPoll (r : Runner) (noop : Bool) (dial : Dial) : Except Panic Runner :=
  if !r.breaker.allowBackground r.now ||
      (r.needsReauthUntil != 0 && decide (r.now < r.needsReauthUntil)) then
    return { r with phase := .top }
  else do
    let r ← r.ensureAlive noop
    if r.sess.isNone then
      if r.nextDialAt != 0 && decide (r.now < r.nextDialAt) then return { r with phase := .top }
      else
        match r.dialConn dial with
        | (r, true) => do
            let _ ← r.session
            return { r with phase := .fullSync }
        | (r, false) => return { r with phase := .top }
    else
      let _ ← r.session
      return { r with phase := .fullSync }

/-- `doPoll` when `FullSync` has failed. -/
def Runner.failPoll (r : Runner) : Except Panic Runner := do
  let r ← r.close
  return { { r with lastUsedAt := 0 }.onDialFailure with phase := .top }

/-! ### The loop -/

/-- What happens next, and how it ends. -/
inductive Label
  | tick (seconds : Nat)
  | enter (allowed selected started : Bool)
  | shutdown
  | foreground (stopped : Bool) (t : TaskLuck)
  | background (stopped : Bool) (first : List TaskLuck) (t : TaskLuck)
  | idleEvent (stopped ok : Bool)
  | poll (stopped noop : Bool) (dial : Dial)
  | refresh
  | idleDone
  | idleClose
  /-- `FullSync` gets no slot. -/
  | slotBusy
  | slotTaken
  /-- Between two folders a foreground task is let in. -/
  | boundary (t : TaskLuck)
  /-- `FullSync` is through with the folders, or fails. -/
  | foldersEnd (ok : Bool)
  | bodiesEnd
  deriving Repr

/-- The life of a loop: it runs, it was shut down, or it panicked. -/
inductive Life
  | running (r : Runner)
  | stopped
  | panicked
  deriving DecidableEq, Repr

def Life.of : Except Panic Runner → Life
  | .ok r => .running r
  | .error _ => .panicked

/-- A step of the loop, where it can be taken. -/
def Runner.step (r : Runner) : Label → Option (Except Panic Runner)
  | .tick seconds => some (.ok { r with now := r.now + seconds })
  | .enter allowed selected started =>
      if r.phase = .top then
        some ((r.enterIdle allowed selected started).map fun r => { r with phase := .select })
      else none
  | .shutdown => none
  | .foreground stopped t =>
      if r.phase = .select then
        some do
          let r ← r.leaveIdle stopped
          let (r, _) ← r.exec t true
          return { r with phase := .top }
      else none
  | .background stopped first t =>
      if r.phase = .select then
        some do
          let r ← r.leaveIdle stopped
          let r ← r.execAll first
          let (r, _) ← r.exec t false
          return { r with phase := .top }
      else none
  | .idleEvent stopped ok =>
      if r.phase = .select then
        some do
          let r ← r.leaveIdle stopped
          let r ← r.inboxSync ok
          return { r with phase := .top }
      else none
  | .poll stopped noop dial =>
      if r.phase = .select then
        some do
          let r ← r.leaveIdle stopped
          r.beginPoll noop dial
      else none
  | .refresh =>
      if r.phase = .select ∧ r.idle = true then some (.ok { r with idle := false, phase := .top })
      else none
  | .idleDone =>
      if r.phase = .select ∧ r.idle = true then
        some do
          let r ← if r.sess.isSome then r.close else pure r
          return { r with idle := false, breaker := r.breaker.recordFailure r.now, phase := .top }
      else none
  | .idleClose =>
      -- the timer runs only with a session that is not in IDLE
      if r.phase = .select ∧ r.sess.isSome = true ∧ r.idle = false then
        some do
          let r ← r.close
          return { r with phase := .top }
      else none
  | .slotBusy => if r.phase = .fullSync then some (.ok { r with phase := .top }) else none
  | .slotTaken =>
      if r.phase = .fullSync then some (.ok { r with phase := .folders none }) else none
  | .boundary t =>
      match r.phase with
      | .folders _ =>
          some do
            let (r, ok) ← r.exec t true
            return { r with phase := .folders (some ok) }
      | .bodies =>
          some do
            let (r, _) ← r.exec t true
            return { r with phase := .bodies }
      | _ => none
  | .foldersEnd ok =>
      match r.phase with
      | .folders _ => some (if ok then .ok { r with phase := .bodies } else r.failPoll)
      | _ => none
  | .bodiesEnd =>
      if r.phase = .bodies then
        some (.ok { r with
          breaker := r.breaker.recordSuccess
          lastUsedAt := r.now
          phase := .top })
      else none

def Life.step : Life → Label → Option Life
  | .running r, .shutdown => if r.phase = .select ∨ r.phase = .top then some .stopped else none
  | .running r, l => (r.step l).map Life.of
  | _, _ => none

/-- A runner that has just been started. -/
def Runner.fresh (now : Time) : Runner := ⟨none, false, ⟨0, 0⟩, 0, 0, 0, 0, now, .top⟩

/-! ### What a run may be asked to keep to -/

/-- When `FullSync` fails, the last foreground task it let in, if any, had succeeded. -/
def lastTaskSucceeded : Life → Label → Bool
  | .running r, .foldersEnd false =>
      match r.phase with
      | .folders (some ok) => ok
      | _ => true
  | _, _ => true

end FlyMail.Sync.Loop
