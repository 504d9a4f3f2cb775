/-
The limiter in front of the login.

Failures are counted for each address a client comes from.  The first failure opens a
window of fifteen minutes, and once ten failures are counted in it the address is blocked
until the window is over.  A request asks the limiter, has its password verified, and
tells the limiter how that went: three operations, and between them any other request may
go on.  Moments and durations are in nanoseconds.

Whether a password is right is part of a request's luck.  The journal, `verified` and
`windows`, plays no part in what happens: it records the verifications that failed and the
windows that were opened.
-/
import FlyMail.Lib.Calls
import FlyMail.Store
import Mathlib.Logic.Function.Basic

namespace FlyMail.Auth.Limiter

def second : Nat := 10 ^ 9

def loginWindow : Nat := 15 * 60 * second

def loginMaxFailures : Nat := 10

/-- A row of `login_attempts`. -/
structure LoginAttempt where
  failures : Nat
  windowStart : Nat
  deriving DecidableEq, Repr

/-- `Check`: how long the address is still blocked, if it is. -/
def check (row : Option LoginAttempt) (now : Nat) : Option Nat :=
  match row with
  | none => none
  | some a =>
      let until_ := a.windowStart + loginWindow
      if a.failures ≥ loginMaxFailures ∧ now < until_ then some (until_ - now) else none

/-- `Fail`: one failure more, or the first of a new window. -/
def fail (row : Option LoginAttempt) (now : Nat) : LoginAttempt :=
  match row with
  | none => ⟨1, now⟩
  | some a => if a.windowStart + loginWindow ≤ now then ⟨1, now⟩ else ⟨a.failures + 1, a.windowStart⟩

/-- The seconds of the `Retry-After` header: rounded, and at least one. -/
def retryAfter (d : Nat) : Nat := max 1 ((d + second / 2) / second)

/-! ### The login handler -/

/-- How a verification ends. -/
inductive Verdict
  | wrong
  | right
  /-- The user's row could not be read. -/
  | error
  deriving DecidableEq, Repr

inductive Response
  | ok
  | tooManyRequests (retryAfter : Nat)
  | unauthorized
  | internalServerError
  deriving DecidableEq, Repr

/-- The point the login request from `ip` has come to. -/
inductive Frame
  | check (ip : Text)
  | verify (ip : Text)
  | fail (ip : Text)
  | reset (ip : Text)
  | done (r : Response)
  deriving DecidableEq, Repr

/-- The luck of one operation: the limiter's table may be out of reach; the password. -/
structure Luck where
  failed : Bool
  verdict : Verdict
  deriving DecidableEq, Repr

structure Store where
  attempts : Text → Option LoginAttempt
  now : Nat
  verified : List (Text × Nat)
  windows : List (Text × Nat)

/-- The next operation of a login request. -/
def next (x : Luck) : Frame → Store → Option (Store × Frame)
  | .check ip, s =>
      -- a limiter that cannot be asked lets the request through
      if x.failed then some (s, .verify ip) else
      match check (s.attempts ip) s.now with
      | some d => some (s, .done (.tooManyRequests (retryAfter d)))
      | none => some (s, .verify ip)
  | .verify ip, s =>
      match x.verdict with
      | .wrong => some ({ s with verified := s.verified ++ [(ip, s.now)] }, .fail ip)
      | .right => some (s, .reset ip)
      | .error => some (s, .done .internalServerError)
  | .fail ip, s =>
      if x.failed then some (s, .done .unauthorized) else
      let a := fail (s.attempts ip) s.now
      some ({ s with
        attempts := Function.update s.attempts ip (some a)
        windows := s.windows ++ [(ip, a.windowStart)] }, .done .unauthorized)
  | .reset ip, s =>
      if x.failed then some (s, .done .ok)
      else some ({ s with attempts := Function.update s.attempts ip none }, .done .ok)
  | .done _, _ => none

/-- Requests come from addresses, and time passes. -/
def service : Service Text Luck Nat Frame Store where
  enter := .check
  next := next
  outside := fun d s => { s with now := s.now + d }

/-- Before the first request. -/
def Store.fresh (now : Nat) : Store := ⟨fun _ => none, now, [], []⟩

/-! ### What a run may be asked to keep to -/

/-- The failures counted in the window that is open. -/
def running (row : Option LoginAttempt) (now : Nat) : Nat :=
  match row with
  | none => 0
  | some a => if now < a.windowStart + loginWindow then a.failures else 0

/-- The request from `ip` is past its check, and no failure of it is counted yet. -/
def Frame.inFlight (ip : Text) : Frame → Bool
  | .verify ip' => ip' == ip
  | .fail ip' => ip' == ip
  | _ => false

/-- The request's password was wrong, and the failure is not counted yet. -/
def Frame.uncounted (ip : Text) : Frame → Bool
  | .fail ip' => ip' == ip
  | _ => false

/-- The limiter's table is in reach, and no login succeeds. -/
def noSuccess (p : Pool Frame Store) : Turn Text Luck Nat → Bool
  | .go i x =>
      match p.calls[i]? with
      | some (.verify _) => x.verdict != .right
      | some (.reset _) => false
      | _ => !x.failed
  | _ => true

/-- A request that the check lets through finds fewer than `loginMaxFailures` failures,
those still to come of the requests already let through included. -/
def checksInTime (p : Pool Frame Store) : Turn Text Luck Nat → Bool
  | .go i _ =>
      match p.calls[i]? with
      | some (.check ip) =>
          (check (p.store.attempts ip) p.store.now).isSome ||
            decide (running (p.store.attempts ip) p.store.now + p.calls.countP (Frame.inFlight ip)
              < loginMaxFailures)
      | _ => true
  | _ => true

/-- The verifications of passwords from `ip` that failed in the window opened at `start`. -/
def Store.failedIn (s : Store) (ip : Text) (start : Nat) : Nat :=
  s.verified.countP fun e =>
    e.1 == ip && decide (start ≤ e.2) && decide (e.2 < start + loginWindow)

end FlyMail.Auth.Limiter
