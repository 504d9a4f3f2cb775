/-
The watcher of the accounts' health.

Once a minute the watcher compares which accounts are at fault now with those it has written
down as being at fault, and announces the differences.  An account is at fault if it has to
be authorised again, or else if the breaker of its runner is open.  The breaker opens after
five failures in a row and closes with a success, and it counts as closed once its cool-down
is over, so that the runner may try again.

`log` is what has been announced and which connections have succeeded, in this order; nothing
depends on it.  Times are in seconds.
-/
import FlyMail.Account.Model
import FlyMail.Sync.Loop

namespace FlyMail.Sync.Health

open Loop (Breaker)

def healthRepeatEvery : Time := 24 * 60 * 60

/-- What the watcher knows of an account. -/
structure AccountBrief where
  id : Nat
  name : Text
  email : Text
  status : AccountStatus
  enabled : Bool
  deriving DecidableEq, Repr

structure RunnerStat where
  breakerOpen : Bool
  breakerFailures : Nat
  lastError : Text
  deriving DecidableEq, Repr

inductive FaultKind
  | needsReauth
  | breaker
  deriving DecidableEq, Repr

/-- An account that is at fault. -/
structure HealthFault where
  kind : FaultKind
  since : Time
  lastNotif : Time
  deriving DecidableEq, Repr

inductive EventType
  | accountStatus
  | syncFailed
  deriving DecidableEq, Repr

/-- A notice, and whether it only goes out and is not kept. -/
structure Alert where
  event : EventType
  accountID : Nat
  external : Bool
  title : Text
  body : Text
  deriving DecidableEq, Repr

abbrev Faults := Nat → Option HealthFault

def Faults.set (faults : Faults) (id : Nat) (f : Option HealthFault) : Faults := fun i =>
  if i = id then f else faults i

/-- The breaker is open. -/
def openLocked (b : Breaker) (now : Time) : Bool := !b.allowBackground now

def reason (kind : FaultKind) (st : Option RunnerStat) : Text :=
  let lastError := (st.map RunnerStat.lastError).getD []
  match kind with
  | .needsReauth => "授权已失效，请重新授权账户".toList
  | .breaker => if lastError ≠ [] then lastError else "连接邮箱服务器持续失败".toList

def faultKind (b : AccountBrief) (st : Option RunnerStat) : Option FaultKind :=
  if b.status = .needsReauth then some .needsReauth
  else if (st.map RunnerStat.breakerOpen).getD false then some .breaker
  else none

def recovered (b : AccountBrief) : Alert where
  event := .accountStatus
  accountID := b.id
  external := false
  title := "同步已恢复：".toList ++ b.name
  body := "账户 ".toList ++ b.email ++ " 恢复正常同步。".toList

def stillFailing (b : AccountBrief) (f : HealthFault) (kind : FaultKind) (st : Option RunnerStat)
    (now : Time) : Alert where
  event := .syncFailed
  accountID := b.id
  external := true
  title := "同步异常持续：".toList ++ b.name
  body := "已持续 ".toList ++ Text.formatUint ((now - f.since) / (60 * 60) / 24) ++
    " 天无法同步——".toList ++ reason kind st

def failing (b : AccountBrief) (kind : FaultKind) (st : Option RunnerStat) : Alert where
  event := .syncFailed
  accountID := b.id
  external := false
  title := "同步异常：".toList ++ b.name
  body := "连续 ".toList ++ Text.formatUint ((st.map RunnerStat.breakerFailures).getD 0) ++
    " 次失败——".toList ++ reason kind st

/-- What the watcher does about one account. -/
def check (byStat : Nat → Option RunnerStat) (now : Time) (b : AccountBrief) (faults : Faults) :
    Faults × List Alert :=
  if b.enabled = false then (faults.set b.id none, [])
  else
    match faultKind b (byStat b.id), faults b.id with
    | none, none => (faults, [])
    | none, some _ => (faults.set b.id none, [recovered b])
    | some kind, some f =>
        if now - f.lastNotif ≥ healthRepeatEvery then
          (faults.set b.id (some { f with lastNotif := now }),
            [stillFailing b f kind (byStat b.id) now])
        else (faults, [])
    | some kind, none =>
        (faults.set b.id (some ⟨kind, now, now⟩),
          if kind = .breaker then [failing b kind (byStat b.id)] else [])

/-- One round of the watcher. -/
def runOnce (byStat : Nat → Option RunnerStat) (now : Time) :
    List AccountBrief → Faults → Faults × List Alert
  | [], faults => (faults, [])
  | b :: rest, faults =>
      let (faults, alerts) := check byStat now b faults
      let (faults, more) := runOnce byStat now rest faults
      (faults, alerts ++ more)

/-! ### The breakers and the watcher -/

inductive Entry
  /-- `RecordSuccess` of the account's breaker. -/
  | success (accountID : Nat)
  | alert (a : Alert)
  deriving DecidableEq, Repr

structure World where
  /-- The breakers of the accounts that have a runner. -/
  breakers : Nat → Option Breaker
  now : Time
  faults : Faults
  log : List Entry

/-- The watcher has just begun. -/
def World.new (breakers : Nat → Option Breaker) (now : Time) : World :=
  ⟨breakers, now, fun _ => none, []⟩

def World.stat (w : World) (lastError : Nat → Text) (accountID : Nat) : Option RunnerStat :=
  (w.breakers accountID).map fun b => ⟨openLocked b w.now, b.failures, lastError accountID⟩

def World.setBreaker (w : World) (accountID : Nat) (b : Breaker) : World :=
  { w with breakers := fun i => if i = accountID then some b else w.breakers i }

/-- What can happen. -/
inductive Act
  | recordFailure (accountID : Nat)
  | recordSuccess (accountID : Nat)
  | allowBackground (accountID : Nat)
  /-- Time passes. -/
  | pass (d : Time)
  /-- The watcher asks for the accounts, which may fail, and looks at them. -/
  | runOnce (briefs : Option (List AccountBrief)) (lastError : Nat → Text)

def step (w : World) : Act → Option World
  | .recordFailure id => (w.breakers id).map fun b => w.setBreaker id (b.recordFailure w.now)
  | .recordSuccess id => (w.breakers id).map fun b =>
      { w.setBreaker id b.recordSuccess with log := w.log ++ [.success id] }
  | .allowBackground id => (w.breakers id).map fun _ => w
  | .pass d => some { w with now := w.now + d }
  | .runOnce none _ => some w
  | .runOnce (some briefs) lastError =>
      let (faults, alerts) := Health.runOnce (w.stat lastError) w.now briefs w.faults
      some { w with faults := faults, log := w.log ++ alerts.map .alert }

end FlyMail.Sync.Health
