/-
The workers of mail2im.

A request to change an account reads its row, saves it, and has a goroutine restart or stop the account's
worker; a request to delete it reads the row, stops the worker, and deletes the row.  `RestartWorker`
reads the row once more, stops the worker, and starts one from what it has read.  Each of these is a
database call or a section under the watcher's lock, and other calls may come in between.

One account and its worker are followed here.  The goroutine goes on as the call of its request.
-/
import FlyMail.Lib.Calls
import FlyMail.Mail2im.Account

namespace FlyMail.Mail2im.Watcher

structure State where
  /-- The account's row. -/
  row : Option Account
  /-- The worker that is registered for the account, by the row it was created from. -/
  worker : Option Account
  deriving DecidableEq, Repr

inductive Request
  | updateAccount (input : CreateAccountRequest)
  | deleteAccount
  deriving DecidableEq, Repr

/-- The point a call has come to. -/
inductive Frame
  | updateAccount (input : CreateAccountRequest)
  /-- The row is about to be saved. -/
  | saving (account : Account)
  | restartWorker
  /-- `RestartWorker` has read the row. -/
  | loaded (account : Account)
  | startWorker (account : Account)
  | stopWorker
  | deleteAccount
  /-- The worker is about to be stopped, for the row to be deleted then. -/
  | leaving
  /-- The row is about to be deleted. -/
  | deleting
  | done
  deriving DecidableEq, Repr

/-- `StartWorker`. -/
def State.startWorker (s : State) (account : Account) : State :=
  if !account.enabled then s
  else if s.worker.isSome then s
  else { s with worker := some account }

/-- `StopWorker`. -/
def State.stopWorker (s : State) : State := { s with worker := none }

/-- The next operation of a call. -/
def next (C : Crypto) (nonce : Nat) : Frame → State → Option (State × Frame)
  | .updateAccount input, s =>
      match s.row with
      | none => some (s, .done)
      | some existing =>
          match toAccount C nonce input (some existing) true with
          | none => some (s, .done)
          | some account => some (s, .saving account)
  -- Saving a row that is gone creates it again.
  | .saving account, s =>
      some ({ s with row := some account }, if account.enabled then .restartWorker else .stopWorker)
  | .restartWorker, s =>
      match s.row with
      | none => some (s, .done)
      | some account => some (s, .loaded account)
  | .loaded account, s => some (s.stopWorker, .startWorker account)
  | .startWorker account, s => some (s.startWorker account, .done)
  | .stopWorker, s => some (s.stopWorker, .done)
  | .deleteAccount, s =>
      match s.row with
      | none => some (s, .done)
      | some _ => some (s, .leaving)
  | .leaving, s => some (s.stopWorker, .deleting)
  | .deleting, s => some ({ s with row := none }, .done)
  | .done, _ => none

def enter : Request → Frame
  | .updateAccount input => .updateAccount input
  | .deleteAccount => .deleteAccount

def service (C : Crypto) : Service Request Nat Empty Frame State where
  enter := enter
  next := next C
  outside := fun e _ => nomatch e

end FlyMail.Mail2im.Watcher
