/-
The queue of changes to send, as statements over `writeback_ops`.

A change that could not be sent is tried again later and later: `writebackBackoff`
doubles from one minute up to half an hour.  A change keeps its place in the queue,
its row's primary key, but not its turn: `duePending` passes over a row whose time
has not come, whatever stands behind it.
-/
import FlyMail.Store

namespace FlyMail.WbStore

/-- A change that failed this often is given up. -/
def maxWritebackAttempts : Nat := 8

/-- Seconds. -/
def writebackBaseBackoff : Nat := 30

/-- Seconds. -/
def writebackMaxBackoff : Nat := 30 * 60

/-- How long to wait after the `attempts`-th failure. -/
def writebackBackoff (attempts : Nat) : Nat :=
  let attempts := if attempts < 1 then 1 else attempts
  if attempts > 20 then writebackMaxBackoff
  else
    let d := writebackBaseBackoff * 2 ^ attempts
    if d > writebackMaxBackoff then writebackMaxBackoff else d

/-- Store a new change, due at once where it does not say otherwise. -/
def enqueue (op : WritebackOp) (now : Time) (db : DB) : DB :=
  let due := if op.nextAttemptAt == 0 then now else op.nextAttemptAt
  { db with
    ops := db.ops.insert (fun n => { op with id := n, nextAttemptAt := due }) (fun _ => rfl)
      fun r hr => by
        have hle := db.ops.below r hr
        show r.id ≠ db.ops.last + 1
        omega }

def getByID (db : DB) (id : Nat) : Option WritebackOp := db.ops.get? id

def delete (id : Nat) (db : DB) : DB := { db with ops := db.ops.delete fun o => o.id == id }

/-- The account's changes whose time has come, oldest first. -/
def duePending (db : DB) (accountID : Nat) (now : Time) : List WritebackOp :=
  db.ops.rows.filter fun o => o.accountID == accountID && decide (o.nextAttemptAt ≤ now)

/-- All of the account's changes, oldest first. -/
def pendingByAccount (db : DB) (accountID : Nat) : List WritebackOp :=
  db.ops.rows.filter fun o => o.accountID == accountID

/-- The row after another failure. -/
def putOff (cause : Text) (now : Time) (o : WritebackOp) : WritebackOp :=
  { o with
    attempts := o.attempts + 1
    nextAttemptAt := now + writebackBackoff (o.attempts + 1)
    lastError := cause }

/-- Count a failure and put the change off. -/
def fail (id : Nat) (cause : Text) (now : Time) (db : DB) : DB :=
  { db with
    ops := db.ops.modify (fun o => o.id == id) (putOff cause now) (fun _ => rfl) fun _ => rfl }

theorem fail_rows (id : Nat) (cause : Text) (now : Time) (db : DB) :
    (fail id cause now db).ops.rows
      = db.ops.rows.map fun o => if o.id == id then putOff cause now o else o := rfl

/-! ### The waiting times -/

/-- The guard against overflow changes nothing: the wait is the doubled base, capped. -/
theorem writebackBackoff_eq (attempts : Nat) :
    writebackBackoff attempts = min (30 * 2 ^ max 1 attempts) writebackMaxBackoff := by
  have hmax : (if attempts < 1 then 1 else attempts) = max 1 attempts := by
    by_cases h : attempts < 1
    · rw [if_pos h]
      omega
    · rw [if_neg h]
      omega
  unfold writebackBackoff
  simp only [hmax, writebackBaseBackoff]
  by_cases hbig : max 1 attempts > 20
  · have hpow : 2 ^ 20 ≤ 2 ^ max 1 attempts := Nat.pow_le_pow_right (by decide) (by omega)
    rw [if_pos hbig]
    unfold writebackMaxBackoff
    omega
  · rw [if_neg hbig]
    by_cases hcap : 30 * 2 ^ max 1 attempts > writebackMaxBackoff
    · rw [if_pos hcap]
      omega
    · rw [if_neg hcap]
      omega

theorem writebackBackoff_le (attempts : Nat) :
    writebackBackoff attempts ≤ writebackMaxBackoff := by
  rw [writebackBackoff_eq]
  omega

/-- A change that failed is not due at once: at least a minute passes. -/
theorem le_writebackBackoff (attempts : Nat) : 60 ≤ writebackBackoff attempts := by
  have hpow : 2 ^ 1 ≤ 2 ^ max 1 attempts := Nat.pow_le_pow_right (by decide) (by omega)
  rw [writebackBackoff_eq]
  unfold writebackMaxBackoff
  omega

end FlyMail.WbStore
