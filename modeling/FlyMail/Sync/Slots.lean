/-
The slots for full synchronisations.

A full synchronisation of an account holds one of a limited number of slots while it goes
through the account's folders.  A poll that finds no slot is put off.  A synchronisation
the user asked for waits and tries again.

A runner works on one thing at a time, but a poll lets foreground tasks in between two
folders, and a synchronisation the user asked for is such a task.
-/
import FlyMail.Lib.Calls

namespace FlyMail.Sync.Slots

/-- The slots taken, and how many there are. -/
structure Counter where
  active : Nat
  limit : Nat
  deriving DecidableEq, Repr

def acquireSyncSlot (s : Counter) : Option Counter :=
  if s.active ≥ s.limit then none else some { s with active := s.active + 1 }

def releaseSyncSlot (s : Counter) : Counter :=
  if s.active > 0 then { s with active := s.active - 1 } else s

/-- Where a runner takes a foreground task. -/
inductive Place
  /-- Between its tasks. -/
  | ready
  /-- Between two folders of a poll, which holds a slot. -/
  | polling
  /-- Between two folders of the bodies fetched after a poll, when the slot is given back. -/
  | bodies
  deriving DecidableEq, Repr

/-- What a runner is doing. -/
inductive Phase
  | working (p : Place)
  /-- In the loop of `triggeredFullSync`, refused a slot. -/
  | waiting (p : Place)
  /-- The synchronisation the user asked for holds a slot. -/
  | syncing (p : Place)
  /-- It fetches bodies, its slot given back. -/
  | filling (p : Place)
  deriving DecidableEq, Repr

/-- What happens to a runner next. -/
inductive Happening
  /-- The poll timer goes off. -/
  | poll
  /-- The foreground task taken up is a synchronisation the user asked for. -/
  | trigger
  /-- `syncSlotRetry` is over. -/
  | retry
  /-- The user does not wait any longer. -/
  | cancel
  /-- What the runner is doing ends, well or not. -/
  | finish (ok : Bool)
  deriving DecidableEq, Repr

/-- `FullSync` as a foreground task: the slot is there, or the runner has to wait. -/
def triggeredFullSync (p : Place) (s : Counter) : Counter × Phase :=
  match acquireSyncSlot s with
  | some s' => (s', .syncing p)
  | none => (s, .waiting p)

/-- A runner's next step. -/
def next : Happening → Phase → Counter → Option (Counter × Phase)
  | .poll, .working .ready, s =>
      match acquireSyncSlot s with
      | some s' => some (s', .working .polling)
      | none => some (s, .working .ready)
  | .trigger, .working p, s => some (triggeredFullSync p s)
  | .retry, .waiting p, s => some (triggeredFullSync p s)
  | .cancel, .waiting p, s => some (s, .working p)
  | .finish ok, .working .polling, s =>
      some (releaseSyncSlot s, .working (if ok then .bodies else .ready))
  | .finish _, .working .bodies, s => some (s, .working .ready)
  | .finish ok, .syncing p, s =>
      some (releaseSyncSlot s, if ok then .filling p else .working p)
  | .finish _, .filling p, s => some (s, .working p)
  | _, _, _ => none

/-- Runners start, work side by side, and the user changes the limit, which is never below
one. -/
def service : Service Unit Happening { n : Nat // 1 ≤ n } Phase Counter where
  enter := fun _ => .working .ready
  next := next
  outside := fun n s => { s with limit := n.val }

/-- The slots a runner holds at this place. -/
def Place.holds : Place → Nat
  | .polling => 1
  | _ => 0

/-- The slots a runner holds. -/
def Phase.holds : Phase → Nat
  | .working p => p.holds
  | .waiting p => p.holds
  | .syncing p => p.holds + 1
  | .filling p => p.holds

/-- The runner is in the loop of `triggeredFullSync`. -/
def Phase.waits : Phase → Bool
  | .waiting _ => true
  | _ => false

/-! ### What a run may be asked to keep to -/

/-- A poll takes up a synchronisation the user asked for only if there is a slot for it. -/
def slotForTrigger (p : Pool Phase Counter) : Turn Unit Happening { n : Nat // 1 ≤ n } → Bool
  | .go i .trigger =>
      match p.calls[i]? with
      | some (.working .polling) => decide (p.store.active < p.store.limit)
      | _ => true
  | _ => true

end FlyMail.Sync.Slots
