/-
The status of an account's sync, as the user interface keeps it.

A status has the time of its last change in it, as the text that the server made of it.  Statuses come
in by the event stream and by polling, in any order, and one that is older than what is there is
dropped.  Older is what its text is.
-/
import FlyMail.Lib.Rfc3339

namespace FlyMail.Ui.SyncCache

/-- The status in the server, with what it tells of the sync. -/
structure Snapshot (β : Type) where
  updatedAt : Rfc3339.Stamp
  progress : β
  deriving DecidableEq

/-- The status as it arrives.  Old servers send no time. -/
structure SyncStatus (β : Type) where
  updatedAt : Option Text
  progress : β
  deriving DecidableEq

variable {β : Type}

/-- The JSON of a snapshot. -/
def Snapshot.status (s : Snapshot β) : SyncStatus β := ⟨some s.updatedAt.text, s.progress⟩

/-- `next.updated_at >= prev.updated_at`, if both are there. -/
def isNewerStatus (prev : Option (SyncStatus β)) (next : SyncStatus β) : Bool :=
  match prev.bind (·.updatedAt), next.updatedAt with
  | some p, some n => !decide (n < p)
  | _, _ => true

def writeSyncStatus (prev : Option (SyncStatus β)) (next : SyncStatus β) : Option (SyncStatus β) :=
  if isNewerStatus prev next then some next else prev

/-- What is there when these have arrived. -/
def cached (arrivals : List (Snapshot β)) : Option (SyncStatus β) :=
  (arrivals.map Snapshot.status).foldl writeSyncStatus none

end FlyMail.Ui.SyncCache
