/-
Statements of programs that see more than the database.

The programs that fetch mail are written over any state with the database in it.  A
statement reads or changes the database and nothing beside it; what else a state holds
is the business of those the program calls.
-/
import FlyMail.Lib.Proc
import FlyMail.Store

namespace FlyMail

/-- A state with the database in it. -/
class HasDB (σ : Type) where
  db : σ → DB
  setDB : σ → DB → σ
  db_setDB : ∀ s d, db (setDB s d) = d

export HasDB (db setDB db_setDB)

attribute [simp] HasDB.db_setDB

instance : HasDB DB := ⟨id, fun _ d => d, fun _ _ => rfl⟩

@[simp] theorem db_self (d : DB) : db d = d := rfl

@[simp] theorem setDB_self (s d : DB) : setDB s d = d := rfl

variable {ι ε σ α : Type} [HasDB σ]

/-- A statement that reads the database. -/
def queryDB (i : ι) (e : ε) (f : DB → α) : Proc ι ε σ α := Proc.query i e fun s => .ok (f (db s))

/-- A statement that changes the database. -/
def updateDB (i : ι) (e : ε) (f : DB → DB) : Proc ι ε σ Unit :=
  Proc.update i e fun s => setDB s (f (db s))

/-! ### Where nothing fails and nobody interferes -/

@[simp] theorem queryDB_calm (i : ι) (e : ε) (f : DB → α) (s : σ) :
    queryDB i e f .calm s = (.ok (f (db s)), s) := rfl

@[simp] theorem updateDB_calm (i : ι) (e : ε) (f : DB → DB) (s : σ) :
    (updateDB i e f : Proc ι ε σ Unit) .calm s = (.ok (), setDB s (f (db s))) := rfl

end FlyMail
