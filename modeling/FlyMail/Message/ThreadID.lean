/-
Old names of conversations.

A thread used to be named by its account and a Message-ID as it is, with the sender's domain in
it.  At every start such names, which are told by their `@`, are replaced by what new threads are
named by.  Rows of one name get one new name.  If two names come out the same nothing is changed
and the program does not start.

All rows are written in one transaction.
-/
import FlyMail.Message.Thread

namespace FlyMail.Message

open Proc

inductive ThreadIDErr
  | db
  /-- Two names come out as one. -/
  | collision (prev tid next : Text)
  deriving DecidableEq, Repr

inductive ThreadIDStmt
  | select
  | write
  deriving DecidableEq, Repr

/-- What the loop has found: the new names by the old, the old by the new, and the rows to change. -/
structure Opened where
  renamed : Text → Option Text
  taken : Text → Option Text
  updates : List (Nat × Text)

def Opened.empty : Opened := ⟨fun _ => none, fun _ => none, []⟩

/-- The body of the loop. -/
def openRow (digest : Text → Text) (st : Opened) (r : Message) : Except ThreadIDErr Opened :=
  match st.renamed r.threadID with
  | some next => .ok { st with updates := st.updates ++ [(r.id, next)] }
  | none =>
      match Text.cut r.threadID ':' with
      -- not a name of the old form
      | none => .ok st
      | some (acct, mid) =>
          let next := acct ++ ':' :: digest mid
          match st.taken next with
          | some prev => .error (.collision prev r.threadID next)
          | none =>
              .ok {
                renamed := Function.update st.renamed r.threadID (some next)
                taken := Function.update st.taken next (some r.threadID)
                updates := st.updates ++ [(r.id, next)] }

/-- Replace the names that show a Message-ID. -/
def ensureOpaqueThreadIDs (digest : Text → Text) : Proc ThreadIDStmt ThreadIDErr DB Unit := do
  let rows ← queryDB .select .db fun db => db.messages.rows.filter fun m => m.threadID.contains '@'
  match rows.foldlM (openRow digest) .empty with
  | .error e => throw e
  | .ok st =>
      if st.updates = [] then pure ()
      else updateDB .write .db (applyUpdates st.updates)

end FlyMail.Message
