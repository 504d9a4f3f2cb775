/-
One queued change, from the row to the commands on the wire and back.

A row covers a group of mails by their UIDs, written into one column; `opUIDs` reads
them back.  Executing a row is one `SELECT` and the commands of one session method.
Whatever comes of it is settled in the queue: done rows go, failed rows wait, and a
row that failed too often goes as well.
-/
import FlyMail.Sync.WbStore
import FlyMail.Imap.Mailbox

namespace FlyMail.Sync

/-- The UIDs of a group as one text column. -/
def joinUIDs (uids : List UID) : Text := Text.commaJoin (uids.map fun u => Text.formatUint u.val)

/-- The UIDs a row covers; pieces that are no UID are passed over. -/
def opUIDs (op : WritebackOp) : List Nat :=
  if op.uids = [] then
    if op.uid = 0 then [] else [op.uid]
  else
    (Text.commaSplit op.uids).filterMap fun p =>
      match Text.parseUint 32 (Text.trimSpace p) with
      | some n => if n = 0 then none else some n
      | none => none

/-- The commands a row stands for. `canMove`: the server has the `MOVE` extension. -/
def applyWriteback (canMove : Bool) (op : WritebackOp) : List Imap.Command :=
  let uids := opUIDs op
  if uids = [] then []
  else
    match op.op with
    | .read => Imap.storeFlags uids .seen true
    | .unread => Imap.storeFlags uids .seen false
    | .star => Imap.storeFlags uids .flagged true
    | .unstar => Imap.storeFlags uids .flagged false
    | .move => Imap.move canMove op.targetPath uids
    | .expunge => Imap.delete uids

/-- Settle a row: `failed` is the error of the attempt, if it had one. -/
def settle (op : WritebackOp) (failed : Option Text) (now : Time) (db : DB) : DB :=
  match failed with
  | none => WbStore.delete op.id db
  | some cause =>
      match WbStore.getByID db op.id with
      | none => db
      | some row =>
          let db := WbStore.fail op.id cause now db
          if row.attempts + 1 ≥ WbStore.maxWritebackAttempts then WbStore.delete op.id db else db

/-! ### The UIDs of a row are the UIDs it was built from -/

/-- **A group's UIDs survive the queue.** -/
theorem opUIDs_joinUIDs {op : WritebackOp} {uids : List UID} (h : op.uids = joinUIDs uids)
    (hne : uids ≠ []) : opUIDs op = uids.map UID.val := by
  have hnil : op.uids ≠ [] := by
    cases uids with
    | nil => exact absurd rfl hne
    | cons u rest =>
        have hcomma : Text.commaJoin ((u.val :: rest.map UID.val).map Text.formatUint) ≠ [] :=
          Text.commaJoin_ne_nil
        rw [List.map_cons, List.map_map] at hcomma
        rw [h]
        exact hcomma
  have hsplit : Text.commaSplit op.uids = uids.map fun u => Text.formatUint u.val := by
    rw [h]
    refine Text.commaSplit_commaJoin (by simpa using hne) fun t ht => ?_
    obtain ⟨u, -, rfl⟩ := List.mem_map.mp ht
    exact Text.comma_notMem_formatUint u.val
  unfold opUIDs
  rw [if_neg hnil, hsplit, List.filterMap_map]
  have hpiece : ∀ u : UID, (match Text.parseUint 32 (Text.trimSpace (Text.formatUint u.val)) with
      | some n => if n = 0 then none else some n
      | none => none) = some u.val := by
    intro u
    have hpos : u.val ≠ 0 := Nat.pos_iff_ne_zero.mp u.pos
    rw [Text.trimSpace_formatUint, Text.parseUint_formatUint u.lt]
    simp only [if_neg hpos]
  simp only [Function.comp_def, hpiece]
  exact congrFun List.filterMap_eq_map uids

end FlyMail.Sync
