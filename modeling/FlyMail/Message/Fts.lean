/-
The full-text index.

The index stores no texts, only entries, one for each mail row.  Triggers keep it: whatever
changes a mail row or a body also takes the row's entry out and puts a new one in, in the
same statement.  `RebuildFTS` empties the index and fills it again in batches: it first asks
how far the next batch goes, then enters the rows of the batch.  Others may write between any
two of its statements, and it may break off at each.

Which characters have no blanks between words, how a list of addresses is written down and
how HTML entities are decoded are parameters.

A state says of itself whether a rebuild has completed; nothing depends on that.
-/
import FlyMail.Lib.Postings
import FlyMail.Message.Body

namespace FlyMail.Message.Fts

/-! ### Words -/

/-- The pairs of neighbours of a run of characters. -/
def writeBigrams : Text → Text
  | [] => []
  | [c] => [c]
  | [c, d] => [c, d]
  | c :: d :: e :: rest => c :: d :: ' ' :: writeBigrams (d :: e :: rest)

def flush (run : Text) : Text := if run = [] then [] else ' ' :: writeBigrams run ++ [' ']

def tokenizeFrom (isCJK : Char → Bool) : Text → Text → Text
  | run, [] => flush run
  | run, c :: rest =>
      if isCJK c then tokenizeFrom isCJK (run ++ [c]) rest
      else flush run ++ c :: tokenizeFrom isCJK [] rest

/-- Every run of characters that have no blanks between words becomes its pairs. -/
def tokenize (isCJK : Char → Bool) (text : Text) : Text :=
  if text.any isCJK then tokenizeFrom isCJK [] text else text

example : tokenize (fun c => decide (0x4E00 ≤ c.toNat)) "张三给李四 mail".toList
    = " 张三 三给 给李 李四  mail".toList := by decide

/-! ### Entries -/

/-- The functions the statements use. -/
structure Functions where
  isCJK : Char → Bool
  json : List Address → Text
  unescape : Text → Text

/-- What is entered for a mail row. -/
structure Row where
  subject : Text
  fromName : Text
  fromAddr : Text
  recipients : Text
  body : Text
  deriving DecidableEq, Repr

def rowOf (fn : Functions) (t : Bodies) (m : Message) : Row :=
  let b := t.getByMessageID m.id
  let textBody := (b.map MessageBody.textBody).getD []
  let htmlBody := (b.map MessageBody.htmlBody).getD []
  { subject := tokenize fn.isCJK m.subject
    fromName := tokenize fn.isCJK m.fromName
    fromAddr := m.fromAddr
    recipients := tokenize fn.isCJK (fn.json m.toList ++ ' ' :: fn.json m.ccList)
    body := tokenize fn.isCJK
      (if textBody ≠ [] then textBody else stripHTML fn.unescape htmlBody) }

/-- Where `RebuildFTS` stands. -/
inductive Rebuild
  | idle
  /-- The rows up to `last` are entered. -/
  | scan (last : Nat)
  /-- The next batch goes up to `upper`. -/
  | fill (last upper : Nat)
  deriving DecidableEq, Repr

structure State where
  db : DB
  bodies : Bodies
  index : Postings Row
  rebuild : Rebuild
  /-- A rebuild has completed, and none has begun since. -/
  complete : Bool

def ftsRowSelect (fn : Functions) (s : State) (p : Nat → Bool) : Postings Row :=
  (s.db.messages.rows.filter fun m => p m.id).map fun m => (m.id, rowOf fn s.bodies m)

/-! ### Triggers -/

/-- Delete the entry of the row `old` and insert that of the row `new`. -/
def reindex (fn : Functions) (old new : Nat) (s : State) : State :=
  { s with index := s.index.remove old ++ ftsRowSelect fn s fun id => id == new }

def messagesAI (fn : Functions) (new : Message) : State → State := reindex fn new.id new.id

def messagesAU (fn : Functions) (old new : Message) (s : State) : State :=
  if old.subject ≠ new.subject ∨ old.fromName ≠ new.fromName ∨ old.fromAddr ≠ new.fromAddr ∨
      fn.json old.toList ≠ fn.json new.toList ∨ fn.json old.ccList ≠ fn.json new.ccList then
    reindex fn old.id new.id s
  else s

def messagesAD (old : Message) (s : State) : State := { s with index := s.index.remove old.id }

def messageBodiesAI (fn : Functions) (new : MessageBody) : State → State :=
  reindex fn new.messageID new.messageID

def messageBodiesAU (fn : Functions) (old new : MessageBody) (s : State) : State :=
  if old.textBody ≠ new.textBody ∨ old.htmlBody ≠ new.htmlBody then
    reindex fn new.messageID new.messageID s
  else s

def messageBodiesAD (fn : Functions) (old : MessageBody) : State → State :=
  reindex fn old.messageID old.messageID

/-! ### Writers -/

/-- What others write, row by row. -/
inductive Write
  | insert (m : Message)
  /-- The row gets other columns; its keys stay. -/
  | update (id : Nat) (m : Message)
  | delete (id : Nat)
  | insertBody (b : MessageBody)
  | updateBody (b : MessageBody)
  | deleteBody (messageID : Nat)
  deriving Repr

/-- The row `r` with the columns of `m`. -/
def updated (m r : Message) : Message := { m with id := r.id, folderID := r.folderID, uid := r.uid }

/-- One row written, and the triggers. -/
def State.write (fn : Functions) (s : State) : Write → Option State
  | .insert m =>
      if s.db.messages.rows.any fun r => r.key == m.key then none
      else
        some (messagesAI fn (Repository.asRow m (s.db.messages.last + 1))
          { s with db := Repository.upsert m s.db })
  | .update id m =>
      (Repository.getByID s.db id).map fun old =>
        messagesAU fn old (updated m old)
          { s with
            db :=
              { s.db with
                messages := s.db.messages.modify (fun r => r.id == id) (updated m) (fun _ => rfl)
                  fun _ => rfl } }
  | .delete id =>
      (Repository.getByID s.db id).map fun old =>
        messagesAD old { s with db := Repository.deleteByIDs [id] s.db }
  | .insertBody b =>
      if (s.bodies.getByMessageID b.messageID).isSome then none
      else
        some (messageBodiesAI fn b { s with bodies := s.bodies.upsert b })
  | .updateBody b =>
      (s.bodies.getByMessageID b.messageID).map fun old =>
        messageBodiesAU fn old b { s with bodies := s.bodies.upsert b }
  | .deleteBody messageID =>
      (s.bodies.getByMessageID messageID).map fun old =>
        messageBodiesAD fn old
          { s with
            bodies :=
              { s.bodies with
                bodies := s.bodies.bodies.filter fun b => b.messageID != messageID } }

/-! ### The rebuild -/

def ftsRebuildBatch : Nat := 2000

/-- The last key of the next batch. -/
def upperBound (s : State) (last : Nat) : Option Nat :=
  (((s.db.messages.rows.filter fun m => decide (last < m.id)).take ftsRebuildBatch).map
    Message.id).max?

/-- What can happen. A rebuild does not begin while another one is under way. -/
inductive Act
  | write (w : Write)
  | deleteAll
  | batchBound
  | backfill
  | abort
  deriving Repr

def step (fn : Functions) (s : State) : Act → Option State
  | .write w => s.write fn w
  | .deleteAll =>
      if s.rebuild = .idle then
        some { s with index := [], rebuild := .scan 0, complete := false }
      else none
  | .batchBound =>
      match s.rebuild with
      | .scan last =>
          match upperBound s last with
          | none => some { s with rebuild := .idle, complete := true }
          | some upper => some { s with rebuild := .fill last upper }
      | _ => none
  | .backfill =>
      match s.rebuild with
      | .fill last upper =>
          some { s with
            index := s.index ++ ftsRowSelect fn s fun id => decide (last < id) && decide (id ≤ upper)
            rebuild := .scan upper }
      | _ => none
  | .abort => if s.rebuild = .idle then none else some { s with rebuild := .idle }

end FlyMail.Message.Fts
