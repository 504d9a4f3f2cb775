/-
The bodies of mails.

A mail's header is stored when the mail comes in; its body comes later and by itself, or
not at all.  It is kept beside the mail's row, and the row says that it is there, gives a
line of it, and says whether the mail has attachments.  Before that the row says "no
attachments" whatever the mail has.

The HTML library's decoding of entities is a parameter.
-/
import FlyMail.Lib.Pattern
import FlyMail.Message.Service

namespace FlyMail

/-- A row of `message_bodies`, one for a mail. -/
structure MessageBody where
  messageID : Nat
  textBody : Text
  htmlBody : Text
  deriving DecidableEq, Repr

/-- A row of `attachments`. -/
structure Attachment where
  messageID : Nat
  filename : Text
  contentType : Text
  size : Int
  contentID : Text
  isInline : Bool
  deriving DecidableEq, Repr

/-- An attachment as it is fetched. -/
structure ParsedAttachment where
  filename : Text
  contentType : Text
  size : Int
  contentID : Text
  isInline : Bool
  deriving DecidableEq, Repr

/-- A mail as it is fetched with its body. -/
structure FetchedEmail extends ParsedEmail where
  textBody : Text
  htmlBody : Text
  attachments : List ParsedAttachment
  deriving DecidableEq, Repr

/-- The tables beside the mail rows. -/
structure Bodies where
  bodies : List MessageBody
  attachments : List Attachment
  deriving DecidableEq, Repr

/-- A state with the database and the bodies in it. -/
class HasBodies (σ : Type) extends HasDB σ where
  bodies : σ → Bodies
  setBodies : σ → Bodies → σ
  db_setBodies : ∀ s b, db (setBodies s b) = db s
  bodies_setBodies : ∀ s b, bodies (setBodies s b) = b
  bodies_setDB : ∀ s d, bodies (setDB s d) = bodies s

export HasBodies (bodies setBodies db_setBodies bodies_setBodies bodies_setDB)

attribute [simp] HasBodies.db_setBodies HasBodies.bodies_setBodies HasBodies.bodies_setDB

instance : HasDB (DB × Bodies) := ⟨Prod.fst, fun s d => (d, s.2), fun _ _ => rfl⟩

instance : HasBodies (DB × Bodies) :=
  ⟨Prod.snd, fun s b => (s.1, b), fun _ _ => rfl, fun _ _ => rfl, fun _ _ => rfl⟩

namespace Bodies

/-- Store a body in place of the one there may be. -/
def upsert (b : MessageBody) (t : Bodies) : Bodies :=
  { t with
    bodies :=
      if t.bodies.any fun r => r.messageID == b.messageID then
        t.bodies.map fun r => if r.messageID == b.messageID then b else r
      else t.bodies ++ [b] }

def getByMessageID (t : Bodies) (messageID : Nat) : Option MessageBody :=
  t.bodies.find? fun r => r.messageID == messageID

/-- Store a mail's attachments in place of those there may be. -/
def replaceAttachments (messageID : Nat) (atts : List Attachment) (t : Bodies) : Bodies :=
  { t with
    attachments := (t.attachments.filter fun a => a.messageID != messageID) ++ atts }

def listAttachments (t : Bodies) (messageID : Nat) : List Attachment :=
  t.attachments.filter fun a => a.messageID == messageID

/-- Storing a body replaces the mail's, and no other. -/
theorem getByMessageID_upsert (t : Bodies) (b : MessageBody) (id : Nat) :
    (t.upsert b).getByMessageID id
      = if id = b.messageID then some b else t.getByMessageID id := by
  have hmap : ∀ l : List MessageBody,
      (l.map fun r => if r.messageID == b.messageID then b else r).find? (fun r => r.messageID == id)
        = if id = b.messageID then (if l.any fun r => r.messageID == b.messageID then some b else none)
          else l.find? fun r => r.messageID == id := by
    intro l
    induction l with
    | nil => simp
    | cons r rest ih =>
        rw [List.map_cons, List.find?_cons, List.any_cons, List.find?_cons, ih]
        by_cases hr : r.messageID = b.messageID
        · by_cases hid : id = b.messageID
          · simp [hr, hid]
          · have hne : (b.messageID == id) = false := by simpa using Ne.symm hid
            simp [hr, hid, hne]
        · have hne : (r.messageID == b.messageID) = false := by simpa using hr
          by_cases hid : id = b.messageID
          · simp [hne, hid]
          · simp [hne, hid]
  unfold upsert getByMessageID
  by_cases hany : (t.bodies.any fun r => r.messageID == b.messageID) = true
  · simp only [hany, if_true]
    rw [hmap, if_pos hany]
  · simp only [hany]
    have hnone : ∀ r ∈ t.bodies, r.messageID ≠ b.messageID := by simpa using hany
    by_cases hid : id = b.messageID
    · have hfind : t.bodies.find? (fun r => r.messageID == b.messageID) = none := by
        simpa using hnone
      simp [hid, List.find?_append, hfind]
    · simp [List.find?_append, hid, Ne.symm hid]

theorem listAttachments_replace (t : Bodies) (messageID : Nat) {atts : List Attachment}
    (h : ∀ a ∈ atts, a.messageID = messageID) (id : Nat) :
    (t.replaceAttachments messageID atts).listAttachments id
      = if id = messageID then atts else t.listAttachments id := by
  unfold replaceAttachments listAttachments
  rw [List.filter_append, List.filter_filter]
  by_cases hid : id = messageID
  · subst hid
    have hnone : t.attachments.filter (fun a => a.messageID == id && a.messageID != id) = [] :=
      List.filter_eq_nil_iff.mpr fun a _ => by simp
    have hall : atts.filter (fun a => a.messageID == id) = atts :=
      List.filter_eq_self.mpr fun a ha => by simp [h a ha]
    rw [if_pos rfl, hnone, hall, List.nil_append]
  · have hsame : t.attachments.filter (fun a => a.messageID == id && a.messageID != messageID)
        = t.attachments.filter fun a => a.messageID == id := by
      refine List.filter_congr fun a _ => ?_
      by_cases ha : a.messageID = id
      · simp [ha, hid]
      · simp [ha]
    have hnone : atts.filter (fun a => a.messageID == id) = [] :=
      List.filter_eq_nil_iff.mpr fun a ha => by simp [h a ha, Ne.symm hid]
    rw [if_neg hid, hsame, hnone, List.append_nil]

end Bodies

namespace Message

open Proc Pattern

namespace Repository

def setThreadHeaders (id : Nat) (inReplyTo references : Text) (db : DB) : DB :=
  { db with
    messages := db.messages.modify (fun m => m.id == id)
      (fun m => { m with inReplyTo := inReplyTo, references := references })
      (fun _ => rfl) fun _ => rfl }

def markBodySynced (id : Nat) (snippet : Text) (hasAttachment : Bool) (db : DB) : DB :=
  { db with
    messages := db.messages.modify (fun m => m.id == id)
      (fun m => { m with bodySynced := true, snippet := snippet, hasAttachment := hasAttachment })
      (fun _ => rfl) fun _ => rfl }

theorem markBodySynced_rows {id : Nat} {snippet : Text} {hasAttachment : Bool} {db : DB} :
    (markBodySynced id snippet hasAttachment db).messages.rows = db.messages.rows.map fun m =>
      if m.id == id then
        { m with bodySynced := true, snippet := snippet, hasAttachment := hasAttachment }
      else m := rfl

/-- The first `limit` rows of the folder behind a primary key that have no body. -/
def pendingBodiesAfterID (db : DB) (folderID afterID limit : Nat) : List Message :=
  (db.messages.rows.filter fun m =>
    m.folderID == folderID && decide (afterID < m.id) && !m.bodySynced).take
      (if limit = 0 then 100 else limit)

end Repository

/-! ### Plain text -/

def reHTML : Pattern := seqs [one '<', .many (notChar '>'), one '>']

def stripHTML (html : Text) : Text := reHTML.replaceAll (fun _ => [' ']) html

def makeSnippet (text html : Text) : Text :=
  let s := Text.join (Text.fields (if text = [] then stripHTML html else text)) [' ']
  if s.length > 150 then s.take 150 ++ ['…'] else s

namespace Fts

def reScriptStyle : Pattern :=
  seqs [one '<', .alt (word "script") (word "style"), .stop isWord, .many (notChar '>'), one '>',
    .few fun _ => true, one '<', one '/', .alt (word "script") (word "style"), one '>']

def reSpace : Pattern :=
  .seq (.char fun c => isBlank c || c.toNat == 0xA0) (.many fun c => isBlank c || c.toNat == 0xA0)

/-- What of an HTML body is searched and matched. -/
def stripHTML (unescape : Text → Text) (s : Text) : Text :=
  if s = [] then []
  else
    let s := reScriptStyle.replaceAll (fun _ => [' ']) s
    let s := reHTML.replaceAll (fun _ => [' ']) s
    Text.trimSpace (reSpace.replaceAll (fun _ => [' ']) (unescape s))

end Fts

/-- The body as text, and whether there is one. -/
def bodyText (unescape : Text → Text) (t : Bodies) (messageID : Nat) : Text × Bool :=
  match t.getByMessageID messageID with
  | none => ([], false)
  | some b =>
      if b.textBody ≠ [] then (b.textBody, true) else (Fts.stripHTML unescape b.htmlBody, true)

def attachmentNames (t : Bodies) (messageID : Nat) : List Text :=
  ((t.listAttachments messageID).filter fun a => a.filename != []).map Attachment.filename

/-! ### Storing a body -/

/-- The statements of storing a body. -/
inductive BodyStmt
  | row
  | setThreadHeaders
  | thread (s : ThreadStmt)
  | body
  | attachments
  | markBodySynced
  deriving DecidableEq, Repr

def toAttachment (messageID : Nat) (a : ParsedAttachment) : Attachment where
  messageID := messageID
  filename := a.filename
  contentType := a.contentType
  size := a.size
  contentID := a.contentID
  isInline := a.isInline

section Store

variable {ι σ : Type} [HasBodies σ]

/-- The row with the header fields it did not have before. -/
def fillHeaders (m : Message) (e : FetchedEmail) : Message :=
  { m with
    inReplyTo := if m.inReplyTo = [] then e.inReplyTo else m.inReplyTo
    references := if m.references = [] then e.references else m.references }

/-- Header fields that come with the body and were not there before, and the thread they
lead to. -/
def backfillHeaders (digest : Text → Text) (at_ : BodyStmt → ι) (messageID : Nat)
    (e : FetchedEmail) : Proc ι Err σ Unit :=
  if e.inReplyTo ≠ [] ∨ e.references ≠ [] then do
    let m ← getRow (at_ .row) fun db => Repository.getByID db messageID
    let filled := fillHeaders m e
    if filled.inReplyTo ≠ m.inReplyTo ∨ filled.references ≠ m.references then do
      updateDB (at_ .setThreadHeaders) .db
        (Repository.setThreadHeaders m.id filled.inReplyTo filled.references)
      assignThreads digest (fun s => at_ (.thread s)) [filled]
    else pure ()
  else pure ()

def storeParsedBody (digest : Text → Text) (at_ : BodyStmt → ι) (messageID : Nat)
    (e : FetchedEmail) : Proc ι Err σ Unit := do
  backfillHeaders digest at_ messageID e
  update (at_ .body) .db fun s =>
    setBodies s ((bodies s).upsert ⟨messageID, e.textBody, e.htmlBody⟩)
  update (at_ .attachments) .db fun s =>
    setBodies s ((bodies s).replaceAttachments messageID (e.attachments.map (toAttachment messageID)))
  updateDB (at_ .markBodySynced) .db
    (Repository.markBodySynced messageID (makeSnippet e.textBody e.htmlBody)
      (e.attachments != []))

/-- The statements of storing what the server's own search found. -/
inductive SearchStmt
  | store (s : BatchStmt)
  | body (s : BodyStmt)
  deriving DecidableEq, Repr

/-- Store the mails a search on the server found and fetched, with their bodies. -/
def storeResults (digest : Text → Text) (at_ : Nat → SearchStmt → ι) (accountID folderID : Nat) :
    Nat → List FetchedEmail → Proc ι Err σ Unit
  | _, [] => pure ()
  | n, e :: rest => do
      let m ← storeFetched digest (fun s => at_ n (.store s)) accountID folderID e.toParsedEmail
      storeParsedBody digest (fun s => at_ n (.body s)) m.id e
      storeResults digest at_ accountID folderID (n + 1) rest

end Store

end Message

end FlyMail
