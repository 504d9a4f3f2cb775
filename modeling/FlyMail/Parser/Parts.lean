/-
The parts of a mail, one after another.

The reader of a mail is a parameter.  It answers with the next part, with the end, or with an error,
and a part's content is read from it in pieces, until they end or fail.  What is left to read is
finite: a part takes some of it, and so does an error about a charset or an encoding that is not
known.  Any other error need not, and may be repeated for ever.

`walkParts` is one loop for two purposes.  The list of a mail's attachments needs no more of a
content than its size, the download needs the bytes.
-/
import FlyMail.Parser.Headers
import Mathlib.Data.List.Basic
import Mathlib.Data.List.Induction

namespace FlyMail.Parser

/-! ### What the library answers -/

/-- What the code asks of the header of a part.  No parameters: the library returned an error. -/
structure PartHeader where
  contentType : Bytes
  typeParams : Option (List (Bytes × Bytes))
  dispositionParams : Option (List (Bytes × Bytes))
  filename : Bytes
  contentID : Bytes
  deriving DecidableEq, Repr

inductive Header
  | inline (h : PartHeader)
  | attachment (h : PartHeader)
  deriving DecidableEq, Repr

/-- An answer of `NextPart`: a part, `io.EOF`, an unknown charset or encoding, or another error. -/
inductive Answer
  | part (header : Header)
  | eof
  | unknown
  | other
  deriving DecidableEq, Repr

/-- How a piece of content ends: there may be more, there is no more, or reading failed. -/
inductive Piece
  | more
  | eof
  | failed
  deriving DecidableEq, Repr

/-- A reader in which finitely much is left to read. -/
structure Reader (S : Type) where
  nextPart : S → Answer × S
  /-- `Read` of the content of the part answered last. -/
  read : S → Bytes × Piece × S
  size : S → Nat
  size_part : ∀ {s h s'}, nextPart s = (.part h, s') → size s' < size s
  size_unknown : ∀ {s s'}, nextPart s = (.unknown, s') → size s' < size s
  size_other : ∀ {s s'}, nextPart s = (.other, s') → size s' ≤ size s
  size_more : ∀ {s bs s'}, read s = (bs, .more, s') → size s' < size s
  size_read : ∀ {s bs e s'}, read s = (bs, e, s') → size s' ≤ size s

/-! ### Attachments -/

structure AttachmentData where
  filename : Bytes
  contentType : Bytes
  contentID : Bytes
  isInline : Bool
  size : Nat
  content : Bytes
  err : Bool
  deriving DecidableEq, Repr

/-- The entry of an attachment in the list of a mail's attachments. -/
def AttachmentData.listed (a : AttachmentData) : Attachment :=
  ⟨a.filename, a.contentType, a.size, a.contentID, a.isInline⟩

def hasPrefix (s : Bytes) (p : Text) : Bool := (p.map byte).isPrefixOf s

def inlineFilename (h : PartHeader) : Bytes :=
  let name := (h.typeParams.bind fun params => params.lookup ("name".toList.map byte)).getD []
  match h.dispositionParams with
  | some params =>
      match params.lookup ("filename".toList.map byte) with
      | some fn => if fn = [] then name else fn
      | none => name
  | none => name

/-- The content id without its angle brackets. -/
def PartHeader.cid (h : PartHeader) : Bytes := trim h.contentID "<>".toList

def PartHeader.isPlain (h : PartHeader) : Bool := hasPrefix h.contentType "text/plain".toList

def PartHeader.isHtml (h : PartHeader) : Bool := hasPrefix h.contentType "text/html".toList

/-- How many errors that need not get on are put up with in a row. -/
def maxConsecutivePartErrs : Nat := 8

/-- The two bodies and the attachments found so far. -/
structure Walk where
  text : Bytes
  html : Bytes
  atts : List AttachmentData
  deriving DecidableEq, Repr

namespace Reader

variable {S : Type} (r : Reader S)

/-- `io.ReadAll`: the bytes, and whether it ended with an error. -/
def readAll (s : S) : Bytes × Bool × S :=
  match _h : r.read s with
  | (bs, .more, s') =>
      let (rest, failed, s'') := readAll s'
      (bs ++ rest, failed, s'')
  | (bs, .eof, s') => (bs, false, s')
  | (bs, .failed, s') => (bs, true, s')
termination_by r.size s
decreasing_by exact r.size_more ‹_›

/-- `io.Copy` to nowhere: how many bytes there were. -/
def discard (s : S) : Nat × S :=
  match _h : r.read s with
  | (bs, .more, s') =>
      let (n, s'') := discard s'
      (bs.length + n, s'')
  | (bs, .eof, s') => (bs.length, s')
  | (bs, .failed, s') => (bs.length, s')
termination_by r.size s
decreasing_by exact r.size_more ‹_›

def readAttachment (s : S) (filename ct cid : Bytes) (isInline capture : Bool) : AttachmentData × S :=
  if capture then
    let (b, failed, s') := r.readAll s
    (⟨filename, ct, cid, isInline, b.length, b, failed⟩, s')
  else
    let (n, s') := r.discard s
    (⟨filename, ct, cid, isInline, n, [], false⟩, s')

/-- What `walkParts` does with one part. -/
def walkPart (captureContent : Bool) (header : Header) (s : S) (w : Walk) : Walk × S :=
  match header with
  | .inline h =>
      if h.isPlain || h.isHtml then
        let (b, failed, s') := r.readAll s
        if failed then (w, s')
        else if h.isPlain && w.text = [] then ({ w with text := b }, s')
        else if h.isHtml && w.html = [] then ({ w with html := b }, s')
        else (w, s')
      else
        let (a, s') := r.readAttachment s (inlineFilename h) h.contentType h.cid true captureContent
        ({ w with atts := w.atts ++ [a] }, s')
  | .attachment h =>
      let (a, s') := r.readAttachment s h.filename h.contentType h.cid false captureContent
      ({ w with atts := w.atts ++ [a] }, s')

/-! ### Reading a content, piece by piece -/

theorem readAll_more {s s' : S} {bs : Bytes} (h : r.read s = (bs, .more, s')) :
    r.readAll s = (bs ++ (r.readAll s').1, (r.readAll s').2) := by
  rw [readAll]
  split <;> simp_all

theorem readAll_eof {s s' : S} {bs : Bytes} (h : r.read s = (bs, .eof, s')) : r.readAll s = (bs, false, s') := by
  rw [readAll]
  split <;> simp_all

theorem readAll_failed {s s' : S} {bs : Bytes} (h : r.read s = (bs, .failed, s')) :
    r.readAll s = (bs, true, s') := by
  rw [readAll]
  split <;> simp_all

/-- Reading a content to nowhere counts its bytes and leaves the same to read. -/
theorem discard_eq (s : S) : r.discard s = ((r.readAll s).1.length, (r.readAll s).2.2) := by
  induction s using discard.induct r with
  | case1 s bs s' hread n s'' hdiscard ih =>
    rw [readAll_more r hread, discard]
    split <;> simp_all
  | case2 s bs s' hread =>
    rw [readAll_eof r hread, discard]
    split <;> simp_all
  | case3 s bs s' hread =>
    rw [readAll_failed r hread, discard]
    split <;> simp_all

theorem size_readAll (s : S) : r.size (r.readAll s).2.2 ≤ r.size s := by
  induction s using discard.induct r with
  | case1 s bs s' hread n s'' hdiscard ih =>
    rw [readAll_more r hread]
    exact Nat.le_trans ih (r.size_read hread)
  | case2 s bs s' hread =>
    rw [readAll_eof r hread]
    exact r.size_read hread
  | case3 s bs s' hread =>
    rw [readAll_failed r hread]
    exact r.size_read hread

theorem readAttachment_snd (s : S) (filename ct cid : Bytes) (isInline capture : Bool) :
    (r.readAttachment s filename ct cid isInline capture).2 = (r.readAll s).2.2 := by
  unfold readAttachment
  split
  · rfl
  · simp only [discard_eq]

/-- A part is read to its end, whatever it is and whatever for. -/
theorem walkPart_snd (capture : Bool) (header : Header) (s : S) (w : Walk) :
    (r.walkPart capture header s w).2 = (r.readAll s).2.2 := by
  unfold walkPart
  cases header with
  | inline h =>
    simp only
    split
    · repeat' split
      all_goals rfl
    · exact r.readAttachment_snd ..
  | attachment h => exact r.readAttachment_snd ..

/-! ### The loop -/

/-- What the loop may still cost: each part, and each error that gets on, pays for as many errors that
do not. -/
def patience (s : S) (consecutiveErrs : Nat) : Nat :=
  (maxConsecutivePartErrs + 1) * r.size s + (maxConsecutivePartErrs - consecutiveErrs)

theorem patience_part {s s' s'' : S} {header : Header} (h : r.nextPart s = (.part header, s'))
    (hread : s'' = (r.readAll s').2.2) (errs : Nat) : r.patience s'' 0 < r.patience s errs := by
  have hlt := r.size_part h
  have hle := r.size_readAll s'
  unfold patience maxConsecutivePartErrs
  subst hread
  omega

theorem patience_unknown {s s' : S} (h : r.nextPart s = (.unknown, s')) (errs : Nat) :
    r.patience s' errs < r.patience s errs := by
  have hlt := r.size_unknown h
  unfold patience maxConsecutivePartErrs
  omega

theorem patience_other {s s' : S} (h : r.nextPart s = (.other, s')) {errs : Nat}
    (herrs : ¬ errs + 1 > maxConsecutivePartErrs) : r.patience s' (errs + 1) < r.patience s errs := by
  have hle := r.size_other h
  unfold patience
  unfold maxConsecutivePartErrs at *
  omega

/-- The loop of `walkParts`. -/
def walkLoop (captureContent : Bool) (s : S) (consecutiveErrs : Nat) (w : Walk) : Walk :=
  match _h : r.nextPart s with
  | (.eof, _) => w
  | (.unknown, s') => walkLoop captureContent s' consecutiveErrs w
  | (.other, s') =>
      if _h : consecutiveErrs + 1 > maxConsecutivePartErrs then w
      else walkLoop captureContent s' (consecutiveErrs + 1) w
  | (.part header, s') =>
      walkLoop captureContent (r.walkPart captureContent header s' w).2 0 (r.walkPart captureContent header s' w).1
termination_by r.patience s consecutiveErrs
decreasing_by
  · exact r.patience_unknown ‹_› _
  · exact r.patience_other ‹_› ‹_›
  · exact r.patience_part ‹_› (r.walkPart_snd ..) _

def walkParts (captureContent : Bool) (s : S) : Walk := r.walkLoop captureContent s 0 ⟨[], [], []⟩

end Reader

/-! ### The two ways -/

/-- The library with a reader for the parts of a mail, which `start` puts in front of the first. -/
def GoMessage.withParts {S : Type} (g : GoMessage) (r : Reader S) (start : Bytes → S) : GoMessage :=
  { g with
    walkParts := fun m =>
      let w := r.walkParts false (start m)
      (w.text, w.html, w.atts.map AttachmentData.listed) }

/-- `ExtractAttachments`: nothing if it returns an error. -/
def GoMessage.extractAttachments {S : Type} (g : GoMessage) (r : Reader S) (start : Bytes → S) (m : Bytes) :
    Option (List AttachmentData) :=
  match g.createReader (headerLines m) with
  | .reader => some (r.walkParts true (start m)).atts
  | _ => none

end FlyMail.Parser
