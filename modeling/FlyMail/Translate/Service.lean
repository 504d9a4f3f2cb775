/-
A mail is translated.

Subject and body become segments, their parts are numbered and sent in chunks, and what comes back is
applied.  Chunks are on their way at the same time and end in any order; a chunk that ends late may
also have been cancelled, after an error that concerns the others too.  A part that has not come back
stays as it was, and a mail of which nothing has come back is not translated.

The HTML parser, the renderer and the detection of languages are parameters, and so is how the chunks
end.
-/
import FlyMail.Translate.Codec

namespace FlyMail.Translate

def maxChunkRunes : Nat := 3000

def maxTotalRunes : Nat := 60000

/-! ### Chunks -/

/-- How a request ends. -/
inductive Ended (E : Type)
  | answered (raw : Text)
  | failed (err : E)
  | cancelled

/-- What the requests share. -/
structure Run (E : Type) where
  segs : List Segment
  fatal : Option E
  firstErr : Option E

section Run

variable {E : Type} (tolerant : Bool) (isFatal : E → Bool)

/-- A text for a unit, where its part is. -/
def write (raw : Text) (segs : List Segment) (u : Unit) : List Segment :=
  match entry raw u.id with
  | some text => segs.modify u.seg fun s => { s with out := s.out.set u.part text }
  | none => segs

def endChunk (r : Run E) : List Unit × Ended E → Run E
  | (_, .cancelled) => r
  | (_, .failed err) =>
      let firstErr := r.firstErr.or (some err)
      if (tolerant = false ∨ isFatal err = true) ∧ r.fatal.isNone = true then
        { r with firstErr := firstErr, fatal := some err }
      else { r with firstErr := firstErr }
  | (chunk, .answered raw) => { r with segs := chunk.foldl (write raw) r.segs }

/-- The chunks in the order they end in. -/
def runChunks (segs : List Segment) (ends : List (List Unit × Ended E)) : Run E :=
  ends.foldl (endChunk tolerant isFatal) ⟨segs, none, none⟩

end Run

/-- The units until the budget is used up, and whether it was. -/
def capFrom (budget : Nat) : Nat → List Unit → List Unit × Bool
  | _, [] => ([], false)
  | total, u :: us =>
      if total + u.text.length > budget then ([], true)
      else
        let (kept, cut) := capFrom budget (total + u.text.length) us
        (u :: kept, cut)

def capUnits (units : List Unit) (budget : Nat) : List Unit × Bool := capFrom budget 0 units

/-! ### A mail -/

structure MessageDetail where
  id : Nat
  subject : Text
  textBody : Text
  htmlBody : Text

structure Translation where
  messageID : Nat
  targetLang : Text
  sourceLang : Text
  model : Text
  provider : Text
  isPartial : Bool
  subject : Text
  textBody : Text
  htmlBody : Text
  deriving DecidableEq, Repr

/-- Why a mail is not translated. -/
inductive Failure (E : Type)
  | upstream (err : E)
  | noContent
  | badOutput
  deriving DecidableEq, Repr

structure Lib (E : Type) where
  isLetter : Char → Bool
  parse : Text → Except E Node
  render : Node → Except E Text
  /-- The language of a text and an HTML body. -/
  detect : Text → Text → Text

/-- A mail with its segments, the subject's first. -/
structure Opened where
  doc : Option Node
  subjectSeg : Option Segment
  bodySegs : List Segment

/-- What was put together again. -/
structure Reassembled where
  doc : Option Node
  subject : Text
  textBody : Text
  isPartial : Bool

section Service

variable {E : Type} (lib : Lib E)

def openDetail (d : MessageDetail) : Except (Failure E) Opened :=
  let subjectSeg := newTextSegment lib.isLetter d.subject
  if Text.trimSpace d.htmlBody ≠ [] then
    match lib.parse d.htmlBody with
    | .error err => .error (.upstream err)
    | .ok doc => .ok ⟨some doc, subjectSeg, segmentsOf lib.isLetter doc⟩
  else .ok ⟨none, subjectSeg, (newTextSegment lib.isLetter d.textBody).toList⟩

def Opened.all (o : Opened) : List Segment := o.subjectSeg.toList ++ o.bodySegs

/-- The units that are sent, and whether there are more. -/
def Opened.sent (o : Opened) : List Unit × Bool := capUnits (buildUnits o.all) maxTotalRunes

/-- The segments, applied, in the subject and the body. -/
def Opened.close (o : Opened) (d : MessageDetail) (segs : List Segment) : Reassembled where
  doc := o.doc.map (writeBack (segs.drop o.subjectSeg.toList.length))
  subject := if o.subjectSeg.isSome then (segs.head?.map Segment.result).getD [] else d.subject
  textBody :=
    if o.doc.isSome then []
    else ((segs.drop o.subjectSeg.toList.length).head?.map Segment.result).getD []
  isPartial := o.sent.2

/-- `translateDetail`, up to the rendering.  `complete` ends the requests. -/
def reassemble (d : MessageDetail) (tolerant : Bool) (isFatal : E → Bool)
    (complete : List (List Unit) → List (List Unit × Ended E)) : Except (Failure E) Reassembled :=
  match openDetail lib d with
  | .error err => .error err
  | .ok o =>
      if o.all = [] ∨ o.sent.1 = [] then .error .noContent
      else
        let r := runChunks tolerant isFatal o.all (complete (chunkUnits o.sent.1 maxChunkRunes))
        match r.fatal with
        | some err => .error (.upstream err)
        | none =>
            let segs := r.segs.map Segment.apply
            if segs.any Segment.translated then .ok (o.close d segs)
            else
              match r.firstErr with
              | some err => .error (.upstream err)
              | none => .error .badOutput

def translateDetail (d : MessageDetail) (target provider : Text) (client : Except E Text) (tolerant : Bool)
    (isFatal : E → Bool) (complete : List (List Unit) → List (List Unit × Ended E)) :
    Except (Failure E) Translation :=
  match client with
  | .error err => .error (.upstream err)
  | .ok model =>
      match reassemble lib d tolerant isFatal complete with
      | .error err => .error err
      | .ok r =>
          match r.doc.mapM lib.render with
          | .error err => .error (.upstream err)
          | .ok html =>
              .ok { messageID := d.id, targetLang := target, sourceLang := lib.detect d.textBody d.htmlBody,
                    model := model, provider := provider, isPartial := r.isPartial, subject := r.subject,
                    textBody := r.textBody, htmlBody := html.getD [] }

end Service

end FlyMail.Translate
