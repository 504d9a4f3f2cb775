/-
The text of a mail in segments.

Only the text of an HTML body is sent to be translated, never its markup: the text nodes are taken
out of the tree in the order they stand in, each becomes a segment if there is a letter in it, and
what comes back is put into the same nodes.  The blanks at the two ends of a text stay here.  What is
too long is cut into parts, behind a line break or the end of a sentence if there is one in the second
half of what a part may hold.

The subject and a body without markup are segments without a node.  A node is told by its number
among the text nodes that are walked.
-/
import FlyMail.Lib.Text

namespace FlyMail.Translate

/-! ### Cutting -/

def maxPartRunes : Nat := 1200

/-- The characters a part may end behind. -/
def sentenceEnd : Text := ['\n', '。', '！', '？', '；', '.', '!', '?', ';']

/-- Where to cut: behind the last end of a sentence in the second half, or at `max`. -/
def breakPoint (runes : Text) (max : Nat) : Nat :=
  match ((List.range (max - max / 2)).map fun n => max - 1 - n).find? fun i => (runes[i]?).any sentenceEnd.contains with
  | some i => i + 1
  | none => max

/-- The loop, which runs no longer than the text is. -/
def splitFrom (max : Nat) : Nat → Text → List Text
  | 0, runes => if runes = [] then [] else [runes]
  | fuel + 1, runes =>
      if runes.length > max then
        runes.take (breakPoint runes max) :: splitFrom max fuel (runes.drop (breakPoint runes max))
      else if runes = [] then [] else [runes]

def splitText (s : Text) (max : Nat) : List Text :=
  if s.length ≤ max then [s] else splitFrom max s.length s

/-! ### Segments -/

structure Segment where
  /-- The number of the text node. -/
  node : Option Nat
  lead : Text
  trail : Text
  parts : List Text
  /-- What has come back for each part, empty where nothing has. -/
  out : List Text
  result : Text
  deriving DecidableEq, Repr

/-- Where `core` is found first. -/
def index (core : Text) : Text → Nat
  | [] => 0
  | c :: t => if core.isPrefixOf (c :: t) then 0 else index core t + 1

section Letters

variable (isLetter : Char → Bool)

def worthTranslating (s : Text) : Bool := s.any isLetter

def newTextSegment (text : Text) : Option Segment :=
  let core := Text.trimSpace text
  if worthTranslating isLetter core then
    let lead := text.take (index core text)
    let parts := splitText core maxPartRunes
    some { node := none, lead := lead, trail := text.drop (lead.length + core.length), parts := parts,
           out := parts.map fun _ => [], result := [] }
  else none

end Letters

namespace Segment

/-- What has come back, or the part itself. -/
def filled (p out : Text) : Text := if out ≠ [] then out else p

def apply (s : Segment) : Segment :=
  { s with result := s.lead ++ (List.zipWith filled s.parts s.out).flatten ++ s.trail }

def translated (s : Segment) : Bool := s.out.any fun o => o != []

end Segment

/-! ### The tree -/

inductive Node
  | text (data : Text)
  | element (data : Text) (attr : List (Text × Text)) (children : List Node)
  /-- The document, a comment or a doctype. -/
  | other (data : Text) (children : List Node)

/-- Elements whose text is not for reading. -/
def skipContainers : List Text :=
  ["script", "style", "title", "textarea", "noscript", "code"].map String.toList

namespace Node

def children : Node → List Node
  | text _ => []
  | element _ _ cs => cs
  | other _ cs => cs

def withChildren : Node → List Node → Node
  | text data, _ => text data
  | element data attr _, cs => element data attr cs
  | other data _, cs => other data cs

mutual

/-- The texts below a node, as they are walked. -/
def texts : Node → List Text
  | text data => [data]
  | element data _ cs => if skipContainers.contains data then [] else textsOf cs
  | other _ _ => []

def textsOf : List Node → List Text
  | [] => []
  | n :: ns => texts n ++ textsOf ns

end

mutual

/-- Other texts in the same nodes, and those that are left over. -/
def refill : Node → List Text → Node × List Text
  | text data, [] => (text data, [])
  | text _, t :: ts => (text t, ts)
  | element data attr cs, ts =>
      if skipContainers.contains data then (element data attr cs, ts)
      else
        let (cs, ts) := refillAll cs ts
        (element data attr cs, ts)
  | other data cs, ts => (other data cs, ts)

def refillAll : List Node → List Text → List Node × List Text
  | [], ts => ([], ts)
  | n :: ns, ts =>
      let (n, ts) := refill n ts
      let (ns, ts) := refillAll ns ts
      (n :: ns, ts)

end

end Node

/-- The segments of a document. -/
def segmentsOf (isLetter : Char → Bool) (doc : Node) : List Segment :=
  (Node.textsOf doc.children).zipIdx.filterMap fun (data, k) =>
    (newTextSegment isLetter data).map fun s => { s with node := some k }

/-- The text that a node has after the segments were applied. -/
def dataOf (segs : List Segment) (k : Nat) (data : Text) : Text :=
  match segs.find? fun s => s.node = some k with
  | some s => s.result
  | none => data

/-- The document after its segments were applied. -/
def writeBack (segs : List Segment) (doc : Node) : Node :=
  let datas := (Node.textsOf doc.children).zipIdx.map fun (data, k) => dataOf segs k data
  doc.withChildren (Node.refillAll doc.children datas).1

end FlyMail.Translate
