/-
Parts with numbers, on their way to the model and back.

The parts of all segments are numbered from one.  A request has them one after another, each behind
a mark with its number, and the reply is cut at its marks, so a part that comes back spoilt spoils no
other.  What is in front of the first mark is left out, blank texts are left out, and of two texts
with one number the later stays.
-/
import FlyMail.Lib.Marks
import FlyMail.Translate.Segments
import Mathlib.Data.List.DropRight
import Mathlib.Logic.Function.Basic

namespace FlyMail.Translate

def markOpen : Char := '⟦'

def markClose : Char := '⟧'

/-- A part of a segment, with its number. -/
structure Unit where
  id : Nat
  seg : Nat
  part : Nat
  text : Text
  deriving DecidableEq, Repr

/-- The mark of a number, the text, and a line break. -/
def block (id : Nat) (t : Text) : Text := Marks.mark markOpen markClose (Text.formatUint id) ++ t ++ ['\n']

def encodeChunk (units : List Unit) : Text :=
  (units.flatMap fun u => block u.id u.text).rdropWhile (· == '\n')

/-- What is in front of the first mark, and the numbers with what is behind each. -/
def splitMarks (raw : Text) : Text × List (Text × Text) := Marks.split markOpen markClose Char.isDigit raw

/-- `strconv.Atoi`, of digits. -/
def atoi (ds : Text) : Option Nat := Text.parseUint 63 ds

/-- The text behind one mark is entered, unless it is blank. -/
def enter (out : Nat → Option Text) (p : Text × Text) : Nat → Option Text :=
  match atoi p.1 with
  | none => out
  | some id =>
      if Text.trimSpace p.2 = [] then out
      else Function.update out id (some (Marks.remove markOpen markClose Char.isDigit (Text.trimSpace p.2)))

def decodeChunk (raw : Text) : Option (Nat → Option Text) :=
  if (splitMarks raw).2 = [] then none else some ((splitMarks raw).2.foldl enter fun _ => none)

/-- The text that a reply has for a number. -/
def entry (raw : Text) (id : Nat) : Option Text := (decodeChunk raw).bind fun out => out id

def buildUnits (segs : List Segment) : List Unit :=
  let parts := segs.zipIdx.flatMap fun (s, seg) => s.parts.zipIdx.map fun (p, part) => (seg, part, p)
  parts.zipIdx.map fun ((seg, part, p), n) => { id := n + 1, seg := seg, part := part, text := p }

/-- The finished chunks, and the one that grows, with its length. -/
structure Chunking where
  chunks : List (List Unit)
  cur : List Unit
  curLen : Nat

def Chunking.add (budget : Int) (c : Chunking) (u : Unit) : Chunking :=
  if c.cur ≠ [] ∧ (c.curLen + u.text.length : Nat) > budget then ⟨c.chunks ++ [c.cur], [u], u.text.length⟩
  else ⟨c.chunks, c.cur ++ [u], c.curLen + u.text.length⟩

def chunkUnits (units : List Unit) (budget : Int) : List (List Unit) :=
  let c := units.foldl (Chunking.add budget) ⟨[], [], 0⟩
  if c.cur ≠ [] then c.chunks ++ [c.cur] else c.chunks

end FlyMail.Translate
