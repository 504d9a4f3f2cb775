/-
What a search highlights.

The user interface reads the search query itself, to mark in the list the words that were searched for.
It does not parse dates and the like: it only asks which pieces of the query are text.

A quote is the straight one, and a blank is what a pattern's `\s` is.  How upper case is lowered is a
parameter.
-/
import FlyMail.Lib.Firsts
import FlyMail.Lib.Text
import Mathlib.Data.List.Sort

namespace FlyMail.Ui.SearchTerms

def textQualifiers : List Text := ["from", "to", "subject"].map String.toList

def knownQualifiers : List Text :=
  ["from", "to", "subject", "has", "is", "before", "after", "in", "account"].map String.toList

/-- `\s`, and what `trim` takes away. -/
def isBlank (ch : Char) : Bool :=
  let n := ch.toNat
  (9 ≤ n && n ≤ 13) || n == 0x20 || n == 0xA0 || n == 0x1680 || (0x2000 ≤ n && n ≤ 0x200A) || n == 0x2028 ||
    n == 0x2029 || n == 0x202F || n == 0x205F || n == 0x3000 || n == 0xFEFF

/-- The token at the beginning, with its quotes, and the rest. -/
def readToken : Bool → Text → Text × Text
  | _, [] => ([], [])
  | inQuote, ch :: rest =>
      if ch == '"' then
        let r := readToken (!inQuote) rest
        (ch :: r.1, r.2)
      else if !inQuote && isBlank ch then ([], ch :: rest)
      else
        let r := readToken inQuote rest
        (ch :: r.1, r.2)

/-- What is before the first colon that is not between quotes, and what is behind it. -/
def outerColon : Bool → Text → Option (Text × Text)
  | _, [] => none
  | inQuote, ch :: rest =>
      if ch == '"' then (outerColon (!inQuote) rest).map fun r => (ch :: r.1, r.2)
      else if ch == ':' && !inQuote then some ([], rest)
      else (outerColon inQuote rest).map fun r => (ch :: r.1, r.2)

def trim (s : Text) : Text := ((s.dropWhile isBlank).reverse.dropWhile isBlank).reverse

def unquote (s : Text) : Text := trim (s.filter (· != '"'))

/-- What one token has highlighted. -/
def highlighted (lower : Text → Text) (raw : Text) : List Text :=
  match outerColon false raw with
  | none => [unquote raw]
  | some (name, value) =>
      if name = [] then [unquote raw]
      else if knownQualifiers.contains (lower name) then
        if textQualifiers.contains (lower name) then [unquote value] else []
      else [unquote raw]

/-- The loop over the input; every round takes a character at least. -/
def tokensFrom : Nat → Text → List Text
  | 0, _ => []
  | _ + 1, [] => []
  | fuel + 1, ch :: rest =>
      if isBlank ch then tokensFrom fuel rest
      else
        let r := readToken false (ch :: rest)
        if r.1 = [] then tokensFrom fuel r.2 else r.1 :: tokensFrom fuel r.2

def tokens (q : Text) : List Text := tokensFrom q.length q

/-- `length`, which counts code units. -/
def length (t : Text) : Nat := (t.map fun c => if c.toNat < 0x10000 then 1 else 2).sum

/-- `extractHighlightTerms`: each term once, the longest first. -/
def extractHighlightTerms (lower : Text → Text) (q : Text) : List Text :=
  let terms := (tokens q).flatMap (highlighted lower)
  let unique := firsts (fun t => some (lower t)) [] (terms.filter (· ≠ []))
  unique.insertionSort fun a b => length b ≤ length a

end FlyMail.Ui.SearchTerms
