/-
A mail's body as a text to be read, and the links in it.

Of an HTML body the blocks that are not text are dropped, blocks and cells turn into line breaks and
blanks, and the other tags go.  The links are those of `<a href>` and the bare addresses in the text.

The decoding of entities is a parameter.
-/
import FlyMail.Lib.Pattern
import Mathlib.Data.List.DropRight

namespace FlyMail.Mailtext

open Pattern

structure Result where
  text : Text
  links : List Text
  deriving DecidableEq, Repr

def maxLinks : Nat := 8

def maxURLRunes : Nat := 300

/-! ### Patterns -/

/-- One of the words. -/
def words : List String → Pattern
  | [] => .empty
  | [w] => word w
  | w :: w' :: rest => .alt (word w) (words (w' :: rest))

def anything : Char → Bool := fun _ => true

def reComment : Pattern :=
  seqs [one '<', one '!', one '-', one '-', .few anything, one '-', one '-', one '>']

def reDropBlock : Pattern :=
  seqs [one '<', words ["script", "style", "head"], .stop isWord, .many (notChar '>'), one '>',
    .few anything, one '<', one '/', words ["script", "style", "head"], one '>']

def heading : Pattern := .seq (.char (sameFold 'h')) (.char fun c => '1' ≤ c && c ≤ '6')

/-- The tags with one of these names. -/
def tagOf (names : Pattern) : Pattern :=
  seqs [one '<', opt (one '/'), names, .stop isWord, .many (notChar '>'), opt (one '/'), one '>']

def reBlockBreak : Pattern :=
  tagOf (.alt (words ["br", "p", "div", "li", "ul", "ol", "tr", "table"]) (.alt heading
    (words ["blockquote", "section", "article", "header", "footer", "hr", "pre"])))

def reCellBreak : Pattern := tagOf (words ["td", "th", "caption", "dt", "dd"])

def reTag : Pattern := seqs [one '<', .many (notChar '>'), one '>']

/-- One or more characters of the class. -/
def some1 (p : Char → Bool) : Pattern := .seq (.char p) (.many p)

def reNewlines : Pattern := some1 fun c => c == '\n'

def isHSpace (c : Char) : Bool := c == ' ' || c == '\t' || c.toNat == 0xA0 || c.toNat == 0x200B

def reHSpace : Pattern := some1 isHSpace

/-- The value of `href` in an `<a>`: in double quotes, in single quotes, or without. In front of the
name stands a character that is not of a word, the last one `[^>]*` takes. -/
def reHref : Pattern :=
  seqs [one '<', word "a", .stop isWord, .many (notChar '>'), .char (fun c => notChar '>' c && !isWord c),
    word "href", .many isBlank, one '=', .many isBlank,
    .alt (seqs [one '"', .group 1 (.many (notChar '"')), one '"'])
      (.alt (seqs [one '\'', .group 2 (.many (notChar '\'')), one '\''])
        (.group 3 (some1 fun c => !isBlank c && notChar '>' c)))]

/-- The characters a bare address ends at. -/
def endsURL (c : Char) : Bool :=
  isBlank c || "<>\"'，。；！？、）】".toList.contains c

def reBareURL : Pattern :=
  seqs [word "http", opt (word "s"), one ':', one '/', one '/', some1 fun c => !endsURL c]

/-! ### Text -/

/-- A line behind the lines there are, `blank` of which in a row were empty. -/
def addLine (s : List Text × Nat) (ln : Text) : List Text × Nat :=
  let ln := Text.trimSpace ln
  if ln = [] then
    if 1 < s.2 + 1 ∨ s.1 = [] then (s.1, s.2 + 1) else (s.1 ++ [[]], s.2 + 1)
  else (s.1 ++ [ln], 0)

/-- `\r\n` and `\r` as `\n`. -/
def unixLines : Text → Text
  | [] => []
  | '\r' :: '\n' :: rest => '\n' :: unixLines rest
  | c :: rest => (if c = '\r' then '\n' else c) :: unixLines rest

def normalizeText (s : Text) : Text :=
  let s := reHSpace.replaceAll (fun _ => [' ']) (unixLines s)
  let out := ((s.splitOn '\n').foldl addLine ([], 0)).1
  Text.join (out.rdropWhile (· == [])) ['\n']

def htmlToText (unescape : Text → Text) (s : Text) : Text :=
  let s := reComment.replaceAll (fun _ => [' ']) s
  let s := reDropBlock.replaceAll (fun _ => [' ']) s
  let s := reBlockBreak.replaceAll (fun _ => ['\n']) s
  let s := reCellBreak.replaceAll (fun _ => [' ']) s
  let s := reTag.replaceAll (fun _ => []) s
  normalizeText (reNewlines.replaceAll (fun _ => ['\n']) (unescape s))

/-! ### Links -/

def hrefs (unescape : Text → Text) (htmlBody : Text) : List Text :=
  (reHref.findAll htmlBody).map fun m => unescape (m.group 1 ++ m.group 2 ++ m.group 3)

def bareURLs (text : Text) : List Text := (reBareURL.findAll text).map Match.taken

/-- What is cut off the end of an address. -/
def isTrailing (c : Char) : Bool := ".,;:!?、。！？)]\x7d>\"'".toList.contains c

/-- The text begins like this in lower case. `p` is in lower case; no character outside ASCII becomes
one of its letters. -/
def lowerStarts (p u : Text) : Bool := (u.take p.length).map Char.toLower == p

def cleanURL (u : Text) : Text :=
  let u := (Text.trimSpace u).rdropWhile isTrailing
  if u = [] then []
  else if ¬ lowerStarts "http://".toList u ∧ ¬ lowerStarts "https://".toList u then []
  else if u.any fun c => c == '\n' || c == '\r' || c == '\t' then []
  else if maxURLRunes < u.length then []
  else u

/-- The links from the list, behind those there are. -/
def takeLinks : List Text → List Text → List Text
  | out, [] => out
  | out, u :: rest =>
      let u := cleanURL u
      if u = [] ∨ u ∈ out then takeLinks out rest
      else if (out ++ [u]).length = maxLinks then out ++ [u]
      else takeLinks (out ++ [u]) rest

def dedupeLinks (raw : List Text) : List Text := takeLinks [] raw

def extract (unescape : Text → Text) (textBody htmlBody : Text) : Result :=
  if Text.trimSpace textBody ≠ [] then
    let text := normalizeText textBody
    ⟨text, dedupeLinks (bareURLs text)⟩
  else if Text.trimSpace htmlBody = [] then ⟨[], []⟩
  else
    let text := htmlToText unescape htmlBody
    ⟨text, dedupeLinks (hrefs unescape htmlBody ++ bareURLs text)⟩

end FlyMail.Mailtext
