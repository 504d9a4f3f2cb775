/-
The search query.

The input is cut at its blanks, though not between quotes; a piece with a known qualifier becomes a
condition of its own or a text term for one column, and every other piece a text term for all of them.
Nothing is an error: a value that is not understood makes the piece a text term again.

How upper case is lowered is a parameter.
-/
import FlyMail.Lib.Calendar
import FlyMail.Lib.Text

namespace FlyMail.Message.Query

structure Term where
  text : Text
  phrase : Bool
  deriving DecidableEq, Repr

/-- A day, as it was written. -/
structure Date where
  year : Nat
  month : Nat
  day : Nat
  deriving DecidableEq, Repr

/-- `Query`. -/
structure Parsed where
  terms : List Term
  fromTerms : List Term
  toTerms : List Term
  subject : List Term
  hasAttachment : Option Bool
  seen : Option Bool
  flagged : Option Bool
  before : Option Date
  after : Option Date
  folder : Text
  account : Text
  deriving DecidableEq, Repr

def Parsed.empty : Parsed := ⟨[], [], [], [], none, none, none, none, none, [], []⟩

/-! ### Tokens -/

structure Token where
  text : Text
  quoted : Bool
  deriving DecidableEq, Repr

def isQuote (r : Char) : Bool := r == '"' || r == '“' || r == '”'

def isBlank (r : Char) : Bool := r == ' ' || r == '\t' || r == '\n' || r == '\r' || r == '\u3000'

def flush (cur : Text) (quoted : Bool) : List Token := if cur = [] then [] else [⟨cur, quoted⟩]

def splitFrom : Text → Bool → Bool → Text → List Token
  | cur, _, quoted, [] => flush cur quoted
  | cur, inQuote, quoted, r :: rest =>
      if isQuote r then splitFrom cur (!inQuote) (if !inQuote then true else quoted) rest
      else if !inQuote && isBlank r then flush cur quoted ++ splitFrom [] inQuote false rest
      else splitFrom (cur ++ [r]) inQuote quoted rest

def splitTokens (s : Text) : List Token := splitFrom [] false false s

/-! ### Qualifiers -/

def knownQualifiers : List Text :=
  ["from", "to", "subject", "has", "is", "before", "after", "in", "folder", "account"].map String.toList

/-- `key:value`, if the key is a known one. -/
def splitQualifier (lower : Text → Text) (s : Text) : Option (Text × Text) :=
  match Text.cut s ':' with
  | none => none
  | some (key, val) =>
      if key = [] then none
      else if knownQualifiers.contains (lower key) then some (lower key, Text.trimSpace val)
      else none

/-- A number of one or two digits. -/
def parseTwo (t : Text) : Option Nat := if t.length ≤ 2 then Text.parseUint 8 t else none

def dateOf (year month day : Nat) : Option Date :=
  if 1 ≤ month ∧ month ≤ 12 ∧ 1 ≤ day ∧ day ≤ Calendar.daysInMonth year month then some ⟨year, month, day⟩ else none

/-- `YYYY-MM-DD`, `YYYY-MM` or `YYYY`, with one or two digits for month and day, and slashes for dashes. -/
def parseDate (s : Text) : Option Date :=
  let s := s.map fun c => if c = '/' then '-' else c
  let year (t : Text) : Option Nat := if t.length = 4 then Text.parseUint 16 t else none
  match s.splitOn '-' with
  | [y] => (year y).bind fun y => dateOf y 1 1
  | [y, m] => (year y).bind fun y => (parseTwo m).bind fun m => dateOf y m 1
  | [y, m, d] => (year y).bind fun y => (parseTwo m).bind fun m => (parseTwo d).bind fun d => dateOf y m d
  | _ => none

def attachmentWords : List Text := ["attachment", "attachments", "file", "files", "附件"].map String.toList

/-- What `is` makes of the query. -/
def applyIs (q : Parsed) (value : Text) : Option Parsed :=
  if (["unread", "未读"].map String.toList).contains value then some { q with seen := some false }
  else if (["read", "已读"].map String.toList).contains value then some { q with seen := some true }
  else if (["starred", "flagged", "star", "星标"].map String.toList).contains value then
    some { q with flagged := some true }
  else if (["unstarred", "unflagged"].map String.toList).contains value then some { q with flagged := some false }
  else none

/-- `applyQualifier`; `none` when the value is not understood. -/
def applyQualifier (lower : Text → Text) (q : Parsed) (key val : Text) (quoted : Bool) : Option Parsed :=
  if val = [] then none
  else if key = "from".toList then some { q with fromTerms := q.fromTerms ++ [⟨val, quoted⟩] }
  else if key = "to".toList then some { q with toTerms := q.toTerms ++ [⟨val, quoted⟩] }
  else if key = "subject".toList then some { q with subject := q.subject ++ [⟨val, quoted⟩] }
  else if key = "has".toList then
    if attachmentWords.contains (lower val) then some { q with hasAttachment := some true } else none
  else if key = "is".toList then applyIs q (lower val)
  else if key = "before".toList then (parseDate val).map fun d => { q with before := some d }
  else if key = "after".toList then (parseDate val).map fun d => { q with after := some d }
  else if key = "in".toList ∨ key = "folder".toList then some { q with folder := val }
  else if key = "account".toList then some { q with account := val }
  else some q

/-- One token. -/
def parseToken (lower : Text → Text) (q : Parsed) (tok : Token) : Parsed :=
  match splitQualifier lower tok.text with
  | none => { q with terms := q.terms ++ [⟨tok.text, tok.quoted⟩] }
  | some (key, val) =>
      match applyQualifier lower q key val tok.quoted with
      | some q => q
      | none => if val ≠ [] then { q with terms := q.terms ++ [⟨tok.text, tok.quoted⟩] } else q

def parse (lower : Text → Text) (input : Text) : Parsed := (splitTokens input).foldl (parseToken lower) .empty

end FlyMail.Message.Query
