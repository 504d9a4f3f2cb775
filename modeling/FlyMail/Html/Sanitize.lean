/-
Cleaning the HTML of a mail.

The mail's HTML is read token by token.  Elements with nothing to show are left out with
all they contain, references to remote resources are counted and, unless the reader allows
them, replaced, and what remains goes through a whitelist.  Style blocks do not: their text
is cleaned by a few patterns, set aside, and put in front of the result.

The tokenizer, the escaping of text and the whitelist are a library's, lower case is the
platform's, and `Library` stands for them.  Text is taken for a sequence of characters here; a byte that belongs to none
counts as the replacement character, which is what the patterns take it for.
-/
import FlyMail.Lib.Pattern

namespace FlyMail.Htmlsan

open Pattern

/-! ### The library -/

inductive TokenType
  | text
  | startTag
  | endTag
  | selfClosingTag
  | comment
  | doctype
  deriving DecidableEq, Repr

structure Attribute where
  key : Text
  val : Text
  deriving DecidableEq, Repr

structure Token where
  type : TokenType
  data : Text
  attr : List Attribute
  deriving DecidableEq, Repr

structure Library where
  tokenize : Text → List Token
  escapeString : Text → Text
  /-- Lower case, as the platform has it. -/
  toLower : Char → Char
  /-- `Sanitize` of the whitelist. -/
  policySanitize : Text → Text

/-! ### Patterns -/

def quoteMark : Char := Char.ofNat 34

def apostrophe : Char := Char.ofNat 39

def noneOf (s : String) (c : Char) : Bool := !s.toList.contains c

def isHex (c : Char) : Bool :=
  ('0' ≤ c && c ≤ '9') || ('a' ≤ c && c ≤ 'f') || ('A' ≤ c && c ≤ 'F')

/-- At most `n` characters of the class, as many as possible. -/
def atMost : Nat → (Char → Bool) → Pattern
  | 0, _ => .empty
  | n + 1, p => opt (.seq (.char p) (atMost n p))

def reImport : Pattern :=
  seqs [word "@import", .stop isWord, .many (noneOf ";\x7b\x7d"), opt (one ';')]

def reDanger : Pattern :=
  .seq (.many (noneOf ";\x7b\x7d"))
    (seqs [.alt (seqs [word "expression", .many isBlank, one '('])
        (.alt (seqs [word "behavior", .many isBlank, one ':'])
          (seqs [word "-moz-binding", .many isBlank, one ':'])),
      .many (noneOf ";\x7d"), opt (one ';')])

/-- Something between two of the marks. -/
def between (mark : Char) : Pattern := seqs [one mark, .many (notChar mark), one mark]

def reCSSURL : Pattern :=
  seqs [word "url(", .many isBlank,
    .group 1 (.alt (between quoteMark) (.alt (between apostrophe)
      (.many fun c => c != ')' && c != apostrophe && c != quoteMark))),
    .many isBlank, one ')']

def reImageSet : Pattern :=
  seqs [opt (one '-'), opt (word "webkit-"), word "image-set(", .group 1 (.many (notChar ')')),
    one ')']

def reQuoted : Pattern := .alt (between quoteMark) (between apostrophe)

def reCSSEscape : Pattern :=
  .alt (seqs [one '\\', .group 1 (.seq (.char isHex) (atMost 5 isHex)), opt (.char isBlank)])
    (.seq (one '\\') (.group 2 (.char (notChar '\n'))))

/-! ### References -/

/-- Lower case, as far as a URL's beginning is concerned: of the letters beyond ASCII only
the two that become ASCII ones count. -/
def toLower (c : Char) : Char :=
  if 'A' ≤ c && c ≤ 'Z' then Char.ofNat (c.toNat + 32)
  else if c.toNat == 0x130 then 'i'
  else if c.toNat == 0x212A then 'k'
  else c

def hasPrefix (t : Text) (s : String) : Bool := s.toList.isPrefixOf t

/-- The text without the characters of the class at its two ends. -/
def trim (p : Char → Bool) (t : Text) : Text :=
  ((t.dropWhile p).reverse.dropWhile p).reverse

def isQuote (c : Char) : Bool := c == quoteMark || c == apostrophe

def normalizeURL (u : Text) : Text :=
  ((u.filter fun c => !(c.toNat ≤ 0x20 || c.toNat == 0x7f)).map fun c =>
    if c = '\\' then '/' else c).map toLower

def isRemote (u : Text) : Bool :=
  let u := normalizeURL u
  hasPrefix u "http://" || hasPrefix u "https://" || hasPrefix u "//"

def isDangerousURL (u : Text) : Bool :=
  let u := normalizeURL u
  hasPrefix u "javascript:" || hasPrefix u "vbscript:" ||
    hasPrefix u "data:text/html" || hasPrefix u "data:application"

/-- The URL of an `@import`. -/
def extractURLArg (s : Text) : Text :=
  match (reCSSURL.findAll s).head? with
  | some m => trim isQuote (Text.trimSpace (m.group 1))
  | none =>
      let s := s.map toLower
      let s := Text.trimSpace (if hasPrefix s "@import" then s.drop 7 else s)
      let s := if s.getLast? = some ';' then s.dropLast else s
      trim (fun c => c == ' ' || isQuote c) s

/-! ### CSS -/

def hexVal (c : Char) : Nat :=
  if '0' ≤ c && c ≤ '9' then c.toNat - '0'.toNat
  else if 'a' ≤ c && c ≤ 'f' then c.toNat - 'a'.toNat + 10
  else if 'A' ≤ c && c ≤ 'F' then c.toNat - 'A'.toNat + 10
  else 0

/-- The replacement character. -/
def replacement : Char := Char.ofNat 0xFFFD

def unescapeOne (m : Match) : Text :=
  if m.group 1 ≠ [] then
    let r := (m.group 1).foldl (fun r c => r * 16 + hexVal c) 0
    if r = 0 ∨ r > 0x10FFFF then [replacement]
    else if r.isValidChar then [Char.ofNat r] else [replacement]
  else m.group 2

def cssUnescape (css : Text) : Text :=
  if css.contains '\\' then reCSSEscape.replaceAll unescapeOne css else css

def cssNone : Text := "none".toList

/-- The quoted references of an `image-set()`. -/
def quotedURLs (s : Text) : List Text := (reQuoted.findAll s).map fun m => trim isQuote m.taken

def imageSetOne (allowRemote : Bool) (m : Match) : Text :=
  if ((quotedURLs m.taken).any fun u => isDangerousURL u || isRemote u) && !allowRemote then cssNone
  else m.taken

/-- The reference of a `url()`. -/
def urlOf (m : Match) : Text := trim isQuote (Text.trimSpace (m.group 1))

def cssURLOne (allowRemote : Bool) (m : Match) : Text :=
  if isDangerousURL (urlOf m) then cssNone
  else if isRemote (urlOf m) then if allowRemote then m.taken else cssNone
  else m.taken

/-- How many remote references the matches in the text have. -/
def countRemote (p : Pattern) (count : Match → Nat) (css : Text) : Nat :=
  ((p.findAll css).map count).sum

/-- The cleaned CSS and the number of remote references in it. -/
def sanitizeCSS (css : Text) (allowRemote : Bool) : Text × Nat :=
  let unescaped := cssUnescape css
  let imports := countRemote reImport (fun m => if isRemote (extractURLArg m.taken) then 1 else 0)
    unescaped
  let noImports := reImport.replaceAll (fun _ => []) unescaped
  let noDanger := reDanger.replaceAll (fun _ => []) noImports
  let sets := countRemote reImageSet (fun m => (quotedURLs m.taken).countP isRemote) noDanger
  let noSets := reImageSet.replaceAll (imageSetOne allowRemote) noDanger
  let urls := countRemote reCSSURL
    (fun m => if isDangerousURL (urlOf m) then 0 else if isRemote (urlOf m) then 1 else 0) noSets
  (reCSSURL.replaceAll (cssURLOne allowRemote) noSets, imports + sets + urls)

def srcsetHasRemote (v : Text) : Bool :=
  (Text.commaSplit v).any fun cand =>
    match Text.fields cand with
    | u :: _ => isRemote u || isDangerousURL u
    | [] => false

/-! ### Tags -/

def placeholderImage : Text :=
  "data:image/gif;base64,R0lGODlhAQABAAAAACH5BAEKAAEALAAAAAABAAEAAAICTAEAOw==".toList

/-- The elements left out with all they contain. -/
def dropWithContent : List String :=
  ["script", "iframe", "object", "embed", "applet", "noscript",
    "form", "input", "button", "textarea", "select", "option",
    "title", "template", "svg", "math", "frameset", "frame",
    "plaintext", "xmp", "listing", "noembed", "noframes"]

/-- The elements whose content the tokenizer takes for text. -/
def rawTextElements : List String :=
  ["script", "style", "iframe", "noscript", "xmp", "textarea",
    "title", "noembed", "noframes", "plaintext"]

def dropTagOnly : List String := ["link", "meta", "base"]

def urlAttrs : List String :=
  ["src", "srcset", "poster", "background", "lowsrc", "dynsrc",
    "data", "xlink:href", "action", "formaction"]

def voidElements : List String :=
  ["area", "br", "col", "embed", "hr", "img", "input",
    "link", "meta", "source", "track", "wbr", "base"]

def isIn (names : List String) (name : Text) : Bool := names.any fun s => s.toList == name

/-- What becomes of an attribute: its value, if it stays, and the remote references in it. -/
def cleanAttr (name key val : Text) (allowRemote : Bool) : Option Text × Nat :=
  if hasPrefix key "on" then (none, 0)
  else if key = "rel".toList ∨ key = "target".toList then (none, 0)
  else if key = "style".toList then
    let (css, remote) := sanitizeCSS val allowRemote
    (some css, remote)
  else if key = "href".toList then (if isDangerousURL val then none else some val, 0)
  else if isIn urlAttrs key then
    if isDangerousURL val then (none, 0)
    else if key = "srcset".toList then
      if srcsetHasRemote val then (if allowRemote then some val else none, 1) else (some val, 0)
    else if isRemote val then
      if allowRemote then (some val, 1)
      else if key = "src".toList ∧ name = "img".toList then (some placeholderImage, 1)
      else (none, 1)
    else (some val, 0)
  else (some val, 0)

/-- The attributes of a tag, written out. -/
def writeAttrs (lib : Library) (name : Text) (allowRemote : Bool) : List Attribute → Text × Nat
  | [] => ([], 0)
  | a :: rest =>
      let key := a.key.map lib.toLower
      let (val, remote) := cleanAttr name key a.val allowRemote
      let (written, more) := writeAttrs lib name allowRemote rest
      match val with
      | some val =>
          (' ' :: key ++ '=' :: quoteMark :: lib.escapeString val ++ quoteMark :: written, remote + more)
      | none => (written, remote + more)

def writeTag (lib : Library) (name : Text) (attrs : List Attribute) (selfClosing allowRemote : Bool) :
    Text × Nat :=
  let (written, remote) := writeAttrs lib name allowRemote attrs
  ('<' :: name ++ written ++ (if selfClosing then " />".toList else ['>']), remote)

/-! ### Reading the tokens -/

structure State where
  out : Text
  styles : List Text
  remote : Nat
  /-- The last token opened a style block. -/
  inStyle : Bool
  /-- The element that is left out with all it contains, and how deep it is nested. -/
  skip : Text
  skipDep : Nat
  deriving DecidableEq, Repr

def State.init : State := ⟨[], [], 0, false, [], 0⟩

/-- What is set aside of a style block. -/
def keepStyle (allowRemote : Bool) (css : Text) (st : State) : State :=
  { st with
    styles := st.styles ++ [(sanitizeCSS css allowRemote).1]
    remote := st.remote + (sanitizeCSS css allowRemote).2
    inStyle := false
    skip := "style".toList
    skipDep := 1 }

/-- A token outside the elements that are left out. -/
def readToken (lib : Library) (allowRemote : Bool) (st : State) (tok : Token) : State :=
  let name := tok.data.map lib.toLower
  match tok.type with
  | .text => { st with out := st.out ++ lib.escapeString tok.data }
  | .endTag =>
      if isIn dropWithContent name || isIn dropTagOnly name || name == "style".toList then st
      else { st with out := st.out ++ '<' :: '/' :: name ++ ['>'] }
  | .comment | .doctype => st
  | .startTag | .selfClosingTag =>
      let selfClosing := tok.type == .selfClosingTag
      if name = "style".toList then { st with inStyle := true }
      else if isIn dropWithContent name then
        if (!selfClosing || isIn rawTextElements name) && !isIn voidElements name then
          { st with skip := name, skipDep := 1 }
        else st
      else if isIn dropTagOnly name then st
      else
        let (written, remote) := writeTag lib name tok.attr selfClosing allowRemote
        { st with out := st.out ++ written, remote := st.remote + remote }

/-- The next token. -/
def step (lib : Library) (allowRemote : Bool) (st : State) (tok : Token) : State :=
  if st.inStyle then
    match tok.type with
    | .text => keepStyle allowRemote tok.data st
    | _ => { st with inStyle := false }
  else if st.skip ≠ [] then
    let name := tok.data.map lib.toLower
    if tok.type = .startTag ∧ name = st.skip then { st with skipDep := st.skipDep + 1 }
    else if tok.type = .endTag ∧ name = st.skip then
      if st.skipDep = 1 then { st with skip := [], skipDep := 0 }
      else { st with skipDep := st.skipDep - 1 }
    else st
  else readToken lib allowRemote st tok

structure Result where
  html : Text
  remoteCount : Nat
  deriving DecidableEq, Repr

def styleBlock (css : Text) : Text := "<style>".toList ++ css ++ "</style>\n".toList

def finish (lib : Library) (st : State) : Result :=
  ⟨st.styles.flatMap styleBlock ++ lib.policySanitize st.out, st.remote⟩

def maxInput : Nat := 2 * 2 ^ 20

/-- The first `n` bytes; of a character cut in two, bytes that belong to none remain. -/
def clip : Nat → Text → Text
  | _, [] => []
  | n, c :: rest =>
      if c.utf8Size ≤ n then c :: clip (n - c.utf8Size) rest else List.replicate n replacement

/-- What is left when all tokens are read. -/
def scanTokens (lib : Library) (input : Text) (allowRemote : Bool) : State :=
  (lib.tokenize (clip maxInput input)).foldl (step lib allowRemote) .init

def sanitize (lib : Library) (input : Text) (allowRemote : Bool) : Result :=
  if Text.trimSpace input = [] then ⟨[], 0⟩
  else finish lib (scanTokens lib input allowRemote)

end FlyMail.Htmlsan
