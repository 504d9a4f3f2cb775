/-
Images in the text of a mail that is sent.

A draft holds its images as `data:` URLs, which mail programs do not show.  Before it is sent each of them
becomes an attachment, and a reference to it takes the URL's place.  The HTML is read token by token; a tag
in which nothing is replaced is to be copied as it is.

The tokenizer is a parameter, with what is said of it: the tokens are all there is of the input but for
what is left at its end, and `Token` decodes names and values in the very bytes that `Raw` gives.
-/
import FlyMail.Html.Sanitize
import FlyMail.Send.Builder

namespace FlyMail.Send

open Pattern

/-! ### Limits -/

def maxInlineDataURI : Nat := 10 * 2 ^ 20

def maxInlineHTML : Nat := 40 * 2 ^ 20

def maxAttachmentTotal : Nat := 25 * 2 ^ 20

/-- What is too large. -/
inductive PayloadTooLarge
  | bodyHTML
  | inlineImage
  | inlineImages
  deriving DecidableEq, Repr

/-! ### One URL -/

/-- One of the ASCII letters, in a comparison that takes no account of case. -/
def isFoldedLetter (c : Char) : Bool :=
  ('a' ≤ c && c ≤ 'z') || ('A' ≤ c && c ≤ 'Z') || c == 'ſ' || c.toNat == 0x212A

def isDigit (c : Char) : Bool := '0' ≤ c && c ≤ '9'

def reDataImage : Pattern :=
  seqs [word "data:image/",
    .group 1 (.seq (.char subtype) (.many subtype)), word ";base64,", .group 2 (.many payload)]
where
  subtype (c : Char) : Bool := isFoldedLetter c || isDigit c || c == '.' || c == '+' || c == '-'
  payload (c : Char) : Bool := isFoldedLetter c || isDigit c || c == '+' || c == '/' || c == '=' || isBlank c

/-- Subtype and payload of an image in a URL, which is the whole text. -/
def dataImage (t : Text) : Option (Text × Text) :=
  ((reDataImage.tries t).find? fun m => m.rest == []).map fun m => (m.group 1, m.group 2)

def isASCIISpace (c : Char) : Bool := c == ' ' || (9 ≤ c.toNat && c.toNat ≤ 13)

def stripWS (payload : Text) : Text := payload.filter fun c => !isASCIISpace c

def base64Len (payload : Text) : Nat := Text.byteLen (stripWS payload)

def base64Value (c : Char) : Option Nat :=
  if 'A' ≤ c ∧ c ≤ 'Z' then some (c.toNat - 65)
  else if 'a' ≤ c ∧ c ≤ 'z' then some (c.toNat - 71)
  else if '0' ≤ c ∧ c ≤ '9' then some (c.toNat + 4)
  else if c = '+' then some 62
  else if c = '/' then some 63
  else none

/-- The bytes of base64 with its padding. -/
def decodeString : Text → Option Bytes
  | [] => some []
  | [a, b, '=', '='] => do
      let n := (← base64Value a) * 64 + (← base64Value b)
      return [UInt8.ofNat (n / 16)]
  | [a, b, c, '='] => do
      let n := ((← base64Value a) * 64 + (← base64Value b)) * 64 + (← base64Value c)
      return [UInt8.ofNat (n / 1024), UInt8.ofNat (n / 4)]
  | a :: b :: c :: d :: rest => do
      let n := (((← base64Value a) * 64 + (← base64Value b)) * 64 + (← base64Value c)) * 64 + (← base64Value d)
      return UInt8.ofNat (n / 65536) :: UInt8.ofNat (n / 256) :: UInt8.ofNat n :: (← decodeString rest)
  | _ => none

/-- Lower case of a subtype. -/
def lower (t : Text) : Text := t.map Htmlsan.toLower

def normalizeImageExt (subtype : Text) : Text :=
  if lower subtype = "jpeg".toList then "jpg".toList
  else if lower subtype = "svg+xml".toList then "svg".toList
  else lower subtype

/-- A content id of twelve random bytes. -/
def newContentID (random : Bytes) : Text := "ii_".toList ++ random.flatMap hexByte

/-- What a conversion has come to. -/
structure InlineConv where
  atts : List Attachment
  total : Nat
  err : Option PayloadTooLarge
  deriving DecidableEq, Repr

def InlineConv.init : InlineConv := ⟨[], 0, none⟩

/-- The attachment of an image. -/
def imageAttachment (cid subtype : Text) (content : Bytes) : Attachment where
  filename := "image-".toList ++ (cid.drop 3).take 8 ++ ['.'] ++ normalizeImageExt subtype
  contentType := "image/".toList ++ lower subtype
  content := content
  contentID := cid

/-- The reference to the attachment that the URL becomes, if it does. `random n` is what is drawn for the
`n`-th attachment. -/
def convertURL (random : Nat → Bytes) (raw : Text) (c : InlineConv) : Option Text × InlineConv :=
  if c.err.isSome then (none, c)
  else match dataImage (Text.trimSpace raw) with
    | none => (none, c)
    | some (subtype, payload) =>
        let est := base64Len payload / 4 * 3
        if maxInlineDataURI < est then (none, { c with err := some .inlineImage })
        else if maxAttachmentTotal < c.total + est then (none, { c with err := some .inlineImages })
        else match decodeString (stripWS payload) with
          | none => (none, c)
          | some decoded =>
              if decoded = [] then (none, c)
              else
                let cid := newContentID (random c.atts.length)
                (some ("cid:".toList ++ cid),
                  { c with
                    total := c.total + decoded.length
                    atts := c.atts ++ [imageAttachment cid subtype decoded] })

/-! ### Candidates -/

def base64Marker : Text := ";base64".toList

/-- The text ends with the marker, in any case. -/
def endsWithBase64Marker (cur : Text) : Bool :=
  (cur.drop (cur.length - 7)).map Char.toLower == base64Marker

/-- The pieces between the commas that are not behind the marker, `cur` the one that is read. -/
def splitFrom : Text → Text → List Text
  | cur, [] => [cur]
  | cur, c :: rest =>
      if c = ',' ∧ endsWithBase64Marker cur = false then cur :: splitFrom [] rest
      else splitFrom (cur ++ [c]) rest

def splitSrcset (v : Text) : List Text := splitFrom [] v

def splitCandidate (cand : Text) : Text × Text :=
  let rest := cand.dropWhile isASCIISpace
  (rest.takeWhile fun c => !isASCIISpace c, Text.trimSpace (rest.dropWhile fun c => !isASCIISpace c))

/-- A candidate with its URL converted, and whether it was. -/
def convertCandidate (random : Nat → Bytes) (cand : Text) (c : InlineConv) : (Text × Bool) × InlineConv :=
  match convertURL random (splitCandidate cand).1 c with
  | (none, c') => ((cand, false), c')
  | (some ref, c') =>
      let desc := (splitCandidate cand).2
      ((if desc = [] then ref else ref ++ ' ' :: desc, true), c')

/-- `f` for one after another, each with the state that the one before leaves. -/
def each {α β σ : Type} (f : α → σ → β × σ) : List α → σ → List β × σ
  | [], s => ([], s)
  | a :: rest, s => ((f a s).1 :: (each f rest (f a s).2).1, (each f rest (f a s).2).2)

def convertSrcset (random : Nat → Bytes) (v : Text) (c : InlineConv) : Option Text × InlineConv :=
  let (cands, c') := each (convertCandidate random) (splitSrcset v) c
  if cands.any Prod.snd then (some (Text.join (cands.map Prod.fst) ", ".toList), c') else (none, c')

/-! ### CSS -/

/-- There is such a beginning, in any case. -/
def containsDataImage (s : Text) : Bool :=
  s.tails.any fun t => (t.take 11).map Char.toLower == "data:image/".toList

/-- A piece of CSS with its `url()` converted, and whether it was. -/
def convertPiece (random : Nat → Bytes) (p : Piece Char) (c : InlineConv) : (Text × Bool) × InlineConv :=
  match p with
  | .kept a => (([a], false), c)
  | .hit cells m =>
      match convertURL random (Htmlsan.urlOf m) c with
      | (none, c') => ((cells, false), c')
      | (some url, c') => (("url(\"".toList ++ url ++ "\")".toList, true), c')

def convertCSS (random : Nat → Bytes) (css : Text) (c : InlineConv) : Option Text × InlineConv :=
  if containsDataImage css then
    let (pieces, c') := each (convertPiece random) (Htmlsan.reCSSURL.scan id 0 css) c
    if pieces.any Prod.snd then (some (pieces.flatMap Prod.fst), c') else (none, c')
  else (none, c)

/-! ### Tags -/

/-- An attribute as it stands in a tag. -/
structure RawAttr where
  before : Text
  key : Text
  between : Text
  val : Text
  deriving DecidableEq, Repr

/-- A start tag as it stands in the input. -/
structure StartTag where
  opening : Text
  name : Text
  attrs : List RawAttr
  closing : Text
  selfClosing : Bool
  deriving DecidableEq, Repr

inductive Token
  | startTag (t : StartTag)
  | text (raw : Text)
  /-- An end tag, a comment or a document type. -/
  | other (raw : Text)
  deriving DecidableEq, Repr

def RawAttr.raw (a : RawAttr) : Text := a.before ++ a.key ++ a.between ++ a.val

def StartTag.raw (t : StartTag) : Text := t.opening ++ t.name ++ t.attrs.flatMap RawAttr.raw ++ t.closing

def Token.raw : Token → Text
  | .startTag t => t.raw
  | .text raw | .other raw => raw

/-- Line ends are written `\n`. -/
def convertNewlines : Text → Text
  | [] => []
  | '\r' :: '\n' :: rest => '\n' :: convertNewlines rest
  | c :: rest => (if c = '\r' then '\n' else c) :: convertNewlines rest

/-- The package that takes HTML apart. -/
structure Tokenizer where
  tokens : Text → List Token
  /-- What is left at the end, a tag without its end. -/
  rest : Text → Text
  raw_append : ∀ input, (tokens input).flatMap Token.raw ++ rest input = input
  unescape : Text → Text
  escape : Text → Text
  /-- References are decoded in place. -/
  unescape_le : ∀ t, (Utf8.encode (unescape t)).length ≤ (Utf8.encode t).length
  /-- What is escaped is read back from a value. -/
  unescape_escape : ∀ t, unescape (convertNewlines (escape t)) = t

/-- A tag as `Token` gives it. -/
structure Tag where
  data : Text
  attrs : List (Text × Text)
  deriving DecidableEq, Repr

def Tokenizer.token (tk : Tokenizer) (t : StartTag) : Tag where
  data := t.name.map Char.toLower
  attrs := t.attrs.map fun a => (a.key.map Char.toLower, tk.unescape (convertNewlines a.val))

/-- The bytes with others written over their beginning. -/
def overwrite (bytes new : Bytes) : Bytes := new ++ bytes.drop new.length

/-- What is found in the place of an attribute's bytes behind `Token`. -/
def Tokenizer.leftAttr (tk : Tokenizer) (a : RawAttr) : Bytes :=
  Utf8.encode a.before ++ Utf8.encode (a.key.map Char.toLower) ++ Utf8.encode a.between ++
    overwrite (overwrite (Utf8.encode a.val) (Utf8.encode (convertNewlines a.val)))
      (Utf8.encode (tk.unescape (convertNewlines a.val)))

/-- What is found in the place of a tag's bytes behind `Token`. -/
def Tokenizer.left (tk : Tokenizer) (t : StartTag) : Bytes :=
  Utf8.encode t.opening ++ Utf8.encode (t.name.map Char.toLower) ++ t.attrs.flatMap tk.leftAttr ++
    Utf8.encode t.closing

def inlineURLAttrs : List Text :=
  ["src".toList, "poster".toList, "background".toList, "lowsrc".toList, "dynsrc".toList]

/-- The value of an attribute with its images converted, if there are any. -/
def convertValue (random : Nat → Bytes) (key v : Text) (c : InlineConv) : Option Text × InlineConv :=
  if key ∈ inlineURLAttrs then convertURL random v c
  else if key = "srcset".toList then convertSrcset random v c
  else if key = "style".toList then convertCSS random v c
  else (none, c)

/-- An attribute with the images in its value converted, and whether there were any. -/
def convertAttr (random : Nat → Bytes) (a : Text × Text) (c : InlineConv) :
    ((Text × Text) × Bool) × InlineConv :=
  match convertValue random (lower a.1) a.2 c with
  | (none, c') => ((a, false), c')
  | (some v, c') => (((a.1, v), true), c')

/-- The tag with its images converted, if there are any. -/
def rewriteTag (random : Nat → Bytes) (t : Tag) (c : InlineConv) : Option Tag × InlineConv :=
  let (attrs, c') := each (convertAttr random) t.attrs c
  if attrs.any Prod.snd then (some { t with attrs := attrs.map Prod.fst }, c') else (none, c')

def writeTag (tk : Tokenizer) (t : Tag) (selfClosing : Bool) : Text :=
  '<' :: t.data ++ t.attrs.flatMap (fun a => ' ' :: a.1 ++ "=\"".toList ++ tk.escape a.2 ++ ['"']) ++
    (if selfClosing then " /".toList else []) ++ ['>']

/-! ### A text -/

/-- `strings.EqualFold` with a word in lower case. -/
def equalFold (t : Text) (w : String) : Bool := t.length == w.length && (w.toList.zip t).all fun p => sameFold p.1 p.2

/-- What is written for a token, and whether it begins a style sheet. -/
def inlineToken (tk : Tokenizer) (random : Nat → Bytes) (inStyle : Bool) (token : Token) (c : InlineConv) :
    Bytes × Bool × InlineConv :=
  match token with
  | .startTag t =>
      let tag := tk.token t
      match rewriteTag random tag c with
      | (none, c') => (tk.left t, equalFold tag.data "style", c')
      | (some tag', c') => (Utf8.encode (writeTag tk tag' t.selfClosing), equalFold tag.data "style", c')
  | .text raw =>
      if inStyle then
        match convertCSS random raw c with
        | (none, c') => (Utf8.encode raw, false, c')
        | (some css, c') => (Utf8.encode css, false, c')
      else (Utf8.encode raw, false, c)
  | .other raw => (Utf8.encode raw, false, c)

/-- The tokens up to the first with which something is too large. -/
def inlineTokens (tk : Tokenizer) (random : Nat → Bytes) : Bool → List Token → InlineConv → Bytes × InlineConv
  | _, [], c => ([], c)
  | inStyle, token :: rest, c =>
      if c.err.isSome then ([], c)
      else
        let (written, inStyle', c') := inlineToken tk random inStyle token c
        let (out, c'') := inlineTokens tk random inStyle' rest c'
        (written ++ out, c'')

def inlineDataURIImages (tk : Tokenizer) (random : Nat → Bytes) (input : Text) :
    Except PayloadTooLarge (Bytes × List Attachment) :=
  if containsDataImage input = false then .ok (Utf8.encode input, [])
  else if maxInlineHTML < Text.byteLen input then .error .bodyHTML
  else
    let (out, c) := inlineTokens tk random false (tk.tokens input) .init
    match c.err with
    | some e => .error e
    | none => .ok (out, c.atts)

end FlyMail.Send
