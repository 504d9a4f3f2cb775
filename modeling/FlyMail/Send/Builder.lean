/-
Outgoing mail as text.

`BuildRFC5322` writes the fields of the header one after another, and then the body, or a container
of parts with headers of their own.  What it was given goes into the fields in one of four ways: in
an encoded word or quoted, cleaned, checked beforehand, or as it is.

Encoded words are a parameter; they have line ends in them only to fold a field.
-/
import FlyMail.Lib.Calendar
import FlyMail.Lib.Chunks
import FlyMail.Lib.Fields
import FlyMail.Lib.Utf8

namespace FlyMail.Send

open Fields (crlf)

structure Attachment where
  filename : Text
  contentType : Text
  content : Bytes
  contentID : Text
  deriving DecidableEq, Repr

def Attachment.isInline (a : Attachment) : Bool := a.contentID != []

structure Identity where
  address : Text
  name : Text
  deriving DecidableEq, Repr

/-- What `BuildRFC5322` reads of a request. -/
structure SendRequest where
  toList : List Text
  ccList : List Text
  subject : Text
  bodyHTML : Text
  inReplyTo : Text
  references : Text
  attachments : List Attachment
  deriving DecidableEq, Repr

/-- Encoded words, in `B` and in `Q`. -/
structure WordEncoders where
  bEncode : Text → Text
  qEncode : Text → Text
  folded_bEncode : ∀ s, Fields.folded (bEncode s) = true
  folded_qEncode : ∀ s, Fields.folded (qEncode s) = true

inductive Err
  | invalidContentID (contentID : Text)
  /-- There is no randomness. -/
  | generateBoundary
  deriving DecidableEq, Repr

/-! ### Addresses -/

def isVchar (c : Char) : Bool := ('!' ≤ c && c ≤ '~') || 128 ≤ c.toNat

def isAtext (c : Char) : Bool := !"()<>[]:;@\\,\"".toList.contains c && c != '.' && isVchar c

def isQtext (c : Char) : Bool := c != '\\' && c != '"' && isVchar c

def quoteString (s : Text) : Text :=
  '"' :: s.flatMap (fun c =>
    if isQtext c || Fields.isWSP c then [c] else if isVchar c then ['\\', c] else []) ++ ['"']

/-- Is there anything but atoms with single dots between them? -/
def quoteLocal : Option Char → Text → Bool
  | _, [] => false
  | prev, c :: t =>
      if isAtext c || (c == '.' && prev.isSome && prev != some '.' && t != []) then quoteLocal (some c) t
      else true

/-- What is behind the last `@`; the local part of an address without one is all of it. -/
def domainOf (address : Text) : Text :=
  if address.contains '@' then (address.reverse.takeWhile (· != '@')).reverse else []

def localOf (address : Text) : Text :=
  if address.contains '@' then ((address.reverse.dropWhile (· != '@')).drop 1).reverse else address

/-- The display name with a blank behind it. -/
def displayName (m : WordEncoders) (name : Text) : Text :=
  if name = [] then []
  else if name.all fun c => (isVchar c || Fields.isWSP c) && c.toNat < 128 then quoteString name ++ [' ']
  else if name.any fun c => "\"#$%&'(),.:;<>@[]^`\x7b|\x7d~".toList.contains c then m.bEncode name ++ [' ']
  else m.qEncode name ++ [' ']

/-- `mail.Address.String`. -/
def addressString (m : WordEncoders) (name address : Text) : Text :=
  let localPart := if quoteLocal none (localOf address) then quoteString (localOf address) else localOf address
  displayName m name ++ '<' :: localPart ++ '@' :: domainOf address ++ ['>']

def encodeAddressList (m : WordEncoders) (addrs : List Text) : Text :=
  Text.join (addrs.map (addressString m [])) ", ".toList

/-! ### Message-ids -/

def isIDChar (c : Char) : Bool :=
  ('a' ≤ c && c ≤ 'z') || ('A' ≤ c && c ≤ 'Z') || ('0' ≤ c && c ≤ '9')

def validContentID (s : Text) : Bool :=
  s != [] && s.length ≤ 128 && s.all fun c => isIDChar c || "._-".toList.contains c

def validMsgID (s : Text) : Bool :=
  s != [] && s.length ≤ 255 && s.count '@' == 1 && s.head? != some '@' && s.getLast? != some '@' &&
    s.all fun c => isIDChar c || "!#$%&*+-/=?^_`\x7b|\x7d~.@".toList.contains c

def isMsgIDSep (c : Char) : Bool := c == ' ' || c == '\t' || c == ','

/-- The text without the angle brackets around it. -/
def stripBrackets (id : Text) : Text :=
  if 2 ≤ id.length ∧ id.head? = some '<' ∧ id.getLast? = some '>' then (id.drop 1).dropLast else id

/-- The valid ids of the text, until there are `max` of them; `fuel` is the length of the text. -/
def scanMsgIDs (max : Nat) : Nat → List Text → Text → List Text
  | 0, ids, _ => ids
  | fuel + 1, ids, raw =>
      if raw = [] ∨ max ≤ ids.length then ids
      else
        let raw := raw.dropWhile isMsgIDSep
        let id := stripBrackets (raw.takeWhile fun c => !isMsgIDSep c)
        let rest := raw.dropWhile fun c => !isMsgIDSep c
        if validMsgID id then scanMsgIDs max fuel (ids ++ [id]) rest else scanMsgIDs max fuel ids rest

def cleanMsgIDList (raw : Text) (max : Nat) : Option Text :=
  if raw.any Fields.isBreak then none
  else
    let ids := scanMsgIDs max raw.length [] raw
    if ids = [] then none else some (Text.join ids "> <".toList)

/-! ### Parameters -/

/-- Printable characters of ASCII, and blanks. -/
def isASCII (s : Text) : Bool := s.all fun c => 0x20 ≤ c.toNat && c.toNat ≤ 0x7e

def dropQuotes (s : Text) : Text := s.filter (· != '"')

def encodeParamValue (m : WordEncoders) (s : Text) : Text :=
  if isASCII s then '"' :: dropQuotes s ++ ['"'] else m.bEncode s

def utf8 (s : Text) : Bytes := s.flatMap String.utf8EncodeChar

def hexDigit (n : Nat) : Char := "0123456789ABCDEF".toList.getD n '0'

def pctEncode (s : Text) : Text :=
  (utf8 s).flatMap fun b =>
    let c := Char.ofNat b.toNat
    if isIDChar c || "!#$&+-.^_`|~".toList.contains c then [c]
    else ['%', hexDigit (b.toNat / 16), hexDigit (b.toNat % 16)]

def dispositionFilename (s : Text) : Text :=
  if isASCII s then "filename=\"".toList ++ dropQuotes s ++ ['"']
  else "filename*=UTF-8''".toList ++ pctEncode s

def contentTypeOrDefault (att : Attachment) : Text :=
  if att.contentType = [] then "application/octet-stream".toList else att.contentType

/-! ### Base64 -/

def base64Char (n : Nat) : Char :=
  "ABCDEFGHIJKLMNOPQRSTUVWXYZabcdefghijklmnopqrstuvwxyz0123456789+/".toList.getD n '='

def encodeToString : Bytes → Text
  | a :: b :: c :: t =>
      let n := a.toNat * 65536 + b.toNat * 256 + c.toNat
      [base64Char (n / 262144), base64Char (n / 4096 % 64), base64Char (n / 64 % 64), base64Char (n % 64)] ++
        encodeToString t
  | [a, b] =>
      let n := a.toNat * 65536 + b.toNat * 256
      [base64Char (n / 262144), base64Char (n / 4096 % 64), base64Char (n / 64 % 64), '=']
  | [a] => [base64Char (a.toNat / 4), base64Char (a.toNat % 4 * 16), '=', '=']
  | [] => []

/-- In lines of at most 76 characters. -/
def writeBase64Wrapped (data : Bytes) : Text :=
  (chunksOf 76 (encodeToString data)).flatMap fun l => l ++ crlf

/-! ### Dates -/

/-- A moment by the clock on the wall, and how many minutes that is from UTC. -/
structure LocalTime where
  seconds : Nat
  east : Bool
  offset : Nat
  deriving DecidableEq, Repr

def weekday (t : LocalTime) : Text :=
  (["Mon", "Tue", "Wed", "Thu", "Fri", "Sat", "Sun"].getD (t.seconds / 86400 % 7) "").toList

def monthName (month : Nat) : Text :=
  (["Jan", "Feb", "Mar", "Apr", "May", "Jun", "Jul", "Aug", "Sep", "Oct", "Nov", "Dec"].getD (month - 1) "").toList

/-- `Mon, 02 Jan 2006 15:04:05 -0700`. -/
def formatDate (t : LocalTime) : Text :=
  let d := Calendar.ofSeconds t.seconds
  weekday t ++ ", ".toList ++ Layout.pad 2 d.day ++ [' '] ++ monthName d.month ++ [' '] ++
    (if d.year < 10000 then Layout.pad 4 d.year else Text.formatUint d.year) ++ [' '] ++
    Layout.pad 2 d.hour ++ [':'] ++ Layout.pad 2 d.minute ++ [':'] ++ Layout.pad 2 d.second ++ [' '] ++
    [if t.east then '+' else '-'] ++ Layout.pad 2 (t.offset / 60) ++ Layout.pad 2 (t.offset % 60)

/-! ### Sections -/

/-- A field as it is written. -/
def field (name : String) (value : Text) : Text := name.toList ++ ": ".toList ++ value

def commonFields (m : WordEncoders) (sender : Identity) (req : SendRequest) (messageID : Text) (date : LocalTime) :
    List Text :=
  [field "From" (addressString m sender.name sender.address), field "To" (encodeAddressList m req.toList)] ++
    (if req.ccList = [] then [] else [field "Cc" (encodeAddressList m req.ccList)]) ++
    [field "Subject" (m.bEncode req.subject), field "Date" (formatDate date),
      field "Message-ID" ('<' :: messageID ++ ['>'])] ++
    (if req.inReplyTo = [] then []
      else ((cleanMsgIDList req.inReplyTo 1).map fun v => field "In-Reply-To" ('<' :: v ++ ['>'])).toList) ++
    -- the ids are joined with brackets between them, and written without the outermost
    (if req.references = [] then []
      else ((cleanMsgIDList req.references 255).map fun v => field "References" v).toList) ++
    [field "MIME-Version" "1.0".toList]

def htmlFields : List Text :=
  [field "Content-Type" "text/html; charset=UTF-8".toList,
    field "Content-Transfer-Encoding" "base64".toList]

def contentTypeField (m : WordEncoders) (att : Attachment) : Text :=
  field "Content-Type" (contentTypeOrDefault att ++ "; name=".toList ++ encodeParamValue m att.filename)

def inlineFields (m : WordEncoders) (att : Attachment) : List Text :=
  [contentTypeField m att, field "Content-Transfer-Encoding" "base64".toList,
    field "Content-ID" ('<' :: att.contentID ++ ['>']),
    field "Content-Disposition" ("inline; ".toList ++ dispositionFilename att.filename)]

def attachmentFields (m : WordEncoders) (att : Attachment) : List Text :=
  [contentTypeField m att, field "Content-Transfer-Encoding" "base64".toList,
    field "Content-Disposition" ("attachment; ".toList ++ dispositionFilename att.filename)]

def relatedField (boundary : Text) : Text :=
  field "Content-Type" ("multipart/related; type=\"text/html\"; boundary=\"".toList ++ boundary ++ ['"'])

def mixedField (boundary : Text) : Text :=
  field "Content-Type" ("multipart/mixed; boundary=\"".toList ++ boundary ++ ['"'])

/-! ### The mail -/

/-- Fields, an empty line, and content in base64. -/
def writePart (fields : List Text) (content : Bytes) : Text :=
  Fields.write fields ++ crlf ++ writeBase64Wrapped content

def delimiter (boundary : Text) : Text := '-' :: '-' :: boundary

/-- The parts between delimiters, and the one that closes the container. -/
def writeParts (boundary : Text) (parts : List Text) : Text :=
  parts.flatMap (fun p => delimiter boundary ++ crlf ++ p) ++ delimiter boundary ++ "--".toList ++ crlf

/-- `writeRelated`, behind the fields of the section it belongs to. -/
def writeRelated (m : WordEncoders) (boundary : Text) (fields : List Text) (html : Text)
    (inline : List Attachment) : Text :=
  Fields.write (fields ++ [relatedField boundary]) ++ crlf ++
    writeParts boundary (writePart htmlFields (utf8 html) ::
      inline.map fun att => writePart (inlineFields m att) att.content)

def hexByte (b : UInt8) : Text :=
  (Nat.toDigits 16 (b.toNat / 16)) ++ Nat.toDigits 16 (b.toNat % 16)

/-- A boundary of random bytes. -/
def randomBoundary : Option Bytes → Except Err Text
  | none => .error .generateBoundary
  | some bytes => .ok ("flymail_".toList ++ bytes.flatMap hexByte)

/-- The inline attachments and the others. -/
def splitAttachments (atts : List Attachment) : List Attachment × List Attachment :=
  (atts.filter Attachment.isInline, atts.filter fun att => !att.isInline)

/-- The mail, with what is drawn for the first boundary and for the second. -/
def buildRFC5322 (m : WordEncoders) (sender : Identity) (req : SendRequest) (messageID : Text)
    (date : LocalTime) (rand₁ rand₂ : Option Bytes) : Except Err Text :=
  let (inline, regular) := splitAttachments req.attachments
  match inline.find? fun att => !validContentID att.contentID with
  | some att => .error (.invalidContentID att.contentID)
  | none =>
      let common := commonFields m sender req messageID date
      if regular = [] then
        if inline = [] then .ok (writePart (common ++ htmlFields) (utf8 req.bodyHTML))
        else do
          let boundary ← randomBoundary rand₁
          return writeRelated m boundary common req.bodyHTML inline
      else do
        let boundary ← randomBoundary rand₁
        let attachments := regular.map fun att => writePart (attachmentFields m att) att.content
        if inline = [] then
          return Fields.write (common ++ [mixedField boundary]) ++ crlf ++
            writeParts boundary (writePart htmlFields (utf8 req.bodyHTML) :: attachments)
        else
          let related ← randomBoundary rand₂
          return Fields.write (common ++ [mixedField boundary]) ++ crlf ++
            writeParts boundary (writeRelated m related [] req.bodyHTML inline :: attachments)

/-- The header fields of each section, as the builder means them. -/
def sections (m : WordEncoders) (sender : Identity) (req : SendRequest) (messageID : Text) (date : LocalTime)
    (boundary related : Text) : List (List Text) :=
  let (inline, regular) := splitAttachments req.attachments
  let common := commonFields m sender req messageID date
  let inlineSections := htmlFields :: inline.map (inlineFields m)
  let regularSections := regular.map (attachmentFields m)
  if regular = [] then
    if inline = [] then [common ++ htmlFields] else (common ++ [relatedField boundary]) :: inlineSections
  else if inline = [] then (common ++ [mixedField boundary]) :: htmlFields :: regularSections
  else (common ++ [mixedField boundary]) :: [relatedField related] :: (inlineSections ++ regularSections)

end FlyMail.Send
