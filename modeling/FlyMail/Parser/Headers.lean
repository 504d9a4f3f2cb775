/-
The fields of a mail's header, from the whole mail and from the header alone.

Strings are bytes here, as they come from the server.  The header is read by the mail library,
which is a parameter: what it answers depends on the lines of the header it is given.  Which
address stands for a field it could not read, and which message-ids are in one, is decided here.

`ParseHeaders` makes UTF-8 of the bytes before it gives them to the library.
-/
import FlyMail.Lib.Text
import FlyMail.Lib.Utf8
import FlyMail.Store

namespace FlyMail.Parser

/-! ### Strings -/

def byte (c : Char) : UInt8 := UInt8.ofNat c.toNat

/-- The characters Unicode calls white space, in UTF-8. -/
def spaces : List Bytes :=
  [[9], [10], [11], [12], [13], [32], [0xC2, 0x85], [0xC2, 0xA0], [0xE1, 0x9A, 0x80], [0xE2, 0x80, 0x80],
    [0xE2, 0x80, 0x81], [0xE2, 0x80, 0x82], [0xE2, 0x80, 0x83], [0xE2, 0x80, 0x84], [0xE2, 0x80, 0x85],
    [0xE2, 0x80, 0x86], [0xE2, 0x80, 0x87], [0xE2, 0x80, 0x88], [0xE2, 0x80, 0x89], [0xE2, 0x80, 0x8A],
    [0xE2, 0x80, 0xA8], [0xE2, 0x80, 0xA9], [0xE2, 0x80, 0xAF], [0xE2, 0x81, 0x9F], [0xE3, 0x80, 0x80]]

/-- Without the beginnings among `seps`, at most `fuel` of them. -/
def trimLeft (seps : List Bytes) : Nat → Bytes → Bytes
  | 0, s => s
  | fuel + 1, s =>
      match seps.find? fun sep => sep.isPrefixOf s with
      | some sep => trimLeft seps fuel (s.drop sep.length)
      | none => s

/-- `strings.TrimSpace`. -/
def trimSpace (s : Bytes) : Bytes :=
  let s := trimLeft spaces s.length s
  (trimLeft (spaces.map List.reverse) s.length s.reverse).reverse

/-- `strings.Trim`, with ASCII characters. -/
def trim (s : Bytes) (cutset : Text) : Bytes :=
  let cut := fun c => (cutset.map byte).contains c
  ((s.dropWhile cut).reverse.dropWhile cut).reverse

/-- `strings.TrimSuffix`, with one ASCII character. -/
def trimSuffix (s : Bytes) (c : Char) : Bytes :=
  if s.getLast? = some (byte c) then s.dropLast else s

/-- What is before the first `c` and what is behind it. -/
def cutAt (s : Bytes) (c : Char) : Option (Bytes × Bytes) :=
  match s.dropWhile (· != byte c) with
  | [] => none
  | _ :: rest => some (s.takeWhile (· != byte c), rest)

def contains (s : Bytes) (c : Char) : Bool := List.contains s (byte c)

/-! ### Emails -/

structure Address where
  name : Bytes
  email : Bytes
  deriving DecidableEq, Repr

structure Attachment where
  filename : Bytes
  contentType : Bytes
  size : Nat
  contentID : Bytes
  isInline : Bool
  deriving DecidableEq, Repr

/-- What the parser fills in.  A `date` of `0` is none. -/
structure ParsedEmail where
  messageID : Bytes
  subject : Bytes
  fromList : List Address
  toList : List Address
  cc : List Address
  bcc : List Address
  replyTo : List Address
  date : Time
  inReplyTo : Bytes
  references : Bytes
  textBody : Bytes
  htmlBody : Bytes
  attachments : List Attachment
  deriving DecidableEq, Repr

def ParsedEmail.empty : ParsedEmail := ⟨[], [], [], [], [], [], [], 0, [], [], [], [], []⟩

/-! ### The mail library -/

/-- How `mail.CreateReader` ends: an unknown charset is an error, but there is a reader. -/
inductive Created
  | reader
  | readerAndError
  | error
  deriving DecidableEq, Repr

/-- The mail library, for the lines of a header. -/
structure GoMessage where
  createReader : List Bytes → Created
  text : List Bytes → Text → Option Bytes
  get : List Bytes → Text → Bytes
  addressList : List Bytes → Text → Option (List Address)
  date : List Bytes → Option Time
  /-- `wordDecoder.DecodeHeader`. -/
  decodeHeader : Bytes → Option Bytes
  /-- Text, HTML and attachments of a mail. -/
  walkParts : Bytes → Bytes × Bytes × List Attachment

/-- The lines of the header in what the library is given to read. -/
def headerLines (bs : Bytes) : List Bytes := Bytes.untilEmpty (Bytes.lines bs)

/-- The header of a mail, with the empty line behind it. -/
def headerSection (m : Bytes) : Bytes := Bytes.throughEmpty true m

namespace GoMessage

variable (g : GoMessage)

def decodeMIMEHeader (s : Bytes) : Bytes := (g.decodeHeader s).getD s

/-! ### Fields -/

/-- The message-ids in angle brackets. -/
def bracketed : Nat → Bytes → List Bytes
  | 0, _ => []
  | fuel + 1, raw =>
      match cutAt raw '<' with
      | none => []
      | some (_, rest) =>
          match cutAt rest '>' with
          | none => []
          | some (id, rest) =>
              if trimSpace id = [] then bracketed fuel rest else trimSpace id :: bracketed fuel rest

/-- Between two message-ids without angle brackets. -/
def isIDSep (c : UInt8) : Bool := c == byte ' ' || c == 9 || c == 13 || c == 10 || c == byte ','

def messageIDs (raw : Bytes) : List Bytes :=
  let raw := trimSpace raw
  if raw = [] then []
  else if contains raw '<' then bracketed raw.length raw
  else (raw.splitOnP isIDSep).filter fun f => contains f '@'

/-- The addresses in angle brackets. -/
def bracketedAddresses : Nat → Bytes → List Address
  | 0, _ => []
  | fuel + 1, rest =>
      match cutAt rest '<' with
      | none => []
      | some (name, rest) =>
          match cutAt rest '>' with
          | none => []
          | some (addr, rest) =>
              let name := trimSpace (trimSuffix (trim (trimSpace name) "\",;".toList) ',')
              if contains (trimSpace addr) '@' then
                ⟨g.decodeMIMEHeader name, trimSpace addr⟩ :: bracketedAddresses fuel rest
              else bracketedAddresses fuel rest

def lenientAddresses (raw : Bytes) : List Address :=
  let raw := trimSpace raw
  if raw = [] then []
  else if contains raw '<' then g.bracketedAddresses raw.length raw
  else
    ((raw.splitOn (byte ',')).map trimSpace).filterMap fun part =>
      if contains part '@' ∧ contains part ' ' = false ∧ List.contains part 9 = false then some ⟨[], part⟩
      else none

/-- `addressList`: a field that the library cannot read is read here. -/
def addresses (header : List Bytes) (key : Text) : List Address :=
  match g.addressList header key with
  | some (a :: as) => (a :: as).map fun a => ⟨g.decodeMIMEHeader a.name, a.email⟩
  | _ => g.lenientAddresses (g.get header key)

def fillThreadHeaders (header : List Bytes) (email : ParsedEmail) : ParsedEmail :=
  { email with
    inReplyTo :=
      if email.inReplyTo = [] then ((messageIDs (g.get header "In-Reply-To".toList)).head?).getD []
      else email.inReplyTo
    references :=
      if email.references = [] then
        [byte ' '].intercalate (messageIDs (g.get header "References".toList))
      else email.references }

/-- The addresses of a field, unless there are some. -/
def fillAddresses (header : List Bytes) (key : Text) (old : List Address) : List Address :=
  if old = [] then g.addresses header key else old

def fillFromHeaders (header : List Bytes) (email : ParsedEmail) : ParsedEmail :=
  { email with
    subject :=
      if email.subject = [] then
        match g.text header "Subject".toList with
        | some subj => if subj = [] then email.subject else g.decodeMIMEHeader subj
        | none => email.subject
      else email.subject
    messageID :=
      if email.messageID = [] then
        match g.text header "Message-ID".toList with
        | some mid => trim mid "<>".toList
        | none => email.messageID
      else email.messageID
    fromList := g.fillAddresses header "From".toList email.fromList
    toList := g.fillAddresses header "To".toList email.toList
    cc := g.fillAddresses header "Cc".toList email.cc
    bcc := g.fillAddresses header "Bcc".toList email.bcc
    replyTo := g.fillAddresses header "Reply-To".toList email.replyTo
    date :=
      if email.date = 0 then
        match g.date header with
        | some d => if d = 0 then email.date else d
        | none => email.date
      else email.date }

/-! ### The two ways -/

/-- `ParseBody`: nothing if it returns an error. -/
def parseBody (m : Bytes) (email : ParsedEmail) (fallbackHeaders : Bool) : Option ParsedEmail :=
  match g.createReader (headerLines m) with
  | .reader =>
      let email := if fallbackHeaders then g.fillFromHeaders (headerLines m) email else email
      let email := g.fillThreadHeaders (headerLines m) email
      let (text, html, atts) := g.walkParts m
      some { email with
        textBody := if email.textBody = [] then text else email.textBody
        htmlBody := if email.htmlBody = [] then html else email.htmlBody
        attachments := email.attachments ++ atts }
  | _ => none

end GoMessage

/-- The bytes of a header as UTF-8: as they are, else as what they are in GB18030, else in Latin-1. -/
def decodeRawHeaderBytes (gb18030 : Bytes → Option Bytes) (b : Bytes) : Bytes :=
  if Utf8.valid b then b
  else
    match gb18030 b with
    | some out => if Utf8.valid out then out else Utf8.latin1 b
    | none => Utf8.latin1 b

/-- `ParseHeaders`: the email, which stays what it was if an error is returned. -/
def GoMessage.parseHeaders (g : GoMessage) (gb18030 : Bytes → Option Bytes) (raw : Bytes) (email : ParsedEmail) :
    ParsedEmail :=
  let header := headerLines (decodeRawHeaderBytes gb18030 raw ++ Bytes.crlf ++ Bytes.crlf)
  match g.createReader header with
  | .error => email
  | _ => g.fillThreadHeaders header (g.fillFromHeaders header email)

end FlyMail.Parser
