/-
From a notice to the channels.

A notice becomes an event, with a link to open the mail by.  The worker delivers it to every
channel that wants such events: it loads the mail once, with the whole text if some channel
shows it, and renders it for each at the channel's own level.  The mail is looked up when the
event is delivered; it may be gone by then.
-/
import FlyMail.Notify.Render

namespace FlyMail.Notify

open Sync.Notify (Notice)

inductive ChannelKind
  | webhook
  | feishu
  deriving DecidableEq, Repr

structure Channel where
  id : Nat
  kind : Text
  url : Text
  secret : Text
  events : Text
  enabled : Bool
  level : Text
  deriving DecidableEq, Repr

namespace Channel

/-- The level the channel was given, and the snippet where it was given none. -/
def contentLevel (c : Channel) : ContentLevel :=
  if c.level = ContentLevel.basic.name then .basic
  else if c.level = ContentLevel.full.name then .full
  else .snippet

/-- The kind of the channel; what is not a Feishu group is a webhook. -/
def channelKind (c : Channel) : ChannelKind :=
  if c.kind = "feishu".toList then .feishu else .webhook

def splitEvents (csv : Text) : List Text :=
  ((Text.commaSplit csv).map Text.trimSpace).filter fun s => s != []

def subscribes (c : Channel) (t : EventType) : Bool := (splitEvents c.events).contains t.name

end Channel

def enabledChannelsFor (channels : List Channel) (t : EventType) : List Channel :=
  channels.filter fun c => c.enabled && c.subscribes t

/-- What is stored of a mail: its row, and its text and links if they are known. -/
structure Rows where
  byID : Nat → Option Message
  bodyForDisplay : Nat → Option (Text × List Text)

/-! ### Events -/

/-- The address to open the mail by, under the address the program is reached at. -/
def mailLink (base : Text) (accountID folderID messageID : Nat) : Text :=
  let base := ((Text.trimSpace base).reverse.dropWhile fun c => c == '/').reverse
  let q := ([("account".toList, accountID), ("folder".toList, folderID),
    ("message".toList, messageID)] : List (Text × Nat)).filter fun e => e.2 != 0
  if base = [] then []
  else if q = [] then base ++ ['/']
  else base ++ "/?".toList ++ Text.join (q.map fun e => e.1 ++ '=' :: Text.formatUint e.2) ['&']

def buildLink (base : Text) (d : Rows) (accountID messageID : Nat) : Text :=
  if base = [] then []
  else
    mailLink base accountID
      (if messageID = 0 then 0 else ((d.byID messageID).map Message.folderID).getD 0) messageID

def emit (base : Text) (d : Rows) (type : EventType) (n : Notice) : Event :=
  ⟨type, n.accountID, n.messageID, n.title, n.body, buildLink base d n.accountID n.messageID, none⟩

/-! ### Delivery -/

/-- The mail as channels show it. -/
def mailProvider (d : Rows) (messageID : Nat) (wantFull : Bool) : Option MailData :=
  (d.byID messageID).map fun msg =>
    let res := if wantFull then d.bodyForDisplay messageID else none
    { sender := if msg.fromName = [] then msg.fromAddr else msg.fromName
      subject := msg.subject
      date := msg.date
      snippet := msg.snippet
      body := (res.map Prod.fst).getD []
      links := (res.map Prod.snd).getD [] }

def mailDataFor (d : Rows) (evt : Event) (channels : List Channel) : Option MailData :=
  if evt.messageID = 0 ∨ channels = [] then none
  else mailProvider d evt.messageID (channels.any fun c => c.contentLevel == .full)

/-- What a channel is sent. -/
structure Request where
  url : Text
  secret : Option Text
  payload : Json

def sendWebhook (env : Env) (c : Channel) (evt : Event) (level : ContentLevel) : Request :=
  ⟨c.url, if c.secret = [] then none else some c.secret, webhookPayload env evt level⟩

/-- The card, signed if the channel has a secret. -/
def sign (env : Env) (secret : Text) : Json → Json
  | .obj fields =>
      let ts := Text.formatUint env.now
      if secret = [] then .obj fields
      else .obj (fields ++ [text "timestamp" ts, text "sign" (env.feishuSign ts secret)])
  | card => card

def sendFeishu (env : Env) (c : Channel) (evt : Event) (level : ContentLevel) : Request :=
  ⟨c.url, none, sign env c.secret (fitFeishuCard env evt level (configuredBodyRunes env))⟩

def dispatch (env : Env) (c : Channel) (evt : Event) : Request :=
  match c.channelKind with
  | .feishu => sendFeishu env c evt c.contentLevel
  | .webhook => sendWebhook env c evt c.contentLevel

def deliver (env : Env) (stored : List Channel) (d : Rows) (evt : Event) :
    List (Channel × Request) :=
  let channels := enabledChannelsFor stored evt.type
  let evt := { evt with mail := mailDataFor d evt channels }
  channels.map fun c => (c, dispatch env c evt)

end FlyMail.Notify
