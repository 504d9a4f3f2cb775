/-
What a notice looks like when it leaves the program.

An event carries a title and a body ready for use, and the mail it is about, if one could be
loaded.  How much of the mail is shown depends on the channel's content level: the sender and
the subject, the start of the text, or all of it.  A webhook is sent an object with fields, a
Feishu group a card; a card that would be too large is laid out again with less text.
-/
import FlyMail.Lib.Json
import FlyMail.Sync.Notify

namespace FlyMail.Notify

open Sync.Notify (oneLine)

inductive EventType
  | mailNew
  | syncFailed
  | accountStatus
  | mailRule
  deriving DecidableEq, Repr

def EventType.name : EventType → Text
  | .mailNew => "mail_new".toList
  | .syncFailed => "sync_failed".toList
  | .accountStatus => "account_status".toList
  | .mailRule => "mail_rule".toList

/-- How much of a mail a channel shows. -/
inductive ContentLevel
  | basic
  | snippet
  | full
  deriving DecidableEq, Repr

def ContentLevel.name : ContentLevel → Text
  | .basic => "basic".toList
  | .snippet => "snippet".toList
  | .full => "full".toList

def ContentLevel.wantsBody : ContentLevel → Bool
  | .basic => false
  | .snippet | .full => true

structure MailData where
  sender : Text
  subject : Text
  date : Time
  snippet : Text
  /-- The whole text, loaded only if some channel shows it. -/
  body : Text
  links : List Text
  deriving DecidableEq, Repr

structure Event where
  type : EventType
  accountID : Nat
  messageID : Nat
  title : Text
  body : Text
  url : Text
  mail : Option MailData
  deriving DecidableEq, Repr

/-- What rendering takes from its surroundings. -/
structure Env where
  now : Time
  /-- A time after RFC 3339. -/
  rfc3339 : Time → Text
  /-- Month, day, hour and minute where the program runs. -/
  short : Time → Text
  /-- The signature for a time stamp and a secret. -/
  feishuSign : Text → Text → Text
  /-- The setting for the length of a card's text. -/
  bodyRunes : Option Int

/-! ### Texts -/

def feishuBodyRunes : Nat := 8000

def webhookBodyRunes : Nat := 20000

/-- How many bytes a card may take. -/
def feishuPayloadBudget : Nat := 26 * 1024

def minFeishuBodyRunes : Nat := 200

def cardHeaderTitleRunes : Nat := 36

def configuredBodyRunes (env : Env) : Nat :=
  match env.bodyRunes with
  | none => feishuBodyRunes
  | some n => if 0 < n then n.toNat else feishuBodyRunes

/-- The first characters, with an ellipsis if there are more. -/
def truncateRunes (s : Text) (limit : Nat) : Text :=
  if limit = 0 then []
  else if s.length ≤ limit then s
  else s.take limit ++ ['…']

def bodyFor (mail : MailData) (level : ContentLevel) (limit : Nat) : Text :=
  if level.wantsBody then
    let text := if level = .full ∧ mail.body ≠ [] then mail.body else mail.snippet
    truncateRunes (Text.trimSpace text) limit
  else []

/-- Sender and subject, if there is one of them. -/
def mailFields (mail : MailData) : Option (Text × Text) :=
  let sender := oneLine mail.sender
  let subject := oneLine mail.subject
  if sender = [] ∧ subject = [] then none
  else some (sender, if subject = [] then "（无主题）".toList else subject)

/-- The mail of the event, if it has something to show. -/
def Event.structured (evt : Event) : Option (MailData × Text × Text) :=
  evt.mail.bind fun mail => (mailFields mail).map fun fields => (mail, fields)

/-! ### A webhook -/

def plainBody (evt : Event) (level : ContentLevel) (limit : Nat) : Text :=
  match evt.structured with
  | none => truncateRunes evt.body limit
  | some (mail, _, subject) =>
      let body := bodyFor mail level limit
      if body = [] then subject else subject ++ '\n' :: body

def text (key : String) (value : Text) : Text × Json := (key.toList, .str value)

/-- The field of the mail. -/
def mailField (env : Env) (level : ContentLevel) : Option (MailData × Text × Text) → List (Text × Json)
  | none => []
  | some (mail, sender, subject) =>
      let body := bodyFor mail level webhookBodyRunes
      [("mail".toList, .obj
        ([text "from" sender, text "subject" subject] ++
          (if mail.date = 0 then [] else [text "date" (env.rfc3339 mail.date)]) ++
          (if body = [] then [] else [text "body" body]) ++
          (if level.wantsBody ∧ mail.links ≠ [] then
            [("links".toList, .arr (mail.links.map Json.str))] else [])))]

def webhookPayload (env : Env) (evt : Event) (level : ContentLevel) : Json :=
  .obj
    ([text "type" evt.type.name,
      text "title" evt.title,
      text "body" (plainBody evt level webhookBodyRunes),
      ("account_id".toList, .num evt.accountID),
      ("message_id".toList, .num evt.messageID),
      text "url" evt.url,
      text "content_level" level.name,
      text "time" (env.rfc3339 env.now)] ++
      mailField env level evt.structured)

/-! ### A card -/

def cardHeaderTemplate : EventType → Text
  | .syncFailed => "red".toList
  | .accountStatus => "orange".toList
  | .mailRule => "turquoise".toList
  | .mailNew => "blue".toList

def fallbackTitle : EventType → Text
  | .syncFailed => "同步失败".toList
  | .accountStatus => "账户状态变化".toList
  | .mailRule => "规则命中".toList
  | .mailNew => "新邮件".toList

def cardHeaderTitle (evt : Event) : Text :=
  match evt.structured with
  | some (_, _, subject) => truncateRunes subject cardHeaderTitleRunes
  | none =>
      let title := oneLine evt.title
      if title = [] then fallbackTitle evt.type else truncateRunes title cardHeaderTitleRunes

def plainText (content : Text) : Json := .obj [text "tag" "plain_text".toList, text "content" content]

def field (isShort : Bool) (content : Text) : Json :=
  .obj [("is_short".toList, .bool isShort), ("text".toList, plainText content)]

/-- Sender and time side by side, and the rule that applied. -/
def fieldsElement (env : Env) (evt : Event) : List Json :=
  match evt.structured with
  | none => []
  | some (mail, sender, _) =>
      let title := oneLine evt.title
      let fields :=
        (if sender = [] then [] else [field true ("发件人\n".toList ++ sender)]) ++
        (if mail.date = 0 then [] else [field true ("时间\n".toList ++ env.short mail.date)]) ++
        (if evt.type = .mailRule ∧ title ≠ [] then [field false ("触发\n".toList ++ title)] else [])
      if fields = [] then [] else [.obj [text "tag" "div".toList, ("fields".toList, .arr fields)]]

def cardBody (evt : Event) (level : ContentLevel) (bodyRunes : Nat) : Text :=
  match evt.structured with
  | some (mail, _) => bodyFor mail level bodyRunes
  | none => truncateRunes evt.body bodyRunes

def bodyElement (body : Text) : List Json :=
  if body = [] then []
  else [.obj [text "tag" "hr".toList], .obj [text "tag" "div".toList, ("text".toList, plainText body)]]

def linkEscaper (u : Text) : Text :=
  u.flatMap fun c =>
    if c = ')' then "%29".toList
    else if c = '(' then "%28".toList
    else if c = ']' then "%5D".toList
    else if c = '[' then "%5B".toList
    else [c]

def markdownLink (u : Text) : Text :=
  let safe := linkEscaper u
  '[' :: safe ++ "](".toList ++ safe ++ [')']

def linkElement (evt : Event) (level : ContentLevel) : List Json :=
  match evt.mail with
  | none => []
  | some mail =>
      if level.wantsBody ∧ mail.links ≠ [] then
        [.obj [text "tag" "div".toList,
          ("text".toList, .obj [text "tag" "lark_md".toList,
            text "content" ("**正文中的链接**\n".toList ++ Text.join (mail.links.map markdownLink) ['\n'])])]]
      else []

def cardButtonLabel (evt : Event) : Text :=
  if evt.messageID ≠ 0 then "打开邮件".toList else "打开 FlyMail".toList

def buttonElement (evt : Event) : List Json :=
  if evt.url = [] then []
  else
    [.obj [text "tag" "action".toList,
      ("actions".toList, .arr [.obj [text "tag" "button".toList,
        ("text".toList, plainText (cardButtonLabel evt)),
        text "url" evt.url, text "type" "primary".toList]])]]

def feishuCard (env : Env) (evt : Event) (level : ContentLevel) (bodyRunes : Nat) : Json :=
  .obj [text "msg_type" "interactive".toList,
    ("card".toList, .obj [
      ("config".toList, .obj [("wide_screen_mode".toList, .bool true)]),
      ("header".toList, .obj [("title".toList, plainText (cardHeaderTitle evt)),
        text "template" (cardHeaderTemplate evt.type)]),
      ("elements".toList, .arr (fieldsElement env evt ++ bodyElement (cardBody evt level bodyRunes) ++
        linkElement evt level ++ buttonElement evt))])]

/-- The limit to be tried next. The product is one of 64 bits and wraps around. -/
def nextBodyRunes (runes : Nat) : Nat :=
  max ((Int.bmod (runes * 7) (2 ^ 64)) / 10).toNat minFeishuBodyRunes

theorem nextBodyRunes_le (runes : Nat) :
    nextBodyRunes runes ≤ max (runes * 7 / 10) minFeishuBodyRunes := by
  have hwrap : Int.bmod (runes * 7) (2 ^ 64) ≤ runes * 7 := by
    rw [Int.bmod_def]
    omega
  have hdiv : ((Int.bmod (runes * 7) (2 ^ 64)) / 10).toNat ≤ runes * 7 / 10 := by omega
  unfold nextBodyRunes
  omega

/-- The limits get smaller. -/
theorem nextBodyRunes_lt {runes : Nat} (h : minFeishuBodyRunes < runes) : nextBodyRunes runes < runes := by
  refine Nat.lt_of_le_of_lt (nextBodyRunes_le runes) ?_
  unfold minFeishuBodyRunes at *
  omega

/-- The card with no more text than fits, from `runes` characters on. -/
def fitFeishuCard (env : Env) (evt : Event) (level : ContentLevel) (runes : Nat) : Json :=
  let card := feishuCard env evt level runes
  if card.size ≤ feishuPayloadBudget then card
  else if _h : minFeishuBodyRunes < runes then
    fitFeishuCard env evt level (nextBodyRunes runes)
  else card
termination_by runes
decreasing_by exact nextBodyRunes_lt ‹_›

end FlyMail.Notify
