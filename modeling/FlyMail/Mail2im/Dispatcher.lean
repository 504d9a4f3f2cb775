/-
Which channels mail2im notifies of an event, and the migration of what they subscribed to.

A channel used to name the mail types it wants: none at all, or `all` among them, for everything, in any
letter case.  Now a mail type names the channels, and one that names none leaves it to them as before.
`migrateSubscribedTypes` makes the one of the other.

JSON, the configuration of a channel, `strings.EqualFold`, the strategy and the quiet hours are
parameters.
-/
import FlyMail.Lib.Table
import FlyMail.Lib.Text

namespace FlyMail.Mail2im.Dispatcher

/-- A row of `mail_types`. -/
structure MailType where
  key : Text
  action : Text
  /-- A JSON list of channel ids. -/
  channelIDs : Text
  deriving DecidableEq, Repr

structure ChannelQuiet where
  mode : Text
  enabled : Bool
  start : Text
  stop : Text
  deriving DecidableEq, Repr

/-- A row of `channels`. -/
structure Channel where
  id : Nat
  name : Text
  type : Text
  /-- JSON. -/
  config : Text
  status : Text
  minPriority : Int
  /-- A JSON list of mail types. -/
  subscribedTypes : Text
  quiet : ChannelQuiet
  deriving DecidableEq, Repr

abbrev Channels := Table Channel Channel.id Channel.id

inductive EventType
  | emailReceived
  | authFailed
  | systemError
  deriving DecidableEq, Repr

structure Event where
  type : EventType
  priority : Int
  /-- Empty when the payload has none. -/
  mailType : Text
  deriving DecidableEq, Repr

/-- A channel as the dispatcher holds it. -/
structure ChannelEntry where
  id : Option Nat
  name : Text
  channelType : Text
  minPriority : Int
  quiet : ChannelQuiet
  subscribedTypes : List Text
  deriving DecidableEq, Repr

def emptyList : Text := "[]".toList

structure Setup where
  marshalIDs : List Nat → Text
  unmarshalIDs : Text → Option (List Nat)
  /-- What has been read of a list of texts, and whether without an error. -/
  unmarshalTypes : Text → List Text × Bool
  /-- A channel of the type can be made with the configuration. -/
  configured : Text → Text → Bool
  equalFold : Text → Text → Bool
  shouldSend : Event → Bool
  isQuiet : ChannelQuiet → Bool
  unmarshal_marshal : ∀ ids, unmarshalIDs (marshalIDs ids) = some ids
  marshal_ne : ∀ ids, ids ≠ [] → marshalIDs ids ≠ [] ∧ marshalIDs ids ≠ emptyList
  equalFold_refl : ∀ t, equalFold t t = true

variable (S : Setup)

/-! ### The migration -/

/-- The type names channels. -/
def MailType.hasChannels (mt : MailType) : Bool := mt.channelIDs ≠ [] && mt.channelIDs ≠ emptyList

/-- The types the migration reads of a channel. -/
def migratedTypes (ch : Channel) : List Text :=
  if ch.subscribedTypes = [] ∨ ch.subscribedTypes = emptyList then []
  else
    match S.unmarshalTypes ch.subscribedTypes with
    | (subs, true) => subs
    | (_, false) => []

/-- The channels that go with a type. -/
def idsOf (channels : List Channel) (key : Text) : List Nat :=
  channels.flatMap fun ch => ((migratedTypes S ch).filter fun s => s == key).map fun _ => ch.id

def migrateSubscribedTypes (channels : Channels) (types : List MailType) : List MailType :=
  if types.any MailType.hasChannels then types
  else types.map fun mt =>
    if idsOf S channels.rows mt.key = [] then mt
    else { mt with channelIDs := S.marshalIDs (idsOf S channels.rows mt.key) }

/-! ### The dispatcher -/

def consoleEntry : ChannelEntry := ⟨none, "Console".toList, "console".toList, 0, ⟨"global".toList, false, [], []⟩, []⟩

def subscribedTypes (ch : Channel) : List Text :=
  if ch.subscribedTypes = [] then [] else (S.unmarshalTypes ch.subscribedTypes).1

def entryOf (ch : Channel) : Option ChannelEntry :=
  if ch.status = "enabled".toList ∧ S.configured ch.type ch.config then
    some ⟨some ch.id, ch.name, ch.type, ch.minPriority, ch.quiet, subscribedTypes S ch⟩
  else none

def reloadChannels (channels : Channels) : List ChannelEntry :=
  consoleEntry :: channels.rows.filterMap (entryOf S)

/-- What the mail type says of an event. -/
inductive Routing
  | suppressed
  | all
  | only (ids : List Nat)
  deriving DecidableEq, Repr

/-- Mail of the type is not sent on. -/
def MailType.suppresses (mt : MailType) : Bool := mt.action == "ignore".toList || mt.action == "silent".toList

def routeTo (mt : MailType) : Routing :=
  if mt.suppresses then .suppressed
  else if mt.hasChannels then
    match S.unmarshalIDs mt.channelIDs with
    | some ids => if ids = [] then .all else .only ids
    | none => .all
  else .all

def route (types : List MailType) (e : Event) : Routing :=
  if e.type = .emailReceived ∧ e.mailType ≠ [] then
    match types.find? fun mt => mt.key == e.mailType with
    | none => .all
    | some mt => routeTo S mt
  else .all

/-- The channel's own list lets the event pass. -/
def subscribed (ch : ChannelEntry) (e : Event) : Bool :=
  ch.subscribedTypes.isEmpty || e.mailType.isEmpty ||
    ch.subscribedTypes.any fun t => S.equalFold t e.mailType || S.equalFold t "all".toList

/-- Neither its priority nor its quiet hours keep the channel from sending. -/
def awake (ch : ChannelEntry) (e : Event) : Bool := decide (ch.minPriority ≤ e.priority) && !S.isQuiet ch.quiet

def admits (r : Routing) (e : Event) (ch : ChannelEntry) : Bool :=
  awake S ch e &&
    match r with
    | .suppressed => false
    | .all => subscribed S ch e
    | .only ids =>
        match ch.id with
        | some id => ids.contains id
        | none => true

/-- The channels the event is sent to. -/
def handleEvent (types : List MailType) (channels : List ChannelEntry) (e : Event) : List ChannelEntry :=
  if S.shouldSend e then channels.filter (admits S (route S types e) e) else []

end FlyMail.Mail2im.Dispatcher
