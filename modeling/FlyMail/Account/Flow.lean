/-
Authorizations with a provider, from the callback to the account.

A flow waits for the provider to send the user's browser back.  The callback carries the
flow's `state`; it is looked up, the flow is looked up, the state is deleted, and then the
code is exchanged for a token or the flow fails.  `CompleteOAuth` takes the token of a flow
that succeeded and creates an account with it, or gives it to the account the flow was
started for, and then discards the flow.  A flow can be cancelled at any time.

The maps `states` and `flows` are shared by all calls, and so is the accounts table.  A
call that has found a flow keeps it although the entry is gone.

The journal `accepted` and `created` plays no part in what happens.  It records the states
with which a callback passed the checks, and the flows an account was created from.
-/
import FlyMail.Lib.Calls
import FlyMail.Account.Access
import Mathlib.Logic.Function.Basic

namespace FlyMail.Account.Flow

inductive Status
  | pending
  | success
  | failed
  deriving DecidableEq, Repr

/-- A flow.  An `accountID` of `0` stands for a new account. -/
structure OAuthFlow where
  provider : Text
  accountID : Nat
  status : Status
  failure : Option Err
  token : Option Token
  email : Text
  deriving DecidableEq, Repr

def OAuthFlow.succeed (f : OAuthFlow) (tok : Token) : OAuthFlow :=
  if f.status = .pending then
    { f with status := .success, token := some tok, email := tok.email }
  else f

def OAuthFlow.fail (f : OAuthFlow) (e : Err) : OAuthFlow :=
  if f.status = .pending then { f with status := .failed, failure := some e } else f

abbrev Accounts := Table Account Account.id Account.email

/-! ### The repository -/

namespace Repository

def getByID (accounts : Accounts) (id : Nat) : Except Err Account :=
  match accounts.get? id with
  | some a => .ok a
  | none => .error .accountNotFound

/-- The position behind all others. -/
def nextSortOrder (accounts : Accounts) : Nat :=
  (accounts.rows.map Account.sortOrder).foldl max 0 + 1

/-- `Create`: one transaction. -/
def create (accounts : Accounts) (a : Account) : Except Err (Accounts × Nat) :=
  let sortOrder := if a.sortOrder = 0 then nextSortOrder accounts else a.sortOrder
  if h : ∃ r ∈ accounts.rows, r.email = a.email then .error .db
  else .ok
    (accounts.insert (fun n => { a with id := n, sortOrder := sortOrder }) (fun _ => rfl)
      (fun r hr he => h ⟨r, hr, he⟩), accounts.last + 1)

/-- `UpdateFields` with the columns `change` writes, which are not the keys. -/
def updateFields (accounts : Accounts) (id : Nat) (change : Account → Account)
    (hid : ∀ a, (change a).id = a.id) (hemail : ∀ a, (change a).email = a.email) :
    Except Err Accounts :=
  if (accounts.get? id).isNone then .error .accountNotFound
  else .ok (accounts.modify (fun a => a.id == id) change hid hemail)

end Repository

/-! ### The service -/

/-- What the flows are built on besides: the mail servers of each provider. -/
structure Setup extends Account.Setup where
  lookupProvider : Text → Option (Endpoint × Endpoint)

structure Store where
  /-- The flow each state belongs to. -/
  states : Text → Option Text
  /-- The flows that can still be found. -/
  flows : Text → Bool
  /-- The flows themselves. -/
  flow : Text → OAuthFlow
  accounts : Accounts
  accepted : List Text
  created : List Text

/-- What a callback brings. -/
structure Callback where
  state : Text
  code : Text
  errCode : Text
  errDesc : Text
  deriving DecidableEq, Repr

structure CompleteOAuthRequest where
  flowID : Text
  name : Text
  email : Text
  deriving DecidableEq, Repr

inductive Request
  | handleCallback (c : Callback)
  | cancelOAuthFlow (flowID : Text)
  | completeOAuth (req : CompleteOAuthRequest)
  deriving DecidableEq, Repr

inductive Answer
  | none
  | account (a : Account)
  deriving DecidableEq, Repr

/-- The point a call has come to.  `wrote` tells of a call that has returned whether one of
its operations created a row or replaced a token. -/
inductive Frame
  | handleCallback (c : Callback)
  /-- The state is known. -/
  | stateFound (c : Callback) (flowID : Text)
  /-- The flow is there as well. -/
  | flowFound (c : Callback) (flowID : Text)
  /-- The checks are passed. -/
  | accepted (c : Callback) (flowID : Text)
  | cancelOAuthFlow (flowID : Text)
  | completeOAuth (req : CompleteOAuthRequest)
  /-- The flow to complete is there. -/
  | completing (req : CompleteOAuthRequest)
  | creating (flowID : Text) (provider : Text) (tok : Token) (a : Account)
  | createSaving (flowID : Text) (provider : Text) (tok : Token) (accountID : Nat)
  | createLoading (flowID : Text) (accountID : Nat)
  | createDiscarding (flowID : Text) (a : Account)
  | reauthorizing (flowID : Text) (provider : Text) (tok : Token) (accountID : Nat) (email : Text)
  | reauthSaving (flowID : Text) (provider : Text) (tok : Token) (accountID : Nat)
  | reauthClearing (flowID : Text) (accountID : Nat)
  | reauthLoading (flowID : Text) (accountID : Nat)
  | reauthDiscarding (flowID : Text) (a : Account)
  | done (r : Except Err Answer) (wrote : Bool)

/-- The luck of one operation: the database may refuse it; the clock; the nonce drawn; what
the provider answers to the code. -/
structure Luck where
  failed : Bool
  now : Time
  nonce : Nat
  answer : Except OAuthErr TokenResponse

/-- How an accepted callback ends. -/
def exchange (D : Setup) (x : Luck) (c : Callback) (f : OAuthFlow) : Except Err Token :=
  if c.errCode ≠ [] then .error (.denied (if c.errDesc = [] then c.errCode else c.errDesc))
  else if c.code = [] then .error .missingCode
  else
    match D.oauthClient f.provider with
    | .error e => .error e
    | .ok _ =>
        match x.answer with
        | .error _ => .error .exchangeFailed
        | .ok r =>
            match tokenOf r [] x.now with
            | .error _ => .error .exchangeFailed
            | .ok tok => .ok tok

/-- The name of an account that was not given one. -/
def defaultName (email : Text) : Text :=
  if email.contains '@' = true ∧ (email.takeWhile (· != '@')) ≠ [] then
    email.takeWhile (· != '@')
  else email

/-- The row `createOAuthAccount` creates. -/
def newAccount (provider : Text) (servers : Endpoint × Endpoint) (name email : Text) :
    Account where
  id := 0
  name := if name = [] then defaultName email else name
  email := email
  authType := .oauth
  username := []
  passwordEnc := []
  oauthProvider := provider
  oauthTokenEnc := []
  oauthExpiresAt := none
  imap := servers.1
  smtp := servers.2
  proxy := .none
  enabled := true
  status := .new
  lastSyncAt := none
  sortOrder := 0

/-- How `CompleteOAuth` goes on with the flow it found. -/
def begin (D : Setup) (req : CompleteOAuthRequest) (f : OAuthFlow) : Frame :=
  match f.status, f.token with
  | .success, some tok =>
      let email := if Text.trimSpace req.email = [] then tok.email else Text.trimSpace req.email
      if email = [] then .done (.error .noEmail) false
      else if f.accountID ≠ 0 then .reauthorizing req.flowID f.provider tok f.accountID email
      else
        match D.lookupProvider f.provider with
        | none => .done (.error .unknownProvider) false
        | some servers =>
            .creating req.flowID f.provider tok (newAccount f.provider servers req.name email)
  | _, _ => .done (.error .flowPending) false

/-- `saveToken`. -/
def saveToken (D : Setup) (x : Luck) (accounts : Accounts) (id : Nat) (provider : Text)
    (tok : Token) : Except Err Accounts :=
  match sealToken D.codec x.nonce tok with
  | none => .error .encrypt
  | some enc =>
      if x.failed then .error .db
      else Repository.updateFields accounts id (fun a => a.withToken provider tok enc)
        (fun _ => rfl) (fun _ => rfl)

/-- A repository call, which the database may refuse. -/
def asked {α : Type} (x : Luck) (r : Except Err α) : Except Err α :=
  if x.failed then .error .db else r

/-- The flow is taken out of the map. -/
def Store.discard (s : Store) (flowID : Text) : Store :=
  { s with flows := Function.update s.flows flowID false }

def Store.setFlow (s : Store) (flowID : Text) (f : OAuthFlow) : Store :=
  { s with flow := Function.update s.flow flowID f }

/-- The next operation of a call. -/
def next (D : Setup) (x : Luck) : Frame → Store → Option (Store × Frame)
  | .handleCallback c, s =>
      if c.state = [] then some (s, .done (.error .missingState) false)
      else
        match s.states c.state with
        | none => some (s, .done (.error .unknownState) false)
        | some flowID => some (s, .stateFound c flowID)
  | .stateFound c flowID, s =>
      if s.flows flowID then some (s, .flowFound c flowID)
      else some (s, .done (.error .flowGone) false)
  | .flowFound c flowID, s =>
      some ({ s with
        states := Function.update s.states c.state none
        accepted := s.accepted ++ [c.state] }, .accepted c flowID)
  | .accepted c flowID, s =>
      match exchange D x c (s.flow flowID) with
      | .error e => some (s.setFlow flowID ((s.flow flowID).fail e), .done (.error e) false)
      | .ok tok => some (s.setFlow flowID ((s.flow flowID).succeed tok), .done (.ok .none) false)
  | .cancelOAuthFlow flowID, s => some (s.discard flowID, .done (.ok .none) false)
  | .completeOAuth req, s =>
      if s.flows req.flowID then some (s, .completing req)
      else some (s, .done (.error .flowGone) false)
  | .completing req, s => some (s, begin D req (s.flow req.flowID))
  | .creating flowID provider tok a, s =>
      match asked x (Repository.create s.accounts a) with
      | .error e => some (s, .done (.error e) false)
      | .ok (accounts, accountID) =>
          some ({ s with accounts := accounts, created := s.created ++ [flowID] },
            .createSaving flowID provider tok accountID)
  | .createSaving flowID provider tok accountID, s =>
      match saveToken D x s.accounts accountID provider tok with
      | .error e => some (s, .done (.error e) true)
      | .ok accounts => some ({ s with accounts := accounts }, .createLoading flowID accountID)
  | .createLoading flowID accountID, s =>
      match asked x (Repository.getByID s.accounts accountID) with
      | .error e => some (s, .done (.error e) true)
      | .ok a => some (s, .createDiscarding flowID a)
  | .createDiscarding flowID a, s => some (s.discard flowID, .done (.ok (.account a)) true)
  | .reauthorizing flowID provider tok accountID email, s =>
      match asked x (Repository.getByID s.accounts accountID) with
      | .error e => some (s, .done (.error e) false)
      | .ok a =>
          if D.equalFold a.email email then some (s, .reauthSaving flowID provider tok a.id)
          else some (s, .done (.error .emailMismatch) false)
  | .reauthSaving flowID provider tok accountID, s =>
      match saveToken D x s.accounts accountID provider tok with
      | .error e => some (s, .done (.error e) false)
      | .ok accounts => some ({ s with accounts := accounts }, .reauthClearing flowID accountID)
  | .reauthClearing flowID accountID, s =>
      match asked x (Repository.updateFields s.accounts accountID (fun a => a.withStatus .ok)
        (fun _ => rfl) (fun _ => rfl)) with
      | .error e => some (s, .done (.error e) true)
      | .ok accounts => some ({ s with accounts := accounts }, .reauthLoading flowID accountID)
  | .reauthLoading flowID accountID, s =>
      match asked x (Repository.getByID s.accounts accountID) with
      | .error e => some (s, .done (.error e) true)
      | .ok a => some (s, .reauthDiscarding flowID a)
  | .reauthDiscarding flowID a, s => some (s.discard flowID, .done (.ok (.account a)) true)
  | .done _ _, _ => none

/-- What happens besides the calls. -/
inductive Event
  /-- The flow has ended or its time is up: its state is deleted. -/
  | stateExpires (state : Text)
  /-- A minute after its time the flow is discarded. -/
  | flowExpires (flowID : Text)
  deriving DecidableEq, Repr

def expire : Event → Store → Store
  | .stateExpires state, s => { s with states := Function.update s.states state none }
  | .flowExpires flowID, s => s.discard flowID

def enter : Request → Frame
  | .handleCallback c => .handleCallback c
  | .cancelOAuthFlow flowID => .cancelOAuthFlow flowID
  | .completeOAuth req => .completeOAuth req

def service (D : Setup) : Service Request Luck Event Frame Store where
  enter := enter
  next := next D
  outside := expire

/-! ### What a run may be asked to keep to -/

/-- The callback has found the state and has not deleted it yet. -/
def Frame.holds (state : Text) : Frame → Bool
  | .stateFound c _ => c.state == state
  | .flowFound c _ => c.state == state
  | _ => false

/-- A state is looked up only when no other callback has it in hand. -/
def statesInTurn (p : Pool Frame Store) : Turn Request Luck Event → Bool
  | .go i _ =>
      match p.calls[i]? with
      | some (.handleCallback c) => p.calls.countP (Frame.holds c.state) == 0
      | _ => true
  | _ => true

/-- The completion has found the flow, which is to become an account, and is not through
with it. -/
def Frame.completes (flowID : Text) : Frame → Bool
  | .completing req => req.flowID == flowID
  | .creating flowID' _ _ _ => flowID' == flowID
  | .createSaving flowID' _ _ _ => flowID' == flowID
  | .createLoading flowID' _ => flowID' == flowID
  | .createDiscarding flowID' _ => flowID' == flowID
  | _ => false

/-- A flow is looked up for completion only when no other completion has it in hand. -/
def completionsInTurn (p : Pool Frame Store) : Turn Request Luck Event → Bool
  | .go i _ =>
      match p.calls[i]? with
      | some (.completeOAuth req) => p.calls.countP (Frame.completes req.flowID) == 0
      | _ => true
  | _ => true

/-- Once a completion has written, the rest of it does not fail. -/
def finishesWriting (D : Setup) (p : Pool Frame Store) : Turn Request Luck Event → Bool
  | .go i x =>
      match p.calls[i]? with
      | some (.createSaving _ _ tok _) => !x.failed && (sealToken D.codec x.nonce tok).isSome
      | some (.createLoading _ _) => !x.failed
      | some (.reauthClearing _ _) => !x.failed
      | some (.reauthLoading _ _) => !x.failed
      | _ => true
  | _ => true

end FlyMail.Account.Flow
