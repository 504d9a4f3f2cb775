/-
A mail is translated by one provider of several.

The providers in use are tried one after another, each with the whole mail, until one succeeds.  Which comes
first is settled when the call begins (`Health.order`).  A provider behind which all others cool down is allowed
to leave some of the mail as it was.  The translation is kept, and a later call takes it from there.

Calls run at the same time on the table of the providers' health, which tests and resets change as well, and on
the translations kept.  A section under the lock of the table is one step, a translation by one provider is one
step, and so is an access to the database.

`log` plays no part in what happens: it records what was entered into the table.  A trial keeps the log and the
clock it was ordered by.
-/
import FlyMail.Ai.Health
import FlyMail.Lib.Calls
import FlyMail.Translate.Service

namespace FlyMail.Translate

open Ai (Err Kind Health)

namespace Failover

/-- A provider in use. -/
structure Provider where
  id : Nat
  name : Text
  deriving DecidableEq, Repr

structure Attempt where
  id : Nat
  name : Text
  kind : Kind
  err : Err
  deriving DecidableEq, Repr

/-- What is entered into the table of the providers' health. -/
inductive Event
  | ok (id : Nat) (now : Int)
  | fail (id : Nat) (now : Int) (err : Err)
  | reset (id : Nat)
  | forget (id : Nat)
  deriving DecidableEq, Repr

/-- A call that tries providers. -/
structure Trial where
  d : MessageDetail
  target : Text
  providers : List Provider
  order : List Nat
  attempts : List Attempt
  past : List Event
  now : Int

/-- The provider with the id. -/
def Trial.byID (t : Trial) (id : Nat) : Provider := (t.providers.reverse.find? fun p => p.id == id).getD ⟨id, []⟩

inductive Request
  | translate (messageID : Nat) (target : Text) (force : Bool) (providers : List Provider)
  | test (id : Nat)
  | reset (id : Nat)
  | delete (id : Nat)

inductive Stop
  | canceled
  | noContent
  deriving DecidableEq, Repr

/-- The point a call has come to. -/
inductive Frame
  | lookUp (messageID : Nat) (target : Text) (force : Bool) (providers : List Provider)
  | cached (messageID : Nat) (target : Text) (out : Translation)
  | notConfigured
  | detail (messageID : Nat) (target : Text) (providers : List Provider)
  | noDetail
  | order (d : MessageDetail) (target : Text) (providers : List Provider)
  | weigh (t : Trial) (id : Nat) (rest : List Nat)
  | run (t : Trial) (id : Nat) (rest : List Nat) (tolerant : Bool)
  | ok (t : Trial) (id : Nat) (rest : List Nat) (out : Translation)
  | fail (t : Trial) (id : Nat) (rest : List Nat) (err : Err)
  | save (t : Trial) (id : Nat) (rest : List Nat) (out : Translation)
  | translated (t : Trial) (id : Nat) (rest : List Nat) (out : Translation)
  | stopped (t : Trial) (id : Nat) (rest : List Nat) (why : Stop)
  | failed (t : Trial)
  | test (id : Nat)
  | reset (id : Nat)
  | delete (id : Nat)
  | returned

/-- The luck of one step. -/
structure Luck where
  /-- The database is out of reach. -/
  down : Bool
  detail : Option MessageDetail
  /-- The model, or why there is no client. -/
  client : Except Err Text
  /-- How the requests of a translation end. -/
  complete : List (List Unit) → List (List Unit × Ended Err)
  /-- The caller has gone away. -/
  gone : Bool
  /-- How a test ends. -/
  tested : Option Err

structure Store where
  health : Health
  saved : List Translation
  now : Int
  log : List Event

section Service

variable (lib : Lib Err) (toLower : Char → Char)

def isFatal : Err → Bool
  | .notConfigured | .canceled => true
  | .api e => !e.retryable toLower
  | _ => false

/-- The error of a translation, as `Classify` sees it. -/
def errOf : Failure Err → Err
  | .upstream err => err
  | .noContent => .other "这封邮件没有可翻译的文字内容".toList
  | .badOutput => .badOutput "AI 没有返回可用的译文，请稍后重试或更换模型".toList

/-- The next candidate, if there is one. -/
def tryNext (t : Trial) : List Nat → Frame
  | [] => .failed t
  | id :: rest => .weigh t id rest

/-- The translation kept for the message in the language.  There is an index that allows one only, so that of
two calls that both found none the later one's insert fails. -/
def cachedIn (saved : List Translation) (messageID : Nat) (target : Text) : Option Translation :=
  saved.find? fun r => r.messageID == messageID && r.targetLang == target

def saveIn (saved : List Translation) (out : Translation) : List Translation :=
  out :: saved.filter fun r => !(r.messageID == out.messageID && r.targetLang == out.targetLang)

def recordFail (s : Store) (id : Nat) (err : Err) : Kind × Store :=
  let r := s.health.recordFail toLower s.now id err
  (r.1, { s with health := r.2, log := if r.1 = .canceled then s.log else .fail id s.now err :: s.log })

def recordOK (s : Store) (id : Nat) : Store :=
  { s with health := s.health.recordOK s.now id, log := .ok id s.now :: s.log }

/-- The next step of a call. -/
def next (x : Luck) : Frame → Store → Option (Store × Frame)
  | .lookUp messageID target force providers, s =>
      match if force || x.down then none else cachedIn s.saved messageID target with
      | some out => some (s, .cached messageID target out)
      | none => some (s, if providers = [] then .notConfigured else .detail messageID target providers)
  | .detail _ target providers, s =>
      match x.detail with
      | none => some (s, .noDetail)
      | some d => some (s, .order d target providers)
  | .order d target providers, s =>
      let order := s.health.order s.now (providers.map Provider.id)
      some (s, tryNext ⟨d, target, providers, order, [], s.log, s.now⟩ order)
  | .weigh t id rest, s => some (s, .run t id rest (s.health.allCooling s.now rest))
  | .run t id rest tolerant, s =>
      match translateDetail lib t.d t.target (t.byID id).name x.client tolerant (isFatal toLower) x.complete with
      | .ok out => some (s, .ok t id rest out)
      | .error err =>
          if x.gone then some (s, .stopped t id rest .canceled)
          else if err = .noContent then some (s, .stopped t id rest .noContent)
          else some (s, .fail t id rest (errOf err))
  | .ok t id rest out, s => some (recordOK s id, .save t id rest out)
  | .fail t id rest err, s =>
      let r := recordFail toLower s id err
      some (r.2, tryNext { t with attempts := t.attempts ++ [⟨id, (t.byID id).name, r.1, err⟩] } rest)
  | .save t id rest out, s =>
      some ({ s with saved := if x.down then s.saved else saveIn s.saved out }, .translated t id rest out)
  | .test id, s =>
      if x.down then some (s, .returned) else
      match x.tested with
      | none => some (recordOK s id, .returned)
      | some err => if x.gone then some (s, .returned) else some ((recordFail toLower s id err).2, .returned)
  | .reset id, s =>
      if x.down then some (s, .returned)
      else some ({ s with health := s.health.reset id, log := .reset id :: s.log }, .returned)
  | .delete id, s =>
      if x.down then some (s, .returned)
      else some ({ s with health := s.health.forget id, log := .forget id :: s.log }, .returned)
  | .cached _ _ _, _ | .notConfigured, _ | .noDetail, _ | .translated _ _ _ _, _ | .stopped _ _ _ _, _ | .failed _, _
  | .returned, _ => none

def enter : Request → Frame
  | .translate messageID target force providers => .lookUp messageID target force providers
  | .test id => .test id
  | .reset id => .reset id
  | .delete id => .delete id

/-- Besides the calls, time passes. -/
def service : Service Request Luck Nat Frame Store where
  enter := enter
  next := next lib toLower
  outside := fun d s => { s with now := s.now + d }

end Service

/-- Nothing is kept yet, and no provider has failed. -/
def Store.fresh (now : Int) : Store := ⟨.new, [], now, []⟩

/-- What the user is told when all have failed. -/
def Trial.error (toLower : Char → Char) (t : Trial) : Text :=
  match t.attempts with
  | [a] => "翻译失败：".toList ++ a.err.error toLower
  | attempts => Text.formatUint attempts.length ++ " 个 AI 配置均失败——".toList ++
      Text.join (attempts.map fun a => a.name ++ "：".toList ++ a.err.error toLower) "；".toList

end Failover

end FlyMail.Translate
