/-
The OAuth proxy.

A mail2im instance that has no client of its own sends its users through the proxy.  The provider sends the
browser back with a code, the proxy exchanges the code for tokens, keeps the tokens under a claim code and
sends the browser on to the instance named in the state, with the claim code in the address.  The instance then
fetches the tokens with it.

The claims are a table under one lock, and a section under the lock is one step.  A request looks at the clock
only after it has let go of the lock, and the clean-up reads the clock before it takes the lock, so time may
pass in between.

`log` plays no part in what happens: it records which claims were stored and asked for.  How a state is decoded
and which addresses of instances are accepted is a parameter.
-/
import FlyMail.Lib.OneTime
import Mathlib.Data.List.DropRight

namespace FlyMail.Mail2im.OAuthProxy

open OneTime (Offers Event Draw encodeToString)

/-- Five minutes, in nanoseconds. -/
def claimTTL : Int := 5 * 60 * 1000000000

structure ClaimEntry where
  tokensJSON : Bytes
  createdAt : Int
  deriving DecidableEq, Repr

structure StateData where
  instanceURL : Text
  nonce : Text
  deriving DecidableEq, Repr

structure Config where
  decodeState : Text → Except Text StateData
  isValidInstance : Text → Bool

/-- What the provider makes of a code. -/
inductive Exchanged
  | exchangeFailed (err : Text)
  | emailFailed (err : Text)
  | marshalFailed
  | tokens (json : Bytes)
  deriving DecidableEq, Repr

structure Luck where
  exchanged : Exchanged
  rand : Option Draw

inductive Request
  | callback (state error code : Text)
  | claim (code : Text)
  /-- The clean-up's ticker ticks. -/
  | cleanup
  deriving DecidableEq, Repr

/-- What a request for a claim knows: the log in front of its own entry, and the clock when it was decided. -/
structure Shown where
  code : Text
  past : List (Event Text ClaimEntry)
  deriving DecidableEq, Repr

/-- The point a request has come to. -/
inductive Frame
  | callback (state error code : Text)
  | mint (finalize nonce : Text) (json : Bytes)
  /-- Sent on to the instance; the claim that was stored for it. -/
  | redirected (finalize : Text) (params : List (Text × Text)) (stored : Option (Text × ClaimEntry))
  | badRequest (msg : Text)
  | claim (code : Text)
  | since (shown : Shown) (entry : ClaimEntry)
  | claimed (shown : Shown) (entry : ClaimEntry) (now : Int)
  | notFound (msg : Text) (shown : Shown) (now : Int)
  | cleanup
  | sweep (cutoff : Int)
  | swept
  deriving DecidableEq, Repr

structure Store where
  claims : Offers Text ClaimEntry
  now : Int
  log : List (Event Text ClaimEntry)

/-- The next step of a request. -/
def next (cfg : Config) (x : Luck) : Frame → Store → Option (Store × Frame)
  | .callback state error code, s =>
      match cfg.decodeState state with
      | .error err => some (s, .badRequest ("invalid state: ".toList ++ err))
      | .ok st =>
          let instanceURL := st.instanceURL.rdropWhile (· == '/')
          let finalize := instanceURL ++ "/api/oauth/google/finalize".toList
          let refuse (err : Text) : Option (Store × Frame) :=
            some (s, .redirected finalize [("error".toList, err), ("state".toList, st.nonce)] none)
          if !cfg.isValidInstance instanceURL then some (s, .badRequest "invalid instance URL".toList)
          else if error ≠ [] then refuse error
          else if code = [] then refuse "missing code".toList
          else
            match x.exchanged with
            | .exchangeFailed err => refuse ("exchange failed: ".toList ++ err)
            | .emailFailed err => refuse ("get email failed: ".toList ++ err)
            | .marshalFailed => refuse "marshal tokens failed".toList
            | .tokens json => some (s, .mint finalize st.nonce json)
  | .mint finalize nonce json, s =>
      match x.rand with
      | none =>
          some (s, .redirected finalize [("error".toList, "generate claim failed".toList), ("state".toList, nonce)] none)
      | some draw =>
          let claimCode := encodeToString draw.buf
          let entry : ClaimEntry := ⟨json, s.now⟩
          some ({ s with claims := s.claims.offer claimCode entry, log := .offer claimCode entry :: s.log },
            .redirected finalize [("claim".toList, claimCode), ("state".toList, nonce)] (some (claimCode, entry)))
  | .claim code, s =>
      if code = [] then some (s, .badRequest "missing code".toList) else
      let shown : Shown := ⟨code, s.log⟩
      let log := .take code :: s.log
      match s.claims.get code with
      | none => some ({ s with log }, .notFound "claim not found".toList shown s.now)
      | some entry => some ({ s with claims := s.claims.take code, log }, .since shown entry)
  | .since shown entry, s =>
      if claimTTL < s.now - entry.createdAt then some (s, .notFound "claim expired".toList shown s.now)
      else some (s, .claimed shown entry s.now)
  | .cleanup, s => some (s, .sweep (s.now + -claimTTL))
  | .sweep cutoff, s => some ({ s with claims := s.claims.sweep fun v => decide (v.createdAt < cutoff) }, .swept)
  | .redirected _ _ _, _ | .badRequest _, _ | .claimed _ _ _, _ | .notFound _ _ _, _ | .swept, _ => none

def enter : Request → Frame
  | .callback state error code => .callback state error code
  | .claim code => .claim code
  | .cleanup => .cleanup

/-- Besides the requests, time passes. -/
def service (cfg : Config) : Service Request Luck Nat Frame Store where
  enter := enter
  next := next cfg
  outside := fun d s => { s with now := s.now + d }

/-- The proxy when it starts. -/
def Store.fresh (now : Int) : Store := ⟨.empty, now, []⟩

def Frame.storedAs (k : Text) : Frame → Bool
  | .redirected _ _ (some e) => e.1 == k
  | _ => false

def Frame.claimedAs (k : Text) : Frame → Bool
  | .claimed shown _ _ => shown.code == k
  | _ => false

end FlyMail.Mail2im.OAuthProxy
