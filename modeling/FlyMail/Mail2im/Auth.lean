/-
The tokens of mail2im.

Somebody who logs in gets an access token and a refresh token, both signed with the same key, and can
exchange the refresh token for another pair.  Its hash is stored, so that it can be revoked; an access
token is only looked at.  Changing the profile or the password revokes all refresh tokens of the user.

A request is one database call after another, and other requests may come in between.  Times are in
nanoseconds.

The journals `issued`, `overtaken`, `exchanged` and `accepted` play no part in what happens.
-/
import FlyMail.Lib.Calls
import FlyMail.Lib.Text
import FlyMail.Store

namespace FlyMail.Mail2im.Auth

def second : Nat := 10 ^ 9

def accessTokenTTL : Nat := 15 * 60 * second

def refreshTokenTTL : Nat := 14 * 24 * 60 * 60 * second

/-- What a token says.  Moments are in whole seconds there, and no `id` is empty. -/
structure Claims where
  subject : Text
  expiresAt : Nat
  issuedAt : Nat
  id : Text
  deriving DecidableEq, Repr

/-- Signing with the server's key, and the hash of a token. -/
structure Signer where
  sign : Claims → Text
  /-- What a token says that was signed with the key. -/
  verify : Text → Option Claims
  verify_sign : ∀ c, verify (sign c) = some c
  hashToken : Text → Text

/-- A row of `refresh_tokens`. -/
structure RefreshToken where
  userID : Nat
  tokenHash : Text
  expiresAt : Nat
  revoked : Bool
  deriving DecidableEq, Repr

structure State where
  users : List Nat
  tokens : List RefreshToken
  /-- The refresh tokens that were issued, each with its user. -/
  issued : List (Nat × Text)
  /-- Those that were there when all tokens of their user were revoked. -/
  overtaken : List Text
  /-- The refresh tokens that were exchanged for a new pair; had they been overtaken by then? -/
  exchanged : List (Text × Bool)
  /-- What was accepted as an access token; had it been issued as a refresh token by then? -/
  accepted : List (Text × Bool)
  deriving DecidableEq, Repr

def noTokens (users : List Nat) : State := ⟨users, [], [], [], [], []⟩

inductive Request
  /-- The name and the password are right. -/
  | login (userID : Nat)
  | refreshToken (raw : Text)
  /-- A profile, and the password with it, is changed, and the client gets a new pair. -/
  | updateProfile (userID : Nat)
  | resetDefaultUserPassword (userID : Nat)
  /-- Any other request, with an access token. -/
  | authMiddleware (raw : Text)
  deriving DecidableEq, Repr

/-- The point a request has come to. -/
inductive Frame
  | login (userID : Nat)
  | refreshToken (raw : Text)
  /-- `ValidateRefreshToken` has found the token valid. -/
  | validated (raw : Text) (userID : Nat)
  /-- The user is there; the token is about to be revoked. -/
  | found (raw : Text) (userID : Nat)
  /-- A pair is about to be issued, in exchange for the token if there is one. -/
  | issuing (userID : Nat) (raw : Option Text)
  /-- The row of the user is about to be changed. -/
  | updating (userID : Nat) (thenIssue : Bool)
  | revokingAll (userID : Nat) (thenIssue : Bool)
  | authMiddleware (raw : Text)
  | done
  deriving DecidableEq, Repr

/-- The clock, and the database does not fail. -/
structure Luck where
  now : Nat
  ok : Bool
  deriving DecidableEq, Repr

section Service

variable (S : Signer)

/-- `ParseWithClaims`: what the token says, unless it has expired. -/
def parseWithClaims (raw : Text) (now : Nat) : Option Claims :=
  (S.verify raw).filter fun c => now < c.expiresAt * second

def validateAccessToken (raw : Text) (now : Nat) : Option Nat :=
  (parseWithClaims S raw now).bind fun claims =>
    if claims.subject = [] then none else Text.parseUint 64 claims.subject

def validateRefreshToken (s : State) (raw : Text) (now : Nat) : Option RefreshToken :=
  match s.tokens.find? fun r => r.tokenHash == S.hashToken raw with
  | none => none
  | some token =>
      if token.revoked then none
      else if token.expiresAt < now then none
      else
        match parseWithClaims S raw now with
        | none => none
        | some claims => if claims.subject = Text.formatUint token.userID then some token else none

/-- What a refresh token says. -/
def refreshClaims (userID now : Nat) : Claims where
  subject := Text.formatUint userID
  expiresAt := (now + refreshTokenTTL) / second
  issuedAt := now / second
  id := Text.formatUint userID ++ '-' :: Text.formatUint now

/-- What an access token says. -/
def accessClaims (userID now : Nat) : Claims where
  subject := Text.formatUint userID
  expiresAt := (now + accessTokenTTL) / second
  issuedAt := now / second
  id := []

def generateAccessToken (userID now : Nat) : Text := S.sign (accessClaims userID now)

def generateRefreshToken (userID now : Nat) : Text := S.sign (refreshClaims userID now)

/-- The hash of a token is unique. -/
def saveRefreshToken (s : State) (userID : Nat) (token : Text) (expiresAt : Nat) : Option State :=
  if s.tokens.any fun r => r.tokenHash == S.hashToken token then none
  else some { s with
    tokens := s.tokens ++ [⟨userID, S.hashToken token, expiresAt, false⟩]
    issued := s.issued ++ [(userID, token)] }

def revokeRefreshToken (s : State) (raw : Text) : State :=
  { s with tokens := s.tokens.map fun r => if r.tokenHash = S.hashToken raw then { r with revoked := true } else r }

def revokeAllRefreshTokensForUser (s : State) (userID : Nat) : State :=
  { s with
    tokens := s.tokens.map fun r => if r.userID = userID then { r with revoked := true } else r
    overtaken := s.overtaken ++ (s.issued.filter fun t => t.1 == userID).map Prod.snd }

/-- `IssueTokenPair`; the request succeeds with the pair. -/
def issueTokenPair (s : State) (userID : Nat) (raw : Option Text) (now : Nat) : State :=
  match saveRefreshToken S s userID (generateRefreshToken S userID now) (now + refreshTokenTTL) with
  | none => s
  | some s =>
      match raw with
      | none => s
      | some raw => { s with exchanged := s.exchanged ++ [(raw, s.overtaken.contains raw)] }

/-- The next operation of a request. -/
def next (luck : Luck) : Frame → State → Option (State × Frame)
  | .login userID, s => some (s, if luck.ok && s.users.contains userID then .issuing userID none else .done)
  | .refreshToken raw, s =>
      match (if luck.ok then validateRefreshToken S s raw luck.now else none) with
      | none => some (s, .done)
      | some token => some (s, .validated raw token.userID)
  | .validated raw userID, s =>
      some (s, if luck.ok && s.users.contains userID then .found raw userID else .done)
  | .found raw userID, s =>
      if luck.ok then some (revokeRefreshToken S s raw, .issuing userID (some raw)) else some (s, .done)
  | .issuing userID raw, s =>
      some (if luck.ok then issueTokenPair S s userID raw luck.now else s, .done)
  | .updating userID thenIssue, s => some (s, if luck.ok then .revokingAll userID thenIssue else .done)
  | .revokingAll userID thenIssue, s =>
      if luck.ok then
        some (revokeAllRefreshTokensForUser s userID, if thenIssue then .issuing userID none else .done)
      else some (s, .done)
  | .authMiddleware raw, s =>
      match validateAccessToken S raw luck.now with
      | none => some (s, .done)
      | some _ =>
          some ({ s with accepted := s.accepted ++ [(raw, (s.issued.map Prod.snd).contains raw)] }, .done)
  | .done, _ => none

def enter : Request → Frame
  | .login userID => .login userID
  | .refreshToken raw => .refreshToken raw
  | .updateProfile userID => .updating userID true
  | .resetDefaultUserPassword userID => .updating userID false
  | .authMiddleware raw => .authMiddleware raw

def service : Service Request Luck Empty Frame State where
  enter := enter
  next := next S
  outside := fun e _ => nomatch e

end Service

end FlyMail.Mail2im.Auth
