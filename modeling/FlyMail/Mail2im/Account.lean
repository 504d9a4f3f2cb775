/-
The accounts of mail2im, and what a request makes of one.

Passwords and tokens are stored encrypted.  The encryption is a parameter; what is relied on is that a
text comes back as it went in, and that the empty text stays what it is.
-/
import FlyMail.Store

namespace FlyMail.Mail2im

/-- AES.  `nonce` stands for the bytes drawn, which may fail. -/
structure Crypto where
  encrypt : Nat → Text → Option Text
  decrypt : Text → Option Text
  encrypt_nil : ∀ nonce, encrypt nonce [] = some []
  decrypt_nil : decrypt [] = some []
  decrypt_encrypt : ∀ nonce t enc, encrypt nonce t = some enc → decrypt enc = some t

theorem Crypto.plain_symm (_ : Nat) (t enc : Text) (h : some t = some enc) : some enc = some t := h.symm

/-- No encryption at all. -/
def Crypto.plain : Crypto where
  encrypt _ t := some t
  decrypt t := some t
  encrypt_nil _ := rfl
  decrypt_nil := rfl
  decrypt_encrypt := plain_symm

/-- A row of `proxies`. -/
structure Proxy where
  id : Nat
  name : Text
  type : Text
  host : Text
  port : Int
  username : Text
  /-- Encrypted. -/
  password : Text
  deriving DecidableEq, Repr

/-- A row of `accounts`. -/
structure Account where
  id : Nat
  /-- `deleted_at` is set: for the queries the row is not there. -/
  deleted : Bool
  email : Text
  displayName : Text
  login : Text
  authType : Text
  /-- Encrypted. -/
  password : Text
  /-- Encrypted JSON. -/
  oauthToken : Text
  passwordExpiresAt : Option Time
  enabled : Bool
  proxyID : Option Nat
  provider : Text
  imapServer : Text
  imapPort : Int
  useSSL : Bool
  sslMode : Text
  useIDLE : Bool
  pollIntervalDay : Int
  pollIntervalNight : Int
  timezone : Text
  status : Text
  lastSyncAt : Time
  lastUID : Nat
  deriving DecidableEq, Repr

/-- The zero value. -/
def Account.zero : Account where
  id := 0
  deleted := false
  email := []
  displayName := []
  login := []
  authType := []
  password := []
  oauthToken := []
  passwordExpiresAt := none
  enabled := false
  proxyID := none
  provider := []
  imapServer := []
  imapPort := 0
  useSSL := false
  sslMode := []
  useIDLE := false
  pollIntervalDay := 0
  pollIntervalNight := 0
  timezone := []
  status := []
  lastSyncAt := 0
  lastUID := 0

structure CreateAccountRequest where
  email : Text
  displayName : Text
  login : Text
  password : Text
  authType : Text
  provider : Text
  imapServer : Text
  imapPort : Int
  sslMode : Text
  useSSL : Bool
  proxyID : Option Nat
  useIDLE : Bool
  pollIntervalDay : Int
  pollIntervalNight : Int
  timezone : Text
  enabled : Option Bool
  deriving DecidableEq, Repr

/-- What the mode is taken for when there is none. -/
def sslModeOf (sslMode : Text) (useSSL : Bool) : Text :=
  if sslMode = [] then (if useSSL then "ssl".toList else "none".toList) else sslMode

/-- The account a request makes, or makes of an account; `none` when the password cannot be encrypted. -/
def toAccount (C : Crypto) (nonce : Nat) (input : CreateAccountRequest) (existing : Option Account)
    (encryptPassword : Bool) : Option Account :=
  let target := existing.getD Account.zero
  let sslMode := sslModeOf input.sslMode input.useSSL
  let target :=
    { target with
      email := input.email
      displayName := input.displayName
      login := if input.login = [] then input.email else input.login
      authType := input.authType
      provider := input.provider
      imapServer := input.imapServer
      imapPort := input.imapPort
      sslMode := sslMode
      useSSL := decide (sslMode = "ssl".toList)
      proxyID := input.proxyID
      useIDLE := input.useIDLE
      pollIntervalDay := input.pollIntervalDay
      pollIntervalNight := input.pollIntervalNight
      timezone := input.timezone
      status := if target.status = [] then "Active".toList else target.status
      enabled :=
        match input.enabled with
        | some enabled => enabled
        | none => if existing.isNone && !target.enabled then true else target.enabled }
  if input.password = [] then some target
  else (C.encrypt nonce input.password).map fun encryptedPass =>
    { target with password := if encryptPassword then encryptedPass else input.password }

end FlyMail.Mail2im
