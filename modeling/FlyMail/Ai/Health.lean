/-
What is wrong with an AI provider, and for how long it is spared.

A failure is classified by what the provider said, and the class decides how long the provider cools down.
Rate limits and faults back off, twice as long each time.  A provider that cools down is not skipped: it is
tried after all the others, the one that is free first before the rest.

Times are in nanoseconds.  An error is known by the first of its kinds, in the order in which `Classify` asks
for them.
-/
import FlyMail.Lib.Text
import Mathlib.Data.List.Infix
import Mathlib.Data.List.Sort
import Mathlib.Logic.Function.Basic

namespace FlyMail.Ai

/-! ### Errors -/

inductive Kind
  | quota
  | auth
  | rateLimit
  | upstream
  | rejected
  | truncated
  | badOutput
  | canceled
  | notConfigured
  deriving DecidableEq, Repr

structure APIError where
  status : Nat
  msg : Text
  code : Text
  retryAfter : Int
  deriving DecidableEq, Repr

inductive Err
  | canceled
  | notConfigured
  | truncated
  | badOutput (msg : Text)
  | api (e : APIError)
  /-- Anything else: no connection, a timeout, an answer that is no JSON. -/
  | other (msg : Text)
  deriving DecidableEq, Repr

def quotaCodes : List Text :=
  ["insufficient_quota".toList, "insufficient_balance".toList, "billing_hard_limit_reached".toList, "arrearage".toList]

/-- What providers say when nothing is left. -/
def quotaPhrases : List Text :=
  ["exceeded your current quota".toList, "insufficient quota".toList, "insufficient_quota".toList,
    "insufficient balance".toList, "insufficient_balance".toList, "credit balance is too low".toList,
    "billing not active".toList, "billing_not_active".toList, "余额不足".toList, "欠费".toList, "账户已欠费".toList]

def rateLimitMarkers : List Text :=
  ["rate limit".toList, "rate_limit".toList, "ratelimit".toList, "requests per".toList, "tokens per".toList,
    "rpm".toList, "tpm".toList, "try again in".toList, "too many requests".toList, "请求过于频繁".toList, "频率".toList]

def containsAny (text : Text) (subs : List Text) : Bool := subs.any fun m => decide (m <:+: text)

section Classify

variable (toLower : Char → Char)

def isQuota (e : APIError) : Bool :=
  if e.status = 402 then true
  else if quotaCodes.contains (e.code.map toLower) then true
  else
    let is2xx := decide (200 ≤ e.status) && decide (e.status < 300)
    if e.status ≠ 429 ∧ e.status ≠ 403 ∧ e.status ≠ 400 ∧ is2xx = false then false
    else
      let text := (e.code ++ ' ' :: e.msg).map toLower
      -- a rate limit may mention the bill in passing
      if e.status = 429 ∧ (0 < e.retryAfter ∨ containsAny text rateLimitMarkers = true) then false
      else containsAny text quotaPhrases

def classify : Err → Kind
  | .canceled => .canceled
  | .notConfigured => .notConfigured
  | .truncated => .truncated
  | .badOutput _ => .badOutput
  | .api e =>
      if isQuota toLower e then .quota
      else if e.status = 401 ∨ e.status = 403 then .auth
      else if e.status = 429 then .rateLimit
      else if 500 ≤ e.status then .upstream
      else if 200 ≤ e.status ∧ e.status < 300 then .upstream
      else .rejected
  | .other _ => .upstream

def APIError.retryable (e : APIError) : Bool :=
  if isQuota toLower e then false else decide (e.status = 429) || decide (500 ≤ e.status)

def APIError.error (e : APIError) : Text :=
  let status := Text.formatUint e.status
  if isQuota toLower e then "AI 接口余额或配额不足（".toList ++ status ++ "）：".toList ++ e.msg
  else if e.status = 401 ∨ e.status = 403 then "AI 接口拒绝了密钥（".toList ++ status ++ "）：".toList ++ e.msg
  else if e.status = 429 then "AI 接口限流（429），请稍后再试：".toList ++ e.msg
  else if e.status = 404 then "AI 接口地址或模型不存在（404）：".toList ++ e.msg
  else "AI 接口返回 ".toList ++ status ++ "：".toList ++ e.msg

def Err.error : Err → Text
  | .canceled => "context canceled".toList
  | .notConfigured => "未配置 AI 接口".toList
  | .truncated => "AI 返回被长度上限截断".toList
  | .badOutput msg => msg
  | .api e => e.error toLower
  | .other msg => msg

end Classify

/-! ### Cooling down -/

def second : Int := 1000000000

def cooldownQuota : Int := 3600 * second

def cooldownAuth : Int := 30 * 60 * second

def cooldownRejected : Int := 10 * 60 * second

def cooldownBase : Int := 30 * second

def cooldownMax : Int := 10 * 60 * second

def rateLimitFloor : Int := 60 * second

/-- The loop of `backoff`, `n` turns at most. -/
def doubled : Nat → Int → Int
  | 0, d => d
  | n + 1, d => if d < cooldownMax then doubled n (d * 2) else d

def backoff (failures : Nat) : Int := min (doubled (failures - 1) cooldownBase) cooldownMax

def retryAfterOf : Err → Int
  | .api e => e.retryAfter
  | _ => 0

def cooldownFor (kind : Kind) (err : Err) (failures : Nat) : Int :=
  match kind with
  | .quota => cooldownQuota
  | .auth | .notConfigured => cooldownAuth
  | .rejected => cooldownRejected
  | .rateLimit =>
      let ra := retryAfterOf err
      if 0 < ra then min ra cooldownMax else max (backoff failures) rateLimitFloor
  | .upstream => backoff failures
  | .truncated | .badOutput | .canceled => 0

/-! ### The table -/

structure State where
  cooldownUntil : Option Int
  lastError : Text
  lastKind : Option Kind
  lastOKAt : Option Int
  lastFailAt : Option Int
  /-- Failures in a row. -/
  failures : Nat
  deriving DecidableEq, Repr

def State.zero : State := ⟨none, [], none, none, none, 0⟩

def State.cooling (st : State) (now : Int) : Bool := st.cooldownUntil.any fun t => decide (now < t)

/-- The state of each provider that has one. -/
def Health := Nat → Option State

namespace Health

def new : Health := fun _ => none

def get (h : Health) (id : Nat) : State := (h id).getD .zero

def set (h : Health) (id : Nat) (st : State) : Health := Function.update h id (some st)

def recordOK (h : Health) (now : Int) (id : Nat) : Health :=
  h.set id { h.get id with cooldownUntil := none, failures := 0, lastOKAt := some now }

def recordFail (toLower : Char → Char) (h : Health) (now : Int) (id : Nat) (err : Err) : Kind × Health :=
  let kind := classify toLower err
  if kind = .canceled then (kind, h)
  else
    let st := h.get id
    let failures := st.failures + 1
    let d := cooldownFor kind err failures
    (kind, h.set id { st with
      failures := failures
      lastFailAt := some now
      lastKind := some kind
      lastError := err.error toLower
      cooldownUntil := if 0 < d then some (now + d) else st.cooldownUntil })

def reset (h : Health) (id : Nat) : Health := h.set id { h.get id with cooldownUntil := none, failures := 0 }

def forget (h : Health) (id : Nat) : Health := Function.update h id none

def cooling (h : Health) (now : Int) (id : Nat) : Bool := (h id).any fun st => st.cooling now

/-- When a provider that cools down is free. -/
def freeAt (h : Health) (id : Nat) : Int := ((h id).bind State.cooldownUntil).getD 0

def order (h : Health) (now : Int) (ids : List Nat) : List Nat :=
  let ready := ids.filter fun id => !h.cooling now id
  let cooling := (ids.filter (h.cooling now)).insertionSort fun a b => h.freeAt a ≤ h.freeAt b
  ready ++ cooling

def allCooling (h : Health) (now : Int) (ids : List Nat) : Bool := ids.all (h.cooling now)

end Health

end FlyMail.Ai
