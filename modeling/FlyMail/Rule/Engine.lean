/-
Rules and the block list: what they say, and which mail they apply to.

A rule is a list of conditions, all or any of which have to hold, and a list of actions.  Its
conditions and actions are columns of JSON; here a column is the list it parses to, or nothing
if it does not parse.  A rule is checked before it is used, and one that does not pass is never
applied.  A condition on a text that is not known yet does not hold.
-/
import FlyMail.Store
import Mathlib.Data.List.Infix

namespace FlyMail.Rules

/-! ### Rules -/

structure Condition where
  field : Text
  op : Text
  value : Text
  deriving DecidableEq, Repr

structure Action where
  type : Text
  /-- The folder to move to, by its name or path. -/
  value : Text
  deriving DecidableEq, Repr

/-- A row of `inbox_rules`. -/
structure Rule where
  id : Nat
  name : Text
  enabled : Bool
  priority : Int
  /-- `0` is every account. -/
  accountID : Nat
  match_ : Text
  conditions : Option (List Condition)
  actions : Option (List Action)
  stopProcessing : Bool
  deriving DecidableEq, Repr

def matchAll : Text := "all".toList
def matchAny : Text := "any".toList

def fieldFrom : Text := "from".toList
def fieldTo : Text := "to".toList
def fieldCc : Text := "cc".toList
def fieldSubject : Text := "subject".toList
def fieldBody : Text := "body".toList
def fieldAttachmentName : Text := "attachment_name".toList
def fieldHasAttachment : Text := "has_attachment".toList

def opContains : Text := "contains".toList
def opNotContains : Text := "not_contains".toList
def opEquals : Text := "equals".toList
def opRegex : Text := "regex".toList
def opStartsWith : Text := "starts_with".toList
def opEndsWith : Text := "ends_with".toList

def actionMove : Text := "move".toList
def actionMarkRead : Text := "mark_read".toList
def actionStar : Text := "star".toList
def actionDelete : Text := "delete".toList
def actionNotify : Text := "notify".toList

def validFields : List Text :=
  [fieldFrom, fieldTo, fieldCc, fieldSubject, fieldBody, fieldAttachmentName, fieldHasAttachment]

def validOps : List Text :=
  [opContains, opNotContains, opEquals, opRegex, opStartsWith, opEndsWith]

def validActions : List Text := [actionMove, actionMarkRead, actionStar, actionDelete, actionNotify]

/-- What the rules use of the standard library. -/
structure Lib where
  /-- The lower case of a character. -/
  lower : Char → Char
  lower_ascii : ∀ c, c.toNat < 128 → lower c = c.toLower
  /-- What a pattern matches, or why it is none. -/
  compileRegexp : Text → Except Text (Text → Bool)
  /-- The text in quotes. -/
  quote : Text → Text

/-- Lower case that knows ASCII only is right about that. -/
theorem Lib.toLower_ascii (c : Char) (_ : c.toNat < 128) : Char.toLower c = c.toLower := rfl

def Lib.toLower (lib : Lib) (t : Text) : Text := t.map lib.lower

/-! ### The check -/

/-- A rule that has passed the check; each condition has its pattern beside it. -/
structure Compiled where
  rule : Rule
  conditions : List (Condition × Option (Text → Bool))
  actions : List Action

def invalid (why : Text) : Text := "invalid rule: ".toList ++ why

/-- Check the condition with this number. -/
def checkCondition (lib : Lib) (i : Nat) (cond : Condition) :
    Except Text (Condition × Option (Text → Bool)) :=
  if cond.field ∉ validFields then .error (invalid ("未知字段 ".toList ++ lib.quote cond.field))
  else if cond.op ∉ validOps then .error (invalid ("未知运算 ".toList ++ lib.quote cond.op))
  else if cond.field = fieldHasAttachment then
    if cond.op ≠ opEquals ∨ (cond.value ≠ "true".toList ∧ cond.value ≠ "false".toList) then
      .error (invalid "has_attachment 只支持 equals true/false".toList)
    else .ok (cond, none)
  else if Text.trimSpace cond.value = [] then
    .error (invalid ("条件 ".toList ++ Text.formatUint (i + 1) ++ " 的取值不能为空".toList))
  else if cond.op = opRegex then
    match lib.compileRegexp cond.value with
    | .error err => .error (invalid
        ("正则 ".toList ++ lib.quote cond.value ++ " 无法编译: ".toList ++ err))
    | .ok re => .ok (cond, some re)
  else .ok (cond, none)

def checkConditions (lib : Lib) : Nat → List Condition →
    Except Text (List (Condition × Option (Text → Bool)))
  | _, [] => .ok []
  | i, cond :: rest =>
      match checkCondition lib i cond with
      | .error err => .error err
      | .ok checked =>
          match checkConditions lib (i + 1) rest with
          | .error err => .error err
          | .ok more => .ok (checked :: more)

/-- Check the actions; `moves` were met before. -/
def checkActions (lib : Lib) : Nat → List Action → Except Text Unit
  | moves, [] =>
      if moves > 1 then .error (invalid "一条规则只能有一个移动动作".toList) else .ok ()
  | moves, a :: rest =>
      if a.type ∉ validActions then .error (invalid ("未知动作 ".toList ++ lib.quote a.type))
      else if a.type = actionMove then
        if Text.trimSpace a.value = [] then .error (invalid "移动动作必须指定目标文件夹".toList)
        else checkActions lib (moves + 1) rest
      else checkActions lib moves rest

def compile (lib : Lib) (r : Rule) : Except Text Compiled :=
  if Text.trimSpace r.name = [] then .error (invalid "名称不能为空".toList)
  else if r.match_ ≠ matchAll ∧ r.match_ ≠ matchAny then
    .error (invalid "match 取值只能是 all / any".toList)
  else
    match r.conditions, r.actions with
    | none, _ => .error (invalid "条件不是合法 JSON".toList)
    | some _, none => .error (invalid "动作不是合法 JSON".toList)
    | some conditions, some actions =>
        if conditions = [] then .error (invalid "至少需要一个条件".toList)
        else if actions = [] then .error (invalid "至少需要一个动作".toList)
        else
          match checkConditions lib 0 conditions with
          | .error err => .error err
          | .ok checked =>
              match checkActions lib 0 actions with
              | .error err => .error err
              | .ok () => .ok ⟨r, checked, actions⟩

namespace Compiled

def needsBody (c : Compiled) : Bool := c.conditions.any fun cond => cond.1.field == fieldBody

def needsAttachments (c : Compiled) : Bool :=
  c.conditions.any fun cond => cond.1.field == fieldAttachmentName

end Compiled

/-! ### Evaluation -/

/-- A mail as the conditions see it. -/
structure MessageView where
  from_ : Text
  to_ : Text
  cc : Text
  fromAddr : Text
  toAddrs : Text
  ccAddrs : Text
  subject : Text
  body : Text
  bodyKnown : Bool
  attachments : List Text
  hasAttachment : Bool

def contains (t val : Text) : Bool := decide (val <:+: t)

/-- Compare a text by the condition's operator. -/
def matchText (lib : Lib) (cond : Condition × Option (Text → Bool)) (text : Text) : Bool :=
  if cond.1.op = opRegex then (cond.2.map fun re => re text).getD false
  else
    let t := lib.toLower text
    let val := lib.toLower (Text.trimSpace cond.1.value)
    if cond.1.op = opContains then contains t val
    else if cond.1.op = opNotContains then !contains t val
    else if cond.1.op = opEquals then Text.trimSpace t == val
    else if cond.1.op = opStartsWith then val.isPrefixOf (Text.trimSpace t)
    else if cond.1.op = opEndsWith then val.isSuffixOf (Text.trimSpace t)
    else false

def matchAddr (lib : Lib) (cond : Condition × Option (Text → Bool)) (full addrs : Text) : Bool :=
  if cond.1.op = opNotContains then matchText lib cond full
  else matchText lib cond full || matchText lib cond addrs

/-- Whether the condition holds, and whether it rests on a text that is not known. -/
def evalCondition (lib : Lib) (cond : Condition × Option (Text → Bool)) (v : MessageView) :
    Bool × Bool :=
  let field := cond.1.field
  if field = fieldHasAttachment then
    if v.bodyKnown then (v.hasAttachment == (cond.1.value == "true".toList), false)
    else (false, true)
  else if field = fieldAttachmentName then
    if !v.bodyKnown then (false, true)
    else if cond.1.op = opNotContains then
      (!v.attachments.any fun name =>
        contains (lib.toLower name) (lib.toLower (Text.trimSpace cond.1.value)), false)
    else (v.attachments.any fun name => matchText lib cond name, false)
  else if field = fieldBody then
    if v.bodyKnown then (matchText lib cond v.body, false) else (false, true)
  else if field = fieldFrom then (matchAddr lib cond v.from_ v.fromAddr, false)
  else if field = fieldTo then (matchAddr lib cond v.to_ v.toAddrs, false)
  else if field = fieldCc then (matchAddr lib cond v.cc v.ccAddrs, false)
  else if field = fieldSubject then (matchText lib cond v.subject, false)
  else (false, false)

def evalConditions (lib : Lib) (match_ : Text) (v : MessageView) :
    List (Condition × Option (Text → Bool)) → Bool → Bool × Bool
  | [], unknownBody => (match_ == matchAll, unknownBody)
  | cond :: rest, unknownBody =>
      let (hit, unknown) := evalCondition lib cond v
      let unknownBody := unknownBody || unknown
      if match_ = matchAny then
        if hit then (true, unknownBody) else evalConditions lib match_ v rest unknownBody
      else if hit then evalConditions lib match_ v rest unknownBody
      else (false, unknownBody)

/-- Whether the rule applies to the mail, and whether a text it asks for is not known. -/
def evaluate (lib : Lib) (c : Compiled) (v : MessageView) : Bool × Bool :=
  if c.conditions = [] then (false, false)
  else evalConditions lib c.rule.match_ v c.conditions false

/-! ### The block list -/

/-- Whether the pattern, an address or a domain, blocks this address. -/
def blocks (addr p : Text) : Bool :=
  if '@' ∈ p then addr == p
  else ('@' :: p).isSuffixOf addr || (('.' :: p).isSuffixOf addr && addr.contains '@')

/-- The pattern that blocks the address. -/
def blocked (lib : Lib) (fromAddr : Text) (patterns : List Text) : Option Text :=
  let addr := lib.toLower (Text.trimSpace fromAddr)
  if addr = [] then none else patterns.find? (blocks addr)

end FlyMail.Rules
