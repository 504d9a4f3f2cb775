/-
Applying the rules.

The rules are applied to the mail that is new in an inbox.  Mail from a blocked sender goes to
the junk; to any other mail the rules are applied in the order of their priority, up to one that
says to stop.  What is to be done is collected over all the mails first and then done at once:
flags, then moves, then deletions.  Which rule was applied to which mail is recorded, and a rule
that was applied to a mail is not applied to it again.  A mail is known by its Message-ID, so
that a copy that comes in again is known.

Records are removed after half a year.
-/
import FlyMail.Rule.Engine
import FlyMail.Sync.Notify
import Mathlib.Data.List.Sort

namespace FlyMail.Rules

open Sync.Notify (Notice oneLine mailBody)

def notifyPerRuleCap : Nat := 3

def day : Time := 24 * 60 * 60

/-- How long a record is kept. -/
def runRetention : Time := 180 * day

/-- A mail, with its text and the names of its attachments as they are stored. -/
structure Mail where
  row : Message
  body : Option Text
  attachments : List Text

/-! ### The record -/

/-- A row of `rule_runs`; rule `0` is the block list. -/
structure RuleRun where
  accountID : Nat
  messageKey : Text
  ruleID : Nat
  ruleName : Text
  action : Text
  createdAt : Time
  deriving DecidableEq, Repr

def RuleRun.key (r : RuleRun) : Nat × Text × Nat := (r.accountID, r.messageKey, r.ruleID)

/-- The record, with the index that keeps a rule from being recorded twice for a mail. -/
structure RunLog where
  rows : List RuleRun
  uniq : rows.Pairwise fun a b => a.key ≠ b.key

namespace RunLog

def empty : RunLog := ⟨[], .nil⟩

/-- Record a run unless it is recorded already. -/
def record (l : RunLog) (r : RuleRun) : RunLog :=
  if h : ∀ a ∈ l.rows, a.key ≠ r.key then
    { rows := l.rows ++ [r]
      uniq := List.pairwise_append.mpr ⟨l.uniq, List.pairwise_singleton _ _, fun a ha b hb => by
        rw [List.mem_singleton.mp hb]
        exact h a ha⟩ }
  else l

def recordRuns (l : RunLog) (runs : List RuleRun) : RunLog := runs.foldl record l

/-- Whether the rule was applied to the mail with this key. -/
def ran (l : RunLog) (accountID : Nat) (key : Text) (ruleID : Nat) : Bool :=
  l.rows.any fun r => r.key == (accountID, key, ruleID)

/-- Remove what is older than `before`. -/
def pruneRuns (l : RunLog) (before : Time) : RunLog where
  rows := l.rows.filter fun r => !decide (r.createdAt < before)
  uniq := l.uniq.filter _

end RunLog

structure State where
  rules : List Rule
  /-- The block list, oldest first. -/
  blocks : List Text
  runs : RunLog
  /-- When the record was last cleaned up. -/
  lastPrune : Time

/-- The account's rules in the order of their priority. -/
def listEnabledFor (rules : List Rule) (accountID : Nat) : List Rule :=
  (rules.filter fun r => r.enabled && (r.accountID == 0 || r.accountID == accountID)).insertionSort
    fun a b => a.priority < b.priority ∨ (a.priority = b.priority ∧ a.id ≤ b.id)

/-! ### Mail as the conditions see it -/

def formatAddr (name addr : Text) : Text :=
  if name = [] then addr else name ++ " <".toList ++ addr ++ ['>']

def joinAddrs (list : List Address) : Text × Text :=
  (Text.join (list.map fun a => formatAddr a.name a.email) ", ".toList,
    Text.join (list.map Address.email) ", ".toList)

def view (m : Mail) (needBody needAtts : Bool) : MessageView where
  from_ := formatAddr m.row.fromName m.row.fromAddr
  to_ := (joinAddrs m.row.toList).1
  cc := (joinAddrs m.row.ccList).1
  fromAddr := m.row.fromAddr
  toAddrs := (joinAddrs m.row.toList).2
  ccAddrs := (joinAddrs m.row.ccList).2
  subject := m.row.subject
  body := if m.row.bodySynced ∧ needBody then m.body.getD [] else []
  bodyKnown := if m.row.bodySynced ∧ needBody then m.body.isSome else m.row.bodySynced
  attachments := if m.row.bodySynced ∧ needAtts then m.attachments else []
  hasAttachment := m.row.hasAttachment

/-- What a mail is known by. -/
def messageKey (m : Message) : Text :=
  if m.messageID ≠ [] then m.messageID
  else 'u' :: Text.formatUint m.folderID ++ '-' :: Text.formatUint m.uid.val

/-! ### The plan -/

/-- What the one who carries out is asked to do. -/
inductive Call
  | move (ids : List Nat) (target : Nat)
  | delete (ids : List Nat)
  | setRead (ids : List Nat) (read : Bool)
  | setFlagged (ids : List Nat) (flagged : Bool)
  deriving DecidableEq, Repr

structure Plan where
  read : List Nat
  star : List Nat
  del : List Nat
  /-- Mails and where they are to go, in the order it was decided. -/
  moved : List (Nat × Nat)
  /-- Rules that ask for a notice, and the mails. -/
  notify : List (Nat × Text × Message)
  runs : List RuleRun

def Plan.empty : Plan := ⟨[], [], [], [], [], []⟩

/-- An order in which a map is gone through. -/
structure Shuffle where
  apply : List Nat → List Nat
  perm : ∀ l, (apply l).Perm l

/-- Which accesses to the database fail. -/
structure Faults where
  blockPatterns : Bool
  listEnabledFor : Bool
  ranRules : Bool
  recordRuns : Bool
  pruneRuns : Bool

/-- What applying the rules meets with. -/
structure Env where
  lib : Lib
  now : Time
  /-- The account's folders when a name is looked up. -/
  folders : Text → Option (List Folder)
  /-- Rows have keys of their own, and `0` is none. -/
  keyed : ∀ name list, folders name = some list → ∀ f ∈ list, f.id ≠ 0
  findByType : FolderType → Option Folder
  snippetOf : Nat → Text
  /-- Whether a call is carried out. -/
  accepts : Nat → Bool
  order : Shuffle
  faults : Faults

/-- The folder of that name or path. -/
def resolveFolder (env : Env) (name : Text) : Option Folder :=
  let want := env.lib.toLower (Text.trimSpace name)
  (env.folders want).bind fun list =>
    list.find? fun f => env.lib.toLower f.displayName == want || env.lib.toLower f.path == want

/-- Put an action into the plan, and describe it. -/
def collectAction (env : Env) (c : Compiled) (m : Message) (f : Folder) (p : Plan) (a : Action) :
    Plan × List Text :=
  if a.type = actionMarkRead then ({ p with read := p.read ++ [m.id] }, [a.type])
  else if a.type = actionStar then ({ p with star := p.star ++ [m.id] }, [a.type])
  else if a.type = actionDelete then ({ p with del := p.del ++ [m.id] }, [a.type])
  else if a.type = actionNotify then
    ({ p with notify := p.notify ++ [(c.rule.id, c.rule.name, m)] }, [a.type])
  else if a.type = actionMove then
    match resolveFolder env a.value with
    | none => (p, ["move:".toList ++ a.value ++ "(missing)".toList])
    | some dst =>
        if dst.id = f.id then (p, ["move:".toList ++ a.value ++ "(same)".toList])
        else if p.moved.any fun e => e.1 == m.id && e.2 != 0 then
          -- a rule before has decided
          (p, ["move:".toList ++ a.value ++ "(skipped)".toList])
        else ({ p with moved := p.moved ++ [(m.id, dst.id)] }, ["move:".toList ++ a.value])
  else (p, [])

def collectActions (env : Env) (c : Compiled) (m : Message) (f : Folder) :
    Plan → List Action → Plan × List Text
  | p, [] => (p, [])
  | p, a :: rest =>
      let first := collectAction env c m f p a
      let more := collectActions env c m f first.1 rest
      (more.1, first.2 ++ more.2)

/-- Put a rule that applies into the plan. -/
def collect (env : Env) (accountID : Nat) (m : Message) (f : Folder) (p : Plan) (c : Compiled) :
    Plan :=
  let collected := collectActions env c m f p c.actions
  { collected.1 with runs := collected.1.runs ++
    [⟨accountID, messageKey m, c.rule.id, c.rule.name, Text.commaJoin collected.2, env.now⟩] }

/-- The rules that apply to a mail.  One that applied before is passed over, but what it shut out
stays shut out. -/
def fire (lib : Lib) (done : Nat → Bool) (v : MessageView) : List Compiled → List Compiled
  | [] => []
  | c :: rest =>
      if done c.rule.id then
        if c.rule.stopProcessing then [] else fire lib done v rest
      else if (evaluate lib c v).1 then
        if c.rule.stopProcessing then [c] else c :: fire lib done v rest
      else fire lib done v rest

/-- What an application of the rules knows when it comes to the mails. -/
structure Work where
  accountID : Nat
  folder : Folder
  patterns : List Text
  compiled : List Compiled
  runs : RunLog

def Work.view (w : Work) (m : Mail) : MessageView :=
  Rules.view m (w.compiled.any Compiled.needsBody) (w.compiled.any Compiled.needsAttachments)

def Work.done (w : Work) (m : Mail) : Nat → Bool := w.runs.ran w.accountID (messageKey m.row)

/-- The pattern that blocks the mail. -/
def Work.blocked (w : Work) (lib : Lib) (m : Mail) : Option Text :=
  Rules.blocked lib m.row.fromAddr w.patterns

def Work.fired (w : Work) (lib : Lib) (m : Mail) : List Compiled :=
  fire lib (w.done m) (w.view m) w.compiled

/-- Come to the next mail, with the plan and the mails to be put away. -/
def visit (env : Env) (w : Work) (acc : Plan × List Nat) (m : Mail) : Plan × List Nat :=
  match w.blocked env.lib m with
  | some pat =>
      if w.done m 0 then acc
      else
        ({ acc.1 with runs := acc.1.runs ++ [⟨w.accountID, messageKey m.row, 0, "黑名单".toList,
          "block:".toList ++ pat, env.now⟩] }, acc.2 ++ [m.row.id])
  | none => ((w.fired env.lib m).foldl (collect env w.accountID m.row w.folder) acc.1, acc.2)

/-- The plan for these mails, and the mails to be put away. -/
def planned (env : Env) (w : Work) (msgs : List Mail) : Plan × List Nat :=
  msgs.foldl (visit env w) (.empty, [])

/-! ### Carrying it out -/

/-- Each once, in the order in which they come first. -/
def uniq : List Nat → List Nat
  | [] => []
  | id :: rest => id :: (uniq rest).filter fun x => x != id

def Plan.move (p : Plan) (target : Nat) : List Nat :=
  (p.moved.filter fun e => e.2 == target).map Prod.fst

/-- First the flags, then the moves, folder by folder, and last the deletions.  The notices are
given before the moves. -/
def execute (p : Plan) : List Call :=
  let targets := (uniq (p.moved.map Prod.snd)).insertionSort (· ≤ ·)
  (if p.read = [] then [] else [.setRead (uniq p.read) true]) ++
  (if p.star = [] then [] else [.setFlagged (uniq p.star) true]) ++
  (targets.flatMap fun dst =>
    let kept := (uniq (p.move dst)).filter fun id => !p.del.contains id
    if kept = [] then [] else [.move kept dst]) ++
  (if p.del = [] then [] else [.delete (uniq p.del)])

/-- Put blocked mail away. -/
def applyBlock (env : Env) (ids : List Nat) : List Call :=
  match env.findByType .junk with
  | some dst => [.move ids dst.id]
  | none =>
      match env.findByType .trash with
      | some dst => [.move ids dst.id]
      | none => [.setRead ids true]

def notifyMatches (env : Env) (accountID : Nat) (name : Text) (list : List Message) : List Notice :=
  let name := if name = [] then "规则".toList else name
  if list.length ≤ notifyPerRuleCap then
    list.map fun m =>
      ⟨accountID, m.id, "规则命中 · ".toList ++ oneLine name,
        mailBody (if m.subject = [] then "（无主题）".toList else m.subject) (env.snippetOf m.id)⟩
  else
    [⟨accountID, 0, "规则命中 · ".toList ++ name,
      "命中 ".toList ++ Text.formatUint list.length ++ " 封新邮件".toList⟩]

/-- The notices of the plan, rule by rule in any order. -/
def notices (env : Env) (accountID : Nat) (p : Plan) : List Notice :=
  (env.order.apply (uniq (p.notify.map Prod.fst))).flatMap fun ruleID =>
    let list := p.notify.filter fun e => e.1 == ruleID
    if list = [] then []
    else notifyMatches env accountID ((list.head?.map fun e => e.2.1).getD []) (list.map fun e => e.2.2)

/-- Clean up the record once a day. -/
def maybePrune (env : Env) (s : State) : State :=
  if env.now < s.lastPrune + day then s
  else
    { s with
      lastPrune := env.now
      runs := if env.faults.pruneRuns then s.runs else s.runs.pruneRuns (env.now - runRetention) }

structure Outcome where
  failed : Bool
  /-- Something was changed. -/
  changed : Bool
  calls : List Call
  notices : List Notice
  runs : List RuleRun
  deriving DecidableEq, Repr

def Outcome.idle : Outcome := ⟨false, false, [], [], []⟩

def Outcome.error : Outcome := ⟨true, false, [], [], []⟩

/-- The rules that pass the check. -/
def compileAll (lib : Lib) (rules : List Rule) : List Compiled :=
  rules.filterMap fun r => (compile lib r).toOption

def work (env : Env) (s : State) (accountID : Nat) (f : Folder) : Work :=
  ⟨accountID, f, s.blocks, compileAll env.lib (listEnabledFor s.rules accountID), s.runs⟩

/-- Apply the block list and the rules to mail that is new in an inbox. -/
def apply (env : Env) (s : State) (accountID : Nat) (f : Folder) (msgs : List Mail) :
    Outcome × State :=
  if msgs.isEmpty then (.idle, s)
  else if env.faults.blockPatterns ∨ env.faults.listEnabledFor then (.error, s)
  else if s.blocks = [] ∧ listEnabledFor s.rules accountID = [] then (.idle, s)
  else if env.faults.ranRules then (.error, s)
  else
    let (p, blocked) := planned env (work env s accountID f) msgs
    let calls :=
      (if blocked = [] then [] else applyBlock env (env.order.apply (uniq blocked))) ++ execute p
    let runs := if env.faults.recordRuns then s.runs else s.runs.recordRuns p.runs
    (⟨false, (List.range calls.length).any env.accepts, calls, notices env accountID p, p.runs⟩,
      maybePrune env { s with runs := runs })

/-- The mails to which a rule or the block list was applied. -/
def handled (ranRulesFails : Bool) (s : State) (accountID : Nat) (msgs : List Message) : List Nat :=
  if ranRulesFails then []
  else
    (msgs.filter fun m =>
      s.runs.rows.any fun r => r.accountID == accountID && r.messageKey == messageKey m).map Message.id

end FlyMail.Rules
