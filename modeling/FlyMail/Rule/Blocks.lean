/-
The block list: how an entry gets on it.

An entry is an address or a domain, written in small letters and without an `@` in front.  What
is neither is refused, and so is an own address, lest the mail one sends to oneself go to the
junk.  Which texts are the same but for case is a parameter, apart from the lower case of a
character.
-/
import FlyMail.Lib.Table
import FlyMail.Rule.Engine

namespace FlyMail.Rules

/-- A row of `block_list`. -/
structure BlockEntry where
  id : Nat
  pattern : Text
  note : Text
  createdAt : Time
  deriving DecidableEq, Repr

abbrev BlockList := Table BlockEntry BlockEntry.id BlockEntry.pattern

inductive BlockError
  | invalid (why : Text)
  | duplicate
  deriving DecidableEq, Repr

def forbidden : Text := " \t\r\n,;<>\"".toList

/-- Small letters, no blanks, no `@` in front of a domain; nothing if it is no pattern. -/
def normalizePattern (lib : Lib) (s : Text) : Text :=
  let s := lib.toLower (Text.trimSpace s)
  let s := if s.head? = some '@' then s.tail else s
  if s = [] ∨ s.any forbidden.contains = true then []
  else if s.count '@' = 1 then
    if s.takeWhile (· != '@') = [] ∨ (s.dropWhile (· != '@')).tail = [] then [] else s
  else if 1 < s.count '@' then []
  else if '.' ∉ s then []
  else s

/-- `AddBlock`, with the own addresses if they are known. -/
def addBlock (lib : Lib) (equalFold : Text → Text → Bool) (selfAddrs : Option (List Text))
    (now : Time) (list : BlockList) (pattern note : Text) :
    Except BlockError BlockEntry × BlockList :=
  let p := normalizePattern lib pattern
  if p = [] then (.error (.invalid "黑名单条目必须是邮箱地址或域名".toList), list)
  else if (selfAddrs.getD []).any (fun self => equalFold (Text.trimSpace self) p) = true then
    (.error (.invalid "不能屏蔽自己的账户地址".toList), list)
  else if h : ∀ r ∈ list.rows, r.pattern ≠ p then
    (.ok ⟨list.last + 1, p, Text.trimSpace note, now⟩,
      list.insert (fun id => ⟨id, p, Text.trimSpace note, now⟩) (fun _ => rfl) h)
  else (.error .duplicate, list)

end FlyMail.Rules
