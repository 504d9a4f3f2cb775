/-
The rules behind the manager's interface.

The manager hands the rules rows; the rules read the bodies and the names of the attachments
that are stored for them at that moment, decide, and have someone carry it out.  What they were
applied to is written down in `applied`, which plays no part in what happens.
-/
import FlyMail.Rule.Service
import FlyMail.Sync.Manager

namespace FlyMail.Sync

open Proc FlyMail.Message

/-- What the rules keep for themselves. -/
structure RuleBook where
  state : Rules.State
  applied : List (Rules.Work × List Rules.Mail)

/-- A mail as the rules read it. -/
def mailOf (unescape : Text → Text) (b : Bodies) (m : FlyMail.Message) : Rules.Mail where
  row := m
  body := if (bodyText unescape b m.id).2 then some (bodyText unescape b m.id).1 else none
  attachments := attachmentNames b m.id

/-- Who carries out what the rules ask for: mails are marked or taken away, and that is all. -/
structure Actor where
  act : List Rules.Call → State RuleBook → State RuleBook
  rules : ∀ calls s, (act calls s).rules = s.rules
  bodies : ∀ calls s, (act calls s).bodies = s.bodies
  rows : ∀ calls s, ∀ m ∈ (act calls s).db.messages.rows,
    ∃ r ∈ s.db.messages.rows, m = { r with seen := m.seen, flagged := m.flagged }

/-- Nothing is carried out. -/
def Actor.idle : Actor := ⟨fun _ s => s, fun _ _ => rfl, fun _ _ => rfl, fun _ _ m hm => ⟨m, hm, rfl⟩⟩

/-- The calls that are carried out. -/
def carriedOut (env : Rules.Env) (calls : List Rules.Call) : List Rules.Call :=
  (calls.zipIdx.filter fun c => env.accepts c.2).map Prod.fst

/-- The rules in an environment that the state of the store decides. -/
def ruleRunner {κ : Type} (unescape : Text → Text) (renv : State RuleBook → Rules.Env)
    (actor : Actor) : RuleRunner κ RuleBook where
  apply accountID f msgs := fun _ s =>
    let mails := msgs.map (mailOf unescape s.bodies)
    let w := Rules.work (renv s) s.rules.state accountID f
    let out := Rules.apply (renv s) s.rules.state accountID f mails
    let s' := actor.act (carriedOut (renv s) out.1.calls)
      { s with rules := ⟨out.2, s.rules.applied ++ [(w, mails)]⟩ }
    (if out.1.failed then .err .db else .ok out.1.changed, s')
  handled accountID msgs := fun _ s => (.ok (Rules.handled false s.rules.state accountID msgs), s)

end FlyMail.Sync
