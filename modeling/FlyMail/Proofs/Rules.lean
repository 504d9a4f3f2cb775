/-
What becomes of a mail the rules are applied to.

Actions are collected by kind over all mails and rules and then done at once; a mail meets the
calls that name it.  `fate` says which these are, from the mail and the rules alone.  The proof
follows a mail through the plan: what the plan has of it is its `Share`, the other mails of the
batch leave the share as it is, and what is carried out of the plan depends on the share only.
-/
import FlyMail.Rule.Service

namespace FlyMail.Rules

/-! ### Calls -/

/-- What a call does to each mail it names. -/
inductive Deed
  | move (target : Nat)
  | delete
  | setRead (read : Bool)
  | setFlagged (flagged : Bool)
  deriving DecidableEq, Repr

def Call.ids : Call → List Nat
  | .move ids _ | .delete ids | .setRead ids _ | .setFlagged ids _ => ids

def Call.deed : Call → Deed
  | .move _ target => .move target
  | .delete _ => .delete
  | .setRead _ read => .setRead read
  | .setFlagged _ flagged => .setFlagged flagged

/-- What is done to a mail, as often as it is done. -/
def deeds (id : Nat) (calls : List Call) : List Deed :=
  calls.flatMap fun c => List.replicate (c.ids.count id) c.deed

@[simp] theorem deeds_nil (id : Nat) : deeds id [] = [] := rfl

@[simp] theorem deeds_append (id : Nat) (a b : List Call) :
    deeds id (a ++ b) = deeds id a ++ deeds id b := List.flatMap_append

section Uniq

variable {l : List Nat} {id : Nat}

@[simp] theorem mem_uniq : id ∈ uniq l ↔ id ∈ l := by
  induction l with
  | nil => simp [uniq]
  | cons a rest ih =>
      by_cases ha : id = a
      · simp [uniq, ha]
      · simp [uniq, ha, ih]

theorem nodup_uniq (l : List Nat) : (uniq l).Nodup := by
  induction l with
  | nil => simp [uniq]
  | cons a rest ih =>
      simp only [uniq, List.nodup_cons, List.mem_filter]
      exact ⟨by simp, ih.filter _⟩

/-- A call that names each mail once. -/
theorem deeds_call {c : Call} (h : c.ids.Nodup) (id : Nat) :
    deeds id [c] = if id ∈ c.ids then [c.deed] else [] := by
  unfold deeds
  rw [List.flatMap_singleton]
  split
  · rename_i hmem
    rw [List.count_eq_one_of_mem h hmem]
    rfl
  · rename_i hmem
    rw [List.count_eq_zero_of_not_mem hmem]
    rfl

/-- A call that is left out if it names no mail. -/
theorem deeds_unless {c : Call} (h : c.ids.Nodup) (id : Nat) :
    deeds id (if c.ids = [] then [] else [c]) = if id ∈ c.ids then [c.deed] else [] := by
  split
  · rename_i hempty
    simp [hempty]
  · exact deeds_call h id

theorem uniq_eq_nil : uniq l = [] ↔ l = [] := by
  cases l with
  | nil => simp [uniq]
  | cons a rest => simp [uniq]

end Uniq

/-! ### What the plan has of a mail -/

/-- Where the plan moves the mail to. -/
def Plan.goes (p : Plan) (id : Nat) : List Nat :=
  (p.moved.filter fun e => e.1 == id).map Prod.snd

theorem mem_move {p : Plan} {id target : Nat} : id ∈ p.move target ↔ target ∈ p.goes id := by
  simp [Plan.move, Plan.goes]

/-- The moves that are carried out. -/
theorem deeds_moves (p : Plan) (id : Nat) (hone : (p.goes id).length ≤ 1) {targets : List Nat}
    (hnodup : targets.Nodup) (hall : ∀ t ∈ p.goes id, t ∈ targets) :
    deeds id (targets.flatMap fun dst =>
        let kept := (uniq (p.move dst)).filter fun id => !p.del.contains id
        if kept = [] then [] else [.move kept dst])
      = if id ∈ p.del then [] else (p.goes id).map .move := by
  have hfolder : ∀ dst, deeds id (let kept := (uniq (p.move dst)).filter fun id => !p.del.contains id
      if kept = [] then [] else [.move kept dst])
        = if dst ∈ p.goes id ∧ id ∉ p.del then [.move dst] else [] := by
    intro dst
    have hkept : ((uniq (p.move dst)).filter fun id => !p.del.contains id).Nodup :=
      (nodup_uniq _).filter _
    refine (deeds_unless (c := .move _ dst) hkept id).trans ?_
    simp [Call.ids, Call.deed, mem_move]
  unfold deeds at hfolder ⊢
  rw [List.flatMap_assoc]
  simp only [hfolder]
  by_cases hdel : id ∈ p.del
  · simp [hdel]
  · simp only [hdel, not_false_eq_true, and_true, if_false]
    match hgoes : p.goes id with
    | [] => simp
    | [t] =>
        have ht : t ∈ targets := hall t (by simp [hgoes])
        have hfilter : ∀ l : List Nat, (l.flatMap fun dst => if dst ∈ [t] then [Deed.move dst] else [])
            = (l.filter fun dst => dst == t).map .move := by
          intro l
          induction l with
          | nil => rfl
          | cons a rest ih =>
              by_cases ha : a = t
              · simp [List.flatMap_cons, ha, ← ih]
              · simp [List.flatMap_cons, ha, ← ih]
        rw [hfilter, List.filter_beq, List.count_eq_one_of_mem hnodup ht]
        rfl
    | a :: b :: rest =>
        rw [hgoes, List.length_cons, List.length_cons] at hone
        omega

/-- What is done to a mail is read off what the plan has of it. -/
theorem deeds_execute (p : Plan) (id : Nat) (hone : (p.goes id).length ≤ 1) :
    deeds id (execute p) =
      (if id ∈ p.read then [.setRead true] else []) ++
      (if id ∈ p.star then [.setFlagged true] else []) ++
      (if id ∈ p.del then [.delete] else (p.goes id).map .move) := by
  have hread := deeds_unless (c := .setRead (uniq p.read) true) (nodup_uniq _) id
  have hstar := deeds_unless (c := .setFlagged (uniq p.star) true) (nodup_uniq _) id
  have hdel := deeds_unless (c := .delete (uniq p.del)) (nodup_uniq _) id
  simp only [Call.ids, Call.deed, uniq_eq_nil, mem_uniq] at hread hstar hdel
  have hperm := List.perm_insertionSort (· ≤ ·) (uniq (p.moved.map Prod.snd))
  have hmoves := deeds_moves p id hone (hperm.nodup_iff.mpr (nodup_uniq _)) fun t ht => by
    obtain ⟨e, he, rfl⟩ := List.mem_map.mp ht
    rw [hperm.mem_iff, mem_uniq]
    exact List.mem_map_of_mem (List.mem_filter.mp he).1
  unfold execute
  rw [deeds_append, deeds_append, deeds_append, hread, hstar, hdel, hmoves]
  by_cases hid : id ∈ p.del
  · simp [hid]
  · simp [hid]

/-! ### A mail's share of the plan -/

/-- What is to be done to one mail. -/
structure Share where
  read : Bool
  star : Bool
  del : Bool
  target : Option Nat
  deriving DecidableEq, Repr

/-- Where an action moves a mail of the folder to. -/
def destination (env : Env) (f : Folder) (a : Action) : Option Nat :=
  if a.type = actionMove then
    (resolveFolder env a.value).bind fun dst => if dst.id = f.id then none else some dst.id
  else none

namespace Share

def none : Share := ⟨false, false, false, .none⟩

/-- One more action; who comes first decides on the folder. -/
def act (env : Env) (f : Folder) (s : Share) (a : Action) : Share where
  read := s.read || a.type == actionMarkRead
  star := s.star || a.type == actionStar
  del := s.del || a.type == actionDelete
  target := s.target.or (destination env f a)

/-- A mail no rule has anything to do with. -/
def of (env : Env) (f : Folder) (actions : List Action) : Share where
  read := actions.any fun a => a.type == actionMarkRead
  star := actions.any fun a => a.type == actionStar
  del := actions.any fun a => a.type == actionDelete
  target := actions.findSome? (destination env f)

theorem foldl_act (env : Env) (f : Folder) (s : Share) (actions : List Action) :
    actions.foldl (act env f) s =
      ⟨s.read || (of env f actions).read, s.star || (of env f actions).star,
        s.del || (of env f actions).del, s.target.or (of env f actions).target⟩ := by
  induction actions generalizing s with
  | nil => simp [of]
  | cons a rest ih =>
      rw [List.foldl_cons, ih]
      simp only [act, of, List.any_cons, List.findSome?_cons, Bool.or_assoc, Option.or_assoc]
      cases destination env f a <;> simp

end Share

/-- The plan has this share of the mail. -/
structure Plan.Has (p : Plan) (id : Nat) (s : Share) : Prop where
  read : id ∈ p.read ↔ s.read = true
  star : id ∈ p.star ↔ s.star = true
  del : id ∈ p.del ↔ s.del = true
  goes : p.goes id = s.target.toList
  keyed : s.target ≠ some 0

section Share

variable {env : Env} {c : Compiled} {m : Message} {f : Folder} {p : Plan} {s : Share} {id : Nat}

theorem has_empty (id : Nat) : Plan.empty.Has id .none where
  read := by simp [Plan.empty, Share.none]
  star := by simp [Plan.empty, Share.none]
  del := by simp [Plan.empty, Share.none]
  goes := rfl
  keyed := nofun

theorem destination_ne_zero (env : Env) (f : Folder) (a : Action) : destination env f a ≠ some 0 := by
  unfold destination resolveFolder
  split
  · intro h
    obtain ⟨dst, hdst, hid⟩ := Option.bind_eq_some_iff.mp h
    obtain ⟨list, hlist, hfind⟩ := Option.bind_eq_some_iff.mp hdst
    have hkeyed := env.keyed _ _ hlist dst (List.mem_of_find?_eq_some hfind)
    split at hid
    · cases hid
    · exact hkeyed (Option.some.inj hid)
  · exact nofun

/-- What an action that is no move makes of the share. -/
theorem act_of_not_move {a : Action} (h : a.type ≠ actionMove) :
    s.act env f a = ⟨s.read || a.type == actionMarkRead, s.star || a.type == actionStar,
      s.del || a.type == actionDelete, s.target⟩ := by
  unfold Share.act destination
  rw [if_neg h, Option.or_none]

theorem act_of_move {a : Action} (h : a.type = actionMove) :
    s.act env f a = { s with target := s.target.or (destination env f a) } := by
  have hread : (actionMove == actionMarkRead) = false := by decide
  have hstar : (actionMove == actionStar) = false := by decide
  have hdel : (actionMove == actionDelete) = false := by decide
  unfold Share.act
  rw [h, hread, hstar, hdel, Bool.or_false, Bool.or_false, Bool.or_false]

theorem any_moved_iff (h : p.Has id s) :
    (p.moved.any fun e => e.1 == id && e.2 != 0) = s.target.isSome := by
  have hgoes := h.goes
  have hmem : ∀ t, (id, t) ∈ p.moved ↔ t ∈ s.target.toList := by
    intro t
    rw [← hgoes]
    simp [Plan.goes]
  cases hs : s.target with
  | none =>
      rw [Option.isSome_none, List.any_eq_false]
      rintro ⟨i, t⟩ he hdecided
      simp only [Bool.and_eq_true, beq_iff_eq] at hdecided
      have ht := (hmem t).mp (hdecided.1 ▸ he)
      simp [hs] at ht
  | some t =>
      rw [Option.isSome_some, List.any_eq_true]
      have hne : t ≠ 0 := fun hzero => h.keyed (by rw [hs, hzero])
      exact ⟨(id, t), (hmem t).mpr (by simp [hs]), by simp [hne]⟩

/-- A move makes the same difference to the plan and to the share. -/
theorem Plan.Has.collectMove (h : p.Has m.id s) {a : Action} (hmove : a.type = actionMove) :
    (collectAction env c m f p a).1.Has m.id { s with target := s.target.or (destination env f a) } := by
  have hread : actionMove ≠ actionMarkRead := by decide
  have hstar : actionMove ≠ actionStar := by decide
  have hdel : actionMove ≠ actionDelete := by decide
  have hnotify : actionMove ≠ actionNotify := by decide
  have hkeyed := destination_ne_zero env f a
  unfold destination at hkeyed ⊢
  unfold collectAction
  rw [if_pos hmove] at hkeyed ⊢
  rw [if_neg (hmove ▸ hread), if_neg (hmove ▸ hstar), if_neg (hmove ▸ hdel),
    if_neg (hmove ▸ hnotify), if_pos hmove, any_moved_iff h]
  cases hdst : resolveFolder env a.value with
  | none =>
      rw [Option.bind_none, Option.or_none]
      exact h
  | some dst =>
      rw [hdst, Option.bind_some] at hkeyed
      rw [Option.bind_some]
      dsimp only
      split
      · rw [Option.or_none]
        exact h
      · rename_i hother
        rw [if_neg hother] at hkeyed
        cases htarget : s.target with
        | none =>
            refine ⟨h.read, h.star, h.del, ?_, hkeyed⟩
            have hgoes := h.goes
            rw [htarget] at hgoes
            unfold Plan.goes at hgoes ⊢
            simp only [Option.isSome_none, Bool.false_eq_true, if_false]
            rw [List.filter_append, List.map_append, hgoes]
            simp
        | some t =>
            have hsame : { s with target := (some t).or (some dst.id) } = s := by
              rw [Option.some_or, ← htarget]
            rw [Option.isSome_some, if_pos rfl, hsame]
            exact h

/-- An action makes the same difference to the plan and to the share. -/
theorem Plan.Has.collectAction (h : p.Has m.id s) (a : Action) :
    (collectAction env c m f p a).1.Has m.id (s.act env f a) := by
  by_cases hmove : a.type = actionMove
  · rw [act_of_move hmove]
    exact h.collectMove hmove
  rw [act_of_not_move hmove]
  unfold Rules.collectAction
  by_cases hread : a.type = actionMarkRead
  · have hstar : (actionMarkRead == actionStar) = false := by decide
    have hdel : (actionMarkRead == actionDelete) = false := by decide
    rw [if_pos hread, hread, hstar, hdel, Bool.or_false, Bool.or_false]
    exact ⟨by simp, h.star, h.del, h.goes, h.keyed⟩
  rw [if_neg hread, beq_eq_false_iff_ne.mpr hread, Bool.or_false]
  by_cases hstar : a.type = actionStar
  · have hdel : (actionStar == actionDelete) = false := by decide
    rw [if_pos hstar, hstar, hdel, Bool.or_false]
    exact ⟨h.read, by simp, h.del, h.goes, h.keyed⟩
  rw [if_neg hstar, beq_eq_false_iff_ne.mpr hstar, Bool.or_false]
  by_cases hdel : a.type = actionDelete
  · rw [if_pos hdel, hdel]
    exact ⟨h.read, h.star, by simp, h.goes, h.keyed⟩
  rw [if_neg hdel, beq_eq_false_iff_ne.mpr hdel, Bool.or_false]
  by_cases hnotify : a.type = actionNotify
  · rw [if_pos hnotify]
    exact ⟨h.read, h.star, h.del, h.goes, h.keyed⟩
  · rw [if_neg hnotify, if_neg hmove]
    exact h

/-- What is planned for another mail makes no difference. -/
theorem Plan.Has.collectOther (h : p.Has id s) (hne : m.id ≠ id) (a : Action) :
    (Rules.collectAction env c m f p a).1.Has id s := by
  have hlist : ∀ l : List Nat, id ∈ l ++ [m.id] ↔ id ∈ l := by
    intro l
    simp [Ne.symm hne]
  unfold Rules.collectAction
  split
  · exact ⟨(hlist _).trans h.read, h.star, h.del, h.goes, h.keyed⟩
  split
  · exact ⟨h.read, (hlist _).trans h.star, h.del, h.goes, h.keyed⟩
  split
  · exact ⟨h.read, h.star, (hlist _).trans h.del, h.goes, h.keyed⟩
  split
  · exact ⟨h.read, h.star, h.del, h.goes, h.keyed⟩
  split
  · split
    · exact h
    · split
      · exact h
      · split
        · exact h
        · refine ⟨h.read, h.star, h.del, ?_, h.keyed⟩
          rw [← h.goes]
          unfold Plan.goes
          rw [List.filter_append, List.filter_cons_of_neg (by simpa using hne)]
          simp
  · exact h

/-! ### Following a mail through the batch -/

theorem Plan.Has.collectActions (h : p.Has m.id s) (env : Env) (f : Folder) (c : Compiled)
    (actions : List Action) :
    (Rules.collectActions env c m f p actions).1.Has m.id (actions.foldl (Share.act env f) s) := by
  induction actions generalizing p s with
  | nil => exact h
  | cons a rest ih => exact ih (h.collectAction a)

theorem Plan.Has.collectActionsOther (h : p.Has id s) (hne : m.id ≠ id) (env : Env) (f : Folder)
    (c : Compiled) (actions : List Action) :
    (Rules.collectActions env c m f p actions).1.Has id s := by
  induction actions generalizing p with
  | nil => exact h
  | cons a rest ih => exact ih (h.collectOther hne a)

theorem Plan.Has.collects (h : p.Has m.id s) (env : Env) (f : Folder) (accountID : Nat)
    (rules : List Compiled) :
    (rules.foldl (collect env accountID m f) p).Has m.id
      ((rules.flatMap Compiled.actions).foldl (Share.act env f) s) := by
  induction rules generalizing p s with
  | nil => exact h
  | cons c rest ih =>
      rw [List.foldl_cons, List.flatMap_cons, List.foldl_append]
      obtain ⟨hread, hstar, hdel, hgoes, hkeyed⟩ := h.collectActions env f c c.actions
      exact ih ⟨hread, hstar, hdel, hgoes, hkeyed⟩

theorem Plan.Has.collectsOther (h : p.Has id s) (hne : m.id ≠ id) (accountID : Nat)
    (rules : List Compiled) : (rules.foldl (collect env accountID m f) p).Has id s := by
  induction rules generalizing p with
  | nil => exact h
  | cons c rest ih =>
      obtain ⟨hread, hstar, hdel, hgoes, hkeyed⟩ := h.collectActionsOther hne env f c c.actions
      exact ih ⟨hread, hstar, hdel, hgoes, hkeyed⟩

end Share

/-! ### The rules of a mail -/

/-- The rules up to the first that stops. -/
def upToStop : List Compiled → List Compiled
  | [] => []
  | c :: rest => if c.rule.stopProcessing then [c] else c :: upToStop rest

/-- The rules that apply to the mail: those before the first that stops and applies, or applied
before. -/
def Work.effective (w : Work) (lib : Lib) (m : Mail) : List Compiled :=
  (upToStop (w.compiled.filter fun c => w.done m c.rule.id || (evaluate lib c (w.view m)).1)).filter
    fun c => !w.done m c.rule.id

theorem fire_eq (lib : Lib) (done : Nat → Bool) (v : MessageView) (compiled : List Compiled) :
    fire lib done v compiled =
      (upToStop (compiled.filter fun c => done c.rule.id || (evaluate lib c v).1)).filter
        fun c => !done c.rule.id := by
  induction compiled with
  | nil => rfl
  | cons c rest ih =>
      unfold fire
      cases hdone : done c.rule.id with
      | true =>
          cases hstop : c.rule.stopProcessing with
          | true => simp [hdone, hstop, upToStop]
          | false => simp [hdone, hstop, upToStop, ih]
      | false =>
          cases hhit : (evaluate lib c v).1 with
          | false => simp [hdone, hhit, ih]
          | true =>
              cases hstop : c.rule.stopProcessing with
              | true => simp [hdone, hhit, hstop, upToStop]
              | false => simp [hdone, hhit, hstop, upToStop, ih]

theorem fired_eq (w : Work) (lib : Lib) (m : Mail) : w.fired lib m = w.effective lib m :=
  fire_eq lib _ _ _

/-! ### What is done to a mail -/

/-- What is done to mail that is put away. -/
def blockDeed (env : Env) : Deed :=
  match env.findByType .junk, env.findByType .trash with
  | some dst, _ => .move dst.id
  | none, some dst => .move dst.id
  | none, none => .setRead true

/-- What is done to mail to which these actions apply. -/
def Share.deeds (s : Share) : List Deed :=
  (if s.read then [.setRead true] else []) ++
  (if s.star then [.setFlagged true] else []) ++
  (if s.del then [.delete] else s.target.toList.map .move)

/-- **What becomes of a mail.**  Blocked mail is put away, once.  Any other is marked and starred as
the rules that apply to it say, and then deleted if one of them says so, or else moved to where
the first of them moves it whose folder there is, other than its own. -/
def fate (env : Env) (w : Work) (m : Mail) : List Deed :=
  if (w.blocked env.lib m).isSome then
    if w.done m 0 then [] else [blockDeed env]
  else (Share.of env w.folder ((w.effective env.lib m).flatMap Compiled.actions)).deeds

/-- The mail's share of the plan. -/
def Work.share (env : Env) (w : Work) (m : Mail) : Share :=
  if (w.blocked env.lib m).isSome then .none
  else .of env w.folder ((w.effective env.lib m).flatMap Compiled.actions)

/-- The mail is to be put away. -/
def Work.away (env : Env) (w : Work) (m : Mail) : Bool :=
  (w.blocked env.lib m).isSome && !w.done m 0

/-- What is decided of a mail. -/
structure Decided (acc : Plan × List Nat) (id : Nat) (s : Share) (away : Bool) : Prop where
  share : acc.1.Has id s
  away : id ∈ acc.2 ↔ away = true

section Visit

variable {env : Env} {w : Work} {acc : Plan × List Nat} {m : Mail} {s : Share} {id : Nat} {put : Bool}

theorem Decided.visit (h : Decided acc m.row.id .none false) :
    Decided (Rules.visit env w acc m) m.row.id (w.share env m) (w.away env m) := by
  unfold Rules.visit Work.share Work.away
  cases hblocked : w.blocked env.lib m with
  | some pat =>
      cases hdone : w.done m 0 with
      | true => simpa [hdone] using h
      | false =>
          obtain ⟨⟨hread, hstar, hdel, hgoes, hkeyed⟩, -⟩ := h
          exact ⟨⟨hread, hstar, hdel, hgoes, hkeyed⟩, by simp⟩
  | none =>
      have hcollects := h.share.collects env w.folder w.accountID (w.fired env.lib m)
      rw [Share.foldl_act, fired_eq] at hcollects
      refine ⟨?_, by simpa using h.away⟩
      simpa [Share.none, fired_eq] using hcollects

theorem Decided.visitOther (h : Decided acc id s put) (hne : m.row.id ≠ id) :
    Decided (Rules.visit env w acc m) id s put := by
  unfold Rules.visit
  split
  · split
    · exact h
    · obtain ⟨⟨hread, hstar, hdel, hgoes, hkeyed⟩, haway⟩ := h
      refine ⟨⟨hread, hstar, hdel, hgoes, hkeyed⟩, Iff.trans ?_ haway⟩
      simp [Ne.symm hne]
  · exact ⟨h.share.collectsOther hne _ _, h.away⟩

theorem Decided.visits (h : Decided acc id s put) {msgs : List Mail}
    (hne : ∀ m ∈ msgs, m.row.id ≠ id) : Decided (msgs.foldl (Rules.visit env w) acc) id s put := by
  induction msgs generalizing acc with
  | nil => exact h
  | cons m rest ih =>
      exact ih (h.visitOther (hne m List.mem_cons_self)) fun m' hm' => hne m' (List.mem_cons_of_mem _ hm')

/-- **The plan for a mail is its own**, whatever else is in the batch. -/
theorem decided_of_mem {msgs : List Mail} (hids : (msgs.map fun m => m.row.id).Nodup) (hm : m ∈ msgs) :
    Decided (planned env w msgs) m.row.id (w.share env m) (w.away env m) := by
  obtain ⟨before, after, rfl⟩ := List.append_of_mem hm
  rw [List.map_append, List.map_cons, List.nodup_append, List.nodup_cons] at hids
  obtain ⟨-, ⟨hafter, -⟩, hbefore⟩ := hids
  have hstart : Decided (.empty, []) m.row.id .none false := ⟨has_empty _, by simp⟩
  unfold planned
  rw [List.foldl_append, List.foldl_cons]
  refine ((hstart.visits fun m' hm' => ?_).visit).visits fun m' hm' heq => ?_
  · exact hbefore _ (List.mem_map_of_mem hm') _ List.mem_cons_self
  · exact hafter (heq ▸ List.mem_map_of_mem hm')

end Visit

section Apply

variable {env : Env} {s : State} {accountID : Nat} {f : Folder} {msgs : List Mail} {m : Mail}

theorem deeds_applyBlock {ids : List Nat} (h : ids.Nodup) (id : Nat) :
    deeds id (applyBlock env ids) = if id ∈ ids then [blockDeed env] else [] := by
  unfold applyBlock blockDeed
  cases env.findByType .junk with
  | some dst => exact deeds_call (c := .move ids dst.id) h id
  | none =>
      cases env.findByType .trash with
      | some dst => exact deeds_call (c := .move ids dst.id) h id
      | none => exact deeds_call (c := .setRead ids true) h id

/-- What is carried out is what was decided. -/
theorem deeds_decided {acc : Plan × List Nat} {id : Nat} {share : Share} {put : Bool}
    (h : Decided acc id share put) :
    deeds id ((if acc.2 = [] then [] else applyBlock env (env.order.apply (uniq acc.2))) ++
      execute acc.1) = (if put then [blockDeed env] else []) ++ share.deeds := by
  have hblock : deeds id (if acc.2 = [] then [] else applyBlock env (env.order.apply (uniq acc.2)))
      = if put then [blockDeed env] else [] := by
    have hperm := env.order.perm (uniq acc.2)
    split
    · rename_i hempty
      have hput : ¬ put = true := fun hput => by simpa [hempty] using h.away.mpr hput
      rw [if_neg hput]
      rfl
    · rw [deeds_applyBlock (hperm.nodup_iff.mpr (nodup_uniq _))]
      exact if_congr ((hperm.mem_iff.trans mem_uniq).trans h.away) rfl rfl
  have hone : (acc.1.goes id).length ≤ 1 := by
    rw [h.share.goes]
    cases share.target with
    | none => exact Nat.zero_le _
    | some t => exact Nat.le_refl _
  rw [deeds_append, hblock, deeds_execute _ _ hone, h.share.goes]
  unfold Share.deeds
  rw [if_congr h.share.read rfl rfl, if_congr h.share.star rfl rfl, if_congr h.share.del rfl rfl]

theorem fate_eq (env : Env) (w : Work) (m : Mail) :
    (if w.away env m then [blockDeed env] else []) ++ (w.share env m).deeds = fate env w m := by
  unfold fate Work.away Work.share
  cases (w.blocked env.lib m).isSome with
  | false => rfl
  | true =>
      cases w.done m 0 with
      | true => rfl
      | false => rfl

/-- Without rules and a block list nothing is done to a mail. -/
theorem fate_of_nothing (hblocks : s.blocks = []) (hrules : listEnabledFor s.rules accountID = []) :
    fate env (work env s accountID f) m = [] := by
  have hblocked : (work env s accountID f).blocked env.lib m = none := by
    unfold Work.blocked blocked work
    simp [hblocks]
  have hcompiled : (work env s accountID f).compiled = [] := by
    unfold work compileAll
    simp [hrules]
  unfold fate Work.effective
  rw [hblocked, hcompiled]
  rfl

/-- **Each mail of a batch ends in one place**: the calls that name it are those of its fate. -/
theorem deeds_apply (hids : (msgs.map fun m => m.row.id).Nodup) (hm : m ∈ msgs)
    (hok : (apply env s accountID f msgs).1.failed = false) :
    deeds m.row.id (apply env s accountID f msgs).1.calls = fate env (work env s accountID f) m := by
  unfold apply at hok ⊢
  have hne : msgs.isEmpty = false := by
    rw [List.isEmpty_eq_false_iff]
    exact List.ne_nil_of_mem hm
  rw [hne] at hok ⊢
  simp only [Bool.false_eq_true, if_false] at hok ⊢
  split at hok
  · cases hok
  split at hok
  · rename_i hnothing
    rw [if_neg ‹_›, if_pos hnothing]
    exact (fate_of_nothing hnothing.1 hnothing.2).symm
  split at hok
  · cases hok
  rw [if_neg ‹_›, if_neg ‹_›, if_neg ‹_›]
  exact (deeds_decided (decided_of_mem hids hm)).trans (fate_eq _ _ _)

/-- Maps are gone through as they come. -/
def asIs : Shuffle := ⟨id, fun _ => .refl _⟩

/-- Nothing fails, and every folder is found. -/
theorem keyed_nil : ∀ f ∈ ([] : List Folder), f.id ≠ 0 := fun _ hf => absurd hf List.not_mem_nil

def calmEnv (folders : List Folder) (keyed : ∀ f ∈ folders, f.id ≠ 0) : Env where
  lib := ⟨Char.toLower, Lib.toLower_ascii, fun _ => .error [], id⟩
  now := 1000000000
  folders := fun _ => some folders
  keyed _ list h := by
    obtain rfl := Option.some.inj h
    exact keyed
  findByType type := folders.find? fun f => f.type == type
  snippetOf _ := []
  accepts _ := true
  order := asIs
  faults := ⟨false, false, false, false, false⟩

def theInbox : Folder := .bare 1 1 "INBOX".toList .inbox

def oneOffice : Env :=
  calmEnv [theInbox, .bare 2 1 "archive".toList .archive, .bare 3 1 "junk".toList .junk] (by decide)

/-- A rule for mail with an attachment. -/
def attachmentRule (id : Nat) (actions : List Action) : Rule :=
  ⟨id, "rule".toList, true, id, 0, matchAll,
    some [⟨fieldHasAttachment, opEquals, "true".toList⟩], some actions, false⟩

/-- A mail with an attachment. -/
def mailFrom (id : Nat) (addr : String) : Mail where
  row := { Message.bare id 1 1 (.numbered id) with
    fromAddr := addr.toList, messageID := addr.toList, hasAttachment := true, bodySynced := true }
  body := some []
  attachments := []

/-- Two rules and a blocked domain. -/
def office : State where
  rules := [attachmentRule 1 [⟨actionMarkRead, []⟩, ⟨actionMove, "inbox".toList⟩],
    attachmentRule 2 [⟨actionStar, []⟩, ⟨actionMove, "archive".toList⟩]]
  blocks := ["spam.example".toList]
  runs := .empty
  lastPrune := 1000000000

/-- A mail to which both rules apply, in one batch with a blocked one. -/
theorem deeds_apply_office : (apply oneOffice office 1 theInbox
      [mailFrom 7 "a@b.example", mailFrom 8 "x@spam.example"]).1.calls
        = [.move [8] 3, .setRead [7] true, .setFlagged [7] true, .move [7] 2] ∧
    deeds 7 (apply oneOffice office 1 theInbox
      [mailFrom 7 "a@b.example", mailFrom 8 "x@spam.example"]).1.calls
        = fate oneOffice (work oneOffice office 1 theInbox) (mailFrom 7 "a@b.example") :=
  ⟨by decide, deeds_apply (m := mailFrom 7 "a@b.example") (by decide) List.mem_cons_self (by decide)⟩

end Apply

end FlyMail.Rules
