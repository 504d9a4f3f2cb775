/-
The rules are handed every new mail once.

The mails behind a key go to the rules page by page, and the next page begins behind the last mail of
the page before, whatever has become of that page.  The rules may take away, move and change what they
are handed.  So of the mails behind the last of a page nothing is touched, and they are what comes
behind that page in the list as it was at the start (`newRows_behind`): a page is never shifted by what
was taken away in front of it, and it is short only if nothing comes behind it.
-/
import FlyMail.Lib.Paging
import FlyMail.Lib.While
import FlyMail.Proofs.Suppress

namespace FlyMail

/-! ### A page of a list in ascending order -/

section Ascending

variable {α : Type} {key : α → Nat} {l k : List α}

/-- **What has a larger key than the last of a page comes behind the page.** -/
theorem filter_behind_page (h : l.Pairwise fun a b => key a < key b) {n : Nat} {a : α}
    (ha : (l.take n).getLast? = some a) : l.filter (fun b => decide (key a < key b)) = l.drop n := by
  obtain ⟨before, hbefore⟩ := List.getLast?_eq_some_iff.mp ha
  have hl : l = before ++ a :: l.drop n := by
    conv_lhs => rw [← List.take_append_drop n l, hbefore, List.append_assoc]
    rfl
  have hsorted := h
  rw [hl] at hsorted
  conv_lhs => rw [hl]
  exact @Paging.filter_after α (fun a b => key a < key b) (fun _ _ hab hba => Nat.lt_asymm hab hba) before
    (l.drop n) a hsorted _ fun b => decide_eq_true_iff

/-- Lists in ascending order with the same members are the same. -/
theorem eq_of_ascending (hl : l.Pairwise fun a b => key a < key b) (hk : k.Pairwise fun a b => key a < key b)
    (h : ∀ a, a ∈ l ↔ a ∈ k) : l = k := by
  have hnodup : ∀ {l : List α}, (l.Pairwise fun a b => key a < key b) → l.Nodup := fun hl =>
    hl.imp fun hlt heq => Nat.ne_of_lt hlt (congrArg key heq)
  refine List.Perm.eq_of_pairwise (fun a b _ _ hab hba => absurd hab (Nat.lt_asymm hba)) hl hk ?_
  exact (List.perm_ext_iff_of_nodup (hnodup hl) (hnodup hk)).mpr h

end Ascending

namespace Sync

open Proc FlyMail.Message

variable {κ ρ : Type} {r : RuleRunner κ ρ} {f : Folder} {φ : FolderStmt κ → Fault} {s t : State ρ}

/-! ### What the rules may do -/

/-- The rules bring no mail into the folder and touch none of its mails but those they are handed. -/
def RuleRunner.KeepsToPage (r : RuleRunner κ ρ) : Prop :=
  ∀ f rows fault s,
    (r.apply f.accountID f rows (.faulty fault) s).2.events = s.events ∧
      ∀ m : FlyMail.Message, m.folderID = f.id → (∀ h ∈ rows, h.id ≠ m.id) →
        (m ∈ (r.apply f.accountID f rows (.faulty fault) s).2.db.messages.rows ↔ m ∈ s.db.messages.rows)

theorem newRows_ascending (db : DB) (folderID afterID : Nat) :
    (newRows db folderID afterID).Pairwise fun a b => a.id < b.id := db.messages.sorted.filter _

theorem mem_newRows {db : DB} {folderID afterID : Nat} {m : FlyMail.Message} :
    m ∈ newRows db folderID afterID ↔ m ∈ db.messages.rows ∧ m.folderID = folderID ∧ afterID < m.id := by
  unfold newRows
  rw [List.mem_filter, Bool.and_eq_true, beq_iff_eq, decide_eq_true_iff]

/-- No more mails are new than keys were handed out. -/
theorem length_newRows_le_last (db : DB) (folderID afterID : Nat) :
    (newRows db folderID afterID).length ≤ db.messages.last := by
  have hnodup : ((newRows db folderID afterID).map FlyMail.Message.id).Nodup :=
    db.messages.nodup_pk List.filter_sublist
  have hsub : (newRows db folderID afterID).map FlyMail.Message.id ⊆ List.range' 1 db.messages.last := by
    intro id hid
    obtain ⟨m, hm, rfl⟩ := List.mem_map.mp hid
    obtain ⟨hmem, -, hlt⟩ := mem_newRows.mp hm
    have hle := db.messages.below m hmem
    rw [List.mem_range'_1]
    omega
  have hle := (List.subperm_of_subset hnodup hsub).length_le
  rwa [List.length_map, List.length_range'] at hle

/-- **Behind a page there is what came behind it before.** -/
theorem newRows_behind {db db' : DB} {folderID afterID n : Nat} {last : FlyMail.Message}
    (hlast : ((newRows db folderID afterID).take n).getLast? = some last)
    (h : ∀ m : FlyMail.Message, m.folderID = folderID →
      (∀ h ∈ (newRows db folderID afterID).take n, h.id ≠ m.id) →
        (m ∈ db'.messages.rows ↔ m ∈ db.messages.rows)) :
    newRows db' folderID last.id = (newRows db folderID afterID).drop n := by
  have hsorted := newRows_ascending db folderID afterID
  have hdrop := filter_behind_page hsorted hlast
  rw [← hdrop]
  refine eq_of_ascending (newRows_ascending db' folderID last.id) (hsorted.filter _) fun m => ?_
  obtain ⟨before, hbefore⟩ := List.getLast?_eq_some_iff.mp hlast
  have hpage : ∀ h ∈ (newRows db folderID afterID).take n, h.id ≤ last.id := by
    have hascending := hsorted.sublist (List.take_sublist n _)
    rw [hbefore, List.pairwise_append] at hascending
    intro h hh
    rw [hbefore] at hh
    rcases List.mem_append.mp hh with hh | hh
    · exact Nat.le_of_lt (hascending.2.2 h hh last List.mem_cons_self)
    · rw [List.mem_singleton.mp hh]
  have hafter : afterID < last.id := by
    have hmem : last ∈ newRows db folderID afterID := List.mem_of_mem_take (List.mem_of_getLast? hlast)
    exact (mem_newRows.mp hmem).2.2
  rw [List.mem_filter, mem_newRows, mem_newRows, decide_eq_true_iff]
  have huntouched : m.folderID = folderID → last.id < m.id → (m ∈ db'.messages.rows ↔ m ∈ db.messages.rows) :=
    fun hfolder hlt => h m hfolder fun h hh heq => by
      have hle := hpage h hh
      omega
  constructor
  · rintro ⟨hmem, hfolder, hlt⟩
    exact ⟨⟨(huntouched hfolder hlt).mp hmem, hfolder, hafter.trans hlt⟩, hlt⟩
  · rintro ⟨⟨hmem, hfolder, -⟩, hlt⟩
    exact ⟨(huntouched hfolder hlt).mpr hmem, hfolder, hlt⟩

/-! ### A pass -/

/-- One pass of the loop: a page is loaded and handed to the rules. The loop is left with an answer, or
goes on behind the page. -/
def rulePage (r : RuleRunner κ ρ) (f : Folder) (page afterID : Nat) (changed : Bool) :
    FolderProg κ ρ ((Bool × Option Message.Err) ⊕ (Nat × Bool)) := do
  let rows ← attempt (queryDB (.listPage page) .db fun db =>
    Repository.listAfterID db f.id afterID ruleBatchCap)
  match rows with
  | .error e => pure (.inl (changed, some e))
  | .ok rows =>
      match rows.getLast? with
      | none => pure (.inl (changed, none))
      | some last => do
          record (.rules rows)
          let c ← attempt (relabel (FolderStmt.apply page) (r.apply f.accountID f rows))
          match c with
          | .error e => pure (.inl (changed, some e))
          | .ok c =>
              if rows.length < ruleBatchCap then pure (.inl (changed || c, none))
              else pure (.inr (last.id, changed || c))

theorem runRules_succ (fuel page afterID : Nat) (changed : Bool) :
    runRules r f (fuel + 1) page afterID changed =
      rulePage r f page afterID changed >>= Sum.elim pure fun x => runRules r f fuel (page + 1) x.1 x.2 := by
  unfold rulePage
  rw [runRules, Proc.bind_assoc]
  congr 1
  funext rows
  cases rows with
  | error e => rfl
  | ok rows =>
      dsimp only
      cases rows.getLast? with
      | none => rfl
      | some last =>
          dsimp only
          rw [Proc.bind_assoc]
          congr 1
          funext _
          rw [Proc.bind_assoc]
          congr 1
          funext c
          cases c with
          | error e => rfl
          | ok c =>
              dsimp only
              split
              · rfl
              · rfl

/-- The page that is handed to the rules. -/
abbrev handed (db : DB) (f : Folder) (afterID : Nat) : List FlyMail.Message :=
  (newRows db f.id afterID).take ruleBatchCap

/-- The ways a pass goes. -/
inductive PageCase (r : RuleRunner κ ρ) (f : Folder) (φ : FolderStmt κ → Fault) (page afterID : Nat) (s : State ρ) :
    Outcome Message.Err ((Bool × Option Message.Err) ⊕ (Nat × Bool)) × State ρ → Prop
  /-- The page could not be loaded. -/
  | unlisted {out} (hout : ∀ c, out ≠ .ok (.inl (c, none))) (hstop : ∀ x, out ≠ .ok (.inr x))
      (hfault : φ (.listPage page) ≠ .none) : PageCase r f φ page afterID s (out, s)
  /-- There is nothing more. -/
  | exhausted {c : Bool} (h : newRows s.db f.id afterID = []) : PageCase r f φ page afterID s (.ok (.inl (c, none)), s)
  /-- The rules failed. -/
  | unapplied {out} {t : State ρ} (hne : handed s.db f afterID ≠ []) (hout : ∀ c, out ≠ .ok (.inl (c, none)))
      (hstop : ∀ x, out ≠ .ok (.inr x)) (hevents : t.events = s.events ++ [.rules (handed s.db f afterID)])
      (hfault : ∃ u, ∀ c, (r.apply f.accountID f (handed s.db f afterID)
        (.faulty fun i => φ (.apply page i)) u).1 ≠ .ok c) :
      PageCase r f φ page afterID s (out, t)
  /-- The page was not full: it was the last. -/
  | last {c : Bool} {t : State ρ} (hne : handed s.db f afterID ≠ [])
      (hevents : t.events = s.events ++ [.rules (handed s.db f afterID)])
      (h : (newRows s.db f.id afterID).drop ruleBatchCap = []) : PageCase r f φ page afterID s (.ok (.inl (c, none)), t)
  /-- The page was full, and the next one is what came behind it. -/
  | more {m : FlyMail.Message} {c : Bool} {t : State ρ} (hne : handed s.db f afterID ≠ [])
      (hevents : t.events = s.events ++ [.rules (handed s.db f afterID)])
      (h : newRows t.db f.id m.id = (newRows s.db f.id afterID).drop ruleBatchCap) :
      PageCase r f φ page afterID s (.ok (.inr (m.id, c)), t)

theorem rulePage_cases (hr : r.KeepsToPage) (page afterID : Nat) (changed : Bool) (s : State ρ) :
    PageCase r f φ page afterID s (rulePage r f page afterID changed (.faulty φ) s) := by
  have hquery : queryDB (FolderStmt.listPage page) Message.Err.db
      (fun db => Repository.listAfterID db f.id afterID ruleBatchCap) (.faulty φ) s = _ := query_faulty _ _ _ s
  unfold rulePage
  cases hlist : φ (.listPage page) with
  | fail =>
      rw [hlist] at hquery
      rw [bind_ok (attempt_err hquery)]
      exact .unlisted (fun c h => by cases h) (fun x h => by cases h) (by rw [hlist]; decide)
  | crash =>
      rw [hlist] at hquery
      rw [bind_dead (attempt_dead hquery)]
      exact .unlisted (fun c h => by cases h) (fun x h => by cases h) (by rw [hlist]; decide)
  | none =>
      rw [hlist] at hquery
      have hpage : attempt (queryDB (FolderStmt.listPage page) Message.Err.db
          fun db => Repository.listAfterID db f.id afterID ruleBatchCap) (.faulty φ) s
            = (.ok (.ok (handed s.db f afterID)), s) := attempt_ok hquery
      rw [bind_ok hpage]
      dsimp only
      cases hlast : (handed s.db f afterID).getLast? with
      | none =>
          have hnil := List.getLast?_eq_none_iff.mp hlast
          exact .exhausted ((List.take_eq_nil_iff.mp hnil).resolve_left (by decide))
      | some last =>
          have hne : handed s.db f afterID ≠ [] := by
            intro hnil
            rw [hnil] at hlast
            cases hlast
          let s₁ : State ρ := { s with events := s.events ++ [.rules (handed s.db f afterID)] }
          have hrecord : (record (.rules (handed s.db f afterID)) : FolderProg κ ρ Unit) (.faulty φ) s = (.ok (), s₁) :=
            rfl
          obtain ⟨hevents, hrows⟩ := hr f (handed s.db f afterID) (fun i => φ (.apply page i)) s₁
          dsimp only
          rw [bind_ok hrecord]
          cases happly : r.apply f.accountID f (handed s.db f afterID) (.faulty fun i => φ (.apply page i)) s₁ with
          | mk out t =>
              rw [happly] at hevents hrows
              have hrun : relabel (FolderStmt.apply page) (r.apply f.accountID f (handed s.db f afterID)) (.faulty φ) s₁
                  = (out, t) := happly
              cases out with
              | ok c =>
                  rw [bind_ok (attempt_ok hrun)]
                  dsimp only
                  split
                  · rename_i hshort
                    refine .last hne hevents (List.drop_eq_nil_of_le ?_)
                    have hlen : (handed s.db f afterID).length = min ruleBatchCap (newRows s.db f.id afterID).length :=
                      List.length_take
                    omega
                  · exact .more hne hevents (newRows_behind hlast hrows)
              | err e =>
                  rw [bind_ok (attempt_err hrun)]
                  exact .unapplied hne (fun c h => by cases h) (fun x h => by cases h) hevents
                    ⟨s₁, fun c hc => by rw [happly] at hc; cases hc⟩
              | dead =>
                  rw [bind_dead (attempt_dead hrun)]
                  exact .unapplied hne (fun c h => by cases h) (fun x h => by cases h) hevents
                    ⟨s₁, fun c hc => by rw [happly] at hc; cases hc⟩

/-! ### The loop -/

/-- The loop on its way. -/
structure RuleWalk (ρ : Type) where
  page : Nat
  afterID : Nat
  changed : Bool
  store : State ρ

/-- A pass, as a step of the loop. -/
def rulePass (r : RuleRunner κ ρ) (f : Folder) (env : Env (FolderStmt κ) (State ρ)) (w : RuleWalk ρ) :
    (Outcome Message.Err (Bool × Option Message.Err) × State ρ) ⊕ RuleWalk ρ :=
  match rulePage r f w.page w.afterID w.changed env w.store with
  | (.ok (.inl a), t) => .inl (.ok a, t)
  | (.ok (.inr x), t) => .inr ⟨w.page + 1, x.1, x.2, t⟩
  | (.err e, t) => .inl (.err e, t)
  | (.dead, t) => .inl (.dead, t)

section Run

variable {env : Env (FolderStmt κ) (State ρ)} {fuel page afterID : Nat} {changed : Bool}

theorem runRules_of_more {x : Nat × Bool} (h : rulePage r f page afterID changed env s = (.ok (.inr x), t)) :
    runRules r f (fuel + 1) page afterID changed env s = runRules r f fuel (page + 1) x.1 x.2 env t := by
  rw [runRules_succ]
  exact bind_ok h

/-- A pass that goes on. -/
theorem rulePage_of_inr {w w' : RuleWalk ρ} (h : rulePass r f env w = .inr w') :
    ∃ x t, rulePage r f w.page w.afterID w.changed env w.store = (.ok (.inr x), t) ∧
      w' = ⟨w.page + 1, x.1, x.2, t⟩ := by
  unfold rulePass at h
  split at h
  · cases h
  · rename_i x t hpage
    exact ⟨x, t, hpage, (Sum.inr.inj h).symm⟩
  · cases h
  · cases h

/-- A pass that leaves the loop. -/
theorem runRules_of_inl {w : RuleWalk ρ} {a : Outcome Message.Err (Bool × Option Message.Err) × State ρ}
    (h : rulePass r f env w = .inl a) :
    runRules r f (fuel + 1) w.page w.afterID w.changed env w.store = a := by
  unfold rulePass at h
  rw [runRules_succ, bind_apply]
  split at h
  · rename_i a t hpage
    rw [hpage]
    exact Sum.inl.inj h
  · cases h
  · rename_i e t hpage
    rw [hpage]
    exact Sum.inl.inj h
  · rename_i t hpage
    rw [hpage]
    exact Sum.inl.inj h

/-- How a run ends whose pass leaves the loop. -/
theorem runRules_of_stop {out} (h : rulePage r f page afterID changed env s = (out, t))
    (hstop : ∀ x, out ≠ .ok (.inr x)) :
    (runRules r f (fuel + 1) page afterID changed env s).2 = t ∧
      ∀ c, (runRules r f (fuel + 1) page afterID changed env s).1 = .ok (c, none) ↔ out = .ok (.inl (c, none)) := by
  rw [runRules_succ, bind_apply, h]
  cases out with
  | ok x =>
      cases x with
      | inl a => exact ⟨rfl, fun c => ⟨fun ha => by cases ha; rfl, fun ha => by cases ha; rfl⟩⟩
      | inr x => exact absurd rfl (hstop x)
  | err e => exact ⟨rfl, fun c => ⟨fun ha => (by cases ha), fun ha => (by cases ha)⟩⟩
  | dead => exact ⟨rfl, fun c => ⟨fun ha => (by cases ha), fun ha => (by cases ha)⟩⟩

/-- **The loop ends**, and does not run for longer than there are mails. -/
theorem loop_rulePass (hr : r.KeepsToPage) (fuel : Nat) (w : RuleWalk ρ)
    (hfuel : (newRows w.store.db f.id w.afterID).length < fuel) :
    loop (rulePass r f (.faulty φ)) w =
      Part.some (runRules r f fuel w.page w.afterID w.changed (.faulty φ) w.store) := by
  refine @loop_eq_some _ _ (rulePass r f (.faulty φ)) (fun _ => True)
    (fun w => (newRows w.store.db f.id w.afterID).length)
    (fun n w => runRules r f n w.page w.afterID w.changed (.faulty φ) w.store) ?_ ?_ ?_ fuel w trivial hfuel
  · intro w w' _ h
    obtain ⟨x, t, hpage, rfl⟩ := rulePage_of_inr h
    have hcase := @rulePage_cases κ ρ r f φ hr w.page w.afterID w.changed w.store
    rw [hpage] at hcase
    cases hcase with
    | unlisted _ hstop _ => exact absurd rfl (hstop x)
    | unapplied _ _ hstop _ _ => exact absurd rfl (hstop x)
    | more hne _ hnext =>
        refine ⟨trivial, ?_⟩
        have hpos := List.length_pos_iff.mpr hne
        rw [List.length_take] at hpos
        show (newRows t.db f.id _).length < (newRows w.store.db f.id w.afterID).length
        rw [hnext, List.length_drop]
        omega
  · exact fun n w a h => runRules_of_inl h
  · intro n w w' h
    obtain ⟨x, t, hpage, rfl⟩ := rulePage_of_inr h
    exact runRules_of_more hpage

/-! ### What is handed to the rules -/

/-- No call fails, whatever the rules are handed. -/
def CallsReturn (r : RuleRunner κ ρ) (f : Folder) (φ : FolderStmt κ → Fault) : Prop :=
  (∀ page, φ (.listPage page) = .none) ∧
    ∀ page rows u, ∃ c, (r.apply f.accountID f rows (.faulty fun i => φ (.apply page i)) u).1 = .ok c

/-- A run that hands these pages to the rules: they are the first of the new mails, each once, and all
of them where no call fails. -/
structure Hands (r : RuleRunner κ ρ) (f : Folder) (φ : FolderStmt κ → Fault) (afterID : Nat) (s : State ρ)
    (run : Outcome Message.Err (Bool × Option Message.Err) × State ρ) (pages : List (List FlyMail.Message)) : Prop where
  events : run.2.events = s.events ++ pages.map Event.rules
  sizes : ∀ p ∈ pages, p ≠ [] ∧ p.length ≤ ruleBatchCap
  first : pages.flatten <+: newRows s.db f.id afterID
  /-- The run tells of no error only if it came to the end. -/
  whole : ∀ c, run.1 = .ok (c, none) → pages.flatten = newRows s.db f.id afterID
  returns : CallsReturn r f φ → ∃ c, run.1 = .ok (c, none)

theorem hands_runRules (hr : r.KeepsToPage) (fuel : Nat) : ∀ page afterID changed (s : State ρ),
    (newRows s.db f.id afterID).length < fuel →
      ∃ pages, Hands r f φ afterID s (runRules r f fuel page afterID changed (.faulty φ) s) pages := by
  induction fuel with
  | zero => exact fun _ _ _ _ hfuel => absurd hfuel (Nat.not_lt_zero _)
  | succ fuel ih =>
      intro page afterID changed s hfuel
      have hcase := @rulePage_cases κ ρ r f φ hr page afterID changed s
      cases hpage : rulePage r f page afterID changed (.faulty φ) s with
      | mk out t =>
          rw [hpage] at hcase
          have hfirst : [handed s.db f afterID].flatten <+: newRows s.db f.id afterID := by
            rw [List.flatten_singleton]
            exact List.take_prefix _ _
          have hsize : handed s.db f afterID ≠ [] → ∀ p ∈ [handed s.db f afterID], p ≠ [] ∧ p.length ≤ ruleBatchCap := by
            intro hne p hp
            rw [List.mem_singleton.mp hp]
            exact ⟨hne, List.length_take_le _ _⟩
          have hall := List.take_append_drop ruleBatchCap (newRows s.db f.id afterID)
          cases hcase with
          | unlisted hout hstop hfault =>
              obtain ⟨hleft, hends⟩ := @runRules_of_stop _ _ _ _ _ _ _ fuel _ _ _ _ hpage hstop
              refine ⟨[], by rw [hleft]; exact (List.append_nil _).symm, fun p hp => absurd hp List.not_mem_nil,
                List.nil_prefix, fun c hc => absurd ((hends c).mp hc) (hout c), fun hcalls => ?_⟩
              exact absurd (hcalls.1 page) hfault
          | exhausted hnone =>
              rename_i c
              obtain ⟨hleft, hends⟩ := @runRules_of_stop _ _ _ _ _ _ _ fuel _ _ _ _ hpage fun x h => by cases h
              exact ⟨[], by rw [hleft]; exact (List.append_nil _).symm, fun p hp => absurd hp List.not_mem_nil,
                List.nil_prefix, fun _ _ => hnone.symm, fun _ => ⟨c, (hends c).mpr rfl⟩⟩
          | unapplied hne hout hstop hevents hfault =>
              obtain ⟨hleft, hends⟩ := @runRules_of_stop _ _ _ _ _ _ _ fuel _ _ _ _ hpage hstop
              refine ⟨[handed s.db f afterID], by rw [hleft]; exact hevents, hsize hne, hfirst,
                fun c hc => absurd ((hends c).mp hc) (hout c), fun hcalls => ?_⟩
              obtain ⟨u, hu⟩ := hfault
              obtain ⟨c, hc⟩ := hcalls.2 page (handed s.db f afterID) u
              exact absurd hc (hu c)
          | last hne hevents hrest =>
              rename_i c
              obtain ⟨hleft, hends⟩ := @runRules_of_stop _ _ _ _ _ _ _ fuel _ _ _ _ hpage fun x h => by cases h
              refine ⟨[handed s.db f afterID], by rw [hleft]; exact hevents, hsize hne, hfirst, fun _ _ => ?_,
                fun _ => ⟨c, (hends c).mpr rfl⟩⟩
              rw [hrest, List.append_nil] at hall
              rw [List.flatten_singleton]
              exact hall
          | more hne hevents hnext =>
              rename_i m c
              have hpos := List.length_pos_iff.mpr hne
              rw [List.length_take] at hpos
              have hless : (newRows t.db f.id m.id).length < fuel := by
                rw [hnext, List.length_drop]
                omega
              obtain ⟨pages, hpages⟩ := ih (page + 1) m.id c t hless
              rw [runRules_of_more hpage]
              refine ⟨handed s.db f afterID :: pages, ?_, ?_, ?_, fun d hd => ?_, hpages.returns⟩
              · rw [hpages.events, hevents, List.append_assoc]
                rfl
              · intro p hp
                rcases List.mem_cons.mp hp with rfl | hp
                · exact hsize hne _ List.mem_cons_self
                · exact hpages.sizes p hp
              · have hrest := hpages.first
                rw [hnext] at hrest
                rw [List.flatten_cons, ← hall]
                exact (List.prefix_append_right_inj _).mpr hrest
              · rw [List.flatten_cons, hpages.whole d hd, hnext, hall]

end Run

/-- **Every new mail is handed to the rules once.**  The loop ends, and where no call fails the pages are
the mails behind the key as they were at the start, in ascending order. -/
theorem runRules_visits (r : RuleRunner κ ρ) (hr : r.KeepsToPage) (f : Folder) (φ : FolderStmt κ → Fault)
    (afterID : Nat) (s : State ρ) :
    ∃ run, ∃ pages : List (List FlyMail.Message),
      loop (rulePass r f (.faulty φ)) ⟨0, afterID, false, s⟩ = Part.some run ∧
      runRules r f (s.db.messages.last + 1) 0 afterID false (.faulty φ) s = run ∧
      run.2.events = s.events ++ pages.map Event.rules ∧ (∀ p ∈ pages, p ≠ [] ∧ p.length ≤ ruleBatchCap) ∧
      pages.flatten.Pairwise (fun a b => a.id < b.id) ∧ (CallsReturn r f φ → ∃ c, run.1 = .ok (c, none)) ∧
      ((∃ c, run.1 = .ok (c, none)) → ∀ m, m ∈ pages.flatten ↔
        m ∈ s.db.messages.rows ∧ m.folderID = f.id ∧ afterID < m.id) := by
  have hfuel := Nat.lt_succ_of_le (length_newRows_le_last s.db f.id afterID)
  obtain ⟨pages, hpages⟩ := @hands_runRules _ _ r f φ hr (s.db.messages.last + 1) 0 afterID false s hfuel
  refine ⟨_, pages, loop_rulePass hr _ ⟨0, afterID, false, s⟩ hfuel, rfl, hpages.events, hpages.sizes,
    (newRows_ascending s.db f.id afterID).sublist hpages.first.sublist, hpages.returns, ?_⟩
  rintro ⟨c, hc⟩ m
  rw [hpages.whole c hc, mem_newRows]

/-- Rules that take away all they are handed. -/
def emptier : RuleRunner Unit Unit where
  apply _ _ rows := fun _ s =>
    (.ok true, { s with db := Repository.deleteByIDs (rows.map FlyMail.Message.id) s.db })
  handled _ _ := pure []

theorem keepsToPage_emptier : emptier.KeepsToPage := by
  refine fun f rows fault s => ⟨rfl, fun m _ hother => ?_⟩
  have hnot : (rows.map FlyMail.Message.id).contains m.id = false := by
    rw [Bool.eq_false_iff]
    intro hmem
    obtain ⟨h, hh, heq⟩ := List.mem_map.mp (List.contains_iff_mem.mp hmem)
    exact hother h hh heq
  show m ∈ (s.db.messages.delete _).rows ↔ _
  rw [Table.mem_delete]
  exact and_iff_left hnot

/-- A mail that is new. -/
def oneNewMail : State Unit where
  db := { DB.empty with messages := .single (.bare 5 1 2 (.numbered 7)) }
  bodies := ⟨[], []⟩
  seen := []
  notices := []
  events := []
  rules := ()

theorem runRules_visits_emptier : emptier.KeepsToPage ∧
    ∃ run, ∃ pages : List (List FlyMail.Message),
      loop (rulePass emptier (.bare 2 1 [] .inbox) (.faulty fun _ => .none)) ⟨0, 4, false, oneNewMail⟩
        = Part.some run ∧
      run.2.events = pages.map Event.rules ∧ FlyMail.Message.bare 5 1 2 (.numbered 7) ∈ pages.flatten := by
  refine ⟨keepsToPage_emptier, ?_⟩
  obtain ⟨run, pages, hloop, -, hevents, -, -, hreturns, hmem⟩ :=
    runRules_visits emptier keepsToPage_emptier (.bare 2 1 [] .inbox) (fun _ => .none) 4 oneNewMail
  have hreturn := hreturns ⟨fun _ => rfl, fun _ _ _ => ⟨true, rfl⟩⟩
  exact ⟨run, pages, hloop, hevents, (hmem hreturn _).mpr ⟨List.mem_cons_self, rfl, by decide⟩⟩

end Sync

end FlyMail
