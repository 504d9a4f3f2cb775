/-
Mails that come in reach the rules.

A mail that comes into an inbox after the first round is to go through the rules.  A round counts the
rows before and after it fetches, and if there are more it hands those to the rules whose key is larger
than any key of before.  Meanwhile a command to the server can fail, which ends the round with what was
stored so far, and the user can take rows away at any statement.  Between rounds a search stores mails.

A mail that has a row when a round begins is not new to it.  So what a round stored before it broke off
is never handed to the rules, nor is what a search found first; and a round in which as many rows went
as came hands over nothing.  `Inbox.missed` collects the mails this happens to, and `Heeds` says of a
step that it is none of this.
-/
import FlyMail.Proofs.History
import FlyMail.Proofs.Prefetch
import FlyMail.Proofs.RulePages

namespace FlyMail

namespace Message

open Proc

/-! ### The two parts of fetching -/

section Parts

variable {ι σ : Type} [HasDB σ]

/-- `incrementalSync` up to its second count, where the folder is the one it was and the server says
which UID comes next. -/
def fetchRound (digest : Text → Text) (syncDepth : Nat) (at_ : SyncStmt → ι) (c : Session)
    (accountID folderID : Nat) (path : Text) (prevUIDNext : Nat) : Proc ι Err σ (Nat × Nat) := do
  let sel ← ask (at_ .select) (c.selectFolder path)
  let before ← withDefault
    (queryDB (at_ .countBefore) .db fun db => Repository.countByFolder db folderID) 0
  let afterID ← withDefault
    (queryDB (at_ .maxIDBefore) .db fun db => Repository.maxIDByFolder db folderID) 0
  fetchNew digest syncDepth at_ c accountID folderID path prevUIDNext sel.numMessages sel.uidNext
  pure (before, afterID)

/-- The rest of `incrementalSync`. -/
def countRound (at_ : SyncStmt → ι) (folderID uidValidity uidNext prevUIDNext before afterID : Nat) :
    Proc ι Err σ (FolderState × NewMail) := do
  let total ← withDefault
    (queryDB (at_ .countAfter) .db fun db => Repository.countByFolder db folderID) 0
  let unread ← withDefault
    (queryDB (at_ .unreadAfter) .db fun db => Repository.unreadCountByFolder db folderID) 0
  let nm ← newMail at_ folderID prevUIDNext before afterID total
  let state ← folderState at_ folderID uidValidity uidNext total unread
  pure (state, nm)

omit [HasDB σ] in
theorem ask_bind {α β : Type} {i : ι} {answer : α} {f g : α → Proc ι Err σ β} (h : f answer = g answer) :
    (ask i answer >>= f) = (ask i answer >>= g) := by
  funext env s
  rw [bind_apply, bind_apply]
  unfold ask
  cases hf : env.fault i with
  | none => rw [query_none hf]; exact congrFun (congrFun h env) _
  | fail => rw [query_fail hf]
  | crash => rw [query_crash hf]

theorem incrementalSync_eq (digest : Text → Text) (syncDepth : Nat) (at_ : SyncStmt → ι) {c : Session}
    (accountID folderID : Nat) {path : Text} {prevUIDValidity : Nat} (prevUIDNext : Nat)
    (hsaid : (c.selectFolder path).uidValidity ≠ 0)
    (hsame : (c.selectFolder path).uidValidity = prevUIDValidity) (hnext : (c.selectFolder path).uidNext ≠ 0) :
    (incrementalSync digest syncDepth at_ c accountID folderID path prevUIDValidity prevUIDNext :
        Proc ι Err σ _) =
      fetchRound digest syncDepth at_ c accountID folderID path prevUIDNext >>= fun b =>
        countRound at_ folderID (c.selectFolder path).uidValidity (c.selectFolder path).uidNext prevUIDNext
          b.1 b.2 := by
  unfold incrementalSync fetchRound
  rw [bind_assoc]
  refine ask_bind ?_
  have hvalidity : ∀ i status, (reported i (c.selectFolder path).uidValidity status : Proc ι Err σ Nat) =
      pure (c.selectFolder path).uidValidity := fun _ _ => if_neg hsaid
  have huidNext : ∀ i status, (reported i (c.selectFolder path).uidNext status : Proc ι Err σ Nat) =
      pure (c.selectFolder path).uidNext := fun _ _ => if_neg hnext
  rw [hvalidity]
  show (if _ then _ else _) = _
  rw [if_neg fun h => h.2.2 hsame, huidNext]
  simp only [bind_assoc]
  rfl

/-- Where the anchor is known, what is new is one range. -/
theorem fetchNew_eq (digest : Text → Text) (syncDepth : Nat) (at_ : SyncStmt → ι) (c : Session)
    (accountID folderID : Nat) (path : Text) {prevUIDNext : Nat} (numMessages : Nat) {uidNext : Nat}
    (hprev : prevUIDNext ≠ 0) (hle : prevUIDNext ≤ uidNext) :
    (fetchNew digest syncDepth at_ c accountID folderID path prevUIDNext numMessages uidNext : Proc ι Err σ Unit) =
      fetchBatched digest at_ accountID folderID (c.fetchByUIDRange path) prevUIDNext (uidNext - 1) := by
  unfold fetchNew anchorFor
  rw [if_pos (by omega), if_neg hprev]
  show (if _ then _ else _) = _
  split
  · rfl
  · have hnone : uidNext - 1 + 1 - prevUIDNext = 0 := by omega
    unfold fetchBatched
    rw [hnone]
    rfl

end Parts

end Message


namespace Sync

open Proc FlyMail.Message

variable {κ ρ : Type}

/-! ### What happens to an inbox -/

/-- Rows were taken away. -/
structure Takes (s t : State ρ) : Prop where
  fewer : Fewer s.db t.db
  last : t.db.messages.last = s.db.messages.last
  folders : t.db.folders = s.db.folders
  events : t.events = s.events

/-- The statement is a command to the server. -/
def FolderStmt.overNetwork : FolderStmt κ → Bool
  | .sync .select => true
  | .sync (.batch _ .fetch) => true
  | .selectBodies => true
  | .fetchBodies _ => true
  | _ => false

/-- The batch could be fetched. -/
def fetches (fault : FolderStmt κ → Fault) (b : Nat × Nat) : Bool :=
  fault (.sync (.batch b.1 .fetch)) == .none

/-- The batches a round asks for. -/
def asked (c : Session) (f : Folder) : List (Nat × Nat) :=
  rangesOf f.uidNext ((c.selectFolder f.path).uidNext - 1)

/-- The UIDs of what a round fetches, up to the command that fails. -/
def fetchedBy (fault : FolderStmt κ → Fault) (c : Session) (f : Folder) : List Nat :=
  if fault (.sync .select) = .none then
    ((asked c f).takeWhile (fetches fault)).flatMap fun b =>
      (c.fetchByUIDRange f.path b.1 b.2).map fun e => e.uid.val
  else []

/-- A command of the fetch fails. -/
def breaksOff (fault : FolderStmt κ → Fault) (c : Session) (f : Folder) : Bool :=
  fault (.sync .select) != .none || !(asked c f).all (fetches fault)

/-- The rules were handed the mail. -/
def passed (events : List Event) (uid : Nat) : Bool :=
  events.any fun e =>
    match e with
    | .rules page => page.any fun m => m.uid.val == uid
    | .notify _ => false

/-- The mail has a row in the folder. -/
def inFolder (db : DB) (folderID uid : Nat) : Bool :=
  db.messages.rows.any fun m => m.folderID == folderID && m.uid.val == uid

/-- An inbox over time, and what its rounds fetched. -/
structure Inbox (ρ : Type) where
  state : State ρ
  /-- The UIDs fetched since the last round that came to its end, without those the rules were handed. -/
  owed : List Nat
  /-- The UIDs that a round which came to its end still owed, and that had a row when its rules were through. -/
  missed : List Nat

inductive Arrival (κ ρ : Type)
  | round (c : FullSession) (now : Time) (env : Env (FolderStmt κ) (State ρ))
  | user (change : State ρ → State ρ)
  /-- What a search on the server found is stored. -/
  | search (results : List FetchedEmail) (fault : Nat × SearchStmt → Fault)

/-- A round up to the end of its rules. -/
def Manager.ruleFolder (m : Manager κ ρ) (f : Folder) (c : FullSession) : FolderProg κ ρ (FolderState × NewMail) :=
  m.fetchFolder f c >>= fun a => applyRules m.rules f a.1 a.2

/-- A round. Mails from below `base` were there before. -/
def Inbox.round (m : Manager κ ρ) (base : Nat) (w : Inbox ρ) (f : Folder) (c : FullSession) (now : Time)
    (env : Env (FolderStmt κ) (State ρ)) : Inbox ρ :=
  let out := m.syncFolder f c now env w.state
  -- The rows as the rules are through: what is taken away later was there for them.
  let ruled := (m.ruleFolder f c env w.state).2.db
  let fetched := (fetchedBy env.fault c.toSession f).filter fun uid => decide (base ≤ uid)
  let owed := (w.owed ∪ fetched).filter fun uid => !passed out.2.events uid
  match out.1 with
  | .ok _ => ⟨out.2, [], w.missed ++ owed.filter fun uid => inFolder ruled f.id uid⟩
  | _ => ⟨out.2, owed, w.missed⟩

def Inbox.step (m : Manager κ ρ) (folderID base : Nat) (w : Inbox ρ) : Arrival κ ρ → Option (Inbox ρ)
  | .round c now env =>
      (Folder.Repository.getByID w.state.db folderID).map fun f => w.round m base f c now env
  | .user change => some { w with state := change w.state }
  | .search results fault =>
      (Folder.Repository.getByID w.state.db folderID).map fun f =>
        { w with
          state := (storeResults m.digest Prod.mk f.accountID f.id 0 results (.faulty fault) w.state).2 }

/-- The server has the mailbox it had, its UIDNEXT does not go down, and it sends what it is asked for. -/
structure Serves (c : Session) (f : Folder) : Prop where
  same : (c.selectFolder f.path).uidValidity = f.uidValidity
  next : f.uidNext ≤ (c.selectFolder f.path).uidNext
  fits : (c.selectFolder f.path).uidNext < 2 ^ 32
  range : ∀ a b, ∀ e ∈ c.fetchByUIDRange f.path a b, b ≠ 0 → a ≤ e.uid.val ∧ e.uid.val ≤ b

/-- The user takes rows away, and of what a round does only commands to the server fail. -/
structure Interrupted (env : Env (FolderStmt κ) (State ρ)) : Prop where
  user : ∀ i s, Takes s (env.meddle i s)
  network : ∀ i, i.overNetwork = false → env.fault i = .none
  alive : ∀ i, env.fault i ≠ .crash

/-- What can happen to the inbox. -/
def Inbox.can (folderID : Nat) (w : Inbox ρ) : Arrival κ ρ → Prop
  | .round c _ env =>
      Interrupted env ∧ ∀ f, Folder.Repository.getByID w.state.db folderID = some f → Serves c.toSession f
  | .user change => Takes w.state (change w.state)
  | .search _ _ => True

/-! ### When nothing is missed -/

/-- The state as a round counts first. -/
def atFirstCount (env : Env (FolderStmt κ) (State ρ)) (s : State ρ) : State ρ :=
  env.meddle (.sync .countBefore) (env.meddle (.sync .select) s)

/-- The state as a round counts again. -/
def Manager.atSecondCount (m : Manager κ ρ) (f : Folder) (c : Session) (env : Env (FolderStmt κ) (State ρ))
    (s : State ρ) : State ρ :=
  env.meddle (.sync .countAfter)
    (fetchRound m.digest m.syncDepth FolderStmt.sync c f.accountID f.id f.path f.uidNext env s).2

/-- The rows of the folder that are gone. -/
def gone (d d' : DB) (folderID : Nat) : List FlyMail.Message :=
  d.messages.rows.filter fun m => m.folderID == folderID && !d'.messages.rows.any fun r => r.id == m.id

/-- While the round fetches, fewer rows go than new ones are there in the end, or there are none. -/
def Manager.Gains (m : Manager κ ρ) (f : Folder) (c : Session) (env : Env (FolderStmt κ) (State ρ))
    (s : State ρ) : Prop :=
  let d := (atFirstCount env s).db
  let d' := (m.atSecondCount f c env s).db
  newRows d' f.id d.messages.last = [] ∨
    (gone d d' f.id).length < (newRows d' f.id d.messages.last).length

/-- The rules do not fail on a page with more behind it. -/
def RuleRunner.GoesOn (r : RuleRunner κ ρ) (f : Folder) (env : Env (FolderStmt κ) (State ρ)) : Prop :=
  ∀ page afterID u, (newRows u.db f.id afterID).drop ruleBatchCap ≠ [] →
    ∃ c, (relabel (FolderStmt.apply page)
      (r.apply f.accountID f ((newRows u.db f.id afterID).take ruleBatchCap)) env u).1 = .ok c

/-- No mail is missed by this: a round breaks off only before it fetches a mail the rules were not handed,
it finds more rows than before if it brings any, and the rules go on; and a search stores only mails from
below the anchor, or such that the rules were handed. -/
def Inbox.Heeds (m : Manager κ ρ) (r : RuleRunner κ ρ) (folderID : Nat) (w : Inbox ρ) : Arrival κ ρ → Prop
  | .round c _ env => ∀ f, Folder.Repository.getByID w.state.db folderID = some f →
      (breaksOff env.fault c.toSession f = true →
        ∀ uid ∈ fetchedBy env.fault c.toSession f, passed w.state.events uid = true) ∧
        m.Gains f c.toSession env w.state ∧ r.GoesOn f env
  | .user _ => True
  | .search results _ => ∀ f, Folder.Repository.getByID w.state.db folderID = some f →
      ∀ e ∈ results, e.uid.val < f.uidNext ∨ passed w.state.events e.uid.val = true

/-- The first round is over, and no mail has come in since. -/
structure Inbox.Start (folderID base : Nat) (w : Inbox ρ) : Prop where
  row : ∃ f, Folder.Repository.getByID w.state.db folderID = some f ∧ f.type = .inbox ∧
    f.uidValidity ≠ 0 ∧ f.uidNext = base
  pos : 0 < base
  rows : ∀ m ∈ w.state.db.messages.rows, m.folderID = folderID → m.uid.val < base
  owed : w.owed = []
  missed : w.missed = []

end Sync

namespace Sync

open Proc FlyMail.Message

variable {κ ρ : Type}

/-- The rules take mails away, also while the user does. -/
def RuleRunner.OnlyTakes (r : RuleRunner κ ρ) : Prop :=
  ∀ s₀ accountID f rows, Keeps (Takes s₀) (r.apply accountID f rows)

/-! ### Rows that go and rows that come -/

section Takes

variable {s t u : State ρ}

theorem Takes.refl (s : State ρ) : Takes s s := ⟨Fewer.refl _, rfl, rfl, rfl⟩

theorem Takes.trans (h : Takes s t) (h' : Takes t u) : Takes s u :=
  ⟨h.fewer.trans h'.fewer, h'.last.trans h.last, h'.folders.trans h.folders, h'.events.trans h.events⟩

theorem coarseOn_takes : CoarseOn (Takes s) := fun _ _ hsame h =>
  ⟨h.fewer.trans (fewer_of_same hsame), hsame.last.trans h.last, hsame.folders.trans h.folders, h.events⟩

end Takes

/-- The rows of `d` are rows of `d₀`, or new ones of the folder for mails with these UIDs. -/
structure Came (uids : List Nat) (folderID : Nat) (d₀ d : DB) : Prop where
  rows : ∀ m ∈ d.messages.rows,
    (∃ m₀ ∈ d₀.messages.rows, m₀.id = m.id ∧ m₀.uid = m.uid ∧ m₀.folderID = m.folderID) ∨
      d₀.messages.last < m.id ∧ m.folderID = folderID ∧ m.uid.val ∈ uids
  last : d₀.messages.last ≤ d.messages.last
  folders : d.folders = d₀.folders

section Came

variable {uids : List Nat} {folderID : Nat} {d₀ d d' : DB}

theorem Came.refl (d : DB) : Came uids folderID d d :=
  ⟨fun m hm => .inl ⟨m, hm, rfl, rfl, rfl⟩, Nat.le_refl _, rfl⟩

/-- Rows may go after others came. -/
theorem Came.fewer (h : Came uids folderID d₀ d) (hfewer : Fewer d d')
    (hlast : d'.messages.last = d.messages.last) (hfolders : d'.folders = d.folders) :
    Came uids folderID d₀ d' := by
  refine ⟨fun m' hm' => ?_, hlast ▸ h.last, hfolders.trans h.folders⟩
  obtain ⟨m, hm, hid, huid, hfolder⟩ := hfewer m' hm'
  rw [← hid, ← huid, ← hfolder]
  exact h.rows m hm

/-- Rows may go before others come. -/
theorem Came.after (h : Came uids folderID d d') (hfewer : Fewer d₀ d)
    (hlast : d.messages.last = d₀.messages.last) (hfolders : d.folders = d₀.folders) :
    Came uids folderID d₀ d' := by
  refine ⟨fun m' hm' => ?_, hlast ▸ h.last, h.folders.trans hfolders⟩
  rcases h.rows m' hm' with ⟨m, hm, hid, huid, hfolder⟩ | hnew
  · obtain ⟨m₀, hm₀, hid₀, huid₀, hfolder₀⟩ := hfewer m hm
    exact .inl ⟨m₀, hm₀, hid₀.trans hid, huid₀.trans huid, hfolder₀.trans hfolder⟩
  · exact .inr (hlast ▸ hnew)

theorem coarse_came : Coarse (Came uids folderID d₀) := fun _ _ hsame h =>
  h.fewer (fewer_of_same hsame) hsame.last hsame.folders

theorem Came.upsert (h : Came uids folderID d₀ d) (accountID : Nat) {e : ParsedEmail} (he : e.uid.val ∈ uids) :
    Came uids folderID d₀ (Repository.upsert (toMessage accountID folderID e) d) := by
  refine ⟨fun m hm => ?_, Nat.le_trans h.last Repository.last_le_upsert, h.folders⟩
  rcases Repository.mem_upsert.mp hm with ⟨hm, -⟩ | ⟨a, ha, -, rfl⟩ | ⟨-, rfl⟩
  · exact h.rows m hm
  · exact h.rows a ha
  · exact .inr ⟨Nat.lt_succ_of_le h.last, rfl, he⟩

end Came

/-! ### Fetching -/

section Env

variable {ι σ : Type} [HasDB σ] {env : Env ι σ} {s : σ} {i : ι}

omit [HasDB σ] in
theorem ends_ask_in {α : Type} {answer : α} {Q : α → σ → Prop} {R : σ → Prop}
    (hQ : env.fault i = .none → Q answer (env.meddle i s)) (hR : env.fault i ≠ .none → R (env.meddle i s)) :
    Ends env s (ask i answer : Proc ι Message.Err σ α) Q R := by
  unfold Ends ask
  cases hf : env.fault i with
  | none => rw [query_none hf]; exact hQ hf
  | fail => rw [query_fail hf]; exact hR (by rw [hf]; decide)
  | crash => rw [query_crash hf]; exact hR (by rw [hf]; decide)

theorem ends_default_in (hi : env.fault i = .none) {α : Type} {f : DB → α} {a : α} {e : Message.Err}
    {Q : α → σ → Prop} {R : σ → Prop} (hQ : Q (f (db (env.meddle i s))) (env.meddle i s)) :
    Ends env s (withDefault (queryDB i e f) a : Proc ι Message.Err σ α) Q R :=
  ends_of_ok (withDefault_ok (query_none hi)) hQ

end Env

section Fetch

variable {env : Env (FolderStmt κ) (State ρ)} {s : State ρ} {m : Manager κ ρ} {f : Folder} {c : Session}

/-- What is fetched in a range has come, whether the range is fetched to its end or not. -/
theorem ends_fetchBatched_came (henv : Interrupted env) (hsel : env.fault (.sync .select) = .none)
    (digest : Text → Text) :
    Ends env s (fetchBatched digest FolderStmt.sync f.accountID f.id (c.fetchByUIDRange f.path) f.uidNext
        ((c.selectFolder f.path).uidNext - 1) : FolderProg κ ρ Unit)
      (fun _ t => Came (fetchedBy env.fault c f) f.id s.db t.db ∧ t.events = s.events)
      fun t => breaksOff env.fault c f = true ∧
        Came (fetchedBy env.fault c f) f.id s.db t.db ∧ t.events = s.events := by
  let J : State ρ → Prop := fun t => Came (fetchedBy env.fault c f) f.id s.db t.db ∧ t.events = s.events
  have hJ : ∀ i t, J t → J (env.meddle i t) := fun i t ht =>
    have htakes := henv.user i t
    ⟨ht.1.fewer htakes.fewer htakes.last htakes.folders, htakes.events.trans ht.2⟩
  have hcoarse : CoarseOn J := fun t d hsame ht => ⟨coarse_came _ _ hsame ht.1, ht.2⟩
  let I : List (Nat × Nat) → State ρ → Prop := fun rest t =>
    (∃ done, asked c f = done ++ rest ∧ ∀ b ∈ done, fetches env.fault b = true) ∧ J t
  suffices hloop : ∀ b rest t, I (b :: rest) t → Ends env t (do
      let emails ← ask (.sync (.batch b.1 .fetch)) (c.fetchByUIDRange f.path b.1 b.2)
      upsertBatch digest (fun s => FolderStmt.sync (.batch b.1 s)) f.accountID f.id emails :
        FolderProg κ ρ Unit) (fun _ u => I rest u) fun t => breaksOff env.fault c f = true ∧ J t by
    have hstart : I (asked c f) s := ⟨⟨[], rfl, fun b hb => absurd hb List.not_mem_nil⟩, .refl _, rfl⟩
    exact (ends_each (asked c f) hloop hstart).imp (fun _ t ht => ht.2) fun _ ht => ht
  rintro b rest t ⟨⟨done, hasked, hdone⟩, ht⟩
  refine ends_bind (ends_ask_in (fun hfetch => ?_) fun hfault => ⟨?_, hJ _ t ht⟩)
  · have hb : fetches env.fault b = true := by
      unfold fetches
      rw [hfetch]
      rfl
    have hsent : ∀ e ∈ c.fetchByUIDRange f.path b.1 b.2, e.uid.val ∈ fetchedBy env.fault c f := by
      intro e he
      unfold fetchedBy
      rw [if_pos hsel, hasked, List.takeWhile_append_of_pos hdone, List.takeWhile_cons_of_pos hb]
      exact List.mem_flatMap.mpr ⟨b, List.mem_append_right _ List.mem_cons_self, List.mem_map_of_mem he⟩
    have hreturns : ReturnsIn env (upsertBatch digest (fun s => FolderStmt.sync (.batch b.1 s)) f.accountID f.id
        (c.fetchByUIDRange f.path b.1 b.2) : FolderProg κ ρ Unit) := by
      refine returnsIn_upsertBatch digest f.accountID f.id (fun x => ?_) _
      cases x with
      | fetch => exact hfetch
      | upsert n => exact henv.network _ rfl
      | load n => exact henv.network _ rfl
      | thread x => exact henv.network _ rfl
    have hkeeps : Keeps J (upsertBatch digest (fun s => FolderStmt.sync (.batch b.1 s)) f.accountID f.id
        (c.fetchByUIDRange f.path b.1 b.2) : FolderProg κ ρ Unit) :=
      keeps_upsertBatch digest _ f.accountID f.id hcoarse fun e he t ht =>
        ⟨ht.1.upsert f.accountID (hsent e he), ht.2⟩
    refine (hreturns.ends hkeeps hJ (hJ _ t ht)).imp (fun _ u hu => ⟨⟨done ++ [b], ?_, ?_⟩, hu⟩) fun _ hu => hu
    · rw [List.append_assoc]
      exact hasked
    · intro b' hb'
      rcases List.mem_append.mp hb' with hb' | hb'
      · exact hdone b' hb'
      · rw [List.mem_singleton.mp hb']
        exact hb
  · unfold breaksOff
    rw [Bool.or_eq_true, Bool.not_eq_true', Bool.eq_false_iff]
    refine .inr fun hall => hfault ?_
    have hb := List.all_eq_true.mp hall b (by rw [hasked]; exact List.mem_append_right _ List.mem_cons_self)
    exact of_decide_eq_true hb

theorem maxIDByFolder_le_last (d : DB) (folderID : Nat) : Repository.maxIDByFolder d folderID ≤ d.messages.last := by
  refine foldl_max_le_iff.mpr ⟨Nat.zero_le _, fun k hk => ?_⟩
  obtain ⟨r, hr, rfl⟩ := List.mem_map.mp hk
  exact d.messages.below r (List.mem_filter.mp hr).1

/-- **Up to its second count** a round has the first count, a key that only new rows are behind, and what
has come. -/
theorem ends_fetchRound (henv : Interrupted env) (hserves : Serves c f) (hnext : f.uidNext ≠ 0)
    (m : Manager κ ρ) :
    Ends env s (fetchRound m.digest m.syncDepth FolderStmt.sync c f.accountID f.id f.path f.uidNext :
        FolderProg κ ρ _)
      (fun b u => b.1 = Repository.countByFolder (atFirstCount env s).db f.id ∧
        (∀ r ∈ u.db.messages.rows, r.folderID = f.id → (b.2 < r.id ↔ s.db.messages.last < r.id)) ∧
        Came (fetchedBy env.fault c f) f.id (atFirstCount env s).db u.db ∧ u.events = s.events)
      fun t => breaksOff env.fault c f = true ∧
        Came (fetchedBy env.fault c f) f.id s.db t.db ∧ t.events = s.events := by
  let s₂ := env.meddle (.sync .maxIDBefore) (atFirstCount env s)
  have h₁ : Takes s (atFirstCount env s) := (henv.user _ _).trans (henv.user _ _)
  have h₂ : Takes (atFirstCount env s) s₂ := henv.user _ _
  have h₀ : Takes s s₂ := h₁.trans h₂
  unfold fetchRound
  refine ends_bind (ends_ask_in (fun hsel => ?_) fun hfault => ?_)
  · refine ends_bind (ends_default_in (henv.network _ rfl) ?_)
    refine ends_bind (ends_default_in (henv.network _ rfl) ?_)
    rw [fetchNew_eq _ _ _ _ _ _ _ _ hnext hserves.next]
    have hfetch : Ends env s₂ (fetchBatched m.digest FolderStmt.sync f.accountID f.id (c.fetchByUIDRange f.path)
        f.uidNext ((c.selectFolder f.path).uidNext - 1) : FolderProg κ ρ Unit) _ _ :=
      ends_fetchBatched_came henv hsel m.digest
    refine ends_bind (hfetch.imp (fun _ u hu => ends_pure ⟨rfl, fun r hr hfolder => ?_, ?_, ?_⟩) fun t ht => ?_)
    · have hkey : Repository.maxIDByFolder s₂.db f.id ≤ s₂.db.messages.last := maxIDByFolder_le_last _ _
      show Repository.maxIDByFolder s₂.db f.id < r.id ↔ _
      rw [← h₀.last]
      rcases hu.1.rows r hr with ⟨r₀, hr₀, hid, -, hfolder₀⟩ | ⟨hnew, -⟩
      · have hle := le_maxIDByFolder hr₀ (hfolder₀.trans hfolder)
        have hbelow := s₂.db.messages.below r₀ hr₀
        exact ⟨fun hlt => by omega, fun hlt => by omega⟩
      · exact ⟨fun _ => hnew, fun _ => Nat.lt_of_le_of_lt hkey hnew⟩
    · exact hu.1.after h₂.fewer h₂.last h₂.folders
    · exact hu.2.trans h₀.events
    · exact ⟨ht.1, ht.2.1.after h₀.fewer h₀.last h₀.folders, ht.2.2.trans h₀.events⟩
  · have htakes := henv.user (.sync .select) s
    refine ⟨?_, (Came.refl s.db).fewer htakes.fewer htakes.last htakes.folders, htakes.events⟩
    unfold breaksOff
    rw [Bool.or_eq_true]
    exact .inl (bne_iff_ne.mpr hfault)

end Fetch

end Sync

namespace Message

open Proc

/-- Storing a body does not end the process. -/
theorem lives_storeParsedBody {ι σ : Type} [HasBodies σ] {env : Env ι σ} (digest : Text → Text) {at_ : BodyStmt → ι}
    (henv : ∀ s, env.fault (at_ s) = .none) (messageID : Nat) (e : FetchedEmail) :
    Lives env (storeParsedBody digest at_ messageID e) := by
  refine lives_bind ?_ fun _ => lives_bind (returnsIn_update (henv _) _ _).lives fun _ =>
    lives_bind (returnsIn_update (henv _) _ _).lives fun _ => (returnsIn_update (henv _) _ _).lives
  unfold backfillHeaders
  split
  · refine lives_bind (lives_query (by rw [henv]; decide) _ _) fun m => ?_
    dsimp only
    split
    · exact lives_bind (returnsIn_update (henv _) _ _).lives fun _ =>
        (returnsIn_assignThreads digest _ (fun s => henv _) _).lives
    · exact (returnsIn_pure ()).lives
  · exact (returnsIn_pure ()).lives

end Message

namespace Sync

open Proc FlyMail.Message

variable {κ ρ : Type}

section Prefetch

variable {env : Env (FolderStmt κ) (State ρ)}

theorem lives_storeBody (henv : Interrupted env) (digest : Text → Text) (msgs : List FlyMail.Message)
    (e : FetchedEmail) : Lives env (storeBody digest msgs e : FolderProg κ ρ Unit) := by
  unfold storeBody
  split
  · exact (returnsIn_pure ()).lives
  · exact (returnsIn_withDefault (lives_storeParsedBody digest (fun s => henv.network _ rfl) _ e) ()).lives

theorem lives_fetchBatches (henv : Interrupted env) (digest : Text → Text) (c : FullSession) (path : Text)
    (msgs : List FlyMail.Message) (batches : List (List Nat)) :
    ∀ n, Lives env (fetchBatches digest c path msgs n batches : FolderProg κ ρ Unit) := by
  induction batches with
  | nil => exact fun _ => (returnsIn_pure ()).lives
  | cons uids rest ih =>
      intro n
      refine lives_bind (lives_query (henv.alive _) _ _) fun emails => ?_
      exact lives_bind (lives_each emails fun e _ => lives_storeBody henv digest msgs e) fun _ => ih (n + 1)

/-- **Fetching bodies ends no round**: what goes wrong with it is passed over. -/
theorem returnsIn_prefetchNewBodies (henv : Interrupted env) (digest : Text → Text) (f : Folder) (nm : NewMail)
    (c : FullSession) : ReturnsIn env (prefetchNewBodies digest f nm c : FolderProg κ ρ Unit) := by
  unfold prefetchNewBodies
  split
  · exact returnsIn_pure ()
  · refine returnsIn_bind (returnsIn_withDefault (returnsIn_query (henv.network _ rfl) _ _).lives _) fun msgs => ?_
    split
    · exact returnsIn_pure ()
    · refine returnsIn_withDefault (lives_bind (lives_query (henv.alive _) _ _) fun _ => ?_) ()
      exact lives_fetchBatches henv digest c f.path msgs _ 0

end Prefetch

/-! ### Counting -/

section Count

variable {env : Env (FolderStmt κ) (State ρ)} {s : State ρ} {R : State ρ → Prop}

/-- What `countRound` says, where the anchor was known and the server says which UID comes next. -/
theorem ends_countRound (henv : Interrupted env) {folderID uidValidity uidNext prevUIDNext before afterID : Nat}
    (hprev : prevUIDNext ≠ 0) (hnext : uidNext ≠ 0) :
    Ends env s (countRound FolderStmt.sync folderID uidValidity uidNext prevUIDNext before afterID :
        FolderProg κ ρ _)
      (fun a t => (a.1.uidValidity = uidValidity ∧ a.1.uidNext = uidNext) ∧
        (a.2.baseline = false ∧ a.2.afterID = afterID ∧
          a.2.count = Repository.countByFolder (env.meddle (.sync .countAfter) s).db folderID - before) ∧
        Takes (env.meddle (.sync .countAfter) s) t) R := by
  let u := env.meddle (.sync .countAfter) s
  have hbase : (before == 0 && prevUIDNext == 0) = false := by simp [hprev]
  have hstate : ∀ total unread, (folderState FolderStmt.sync folderID uidValidity uidNext total unread :
      FolderProg κ ρ _) = pure ⟨uidValidity, uidNext, total, unread⟩ := fun _ _ => if_neg hnext
  have hnew : ∀ t, Takes u t → Ends env t (newMail FolderStmt.sync folderID prevUIDNext before afterID
      (Repository.countByFolder u.db folderID) : FolderProg κ ρ _)
      (fun nm t' => (nm.baseline = false ∧ nm.afterID = afterID ∧
        nm.count = Repository.countByFolder u.db folderID - before) ∧ Takes u t') R := by
    intro t ht
    unfold newMail
    dsimp only
    split
    · exact ends_pure ⟨⟨hbase, rfl, rfl⟩, ht⟩
    · have ht₁ := ht.trans (henv.user (.sync .countUnseen) t)
      refine ends_bind (ends_default_in (henv.network _ rfl) ?_)
      split
      · exact ends_pure ⟨⟨hbase, rfl, rfl⟩, ht₁⟩
      · refine ends_bind (ends_default_in (henv.network _ rfl) ?_)
        exact ends_pure ⟨⟨hbase, rfl, rfl⟩, ht₁.trans (henv.user _ _)⟩
  unfold countRound
  refine ends_bind (ends_default_in (henv.network _ rfl) ?_)
  refine ends_bind (ends_default_in (henv.network _ rfl) ?_)
  refine ends_bind ((hnew _ (henv.user _ _)).imp (fun nm t ht => ?_) fun _ ht => ht)
  rw [hstate]
  exact ends_pure ⟨⟨rfl, rfl⟩, ht⟩

/-- **The counts of a folder** differ by what came and what is gone. -/
theorem count_of_came {uids : List Nat} {folderID : Nat} {d d' : DB} (h : Came uids folderID d d') :
    Repository.countByFolder d folderID + (newRows d' folderID d.messages.last).length ≤
      Repository.countByFolder d' folderID + (gone d d' folderID).length := by
  let inIt : FlyMail.Message → Bool := fun m => m.folderID == folderID
  let here : FlyMail.Message → Bool := fun m => d'.messages.rows.any fun r => r.id == m.id
  let fresh : FlyMail.Message → Bool := fun m => decide (d.messages.last < m.id)
  have hkept : ((d.messages.rows.filter inIt).filter here).length ≤
      ((d'.messages.rows.filter inIt).filter fun m => !fresh m).length := by
    refine length_le_of_ids (d.messages.nodup_pk (List.filter_sublist.trans List.filter_sublist)) fun m hm => ?_
    obtain ⟨hin, hhere⟩ := List.mem_filter.mp hm
    obtain ⟨hmem, hfolder⟩ := List.mem_filter.mp hin
    obtain ⟨r, hr, hid⟩ := List.any_eq_true.mp hhere
    have hid : r.id = m.id := beq_iff_eq.mp hid
    have hbelow := d.messages.below m hmem
    refine ⟨r, List.mem_filter.mpr ⟨List.mem_filter.mpr ⟨hr, ?_⟩, ?_⟩, hid⟩
    · rcases h.rows r hr with ⟨m₀, hm₀, hid₀, -, hfolder₀⟩ | ⟨hlt, -⟩
      · have hsame := d.messages.eq_of_pk hm₀ hmem (hid₀.trans hid)
        rw [hsame] at hfolder₀
        show (r.folderID == folderID) = true
        rw [← hfolder₀]
        exact hfolder
      · omega
    · show (!decide (d.messages.last < r.id)) = true
      simp only [Bool.not_eq_true', decide_eq_false_iff_not]
      omega
  have hd := List.length_eq_length_filter_add (l := d.messages.rows.filter inIt) here
  have hd' := List.length_eq_length_filter_add (l := d'.messages.rows.filter inIt) fresh
  have hlost : gone d d' folderID = (d.messages.rows.filter inIt).filter fun m => !here m := by
    unfold gone
    rw [List.filter_filter]
    exact List.filter_congr fun m _ => Bool.and_comm _ _
  have hnew : newRows d' folderID d.messages.last = (d'.messages.rows.filter inIt).filter fresh := by
    unfold newRows
    rw [List.filter_filter]
    exact List.filter_congr fun m _ => Bool.and_comm _ _
  unfold Repository.countByFolder
  rw [List.countP_eq_length_filter, List.countP_eq_length_filter, hlost, hnew]
  change (d.messages.rows.filter inIt).length + _ ≤ (d'.messages.rows.filter inIt).length + _
  omega

end Count

end Sync

namespace Sync

open Proc FlyMail.Message

variable {κ ρ : Type}

/-! ### The rules -/

theorem passed_append {before more : List Event} {uid : Nat} :
    passed (before ++ more) uid = (passed before uid || passed more uid) := List.any_append

/-- The mails behind a key went through the rules. -/
structure Ruled (folderID afterID : Nat) (s t : State ρ) : Prop where
  fewer : Fewer s.db t.db
  last : t.db.messages.last = s.db.messages.last
  folders : t.db.folders = s.db.folders
  events : ∀ uid, passed s.events uid = true → passed t.events uid = true
  all : ∀ m ∈ newRows t.db folderID afterID, passed t.events m.uid.val = true

section Ruled

variable {folderID afterID : Nat} {s t u : State ρ}

theorem Ruled.takes (h : Ruled folderID afterID s t) (h' : Takes t u) : Ruled folderID afterID s u where
  fewer := h.fewer.trans h'.fewer
  last := h'.last.trans h.last
  folders := h'.folders.trans h.folders
  events uid := by
    rw [h'.events]
    exact h.events uid
  all m hm := by
    obtain ⟨r, hr, -, huid⟩ := among_newRows h'.fewer hm
    rw [h'.events, ← huid]
    exact h.all r hr

theorem Ruled.after (h' : Takes s t) (h : Ruled folderID afterID t u) : Ruled folderID afterID s u where
  fewer := h'.fewer.trans h.fewer
  last := h.last.trans h'.last
  folders := h.folders.trans h'.folders
  events uid := by
    rw [← h'.events]
    exact h.events uid
  all := h.all

/-- Where there is nothing behind the key, there is nothing to do. -/
theorem ruled_of_none (h : newRows s.db folderID afterID = []) : Ruled folderID afterID s s :=
  ⟨Fewer.refl _, rfl, rfl, fun _ h => h, fun m hm => by rw [h] at hm; cases hm⟩

end Ruled

section Pages

variable {env : Env (FolderStmt κ) (State ρ)} {m : Manager κ ρ} {r : RuleRunner κ ρ} {f : Folder} {s t : State ρ}

theorem passed_of_mem_page {page : List FlyMail.Message} (h : Takes { s with events := s.events ++ [.rules page] } t)
    {x : FlyMail.Message} (hx : x ∈ page) : passed t.events x.uid.val = true := by
  rw [h.events, passed_append, Bool.or_eq_true]
  refine .inr (List.any_eq_true.mpr ⟨_, List.mem_singleton_self _, ?_⟩)
  exact List.any_eq_true.mpr ⟨x, hx, beq_self_eq_true _⟩

theorem passed_of_passed {page : List FlyMail.Message} (h : Takes { s with events := s.events ++ [.rules page] } t)
    {uid : Nat} (huid : passed s.events uid = true) : passed t.events uid = true := by
  rw [h.events, passed_append, huid]
  rfl

/-- **The last page** leaves nothing behind the key that was not handed on. -/
theorem ruled_of_last {afterID : Nat} (h : Takes { s with events := s.events ++ [.rules (handed s.db f afterID)] } t)
    (hlast : (newRows s.db f.id afterID).drop ruleBatchCap = []) : Ruled f.id afterID s t where
  fewer := h.fewer
  last := h.last
  folders := h.folders
  events _ := passed_of_passed h
  all x hx := by
    obtain ⟨y, hy, -, huid⟩ := among_newRows (d := s.db) h.fewer hx
    rw [← List.take_append_drop ruleBatchCap (newRows s.db f.id afterID), hlast, List.append_nil] at hy
    rw [← huid]
    exact passed_of_mem_page h hy

/-- **A page and the pages behind it.** -/
theorem ruled_of_more {afterID : Nat} {last : FlyMail.Message} {u : State ρ}
    (hlast : (handed s.db f afterID).getLast? = some last)
    (h : Takes { s with events := s.events ++ [.rules (handed s.db f afterID)] } t)
    (hrest : Ruled f.id last.id t u) : Ruled f.id afterID s u where
  fewer := Fewer.trans h.fewer hrest.fewer
  last := hrest.last.trans h.last
  folders := hrest.folders.trans h.folders
  events _ huid := hrest.events _ (passed_of_passed h huid)
  all x hx := by
    obtain ⟨y, hy, hid, huid⟩ := among_newRows (d := s.db) (Fewer.trans h.fewer hrest.fewer) hx
    obtain ⟨hmem, hfolder, hafter⟩ := mem_newRows.mp hx
    rw [← List.take_append_drop ruleBatchCap (newRows s.db f.id afterID)] at hy
    rcases List.mem_append.mp hy with hy | hy
    · rw [← huid]
      exact hrest.events _ (passed_of_mem_page h hy)
    · rw [← filter_behind_page (newRows_ascending s.db f.id afterID) hlast, List.mem_filter,
        decide_eq_true_iff] at hy
      refine hrest.all x (mem_newRows.mpr ⟨hmem, hfolder, ?_⟩)
      rw [← hid]
      exact hy.2

/-- **The rules go over all mails behind a key**, while they and the user take mails away. -/
theorem ends_runRules (henv : Interrupted env) (hr : r.OnlyTakes) (hgo : r.GoesOn f env) (fuel : Nat) :
    ∀ page afterID changed (s : State ρ), (newRows s.db f.id afterID).length < fuel →
      Ends env s (runRules r f fuel page afterID changed) (fun _ t => Ruled f.id afterID s t)
        fun t => Ruled f.id afterID s t := by
  induction fuel with
  | zero => exact fun _ _ _ _ hfuel => absurd hfuel (Nat.not_lt_zero _)
  | succ fuel ih =>
      intro page afterID changed s hfuel
      have huser := henv.user (.listPage page) s
      generalize hs : env.meddle (.listPage page) s = s₁ at huser
      suffices hpage : Ends env s (runRules r f (fuel + 1) page afterID changed)
          (fun _ t => Ruled f.id afterID s₁ t) fun t => Ruled f.id afterID s₁ t from
        hpage.imp (fun _ _ ht => .after huser ht) fun _ ht => .after huser ht
      have hlist : queryDB (FolderStmt.listPage page) Message.Err.db
          (fun db => Repository.listAfterID db f.id afterID ruleBatchCap) env s
            = (.ok (handed s₁.db f afterID), s₁) := by
        rw [← hs]
        exact query_none (henv.network _ rfl)
      unfold runRules
      refine ends_bind (ends_of_ok (attempt_ok hlist) ?_)
      dsimp only
      cases hlast : (handed s₁.db f afterID).getLast? with
      | none =>
          have hnil := List.getLast?_eq_none_iff.mp hlast
          exact ends_pure (ruled_of_none ((List.take_eq_nil_iff.mp hnil).resolve_left (by decide)))
      | some last =>
          dsimp only
          let s₂ : State ρ := { s₁ with events := s₁.events ++ [.rules (handed s₁.db f afterID)] }
          have hrecord : (record (.rules (handed s₁.db f afterID)) : FolderProg κ ρ Unit) env s₁ = (.ok (), s₂) := rfl
          refine ends_bind (ends_of_ok hrecord (ends_bind ?_))
          have hkeeps : Keeps (Takes s₂) (relabel (FolderStmt.apply page)
              (r.apply f.accountID f (handed s₁.db f afterID))) := keeps_relabel (hr s₂ _ _ _) _
          have htakes := hkeeps env (fun i t ht => ht.trans (henv.user i t)) s₂ (.refl _)
          have hstops : (¬ ∃ c, (relabel (FolderStmt.apply page) (r.apply f.accountID f (handed s₁.db f afterID))
              env s₂).1 = .ok c) → (newRows s₁.db f.id afterID).drop ruleBatchCap = [] := fun hfails =>
            Classical.byContradiction fun hmore => hfails (hgo page afterID s₂ hmore)
          cases happly : relabel (FolderStmt.apply page) (r.apply f.accountID f (handed s₁.db f afterID)) env s₂ with
          | mk out t =>
              rw [happly] at htakes hstops
              cases out with
              | err e =>
                  refine ends_of_ok (attempt_err happly) (ends_pure (ruled_of_last htakes (hstops ?_)))
                  rintro ⟨c, hc⟩
                  cases hc
              | dead =>
                  unfold Ends
                  rw [attempt_dead happly]
                  refine ruled_of_last htakes (hstops ?_)
                  rintro ⟨c, hc⟩
                  cases hc
              | ok c =>
                  refine ends_of_ok (attempt_ok happly) ?_
                  have hlen : (handed s₁.db f afterID).length = min ruleBatchCap (newRows s₁.db f.id afterID).length :=
                    List.length_take
                  dsimp only
                  split
                  · exact ends_pure (ruled_of_last htakes (List.drop_eq_nil_of_le (by omega)))
                  · have hbehind : newRows s₁.db f.id last.id = (newRows s₁.db f.id afterID).drop ruleBatchCap :=
                      newRows_behind hlast fun _ _ _ => Iff.rfl
                    have hshorter : (newRows t.db f.id last.id).length ≤ (newRows s₁.db f.id last.id).length :=
                      length_newRows_le htakes.fewer
                    have hstart : (newRows s₁.db f.id afterID).length ≤ (newRows s.db f.id afterID).length :=
                      length_newRows_le huser.fewer
                    have hcap : 0 < ruleBatchCap := by decide
                    rw [hbehind, List.length_drop] at hshorter
                    refine (ih (page + 1) last.id (changed || c) t (by omega)).imp (fun _ u hu => ?_) fun u hu => ?_
                    · exact ruled_of_more hlast htakes hu
                    · exact ruled_of_more hlast htakes hu

end Pages

end Sync

namespace Sync

open Proc FlyMail.Message

variable {κ ρ : Type}

/-! ### A round -/

section Round

variable {env : Env (FolderStmt κ) (State ρ)} {m : Manager κ ρ} {r : RuleRunner κ ρ} {f : Folder} {c : FullSession}
  {s : State ρ}

/-- What the rules make of a round of an inbox. -/
theorem ends_applyRules (henv : Interrupted env) (hr : r.OnlyTakes) (hgo : r.GoesOn f env) (hinbox : f.type = .inbox)
    {state : FolderState} {nm : NewMail} (hbase : nm.baseline = false)
    (hcount : nm.count = 0 → newRows s.db f.id nm.afterID = []) :
    Ends env s (applyRules (some r) f state nm)
      (fun b t => (b.1.uidValidity = state.uidValidity ∧ b.1.uidNext = state.uidNext) ∧ Ruled f.id nm.afterID s t)
      (Ruled f.id nm.afterID s) := by
  have hmeddle : ∀ i t, Ruled f.id nm.afterID s t → Ruled f.id nm.afterID s (env.meddle i t) :=
    fun i t ht => ht.takes (henv.user i t)
  unfold applyRules
  dsimp only
  split
  · rename_i hnothing
    refine ends_pure ⟨⟨rfl, rfl⟩, ruled_of_none (hcount (hnothing.resolve_left ?_))⟩
    rw [hbase]
    decide
  · unfold inboxRules
    refine ends_bind (ends_of_ok rfl (ends_bind ?_))
    have hfuel := Nat.lt_succ_of_le (length_newRows_le_last s.db f.id nm.afterID)
    refine (ends_runRules henv hr hgo _ 0 nm.afterID false s hfuel).imp (fun a t ht => ?_) fun _ ht => ht
    dsimp only
    split
    · refine ends_bind (ends_default_in (henv.network _ rfl) ?_)
      refine ends_bind (ends_default_in (henv.network _ rfl) ?_)
      refine ends_bind ((Keeps.ends (keeps_refreshNewMail f nm) hmeddle (hmeddle _ _ (hmeddle _ _ ht))).imp
        (fun _ u hu => ?_) fun _ hu => hu)
      exact ends_pure ⟨⟨rfl, rfl⟩, hu⟩
    · exact ends_pure ⟨⟨rfl, rfl⟩, ht⟩

/-- All that came in a round was handed to the rules. -/
structure HandedOn (uids : List Nat) (folderID : Nat) (s t : State ρ) : Prop where
  came : Came uids folderID s.db t.db
  events : ∀ uid, passed s.events uid = true → passed t.events uid = true
  fresh : ∀ x ∈ t.db.messages.rows, x.folderID = folderID → s.db.messages.last < x.id →
    passed t.events x.uid.val = true

/-- A round that breaks off before it fetches a mail the rules were not handed leaves no such mail behind. -/
theorem handedOn_of_passed {uids : List Nat} {folderID : Nat} {t : State ρ} (hcame : Came uids folderID s.db t.db)
    (hevents : t.events = s.events) (h : ∀ uid ∈ uids, passed s.events uid = true) : HandedOn uids folderID s t where
  came := hcame
  events uid := by rw [hevents]; exact fun h => h
  fresh x hx hfolder hlt := by
    rcases hcame.rows x hx with ⟨x₀, hx₀, hid, -⟩ | ⟨-, -, huid⟩
    · have hbelow := s.db.messages.below x₀ hx₀
      omega
    · rw [hevents]
      exact h _ huid

/-- **Where a round gains rows, or brings none,** it does not take new mails for none. -/
theorem newRows_of_count {uids : List Nat} {folderID : Nat} {d d' : DB} (hcame : Came uids folderID d d')
    (hgains : newRows d' folderID d.messages.last = [] ∨
      (gone d d' folderID).length < (newRows d' folderID d.messages.last).length)
    (hcount : Repository.countByFolder d' folderID - Repository.countByFolder d folderID = 0) :
    newRows d' folderID d.messages.last = [] := by
  have hle := count_of_came hcame
  refine hgains.resolve_right fun hlt => ?_
  omega

/-- **A round hands on what came**, whether it comes to the end of its rules or breaks off. -/
theorem ends_ruleFolder (henv : Interrupted env) (hrules : m.rules = some r) (hr : r.OnlyTakes)
    (hserves : Serves c.toSession f) (hinbox : f.type = .inbox) (hvalid : f.uidValidity ≠ 0) (hnext : f.uidNext ≠ 0)
    (hbreak : breaksOff env.fault c.toSession f = true →
      ∀ uid ∈ fetchedBy env.fault c.toSession f, passed s.events uid = true)
    (hgains : m.Gains f c.toSession env s) (hgo : r.GoesOn f env) :
    Ends env s (m.ruleFolder f c)
      (fun b t => (b.1.uidValidity = (c.selectFolder f.path).uidValidity ∧
          b.1.uidNext = (c.selectFolder f.path).uidNext) ∧
        HandedOn (fetchedBy env.fault c.toSession f) f.id s t)
      (HandedOn (fetchedBy env.fault c.toSession f) f.id s) := by
  have hsaid : (c.selectFolder f.path).uidValidity ≠ 0 := hserves.same ▸ hvalid
  have hnext' : (c.selectFolder f.path).uidNext ≠ 0 := by
    have hle := hserves.next
    omega
  let d := (atFirstCount env s).db
  have hstart : Takes s (atFirstCount env s) := (henv.user _ _).trans (henv.user _ _)
  unfold Manager.ruleFolder Manager.fetchFolder
  rw [incrementalSync_eq m.digest m.syncDepth FolderStmt.sync f.accountID f.id f.uidNext hsaid hserves.same hnext']
  refine ends_bind (ends_bind (ends_bind ?_))
  have hat : Ends env s (fetchRound m.digest m.syncDepth FolderStmt.sync c.toSession f.accountID f.id f.path f.uidNext :
      FolderProg κ ρ _) (fun _ u => env.meddle (.sync .countAfter) u = m.atSecondCount f c.toSession env s)
      fun u => env.meddle (.sync .countAfter) u = m.atSecondCount f c.toSession env s := ends_of_left rfl
  refine ((ends_fetchRound henv hserves hnext m).and hat).imp ?_ ?_
  · rintro b u ⟨⟨hbefore, hkey, hcame, hevents⟩, hcounted⟩
    refine (ends_countRound henv hnext hnext').imp (fun a t ha => ?_) fun _ ht => ht
    rw [hcounted] at ha
    obtain ⟨⟨hvalidity, huidNext⟩, ⟨hbase, hafter, hcount⟩, htakes⟩ := ha
    have hsecond : Takes u (m.atSecondCount f c.toSession env s) := hcounted ▸ henv.user _ _
    have hbodies : Keeps (Takes (m.atSecondCount f c.toSession env s))
        (prefetchNewBodies m.digest f a.2 c : FolderProg κ ρ Unit) :=
      keeps_prefetchNewBodies coarseOn_takes (fun _ _ h => ⟨h.fewer, h.last, h.folders, h.events⟩) m.digest f a.2 c
    refine ends_bind (((returnsIn_prefetchNewBodies henv m.digest f a.2 c).ends hbodies
      (fun i t ht => ht.trans (henv.user i t)) htakes).imp (fun _ t ht => ends_pure ?_) fun _ ht => ht)
    have hall : Takes u t := hsecond.trans ht
    -- The key is behind the old rows and before the new ones.
    have hbehind : ∀ x ∈ t.db.messages.rows, x.folderID = f.id → (b.2 < x.id ↔ s.db.messages.last < x.id) := by
      intro x hx hfolder
      obtain ⟨y, hy, hid, -, hfolder'⟩ := hall.fewer x hx
      rw [← hid]
      exact hkey y hy (hfolder'.trans hfolder)
    have hnone : a.2.count = 0 → newRows t.db f.id a.2.afterID = [] := by
      intro hzero
      have hsame : d.messages.last = s.db.messages.last := hstart.last
      have hsecond' := newRows_of_count (hcame.fewer hsecond.fewer hsecond.last hsecond.folders) hgains
        (by rw [← hbefore, ← hcount]; exact hzero)
      refine List.eq_nil_iff_forall_not_mem.mpr fun x hx => ?_
      obtain ⟨hmem, hfolder, hlt⟩ := mem_newRows.mp hx
      rw [hafter] at hlt
      have hnew : x ∈ newRows t.db f.id d.messages.last :=
        mem_newRows.mpr ⟨hmem, hfolder, hsame ▸ (hbehind x hmem hfolder).mp hlt⟩
      obtain ⟨y, hy, -⟩ := among_newRows ht.fewer hnew
      rw [hsecond'] at hy
      cases hy
    have hdone : ∀ v, Ruled f.id a.2.afterID t v → HandedOn (fetchedBy env.fault c.toSession f) f.id s v := by
      refine fun v hv => ⟨?_, fun uid huid => hv.events uid ?_, fun x hx hfolder hlt => ?_⟩
      · have hu := hcame.fewer (hall.fewer.trans hv.fewer) (hv.last.trans hall.last) (hv.folders.trans hall.folders)
        exact hu.after hstart.fewer hstart.last hstart.folders
      · rw [hall.events, hevents]
        exact huid
      · refine hv.all x (mem_newRows.mpr ⟨hx, hfolder, ?_⟩)
        obtain ⟨y, hy, hid, -, hfolder'⟩ := hv.fewer x hx
        rw [hafter, ← hid]
        exact (hbehind y hy (hfolder'.trans hfolder)).mpr (hid ▸ hlt)
    rw [hrules]
    refine (ends_applyRules henv hr hgo hinbox hbase hnone).imp (fun e v hv => ⟨?_, hdone v hv.2⟩) hdone
    exact ⟨hv.1.1.trans hvalidity, hv.1.2.trans huidNext⟩
  · rintro t ⟨⟨hbroken, hcame, hevents⟩, -⟩
    exact handedOn_of_passed hcame hevents (hbreak hbroken)

end Round

end Sync

namespace Sync

open Proc FlyMail.Message

variable {κ ρ : Type}

section Close

variable {env : Env (FolderStmt κ) (State ρ)} {f : Folder} {s : State ρ}

/-- The rest of a round. -/
def closeRound (f : Folder) (now : Time) (b : FolderState × NewMail) : FolderProg κ ρ Unit := do
  withDefault (updateDB .updateSyncState .db (Folder.Repository.updateSyncState f.id
    b.1.uidValidity b.1.uidNext b.1.total b.1.unread now)) ()
  announceNew f b.2 now

theorem syncFolder_eq_close (m : Manager κ ρ) (f : Folder) (c : FullSession) (now : Time) :
    m.syncFolder f c now = m.ruleFolder f c >>= closeRound f now := by
  unfold Manager.ruleFolder
  rw [bind_assoc]
  rfl

/-- The rest of a round moves the anchor, and what is there and was handed on stays. -/
theorem closeRound_ok (henv : Interrupted env) (now : Time) (b : FolderState × NewMail) (hf : f ∈ s.db.folders.rows) :
    ∃ t, closeRound f now b env s = (.ok (), t) ∧ Fewer s.db t.db ∧
      (∀ uid, passed s.events uid = true → passed t.events uid = true) ∧
      ∃ g, Folder.Repository.getByID t.db f.id = some g ∧ g.type = f.type ∧ g.uidValidity = b.1.uidValidity ∧
        g.uidNext = b.1.uidNext := by
  have htakes := henv.user .updateSyncState s
  let u := env.meddle .updateSyncState s
  let d := Folder.Repository.updateSyncState f.id b.1.uidValidity b.1.uidNext b.1.total b.1.unread now u.db
  let v : State ρ := { u with db := d }
  have hupdate : (withDefault (updateDB .updateSyncState .db (Folder.Repository.updateSyncState f.id
      b.1.uidValidity b.1.uidNext b.1.total b.1.unread now)) () : FolderProg κ ρ Unit) env s = (.ok (), v) :=
    withDefault_ok (update_none (henv.network _ rfl))
  obtain ⟨t, ht, hdb, hevents⟩ := events_announceNew f b.2 now env v
  refine ⟨t, (bind_ok hupdate).trans ht, fun x hx => ?_, fun uid huid => ?_, ?_⟩
  · rw [hdb] at hx
    exact htakes.fewer x hx
  · have hpassed : passed v.events uid = true := (congrArg (passed · uid) htakes.events).trans huid
    rcases hevents with hsame | ⟨-, hmore⟩
    · rw [hsame]
      exact hpassed
    · rw [hmore, passed_append, hpassed]
      rfl
  · have hrow : f ∈ u.db.folders.rows := htakes.folders ▸ hf
    rw [hdb]
    have hmem : _ ∈ d.folders.rows := List.mem_map.mpr ⟨f, hrow, if_pos (beq_self_eq_true _)⟩
    exact ⟨_, Table.get?_eq_some.mpr ⟨hmem, rfl⟩, rfl, rfl, rfl⟩

end Close

/-! ### What a run keeps -/

section Kept

variable {m : Manager κ ρ} {r : RuleRunner κ ρ} {w w' : Inbox ρ} {f : Folder} {folderID base : Nat}

/-- The rules were handed what lies behind the anchor and has a row, and what is owed may come again. -/
structure Inbox.Anchored (w : Inbox ρ) (f : Folder) : Prop where
  row : Folder.Repository.getByID w.state.db f.id = some f
  inbox : f.type = .inbox
  valid : f.uidValidity ≠ 0
  next : f.uidNext ≠ 0
  owed : ∀ uid ∈ w.owed, f.uidNext ≤ uid
  rows : ∀ x ∈ w.state.db.messages.rows, x.folderID = f.id → f.uidNext ≤ x.uid.val →
    passed w.state.events x.uid.val = true

/-- Nothing was missed. -/
structure Inbox.Kept (folderID : Nat) (w : Inbox ρ) : Prop where
  missed : w.missed = []
  anchored : ∃ f, f.id = folderID ∧ w.Anchored f

theorem kept_start (h : w.Start folderID base) : w.Kept folderID := by
  obtain ⟨f, hrow, hinbox, hvalid, hnext⟩ := h.row
  have hid : f.id = folderID := (Table.get?_eq_some.mp hrow).2
  refine ⟨h.missed, f, hid, hid ▸ hrow, hinbox, hvalid, ?_, ?_, fun x hx hfolder hle => ?_⟩
  · have hpos := h.pos
    omega
  · rw [h.owed]
    exact fun _ huid => absurd huid List.not_mem_nil
  · have hbelow := h.rows x hx (hfolder.trans hid)
    omega

/-- What a round fetches does not lie below its anchor. -/
theorem anchor_le_of_fetched {fault : FolderStmt κ → Fault} {c : Session} (hserves : Serves c f) (hnext : f.uidNext ≠ 0)
    {uid : Nat} (h : uid ∈ fetchedBy fault c f) : f.uidNext ≤ uid := by
  unfold fetchedBy at h
  split at h
  · obtain ⟨b, hb, huid⟩ := List.mem_flatMap.mp h
    obtain ⟨e, he, rfl⟩ := List.mem_map.mp huid
    have hfits := hserves.fits
    obtain ⟨hstart, hle, -⟩ := batch_within (by omega) ((List.takeWhile_sublist _).subset hb)
    exact Nat.le_trans hstart (hserves.range b.1 b.2 e he (by omega)).1
  · cases h

/-- What has a row after a round and does not lie below its anchor was handed on. -/
theorem Inbox.Anchored.passed_of_row (h : w.Anchored f) {uids : List Nat} {t : State ρ}
    (ht : HandedOn uids f.id w.state t) {x : FlyMail.Message} (hx : x ∈ t.db.messages.rows) (hfolder : x.folderID = f.id)
    (hle : f.uidNext ≤ x.uid.val) : passed t.events x.uid.val = true := by
  rcases ht.came.rows x hx with ⟨y, hy, -, huid, hfolder'⟩ | ⟨hlt, -⟩
  · rw [← huid] at hle ⊢
    exact ht.events _ (h.rows y hy (hfolder'.trans hfolder) hle)
  · exact ht.fresh x hx hfolder hlt

theorem kept_round {c : FullSession} {now : Time} {env : Env (FolderStmt κ) (State ρ)} (hrules : m.rules = some r)
    (hr : r.OnlyTakes) (hmissed : w.missed = []) (h : w.Anchored f) (henv : Interrupted env)
    (hserves : Serves c.toSession f)
    (hbreak : breaksOff env.fault c.toSession f = true →
      ∀ uid ∈ fetchedBy env.fault c.toSession f, passed w.state.events uid = true)
    (hgains : m.Gains f c.toSession env w.state) (hgo : r.GoesOn f env) : (w.round m base f c now env).Kept f.id := by
  have hends := ends_ruleFolder henv hrules hr hserves h.inbox h.valid h.next hbreak hgains hgo
  have hfetched : ∀ uid ∈ w.owed ∪ (fetchedBy env.fault c.toSession f).filter fun uid => decide (base ≤ uid),
      f.uidNext ≤ uid := by
    intro uid huid
    rcases List.mem_union_iff.mp huid with huid | huid
    · exact h.owed uid huid
    · exact anchor_le_of_fetched hserves h.next (List.mem_filter.mp huid).1
  -- A round that breaks off leaves the anchor where it was.
  have hbroken : ∀ t, HandedOn (fetchedBy env.fault c.toSession f) f.id w.state t →
      Inbox.Kept f.id ⟨t, (w.owed ∪ (fetchedBy env.fault c.toSession f).filter fun uid => decide (base ≤ uid)).filter
        fun uid => !passed t.events uid, w.missed⟩ := by
    intro t ht
    refine ⟨hmissed, f, rfl, ?_, h.inbox, h.valid, h.next, fun uid huid => ?_, fun x hx hfolder hle => ?_⟩
    · show t.db.folders.get? f.id = some f
      rw [ht.came.folders]
      exact h.row
    · exact hfetched uid (List.mem_filter.mp huid).1
    · exact h.passed_of_row ht hx hfolder hle
  unfold Inbox.round
  rw [syncFolder_eq_close, bind_apply]
  cases hfirst : m.ruleFolder f c env w.state with
  | mk out t =>
      unfold Ends at hends
      rw [hfirst] at hends
      cases out with
      | err e => exact hbroken t hends
      | dead => exact hbroken t hends
      | ok b =>
          obtain ⟨⟨hvalidity, huidNext⟩, ht⟩ := hends
          have hf : f ∈ t.db.folders.rows := ht.came.folders ▸ (Table.get?_eq_some.mp h.row).1
          obtain ⟨u, hu, hfewer, hpassed, g, hg, htype, hgvalidity, hgnext⟩ := closeRound_ok henv now b hf
          have hid : g.id = f.id := (Table.get?_eq_some.mp hg).2
          have hle : f.uidNext ≤ g.uidNext := by
            rw [hgnext, huidNext]
            exact hserves.next
          dsimp only
          rw [hu]
          refine ⟨?_, g, hid, hid ▸ hg, htype.trans h.inbox, ?_, ?_, fun _ huid => absurd huid List.not_mem_nil,
            fun x hx hfolder hgle => ?_⟩
          · dsimp only
            rw [hmissed, List.nil_append]
            refine List.filter_eq_nil_iff.mpr fun uid huid hin => ?_
            obtain ⟨huid, hnot⟩ := List.mem_filter.mp huid
            obtain ⟨x, hx, hkey⟩ := List.any_eq_true.mp hin
            obtain ⟨hfolder, hxuid⟩ := Bool.and_eq_true_iff.mp hkey
            have hxuid : x.uid.val = uid := beq_iff_eq.mp hxuid
            have hdone := h.passed_of_row ht hx (beq_iff_eq.mp hfolder) (hxuid ▸ hfetched uid huid)
            rw [hxuid] at hdone
            rw [hpassed uid hdone] at hnot
            cases hnot
          · rw [hgvalidity, hvalidity, hserves.same]
            exact h.valid
          · have hnext := h.next
            omega
          · obtain ⟨y, hy, -, huid, hfolder'⟩ := hfewer x hx
            rw [← huid] at hgle ⊢
            exact hpassed _ (h.passed_of_row ht hy (hfolder'.trans (hfolder.trans hid)) (hle.trans hgle))

/-- The user's changes take rows away. -/
theorem kept_takes {t : State ρ} (h : w.Kept folderID) (ht : Takes w.state t) :
    Inbox.Kept folderID { w with state := t } := by
  obtain ⟨hmissed, f, hid, hf⟩ := h
  refine ⟨hmissed, f, hid, ?_, hf.inbox, hf.valid, hf.next, hf.owed, fun x hx hfolder hle => ?_⟩
  · show t.db.folders.get? f.id = some f
    rw [ht.folders]
    exact hf.row
  · obtain ⟨y, hy, -, huid, hfolder'⟩ := ht.fewer x hx
    rw [← huid] at hle ⊢
    show passed t.events y.uid.val = true
    rw [ht.events]
    exact hf.rows y hy (hfolder'.trans hfolder) hle

/-- A search stores mails the rules were handed, or such that no round fetches. -/
theorem kept_search {results : List FetchedEmail} {fault : Nat × SearchStmt → Fault} (hmissed : w.missed = [])
    (h : w.Anchored f) (digest : Text → Text)
    (hresults : ∀ e ∈ results, e.uid.val < f.uidNext ∨ passed w.state.events e.uid.val = true) :
    Inbox.Kept f.id { w with
      state := (storeResults digest Prod.mk f.accountID f.id 0 results (.faulty fault) w.state).2 } := by
  let J : State ρ → Prop := fun t => t.db.folders = w.state.db.folders ∧ t.events = w.state.events ∧
    ∀ x ∈ t.db.messages.rows, x.folderID = f.id → f.uidNext ≤ x.uid.val → passed w.state.events x.uid.val = true
  have hcoarse : CoarseOn J := by
    rintro t d hsame ⟨hfolders, hevents, hrows⟩
    refine ⟨hsame.folders.trans hfolders, hevents, fun x hx hfolder hle => ?_⟩
    obtain ⟨y, hy, -, huid, hfolder'⟩ := fewer_of_same hsame x hx
    rw [← huid] at hle ⊢
    exact hrows y hy (hfolder'.trans hfolder) hle
  have hstore : ∀ e ∈ results, KeepsUpsert J f.accountID f.id e.toParsedEmail := by
    rintro e he t ⟨hfolders, hevents, hrows⟩
    refine ⟨hfolders, hevents, fun x hx hfolder hle => ?_⟩
    rcases Repository.mem_upsert.mp hx with ⟨hx, -⟩ | ⟨a, ha, -, rfl⟩ | ⟨-, rfl⟩
    · exact hrows x hx hfolder hle
    · exact hrows a ha hfolder hle
    · exact (hresults e he).resolve_left (Nat.not_lt.mpr hle)
  have hkeeps : Keeps J (storeResults digest Prod.mk f.accountID f.id 0 results) :=
    keeps_storeResults digest Prod.mk f.accountID f.id hcoarse (fun _ _ h => h) results hstore 0
  obtain ⟨hfolders, hevents, hrows⟩ := hkeeps (.faulty fault) (fun _ _ h => h) w.state ⟨rfl, rfl, h.rows⟩
  refine ⟨hmissed, f, rfl, ?_, h.inbox, h.valid, h.next, h.owed, fun x hx hfolder hle => ?_⟩
  · exact (congrArg (Table.get? · f.id) hfolders).trans h.row
  · exact (congrArg (passed · x.uid.val) hevents).trans (hrows x hx hfolder hle)

theorem kept_step (hrules : m.rules = some r) (hr : r.OnlyTakes) {a : Arrival κ ρ} (h : w.Kept folderID)
    (hcan : w.can folderID a) (hheeds : w.Heeds m r folderID a) (hstep : w.step m folderID base a = some w') :
    w'.Kept folderID := by
  cases a with
  | user change =>
      obtain rfl := Option.some.inj hstep
      exact kept_takes h hcan
  | round c now env =>
      obtain ⟨hmissed, f, rfl, hf⟩ := h
      obtain ⟨g, hg, rfl⟩ := Option.map_eq_some_iff.mp hstep
      obtain rfl := Option.some.inj (hf.row.symm.trans hg)
      obtain ⟨hbreak, hgains, hgo⟩ := hheeds f hg
      exact kept_round hrules hr hmissed hf hcan.1 (hcan.2 f hg) hbreak hgains hgo
  | search results fault =>
      obtain ⟨hmissed, f, rfl, hf⟩ := h
      obtain ⟨g, hg, rfl⟩ := Option.map_eq_some_iff.mp hstep
      obtain rfl := Option.some.inj (hf.row.symm.trans hg)
      exact kept_search hmissed hf m.digest (hheeds f hg)

/-- **No new mail of an inbox is missed** in a run that heeds what the rounds need: each that was fetched and
is still there when the rules of a round that comes to its end are through was handed to them. -/
theorem nothing_missed (hrules : m.rules = some r) (hr : r.OnlyTakes) {w₀ : Inbox ρ} (hstart : w₀.Start folderID base)
    (hrun : Run (Inbox.step m folderID base) (fun w a => w.can folderID a ∧ w.Heeds m r folderID a) w₀ w) :
    w.missed = [] :=
  (hrun.invariant (I := Inbox.Kept folderID) (fun _ _ _ h hok hstep => kept_step hrules hr h hok.1 hok.2 hstep)
    (kept_start hstart)).missed

end Kept

end Sync

namespace Sync

open Proc FlyMail.Message

/-- The rules of the rule service only take mails away, if those who act for them do no more. -/
theorem ruleRunner_onlyTakes {κ : Type} {unescape : Text → Text} {renv : State RuleBook → Rules.Env} {actor : Actor}
    (hactor : ∀ calls s, Takes s (actor.act calls s)) :
    (ruleRunner unescape renv actor : RuleRunner κ RuleBook).OnlyTakes := by
  intro s₀ accountID f rows env _ s hs
  have hread : ∀ rules, Takes s { s with rules := rules } := fun _ => ⟨.refl _, rfl, rfl, rfl⟩
  exact hs.trans ((hread _).trans (hactor _ _))

/-! ### A mail that comes in, and a round that breaks off behind it -/

/-- Rules that match no mail. -/
private def idleRules : RuleRunner Unit Unit := ⟨fun _ _ _ => pure false, fun _ _ => pure []⟩

private theorem idleRules_takes : idleRules.OnlyTakes := fun _ _ _ _ => keeps_pure _

private def watched : Manager Unit Unit := ⟨id, 1000, fun _ _ _ => .inbox, some idleRules⟩

private def newcomer : ParsedEmail where
  messageID := []
  uid := .numbered 2
  inReplyTo := []
  references := []
  subject := []
  sender := []
  toList := []
  ccList := []
  date := 0
  size := 0
  flags := []
  isRead := false
  isStarred := false

/-- A server with one mail. -/
private def sending (uidNext : Nat) : FullSession where
  listFolders := []
  selectFolder _ := ⟨1, 1, uidNext⟩
  statusUIDValidity _ := none
  statusUIDNext _ := none
  fetchByUIDRange _ a b := [newcomer].filter fun e => decide (a ≤ e.uid.val ∧ e.uid.val ≤ b)
  fetchBySeqRange _ _ _ := []
  fetchByUIDs _ _ := []

private theorem sending_serves {uidNext : Nat} {f : Folder} (hvalid : f.uidValidity = 1) (hnext : f.uidNext ≤ uidNext)
    (hfits : uidNext < 2 ^ 32) : Serves (sending uidNext).toSession f :=
  ⟨hvalid.symm, hnext, hfits, fun _ _ _ he _ => of_decide_eq_true (List.mem_filter.mp he).2⟩

/-- An empty inbox that was synced. -/
private def syncedFolder : Folder := { Folder.bare 1 1 "INBOX".toList .inbox with uidValidity := 1, uidNext := 2 }

private def settledInbox : Inbox Unit := ⟨⟨⟨.empty, .single syncedFolder, .empty⟩, ⟨[], []⟩, [], [], [], ()⟩, [], []⟩

private theorem settledInbox_start : settledInbox.Start 1 2 :=
  ⟨⟨syncedFolder, rfl, rfl, by decide, rfl⟩, by decide, fun _ hx => absurd hx List.not_mem_nil, rfl, rfl⟩

/-- A round in which one statement fails. -/
private def roundFailing (uidNext : Nat) (i : FolderStmt Unit) : Arrival Unit Unit :=
  .round (sending uidNext) 0 (.faulty fun j => if j = i then .fail else .none)

private theorem interrupted_failing {i : FolderStmt Unit} (hi : i.overNetwork = true) :
    Interrupted (Env.faulty fun j => if j = i then .fail else .none : Env (FolderStmt Unit) (State Unit)) := by
  refine ⟨fun _ s => .refl s, fun j hj => if_neg ?_, fun j => ?_⟩
  · rintro rfl
    rw [hi] at hj
    cases hj
  · show (if j = i then Fault.fail else .none) ≠ .crash
    split
    · decide
    · decide

/-- **A mail is missed**: the round that brings it breaks off at the next batch, and the next round takes it
for an old one. -/
theorem broken_round_misses : settledInbox.Start 1 2 ∧ ∃ w,
    Run (Inbox.step watched 1 2) (fun w a => w.can 1 a) settledInbox w ∧ w.missed = [2] := by
  let a₁ := roundFailing 300 (.sync (.batch 202 .fetch))
  let a₂ := roundFailing 300 .selectBodies
  let w₁ := settledInbox.round watched 2 syncedFolder (sending 300) 0
    (.faulty fun j => if j = .sync (.batch 202 .fetch) then .fail else .none)
  have hcan₁ : settledInbox.can 1 a₁ := by
    refine ⟨interrupted_failing rfl, fun f hf => ?_⟩
    obtain rfl := Option.some.inj hf
    exact sending_serves rfl (by decide) (by decide)
  have hstored : (Folder.Repository.getByID w₁.state.db 1).map (fun f => (f.uidValidity, f.uidNext)) = some (1, 2) := by
    decide +kernel
  have hcan₂ : w₁.can 1 a₂ := by
    refine ⟨interrupted_failing rfl, fun f hf => ?_⟩
    rw [hf] at hstored
    obtain ⟨hvalid, hnext⟩ := Prod.mk.inj (Option.some.inj hstored)
    exact sending_serves hvalid (by omega) (by decide)
  have hends : (w₁.step watched 1 2 a₂).map Inbox.missed = some [2] := by decide +kernel
  obtain ⟨w, hw, hmissed⟩ := Option.map_eq_some_iff.mp hends
  exact ⟨settledInbox_start, w, .tail (.tail .refl hcan₁ (rfl : _ = some w₁)) hcan₂ hw, hmissed⟩

theorem nothing_missed_newcomer : ∃ w, passed w.state.events 2 = true ∧
    Run (Inbox.step watched 1 2) (fun w a => w.can 1 a ∧ w.Heeds watched idleRules 1 a) settledInbox w ∧
      w.missed = [] := by
  let a := roundFailing 3 .selectBodies
  have hcan : settledInbox.can 1 a := by
    refine ⟨interrupted_failing rfl, fun f hf => ?_⟩
    obtain rfl := Option.some.inj hf
    exact sending_serves rfl (by decide) (by decide)
  have hheeds : settledInbox.Heeds watched idleRules 1 a := by
    intro f hf
    obtain rfl := Option.some.inj hf
    refine ⟨fun hbroken => ?_, .inr ?_, fun _ _ _ _ => ⟨false, rfl⟩⟩
    · revert hbroken
      decide +kernel
    · decide +kernel
  have hends : (settledInbox.step watched 1 2 a).map (fun w => passed w.state.events 2) = some true := by
    decide +kernel
  obtain ⟨w, hw, hpassed⟩ := Option.map_eq_some_iff.mp hends
  have hrun : Run (Inbox.step watched 1 2) (fun w a => w.can 1 a ∧ w.Heeds watched idleRules 1 a) settledInbox w :=
    .tail .refl ⟨hcan, hheeds⟩ hw
  exact ⟨w, hpassed, hrun, nothing_missed rfl idleRules_takes settledInbox_start hrun⟩

end Sync

end FlyMail
