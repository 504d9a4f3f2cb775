/-
What was there before the first round is not reported as new.

A round does not remember which mails were there when the folder was first synchronised.  It
asks the server for what lies behind its anchor, and takes for new what got a new row.  So an
old mail is handed to the rules, and announced, as soon as it is asked for again and its row
is gone; and without a UIDNEXT the anchor is the largest UID among the rows that are left.

`World.fair` says of a round that it finds a row for every old mail the server may send it.
A round whose server says which UID comes next is never sent an old mail, and that is
`knowsOld_of_uidNext`.
-/
import FlyMail.Proofs.Pending
import FlyMail.Proofs.Rules
import FlyMail.Proofs.Suppress
import FlyMail.Sync.RuleRunner

namespace FlyMail.Sync

open Proc FlyMail.Message

variable {κ ρ : Type}

/-! ### What a round reports -/

/-- One of the rows is the mail's. -/
def Among (rows : List FlyMail.Message) (m : FlyMail.Message) : Prop :=
  ∃ r ∈ rows, r.id = m.id ∧ r.uid = m.uid

/-- The event is about mails of these rows and about no more of them than there are. -/
def Event.about (rows : List FlyMail.Message) : Event → Prop
  | .rules page => ∀ m ∈ page, Among rows m
  | .notify nm => (∀ m ∈ nm.unseen, Among rows m) ∧ nm.unseenTotal ≤ rows.length

/-- What left a round. -/
structure Handed where
  event : Event
  /-- The rows the round brought. -/
  brought : List FlyMail.Message
  /-- The UID that came next on the server when the folder's first round was over. -/
  base : Option Nat
  deriving DecidableEq, Repr

/-- It is about mails that came in after the first round. -/
def Handed.IsNew (h : Handed) : Prop :=
  h.event.about h.brought ∧ ∃ base, h.base = some base ∧ ∀ m ∈ h.brought, base ≤ m.uid.val

/-! ### What happens to folders -/

/-- The folders of an account, and what left their rounds. -/
structure World (ρ : Type) where
  state : State ρ
  /-- Of each folder whose first round is over, the UID that came next on the server by then. -/
  base : Nat → Option Nat
  handed : List Handed

inductive Happening (κ : Type)
  /-- A round of a folder. When it is over, `next` is the UID that comes next on the server. -/
  | round (folderID : Nat) (c : FullSession) (now : Time) (fault : FolderStmt κ → Fault) (next : Nat)
  | user (o : Order) (c : Call) (now : Time) (fault : Site → Fault)
  /-- What a search on the server found is stored. -/
  | search (accountID folderID : Nat) (results : List FetchedEmail) (fault : Nat × SearchStmt → Fault)
  /-- The folders of an account are listed. -/
  | folders (accountID : Nat) (c : Session) (fault : Folder.ListStmt → Fault)

/-- The rows a round of the folder brings. -/
def Manager.brings (m : Manager κ ρ) (f : Folder) (c : FullSession) (fault : FolderStmt κ → Fault)
    (s : State ρ) : List FlyMail.Message :=
  newRows (m.fetchFolder f c (.faulty fault) s).2.db f.id (Repository.maxIDByFolder s.db f.id)

/-- A round. The first one that is written down is the folder's first round. -/
def World.round (m : Manager κ ρ) (w : World ρ) (f : Folder) (c : FullSession) (now : Time)
    (fault : FolderStmt κ → Fault) (next : Nat) : World ρ :=
  let out := m.syncFolder f c now (.faulty fault) w.state
  { state := out.2
    base :=
      if w.base f.id = none ∧ out.1 = .ok () ∧ fault .updateSyncState = .none then
        Function.update w.base f.id (some next)
      else w.base
    handed := w.handed ++ (out.2.events.drop w.state.events.length).map fun e =>
      ⟨e, m.brings f c fault w.state, w.base f.id⟩ }

def World.step (m : Manager κ ρ) (w : World ρ) : Happening κ → Option (World ρ)
  | .round folderID c now fault next =>
      (Folder.Repository.getByID w.state.db folderID).map fun f => w.round m f c now fault next
  | .user o c now fault =>
      some { w with state := { w.state with db := (c.run o now (.faulty fault) w.state.db).2 } }
  | .search accountID folderID results fault =>
      some { w with
        state := (storeResults m.digest Prod.mk accountID folderID 0 results (.faulty fault) w.state).2 }
  | .folders accountID c fault =>
      some { w with
        state := (Folder.syncFolders m.classifyFolder id accountID c (.faulty fault) w.state).2 }

/-! ### When old mails stay old -/

/-- The lookups of the round that fail. -/
def failing (fault : FolderStmt κ → Fault) : Lookups :=
  ⟨fault (.sync .statusUIDValidity) == .fail, fault (.sync .statusUIDNext) == .fail,
    fault (.sync .maxUIDBefore) == .fail⟩

/-- Every mail from below `base` that the round may be sent has a row. -/
def KnowsOld (syncDepth : Nat) (c : Session) (db : DB) (f : Folder) (l : Lookups) (base : Nat) : Prop :=
  ∀ b ∈ requests syncDepth c db f l, ∀ e ∈ b.2, e.uid.val < base →
    ∃ r ∈ db.messages.rows, r.key = (f.id, e.uid)

/-- The round imports the folder anew; or it is the first and finds no rows; or the largest key
is looked up and the old mails are known. -/
def World.fair (m : Manager κ ρ) (w : World ρ) : Happening κ → Prop
  | .round folderID c _ fault _ =>
      ∀ f, Folder.Repository.getByID w.state.db folderID = some f →
        rebuilds c.toSession f (failing fault) = true ∨
          match w.base folderID with
          | none => f.uidNext = 0 ∧ ∀ r ∈ w.state.db.messages.rows, r.folderID ≠ f.id
          | some base =>
              fault (.sync .maxIDBefore) ≠ .fail ∧
                KnowsOld m.syncDepth c.toSession w.state.db f (failing fault) base
  | _ => True

/-- The rules take mails away, and do not bring any. -/
def Fewer (d d' : DB) : Prop :=
  ∀ m' ∈ d'.messages.rows, ∃ m ∈ d.messages.rows,
    m.id = m'.id ∧ m.uid = m'.uid ∧ m.folderID = m'.folderID

structure RuleRunner.TakesAway (r : RuleRunner κ ρ) : Prop where
  apply : ∀ accountID f rows fault s,
    (r.apply accountID f rows (.faulty fault) s).2.events = s.events ∧
      Fewer s.db (r.apply accountID f rows (.faulty fault) s).2.db
  handled : ∀ accountID rows fault s,
    (r.handled accountID rows (.faulty fault) s).2.events = s.events ∧
      Fewer s.db (r.handled accountID rows (.faulty fault) s).2.db

/-! ### What is left of what a round brought -/

section Fewer

variable {d d' d'' : DB} {folderID afterID : Nat}

theorem Fewer.refl (d : DB) : Fewer d d := fun m hm => ⟨m, hm, rfl, rfl, rfl⟩

theorem Fewer.trans (h : Fewer d d') (h' : Fewer d' d'') : Fewer d d'' := by
  intro m'' hm''
  obtain ⟨m', hm', hid', huid', hfolder'⟩ := h' m'' hm''
  obtain ⟨m, hm, hid, huid, hfolder⟩ := h m' hm'
  exact ⟨m, hm, hid.trans hid', huid.trans huid', hfolder.trans hfolder'⟩

theorem fewer_of_same (h : SameMails d d') : Fewer d d' := by
  intro m' hm'
  obtain ⟨m, hm, hcore⟩ := h.exists_core hm'
  refine ⟨m, hm, ?_⟩
  show m.core.id = m'.core.id ∧ m.core.uid = m'.core.uid ∧ m.core.folderID = m'.core.folderID
  rw [hcore]
  exact ⟨rfl, rfl, rfl⟩

theorem among_newRows (h : Fewer d d') {m : FlyMail.Message} (hm : m ∈ newRows d' folderID afterID) :
    Among (newRows d folderID afterID) m := by
  obtain ⟨hmem, hnew⟩ := List.mem_filter.mp hm
  obtain ⟨r, hr, hid, huid, hfolder⟩ := h m hmem
  refine ⟨r, List.mem_filter.mpr ⟨hr, ?_⟩, hid, huid⟩
  rw [hfolder, hid]
  exact hnew

/-- Rows with different keys, all of them keys of other rows, are no more than those. -/
theorem length_le_of_ids {l k : List FlyMail.Message} (hl : (l.map FlyMail.Message.id).Nodup)
    (h : ∀ m ∈ l, ∃ r ∈ k, r.id = m.id) : l.length ≤ k.length := by
  have hsub : l.map FlyMail.Message.id ⊆ k.map FlyMail.Message.id := by
    intro id hid
    obtain ⟨m, hm, rfl⟩ := List.mem_map.mp hid
    obtain ⟨r, hr, heq⟩ := h m hm
    exact List.mem_map.mpr ⟨r, hr, heq⟩
  have hle := (List.subperm_of_subset hl hsub).length_le
  rwa [List.length_map, List.length_map] at hle

theorem length_newRows_le (h : Fewer d d') :
    (newRows d' folderID afterID).length ≤ (newRows d folderID afterID).length := by
  refine length_le_of_ids (d'.messages.nodup_pk List.filter_sublist) fun m hm => ?_
  obtain ⟨r, hr, hid, -⟩ := among_newRows h hm
  exact ⟨r, hr, hid⟩

/-- What is loaded and counted of the new mails is about them. -/
theorem about_loaded (h : Fewer d d') {nm : NewMail}
    (hunseen : nm.unseen = [] ∨
      nm.unseen = Repository.unseenAfterID d' folderID afterID newMailUnseenCap)
    (htotal : nm.unseenTotal ≤ Repository.countUnseenAfterID d' folderID afterID) :
    (Event.notify nm).about (newRows d folderID afterID) := by
  have hunread : newUnread d' folderID afterID ⊆ newRows d' folderID afterID := List.filter_subset_self _
  refine ⟨fun m hm => ?_, ?_⟩
  · rcases hunseen with hnil | hload
    · rw [hnil] at hm
      exact absurd hm List.not_mem_nil
    · rw [hload] at hm
      refine among_newRows h (hunread ?_)
      rw [newUnread_eq]
      exact List.mem_of_mem_take hm
  · have hcount : Repository.countUnseenAfterID d' folderID afterID
        = (newUnread d' folderID afterID).length := by
      rw [newUnread_eq, ← List.countP_eq_length_filter]
      rfl
    calc nm.unseenTotal ≤ (newUnread d' folderID afterID).length := hcount ▸ htotal
      _ ≤ (newRows d' folderID afterID).length := List.length_filter_le _ _
      _ ≤ (newRows d folderID afterID).length := length_newRows_le h

end Fewer

/-! ### Fetching -/

/-- The rows behind the key are of mails from `base` on, and old mails that may be sent are
known. -/
structure Past (reqs : List (Nat × List ParsedEmail)) (folderID afterID base : Nat) (d : DB) : Prop where
  fresh : ∀ r ∈ d.messages.rows, r.folderID = folderID → afterID < r.id → base ≤ r.uid.val
  known : ∀ b ∈ reqs, ∀ e ∈ b.2, e.uid.val < base → ∃ r ∈ d.messages.rows, r.key = (folderID, e.uid)

section Past

variable {reqs : List (Nat × List ParsedEmail)} {folderID afterID base : Nat} {d : DB}

theorem coarse_past : Coarse (Past reqs folderID afterID base) := by
  intro d d' hsame h
  refine ⟨fun r hr hfolder hid => ?_, fun b hb e he hold => ?_⟩
  · obtain ⟨r₀, hr₀, heq, huid, hsameFolder⟩ := fewer_of_same hsame r hr
    rw [← huid]
    exact h.fresh r₀ hr₀ (hsameFolder.trans hfolder) (heq ▸ hid)
  · obtain ⟨r₀, hr₀, hkey⟩ := h.known b hb e he hold
    obtain ⟨r, hr, -, huid, hsameFolder⟩ := fewer_of_same hsame.symm r₀ hr₀
    refine ⟨r, hr, ?_⟩
    rw [← hkey, FlyMail.Message.key, FlyMail.Message.key, huid, hsameFolder]

/-- **No old mail gets a new row**: it has one. -/
theorem Past.upsert (h : Past reqs folderID afterID base d) (accountID : Nat)
    {b : Nat × List ParsedEmail} (hb : b ∈ reqs) {e : ParsedEmail} (he : e ∈ b.2) :
    Past reqs folderID afterID base (Repository.upsert (toMessage accountID folderID e) d) := by
  refine ⟨fun r hr hfolder hid => ?_, fun b' hb' e' he' hold => ?_⟩
  · rcases Repository.mem_upsert.mp hr with ⟨hr, -⟩ | ⟨a, ha, -, rfl⟩ | ⟨hnone, rfl⟩
    · exact h.fresh r hr hfolder hid
    · exact h.fresh a ha hfolder hid
    · refine Nat.le_of_not_lt fun hold => ?_
      obtain ⟨a, ha, hkey⟩ := h.known b hb e he hold
      exact hnone a ha hkey
  · obtain ⟨a, ha, hkey⟩ := h.known b' hb' e' he' hold
    by_cases hown : a.key = (toMessage accountID folderID e).key
    · exact ⟨_, Repository.mem_upsert.mpr (Or.inr (Or.inl ⟨a, ha, hown, rfl⟩)), hkey⟩
    · exact ⟨a, Repository.mem_upsert.mpr (Or.inl ⟨ha, hown⟩), hkey⟩

theorem foldl_max_le_iff {l : List Nat} : ∀ {n b : Nat}, l.foldl max n ≤ b ↔ n ≤ b ∧ ∀ k ∈ l, k ≤ b := by
  induction l with
  | nil => simp
  | cons k rest ih =>
      intro n b
      rw [List.foldl_cons, ih, Nat.max_le, List.forall_mem_cons, and_assoc]

theorem le_maxIDByFolder {m : FlyMail.Message} (hm : m ∈ d.messages.rows)
    (hfolder : m.folderID = folderID) : m.id ≤ Repository.maxIDByFolder d folderID := by
  have hall := (foldl_max_le_iff.mp (Nat.le_refl (Repository.maxIDByFolder d folderID))).2
  exact hall m.id (List.mem_map_of_mem (List.mem_filter.mpr ⟨hm, by simpa using hfolder⟩))

theorem past_start (h : ∀ b ∈ reqs, ∀ e ∈ b.2, e.uid.val < base →
      ∃ r ∈ d.messages.rows, r.key = (folderID, e.uid)) :
    Past reqs folderID (Repository.maxIDByFolder d folderID) base d :=
  ⟨fun _ hr hfolder hid => absurd (le_maxIDByFolder hr hfolder) (Nat.not_le_of_lt hid), h⟩

end Past

section Incremental

variable {ι σ : Type} [HasDB σ] {at_ : SyncStmt → ι} {φ : ι → Fault} {s : σ}

/-- What a round says is new is behind the key. -/
structure NewBehind (d : DB) (folderID afterID : Nat) (nm : NewMail) : Prop where
  key : nm.afterID = afterID
  about : (Event.notify nm).about (newRows d folderID afterID)

theorem ends_newMail (folderID prevUIDNext before afterID total : Nat) :
    Ends (.faulty φ) s (newMail at_ folderID prevUIDNext before afterID total :
        Proc ι Message.Err σ NewMail)
      (fun nm t => t = s ∧ NewBehind (db s) folderID afterID nm ∧
        (before = 0 → prevUIDNext = 0 → nm.baseline = true ∧ nm.unseenTotal = 0)) (fun t => t = s) := by
  have habout : ∀ nm : NewMail, nm.unseen = [] → nm.unseenTotal = 0 →
      (Event.notify nm).about (newRows (db s) folderID afterID) := fun nm hunseen htotal =>
    about_loaded (Fewer.refl _) (Or.inl hunseen) (htotal ▸ Nat.zero_le _)
  unfold newMail
  dsimp only
  split
  · refine ends_pure ⟨rfl, ⟨rfl, habout _ rfl rfl⟩, fun hbefore hprev => ⟨?_, rfl⟩⟩
    simp [hbefore, hprev]
  · rename_i hnew
    have hlater : ∀ nm : NewMail, before = 0 → prevUIDNext = 0 → nm.baseline = true ∧ nm.unseenTotal = 0 :=
      fun _ hbefore hprev => absurd (Or.inl (by simp [hbefore, hprev])) hnew
    refine ends_bind (ends_default ?_ rfl)
    generalize htotal : (if φ (at_ .countUnseen) == .fail then 0
      else Repository.countUnseenAfterID (db s) folderID afterID) = n
    have hle : n ≤ Repository.countUnseenAfterID (db s) folderID afterID := by
      rw [← htotal]
      split
      · exact Nat.zero_le _
      · exact Nat.le_refl _
    split
    · exact ends_pure ⟨rfl, ⟨rfl, habout _ rfl rfl⟩, hlater _⟩
    · refine ends_bind (ends_default ?_ rfl)
      refine ends_pure ⟨rfl, ⟨rfl, about_loaded (Fewer.refl _) ?_ hle⟩, hlater _⟩
      dsimp only
      split
      · exact Or.inl rfl
      · exact Or.inr rfl

variable {digest : Text → Text} {syncDepth : Nat} {c : Session} {f : Folder}

/-- **A baseline has nothing to say.** -/
theorem ends_incrementalSync_first (digest : Text → Text) (syncDepth : Nat)
    (h : rebuilds c f ⟨φ (at_ .statusUIDValidity) == .fail, φ (at_ .statusUIDNext) == .fail,
        φ (at_ .maxUIDBefore) == .fail⟩ = true ∨
      f.uidNext = 0 ∧ ∀ r ∈ (db s).messages.rows, r.folderID ≠ f.id) :
    Ends (.faulty φ) s (incrementalSync digest syncDepth at_ c f.accountID f.id f.path f.uidValidity
        f.uidNext : Proc ι Message.Err σ _)
      (fun a _ => a.2.baseline = true ∧ a.2.unseenTotal = 0) fun _ => True := by
  unfold incrementalSync
  refine ends_bind (ends_ask ?_ trivial)
  refine ends_bind (ends_reported ?_ trivial)
  split
  · refine ends_bind (ends_any (fun _ _ => ?_) fun _ => trivial)
    refine ends_bind (ends_any (fun _ _ => ?_) fun _ => trivial)
    exact ends_pure ⟨rfl, rfl⟩
  · rename_i hsame
    obtain ⟨hnext, hnone⟩ := h.resolve_left fun hrebuild => hsame (of_decide_eq_true hrebuild)
    have hcount : Repository.countByFolder (db s) f.id = 0 :=
      List.countP_eq_zero.mpr fun r hr => by simpa using hnone r hr
    refine ends_bind (ends_default ?_ trivial)
    refine ends_bind (ends_any (fun afterID _ => ?_) fun _ => trivial)
    refine ends_bind (ends_any (fun uidNext _ => ?_) fun _ => trivial)
    refine ends_bind (ends_any (fun _ _ => ?_) fun _ => trivial)
    refine ends_bind (ends_any (fun total _ => ?_) fun _ => trivial)
    refine ends_bind (ends_any (fun unread t => ?_) fun _ => trivial)
    refine ends_bind ((ends_newMail f.id f.uidNext _ afterID total).imp (fun nm u hbehind => ?_)
      fun _ _ => trivial)
    refine ends_bind (ends_any (fun _ _ => ?_) fun _ => trivial)
    refine ends_pure (hbehind.2.2 ?_ hnext)
    rw [hcount]
    exact ite_self 0

/-- **What a round says is new is from `base` on**, if it knows the old mails it may be sent. -/
theorem ends_incrementalSync_past (digest : Text → Text) {base : Nat} {l : Lookups}
    (hl : l = ⟨φ (at_ .statusUIDValidity) == .fail, φ (at_ .statusUIDNext) == .fail,
      φ (at_ .maxUIDBefore) == .fail⟩)
    (hrebuild : rebuilds c f l = false) (hmax : φ (at_ .maxIDBefore) ≠ .fail)
    (hknows : KnowsOld syncDepth c (db s) f l base) :
    Ends (.faulty φ) s (incrementalSync digest syncDepth at_ c f.accountID f.id f.path f.uidValidity
        f.uidNext : Proc ι Message.Err σ _)
      (fun a t => Past (requests syncDepth c (db s) f l) f.id (Repository.maxIDByFolder (db s) f.id)
          base (db t) ∧
        NewBehind (db t) f.id (Repository.maxIDByFolder (db s) f.id) a.2)
      (fun t => Past (requests syncDepth c (db s) f l) f.id (Repository.maxIDByFolder (db s) f.id)
        base (db t)) := by
  let I := Past (requests syncDepth c (db s) f l) f.id (Repository.maxIDByFolder (db s) f.id) base
  have hs : I (db s) := past_start hknows
  have hreqs : requests syncDepth c (db s) f l
      = newRequests syncDepth c f.path f.uidNext (c.selectFolder f.path).numMessages
          (saidIf l.statusUIDNext (c.selectFolder f.path).uidNext (c.statusUIDNext f.path))
          (maxUIDIf l.maxUIDBefore (db s) f.id) := if_neg (by simp [hrebuild])
  unfold incrementalSync
  refine ends_bind (ends_ask ?_ hs)
  refine ends_bind (ends_reported ?_ hs)
  split
  · rename_i hother
    subst hl
    exact absurd (hrebuild.symm.trans (decide_eq_true hother)) (by decide)
  · refine ends_bind (ends_default ?_ hs)
    refine ends_bind (ends_default ?_ hs)
    have hfine : (φ (at_ .maxIDBefore) == .fail) = false := by simpa using hmax
    rw [hfine]
    refine ends_bind (ends_reported ?_ hs)
    have hup : ∀ b ∈ newRequests syncDepth c f.path f.uidNext (c.selectFolder f.path).numMessages
        (saidIf (φ (at_ .statusUIDNext) == .fail) (c.selectFolder f.path).uidNext
          (c.statusUIDNext f.path)) (maxUIDIf (φ (at_ .maxUIDBefore) == .fail) (db s) f.id),
        ∀ e ∈ b.2, ∀ d, I d → I (Repository.upsert (toMessage f.accountID f.id e) d) := by
      intro b hb e he d hd
      refine hd.upsert f.accountID ?_ he
      rw [hreqs, hl]
      exact hb
    refine ends_bind ((fetchNew_leaves coarse_past hup hs).imp (fun _ t ht => ?_) fun _ ht => ht)
    refine ends_bind (ends_default ?_ ht)
    refine ends_bind (ends_default ?_ ht)
    refine ends_bind ((ends_newMail f.id f.uidNext _ _ _).imp (fun nm u hbehind => ?_) fun u hu => ?_)
    · obtain ⟨rfl, hbehind, -⟩ := hbehind
      have hkeeps : ∀ uidValidity uidNext total unread,
          Keeps (fun v : σ => I (db v) ∧ NewBehind (db v) f.id (Repository.maxIDByFolder (db s) f.id) nm)
            (folderState at_ f.id uidValidity uidNext total unread) := keeps_folderState f.id
      refine ends_bind (((hkeeps _ _ _ _).ends (fun _ _ h => h) ⟨ht, hbehind⟩).imp (fun _ v hv => ?_)
        fun v hv => hv.1)
      exact ends_pure hv
    · rw [hu]
      exact ht

end Incremental

/-! ### The rest of a round -/

/-- Mails were taken away since, and what left the round is about the rows. -/
structure Reporting (d : DB) (rows : List FlyMail.Message) (before : List Event) (s : State ρ) :
    Prop where
  fewer : Fewer d s.db
  events : ∃ new, s.events = before ++ new ∧ ∀ e ∈ new, e.about rows

section Rest

variable {d : DB} {before : List Event} {s : State ρ} {f : Folder} {afterID : Nat}
  {fault : FolderStmt κ → Fault} {r : RuleRunner κ ρ}

theorem Reporting.takes {rows : List FlyMail.Message} {t : State ρ} (h : Reporting d rows before s)
    (ht : t.events = s.events ∧ Fewer s.db t.db) : Reporting d rows before t := by
  obtain ⟨new, hevents, habout⟩ := h.events
  exact ⟨h.fewer.trans ht.2, new, ht.1.trans hevents, habout⟩

theorem Reporting.record {rows : List FlyMail.Message} (h : Reporting d rows before s) {e : Event}
    (he : e.about rows) : Reporting d rows before { s with events := s.events ++ [e] } := by
  obtain ⟨new, hevents, habout⟩ := h.events
  refine ⟨h.fewer, new ++ [e], ?_, fun e' he' => ?_⟩
  · show s.events ++ [e] = before ++ (new ++ [e])
    rw [hevents, List.append_assoc]
  · rcases List.mem_append.mp he' with he' | he'
    · exact habout e' he'
    · rw [List.mem_singleton.mp he']
      exact he

/-- **Every page is of what the round brought.** -/
theorem reporting_runRules (hr : r.TakesAway) (fuel : Nat) :
    ∀ page last changed {s : State ρ}, afterID ≤ last →
      Reporting d (newRows d f.id afterID) before s →
      Ends (.faulty fault) s (runRules r f fuel page last changed)
        (fun _ t => Reporting d (newRows d f.id afterID) before t)
        (Reporting d (newRows d f.id afterID) before) := by
  induction fuel with
  | zero => exact fun page last changed s _ h => ends_pure h
  | succ fuel ih =>
      intro page last changed s hlast h
      refine ends_bind (ends_attempt (ends_query (fun rows hrows => ?_) ?_))
      · obtain rfl := Except.ok.inj hrows
        have hpage : ∀ m ∈ Repository.listAfterID s.db f.id last ruleBatchCap,
            m ∈ newRows s.db f.id last := fun m hm => List.mem_of_mem_take hm
        have hbehind : ∀ m ∈ Repository.listAfterID s.db f.id last ruleBatchCap,
            m ∈ newRows s.db f.id afterID ∧ last < m.id := by
          intro m hm
          obtain ⟨hmem, hnew⟩ := List.mem_filter.mp (hpage m hm)
          simp only [Bool.and_eq_true, beq_iff_eq, decide_eq_true_eq] at hnew
          exact ⟨List.mem_filter.mpr ⟨hmem, by simp [hnew.1]; omega⟩, hnew.2⟩
        dsimp only
        split
        · exact ends_pure h
        · rename_i m hm
          have hnext : afterID ≤ m.id := by
            have hlt := (hbehind m (List.mem_of_getLast? hm)).2
            omega
          have habout : (Event.rules (Repository.listAfterID s.db f.id last ruleBatchCap)).about
              (newRows d f.id afterID) := fun m hm => among_newRows h.fewer (hbehind m hm).1
          have happly := (h.record habout).takes (hr.apply f.accountID f
            (Repository.listAfterID s.db f.id last ruleBatchCap) (fun i => fault (.apply page i)) _)
          refine ends_bind (ends_of_ok rfl (ends_bind (ends_attempt ?_)))
          refine (ends_of_left (p := relabel (FolderStmt.apply page) _) happly).imp (fun c t ht => ?_)
            fun t ht => ⟨fun e => ends_pure ht, ht⟩
          dsimp only
          split
          · exact ends_pure ht
          · exact ih _ _ _ hnext ht
      · exact ⟨fun e => ends_pure h, h⟩

variable {nm : NewMail}

/-- What is announced in the end is about what the round brought. -/
abbrev Announces (d : DB) (f : Folder) (afterID : Nat) (before : List Event) (nm : NewMail)
    (s : State ρ) : Prop :=
  (Event.notify nm).about (newRows d f.id afterID) ∧ Reporting d (newRows d f.id afterID) before s

theorem reporting_refreshNewMail (hkey : nm.afterID = afterID)
    (h : Reporting d (newRows d f.id afterID) before s) :
    Ends (.faulty fault) s (refreshNewMail f nm) (Announces d f afterID before)
      (Reporting d (newRows d f.id afterID) before) := by
  unfold refreshNewMail
  refine ends_bind (ends_default ?_ h)
  rw [State.db_eq, hkey]
  generalize htotal : (if fault .countUnseen == .fail then 0
    else Repository.countUnseenAfterID s.db f.id afterID) = n
  have hle : n ≤ Repository.countUnseenAfterID s.db f.id afterID := by
    rw [← htotal]
    split
    · exact Nat.zero_le _
    · exact Nat.le_refl _
  split
  · exact ends_pure ⟨about_loaded h.fewer (Or.inl rfl) (Nat.zero_le _), h⟩
  · refine ends_bind (ends_default ?_ h)
    refine ends_pure ⟨about_loaded h.fewer ?_ hle, h⟩
    dsimp only
    split
    · exact Or.inl rfl
    · exact Or.inr rfl

theorem reporting_suppressHandled (hr : r.TakesAway) (h : Announces d f afterID before nm s) :
    Ends (.faulty fault) s (suppressHandled r f nm) (Announces d f afterID before)
      (Reporting d (newRows d f.id afterID) before) := by
  unfold suppressHandled
  split
  · exact ends_pure h
  · refine ends_bind (ends_default ?_ h.2)
    generalize (if fault .listNew == .fail then []
      else Repository.listAfterID (db s) f.id nm.afterID ruleBatchCap) = rows
    split
    · exact ends_pure h
    · have hleft := h.2.takes (hr.handled f.accountID rows (fun i => fault (.handled i)) s)
      refine ends_bind (ends_withDefault (p := relabel FolderStmt.handled (r.handled f.accountID rows))
        ((ends_of_left hleft).imp (fun handled t ht => ?_) fun t ht => ⟨?_, ht⟩))
      · split
        · exact ends_pure ⟨h.1, ht⟩
        · refine ends_pure ⟨⟨fun m hm => h.1.1 m (List.mem_filter.mp hm).1, ?_⟩, ht⟩
          exact Nat.le_trans (Nat.sub_le _ _) h.1.2
      · exact ends_pure ⟨h.1, ht⟩

theorem reporting_applyRules {rules : Option (RuleRunner κ ρ)} (hr : ∀ r ∈ rules, r.TakesAway)
    (state : FolderState) (hkey : nm.afterID = afterID) (h : Announces d f afterID before nm s) :
    Ends (.faulty fault) s (applyRules rules f state nm)
      (fun a t => Announces d f afterID before a.2 t)
      (Reporting d (newRows d f.id afterID) before) := by
  unfold applyRules
  split
  · exact ends_pure h
  · rename_i r
    have hr := hr r rfl
    split
    · exact ends_pure h
    split
    · unfold inboxRules
      refine ends_bind (ends_of_ok rfl (ends_bind ?_))
      refine (reporting_runRules hr _ _ _ _ (Nat.le_of_eq hkey.symm) h.2).imp (fun a t ht => ?_)
        fun _ ht => ht
      dsimp only
      split
      · refine ends_bind (ends_default ?_ ht)
        refine ends_bind (ends_default ?_ ht)
        refine ends_bind ((reporting_refreshNewMail hkey ht).imp (fun nm' u hu => ?_) fun _ hu => hu)
        exact ends_pure hu
      · exact ends_pure ⟨h.1, ht⟩
    split
    · exact ends_bind ((reporting_suppressHandled hr h).imp (fun _ _ hu => ends_pure hu) fun _ hu => hu)
    · exact ends_pure h

/-- What a round does after fetching. -/
def Manager.finish (m : Manager κ ρ) (f : Folder) (now : Time) (a : FolderState × NewMail) :
    FolderProg κ ρ Unit := do
  let (state, nm) ← applyRules m.rules f a.1 a.2
  withDefault (updateDB .updateSyncState .db (Folder.Repository.updateSyncState f.id
    state.uidValidity state.uidNext state.total state.unread now)) ()
  announceNew f nm now

variable {m : Manager κ ρ} {now : Time} {a : FolderState × NewMail}

/-- A property the end of a round keeps. -/
theorem keeps_updateSyncState {J : State ρ → Prop} (hJ : ∀ s d, d.messages = s.db.messages → J s →
      J { s with db := d }) (f : Folder) (state : FolderState) (now : Time) :
    Keeps J (withDefault (updateDB .updateSyncState .db (Folder.Repository.updateSyncState f.id
      state.uidValidity state.uidNext state.total state.unread now)) () : FolderProg κ ρ Unit) :=
  keeps_withDefault (keeps_updateDB fun s hs => hJ s _ rfl hs) ()

/-- **All that announcing leaves in the events** is one about what is announced. -/
theorem events_announceNew (f : Folder) (nm : NewMail) (now : Time)
    (env : Env (FolderStmt κ) (State ρ)) (s : State ρ) :
    ∃ t, announceNew f nm now env s = (.ok (), t) ∧ t.db = s.db ∧
      (t.events = s.events ∨ 0 < nm.unseenTotal ∧ t.events = s.events ++ [.notify nm]) := by
  let told := Notify.notifyNewMail f.accountID f.type nm now (snippetOf env.fault s.db) s.seen
  refine ⟨_, rfl, rfl, ?_⟩
  show s.events ++ (if told.2 = [] then [] else [.notify nm]) = s.events ∨ 0 < nm.unseenTotal ∧
    s.events ++ (if told.2 = [] then [] else [.notify nm]) = s.events ++ [.notify nm]
  by_cases htold : told.2 = []
  · rw [if_pos htold, List.append_nil]
    exact Or.inl rfl
  · rw [if_neg htold]
    refine Or.inr ⟨Nat.pos_of_ne_zero fun hzero => htold ?_, rfl⟩
    show (Notify.notifyNewMail _ _ _ _ _ _).2 = []
    unfold Notify.notifyNewMail
    rw [if_neg (by simp [hzero])]

theorem silent_finish (hbase : a.2.baseline = true) (hzero : a.2.unseenTotal = 0) :
    Ends (.faulty fault) s (m.finish f now a) (fun _ t => t.events = s.events)
      (fun t => t.events = s.events) := by
  unfold Manager.finish
  have happly : applyRules m.rules f a.1 a.2 = (pure a : FolderProg κ ρ _) := by
    unfold applyRules
    split
    · rfl
    · exact if_pos (Or.inl hbase)
  rw [happly]
  have hkeeps : Keeps (fun t : State ρ => t.events = s.events) (withDefault (updateDB .updateSyncState
      .db (Folder.Repository.updateSyncState f.id a.1.uidValidity a.1.uidNext a.1.total a.1.unread now))
      () : FolderProg κ ρ Unit) := keeps_updateSyncState (fun _ _ _ h => h) f a.1 now
  refine ends_bind (ends_of_ok rfl (ends_bind ?_))
  refine (hkeeps.ends (fun _ _ h => h) rfl).imp (fun _ t ht => ?_) fun _ ht => ht
  obtain ⟨u, hu, -, hevents⟩ := events_announceNew f a.2 now (Env.faulty fault) t
  refine ends_of_ok hu ?_
  rcases hevents with hnone | ⟨hsome, -⟩
  · exact hnone.trans ht
  · omega

/-- **What leaves the rest of a round is about what it brought.** -/
theorem reporting_finish (hr : ∀ r ∈ m.rules, r.TakesAway) (hbehind : NewBehind s.db f.id afterID a.2) :
    Ends (.faulty fault) s (m.finish f now a)
      (fun _ t => Reporting s.db (newRows s.db f.id afterID) s.events t)
      (Reporting s.db (newRows s.db f.id afterID) s.events) := by
  have hstart : Reporting s.db (newRows s.db f.id afterID) s.events s :=
    ⟨Fewer.refl _, [], (List.append_nil _).symm, fun _ h => absurd h List.not_mem_nil⟩
  unfold Manager.finish
  refine ends_bind ((reporting_applyRules hr a.1 hbehind.key ⟨hbehind.about, hstart⟩).imp
    (fun b t ht => ends_bind ?_) fun _ ht => ht)
  have hkeeps : Keeps (Announces s.db f afterID s.events b.2) (withDefault (updateDB .updateSyncState
      .db (Folder.Repository.updateSyncState f.id b.1.uidValidity b.1.uidNext b.1.total b.1.unread
        now)) () : FolderProg κ ρ Unit) := by
    refine keeps_updateSyncState (fun u d hd hu => ⟨hu.1, fun m' hm' => ?_, hu.2.events⟩) f b.1 now
    exact hu.2.fewer m' (hd ▸ hm')
  refine (hkeeps.ends (fun _ _ h => h) ht).imp (fun _ u hu => ?_) fun _ hu => hu.2
  obtain ⟨v, hv, hdb, hevents⟩ := events_announceNew f b.2 now (Env.faulty fault) u
  have hsame : Fewer u.db v.db := hdb ▸ Fewer.refl _
  refine ends_of_ok hv ?_
  rcases hevents with hnone | ⟨-, hone⟩
  · exact hu.2.takes ⟨hnone, hsame⟩
  · exact (hu.2.record hu.1).takes ⟨hone, hsame⟩

/-! ### A round -/

theorem coarse_newBehind {nm : NewMail} : Coarse fun d => NewBehind d f.id afterID nm := by
  intro d d' hsame h
  have hfewer := fewer_of_same hsame.symm
  refine ⟨h.key, fun m hm => ?_, Nat.le_trans h.about.2 (length_newRows_le hfewer)⟩
  obtain ⟨r, hr, hid, huid⟩ := h.about.1 m hm
  obtain ⟨r', hr', hid', huid'⟩ := among_newRows hfewer hr
  exact ⟨r', hr', hid'.trans hid, huid'.trans huid⟩

theorem events_fetchFolder (m : Manager κ ρ) (f : Folder) (c : FullSession)
    (fault : FolderStmt κ → Fault) (s : State ρ) :
    (m.fetchFolder f c (.faulty fault) s).2.events = s.events := by
  let J : State ρ → Prop := fun t => t.events = s.events
  have hJ : CoarseOn J := fun _ _ _ h => h
  have hkeeps : Keeps J (m.fetchFolder f c) := by
    refine keeps_bind ?_ fun a => keeps_bind ?_ fun _ => keeps_pure _
    · exact keeps_incrementalSync hJ (fun _ _ _ h => h) (fun _ h => h) _ _ _
    · exact keeps_prefetchNewBodies hJ (fun _ _ h => h) _ _ _ _
  exact hkeeps (.faulty fault) (fun _ _ h => h) s rfl

/-- The rest of a round comes after its fetching. -/
theorem syncFolder_eq (m : Manager κ ρ) (f : Folder) (c : FullSession) (now : Time) :
    m.syncFolder f c now = m.fetchFolder f c >>= m.finish f now := rfl

variable {c : FullSession} {base : Nat}

/-- **A first round reports nothing.** -/
theorem first_round_silent (m : Manager κ ρ) (now : Time)
    (h : rebuilds c.toSession f (failing fault) = true ∨
      f.uidNext = 0 ∧ ∀ r ∈ s.db.messages.rows, r.folderID ≠ f.id) :
    (m.syncFolder f c now (.faulty fault) s).2.events = s.events := by
  have hfetch : Ends (.faulty fault) s (m.fetchFolder f c)
      (fun a _ => a.2.baseline = true ∧ a.2.unseenTotal = 0) fun _ => True := by
    refine ends_bind ((ends_incrementalSync_first m.digest m.syncDepth h).imp (fun a t ha => ?_)
      fun _ _ => trivial)
    exact ends_bind (ends_any (fun _ _ => ends_pure ha) fun _ => trivial)
  have hevents := events_fetchFolder m f c fault s
  rw [syncFolder_eq, bind_apply]
  cases hout : m.fetchFolder f c (.faulty fault) s with
  | mk out t =>
      rw [hout] at hevents
      cases out with
      | ok a =>
          obtain ⟨hbase, hzero⟩ := hfetch.ok hout
          exact (silent_finish hbase hzero).left.trans hevents
      | err e => exact hevents
      | dead => exact hevents

/-- **A later round brings no old mail, and reports what it brought.** -/
theorem later_round_reports {m : Manager κ ρ} (hr : ∀ r ∈ m.rules, r.TakesAway) (now : Time)
    (hrebuild : rebuilds c.toSession f (failing fault) = false)
    (hmax : fault (.sync .maxIDBefore) ≠ .fail)
    (hknows : KnowsOld m.syncDepth c.toSession s.db f (failing fault) base) :
    (∀ r ∈ m.brings f c fault s, base ≤ r.uid.val) ∧
      ∃ new, (m.syncFolder f c now (.faulty fault) s).2.events = s.events ++ new ∧
        ∀ e ∈ new, e.about (m.brings f c fault s) := by
  let K := Repository.maxIDByFolder s.db f.id
  let I := Past (requests m.syncDepth c.toSession s.db f (failing fault)) f.id K base
  have hfetch : Ends (.faulty fault) s (m.fetchFolder f c)
      (fun a t => I t.db ∧ NewBehind t.db f.id K a.2) fun t => I t.db := by
    have hsync : Ends (.faulty fault) s (incrementalSync m.digest m.syncDepth FolderStmt.sync c.toSession
        f.accountID f.id f.path f.uidValidity f.uidNext : FolderProg κ ρ _)
        (fun a t => I t.db ∧ NewBehind t.db f.id K a.2) fun t => I t.db :=
      ends_incrementalSync_past m.digest (l := failing fault) rfl hrebuild hmax hknows
    refine ends_bind (hsync.imp (fun a t ha => ?_) fun _ ht => ht)
    have hcoarse : Coarse fun d => I d ∧ NewBehind d f.id K a.2 := fun d d' hsame h =>
      ⟨coarse_past d d' hsame h.1, coarse_newBehind d d' hsame h.2⟩
    have hkeeps : Keeps (fun t : State ρ => I t.db ∧ NewBehind t.db f.id K a.2)
        (prefetchNewBodies m.digest f a.2 c : FolderProg κ ρ Unit) :=
      keeps_prefetchNewBodies (coarseOn_db hcoarse) (fun _ _ h => h) m.digest f a.2 c
    exact ends_bind ((hkeeps.ends (fun _ _ h => h) ha).imp (fun _ _ h => ends_pure h) fun _ h => h.1)
  have hpast : I (m.fetchFolder f c (.faulty fault) s).2.db :=
    (hfetch.imp (fun _ _ h => h.1) fun _ h => h).left
  have hevents := events_fetchFolder m f c fault s
  refine ⟨fun r hr => ?_, ?_⟩
  · obtain ⟨hmem, hnew⟩ := List.mem_filter.mp hr
    simp only [Bool.and_eq_true, beq_iff_eq, decide_eq_true_eq] at hnew
    exact hpast.fresh r hmem hnew.1 hnew.2
  · rw [syncFolder_eq, bind_apply]
    unfold Manager.brings
    cases hout : m.fetchFolder f c (.faulty fault) s with
    | mk out t =>
        rw [hout] at hevents
        cases out with
        | ok a =>
            have hends : Ends (.faulty fault) t (m.finish f now a)
                (fun _ u => Reporting t.db (newRows t.db f.id K) t.events u)
                (Reporting t.db (newRows t.db f.id K) t.events) :=
              reporting_finish hr (hfetch.ok hout).2
            have hleft := hends.left.events
            rw [hevents] at hleft
            exact hleft
        | err e => exact ⟨[], hevents.trans (List.append_nil _).symm, fun _ h => absurd h List.not_mem_nil⟩
        | dead => exact ⟨[], hevents.trans (List.append_nil _).symm, fun _ h => absurd h List.not_mem_nil⟩

end Rest

/-! ### Runs -/

section Runs

variable {m : Manager κ ρ} {w w' : World ρ}

theorem handed_round (hr : ∀ r ∈ m.rules, r.TakesAway) (hnew : ∀ h ∈ w.handed, h.IsNew) {f : Folder}
    {c : FullSession} {now : Time} {fault : FolderStmt κ → Fault} {next : Nat}
    (hf : Folder.Repository.getByID w.state.db f.id = some f)
    (hfair : w.fair m (.round f.id c now fault next)) :
    ∀ h ∈ (w.round m f c now fault next).handed, h.IsNew := by
  have hsilent : (m.syncFolder f c now (.faulty fault) w.state).2.events = w.state.events →
      ∀ h ∈ (w.round m f c now fault next).handed, h.IsNew := by
    intro hevents h hh
    rcases List.mem_append.mp hh with hh | hh
    · exact hnew h hh
    · rw [hevents, List.drop_length] at hh
      exact absurd hh List.not_mem_nil
  by_cases hrebuild : rebuilds c.toSession f (failing fault) = true
  · exact hsilent (first_round_silent m now (Or.inl hrebuild))
  have hcond := (hfair f hf).resolve_left hrebuild
  cases hbase : w.base f.id with
  | none =>
      rw [hbase] at hcond
      exact hsilent (first_round_silent m now (Or.inr hcond))
  | some base =>
      rw [hbase] at hcond
      obtain ⟨hfresh, new, hevents, habout⟩ :=
        later_round_reports hr now (by simpa using hrebuild) hcond.1 hcond.2
      intro h hh
      rcases List.mem_append.mp hh with hh | hh
      · exact hnew h hh
      · rw [hevents, List.drop_left] at hh
        obtain ⟨e, he, rfl⟩ := List.mem_map.mp hh
        exact ⟨habout e he, base, hbase, hfresh⟩

theorem handed_step (hr : ∀ r ∈ m.rules, r.TakesAway) (a : Happening κ)
    (hnew : ∀ h ∈ w.handed, h.IsNew) (hfair : w.fair m a) (hstep : w.step m a = some w') :
    ∀ h ∈ w'.handed, h.IsNew := by
  cases a with
  | round folderID c now fault next =>
      obtain ⟨f, hf, rfl⟩ := Option.map_eq_some_iff.mp hstep
      obtain ⟨-, rfl⟩ := Table.get?_eq_some.mp hf
      exact handed_round hr hnew hf hfair
  | user o c now fault =>
      rw [← Option.some.inj hstep]
      exact hnew
  | search accountID folderID results fault =>
      rw [← Option.some.inj hstep]
      exact hnew
  | folders accountID c fault =>
      rw [← Option.some.inj hstep]
      exact hnew

/-- **Whatever leaves a round is about mail that came in after the folder's first round**, in
every run whose rounds know the old mails they may be sent. -/
theorem reported_is_new {w₀ : World ρ} (hr : ∀ r ∈ m.rules, r.TakesAway) (h₀ : w₀.handed = [])
    (hrun : Run (World.step m) (World.fair m) w₀ w) : ∀ h ∈ w.handed, h.IsNew := by
  refine hrun.invariant (fun u a v hu hok hstep => handed_step hr a hu hok hstep) ?_
  rw [h₀]
  exact fun h hh => absurd hh List.not_mem_nil

end Runs

/-- **Where the server says which UID comes next, a round knows what it may be sent**: with a stored
anchor from `base` on, no old mail is asked for. -/
theorem knowsOld_of_uidNext {syncDepth : Nat} {c : Session} {db : DB} {f : Folder} {l : Lookups}
    {base : Nat} (hbase : base ≤ f.uidNext)
    (hsaid : saidIf l.statusUIDNext (c.selectFolder f.path).uidNext (c.statusUIDNext f.path) ≠ 0)
    (hfits : saidIf l.statusUIDNext (c.selectFolder f.path).uidNext (c.statusUIDNext f.path) < 2 ^ 32)
    (hrange : ∀ start last, ∀ e ∈ c.fetchByUIDRange f.path start last, last ≠ 0 → start ≤ e.uid.val) :
    KnowsOld syncDepth c db f l base := by
  intro b hb e he hold
  have hanchor : anchorOf f.uidNext (maxUIDIf l.maxUIDBefore db f.id) = f.uidNext := by
    unfold anchorOf
    rw [if_neg (by omega)]
  unfold requests newRequests at hb
  split at hb
  · exact absurd hb List.not_mem_nil
  · rw [if_pos (Nat.pos_of_ne_zero hsaid), hanchor] at hb
    split at hb
    · obtain ⟨range, hin, rfl⟩ := List.mem_map.mp hb
      obtain ⟨hstart, hle, -⟩ := batch_within (by omega) hin
      have hsent := hrange _ _ e he (by omega)
      omega
    · exact absurd hb List.not_mem_nil

/-- The rules of the rule service take mails away only. -/
theorem ruleRunner_takesAway {unescape : Text → Text} {renv : State RuleBook → Rules.Env} {actor : Actor}
    (hactor : ∀ calls s, (actor.act calls s).events = s.events) :
    (ruleRunner unescape renv actor : RuleRunner κ RuleBook).TakesAway := by
  refine ⟨fun accountID f rows fault s => ⟨hactor _ _, fun m' hm' => ?_⟩,
    fun accountID rows fault s => ⟨rfl, Fewer.refl _⟩⟩
  obtain ⟨m, hm, hrow⟩ := actor.rows _ _ m' hm'
  refine ⟨m, hm, ?_⟩
  rw [hrow]
  exact ⟨rfl, rfl, rfl⟩

/-! ### Two old mails, deleted here and fetched again -/

private def oldMail (uid : Nat) : ParsedEmail where
  messageID := []
  uid := .numbered uid
  inReplyTo := []
  references := []
  subject := []
  sender := []
  toList := []
  ccList := []
  date := 0
  size := 0
  flags := []
  isRead := false
  isStarred := false

/-- A server with the first `n` mails. `uidNext` is what it says about the next UID. -/
private def serving (n uidNext : Nat) : FullSession where
  listFolders := []
  selectFolder _ := ⟨n, 1, uidNext⟩
  statusUIDValidity _ := none
  statusUIDNext _ := none
  fetchByUIDRange _ start _ := ((List.range n).map fun i => oldMail (i + 1)).filter fun e =>
    decide (start ≤ e.uid.val)
  fetchBySeqRange _ _ _ := (List.range n).map fun i => oldMail (i + 1)
  fetchByUIDs _ _ := []

private def watching : Manager Unit RuleBook :=
  ⟨id, 1000, fun _ _ _ => .inbox, some (ruleRunner id (fun _ => Rules.calmEnv [] Rules.keyed_nil) Actor.idle)⟩

private def newInbox : World RuleBook where
  state := ⟨⟨.empty, .single (.bare 1 1 "INBOX".toList .inbox), .empty⟩, ⟨[], []⟩, [], [], [],
    ⟨⟨[], [], .empty, 0⟩, []⟩⟩
  base _ := none
  handed := []

/-- A round when `n` mails have come in. -/
private def look (n uidNext : Nat) : Happening Unit :=
  .round 1 (serving n uidNext) 0 (fun _ => .none) (n + 1)

theorem reported_is_new_one : ∃ w,
    Run (World.step watching) (World.fair watching) newInbox w ∧
      w.handed.map (fun h => h.brought.map fun r => r.uid.val) = [[3], [3]] ∧
        ∀ h ∈ w.handed, h.IsNew := by
  have hfirst : newInbox.fair watching (look 2 3) := by
    rintro f hf
    obtain rfl := Option.some.inj hf
    exact Or.inr ⟨rfl, fun r hr => absurd hr List.not_mem_nil⟩
  let w₁ := newInbox.round watching (.bare 1 1 "INBOX".toList .inbox) (serving 2 3) 0 (fun _ => .none) 3
  have hstored : (Folder.Repository.getByID w₁.state.db 1).map Folder.uidNext = some 3 := by
    decide +kernel
  have hbase : w₁.base 1 = some 3 := by decide +kernel
  have hsecond : w₁.fair watching (look 3 4) := by
    intro f hf
    rw [hf] at hstored
    have hnext : f.uidNext = 3 := Option.some.inj hstored
    have hsaid : ∀ fails : Bool, saidIf fails 4 none = 4 := fun _ => rfl
    refine Or.inr ?_
    rw [hbase]
    refine ⟨by decide, knowsOld_of_uidNext (Nat.le_of_eq hnext.symm) ?_ ?_ ?_⟩
    · exact (hsaid _).symm ▸ by decide
    · exact (hsaid _).symm ▸ by decide
    · intro start last e he _
      exact of_decide_eq_true (List.mem_filter.mp he).2
  have hends : ((w₁.step watching (look 3 4)).map fun w => w.handed.map fun h =>
      h.brought.map fun r => r.uid.val) = some [[3], [3]] := by decide +kernel
  obtain ⟨w, hw, hhanded⟩ := Option.map_eq_some_iff.mp hends
  have hrun : Run (World.step watching) (World.fair watching) newInbox w :=
    .tail (.tail .refl hfirst (rfl : _ = some w₁)) hsecond hw
  refine ⟨w, hrun, hhanded, reported_is_new ?_ rfl hrun⟩
  intro r hr
  obtain rfl := Option.some.inj hr
  exact ruleRunner_takesAway fun _ _ => rfl

/-- **Old mails are reported as new**: the user deletes the two mails the first round brought, and
the next round fetches them again. -/
theorem deleted_mails_return : ∃ w,
    exec (World.step watching) (fun _ _ => true) newInbox
        [look 2 0, .user ⟨fun _ _ => 0, fun _ _ => 0⟩ (.batchDelete [1, 2]) 0 fun _ => .none, look 2 0]
      = some w ∧
        w.handed.map (fun h => (h.base, h.brought.map fun r => r.uid.val))
          = [(some 3, [1, 2]), (some 3, [1, 2])] ∧
          ¬ ∀ h ∈ w.handed, h.IsNew := by
  have hends : ((exec (World.step watching) (fun _ _ => true) newInbox
        [look 2 0, .user ⟨fun _ _ => 0, fun _ _ => 0⟩ (.batchDelete [1, 2]) 0 fun _ => .none, look 2 0]).map
      fun w => w.handed.map fun h => (h.base, h.brought.map fun r => r.uid.val))
        = some [(some 3, [1, 2]), (some 3, [1, 2])] := by
    decide +kernel
  obtain ⟨w, hw, hhanded⟩ := Option.map_eq_some_iff.mp hends
  refine ⟨w, hw, hhanded, fun hnew => ?_⟩
  have hmem : (some 3, [1, 2]) ∈ w.handed.map fun h => (h.base, h.brought.map fun r => r.uid.val) := by
    rw [hhanded]
    exact List.mem_cons_self
  obtain ⟨h, hh, heq⟩ := List.mem_map.mp hmem
  obtain ⟨hbase, hbrought⟩ := Prod.mk.inj heq
  obtain ⟨-, base, hsome, hfresh⟩ := hnew h hh
  obtain rfl := Option.some.inj (hsome.symm.trans hbase)
  have hone : 1 ∈ h.brought.map fun r => r.uid.val := by
    rw [hbrought]
    exact List.mem_cons_self
  obtain ⟨r, hr, huid⟩ := List.mem_map.mp hone
  have hle := hfresh r hr
  omega

end FlyMail.Sync
