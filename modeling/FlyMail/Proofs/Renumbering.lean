/-
A queued row names what its call acted on, as long as the mailbox is the same.

Two things make it so.  What a UID names stays what it names until the mailbox is made anew:
the commands of an exchange take UIDs away and hand new ones out, and never give an old UID
to another mail.  And the rows of a folder are of the mailbox they were fetched from: a round
that finds another UIDVALIDITY empties the folder first, and stores the new UIDVALIDITY only
when it has come to its end.  So a folder's rows are either of the present mailbox, or the
folder's row says otherwise, and that is `Sure`.

Nothing of it is looked at when a queued row is executed.  `attempt_after_renumbering` is a
row that was queued before the mailbox was made anew and marks another mail.
-/
import FlyMail.Proofs.History
import FlyMail.Proofs.Queue
import FlyMail.Proofs.Server
import FlyMail.Sync.Renumbering

namespace FlyMail

namespace Imap

/-! ### What an old UID names -/

theorem Mailbox.Continues.refl (b : Mailbox) : b.Continues b := ⟨Nat.le_refl _, fun m hm _ => ⟨m, hm, rfl, rfl⟩⟩

theorem continues_runCommands (path p : Text) (cmds : List Command) (x : Exchange) (boxes : Boxes) :
    (boxes p).Continues (runCommands path cmds x boxes p) := by
  refine ⟨uidNext_le_runCommands p cmds x boxes, fun m hm hold => ?_⟩
  obtain ⟨m₀, hm₀, hfrom⟩ := fromOld_of_mem_runCommands hm hold
  exact ⟨m₀, hm₀, hfrom.uid, hfrom.serial⟩

/-- The UID names one mail. -/
theorem Mailbox.Numbered.serialOf {b : Mailbox} (h : b.Numbered) {m : Mail} (hm : m ∈ b.mails) :
    b.serialOf m.uid = some m.serial := by
  unfold Mailbox.serialOf
  cases hfind : b.mails.find? fun r => r.uid == m.uid with
  | none =>
      have hnot := List.find?_eq_none.mp hfind m hm
      rw [beq_self_eq_true] at hnot
      exact absurd rfl hnot
  | some r =>
      have huid : r.uid = m.uid := by simpa using List.find?_some hfind
      rw [eq_of_nodup_map h.uids (List.mem_of_find?_eq_some hfind) hm huid]
      rfl

theorem numbered_append {b : Mailbox} (h : b.Numbered) (ms : List Mail) : (b.append ms).Numbered :=
  ⟨(uids_append h.old h.uids ms).1, (uids_append h.old h.uids ms).2⟩

/-- Mails that go, or change their flags, leave the others their UIDs. -/
theorem numbered_of_sublist {b : Mailbox} (h : b.Numbered) {ms : List Mail}
    (hsub : (ms.map Mail.uid).Sublist (b.mails.map Mail.uid)) : Mailbox.Numbered ⟨ms, b.uidNext⟩ := by
  refine ⟨fun m hm => ?_, hsub.nodup h.uids⟩
  obtain ⟨m₀, hm₀, huid⟩ := List.mem_map.mp (hsub.subset (List.mem_map_of_mem hm))
  rw [← huid]
  exact h.old m₀ hm₀

theorem numbered_update {boxes : Boxes} (h : ∀ p, (boxes p).Numbered) {path : Text} {b : Mailbox}
    (hb : b.Numbered) (p : Text) : (Function.update boxes path b p).Numbered := by
  by_cases hp : p = path
  · subst hp
    rw [Function.update_self]
    exact hb
  · rw [Function.update_of_ne hp]
    exact h p

theorem numbered_run {boxes : Boxes} (h : ∀ p, (boxes p).Numbered) (path : Text) (hit : Nat → Bool)
    (c : Command) : ∀ p, (c.run path hit boxes p).Numbered := by
  cases c with
  | store flag on uids =>
      refine numbered_update h (numbered_of_sublist (h path) ?_)
      rw [List.map_map]
      have hsame : ∀ m : Mail, (Mail.uid ∘ fun m =>
          if (uids.contains m.uid && hit m.uid) = true then m.set flag on else m) m = m.uid := by
        intro m
        dsimp only [Function.comp]
        split
        · exact m.set_uid flag on
        · rfl
      rw [List.map_congr_left fun m _ => hsame m]
  | expunge => exact numbered_update h (numbered_of_sublist (h path) (List.filter_sublist.map _))
  | copy target uids => exact numbered_update h (numbered_append (h target) _)
  | move target uids =>
      have hrest : ∀ p, (Function.update boxes path
          { boxes path with
            mails := (boxes path).mails.filter fun m => !(uids.contains m.uid && hit m.uid) }
          p).Numbered := numbered_update h (numbered_of_sublist (h path) (List.filter_sublist.map _))
      exact numbered_update hrest (numbered_append (hrest target) _)

/-- **No exchange gives two mails one UID.** -/
theorem numbered_runCommands (path : Text) : ∀ (cmds : List Command) (x : Exchange) {boxes : Boxes},
    (∀ p, (boxes p).Numbered) → ∀ p, (runCommands path cmds x boxes p).Numbered := by
  intro cmds
  induction cmds with
  | nil => exact fun x boxes h => h
  | cons c rest ih =>
      intro x boxes h
      cases x with
      | ok => exact ih .ok (numbered_run h path _ c)
      | broke done hit =>
          cases done with
          | zero => exact numbered_run h path hit c
          | succ k => exact ih (.broke k hit) (numbered_run h path _ c)

/-! ### What an exchange leaves alone -/

/-- The command does not name the UID. -/
def Command.unnamed (uid : Nat) : Command → Prop
  | .store _ _ uids => uid ∉ uids
  | .move _ uids => uid ∉ uids
  | _ => True

theorem mem_run_of_unnamed {path p : Text} {hit : Nat → Bool} {boxes : Boxes} {c : Command} {m : Mail}
    (hm : m ∈ (boxes p).mails) (hdeleted : m.deleted = false) (hc : p = path → c.unnamed m.uid) :
    m ∈ (c.run path hit boxes p).mails := by
  have hupdate : ∀ {bs : Boxes} {q : Text} {b : Mailbox}, m ∈ (bs p).mails →
      (p = q → m ∈ b.mails) → m ∈ (Function.update bs q b p).mails := by
    intro bs q b hbs hb
    by_cases hpq : p = q
    · subst hpq
      rw [Function.update_self]
      exact hb rfl
    · rw [Function.update_of_ne hpq]
      exact hbs
  cases c with
  | store flag on uids =>
      refine hupdate hm fun hp => List.mem_map.mpr ⟨m, hp ▸ hm, ?_⟩
      have hunnamed : m.uid ∉ uids := hc hp
      have hnot : uids.contains m.uid = false := by simpa using hunnamed
      rw [hnot]
      rfl
  | expunge => exact hupdate hm fun hp => List.mem_filter.mpr ⟨hp ▸ hm, by simp [hdeleted]⟩
  | copy target uids => exact hupdate hm fun hp => List.mem_append.mpr (.inl (hp ▸ hm))
  | move target uids =>
      have hstays : m ∈ (Function.update boxes path
          { boxes path with
            mails := (boxes path).mails.filter fun m => !(uids.contains m.uid && hit m.uid) }
          p).mails := by
        refine hupdate hm fun hp => List.mem_filter.mpr ⟨hp ▸ hm, ?_⟩
        have hunnamed : m.uid ∉ uids := hc hp
        have hnot : uids.contains m.uid = false := by simpa using hunnamed
        rw [hnot]
        rfl
      exact hupdate hstays fun hp => List.mem_append.mpr (.inl (hp ▸ hstays))

/-- **A mail no command names, and that is not marked for it, is left as it is.** -/
theorem mem_runCommands_of_unnamed {path p : Text} {m : Mail} (hdeleted : m.deleted = false) :
    ∀ {cmds : List Command} {x : Exchange} {boxes : Boxes}, m ∈ (boxes p).mails →
      (∀ c ∈ cmds, p = path → c.unnamed m.uid) → m ∈ (runCommands path cmds x boxes p).mails := by
  intro cmds
  induction cmds with
  | nil => exact fun h _ => h
  | cons c rest ih =>
      intro x boxes hm hc
      have hfirst : ∀ hit, m ∈ (c.run path hit boxes p).mails := fun hit =>
        mem_run_of_unnamed hm hdeleted (hc c List.mem_cons_self)
      have hrest : ∀ c' ∈ rest, p = path → c'.unnamed m.uid := fun c' hc' =>
        hc c' (List.mem_cons_of_mem _ hc')
      cases x with
      | ok => exact ih (hfirst _) hrest
      | broke done hit =>
          cases done with
          | zero => exact hfirst hit
          | succ k => exact ih (hfirst _) hrest

/-! ### What a server sends -/

theorem uid_of_fetched {m : Mail} {e : ParsedEmail} (h : m.fetched = some e) : e.uid.val = m.uid := by
  unfold Mail.fetched at h
  split at h
  · rw [← Option.some.inj h]
  · cases h

theorem sends_serve {boxes : Boxes} {uidValidity : Text → Nat} {tellsNext : Bool}
    {folders : List FolderInfo} {bodies : Text → List Nat → List FetchedEmail} {path : Text}
    {e : ParsedEmail}
    (h : Message.Sends (serve boxes uidValidity tellsNext folders bodies).toSession path e) :
    ∃ m ∈ (boxes path).mails, m.uid = e.uid.val := by
  have hrange : ∀ (b : Mailbox) (start last : Nat), b.uidRange start last ⊆ b.mails := by
    intro b start last
    unfold Mailbox.uidRange
    split <;> exact List.filter_subset_self _
  obtain ⟨start, last, h | h⟩ := h
  · obtain ⟨m, hm, hfetched⟩ := List.mem_filterMap.mp h
    exact ⟨m, hrange _ _ _ hm, (uid_of_fetched hfetched).symm⟩
  · obtain ⟨m, hm, hfetched⟩ := List.mem_filterMap.mp h
    exact ⟨m, List.mem_of_mem_drop (List.mem_of_mem_take hm), (uid_of_fetched hfetched).symm⟩

end Imap

namespace Message

open Proc

/-! ### What a round stores -/

section Round

variable {ι σ : Type} [HasDB σ] {φ : ι → Fault} {s : σ} {digest : Text → Text} {at_ : SyncStmt → ι}
  {J : σ → Prop}

theorem ends_folderState {folderID uidValidity uidNext total unread : Nat} (hs : J s) :
    Ends (.faulty φ) s (folderState at_ folderID uidValidity uidNext total unread)
      (fun a t => a.uidValidity = uidValidity ∧ J t) fun _ => True := by
  have hkeeps : Keeps J (folderState at_ folderID uidValidity uidNext total unread) :=
    keeps_folderState folderID uidValidity uidNext total unread
  unfold folderState at hkeeps ⊢
  split
  · refine ends_bind (((keeps_withDefault (keeps_queryDB _ _ _) 0).ends (fun _ _ h => h) hs).imp
      (fun _ _ ht => ends_pure ⟨rfl, ht⟩) fun _ _ => trivial)
  · exact ends_pure ⟨rfl, hs⟩

omit [HasDB σ] in
theorem reported_said {i : ι} {selected : Nat} {status : Option Nat} (h : selected ≠ 0) :
    (reported i selected status : Proc ι Err σ Nat) = pure selected := if_neg h

variable {c : Session} {accountID folderID : Nat} {path : Text} (hJ : CoarseOn J)
  (hup : ∀ e, Sends c path e → KeepsUpsert J accountID folderID e)
  (hdelete : ∀ s, J s → J (setDB s (Repository.deleteByFolder folderID (db s))))
  (hsaid : (c.selectFolder path).uidValidity ≠ 0)

include hJ hup hdelete hsaid

theorem ends_syncFolderMessages (syncDepth prevUIDValidity : Nat) (hs : J s) :
    Ends (.faulty φ) s
      (syncFolderMessages digest syncDepth at_ c accountID folderID path prevUIDValidity)
      (fun a t => a.1.uidValidity = (c.selectFolder path).uidValidity ∧ J t) fun _ => True := by
  have hkeep : ∀ {α : Type} {p : Proc ι Err σ α} {t : σ} {Q : α → σ → Prop}, Keeps J p → J t →
      (∀ a u, J u → Q a u) → Ends (.faulty φ) t p Q fun _ => True := fun hp ht hQ =>
    (hp.ends (fun _ _ h => h) ht).imp hQ fun _ _ => trivial
  unfold syncFolderMessages
  refine ends_bind (ends_ask ?_ trivial)
  rw [reported_said hsaid]
  refine ends_bind (ends_pure ?_)
  dsimp only
  split
  case' isTrue => refine ends_bind (hkeep (keeps_updateDB hdelete) hs fun _ t hs => ?_)
  all_goals
    refine ends_bind (hkeep (keeps_reported _ _ _) hs fun uidNext t ht => ?_)
    refine ends_bind (hkeep (keeps_importRecent hJ hup syncDepth _ uidNext) ht fun _ t ht => ?_)
    refine ends_bind (hkeep (keeps_withDefault (keeps_queryDB _ _ _) 0) ht fun _ t ht => ?_)
    refine ends_bind (hkeep (keeps_withDefault (keeps_queryDB _ _ _) 0) ht fun _ t ht => ?_)
    exact ends_bind ((ends_folderState ht).imp (fun _ _ h => ends_pure h) fun _ _ => trivial)

/-- **A round that comes to its end** says which UIDVALIDITY it found. Where that is not the one
the folder was fetched under, the rows of before are gone. -/
theorem ends_incrementalSync_found (syncDepth prevUIDValidity prevUIDNext : Nat)
    (hs : J (if prevUIDValidity ≠ 0 ∧ (c.selectFolder path).uidValidity ≠ prevUIDValidity then
      setDB s (Repository.deleteByFolder folderID (db s)) else s)) :
    Ends (.faulty φ) s
      (incrementalSync digest syncDepth at_ c accountID folderID path prevUIDValidity prevUIDNext)
      (fun a t => a.1.uidValidity = (c.selectFolder path).uidValidity ∧ J t) fun _ => True := by
  have hkeep : ∀ {α : Type} {p : Proc ι Err σ α} {t : σ} {Q : α → σ → Prop}, Keeps J p → J t →
      (∀ a u, J u → Q a u) → Ends (.faulty φ) t p Q fun _ => True := fun hp ht hQ =>
    (hp.ends (fun _ _ h => h) ht).imp hQ fun _ _ => trivial
  unfold incrementalSync
  refine ends_bind (ends_ask ?_ trivial)
  rw [reported_said hsaid]
  refine ends_bind (ends_pure ?_)
  by_cases hchanged : prevUIDValidity ≠ 0 ∧ (c.selectFolder path).uidValidity ≠ prevUIDValidity
  · rw [if_pos hchanged] at hs
    rw [if_pos ⟨hchanged.1, hsaid, hchanged.2⟩]
    refine ends_bind (ends_update ?_ trivial)
    exact ends_bind ((ends_syncFolderMessages hJ hup hdelete hsaid syncDepth 0 hs).imp
      (fun _ _ h => ends_pure h) fun _ _ => trivial)
  · rw [if_neg hchanged] at hs
    rw [if_neg fun h => hchanged ⟨h.1, h.2.2⟩]
    refine ends_bind (hkeep (keeps_withDefault (keeps_queryDB _ _ _) 0) hs fun _ t ht => ?_)
    refine ends_bind (hkeep (keeps_withDefault (keeps_queryDB _ _ _) 0) ht fun _ t ht => ?_)
    refine ends_bind (hkeep (keeps_reported _ _ _) ht fun uidNext t ht => ?_)
    refine ends_bind (hkeep (keeps_fetchNew hJ hup syncDepth prevUIDNext _ uidNext) ht fun _ t ht => ?_)
    refine ends_bind (hkeep (keeps_withDefault (keeps_queryDB _ _ _) 0) ht fun _ t ht => ?_)
    refine ends_bind (hkeep (keeps_withDefault (keeps_queryDB _ _ _) 0) ht fun _ t ht => ?_)
    refine ends_bind (hkeep (keeps_newMail folderID _ _ _ _) ht fun _ t ht => ?_)
    exact ends_bind ((ends_folderState ht).imp (fun _ _ h => ends_pure h) fun _ _ => trivial)

end Round

end Message

namespace Sync

open Proc FlyMail.Message

/-! ### What a round leaves -/

/-- The rows of `d` are rows of `d₀`, or new ones of the folder for mails of the mailbox. -/
structure Brought (box : Imap.Mailbox) (f : Folder) (d₀ d : DB) : Prop where
  rows : ∀ m ∈ d.messages.rows,
    (∃ m₀ ∈ d₀.messages.rows, m₀.id = m.id ∧ m₀.folderID = m.folderID ∧ m₀.uid = m.uid) ∨
      d₀.messages.last < m.id ∧ m.folderID = f.id ∧ ∃ r ∈ box.mails, r.uid = m.uid.val
  last : d₀.messages.last ≤ d.messages.last
  folders : d.folders = d₀.folders
  ops : d.ops = d₀.ops
  linked : d.Linked

section Brought

variable {box : Imap.Mailbox} {f : Folder} {d₀ d : DB}

theorem Brought.refl (h : d.Linked) : Brought box f d d :=
  ⟨fun m hm => .inl ⟨m, hm, rfl, rfl, rfl⟩, Nat.le_refl _, rfl, rfl, h⟩

/-- What rows equal up to their threads and bodies have in common. -/
theorem eq_of_msgCore {m m' : FlyMail.Message} (h : m.core = m'.core) :
    m.id = m'.id ∧ m.accountID = m'.accountID ∧ m.folderID = m'.folderID ∧ m.uid = m'.uid := by
  have hid : m.core.id = m'.core.id := congrArg FlyMail.Message.id h
  have haccount : m.core.accountID = m'.core.accountID := congrArg FlyMail.Message.accountID h
  have hfolder : m.core.folderID = m'.core.folderID := congrArg FlyMail.Message.folderID h
  have huid : m.core.uid = m'.core.uid := congrArg FlyMail.Message.uid h
  exact ⟨hid, haccount, hfolder, huid⟩

theorem coarse_brought : Coarse (Brought box f d₀) := by
  intro d d' hsame h
  refine ⟨fun m' hm' => ?_, hsame.last ▸ h.last, hsame.folders.trans h.folders, hsame.ops.trans h.ops,
    fun m' hm' => ?_⟩
  · obtain ⟨m, hm, hcore⟩ := hsame.exists_core hm'
    obtain ⟨hid, -, hfolder, huid⟩ := eq_of_msgCore hcore
    rw [← hid, ← hfolder, ← huid]
    exact h.rows m hm
  · obtain ⟨m, hm, hcore⟩ := hsame.exists_core hm'
    obtain ⟨-, haccount, hfolder, -⟩ := eq_of_msgCore hcore
    rw [← haccount, ← hfolder, hsame.folders]
    exact h.linked m hm

theorem brought_upsert (hf : f ∈ d₀.folders.rows) {e : ParsedEmail}
    (he : ∃ r ∈ box.mails, r.uid = e.uid.val) (h : Brought box f d₀ d) :
    Brought box f d₀ (Repository.upsert (toMessage f.accountID f.id e) d) := by
  refine ⟨fun m hm => ?_, Nat.le_trans h.last Repository.last_le_upsert, h.folders, h.ops, fun m hm => ?_⟩
  · rcases Repository.mem_upsert.mp hm with ⟨hm, -⟩ | ⟨a, ha, -, rfl⟩ | ⟨-, rfl⟩
    · exact h.rows m hm
    · exact h.rows a ha
    · exact .inr ⟨Nat.lt_succ_of_le h.last, rfl, he⟩
  · rcases Repository.mem_upsert.mp hm with ⟨hm, -⟩ | ⟨a, ha, hkey, rfl⟩ | ⟨-, rfl⟩
    · exact h.linked m hm
    · exact ⟨f, h.folders ▸ hf, (congrArg Prod.fst hkey).symm, rfl⟩
    · exact ⟨f, h.folders ▸ hf, rfl, rfl⟩

theorem brought_delete (folderID : Nat) (h : Brought box f d₀ d) :
    Brought box f d₀ (Repository.deleteByFolder folderID d) :=
  ⟨fun m hm => h.rows m (Table.mem_delete.mp hm).1, h.last, h.folders, h.ops,
    fun m hm => h.linked m (Table.mem_delete.mp hm).1⟩

end Brought

/-- The database after a round of the folder, the UIDVALIDITY it found given. -/
inductive RoundEnd (box : Imap.Mailbox) (f : Folder) (uidValidity : Nat) (d₀ : DB) : DB → Prop
  | broken {d : DB} (h : Brought box f d₀ d) : RoundEnd box f uidValidity d₀ d
  | done {d : DB} {uidNext total unread : Nat} {now : Time} (h : Brought box f d₀ d)
      (hfresh : f.uidValidity ≠ 0 ∧ uidValidity ≠ f.uidValidity →
        Brought box f (Repository.deleteByFolder f.id d₀) d) :
      RoundEnd box f uidValidity d₀
        (Folder.Repository.updateSyncState f.id uidValidity uidNext total unread now d)

section Round

variable {κ ρ : Type} {box : Imap.Mailbox} {f : Folder} {c : FullSession} {s : State ρ}

theorem ends_fetchFolder_brought (m : Manager κ ρ) {fault : FolderStmt κ → Fault}
    (hf : f ∈ s.db.folders.rows) (hlinked : s.db.Linked) (hsaid : (c.selectFolder f.path).uidValidity ≠ 0)
    (hsends : ∀ e, Sends c.toSession f.path e → ∃ r ∈ box.mails, r.uid = e.uid.val) :
    Ends (.faulty fault) s (m.fetchFolder f c)
      (fun a t => a.1.uidValidity = (c.selectFolder f.path).uidValidity ∧ Brought box f s.db t.db ∧
        (f.uidValidity ≠ 0 ∧ (c.selectFolder f.path).uidValidity ≠ f.uidValidity →
          Brought box f (Repository.deleteByFolder f.id s.db) t.db))
      fun t => Brought box f s.db t.db := by
  let changed := f.uidValidity ≠ 0 ∧ (c.selectFolder f.path).uidValidity ≠ f.uidValidity
  let I : DB → Prop := fun d => Brought box f s.db d ∧
    (changed → Brought box f (Repository.deleteByFolder f.id s.db) d)
  have hstart : Brought box f s.db s.db := .refl hlinked
  have hdeleted : (Repository.deleteByFolder f.id s.db).Linked := (brought_delete f.id hstart).linked
  have hf' : f ∈ (Repository.deleteByFolder f.id s.db).folders.rows := hf
  have hI : Coarse I := fun d d' hsame h =>
    ⟨coarse_brought d d' hsame h.1, fun hc => coarse_brought d d' hsame (h.2 hc)⟩
  have hsync : Ends (.faulty fault) s (incrementalSync m.digest m.syncDepth FolderStmt.sync c.toSession
      f.accountID f.id f.path f.uidValidity f.uidNext : FolderProg κ ρ _)
      (fun a t => a.1.uidValidity = (c.selectFolder f.path).uidValidity ∧ I t.db)
      fun t => Brought box f s.db t.db := by
    have hkeeps : Keeps (fun t : State ρ => Brought box f s.db t.db) (incrementalSync m.digest m.syncDepth
        FolderStmt.sync c.toSession f.accountID f.id f.path f.uidValidity f.uidNext : FolderProg κ ρ _) :=
      keeps_incrementalSync (coarseOn_db coarse_brought)
        (fun e he => on_db fun _ => brought_upsert hf (hsends e he))
        (on_db fun _ => brought_delete f.id) _ _ _
    have hfound : Ends (.faulty fault) s (incrementalSync m.digest m.syncDepth FolderStmt.sync c.toSession
        f.accountID f.id f.path f.uidValidity f.uidNext : FolderProg κ ρ _)
        (fun a t => a.1.uidValidity = (c.selectFolder f.path).uidValidity ∧ I t.db) fun _ => True := by
      refine ends_incrementalSync_found (J := fun t : State ρ => I t.db) (coarseOn_db hI)
        (fun e he => on_db fun _ h => ⟨brought_upsert hf (hsends e he) h.1,
          fun hc => brought_upsert hf' (hsends e he) (h.2 hc)⟩)
        (on_db fun _ h => ⟨brought_delete f.id h.1, fun hc => brought_delete f.id (h.2 hc)⟩) hsaid _ _ _ ?_
      split
      · exact ⟨brought_delete f.id hstart, fun _ => .refl hdeleted⟩
      · rename_i hsame
        exact ⟨hstart, fun hc => absurd hc hsame⟩
    exact (hfound.and (hkeeps.ends (fun _ _ h => h) hstart)).imp (fun _ _ h => h.1) fun _ h => h.2
  refine ends_bind (hsync.imp (fun a t ha => ?_) fun _ ht => ht)
  have hkeeps : Keeps (fun t : State ρ => I t.db) (prefetchNewBodies m.digest f a.2 c : FolderProg κ ρ Unit) :=
    keeps_prefetchNewBodies (coarseOn_db hI) (fun _ _ h => h) m.digest f a.2 c
  exact ends_bind ((hkeeps.ends (fun _ _ h => h) ha.2).imp (fun _ _ h => ends_pure ⟨ha.1, h⟩) fun _ h => h.1)

/-- **A round** leaves the rows of before and rows of the mailbox; where it stores another UIDVALIDITY
than the folder had, the folder's rows of before are gone. -/
theorem roundEnd_syncFolder {m : Manager κ ρ} (hrules : m.rules = none) {now : Time}
    {fault : FolderStmt κ → Fault} (hf : f ∈ s.db.folders.rows) (hlinked : s.db.Linked)
    (hsaid : (c.selectFolder f.path).uidValidity ≠ 0)
    (hsends : ∀ e, Sends c.toSession f.path e → ∃ r ∈ box.mails, r.uid = e.uid.val) :
    RoundEnd box f (c.selectFolder f.path).uidValidity s.db (m.syncFolder f c now (.faulty fault) s).2.db := by
  have hends : Ends (.faulty fault) s (m.syncFolder f c now)
      (fun _ t => RoundEnd box f (c.selectFolder f.path).uidValidity s.db t.db)
      fun t => RoundEnd box f (c.selectFolder f.path).uidValidity s.db t.db := by
    unfold Manager.syncFolder
    refine ends_bind ((ends_fetchFolder_brought m hf hlinked hsaid hsends).imp (fun a t ha => ?_)
      fun _ ht => .broken ht)
    obtain ⟨hvalidity, hbrought, hfresh⟩ := ha
    rw [hrules]
    have hstored : Ends (.faulty fault) t (withDefault (updateDB .updateSyncState .db
        (Folder.Repository.updateSyncState f.id a.1.uidValidity a.1.uidNext a.1.total a.1.unread now)) () :
          FolderProg κ ρ Unit)
        (fun _ u => RoundEnd box f (c.selectFolder f.path).uidValidity s.db u.db)
        fun u => RoundEnd box f (c.selectFolder f.path).uidValidity s.db u.db := by
      refine ends_withDefault (ends_update ?_ ⟨.broken hbrought, .broken hbrought⟩)
      rw [← hvalidity]
      exact .done hbrought (hvalidity ▸ hfresh)
    refine ends_bind (ends_pure (ends_bind (hstored.imp (fun _ u hu => ?_) fun _ hu => hu)))
    obtain ⟨v, hv, hdb, -⟩ := events_announceNew f a.2 now (Env.faulty fault) u
    refine ends_of_ok hv ?_
    rw [hdb]
    exact hu
  exact hends.left

end Round

/-! ### What listing the folders leaves -/

/-- Folders are added and taken away; those that stay keep their UIDVALIDITY and their mails. -/
structure Listed (d₀ d : DB) : Prop where
  rows : ∀ m ∈ d.messages.rows, m ∈ d₀.messages.rows
  last : d.messages.last = d₀.messages.last
  ops : d.ops = d₀.ops
  folders : ∀ f ∈ d.folders.rows,
    (∃ f₀ ∈ d₀.folders.rows, f₀.id = f.id ∧ f₀.key = f.key ∧ f₀.uidValidity = f.uidValidity) ∨
      d₀.folders.last < f.id ∧ f.uidValidity = 0
  lastFolder : d₀.folders.last ≤ d.folders.last
  linked : d.Linked

section Listed

variable {d₀ d : DB}

theorem Listed.refl (h : d.Linked) : Listed d d :=
  ⟨fun _ hm => hm, rfl, rfl, fun f hf => .inl ⟨f, hf, rfl, rfl, rfl⟩, Nat.le_refl _, h⟩

/-- The row of a folder that is listed again. -/
def relisted (f r : Folder) : Folder :=
  { f with
    id := r.id
    accountID := r.accountID
    path := r.path
    uidValidity := if f.uidValidity = 0 then r.uidValidity else f.uidValidity
    uidNext := if f.uidNext = 0 then r.uidNext else f.uidNext
    lastSyncedAt := if f.lastSyncedAt = 0 then r.lastSyncedAt else f.lastSyncedAt
    totalCount := if f.totalCount = 0 then r.totalCount else f.totalCount
    unreadCount := if f.unreadCount = 0 then r.unreadCount else f.unreadCount }

theorem relisted_id (f r : Folder) : (relisted f r).id = r.id := rfl

theorem relisted_key (f r : Folder) : (relisted f r).key = r.key := rfl

theorem withID_id (f : Folder) (n : Nat) : Folder.id { f with id := n } = n := rfl

theorem withID_key (f : Folder) (n : Nat) : Folder.key { f with id := n } = f.key := rfl

theorem mem_upsertByPath {f g : Folder} : g ∈ (Folder.Repository.upsertByPath f d).folders.rows ↔
    g ∈ d.folders.rows ∧ g.key ≠ f.key ∨ (∃ a ∈ d.folders.rows, a.key = f.key ∧ g = relisted f a) ∨
      (∀ a ∈ d.folders.rows, a.key ≠ f.key) ∧ g = { f with id := d.folders.last + 1 } :=
  Table.mem_upsert (withID_id f) (withID_key f) (relisted_id f) (relisted_key f)

theorem last_le_upsertByPath (f : Folder) :
    d.folders.last ≤ (Folder.Repository.upsertByPath f d).folders.last :=
  Table.last_le_upsert_last (withID_id f) (withID_key f) (relisted_id f) (relisted_key f)

theorem listed_upsertByPath {f : Folder} (hzero : f.uidValidity = 0) (h : Listed d₀ d) :
    Listed d₀ (Folder.Repository.upsertByPath f d) := by
  refine ⟨h.rows, h.last, h.ops, fun g hg => ?_, Nat.le_trans h.lastFolder (last_le_upsertByPath f),
    fun m hm => ?_⟩
  · rcases mem_upsertByPath.mp hg with ⟨hg, -⟩ | ⟨a, ha, -, rfl⟩ | ⟨-, rfl⟩
    · exact h.folders g hg
    · have hkept : (relisted f a).uidValidity = a.uidValidity := if_pos hzero
      rcases h.folders a ha with ⟨f₀, hf₀, hid, hkey, hvalidity⟩ | ⟨hnew, hunknown⟩
      · exact .inl ⟨f₀, hf₀, hid, hkey, hvalidity.trans hkept.symm⟩
      · exact .inr ⟨hnew, hkept.trans hunknown⟩
    · exact .inr ⟨Nat.lt_succ_of_le h.lastFolder, hzero⟩
  · obtain ⟨a, ha, hid, haccount⟩ := h.linked m hm
    by_cases hkey : a.key = f.key
    · exact ⟨_, mem_upsertByPath.mpr (.inr (.inl ⟨a, ha, hkey, rfl⟩)), hid, haccount⟩
    · exact ⟨a, mem_upsertByPath.mpr (.inl ⟨ha, hkey⟩), hid, haccount⟩

theorem listed_pruneMissing (accountID : Nat) (keep : List Text) (h : Listed d₀ d) :
    Listed d₀ (Folder.Repository.pruneMissing accountID keep d) := by
  refine ⟨fun m hm => h.rows m (Table.mem_delete.mp hm).1, h.last, h.ops,
    fun f hf => h.folders f (Table.mem_delete.mp hf).1, h.lastFolder, fun m hm => ?_⟩
  obtain ⟨hm, hkept⟩ := Table.mem_delete.mp hm
  obtain ⟨a, ha, hid, haccount⟩ := h.linked m hm
  refine ⟨a, Table.mem_delete.mpr ⟨ha, ?_⟩, hid, haccount⟩
  rw [hid]
  exact hkept

theorem keeps_syncFolders {ι : Type} (classifyFolder : Text → Text → List Text → FolderType)
    (at_ : Folder.ListStmt → ι) (accountID : Nat) (c : Session) :
    Keeps (Listed d₀) (Folder.syncFolders classifyFolder at_ accountID c : Proc ι Message.Err DB Unit) := by
  unfold Folder.syncFolders
  refine keeps_ask_bind ?_
  split
  · exact keeps_pure ()
  · refine keeps_bind (keeps_each _ fun info _ => keeps_updateDB fun d hd => ?_) fun _ => ?_
    · exact listed_upsertByPath rfl hd
    · exact keeps_updateDB fun d hd => listed_pruneMissing _ _ hd

end Listed

/-! ### Rows and the mails they show -/

/-- The folder's rows are of the mailbox, and `shows` says which of its mails they are. -/
def Shown (db : DB) (shows : Nat → Option Nat) (box : Imap.Mailbox) (folderID : Nat) : Prop :=
  ∀ m ∈ db.messages.rows, m.folderID = folderID →
    m.uid.val < box.uidNext ∧ ∀ r ∈ box.mails, r.uid = m.uid.val → shows m.id = some r.serial

section Shown

variable {d d' : DB} {shows : Nat → Option Nat} {box box' : Imap.Mailbox} {folderID : Nat}

theorem Shown.continues (h : Shown d shows box folderID) (hbox : box.Continues box') :
    Shown d shows box' folderID := by
  intro m hm hfolder
  obtain ⟨hlt, hshows⟩ := h m hm hfolder
  refine ⟨Nat.lt_of_lt_of_le hlt hbox.next, fun r hr huid => ?_⟩
  obtain ⟨r₀, hr₀, huid₀, hserial⟩ := hbox.same r hr (huid ▸ hlt)
  rw [← hserial]
  exact hshows r₀ hr₀ (huid₀.trans huid)

theorem Shown.fewer (h : Shown d shows box folderID)
    (hrows : ∀ m ∈ d'.messages.rows, ∃ m₀ ∈ d.messages.rows,
      m₀.id = m.id ∧ m₀.folderID = m.folderID ∧ m₀.uid = m.uid) : Shown d' shows box folderID := by
  intro m hm hfolder
  obtain ⟨m₀, hm₀, hid, hfolder₀, huid⟩ := hrows m hm
  rw [← hid, ← huid]
  exact h m₀ hm₀ (hfolder₀.trans hfolder)

/-- Where there are no rows there is nothing to show. -/
theorem shown_of_empty (h : ∀ m ∈ d.messages.rows, m.folderID ≠ folderID) : Shown d shows box folderID :=
  fun m hm hfolder => absurd hfolder (h m hm)

end Shown

/-- What is known of the rows of a folder: they are of the mailbox as it is now, or the folder's row
has another UIDVALIDITY. -/
structure Grounded (db : DB) (shows : Nat → Option Nat) (box : Imap.Mailbox) (uidValidity : Nat)
    (f : Folder) : Prop where
  known : f.uidValidity ≤ uidValidity
  rows : f.uidValidity ≠ 0 ∧ f.uidValidity ≠ uidValidity ∨ Shown db shows box f.id

/-- What is known of a queued row: while the mailbox is the one it was queued for, its UIDs name
mails of rows that were acted on. -/
structure Names (box : Imap.Mailbox) (uidValidity : Nat) (uids : List Nat) (q : Queued) : Prop where
  past : q.uidValidity ≤ uidValidity
  same : q.uidValidity = uidValidity → q.known = 0 ∨ q.known = q.uidValidity → ∀ uid ∈ uids,
    uid < box.uidNext ∧ ∀ r ∈ box.mails, r.uid = uid →
      ∃ a ∈ q.acted, a.uid = uid ∧ a.shown = some r.serial ∧ a.held = some r.serial

theorem Names.continues {box box' : Imap.Mailbox} {uidValidity : Nat} {uids : List Nat} {q : Queued}
    (h : Names box uidValidity uids q) (hbox : box.Continues box') : Names box' uidValidity uids q := by
  refine ⟨h.past, fun hsame hknown uid huid => ?_⟩
  obtain ⟨hlt, hnames⟩ := h.same hsame hknown uid huid
  refine ⟨Nat.lt_of_lt_of_le hlt hbox.next, fun r hr hruid => ?_⟩
  obtain ⟨r₀, hr₀, huid₀, hserial⟩ := hbox.same r hr (hruid ▸ hlt)
  rw [← hserial]
  exact hnames r₀ hr₀ (huid₀.trans hruid)

/-- **What holds at all times.** -/
structure Sure (w : Timeline) : Prop where
  queue : QueueInv w.app
  numbered : ∀ accountID path, (w.app.boxes accountID path).Numbered
  said : ∀ accountID path, 0 < w.uidValidity accountID path
  folders : ∀ f ∈ w.app.db.folders.rows,
    Grounded w.app.db w.shows (w.app.boxes f.accountID f.path) (w.uidValidity f.accountID f.path) f
  ops : ∀ o ∈ w.app.db.ops.rows, ∃ q, w.journal o.id = some q ∧
    Names (w.box o) (w.uidValidity o.accountID o.folderPath) (opUIDs o) q

/-! ### What happens keeps it -/

section Step

variable {w : Timeline}

/-- What is said of the queue and the runners is not about the mail rows. -/
theorem QueueInv.of_ops {s t : System} (h : QueueInv s) (hlinked : t.db.Linked) (hops : t.db.ops = s.db.ops)
    (hrunners : t.runners = s.runners) : QueueInv t := by
  refine ⟨hlinked, fun b => ?_, fun b => ?_, fun b id => ?_⟩
  · rw [hrunners, hops]
    exact h.work b
  · rw [hrunners]
    exact h.distinct b
  · rw [hrunners, hops]
    exact h.tasks b id

/-- The mailboxes go on, and the mail rows stay. -/
theorem Sure.grow {w' : Timeline} (h : Sure w) (hqueue : QueueInv w'.app)
    (hboxes : ∀ accountID path, (w.app.boxes accountID path).Continues (w'.app.boxes accountID path))
    (hnumbered : ∀ accountID path, (w'.app.boxes accountID path).Numbered)
    (hvalidity : w'.uidValidity = w.uidValidity) (hshows : w'.shows = w.shows)
    (hmessages : w'.app.db.messages = w.app.db.messages) (hfolders : w'.app.db.folders = w.app.db.folders)
    (hops : ∀ o ∈ w'.app.db.ops.rows, ∃ o₀ ∈ w.app.db.ops.rows, core o₀ = core o)
    (hjournal : w'.journal = w.journal) : Sure w' := by
  refine ⟨hqueue, hnumbered, hvalidity ▸ h.said, fun f hf => ?_, fun o ho => ?_⟩
  · obtain ⟨hknown, hrows⟩ := h.folders f (hfolders ▸ hf)
    rw [hvalidity, hshows]
    refine ⟨hknown, hrows.imp id fun hshown => ?_⟩
    refine (hshown.continues (hboxes _ _)).fewer fun m hm => ⟨m, hmessages ▸ hm, rfl, rfl, rfl⟩
  · obtain ⟨o₀, ho₀, hcore⟩ := hops o ho
    obtain ⟨q, hq, hnames⟩ := h.ops o₀ ho₀
    obtain ⟨hid, haccount, hpath, -, -, huids⟩ := eq_of_core hcore
    rw [hid, ← hjournal] at hq
    refine ⟨q, hq, ?_⟩
    unfold Timeline.box at hnames ⊢
    rw [haccount, hpath, huids, ← hvalidity] at hnames
    exact hnames.continues (hboxes _ _)

theorem sure_setBox (h : Sure w) {accountID : Nat} {path : Text} {box : Imap.Mailbox}
    (hbox : (w.app.boxes accountID path).Continues box) (hnumbered : box.Numbered) :
    Sure (w.setBox accountID path box) := by
  have hset : ∀ a p, w.app.boxes a p = (w.setBox accountID path box).app.boxes a p ∨
      a = accountID ∧ p = path ∧ (w.setBox accountID path box).app.boxes a p = box := by
    intro a p
    dsimp only [Timeline.setBox]
    by_cases ha : a = accountID
    · subst ha
      by_cases hp : p = path
      · subst hp
        exact .inr ⟨rfl, rfl, by rw [Function.update_self, Function.update_self]⟩
      · exact .inl (by rw [Function.update_self, Function.update_of_ne hp])
    · exact .inl (by rw [Function.update_of_ne ha])
  refine h.grow (h.queue.of_ops h.queue.linked rfl rfl) (fun a p => ?_) (fun a p => ?_) rfl rfl rfl rfl
    (fun o ho => ⟨o, ho, rfl⟩) rfl
  · rcases hset a p with hsame | ⟨rfl, rfl, hnew⟩
    · rw [← hsame]
      exact .refl _
    · rw [hnew]
      exact hbox
  · rcases hset a p with hsame | ⟨rfl, rfl, hnew⟩
    · rw [← hsame]
      exact h.numbered a p
    · rw [hnew]
      exact hnumbered

/-! #### Making a mailbox anew -/

theorem folderAt_eq_some {db : DB} {f : Folder} (hf : f ∈ db.folders.rows) :
    Timeline.folderAt db f.accountID f.path = some f := by
  unfold Timeline.folderAt
  cases hfind : db.folders.rows.find? fun g => g.accountID == f.accountID && g.path == f.path with
  | none => simpa using List.find?_eq_none.mp hfind f hf
  | some g =>
      have hkey := List.find?_some hfind
      simp only [Bool.and_eq_true, beq_iff_eq] at hkey
      rw [db.folders.eq_of_uk (List.mem_of_find?_eq_some hfind) hf (Prod.ext hkey.1 hkey.2)]

theorem sure_renumber (h : Sure w) {accountID : Nat} {path : Text} {uidValidity : Nat}
    {box : Imap.Mailbox} (hlt : w.uidValidity accountID path < uidValidity) (hnumbered : box.Numbered)
    (hsettled : w.settled (.renumber accountID path uidValidity box) = true) :
    Sure { w.setBox accountID path box with
      uidValidity := Function.update w.uidValidity accountID
        (Function.update (w.uidValidity accountID) path uidValidity) } := by
  let w' : Timeline := { w.setBox accountID path box with
    uidValidity := Function.update w.uidValidity accountID
      (Function.update (w.uidValidity accountID) path uidValidity) }
  have hset : ∀ a p, (w'.app.boxes a p = w.app.boxes a p ∧ w'.uidValidity a p = w.uidValidity a p) ∨
      a = accountID ∧ p = path ∧ w'.app.boxes a p = box ∧ w'.uidValidity a p = uidValidity := by
    intro a p
    dsimp only [w', Timeline.setBox]
    by_cases ha : a = accountID
    · subst ha
      by_cases hp : p = path
      · subst hp
        refine .inr ⟨rfl, rfl, ?_, ?_⟩
        · rw [Function.update_self, Function.update_self]
        · rw [Function.update_self, Function.update_self]
      · refine .inl ⟨?_, ?_⟩
        · rw [Function.update_self, Function.update_of_ne hp]
        · rw [Function.update_self, Function.update_of_ne hp]
    · refine .inl ⟨?_, ?_⟩
      · rw [Function.update_of_ne ha]
      · rw [Function.update_of_ne ha]
  show Sure w'
  refine ⟨h.queue.of_ops h.queue.linked rfl rfl, fun a p => ?_, fun a p => ?_, fun f hf => ?_, fun o ho => ?_⟩
  · rcases hset a p with ⟨hbox, -⟩ | ⟨-, -, hbox, -⟩
    · rw [hbox]
      exact h.numbered a p
    · rw [hbox]
      exact hnumbered
  · rcases hset a p with ⟨-, hvalidity⟩ | ⟨-, -, -, hvalidity⟩
    · rw [hvalidity]
      exact h.said a p
    · rw [hvalidity]
      exact Nat.zero_lt_of_lt hlt
  · obtain ⟨hknown, hrows⟩ := h.folders f hf
    rcases hset f.accountID f.path with ⟨hbox, hvalidity⟩ | ⟨ha, hp, hbox, hvalidity⟩
    · rw [hbox, hvalidity]
      exact ⟨hknown, hrows⟩
    · rw [hvalidity]
      rw [ha, hp] at hknown
      refine ⟨by omega, ?_⟩
      by_cases hzero : f.uidValidity = 0
      · -- The folder's first import has not begun.
        refine .inr (shown_of_empty fun m hm hfolder => ?_)
        have hat : Timeline.folderAt w.app.db accountID path = some f := by
          rw [← ha, ← hp]
          exact folderAt_eq_some hf
        simp only [Timeline.settled, hat, hzero, bne_self_eq_false, Bool.false_or, List.all_eq_true, bne_iff_ne] at hsettled
        exact hsettled m hm hfolder
      · exact .inl ⟨hzero, by omega⟩
  · obtain ⟨q, hq, hnames⟩ := h.ops o ho
    refine ⟨q, hq, ?_⟩
    rcases hset o.accountID o.folderPath with ⟨hbox, hvalidity⟩ | ⟨ha, hp, -, hvalidity⟩
    · unfold Timeline.box at hnames ⊢
      rw [hbox, hvalidity]
      exact hnames
    · have hpast := hnames.past
      rw [ha, hp] at hpast
      refine ⟨by omega, fun hsame => ?_⟩
      rw [hvalidity] at hsame
      omega

/-! #### Calls and attempts -/

theorem newOps_eq_nil {db db' : DB} (h : db'.ops.last = db.ops.last) : newOps db db' = [] := by
  refine List.filter_eq_nil_iff.mpr fun o ho => ?_
  have hbelow := db'.ops.below o ho
  simp only [decide_eq_true_eq]
  omega

theorem record_nil : w.record [] = w.journal := rfl

theorem record_of_ne {ops : List WritebackOp} {id : Nat} (h : ∀ o ∈ ops, o.id ≠ id) :
    w.record ops id = w.journal id := by
  have hnone : ops.find? (fun o => o.id == id) = none :=
    List.find?_eq_none.mpr fun o ho => by simpa using h o ho
  unfold Timeline.record
  rw [hnone]

theorem record_of_mem {db db' : DB} {row : WritebackOp} (hrow : row ∈ newOps db db') :
    w.record (newOps db db') row.id = some (w.queued row) := by
  unfold Timeline.record
  cases hfind : (newOps db db').find? fun o => o.id == row.id with
  | none => simpa using List.find?_eq_none.mp hfind row hrow
  | some o =>
      have hid : o.id = row.id := by simpa using List.find?_some hfind
      have ho := (List.mem_filter.mp (List.mem_of_find?_eq_some hfind)).1
      rw [db'.ops.eq_of_pk ho (List.mem_filter.mp hrow).1 hid]

/-- What the journal says of a row that a call queued. -/
theorem names_queued (h : Sure w) {o : Order} {c : Call} {row : WritebackOp}
    (hrow : QueuedBy o c w.app.db row) :
    Names (w.box row) (w.uidValidity row.accountID row.folderPath) (opUIDs row) (w.queued row) := by
  obtain ⟨n, g, src, hplan, hsrc, haccount, hcore⟩ := hrow
  have hg := groupOK_of_mem_plan hplan
  obtain ⟨-, hrowaccount, hpath, -, -, -⟩ := eq_of_core hcore
  have huids : row.uids = joinUIDs g.uids := congrArg WritebackOp.uids hcore
  have hnil : g.uids ≠ [] := by
    have hne := hg.ne_nil
    unfold Group.uids
    simpa using hne
  have hsrcaccount : row.accountID = src.accountID := hrowaccount.trans haccount.symm
  obtain ⟨hsrcmem, hsrcid⟩ := Table.get?_eq_some.mp hsrc
  have hat : Timeline.folderAt w.app.db row.accountID row.folderPath = some src := by
    rw [hsrcaccount, hpath]
    exact folderAt_eq_some hsrcmem
  refine ⟨Nat.le_refl _, fun _ hknown uid huid => ?_⟩
  rw [opUIDs_joinUIDs huids hnil] at huid
  obtain ⟨u, hu, rfl⟩ := List.mem_map.mp huid
  obtain ⟨m, hm, rfl⟩ := List.mem_map.mp hu
  have hmem := hg.mem m hm
  have hfolder : m.folderID = src.id := (hg.folder m hm).trans hsrcid.symm
  have hshown : Shown w.app.db w.shows (w.box row) src.id := by
    obtain ⟨-, hrows⟩ := h.folders src hsrcmem
    unfold Timeline.queued at hknown
    rw [hat] at hknown
    unfold Timeline.box
    rw [hsrcaccount, hpath]
    refine hrows.resolve_left fun hother => ?_
    rcases hknown with hzero | hsame
    · exact hother.1 hzero
    · refine hother.2 (hsame.trans ?_)
      show w.uidValidity row.accountID row.folderPath = _
      rw [hsrcaccount, hpath]
      rfl
  obtain ⟨hlt, hshows⟩ := hshown m hmem hfolder
  refine ⟨hlt, fun r hr hruid => ⟨⟨m.uid.val, w.shows m.id, (w.box row).serialOf m.uid.val⟩, ?_, rfl,
    hshows r hr hruid, ?_⟩⟩
  · refine List.mem_map.mpr ⟨m, List.mem_filter.mpr ⟨hmem, ?_⟩, rfl⟩
    rw [hat, opUIDs_joinUIDs huids hnil]
    simp only [Option.map_some, hfolder, beq_self_eq_true, Bool.true_and, List.contains_iff_mem]
    exact List.mem_map.mpr ⟨m.uid, List.mem_map.mpr ⟨m, hm, rfl⟩, rfl⟩
  · rw [← hruid]
    exact (h.numbered _ _).serialOf hr

theorem sure_user (h : Sure w) {o : Order} {c : Call} {app : System}
    (hstep : w.app.step (.user o c) = some app) :
    Sure { w with app := app, journal := w.record (newOps w.app.db app.db) } := by
  have hqueue := queueInv_step h.queue hstep
  have hcalm := run_calm o w.app.now c h.queue.linked (P := fun _ _ => True) trivial
    (fun _ _ _ _ _ _ _ _ _ _ => trivial)
  obtain ⟨⟨new, hnew, hnewrows⟩, -⟩ := ops_of_run_calm o w.app.now c h.queue.linked
  cases hstep
  refine ⟨hqueue, h.numbered, h.said, fun f hf => ?_, fun row hrow => ?_⟩
  · have hplain := List.mem_map_of_mem (f := Folder.plain) hf
    rw [hcalm.2.1] at hplain
    obtain ⟨f₀, hf₀, hsame⟩ := List.mem_map.mp hplain
    obtain ⟨hid, hpath, -, haccount⟩ := eq_of_plain hsame
    have hvalidity : (Folder.plain f₀).uidValidity = (Folder.plain f).uidValidity :=
      congrArg Folder.uidValidity hsame
    obtain ⟨hknown, hrows⟩ := h.folders f₀ hf₀
    refine ⟨?_, ?_⟩
    · rw [← hpath, ← haccount]
      exact hvalidity ▸ hknown
    · rw [← hpath, ← haccount, ← hid]
      refine hrows.imp (fun hother => hvalidity ▸ hother) fun hshown => hshown.fewer fun m hm => ?_
      obtain ⟨m₀, hm₀, hrow⟩ := hcalm.2.2 m hm
      obtain ⟨hmid, -, hmfolder, hmuid⟩ := eq_of_msgPlain hrow
      exact ⟨m₀, hm₀, hmid.symm, hmfolder.symm, hmuid.symm⟩
  · have hmem := hrow
    rw [hnew] at hmem
    rcases List.mem_append.mp hmem with hold | hadded
    · obtain ⟨q, hq, hnames⟩ := h.ops row hold
      refine ⟨q, (record_of_ne fun o ho hid => ?_).trans hq, hnames⟩
      have hbelow := w.app.db.ops.below row hold
      have hbehind : w.app.db.ops.last < o.id := by simpa using (List.mem_filter.mp ho).2
      omega
    · obtain ⟨hbehind, hqueued⟩ := hnewrows row hadded
      exact ⟨_, record_of_mem (List.mem_filter.mpr ⟨hrow, by simpa using hbehind⟩), names_queued h hqueued⟩

theorem sure_app (h : Sure w) {l : Label} {app : System} (hstep : w.app.step l = some app) :
    Sure { w with app := app, journal := w.record (newOps w.app.db app.db) } := by
  have hqueue := queueInv_step h.queue hstep
  rcases step_cases hstep with ⟨o, c, rfl⟩ | ⟨accountID, x, op, rest, rfl, hwork, rfl⟩ | ⟨hdb, hboxes, -⟩
  · exact sure_user h hstep
  · have hnone : newOps w.app.db (w.app.attempt accountID op rest x).db = [] :=
      newOps_eq_nil (settle_last _ _ _ _)
    rw [hnone, record_nil]
    have hbox : ∀ a p, (w.app.boxes a p).Continues ((w.app.attempt accountID op rest x).boxes a p) := by
      intro a p
      by_cases ha : a = accountID
      · subst ha
        simp only [System.attempt, Function.update_self]
        exact Imap.continues_runCommands _ _ _ _ _
      · simp only [System.attempt, Function.update_of_ne ha]
        exact .refl _
    have hnumbered : ∀ a p, ((w.app.attempt accountID op rest x).boxes a p).Numbered := by
      intro a p
      by_cases ha : a = accountID
      · subst ha
        simp only [System.attempt, Function.update_self]
        exact Imap.numbered_runCommands _ _ _ (h.numbered a) p
      · simp only [System.attempt, Function.update_of_ne ha]
        exact h.numbered a p
    exact h.grow hqueue hbox hnumbered rfl rfl (settle_messages _ _ _ _) (settle_folders _ _ _ _)
      (fun o ho => exists_of_mem_settle ho) rfl
  · rw [hdb, newOps_eq_nil rfl, record_nil]
    exact h.grow hqueue (fun a p => hboxes ▸ .refl _) (fun a p => hboxes ▸ h.numbered a p) rfl rfl
      (by rw [hdb]) (by rw [hdb]) (fun o ho => ⟨o, hdb ▸ ho, rfl⟩) rfl

/-! #### Listing the folders -/

theorem sure_folders (h : Sure w) {db : DB} (hlisted : Listed w.app.db db) :
    Sure { w with app := { w.app with db := db } } := by
  refine ⟨h.queue.of_ops hlisted.linked hlisted.ops rfl, h.numbered, h.said, fun f hf => ?_,
    fun o ho => h.ops o (hlisted.ops ▸ ho)⟩
  rcases hlisted.folders f hf with ⟨f₀, hf₀, hid, hkey, hvalidity⟩ | ⟨hnew, hzero⟩
  · obtain ⟨haccount, hpath⟩ := Prod.mk.inj hkey
    obtain ⟨hknown, hrows⟩ := h.folders f₀ hf₀
    rw [haccount, hpath, hvalidity] at hknown hrows
    rw [hid] at hrows
    exact ⟨hknown, hrows.imp id fun hshown =>
      hshown.fewer fun m hm => ⟨m, hlisted.rows m hm, rfl, rfl, rfl⟩⟩
  · refine ⟨hzero ▸ Nat.zero_le _, .inr (shown_of_empty fun m hm hfolder => ?_)⟩
    obtain ⟨g, hg, hid, -⟩ := h.queue.linked m (hlisted.rows m hm)
    have hbelow := w.app.db.folders.below g hg
    omega

/-! #### A round -/

/-- The rows a round brought show the mails they are of. -/
theorem Shown.brought {box box' : Imap.Mailbox} {f : Folder} {d₀ d : DB} {shows shows' : Nat → Option Nat}
    {folderID : Nat} (h : Shown d₀ shows box' folderID) (hd : Brought box f d₀ d) (hbox : box.Numbered)
    (hsame : folderID = f.id → box' = box) (hold : ∀ id ≤ d₀.messages.last, shows' id = shows id)
    (hnew : ∀ m ∈ d.messages.rows, d₀.messages.last < m.id → shows' m.id = box.serialOf m.uid.val) :
    Shown d shows' box' folderID := by
  intro m hm hfolder
  rcases hd.rows m hm with ⟨m₀, hm₀, hid, hfolder₀, huid⟩ | ⟨hlt, hin, r₀, hr₀, huid⟩
  · rw [← hid, ← huid, hold _ (d₀.messages.below m₀ hm₀)]
    exact h m₀ hm₀ (hfolder₀.trans hfolder)
  · rw [hsame (hfolder.symm.trans hin)]
    refine ⟨huid ▸ hbox.old r₀ hr₀, fun r hr hruid => ?_⟩
    rw [hnew m hm hlt, ← hruid]
    exact hbox.serialOf hr

theorem mem_updateSyncState {d : DB} {g : Folder} {id uidValidity uidNext total unread : Nat} {now : Time} :
    g ∈ (Folder.Repository.updateSyncState id uidValidity uidNext total unread now d).folders.rows ↔
      ∃ a ∈ d.folders.rows, (if a.id == id then
        { a with
          uidValidity := uidValidity
          uidNext := uidNext
          totalCount := total
          unreadCount := unread
          lastSyncedAt := now } else a) = g := List.mem_map

theorem linked_updateSyncState {d : DB} (h : d.Linked) (id uidValidity uidNext total unread : Nat)
    (now : Time) : (Folder.Repository.updateSyncState id uidValidity uidNext total unread now d).Linked := by
  intro m hm
  obtain ⟨f, hf, hid, haccount⟩ := h m hm
  refine ⟨_, mem_updateSyncState.mpr ⟨f, hf, rfl⟩, ?_⟩
  split
  · exact ⟨hid, haccount⟩
  · exact ⟨hid, haccount⟩

theorem showing_of_mem {box : Imap.Mailbox} {d : DB} {m : FlyMail.Message} (hm : m ∈ d.messages.rows)
    (hnew : w.app.db.messages.last < m.id) : w.showing box d m.id = box.serialOf m.uid.val := by
  have hget : Repository.getByID d m.id = some m := Table.get?_eq_some.mpr ⟨hm, rfl⟩
  unfold Timeline.showing
  rw [if_neg (Nat.not_le.mpr hnew), hget]
  rfl

theorem sure_roundEnd (h : Sure w) {f : Folder} (hf : f ∈ w.app.db.folders.rows) {db : DB} {bodies : Bodies}
    {seen : Notify.Seen}
    (hend : RoundEnd (w.app.boxes f.accountID f.path) f (w.uidValidity f.accountID f.path) w.app.db db) :
    Sure { w with
      app := { w.app with db := db }
      bodies := bodies
      seen := seen
      shows := w.showing (w.app.boxes f.accountID f.path) db } := by
  have hbox := h.numbered f.accountID f.path
  have hshown : ∀ {d₀ d : DB} {box : Imap.Mailbox} {folderID : Nat}, Shown d₀ w.shows box folderID →
      Brought (w.app.boxes f.accountID f.path) f d₀ d → d₀.messages.last = w.app.db.messages.last →
      d.messages = db.messages → (folderID = f.id → box = w.app.boxes f.accountID f.path) →
      Shown db (w.showing (w.app.boxes f.accountID f.path) db) box folderID := by
    intro d₀ d box folderID hbefore hd hlast hmessages hsame
    have hold : ∀ id ≤ d₀.messages.last,
        w.showing (w.app.boxes f.accountID f.path) db id = w.shows id := fun id hid => if_pos (hlast ▸ hid)
    have hafter := hbefore.brought hd hbox hsame hold
      fun m hm hnew => showing_of_mem (d := db) (hmessages ▸ hm) (hlast ▸ hnew)
    exact hafter.fewer fun m hm => ⟨m, hmessages ▸ hm, rfl, rfl, rfl⟩
  -- What is known of a folder whose row did not change.
  have hstays : ∀ {d : DB}, Brought (w.app.boxes f.accountID f.path) f w.app.db d → d.messages = db.messages →
      ∀ g ∈ w.app.db.folders.rows, Grounded db (w.showing (w.app.boxes f.accountID f.path) db)
        (w.app.boxes g.accountID g.path) (w.uidValidity g.accountID g.path) g := by
    intro d hd hmessages g hg
    obtain ⟨hknown, hrows⟩ := h.folders g hg
    refine ⟨hknown, hrows.imp id fun hbefore => hshown hbefore hd rfl hmessages fun hid => ?_⟩
    rw [w.app.db.folders.eq_of_pk hg hf hid]
  cases hend with
  | broken hd =>
      refine ⟨h.queue.of_ops hd.linked hd.ops rfl, h.numbered, h.said, fun g hg => ?_,
        fun o ho => h.ops o (hd.ops ▸ ho)⟩
      exact hstays hd rfl g (hd.folders ▸ hg)
  | @done d uidNext total unread now hd hfresh =>
      refine ⟨h.queue.of_ops (linked_updateSyncState hd.linked _ _ _ _ _ _) hd.ops rfl, h.numbered, h.said,
        fun g hg => ?_, fun o ho => h.ops o (hd.ops ▸ ho)⟩
      obtain ⟨a, ha, rfl⟩ := mem_updateSyncState.mp hg
      rw [hd.folders] at ha
      by_cases hid : a.id = f.id
      · obtain rfl := w.app.db.folders.eq_of_pk ha hf hid
        rw [if_pos (beq_self_eq_true a.id)]
        refine ⟨Nat.le_refl _, .inr ?_⟩
        obtain ⟨-, hother | hbefore⟩ := h.folders a ha
        · -- The rows of before are of another mailbox, and gone.
          have hgone : ∀ m ∈ (Repository.deleteByFolder a.id w.app.db).messages.rows, m.folderID ≠ a.id :=
            fun m hm => by simpa using (Table.mem_delete.mp hm).2
          exact hshown (shown_of_empty hgone) (hfresh ⟨hother.1, hother.2.symm⟩) rfl rfl fun _ => rfl
        · exact hshown hbefore hd rfl rfl fun _ => rfl
      · rw [if_neg (by simpa using hid)]
        exact hstays hd rfl a ha

theorem sure_round (h : Sure w) (m : Manager Empty Unit) {f : Folder} (hf : f ∈ w.app.db.folders.rows)
    (tellsNext : Bool) (bodies : Text → List Nat → List FetchedEmail) (fault : FolderStmt Empty → Fault) :
    Sure (Timeline.afterRound m w f tellsNext bodies fault) := by
  let s : State Unit := ⟨w.app.db, w.bodies, w.seen, [], [], ()⟩
  exact sure_roundEnd h hf (roundEnd_syncFolder (m := { m with rules := none }) (s := s)
    (c := w.session f.accountID tellsNext [] bodies) rfl hf h.queue.linked
    (Nat.pos_iff_ne_zero.mp (h.said f.accountID f.path)) fun e he => Imap.sends_serve he)

/-- **Every step keeps it.** -/
theorem sure_step (h : Sure w) (m : Manager Empty Unit) {t : Turn} {w' : Timeline}
    (hsettled : w.settled t = true) (hstep : Timeline.step m w t = some w') : Sure w' := by
  cases t with
  | app l =>
      obtain ⟨app, happ, rfl⟩ := Option.map_eq_some_iff.mp hstep
      exact sure_app h happ
  | others accountID path box =>
      simp only [Timeline.step] at hstep
      split at hstep
      · rename_i hcond
        cases hstep
        exact sure_setBox h hcond.1 hcond.2
      · cases hstep
  | renumber accountID path uidValidity box =>
      simp only [Timeline.step] at hstep
      split at hstep
      · rename_i hcond
        cases hstep
        exact sure_renumber h hcond.1 hcond.2 hsettled
      · cases hstep
  | folders accountID infos fault =>
      cases hstep
      exact sure_folders h (keeps_syncFolders _ _ _ _ (.faulty fault) (fun _ _ hd => hd) _
        (.refl h.queue.linked))
  | round folderID tellsNext bodies fault =>
      obtain ⟨f, hf, rfl⟩ := Option.map_eq_some_iff.mp hstep
      exact sure_round h m (Table.get?_eq_some.mp hf).1 tellsNext bodies fault

end Step

/-! ### Runs -/

theorem sure_start {w : Timeline} (h : w.Start) : Sure w := by
  have hqueue : QueueInv w.app := by
    refine ⟨?_, fun b o ho => ?_, fun b => ?_, fun b id hid => ?_⟩
    · rw [h.db]
      exact fun m hm => absurd hm List.not_mem_nil
    · rw [h.idle b] at ho
      exact absurd ho List.not_mem_nil
    · rw [h.idle b]
      exact .nil
    · rw [h.idle b] at hid
      exact absurd hid List.not_mem_nil
  refine ⟨hqueue, h.numbered, h.said, ?_, ?_⟩
  · rw [h.db]
    exact fun f hf => absurd hf List.not_mem_nil
  · rw [h.db]
    exact fun o ho => absurd ho List.not_mem_nil

theorem unnamed_of_notMem {canMove : Bool} {o : WritebackOp} {uid : Nat} (h : uid ∉ opUIDs o) :
    ∀ c ∈ applyWriteback canMove o, c.unnamed uid := by
  have hflag : ∀ (flag : Imap.Flag) (on : Bool), ∀ c ∈ Imap.storeFlags (opUIDs o) flag on, c.unnamed uid := by
    intro flag on c hc
    unfold Imap.storeFlags at hc
    split at hc
    · exact absurd hc List.not_mem_nil
    · rw [List.mem_singleton.mp hc]
      exact h
  have hdelete : ∀ c ∈ Imap.delete (opUIDs o), c.unnamed uid := by
    intro c hc
    rcases List.mem_append.mp hc with hc | hc
    · exact hflag _ _ c hc
    · rw [List.mem_singleton.mp hc]
      trivial
  intro c hc
  unfold applyWriteback at hc
  dsimp only at hc
  split at hc
  · exact absurd hc List.not_mem_nil
  · split at hc
    · exact hflag _ _ c hc
    · exact hflag _ _ c hc
    · exact hflag _ _ c hc
    · exact hflag _ _ c hc
    · unfold Imap.move at hc
      split at hc
      · exact absurd hc List.not_mem_nil
      · split at hc
        · rw [List.mem_singleton.mp hc]
          exact h
        · rcases List.mem_cons.mp hc with rfl | hc
          · trivial
          · exact hdelete c hc
    · exact hdelete c hc

/-- **A queued row is executed on the mails its call acted on**, where the mailbox has the UIDVALIDITY it
had then and the folder's row did not hold another one. No mailbox was made anew during the folder's
first import. -/
theorem attempt_unmistaken {m : Manager Empty Unit} {w w' : Timeline} (h : w.Start)
    (hrun : Run (Timeline.step m) (fun w t => w.settled t = true) w w') {accountID : Nat} {o : WritebackOp}
    {rest : List WritebackOp} (hwork : (w'.app.runners accountID).work = o :: rest)
    (hcurrent : w'.current o = true) : w'.Unmistaken o := by
  have hsure : Sure w' := hrun.invariant (fun _ _ _ hs ht hstep => sure_step hs m ht hstep) (sure_start h)
  obtain ⟨-, row, hrow, hcore⟩ := hsure.queue.work accountID o (by rw [hwork]; exact List.mem_cons_self)
  obtain ⟨hid, haccount, hpath, -, -, huids⟩ := eq_of_core hcore
  obtain ⟨q, hq, hnames⟩ := hsure.ops row hrow
  rw [hid] at hq
  unfold Timeline.box at hnames
  rw [haccount, hpath, huids] at hnames
  unfold Timeline.current at hcurrent
  rw [hq] at hcurrent
  simp only [Bool.and_eq_true, Bool.or_eq_true, beq_iff_eq] at hcurrent
  have hacted : ∀ r ∈ (w'.box o).mails, r.uid ∈ opUIDs o → w'.ActedOn o r.uid r.serial := by
    intro r hr huid
    obtain ⟨a, ha, hsame⟩ := (hnames.same hcurrent.1 hcurrent.2 r.uid huid).2 r hr rfl
    exact ⟨q, hq, a, ha, hsame⟩
  refine ⟨hacted, fun canMove x path r hr hdeleted hnot => ?_⟩
  refine Imap.mem_runCommands_of_unnamed hdeleted hr fun c hc hp => ?_
  subst hp
  exact unnamed_of_notMem (fun huid => hnot r.uid (hacted r hr huid)) c hc

/-! #### A mailbox with one mail -/

private def inboxPath : Text := "INBOX".toList

private def mailbox (serial : Nat) : Imap.Mailbox :=
  ⟨[⟨serial, 1, false, false, false, false, ⟨[], [], [], [], [], [], [], 0, 0⟩⟩], 2⟩

private theorem mailbox_numbered (serial : Nat) : (mailbox serial).Numbered :=
  ⟨fun m hm => by rw [List.mem_singleton.mp hm]; exact Nat.lt_add_one 1, List.nodup_singleton _⟩

private def oneInbox : Timeline where
  app := {
    db := .empty
    boxes := fun _ _ => mailbox 1
    canMove := fun _ => false
    runners := fun _ => ⟨[], []⟩
    now := 0
    moved := [] }
  uidValidity := fun _ _ => 1
  bodies := ⟨[], []⟩
  seen := []
  shows := fun _ => none
  journal := fun _ => none

private theorem oneInbox_start : oneInbox.Start :=
  ⟨rfl, fun _ => rfl, fun _ _ => mailbox_numbered 1, fun _ _ => Nat.one_pos⟩

private def noRules : Manager Empty Unit := ⟨id, 1000, fun _ _ _ => .inbox, none⟩

/-- The inbox is fetched, and its mail is starred. -/
private def starred : List Turn :=
  [.folders 1 [⟨inboxPath, inboxPath, ['/'], []⟩] fun _ => .none, .round 1 true (fun _ _ => []) fun _ => .none,
    .app (.user ⟨fun _ _ => 0, fun _ _ => 0⟩ (.setFlagged 1 true))]

/-- The runner has the row in hand, and the mail is the one that was starred. -/
theorem attempt_unmistaken_starred : ∃ t o, exec (Timeline.step noRules) Timeline.settled oneInbox
    (starred ++ [.app (.next 1)]) = some t ∧ (t.app.runners 1).work = [o] ∧ opUIDs o = [1] ∧
      t.ActedOn o 1 1 ∧ t.Unmistaken o := by
  have hview : (exec (Timeline.step noRules) Timeline.settled oneInbox (starred ++ [.app (.next 1)])).map
      (fun t => ((t.app.runners 1).work.map fun o => (opUIDs o, t.current o, (t.box o).mails.map Imap.Mail.uid,
        (t.box o).mails.map Imap.Mail.serial)))
      = some [([1], true, [1], [1])] := by decide +kernel
  obtain ⟨t, ht, heq⟩ := Option.map_eq_some_iff.mp hview
  obtain ⟨o, hwork, ho⟩ := List.map_eq_singleton_iff.mp heq
  simp only [Prod.mk.injEq] at ho
  obtain ⟨huids, hcurrent, hmailUIDs, hserials⟩ := ho
  have hall := attempt_unmistaken oneInbox_start (Run.ofExec _ ht) hwork hcurrent
  refine ⟨t, o, ht, hwork, huids, ?_, hall⟩
  obtain ⟨r, hr, huid⟩ := List.map_eq_singleton_iff.mp hmailUIDs
  rw [hr] at hserials
  have hserial : r.serial = 1 := List.head_eq_of_cons_eq hserials
  have hacted := hall.names r (by rw [hr]; exact List.mem_singleton.mpr rfl)
    (by rw [huids, huid]; exact List.mem_singleton.mpr rfl)
  rw [huid, hserial] at hacted
  exact hacted

/-- **The mailbox is made anew, and another mail is starred.** -/
theorem attempt_after_renumbering : ¬ ∀ (m : Manager Empty Unit) (w w' : Timeline), w.Start →
    Run (Timeline.step m) (fun w t => w.settled t = true) w w' → ∀ accountID o rest,
      (w'.app.runners accountID).work = o :: rest → w'.Unmistaken o := by
  intro h
  have hview : (exec (Timeline.step noRules) Timeline.settled oneInbox (starred ++
      [.renumber 1 inboxPath 2 (mailbox 2), .app (.next 1)])).map
      (fun t => ((t.app.runners 1).work.map fun o => (opUIDs o, (t.box o).mails.map Imap.Mail.uid,
        (t.box o).mails.map Imap.Mail.serial, (t.journal o.id).map Queued.acted)))
      = some [([1], [1], [2], some [⟨1, some 1, some 1⟩])] := rfl
  obtain ⟨t, ht, heq⟩ := Option.map_eq_some_iff.mp hview
  obtain ⟨o, hwork, ho⟩ := List.map_eq_singleton_iff.mp heq
  simp only [Prod.mk.injEq] at ho
  obtain ⟨huids, hmailUIDs, hserials, hjournal⟩ := ho
  have hall := h noRules oneInbox t oneInbox_start (Run.ofExec _ ht) 1 o [] hwork
  obtain ⟨r, hr, huid⟩ := List.map_eq_singleton_iff.mp hmailUIDs
  rw [hr] at hserials
  have hserial : r.serial = 2 := List.head_eq_of_cons_eq hserials
  obtain ⟨q, hq, a, ha, -, hshown, -⟩ := hall.names r (by rw [hr]; exact List.mem_singleton.mpr rfl)
    (by rw [huids, huid]; exact List.mem_singleton.mpr rfl)
  rw [hq] at hjournal
  rw [Option.some.inj hjournal] at ha
  rw [List.mem_singleton.mp ha, hserial] at hshown
  cases hshown

end Sync

end FlyMail
