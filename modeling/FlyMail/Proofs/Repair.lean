/-
What a round makes good after a change was given up.

A change that is given up leaves the local rows as the user left them and the server as it was.
The next full round is to bring the two together again.  But a round of a folder asks for no
mail below its anchor, so it sees such a mail neither when its flags differ nor when its row is
gone: what is made good is what lies at the anchor or behind it, and nothing else changes.

`Mirrored` says that a folder has a row for a mail with the mail's flags.  It holds of a mail after
a full round if and only if the mail is not below the anchor or it held before, and that is
`restored_of_fullSync`.  Nothing in it depends on why the folder and the server differ; `agrees_iff`
says it of the mails of a queued row.  Rules that act on mails do what the user does, so they are
taken to leave the database alone.
-/
import FlyMail.Proofs.Prefetch
import FlyMail.Proofs.Renumbering

namespace FlyMail

namespace Imap

/-! ### What a server sends of a range -/

section Serve

variable {boxes : Boxes} {uidValidity : Text → Nat} {tellsNext : Bool} {folders : List FolderInfo}
  {bodies : Text → List Nat → List FetchedEmail} {path : Text} {m : Mail} {e : ParsedEmail} {a b : Nat}

theorem flags_of_fetched (h : m.fetched = some e) : e.isRead = m.seen ∧ e.isStarred = m.flagged := by
  unfold Mail.fetched at h
  split at h
  · rw [← Option.some.inj h]
    exact ⟨rfl, rfl⟩
  · cases h

theorem mem_serve (hm : m ∈ (boxes path).mails) (he : m.fetched = some e) (ha : a ≤ m.uid) (hb : m.uid ≤ b) :
    e ∈ (serve boxes uidValidity tellsNext folders bodies).fetchByUIDRange path a b := by
  have hpos := e.uid.pos
  rw [uid_of_fetched he] at hpos
  refine List.mem_filterMap.mpr ⟨m, ?_, he⟩
  unfold Mailbox.uidRange
  rw [if_neg (by omega)]
  exact List.mem_filter.mpr ⟨hm, by simp [ha, hb]⟩

theorem exists_of_mem_serve
    (h : e ∈ (serve boxes uidValidity tellsNext folders bodies).fetchByUIDRange path a b) :
    ∃ m ∈ (boxes path).mails, m.fetched = some e ∧ (b ≠ 0 → a ≤ m.uid) := by
  obtain ⟨m, hm, he⟩ := List.mem_filterMap.mp h
  unfold Mailbox.uidRange at hm
  split at hm
  · exact ⟨m, (List.mem_filter.mp hm).1, he, fun hb => absurd ‹b = 0› hb⟩
  · obtain ⟨hmem, hin⟩ := List.mem_filter.mp hm
    simp only [Bool.and_eq_true, decide_eq_true_eq] at hin
    exact ⟨m, hmem, he, fun _ => hin.1⟩

end Serve

end Imap

namespace Message

open Proc

/-! ### Rows and flags -/

/-- The folder has a row for the mail with these flags. -/
def Mirrored (d : DB) (folderID uid : Nat) (seen flagged : Bool) : Prop :=
  ∃ m ∈ d.messages.rows, m.folderID = folderID ∧ m.uid.val = uid ∧ m.seen = seen ∧ m.flagged = flagged

section Mirrored

variable {d d' : DB} {folderID uid : Nat} {seen flagged : Bool}

theorem mirrored_of_same (hsame : SameMails d d') (h : Mirrored d folderID uid seen flagged) :
    Mirrored d' folderID uid seen flagged := by
  obtain ⟨m, hm, hfolder, huid, hseen, hflagged⟩ := h
  obtain ⟨m', hm', hcore⟩ := hsame.symm.exists_core hm
  have hfolder' : m'.core.folderID = m.core.folderID := congrArg Message.folderID hcore
  have huid' : m'.core.uid = m.core.uid := congrArg Message.uid hcore
  have hseen' : m'.core.seen = m.core.seen := congrArg Message.seen hcore
  have hflagged' : m'.core.flagged = m.core.flagged := congrArg Message.flagged hcore
  exact ⟨m', hm', hfolder'.trans hfolder, (congrArg UID.val huid').trans huid, hseen'.trans hseen,
    hflagged'.trans hflagged⟩

theorem mirrored_iff_of_same (hsame : SameMails d d') :
    Mirrored d' folderID uid seen flagged ↔ Mirrored d folderID uid seen flagged :=
  ⟨mirrored_of_same hsame.symm, mirrored_of_same hsame⟩

/-- A mail that is stored has a row with its flags. -/
theorem mirrored_upsert (accountID folderID : Nat) (e : ParsedEmail) :
    Mirrored (Repository.upsert (toMessage accountID folderID e) d) folderID e.uid.val e.isRead e.isStarred := by
  by_cases h : ∃ a ∈ d.messages.rows, a.key = (folderID, e.uid)
  · obtain ⟨a, ha, hkey⟩ := h
    obtain ⟨hfolder, huid⟩ := Prod.mk.inj hkey
    exact ⟨_, Repository.mem_upsert.mpr (.inr (.inl ⟨a, ha, hkey, rfl⟩)), hfolder, congrArg UID.val huid, rfl, rfl⟩
  · exact ⟨_, Repository.mem_upsert.mpr (.inr (.inr ⟨fun a ha hkey => h ⟨a, ha, hkey⟩, rfl⟩)), rfl, rfl, rfl, rfl⟩

/-- Storing another mail leaves a mail's row as it is. -/
theorem mirrored_upsert_of_ne {accountID other : Nat} {e : ParsedEmail}
    (hne : other ≠ folderID ∨ e.uid.val ≠ uid) :
    Mirrored (Repository.upsert (toMessage accountID other e) d) folderID uid seen flagged ↔
      Mirrored d folderID uid seen flagged := by
  refine ⟨fun h => ?_, fun h => ?_⟩
  · obtain ⟨m, hm, hfolder, huid, hflags⟩ := h
    rcases Repository.mem_upsert.mp hm with ⟨hm, -⟩ | ⟨a, -, hkey, rfl⟩ | ⟨-, rfl⟩
    · exact ⟨m, hm, hfolder, huid, hflags⟩
    · obtain ⟨hfolder', huid'⟩ := Prod.mk.inj hkey
      rcases hne with hne | hne
      · exact absurd (hfolder'.symm.trans hfolder) hne
      · exact absurd ((congrArg UID.val huid').symm.trans huid) hne
    · rcases hne with hne | hne
      · exact absurd hfolder hne
      · exact absurd huid hne
  · obtain ⟨m, hm, hfolder, huid, hflags⟩ := h
    refine ⟨m, Repository.mem_upsert.mpr (.inl ⟨hm, fun hkey => ?_⟩), hfolder, huid, hflags⟩
    obtain ⟨hfolder', huid'⟩ := Prod.mk.inj hkey
    rcases hne with hne | hne
    · exact hne (hfolder'.symm.trans hfolder)
    · exact hne ((congrArg UID.val huid').symm.trans huid)

theorem mirrored_deleteByFolder_of_ne {other : Nat} (hne : other ≠ folderID) :
    Mirrored (Repository.deleteByFolder other d) folderID uid seen flagged ↔
      Mirrored d folderID uid seen flagged := by
  refine ⟨fun ⟨m, hm, h⟩ => ⟨m, (Table.mem_delete.mp hm).1, h⟩, fun ⟨m, hm, hfolder, h⟩ =>
    ⟨m, Table.mem_delete.mpr ⟨hm, ?_⟩, hfolder, h⟩⟩
  rw [hfolder]
  simpa using Ne.symm hne

end Mirrored

/-- The folder's rows are for the same mails, with the same flags. -/
def SameIn (folderID : Nat) (d₀ d : DB) : Prop :=
  ∀ uid seen flagged, Mirrored d folderID uid seen flagged ↔ Mirrored d₀ folderID uid seen flagged

section SameIn

variable {d₀ d d' : DB} {folderID : Nat}

theorem SameIn.refl (d : DB) : SameIn folderID d d := fun _ _ _ => Iff.rfl

theorem coarse_sameIn : Coarse (SameIn folderID d₀) :=
  fun _ _ hsame h uid seen flagged => (mirrored_iff_of_same hsame).trans (h uid seen flagged)

theorem SameIn.upsert {accountID other : Nat} {e : ParsedEmail} (h : SameIn folderID d₀ d)
    (hne : other ≠ folderID) : SameIn folderID d₀ (Repository.upsert (toMessage accountID other e) d) :=
  fun uid seen flagged => (mirrored_upsert_of_ne (.inl hne)).trans (h uid seen flagged)

theorem SameIn.deleteByFolder {other : Nat} (h : SameIn folderID d₀ d) (hne : other ≠ folderID) :
    SameIn folderID d₀ (Repository.deleteByFolder other d) :=
  fun uid seen flagged => (mirrored_deleteByFolder_of_ne hne).trans (h uid seen flagged)

theorem maxUID_le_iff {b : Nat} : Repository.maxUID d folderID ≤ b ↔
    ∀ m ∈ d.messages.rows, m.folderID = folderID → m.uid.val ≤ b := by
  unfold Repository.maxUID
  rw [Sync.foldl_max_le_iff]
  refine ⟨fun h m hm hfolder => h.2 _ (List.mem_map_of_mem (List.mem_filter.mpr ⟨hm, by simpa using hfolder⟩)),
    fun h => ⟨Nat.zero_le b, fun k hk => ?_⟩⟩
  obtain ⟨m, hm, rfl⟩ := List.mem_map.mp hk
  exact h m (List.mem_filter.mp hm).1 (by simpa using (List.mem_filter.mp hm).2)

/-- Folders with rows for the same mails have the same largest UID. -/
theorem SameIn.maxUID_eq (h : SameIn folderID d₀ d) :
    Repository.maxUID d folderID = Repository.maxUID d₀ folderID := by
  refine Nat.le_antisymm (maxUID_le_iff.mpr fun m hm hfolder => ?_) (maxUID_le_iff.mpr fun m hm hfolder => ?_)
  · obtain ⟨m₀, hm₀, hfolder₀, huid, -⟩ := (h _ _ _).mp ⟨m, hm, hfolder, rfl, rfl, rfl⟩
    rw [← huid]
    exact maxUID_le_iff.mp (Nat.le_refl _) m₀ hm₀ hfolder₀
  · obtain ⟨m₁, hm₁, hfolder₁, huid, -⟩ := (h _ _ _).mpr ⟨m, hm, hfolder, rfl, rfl, rfl⟩
    rw [← huid]
    exact maxUID_le_iff.mp (Nat.le_refl _) m₁ hm₁ hfolder₁

end SameIn

/-- There is a row for the mail with these flags if there was one, or if the mail is not below the
anchor. -/
def Restored (prevUIDNext folderID uid : Nat) (seen flagged : Bool) (d₀ d : DB) : Prop :=
  Mirrored d folderID uid seen flagged ↔
    anchorOf prevUIDNext (Repository.maxUID d₀ folderID) ≤ uid ∨ Mirrored d₀ folderID uid seen flagged

/-! ### What a fetch brings -/

section Fetch

variable {ι σ : Type} [HasDB σ] {s : σ} {digest : Text → Text} {accountID folderID uid : Nat}
  {seen flagged : Bool}

omit [HasDB σ] in
/-- Where nothing fails, a program that returns keeps what it keeps. -/
theorem ends_of_returns {α : Type} {p : Proc ι Err σ α} {J : σ → Prop} (hret : Returns p) (hkeeps : Keeps J p)
    (hs : J s) : Ends .calm s p (fun _ => J) fun _ => False := by
  obtain ⟨a, t, hp⟩ := hret s
  refine ends_of_ok hp ?_
  have hleft := hkeeps .calm (fun _ _ h => h) s hs
  rw [hp] at hleft
  exact hleft

theorem coarseOn_mirrored : CoarseOn fun s : σ => Mirrored (db s) folderID uid seen flagged :=
  coarseOn_db fun _ _ hsame h => mirrored_of_same hsame h

theorem ends_upsertAll (at_ : BatchStmt → ι) {emails : List ParsedEmail}
    (hflags : ∀ e ∈ emails, e.uid.val = uid → e.isRead = seen ∧ e.isStarred = flagged) : ∀ {n : Nat} {s : σ},
      ((∃ e ∈ emails, e.uid.val = uid) ∨ Mirrored (db s) folderID uid seen flagged) →
        Ends .calm s (upsertAll at_ accountID folderID n emails)
          (fun _ t => Mirrored (db t) folderID uid seen flagged) fun _ => False := by
  induction emails with
  | nil => exact fun h => ends_pure (h.resolve_left fun ⟨_, he, _⟩ => absurd he List.not_mem_nil)
  | cons e rest ih =>
      intro n s h
      refine ends_bind (ends_of_ok rfl (ih (fun e' he' => hflags e' (List.mem_cons_of_mem _ he')) ?_))
      rw [db_setDB]
      by_cases huid : e.uid.val = uid
      · obtain ⟨hseen, hflagged⟩ := hflags e List.mem_cons_self huid
        refine .inr ?_
        rw [← huid, ← hseen, ← hflagged]
        exact mirrored_upsert accountID folderID e
      · refine h.imp (fun ⟨e', he', huid'⟩ => ⟨e', ?_, huid'⟩) (mirrored_upsert_of_ne (.inr huid)).mpr
        rcases List.mem_cons.mp he' with rfl | he'
        · exact absurd huid' huid
        · exact he'

theorem ends_upsertBatch (at_ : BatchStmt → ι) {emails : List ParsedEmail}
    (hflags : ∀ e ∈ emails, e.uid.val = uid → e.isRead = seen ∧ e.isStarred = flagged)
    (h : (∃ e ∈ emails, e.uid.val = uid) ∨ Mirrored (db s) folderID uid seen flagged) :
    Ends .calm s (upsertBatch digest at_ accountID folderID emails)
      (fun _ t => Mirrored (db t) folderID uid seen flagged) fun _ => False := by
  unfold upsertBatch
  split
  · rename_i hnil
    rw [hnil] at h
    exact ends_pure (h.resolve_left fun ⟨_, he, _⟩ => absurd he List.not_mem_nil)
  · refine ends_bind ((ends_upsertAll at_ hflags h).imp (fun _ t ht => ?_) fun _ ht => ht)
    refine ends_bind ((ends_of_returns (J := fun t => Mirrored (db t) folderID uid seen flagged)
      (returns_loadChunks at_ folderID _ 0) (keeps_loadChunks at_ folderID _ 0) ht).imp
        (fun rows t ht => ?_) fun _ ht => ht)
    exact ends_of_returns (J := fun t => Mirrored (db t) folderID uid seen flagged) (returns_assignThreads digest _ rows)
      (keeps_assignThreads digest _ coarseOn_mirrored.threadBlind rows) ht

/-- **A range that is fetched** brings a mail of it its row. -/
theorem ends_fetchBatched (at_ : SyncStmt → ι) {fetch : Nat → Nat → List ParsedEmail} {start last : Nat}
    (hflags : ∀ a b, ∀ e ∈ fetch a b, e.uid.val = uid → e.isRead = seen ∧ e.isStarred = flagged)
    (h : ∃ b ∈ rangesOf start last, ∃ e ∈ fetch b.1 b.2, e.uid.val = uid) :
    Ends .calm s (fetchBatched digest at_ accountID folderID fetch start last)
      (fun _ t => Mirrored (db t) folderID uid seen flagged) fun _ => False := by
  let I : List (Nat × Nat) → σ → Prop := fun l t =>
    (∃ b ∈ l, ∃ e ∈ fetch b.1 b.2, e.uid.val = uid) ∨ Mirrored (db t) folderID uid seen flagged
  have hends : Ends .calm s (fetchBatched digest at_ accountID folderID fetch start last)
      (fun _ t => I [] t) fun _ => False := by
    refine ends_each (I := I) _ (fun b rest t ht => ?_) (.inl h)
    refine ends_bind (ends_of_ok rfl ?_)
    by_cases hb : ∃ e ∈ fetch b.1 b.2, e.uid.val = uid
    · exact (ends_upsertBatch _ (hflags b.1 b.2) (.inl hb)).imp (fun _ _ hu => .inr hu) fun _ hu => hu
    · rcases ht with ⟨b', hb', hmail⟩ | ht
      · refine (ends_of_returns (J := fun _ => True) (returns_upsertBatch digest _ accountID folderID _)
          (fun _ _ _ _ => trivial) trivial).imp (fun _ _ _ => .inl ⟨b', ?_, hmail⟩) fun _ hu => hu
        rcases List.mem_cons.mp hb' with rfl | hb'
        · exact absurd hmail hb
        · exact hb'
      · exact (ends_upsertBatch _ (hflags b.1 b.2) (.inr ht)).imp (fun _ _ hu => .inr hu) fun _ hu => hu
  exact hends.imp (fun _ _ ht => ht.resolve_left fun ⟨_, hb, _⟩ => absurd hb List.not_mem_nil) fun _ ht => ht

theorem default_calm {α : Type} (i : ι) (f : DB → α) (a : α) (s : σ) :
    withDefault (queryDB i Err.db f) a .calm s = (.ok (f (db s)), s) := withDefault_ok (queryDB_calm i Err.db f s)

theorem returns_default {α : Type} (i : ι) (f : DB → α) (a : α) :
    Returns (withDefault (queryDB i Err.db f) a : Proc ι Err σ α) := fun s => ⟨_, s, default_calm i f a s⟩

theorem anchorFor_calm (at_ : SyncStmt → ι) (prevUIDNext : Nat) (s : σ) :
    anchorFor at_ folderID prevUIDNext .calm s
      = (.ok (anchorOf prevUIDNext (Repository.maxUID (db s) folderID)), s) := by
  unfold anchorFor anchorOf
  split
  · exact bind_ok (default_calm _ _ _ s)
  · rfl

theorem returns_folderState (at_ : SyncStmt → ι) (folderID uidValidity uidNext total unread : Nat) :
    Returns (folderState at_ folderID uidValidity uidNext total unread : Proc ι Err σ FolderState) := by
  unfold folderState
  split
  · exact returns_bind (returns_default _ _ _) fun _ => returns_pure _
  · exact returns_pure _

theorem returns_newMail (at_ : SyncStmt → ι) (folderID prevUIDNext before afterID total : Nat) :
    Returns (newMail at_ folderID prevUIDNext before afterID total : Proc ι Err σ NewMail) := by
  unfold newMail
  dsimp only
  split
  · exact returns_pure _
  · refine returns_bind (returns_default _ _ _) fun unseenTotal => ?_
    split
    · exact returns_pure _
    · exact returns_bind (returns_default _ _ _) fun _ => returns_pure _

/-- **A round of a folder that is the one it was** leaves what fetching new mail leaves. -/
theorem ends_incrementalSync_calm (syncDepth : Nat) (at_ : SyncStmt → ι) {c : Session} {path : Text}
    {prevUIDValidity prevUIDNext : Nat} {J : σ → Prop} (hsaid : (c.selectFolder path).uidValidity ≠ 0)
    (hsame : prevUIDValidity = 0 ∨ (c.selectFolder path).uidValidity = prevUIDValidity)
    (hnext : (c.selectFolder path).uidNext ≠ 0)
    (hfetch : Ends .calm s (fetchNew digest syncDepth at_ c accountID folderID path prevUIDNext
      (c.selectFolder path).numMessages (c.selectFolder path).uidNext) (fun _ => J) J) :
    Ends .calm s
      (incrementalSync digest syncDepth at_ c accountID folderID path prevUIDValidity prevUIDNext)
      (fun _ => J) J := by
  unfold incrementalSync
  refine ends_bind (ends_of_ok rfl ?_)
  rw [reported_said hsaid]
  refine ends_bind (ends_pure ?_)
  rw [if_neg fun h => hsame.elim h.1 h.2.2]
  refine ends_bind (ends_of_ok (default_calm _ _ _ s) ?_)
  refine ends_bind (ends_of_ok (default_calm _ _ _ s) ?_)
  rw [reported_said hnext]
  refine ends_bind (ends_pure (ends_bind (hfetch.imp (fun _ t ht => ?_) fun _ ht => ht)))
  refine Keeps.ends ?_ (fun _ _ h => h) ht
  refine keeps_bind (keeps_withDefault (keeps_queryDB _ _ _) 0) fun total => ?_
  refine keeps_bind (keeps_withDefault (keeps_queryDB _ _ _) 0) fun unread => ?_
  refine keeps_bind (keeps_newMail folderID _ _ _ _) fun nm => ?_
  exact keeps_bind (keeps_folderState folderID _ _ _ _) fun _ => keeps_pure _

/-- **What a round makes good** is what is not below its anchor, and it leaves the rest. -/
theorem ends_fetchNew_repairs (syncDepth : Nat) (at_ : SyncStmt → ι) {c : Session} {path : Text}
    {prevUIDNext numMessages uidNext : Nat} (hfits : uidNext < 2 ^ 32) (hhi : uid < uidNext)
    (hsent : ∀ a b, a ≤ uid → uid ≤ b → ∃ e ∈ c.fetchByUIDRange path a b, e.uid.val = uid)
    (hrange : ∀ a b, b ≠ 0 → ∀ e ∈ c.fetchByUIDRange path a b, a ≤ e.uid.val)
    (hflags : ∀ a b, ∀ e ∈ c.fetchByUIDRange path a b, e.uid.val = uid → e.isRead = seen ∧ e.isStarred = flagged) :
    Ends .calm s (fetchNew digest syncDepth at_ c accountID folderID path prevUIDNext numMessages uidNext)
      (fun _ t => Restored prevUIDNext folderID uid seen flagged (db s) (db t))
      fun t => Restored prevUIDNext folderID uid seen flagged (db s) (db t) := by
  let anchor := anchorOf prevUIDNext (Repository.maxUID (db s) folderID)
  by_cases hlo : anchor ≤ uid
  · unfold fetchNew
    rw [if_pos (by omega)]
    refine ends_bind (ends_of_ok (anchorFor_calm at_ prevUIDNext s) ?_)
    rw [if_pos (by omega)]
    have hlast : uidNext - 1 < 2 ^ 32 := by omega
    obtain ⟨b, hb, hblo, hbhi⟩ := mem_batches hlast (Nat.le_refl (uidNext - 1 + 1 - anchor)) hlo (by omega)
    refine (ends_fetchBatched at_ hflags ⟨b, hb, hsent b.1 b.2 hblo hbhi⟩).imp (fun _ t ht => ?_)
      fun _ ht => ht.elim
    exact ⟨fun _ => .inl hlo, fun _ => ht⟩
  · refine fetchNew_leaves (φ := fun _ => .none) (I := Restored prevUIDNext folderID uid seen flagged (db s))
      ?_ ?_ ⟨.inr, fun h => h.resolve_left hlo⟩
    · exact fun d d' hsame h => (mirrored_iff_of_same hsame).trans h
    · intro b hb e he d hd
      change b ∈ newRequests syncDepth c path prevUIDNext numMessages uidNext
        (Repository.maxUID (db s) folderID) at hb
      unfold newRequests at hb
      rw [if_pos (by omega)] at hb
      split at hb
      · obtain ⟨range, hin, rfl⟩ := List.mem_map.mp hb
        obtain ⟨hstart, hle, -⟩ := batch_within (by omega) hin
        have hfrom := hrange _ _ (by omega) e he
        have hne : e.uid.val ≠ uid := by omega
        exact (mirrored_upsert_of_ne (.inr hne)).trans hd
      · exact absurd hb List.not_mem_nil

end Fetch

end Message

namespace Sync

open Proc FlyMail.Message

variable {κ ρ : Type}

/-! ### The rest of a round -/

/-- The rules leave the database as it is. -/
structure RuleRunner.Quiet (r : RuleRunner κ ρ) : Prop where
  apply : ∀ d accountID f rows, Keeps (fun t : State ρ => t.db = d) (r.apply accountID f rows)
  handled : ∀ d accountID rows, Keeps (fun t : State ρ => t.db = d) (r.handled accountID rows)

section Quiet

variable {r : RuleRunner κ ρ} {d : DB}

theorem keeps_runRules (hr : r.Quiet) (f : Folder) (fuel : Nat) : ∀ page afterID changed,
    Keeps (fun t : State ρ => t.db = d) (runRules r f fuel page afterID changed) := by
  induction fuel with
  | zero => exact fun page afterID changed => keeps_pure _
  | succ fuel ih =>
      intro page afterID changed
      refine keeps_bind (keeps_attempt (keeps_query _ _ _)) fun rows => ?_
      split
      · exact keeps_pure _
      · split
        · exact keeps_pure _
        · refine keeps_bind (fun _ _ _ ht => ht) fun _ => ?_
          refine keeps_bind (keeps_attempt (keeps_relabel (hr.apply d _ f _) _)) fun c => ?_
          split
          · exact keeps_pure _
          · split
            · exact keeps_pure _
            · exact ih _ _ _

theorem keeps_suppressHandled (hr : r.Quiet) (f : Folder) (nm : NewMail) :
    Keeps (fun t : State ρ => t.db = d) (suppressHandled r f nm) := by
  unfold suppressHandled
  split
  · exact keeps_pure _
  · refine keeps_bind (keeps_withDefault (keeps_query _ _ _) []) fun rows => ?_
    split
    · exact keeps_pure _
    · refine keeps_bind (keeps_relabel (keeps_withDefault (hr.handled d _ rows) []) _) fun handled => ?_
      split
      · exact keeps_pure _
      · exact keeps_pure _

theorem keeps_inboxRules (hr : r.Quiet) (f : Folder) (state : FolderState) (nm : NewMail) :
    Keeps (fun t : State ρ => t.db = d) (inboxRules r f state nm) := by
  unfold inboxRules
  refine keeps_bind (fun _ _ _ ht => ht) fun fuel => keeps_bind (keeps_runRules hr f fuel 0 _ _) fun a => ?_
  dsimp only
  split
  · refine keeps_bind (keeps_withDefault (keeps_query _ _ _) _) fun total => ?_
    refine keeps_bind (keeps_withDefault (keeps_query _ _ _) _) fun unread => ?_
    exact keeps_bind (keeps_refreshNewMail f nm) fun _ => keeps_pure _
  · exact keeps_pure _

theorem keeps_applyRules {rules : Option (RuleRunner κ ρ)} (hr : ∀ r ∈ rules, r.Quiet) (f : Folder)
    (state : FolderState) (nm : NewMail) :
    Keeps (fun t : State ρ => t.db = d) (applyRules rules f state nm) := by
  unfold applyRules
  split
  · exact keeps_pure _
  · rename_i r
    have hr := hr r rfl
    split
    · exact keeps_pure _
    split
    · exact keeps_inboxRules hr f state nm
    split
    · exact keeps_bind (keeps_suppressHandled hr f nm) fun _ => keeps_pure _
    · exact keeps_pure _

end Quiet

/-! ### A round -/

/-- The property is about the rows of the folder. -/
def AboutFolder (folderID : Nat) (I : DB → Prop) : Prop := ∀ d d', SameIn folderID d d' → I d → I d'

section Round

variable {folderID : Nat} {I : DB → Prop} {m : Manager κ ρ} {c : FullSession} {now : Time} {s : State ρ}

theorem AboutFolder.coarse (hI : AboutFolder folderID I) : Coarse I :=
  fun d d' hsame h => hI d d' (fun _ _ _ => mirrored_iff_of_same hsame) h

/-- **What fetching leaves of the folder, the whole round does.** -/
theorem ends_syncFolder (hI : AboutFolder folderID I) (hr : ∀ r ∈ m.rules, r.Quiet) (g : Folder)
    (hsync : Ends .calm s (incrementalSync m.digest m.syncDepth FolderStmt.sync c.toSession g.accountID
      g.id g.path g.uidValidity g.uidNext : FolderProg κ ρ _) (fun _ t => I t.db) fun t => I t.db) :
    Ends .calm s (m.syncFolder g c now) (fun _ t => I t.db) fun t => I t.db := by
  unfold Manager.syncFolder Manager.fetchFolder
  rw [bind_assoc]
  refine ends_bind (hsync.imp (fun a t ht => ?_) fun _ ht => ht)
  have hbodies : Keeps (fun t : State ρ => I t.db) (prefetchNewBodies m.digest g a.2 c : FolderProg κ ρ Unit) :=
    keeps_prefetchNewBodies (coarseOn_db hI.coarse) (fun _ _ h => h) m.digest g a.2 c
  rw [bind_assoc]
  refine ends_bind ((hbodies.ends (fun _ _ h => h) ht).imp (fun _ t ht => ?_) fun _ ht => ht)
  refine ends_bind (ends_pure (ends_bind ?_))
  have hrules : Keeps (fun u : State ρ => u.db = t.db) (applyRules m.rules g a.1 a.2) :=
    keeps_applyRules hr g a.1 a.2
  refine (hrules.ends (fun _ _ h => h) rfl).imp (fun b u hu => ?_) fun u hu => hu ▸ ht
  have hstate : Keeps (fun t : State ρ => I t.db) (withDefault (updateDB .updateSyncState .db
      (Folder.Repository.updateSyncState g.id b.1.uidValidity b.1.uidNext b.1.total b.1.unread now)) () :
        FolderProg κ ρ Unit) := by
    refine keeps_updateSyncState (fun t d hd ht => hI t.db d (fun uid seen flagged => ?_) ht) g b.1 now
    unfold Mirrored
    rw [hd]
  refine ends_bind ((hstate.ends (fun _ _ h => h) (hu ▸ ht)).imp (fun _ v hv => ?_) fun _ hv => hv)
  obtain ⟨w, hw, hdb, -⟩ := events_announceNew g b.2 now Env.calm v
  exact ends_of_ok hw (hdb ▸ hv)

theorem aboutFolder_sameIn (d₀ : DB) : AboutFolder folderID (SameIn folderID d₀) :=
  fun _ _ hsame h uid seen flagged => (hsame uid seen flagged).trans (h uid seen flagged)

/-- **The round of another folder** changes nothing in the folder. -/
theorem ends_syncFolder_other (hI : AboutFolder folderID I) (hr : ∀ r ∈ m.rules, r.Quiet) {g : Folder}
    (hne : g.id ≠ folderID) (h : I s.db) :
    Ends .calm s (m.syncFolder g c now) (fun _ t => I t.db) fun t => I t.db := by
  refine ends_syncFolder hI hr g (Keeps.ends ?_ (fun _ _ h => h) h)
  refine keeps_incrementalSync (coarseOn_db hI.coarse) (fun e _ => on_db fun d hd => ?_)
    (on_db fun d hd => ?_) _ _ _
  · exact hI d _ ((SameIn.refl d).upsert hne) hd
  · exact hI d _ ((SameIn.refl d).deleteByFolder hne) hd

/-- `g` is the row of the folder `f`, synchronised as far. -/
structure Continued (f g : Folder) : Prop where
  id : g.id = f.id
  key : g.key = f.key
  uidValidity : g.uidValidity = f.uidValidity
  uidNext : g.uidNext = f.uidNext

theorem aboutFolder_restored (prevUIDNext uid : Nat) (seen flagged : Bool) (d₀ : DB) :
    AboutFolder folderID (Restored prevUIDNext folderID uid seen flagged d₀) :=
  fun _ _ hsame h => (hsame uid seen flagged).trans h

variable {boxes : Imap.Boxes} {uidValidity : Text → Nat} {infos : List FolderInfo}
  {bodies : Text → List Nat → List FetchedEmail}

/-- **The folder's own round.** -/
theorem ends_syncFolder_own {f g : Folder} (hg : Continued f g) (hr : ∀ r ∈ m.rules, r.Quiet)
    (hsaid : uidValidity f.path ≠ 0) (hsame : f.uidValidity = 0 ∨ uidValidity f.path = f.uidValidity)
    (hbox : (boxes f.path).Numbered) (hfits : (boxes f.path).uidNext < 2 ^ 32) {r : Imap.Mail}
    (hmail : r ∈ (boxes f.path).mails) (hpos : r.uid ≠ 0) {d₀ : DB} (h : SameIn f.id d₀ s.db) :
    Ends .calm s (m.syncFolder g (Imap.serve boxes uidValidity true infos bodies) now)
      (fun _ t => Restored f.uidNext f.id r.uid r.seen r.flagged d₀ t.db)
      fun t => Restored f.uidNext f.id r.uid r.seen r.flagged d₀ t.db := by
  have hpath : g.path = f.path := congrArg Prod.snd hg.key
  have hold := hbox.old r hmail
  have hnext : (boxes f.path).uidNext ≠ 0 := by omega
  obtain ⟨e, he⟩ : ∃ e, r.fetched = some e := ⟨_, dif_pos ⟨Nat.pos_of_ne_zero hpos, by omega⟩⟩
  have hstart : ∀ d, Restored f.uidNext f.id r.uid r.seen r.flagged s.db d →
      Restored f.uidNext f.id r.uid r.seen r.flagged d₀ d := by
    intro d hd
    unfold Restored at hd ⊢
    rw [← h.maxUID_eq, ← h r.uid r.seen r.flagged]
    exact hd
  refine ends_syncFolder (aboutFolder_restored f.uidNext r.uid r.seen r.flagged d₀) hr g ?_
  rw [hg.id, hg.uidValidity, hg.uidNext, hpath]
  refine ends_incrementalSync_calm m.syncDepth FolderStmt.sync hsaid hsame hnext ?_
  refine (ends_fetchNew_repairs m.syncDepth FolderStmt.sync hfits hold
      (fun a b ha hb => ⟨e, Imap.mem_serve hmail he ha hb, Imap.uid_of_fetched he⟩)
      (fun a b hb e' he' => ?_) fun a b e' he' huid => ?_).imp (fun _ t ht => hstart t.db ht)
    fun t ht => hstart t.db ht
  · obtain ⟨r', -, hfetched, hle⟩ := Imap.exists_of_mem_serve he'
    rw [Imap.uid_of_fetched hfetched]
    exact hle hb
  · obtain ⟨r', hr', hfetched, -⟩ := Imap.exists_of_mem_serve he'
    rw [Imap.uid_of_fetched hfetched] at huid
    obtain rfl := Imap.eq_of_nodup_map hbox.uids hr' hmail huid
    exact Imap.flags_of_fetched hfetched

/-! ### A round of all folders -/

/-- One folder's round after the other, whether it fails or not. -/
theorem ends_syncEach_cons {g : Folder} {rest : List Folder} {P Q : State ρ → Prop}
    (hround : Ends .calm s (m.syncFolder g c now) (fun _ => P) P)
    (hrest : ∀ t, P t → Ends .calm t (m.syncEach c now rest) (fun _ => Q) fun _ => True) :
    Ends .calm s (m.syncEach c now (g :: rest)) (fun _ => Q) fun _ => True := by
  have hcalm : Ends .calm s (relabel (FullStmt.folder g.id) (m.syncFolder g c now)) (fun _ => P) P := hround
  refine ends_bind (ends_attempt (hcalm.imp (fun a t ht => ?_) fun t ht => ⟨fun e => ?_, trivial⟩))
  · exact ends_bind ((hrest t ht).imp (fun _ _ hu => ends_pure hu) fun _ hu => hu)
  · exact ends_bind ((hrest t ht).imp (fun _ _ hu => ends_pure hu) fun _ hu => hu)

theorem ends_syncEach_others (hI : AboutFolder folderID I) (hr : ∀ r ∈ m.rules, r.Quiet) {fs : List Folder} :
    ∀ {s : State ρ}, (∀ g ∈ fs, g.id ≠ folderID) → I s.db →
      Ends .calm s (m.syncEach c now fs) (fun _ t => I t.db) fun _ => True := by
  induction fs with
  | nil => exact fun _ h => ends_pure h
  | cons g rest ih =>
      intro s hne h
      exact ends_syncEach_cons (ends_syncFolder_other hI hr (hne g List.mem_cons_self) h) fun t ht =>
        ih (fun g' hg' => hne g' (List.mem_cons_of_mem g hg')) ht

/-- **Among the folders' rounds the folder's own counts.** -/
theorem ends_syncEach (hI : AboutFolder folderID I) {I₀ : DB → Prop} (hI₀ : AboutFolder folderID I₀)
    (hr : ∀ r ∈ m.rules, r.Quiet) {g : Folder} (hid : g.id = folderID)
    (hown : ∀ t : State ρ, I₀ t.db → Ends .calm t (m.syncFolder g c now) (fun _ u => I u.db) fun u => I u.db)
    {fs : List Folder} : ∀ {s : State ρ}, g ∈ fs → (fs.map Folder.id).Nodup → I₀ s.db →
      Ends .calm s (m.syncEach c now fs) (fun _ t => I t.db) fun _ => True := by
  induction fs with
  | nil => exact fun hg => absurd hg List.not_mem_nil
  | cons g' rest ih =>
      intro s hg hnodup h
      rw [List.map_cons, List.nodup_cons] at hnodup
      rcases List.mem_cons.mp hg with rfl | hg
      · refine ends_syncEach_cons (hown s h) fun t ht => ends_syncEach_others hI hr (fun g' hg' heq => ?_) ht
        exact hnodup.1 (List.mem_map.mpr ⟨g', hg', heq.trans hid.symm⟩)
      · have hne : g'.id ≠ folderID := fun heq =>
          hnodup.1 (List.mem_map.mpr ⟨g, hg, hid.trans heq.symm⟩)
        exact ends_syncEach_cons (ends_syncFolder_other hI₀ hr hne h) fun t ht => ih hg hnodup.2 ht

/-! #### The folders that are listed -/

/-- The folder's rows are as they were, and its own row is there; it can be selected if nothing that is
still to be stored says so. -/
structure Relisting (f : Folder) (d₀ : DB) (rest : List FolderInfo) (d : DB) : Prop where
  same : SameIn f.id d₀ d
  row : ∃ g ∈ d.folders.rows, Continued f g ∧ ((∃ info ∈ rest, info.path = f.path) ∨ g.selectable = true)

theorem relisting_upsert {f : Folder} {d₀ d : DB} {info : FolderInfo} {rest : List FolderInfo}
    (classifyFolder : Text → Text → List Text → FolderType)
    (hselect : info.path = f.path → Folder.noselect info.attributes = false)
    (h : Relisting f d₀ (info :: rest) d) :
    Relisting f d₀ rest
      (Folder.Repository.upsertByPath (Folder.ofInfo classifyFolder f.accountID info) d) := by
  obtain ⟨g, hg, hcont, hsel⟩ := h.row
  refine ⟨h.same, ?_⟩
  by_cases hpath : info.path = f.path
  · refine ⟨relisted (Folder.ofInfo classifyFolder f.accountID info) g,
      mem_upsertByPath.mpr (.inr (.inl ⟨g, hg, ?_, rfl⟩)), ?_, .inr ?_⟩
    · rw [hcont.key]
      exact Prod.ext rfl hpath.symm
    · exact ⟨hcont.id, hcont.key, hcont.uidValidity, hcont.uidNext⟩
    · show (!Folder.noselect info.attributes) = true
      rw [hselect hpath]
      rfl
  · refine ⟨g, mem_upsertByPath.mpr (.inl ⟨hg, fun hkey => hpath ?_⟩), hcont, hsel.imp_left ?_⟩
    · exact (congrArg Prod.snd hkey).symm.trans (congrArg Prod.snd hcont.key)
    · rintro ⟨info', hinfo', hpath'⟩
      rcases List.mem_cons.mp hinfo' with rfl | hinfo'
      · exact absurd hpath' hpath
      · exact ⟨info', hinfo', hpath'⟩

theorem relisting_prune {f : Folder} {d₀ d : DB} {keep : List Text} (hkeep : f.path ∈ keep)
    (h : Relisting f d₀ [] d) :
    Relisting f d₀ [] (Folder.Repository.pruneMissing f.accountID keep d) := by
  obtain ⟨g, hg, hcont, hsel⟩ := h.row
  have hstays : ((d.folders.rows.filter fun f' =>
      f'.accountID == f.accountID && !keep.contains f'.path).map Folder.id).contains f.id = false := by
    refine Bool.eq_false_iff.mpr fun hgone => ?_
    obtain ⟨g', hg', hid⟩ := List.mem_map.mp (List.contains_iff_mem.mp hgone)
    obtain ⟨hmem, hmissing⟩ := List.mem_filter.mp hg'
    obtain rfl := d.folders.eq_of_pk hmem hg (hid.trans hcont.id.symm)
    rw [show g'.path = f.path from congrArg Prod.snd hcont.key, List.contains_iff_mem.mpr hkeep] at hmissing
    simp at hmissing
  refine ⟨fun uid seen flagged => ?_, g, Table.mem_delete.mpr ⟨hg, ?_⟩, hcont, hsel⟩
  · refine Iff.trans ⟨fun ⟨m, hm, hrow⟩ => ⟨m, (Table.mem_delete.mp hm).1, hrow⟩, fun ⟨m, hm, hrow⟩ =>
      ⟨m, Table.mem_delete.mpr ⟨hm, ?_⟩, hrow⟩⟩ (h.same uid seen flagged)
    rw [hrow.1]
    exact hstays
  · rw [hcont.id]
    exact hstays

theorem ends_syncFolders {ι : Type} {f : Folder} {c : Session} (hf : f ∈ s.db.folders.rows)
    (classifyFolder : Text → Text → List Text → FolderType) (at_ : Folder.ListStmt → ι)
    (hlisted : ∃ info ∈ c.listFolders, info.path = f.path)
    (hselect : ∀ info ∈ c.listFolders, info.path = f.path → Folder.noselect info.attributes = false) :
    Ends .calm s (Folder.syncFolders classifyFolder at_ f.accountID c : Proc ι Message.Err (State ρ) Unit)
      (fun _ t => Relisting f s.db [] t.db) fun _ => True := by
  unfold Folder.syncFolders
  refine ends_bind (ends_of_ok rfl ?_)
  rw [if_neg (fun hnil => by rw [hnil] at hlisted; exact absurd hlisted.choose_spec.1 List.not_mem_nil)]
  let I : List FolderInfo → State ρ → Prop := fun rest t =>
    (∀ info ∈ rest, info.path = f.path → Folder.noselect info.attributes = false) ∧ Relisting f s.db rest t.db
  have hstart : I c.listFolders s := ⟨hselect, .refl _, f, hf, ⟨rfl, rfl, rfl, rfl⟩, .inl hlisted⟩
  have hloop : Ends .calm s (each (fun info => updateDB (at_ (.upsert info.path)) .db
      (Folder.Repository.upsertByPath (Folder.ofInfo classifyFolder f.accountID info))) c.listFolders :
        Proc ι Message.Err (State ρ) Unit) (fun _ t => I [] t) fun _ => True := by
    refine ends_each _ (fun info rest t ht => ends_update ⟨fun info' hinfo' => ?_, ?_⟩ trivial) hstart
    · exact ht.1 info' (List.mem_cons_of_mem info hinfo')
    · exact relisting_upsert classifyFolder (ht.1 info List.mem_cons_self) ht.2
  refine ends_bind (hloop.imp (fun _ t ht => ends_update ?_ trivial) fun _ _ => trivial)
  obtain ⟨info, hinfo, hpath⟩ := hlisted
  exact relisting_prune (List.mem_map.mpr ⟨info, hinfo, hpath⟩) ht.2

/-- **After a full round** the mail has a row with its flags if it had one, or if it is not below the
anchor. -/
theorem restored_of_fullSync {f : Folder} (hf : f ∈ s.db.folders.rows) (hr : ∀ r ∈ m.rules, r.Quiet)
    (hlisted : ∃ info ∈ infos, info.path = f.path)
    (hselect : ∀ info ∈ infos, info.path = f.path → Folder.noselect info.attributes = false)
    (hsaid : uidValidity f.path ≠ 0) (hsame : f.uidValidity = 0 ∨ uidValidity f.path = f.uidValidity)
    (hbox : (boxes f.path).Numbered) (hfits : (boxes f.path).uidNext < 2 ^ 32) {r : Imap.Mail}
    (hmail : r ∈ (boxes f.path).mails) (hpos : r.uid ≠ 0) {t : State ρ}
    (hdone : m.fullSyncMessages f.accountID (Imap.serve boxes uidValidity true infos bodies) now .calm s
      = (.ok (), t)) :
    Restored f.uidNext f.id r.uid r.seen r.flagged s.db t.db := by
  have hends : Ends .calm s
      (m.fullSyncMessages f.accountID (Imap.serve boxes uidValidity true infos bodies) now)
      (fun _ t => Restored f.uidNext f.id r.uid r.seen r.flagged s.db t.db) fun _ => True := by
    unfold Manager.fullSyncMessages
    refine ends_bind ((ends_syncFolders hf m.classifyFolder FullStmt.folders hlisted hselect).imp
      (fun _ u hu => ?_) fun _ _ => trivial)
    refine ends_bind (ends_of_ok (queryDB_calm _ _ _ u) ?_)
    obtain ⟨g, hg, hcont, hsel⟩ := hu.row
    have hin : g ∈ (Folder.Repository.listByAccount u.db f.accountID).filter Folder.selectable := by
      refine List.mem_filter.mpr ⟨(List.mem_insertionSort _).mpr (List.mem_filter.mpr ⟨hg, ?_⟩), ?_⟩
      · have haccount : g.accountID = f.accountID := congrArg Prod.fst hcont.key
        simpa using haccount
      · exact hsel.resolve_left fun ⟨_, hinfo, _⟩ => absurd hinfo List.not_mem_nil
    have hnodup : (((Folder.Repository.listByAccount u.db f.accountID).filter Folder.selectable).map
        Folder.id).Nodup := by
      refine List.Nodup.sublist (List.filter_sublist.map _) ?_
      exact ((List.perm_insertionSort _ _).map _).nodup_iff.mpr (u.db.folders.nodup_pk List.filter_sublist)
    refine ends_bind ((ends_syncEach (aboutFolder_restored f.uidNext r.uid r.seen r.flagged s.db)
      (aboutFolder_sameIn s.db) hr hcont.id (fun t ht => ends_syncFolder_own hcont hr hsaid hsame hbox hfits
        hmail hpos ht) hin hnodup hu.same).imp (fun a v hv => ?_) fun _ _ => trivial)
    dsimp only
    split
    · split
      · exact ends_throw trivial
      · exact ends_pure hv
    · exact ends_pure hv
  exact hends.ok hdone

/-! ### A change that was given up -/

/-- The folder has rows for the mails the queued row names, with the flags they have on the server. -/
def Agrees (d : DB) (folderID : Nat) (box : Imap.Mailbox) (o : WritebackOp) : Prop :=
  ∀ r ∈ box.mails, r.uid ∈ opUIDs o → Mirrored d folderID r.uid r.seen r.flagged

theorem ne_zero_of_mem_opUIDs {o : WritebackOp} {uid : Nat} (h : uid ∈ opUIDs o) : uid ≠ 0 := by
  unfold opUIDs at h
  split at h
  · split at h
    · exact absurd h List.not_mem_nil
    · rename_i hne
      rw [List.mem_singleton.mp h]
      exact hne
  · obtain ⟨piece, -, hpiece⟩ := List.mem_filterMap.mp h
    split at hpiece
    · split at hpiece
      · cases hpiece
      · rename_i hne
        rw [← Option.some.inj hpiece]
        exact hne
    · cases hpiece

/-- **What a full round makes good after a change was given up**: the folder agrees with the server about
the mails of the queued row if and only if each of them is not below the anchor, or has a row with the
server's flags already. -/
theorem agrees_iff {f : Folder} (hf : f ∈ s.db.folders.rows) (hr : ∀ r ∈ m.rules, r.Quiet)
    (hlisted : ∃ info ∈ infos, info.path = f.path)
    (hselect : ∀ info ∈ infos, info.path = f.path → Folder.noselect info.attributes = false)
    (hsaid : uidValidity f.path ≠ 0) (hsame : f.uidValidity = 0 ∨ uidValidity f.path = f.uidValidity)
    (hbox : (boxes f.path).Numbered) (hfits : (boxes f.path).uidNext < 2 ^ 32) {t : State ρ}
    (hdone : m.fullSyncMessages f.accountID (Imap.serve boxes uidValidity true infos bodies) now .calm s
      = (.ok (), t)) (o : WritebackOp) :
    Agrees t.db f.id (boxes f.path) o ↔ ∀ r ∈ (boxes f.path).mails, r.uid ∈ opUIDs o →
      anchorOf f.uidNext (Repository.maxUID s.db f.id) ≤ r.uid ∨
        Mirrored s.db f.id r.uid r.seen r.flagged := by
  refine forall_congr' fun r => forall_congr' fun hmail => forall_congr' fun huid => ?_
  exact restored_of_fullSync hf hr hlisted hselect hsaid hsame hbox hfits hmail (ne_zero_of_mem_opUIDs huid) hdone

end Round

/-! #### A mail that was read, and one that was deleted -/

private def inboxName : Text := "INBOX".toList

private def untouched (uid : Nat) : Imap.Mail :=
  ⟨uid, uid, false, false, false, false, ⟨[], [], [], [], [], [], [], 0, 0⟩⟩

/-- The inbox with one unread mail, which is its last. -/
private def inboxWith (uid : Nat) : Imap.Boxes := fun _ => ⟨[untouched uid], uid + 1⟩

private theorem inboxWith_numbered (uid : Nat) (path : Text) : (inboxWith uid path).Numbered :=
  ⟨fun r hr => by rw [List.mem_singleton.mp hr]; exact Nat.lt_add_one uid, List.nodup_singleton _⟩

/-- The row of the inbox after a round that found no mail from UID 2 on. -/
private def syncedInbox : Folder := { Folder.bare 1 1 inboxName .inbox with uidNext := 2 }

private def holding (m : FlyMail.Message) : DB := ⟨.single m, .single syncedInbox, .empty⟩

private def onlyInbox : List FolderInfo := [⟨inboxName, inboxName, ['/'], []⟩]

private def unruled : Manager Empty Unit := ⟨id, 1000, fun _ _ _ => .inbox, none⟩

private def stateOf (db : DB) : State Unit := ⟨db, ⟨[], []⟩, [], [], [], ()⟩

/-- A mail came in after the last round and was found by a search; it was read, and that was given up. -/
private def readGivenUp : State Unit :=
  stateOf (holding { FlyMail.Message.bare 1 1 1 (.numbered 2) with seen := true })

private def readOp : WritebackOp := ⟨1, 1, inboxName, 2, [], .read, [], 7, 0, []⟩

private def serverWith (uid : Nat) : FullSession :=
  Imap.serve (inboxWith uid) (fun _ => 1) true onlyInbox fun _ _ => []

/-- The next round makes the mail unread again. -/
theorem agrees_iff_read : ∃ t, unruled.fullSyncMessages 1 (serverWith 2) 0 .calm readGivenUp = (.ok (), t) ∧
    Agrees t.db 1 (inboxWith 2 inboxName) readOp := by
  have hok : (unruled.fullSyncMessages 1 (serverWith 2) 0 .calm readGivenUp).1 = .ok () := by rfl
  have hlisted : ∃ info ∈ onlyInbox, info.path = syncedInbox.path := ⟨_, List.mem_singleton.mpr rfl, rfl⟩
  have hiff := agrees_iff (m := unruled) (s := readGivenUp) (f := syncedInbox) (List.mem_singleton.mpr rfl)
    (fun r hr => nomatch hr) hlisted (by decide) (by decide) (.inr rfl) (inboxWith_numbered 2 inboxName) (by decide)
    (Prod.ext hok rfl) readOp
  refine ⟨_, Prod.ext hok rfl, hiff.mpr fun r hr _ => .inl ?_⟩
  rw [List.mem_singleton.mp hr]
  decide

/-- The runner gives the row up. -/
def GivesUp (S S' : System) (o : WritebackOp) : Prop :=
  ∃ x rest, (S.runners o.accountID).work = o :: rest ∧ noGiveUp S (.attempt o.accountID x) = false ∧
    S.step (.attempt o.accountID x) = some S'

private def beforeDeletion : System where
  db := holding (FlyMail.Message.bare 1 1 1 (.numbered 1))
  boxes := fun _ => inboxWith 1
  canMove := fun _ => true
  runners := fun _ => ⟨[], []⟩
  now := 0
  moved := []

private def lost : Imap.Exchange := .broke 0 fun _ => false

/-- The mail is deleted, and the connection is lost seven times. -/
private def deletedAndTried : List Label :=
  [.user ⟨fun _ _ => 0, fun _ _ => 0⟩ (.batchDelete [1]), .next 1, .attempt 1 lost] ++
    (List.replicate 6 [.tick 1800, .poll 1, .attempt 1 lost]).flatten ++ [.tick 1800, .poll 1]

/-- The round that follows. -/
private def nextRound (S' : System) : Outcome Message.Err Unit × State Unit :=
  unruled.fullSyncMessages 1 (Imap.serve (S'.boxes 1) (fun _ => 1) true onlyInbox fun _ _ => []) 0 .calm
    (stateOf S'.db)

private def returned : Outcome Message.Err Unit → Bool
  | .ok _ => true
  | _ => false

private theorem eq_ok_of_returned {out : Outcome Message.Err Unit} (h : returned out = true) : out = .ok () := by
  cases out with
  | ok _ => rfl
  | err _ => cases h
  | dead => cases h

/-- **A deletion that was given up leaves the mail away**, though a full round follows. -/
theorem deleted_mail_stays_away : ¬ ∀ (S₀ S S' : System) (o : WritebackOp) (f : Folder) (s t : State Unit)
    (infos : List FolderInfo) (uidValidity : Text → Nat) (now : Time),
      Run System.step (fun _ _ => True) S₀ S → GivesUp S S' o → s.db = S'.db → f ∈ s.db.folders.rows →
        f.accountID = o.accountID → f.path = o.folderPath → uidValidity f.path = f.uidValidity →
          unruled.fullSyncMessages o.accountID
            (Imap.serve (S'.boxes o.accountID) uidValidity true infos fun _ _ => []) now .calm s = (.ok (), t) →
              Agrees t.db f.id (S'.boxes o.accountID f.path) o := by
  intro h
  have hbefore : (exec System.step (fun _ _ => true) beforeDeletion deletedAndTried).map (fun S =>
      (S.runners 1).work.map fun o => (o.accountID, o.folderPath, opUIDs o, noGiveUp S (.attempt 1 lost)))
      = some [(1, inboxName, [1], false)] := by decide +kernel
  have hafter : ((exec System.step (fun _ _ => true) beforeDeletion deletedAndTried).bind fun S =>
      S.step (.attempt 1 lost)).map (fun S' => (S'.db.folders.rows, (S'.boxes 1 inboxName).mails.map Imap.Mail.uid,
        returned (nextRound S').1, (nextRound S').2.db.messages.rows.length))
      = some ([syncedInbox], [1], true, 0) := by decide +kernel
  obtain ⟨S, hS, hwork⟩ := Option.map_eq_some_iff.mp hbefore
  obtain ⟨o, howork, ho⟩ := List.map_eq_singleton_iff.mp hwork
  simp only [Prod.mk.injEq] at ho
  obtain ⟨haccount, hpath, huids, hgive⟩ := ho
  rw [hS, Option.bind_some] at hafter
  obtain ⟨S', hstep, heq⟩ := Option.map_eq_some_iff.mp hafter
  simp only [Prod.mk.injEq] at heq
  obtain ⟨hfolders, hmails, hok, hrows⟩ := heq
  have hgives : GivesUp S S' o := by
    refine ⟨lost, [], ?_⟩
    rw [haccount]
    exact ⟨howork, hgive, hstep⟩
  have hround : nextRound S' = (.ok (), (nextRound S').2) := Prod.ext (eq_ok_of_returned hok) rfl
  have hin : syncedInbox ∈ S'.db.folders.rows := hfolders ▸ List.mem_singleton.mpr rfl
  obtain ⟨r, hr, huid⟩ := List.map_eq_singleton_iff.mp hmails
  have hmail : r ∈ (S'.boxes 1 inboxName).mails := hr ▸ List.mem_singleton.mpr rfl
  have hall := h beforeDeletion S S' o syncedInbox (stateOf S'.db) (nextRound S').2 onlyInbox (fun _ => 1) 0
    ((Run.ofExec _ hS).mono fun _ _ _ => trivial) hgives rfl hin haccount.symm hpath.symm rfl
  rw [haccount] at hall
  obtain ⟨m', hm', -⟩ := hall hround r hmail (by rw [huids, huid]; exact List.mem_singleton.mpr rfl)
  rw [List.length_eq_zero_iff.mp hrows] at hm'
  exact absurd hm' List.not_mem_nil

end Sync

end FlyMail
