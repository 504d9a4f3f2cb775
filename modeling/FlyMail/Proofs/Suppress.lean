/-
What a round of a label folder announces.

A round of the inbox whose rules changed anything counts again what is new and unread.  A
round of a label folder does not: it takes what some rule acted on before, elsewhere, out of
the few mails whose details it has and off the total, and looks no further than one page of
new mails for it.

`suppress_iff` says when the two come to the same.  It is about what a round hands to the
rules, which `ends_fetchFolder` gives: the number of new unread mails, and the first few.
-/
import FlyMail.Proofs.Fetch
import FlyMail.Sync.Manager

namespace FlyMail

/-! ### The first few of a filtered list -/

section Lists

variable {α : Type}

/-- Filtering before or after taking the first `k` is the same only where the filter passes
all of the first or none of the others. -/
theorem length_filter_take_iff (l : List α) (p : α → Bool) (k : Nat) :
    ((l.take k).filter p).length = ((l.filter p).take k).length ↔
      (∀ a ∈ l.take k, p a = true) ∨ ∀ a ∈ l.drop k, p a = false := by
  have hsplit : l.filter p = (l.take k).filter p ++ (l.drop k).filter p := by
    rw [← List.filter_append, List.take_append_drop]
  have hle : ((l.take k).filter p).length ≤ (l.take k).length := List.length_filter_le _ _
  have htake : (l.take k).length = min k l.length := List.length_take
  have hdrop : (l.drop k).length = l.length - k := List.length_drop
  have hrest : ((l.drop k).filter p).length ≤ (l.drop k).length := List.length_filter_le _ _
  have hfirst : ((l.take k).filter p).length = (l.take k).length ↔ ∀ a ∈ l.take k, p a = true :=
    List.length_filter_eq_length_iff
  have hnone : ((l.drop k).filter p).length = 0 ↔ ∀ a ∈ l.drop k, p a = false := by
    simp
  rw [← hfirst, ← hnone, List.length_take, hsplit, List.length_append]
  omega

/-- The first few that pass, among the first few. -/
theorem filter_take_start (l : List α) (p : α → Bool) (k : Nat) :
    (l.take k).filter p <+: (l.filter p).take k := by
  have hsplit : l.filter p = (l.take k).filter p ++ (l.drop k).filter p := by
    rw [← List.filter_append, List.take_append_drop]
  have hle : ((l.take k).filter p).length ≤ k :=
    Nat.le_trans (List.length_filter_le _ _) (List.length_take_le k l)
  rw [hsplit, List.take_append, List.take_of_length_le hle]
  exact List.prefix_append _ _

theorem map_filter_take_iff {β : Type} (f : α → β) (l : List α) (p : α → Bool) (k : Nat) :
    ((l.take k).filter p).map f = ((l.filter p).take k).map f ↔
      (∀ a ∈ l.take k, p a = true) ∨ ∀ a ∈ l.drop k, p a = false := by
  rw [← length_filter_take_iff]
  constructor
  · intro h
    simpa using congrArg List.length h
  · intro h
    rw [(filter_take_start l p k).eq_of_length h]

end Lists

namespace Sync

open Proc FlyMail.Message

variable {κ ρ : Type}

/-! ### What is new -/

/-- The rows behind a key. -/
def newRows (db : DB) (folderID afterID : Nat) : List FlyMail.Message :=
  db.messages.rows.filter fun m => m.folderID == folderID && decide (afterID < m.id)

def newUnread (db : DB) (folderID afterID : Nat) : List FlyMail.Message :=
  (newRows db folderID afterID).filter fun m => !m.seen

theorem newUnread_eq (db : DB) (folderID afterID : Nat) :
    newUnread db folderID afterID = db.messages.rows.filter fun m =>
      m.folderID == folderID && decide (afterID < m.id) && !m.seen := by
  unfold newUnread newRows
  rw [List.filter_filter]
  refine List.filter_congr fun m _ => ?_
  exact Bool.and_comm _ _

/-- The keys of new unread mails are the same where the mails are. -/
theorem newUnread_same {d d' : DB} (h : SameMails d d') (folderID afterID : Nat) :
    (newUnread d' folderID afterID).map FlyMail.Message.id
      = (newUnread d folderID afterID).map FlyMail.Message.id := by
  have hcore : ∀ d : DB, (newUnread d folderID afterID).map FlyMail.Message.id
      = ((d.messages.rows.map FlyMail.Message.core).filter fun m =>
        m.folderID == folderID && decide (afterID < m.id) && !m.seen).map FlyMail.Message.id := by
    intro d
    rw [newUnread_eq, List.filter_map, List.map_map]
    rfl
  rw [hcore, hcore, h.rows]

/-- What a round says is new, as far as it has counted. -/
def Tells (db : DB) (folderID : Nat) (nm : NewMail) : Prop :=
  nm.baseline = false → nm.count ≠ 0 →
    nm.unseenTotal = (newUnread db folderID nm.afterID).length ∧
      nm.unseen.map FlyMail.Message.id
        = ((newUnread db folderID nm.afterID).map FlyMail.Message.id).take newMailUnseenCap

theorem coarse_tells (folderID : Nat) (nm : NewMail) : Coarse fun d => Tells d folderID nm := by
  intro d d' hsame htells hbase hcount
  have hids := newUnread_same hsame folderID nm.afterID
  have hlength := congrArg List.length hids
  rw [List.length_map, List.length_map] at hlength
  rw [hids, hlength]
  exact htells hbase hcount

end Sync

namespace Message

open Proc Sync

variable {ι σ : Type} [HasDB σ] {at_ : SyncStmt → ι}

theorem newMail_tells (folderID prevUIDNext before afterID total : Nat) (s : σ) :
    ∃ nm, (newMail at_ folderID prevUIDNext before afterID total : Proc ι Err σ NewMail) .calm s
      = (.ok nm, s) ∧ Tells (db s) folderID nm := by
  unfold newMail
  dsimp only
  split
  · rename_i hnothing
    exact ⟨_, rfl, fun hbase hcount => absurd hnothing (by simp_all)⟩
  · have hlength : Repository.countUnseenAfterID (db s) folderID afterID
        = (newUnread (db s) folderID afterID).length := by
      rw [newUnread_eq, ← List.countP_eq_length_filter]
      rfl
    rw [bind_ok (withDefault_ok (queryDB_calm _ _ _ s))]
    split
    · rename_i hzero
      refine ⟨_, rfl, fun _ _ => ?_⟩
      have hempty := List.length_eq_zero_iff.mp (hlength ▸ hzero)
      exact ⟨by rw [hempty]; rfl, by rw [hempty]; rfl⟩
    · rw [bind_ok (withDefault_ok (queryDB_calm _ _ _ s))]
      refine ⟨_, rfl, fun _ _ => ⟨hlength, ?_⟩⟩
      rw [← List.map_take, newUnread_eq]
      rfl

theorem ends_incrementalSync (digest : Text → Text) (syncDepth : Nat) (c : Session)
    (accountID folderID : Nat) (path : Text) (prevUIDValidity prevUIDNext : Nat) (s : σ) :
    Ends .calm s
      (incrementalSync digest syncDepth at_ c accountID folderID path prevUIDValidity prevUIDNext)
      (fun a t => Tells (db t) folderID a.2) fun _ => True := by
  unfold incrementalSync
  refine ends_bind (ends_any (fun sel _ => ?_) fun _ => trivial)
  refine ends_bind (ends_any (fun uidValidity _ => ?_) fun _ => trivial)
  split
  · refine ends_bind (ends_any (fun _ _ => ?_) fun _ => trivial)
    refine ends_bind (ends_any (fun _ _ => ?_) fun _ => trivial)
    exact ends_pure fun hbase => nomatch hbase
  · refine ends_bind (ends_any (fun before _ => ?_) fun _ => trivial)
    refine ends_bind (ends_any (fun afterID _ => ?_) fun _ => trivial)
    refine ends_bind (ends_any (fun uidNext _ => ?_) fun _ => trivial)
    refine ends_bind (ends_any (fun _ _ => ?_) fun _ => trivial)
    refine ends_bind (ends_any (fun total _ => ?_) fun _ => trivial)
    refine ends_bind (ends_any (fun unread t => ?_) fun _ => trivial)
    obtain ⟨nm, hnm, htells⟩ := @newMail_tells _ _ _ at_ folderID prevUIDNext before afterID
      total t
    refine ends_bind (ends_of_ok hnm ?_)
    have hkeeps : Keeps (fun s : σ => Tells (db s) folderID nm)
        (folderState at_ folderID uidValidity uidNext total unread) :=
      keeps_folderState folderID uidValidity uidNext total unread
    exact ends_bind ((hkeeps.ends (fun _ _ h => h) htells).imp (fun _ _ h => h) fun _ _ => trivial)

end Message

namespace Sync

open Proc FlyMail.Message

variable {κ ρ : Type}

/-! ### The first part of a round -/

section Fetch

variable {J : State ρ → Prop}

theorem keeps_storeBody (hJ : CoarseOn J) (hblind : BodyBlind J) (digest : Text → Text)
    (msgs : List FlyMail.Message) (e : FetchedEmail) :
    Keeps J (storeBody digest msgs e : FolderProg κ ρ Unit) := by
  unfold storeBody
  split
  · exact keeps_pure ()
  · exact keeps_withDefault (keeps_storeParsedBody digest _ hJ hblind _ e) ()

theorem keeps_fetchBatches (hJ : CoarseOn J) (hblind : BodyBlind J) (digest : Text → Text)
    (c : FullSession) (path : Text) (msgs : List FlyMail.Message) (chunks : List (List Nat)) :
    ∀ n, Keeps J (fetchBatches digest c path msgs n chunks : FolderProg κ ρ Unit) := by
  induction chunks with
  | nil => exact fun n => keeps_pure ()
  | cons uids rest ih =>
      intro n
      refine keeps_ask_bind (keeps_bind ?_ fun _ => ih (n + 1))
      exact keeps_each _ fun e _ => keeps_storeBody hJ hblind digest msgs e

theorem keeps_prefetchNewBodies (hJ : CoarseOn J) (hblind : BodyBlind J) (digest : Text → Text)
    (f : Folder) (nm : NewMail) (c : FullSession) :
    Keeps J (prefetchNewBodies digest f nm c : FolderProg κ ρ Unit) := by
  unfold prefetchNewBodies fetchBodies
  split
  · exact keeps_pure ()
  · refine keeps_bind (keeps_withDefault (keeps_query _ _ _) []) fun msgs => ?_
    split
    · exact keeps_pure ()
    · refine keeps_withDefault (keeps_bind (keeps_query _ _ _) fun _ => ?_) ()
      exact keeps_fetchBatches hJ hblind digest c f.path msgs _ 0

/-- **What a round is about to hand to the rules** tells what is new and unread. -/
theorem ends_fetchFolder (m : Manager κ ρ) (f : Folder) (c : FullSession) (s : State ρ) :
    Ends .calm s (m.fetchFolder f c) (fun a t => Tells t.db f.id a.2) fun _ => True := by
  refine ends_bind ((ends_incrementalSync m.digest m.syncDepth c.toSession f.accountID f.id f.path
    f.uidValidity f.uidNext s).imp (fun a t htells => ?_) fun _ _ => trivial)
  have hkeeps : Keeps (fun s : State ρ => Tells s.db f.id a.2)
      (prefetchNewBodies m.digest f a.2 c : FolderProg κ ρ Unit) :=
    keeps_prefetchNewBodies (coarseOn_db (coarse_tells f.id a.2)) (fun _ _ h => h) m.digest f a.2 c
  refine ends_bind ((hkeeps.ends (fun _ _ h => h) htells).imp (fun _ t htells => ?_)
    fun _ _ => trivial)
  exact ends_pure htells

end Fetch

/-! ### What is taken out -/

/-- The rules know the mails of `handled`, and answering changes nothing. -/
def RuleRunner.Reports (r : RuleRunner κ ρ) (accountID : Nat) (handled : Nat → Bool) : Prop :=
  ∀ rows s, r.handled accountID rows .calm s
    = (.ok ((rows.filter fun m => handled m.id).map FlyMail.Message.id), s)

/-- The mails of a page some rule acted on before, taken out. -/
def suppressed (handled : Nat → Bool) (rows : List FlyMail.Message) (nm : NewMail) : NewMail :=
  { nm with
    unseen := nm.unseen.filter fun u => !rows.any fun m => handled m.id && m.id == u.id
    unseenTotal := nm.unseenTotal - rows.countP fun m => handled m.id && !m.seen }

theorem suppressed_eq_self {handled : Nat → Bool} {rows : List FlyMail.Message} {nm : NewMail}
    (h : ∀ m ∈ rows, handled m.id = false) : suppressed handled rows nm = nm := by
  have hany : ∀ u : FlyMail.Message, (rows.any fun m => handled m.id && m.id == u.id) = false := by
    intro u
    refine List.any_eq_false.mpr fun m hm => ?_
    simp [h m hm]
  have hcount : (rows.countP fun m => handled m.id && !m.seen) = 0 := by
    refine List.countP_eq_zero.mpr fun m hm => ?_
    simp [h m hm]
  unfold suppressed
  simp only [hany, hcount, Bool.not_false, List.filter_true, Nat.sub_zero]

theorem contains_reported (handled : Nat → Bool) (rows : List FlyMail.Message) (messageID : Nat) :
    ((rows.filter fun m => handled m.id).map FlyMail.Message.id).contains messageID
      = rows.any fun m => handled m.id && m.id == messageID := by
  rw [Bool.eq_iff_iff, List.contains_iff_mem, List.any_eq_true]
  simp [and_assoc]

theorem any_reported (handled : Nat → Bool) {rows : List FlyMail.Message} {m : FlyMail.Message}
    (hm : m ∈ rows) : (rows.any fun m' => handled m'.id && m'.id == m.id) = handled m.id := by
  rw [Bool.eq_iff_iff, List.any_eq_true]
  constructor
  · rintro ⟨m', -, h⟩
    rw [Bool.and_eq_true, beq_iff_eq] at h
    exact h.2 ▸ h.1
  · intro h
    exact ⟨m, hm, by simp [h]⟩

theorem suppressHandled_calm {r : RuleRunner κ ρ} {f : Folder} {handled : Nat → Bool}
    (hr : r.Reports f.accountID handled) {nm : NewMail} {s : State ρ}
    (hnone : nm.unseenTotal = 0 → nm.unseen = []) :
    suppressHandled r f nm .calm s
      = (.ok (suppressed handled ((newRows s.db f.id nm.afterID).take ruleBatchCap) nm), s) := by
  have hlist : Repository.listAfterID s.db f.id nm.afterID ruleBatchCap
      = (newRows s.db f.id nm.afterID).take ruleBatchCap := rfl
  unfold suppressHandled
  split
  · rename_i hzero
    have hsame : suppressed handled ((newRows s.db f.id nm.afterID).take ruleBatchCap) nm = nm := by
      have hunseen := hnone hzero
      cases nm
      simp_all [suppressed]
    rw [hsame]
    rfl
  · rw [bind_ok (withDefault_ok (queryDB_calm _ _ _ s)), State.db_eq, hlist]
    generalize (newRows s.db f.id nm.afterID).take ruleBatchCap = rows
    split
    · rename_i hempty
      rw [suppressed_eq_self (by simp [hempty])]
      rfl
    · have hanswer : relabel FolderStmt.handled (withDefault (r.handled f.accountID rows) []) .calm s
          = (.ok ((rows.filter fun m => handled m.id).map FlyMail.Message.id), s) :=
        withDefault_ok (hr rows s)
      rw [bind_ok hanswer]
      split
      · rename_i hempty
        rw [suppressed_eq_self (by simpa using hempty)]
        rfl
      · have hcount : (rows.countP fun m =>
            ((rows.filter fun m => handled m.id).map FlyMail.Message.id).contains m.id && !m.seen)
              = rows.countP fun m => handled m.id && !m.seen := by
          refine List.countP_congr fun m hm => ?_
          rw [contains_reported, any_reported handled hm]
        rw [hcount]
        simp only [contains_reported]
        rfl

/-! ### The same as counting again -/

/-- What a count from scratch says once the mails some rule acted on are left out. -/
structure CountedAfresh (db : DB) (folderID : Nat) (handled : Nat → Bool) (nm : NewMail) : Prop where
  unseenTotal : nm.unseenTotal
    = ((newUnread db folderID nm.afterID).filter fun m => !handled m.id).length
  unseen : nm.unseen.map FlyMail.Message.id
    = (((newUnread db folderID nm.afterID).filter fun m => !handled m.id).take
        newMailUnseenCap).map FlyMail.Message.id

/-- The mails some rule acted on before, and where they stand among the new ones. -/
structure Placed (db : DB) (folderID afterID : Nat) (handled : Nat → Bool) : Prop where
  /-- The unread ones are on the first page. -/
  page : ∀ m ∈ (newRows db folderID afterID).drop ruleBatchCap, m.seen = false →
    handled m.id = false
  /-- Either none is among the few whose details are told, or all that follow are such mails. -/
  details : (∀ m ∈ (newUnread db folderID afterID).take newMailUnseenCap, handled m.id = false) ∨
    ∀ m ∈ (newUnread db folderID afterID).drop newMailUnseenCap, handled m.id = true

section Recount

variable {db : DB} {folderID : Nat} {handled : Nat → Bool} {nm : NewMail}

/-- The total comes out right if the page has all that are to be taken off. -/
theorem total_suppressed_iff
    (htotal : nm.unseenTotal = (newUnread db folderID nm.afterID).length) :
    (suppressed handled ((newRows db folderID nm.afterID).take ruleBatchCap) nm).unseenTotal
        = ((newUnread db folderID nm.afterID).filter fun m => !handled m.id).length ↔
      ∀ m ∈ (newRows db folderID nm.afterID).drop ruleBatchCap, m.seen = false →
        handled m.id = false := by
  let p := fun m : FlyMail.Message => handled m.id && !m.seen
  have hnew : (newUnread db folderID nm.afterID).countP (fun m => handled m.id)
      = (newRows db folderID nm.afterID).countP p := List.countP_filter
  have hsplit : (newRows db folderID nm.afterID).countP p
      = ((newRows db folderID nm.afterID).take ruleBatchCap).countP p
        + ((newRows db folderID nm.afterID).drop ruleBatchCap).countP p := by
    rw [← List.countP_append, List.take_append_drop]
  have hlength := List.length_eq_countP_add_countP (fun m : FlyMail.Message => handled m.id)
    (l := newUnread db folderID nm.afterID)
  have hrest : ((newUnread db folderID nm.afterID).filter fun m => !handled m.id).length
      = (newUnread db folderID nm.afterID).countP fun m => decide ¬ handled m.id = true := by
    rw [← List.countP_eq_length_filter]
    exact List.countP_congr fun m _ => by simp
  have hzero : ((newRows db folderID nm.afterID).drop ruleBatchCap).countP p = 0 ↔
      ∀ m ∈ (newRows db folderID nm.afterID).drop ruleBatchCap, m.seen = false →
        handled m.id = false := by
    rw [List.countP_eq_zero]
    refine forall₂_congr fun m _ => ?_
    cases hm : handled m.id <;> cases hs : m.seen <;> simp [p, hm, hs]
  rw [← hzero]
  show nm.unseenTotal - ((newRows db folderID nm.afterID).take ruleBatchCap).countP p = _ ↔ _
  rw [htotal, hrest]
  omega

/-- The mail `m` is among the first of the new ones. -/
theorem any_page (hpage : ∀ m ∈ (newRows db folderID nm.afterID).drop ruleBatchCap,
      m.seen = false → handled m.id = false) {m : FlyMail.Message}
    (hm : m ∈ newUnread db folderID nm.afterID) :
    (((newRows db folderID nm.afterID).take ruleBatchCap).any fun m' =>
      handled m'.id && m'.id == m.id) = handled m.id := by
  obtain ⟨hnew, hseen⟩ := List.mem_filter.mp hm
  rw [Bool.not_eq_true'] at hseen
  rw [← List.take_append_drop ruleBatchCap (newRows db folderID nm.afterID),
    List.mem_append] at hnew
  rcases hnew with hfirst | hlater
  · exact any_reported handled hfirst
  · rw [hpage m hlater hseen]
    refine List.any_eq_false.mpr fun m' _ h => ?_
    rw [Bool.and_eq_true, beq_iff_eq] at h
    have hfalse := hpage m hlater hseen
    rw [← h.2, h.1] at hfalse
    cases hfalse

/-- **Taking the mails out is counting again** exactly where they are placed so. -/
theorem countedAfresh_suppressed_iff
    (htotal : nm.unseenTotal = (newUnread db folderID nm.afterID).length)
    (hunseen : nm.unseen.map FlyMail.Message.id
      = ((newUnread db folderID nm.afterID).map FlyMail.Message.id).take newMailUnseenCap) :
    CountedAfresh db folderID handled
        (suppressed handled ((newRows db folderID nm.afterID).take ruleBatchCap) nm) ↔
      Placed db folderID nm.afterID handled := by
  let rows := (newRows db folderID nm.afterID).take ruleBatchCap
  let first := (newUnread db folderID nm.afterID).take newMailUnseenCap
  have hkeys : (suppressed handled rows nm).unseen.map FlyMail.Message.id
      = (first.filter fun u => !rows.any fun m => handled m.id && m.id == u.id).map
          FlyMail.Message.id := by
    let keep := fun id : Nat => !rows.any fun m => handled m.id && m.id == id
    show (nm.unseen.filter (keep ∘ FlyMail.Message.id)).map FlyMail.Message.id
      = (first.filter (keep ∘ FlyMail.Message.id)).map FlyMail.Message.id
    rw [← List.filter_map, ← List.filter_map, hunseen, List.map_take]
  have hdetails (hpage : ∀ m ∈ (newRows db folderID nm.afterID).drop ruleBatchCap,
      m.seen = false → handled m.id = false) :
      (suppressed handled rows nm).unseen.map FlyMail.Message.id
        = (first.filter fun m => !handled m.id).map FlyMail.Message.id := by
    rw [hkeys]
    refine congrArg _ (List.filter_congr fun m hm => ?_)
    rw [any_page hpage (List.mem_of_mem_take hm)]
  have hplaced : (first.filter fun m => !handled m.id).map FlyMail.Message.id
      = (((newUnread db folderID nm.afterID).filter fun m => !handled m.id).take
          newMailUnseenCap).map FlyMail.Message.id ↔ (∀ m ∈ first, handled m.id = false) ∨
        ∀ m ∈ (newUnread db folderID nm.afterID).drop newMailUnseenCap, handled m.id = true := by
    rw [map_filter_take_iff]
    simp only [Bool.not_eq_true', Bool.not_eq_false']
    exact Iff.rfl
  constructor
  · intro h
    have hpage := (total_suppressed_iff htotal).mp h.unseenTotal
    exact ⟨hpage, hplaced.mp ((hdetails hpage).symm.trans h.unseen)⟩
  · intro h
    exact ⟨(total_suppressed_iff htotal).mpr h.page,
      (hdetails h.page).trans (hplaced.mpr h.details)⟩

end Recount

/-- **A round of a label folder announces what a count from scratch would, the mails some rule
acted on before left out, exactly where these are placed so**: the unread ones among the first
page of new mails, and none of them among the first few unless all that follow are such mails. -/
theorem suppress_iff {m : Manager κ ρ} {r : RuleRunner κ ρ} {f : Folder} {c : FullSession}
    {s t u : State ρ} {state state' : FolderState} {nm nm' : NewMail} {handled : Nat → Bool}
    (hrules : m.rules = some r) (hreports : r.Reports f.accountID handled)
    (htype : f.type = .custom) (hfetch : m.fetchFolder f c .calm s = (.ok (state, nm), t))
    (hbase : nm.baseline = false) (hcount : nm.count ≠ 0)
    (happly : applyRules m.rules f state nm .calm t = (.ok (state', nm'), u)) :
    CountedAfresh t.db f.id handled nm' ↔ Placed t.db f.id nm.afterID handled := by
  obtain ⟨htotal, hunseen⟩ := (ends_fetchFolder m f c s).ok hfetch hbase hcount
  have hnone : nm.unseenTotal = 0 → nm.unseen = [] := by
    intro hzero
    rw [htotal, List.length_eq_zero_iff] at hzero
    rw [hzero] at hunseen
    simpa using hunseen
  have hnm : nm' = suppressed handled ((newRows t.db f.id nm.afterID).take ruleBatchCap) nm := by
    unfold applyRules at happly
    rw [hrules] at happly
    dsimp only at happly
    rw [if_neg (by simp [hbase, hcount]), if_neg (by rw [htype]; exact fun h => nomatch h),
      if_pos htype, bind_ok (suppressHandled_calm hreports hnone)] at happly
    cases happly
    rfl
  rw [hnm]
  exact countedAfresh_suppressed_iff htotal hunseen

/-! ### Four new mails, the first of which a rule acted on -/

private def unreadPart (uid : Nat) : ParsedEmail where
  messageID := []
  uid := .numbered uid
  inReplyTo := []
  references := []
  subject := []
  sender := []
  toList := []
  ccList := []
  date := 0
  size := 0
  flags := []
  isRead := false
  isStarred := false

private def fourNew : FullSession where
  listFolders := []
  selectFolder _ := ⟨4, 1, 15⟩
  statusUIDValidity _ := none
  statusUIDNext _ := none
  fetchByUIDRange _ _ _ := [11, 12, 13, 14].map unreadPart
  fetchBySeqRange _ _ _ := []
  fetchByUIDs _ _ := []

private def labelRow : Folder :=
  { Folder.bare 1 1 "Label".toList .custom with uidNext := 11 }

private def knowsFirst : RuleRunner Unit Unit where
  apply _ _ _ := pure false
  handled _ rows := pure ((rows.filter fun m => m.id == 1).map FlyMail.Message.id)

private def sorter : Manager Unit Unit := ⟨id, 1000, fun _ _ _ => .custom, some knowsFirst⟩

private def noMails : State Unit := ⟨⟨.empty, .single labelRow, .empty⟩, ⟨[], []⟩, [], [], [], ()⟩

theorem suppress_iff_first : ∃ state nm t nm' u,
    sorter.fetchFolder labelRow fourNew .calm noMails = (.ok (state, nm), t) ∧
      applyRules sorter.rules labelRow state nm .calm t = (.ok (state, nm'), u) ∧
        (CountedAfresh t.db labelRow.id (fun id => id == 1) nm' ↔
          Placed t.db labelRow.id nm.afterID fun id => id == 1) := by
  obtain ⟨state, nm, t, nm', u, hfetch, hbase, hcount, happly⟩ : ∃ state nm t nm' u,
      sorter.fetchFolder labelRow fourNew .calm noMails = (.ok (state, nm), t) ∧
        nm.baseline = false ∧ nm.count = 4 ∧
          applyRules sorter.rules labelRow state nm .calm t = (.ok (state, nm'), u) := by
    exact ⟨_, _, _, _, _, rfl, rfl, rfl, rfl⟩
  have hsome : nm.count ≠ 0 := by omega
  exact ⟨state, nm, t, nm', u, hfetch, happly,
    suppress_iff (m := sorter) rfl (fun _ _ => rfl) rfl hfetch hbase hsome happly⟩

/-- **Three unread mails nobody acted on, and a notice without details**: the round says that
there are three, and names two. -/
theorem label_round_drifts : ∃ state nm t nm' u,
    sorter.fetchFolder labelRow fourNew .calm noMails = (.ok (state, nm), t) ∧
      nm.baseline = false ∧ nm.count = 4 ∧
        applyRules sorter.rules labelRow state nm .calm t = (.ok (state, nm'), u) ∧
          ¬ CountedAfresh t.db labelRow.id (fun id => id == 1) nm' := by
  refine ⟨_, _, _, _, _, rfl, rfl, rfl, rfl, fun h => ?_⟩
  have hunseen := congrArg List.length h.unseen
  cases hunseen

end Sync

end FlyMail
