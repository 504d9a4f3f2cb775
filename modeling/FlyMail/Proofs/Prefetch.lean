/-
What the rules know of the bodies of new mails.

A round fetches the bodies of the first mails it brought, fifty of them, before it hands any to
the rules.  On these the rules that apply are those that apply to the mail with its body; of
any other the body is not known, and a condition on it does not hold.

The proof follows a body from the answer to its fetch into the tables, through the rules' own
doings, and to the view the conditions are evaluated on.
-/
import FlyMail.Proofs.Fetch
import FlyMail.Proofs.Rules
import FlyMail.Sync.RuleRunner

namespace FlyMail

theorem UID.eq_of_val {a b : UID} (h : a.val = b.val) : a = b := by
  cases a
  cases b
  simpa using h

/-! ### What a rule reads -/

namespace Rules

/-- The views are the same as far as the rule reads them. -/
structure Compiled.Reads (c : Compiled) (v v' : MessageView) : Prop where
  head : { v with body := [], attachments := [] } = { v' with body := [], attachments := [] }
  body : c.needsBody = true → v.body = v'.body
  attachments : c.needsAttachments = true → v.attachments = v'.attachments

section Reads

variable {lib : Lib} {c : Compiled} {v v' : MessageView}

theorem Compiled.Reads.evalCondition (h : c.Reads v v') {cond : Condition × Option (Text → Bool)}
    (hcond : cond ∈ c.conditions) : Rules.evalCondition lib cond v = Rules.evalCondition lib cond v' := by
  have hhead := h.head
  rw [MessageView.mk.injEq] at hhead
  obtain ⟨hfrom, hto, hcc, hfromAddr, htoAddrs, hccAddrs, hsubject, -, hknown, -, hhas⟩ := hhead
  have hbody : cond.1.field = fieldBody → v.body = v'.body := fun hfield =>
    h.body (List.any_eq_true.mpr ⟨cond, hcond, by simp [hfield]⟩)
  have hatts : cond.1.field = fieldAttachmentName → v.attachments = v'.attachments := fun hfield =>
    h.attachments (List.any_eq_true.mpr ⟨cond, hcond, by simp [hfield]⟩)
  unfold Rules.evalCondition
  rw [hfrom, hto, hcc, hfromAddr, htoAddrs, hccAddrs, hsubject, hknown, hhas]
  dsimp only
  split
  · rfl
  split
  · rename_i hfield
    rw [hatts hfield]
  split
  · rename_i hfield
    rw [hbody hfield]
  · rfl

theorem evalConditions_congr {match_ : Text} {conds : List (Condition × Option (Text → Bool))}
    (h : ∀ cond ∈ conds, evalCondition lib cond v = evalCondition lib cond v') (unknown : Bool) :
    evalConditions lib match_ v conds unknown = evalConditions lib match_ v' conds unknown := by
  induction conds generalizing unknown with
  | nil => rfl
  | cons cond rest ih =>
      unfold evalConditions
      rw [h cond List.mem_cons_self]
      simp only [ih fun cond' hcond' => h cond' (List.mem_cons_of_mem _ hcond')]

theorem Compiled.Reads.evaluate (h : c.Reads v v') : Rules.evaluate lib c v = Rules.evaluate lib c v' := by
  unfold Rules.evaluate
  rw [evalConditions_congr fun cond hcond => h.evalCondition hcond]

theorem fire_congr {done : Nat → Bool} {compiled : List Compiled}
    (h : ∀ c ∈ compiled, c.Reads v v') : fire lib done v compiled = fire lib done v' compiled := by
  induction compiled with
  | nil => rfl
  | cons c rest ih =>
      unfold fire
      rw [(h c List.mem_cons_self).evaluate, ih fun c' hc' => h c' (List.mem_cons_of_mem _ hc')]

end Reads

end Rules

namespace Sync

open Proc FlyMail.Message

variable {κ ρ : Type}

/-! ### Storing a body -/

/-- The rows say the same of their bodies. -/
def SameBodies (d d' : DB) : Prop :=
  ∀ m ∈ d.messages.rows, ∀ m' ∈ d'.messages.rows, m'.id = m.id →
    m'.bodySynced = m.bodySynced ∧ m'.hasAttachment = m.hasAttachment

theorem SameBodies.refl (d : DB) : SameBodies d d := by
  intro m hm m' hm' hid
  rw [d.messages.eq_of_pk hm' hm hid]
  exact ⟨rfl, rfl⟩

/-- No more than headers and threads were written. -/
structure Reheaded (s t : State ρ) : Prop where
  rules : t.rules = s.rules
  bodies : t.bodies = s.bodies
  same : SameMails s.db t.db
  flags : SameBodies s.db t.db

section Store

variable {s t : State ρ}

theorem Reheaded.refl (s : State ρ) : Reheaded s s :=
  ⟨rfl, rfl, ⟨rfl, rfl, rfl, rfl⟩, SameBodies.refl s.db⟩

theorem SameMails.trans {d d' d'' : DB} (h : SameMails d d') (h' : SameMails d' d'') :
    SameMails d d'' :=
  ⟨h'.rows.trans h.rows, h'.last.trans h.last, h'.folders.trans h.folders, h'.ops.trans h.ops⟩

theorem Reheaded.modify (h : Reheaded s t) {p : FlyMail.Message → Bool}
    {f : FlyMail.Message → FlyMail.Message} {hpk huk}
    (hf : ∀ m, (f m).core = m.core ∧ (f m).bodySynced = m.bodySynced ∧
      (f m).hasAttachment = m.hasAttachment) :
    Reheaded s { t with db := { t.db with messages := t.db.messages.modify p f hpk huk } } := by
  refine ⟨h.rules, h.bodies, SameMails.trans h.same (.modify fun m => (hf m).1), ?_⟩
  intro m hm m' hm' hid
  replace hm' : m' ∈ (t.db.messages.modify p f hpk huk).rows := hm'
  obtain ⟨a, ha, rfl⟩ := Table.mem_modify.mp hm'
  split
  · rename_i hp
    rw [if_pos hp] at hid
    obtain ⟨hsynced, hatt⟩ := h.flags m hm a ha ((hpk a).symm.trans hid)
    exact ⟨(hf a).2.1.trans hsynced, (hf a).2.2.trans hatt⟩
  · rename_i hp
    rw [if_neg hp] at hid
    exact h.flags m hm a ha hid

theorem threadBlind_reheaded (s : State ρ) : ThreadBlind (Reheaded s) := by
  intro t p f hpk huk hf ht
  refine ht.modify fun m => ?_
  obtain ⟨thread, hm⟩ := hf m
  rw [hm]
  exact ⟨rfl, rfl, rfl⟩

theorem keeps_backfillHeaders (digest : Text → Text) (at_ : BodyStmt → FolderStmt κ) (messageID : Nat)
    (e : FetchedEmail) (s : State ρ) :
    Keeps (Reheaded s) (backfillHeaders digest at_ messageID e : FolderProg κ ρ Unit) := by
  unfold backfillHeaders
  split
  · refine keeps_bind (keeps_query _ _ _) fun m => ?_
    dsimp only
    split
    · refine keeps_bind ?_ fun _ => keeps_assignThreads digest _ (threadBlind_reheaded s) _
      exact keeps_update fun t ht => ht.modify fun _ => ⟨rfl, rfl, rfl⟩
    · exact keeps_pure ()
  · exact keeps_pure ()

/-- The mail's body was stored. -/
structure Embodied (s t : State ρ) (messageID : Nat) (e : FetchedEmail) : Prop where
  rules : t.rules = s.rules
  same : SameMails s.db t.db
  flags : ∀ m ∈ s.db.messages.rows, ∀ m' ∈ t.db.messages.rows, m'.id = m.id →
    m'.bodySynced = (if m.id = messageID then true else m.bodySynced) ∧
      m'.hasAttachment = if m.id = messageID then e.attachments != [] else m.hasAttachment
  body : ∀ id, t.bodies.getByMessageID id
    = if id = messageID then some ⟨messageID, e.textBody, e.htmlBody⟩ else s.bodies.getByMessageID id
  attachments : ∀ id, t.bodies.listAttachments id
    = if id = messageID then e.attachments.map (toAttachment messageID) else s.bodies.listAttachments id

theorem embodied_storeParsedBody (digest : Text → Text) (at_ : BodyStmt → FolderStmt κ)
    {messageID : Nat} (e : FetchedEmail) (h : ∃ r ∈ s.db.messages.rows, r.id = messageID) :
    ∃ t, (storeParsedBody digest at_ messageID e : FolderProg κ ρ Unit) .calm s = (.ok (), t) ∧
      Embodied s t messageID e := by
  obtain ⟨t, ht⟩ : ∃ t, (storeParsedBody digest at_ messageID e : FolderProg κ ρ Unit) .calm s
      = (.ok (), t) := returns_storeParsedBody digest at_ e h
  refine ⟨t, ht, ?_⟩
  have hheads := keeps_backfillHeaders digest at_ messageID e s .calm (fun _ _ h => h) s (Reheaded.refl s)
  unfold storeParsedBody at ht
  rw [bind_apply] at ht
  cases hback : (backfillHeaders digest at_ messageID e : FolderProg κ ρ Unit) .calm s with
  | mk out u =>
      rw [hback] at ht hheads
      cases out with
      | err _ => cases ht
      | dead => cases ht
      | ok _ =>
          obtain ⟨hrules, hbodies, hsame, hflags⟩ := hheads
          obtain rfl := (Prod.mk.inj ht).2
          refine ⟨hrules, SameMails.trans hsame (.modify fun _ => rfl), fun m hm m' hm' hid => ?_,
            fun id => ?_, fun id => ?_⟩
          · replace hm' : m' ∈ (Repository.markBodySynced messageID (makeSnippet e.textBody e.htmlBody)
              (e.attachments != []) u.db).messages.rows := hm'
            rw [Repository.markBodySynced_rows] at hm'
            obtain ⟨a, ha, rfl⟩ := List.mem_map.mp hm'
            by_cases hown : a.id = messageID
            · have hmid : m.id = messageID := by
                rw [if_pos (by simpa using hown)] at hid
                exact hid.symm.trans hown
              rw [if_pos (by simpa using hown), if_pos hmid, if_pos hmid]
              exact ⟨rfl, rfl⟩
            · rw [if_neg (by simpa using hown)] at hid ⊢
              have hmid : m.id ≠ messageID := fun h => hown (hid.trans h)
              rw [if_neg hmid, if_neg hmid]
              exact hflags m hm a ha hid
          · show (Bodies.upsert _ u.bodies).getByMessageID id = _
            rw [Bodies.getByMessageID_upsert, hbodies]
          · show (Bodies.replaceAttachments messageID _ (Bodies.upsert _ u.bodies)).listAttachments id = _
            rw [Bodies.listAttachments_replace _ _ (by simp [toAttachment]), hbodies]
            rfl

end Store

/-! ### Fetching bodies -/

/-- The mail was fetched with its body. -/
def Answered (c : FullSession) (path : Text) (e : FetchedEmail) : Prop :=
  ∃ uids, e ∈ c.fetchByUIDs path uids

/-- What is stored for the row is the body that was fetched for it. -/
structure HasBody (c : FullSession) (path : Text) (b : Bodies) (m : FlyMail.Message)
    (e : FetchedEmail) : Prop where
  answered : Answered c path e
  uid : e.uid = m.uid
  synced : m.bodySynced = true
  attached : m.hasAttachment = (e.attachments != [])
  body : b.getByMessageID m.id = some ⟨m.id, e.textBody, e.htmlBody⟩
  attachments : b.listAttachments m.id = e.attachments.map (toAttachment m.id)

/-- The bodies of those of the mails whose UIDs are in `got` are there. -/
structure Fetching (c : FullSession) (path : Text) (msgs : List FlyMail.Message) (s₀ : State ρ)
    (got : Nat → Prop) (s : State ρ) : Prop where
  rules : s.rules = s₀.rules
  same : SameMails s₀.db s.db
  bodies : ∀ m ∈ s.db.messages.rows, ∀ m₀ ∈ msgs, m₀.id = m.id → got m.uid.val →
    ∃ e, HasBody c path s.bodies m e

/-- The mails are rows of the folder. -/
def RowsOf (folderID : Nat) (s₀ : State ρ) (msgs : List FlyMail.Message) : Prop :=
  ∀ m ∈ msgs, m ∈ s₀.db.messages.rows ∧ m.folderID = folderID

section Fetch

variable (digest : Text → Text) {c : FullSession} {path : Text} {msgs : List FlyMail.Message}
  {folderID : Nat} {s₀ s : State ρ} {got : Nat → Prop}

/-- A row whose key a mail has is the mail's. -/
theorem Fetching.uid_eq (h : Fetching c path msgs s₀ got s) (hmsgs : RowsOf folderID s₀ msgs)
    {m m₀ : FlyMail.Message} (hm : m ∈ s.db.messages.rows) (hm₀ : m₀ ∈ msgs) (hid : m₀.id = m.id) :
    m.uid = m₀.uid := by
  obtain ⟨r, hr, hcore⟩ := h.same.exists_core hm
  have hrow : r.id = m.id ∧ r.uid = m.uid := by
    show r.core.id = m.core.id ∧ r.core.uid = m.core.uid
    rw [hcore]
    exact ⟨rfl, rfl⟩
  rw [s₀.db.messages.eq_of_pk (hmsgs m₀ hm₀).1 hr (hid.trans hrow.1.symm)]
  exact hrow.2.symm

variable (κ) in
theorem fetching_storeBody (hmsgs : RowsOf folderID s₀ msgs) (h : Fetching c path msgs s₀ got s)
    {e : FetchedEmail} (he : Answered c path e) :
    ∃ t, (storeBody digest msgs e : FolderProg κ ρ Unit) .calm s = (.ok (), t) ∧
      Fetching c path msgs s₀ (fun uid => got uid ∨ uid = e.uid.val) t := by
  unfold storeBody idByUID
  cases hfind : msgs.find? fun m => m.uid == e.uid with
  | none =>
      refine ⟨s, rfl, h.rules, h.same, fun m hm m₀ hm₀ hid hgot => ?_⟩
      refine h.bodies m hm m₀ hm₀ hid (hgot.resolve_right fun heq => ?_)
      have hne := List.find?_eq_none.mp hfind m₀ hm₀
      rw [← h.uid_eq hmsgs hm hm₀ hid, UID.eq_of_val heq] at hne
      simp at hne
  | some m₁ =>
      have hm₁ := List.mem_of_find?_eq_some hfind
      have huid₁ : m₁.uid = e.uid := by simpa using List.find?_some hfind
      have hrow : ∃ r ∈ s.db.messages.rows, r.id = m₁.id := by
        obtain ⟨r, hr, hcore⟩ := h.same.symm.exists_core (hmsgs m₁ hm₁).1
        exact ⟨r, hr, by show r.core.id = m₁.core.id; rw [hcore]⟩
      obtain ⟨t, ht, hrules, hsame, hflags, hbody, hatts⟩ :=
        embodied_storeParsedBody digest (FolderStmt.body m₁.id : BodyStmt → FolderStmt κ) e hrow
      refine ⟨t, withDefault_ok ht, hrules.trans h.rules, SameMails.trans h.same hsame,
        fun m hm m₀ hm₀ hid hgot => ?_⟩
      obtain ⟨r, hr, hcore⟩ := hsame.exists_core hm
      have hsameRow : m.id = r.id ∧ m.uid = r.uid := by
        show m.core.id = r.core.id ∧ m.core.uid = r.core.uid
        rw [hcore]
        exact ⟨rfl, rfl⟩
      obtain ⟨hsynced, hattached⟩ := hflags r hr m hm hsameRow.1
      have huid : m.uid = m₀.uid :=
        hsameRow.2.trans (h.uid_eq hmsgs hr hm₀ (hid.trans hsameRow.1))
      by_cases hown : r.id = m₁.id
      · have hmid : m.id = m₁.id := hsameRow.1.trans hown
        have heq : m₀ = m₁ :=
          s₀.db.messages.eq_of_pk (hmsgs m₀ hm₀).1 (hmsgs m₁ hm₁).1 (hid.trans hmid)
        rw [if_pos hown] at hsynced hattached
        refine ⟨e, he, ?_, hsynced, hattached, ?_, ?_⟩
        · rw [huid, heq, huid₁]
        · rw [hbody, if_pos hmid, hmid]
        · rw [hatts, if_pos hmid, hmid]
      · have hother : m₀ ≠ m₁ := fun heq => hown (hsameRow.1.symm.trans (hid.symm.trans (congrArg _ heq)))
        have hgotOld : got r.uid.val := by
          rw [← hsameRow.2]
          refine hgot.resolve_right fun heq => hother ?_
          refine s₀.db.messages.eq_of_uk (hmsgs m₀ hm₀).1 (hmsgs m₁ hm₁).1 ?_
          show (m₀.folderID, m₀.uid) = (m₁.folderID, m₁.uid)
          rw [(hmsgs m₀ hm₀).2, (hmsgs m₁ hm₁).2, ← huid, UID.eq_of_val heq, huid₁]
        obtain ⟨e', he'⟩ := h.bodies r hr m₀ hm₀ (hid.trans hsameRow.1) hgotOld
        rw [if_neg hown] at hsynced hattached
        have hmid : m.id ≠ m₁.id := fun heq => hown (hsameRow.1.symm.trans heq)
        refine ⟨e', he'.answered, he'.uid.trans hsameRow.2.symm, hsynced.trans he'.synced,
          hattached.trans he'.attached, ?_, ?_⟩
        · rw [hbody, if_neg hmid, hsameRow.1]
          exact he'.body
        · rw [hatts, if_neg hmid, hsameRow.1]
          exact he'.attachments

theorem Fetching.mono {got' : Nat → Prop} (h : Fetching c path msgs s₀ got s)
    (hgot : ∀ uid : UID, got' uid.val → got uid.val) : Fetching c path msgs s₀ got' s :=
  ⟨h.rules, h.same, fun m hm m₀ hm₀ hid hg => h.bodies m hm m₀ hm₀ hid (hgot _ hg)⟩

variable (κ) in
theorem fetching_each (hmsgs : RowsOf folderID s₀ msgs) (emails : List FetchedEmail)
    (he : ∀ e ∈ emails, Answered c path e) {got : Nat → Prop} {s : State ρ}
    (h : Fetching c path msgs s₀ got s) :
    ∃ t, (each (storeBody digest msgs) emails : FolderProg κ ρ Unit) .calm s = (.ok (), t) ∧
      Fetching c path msgs s₀ (fun uid => got uid ∨ ∃ e ∈ emails, e.uid.val = uid) t := by
  induction emails generalizing got s with
  | nil => exact ⟨s, rfl, h.mono fun uid hg => by simpa using hg⟩
  | cons e rest ih =>
      obtain ⟨u, hu, hfetching⟩ :=
        fetching_storeBody κ digest hmsgs h (he e List.mem_cons_self)
      obtain ⟨t, ht, hrest⟩ := ih (fun e' he' => he e' (List.mem_cons_of_mem e he')) hfetching
      refine ⟨t, (bind_ok hu).trans ht, hrest.mono fun uid hg => ?_⟩
      rcases hg with hg | ⟨e', he', huid⟩
      · exact Or.inl (Or.inl hg)
      rcases List.mem_cons.mp he' with rfl | he'
      · exact Or.inl (Or.inr huid.symm)
      · exact Or.inr ⟨e', he', huid⟩

/-- Every body that is asked for comes. -/
def FullSession.Answers (c : FullSession) (path : Text) : Prop :=
  ∀ uids, ∀ uid : UID, uid.val ∈ uids → ∃ e ∈ c.fetchByUIDs path uids, e.uid = uid

variable (κ) in
theorem fetching_batches (hc : FullSession.Answers c path) (hmsgs : RowsOf folderID s₀ msgs)
    (chunks : List (List Nat)) {got : Nat → Prop} {s : State ρ}
    (h : Fetching c path msgs s₀ got s) (n : Nat) :
    ∃ t, (fetchBatches digest c path msgs n chunks : FolderProg κ ρ Unit) .calm s = (.ok (), t) ∧
      Fetching c path msgs s₀ (fun uid => got uid ∨ ∃ uids ∈ chunks, uid ∈ uids) t := by
  induction chunks generalizing got s n with
  | nil => exact ⟨s, rfl, h.mono fun uid hg => by simpa using hg⟩
  | cons uids rest ih =>
      obtain ⟨u, hu, hfetching⟩ := fetching_each κ digest hmsgs
        (c.fetchByUIDs path uids) (fun e he => ⟨uids, he⟩) h
      obtain ⟨t, ht, hrest⟩ := ih hfetching (n + 1)
      have hask : (ask (.fetchBodies n) (c.fetchByUIDs path uids) : FolderProg κ ρ _) .calm s
          = (.ok (c.fetchByUIDs path uids), s) := query_calm rfl
      refine ⟨t, (bind_ok hask).trans ((bind_ok hu).trans ht), hrest.mono fun uid hg => ?_⟩
      rcases hg with hg | ⟨uids', huids', huid⟩
      · exact Or.inl (Or.inl hg)
      rcases List.mem_cons.mp huids' with rfl | huids'
      · obtain ⟨e, he, heq⟩ := hc _ uid huid
        exact Or.inl (Or.inr ⟨e, he, congrArg UID.val heq⟩)
      · exact Or.inr ⟨uids', huids', huid⟩

variable (κ) in
/-- **The bodies that are asked for are stored.** -/
theorem fetching_fetchBodies (hc : FullSession.Answers c path) (hmsgs : RowsOf folderID s₀ msgs) :
    ∃ t, (fetchBodies digest c path msgs : FolderProg κ ρ Unit) .calm s₀ = (.ok (), t) ∧
      Fetching c path msgs s₀ (fun uid => ∃ m ∈ msgs, m.uid.val = uid) t := by
  have hstart : Fetching c path msgs s₀ (fun _ => False) s₀ :=
    ⟨rfl, ⟨rfl, rfl, rfl, rfl⟩, fun _ _ _ _ _ h => h.elim⟩
  obtain ⟨t, ht, hfetching⟩ := fetching_batches κ digest hc hmsgs
    (chunksOf bodyFetchBatch (msgs.map fun m => m.uid.val)) hstart 0
  have hask : (ask .selectBodies (c.selectFolder path) : FolderProg κ ρ _) .calm s₀
      = (.ok (c.selectFolder path), s₀) := query_calm rfl
  refine ⟨t, withDefault_ok ((bind_ok hask).trans ht), hfetching.mono ?_⟩
  rintro uid ⟨m, hm, huid⟩
  rw [← huid]
  exact Or.inr ((exists_mem_chunksOf (by decide)).mpr (List.mem_map_of_mem hm))

/-- The statements of fetching bodies. -/
def FolderStmt.ofBodies : FolderStmt κ → Prop
  | .pendingBodies | .selectBodies | .fetchBodies _ | .body _ _ => True
  | _ => False

theorem uses_prefetchNewBodies (digest : Text → Text) (f : Folder) (nm : NewMail) (c : FullSession) :
    Uses FolderStmt.ofBodies (prefetchNewBodies digest f nm c : FolderProg κ ρ Unit) := by
  have hstore : ∀ msgs e, Uses FolderStmt.ofBodies (storeBody digest msgs e : FolderProg κ ρ Unit) := by
    intro msgs e
    unfold storeBody
    split
    · exact uses_pure ()
    · exact uses_withDefault (uses_storeParsedBody digest (fun _ => trivial) _ e) ()
  have hbatches : ∀ msgs chunks n,
      Uses FolderStmt.ofBodies (fetchBatches digest c f.path msgs n chunks : FolderProg κ ρ Unit) := by
    intro msgs chunks
    induction chunks with
    | nil => exact fun n => uses_pure ()
    | cons uids rest ih =>
        intro n
        refine uses_bind (uses_query trivial _ _) fun emails => uses_bind ?_ fun _ => ih (n + 1)
        exact uses_each emails fun e _ => hstore msgs e
  unfold prefetchNewBodies fetchBodies
  split
  · exact uses_pure ()
  · refine uses_bind (uses_withDefault (uses_query trivial _ _) []) fun msgs => ?_
    split
    · exact uses_pure ()
    · exact uses_withDefault (uses_bind (uses_query trivial _ _) fun _ => hbatches msgs _ 0) ()

/-- The new mails whose bodies a round fetches. -/
def prefetched (db : DB) (folderID : Nat) (nm : NewMail) : List FlyMail.Message :=
  Repository.pendingBodiesAfterID db folderID nm.afterID bodyPrefetchNewCap

/-- What is known of the bodies when the rules' turn comes. -/
theorem prefetchNewBodies_known {f : Folder} {nm : NewMail} (hc : FullSession.Answers c f.path)
    {φ : FolderStmt κ → Fault} (hφ : ∀ i, i.ofBodies → φ i = .none)
    (hnew : ¬ (nm.baseline ∨ nm.count = 0 ∨ bodyPrefetchFolder f.type = false)) :
    ∃ t, (prefetchNewBodies digest f nm c : FolderProg κ ρ Unit) (.faulty φ) s₀ = (.ok (), t) ∧
      t.rules = s₀.rules ∧ ∀ m ∈ t.db.messages.rows, ∀ m₀ ∈ prefetched s₀.db f.id nm, m₀.id = m.id →
        ∃ e, HasBody c f.path t.bodies m e := by
  have hrows : RowsOf f.id s₀ (prefetched s₀.db f.id nm) := by
    intro m hm
    obtain ⟨hmem, hp⟩ := List.mem_filter.mp (List.mem_of_mem_take hm)
    simp only [Bool.and_eq_true, beq_iff_eq] at hp
    exact ⟨hmem, hp.1.1⟩
  rw [(uses_prefetchNewBodies digest f nm c).calm hφ]
  unfold prefetchNewBodies
  rw [if_neg hnew, bind_ok (withDefault_ok (queryDB_calm _ _ _ s₀))]
  show ∃ t, (if prefetched s₀.db f.id nm = [] then _ else _ : FolderProg κ ρ Unit) .calm s₀ = _ ∧ _
  by_cases hnil : prefetched s₀.db f.id nm = []
  · rw [if_pos hnil, hnil]
    exact ⟨s₀, rfl, rfl, fun m _ m₀ hm₀ => absurd hm₀ List.not_mem_nil⟩
  · rw [if_neg hnil]
    obtain ⟨t, ht, hfetching⟩ := fetching_fetchBodies κ digest hc hrows
    refine ⟨t, ht, hfetching.rules, fun m hm m₀ hm₀ hid => hfetching.bodies m hm m₀ hm₀ hid ?_⟩
    exact ⟨m₀, hm₀, congrArg UID.val (hfetching.uid_eq hrows hm hm₀ hid).symm⟩

end Fetch

/-! ### What the rules are applied to -/

/-- The body as the rules read it. -/
def bodyOf (unescape : Text → Text) (e : FetchedEmail) : Text :=
  if e.textBody ≠ [] then e.textBody else Fts.stripHTML unescape e.htmlBody

def namesOf (e : FetchedEmail) : List Text :=
  (e.attachments.filter fun a => a.filename != []).map ParsedAttachment.filename

/-- The mail as the conditions see it with its body and its attachments. -/
def withBody (unescape : Text → Text) (m : FlyMail.Message) (e : FetchedEmail) : Rules.MessageView :=
  { Rules.view ⟨m, none, []⟩ false false with
    body := bodyOf unescape e
    bodyKnown := true
    attachments := namesOf e
    hasAttachment := e.attachments != [] }

section View

variable {c : FullSession} {path : Text} {b : Bodies} {m : FlyMail.Message} {e : FetchedEmail}

theorem mailOf_of_hasBody (unescape : Text → Text) (h : HasBody c path b m e) :
    mailOf unescape b m = ⟨m, some (bodyOf unescape e), namesOf e⟩ := by
  have hbody : bodyText unescape b m.id = (bodyOf unescape e, true) := by
    unfold bodyText bodyOf
    rw [h.body]
    dsimp only
    split
    · rfl
    · rfl
  have hnames : attachmentNames b m.id = namesOf e := by
    unfold attachmentNames namesOf
    rw [h.attachments, List.filter_map, List.map_map]
    rfl
  unfold mailOf
  rw [hbody, hnames]
  rfl

theorem reads_view (unescape : Text → Text) (h : HasBody c path b m e) {w : Rules.Work}
    {k : Rules.Compiled} (hk : k ∈ w.compiled) :
    k.Reads (w.view (mailOf unescape b m)) (withBody unescape m e) := by
  rw [mailOf_of_hasBody unescape h]
  have hsynced := h.synced
  have hattached := h.attached
  refine ⟨?_, fun hneeds => ?_, fun hneeds => ?_⟩
  · unfold Rules.Work.view Rules.view withBody Rules.view
    simp [hsynced, hattached]
  · have hany : w.compiled.any Rules.Compiled.needsBody = true := List.any_eq_true.mpr ⟨k, hk, hneeds⟩
    unfold Rules.Work.view Rules.view withBody
    simp [hsynced, hany]
  · have hany : w.compiled.any Rules.Compiled.needsAttachments = true :=
      List.any_eq_true.mpr ⟨k, hk, hneeds⟩
    unfold Rules.Work.view Rules.view withBody
    simp [hsynced, hany]

/-- **The rules that apply are those that apply to the mail with its body.** -/
theorem fired_of_hasBody (unescape : Text → Text) (lib : Rules.Lib) (h : HasBody c path b m e)
    (w : Rules.Work) : w.fired lib (mailOf unescape b m)
      = Rules.fire lib (w.done (mailOf unescape b m)) (withBody unescape m e) w.compiled :=
  Rules.fire_congr fun _ hk => reads_view unescape h hk

end View

/-- The rules that applied to the first of the new mails are those that apply to them with their
bodies. -/
def SeesBodies (unescape : Text → Text) (lib : Rules.Lib) (c : FullSession) (path : Text)
    (first : List FlyMail.Message) (a : Rules.Work × List Rules.Mail) : Prop :=
  ∀ mail ∈ a.2, ∀ m₀ ∈ first, m₀.id = mail.row.id →
    ∃ e, Answered c path e ∧ e.uid = mail.row.uid ∧
      a.1.fired lib mail = Rules.fire lib (a.1.done mail) (withBody unescape mail.row e) a.1.compiled

/-- What holds while the rules are applied page by page. -/
structure Applying (unescape : Text → Text) (lib : Rules.Lib) (c : FullSession) (path : Text)
    (first : List FlyMail.Message) (before : List (Rules.Work × List Rules.Mail))
    (s : State RuleBook) : Prop where
  known : ∀ m ∈ s.db.messages.rows, ∀ m₀ ∈ first, m₀.id = m.id → ∃ e, HasBody c path s.bodies m e
  applied : ∃ new, s.rules.applied = before ++ new ∧
    ∀ a ∈ new, SeesBodies unescape lib c path first a

section Apply

variable {unescape : Text → Text} {lib : Rules.Lib} {c : FullSession} {path : Text}
  {first : List FlyMail.Message} {before : List (Rules.Work × List Rules.Mail)}
  {s : State RuleBook} {renv : State RuleBook → Rules.Env} {actor : Actor}

theorem applying_apply (h : Applying unescape lib c path first before s) (accountID : Nat) (f : Folder)
    {rows : List FlyMail.Message} (hrows : ∀ m ∈ rows, m ∈ s.db.messages.rows)
    (env : Env κ (State RuleBook)) :
    Applying unescape lib c path first before
      ((ruleRunner unescape renv actor).apply accountID f rows env s).2 := by
  obtain ⟨new, happlied, hsees⟩ := h.applied
  refine ⟨fun m hm m₀ hm₀ hid => ?_, ?_⟩
  · obtain ⟨r, hr, hrow⟩ := actor.rows _ _ m hm
    have hbodies : ((ruleRunner unescape renv actor).apply accountID f rows env s).2.bodies = s.bodies :=
      actor.bodies _ _
    have hsame : m.id = r.id := by rw [hrow]
    obtain ⟨e, hanswered, huid, hsynced, hattached, hbody, hatts⟩ := h.known r hr m₀ hm₀ (hid.trans hsame)
    rw [hrow]
    refine ⟨e, hanswered, huid, hsynced, hattached, ?_, ?_⟩
    · rw [hbodies]
      exact hbody
    · rw [hbodies]
      exact hatts
  · have hrules : ((ruleRunner unescape renv actor).apply accountID f rows env s).2.rules.applied
        = s.rules.applied ++ [(Rules.work (renv s) s.rules.state accountID f,
            rows.map (mailOf unescape s.bodies))] :=
      congrArg RuleBook.applied (actor.rules _ _)
    rw [hrules, happlied, List.append_assoc]
    refine ⟨_, rfl, fun a ha => ?_⟩
    rcases List.mem_append.mp ha with ha | ha
    · exact hsees a ha
    · rw [List.mem_singleton.mp ha]
      intro mail hmail m₀ hm₀ hid
      obtain ⟨m, hm, rfl⟩ := List.mem_map.mp hmail
      obtain ⟨e, he⟩ := h.known m (hrows m hm) m₀ hm₀ hid
      exact ⟨e, he.answered, he.uid, fired_of_hasBody unescape lib he _⟩

/-- **Page by page the rules see the bodies.** -/
theorem applying_runRules (f : Folder) {φ : FolderStmt κ → Fault} (fuel : Nat) :
    ∀ page afterID changed {s : State RuleBook}, Applying unescape lib c path first before s →
      Ends (.faulty φ) s (runRules (ruleRunner unescape renv actor) f fuel page afterID changed)
        (fun _ t => Applying unescape lib c path first before t)
        (Applying unescape lib c path first before) := by
  induction fuel with
  | zero => exact fun page afterID changed s h => ends_pure h
  | succ fuel ih =>
      intro page afterID changed s h
      refine ends_bind (ends_attempt (ends_query (fun rows hrows => ?_) ?_))
      · obtain rfl := Except.ok.inj hrows
        have hmem : ∀ m ∈ Repository.listAfterID s.db f.id afterID ruleBatchCap,
            m ∈ s.db.messages.rows := fun m hm => List.mem_of_mem_filter (List.mem_of_mem_take hm)
        dsimp only
        split
        · exact ends_pure h
        · refine ends_bind ?_
          have hrecorded : Applying unescape lib c path first before
              { s with events := s.events ++ [.rules (Repository.listAfterID s.db f.id afterID ruleBatchCap)] } :=
            ⟨h.known, h.applied⟩
          refine ends_of_ok rfl (ends_bind (ends_attempt ?_))
          refine (ends_of_left (p := relabel (FolderStmt.apply page) _) (applying_apply hrecorded
            f.accountID f hmem ⟨fun i => φ (FolderStmt.apply page i), fun _ s => s⟩)).imp (fun c' t ht => ?_)
            fun t ht => ⟨fun e => ends_pure ht, ht⟩
          dsimp only
          split
          · exact ends_pure ht
          · exact ih _ _ _ ht
      · exact ⟨fun e => ends_pure h, h⟩

theorem keeps_refreshNewMail {ρ : Type} {I : State ρ → Prop} (f : Folder) (nm : NewMail) :
    Keeps I (refreshNewMail f nm : FolderProg κ ρ NewMail) := by
  unfold refreshNewMail
  refine keeps_bind (keeps_withDefault (keeps_query _ _ _) 0) fun unseenTotal => ?_
  split
  · exact keeps_pure _
  · exact keeps_bind (keeps_withDefault (keeps_query _ _ _) []) fun _ => keeps_pure _

theorem applying_inboxRules (f : Folder) (state : FolderState) (nm : NewMail)
    {φ : FolderStmt κ → Fault} (h : Applying unescape lib c path first before s) :
    Ends (.faulty φ) s (inboxRules (ruleRunner unescape renv actor) f state nm)
      (fun _ t => Applying unescape lib c path first before t)
      (Applying unescape lib c path first before) := by
  unfold inboxRules
  refine ends_bind (ends_of_ok rfl (ends_bind ((applying_runRules f _ _ _ _ h).imp (fun a t ht => ?_)
    fun _ ht => ht)))
  dsimp only
  split
  · refine Keeps.ends (I := Applying unescape lib c path first before) ?_ (fun _ _ h => h) ht
    refine keeps_bind (keeps_withDefault (keeps_query _ _ _) _) fun total => ?_
    refine keeps_bind (keeps_withDefault (keeps_query _ _ _) _) fun unread => ?_
    exact keeps_bind (keeps_refreshNewMail f nm) fun _ => keeps_pure _
  · exact ends_pure ht

/-- **Of the first new mails of a round the rules see the bodies**, as many as one round fetches:
the rules that apply to such a mail are those that apply to it with its body and attachments. -/
theorem rules_see_bodies {m : Manager κ RuleBook} {f : Folder} {now : Time}
    {φ : FolderStmt κ → Fault} {s₁ : State RuleBook} {state : FolderState} {nm : NewMail}
    (hrules : m.rules = some (ruleRunner unescape renv actor)) (htype : f.type = .inbox)
    (hc : FullSession.Answers c f.path) (hφ : ∀ i, FolderStmt.ofBodies i → φ i = .none)
    (hsync : incrementalSync m.digest m.syncDepth FolderStmt.sync c.toSession f.accountID f.id f.path
      f.uidValidity f.uidNext (.faulty φ) s = (.ok (state, nm), s₁)) :
    ∃ new, (m.syncFolder f c now (.faulty φ) s).2.rules.applied = s₁.rules.applied ++ new ∧
      ∀ a ∈ new, SeesBodies unescape lib c f.path (prefetched s₁.db f.id nm) a := by
  let J : State RuleBook → Prop := fun t => ∃ new, t.rules.applied = s₁.rules.applied ++ new ∧
    ∀ a ∈ new, SeesBodies unescape lib c f.path (prefetched s₁.db f.id nm) a
  -- what comes after the rules leaves alone what they were applied to
  have hrest : ∀ (st : FolderState) (nm' : NewMail) (t : State RuleBook), J t → Ends (.faulty φ) t
      (withDefault (updateDB .updateSyncState .db (Folder.Repository.updateSyncState f.id
        st.uidValidity st.uidNext st.total st.unread now)) () >>= fun _ => announceNew f nm' now)
      (fun _ => J) J := by
    intro st nm' t ht
    have hkeeps : Keeps J (withDefault (updateDB .updateSyncState .db (Folder.Repository.updateSyncState
        f.id st.uidValidity st.uidNext st.total st.unread now)) () : FolderProg κ RuleBook Unit) := by
      refine keeps_withDefault ?_ ()
      unfold updateDB
      exact keeps_update fun _ h => h
    refine ends_bind ((hkeeps.ends (fun _ _ h => h) ht).imp (fun _ u hu => ?_) fun _ hu => hu)
    exact ends_of_ok rfl hu
  suffices hends : Ends (.faulty φ) s (m.syncFolder f c now) (fun _ => J) J from hends.left
  unfold Manager.syncFolder Manager.fetchFolder
  refine ends_bind (ends_bind (ends_of_ok hsync ?_))
  by_cases hnothing : nm.baseline ∨ nm.count = 0
  · have hprefetch : prefetchNewBodies m.digest f nm c (.faulty φ) s₁ = (.ok (), s₁) := by
      unfold prefetchNewBodies
      rw [if_pos (hnothing.imp_right Or.inl)]
      rfl
    refine ends_bind (ends_of_ok hprefetch (ends_pure ?_))
    have happly : applyRules m.rules f state nm (.faulty φ) s₁ = (.ok (state, nm), s₁) := by
      unfold applyRules
      rw [hrules]
      dsimp only
      rw [if_pos hnothing]
      rfl
    refine ends_bind (ends_of_ok happly (hrest state nm s₁ ⟨[], ?_, fun _ h => absurd h List.not_mem_nil⟩))
    exact (List.append_nil _).symm
  · have hnew : ¬ (nm.baseline ∨ nm.count = 0 ∨ bodyPrefetchFolder f.type = false) := by
      rw [htype]
      rintro (hbase | hcount | hfolder)
      · exact hnothing (Or.inl hbase)
      · exact hnothing (Or.inr hcount)
      · cases hfolder
    obtain ⟨t, ht, htrules, hknown⟩ := prefetchNewBodies_known m.digest hc hφ hnew
    refine ends_bind (ends_of_ok ht (ends_pure ?_))
    have happlying : Applying unescape lib c f.path (prefetched s₁.db f.id nm) s₁.rules.applied t :=
      ⟨hknown, [], by rw [htrules, List.append_nil], fun _ h => absurd h List.not_mem_nil⟩
    have happly : applyRules m.rules f state nm
        = inboxRules (ruleRunner unescape renv actor) f state nm := by
      unfold applyRules
      rw [hrules]
      dsimp only
      rw [if_neg hnothing, if_pos htype]
    refine ends_bind ?_
    rw [happly]
    refine (applying_inboxRules f state nm happlying).imp (fun a u hu => ?_) fun u hu => hu.applied
    exact hrest a.1 a.2 u hu.applied

end Apply

/-! ### One mail more than a round fetches bodies of -/

private def blankMail (uid : Nat) : ParsedEmail where
  messageID := []
  uid := .numbered uid
  inReplyTo := []
  references := []
  subject := []
  sender := []
  toList := []
  ccList := []
  date := 0
  size := 0
  flags := []
  isRead := false
  isStarred := false

private def withX (uid : Nat) : FetchedEmail := ⟨blankMail uid, "x".toList, [], []⟩

/-- So many mails came in. -/
private def arrivals (n : Nat) : FullSession where
  listFolders := []
  selectFolder _ := ⟨n, 1, n + 1⟩
  statusUIDValidity _ := none
  statusUIDNext _ := none
  fetchByUIDRange _ _ _ := (List.range n).map fun i => blankMail (i + 1)
  fetchBySeqRange _ _ _ := []
  fetchByUIDs _ uids := uids.map withX

/-- A rule for mail with an "x" in its body. -/
private def bodyRule : Rules.Rule :=
  ⟨1, "rule".toList, true, 1, 0, Rules.matchAll,
    some [⟨Rules.fieldBody, Rules.opContains, "x".toList⟩], some [⟨Rules.actionMarkRead, []⟩], false⟩

private def calm : Rules.Env := Rules.calmEnv [] Rules.keyed_nil

private def emptyInbox : Folder := { Folder.bare 1 1 "INBOX".toList .inbox with uidNext := 1 }

private def ruled : Manager Unit RuleBook :=
  ⟨id, 1000, fun _ _ _ => .inbox, some (ruleRunner id (fun _ => calm) Actor.idle)⟩

private def atStart : State RuleBook :=
  ⟨⟨.empty, .single emptyInbox, .empty⟩, ⟨[], []⟩, [], [], [], ⟨⟨[bodyRule], [], .empty, 0⟩, []⟩⟩

theorem rules_see_bodies_two : ∃ state nm s₁,
    (incrementalSync ruled.digest ruled.syncDepth FolderStmt.sync (arrivals 2).toSession 1 1
        emptyInbox.path 1 1 : FolderProg Unit RuleBook _) .calm atStart = (.ok (state, nm), s₁) ∧
      (prefetched s₁.db 1 nm).length = 2 ∧
        ∃ new, (ruled.syncFolder emptyInbox (arrivals 2) 0 .calm atStart).2.rules.applied
            = s₁.rules.applied ++ new ∧
          ∀ a ∈ new, SeesBodies id calm.lib (arrivals 2) emptyInbox.path (prefetched s₁.db 1 nm) a := by
  have hanswers : FullSession.Answers (arrivals 2) emptyInbox.path := fun uids uid huid =>
    ⟨withX uid.val, List.mem_map_of_mem huid, dif_pos ⟨uid.pos, uid.lt⟩⟩
  exact ⟨_, _, _, rfl, rfl, rules_see_bodies rfl rfl hanswers (fun _ _ => rfl) rfl⟩

set_option maxRecDepth 100000 in
/-- **Of the fifty-first mail the rules do not see the body**: the rule would apply to it. -/
theorem last_body_unseen :
    ((ruled.syncFolder emptyInbox (arrivals 51) 0 .calm atStart).2.rules.applied.map fun a =>
      a.2.map fun mail => ((a.1.fired calm.lib mail).length,
        (Rules.fire calm.lib (a.1.done mail) (withBody id mail.row (withX mail.row.uid.val))
          a.1.compiled).length))
      = [List.replicate 50 (1, 1) ++ [(0, 1)]] := by
  decide +kernel

end Sync

end FlyMail
