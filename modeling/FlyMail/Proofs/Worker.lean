/-
No mail is lost by mail2im, as long as no message is passed over below one that came.

The last UID, in the rows and in all copies of them, lies below every unseen message without a row.
A round asks for everything above it, so it asks for all of these.  What the round collects raises the
last UID to its greatest, and the messages passed over must therefore lie above that.
-/
import FlyMail.Lib.Run
import FlyMail.Mail2im.Worker

namespace FlyMail.Mail2im

open Worker

variable {C : Classifier} {path : Text}

/-! ### One message -/

namespace Worker

variable {account : WatchedAccount} {mb : Mailbox}

/-- The message has its body, which can be parsed, and its row can be inserted. -/
def Delivery.whole (C : Classifier) : Delivery → Bool
  | .failed => false
  | .collected buf luck =>
      match buf.body with
      | none => false
      | some body => (C.parseBody body (ofEnvelope C buf.envelope)).isSome && luck.saved

def Delivery.uid? : Delivery → Option Nat
  | .failed => none
  | .collected buf _ => some buf.uid

def sameMessage (a b : Email) : Prop := a.accountID = b.accountID ∧ a.uid = b.uid ∧ a.mailboxPath = b.mailboxPath

theorem stored_iff {emails : List Email} {accountID uid : Nat} {path : Text} :
    stored emails accountID uid path = true ↔
      ∃ e ∈ emails, e.accountID = accountID ∧ e.uid = uid ∧ e.mailboxPath = path := by
  unfold stored
  rw [List.any_eq_true]
  simp only [Bool.and_eq_true, beq_iff_eq, and_assoc]

theorem stored_append {emails : List Email} {accountID uid : Nat} {path : Text} (more : List Email)
    (h : stored emails accountID uid path = true) : stored (emails ++ more) accountID uid path = true := by
  obtain ⟨e, he, hkey⟩ := stored_iff.mp h
  exact stored_iff.mpr ⟨e, List.mem_append_left _ he, hkey⟩

/-- What storing one message does: nothing, or a new row for it. -/
structure Kept (account : WatchedAccount) (mb : Mailbox) (buf : MessageBuffer) (st st' : Store) : Prop where
  marks : st'.mailboxLastUID = st.mailboxLastUID ∧ st'.accountLastUID = st.accountLastUID
  rows : st'.emails = st.emails ∨
    ∃ e, st'.emails = st.emails ++ [e] ∧ e.accountID = account.id ∧ e.uid = buf.uid ∧ e.mailboxPath = mb.path ∧
      ¬ (0 < buf.uid ∧ stored st.emails account.id buf.uid mb.path = true)

theorem processFetchedMessage_kept (C : Classifier) (account : WatchedAccount) (mb : Mailbox) (st : Store) (buf : MessageBuffer) (luck : Luck) :
    Kept account mb buf st (processFetchedMessage C account mb st buf luck).1 := by
  unfold processFetchedMessage
  cases buf.body with
  | none => exact ⟨⟨rfl, rfl⟩, Or.inl rfl⟩
  | some body =>
      simp only
      split
      · exact ⟨⟨rfl, rfl⟩, Or.inl rfl⟩
      · rename_i hnew
        cases C.parseBody body (ofEnvelope C buf.envelope) with
        | none => exact ⟨⟨rfl, rfl⟩, Or.inl rfl⟩
        | some parsed =>
            simp only
            split
            · exact ⟨⟨rfl, rfl⟩, Or.inr ⟨_, rfl, rfl, rfl, rfl, hnew⟩⟩
            · exact ⟨⟨rfl, rfl⟩, Or.inl rfl⟩

theorem stored_of_whole {st : Store} {buf : MessageBuffer} {luck : Luck}
    (h : (Delivery.collected buf luck).whole C = true) :
    stored (processFetchedMessage C account mb st buf luck).1.emails account.id buf.uid mb.path = true := by
  simp only [Delivery.whole] at h
  unfold processFetchedMessage
  cases hbody : buf.body with
  | none =>
      rw [hbody] at h
      exact absurd h Bool.false_ne_true
  | some body =>
      rw [hbody] at h
      simp only [Bool.and_eq_true] at h
      obtain ⟨hparse, hsaved⟩ := h
      obtain ⟨parsed, hparsed⟩ := Option.isSome_iff_exists.mp hparse
      simp only [hparsed, if_pos hsaved]
      split
      · rename_i hold
        exact hold.2
      · exact stored_iff.mpr ⟨_, List.mem_append_right _ (List.mem_singleton.mpr rfl), rfl, rfl, rfl⟩

/-! ### The stream -/

theorem deliver_marks (C : Classifier) (account : WatchedAccount) (mb : Mailbox) (b : Batch) (d : Delivery) :
    (deliver C account mb b d).store.mailboxLastUID = b.store.mailboxLastUID ∧
      (deliver C account mb b d).store.accountLastUID = b.store.accountLastUID := by
  cases d with
  | failed => exact ⟨rfl, rfl⟩
  | collected buf luck => exact (processFetchedMessage_kept C account mb b.store buf luck).marks

theorem deliver_rows (C : Classifier) (account : WatchedAccount) (mb : Mailbox) (b : Batch) (d : Delivery) :
    ∃ more, (deliver C account mb b d).store.emails = b.store.emails ++ more := by
  cases d with
  | failed => exact ⟨[], (List.append_nil _).symm⟩
  | collected buf luck =>
      rcases (processFetchedMessage_kept C account mb b.store buf luck).rows with
        hsame | ⟨e, he, -⟩
      · exact ⟨[], hsame.trans (List.append_nil _).symm⟩
      · exact ⟨[e], he⟩

theorem foldl_deliver_marks (C : Classifier) (account : WatchedAccount) (mb : Mailbox) (ds : List Delivery) : ∀ b : Batch,
    (ds.foldl (deliver C account mb) b).store.mailboxLastUID = b.store.mailboxLastUID ∧
      (ds.foldl (deliver C account mb) b).store.accountLastUID = b.store.accountLastUID := by
  induction ds with
  | nil => exact fun b => ⟨rfl, rfl⟩
  | cons d rest ih =>
      intro b
      obtain ⟨hmailbox, haccount⟩ := ih (deliver C account mb b d)
      obtain ⟨hmailbox', haccount'⟩ := deliver_marks C account mb b d
      exact ⟨hmailbox.trans hmailbox', haccount.trans haccount'⟩

theorem foldl_deliver_rows (C : Classifier) (account : WatchedAccount) (mb : Mailbox) (ds : List Delivery) : ∀ b : Batch,
    ∃ more, (ds.foldl (deliver C account mb) b).store.emails = b.store.emails ++ more := by
  induction ds with
  | nil => exact fun b => ⟨[], (List.append_nil _).symm⟩
  | cons d rest ih =>
      intro b
      obtain ⟨more, hmore⟩ := ih (deliver C account mb b d)
      obtain ⟨first, hfirst⟩ := deliver_rows C account mb b d
      exact ⟨first ++ more, by rw [List.foldl_cons, hmore, hfirst, List.append_assoc]⟩

/-- A message that comes whole has a row in the end. -/
theorem stored_of_mem {ds : List Delivery} {d : Delivery} {uid : Nat} (hd : d ∈ ds) (huid : d.uid? = some uid)
    (hwhole : d.whole C = true) (b : Batch) :
    stored (ds.foldl (deliver C account mb) b).store.emails account.id uid mb.path = true := by
  obtain ⟨before, after, rfl⟩ := List.append_of_mem hd
  rw [List.foldl_append, List.foldl_cons]
  obtain ⟨more, hmore⟩ := foldl_deliver_rows C account mb after
    (deliver C account mb (before.foldl (deliver C account mb) b) d)
  rw [hmore]
  refine stored_append more ?_
  cases d with
  | failed => exact absurd huid.symm (Option.some_ne_none uid)
  | collected buf luck =>
      obtain rfl := Option.some.inj huid
      exact stored_of_whole hwhole

/-- The greatest UID is that of a message that was collected. -/
theorem foldl_deliver_maxUID (C : Classifier) (account : WatchedAccount) (mb : Mailbox) (ds : List Delivery) : ∀ b : Batch,
    b.maxUID ≤ (ds.foldl (deliver C account mb) b).maxUID ∧
      ((ds.foldl (deliver C account mb) b).maxUID = b.maxUID ∨
        ∃ d ∈ ds, d.uid? = some (ds.foldl (deliver C account mb) b).maxUID) := by
  induction ds with
  | nil => exact fun b => ⟨Nat.le_refl _, Or.inl rfl⟩
  | cons d rest ih =>
      intro b
      obtain ⟨hle, hmax⟩ := ih (deliver C account mb b d)
      rw [List.foldl_cons]
      cases d with
      | failed =>
          refine ⟨hle, hmax.imp_right ?_⟩
          rintro ⟨d, hd, huid⟩
          exact ⟨d, List.mem_cons_of_mem _ hd, huid⟩
      | collected buf luck =>
          refine ⟨Nat.le_trans (Nat.le_max_left _ _) hle, ?_⟩
          rcases hmax with hmax | ⟨d, hd, huid⟩
          · rw [hmax]
            rcases Nat.le_total buf.uid b.maxUID with hsmall | hlarge
            · exact Or.inl (Nat.max_eq_left hsmall)
            · exact Or.inr ⟨_, List.mem_cons_self, congrArg some (Nat.max_eq_right hlarge).symm⟩
          · exact Or.inr ⟨d, List.mem_cons_of_mem _ hd, huid⟩

/-- No message gets a second row. -/
theorem foldl_deliver_once (ds : List Delivery) : ∀ b : Batch,
    (∀ d ∈ ds, ∀ uid, d.uid? = some uid → 0 < uid) →
    b.store.emails.Pairwise (fun x y => ¬ sameMessage x y) →
    (ds.foldl (deliver C account mb) b).store.emails.Pairwise (fun x y => ¬ sameMessage x y) := by
  induction ds with
  | nil => exact fun b _ h => h
  | cons d rest ih =>
      intro b hpos h
      refine ih _ (fun d' hd' => hpos d' (List.mem_cons_of_mem _ hd')) ?_
      cases d with
      | failed => exact h
      | collected buf luck =>
          have huid : 0 < buf.uid := hpos _ List.mem_cons_self _ rfl
          show (processFetchedMessage C account mb b.store buf luck).1.emails.Pairwise _
          rcases (processFetchedMessage_kept C account mb b.store buf luck).rows with
            hsame | ⟨e, he, hid, hbuf, hpath, hnew⟩
          · rw [hsame]
            exact h
          · rw [he]
            refine List.pairwise_append.mpr ⟨h, List.pairwise_singleton _ _, fun x hx y hy hkey => hnew ⟨huid, ?_⟩⟩
            rw [List.mem_singleton.mp hy] at hkey
            exact stored_iff.mpr ⟨x, hx, hkey.1.trans hid, hkey.2.1.trans hbuf, hkey.2.2.trans hpath⟩

end Worker

/-! ### What a run keeps -/

namespace World

/-- Unseen, and without a row. -/
def Missing (path : Text) (w : World) (m : Message) : Prop :=
  m ∈ w.server.messages ∧ m.seen = false ∧ stored w.store.emails w.account.id m.uid path = false

/-- A last UID that passes over no message. -/
structure Mark (path : Text) (w : World) (n : Nat) : Prop where
  next : n < w.server.uidNext
  below : ∀ m, w.Missing path m → n < m.uid

/-- The last UIDs, in the rows and in the copies. -/
def marks (w : World) : List Nat :=
  w.store.mailboxLastUID :: w.store.accountLastUID :: w.account.lastUID :: w.mailboxes.map Mailbox.lastUID

theorem mem_marks {w : World} {n : Nat} :
    n ∈ w.marks ↔ n = w.store.mailboxLastUID ∨ n = w.store.accountLastUID ∨ n = w.account.lastUID ∨
      ∃ mb ∈ w.mailboxes, mb.lastUID = n := by
  simp only [marks, List.mem_cons, List.mem_map]

structure Sound (path : Text) (w : World) : Prop where
  marks : ∀ n ∈ w.marks, w.Mark path n
  paths : ∀ mb ∈ w.mailboxes, mb.path = path
  once : w.store.emails.Pairwise fun a b => ¬ sameMessage a b

theorem mark_zero (path : Text) (w : World) : w.Mark path 0 :=
  ⟨w.server.bound.1, fun m hm => (w.server.uids m hm.1).1⟩

theorem sound_init (path : Text) (server : ServerMailbox) (accountID : Nat) (provider : Text) :
    Sound path (init server accountID provider) where
  marks n hn := by
    have hzero : n = 0 := by simpa [World.marks, init] using hn
    exact hzero ▸ mark_zero path _
  paths mb hmb := absurd hmb List.not_mem_nil
  once := List.Pairwise.nil

variable {w w' : World}

/-- What passes over no message goes on doing so when no message comes, or one with a UID that was never
given away. -/
theorem Mark.mono {n : Nat} (h : w.Mark path n) (hnext : w.server.uidNext ≤ w'.server.uidNext)
    (hmissing : ∀ m, w'.Missing path m → w.Missing path m ∨ w.server.uidNext ≤ m.uid) : w'.Mark path n := by
  refine ⟨Nat.lt_of_lt_of_le h.next hnext, fun m hm => ?_⟩
  rcases hmissing m hm with hold | hnew
  · exact h.below m hold
  · exact Nat.lt_of_lt_of_le h.next hnew

/-- The server's part of a step. -/
theorem Sound.ofServer (h : w.Sound path) {server : ServerMailbox} (hnext : w.server.uidNext ≤ server.uidNext)
    (hmessages : ∀ m ∈ server.messages, m.seen = false → m ∈ w.server.messages ∨ w.server.uidNext ≤ m.uid) :
    Sound path { w with server := server } where
  marks n hn := by
    refine (h.marks n hn).mono hnext ?_
    rintro m ⟨hm, hseen, hrow⟩
    rcases hmessages m hm hseen with hold | hnew
    · exact Or.inl ⟨hold, hseen, hrow⟩
    · exact Or.inr hnew
  paths := h.paths
  once := h.once

theorem Sound.mailbox (h : w.Sound path) : w.Mark path w.store.mailboxLastUID := h.marks _ (mem_marks.mpr (Or.inl rfl))

theorem Sound.account (h : w.Sound path) : w.Mark path w.store.accountLastUID :=
  h.marks _ (mem_marks.mpr (Or.inr (Or.inl rfl)))

theorem Sound.held (h : w.Sound path) : w.Mark path w.account.lastUID :=
  h.marks _ (mem_marks.mpr (Or.inr (Or.inr (Or.inl rfl))))

theorem Sound.copy (h : w.Sound path) {mb : Mailbox} (hmb : mb ∈ w.mailboxes) : w.Mark path mb.lastUID :=
  h.marks _ (mem_marks.mpr (Or.inr (Or.inr (Or.inr ⟨mb, hmb, rfl⟩))))

/-- Other copies, and another last UID in the place of one of these. -/
theorem Sound.ofMarks (h : w.Sound path) {store : Store} {account : WatchedAccount} {mailboxes : List Mailbox}
    (hemails : store.emails = w.store.emails) (hid : account.id = w.account.id)
    (hrow : w.Mark path store.mailboxLastUID) (haccount : w.Mark path store.accountLastUID)
    (hheld : w.Mark path account.lastUID)
    (hmailboxes : ∀ mb ∈ mailboxes, mb.path = path ∧ w.Mark path mb.lastUID) :
    Sound path ⟨w.server, store, account, mailboxes⟩ where
  marks n hn := by
    have hmark : w.Mark path n := by
      rcases mem_marks.mp hn with rfl | rfl | rfl | ⟨mb, hmb, rfl⟩
      · exact hrow
      · exact haccount
      · exact hheld
      · exact (hmailboxes mb hmb).2
    refine hmark.mono (Nat.le_refl _) fun m ⟨hm, hseen, hmissing⟩ => Or.inl ⟨hm, hseen, ?_⟩
    simp only [hemails, hid] at hmissing
    exact hmissing
  paths mb hmb := (hmailboxes mb hmb).1
  once := by
    show store.emails.Pairwise _
    rw [hemails]
    exact h.once

theorem Sound.copies (h : w.Sound path) {mb : Mailbox} (hmb : mb ∈ w.mailboxes) :
    mb.path = path ∧ w.Mark path mb.lastUID := ⟨h.paths mb hmb, h.copy hmb⟩

/-! ### A round -/

theorem startUID_le {account : WatchedAccount} {mb : Mailbox} {uid : Nat} (hmb : mb.lastUID < uid)
    (haccount : account.lastUID < uid) : startUID account mb ≤ uid := by
  have hsmall {n : Nat} (hn : n < uid) : (n + 1) % uidMod ≤ uid :=
    Nat.le_trans (Nat.mod_le _ _) hn
  have hstart : (if mb.lastUID = 0 ∧ isInbox mb ∧ 0 < account.lastUID then (account.lastUID + 1) % uidMod
      else (mb.lastUID + 1) % uidMod) ≤ uid := by
    split
    · exact hsmall haccount
    · exact hsmall hmb
  have hone {n : Nat} (hn : n ≤ uid) : (if n = 0 then 1 else n) ≤ uid := by
    split
    · exact Nat.lt_of_le_of_lt (Nat.zero_le _) hmb
    · exact hn
  exact hone hstart

/-- **The next round asks for every message that is missing.** -/
theorem Sound.asked (h : w.Sound path) {mb : Mailbox} (hmb : mb ∈ w.mailboxes) {m : Message}
    (hm : w.Missing path m) : m.uid ∈ w.server.searchUnseenSince (startUID w.account mb) := by
  have hstart : startUID w.account mb ≤ m.uid :=
    startUID_le ((h.copy hmb).below m hm) (h.held.below m hm)
  refine List.mem_map.mpr ⟨m, List.mem_filter.mpr ⟨hm.1, ?_⟩, rfl⟩
  rw [hm.2.1, decide_eq_true hstart]
  rfl

/-- A round collects no message from the stream unless everything it asked for that is not above that has a
row already or comes whole. -/
def Orderly (C : Classifier) (w : World) : Event → Prop
  | .round i r => ∀ mb, w.mailboxes[i]? = some mb → r.reaches mb = true →
      ∀ d ∈ r.stream, ∀ top, d.uid? = some top → ∀ uid ∈ w.server.searchUnseenSince (startUID w.account mb), uid ≤ top →
        stored w.store.emails w.account.id uid mb.path = true ∨
          ∃ d ∈ r.stream, d.uid? = some uid ∧ d.whole C = true
  | _ => True

/-- What a round that gets to the fetch leaves. -/
theorem fetch_of_reaches {account : WatchedAccount} {mb : Mailbox} {answer : Nat → List Nat} {r : Round} {st : Store}
    (hreaches : r.reaches mb = true) (hanswer : answer (startUID account mb) ≠ []) :
    fetchMailboxMessages C account mb answer r st =
      ((raise mb (r.stream.foldl (deliver C account mb) ⟨0, 0, st⟩).maxUID
          (r.stream.foldl (deliver C account mb) ⟨0, 0, st⟩).store).1,
        (raise mb (r.stream.foldl (deliver C account mb) ⟨0, 0, st⟩).maxUID
          (r.stream.foldl (deliver C account mb) ⟨0, 0, st⟩).store).2,
        (r.stream.foldl (deliver C account mb) ⟨0, 0, st⟩).newCount) := by
  unfold fetchMailboxMessages
  rw [if_pos]
  rw [hreaches, List.isEmpty_eq_false_iff.mpr hanswer]
  rfl

theorem fetch_of_not {account : WatchedAccount} {mb : Mailbox} {answer : Nat → List Nat} {r : Round} {st : Store}
    (h : ¬ (r.reaches mb = true ∧ answer (startUID account mb) ≠ [])) :
    fetchMailboxMessages C account mb answer r st = (st, mb, 0) := by
  unfold fetchMailboxMessages
  rw [if_neg]
  intro hboth
  rw [Bool.and_eq_true, Bool.not_eq_true', List.isEmpty_eq_false_iff] at hboth
  exact h hboth

theorem mem_of_search {s : ServerMailbox} {start uid : Nat} (h : uid ∈ s.searchUnseenSince start) :
    ∃ m ∈ s.messages, m.uid = uid := by
  obtain ⟨m, hm, rfl⟩ := List.mem_map.mp h
  exact ⟨m, (List.mem_filter.mp hm).1, rfl⟩

theorem mem_search_of_answers {uids : List Nat} {r : Round} (hvalid : r.stream.all (answers uids) = true)
    {d : Delivery} (hd : d ∈ r.stream) {uid : Nat} (huid : d.uid? = some uid) : uid ∈ uids := by
  have hd' := List.all_eq_true.mp hvalid d hd
  cases d with
  | failed => exact absurd huid.symm (Option.some_ne_none uid)
  | collected buf luck =>
      obtain rfl := Option.some.inj huid
      exact List.contains_iff_mem.mp hd'

section Fetch

variable {mb : Mailbox} {i : Nat} {r : Round} (h : w.Sound path) (hi : w.mailboxes[i]? = some mb)
  (hok : Orderly C w (.round i r)) (hreaches : r.reaches mb = true)
  (hvalid : r.stream.all (answers (w.server.searchUnseenSince (startUID w.account mb))) = true)

/-- The world after a round that got to the fetch. -/
def fetched (C : Classifier) (w : World) (i : Nat) (mb : Mailbox) (r : Round) : World :=
  let b := r.stream.foldl (deliver C w.account mb) ⟨0, 0, w.store⟩
  { w with
    store := (raise mb b.maxUID b.store).1
    mailboxes := w.mailboxes.set i (raise mb b.maxUID b.store).2 }

theorem emails_raise (mb : Mailbox) (maxUID : Nat) (st : Store) : (raise mb maxUID st).1.emails = st.emails := by
  unfold raise
  split
  · rfl
  · rfl

/-- Each last UID is the old one or the new one. -/
theorem raise_marks (mb : Mailbox) (maxUID : Nat) (st : Store) :
    ((raise mb maxUID st).1.mailboxLastUID = st.mailboxLastUID ∨ (raise mb maxUID st).1.mailboxLastUID = maxUID) ∧
      ((raise mb maxUID st).1.accountLastUID = st.accountLastUID ∨ (raise mb maxUID st).1.accountLastUID = maxUID) ∧
      ((raise mb maxUID st).2.lastUID = mb.lastUID ∨ (raise mb maxUID st).2.lastUID = maxUID) ∧
      (raise mb maxUID st).2.path = mb.path := by
  unfold raise
  split
  · refine ⟨Or.inr rfl, ?_, Or.inr rfl, rfl⟩
    simp only
    split
    · exact Or.inr rfl
    · exact Or.inl rfl
  · exact ⟨Or.inl rfl, Or.inl rfl, Or.inl rfl, rfl⟩

/-- What is missing afterwards was missing before. -/
theorem missing_of_fetched {m : Message} (hm : (fetched C w i mb r).Missing path m) : w.Missing path m := by
  obtain ⟨hmem, hseen, hrow⟩ := hm
  refine ⟨hmem, hseen, Bool.eq_false_iff.mpr fun hold => Bool.eq_false_iff.mp hrow ?_⟩
  obtain ⟨more, hmore⟩ := foldl_deliver_rows C w.account mb r.stream ⟨0, 0, w.store⟩
  unfold fetched
  simp only [emails_raise]
  rw [hmore]
  exact stored_append more hold

include h hi hok hreaches hvalid in
/-- The greatest UID that came passes over no message. -/
theorem mark_maxUID : (fetched C w i mb r).Mark path (r.stream.foldl (deliver C w.account mb) ⟨0, 0, w.store⟩).maxUID := by
  have hpath : mb.path = path := h.paths mb (List.mem_of_getElem? hi)
  obtain ⟨-, hmax⟩ := foldl_deliver_maxUID C w.account mb r.stream ⟨0, 0, w.store⟩
  rcases hmax with hzero | ⟨d, hd, huid⟩
  · rw [hzero]
    exact mark_zero path _
  · obtain ⟨m₀, hm₀, hm₀uid⟩ := mem_of_search (mem_search_of_answers hvalid hd huid)
    refine ⟨hm₀uid ▸ (w.server.uids m₀ hm₀).2, fun m hm => Nat.lt_of_not_le fun hle => ?_⟩
    have hold := missing_of_fetched hm
    rcases hok mb hi hreaches d hd _ huid m.uid (h.asked (List.mem_of_getElem? hi) hold) hle with
      hrow | ⟨d', hd', huid', hwhole⟩
    · exact Bool.eq_false_iff.mp hold.2.2 (hpath ▸ hrow)
    · refine Bool.eq_false_iff.mp hm.2.2 ?_
      unfold fetched
      simp only [emails_raise]
      rw [← hpath]
      exact stored_of_mem hd' huid' hwhole _

include h hi hok hreaches hvalid in
theorem Sound.fetched : Sound path (fetched C w i mb r) := by
  have hmax := mark_maxUID h hi hok hreaches hvalid
  have hkeep {n : Nat} (hn : w.Mark path n) : (World.fetched C w i mb r).Mark path n :=
    hn.mono (Nat.le_refl _) fun m hm => Or.inl (missing_of_fetched hm)
  obtain ⟨hmailbox, haccount⟩ := foldl_deliver_marks C w.account mb r.stream ⟨0, 0, w.store⟩
  obtain ⟨hrow, haccountRow, hcopy, hpath⟩ := raise_marks mb
    (r.stream.foldl (deliver C w.account mb) ⟨0, 0, w.store⟩).maxUID
    (r.stream.foldl (deliver C w.account mb) ⟨0, 0, w.store⟩).store
  have heither {n old : Nat} (hn : n = old ∨ n = (r.stream.foldl (deliver C w.account mb) ⟨0, 0, w.store⟩).maxUID)
      (hold : w.Mark path old) : (World.fetched C w i mb r).Mark path n := by
    rcases hn with rfl | rfl
    · exact hkeep hold
    · exact hmax
  refine ⟨fun n hn => ?_, fun mb' hmb' => ?_, ?_⟩
  · rcases mem_marks.mp hn with rfl | rfl | rfl | ⟨mb', hmb', rfl⟩
    · exact heither (hrow.imp_left (Eq.trans · hmailbox)) h.mailbox
    · exact heither (haccountRow.imp_left (Eq.trans · haccount)) h.account
    · exact hkeep h.held
    · rcases List.mem_or_eq_of_mem_set hmb' with hold | rfl
      · exact hkeep (h.copy hold)
      · exact heither hcopy (h.copy (List.mem_of_getElem? hi))
  · rcases List.mem_or_eq_of_mem_set hmb' with hold | rfl
    · exact h.paths mb' hold
    · exact hpath.trans (h.paths mb (List.mem_of_getElem? hi))
  · show (raise mb _ _).1.emails.Pairwise _
    rw [emails_raise]
    refine foldl_deliver_once r.stream _ (fun d hd uid huid => ?_) h.once
    obtain ⟨m, hm, rfl⟩ := mem_of_search (mem_search_of_answers hvalid hd huid)
    exact (w.server.uids m hm).1

end Fetch

theorem step_round {i : Nat} {r : Round} (h : w.step C path (.round i r) = some w') :
    ∃ mb, w.mailboxes[i]? = some mb ∧
      r.stream.all (answers (w.server.searchUnseenSince (startUID w.account mb))) = true ∧
      w' = { w with
        store := (fetchMailboxMessages C w.account mb w.server.searchUnseenSince r w.store).1
        mailboxes :=
          w.mailboxes.set i (fetchMailboxMessages C w.account mb w.server.searchUnseenSince r w.store).2.1 } := by
  simp only [World.step] at h
  split at h
  · exact absurd h.symm (Option.some_ne_none _)
  · rename_i mb hi
    split at h
    · rename_i hvalid
      exact ⟨mb, hi, hvalid, (Option.some.inj h).symm⟩
    · exact absurd h.symm (Option.some_ne_none _)

/-- What one step keeps. -/
theorem Sound.step {e : Event} (h : w.Sound path) (hok : Orderly C w e) (hstep : w.step C path e = some w') :
    w'.Sound path := by
  cases e with
  | arrive uid =>
      simp only [World.step] at hstep
      split at hstep
      · rename_i huid
        obtain rfl := Option.some.inj hstep
        refine h.ofServer (Nat.le_succ_of_le huid.1) fun m hm _ => ?_
        rcases List.mem_append.mp hm with hold | hnew
        · exact Or.inl hold
        · rw [List.mem_singleton.mp hnew]
          exact Or.inr huid.1
      · exact absurd hstep.symm (Option.some_ne_none _)
  | read uid =>
      obtain rfl := Option.some.inj hstep
      refine h.ofServer (Nat.le_refl _) fun m hm hseen => Or.inl ?_
      obtain ⟨m₀, hm₀, rfl⟩ := List.mem_map.mp hm
      split at hseen
      · exact absurd hseen.symm Bool.false_ne_true
      · rename_i hne
        rw [if_neg hne]
        exact hm₀
  | expunge uid =>
      obtain rfl := Option.some.inj hstep
      exact h.ofServer (Nat.le_refl _) fun m hm _ => Or.inl (List.mem_filter.mp hm).1
  | load row =>
      obtain rfl := Option.some.inj hstep
      refine h.ofMarks rfl rfl h.mailbox h.account h.held fun mb hmb => ?_
      rcases List.mem_append.mp hmb with hold | hnew
      · exact h.copies hold
      · rw [List.mem_singleton.mp hnew]
        exact ⟨rfl, h.mailbox⟩
  | copy i =>
      obtain ⟨mb, hmb, rfl⟩ := Option.map_eq_some_iff.mp hstep
      refine h.ofMarks rfl rfl h.mailbox h.account h.held fun mb' hmb' => ?_
      rcases List.mem_append.mp hmb' with hold | hnew
      · exact h.copies hold
      · rw [List.mem_singleton.mp hnew]
        exact h.copies (List.mem_of_getElem? hmb)
  | recreate =>
      obtain rfl := Option.some.inj hstep
      exact h.ofMarks rfl rfl (mark_zero path w) h.account h.held fun mb hmb => h.copies hmb
  | restart =>
      obtain rfl := Option.some.inj hstep
      exact h.ofMarks rfl rfl h.mailbox h.account h.account fun mb hmb => absurd hmb List.not_mem_nil
  | round i r =>
      obtain ⟨mb, hi, hvalid, rfl⟩ := step_round hstep
      by_cases hfetch : r.reaches mb = true ∧ w.server.searchUnseenSince (startUID w.account mb) ≠ []
      · rw [fetch_of_reaches hfetch.1 hfetch.2]
        exact h.fetched hi hok hfetch.1 hvalid
      · rw [fetch_of_not hfetch]
        refine h.ofMarks rfl rfl h.mailbox h.account h.held fun mb' hmb' => ?_
        rcases List.mem_or_eq_of_mem_set hmb' with hold | rfl
        · exact h.copies hold
        · exact h.copies (List.mem_of_getElem? hi)

/-! ### Every run -/

/-- **No mail is lost.**  The persisted last UIDs do not exceed a missing message's, every copy of the row leads
to a search that asks for it, and no message has two rows. -/
structure NoneLost (path : Text) (w : World) : Prop where
  mailbox : ∀ m, w.Missing path m → w.store.mailboxLastUID ≤ m.uid
  account : ∀ m, w.Missing path m → w.store.accountLastUID ≤ m.uid
  asked : ∀ m, w.Missing path m → ∀ mb ∈ w.mailboxes, m.uid ∈ w.server.searchUnseenSince (startUID w.account mb)
  once : w.store.emails.Pairwise fun a b => ¬ sameMessage a b

theorem Sound.noneLost (h : w.Sound path) : w.NoneLost path where
  mailbox m hm := Nat.le_of_lt (h.mailbox.below m hm)
  account m hm := Nat.le_of_lt (h.account.below m hm)
  asked _ hm _ hmb := h.asked hmb hm
  once := h.once

/-- A round that gets to the fetch stores what comes whole. -/
theorem stored_of_round {i : Nat} {r : Round} (hstep : w.step C path (.round i r) = some w') (hpaths : ∀ mb ∈ w.mailboxes, mb.path = path)
    (hreaches : ∀ mb, w.mailboxes[i]? = some mb → r.reaches mb = true) {d : Delivery} (hd : d ∈ r.stream) {uid : Nat}
    (huid : d.uid? = some uid) (hwhole : d.whole C = true) :
    stored w'.store.emails w'.account.id uid path = true := by
  obtain ⟨mb, hi, hvalid, rfl⟩ := step_round hstep
  have hanswer : w.server.searchUnseenSince (startUID w.account mb) ≠ [] :=
    List.ne_nil_of_mem (mem_search_of_answers hvalid hd huid)
  rw [fetch_of_reaches (hreaches mb hi) hanswer]
  simp only [emails_raise]
  rw [← hpaths mb (List.mem_of_getElem? hi)]
  exact stored_of_mem hd huid hwhole _

/-- In every run of orderly rounds no mail is lost, and a message that comes whole in a later round is stored. -/
theorem no_mail_lost {server : ServerMailbox} {accountID : Nat} {provider : Text}
    (h : Run (World.step C path) (Orderly C) (init server accountID provider) w) :
    w.NoneLost path ∧ ∀ i r w', w.step C path (.round i r) = some w' →
      (∀ mb, w.mailboxes[i]? = some mb → r.reaches mb = true) → ∀ d ∈ r.stream, ∀ uid, d.uid? = some uid →
        d.whole C = true → stored w'.store.emails w'.account.id uid path = true := by
  have hsound : w.Sound path :=
    h.invariant (fun w e w' hw hok hstep => hw.step hok hstep) (sound_init path server accountID provider)
  exact ⟨hsound.noneLost, fun i r w' hstep hreaches d hd uid huid hwhole =>
    stored_of_round hstep hsound.paths hreaches hd huid hwhole⟩

section Example

/-- Takes the body as it is. -/
private def asIs : Classifier where
  decodeMIMEHeader t := t
  parseBody body p := some { p with textBody := body }
  addresses := fun l => l.flatten
  classifyMailboxType := fun _ _ _ => []
  applyContentRules := fun _ _ _ _ => []
  priorityByType := fun _ => 10

private def inboxPath : Text := "INBOX".toList

private def inboxCopy (n : Nat) : Mailbox := ⟨1, inboxPath, inboxPath, [], ['p'], n⟩

private def noMessages : ServerMailbox := ⟨[], 1, fun _ h => absurd h List.not_mem_nil, by decide⟩

private def ofUID (uid : Nat) (body : Option Text) : Delivery := .collected ⟨uid, uid, none, 5, body⟩ ⟨['e'], 9, true⟩

private def roundOf (stream : List Delivery) : Round := ⟨true, true, true, stream⟩

/-- One new message, and the worker has a copy of the row. -/
private def withOne : World :=
  { init noMessages 7 [] with server := noMessages.arrive 1 (by decide), mailboxes := [inboxCopy 0] }

private theorem orderly_withOne : Orderly asIs withOne (.round 0 (roundOf [ofUID 1 (some ['x'])])) := by
  intro mb _ _ d _ top _ uid huid _
  refine Or.inr ⟨_, List.mem_singleton.mpr rfl, ?_, by decide⟩
  obtain ⟨m, hm, rfl⟩ := mem_of_search huid
  exact congrArg some (congrArg Message.uid (List.mem_singleton.mp hm)).symm

theorem no_mail_lost_one :
    ∃ w : World, stored w.store.emails 7 1 inboxPath = true ∧ w.store.mailboxLastUID = 1 ∧ w.NoneLost inboxPath := by
  have hstart : Run (World.step asIs inboxPath) (Orderly asIs) (init noMessages 7 []) withOne :=
    .tail (.tail .refl (a := .load (inboxCopy 0)) trivial rfl) (a := .arrive 1) trivial rfl
  exact ⟨_, by decide, by decide, (no_mail_lost (hstart.tail orderly_withOne rfl)).1⟩

/-- The first of two messages comes without a body; the second raises the last UID above it. -/
theorem mail_lost :
    ∃ w, exec (World.step asIs inboxPath) (fun _ _ => true) (init noMessages 7 [])
        [.load (inboxCopy 0), .arrive 1, .arrive 2, .round 0 (roundOf [ofUID 1 none, ofUID 2 (some ['x'])])] = some w ∧
      ¬ w.NoneLost inboxPath := by
  refine ⟨_, rfl, fun h => absurd (h.mailbox ⟨1, false⟩ ⟨by decide, rfl, by decide⟩) (by decide)⟩

end Example

end World

end FlyMail.Mail2im
