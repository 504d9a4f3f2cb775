/-
Threads as mail comes in.

Mails are linked when they share a Message-ID or one answers the other, and a
conversation is a component of that graph.  What is shown is that `assignThreads` keeps
the threads and the components the same, in whatever order the mails come in and however
they are cut into batches.

One row is one new vertex.  The threads found for it are exactly those of its
neighbours; they become one thread, and the row gets it (`spec_assignThread`).  Where
none is found the row opens a thread of its own, whose name no other row has: a name is
made from the Message-ID or from the place of the row that opened it.  The rest is
`IsLabelling.add`.
-/
import FlyMail.Lib.Components
import FlyMail.Message.Service

namespace FlyMail.Message

open Proc

/-! ### Mails that belong together -/

/-- `a` answers `b`. -/
def Answers (a b : Message) : Prop := a.inReplyTo ≠ [] ∧ a.inReplyTo = b.messageID

/-- The two are copies of one mail, or one answers the other. -/
def Related (a b : Message) : Prop :=
  (a.messageID ≠ [] ∧ a.messageID = b.messageID) ∨ Answers a b ∨ Answers b a

theorem Related.symm {a b : Message} (h : Related a b) : Related b a := by
  rcases h with ⟨hne, heq⟩ | h | h
  · exact Or.inl ⟨heq ▸ hne, heq.symm⟩
  · exact Or.inr (Or.inr h)
  · exact Or.inr (Or.inl h)

/-- The thread of the row that is kept where `x` is kept. -/
def threadOf (db : DB) (x : Message) : Text :=
  match db.messages.rows.find? fun r => r.key == x.key with
  | some r => r.threadID
  | none => []

theorem threadOf_of_mem {db : DB} {r x : Message} (hr : r ∈ db.messages.rows)
    (hk : r.key = x.key) : threadOf db x = r.threadID := by
  unfold threadOf
  cases h : db.messages.rows.find? fun r => r.key == x.key with
  | none => exact absurd hk (by simpa using List.find?_eq_none.mp h r hr)
  | some a =>
      have hak : a.key = x.key := by simpa using List.find?_some h
      have har : a = r :=
        db.messages.eq_of_uk (List.mem_of_find?_eq_some h) hr (hak.trans hk.symm)
      rw [har]

theorem exists_row_of_threadOf {db : DB} {x : Message} (h : threadOf db x ≠ []) :
    ∃ r ∈ db.messages.rows, r.key = x.key ∧ r.threadID = threadOf db x := by
  unfold threadOf at h ⊢
  cases hf : db.messages.rows.find? fun r => r.key == x.key with
  | none =>
      rw [hf] at h
      exact absurd rfl h
  | some a => exact ⟨a, List.mem_of_find?_eq_some hf, by simpa using List.find?_some hf, rfl⟩

/-- The row is the stored form of the mail `x`. -/
structure Stores (r x : Message) : Prop where
  key : r.key = x.key
  account : r.accountID = x.accountID
  messageID : r.messageID = x.messageID
  inReplyTo : r.inReplyTo = x.inReplyTo
  references : r.references = x.references
  subject : r.subject = x.subject

/-! ### The names of threads -/

private theorem append_cons_inj {c : Char} :
    ∀ {xs ys as bs : Text}, c ∉ xs → c ∉ ys → xs ++ c :: as = ys ++ c :: bs → xs = ys ∧ as = bs := by
  intro xs
  induction xs with
  | nil =>
      intro ys as bs _ hys h
      cases ys with
      | nil => exact ⟨rfl, by simpa using h⟩
      | cons y ys =>
          simp only [List.nil_append, List.cons_append, List.cons.injEq] at h
          exact absurd (by simp [h.1]) hys
  | cons x xs ih =>
      intro ys as bs hxs hys h
      cases ys with
      | nil =>
          simp only [List.nil_append, List.cons_append, List.cons.injEq] at h
          exact absurd (by simp [h.1]) hxs
      | cons y ys =>
          simp only [List.cons_append, List.cons.injEq] at h
          obtain ⟨hxy, htail⟩ := ih (fun hm => hxs (List.mem_cons_of_mem _ hm))
            (fun hm => hys (List.mem_cons_of_mem _ hm)) h.2
          exact ⟨by rw [h.1, hxy], htail⟩

theorem place_inj {a b : Message} (h : place a = place b) : a.key = b.key := by
  have hdash : ∀ n, '-' ∉ Text.formatUint n :=
    fun n hm => absurd (Text.isDigit_of_mem_formatUint hm) (by decide)
  obtain ⟨hf, hu⟩ := append_cons_inj (hdash _) (hdash _) (List.cons.inj h).2
  have huid : a.uid = b.uid := by
    have := Text.formatUint_inj hu
    cases ha : a.uid
    cases hb : b.uid
    rw [ha, hb] at this
    simpa using this
  exact Prod.ext (Text.formatUint_inj hf) huid

theorem threadKey_ne_nil (digest : Text → Text) (m : Message) : threadKey digest m ≠ [] := by
  unfold threadKey
  simp

/-- What is asked of the digest: it is injective where it is used, and a hexadecimal
number. -/
structure DigestOK (digest : Text → Text) (mails : List Message) : Prop where
  inj : ∀ x ∈ mails, ∀ y ∈ mails, x.messageID ≠ [] → y.messageID ≠ [] →
    digest x.messageID = digest y.messageID → x.messageID = y.messageID
  hex : ∀ t, ∀ c ∈ digest t, c ∈ "0123456789abcdef".toList

/-- Two mails that open a thread of one name are copies or the same row. -/
theorem threadKey_inj {digest : Text → Text} {mails : List Message}
    (hd : DigestOK digest mails) {x y : Message} (hx : x ∈ mails) (hy : y ∈ mails)
    (hacc : x.accountID = y.accountID) (h : threadKey digest x = threadKey digest y) :
    (x.messageID ≠ [] ∧ x.messageID = y.messageID) ∨ x.key = y.key := by
  have hu : ∀ t rest, digest t ≠ 'u' :: rest := by
    intro t rest he
    have := hd.hex t 'u' (by rw [he]; simp)
    simp at this
  unfold threadKey at h
  rw [hacc] at h
  have hkey := (List.cons.inj (List.append_cancel_left h)).2
  by_cases hxm : x.messageID = []
  · rw [if_neg (not_not.mpr hxm)] at hkey
    by_cases hym : y.messageID = []
    · rw [if_neg (not_not.mpr hym)] at hkey
      exact Or.inr (place_inj hkey)
    · rw [if_pos hym] at hkey
      exact absurd hkey.symm (hu _ _)
  · rw [if_pos hxm] at hkey
    by_cases hym : y.messageID = []
    · rw [if_neg (not_not.mpr hym)] at hkey
      exact absurd hkey (hu _ _)
    · rw [if_pos hym] at hkey
      exact Or.inl ⟨hxm, hd.inj x hx y hy hxm hym hkey⟩

/-! ### One row -/

theorem mem_linkedIDs {m : Message} {id : Text} (hrefs : m.references = []) :
    id ∈ linkedIDs m ↔ id ≠ [] ∧ (id = m.inReplyTo ∨ id = m.messageID) := by
  unfold linkedIDs
  rw [List.mem_eraseDups, List.mem_filter, hrefs, Text.fields_nil]
  simp [and_comm]

/-- The threads found for a row. -/
def foundThreads (db : DB) (m : Message) : List Text :=
  (if linkedIDs m = [] then [] else
    Repository.threadsOf db m fun r => (linkedIDs m).contains r.messageID) ++
  if m.messageID = [] then [] else Repository.threadsOf db m fun r => r.inReplyTo == m.messageID

theorem mem_threadsOf {db : DB} {m : Message} {p : Message → Bool} {t : Text} :
    t ∈ Repository.threadsOf db m p ↔
      ∃ r ∈ db.messages.rows, r.accountID = m.accountID ∧ p r = true ∧ r.threadID ≠ [] ∧
        r.id ≠ m.id ∧ r.threadID = t := by
  unfold Repository.threadsOf
  rw [List.mem_dedup]
  simp [and_assoc]

/-- **What is found are the threads of the related rows.** -/
theorem mem_foundThreads {db : DB} {m : Message} (hrefs : m.references = []) {t : Text} :
    t ∈ foundThreads db m ↔
      ∃ r ∈ db.messages.rows, r.accountID = m.accountID ∧ Related m r ∧ r.threadID ≠ [] ∧
        r.id ≠ m.id ∧ r.threadID = t := by
  have hforward : t ∈ (if linkedIDs m = [] then [] else
      Repository.threadsOf db m fun r => (linkedIDs m).contains r.messageID) ↔
      ∃ r ∈ db.messages.rows, r.accountID = m.accountID ∧ r.messageID ∈ linkedIDs m ∧
        r.threadID ≠ [] ∧ r.id ≠ m.id ∧ r.threadID = t := by
    by_cases h : linkedIDs m = []
    · simp [h]
    · rw [if_neg h, mem_threadsOf]
      simp only [List.contains_iff_mem]
  have hbackward : t ∈ (if m.messageID = [] then [] else
      Repository.threadsOf db m fun r => r.inReplyTo == m.messageID) ↔
      ∃ r ∈ db.messages.rows, r.accountID = m.accountID ∧ Answers r m ∧
        r.threadID ≠ [] ∧ r.id ≠ m.id ∧ r.threadID = t := by
    by_cases h : m.messageID = []
    · rw [if_pos h]
      refine ⟨fun hm => absurd hm List.not_mem_nil, ?_⟩
      rintro ⟨r, -, -, ⟨hne, heq⟩, -⟩
      exact absurd (heq.trans h) hne
    · rw [if_neg h, mem_threadsOf]
      refine exists_congr fun r => and_congr_right fun _ => and_congr_right fun _ =>
        and_congr_left fun _ => ?_
      rw [beq_iff_eq]
      exact ⟨fun heq => ⟨fun hnil => h (heq ▸ hnil), heq⟩, fun ha => ha.2⟩
  unfold foundThreads
  rw [List.mem_append, hforward, hbackward]
  refine ⟨fun hm => ?_, fun hm => ?_⟩
  · rcases hm with ⟨r, hr, hacc, hid, hrest⟩ | ⟨r, hr, hacc, hans, hrest⟩
    · obtain ⟨hne, heq⟩ := (mem_linkedIDs hrefs).mp hid
      refine ⟨r, hr, hacc, ?_, hrest⟩
      rcases heq with heq | heq
      · exact Or.inr (Or.inl ⟨heq ▸ hne, heq.symm⟩)
      · exact Or.inl ⟨heq ▸ hne, heq.symm⟩
    · exact ⟨r, hr, hacc, Or.inr (Or.inr hans), hrest⟩
  · obtain ⟨r, hr, hacc, hrel, hrest⟩ := hm
    rcases hrel with ⟨hne, heq⟩ | ⟨hne, heq⟩ | hans
    · exact Or.inl ⟨r, hr, hacc, (mem_linkedIDs hrefs).mpr ⟨heq ▸ hne, Or.inr heq.symm⟩, hrest⟩
    · exact Or.inl ⟨r, hr, hacc, (mem_linkedIDs hrefs).mpr ⟨heq ▸ hne, Or.inl heq.symm⟩, hrest⟩
    · exact Or.inr ⟨r, hr, hacc, hans, hrest⟩

/-- What processing `m` does to a row. -/
def retag (m : Message) (found : List Text) (t : Text) (r : Message) : Message :=
  if r.id = m.id ∨ (r.accountID = m.accountID ∧ r.threadID ∈ found) then { r with threadID := t }
  else r

theorem earliestThread_mem {db : DB} {accountID : Nat} {found : List Text}
    (h : Repository.earliestThread db accountID found ≠ []) :
    Repository.earliestThread db accountID found ∈ found := by
  unfold Repository.earliestThread at h ⊢
  cases hrows : byDate (db.messages.rows.filter fun r =>
      r.accountID == accountID && found.contains r.threadID) with
  | nil =>
      rw [hrows] at h
      exact absurd rfl h
  | cons r rest =>
      have hr : r ∈ byDate (db.messages.rows.filter fun r =>
          r.accountID == accountID && found.contains r.threadID) := by
        rw [hrows]
        exact List.mem_cons_self
      rw [byDate, (List.perm_insertionSort _ _).mem_iff, List.mem_filter] at hr
      simp only [Bool.and_eq_true, List.contains_iff_mem] at hr
      exact hr.2.2

section Row

variable {ι : Type} (digest : Text → Text) (at_ : ThreadStmt → ι) {m : Message} {db : DB}

/-- The thread chosen is one of those found or, where there is none, the row's own. -/
private theorem spec_chooseThread (db : DB) (hnew : m.threadID = []) (found : List Text) :
    ∃ t, chooseThread digest at_ m found .calm db = (.ok t, db) ∧
      ((found = [] ∧ t = threadKey digest m) ∨ t ∈ found) := by
  match found with
  | [] => exact ⟨threadKey digest m, by simp [chooseThread, hnew], Or.inl ⟨rfl, rfl⟩⟩
  | [t] => exact ⟨t, rfl, Or.inr (by simp)⟩
  | t :: u :: rest =>
      have hrun : chooseThread digest at_ m (t :: u :: rest) .calm db
          = (.ok (if Repository.earliestThread db m.accountID (t :: u :: rest) = [] then t
            else Repository.earliestThread db m.accountID (t :: u :: rest)), db) :=
        bind_ok (queryDB_calm _ _ _ _)
      by_cases he : Repository.earliestThread db m.accountID (t :: u :: rest) = []
      · rw [if_pos he] at hrun
        exact ⟨t, hrun, Or.inr (by simp)⟩
      · rw [if_neg he] at hrun
        exact ⟨_, hrun, Or.inr (earliestThread_mem he)⟩

private theorem spec_joinThreads {merge : List Text} {t : Text} (hne : m.threadID ≠ t) :
    joinThreads at_ m merge t .calm db = (.ok (), Repository.setThread m.id t
      (if merge = [] then db else Repository.mergeThreads m.accountID merge t db)) := by
  have hset : ∀ d : DB, (if m.threadID = t then pure () else
      updateDB (at_ (.setOwn m.id)) .db (Repository.setThread m.id t) : Proc ι Err DB Unit) .calm d
      = (.ok (), Repository.setThread m.id t d) := by
    intro d
    rw [if_neg hne]
    rfl
  by_cases hnil : merge = []
  · rw [if_pos hnil]
    unfold joinThreads
    rw [if_pos hnil]
    exact hset db
  · rw [if_neg hnil]
    unfold joinThreads
    rw [if_neg hnil]
    exact (bind_ok (updateDB_calm _ _ _ _)).trans (hset _)

/-- The rows after the two updates. -/
private theorem rows_joined {found : List Text} {t : Text} :
    (Repository.setThread m.id t (if (found.filter fun u => u != t) = [] then db else
      Repository.mergeThreads m.accountID (found.filter fun u => u != t) t db)).messages.rows
      = db.messages.rows.map (retag m found t) := by
  have hcontains : ∀ r : Message, (found.filter fun u => u != t).contains r.threadID = true ↔
      r.threadID ∈ found ∧ r.threadID ≠ t := by
    intro r
    rw [List.contains_iff_mem]
    simp
  have hkeep : ∀ r : Message, r.threadID = t → { r with threadID := t } = r := by
    rintro r rfl
    rfl
  by_cases hnil : (found.filter fun u => u != t) = []
  · rw [if_pos hnil]
    rw [Repository.setThread_rows]
    refine List.map_congr_left fun r _ => ?_
    have hall : r.threadID ∈ found → r.threadID = t := by
      intro hr
      rw [List.filter_eq_nil_iff] at hnil
      simpa using hnil _ hr
    unfold retag
    by_cases hid : r.id = m.id
    · rw [if_pos (by simpa using hid), if_pos (Or.inl hid)]
    · rw [if_neg (by simpa using hid)]
      split
      · rename_i hc
        exact (hkeep r (hall (hc.resolve_left hid).2)).symm
      · rfl
  · rw [if_neg hnil]
    rw [Repository.setThread_rows, Repository.mergeThreads_rows, List.map_map]
    refine List.map_congr_left fun r _ => ?_
    unfold retag
    simp only [Function.comp_apply, Bool.and_eq_true, beq_iff_eq, hcontains]
    have hkey : ∀ (c : Prop) [Decidable c],
        (if c then { r with threadID := t } else r).id = r.id := by
      intro c _
      split <;> rfl
    by_cases hid : r.id = m.id
    · rw [if_pos (Or.inl hid), if_pos (by rw [hkey]; exact hid)]
      split <;> rfl
    · rw [if_neg (by rw [hkey]; exact hid)]
      by_cases hc : r.accountID = m.accountID ∧ r.threadID ∈ found
      · rw [if_pos (Or.inr hc)]
        by_cases heq : r.threadID = t
        · rw [if_neg (fun h => h.2.2 heq), hkeep r heq]
        · rw [if_pos ⟨hc.1, hc.2, heq⟩]
      · rw [if_neg (fun h => hc ⟨h.1, h.2.1⟩), if_neg (fun h => h.elim hid hc)]

/-- **What processing a new row does.** -/
theorem spec_assignThread (hnew : m.threadID = []) (hfound : [] ∉ foundThreads db m) :
    ∃ t db', assignThread digest at_ m .calm db = (.ok (), db') ∧
      ((foundThreads db m = [] ∧ t = threadKey digest m) ∨ t ∈ foundThreads db m) ∧
      db'.messages.rows = db.messages.rows.map (retag m (foundThreads db m) t) := by
  obtain ⟨t, hrun, ht⟩ := spec_chooseThread digest at_ db hnew (foundThreads db m)
  have htne : t ≠ [] := by
    rcases ht with ⟨-, rfl⟩ | hmem
    · exact threadKey_ne_nil digest m
    · exact fun h => hfound (h ▸ hmem)
  have hmerge : toMerge m (foundThreads db m) t = (foundThreads db m).filter fun u => u != t := by
    simp [toMerge, hnew]
  have hforward : forwardThreads at_ m .calm db
      = (.ok (if linkedIDs m = [] then [] else Repository.threadsOf db m fun r =>
        (linkedIDs m).contains r.messageID), db) := by
    unfold forwardThreads
    split <;> rfl
  have hbackward : backwardThreads at_ m .calm db
      = (.ok (if m.messageID = [] then [] else Repository.threadsOf db m fun r =>
        r.inReplyTo == m.messageID), db) := by
    unfold backwardThreads
    split <;> rfl
  have hall : assignThread digest at_ m .calm db
      = joinThreads at_ m (toMerge m (foundThreads db m) t) t .calm db :=
    (bind_ok hforward).trans ((bind_ok hbackward).trans (bind_ok hrun))
  rw [hmerge, spec_joinThreads at_ (by rw [hnew]; exact htne.symm)] at hall
  exact ⟨t, _, hall, ht, rows_joined⟩

end Row

/-! ### What stays right while rows are processed -/

/-- The mails of one account: what is asked of them. -/
structure Mails (accountID : Nat) (mails : List Message) : Prop where
  account : ∀ x ∈ mails, x.accountID = accountID
  references : ∀ x ∈ mails, x.references = []
  /-- No two are kept in one place. -/
  keys : (mails.map Message.key).Nodup

theorem Mails.eq_of_key {accountID : Nat} {mails : List Message} (h : Mails accountID mails)
    {x y : Message} (hx : x ∈ mails) (hy : y ∈ mails) (hk : x.key = y.key) : x = y :=
  List.inj_on_of_nodup_map h.keys hx hy hk

/-- The account's rows are stored mails, and the rows that have a thread have that of
their component. -/
structure Threaded (digest : Text → Text) (accountID : Nat) (mails : List Message) (db : DB) :
    Prop where
  stored : ∀ r ∈ db.messages.rows, r.accountID = accountID → ∃ x ∈ mails, Stores r x
  /-- No row of another account is in the way. -/
  own : ∀ r ∈ db.messages.rows, ∀ x ∈ mails, r.key = x.key → r.accountID = accountID
  labels : IsLabelling Related (fun x => x ∈ mails ∧ threadOf db x ≠ []) (threadOf db)
  /-- A thread is named after one of its mails. -/
  named : ∀ x ∈ mails, threadOf db x ≠ [] →
    ∃ y ∈ mails, threadOf db y ≠ [] ∧ threadOf db x = threadKey digest y

section Retag

variable {m r x : Message} {found : List Text} {t : Text}

@[simp] theorem retag_key : (retag m found t r).key = r.key := by
  unfold retag
  split <;> rfl

@[simp] theorem retag_id : (retag m found t r).id = r.id := by
  unfold retag
  split <;> rfl

theorem stores_retag (h : Stores r x) : Stores (retag m found t r) x := by
  unfold retag
  split
  · exact ⟨h.key, h.account, h.messageID, h.inReplyTo, h.references, h.subject⟩
  · exact h

theorem retag_accountID : (retag m found t r).accountID = r.accountID := by
  unfold retag
  split <;> rfl

theorem retag_self : (retag m found t m).threadID = t := by
  unfold retag
  rw [if_pos (Or.inl rfl)]

theorem retag_of_notMem (hid : r.id ≠ m.id) (h : r.threadID ∉ found) : retag m found t r = r := by
  unfold retag
  rw [if_neg (fun hc => hc.elim hid fun hc => h hc.2)]

theorem retag_of_mem (hacc : r.accountID = m.accountID) (h : r.threadID ∈ found) :
    (retag m found t r).threadID = t := by
  unfold retag
  rw [if_pos (Or.inr ⟨hacc, h⟩)]

end Retag

section Step

variable {digest : Text → Text} {accountID : Nat} {mails : List Message} {db : DB}

theorem Threaded.stores (h : Threaded digest accountID mails db) (hm : Mails accountID mails)
    {r x : Message} (hr : r ∈ db.messages.rows) (hx : x ∈ mails) (hk : r.key = x.key) :
    Stores r x := by
  obtain ⟨y, hy, hs⟩ := h.stored r hr (h.own r hr x hx hk)
  rwa [← hm.eq_of_key hy hx (hs.key.symm.trans hk)]

theorem Stores.related {a b x y : Message} (ha : Stores a x) (hb : Stores b y) :
    Related a b ↔ Related x y := by
  unfold Related Answers
  rw [ha.messageID, ha.inReplyTo, hb.messageID, hb.inReplyTo]

theorem Stores.place {a x : Message} (h : Stores a x) : a.place = x.place := by
  unfold Message.place
  rw [show a.folderID = x.folderID from congrArg Prod.fst h.key,
    show a.uid = x.uid from congrArg Prod.snd h.key]

theorem Stores.threadKey {a x : Message} (h : Stores a x) :
    threadKey digest a = threadKey digest x := by
  unfold Message.threadKey
  rw [h.messageID, h.account, h.place]

/-- The threads found for a row are the labels of its neighbours. -/
theorem Threaded.mem_foundThreads (h : Threaded digest accountID mails db)
    (hm : Mails accountID mails) {m v : Message} (hmem : m ∈ db.messages.rows) (hv : v ∈ mails)
    (hs : Stores m v) (hnew : m.threadID = []) (t : Text) :
    t ∈ foundThreads db m ↔
      ∃ x, (x ∈ mails ∧ threadOf db x ≠ []) ∧ Related v x ∧ threadOf db x = t := by
  rw [Message.mem_foundThreads (hs.references.trans (hm.references v hv))]
  have hacc : m.accountID = accountID := hs.account.trans (hm.account v hv)
  refine ⟨?_, ?_⟩
  · rintro ⟨r, hr, hra, hrel, hne, -, rfl⟩
    obtain ⟨x, hx, hrx⟩ := h.stored r hr (hra.trans hacc)
    have hlab : threadOf db x = r.threadID := threadOf_of_mem hr hrx.key
    exact ⟨x, ⟨hx, hlab ▸ hne⟩, (hs.related hrx).mp hrel, hlab⟩
  · rintro ⟨x, ⟨hx, hne⟩, hrel, rfl⟩
    obtain ⟨r, hr, hk, hlab⟩ := exists_row_of_threadOf hne
    have hrx := h.stores hm hr hx hk
    refine ⟨r, hr, ?_, (hs.related hrx).mpr hrel, hlab ▸ hne, ?_, hlab⟩
    · rw [hrx.account, hm.account x hx, hacc]
    · intro hid
      have hrm : r = m := db.messages.eq_of_pk hr hmem hid
      rw [hrm, hnew] at hlab
      exact hne hlab.symm

/-- **Processing a row keeps threads and components the same.** -/
theorem Threaded.assignThread {ι : Type} (at_ : ThreadStmt → ι)
    (h : Threaded digest accountID mails db) (hm : Mails accountID mails)
    (hd : DigestOK digest mails) {m v : Message} (hmem : m ∈ db.messages.rows) (hv : v ∈ mails)
    (hs : Stores m v) (hnew : m.threadID = []) :
    ∃ db', assignThread digest at_ m .calm db = (.ok (), db') ∧
      Threaded digest accountID mails db' ∧
      (∀ x ∈ mails, threadOf db' x ≠ [] ↔ threadOf db x ≠ [] ∨ x = v) ∧
      (∀ r ∈ db.messages.rows, r.threadID = [] → r ≠ m → r ∈ db'.messages.rows) ∧
      db'.messages.rows.map Message.key = db.messages.rows.map Message.key := by
  have hF := h.mem_foundThreads hm hmem hv hs hnew
  have hnil : [] ∉ foundThreads db m := by
    rw [hF]
    rintro ⟨x, ⟨-, hne⟩, -, heq⟩
    exact hne heq
  have hacc : m.accountID = accountID := hs.account.trans (hm.account v hv)
  have hlabv : threadOf db v = [] := by rw [threadOf_of_mem hmem hs.key, hnew]
  obtain ⟨t, db', hrun, ht, hrows⟩ := spec_assignThread digest at_ hnew hnil
  have htne : t ≠ [] := by
    rcases ht with ⟨-, rfl⟩ | hin
    · exact threadKey_ne_nil digest m
    · exact fun he => hnil (he ▸ hin)
  -- the thread of a mail afterwards, by what its row was before
  have hafter : ∀ r ∈ db.messages.rows, ∀ x, r.key = x.key →
      threadOf db' x = (retag m (foundThreads db m) t r).threadID := by
    intro r hr x hk
    refine threadOf_of_mem ?_ (retag_key.trans hk)
    rw [hrows]
    exact List.mem_map_of_mem hr
  have hlabv' : threadOf db' v = t := by rw [hafter m hmem v hs.key, retag_self]
  have hrow : ∀ x ∈ mails, threadOf db x ≠ [] → ∃ r ∈ db.messages.rows, Stores r x ∧
      r.threadID = threadOf db x ∧ r.id ≠ m.id := by
    intro x hx hne
    obtain ⟨r, hr, hk, hlab⟩ := exists_row_of_threadOf hne
    refine ⟨r, hr, h.stores hm hr hx hk, hlab, fun hid => hne ?_⟩
    rw [← hlab, db.messages.eq_of_pk hr hmem hid, hnew]
  have hin : ∀ x, x ∈ mails ∧ threadOf db x ≠ [] → threadOf db x ∈ foundThreads db m →
      threadOf db' x = t := by
    rintro x ⟨hx, hne⟩ hfx
    obtain ⟨r, hr, hrx, hlab, -⟩ := hrow x hx hne
    rw [hafter r hr x hrx.key]
    exact retag_of_mem (by rw [hrx.account, hm.account x hx, hacc]) (hlab ▸ hfx)
  have hout : ∀ x, x ∈ mails ∧ threadOf db x ≠ [] → threadOf db x ∉ foundThreads db m →
      threadOf db' x = threadOf db x := by
    rintro x ⟨hx, hne⟩ hfx
    obtain ⟨r, hr, hrx, hlab, hid⟩ := hrow x hx hne
    rw [hafter r hr x hrx.key, retag_of_notMem hid (hlab ▸ hfx), hlab]
  -- a row without a thread keeps having none
  have hnone : ∀ x ∈ mails, threadOf db x = [] → x ≠ v → threadOf db' x = [] := by
    intro x hx hlab hxv
    by_contra hne
    obtain ⟨r', hr', hk, hlab'⟩ := exists_row_of_threadOf hne
    rw [hrows] at hr'
    obtain ⟨r, hr, rfl⟩ := List.mem_map.mp hr'
    rw [retag_key] at hk
    have hrt : r.threadID = [] := by rw [← threadOf_of_mem hr hk, hlab]
    have hid : r.id ≠ m.id := by
      intro hid
      rw [db.messages.eq_of_pk hr hmem hid] at hk
      exact hxv (hm.eq_of_key hx hv (hk.symm.trans hs.key))
    rw [retag_of_notMem hid (by rw [hrt]; exact hnil)] at hlab'
    exact hne (hlab' ▸ hrt)
  have hset : ∀ x ∈ mails, threadOf db' x ≠ [] ↔ threadOf db x ≠ [] ∨ x = v := by
    intro x hx
    refine ⟨fun hne => ?_, ?_⟩
    · by_cases hxv : x = v
      · exact Or.inr hxv
      · exact Or.inl fun hlab => hne (hnone x hx hlab hxv)
    · rintro (hne | rfl)
      · by_cases hfx : threadOf db x ∈ foundThreads db m
        · rw [hin x ⟨hx, hne⟩ hfx]
          exact htne
        · rw [hout x ⟨hx, hne⟩ hfx]
          exact hne
      · rw [hlabv']
        exact htne
  -- a thread that is opened has a name no other row's thread has
  have hfresh : t ∈ foundThreads db m ∨ (∀ k, k ∉ foundThreads db m) ∧
      ∀ a, a ∈ mails ∧ threadOf db a ≠ [] → threadOf db a ≠ t := by
    rcases ht with ⟨hempty, rfl⟩ | hmem
    · have hnone' : ∀ k, k ∉ foundThreads db m := by
        intro k
        rw [hempty]
        exact List.not_mem_nil
      refine Or.inr ⟨hnone', ?_⟩
      rintro a ⟨ha, hne⟩ heq
      obtain ⟨y, hy, hyne, hname⟩ := h.named a ha hne
      rw [heq, hs.threadKey] at hname
      rcases threadKey_inj hd hv hy ((hm.account v hv).trans (hm.account y hy).symm) hname with
        hcopy | hkey
      · exact hnone' _ ((hF _).mpr ⟨y, ⟨hy, hyne⟩, Or.inl hcopy, rfl⟩)
      · rw [← hm.eq_of_key hv hy hkey] at hyne
        exact hyne hlabv
    · exact Or.inl hmem
  refine ⟨db', hrun, ⟨?_, ?_, ?_, ?_⟩, hset, ?_, ?_⟩
  · intro r' hr' hra
    rw [hrows] at hr'
    obtain ⟨r, hr, rfl⟩ := List.mem_map.mp hr'
    rw [retag_accountID] at hra
    obtain ⟨x, hx, hrx⟩ := h.stored r hr hra
    exact ⟨x, hx, stores_retag hrx⟩
  · intro r' hr' x hx hk
    rw [hrows] at hr'
    obtain ⟨r, hr, rfl⟩ := List.mem_map.mp hr'
    rw [retag_accountID]
    exact h.own r hr x hx (retag_key.symm.trans hk)
  · refine (h.labels.add (fun _ _ hr => hr.symm) hF hfresh hlabv' hin hout).congr ?_ fun _ _ => rfl
    intro x
    refine ⟨?_, ?_⟩
    · rintro (⟨hx, hne⟩ | rfl)
      · exact ⟨hx, (hset x hx).mpr (Or.inl hne)⟩
      · exact ⟨hv, (hset x hv).mpr (Or.inr rfl)⟩
    · rintro ⟨hx, hne⟩
      rcases (hset x hx).mp hne with hold | rfl
      · exact Or.inl ⟨hx, hold⟩
      · exact Or.inr rfl
  · -- the chosen thread has a name, so every thread there is has one
    have hname : ∃ y ∈ mails, threadOf db' y ≠ [] ∧ t = threadKey digest y := by
      rcases ht with ⟨-, rfl⟩ | hmem
      · exact ⟨v, hv, (hset v hv).mpr (Or.inr rfl), hs.threadKey⟩
      · obtain ⟨x, ⟨hx, hne⟩, -, rfl⟩ := (hF t).mp hmem
        obtain ⟨y, hy, hyne, heq⟩ := h.named x hx hne
        exact ⟨y, hy, (hset y hy).mpr (Or.inl hyne), heq⟩
    intro x hx hne
    rcases (hset x hx).mp hne with hold | rfl
    · by_cases hfx : threadOf db x ∈ foundThreads db m
      · rw [hin x ⟨hx, hold⟩ hfx]
        exact hname
      · obtain ⟨y, hy, hyne, heq⟩ := h.named x hx hold
        rw [hout x ⟨hx, hold⟩ hfx]
        exact ⟨y, hy, (hset y hy).mpr (Or.inl hyne), heq⟩
    · rw [hlabv']
      exact hname
  · intro r hr hrt hrm
    have hid : r.id ≠ m.id := fun hid => hrm (db.messages.eq_of_pk hr hmem hid)
    rw [hrows, ← retag_of_notMem (t := t) hid (by rw [hrt]; exact hnil)]
    exact List.mem_map_of_mem hr
  · rw [hrows, List.map_map]
    exact List.map_congr_left fun _ _ => retag_key

/-- **Processing rows, one after another.** -/
theorem Threaded.assignThreads {ι : Type} (at_ : ThreadStmt → ι) (hm : Mails accountID mails)
    (hd : DigestOK digest mails) (rows : List Message) :
    ∀ {db : DB}, Threaded digest accountID mails db → rows.Nodup →
      (∀ m ∈ rows, m ∈ db.messages.rows ∧ m.threadID = [] ∧ ∃ v ∈ mails, Stores m v) →
      ∃ db', assignThreads digest at_ rows .calm db = (.ok (), db') ∧
        Threaded digest accountID mails db' ∧
        (∀ x ∈ mails, threadOf db' x ≠ [] ↔
          threadOf db x ≠ [] ∨ ∃ m ∈ rows, m.key = x.key) ∧
        db'.messages.rows.map Message.key = db.messages.rows.map Message.key := by
  induction rows with
  | nil =>
      intro db h _ _
      exact ⟨db, rfl, h, by simp, rfl⟩
  | cons m rest ih =>
      intro db h hnodup hrows
      rw [List.nodup_cons] at hnodup
      obtain ⟨hmem, hnew, v, hv, hs⟩ := hrows m List.mem_cons_self
      obtain ⟨db₁, hrun₁, h₁, hset₁, hkeep₁, hkeys₁⟩ :=
        h.assignThread at_ hm hd hmem hv hs hnew
      have hrest : ∀ r ∈ rest, r ∈ db₁.messages.rows ∧ r.threadID = [] ∧
          ∃ v ∈ mails, Stores r v := by
        intro r hr
        obtain ⟨hrmem, hrnew, hrv⟩ := hrows r (List.mem_cons_of_mem _ hr)
        exact ⟨hkeep₁ r hrmem hrnew fun he => hnodup.1 (he ▸ hr), hrnew, hrv⟩
      obtain ⟨db₂, hrun₂, h₂, hset₂, hkeys₂⟩ := ih h₁ hnodup.2 hrest
      refine ⟨db₂, (bind_ok hrun₁).trans hrun₂, h₂, ?_, hkeys₂.trans hkeys₁⟩
      intro x hx
      have hxv : x = v ↔ m.key = x.key :=
        ⟨fun he => he ▸ hs.key, fun hk => hm.eq_of_key hx hv (hk.symm.trans hs.key)⟩
      rw [hset₂ x hx, hset₁ x hx, hxv]
      simp only [List.mem_cons, exists_eq_or_imp, or_assoc]

end Step

/-! ### A batch -/

section Batch

variable {digest : Text → Text} {accountID : Nat} {mails : List Message} {ι : Type}
  (at_ : BatchStmt → ι)

/-- Storing mails that are not there yet appends their rows. -/
private theorem spec_upserts (accountID folderID : Nat) (emails : List ParsedEmail) :
    ∀ (n : Nat) {db : DB}, (emails.map fun e => (folderID, e.uid)).Nodup →
      (∀ e ∈ emails, ∀ r ∈ db.messages.rows, r.key ≠ (folderID, e.uid)) →
      ∃ db', upsertAll at_ accountID folderID n emails .calm db = (.ok (), db') ∧
        (∀ r ∈ db.messages.rows, r ∈ db'.messages.rows) ∧
        (∀ r ∈ db'.messages.rows, r ∈ db.messages.rows ∨
          ∃ e ∈ emails, ∃ n, r = Repository.asRow (toMessage accountID folderID e) n) ∧
        (∀ e ∈ emails, ∃ r ∈ db'.messages.rows, r.key = (folderID, e.uid)) := by
  induction emails with
  | nil =>
      intro n db _ _
      exact ⟨db, rfl, fun _ h => h, fun _ h => Or.inl h, by simp⟩
  | cons e rest ih =>
      intro n db hnodup hnew
      rw [List.map_cons, List.nodup_cons] at hnodup
      let db₁ := Repository.upsert (toMessage accountID folderID e) db
      have hrows : db₁.messages.rows = db.messages.rows ++
          [Repository.asRow (toMessage accountID folderID e) (db.messages.last + 1)] :=
        Repository.upsert_rows_of_new fun r hr => hnew e List.mem_cons_self r hr
      have hnew₁ : ∀ e' ∈ rest, ∀ r ∈ db₁.messages.rows, r.key ≠ (folderID, e'.uid) := by
        intro e' he' r hr
        rw [hrows, List.mem_append, List.mem_singleton] at hr
        rcases hr with hr | rfl
        · exact hnew e' (List.mem_cons_of_mem _ he') r hr
        · intro hk
          refine hnodup.1 ?_
          rw [show (folderID, e.uid) = (folderID, e'.uid) from hk]
          exact List.mem_map_of_mem he'
      obtain ⟨db₂, hrun, hold, hall, hkeys⟩ := ih (n + 1) hnodup.2 hnew₁
      refine ⟨db₂, (bind_ok (updateDB_calm _ _ _ _)).trans hrun, ?_, ?_, ?_⟩
      · intro r hr
        refine hold r ?_
        rw [hrows]
        exact List.mem_append_left _ hr
      · intro r hr
        rcases hall r hr with hr | ⟨e', he', n, rfl⟩
        · rw [hrows, List.mem_append, List.mem_singleton] at hr
          rcases hr with hr | rfl
          · exact Or.inl hr
          · exact Or.inr ⟨e, List.mem_cons_self, _, rfl⟩
        · exact Or.inr ⟨e', List.mem_cons_of_mem _ he', n, rfl⟩
      · intro e' he'
        rcases List.mem_cons.mp he' with rfl | he'
        · refine ⟨_, hold _ (hrows ▸ List.mem_append_right _ (List.mem_singleton.mpr rfl)), rfl⟩
        · exact hkeys e' he'

private theorem spec_loadChunks {db : DB} {folderID : Nat} (chunks : List (List UID)) :
    ∀ i, loadChunks at_ folderID i chunks .calm db
      = (.ok (chunks.flatMap (Repository.getUIDChunk db folderID)), db) := by
  induction chunks with
  | nil => intro i; rfl
  | cons c rest ih =>
      intro i
      exact (bind_ok (queryDB_calm _ _ _ _)).trans ((bind_ok (ih (i + 1))).trans rfl)

/-- The rows loaded are the folder's rows with these UIDs, each once. -/
private theorem spec_loadByFolderUIDs (db : DB) (folderID : Nat) {uids : List UID}
    (hnodup : uids.Nodup) :
    ∃ rows, loadByFolderUIDs at_ folderID uids .calm db = (.ok rows, db) ∧ rows.Nodup ∧
      ∀ m, m ∈ rows ↔ m ∈ db.messages.rows ∧ m.folderID = folderID ∧ m.uid ∈ uids := by
  have hchunk : 0 < Repository.uidChunk := by decide
  have hmem : ∀ c m, m ∈ Repository.getUIDChunk db folderID c ↔
      m ∈ db.messages.rows ∧ m.folderID = folderID ∧ m.uid ∈ c := by
    intro c m
    unfold Repository.getUIDChunk
    simp [List.mem_filter]
  refine ⟨_, spec_loadChunks at_ _ 0, ?_, ?_⟩
  · rw [List.nodup_flatMap]
    refine ⟨fun c _ => ?_, ?_⟩
    · have hrows : db.messages.rows.Nodup := by
        refine db.messages.sorted.imp fun {a b} hlt heq => ?_
        rw [heq] at hlt
        omega
      exact hrows.filter _
    · refine (disjoint_chunksOf hchunk hnodup).imp fun {a b} hdisj m hma hmb => ?_
      exact hdisj ((hmem a m).mp hma).2.2 ((hmem b m).mp hmb).2.2
  · intro m
    rw [List.mem_flatMap]
    simp only [hmem]
    refine ⟨?_, ?_⟩
    · rintro ⟨c, hc, hr, hf, hu⟩
      exact ⟨hr, hf, (exists_mem_chunksOf hchunk).mp ⟨c, hc, hu⟩⟩
    · rintro ⟨hr, hf, hu⟩
      obtain ⟨c, hc, huc⟩ := (exists_mem_chunksOf hchunk).mpr hu
      exact ⟨c, hc, hr, hf, huc⟩

/-- Where the rows of an earlier state are still there and no other row has a thread,
threads are as they were. -/
private theorem threadOf_eq_of_rows {db db' : DB}
    (hold : ∀ r ∈ db.messages.rows, r ∈ db'.messages.rows)
    (hnew : ∀ r ∈ db'.messages.rows, r ∈ db.messages.rows ∨ r.threadID = []) (x : Message) :
    threadOf db' x = threadOf db x := by
  by_cases h : threadOf db x = []
  · by_contra hne
    obtain ⟨r, hr, hk, hlab⟩ := exists_row_of_threadOf (h ▸ hne)
    rcases hnew r hr with hr | hnil
    · exact hne ((hlab.symm.trans (threadOf_of_mem hr hk).symm))
    · exact hne (hlab.symm.trans (hnil.trans h.symm))
  · obtain ⟨r, hr, hk, hlab⟩ := exists_row_of_threadOf h
    rw [threadOf_of_mem (hold r hr) hk, hlab]

/-- **A batch of new mails.** -/
theorem Threaded.upsertBatch (hm : Mails accountID mails) (hd : DigestOK digest mails) {db : DB}
    (h : Threaded digest accountID mails db) {folderID : Nat} {emails : List ParsedEmail}
    (hin : ∀ e ∈ emails, toMessage accountID folderID e ∈ mails)
    (hnodup : (emails.map fun e => (folderID, e.uid)).Nodup)
    (hnew : ∀ e ∈ emails, ∀ r ∈ db.messages.rows, r.key ≠ (folderID, e.uid)) :
    ∃ db', upsertBatch digest at_ accountID folderID emails .calm db = (.ok (), db') ∧
      Threaded digest accountID mails db' ∧
      (∀ x ∈ mails, threadOf db' x ≠ [] ↔
        threadOf db x ≠ [] ∨ x ∈ emails.map (toMessage accountID folderID)) ∧
      (∀ r ∈ db'.messages.rows, (∃ r₀ ∈ db.messages.rows, r₀.key = r.key) ∨
        ∃ e ∈ emails, r.key = (folderID, e.uid)) := by
  by_cases hnil : emails = []
  · subst hnil
    exact ⟨db, rfl, h, by simp, fun r hr => Or.inl ⟨r, hr, rfl⟩⟩
  · obtain ⟨db₁, hrun₁, hold, hall, hkeys⟩ :=
      spec_upserts at_ accountID folderID emails 0 hnodup hnew
    have hthread : ∀ x, threadOf db₁ x = threadOf db x := by
      refine threadOf_eq_of_rows hold fun r hr => ?_
      rcases hall r hr with hr | ⟨e, -, n, rfl⟩
      · exact Or.inl hr
      · exact Or.inr rfl
    have h₁ : Threaded digest accountID mails db₁ := by
      refine ⟨?_, ?_, ?_, ?_⟩
      · intro r hr hra
        rcases hall r hr with hr | ⟨e, he, n, rfl⟩
        · exact h.stored r hr hra
        · exact ⟨toMessage accountID folderID e, hin e he, rfl, rfl, rfl, rfl, rfl, rfl⟩
      · intro r hr x hx hk
        rcases hall r hr with hr | ⟨e, he, n, rfl⟩
        · exact h.own r hr x hx hk
        · rfl
      · exact h.labels.congr (fun x => by rw [hthread]) fun x _ => hthread x
      · intro x hx hne
        rw [hthread] at hne ⊢
        obtain ⟨y, hy, hyne, heq⟩ := h.named x hx hne
        exact ⟨y, hy, by rwa [hthread], heq⟩
    have huids : (emails.map ParsedEmail.uid).Nodup := by
      refine List.Nodup.of_map (Prod.mk folderID) ?_
      rw [List.map_map]
      exact hnodup
    obtain ⟨rows, hload, hrnodup, hrmem⟩ :=
      spec_loadByFolderUIDs at_ db₁ folderID huids
    -- the rows that are loaded are the new ones
    have hfresh : ∀ m ∈ rows, ∃ e ∈ emails, m.key = (folderID, e.uid) ∧ m ∈ db₁.messages.rows ∧
        m.threadID = [] := by
      intro m hmr
      obtain ⟨hmem, hf, hu⟩ := (hrmem m).mp hmr
      obtain ⟨e, he, heu⟩ := List.mem_map.mp hu
      have hk : m.key = (folderID, e.uid) := Prod.ext hf heu.symm
      refine ⟨e, he, hk, hmem, ?_⟩
      rcases hall m hmem with hr | ⟨e', -, n, rfl⟩
      · exact absurd hk (hnew e he m hr)
      · rfl
    have hrows : ∀ m ∈ rows, m ∈ db₁.messages.rows ∧ m.threadID = [] ∧
        ∃ v ∈ mails, Stores m v := by
      intro m hmr
      obtain ⟨e, he, hk, hmem, hnil⟩ := hfresh m hmr
      exact ⟨hmem, hnil, _, hin e he, h₁.stores hm hmem (hin e he) hk⟩
    obtain ⟨db₂, hrun₂, h₂, hset, hkeys₂⟩ :=
      Threaded.assignThreads (fun s => at_ (.thread s)) hm hd rows h₁ hrnodup hrows
    refine ⟨db₂, ?_, h₂, ?_, ?_⟩
    · unfold Message.upsertBatch
      rw [if_neg hnil]
      exact (bind_ok hrun₁).trans ((bind_ok hload).trans hrun₂)
    · intro x hx
      rw [hset x hx, hthread]
      refine or_congr_right ⟨?_, ?_⟩
      · rintro ⟨m, hmr, hk⟩
        obtain ⟨e, he, hke, -, -⟩ := hfresh m hmr
        rw [hm.eq_of_key hx (hin e he) (hk.symm.trans hke)]
        exact List.mem_map_of_mem he
      · intro hxm
        obtain ⟨e, he, rfl⟩ := List.mem_map.mp hxm
        obtain ⟨r, hr, hk⟩ := hkeys e he
        refine ⟨r, (hrmem r).mpr ⟨hr, congrArg Prod.fst hk, ?_⟩, hk⟩
        rw [show r.uid = e.uid from congrArg Prod.snd hk]
        exact List.mem_map_of_mem he
    · intro r hr
      have hrk : r.key ∈ db₁.messages.rows.map Message.key := by
        rw [← hkeys₂]
        exact List.mem_map_of_mem hr
      obtain ⟨r₁, hr₁, hk⟩ := List.mem_map.mp hrk
      rcases hall r₁ hr₁ with hr₀ | ⟨e, he, n, rfl⟩
      · exact Or.inl ⟨r₁, hr₀, hk⟩
      · exact Or.inr ⟨e, he, hk.symm⟩

end Batch

/-! ### All batches -/

/-- The batches of one account, each of one folder. -/
abbrev Batches := List (Nat × List ParsedEmail)

/-- The mails of the batches. -/
def arrivals (accountID : Nat) (bs : Batches) : List Message :=
  bs.flatMap fun b => b.2.map (toMessage accountID b.1)

/-- Store one batch after another. -/
def storeBatches (digest : Text → Text) (accountID : Nat) (bs : Batches) :
    Proc BatchStmt Err DB Unit :=
  each (fun b => upsertBatch digest (fun s => s) accountID b.1 b.2) bs

section Arrive

variable {digest : Text → Text} {accountID : Nat} {mails : List Message}

private theorem Threaded.storeBatches (hm : Mails accountID mails) (hd : DigestOK digest mails)
    (bs : Batches) :
    ∀ {db : DB}, Threaded digest accountID mails db →
      (∀ x ∈ arrivals accountID bs, x ∈ mails) →
      ((arrivals accountID bs).map Message.key).Nodup →
      (∀ x ∈ arrivals accountID bs, ∀ r ∈ db.messages.rows, r.key ≠ x.key) →
      ∃ db', storeBatches digest accountID bs .calm db = (.ok (), db') ∧
        Threaded digest accountID mails db' ∧
        ∀ x ∈ mails, threadOf db' x ≠ [] ↔ threadOf db x ≠ [] ∨ x ∈ arrivals accountID bs := by
  induction bs with
  | nil =>
      intro db h _ _ _
      exact ⟨db, rfl, h, by simp [arrivals]⟩
  | cons b rest ih =>
      intro db h hin hnodup hnew
      have hsplit : arrivals accountID (b :: rest)
          = b.2.map (toMessage accountID b.1) ++ arrivals accountID rest := rfl
      rw [hsplit] at hin hnodup hnew
      rw [List.map_append, List.nodup_append, List.map_map] at hnodup
      obtain ⟨hnodup₁, hnodup₂, hdisj⟩ := hnodup
      obtain ⟨db₁, hrun₁, h₁, hset₁, hkeys₁⟩ := h.upsertBatch (fun s => s) hm hd
        (fun e he => hin _ (List.mem_append_left _ (List.mem_map_of_mem he))) hnodup₁
        (fun e he => hnew _ (List.mem_append_left _ (List.mem_map_of_mem he)))
      have hnew₁ : ∀ x ∈ arrivals accountID rest, ∀ r ∈ db₁.messages.rows, r.key ≠ x.key := by
        intro x hx r hr hk
        rcases hkeys₁ r hr with ⟨r₀, hr₀, hk₀⟩ | ⟨e, he, hke⟩
        · exact hnew x (List.mem_append_right _ hx) r₀ hr₀ (hk₀.trans hk)
        · exact hdisj _ (List.mem_map_of_mem he) _ (List.mem_map_of_mem hx)
            (hke.symm.trans hk)
      obtain ⟨db₂, hrun₂, h₂, hset₂⟩ :=
        ih h₁ (fun x hx => hin x (List.mem_append_right _ hx)) hnodup₂ hnew₁
      refine ⟨db₂, (bind_ok hrun₁).trans hrun₂, h₂, ?_⟩
      intro x hx
      rw [hset₂ x hx, hset₁ x hx, hsplit, List.mem_append, or_assoc]

/-- **However mail comes in, threads are components.** -/
theorem threaded_of_arrivals {db : DB} {bs : Batches} (hm : Mails accountID (arrivals accountID bs))
    (hd : DigestOK digest (arrivals accountID bs))
    (hother : ∀ r ∈ db.messages.rows, r.accountID ≠ accountID)
    (hfree : ∀ x ∈ arrivals accountID bs, ∀ r ∈ db.messages.rows, r.key ≠ x.key) :
    ∃ db', storeBatches digest accountID bs .calm db = (.ok (), db') ∧
      Threaded digest accountID (arrivals accountID bs) db' ∧
      ∀ x ∈ arrivals accountID bs, threadOf db' x ≠ [] := by
  have hnone : ∀ x ∈ arrivals accountID bs, threadOf db x = [] := by
    intro x hx
    by_contra hne
    obtain ⟨r, hr, hk, -⟩ := exists_row_of_threadOf hne
    exact hfree x hx r hr hk
  have h : Threaded digest accountID (arrivals accountID bs) db := by
    refine ⟨?_, ?_, ?_, ?_⟩
    · intro r hr hra
      exact absurd hra (hother r hr)
    · intro r hr x hx hk
      exact absurd hk (hfree x hx r hr)
    · exact isLabelling_of_empty fun x hx => hx.2 (hnone x hx.1)
    · intro x hx hne
      exact absurd (hnone x hx) hne
  obtain ⟨db', hrun, h', hset⟩ := Threaded.storeBatches hm hd bs h (fun _ hx => hx) hm.keys hfree
  exact ⟨db', hrun, h', fun x hx => (hset x hx).mpr (Or.inr hx)⟩

/-- The threads of the account tell its conversations apart. -/
theorem Threaded.threadOf_eq_iff {db : DB} (h : Threaded digest accountID mails db)
    (hall : ∀ x ∈ mails, threadOf db x ≠ []) {x y : Message} (hx : x ∈ mails) (hy : y ∈ mails) :
    threadOf db x = threadOf db y ↔ Joined Related (fun z => z ∈ mails) x y := by
  have hS : ∀ z, (z ∈ mails ∧ threadOf db z ≠ []) ↔ z ∈ mails :=
    fun z => ⟨fun hz => hz.1, fun hz => ⟨hz, hall z hz⟩⟩
  exact h.labels.congr hS (fun _ _ => rfl) x y hx hy

end Arrive

end FlyMail.Message
