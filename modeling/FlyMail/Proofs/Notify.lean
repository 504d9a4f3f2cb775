/-
When every mail is announced once.

Rounds claim the right to notify by a key that names a round, not a mail.  What is let
through are the rounds that repeat no earlier one's key (`announce_eq`), and each of them
announces all it brought.  So a mail is announced once just when exactly one of these
rounds has it, and one copy of it (`announced_once_iff`).

A mail that comes alone into one folder and with another into a second one is announced
twice, and two rounds whose mails without a Message-ID are different ones are taken for
the same (`copies_apart`).
-/
import FlyMail.Sync.Notify

namespace FlyMail.Sync.Notify

open Message (NewMail newMailUnseenCap)

/-! ### The claim -/

/-- What the store of keys knows, where `window` are the times that count: the keys of the
earlier rounds, and beside them only what is too old. -/
structure Remembers (window : Time → Prop) (seen : Seen) (earlier : List Report) : Prop where
  aged : ∀ e ∈ seen, window e.2 ∨ ∀ now, window now → notifyDedupTTL < now - e.2
  known : ∀ k, (∃ e ∈ seen, window e.2 ∧ e.1 = k) ↔ ∃ r ∈ earlier, r.key = some k

/-- All times in it are close enough to one another. -/
def Close (window : Time → Prop) : Prop :=
  ∀ a b, window a → window b → a - b ≤ notifyDedupTTL

variable {window : Time → Prop} {seen : Seen} {earlier : List Report}

theorem Remembers.any_iff (h : Remembers window seen earlier) (hclose : Close window) {now : Time}
    (hnow : window now) {k : Text} :
    ((seen.filter fun e => !decide (now - e.2 > notifyDedupTTL)).any
        fun e => e.1 == k && decide (now - e.2 ≤ notifyDedupTTL)) = true ↔
      ∃ r ∈ earlier, r.key = some k := by
  rw [← h.known k, List.any_eq_true]
  constructor
  · rintro ⟨e, he, hk⟩
    simp only [Bool.and_eq_true, beq_iff_eq, decide_eq_true_eq] at hk
    have hmem := (List.mem_filter.mp he).1
    refine ⟨e, hmem, (h.aged e hmem).resolve_right fun hold => ?_, hk.1⟩
    exact absurd hk.2 (Nat.not_le.mpr (hold now hnow))
  · rintro ⟨e, he, hwindow, rfl⟩
    have hrecent := hclose now e.2 hnow hwindow
    refine ⟨e, List.mem_filter.mpr ⟨he, ?_⟩, ?_⟩
    · simp only [Bool.not_eq_true', decide_eq_false_iff_not]
      exact Nat.not_lt.mpr hrecent
    · simpa using hrecent

/-- Nothing that counts is forgotten. -/
theorem Remembers.purge (h : Remembers window seen earlier) (hclose : Close window) {now : Time}
    (hnow : window now) :
    Remembers window (seen.filter fun e => !decide (now - e.2 > notifyDedupTTL)) earlier := by
  constructor
  · intro e he
    exact h.aged e (List.mem_filter.mp he).1
  · intro k
    rw [← h.known k]
    constructor
    · rintro ⟨e, he, hk⟩
      exact ⟨e, (List.mem_filter.mp he).1, hk⟩
    · rintro ⟨e, he, hwindow, hk⟩
      have hrecent := hclose now e.2 hnow hwindow
      refine ⟨e, List.mem_filter.mpr ⟨he, ?_⟩, hwindow, hk⟩
      simp only [Bool.not_eq_true', decide_eq_false_iff_not]
      exact Nat.not_lt.mpr hrecent

theorem Remembers.skip (h : Remembers window seen earlier) {r : Report} (hkey : r.key = none) :
    Remembers window seen (r :: earlier) := by
  refine ⟨h.aged, fun k => ?_⟩
  rw [h.known k]
  simp only [List.mem_cons, exists_eq_or_imp, hkey, reduceCtorEq, false_or]

theorem Remembers.again (h : Remembers window seen earlier) {r : Report}
    (hrep : ∃ e ∈ earlier, e.key = r.key) : Remembers window seen (r :: earlier) := by
  refine ⟨h.aged, fun k => ?_⟩
  rw [h.known k]
  simp only [List.mem_cons, exists_eq_or_imp]
  constructor
  · exact Or.inr
  · rintro (hk | hk)
    · obtain ⟨e, he, heq⟩ := hrep
      exact ⟨e, he, heq.trans hk⟩
    · exact hk

theorem Remembers.add (h : Remembers window seen earlier) {r : Report} {k : Text} {now : Time}
    (hnow : window now) (hkey : r.key = some k) :
    Remembers window ((k, now) :: seen) (r :: earlier) := by
  constructor
  · intro e he
    rcases List.mem_cons.mp he with rfl | he
    · exact Or.inl hnow
    · exact h.aged e he
  · intro k'
    simp only [List.mem_cons, exists_eq_or_imp, h.known k', hkey, Option.some.injEq, hnow,
      true_and]

/-- **A round is let through unless it repeats an earlier one's key.** -/
theorem Remembers.claim (h : Remembers window seen earlier) (hclose : Close window) {r : Report}
    (hnow : window r.now) :
    (claimNotify r.accountID r.nm r.now seen).2 = !repeats Report.key earlier r ∧
      Remembers window (claimNotify r.accountID r.nm r.now seen).1 (r :: earlier) := by
  unfold claimNotify
  cases hkey : notifyKey r.accountID r.nm with
  | none =>
      rw [not_repeats_of_key_none (show Report.key r = none from hkey)]
      exact ⟨rfl, h.skip hkey⟩
  | some k =>
      have hiff := h.any_iff hclose hnow (k := k)
      rw [← repeats_iff (show Report.key r = some k from hkey)] at hiff
      dsimp only
      by_cases hrep : repeats Report.key earlier r = true
      · rw [if_pos (hiff.mpr hrep), hrep]
        refine ⟨rfl, (h.purge hclose hnow).again ?_⟩
        rw [show r.key = some k from hkey]
        exact (repeats_iff (show Report.key r = some k from hkey)).mp hrep
      · rw [if_neg fun hany => hrep (hiff.mp hany), Bool.eq_false_iff.mpr hrep]
        exact ⟨rfl, (h.purge hclose hnow).add hnow hkey⟩

/-! ### What is let through -/

/-- The notices of a round that is let through. -/
def Report.notices (r : Report) : List Notice :=
  if r.unread = [] then [] else emitNewMailNotices r.accountID r.type r.nm r.snippetOf

/-- Rounds with their notices, where `earlier` came before. -/
def letThrough : List Report → List Report → List (Report × List Notice)
  | _, [] => []
  | earlier, r :: rest =>
      (r, if repeats Report.key earlier r then [] else r.notices) :: letThrough (r :: earlier) rest

/-- A round that brought no unread mail has no key. -/
theorem key_of_unread_nil {r : Report} (h : r.unread = []) : r.key = none := by
  have hunseen : r.nm.unseen = [] := by
    have hprefix := r.details
    rw [h] at hprefix
    exact List.prefix_nil.mp hprefix
  unfold Report.key notifyKey
  rw [hunseen]
  rfl

theorem notify_of_unread_nil {r : Report} (h : r.unread = []) : r.notify seen = (seen, []) := by
  unfold Report.notify notifyNewMail
  rw [if_neg]
  rintro ⟨-, -, htotal⟩
  rw [r.total, h] at htotal
  exact absurd htotal (Nat.lt_irrefl 0)

theorem notify_of_unread {r : Report} (h : r.unread ≠ []) :
    r.notify seen =
      ((claimNotify r.accountID r.nm r.now seen).1,
        if (claimNotify r.accountID r.nm r.now seen).2 then r.notices else []) := by
  have htotal : r.nm.unseenTotal > 0 := by
    rw [r.total]
    exact List.length_pos_iff.mpr h
  unfold Report.notify notifyNewMail Report.notices
  rw [if_pos ⟨r.counted h, r.notifiable, htotal⟩, if_neg h]

theorem Remembers.notify (h : Remembers window seen earlier) (hclose : Close window) {r : Report}
    (hnow : window r.now) :
    (r.notify seen).2 = (if repeats Report.key earlier r then [] else r.notices) ∧
      Remembers window (r.notify seen).1 (r :: earlier) := by
  by_cases hunread : r.unread = []
  · rw [notify_of_unread_nil hunread, not_repeats_of_key_none (key_of_unread_nil hunread)]
    refine ⟨?_, h.skip (key_of_unread_nil hunread)⟩
    rw [if_neg Bool.false_ne_true, Report.notices, if_pos hunread]
  · obtain ⟨hclaimed, hremembers⟩ := h.claim hclose hnow
    rw [notify_of_unread hunread, hclaimed]
    refine ⟨?_, hremembers⟩
    cases repeats Report.key earlier r <;> rfl

/-- **The rounds' notices**: those of the rounds that are the first of their key. -/
theorem announce_eq {rounds : List Report} (hclose : Close window) :
    ∀ {seen : Seen} {earlier : List Report}, Remembers window seen earlier →
      (∀ r ∈ rounds, window r.now) → announce seen rounds = letThrough earlier rounds := by
  induction rounds with
  | nil =>
      intro seen earlier _ _
      rfl
  | cons r rest ih =>
      intro seen earlier h hwindow
      obtain ⟨hnotices, hremembers⟩ := h.notify hclose (hwindow r List.mem_cons_self)
      rw [announce, letThrough, hnotices,
        ih hremembers fun s hs => hwindow s (List.mem_cons_of_mem _ hs)]

/-! ### Entries of the log -/

theorem exists_mem_letThrough {rounds : List Report} {r : Report} :
    ∀ {earlier : List Report}, r ∈ rounds → ∃ ns, (r, ns) ∈ letThrough earlier rounds := by
  induction rounds with
  | nil =>
      intro earlier h
      cases h
  | cons s rest ih =>
      intro earlier h
      rcases List.mem_cons.mp h with rfl | h
      · exact ⟨_, List.mem_cons_self⟩
      · obtain ⟨ns, hns⟩ : ∃ ns, (r, ns) ∈ letThrough (s :: earlier) rest := ih h
        exact ⟨ns, List.mem_cons_of_mem _ hns⟩

theorem mem_letThrough {rounds : List Report} {e : Report × List Notice} :
    ∀ {earlier : List Report}, e ∈ letThrough earlier rounds →
      e.1 ∈ rounds ∧ (e.2 = [] ∨ e.1 ∈ firsts Report.key earlier rounds ∧ e.2 = e.1.notices) := by
  induction rounds with
  | nil =>
      intro earlier h
      cases h
  | cons s rest ih =>
      intro earlier h
      unfold firsts
      rcases List.mem_cons.mp h with rfl | h
      · refine ⟨List.mem_cons_self, ?_⟩
        by_cases hrep : repeats Report.key earlier s = true
        · exact Or.inl (if_pos hrep)
        · rw [if_neg hrep, if_neg hrep]
          exact Or.inr ⟨List.mem_cons_self, rfl⟩
      · obtain ⟨hmem, hnotices⟩ := ih h
        refine ⟨List.mem_cons_of_mem _ hmem, hnotices.imp_right fun hfirst => ⟨?_, hfirst.2⟩⟩
        by_cases hrep : repeats Report.key earlier s = true
        · rw [if_pos hrep]
          exact hfirst.1
        · rw [if_neg hrep]
          exact List.mem_cons_of_mem _ hfirst.1

theorem mem_letThrough_of_firsts {rounds : List Report} {r : Report} :
    ∀ {earlier : List Report}, r ∈ firsts Report.key earlier rounds →
      (r, r.notices) ∈ letThrough earlier rounds := by
  induction rounds with
  | nil =>
      intro earlier h
      cases h
  | cons s rest ih =>
      intro earlier h
      unfold firsts at h
      by_cases hrep : repeats Report.key earlier s = true
      · rw [if_pos hrep] at h
        exact List.mem_cons_of_mem _ (ih h)
      · rw [if_neg hrep] at h
        rcases List.mem_cons.mp h with rfl | h
        · rw [letThrough, if_neg hrep]
          exact List.mem_cons_self
        · exact List.mem_cons_of_mem _ (ih h)

/-- The round's share of the notices about an account's mail with this Message-ID. -/
def share (accountID : Nat) (messageID : Text) (r : Report) : Nat :=
  if r.accountID = accountID then mentions messageID (r, r.notices) else 0

theorem announcements_letThrough {accountID : Nat} {messageID : Text} {rounds : List Report} :
    ∀ {earlier : List Report}, announcements (letThrough earlier rounds) accountID messageID
      = ((firsts Report.key earlier rounds).map (share accountID messageID)).sum := by
  induction rounds with
  | nil =>
      intro earlier
      rfl
  | cons r rest ih =>
      intro earlier
      have hrest : announcements (letThrough (r :: earlier) rest) accountID messageID
          = ((firsts Report.key (r :: earlier) rest).map (share accountID messageID)).sum := ih
      unfold announcements at hrest ⊢
      rw [letThrough, firsts, List.map_cons, List.sum_cons, hrest]
      by_cases hrep : repeats Report.key earlier r = true
      · rw [if_pos hrep, if_pos hrep]
        have hnone : mentions messageID (r, []) = 0 := rfl
        rw [hnone, ite_self, Nat.zero_add]
      · rw [if_neg hrep, if_neg hrep, List.map_cons, List.sum_cons]
        rfl

/-! ### What a round that is let through announces -/

variable {r : Report}

theorem unseen_eq_unread (h : r.unread.length ≤ r.nm.unseen.length) : r.nm.unseen = r.unread :=
  r.details.eq_of_length_le h

theorem notices_of_single (h : r.unread.length ≤ r.nm.unseen.length) :
    r.notices = r.unread.map (mailNotice r.accountID r.snippetOf) := by
  unfold Report.notices
  by_cases hunread : r.unread = []
  · rw [if_pos hunread, hunread]
    rfl
  · rw [if_neg hunread, emitNewMailNotices, r.no_baseline, if_neg Bool.false_ne_true, r.total,
      if_pos h, unseen_eq_unread h]

theorem notices_of_merged (h : ¬ r.unread.length ≤ r.nm.unseen.length) :
    ∃ n : Notice, n.messageID = 0 ∧ r.notices = [n] := by
  have hunread : r.unread ≠ [] := by
    rintro hnil
    rw [hnil] at h
    exact h (Nat.zero_le _)
  unfold Report.notices
  rw [if_neg hunread, emitNewMailNotices, r.no_baseline, if_neg Bool.false_ne_true, r.total,
    if_neg h]
  exact ⟨_, rfl, rfl⟩

/-- A mail's own notice is about no other mail. -/
theorem mailNotice_about {x m : Message} (hx : x ∈ r.unread) :
    (mailNotice r.accountID r.snippetOf x).about r m ↔ m = x := by
  have hid : (mailNotice r.accountID r.snippetOf x).messageID = x.id := rfl
  unfold Notice.about
  rw [hid]
  constructor
  · rintro ⟨hm, heq | hzero⟩
    · exact List.inj_on_of_nodup_map r.rows.1 hm hx heq.symm
    · exact absurd hzero (Nat.pos_iff_ne_zero.mp (r.rows.2 x hx).1)
  · rintro rfl
    exact ⟨hx, Or.inl rfl⟩

theorem mentions_single {messageID : Text} (h : r.unread.length ≤ r.nm.unseen.length) :
    mentions messageID (r, r.notices) = r.copies messageID := by
  unfold mentions Report.copies
  rw [notices_of_single h, List.countP_map]
  refine List.countP_congr fun x hx => ?_
  simp only [Function.comp_apply, List.any_eq_true, Bool.and_eq_true, beq_iff_eq,
    decide_eq_true_eq, mailNotice_about hx]
  constructor
  · rintro ⟨m, -, hid, rfl⟩
    exact hid
  · intro hid
    exact ⟨x, hx, hid, rfl⟩

theorem mentions_merged {messageID : Text} (h : ¬ r.unread.length ≤ r.nm.unseen.length) :
    mentions messageID (r, r.notices) = if r.copies messageID = 0 then 0 else 1 := by
  obtain ⟨n, hzero, hnotices⟩ := notices_of_merged h
  have hany : (r.unread.any fun m => m.messageID == messageID && decide (n.about r m))
      = r.unread.any fun m => m.messageID == messageID := by
    rw [Bool.eq_iff_iff, List.any_eq_true, List.any_eq_true]
    refine exists_congr fun m => and_congr_right fun hm => ?_
    rw [Bool.and_eq_true, decide_eq_true_eq]
    exact and_iff_left ⟨hm, Or.inr hzero⟩
  unfold mentions
  rw [hnotices, List.countP_singleton, hany]
  unfold Report.copies
  by_cases hcopies : r.unread.any (fun m => m.messageID == messageID) = true
  · have hpos := List.countP_pos_iff.mpr (List.any_eq_true.mp hcopies)
    rw [if_pos hcopies, if_neg (Nat.pos_iff_ne_zero.mp hpos)]
  · rw [if_neg hcopies, if_pos]
    rw [List.countP_eq_zero]
    intro m hm hid
    exact hcopies (List.any_eq_true.mpr ⟨m, hm, hid⟩)

theorem mentions_eq_zero_iff {messageID : Text} :
    mentions messageID (r, r.notices) = 0 ↔ r.copies messageID = 0 := by
  by_cases h : r.unread.length ≤ r.nm.unseen.length
  · rw [mentions_single h]
  · rw [mentions_merged h]
    by_cases hcopies : r.copies messageID = 0
    · rw [if_pos hcopies, hcopies]
    · rw [if_neg hcopies]
      exact ⟨fun hone => absurd hone Nat.one_ne_zero, fun hzero => absurd hzero hcopies⟩

theorem copies_ne_zero {m : Message} (hm : m ∈ r.unread) : r.copies m.messageID ≠ 0 :=
  Nat.pos_iff_ne_zero.mp (List.countP_pos_iff.mpr ⟨m, hm, beq_self_eq_true _⟩)

theorem share_ne_zero_iff {accountID : Nat} {messageID : Text} :
    share accountID messageID r ≠ 0 ↔ r.accountID = accountID ∧ r.copies messageID ≠ 0 := by
  unfold share
  by_cases haccount : r.accountID = accountID
  · rw [if_pos haccount, ne_eq, mentions_eq_zero_iff]
    exact (and_iff_right haccount).symm
  · rw [if_neg haccount]
    exact ⟨fun h => absurd rfl h, fun h => absurd h.1 haccount⟩

/-- Some notice of the round is about each of its mails. -/
theorem exists_notice {m : Message} (hm : m ∈ r.unread) : ∃ n ∈ r.notices, n.about r m := by
  by_cases h : r.unread.length ≤ r.nm.unseen.length
  · rw [notices_of_single h]
    exact ⟨_, List.mem_map_of_mem hm, (mailNotice_about hm).mpr rfl⟩
  · obtain ⟨n, hzero, hnotices⟩ := notices_of_merged h
    rw [hnotices]
    exact ⟨n, List.mem_cons_self, hm, Or.inr hzero⟩

/-! ### When every mail is announced once -/

theorem single_of_share {rounds : List Report}
    (h : ∀ r ∈ rounds, ∀ m ∈ r.unread, m.messageID ≠ [] →
      ((firsts Report.key [] rounds).map (share r.accountID m.messageID)).sum = 1) :
    ∀ r ∈ firsts Report.key [] rounds, r.unread.length ≤ r.nm.unseen.length →
      ∀ m ∈ r.unread, m.messageID ≠ [] → r.copies m.messageID ≤ 1 := by
  intro r hr hsingle m hm hid
  have hone := (sum_eq_one_iff.mp (h r (mem_of_mem_firsts hr) m hm hid)).2.1 r hr
  rwa [share, if_pos rfl, mentions_single hsingle] at hone

theorem disjoint_of_share {rounds : List Report}
    (h : ∀ r ∈ rounds, ∀ m ∈ r.unread, m.messageID ≠ [] →
      ((firsts Report.key [] rounds).map (share r.accountID m.messageID)).sum = 1) :
    (firsts Report.key [] rounds).Pairwise fun r s => r.accountID = s.accountID →
      ∀ m ∈ r.unread, m.messageID ≠ [] → s.copies m.messageID = 0 := by
  rw [List.pairwise_iff_forall_sublist]
  intro r s hsub haccount m hm hid
  have hr : r ∈ rounds := mem_of_mem_firsts (hsub.subset List.mem_cons_self)
  have hpair := (sum_eq_one_iff.mp (h r hr m hm hid)).2.2
  rcases List.pairwise_iff_forall_sublist.mp hpair hsub with hzero | hzero
  · exact absurd hzero (share_ne_zero_iff.mpr ⟨rfl, copies_ne_zero hm⟩)
  · by_contra hcopies
    exact share_ne_zero_iff.mpr ⟨haccount.symm, hcopies⟩ hzero

/-- **Of rounds that are apart, one round has a mail's only share.** -/
theorem Apart.sum_share {rounds : List Report} (h : Apart rounds) {r : Report} (hr : r ∈ rounds)
    {m : Message} (hm : m ∈ r.unread) (hid : m.messageID ≠ []) :
    ((firsts Report.key [] rounds).map (share r.accountID m.messageID)).sum = 1 := by
  rw [sum_eq_one_iff]
  refine ⟨?_, ?_, ?_⟩
  · obtain ⟨f, hf, haccount, hcopies⟩ := h.known r hr m hm hid
    exact ⟨f, hf, share_ne_zero_iff.mpr ⟨haccount, hcopies⟩⟩
  · intro f hf
    unfold share
    by_cases haccount : f.accountID = r.accountID
    · rw [if_pos haccount]
      by_cases hsingle : f.unread.length ≤ f.nm.unseen.length
      · rw [mentions_single hsingle]
        by_cases hcopies : f.copies m.messageID = 0
        · omega
        · obtain ⟨x, hx, hxid⟩ :=
            List.countP_pos_iff.mp (Nat.pos_iff_ne_zero.mpr hcopies)
          have hxm : x.messageID = m.messageID := by simpa using hxid
          have hle := h.single f hf hsingle x hx (by rw [hxm]; exact hid)
          rwa [hxm] at hle
      · rw [mentions_merged hsingle]
        by_cases hcopies : f.copies m.messageID = 0
        · rw [if_pos hcopies]
          exact Nat.zero_le 1
        · rw [if_neg hcopies]
    · rw [if_neg haccount]
      exact Nat.zero_le 1
  · refine h.disjoint.imp fun {f g} hfg => ?_
    by_contra hboth
    rw [not_or] at hboth
    obtain ⟨hf, hfcopies⟩ := share_ne_zero_iff.mp hboth.1
    obtain ⟨hg, hgcopies⟩ := share_ne_zero_iff.mp hboth.2
    obtain ⟨x, hx, hxid⟩ := List.countP_pos_iff.mp (Nat.pos_iff_ne_zero.mpr hfcopies)
    have hxm : x.messageID = m.messageID := by simpa using hxid
    have hzero := hfg (hf.trans hg.symm) x hx (by rw [hxm]; exact hid)
    rw [hxm] at hzero
    exact hgcopies hzero

theorem announcedOnce_letThrough {rounds : List Report} :
    AnnouncedOnce (letThrough [] rounds) ↔ Apart rounds := by
  constructor
  · intro h
    have hsum : ∀ r ∈ rounds, ∀ m ∈ r.unread, m.messageID ≠ [] →
        ((firsts Report.key [] rounds).map (share r.accountID m.messageID)).sum = 1 := by
      intro r hr m hm hid
      obtain ⟨ns, hns⟩ : ∃ ns, (r, ns) ∈ letThrough [] rounds := exists_mem_letThrough hr
      rw [← announcements_letThrough]
      exact h.once _ hns m hm hid
    refine ⟨single_of_share hsum, disjoint_of_share hsum, ?_, ?_⟩
    · intro r hr m hm hid
      obtain ⟨f, hf, hshare⟩ := (sum_eq_one_iff.mp (hsum r hr m hm hid)).1
      exact ⟨f, hf, share_ne_zero_iff.mp hshare⟩
    · intro r hr m hm hid
      obtain ⟨ns, hns⟩ : ∃ ns, (r, ns) ∈ letThrough [] rounds := exists_mem_letThrough hr
      obtain ⟨e, he, n, hn, habout⟩ := h.always _ hns m hm hid
      rcases (mem_letThrough he).2 with hnil | ⟨hfirst, -⟩
      · rw [hnil] at hn
        cases hn
      · exact ⟨e.1, hfirst, habout.1⟩
  · intro h
    constructor
    · intro e he m hm hid
      rw [announcements_letThrough]
      exact h.sum_share (mem_letThrough he).1 hm hid
    · intro e he m hm hid
      obtain ⟨f, hf, hmf⟩ := h.unnamed e.1 (mem_letThrough he).1 m hm hid
      obtain ⟨n, hn, habout⟩ := exists_notice hmf
      exact ⟨_, mem_letThrough_of_firsts hf, n, hn, habout⟩

/-- **Every mail is announced, and once, just when the rounds are apart.** -/
theorem announced_once_iff {seen : Seen} {rounds : List Report}
    (hclose : ∀ r ∈ rounds, ∀ s ∈ rounds, r.now - s.now ≤ notifyDedupTTL)
    (hold : ∀ e ∈ seen, ∀ r ∈ rounds, notifyDedupTTL < r.now - e.2) :
    AnnouncedOnce (announce seen rounds) ↔ Apart rounds := by
  have hremembers : Remembers (fun t => ∃ r ∈ rounds, r.now = t) seen [] := by
    refine ⟨fun e he => Or.inr ?_, fun k => ⟨?_, ?_⟩⟩
    · rintro now ⟨r, hr, rfl⟩
      exact hold e he r hr
    · rintro ⟨e, he, ⟨r, hr, htime⟩, -⟩
      have hlate := hold e he r hr
      rw [htime, Nat.sub_self] at hlate
      exact absurd hlate (Nat.not_lt_zero _)
    · rintro ⟨r, hr, -⟩
      cases hr
  have hwindow : Close fun t => ∃ r ∈ rounds, r.now = t := by
    rintro a b ⟨r, hr, rfl⟩ ⟨s, hs, rfl⟩
    exact hclose r hr s hs
  rw [announce_eq hwindow hremembers fun r hr => ⟨r, hr, rfl⟩]
  exact announcedOnce_letThrough

/-! ### Copies of a mail -/

private def mailIn (folderID id : Nat) (uid : UID) (messageID : Text) : Message :=
  { Message.bare id 1 folderID uid with messageID := messageID }

/-- A round that brought these mails, and whose details are those of the first three. -/
private def brought (type : FolderType) (now : Time) (ms : List Message)
    (htype : type = .inbox ∨ type = .custom) (hids : (ms.map Message.id).Nodup)
    (hrows : ∀ m ∈ ms, 0 < m.id ∧ m.accountID = 1) : Report where
  accountID := 1
  type := type
  nm := ⟨ms.length, false, 0, ms.take newMailUnseenCap, ms.length⟩
  now := now
  snippetOf := fun _ => []
  unread := ms
  notifiable := htype
  no_baseline := rfl
  counted := List.length_pos_iff.mpr
  total := rfl
  details := List.take_prefix _ _
  capped := List.length_take_le _ _
  rows := ⟨hids, hrows⟩

private def uidOne : UID := .numbered 1

private def uidTwo : UID := .numbered 2

/-- A mail arrives in the inbox, and its copy in a folder of the user's. -/
private def copied : List Report :=
  [brought .inbox 100 [mailIn 1 1 uidOne ['a']] (Or.inl rfl) (by decide) (by decide),
    brought .custom 160 [mailIn 2 2 uidOne ['a']] (Or.inr rfl) (by decide) (by decide)]

theorem announced_once_iff_copied : AnnouncedOnce (announce [] copied) ↔ Apart copied :=
  announced_once_iff (by decide) (by decide)

/-- The same, and with each of the two a mail without a Message-ID. -/
private def accompanied : List Report :=
  [brought .inbox 100 [mailIn 1 1 uidOne ['a'], mailIn 1 2 uidTwo []] (Or.inl rfl) (by decide)
      (by decide),
    brought .custom 160 [mailIn 2 3 uidOne ['a'], mailIn 2 4 uidTwo []] (Or.inr rfl) (by decide)
      (by decide)]

/-- **A mail is passed over** because of another one that was announced before. -/
theorem copies_apart : ¬ ∀ (seen : Seen) (rounds : List Report),
    (∀ r ∈ rounds, ∀ s ∈ rounds, r.now - s.now ≤ notifyDedupTTL) →
    (∀ e ∈ seen, ∀ r ∈ rounds, notifyDedupTTL < r.now - e.2) →
    AnnouncedOnce (announce seen rounds) := by
  intro h
  have hall := h [] accompanied (by decide) (by decide)
  have hsilent : ∀ e ∈ announce [] accompanied,
      e.2 = [] ∨ mailIn 2 4 uidTwo [] ∉ e.1.unread := by decide
  have hreported : ∃ e ∈ announce [] accompanied, mailIn 2 4 uidTwo [] ∈ e.1.unread := by decide
  obtain ⟨e, he, hm⟩ := hreported
  obtain ⟨e', he', n, hn, habout⟩ := hall.always e he _ hm rfl
  rcases hsilent e' he' with hnil | hother
  · rw [hnil] at hn
    cases hn
  · exact hother habout.1

end FlyMail.Sync.Notify
