/-
What a rebuild restores.

A class gets the thread of its oldest row (`threadOf_rebuilt`): the thread that row has, or the
one it opens by itself.  The thread of a class is thus a name that was given to it before, and
nothing keeps two classes from having been given one name.

Of rows without threads each class gets a name of its own, so nothing but the graph can go wrong
(`rebuild_components_iff`).  Of rows that have threads two components stay one if their oldest
rows were given one name (`rebuild_restores_iff`).
-/
import FlyMail.Proofs.Graph

namespace FlyMail.Message

/-! ### The oldest row -/

/-- The oldest of the rows that satisfy `p`. -/
structure FirstOf (rows : List Message) (p : Message → Prop) (q : Message) : Prop where
  row : q ∈ rows
  sat : p q
  first : ∀ s ∈ rows, p s → ¬ Earlier s q

section Oldest

variable {rows : List Message} {p : Message → Prop}

theorem FirstOf.unique (hids : (rows.map Message.id).Nodup) {q q' : Message} (h : FirstOf rows p q)
    (h' : FirstOf rows p q') : q = q' := by
  by_contra hne
  have hid : q.id ≠ q'.id := fun heq => hne (List.inj_on_of_nodup_map hids h.row h'.row heq)
  rcases earlier_or hid with hlt | hlt
  · exact h'.first q h.row h.sat hlt
  · exact h.first q' h'.row h'.sat hlt

theorem FirstOf.congr {p' : Message → Prop} {q : Message} (h : FirstOf rows p q)
    (heq : ∀ s ∈ rows, p s ↔ p' s) : FirstOf rows p' q :=
  ⟨h.row, (heq q h.row).mp h.sat, fun s hs hps => h.first s hs ((heq s hs).mpr hps)⟩

variable {digest : Text → Text} {cls : Message → Text}

/-- **The thread of a class is that of its oldest row.** -/
theorem exists_firstOf_class (hids : (rows.map Message.id).Nodup) {r : Message} (hr : r ∈ rows) :
    ∃ q, FirstOf rows (fun s => cls s = cls r) q ∧
      classThread digest cls (byDate rows) (cls r) = some (ownThread digest q) := by
  have hsome : ((byDate rows).find? fun s => cls s = cls r).isSome := by
    rw [List.find?_isSome]
    exact ⟨r, mem_byDate.mpr hr, by simp⟩
  obtain ⟨q, hq⟩ := Option.isSome_iff_exists.mp hsome
  obtain ⟨hclass, before, after, hsplit, hbefore⟩ := List.find?_eq_some_iff_append.mp hq
  have hsorted := pairwise_byDate hids
  rw [hsplit] at hsorted
  have hafter := (List.pairwise_cons.mp (List.pairwise_append.mp hsorted).2.1).1
  refine ⟨q, ⟨mem_byDate.mp (List.mem_of_find?_eq_some hq), of_decide_eq_true hclass, ?_⟩, ?_⟩
  · intro s hs hsr
    have hs := mem_byDate.mpr hs
    rw [hsplit] at hs
    rcases List.mem_append.mp hs with hs | hs
    · have hno := hbefore s hs
      rw [decide_eq_true hsr] at hno
      exact absurd hno (by decide)
    · rcases List.mem_cons.mp hs with rfl | hs
      · exact Earlier.irrefl _
      · exact (hafter s hs).asymm
  · unfold classThread
    rw [hq]
    rfl

end Oldest

/-! ### Threads after a rebuild -/

theorem nodup_ids (db : DB) (accountID : Nat) : ((rowsOf db accountID).map Message.id).Nodup :=
  db.messages.nodup_pk List.filter_sublist

section Rebuilt

variable {digest : Text → Text} {lower : Char → Char} {accountID : Nat} {db db' : DB}

/-- The account's rows have been rebuilt. -/
def Rebuilt (digest : Text → Text) (lower : Char → Char) (accountID : Nat) (db db' : DB) : Prop :=
  rowsOf db' accountID
    = (rowsOf db accountID).map (retagAll (changes digest lower (rowsOf db accountID)))

theorem Rebuilt.mem (h : Rebuilt digest lower accountID db db') {r : Message}
    (hr : r ∈ rowsOf db accountID) :
    retagAll (changes digest lower (rowsOf db accountID)) r ∈ rowsOf db' accountID := by
  have hrows : rowsOf db' accountID = _ := h
  rw [hrows]
  exact List.mem_map_of_mem hr

theorem Rebuilt.threadOf_eq (h : Rebuilt digest lower accountID db db') {r : Message}
    (hr : r ∈ rowsOf db accountID) :
    threadOf db' r = (retagAll (changes digest lower (rowsOf db accountID)) r).threadID :=
  threadOf_of_mem (mem_rowsOf.mp (h.mem hr)).1 (retagAll_keys _ r).2.1

/-- **A row has the thread of the oldest row of its class.** -/
theorem Rebuilt.exists_first (h : Rebuilt digest lower accountID db db') {r : Message}
    (hr : r ∈ rowsOf db accountID) :
    ∃ q, FirstOf (rowsOf db accountID) (fun s => classOf lower (rowsOf db accountID) s
        = classOf lower (rowsOf db accountID) r) q ∧ threadOf db' r = ownThread digest q := by
  obtain ⟨q, hq, hthread⟩ := @exists_firstOf_class _ digest (classOf lower (rowsOf db accountID))
    (nodup_ids db accountID) r hr
  have hids : ∀ a ∈ rowsOf db accountID, ∀ b ∈ rowsOf db accountID, a.id = b.id → a = b :=
    fun a ha b hb => List.inj_on_of_nodup_map (nodup_ids db accountID) ha hb
  have hretag := @retagAll_changes digest lower _ hids r hr
  refine ⟨q, hq, ?_⟩
  rw [h.threadOf_eq hr]
  exact Option.some.inj (hretag.symm.trans hthread)

/-- Rows of one class get one thread. -/
theorem Rebuilt.threadOf_of_class (h : Rebuilt digest lower accountID db db') {r s : Message}
    (hr : r ∈ rowsOf db accountID) (hs : s ∈ rowsOf db accountID)
    (hclass : classOf lower (rowsOf db accountID) r = classOf lower (rowsOf db accountID) s) :
    threadOf db' r = threadOf db' s := by
  obtain ⟨q, hq, hqr⟩ := h.exists_first hr
  obtain ⟨q', hq', hqs⟩ := h.exists_first hs
  rw [hqr, hqs, hq.unique (nodup_ids db accountID) (hq'.congr fun t _ => by rw [hclass])]

theorem Rebuilt.threadOf_of_first (h : Rebuilt digest lower accountID db db') {q : Message}
    (hq : FirstOf (rowsOf db accountID) (fun s => classOf lower (rowsOf db accountID) s
      = classOf lower (rowsOf db accountID) q) q) : threadOf db' q = ownThread digest q := by
  obtain ⟨q', hq', hthread⟩ := h.exists_first hq.row
  rw [hthread, hq'.unique (nodup_ids db accountID) hq]

/-- How many threads the account is told to have: as many as classes. -/
theorem threads_rebuildAccountThreads :
    (rebuildAccountThreads digest lower db accountID).1
      = distinct (classOf lower (rowsOf db accountID)) (rowsOf db accountID) :=
  (renamed_renameAll (rowsOf db accountID)).count.trans
    (distinct_perm (List.perm_insertionSort _ _))

end Rebuilt

/-! ### Rows without threads -/

section Fresh

variable {digest : Text → Text} {lower : Char → Char} {accountID : Nat} {db db' : DB}

/-- What is asked of a rebuild of rows that have no thread. -/
structure FindsComponents (digest : Text → Text) (lower : Char → Char) (accountID : Nat) (db : DB) :
    Prop where
  threads : ∀ r ∈ rowsOf db accountID, ∀ s ∈ rowsOf db accountID,
    threadOf (rebuildAccountThreads digest lower db accountID).2 r
        = threadOf (rebuildAccountThreads digest lower db accountID).2 s ↔
      Connected (Follows lower (rowsOf db accountID)) (rowsOf db accountID) (.row r) (.row s)
  count : (rebuildAccountThreads digest lower db accountID).1
    = distinct Message.threadID (rowsOf (rebuildAccountThreads digest lower db accountID).2 accountID)
  again : changes digest lower (rowsOf (rebuildAccountThreads digest lower db accountID).2 accountID) = []

/-- A reply whose subject is nothing but prefixes is joined to the row it follows by other links. -/
def SubjectsKnown (lower : Char → Char) (rows : List Message) : Prop :=
  ∀ r p, Follows lower rows r p → (normalizeSubject lower r.subject).1 = [] →
    Relation.EqvGen (Linked lower rows) (node p) (node r)

/-- Threads tell classes apart. -/
theorem Rebuilt.threadOf_iff_class (h : Rebuilt digest lower accountID db db')
    (hd : DigestOK digest (rowsOf db accountID))
    (hempty : ∀ r ∈ rowsOf db accountID, r.threadID = []) {r s : Message}
    (hr : r ∈ rowsOf db accountID) (hs : s ∈ rowsOf db accountID) :
    threadOf db' r = threadOf db' s ↔
      classOf lower (rowsOf db accountID) r = classOf lower (rowsOf db accountID) s := by
  refine ⟨fun heq => ?_, h.threadOf_of_class hr hs⟩
  obtain ⟨q, hq, hqr⟩ := h.exists_first hr
  obtain ⟨q', hq', hqs⟩ := h.exists_first hs
  have hkeys : threadKey digest q = threadKey digest q' := by
    rw [hqr, hqs] at heq
    unfold ownThread at heq
    rwa [if_pos (hempty q hq.row), if_pos (hempty q' hq'.row)] at heq
  have hacc : q.accountID = q'.accountID :=
    (mem_rowsOf.mp hq.row).2.trans (mem_rowsOf.mp hq'.row).2.symm
  have hnode : node q = node q' := by
    rcases threadKey_inj hd hq.row hq'.row hacc hkeys with ⟨hne, hid⟩ | hkey
    · unfold node
      rw [if_pos hne, if_pos (hid ▸ hne), hid]
    · rw [db.messages.eq_of_uk (mem_rowsOf.mp hq.row).1 (mem_rowsOf.mp hq'.row).1 hkey]
  have hclass : classOf lower (rowsOf db accountID) q = classOf lower (rowsOf db accountID) q' :=
    congrArg (forest lower (rowsOf db accountID)).root hnode
  exact hq.sat.symm.trans (hclass.trans hq'.sat)

/-- A change of threads changes nothing else. -/
theorem exists_retagAll (updates : List (Nat × Text)) :
    ∀ r : Message, ∃ t, retagAll updates r = { r with threadID := t } := by
  induction updates with
  | nil => exact fun r => ⟨r.threadID, rfl⟩
  | cons p rest ih =>
      intro r
      rw [retagAll_cons]
      split
      · obtain ⟨t, ht⟩ := ih { r with threadID := p.2 }
        exact ⟨t, ht⟩
      · exact ih r

/-- Classes do not depend on threads. -/
theorem classOf_retagAll (updates : List (Nat × Text)) (rows : List Message) (r : Message) :
    classOf lower (rows.map (retagAll updates)) (retagAll updates r) = classOf lower rows r := by
  have hsort : byDate (rows.map (retagAll updates)) = (byDate rows).map (retagAll updates) := by
    refine (List.map_insertionSort _ _ _ rows fun a _ b _ => ?_).symm
    obtain ⟨t, ht⟩ := exists_retagAll updates a
    obtain ⟨t', ht'⟩ := exists_retagAll updates b
    rw [ht, ht']
  have hheaders : ∀ u m, linkHeaders u (retagAll updates m) = linkHeaders u m := by
    intro u m
    obtain ⟨t, ht⟩ := exists_retagAll updates m
    rw [ht]
    rfl
  have hsubject : ∀ st m, linkSubject lower st (retagAll updates m) = linkSubject lower st m := by
    intro st m
    obtain ⟨t, ht⟩ := exists_retagAll updates m
    rw [ht]
    rfl
  have hnode : node (retagAll updates r) = node r := by
    obtain ⟨t, ht⟩ := exists_retagAll updates r
    rw [ht]
    rfl
  unfold classOf forest
  rw [hsort, hnode]
  simp only [List.foldl_map, hheaders, hsubject]

/-- **A second rebuild changes nothing.** -/
theorem Rebuilt.changes_nil (h : Rebuilt digest lower accountID db db') :
    changes digest lower (rowsOf db' accountID) = [] := by
  rw [List.eq_nil_iff_forall_not_mem]
  intro p hp
  obtain ⟨r', hr', tid, htid, hne, -⟩ := mem_changes.mp hp
  obtain ⟨q', hq', hclass', hown⟩ := @exists_classThread digest (classOf lower (rowsOf db' accountID)) _ r'
    (mem_byDate.mpr hr')
  have hq' := mem_byDate.mp hq'
  have hrows : rowsOf db' accountID = _ := h
  rw [hrows] at hr' hq' hclass'
  obtain ⟨r, hr, rfl⟩ := List.mem_map.mp hr'
  obtain ⟨q, hq, rfl⟩ := List.mem_map.mp hq'
  rw [classOf_retagAll, classOf_retagAll] at hclass'
  have hsame := h.threadOf_of_class hq hr hclass'
  rw [h.threadOf_eq hq, h.threadOf_eq hr] at hsame
  obtain ⟨q₀, -, hthread⟩ := h.exists_first hq
  have hset : (retagAll (changes digest lower (rowsOf db accountID)) q).threadID ≠ [] := by
    rw [← h.threadOf_eq hq, hthread]
    exact ownThread_ne_nil digest q₀
  rw [hown] at htid
  have htid := Option.some.inj htid
  unfold ownThread at htid
  rw [if_neg hset, hsame] at htid
  exact hne htid

/-- As many threads as classes. -/
theorem Rebuilt.distinct_threadID (h : Rebuilt digest lower accountID db db')
    (hapart : ∀ r ∈ rowsOf db accountID, ∀ s ∈ rowsOf db accountID, threadOf db' r = threadOf db' s →
      classOf lower (rowsOf db accountID) r = classOf lower (rowsOf db accountID) s) :
    distinct Message.threadID (rowsOf db' accountID)
      = distinct (classOf lower (rowsOf db accountID)) (rowsOf db accountID) := by
  have hrows : rowsOf db' accountID = _ := h
  rw [hrows, distinct_map]
  refine distinct_congr fun r hr s hs => ?_
  rw [← h.threadOf_eq hr, ← h.threadOf_eq hs]
  exact ⟨hapart r hr s hs, h.threadOf_of_class hr hs⟩

/-- **A rebuild of rows without threads finds the components exactly if** places are known and so
are subjects that are nothing but prefixes. -/
theorem rebuild_components_iff (hd : DigestOK digest (rowsOf db accountID))
    (hempty : ∀ r ∈ rowsOf db accountID, r.threadID = []) :
    FindsComponents digest lower accountID db ↔
      PlacesKnown (Follows lower (rowsOf db accountID)) (rowsOf db accountID) ∧
        SubjectsKnown lower (rowsOf db accountID) := by
  have h : Rebuilt digest lower accountID db (rebuildAccountThreads digest lower db accountID).2 :=
    rowsOf_rebuild_self db accountID
  have huk : ∀ a ∈ rowsOf db accountID, ∀ b ∈ rowsOf db accountID, a.key = b.key → a = b :=
    fun a ha b hb => db.messages.eq_of_uk (mem_rowsOf.mp ha).1 (mem_rowsOf.mp hb).1
  have hlinked : (∀ r p, Follows lower (rowsOf db accountID) r p →
      Relation.EqvGen (Linked lower (rowsOf db accountID)) (node p) (node r)) ↔
        SubjectsKnown lower (rowsOf db accountID) := by
    refine ⟨fun hall r p hrp _ => hall r p hrp, fun hknown r p hrp => ?_⟩
    by_cases hnil : (normalizeSubject lower r.subject).1 = []
    · exact hknown r p hrp hnil
    · exact .rel _ _ (Or.inr ⟨r, p, ⟨hrp, hnil⟩, rfl, rfl⟩)
  have hclasses := @classOf_iff_connected lower (Follows lower (rowsOf db accountID)) _ huk
    (nodup_ids db accountID) (fun r p hrp => hrp.toFollows) fun r p hrp => ⟨hrp.row, hrp.prev⟩
  rw [← hlinked, ← hclasses]
  constructor
  · intro hfinds r hr s hs
    rw [← h.threadOf_iff_class hd hempty hr hs]
    exact hfinds.threads r hr s hs
  · intro hconn
    refine ⟨fun r hr s hs => ?_, ?_, h.changes_nil⟩
    · rw [h.threadOf_iff_class hd hempty hr hs]
      exact hconn r hr s hs
    · rw [threads_rebuildAccountThreads, h.distinct_threadID fun r hr s hs =>
        (h.threadOf_iff_class hd hempty hr hs).mp]

/-- A mail without a Message-ID, and one whose Message-ID reads like its place. -/
def placeAndNamesake : DB :=
  { DB.empty with
    messages := ⟨[{ Message.bare 1 1 1 (.numbered 2) with date := 10 },
      { Message.bare 2 1 1 (.numbered 3) with messageID := "u1-2".toList, date := 20 }], 2,
      by decide, by decide, by decide⟩ }

theorem rebuild_components_placeAndNamesake :
    FindsComponents sampleDigest Char.toLower 1 placeAndNamesake ↔
      PlacesKnown (Follows Char.toLower (rowsOf placeAndNamesake 1)) (rowsOf placeAndNamesake 1) ∧
        SubjectsKnown Char.toLower (rowsOf placeAndNamesake 1) :=
  rebuild_components_iff ⟨by decide, sampleDigest_hex⟩ (by decide)

/-- The first of the two mails is joined to nothing. -/
private theorem edge_placeAndNamesake {v w : Vertex}
    (h : Edge (Follows Char.toLower (rowsOf placeAndNamesake 1)) (rowsOf placeAndNamesake 1) v w) :
    (∀ m, v = .row m → m.messageID ≠ []) ∧ ∀ m, w = .row m → m.messageID ≠ [] := by
  have hheader : ∀ m ∈ rowsOf placeAndNamesake 1, m.references = [] ∧ m.inReplyTo = [] := by decide
  have hsubject : ∀ m ∈ rowsOf placeAndNamesake 1,
      (normalizeSubject Char.toLower m.subject).2 = false := by decide
  cases h with
  | own hm hne => exact ⟨by rintro m ⟨⟩; exact hne, by rintro m ⟨⟩⟩
  | reference hm ht =>
      rw [(hheader _ hm).1, Text.fields_nil] at ht
      exact absurd ht List.not_mem_nil
  | answer hm hne => exact absurd (hheader _ hm).2 hne
  | subject h =>
      have hprefix := h.prefixed
      rw [hsubject _ h.row] at hprefix
      exact absurd hprefix (by decide)

/-- **The rebuild makes one thread of two mails that nothing connects.** -/
theorem rebuild_joins_namesake :
    DigestOK sampleDigest (rowsOf placeAndNamesake 1) ∧
      (∀ r ∈ rowsOf placeAndNamesake 1, r.threadID = []) ∧
      ¬ FindsComponents sampleDigest Char.toLower 1 placeAndNamesake := by
  refine ⟨⟨by decide, sampleDigest_hex⟩, by decide, fun h => ?_⟩
  have hconn := (h.threads _ List.mem_cons_self _ (List.mem_cons_of_mem _ List.mem_cons_self)).mp
    (by decide)
  -- whether a node is a row without a Message-ID
  have hlab := @lab_eq_of_eqvGen _ _ _ (fun v : Vertex => ∀ m, v = .row m → m.messageID ≠ [])
    (fun v w hvw => propext (iff_of_true (edge_placeAndNamesake hvw).1 (edge_placeAndNamesake hvw).2))
    _ _ hconn
  have hno := hlab.mpr (by rintro m ⟨⟩; decide)
  exact hno _ rfl rfl

end Fresh

/-! ### Rows that have threads -/

section Whole

variable {digest : Text → Text} {lower : Char → Char} {db : DB}

/-- The rows are of one conversation. -/
def Together (lower : Char → Char) (db : DB) (r s : Message) : Prop :=
  r.accountID = s.accountID ∧
    Connected (FallsBack lower (rowsOf db r.accountID)) (rowsOf db r.accountID) (.row r) (.row s)

/-- What is asked of a rebuild of all accounts. -/
structure Restores (digest : Text → Text) (lower : Char → Char) (db : DB) : Prop where
  threads : ∀ r ∈ db.messages.rows, ∀ s ∈ db.messages.rows,
    threadOf (rebuildThreads digest lower db).2 r = threadOf (rebuildThreads digest lower db).2 s ↔
      Together lower db r s
  /-- A conversation whose oldest row had a thread keeps it. -/
  kept : ∀ q, FirstOf db.messages.rows (Together lower db q) q → q.threadID ≠ [] →
    ∀ r ∈ db.messages.rows, Together lower db q r →
      threadOf (rebuildThreads digest lower db).2 r = q.threadID
  count : (rebuildThreads digest lower db).1
    = distinct Message.threadID (rebuildThreads digest lower db).2.messages.rows

/-- The oldest rows of two conversations never give them one name. -/
def NamesApart (digest : Text → Text) (lower : Char → Char) (db : DB) : Prop :=
  ∀ q q', FirstOf db.messages.rows (Together lower db q) q →
    FirstOf db.messages.rows (Together lower db q') q' → ownThread digest q = ownThread digest q' →
    Together lower db q q'

/-- Where the account's rows are kept, they have been rebuilt. -/
theorem rebuilt_rebuildThreads (digest : Text → Text) (lower : Char → Char) (db : DB) (accountID : Nat) :
    Rebuilt digest lower accountID db (rebuildThreads digest lower db).2 :=
  rowsOf_rebuildThreads db accountID

/-- Classes are components exactly if places are known. -/
theorem classOf_iff_places (lower : Char → Char) (db : DB) (accountID : Nat) :
    (∀ r ∈ rowsOf db accountID, ∀ s ∈ rowsOf db accountID,
      classOf lower (rowsOf db accountID) r = classOf lower (rowsOf db accountID) s ↔
        Connected (FallsBack lower (rowsOf db accountID)) (rowsOf db accountID) (.row r) (.row s)) ↔
      PlacesKnown (FallsBack lower (rowsOf db accountID)) (rowsOf db accountID) := by
  have huk : ∀ a ∈ rowsOf db accountID, ∀ b ∈ rowsOf db accountID, a.key = b.key → a = b :=
    fun a ha b hb => db.messages.eq_of_uk (mem_rowsOf.mp ha).1 (mem_rowsOf.mp hb).1
  rw [classOf_iff_connected huk (nodup_ids db accountID) (fun r p h => h) fun r p h => ⟨h.row, h.prev⟩]
  exact and_iff_left fun r p h => .rel _ _ (Or.inr ⟨r, p, h, rfl, rfl⟩)

/-- The rows are of one account and of one class. -/
def OneClass (lower : Char → Char) (db : DB) (r s : Message) : Prop :=
  r.accountID = s.accountID ∧
    classOf lower (rowsOf db r.accountID) r = classOf lower (rowsOf db r.accountID) s

theorem together_iff_oneClass
    (hplaces : ∀ a, PlacesKnown (FallsBack lower (rowsOf db a)) (rowsOf db a)) {r s : Message}
    (hr : r ∈ db.messages.rows) (hs : s ∈ db.messages.rows) :
    Together lower db r s ↔ OneClass lower db r s := by
  refine and_congr_right fun hacc => ?_
  exact ((classOf_iff_places lower db r.accountID).mpr (hplaces _) r (mem_rowsOf.mpr ⟨hr, rfl⟩) s
    (mem_rowsOf.mpr ⟨hs, hacc.symm⟩)).symm

/-- The oldest row of a class. -/
theorem exists_first_oneClass {r : Message} (hr : r ∈ db.messages.rows) :
    ∃ q, FirstOf db.messages.rows (OneClass lower db q) q ∧ OneClass lower db r q ∧
      threadOf (rebuildThreads digest lower db).2 r = ownThread digest q := by
  have hmem : r ∈ rowsOf db r.accountID := mem_rowsOf.mpr ⟨hr, rfl⟩
  obtain ⟨q, hq, hthread⟩ := (rebuilt_rebuildThreads digest lower db r.accountID).exists_first hmem
  obtain ⟨hqrow, hqacc⟩ := mem_rowsOf.mp hq.row
  refine ⟨q, ⟨hqrow, ⟨rfl, rfl⟩, ?_⟩, ⟨hqacc.symm, hq.sat.symm⟩, hthread⟩
  rintro s hs ⟨hacc, hclass⟩
  rw [hqacc] at hacc hclass
  exact hq.first s (mem_rowsOf.mpr ⟨hs, hacc.symm⟩) (hclass.symm.trans hq.sat)

theorem OneClass.symm {r s : Message} (h : OneClass lower db r s) : OneClass lower db s r :=
  ⟨h.1.symm, h.1 ▸ h.2.symm⟩

theorem OneClass.trans {r s t : Message} (h : OneClass lower db r s) (h' : OneClass lower db s t) :
    OneClass lower db r t :=
  ⟨h.1.trans h'.1, h.2.trans (h.1 ▸ h'.2)⟩

/-- Rows of one class get one thread. -/
theorem OneClass.threadOf_eq {r s : Message} (h : OneClass lower db r s) (hr : r ∈ db.messages.rows)
    (hs : s ∈ db.messages.rows) :
    threadOf (rebuildThreads digest lower db).2 r = threadOf (rebuildThreads digest lower db).2 s :=
  (rebuilt_rebuildThreads digest lower db r.accountID).threadOf_of_class (mem_rowsOf.mpr ⟨hr, rfl⟩)
    (mem_rowsOf.mpr ⟨hs, h.1.symm⟩) h.2

/-- The thread of the oldest row of a class. -/
theorem threadOf_of_firstOf {q : Message} (hq : FirstOf db.messages.rows (OneClass lower db q) q) :
    threadOf (rebuildThreads digest lower db).2 q = ownThread digest q := by
  refine (rebuilt_rebuildThreads digest lower db q.accountID).threadOf_of_first
    ⟨mem_rowsOf.mpr ⟨hq.row, rfl⟩, rfl, fun s hs hclass => ?_⟩
  obtain ⟨hs, hacc⟩ := mem_rowsOf.mp hs
  exact hq.first s hs ⟨hacc.symm, hclass.symm⟩

/-- How many threads a rebuild reports. -/
private theorem threads_fold (accountIDs : List Nat) :
    ∀ st : Nat × DB, accountIDs.Nodup →
      (accountIDs.foldl (fun st a =>
        let r := rebuildAccountThreads digest lower st.2 a
        (st.1 + r.1, r.2)) st).1
      = st.1 + (accountIDs.map fun a => distinct (classOf lower (rowsOf st.2 a)) (rowsOf st.2 a)).sum := by
  induction accountIDs with
  | nil => intro st _; rfl
  | cons a rest ih =>
      intro st hnodup
      obtain ⟨ha, hrest⟩ := List.nodup_cons.mp hnodup
      have hsame : ∀ b ∈ rest, rowsOf (rebuildAccountThreads digest lower st.2 a).2 b = rowsOf st.2 b :=
        fun b hb => rowsOf_rebuild_of_ne fun heq => ha (heq ▸ hb)
      rw [List.foldl_cons, ih _ hrest, List.map_cons, List.sum_cons]
      dsimp only
      rw [threads_rebuildAccountThreads, List.map_congr_left fun b hb => by rw [hsame b hb], Nat.add_assoc]

/-- **A rebuild reports as many threads as there are classes.** -/
theorem threads_rebuildThreads (digest : Text → Text) (lower : Char → Char) (db : DB) :
    (rebuildThreads digest lower db).1 = (((db.messages.rows.map Message.accountID).dedup).map fun a =>
      distinct (classOf lower (rowsOf db a)) (rowsOf db a)).sum := by
  unfold rebuildThreads
  rw [threads_fold _ _ (List.nodup_dedup _), Nat.zero_add]

theorem rows_rebuildThreads {r' : Message} :
    r' ∈ (rebuildThreads digest lower db).2.messages.rows ↔ ∃ r ∈ db.messages.rows,
      r' = retagAll (changes digest lower (rowsOf db r.accountID)) r := by
  have hrows := @rowsOf_rebuildThreads digest lower db
  constructor
  · intro hr'
    have hmem := mem_rowsOf.mpr ⟨hr', rfl⟩
    rw [hrows r'.accountID] at hmem
    obtain ⟨r, hr, heq⟩ := List.mem_map.mp hmem
    obtain ⟨hr, hacc⟩ := mem_rowsOf.mp hr
    exact ⟨r, hr, by rw [hacc, heq]⟩
  · rintro ⟨r, hr, rfl⟩
    have hmem := List.mem_map_of_mem (f := retagAll (changes digest lower (rowsOf db r.accountID)))
      (mem_rowsOf.mpr ⟨hr, rfl⟩)
    rw [← hrows r.accountID] at hmem
    exact (mem_rowsOf.mp hmem).1

/-- Threads that tell classes apart are as many as are reported. -/
theorem count_rebuildThreads
    (hapart : ∀ r ∈ db.messages.rows, ∀ s ∈ db.messages.rows,
      threadOf (rebuildThreads digest lower db).2 r = threadOf (rebuildThreads digest lower db).2 s →
        OneClass lower db r s) :
    (rebuildThreads digest lower db).1
      = distinct Message.threadID (rebuildThreads digest lower db).2.messages.rows := by
  have hthread : ∀ r ∈ db.messages.rows,
      (retagAll (changes digest lower (rowsOf db r.accountID)) r).threadID
        = threadOf (rebuildThreads digest lower db).2 r := fun r hr =>
    ((rebuilt_rebuildThreads digest lower db r.accountID).threadOf_eq (mem_rowsOf.mpr ⟨hr, rfl⟩)).symm
  rw [threads_rebuildThreads,
    distinct_eq_sum Message.accountID ((db.messages.rows.map Message.accountID).dedup)
      (List.nodup_dedup _)]
  · refine congrArg List.sum (List.map_congr_left fun a _ => ?_)
    have hrows : (rebuildThreads digest lower db).2.messages.rows.filter (fun m => m.accountID = a)
        = rowsOf (rebuildThreads digest lower db).2 a := rfl
    rw [hrows, (rebuilt_rebuildThreads digest lower db a).distinct_threadID]
    intro r hr s hs hsame
    obtain ⟨hr, hacc⟩ := mem_rowsOf.mp hr
    rw [← hacc]
    exact (hapart r hr s (mem_rowsOf.mp hs).1 hsame).2
  · intro r' hr'
    obtain ⟨r, hr, rfl⟩ := rows_rebuildThreads.mp hr'
    rw [List.mem_dedup, (retagAll_keys _ r).2.2]
    exact List.mem_map_of_mem hr
  · intro r' hr' s' hs' hsame
    obtain ⟨r, hr, rfl⟩ := rows_rebuildThreads.mp hr'
    obtain ⟨s, hs, rfl⟩ := rows_rebuildThreads.mp hs'
    rw [hthread r hr, hthread s hs] at hsame
    rw [(retagAll_keys _ r).2.2, (retagAll_keys _ s).2.2]
    exact (hapart r hr s hs hsame).1

/-- **A rebuild restores the conversations exactly if** places are known in every account, and no
two of them have been given one name. -/
theorem rebuild_restores_iff :
    Restores digest lower db ↔
      (∀ a, PlacesKnown (FallsBack lower (rowsOf db a)) (rowsOf db a)) ∧ NamesApart digest lower db := by
  constructor
  · intro h
    have hplaces : ∀ a, PlacesKnown (FallsBack lower (rowsOf db a)) (rowsOf db a) := by
      intro a
      refine (classOf_iff_places lower db a).mp fun r hr s hs => ⟨fun hclass => ?_, fun hconn => ?_⟩
      · have hthread := (rebuilt_rebuildThreads digest lower db a).threadOf_of_class hr hs hclass
        obtain ⟨hr, hacc⟩ := mem_rowsOf.mp hr
        rw [← hacc]
        exact ((h.threads r hr s (mem_rowsOf.mp hs).1).mp hthread).2
      · exact (spans_forest lower (nodup_ids db a) _ _).mpr
          (linked_of_connected (fun r p h => .rel _ _ (Or.inr ⟨r, p, h, rfl, rfl⟩)) hconn)
    have hone : ∀ {r s}, r ∈ db.messages.rows → s ∈ db.messages.rows →
        (Together lower db r s ↔ OneClass lower db r s) := together_iff_oneClass hplaces
    refine ⟨hplaces, fun q q' hq hq' hname => ?_⟩
    have hthread := @threadOf_of_firstOf digest lower db q (hq.congr fun s hs => hone hq.row hs)
    have hthread' := @threadOf_of_firstOf digest lower db q' (hq'.congr fun s hs => hone hq'.row hs)
    exact (h.threads q hq.row q' hq'.row).mp (hthread.trans (hname.trans hthread'.symm))
  · rintro ⟨hplaces, hnames⟩
    have hone : ∀ {r s}, r ∈ db.messages.rows → s ∈ db.messages.rows →
        (Together lower db r s ↔ OneClass lower db r s) := together_iff_oneClass hplaces
    have hapart : ∀ r ∈ db.messages.rows, ∀ s ∈ db.messages.rows,
        threadOf (rebuildThreads digest lower db).2 r = threadOf (rebuildThreads digest lower db).2 s →
          OneClass lower db r s := by
      intro r hr s hs hsame
      obtain ⟨q, hq, hrq, hqr⟩ := @exists_first_oneClass digest lower db r hr
      obtain ⟨q', hq', hsq, hqs⟩ := @exists_first_oneClass digest lower db s hs
      have hjoined : Together lower db q q' :=
        hnames q q' (hq.congr fun t ht => (hone hq.row ht).symm)
          (hq'.congr fun t ht => (hone hq'.row ht).symm) (hqr.symm.trans (hsame.trans hqs))
      exact hrq.trans (((hone hq.row hq'.row).mp hjoined).trans hsq.symm)
    refine ⟨fun r hr s hs => ?_, fun q hq hthread r hr hqr => ?_, count_rebuildThreads hapart⟩
    · rw [hone hr hs]
      exact ⟨hapart r hr s hs, fun h => h.threadOf_eq hr hs⟩
    · rw [← ((hone hq.row hr).mp hqr).threadOf_eq hq.row hr,
        threadOf_of_firstOf (hq.congr fun s hs => hone hq.row hs)]
      exact if_neg hthread

/-- Two mails that were given one thread and have nothing in common. -/
def overMerged : DB :=
  { DB.empty with
    messages := ⟨[{ Message.bare 1 1 1 (.numbered 2) with
        messageID := "a".toList, threadID := "1:x".toList, date := 10 },
      { Message.bare 2 1 1 (.numbered 3) with
        messageID := "b".toList, threadID := "1:x".toList, date := 20 }], 2,
      by decide, by decide, by decide⟩ }

/-- **The rebuild reports two threads, and leaves one.** -/
theorem rebuild_leaves_overMerged : ¬ Restores sampleDigest Char.toLower overMerged := by
  intro h
  have hcount := h.count
  revert hcount
  decide

end Whole

end FlyMail.Message
