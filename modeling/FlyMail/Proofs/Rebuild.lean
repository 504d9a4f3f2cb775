/-
The rebuild against the threads that were found as mail came in.

The rebuild joins nodes, not rows: the node of a mail is its Message-ID, and a mail
without one has a node made from its place.  Rows of one class get the thread of the
oldest of them (`spec_rename`).  So the rebuild leaves the threads alone exactly if rows
of one class already have one thread.

Where the headers say all, classes are conversations, with one exception: a Message-ID
may read like the place of a mail that has none.  The two then share a node, whatever
else they have to do with each other.  `rebuild_keeps_threads_iff` says that nothing but
this can go wrong.
-/
import FlyMail.Lib.Distinct
import FlyMail.Proofs.Threads

namespace FlyMail.Message

open Proc

/-! ### The passes over the rows -/

/-- All links of the headers are in the forest. -/
def LinksIn (u : UnionFind Text) (rows : List Message) : Prop :=
  ∀ r ∈ rows, r.inReplyTo ≠ [] → u.root (node r) = u.root r.inReplyTo

theorem linkHeaders_eq (u : UnionFind Text) {m : Message} (hrefs : m.references = []) :
    linkHeaders u m = if m.inReplyTo ≠ [] then (u.find (node m)).2.union (node m) m.inReplyTo
      else (u.find (node m)).2 := by
  unfold linkHeaders
  rw [hrefs, Text.fields_nil]
  rfl

/-- Joined nodes stay joined. -/
theorem root_linkHeaders_mono {u : UnionFind Text} {m : Message} (hrefs : m.references = [])
    {v w : Text} (h : u.root v = u.root w) :
    (linkHeaders u m).root v = (linkHeaders u m).root w := by
  have hfind : (u.find (node m)).2.root v = (u.find (node m)).2.root w := by
    rw [UnionFind.root_find, UnionFind.root_find, h]
  rw [linkHeaders_eq u hrefs]
  split
  · exact UnionFind.root_union_mono hfind _ _
  · exact hfind

theorem linksIn_foldl (rows : List Message) :
    ∀ (u : UnionFind Text) (done : List Message), LinksIn u done →
      (∀ r ∈ rows, r.references = []) → LinksIn (rows.foldl linkHeaders u) (done ++ rows) := by
  induction rows with
  | nil =>
      intro u done h _
      rwa [List.append_nil]
  | cons m rest ih =>
      intro u done h hrefs
      have hm := hrefs m List.mem_cons_self
      have hstep : LinksIn (linkHeaders u m) (done ++ [m]) := by
        intro r hr hne
        rcases List.mem_append.mp hr with hr | hr
        · exact root_linkHeaders_mono hm (h r hr hne)
        · rw [List.mem_singleton] at hr
          subst hr
          rw [linkHeaders_eq u hm, if_pos hne]
          exact UnionFind.root_union_self _ _ _
      have hrest := ih (linkHeaders u m) (done ++ [m]) hstep
        fun r hr => hrefs r (List.mem_cons_of_mem _ hr)
      rw [List.append_assoc] at hrest
      exact hrest

/-- Labels that agree along the links agree along the forest. -/
theorem respects_foldl {lab : Text → Text} (rows : List Message) :
    ∀ (u : UnionFind Text), u.Respects lab → (∀ r ∈ rows, r.references = []) →
      (∀ r ∈ rows, r.inReplyTo ≠ [] → lab (node r) = lab r.inReplyTo) →
      (rows.foldl linkHeaders u).Respects lab := by
  induction rows with
  | nil =>
      intro u h _ _
      exact h
  | cons m rest ih =>
      intro u h hrefs hlab
      have hfind : (u.find (node m)).2.Respects lab := by
        intro x
        rw [UnionFind.root_find]
        exact h x
      refine ih (linkHeaders u m) ?_ (fun r hr => hrefs r (List.mem_cons_of_mem _ hr))
        fun r hr => hlab r (List.mem_cons_of_mem _ hr)
      rw [linkHeaders_eq u (hrefs m List.mem_cons_self)]
      split
      · rename_i hne
        exact hfind.union (hlab m List.mem_cons_self hne)
      · exact hfind

/-- No subject joins anything where none carries a reply prefix. -/
theorem linkSubject_foldl {lower : Char → Char} (rows : List Message) :
    ∀ st, (∀ r ∈ rows, (normalizeSubject lower r.subject).2 = false) →
      (rows.foldl (linkSubject lower) st).1 = st.1 := by
  induction rows with
  | nil =>
      intro st _
      rfl
  | cons m rest ih =>
      intro st h
      have hm : (linkSubject lower st m).1 = st.1 := by
        unfold linkSubject
        dsimp only
        rw [h m List.mem_cons_self]
        split <;> simp
      rw [List.foldl_cons, ih _ fun r hr => h r (List.mem_cons_of_mem _ hr), hm]

/-! ### The last pass -/

/-- The thread a row gives its class if it is the oldest of it. -/
def ownThread (digest : Text → Text) (m : Message) : Text :=
  if m.threadID = [] then threadKey digest m else m.threadID

theorem ownThread_ne_nil (digest : Text → Text) (m : Message) : ownThread digest m ≠ [] := by
  unfold ownThread
  split
  · exact threadKey_ne_nil digest m
  · assumption

/-- The thread of a class: that of the first row of it. -/
def classThread (digest : Text → Text) (cls : Message → Text) (rows : List Message) (set : Text) :
    Option Text :=
  (rows.find? fun q => cls q = set).map (ownThread digest)

section LastPass

variable {digest : Text → Text} {cls : Message → Text} {rows : List Message}

/-- A row's class has a thread, and it is that of a row of the class that comes no later. -/
theorem exists_classThread {r : Message} (hr : r ∈ rows) :
    ∃ q ∈ rows, cls q = cls r ∧ classThread digest cls rows (cls r) = some (ownThread digest q) := by
  have hsome : (rows.find? fun q => cls q = cls r).isSome := by
    rw [List.find?_isSome]
    exact ⟨r, hr, by simp⟩
  obtain ⟨q, hq⟩ := Option.isSome_iff_exists.mp hsome
  refine ⟨q, List.mem_of_find?_eq_some hq, by simpa using List.find?_some hq, ?_⟩
  unfold classThread
  rw [hq]
  rfl

/-- Rows that come later do not change it. -/
theorem classThread_append {set tid : Text} (h : classThread digest cls rows set = some tid)
    (rest : List Message) : classThread digest cls (rows ++ rest) set = some tid := by
  obtain ⟨q, hq, hown⟩ := Option.map_eq_some_iff.mp h
  unfold classThread
  rw [List.find?_append, hq, Option.some_or, Option.map_some, hown]

theorem classThread_concat (m : Message) (set : Text) :
    classThread digest cls (rows ++ [m]) set
      = (classThread digest cls rows set).or (if cls m = set then some (ownThread digest m) else none) := by
  unfold classThread
  rw [List.find?_append]
  cases rows.find? fun q => cls q = set with
  | some q => rfl
  | none =>
      rw [Option.none_or, Option.map_none, Option.none_or]
      by_cases h : cls m = set
      · simp [h]
      · simp [h]

/-- The changes for rows of which the last pass has seen `all` in the end. -/
def renames (digest : Text → Text) (cls : Message → Text) (all rows : List Message) :
    List (Nat × Text) :=
  rows.filterMap fun r =>
    (classThread digest cls all (cls r)).bind fun tid =>
      if r.threadID ≠ tid then some (r.id, tid) else none

theorem mem_renames {all : List Message} {p : Nat × Text} :
    p ∈ renames digest cls all rows ↔ ∃ r ∈ rows, ∃ tid,
      classThread digest cls all (cls r) = some tid ∧ r.threadID ≠ tid ∧ p = (r.id, tid) := by
  unfold renames
  simp only [List.mem_filterMap, Option.bind_eq_some_iff, Option.ite_none_right_eq_some,
    Option.some.injEq, eq_comm (b := p)]

/-- What holds once the rows `done` are through; `all` are those there will be. -/
structure Renamed (digest : Text → Text) (u : UnionFind Text) (all done : List Message)
    (st : Renaming) : Prop where
  roots : ∀ x, st.uf.root x = u.root x
  threads : ∀ set, st.rootOf set = classThread digest (fun r => u.root (node r)) done set
  count : st.threads = distinct (fun r => u.root (node r)) done
  updates : st.updates = renames digest (fun r => u.root (node r)) all done

/-- **One row of the last pass.** -/
theorem Renamed.step {u : UnionFind Text} {all done rest : List Message} {m : Message}
    {st : Renaming} (h : Renamed digest u all done st) (hall : all = done ++ [m] ++ rest) :
    Renamed digest u all (done ++ [m]) (rename digest st m) := by
  have hset : (st.uf.find (node m)).1 = u.root (node m) := by
    rw [UnionFind.find_fst, h.roots]
  have hroots : ∀ x, (st.uf.find (node m)).2.root x = u.root x := by
    intro x
    rw [UnionFind.root_find, h.roots]
  -- the change of this row, if its class has the thread `tid` from here on
  have hupdates : ∀ tid, classThread digest (fun r => u.root (node r)) (done ++ [m]) (u.root (node m))
      = some tid → (if m.threadID ≠ tid then st.updates ++ [(m.id, tid)] else st.updates)
        = renames digest (fun r => u.root (node r)) all (done ++ [m]) := by
    intro tid htid
    have hlast : renames digest (fun r => u.root (node r)) all [m]
        = if m.threadID ≠ tid then [(m.id, tid)] else [] := by
      unfold renames
      rw [hall]
      simp only [List.filterMap_cons, List.filterMap_nil, classThread_append htid, Option.bind_some]
      split
      · simp_all
      · simp_all
    have happend : renames digest (fun r => u.root (node r)) all (done ++ [m])
        = st.updates ++ renames digest (fun r => u.root (node r)) all [m] := by
      rw [h.updates]
      exact List.filterMap_append
    rw [happend, hlast]
    split
    · rfl
    · rw [List.append_nil]
  have hthread := @classThread_concat digest (fun r => u.root (node r)) done m
  unfold rename
  dsimp only
  rw [hset]
  cases hroot : st.rootOf (u.root (node m)) with
  | some tid =>
      have hold : classThread digest (fun r => u.root (node r)) done (u.root (node m)) = some tid :=
        (h.threads _).symm.trans hroot
      refine ⟨hroots, fun set => ?_, ?_, hupdates tid (classThread_append hold [m])⟩
      · rw [hthread, h.threads]
        by_cases heq : u.root (node m) = set
        · rw [← heq, hold, Option.some_or]
        · rw [if_neg heq, Option.or_none]
      · obtain ⟨q, hq, -⟩ := Option.map_eq_some_iff.mp hold
        have hclass : u.root (node q) = u.root (node m) := by simpa using List.find?_some hq
        exact h.count.trans (distinct_concat_of_exists ⟨q, List.mem_of_find?_eq_some hq, hclass⟩).symm
  | none =>
      have hnone : classThread digest (fun r => u.root (node r)) done (u.root (node m)) = none :=
        (h.threads _).symm.trans hroot
      have hnew : ∀ q ∈ done, u.root (node q) ≠ u.root (node m) := by
        intro q hq hclass
        have hfind := List.find?_eq_none.mp (Option.map_eq_none_iff.mp hnone) q hq
        exact hfind (decide_eq_true hclass)
      refine ⟨hroots, fun set => ?_, ?_, hupdates (ownThread digest m) ?_⟩
      · rw [hthread]
        by_cases heq : u.root (node m) = set
        · rw [← heq, hnone, if_pos rfl, Option.none_or]
          exact Function.update_self ..
        · rw [if_neg heq, Option.or_none, ← h.threads]
          exact Function.update_of_ne (Ne.symm heq) ..
      · rw [distinct_concat_of_forall hnew, h.count]
      · rw [hthread, hnone, if_pos rfl, Option.none_or]

/-- **The last pass.** -/
theorem Renamed.foldl {u : UnionFind Text} {all : List Message} (rows : List Message) :
    ∀ {done : List Message} {st : Renaming}, Renamed digest u all done st → all = done ++ rows →
      Renamed digest u all all (rows.foldl (rename digest) st) := by
  induction rows with
  | nil =>
      rintro done st h rfl
      rwa [List.append_nil] at h ⊢
  | cons m rest ih =>
      intro done st h hall
      have hall' : all = done ++ [m] ++ rest := by rw [hall, List.append_assoc]; rfl
      exact ih (h.step hall') hall'

theorem renamed_nil (digest : Text → Text) (u : UnionFind Text) (all : List Message) :
    Renamed digest u all [] ⟨u, fun _ => none, 0, []⟩ :=
  ⟨fun _ => rfl, fun _ => rfl, rfl, rfl⟩

end LastPass

/-! ### What the rebuild writes -/

/-- The row with the thread the updates give it. -/
def retagAll (updates : List (Nat × Text)) (r : Message) : Message :=
  updates.foldl (fun r p => if r.id == p.1 then { r with threadID := p.2 } else r) r

theorem retagAll_cons (p : Nat × Text) (rest : List (Nat × Text)) (r : Message) :
    retagAll (p :: rest) r
      = retagAll rest (if r.id == p.1 then { r with threadID := p.2 } else r) := rfl

private theorem tag_id (p : Nat × Text) (r : Message) :
    (if r.id == p.1 then { r with threadID := p.2 } else r).id = r.id := by
  split <;> rfl

theorem retagAll_keys (updates : List (Nat × Text)) :
    ∀ r : Message, (retagAll updates r).id = r.id ∧ (retagAll updates r).key = r.key ∧
      (retagAll updates r).accountID = r.accountID := by
  induction updates with
  | nil => intro r; exact ⟨rfl, rfl, rfl⟩
  | cons p rest ih =>
      intro r
      rw [retagAll_cons]
      obtain ⟨h1, h2, h3⟩ := ih (if r.id == p.1 then { r with threadID := p.2 } else r)
      refine ⟨h1.trans (tag_id p r), h2.trans ?_, h3.trans ?_⟩
      · split <;> rfl
      · split <;> rfl

/-- A row no update names stays. -/
theorem retagAll_of_notMem (updates : List (Nat × Text)) :
    ∀ {r : Message}, (∀ p ∈ updates, p.1 ≠ r.id) → retagAll updates r = r := by
  induction updates with
  | nil => intro r _; rfl
  | cons p rest ih =>
      intro r h
      have hp : r.id ≠ p.1 := fun he => h p List.mem_cons_self he.symm
      rw [retagAll_cons, if_neg (by simpa using hp)]
      exact ih fun q hq => h q (List.mem_cons_of_mem _ hq)

/-- A row whose updates all say `tid` gets it. -/
theorem retagAll_threadID {tid : Text} (updates : List (Nat × Text)) :
    ∀ {r : Message}, (∀ p ∈ updates, p.1 = r.id → p.2 = tid) →
      (r.threadID = tid ∨ (r.id, tid) ∈ updates) → (retagAll updates r).threadID = tid := by
  induction updates with
  | nil =>
      intro r _ h
      exact h.resolve_right List.not_mem_nil
  | cons p rest ih =>
      intro r hall h
      rw [retagAll_cons]
      refine ih ?_ ?_
      · intro q hq he
        exact hall q (List.mem_cons_of_mem _ hq) (he.trans (tag_id p r))
      · by_cases hp : r.id = p.1
        · rw [if_pos (by simpa using hp)]
          exact Or.inl (hall p List.mem_cons_self hp.symm)
        · rw [if_neg (by simpa using hp)]
          refine h.imp_right fun hmem => ?_
          rcases List.mem_cons.mp hmem with he | hmem
          · exact absurd (congrArg Prod.fst he) hp
          · exact hmem

theorem applyUpdates_rows (updates : List (Nat × Text)) :
    ∀ db : DB, (applyUpdates updates db).messages.rows
      = db.messages.rows.map (retagAll updates) := by
  induction updates with
  | nil =>
      intro db
      exact (List.map_id _).symm
  | cons p rest ih =>
      intro db
      have hcons : applyUpdates (p :: rest) db = applyUpdates rest (Repository.setThread p.1 p.2 db) :=
        rfl
      rw [hcons, ih, Repository.setThread_rows, List.map_map]
      exact List.map_congr_left fun r _ => (retagAll_cons p rest r).symm

/-- The rows of an account. -/
def rowsOf (db : DB) (accountID : Nat) : List Message :=
  db.messages.rows.filter fun m => m.accountID == accountID

theorem mem_rowsOf {db : DB} {accountID : Nat} {r : Message} :
    r ∈ rowsOf db accountID ↔ r ∈ db.messages.rows ∧ r.accountID = accountID := by
  unfold rowsOf
  simp [List.mem_filter]

/-- The changes of an account's rebuild. -/
def changes (digest : Text → Text) (lower : Char → Char) (rows : List Message) :
    List (Nat × Text) :=
  (renameAll digest lower (byDate rows)).updates

section Rebuild

variable {digest : Text → Text} {lower : Char → Char}

private theorem rowsOf_applyUpdates (updates : List (Nat × Text)) (db : DB) (accountID : Nat) :
    rowsOf (applyUpdates updates db) accountID
      = (rowsOf db accountID).map (retagAll updates) := by
  unfold rowsOf
  rw [applyUpdates_rows, List.filter_map]
  refine congrArg _ (List.filter_congr fun r _ => ?_)
  simp [(retagAll_keys updates r).2.2]

/-- The rows the last pass works on. -/
theorem mem_byDate {rows : List Message} {r : Message} : r ∈ byDate rows ↔ r ∈ rows :=
  (List.perm_insertionSort _ rows).mem_iff

/-- The forest of a rebuild. -/
def forest (lower : Char → Char) (rows : List Message) : UnionFind Text :=
  ((byDate rows).foldl (linkSubject lower) ((byDate rows).foldl linkHeaders .empty, fun _ => none)).1

/-- The class of a row. -/
def classOf (lower : Char → Char) (rows : List Message) (r : Message) : Text :=
  (forest lower rows).root (node r)

theorem renamed_renameAll (rows : List Message) :
    Renamed digest (forest lower rows) (byDate rows) (byDate rows)
      (renameAll digest lower (byDate rows)) :=
  (renamed_nil digest _ _).foldl _ rfl

/-- A change is for a row that does not have the thread of its class. -/
theorem mem_changes {rows : List Message} {p : Nat × Text} :
    p ∈ changes digest lower rows ↔ ∃ r ∈ rows, ∃ tid,
      classThread digest (classOf lower rows) (byDate rows) (classOf lower rows r) = some tid ∧
        r.threadID ≠ tid ∧ p = (r.id, tid) := by
  unfold changes
  rw [(renamed_renameAll rows).updates, mem_renames]
  simp only [mem_byDate]
  exact Iff.rfl

/-- **Rows get the thread of their class.** -/
theorem retagAll_changes {rows : List Message} (hids : ∀ a ∈ rows, ∀ b ∈ rows, a.id = b.id → a = b)
    {r : Message} (hr : r ∈ rows) :
    classThread digest (classOf lower rows) (byDate rows) (classOf lower rows r)
      = some (retagAll (changes digest lower rows) r).threadID := by
  obtain ⟨q, -, -, hthread⟩ := @exists_classThread digest (classOf lower rows) (byDate rows) r
    (mem_byDate.mpr hr)
  rw [hthread]
  refine congrArg some (retagAll_threadID _ ?_ ?_).symm
  · intro p hp hid
    obtain ⟨r', hr', tid, htid, -, rfl⟩ := mem_changes.mp hp
    rw [hids r' hr' r hr hid, hthread] at htid
    exact (Option.some.inj htid).symm
  · by_cases heq : r.threadID = ownThread digest q
    · exact Or.inl heq
    · exact Or.inr (mem_changes.mpr ⟨r, hr, _, hthread, heq, rfl⟩)

theorem rowsOf_rebuild_self (db : DB) (accountID : Nat) :
    rowsOf (rebuildAccountThreads digest lower db accountID).2 accountID
      = (rowsOf db accountID).map (retagAll (changes digest lower (rowsOf db accountID))) :=
  rowsOf_applyUpdates _ _ _

/-- A rebuild leaves the other accounts alone. -/
theorem rowsOf_rebuild_of_ne {db : DB} {accountID other : Nat} (hne : other ≠ accountID) :
    rowsOf (rebuildAccountThreads digest lower db other).2 accountID = rowsOf db accountID := by
  have hmap := rowsOf_applyUpdates (changes digest lower (rowsOf db other)) db accountID
  refine hmap.trans ((List.map_congr_left fun r hr => ?_).trans (List.map_id _))
  refine retagAll_of_notMem _ fun p hp hid => ?_
  obtain ⟨r', hr', tid, -, -, rfl⟩ := mem_changes.mp hp
  rw [mem_rowsOf] at hr hr'
  have heq : r' = r := db.messages.eq_of_pk hr'.1 hr.1 hid
  rw [heq, hr.2] at hr'
  exact hne hr'.2.symm

private theorem rowsOf_fold (accountIDs : List Nat) (accountID : Nat) :
    ∀ st : Nat × DB, accountIDs.Nodup →
      rowsOf (accountIDs.foldl (fun st a =>
        let r := rebuildAccountThreads digest lower st.2 a
        (st.1 + r.1, r.2)) st).2 accountID
      = if accountID ∈ accountIDs then
          (rowsOf st.2 accountID).map (retagAll (changes digest lower (rowsOf st.2 accountID)))
        else rowsOf st.2 accountID := by
  induction accountIDs with
  | nil =>
      intro st _
      rw [if_neg List.not_mem_nil]
      rfl
  | cons a rest ih =>
      intro st hnodup
      rw [List.nodup_cons] at hnodup
      rw [List.foldl_cons, ih _ hnodup.2]
      by_cases ha : a = accountID
      · subst ha
        rw [if_neg hnodup.1, if_pos List.mem_cons_self]
        exact rowsOf_rebuild_self _ _
      · have hiff : accountID ∈ a :: rest ↔ accountID ∈ rest := by
          rw [List.mem_cons]
          exact or_iff_right fun he => ha he.symm
        simp only [hiff, rowsOf_rebuild_of_ne ha]

/-- **Rebuilding all accounts rebuilds each of them once.** -/
theorem rowsOf_rebuildThreads (db : DB) (accountID : Nat) :
    rowsOf (rebuildThreads digest lower db).2 accountID
      = (rowsOf db accountID).map (retagAll (changes digest lower (rowsOf db accountID))) := by
  unfold rebuildThreads
  rw [rowsOf_fold _ _ _ (List.nodup_dedup _)]
  by_cases hmem : accountID ∈ (db.messages.rows.map Message.accountID).dedup
  · rw [if_pos hmem]
  · have hnil : rowsOf db accountID = [] := by
      rw [List.eq_nil_iff_forall_not_mem]
      intro r hr
      rw [mem_rowsOf] at hr
      rw [List.mem_dedup] at hmem
      exact hmem (List.mem_map.mpr ⟨r, hr.1, hr.2⟩)
    rw [if_neg hmem, hnil]
    rfl

/-- The forest of an account without reply subjects. -/
def headerForest (rows : List Message) : UnionFind Text :=
  (byDate rows).foldl linkHeaders .empty

/-- **What the rebuild does**: rows of one class get one thread, and where they all had
one it is that. -/
theorem spec_rebuild {db : DB} {accountID : Nat}
    (hsubject : ∀ r ∈ rowsOf db accountID, (normalizeSubject lower r.subject).2 = false) :
    ∃ T : Text → Text,
      (∀ r ∈ rowsOf db accountID, threadOf (rebuildThreads digest lower db).2 r
        = T ((headerForest (rowsOf db accountID)).root (node r))) ∧
      ∀ r ∈ rowsOf db accountID, ∃ r₁ ∈ rowsOf db accountID,
        (headerForest (rowsOf db accountID)).root (node r₁)
          = (headerForest (rowsOf db accountID)).root (node r) ∧
        (r₁.threadID = [] ∨
          r₁.threadID = T ((headerForest (rowsOf db accountID)).root (node r))) := by
  have hforest : forest lower (rowsOf db accountID) = headerForest (rowsOf db accountID) :=
    linkSubject_foldl _ _ fun r hr => hsubject r (mem_byDate.mp hr)
  have hids : ∀ a ∈ rowsOf db accountID, ∀ b ∈ rowsOf db accountID, a.id = b.id → a = b :=
    fun a ha b hb => db.messages.eq_of_pk (mem_rowsOf.mp ha).1 (mem_rowsOf.mp hb).1
  let T := classThread digest (classOf lower (rowsOf db accountID)) (byDate (rowsOf db accountID))
  refine ⟨fun set => (T set).getD [], ?_, ?_⟩
  · intro r hr
    have hmem : retagAll (changes digest lower (rowsOf db accountID)) r
        ∈ (rebuildThreads digest lower db).2.messages.rows := by
      have hin := List.mem_map_of_mem (f := retagAll (changes digest lower (rowsOf db accountID))) hr
      rw [← rowsOf_rebuildThreads, mem_rowsOf] at hin
      exact hin.1
    have hthread : T (classOf lower (rowsOf db accountID) r)
        = some (retagAll (changes digest lower (rowsOf db accountID)) r).threadID :=
      retagAll_changes hids hr
    unfold classOf at hthread
    rw [hforest] at hthread
    rw [threadOf_of_mem hmem (retagAll_keys _ r).2.1]
    dsimp only
    rw [hthread, Option.getD_some]
  · intro r hr
    obtain ⟨r₁, hr₁, hclass, hthread⟩ := @exists_classThread digest
      (classOf lower (rowsOf db accountID)) _ r (mem_byDate.mpr hr)
    have hthread : T (classOf lower (rowsOf db accountID) r) = some (ownThread digest r₁) := hthread
    unfold classOf at hclass hthread
    rw [hforest] at hclass hthread
    refine ⟨r₁, mem_byDate.mp hr₁, hclass, ?_⟩
    dsimp only
    rw [hthread, Option.getD_some]
    unfold ownThread
    by_cases hnil : r₁.threadID = []
    · exact Or.inl hnil
    · rw [if_neg hnil]
      exact Or.inr rfl

end Rebuild

/-! ### Threads, conversations and the rebuild -/

section Main

variable {digest : Text → Text} {lower : Char → Char} {accountID : Nat} {mails : List Message}
  {db : DB}

/-- Every mail has its row, and the account has no others. -/
private theorem Threaded.exists_row (h : Threaded digest accountID mails db)
    (hm : Mails accountID mails) (hall : ∀ x ∈ mails, threadOf db x ≠ []) {x : Message}
    (hx : x ∈ mails) : ∃ r ∈ rowsOf db accountID, Stores r x ∧ r.threadID = threadOf db x := by
  obtain ⟨r, hr, hk, hlab⟩ := exists_row_of_threadOf (hall x hx)
  have hs := h.stores hm hr hx hk
  exact ⟨r, mem_rowsOf.mpr ⟨hr, hs.account.trans (hm.account x hx)⟩, hs, hlab⟩

theorem Stores.node {r x : Message} (h : Stores r x) : node r = node x := by
  unfold Message.node
  rw [h.messageID, h.place]

theorem threadOf_congr (db : DB) {x y : Message} (h : x.key = y.key) :
    threadOf db x = threadOf db y := by
  unfold threadOf
  rw [h]

/-- A mail without a Message-ID whose place reads like the Message-ID of another mail
belongs to that mail's conversation. -/
def PlacesApart (mails : List Message) : Prop :=
  ∀ x ∈ mails, x.messageID = [] → ∀ y ∈ mails, y.messageID = place x →
    Joined Related (fun z => z ∈ mails) x y

/-- Where places are apart, mails with one node are of one conversation. -/
private theorem joined_of_node (hm : Mails accountID mails) (hplaces : PlacesApart mails)
    {x y : Message} (hx : x ∈ mails) (hy : y ∈ mails) (h : node x = node y) :
    Joined Related (fun z => z ∈ mails) x y := by
  unfold node at h
  by_cases hxm : x.messageID = []
  · rw [if_neg (not_not.mpr hxm)] at h
    by_cases hym : y.messageID = []
    · rw [if_neg (not_not.mpr hym)] at h
      rw [hm.eq_of_key hx hy (place_inj h)]
      exact Joined.refl _
    · rw [if_pos hym] at h
      exact hplaces x hx hxm y hy h.symm
  · rw [if_pos hxm] at h
    by_cases hym : y.messageID = []
    · rw [if_neg (not_not.mpr hym)] at h
      exact (hplaces y hy hym x hx h).symm
    · rw [if_pos hym] at h
      exact Joined.of_edge hx hy (Or.inl ⟨hxm, h⟩)

/-- **Where places are apart, a class of the rebuild is a conversation.** -/
private theorem threadOf_eq_of_root (h : Threaded digest accountID mails db)
    (hm : Mails accountID mails) (hall : ∀ x ∈ mails, threadOf db x ≠ [])
    (hanswers : ∀ x ∈ mails, x.inReplyTo ≠ [] → ∃ y ∈ mails, y.messageID = x.inReplyTo)
    (hplaces : PlacesApart mails) {r s : Message} (hr : r ∈ rowsOf db accountID)
    (hs : s ∈ rowsOf db accountID) (hroot : (headerForest (rowsOf db accountID)).root (node r)
      = (headerForest (rowsOf db accountID)).root (node s)) :
    r.threadID = s.threadID := by
  classical
  -- the thread that belongs to a node
  let lab : Text → Text := fun t =>
    if hc : ∃ x ∈ mails, node x = t then threadOf db hc.choose else []
  have hlab : ∀ x ∈ mails, lab (node x) = threadOf db x := by
    intro x hx
    have hc : ∃ y ∈ mails, node y = node x := ⟨x, hx, rfl⟩
    show (if hc : ∃ y ∈ mails, node y = node x then threadOf db hc.choose else []) = _
    rw [dif_pos hc]
    obtain ⟨hy, hnode⟩ := hc.choose_spec
    exact (h.threadOf_eq_iff hall hy hx).mpr (joined_of_node hm hplaces hy hx hnode)
  have hrow : ∀ r ∈ rowsOf db accountID, ∃ x ∈ mails, Stores r x ∧
      lab (node r) = r.threadID := by
    intro r hr
    rw [mem_rowsOf] at hr
    obtain ⟨x, hx, hrx⟩ := h.stored r hr.1 hr.2
    refine ⟨x, hx, hrx, ?_⟩
    rw [hrx.node, hlab x hx, threadOf_of_mem hr.1 hrx.key]
  have hresp : (headerForest (rowsOf db accountID)).Respects lab := by
    refine respects_foldl _ _ (UnionFind.respects_empty lab) ?_ ?_
    · intro r hr
      obtain ⟨x, hx, hrx, -⟩ := hrow r (mem_byDate.mp hr)
      exact hrx.references.trans (hm.references x hx)
    · intro r hr hne
      obtain ⟨x, hx, hrx, -⟩ := hrow r (mem_byDate.mp hr)
      obtain ⟨y, hy, hid⟩ := hanswers x hx (hrx.inReplyTo ▸ hne)
      have hxy : Joined Related (fun z => z ∈ mails) x y :=
        Joined.of_edge hx hy (Or.inr (Or.inl ⟨hrx.inReplyTo ▸ hne, hid.symm⟩))
      have hnode : node y = r.inReplyTo := by
        unfold node
        rw [if_pos (by rw [hid, ← hrx.inReplyTo]; exact hne), hid, hrx.inReplyTo]
      rw [← hnode, hlab y hy, hrx.node, hlab x hx]
      exact (h.threadOf_eq_iff hall hx hy).mpr hxy
  obtain ⟨-, -, -, hlr⟩ := hrow r hr
  obtain ⟨-, -, -, hls⟩ := hrow s hs
  rw [← hlr, ← hls]
  exact hresp.lab_eq hroot

/-- **A rebuild over threaded mail changes no thread exactly if places are apart.** -/
theorem rebuildThreads_keeps_iff (h : Threaded digest accountID mails db)
    (hm : Mails accountID mails) (hall : ∀ x ∈ mails, threadOf db x ≠ [])
    (hanswers : ∀ x ∈ mails, x.inReplyTo ≠ [] → ∃ y ∈ mails, y.messageID = x.inReplyTo)
    (hsubject : ∀ x ∈ mails, (normalizeSubject lower x.subject).2 = false) :
    (∀ x ∈ mails, threadOf (rebuildThreads digest lower db).2 x = threadOf db x) ↔
      PlacesApart mails := by
  have hsubject' : ∀ r ∈ rowsOf db accountID, (normalizeSubject lower r.subject).2 = false := by
    intro r hr
    rw [mem_rowsOf] at hr
    obtain ⟨x, hx, hrx⟩ := h.stored r hr.1 hr.2
    rw [hrx.subject]
    exact hsubject x hx
  obtain ⟨T, hT, hfirst⟩ := @spec_rebuild digest lower _ _ hsubject'
  refine ⟨fun hkeep => ?_, fun hplaces => ?_⟩
  · intro x hx hxm y hy hym
    obtain ⟨r, hr, hrx, -⟩ := h.exists_row hm hall hx
    obtain ⟨s, hs, hsy, -⟩ := h.exists_row hm hall hy
    -- the two share a node, so the rebuild gives them one thread
    have hnode : node r = node s := by
      rw [hrx.node, hsy.node]
      unfold node
      rw [if_neg (not_not.mpr hxm), if_pos (by rw [hym]; simp [place]), hym]
    refine (h.threadOf_eq_iff hall hx hy).mp ?_
    rw [← hkeep x hx, ← hkeep y hy, ← threadOf_congr _ hrx.key, ← threadOf_congr _ hsy.key,
      hT r hr, hT s hs, hnode]
  · intro x hx
    obtain ⟨r, hr, hrx, hlab⟩ := h.exists_row hm hall hx
    obtain ⟨r₁, hr₁, hroot, hthread⟩ := hfirst r hr
    have heq := threadOf_eq_of_root h hm hall hanswers hplaces hr₁ hr hroot
    have hne : r₁.threadID ≠ [] := by
      rw [heq, hlab]
      exact hall x hx
    rw [← threadOf_congr _ hrx.key, hT r hr, ← hthread.resolve_left hne, heq, hlab]

/-- **Mail that comes in, in any order and any batches, and a rebuild over it**: threads
are conversations, and the rebuild leaves them alone, exactly if places are apart. -/
theorem threads_and_rebuild_iff {bs : Batches} (hm : Mails accountID (arrivals accountID bs))
    (hd : DigestOK digest (arrivals accountID bs))
    (hanswers : ∀ x ∈ arrivals accountID bs, x.inReplyTo ≠ [] →
      ∃ y ∈ arrivals accountID bs, y.messageID = x.inReplyTo)
    (hsubject : ∀ x ∈ arrivals accountID bs, (normalizeSubject lower x.subject).2 = false)
    (hother : ∀ r ∈ db.messages.rows, r.accountID ≠ accountID)
    (hfree : ∀ x ∈ arrivals accountID bs, ∀ r ∈ db.messages.rows, r.key ≠ x.key) :
    ∃ db', storeBatches digest accountID bs .calm db = (.ok (), db') ∧
      ((∀ x ∈ arrivals accountID bs, ∀ y ∈ arrivals accountID bs,
          threadOf db' x = threadOf db' y ↔
            Joined Related (fun z => z ∈ arrivals accountID bs) x y) ∧
        (∀ x ∈ arrivals accountID bs,
          threadOf (rebuildThreads digest lower db').2 x = threadOf db' x) ↔
        PlacesApart (arrivals accountID bs)) := by
  obtain ⟨db', hrun, h, hall⟩ := threaded_of_arrivals hm hd hother hfree
  refine ⟨db', hrun, ?_⟩
  rw [rebuildThreads_keeps_iff h hm hall hanswers hsubject]
  exact and_iff_right fun x hx y hy => h.threadOf_eq_iff hall hx hy

end Main

/-! ### Two mails -/

/-- A fetched mail with a Message-ID and an answer, and nothing else in its header. -/
def bareEmail (uid : UID) (messageID inReplyTo : Text) (date : Time) : ParsedEmail where
  messageID := messageID
  uid := uid
  inReplyTo := inReplyTo
  references := []
  subject := []
  sender := []
  toList := []
  ccList := []
  date := date
  size := 0
  flags := []
  isRead := false
  isStarred := false

/-- The digest of the two Message-IDs `a` and `u1-2`. -/
def sampleDigest (t : Text) : Text :=
  if t = "a".toList then "ca978112ca1bbdcafac2".toList
  else if t = "u1-2".toList then "deda8eedbc5f87b44804".toList
  else []

theorem sampleDigest_hex (t : Text) : ∀ c ∈ sampleDigest t, c ∈ "0123456789abcdef".toList := by
  unfold sampleDigest
  by_cases h1 : t = "a".toList
  · rw [if_pos h1]
    simp
  · rw [if_neg h1]
    by_cases h2 : t = "u1-2".toList
    · rw [if_pos h2]
      simp
    · rw [if_neg h2]
      simp

/-- A mail, and an answer without a Message-ID that comes in before it. -/
def answerFirst : Batches :=
  [(1, [bareEmail (.numbered 2) [] "a".toList 20]),
    (1, [bareEmail (.numbered 1) "a".toList [] 10])]

theorem threads_and_rebuild_answerFirst :
    ∃ db', storeBatches sampleDigest 1 answerFirst .calm .empty = (.ok (), db') ∧
      ((∀ x ∈ arrivals 1 answerFirst, ∀ y ∈ arrivals 1 answerFirst,
          threadOf db' x = threadOf db' y ↔
            Joined Related (fun z => z ∈ arrivals 1 answerFirst) x y) ∧
        (∀ x ∈ arrivals 1 answerFirst,
          threadOf (rebuildThreads sampleDigest Char.toLower db').2 x = threadOf db' x) ↔
        PlacesApart (arrivals 1 answerFirst)) :=
  threads_and_rebuild_iff ⟨by decide, by decide, by decide⟩ ⟨by decide, sampleDigest_hex⟩
    (by decide) (by decide) (by simp [DB.empty, Table.empty]) (by simp [DB.empty, Table.empty])

/-- A mail without a Message-ID, and one whose Message-ID reads like its place. -/
def strangers : Batches :=
  [(1, [bareEmail (.numbered 2) [] [] 10,
    bareEmail (.numbered 3) "u1-2".toList [] 20])]

/-- The database once they have come in. -/
def withStrangers : DB := (storeBatches sampleDigest 1 strangers .calm .empty).2

/-- **The rebuild makes one conversation of two mails that have nothing in common.** -/
theorem rebuild_joins_strangers :
    Mails 1 (arrivals 1 strangers) ∧ DigestOK sampleDigest (arrivals 1 strangers) ∧
      (∀ x ∈ arrivals 1 strangers, x.inReplyTo = []) ∧
      (∀ x ∈ arrivals 1 strangers, (normalizeSubject Char.toLower x.subject).2 = false) ∧
      (storeBatches sampleDigest 1 strangers .calm .empty).1 = .ok () ∧
      (arrivals 1 strangers).map (threadOf withStrangers)
        = ["1:u1-2".toList, "1:deda8eedbc5f87b44804".toList] ∧
      (arrivals 1 strangers).map
          (threadOf (rebuildThreads sampleDigest Char.toLower withStrangers).2)
        = ["1:u1-2".toList, "1:u1-2".toList] :=
  ⟨⟨by decide, by decide, by decide⟩, ⟨by decide, sampleDigest_hex⟩, by decide, by decide,
    by decide, by decide, by decide⟩

end FlyMail.Message
