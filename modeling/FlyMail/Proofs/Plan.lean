/-
A call does what its plan says.

The call loads its rows while it runs; its plan was worked out from the database the
call starts from.  For one batch the two see the same rows, since nothing is changed
before the last row is loaded.  The batches of "mark all as read" are another matter:
each loads rows the ones before it have changed.  What they change is the flags, and
no plan looks at a flag, so the plan made in advance is still the right one.

`SameRows` is that relation: the rows agree up to their flags.
-/
import FlyMail.Proofs.MailOps
import Mathlib.Data.List.Dedup

namespace FlyMail.Sync

open Proc

/-! ### Rows up to their flags -/

/-- A mail row without its flags. -/
def Message.plain (m : Message) : Message := { m with seen := false, flagged := false }

/-- The mail rows agree up to the flags. -/
def SameRows (db db' : DB) : Prop :=
  db'.messages.rows.map Message.plain = db.messages.rows.map Message.plain

def Group.plain (g : Group) : Group := { g with msgs := g.msgs.map Message.plain }

theorem Group.ids_plain (g : Group) : g.plain.ids = g.ids := by
  show (g.msgs.map Message.plain).map Message.id = g.msgs.map Message.id
  rw [List.map_map]
  rfl

theorem Group.uids_plain (g : Group) : g.plain.uids = g.uids := by
  show (g.msgs.map Message.plain).map Message.uid = g.msgs.map Message.uid
  rw [List.map_map]
  rfl

private theorem map_plain_filter {p : Message → Bool} (hp : ∀ m, p (Message.plain m) = p m)
    (l : List Message) : (l.filter p).map Message.plain = (l.map Message.plain).filter p := by
  have hcomp : p ∘ Message.plain = p := funext hp
  rw [List.filter_map, hcomp]

theorem map_plain_getChunk (db : DB) (ids : List Nat) :
    (Message.Repository.getChunk db ids).map Message.plain
      = (db.messages.rows.map Message.plain).filter fun m => ids.contains m.id :=
  map_plain_filter (fun _ => rfl) _

theorem SameRows.getChunk {db db' : DB} (h : SameRows db db') (ids : List Nat) :
    (Message.Repository.getChunk db' ids).map Message.plain
      = (Message.Repository.getChunk db ids).map Message.plain := by
  have hrows : db'.messages.rows.map Message.plain = db.messages.rows.map Message.plain := h
  rw [map_plain_getChunk, map_plain_getChunk, hrows]

/-- Label copies are told by columns the flags are not among. -/
theorem SameRows.copyIDs {db db' : DB} (h : SameRows db db') (ids : List Nat) :
    Message.Repository.copyIDs db' ids = Message.Repository.copyIDs db ids := by
  have hcopy : ∀ db : DB, Message.Repository.copyIDs db ids
      = (((db.messages.rows.map Message.plain).filter fun m =>
          (db.messages.rows.map Message.plain).any fun t =>
            ids.contains t.id && Message.Repository.isCopy m t).map Message.id) := by
    intro db
    have hany : ∀ m : Message, ((db.messages.rows.map Message.plain).any fun t =>
        ids.contains t.id && Message.Repository.isCopy m t)
        = db.messages.rows.any fun t => ids.contains t.id && Message.Repository.isCopy m t := by
      intro m
      rw [List.any_map]
      rfl
    simp only [hany]
    rw [← map_plain_filter (fun _ => rfl), List.map_map]
    rfl
  have hrows : db'.messages.rows.map Message.plain = db.messages.rows.map Message.plain := h
  rw [hcopy, hcopy, hrows]

/-! ### Grouping does not look at the flags -/

private theorem groupBy_plain {key : Message → Nat} (hkey : ∀ m, key (Message.plain m) = key m)
    (rows : List Message) :
    groupBy key (rows.map Message.plain)
      = (groupBy key rows).map fun p => (p.1, p.2.map Message.plain) := by
  have hcomp : key ∘ Message.plain = key := funext hkey
  unfold groupBy
  rw [List.map_map, hcomp, List.map_map]
  refine List.map_congr_left fun k _ => ?_
  show (k, _) = (k, _)
  rw [map_plain_filter fun m => by rw [hkey]]

private theorem byRank_plain (rank : Nat → Nat) (l : List (Nat × List Message)) :
    byRank (fun p => rank p.1) (l.map fun p => (p.1, p.2.map Message.plain))
      = (byRank (fun p => rank p.1) l).map fun p => (p.1, p.2.map Message.plain) := by
  unfold byRank
  exact (List.map_insertionSort (fun a b : Nat × List Message => rank a.1 ≤ rank b.1)
    (fun a b : Nat × List Message => rank a.1 ≤ rank b.1)
    (fun p => (p.1, p.2.map Message.plain)) l fun _ _ _ _ => Iff.rfl).symm

theorem groups_plain (o : Order) (n : Nat) (rows : List Message) :
    o.groups n (rows.map Message.plain) = (o.groups n rows).map Group.plain := by
  unfold Order.groups
  rw [groupBy_plain (fun _ => rfl), byRank_plain, List.flatMap_map, List.map_flatMap]
  refine List.flatMap_congr fun a _ => ?_
  rw [groupBy_plain (fun _ => rfl), byRank_plain, List.map_map, List.map_map]
  rfl

/-- Groups of rows that agree up to the flags agree up to the flags. -/
theorem groups_congr (o : Order) (n : Nat) {rows rows' : List Message}
    (h : rows'.map Message.plain = rows.map Message.plain) :
    (o.groups n rows').map Group.plain = (o.groups n rows).map Group.plain := by
  rw [← groups_plain, ← groups_plain, h]

/-! ### The programs see a plan's items -/

variable {φ : Site → Fault}

/-- A program that only looks at a group's keys does the same to groups that agree up to
the flags. -/
private theorem setFlagGroup_plain (now : Time) (n : Nat) (flag : MailFlag) (on : Bool)
    (g : Group) : setFlagGroup now n flag on g.plain = setFlagGroup now n flag on g := by
  have hids := g.ids_plain
  have huids := g.uids_plain
  unfold setFlagGroup
  rw [hids, huids]
  rfl

private theorem each_setFlagGroup_congr (now : Time) (n : Nat) (flag : MailFlag) (on : Bool)
    {gs gs' : List Group} (h : gs'.map Group.plain = gs.map Group.plain) :
    each (setFlagGroup now n flag on) gs' = each (setFlagGroup now n flag on) gs := by
  have hplain : ∀ gs : List Group, each (setFlagGroup now n flag on) gs
      = each (setFlagGroup now n flag on) (gs.map Group.plain) := by
    intro gs
    rw [each_map]
    exact congrArg (fun f => each f gs) (funext fun g => (setFlagGroup_plain now n flag on g).symm)
  rw [hplain gs', hplain gs, h]

/-- Loading rows is going through the gates, with the rows in hand at the end. -/
private theorem getByIDs_bind {β : Type} (now : Time) (a : Action) (n : Nat) (db : DB) :
    ∀ (cs : List (List Nat)) (i : Nat) (k : List Message → Prog β),
      (getByIDs n i cs >>= k) (.faulty φ) db
        = (each (Item.prog now a) (loadGates n i cs) >>= fun _ =>
            k (cs.flatMap (Message.Repository.getChunk db))) (.faulty φ) db := by
  intro cs
  induction cs with
  | nil => intro i k; rfl
  | cons c rest ih =>
      intro i k
      have hrest := ih (i + 1) fun more => k (Message.Repository.getChunk db c ++ more)
      cases h : φ (.call n (.getByIDs i)) with
      | none =>
          have hload : getByIDs n i (c :: rest) (.faulty φ) db
              = (getByIDs n (i + 1) rest >>= fun more =>
                  pure (Message.Repository.getChunk db c ++ more)) (.faulty φ) db := by
            have hquery : query (.call n (.getByIDs i)) Err.db
                (fun db => .ok (Message.Repository.getChunk db c)) (.faulty φ) db
                = (.ok (Message.Repository.getChunk db c), db) := by
              rw [query_faulty, h]
            exact bind_ok hquery
          have hgate : each (Item.prog now a) (loadGates n i (c :: rest)) (.faulty φ) db
              = each (Item.prog now a) (loadGates n (i + 1) rest) (.faulty φ) db := by
            have hpass : Item.prog now a (.gate (.call n (.getByIDs i))) (.faulty φ) db
                = (.ok (), db) := by
              simp only [Item.prog, query_faulty, h]
            exact bind_ok hpass
          rw [bind_apply, bind_apply] at hrest ⊢
          rw [hload, hgate, bind_apply]
          cases hr : getByIDs n (i + 1) rest (.faulty φ) db with
          | mk out s =>
              rw [hr] at hrest
              cases out with
              | ok more => exact hrest
              | err e => exact hrest
              | dead => exact hrest
      | fail => simp only [getByIDs, loadGates, each, Item.prog, bind_apply, query_faulty, h]
      | crash => simp only [getByIDs, loadGates, each, Item.prog, bind_apply, query_faulty, h]

private theorem loadGrouped_bind {β : Type} (now : Time) (a : Action) (o : Order) (n : Nat)
    (ids : List Nat) (k : List Group → Prog β) (db : DB) :
    (loadGrouped o n ids >>= k) (.faulty φ) db
      = (each (Item.prog now a) (loadGates n 0 (chunksOf Message.Repository.uidChunk ids)) >>=
          fun _ => k (o.groups n (rowsOf db ids))) (.faulty φ) db := by
  unfold loadGrouped
  rw [bind_assoc]
  exact getByIDs_bind now a n db _ 0 fun rows => k (o.groups n rows)

/-- A batch that sets a flag does what the plan says, even on rows whose flags have
changed since the plan was made. -/
theorem batchSetFlag_plan (o : Order) (now : Time) (n : Nat) (flag : MailFlag) (ids : List Nat)
    (on : Bool) {db db' : DB} (h : SameRows db db') :
    batchSetFlag o now n flag ids on (.faulty φ) db'
      = each (Item.prog now (.set flag on)) (planSet o db n ids) (.faulty φ) db' := by
  by_cases hids : ids = []
  · subst hids
    rfl
  · have hrows : (rowsOf db' (Message.Repository.copyIDs db ids)).map Message.plain
        = (rowsOf db (Message.Repository.copyIDs db ids)).map Message.plain := by
      unfold rowsOf
      rw [List.map_flatMap, List.map_flatMap]
      exact List.flatMap_congr fun c _ => h.getChunk c
    have hload : (loadGrouped o n (Message.Repository.copyIDs db ids) >>=
          each (setFlagGroup now n flag on)) (.faulty φ) db'
        = each (Item.prog now (.set flag on)) (planBatch o db n (Message.Repository.copyIDs db ids))
            (.faulty φ) db' := by
      unfold planBatch
      rw [loadGrouped_bind now (.set flag on), each_append, each_map,
        each_setFlagGroup_congr now n flag on (groups_congr o n hrows)]
      rfl
    unfold batchSetFlag planSet
    rw [if_neg hids, if_neg hids]
    show (query (.call n .withCopies) Err.db (fun db => .ok (Message.Repository.copyIDs db ids)) >>=
        fun ids => loadGrouped o n ids >>= each (setFlagGroup now n flag on)) (.faulty φ) db'
      = (Item.prog now (.set flag on) (.gate (.call n .withCopies)) >>= fun _ =>
        each (Item.prog now (.set flag on))
          (planBatch o db n (Message.Repository.copyIDs db ids))) (.faulty φ) db'
    rw [bind_apply, bind_apply]
    simp only [Item.prog, query_faulty, h.copyIDs]
    cases φ (.call n .withCopies) with
    | none => exact hload
    | fail => rfl
    | crash => rfl

/-! ### Setting flags leaves the rows as they were, up to the flags -/

private theorem map_plain_update {rows : List Message} {p : Message → Bool}
    {f : Message → Message} (h : ∀ m, Message.plain (f m) = Message.plain m) :
    (rows.map fun m => if p m then f m else m).map Message.plain = rows.map Message.plain := by
  rw [List.map_map]
  refine List.map_congr_left fun m _ => ?_
  show Message.plain (if p m then f m else m) = Message.plain m
  by_cases hp : p m = true
  · rw [if_pos hp, h]
  · rw [if_neg hp]

theorem sameRows_setFlagByIDs (flag : MailFlag) (ids : List Nat) (on : Bool) (db : DB) :
    SameRows db (setFlagByIDs flag ids on db) := by
  cases flag with
  | seen => exact map_plain_update fun _ => rfl
  | flagged => exact map_plain_update fun _ => rfl

/-! ### What the groups of a plan hold -/

/-- Each group holds the rows of one folder, all of them and at least one. -/
theorem mem_groups {o : Order} {n : Nat} {rows : List Message} {g : Group} :
    g ∈ o.groups n rows ↔
      (∃ m ∈ rows, m.accountID = g.accountID ∧ m.folderID = g.folderID) ∧
        g.msgs = (rows.filter fun m => m.accountID == g.accountID).filter fun m =>
          m.folderID == g.folderID := by
  have hgroup : ∀ (key : Message → Nat) (rank : Nat × List Message → Nat)
      (rows : List Message) (p : Nat × List Message),
      p ∈ byRank rank (groupBy key rows) ↔
        (∃ m ∈ rows, key m = p.1) ∧ p.2 = rows.filter fun m => key m == p.1 := by
    intro key rank rows p
    unfold byRank groupBy
    rw [List.mem_insertionSort]
    refine ⟨fun h => ?_, fun h => ?_⟩
    · obtain ⟨k, hk, rfl⟩ := List.mem_map.mp h
      obtain ⟨m, hm, hkey⟩ := List.mem_map.mp (List.mem_dedup.mp hk)
      exact ⟨⟨m, hm, hkey⟩, rfl⟩
    · obtain ⟨⟨m, hm, hkey⟩, hp⟩ := h
      refine List.mem_map.mpr ⟨p.1, List.mem_dedup.mpr (List.mem_map.mpr ⟨m, hm, hkey⟩), ?_⟩
      rw [← hp]
  unfold Order.groups
  rw [List.mem_flatMap]
  refine ⟨fun h => ?_, fun h => ?_⟩
  · obtain ⟨a, ha, hg⟩ := h
    obtain ⟨f, hf, rfl⟩ := List.mem_map.mp hg
    obtain ⟨-, hrows⟩ := (hgroup _ _ _ _).mp ha
    obtain ⟨⟨m, hm, hkey⟩, hmsgs⟩ := (hgroup _ _ _ _).mp hf
    rw [hrows] at hm hmsgs
    obtain ⟨hm, hacc⟩ := List.mem_filter.mp hm
    exact ⟨⟨m, hm, by simpa using hacc, hkey⟩, hmsgs⟩
  · obtain ⟨⟨m, hm, hacc, hfolder⟩, hmsgs⟩ := h
    refine ⟨(g.accountID, rows.filter fun m => m.accountID == g.accountID), ?_, ?_⟩
    · exact (hgroup _ _ _ _).mpr ⟨⟨m, hm, hacc⟩, rfl⟩
    · refine List.mem_map.mpr ⟨(g.folderID, g.msgs), (hgroup _ _ _ _).mpr ⟨?_, hmsgs⟩, rfl⟩
      exact ⟨m, List.mem_filter.mpr ⟨hm, by simpa using hacc⟩, hfolder⟩

/-- What every group of a plan made from `db` is: some rows of one folder. -/
structure GroupOK (db : DB) (g : Group) : Prop where
  ne_nil : g.msgs ≠ []
  mem : ∀ m ∈ g.msgs, m ∈ db.messages.rows
  account : ∀ m ∈ g.msgs, m.accountID = g.accountID
  folder : ∀ m ∈ g.msgs, m.folderID = g.folderID

theorem mem_rowsOf {db : DB} {ids : List Nat} {m : Message} :
    m ∈ rowsOf db ids ↔ m ∈ db.messages.rows ∧ m.id ∈ ids := by
  unfold rowsOf
  rw [List.mem_flatMap]
  have hpos : 0 < Message.Repository.uidChunk := by decide
  refine ⟨fun h => ?_, fun h => ?_⟩
  · obtain ⟨c, hc, hm⟩ := h
    obtain ⟨hrow, hid⟩ := List.mem_filter.mp hm
    exact ⟨hrow, (exists_mem_chunksOf hpos).mp ⟨c, hc, by simpa using hid⟩⟩
  · obtain ⟨hrow, hid⟩ := h
    obtain ⟨c, hc, hmem⟩ := (exists_mem_chunksOf hpos).mpr hid
    exact ⟨c, hc, List.mem_filter.mpr ⟨hrow, by simpa using hmem⟩⟩

theorem groupOK_of_mem {o : Order} {n : Nat} {db : DB} {ids : List Nat} {g : Group}
    (h : g ∈ o.groups n (rowsOf db ids)) : GroupOK db g := by
  obtain ⟨⟨m, hm, hacc, hfolder⟩, hmsgs⟩ := mem_groups.mp h
  have hall : ∀ m ∈ g.msgs, m ∈ rowsOf db ids ∧ m.accountID = g.accountID ∧
      m.folderID = g.folderID := by
    intro m hm
    rw [hmsgs] at hm
    obtain ⟨hm, hfolder⟩ := List.mem_filter.mp hm
    obtain ⟨hm, hacc⟩ := List.mem_filter.mp hm
    exact ⟨hm, by simpa using hacc, by simpa using hfolder⟩
  refine ⟨?_, fun m hm => (mem_rowsOf.mp (hall m hm).1).1, fun m hm => (hall m hm).2.1,
    fun m hm => (hall m hm).2.2⟩
  intro hnil
  have hin : m ∈ g.msgs := by
    rw [hmsgs]
    exact List.mem_filter.mpr
      ⟨List.mem_filter.mpr ⟨hm, by simpa using hacc⟩, by simpa using hfolder⟩
  rw [hnil] at hin
  exact absurd hin List.not_mem_nil

private theorem not_group_of_mem_loadGates {n : Nat} {k : Nat} {g : Group} :
    ∀ {cs : List (List Nat)} {i : Nat}, Item.group k g ∉ loadGates n i cs := by
  intro cs
  induction cs with
  | nil => intro i h; simp [loadGates] at h
  | cons c rest ih =>
      intro i h
      rcases List.mem_cons.mp h with h | h
      · cases h
      · exact ih h

/-- The groups of a batch are the groups of the rows loaded. -/
theorem mem_planBatch {o : Order} {db : DB} {n k : Nat} {ids : List Nat} {g : Group} :
    Item.group k g ∈ planBatch o db n ids ↔ k = n ∧ g ∈ o.groups n (rowsOf db ids) := by
  unfold planBatch
  rw [List.mem_append]
  refine ⟨fun h => ?_, fun h => ?_⟩
  · rcases h with h | h
    · exact absurd h not_group_of_mem_loadGates
    · obtain ⟨g', hg', heq⟩ := List.mem_map.mp h
      cases heq
      exact ⟨rfl, hg'⟩
  · obtain ⟨rfl, hg⟩ := h
    exact Or.inr (List.mem_map.mpr ⟨g, hg, rfl⟩)

theorem mem_planSet {o : Order} {db : DB} {n k : Nat} {ids : List Nat} {g : Group} :
    Item.group k g ∈ planSet o db n ids ↔
      k = n ∧ g ∈ o.groups n (rowsOf db (Message.Repository.copyIDs db ids)) := by
  unfold planSet
  by_cases hids : ids = []
  · have hcopies : Message.Repository.copyIDs db ids = [] := by
      simp [Message.Repository.copyIDs, hids]
    rw [if_pos hids, hcopies]
    simp [rowsOf, mem_groups]
  · rw [if_neg hids, List.mem_cons, mem_planBatch]
    simp

theorem mem_planChunks {o : Order} {db : DB} {k : Nat} {g : Group} :
    ∀ {cs : List (List Nat)} {n : Nat}, Item.group k g ∈ planChunks o db n cs →
      ∃ c ∈ cs, g ∈ o.groups k (rowsOf db (Message.Repository.copyIDs db c)) := by
  intro cs
  induction cs with
  | nil => intro n h; simp [planChunks] at h
  | cons c rest ih =>
      intro n h
      rcases List.mem_append.mp h with h | h
      · obtain ⟨rfl, hg⟩ := mem_planSet.mp h
        exact ⟨c, by simp, hg⟩
      · obtain ⟨c', hc', hg⟩ := ih h
        exact ⟨c', by simp [hc'], hg⟩

theorem mem_planMessage {db : DB} {id n : Nat} {k : Message → List Item} {g : Group}
    (h : Item.group n g ∈ planMessage db id k) :
    ∃ m, Message.Repository.getByID db id = some m ∧ Item.group n g ∈ k m := by
  unfold planMessage at h
  cases hm : Message.Repository.getByID db id with
  | none => simp [hm] at h
  | some m => exact ⟨m, rfl, by simpa [hm] using h⟩

theorem mem_planFolder {db : DB} {s : CallStmt} {id n : Nat} {k : Folder → List Item} {g : Group}
    (h : Item.group n g ∈ planFolder db s id k) :
    ∃ f, Folder.Repository.getByID db id = some f ∧ Item.group n g ∈ k f := by
  unfold planFolder at h
  cases hf : Folder.Repository.getByID db id with
  | none => simp [hf] at h
  | some f => exact ⟨f, rfl, by simpa [hf] using h⟩

/-- A group that `moveMessage` gets to: the mail, which is to go to another folder. -/
theorem mem_plan_moveMessage {o : Order} {db : DB} {id target n : Nat} {g : Group}
    (h : Item.group n g ∈ (Call.moveMessage id target).plan o db) :
    ∃ m ∈ db.messages.rows, g = ⟨m.accountID, m.folderID, [m]⟩ ∧
      ∃ dst, Folder.Repository.getByID db target = some dst ∧ dst.accountID = g.accountID ∧
        dst.id ≠ g.folderID := by
  obtain ⟨m, hm, hg⟩ := mem_planMessage h
  obtain ⟨hrow, -⟩ := Table.get?_eq_some.mp hm
  obtain ⟨src, hsrc, hg⟩ := mem_planFolder hg
  obtain ⟨-, hid⟩ := Table.get?_eq_some.mp hsrc
  obtain ⟨dst, hdst, hg⟩ := mem_planFolder hg
  by_cases hcross : dst.accountID ≠ m.accountID
  · simp [hcross] at hg
  · by_cases hsame : dst.id = src.id
    · simp [hcross, hsame] at hg
    · rw [if_neg hcross, if_neg hsame] at hg
      cases (List.mem_singleton.mp hg)
      exact ⟨m, hrow, by rw [hid], dst, hdst, not_not.mp hcross, hsame⟩

/-- A group that `batchMove` gets to: rows of a folder of the same account, not the target. -/
theorem mem_plan_batchMove {o : Order} {db : DB} {ids : List Nat} {target n : Nat} {g : Group}
    (h : Item.group n g ∈ (Call.batchMove ids target).plan o db) :
    g ∈ o.groups 0 (rowsOf db ids) ∧
      ∃ dst, Folder.Repository.getByID db target = some dst ∧ dst.accountID = g.accountID ∧
        dst.id ≠ g.folderID := by
  obtain ⟨dst, hdst, hg⟩ := mem_planFolder h
  rcases List.mem_append.mp hg with hg | hg
  · exact absurd hg not_group_of_mem_loadGates
  · by_cases hcross : ((o.groups 0 (rowsOf db ids)).any fun g => g.accountID != dst.accountID) = true
    · simp [hcross] at hg
    · rw [if_neg hcross] at hg
      obtain ⟨g', hg', heq⟩ := List.mem_map.mp hg
      cases heq
      obtain ⟨hgroup, hother⟩ := List.mem_filter.mp hg'
      have hne : g.folderID ≠ dst.id := by simpa using hother
      have hacc : g.accountID = dst.accountID := by
        by_contra hc
        exact hcross (List.any_eq_true.mpr ⟨g, hgroup, by simpa using hc⟩)
      exact ⟨hgroup, dst, hdst, hacc.symm, hne.symm⟩

/-- **Every group of a plan is made of rows of one folder.** -/
theorem groupOK_of_mem_plan {o : Order} {db : DB} {c : Call} {n : Nat} {g : Group}
    (h : Item.group n g ∈ c.plan o db) : GroupOK db g := by
  have hset : ∀ {ids : List Nat}, Item.group n g ∈ planSet o db 0 ids → GroupOK db g :=
    fun h => groupOK_of_mem (mem_planSet.mp h).2
  cases c with
  | deleteMessage id =>
      obtain ⟨m, hm, hg⟩ := mem_planMessage h
      obtain ⟨hrow, -⟩ := Table.get?_eq_some.mp hm
      cases (List.mem_singleton.mp hg)
      exact ⟨by simp, by simpa using hrow, by simp, by simp⟩
  | moveMessage id target =>
      obtain ⟨m, hrow, rfl, -⟩ := mem_plan_moveMessage h
      exact ⟨by simp, by simpa using hrow, by simp, by simp⟩
  | batchDelete ids => exact groupOK_of_mem (mem_planBatch.mp h).2
  | batchMove ids target => exact groupOK_of_mem (mem_plan_batchMove h).1
  | batchSetRead ids read => exact hset h
  | batchSetFlagged ids flagged => exact hset h
  | setRead id read =>
      obtain ⟨m, -, hg⟩ := mem_planMessage h
      exact hset hg
  | setFlagged id flagged =>
      obtain ⟨m, -, hg⟩ := mem_planMessage h
      exact hset hg
  | markFolderRead folderID =>
      rcases List.mem_cons.mp h with h | h
      · cases h
      · obtain ⟨c, -, hg⟩ := mem_planChunks h
        exact groupOK_of_mem hg

/-- The folder a path names is the only one of its account. -/
theorem path_ne_of_id_ne {db : DB} {f f' : Folder} (hf : f ∈ db.folders.rows)
    (hf' : f' ∈ db.folders.rows) (haccount : f.accountID = f'.accountID) (hid : f.id ≠ f'.id) :
    f.path ≠ f'.path := by
  intro hpath
  have hkey : Folder.key f = Folder.key f' := by
    unfold Folder.key
    rw [haccount, hpath]
  exact hid (congrArg Folder.id (db.folders.eq_of_uk hf hf' hkey))

/-- **What a plan moves it moves to another mailbox.** -/
theorem target_ne_of_mem_plan {o : Order} {db : DB} {c : Call} {n : Nat} {g : Group}
    {src : Folder} {target : Text} (h : Item.group n g ∈ c.plan o db)
    (hsrc : Folder.Repository.getByID db g.folderID = some src)
    (haccount : src.accountID = g.accountID)
    (hv : (c.action db).intended db g.accountID src = (.move, target)) : target ≠ src.path := by
  obtain ⟨hsrcmem, hsrcid⟩ := Table.get?_eq_some.mp hsrc
  have hdelete : deleteTarget (Folder.Repository.findByType db g.accountID .trash) src
      = (.move, target) → target ≠ src.path := by
    intro hv
    unfold deleteTarget at hv
    cases hfind : Folder.Repository.findByType db g.accountID .trash with
    | none => simp [hfind] at hv
    | some t =>
        simp only [hfind] at hv
        by_cases hc : src.type = .trash ∨ t.id = src.id
        · rw [if_pos hc] at hv
          simp at hv
        · rw [if_neg hc] at hv
          obtain ⟨-, rfl⟩ := Prod.mk.inj hv
          have hmem := List.mem_of_find?_eq_some hfind
          have hcond := List.find?_some hfind
          have htaccount : t.accountID = g.accountID := by
            simpa using (Bool.and_eq_true_iff.mp hcond).1
          exact path_ne_of_id_ne hmem hsrcmem (htaccount.trans haccount.symm)
            fun hid => hc (Or.inr hid)
  have hmove : ∀ {id : Nat}, (∃ dst, Folder.Repository.getByID db id = some dst ∧
      dst.accountID = g.accountID ∧ dst.id ≠ g.folderID) →
      Action.intended (.move (((Folder.Repository.getByID db id).map Folder.path).getD [])) db
        g.accountID src = (.move, target) → target ≠ src.path := by
    intro id hdst hv
    obtain ⟨dst, hget, hacc, hne⟩ := hdst
    obtain ⟨hmem, -⟩ := Table.get?_eq_some.mp hget
    rw [hget] at hv
    obtain ⟨-, rfl⟩ := Prod.mk.inj hv
    exact path_ne_of_id_ne hmem hsrcmem (hacc.trans haccount.symm) (hsrcid ▸ hne)
  have hset : ∀ {flag on}, Action.intended (.set flag on) db g.accountID src
      = (.move, target) → target ≠ src.path := by
    intro flag on hv
    obtain ⟨hop, -⟩ := Prod.mk.inj hv
    cases flag <;> cases on <;> cases hop
  cases c with
  | deleteMessage id => exact hdelete hv
  | batchDelete ids => exact hdelete hv
  | moveMessage id target' =>
      obtain ⟨m, -, -, hdst⟩ := mem_plan_moveMessage h
      exact hmove hdst hv
  | batchMove ids target' => exact hmove (mem_plan_batchMove h).2 hv
  | batchSetRead ids read => exact hset hv
  | batchSetFlagged ids flagged => exact hset hv
  | setRead id read => exact hset hv
  | setFlagged id flagged => exact hset hv
  | markFolderRead folderID => exact hset hv

/-- Every row is in a group. -/
theorem exists_group_of_mem (o : Order) (n : Nat) {rows : List Message} {m : Message}
    (h : m ∈ rows) : ∃ g ∈ o.groups n rows, m ∈ g.msgs ∧ g.folderID = m.folderID := by
  refine ⟨⟨m.accountID, m.folderID, (rows.filter fun r => r.accountID == m.accountID).filter
    fun r => r.folderID == m.folderID⟩, mem_groups.mpr ⟨⟨m, h, rfl, rfl⟩, rfl⟩, ?_, rfl⟩
  simp [h]

/-- A row is a copy of itself. -/
theorem mem_copyIDs_self {db : DB} {ids : List Nat} {m : Message} (hm : m ∈ db.messages.rows)
    (h : m.id ∈ ids) : m.id ∈ Message.Repository.copyIDs db ids := by
  refine List.mem_map.mpr ⟨m, List.mem_filter.mpr ⟨hm, ?_⟩, rfl⟩
  refine List.any_eq_true.mpr ⟨m, hm, ?_⟩
  simp [h, Message.Repository.isCopy]

theorem exists_planSet_of_mem (o : Order) {db : DB} (n : Nat) {ids : List Nat} {m : Message}
    (hm : m ∈ db.messages.rows) (h : m.id ∈ ids) :
    ∃ g, Item.group n g ∈ planSet o db n ids ∧ m ∈ g.msgs := by
  obtain ⟨g, hg, hmem, -⟩ :=
    exists_group_of_mem o n (mem_rowsOf.mpr ⟨hm, mem_copyIDs_self hm h⟩)
  exact ⟨g, mem_planSet.mpr ⟨rfl, hg⟩, hmem⟩

theorem exists_planChunks_of_mem (o : Order) {db : DB} {m : Message}
    (hm : m ∈ db.messages.rows) {c : List Nat} (h : m.id ∈ c) :
    ∀ {cs : List (List Nat)} {n : Nat}, c ∈ cs →
      ∃ k g, Item.group k g ∈ planChunks o db n cs ∧ m ∈ g.msgs := by
  intro cs
  induction cs with
  | nil => intro n hc; simp at hc
  | cons c' rest ih =>
      intro n hc
      rcases List.mem_cons.mp hc with rfl | hc
      · obtain ⟨g, hg, hmem⟩ := exists_planSet_of_mem o n hm h
        exact ⟨n, g, List.mem_append.mpr (Or.inl hg), hmem⟩
      · obtain ⟨k, g, hg, hmem⟩ := ih (n := n + 1) hc
        exact ⟨k, g, List.mem_append.mpr (Or.inr hg), hmem⟩

/-! ### The call and its plan -/

private theorem chain_sameRows {now : Time} {flag : MailFlag} {on : Bool} {items : List Item}
    {db db' : DB} (h : Chain φ now (.set flag on) items db db') : SameRows db db' := by
  induction h with
  | nil db => rfl
  | @cons i rest db d db' h _ ih =>
      have hstep : SameRows db d := by
        show d.messages.rows.map Message.plain = db.messages.rows.map Message.plain
        rw [h.messages]
        by_cases hc : i.changes φ db (.set flag on) = true
        · rw [if_pos hc]
          exact sameRows_setFlagByIDs flag i.ids on db
        · rw [if_neg hc]
      exact Eq.trans ih hstep

/-- How `markFolderRead` tells what became of its batches. -/
private def told (k : Nat) : Outcome Err Unit × DB → Outcome Err (Nat × Option Err) × DB
  | (.ok _, s) => (.ok (k, none), s)
  | (.err e, s) => (.ok (k, some e), s)
  | (.dead, s) => (.dead, s)

private theorem markChunks_plan (o : Order) (now : Time) (db : DB) :
    ∀ (cs : List (List Nat)) (n start : Nat) (db' : DB), SameRows db db' →
      ∃ k, markChunks o now n start cs (.faulty φ) db'
        = told k (each (Item.prog now (.set .seen true)) (planChunks o db n cs) (.faulty φ) db') := by
  intro cs
  induction cs with
  | nil => intro n start db' _; exact ⟨start, rfl⟩
  | cons c rest ih =>
      intro n start db' hsame
      have hbatch : batchSetRead o now n c true (.faulty φ) db'
          = each (Item.prog now (.set .seen true)) (planSet o db n c) (.faulty φ) db' :=
        batchSetFlag_plan o now n .seen c true hsame
      obtain ⟨out, d, hrun, -, hchain⟩ := @chain_of_each φ now (.set .seen true)
        (planSet o db n c) (fun k g hg => (groupOK_of_mem (mem_planSet.mp hg).2).ne_nil) db'
      have hsame' : SameRows db d := Eq.trans (chain_sameRows hchain) hsame
      obtain ⟨k, hk⟩ := ih (n + 1) (start + c.length) d hsame'
      have hplan : each (Item.prog now (.set .seen true)) (planChunks o db n (c :: rest))
            (.faulty φ) db'
          = (each (Item.prog now (.set .seen true)) (planSet o db n c) >>= fun _ =>
              each (Item.prog now (.set .seen true)) (planChunks o db (n + 1) rest))
                (.faulty φ) db' :=
        each_append _ _ _ _ _
      have hattempt : attempt (batchSetRead o now n c true) (.faulty φ) db' = match out with
          | .ok u => (.ok (.ok u), d)
          | .err e => (.ok (.error e), d)
          | .dead => (.dead, d) := by
        rw [attempt_apply, hbatch]
        simp only [hrun]
        cases out <;> rfl
      rw [hplan]
      cases out with
      | ok u =>
          refine ⟨k, ?_⟩
          rw [bind_ok hrun]
          exact (bind_ok hattempt).trans hk
      | err e =>
          refine ⟨start, ?_⟩
          rw [bind_err hrun]
          exact bind_ok hattempt
      | dead =>
          refine ⟨start, ?_⟩
          rw [bind_dead hrun]
          exact bind_dead hattempt

private theorem getMessage_plan (now : Time) (a : Action) (db : DB) (id : Nat)
    {k : Message → Prog Unit} {items : Message → List Item}
    (h : ∀ m, k m (.faulty φ) db = each (Item.prog now a) (items m) (.faulty φ) db) :
    (getMessage (.call 0 .getMessage) id >>= k) (.faulty φ) db
      = each (Item.prog now a) (planMessage db id items) (.faulty φ) db := by
  simp only [planMessage, each, bind_apply, getMessage, Item.prog, query_faulty]
  cases φ (.call 0 .getMessage) with
  | none =>
      cases Message.Repository.getByID db id with
      | none => rfl
      | some m => exact h m
  | fail => rfl
  | crash => rfl

private theorem getFolder_plan (now : Time) (a : Action) (db : DB) (s : CallStmt) (id : Nat)
    {k : Folder → Prog Unit} {items : Folder → List Item}
    (h : ∀ f, Folder.Repository.getByID db id = some f →
      k f (.faulty φ) db = each (Item.prog now a) (items f) (.faulty φ) db) :
    (getFolder (.call 0 s) id >>= k) (.faulty φ) db
      = each (Item.prog now a) (planFolder db s id items) (.faulty φ) db := by
  simp only [planFolder, each, bind_apply, getFolder, Item.prog, query_faulty]
  cases φ (.call 0 s) with
  | none =>
      cases hf : Folder.Repository.getByID db id with
      | none => rfl
      | some f => exact h f hf
  | fail => rfl
  | crash => rfl

private theorem each_singleton {α : Type} (f : α → Prog Unit) (a : α) (env : Env Site DB)
    (s : DB) : each f [a] env s = f a env s := by
  show (f a >>= fun _ => pure ()) env s = f a env s
  rw [bind_apply]
  cases f a env s with
  | mk out s' => cases out <;> rfl

/-- **A call does what its plan says**, whatever fails. -/
theorem run_eq_plan (o : Order) (now : Time) (c : Call) (db : DB) :
    c.run o now (.faulty φ) db
      = each (Item.prog now (c.action db)) (c.plan o db) (.faulty φ) db := by
  have hself : SameRows db db := rfl
  cases c with
  | deleteMessage id =>
      exact getMessage_plan now .delete db id fun m => (each_singleton _ _ _ _).symm
  | moveMessage id target =>
      refine getMessage_plan now _ db id fun m => ?_
      refine getFolder_plan now _ db .getFolder m.folderID fun src _ => ?_
      refine getFolder_plan now _ db .getTarget target fun dst hdst => ?_
      by_cases hcross : dst.accountID ≠ m.accountID
      · rw [if_pos hcross, if_pos hcross]
        rfl
      · by_cases hsame : dst.id = src.id
        · rw [if_neg hcross, if_neg hcross, if_pos hsame, if_pos hsame]
          rfl
        · rw [if_neg hcross, if_neg hcross, if_neg hsame, if_neg hsame, each_singleton]
          simp only [Item.prog, Call.action, hdst, Option.map_some, Option.getD_some]
  | batchDelete ids =>
      show (loadGrouped o 0 ids >>= each (deleteGroup now 0)) (.faulty φ) db
        = each (Item.prog now .delete) (planBatch o db 0 ids) (.faulty φ) db
      unfold planBatch
      rw [loadGrouped_bind now .delete, each_append, each_map]
      rfl
  | batchMove ids target =>
      refine getFolder_plan now _ db .getTarget target fun dst hdst => ?_
      have haction : (Call.batchMove ids target).action db = .move dst.path := by
        simp only [Call.action, hdst, Option.map_some, Option.getD_some]
      rw [haction, loadGrouped_bind now (.move dst.path), each_append]
      refine congrFun (congrFun (congrArg _ (funext fun _ => ?_)) _) _
      by_cases hcross : ((o.groups 0 (rowsOf db ids)).any fun g => g.accountID != dst.accountID) = true
      · rw [if_pos hcross, if_pos hcross]
        rfl
      · rw [if_neg hcross, if_neg hcross, each_map]
        rfl
  | batchSetRead ids read => exact batchSetFlag_plan o now 0 .seen ids read hself
  | batchSetFlagged ids flagged => exact batchSetFlag_plan o now 0 .flagged ids flagged hself
  | setRead id read =>
      exact getMessage_plan now (.set .seen read) db id fun m =>
        batchSetFlag_plan o now 0 .seen [id] read hself
  | setFlagged id flagged =>
      exact getMessage_plan now (.set .flagged flagged) db id fun m =>
        batchSetFlag_plan o now 0 .flagged [id] flagged hself
  | markFolderRead folderID =>
      obtain ⟨k, hk⟩ := @markChunks_plan φ o now db
        (chunksOf markFolderReadChunk (Message.Repository.unreadIDsByFolder db folderID)) 0 0 db hself
      show (markFolderRead o now folderID >>= _) (.faulty φ) db
        = (Item.prog now (.set .seen true) (.gate (.call 0 .unreadIDs)) >>= fun _ =>
            each (Item.prog now (.set .seen true)) (planChunks o db 0 (chunksOf markFolderReadChunk
              (Message.Repository.unreadIDsByFolder db folderID)))) (.faulty φ) db
      unfold markFolderRead
      rw [bind_assoc, bind_apply, bind_apply, attempt_apply]
      simp only [Item.prog, query_faulty]
      cases φ (.call 0 .unreadIDs) with
      | none =>
          show (markChunks o now 0 0 _ >>= _) (.faulty φ) db
            = each (Item.prog now (.set .seen true)) (planChunks o db 0 (chunksOf
                markFolderReadChunk (Message.Repository.unreadIDsByFolder db folderID))) (.faulty φ) db
          rw [bind_apply, hk]
          cases each (Item.prog now (.set .seen true)) (planChunks o db 0 (chunksOf
            markFolderReadChunk (Message.Repository.unreadIDsByFolder db folderID))) (.faulty φ) db with
          | mk out s => cases out <;> rfl
      | fail => rfl
      | crash => rfl

/-- **What a call does under any faults**: the items of its plan, up to the first that
stops it, have their effects one after another. -/
theorem chain_of_run (o : Order) (now : Time) (c : Call) (db : DB) :
    ∃ out db', c.run o now (.faulty φ) db = (out, db') ∧
      (out = .ok () ↔ ∀ i ∈ c.plan o db, i.stops φ db (c.action db) = false) ∧
      Chain φ now (c.action db) (reached φ db (c.action db) (c.plan o db)) db db' := by
  rw [run_eq_plan]
  exact chain_of_each now (c.action db) (c.plan o db)
    (fun n g hg => (groupOK_of_mem_plan hg).ne_nil) db

end FlyMail.Sync
