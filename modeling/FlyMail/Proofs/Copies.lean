/-
Marking a mail marks its copies.

Where no statement fails, every item of a plan has its effect, so the rows that change are those of
its groups, and the queue gains one row for each group whose folder is there.  The groups are those
of the rows given and of their copies, each account and folder once, and a row is in one of them once.
-/
import FlyMail.Proofs.Plan
import Mathlib.Data.List.Dedup

namespace FlyMail.Sync

open Proc
open Message.Repository (copyIDs isCopy unreadIDsByFolder)

/-! ### What is to be marked -/

/-- The row is one of those given, or of the same copy class: same account, Message-ID, date and size. -/
def Marked (db : DB) (ids : List Nat) (m : Message) : Prop :=
  ∃ t ∈ db.messages.rows, t.id ∈ ids ∧ m.accountID = t.accountID ∧
    (m.id = t.id ∨ t.messageID ≠ [] ∧ m.messageID = t.messageID ∧ m.date = t.date ∧ m.size = t.size)

instance (db : DB) (ids : List Nat) : DecidablePred (Marked db ids) := fun m => by
  unfold Marked
  infer_instance

theorem mem_copyIDs {db : DB} {ids : List Nat} {m : Message} (hm : m ∈ db.messages.rows) :
    m.id ∈ copyIDs db ids ↔ Marked db ids m := by
  have hcopy (t : Message) : isCopy m t = true ↔ m.accountID = t.accountID ∧
      (m.id = t.id ∨ t.messageID ≠ [] ∧ m.messageID = t.messageID ∧ m.date = t.date ∧ m.size = t.size) := by
    simp [isCopy, and_assoc]
  unfold copyIDs Marked
  constructor
  · intro h
    obtain ⟨r, hr, hid⟩ := List.mem_map.mp h
    obtain ⟨hr, hany⟩ := List.mem_filter.mp hr
    obtain rfl := db.messages.eq_of_pk hr hm hid
    obtain ⟨t, ht, hboth⟩ := List.any_eq_true.mp hany
    obtain ⟨hids, hc⟩ := Bool.and_eq_true_iff.mp hboth
    exact ⟨t, ht, by simpa using hids, (hcopy t).mp hc⟩
  · rintro ⟨t, ht, hids, hc⟩
    refine List.mem_map.mpr ⟨m, List.mem_filter.mpr ⟨hm, List.any_eq_true.mpr ⟨t, ht, ?_⟩⟩, rfl⟩
    exact Bool.and_eq_true_iff.mpr ⟨by simpa using hids, (hcopy t).mpr hc⟩

theorem nodup_copyIDs (db : DB) (ids : List Nat) : (copyIDs db ids).Nodup :=
  db.messages.nodup_pk List.filter_sublist

/-! ### Groups -/

theorem nodup_rowsOf {db : DB} {ids : List Nat} (h : ids.Nodup) : (rowsOf db ids).Nodup := by
  have hpos : 0 < Message.Repository.uidChunk := by decide
  have hrows : db.messages.rows.Nodup := (db.messages.nodup_pk (List.Sublist.refl _)).of_map _
  unfold rowsOf
  refine List.nodup_flatMap.mpr ⟨fun c _ => hrows.filter _, ?_⟩
  refine (disjoint_chunksOf hpos h).imp fun hdisjoint m hm hm' => ?_
  have hc := (List.mem_filter.mp hm).2
  have hc' := (List.mem_filter.mp hm').2
  exact hdisjoint (by simpa using hc) (by simpa using hc')

theorem nodup_groupBy (key : Message → Nat) (rank : Nat → Nat) (rows : List Message) :
    ((byRank (fun p => rank p.1) (groupBy key rows)).map Prod.fst).Nodup := by
  have hperm := (List.perm_insertionSort (fun a b : Nat × List Message => rank a.1 ≤ rank b.1)
    (groupBy key rows)).map Prod.fst
  refine (hperm.nodup_iff).mpr ?_
  have hkeys : (groupBy key rows).map Prod.fst = (rows.map key).dedup := by
    simp [groupBy, Function.comp_def]
  rw [hkeys]
  exact List.nodup_dedup _

/-- An account and a folder have one group. -/
theorem nodup_groups (o : Order) (n : Nat) (rows : List Message) :
    ((o.groups n rows).map fun g => (g.accountID, g.folderID)).Nodup := by
  unfold Order.groups
  rw [List.map_flatMap]
  simp only [List.map_map]
  refine List.nodup_flatMap.mpr ⟨fun a _ => ?_, ?_⟩
  · have hfolders := nodup_groupBy Message.folderID (o.folder n) a.2
    have hpair := hfolders.map (f := fun k => (a.1, k)) fun _ _ h => (Prod.mk.inj h).2
    rwa [List.map_map] at hpair
  · have haccounts := nodup_groupBy Message.accountID (o.account n) rows
    refine (List.pairwise_map.mp haccounts).imp fun {a b} hne p hp hp' => ?_
    obtain ⟨f, -, rfl⟩ := List.mem_map.mp hp
    obtain ⟨f', -, heq⟩ := List.mem_map.mp hp'
    exact hne (Prod.mk.inj heq).1.symm

/-! ### Items where nothing fails -/

/-- Every statement gets through. -/
def noFault : Site → Fault := fun _ => .none

section Calm

variable {now : Time} {flag : MailFlag} {on : Bool}

theorem changes_calm (db : DB) (n : Nat) (g : Group) :
    Item.changes noFault db (.set flag on) (.group n g) = true := rfl

theorem survives_calm (at_ : GroupStmt → Site) : survives noFault (.set flag on) at_ = true := by
  cases flag with
  | seen => rfl
  | flagged => rfl

theorem stores_calm (db : DB) (n : Nat) (g : Group) :
    Item.stores noFault db (.set flag on) (.group n g)
      = (g.src db).map fun f => newOp g.accountID f g.uids (flagOp flag on) [] := by
  simp only [Item.stores, changes_calm, survives_calm, and_self, if_true]
  unfold Group.src
  cases hf : Folder.Repository.getByID db g.folderID with
  | none => rfl
  | some f => simp [stored, noFault, hf, verb]

/-- The items of a plan that sets a flag: nothing is refused. -/
def Item.Allowed : Item → Prop
  | .refuse _ => False
  | _ => True

theorem stops_calm (db : DB) {i : Item} (h : i.Allowed) : i.stops noFault db (.set flag on) = false := by
  cases i with
  | gate site => rfl
  | refuse e => exact h.elim
  | group n g =>
    simp only [Item.stops, changes_calm, survives_calm]
    simp [diesQueueing, noFault]

/-- The rows of the items' groups have the flag, and no others are changed. -/
theorem rows_of_chain {items : List Item} {db db' : DB} (h : Chain noFault now (.set flag on) items db db') :
    db'.messages.rows = db.messages.rows.map fun m =>
      if ∃ i ∈ items, m.id ∈ i.ids then flag.put on m else m := by
  induction h with
  | nil db => simp
  | @cons i rest db d db' h _ ih =>
    have hstep : d.messages.rows = db.messages.rows.map fun m => if m.id ∈ i.ids then flag.put on m else m := by
      rw [h.messages]
      cases i with
      | gate site => simp [Item.changes, Item.ids]
      | refuse e => simp [Item.changes, Item.ids]
      | group n g =>
        rw [changes_calm, if_pos rfl]
        refine (setFlagByIDs_rows flag g.ids on db).trans (List.map_congr_left fun m _ => ?_)
        by_cases hm : m.id ∈ g.ids
        · simp [Item.ids, hm]
        · simp [Item.ids, hm]
    rw [ih, hstep, List.map_map]
    refine List.map_congr_left fun m _ => ?_
    show (if ∃ j ∈ rest, (if m.id ∈ i.ids then flag.put on m else m).id ∈ j.ids then
        flag.put on (if m.id ∈ i.ids then flag.put on m else m) else if m.id ∈ i.ids then flag.put on m else m)
      = if ∃ j ∈ i :: rest, m.id ∈ j.ids then flag.put on m else m
    by_cases hi : m.id ∈ i.ids
    · have hput : flag.put on (flag.put on m) = flag.put on m := by
        cases flag with
        | seen => rfl
        | flagged => rfl
      simp [hi, hput]
    · simp [hi]

/-- A row of the queue, but for its number and for when it is due. -/
def SameOp (o o' : WritebackOp) : Prop := o' = { o with id := o'.id, nextAttemptAt := o'.nextAttemptAt }

/-- The queue gains what the items store, in turn. -/
theorem ops_of_chain {items : List Item} {db₀ db db' : DB} (h : Chain noFault now (.set flag on) items db db')
    (hsame : SameFolders db₀ db) :
    ∃ new, db'.ops.rows = db.ops.rows ++ new ∧
      List.Forall₂ SameOp (items.filterMap fun i => i.stores noFault db₀ (.set flag on)) new := by
  induction h with
  | nil db => exact ⟨[], by simp, .nil⟩
  | @cons i rest db d db' h _ ih =>
    obtain ⟨new, hnew, hall⟩ := ih (Eq.trans h.folders hsame)
    have hops := h.ops
    rw [hsame.stores] at hops
    cases hstores : i.stores noFault db₀ (.set flag on) with
    | none =>
      rw [hstores] at hops
      refine ⟨new, ?_, ?_⟩
      · rw [hnew, hops]
        rfl
      · rw [List.filterMap_cons, hstores]
        exact hall
    | some o =>
      rw [hstores] at hops
      obtain ⟨o', ho, hrows⟩ : ∃ o', SameOp o o' ∧ d.ops.rows = db.ops.rows ++ [o'] := by
        rw [hops]
        refine ⟨_, ?_, rfl⟩
        rfl
      refine ⟨o' :: new, ?_, ?_⟩
      · rw [hnew, hrows, List.append_assoc]
        rfl
      · rw [List.filterMap_cons, hstores]
        exact .cons ho hall

end Calm

/-! ### The plan of a batch -/

/-- What is queued for the marked rows of an account in a folder. -/
structure OpFor (db : DB) (ids : List Nat) (flag : MailFlag) (on : Bool) (place : Nat × Nat) (op : WritebackOp) :
    Prop where
  account : op.accountID = place.1
  folder : ∃ f, Folder.Repository.getByID db place.2 = some f ∧ op.folderPath = f.path
  verb : op.op = flagOp flag on
  target : op.targetPath = []
  nodup : (opUIDs op).Nodup
  uids : ∀ u, u ∈ opUIDs op ↔ ∃ m ∈ db.messages.rows,
    Marked db ids m ∧ m.accountID = place.1 ∧ m.folderID = place.2 ∧ m.uid.val = u

/-- What setting a flag is to come to: the marked rows have it, nothing else is changed, and each account
and folder with marked rows has one new op, for these rows. -/
structure Marks (db : DB) (ids : List Nat) (flag : MailFlag) (on : Bool) (db' : DB) : Prop where
  rows : db'.messages.rows = db.messages.rows.map fun m => if Marked db ids m then flag.put on m else m
  ops : ∃ (new : List WritebackOp) (places : List (Nat × Nat)), db'.ops.rows = db.ops.rows ++ new ∧
    places.Nodup ∧ List.Forall₂ (OpFor db ids flag on) places new ∧
    ∀ p, p ∈ places ↔ (Folder.Repository.getByID db p.2).isSome = true ∧
      ∃ m ∈ db.messages.rows, Marked db ids m ∧ m.accountID = p.1 ∧ m.folderID = p.2

theorem allowed_planSet {o : Order} {db : DB} {n : Nat} {ids : List Nat} :
    ∀ i ∈ planSet o db n ids, i.Allowed := by
  have hgates : ∀ (cs : List (List Nat)) (k : Nat), ∀ i ∈ loadGates n k cs, i.Allowed := by
    intro cs
    induction cs with
    | nil => exact fun k i hi => absurd hi List.not_mem_nil
    | cons c cs ih =>
      intro k i hi
      rcases List.mem_cons.mp hi with rfl | hi
      · trivial
      · exact ih (k + 1) i hi
  intro i hi
  unfold planSet at hi
  split at hi
  · exact absurd hi List.not_mem_nil
  · rcases List.mem_cons.mp hi with rfl | hi
    · trivial
    · rcases List.mem_append.mp hi with hi | hi
      · exact hgates _ _ i hi
      · obtain ⟨g, -, rfl⟩ := List.mem_map.mp hi
        trivial

/-- The rows of the groups of a batch are the marked ones. -/
theorem exists_planSet_iff {o : Order} {db : DB} {n : Nat} {ids : List Nat} {m : Message}
    (hm : m ∈ db.messages.rows) : (∃ i ∈ planSet o db n ids, m.id ∈ i.ids) ↔ Marked db ids m := by
  rw [← mem_copyIDs hm]
  constructor
  · rintro ⟨i, hi, hid⟩
    cases i with
    | gate site => exact absurd hid List.not_mem_nil
    | refuse e => exact absurd hid List.not_mem_nil
    | group k g =>
      obtain ⟨-, hg⟩ := mem_planSet.mp hi
      obtain ⟨r, hr, heq⟩ := List.mem_map.mp hid
      rw [(mem_groups.mp hg).2] at hr
      have hrow := mem_rowsOf.mp (List.mem_filter.mp (List.mem_filter.mp hr).1).1
      rw [← heq]
      exact hrow.2
  · intro hid
    obtain ⟨g, hg, hmem, -⟩ := exists_group_of_mem o n (mem_rowsOf.mpr ⟨hm, hid⟩)
    exact ⟨.group n g, mem_planSet.mpr ⟨rfl, hg⟩, List.mem_map.mpr ⟨m, hmem, rfl⟩⟩

/-- The queue gains nothing for the statements that load the rows. -/
theorem stores_planSet (o : Order) (db : DB) (n : Nat) (ids : List Nat) (flag : MailFlag) (on : Bool) :
    (planSet o db n ids).filterMap (fun i => i.stores noFault db (.set flag on))
      = (o.groups n (rowsOf db (copyIDs db ids))).filterMap fun g =>
          (g.src db).map fun f => newOp g.accountID f g.uids (flagOp flag on) [] := by
  have hgates : ∀ (cs : List (List Nat)) (k : Nat),
      (loadGates n k cs).filterMap (fun i => i.stores noFault db (.set flag on)) = [] := by
    intro cs
    induction cs with
    | nil => exact fun _ => rfl
    | cons c cs ih => exact fun k => ih (k + 1)
  have hgroups : ∀ gs : List Group, (gs.map (Item.group n)).filterMap (fun i => i.stores noFault db (.set flag on))
      = gs.filterMap fun g => (g.src db).map fun f => newOp g.accountID f g.uids (flagOp flag on) [] := by
    intro gs
    rw [List.filterMap_map]
    exact List.filterMap_congr fun g _ => stores_calm db n g
  unfold planSet
  split
  · rename_i hnil
    subst hnil
    have hcopies : copyIDs db [] = [] := by simp [copyIDs]
    rw [hcopies]
    rfl
  · show (planBatch o db n (copyIDs db ids)).filterMap _ = _
    unfold planBatch
    rw [List.filterMap_append, hgates, List.nil_append, hgroups]

/-- What is stored for a group is what is to be queued for its account and folder. -/
theorem opFor_of_group {o : Order} {db : DB} {n : Nat} {ids : List Nat} {flag : MailFlag} {on : Bool} {g : Group}
    {f : Folder} {op : WritebackOp} (hg : g ∈ o.groups n (rowsOf db (copyIDs db ids)))
    (hf : g.src db = some f) (hop : SameOp (newOp g.accountID f g.uids (flagOp flag on) []) op) :
    OpFor db ids flag on (g.accountID, g.folderID) op := by
  have hok := groupOK_of_mem hg
  have hmsgs := (mem_groups.mp hg).2
  have hmem (m : Message) : m ∈ g.msgs ↔
      m ∈ db.messages.rows ∧ Marked db ids m ∧ m.accountID = g.accountID ∧ m.folderID = g.folderID := by
    rw [hmsgs, List.mem_filter, List.mem_filter, mem_rowsOf, beq_iff_eq, beq_iff_eq]
    constructor
    · rintro ⟨⟨⟨hm, hid⟩, hacc⟩, hfolder⟩
      exact ⟨hm, (mem_copyIDs hm).mp hid, hacc, hfolder⟩
    · rintro ⟨hm, hmarked, hacc, hfolder⟩
      exact ⟨⟨⟨hm, (mem_copyIDs hm).mpr hmarked⟩, hacc⟩, hfolder⟩
  have huids : opUIDs op = g.uids.map UID.val := by
    refine opUIDs_joinUIDs ?_ ?_
    · rw [hop]
      rfl
    · have hne := hok.ne_nil
      unfold Group.uids
      simpa using hne
  refine ⟨by rw [hop]; rfl, ⟨f, hf, by rw [hop]; rfl⟩, by rw [hop]; rfl, by rw [hop]; rfl, ?_, fun u => ?_⟩
  · have hnodup : g.msgs.Nodup := by
      rw [hmsgs]
      exact ((nodup_rowsOf (nodup_copyIDs db ids)).filter _).filter _
    rw [huids, Group.uids, List.map_map]
    refine hnodup.map_on fun m hm m' hm' heq => ?_
    obtain ⟨hrow, -, -, hfolder⟩ := (hmem m).mp hm
    obtain ⟨hrow', -, -, hfolder'⟩ := (hmem m').mp hm'
    refine db.messages.eq_of_uk hrow hrow' ?_
    have huid : m.uid = m'.uid := by
      cases hm₀ : m.uid
      cases hm₀' : m'.uid
      simpa [hm₀, hm₀'] using heq
    show (m.folderID, m.uid) = (m'.folderID, m'.uid)
    rw [hfolder, hfolder', huid]
  · rw [huids, Group.uids, List.map_map, List.mem_map]
    constructor
    · rintro ⟨m, hm, heq⟩
      obtain ⟨hrow, hmarked, hacc, hfolder⟩ := (hmem m).mp hm
      exact ⟨m, hrow, hmarked, hacc, hfolder, heq⟩
    · rintro ⟨m, hrow, hmarked, hacc, hfolder, heq⟩
      exact ⟨m, (hmem m).mpr ⟨hrow, hmarked, hacc, hfolder⟩, heq⟩

/-- The places with a folder that have rows to be marked. -/
theorem mem_places {o : Order} {db : DB} {n : Nat} {ids : List Nat} {p : Nat × Nat} :
    p ∈ ((o.groups n (rowsOf db (copyIDs db ids))).filter fun g => (g.src db).isSome).map
        (fun g => (g.accountID, g.folderID)) ↔
      (Folder.Repository.getByID db p.2).isSome = true ∧
        ∃ m ∈ db.messages.rows, Marked db ids m ∧ m.accountID = p.1 ∧ m.folderID = p.2 := by
  constructor
  · intro h
    obtain ⟨g, hg, rfl⟩ := List.mem_map.mp h
    obtain ⟨hg, hsrc⟩ := List.mem_filter.mp hg
    obtain ⟨m, hm, hacc, hfolder⟩ := (mem_groups.mp hg).1
    obtain ⟨hrow, hid⟩ := mem_rowsOf.mp hm
    exact ⟨hsrc, m, hrow, (mem_copyIDs hrow).mp hid, hacc, hfolder⟩
  · rintro ⟨hsrc, m, hrow, hmarked, hacc, hfolder⟩
    have hm : m ∈ rowsOf db (copyIDs db ids) := mem_rowsOf.mpr ⟨hrow, (mem_copyIDs hrow).mpr hmarked⟩
    obtain ⟨g, hg, hmem, hgfolder⟩ := exists_group_of_mem o n hm
    have hplace : (g.accountID, g.folderID) = p := by
      rw [hgfolder, ← (groupOK_of_mem hg).account m hmem, hacc, hfolder]
    refine List.mem_map.mpr ⟨g, List.mem_filter.mpr ⟨hg, ?_⟩, hplace⟩
    rw [Group.src, hgfolder, hfolder]
    exact hsrc

/-- Those that give something, and what is like what they give. -/
theorem forall₂_filterMap {α β γ κ : Type} {f : α → Option β} (key : α → κ) {same : β → γ → Prop}
    (R : κ → γ → Prop) {l : List α} {new : List γ} (hnew : List.Forall₂ same (l.filterMap f) new)
    (h : ∀ a ∈ l, ∀ b, f a = some b → ∀ c, same b c → R (key a) c) :
    List.Forall₂ R ((l.filter fun a => (f a).isSome).map key) new := by
  induction l generalizing new with
  | nil =>
    cases hnew
    exact .nil
  | cons a l ih =>
    have hrest (b : α) (hb : b ∈ l) := h b (List.mem_cons_of_mem _ hb)
    cases ha : f a with
    | none =>
      rw [List.filterMap_cons, ha] at hnew
      rw [List.filter_cons_of_neg (by simp [ha])]
      exact ih hnew hrest
    | some b =>
      rw [List.filterMap_cons, ha] at hnew
      rw [List.filter_cons_of_pos (by simp [ha]), List.map_cons]
      cases hnew with
      | cons hsame hnew => exact .cons (h a List.mem_cons_self b ha _ hsame) (ih hnew hrest)

/-- **A batch marks the rows given and their copies**, and queues just that. -/
theorem marks_batchSetFlag (o : Order) (now : Time) (n : Nat) (flag : MailFlag) (ids : List Nat) (on : Bool)
    (db : DB) : ∃ db', batchSetFlag o now n flag ids on (.faulty noFault) db = (.ok (), db') ∧
      Marks db ids flag on db' := by
  have hstops : ∀ i ∈ planSet o db n ids, i.stops noFault db (.set flag on) = false :=
    fun i hi => stops_calm db (allowed_planSet i hi)
  obtain ⟨out, db', hrun, hout, hchain⟩ := @chain_of_each noFault now (.set flag on) (planSet o db n ids)
    (fun k g hg => (groupOK_of_mem (mem_planSet.mp hg).2).ne_nil) db
  rw [reached_eq_self hstops] at hchain
  refine ⟨db', ?_, ?_, ?_⟩
  · rw [batchSetFlag_plan o now n flag ids on (Eq.refl _), hrun, hout.mpr hstops]
  · refine (rows_of_chain hchain).trans (List.map_congr_left fun m hm => ?_)
    simp only [exists_planSet_iff hm]
  · obtain ⟨new, hrows, hnew⟩ := ops_of_chain hchain (Eq.refl _)
    rw [stores_planSet] at hnew
    have hsome : (fun g : Group => ((g.src db).map fun f =>
        newOp g.accountID f g.uids (flagOp flag on) []).isSome) = fun g => (g.src db).isSome :=
      funext fun g => Option.isSome_map
    have hops := forall₂_filterMap (fun g => (g.accountID, g.folderID)) (OpFor db ids flag on) hnew
      fun g hg op hop op' hsame => by
        obtain ⟨f, hf, rfl⟩ := Option.map_eq_some_iff.mp hop
        exact opFor_of_group hg hf hsame
    rw [hsome] at hops
    exact ⟨new, _, hrows, (nodup_groups o n _).sublist (List.filter_sublist.map _), hops, fun p => mem_places⟩

/-! ### Marking a folder -/

/-- The rows of the items of the chunks are those marked for some id. -/
theorem exists_planChunks_iff {o : Order} {db : DB} {m : Message} (hm : m ∈ db.messages.rows) :
    ∀ {cs : List (List Nat)} {n : Nat},
      (∃ i ∈ planChunks o db n cs, m.id ∈ i.ids) ↔ Marked db cs.flatten m := by
  intro cs
  induction cs with
  | nil =>
    intro n
    simp [planChunks, Marked]
  | cons c cs ih =>
    intro n
    have hboth : Marked db (c :: cs).flatten m ↔ Marked db c m ∨ Marked db cs.flatten m := by
      unfold Marked
      rw [List.flatten_cons]
      constructor
      · rintro ⟨t, ht, hid, hclass⟩
        rcases List.mem_append.mp hid with hid | hid
        · exact .inl ⟨t, ht, hid, hclass⟩
        · exact .inr ⟨t, ht, hid, hclass⟩
      · rintro (⟨t, ht, hid, hclass⟩ | ⟨t, ht, hid, hclass⟩)
        · exact ⟨t, ht, List.mem_append_left _ hid, hclass⟩
        · exact ⟨t, ht, List.mem_append_right _ hid, hclass⟩
    rw [hboth, ← exists_planSet_iff (o := o) (n := n) hm, ← ih (n := n + 1)]
    show (∃ i ∈ planSet o db n c ++ planChunks o db (n + 1) cs, m.id ∈ i.ids) ↔ _
    constructor
    · rintro ⟨i, hi, hid⟩
      rcases List.mem_append.mp hi with hi | hi
      · exact .inl ⟨i, hi, hid⟩
      · exact .inr ⟨i, hi, hid⟩
    · rintro (⟨i, hi, hid⟩ | ⟨i, hi, hid⟩)
      · exact ⟨i, List.mem_append_left _ hi, hid⟩
      · exact ⟨i, List.mem_append_right _ hi, hid⟩

theorem allowed_planChunks {o : Order} {db : DB} :
    ∀ {cs : List (List Nat)} {n : Nat}, ∀ i ∈ planChunks o db n cs, i.Allowed := by
  intro cs
  induction cs with
  | nil => exact fun i hi => absurd hi List.not_mem_nil
  | cons c cs ih =>
    intro n i hi
    rcases List.mem_append.mp hi with hi | hi
    · exact allowed_planSet i hi
    · exact ih i hi

/-- The rows after a folder is marked as read: the unread ones and their copies are read. -/
theorem rows_markFolderRead (o : Order) (now : Time) (folderID : Nat) (db : DB) :
    ∃ k db', markFolderRead o now folderID (.faulty noFault) db = (.ok (k, none), db') ∧
      db'.messages.rows = db.messages.rows.map fun m =>
        if Marked db (unreadIDsByFolder db folderID) m then MailFlag.seen.put true m else m := by
  have hpos : 0 < markFolderReadChunk := by decide
  have hallowed : ∀ i ∈ (Call.markFolderRead folderID).plan o db, i.Allowed := by
    intro i hi
    rcases List.mem_cons.mp hi with rfl | hi
    · trivial
    · exact allowed_planChunks i hi
  have hstops : ∀ i ∈ (Call.markFolderRead folderID).plan o db, i.stops noFault db (.set .seen true) = false :=
    fun i hi => stops_calm db (hallowed i hi)
  obtain ⟨out, db', hrun, hout, hchain⟩ := @chain_of_run noFault o now (.markFolderRead folderID) db
  have hreached : reached noFault db ((Call.markFolderRead folderID).action db)
      ((Call.markFolderRead folderID).plan o db) = (Call.markFolderRead folderID).plan o db :=
    reached_eq_self hstops
  rw [hreached] at hchain
  obtain rfl := hout.mpr hstops
  have hmarked : ∃ k, markFolderRead o now folderID (.faulty noFault) db = (.ok (k, none), db') := by
    change (markFolderRead o now folderID >>= _) (.faulty noFault) db = (.ok (), db') at hrun
    rw [bind_apply] at hrun
    cases hmark : markFolderRead o now folderID (.faulty noFault) db with
    | mk result d =>
      rw [hmark] at hrun
      cases result with
      | dead => cases hrun
      | err e => cases hrun
      | ok r =>
        obtain ⟨k, failed⟩ := r
        cases failed with
        | some e => cases hrun
        | none =>
          cases hrun
          exact ⟨k, rfl⟩
  obtain ⟨k, hmark⟩ := hmarked
  refine ⟨k, db', hmark, (rows_of_chain hchain).trans (List.map_congr_left fun m hm => ?_)⟩
  have hplan : (∃ i ∈ (Call.markFolderRead folderID).plan o db, m.id ∈ i.ids) ↔
      Marked db (unreadIDsByFolder db folderID) m := by
    rw [← flatten_chunksOf hpos (unreadIDsByFolder db folderID), ← exists_planChunks_iff (o := o) (n := 0) hm]
    constructor
    · rintro ⟨i, hi, hid⟩
      rcases List.mem_cons.mp hi with rfl | hi
      · exact absurd hid List.not_mem_nil
      · exact ⟨i, hi, hid⟩
    · rintro ⟨i, hi, hid⟩
      exact ⟨i, List.mem_cons_of_mem _ hi, hid⟩
  simp only [hplan]

/-- No row of a folder that was marked as read is unread. -/
theorem seen_of_markFolderRead {db db' : DB} {folderID : Nat}
    (h : db'.messages.rows = db.messages.rows.map fun m =>
      if Marked db (unreadIDsByFolder db folderID) m then MailFlag.seen.put true m else m) :
    ∀ m ∈ db'.messages.rows, m.folderID = folderID → m.seen = true := by
  intro m hm hfolder
  rw [h] at hm
  obtain ⟨r, hr, rfl⟩ := List.mem_map.mp hm
  by_cases hmarked : Marked db (unreadIDsByFolder db folderID) r
  · rw [if_pos hmarked]
    rfl
  · rw [if_neg hmarked] at hfolder ⊢
    by_contra hseen
    refine hmarked ⟨r, hr, ?_, rfl, .inl rfl⟩
    exact List.mem_map.mpr ⟨r, List.mem_filter.mpr ⟨hr, by simp [hfolder, hseen]⟩, rfl⟩

/-- **Marking copies keeps their classes uniform**: where no statement fails, a batch marks the rows given
and their copies and queues each of them once, and marking a folder as read leaves none of its rows
unread. -/
theorem copies_marked (o : Order) (now : Time) (db : DB) :
    (∀ ids read, ∃ db', batchSetRead o now 0 ids read (.faulty noFault) db = (.ok (), db') ∧
      Marks db ids .seen read db') ∧
    (∀ ids flagged, ∃ db', batchSetFlagged o now ids flagged (.faulty noFault) db = (.ok (), db') ∧
      Marks db ids .flagged flagged db') ∧
    ∀ folderID, ∃ k db', markFolderRead o now folderID (.faulty noFault) db = (.ok (k, none), db') ∧
      (db'.messages.rows = db.messages.rows.map fun m =>
        if Marked db (unreadIDsByFolder db folderID) m then MailFlag.seen.put true m else m) ∧
      ∀ m ∈ db'.messages.rows, m.folderID = folderID → m.seen = true := by
  refine ⟨fun ids read => marks_batchSetFlag o now 0 .seen ids read db,
    fun ids flagged => marks_batchSetFlag o now 0 .flagged ids flagged db, fun folderID => ?_⟩
  obtain ⟨k, db', hrun, hrows⟩ := rows_markFolderRead o now folderID db
  exact ⟨k, db', hrun, hrows, seen_of_markFolderRead hrows⟩

end FlyMail.Sync
