/-
The queue and the runners that work on it.

Two things are said here once for everything that is later said about runs.  A call
without faults is a number of groups handled one after another, each of which changes
its rows and queues one row that covers exactly them (`run_calm`).  And a runner never
holds a row that is not queued: it works on a copy, but only its own attempts take
rows out of the queue (`queueInv_step`).
-/
import FlyMail.Proofs.Plan
import FlyMail.Sync.System

namespace FlyMail.Sync

/-! ### A call without faults -/

/-- Every row of `db'` is a row of `db` up to its flags. -/
def RowsFrom (db db' : DB) : Prop :=
  ∀ r ∈ db'.messages.rows, ∃ r₀ ∈ db.messages.rows, Message.plain r = Message.plain r₀

/-- What rows equal up to the flags have in common. -/
theorem eq_of_msgPlain {r r₀ : Message} (h : Message.plain r = Message.plain r₀) :
    r.id = r₀.id ∧ r.accountID = r₀.accountID ∧ r.folderID = r₀.folderID ∧ r.uid = r₀.uid := by
  have hid := congrArg Message.id h
  have haccount := congrArg Message.accountID h
  have hfolder := congrArg Message.folderID h
  have huid := congrArg Message.uid h
  exact ⟨hid, haccount, hfolder, huid⟩

/-- The row that is queued for a group. -/
def queuedOp (db₀ : DB) (a : Action) (g : Group) (src : Folder) : WritebackOp :=
  newOp g.accountID src g.uids (a.intended db₀ g.accountID src).1
    (a.intended db₀ g.accountID src).2

/-- A group was handled: its rows are changed, and the change is queued. -/
structure Touched (db₀ : DB) (a : Action) (g : Group) (src : Folder) (d d' : DB) : Prop where
  found : Folder.Repository.getByID db₀ g.folderID = some src
  account : src.accountID = g.accountID
  messages : d'.messages = (a.change g.ids d).messages
  ops : ∃ due, d'.ops.rows
    = d.ops.rows ++ [{ queuedOp db₀ a g src with id := d.ops.last + 1, nextAttemptAt := due }]
  last : d'.ops.last = d.ops.last + 1

/-- The folder of a linked row. -/
theorem exists_folder_of_linked {db : DB} (h : db.Linked) {m : Message}
    (hm : m ∈ db.messages.rows) :
    ∃ src, Folder.Repository.getByID db m.folderID = some src ∧ src.accountID = m.accountID := by
  obtain ⟨f, hf, hid, haccount⟩ := h m hm
  exact ⟨f, Table.get?_eq_some.mpr ⟨hf, hid⟩, haccount⟩

theorem touched_of_effect {now : Time} {a : Action} {n : Nat} {g : Group} {db₀ d d' : DB}
    (hlinked : db₀.Linked) (hg : GroupOK db₀ g) (hsame : SameFolders db₀ d)
    (h : Effect (fun _ => .none) now a (.group n g) d d') :
    ∃ src, Touched db₀ a g src d d' := by
  obtain ⟨m, hm⟩ := List.exists_mem_of_ne_nil g.msgs hg.ne_nil
  obtain ⟨src, hsrc, haccount⟩ := exists_folder_of_linked hlinked (hg.mem m hm)
  rw [hg.folder m hm] at hsrc
  rw [hg.account m hm] at haccount
  have hgsrc : g.src db₀ = some src := hsrc
  have hchange : Item.changes (fun _ => .none) db₀ a (.group n g) = true := by
    cases a with
    | delete => simp [Item.changes, opens, hgsrc]
    | move target => rfl
    | set flag on => rfl
  have hsurvive : survives (fun _ => .none) a (Site.group n g.accountID g.folderID) = true := by
    cases a with
    | delete => rfl
    | move target => rfl
    | set flag on => cases flag <;> rfl
  have hverb : verb (fun _ => .none) db₀ a n g src = a.intended db₀ g.accountID src := by
    cases a <;> rfl
  have hstores : Item.stores (fun _ => .none) db₀ a (.group n g)
      = some (queuedOp db₀ a g src) := by
    simp only [Item.stores, hchange, hsurvive, and_self, if_true, hgsrc, Option.bind_some,
      stored, hsrc, Option.map_some, hverb, queuedOp]
  have hmsg := h.messages
  have hops := h.ops
  rw [hsame.changes a, hchange, if_pos rfl] at hmsg
  rw [hsame.stores a, hstores] at hops
  refine ⟨src, hsrc, haccount, hmsg, ?_, by rw [hops]; rfl⟩
  rw [hops]
  exact ⟨_, rfl⟩

/-- **The row queued for a group covers the mails of the group and no others.** -/
theorem coveredBy_of_group {db₀ : DB} {g : Group} {src : Folder} {o : WritebackOp}
    (hg : GroupOK db₀ g) (ho : o.accountID = g.accountID) (hpath : o.folderPath = src.path)
    (huids : o.uids = joinUIDs g.uids) (p : Place) :
    p.coveredBy o = true ↔ ∃ m ∈ g.msgs, placeOf m src = p := by
  have hne : g.uids ≠ [] := by
    have := hg.ne_nil
    unfold Group.uids
    simpa using this
  have hops := opUIDs_joinUIDs huids hne
  unfold Place.coveredBy placeOf
  simp only [Bool.and_eq_true, beq_iff_eq, List.contains_iff_mem]
  rw [hops, ho, hpath]
  refine ⟨fun h => ?_, fun h => ?_⟩
  · obtain ⟨⟨hacc, hp⟩, huid⟩ := h
    obtain ⟨u, hu, hval⟩ := List.mem_map.mp huid
    obtain ⟨m, hm, rfl⟩ := List.mem_map.mp hu
    refine ⟨m, hm, ?_⟩
    rw [hg.account m hm, hacc, hp, hval]
  · obtain ⟨m, hm, rfl⟩ := h
    refine ⟨⟨(hg.account m hm).symm, rfl⟩, ?_⟩
    exact List.mem_map.mpr ⟨m.uid, List.mem_map.mpr ⟨m, hm, rfl⟩, rfl⟩

/-- The path says which folder of the account it is, the UID which row of the folder. -/
theorem eq_of_placeOf {db : DB} (hlinked : db.Linked) {m m' : Message} {f f' : Folder}
    (hm : m ∈ db.messages.rows) (hf : Folder.Repository.getByID db m.folderID = some f)
    (hm' : m' ∈ db.messages.rows) (hf' : Folder.Repository.getByID db m'.folderID = some f')
    (h : placeOf m f = placeOf m' f') : m = m' := by
  obtain ⟨hacc, hpath, huid⟩ := Place.mk.inj h
  obtain ⟨f₁, hf₁, hfaccount⟩ := exists_folder_of_linked hlinked hm
  obtain ⟨f₁', hf₁', hfaccount'⟩ := exists_folder_of_linked hlinked hm'
  rw [hf] at hf₁
  rw [hf'] at hf₁'
  cases hf₁
  cases hf₁'
  obtain ⟨hfmem, hfid⟩ := Table.get?_eq_some.mp hf
  obtain ⟨hfmem', hfid'⟩ := Table.get?_eq_some.mp hf'
  have hsame : f = f' := by
    refine db.folders.eq_of_uk hfmem hfmem' ?_
    show (f.accountID, f.path) = (f'.accountID, f'.path)
    rw [hfaccount, hfaccount', hacc, hpath]
  refine db.messages.eq_of_uk hm hm' ?_
  show (m.folderID, m.uid) = (m'.folderID, m'.uid)
  have hfolder : m.folderID = m'.folderID := by
    rw [← hfid, ← hfid', hsame]
  have huids : m.uid = m'.uid := by
    cases hmu : m.uid
    cases hmu' : m'.uid
    rw [hmu, hmu'] at huid
    simpa using huid
  rw [hfolder, huids]

/-- Whether a row's mail is covered is whether the row is in the group. -/
theorem coveredBy_queuedOp {db₀ : DB} {g : Group} {src f : Folder} {m : Message}
    {o : WritebackOp} (hlinked : db₀.Linked) (hg : GroupOK db₀ g)
    (hsrc : Folder.Repository.getByID db₀ g.folderID = some src)
    (ho : o.accountID = g.accountID) (hpath : o.folderPath = src.path)
    (huids : o.uids = joinUIDs g.uids) (hm : m ∈ db₀.messages.rows)
    (hf : Folder.Repository.getByID db₀ m.folderID = some f) :
    (placeOf m f).coveredBy o = true ↔ m.id ∈ g.ids := by
  have hsrcof : ∀ x ∈ g.msgs, Folder.Repository.getByID db₀ x.folderID = some src := by
    intro x hx
    rw [hg.folder x hx]
    exact hsrc
  rw [coveredBy_of_group hg ho hpath huids]
  refine ⟨fun h => ?_, fun h => ?_⟩
  · obtain ⟨x, hx, heq⟩ := h
    rw [← eq_of_placeOf hlinked (hg.mem x hx) (hsrcof x hx) hm hf heq]
    exact List.mem_map.mpr ⟨x, hx, rfl⟩
  · obtain ⟨x, hx, hid⟩ := List.mem_map.mp h
    have hxm : x = m := db₀.messages.eq_of_pk (hg.mem x hx) hm hid
    subst hxm
    have hfolder : f = src := by
      rw [hsrcof x hx] at hf
      exact (Option.some.inj hf).symm
    exact ⟨x, hx, by rw [hfolder]⟩

theorem rowsFrom_change {db₀ d : DB} (a : Action) (ids : List Nat) (h : RowsFrom db₀ d) :
    ∀ r ∈ (a.change ids d).messages.rows, ∃ r₀ ∈ db₀.messages.rows,
      Message.plain r = Message.plain r₀ := by
  intro r hr
  cases a with
  | delete => exact h r (Table.mem_delete.mp hr).1
  | move target => exact h r (Table.mem_delete.mp hr).1
  | set flag on =>
      have hrows : r ∈ (setFlagByIDs flag ids on d).messages.rows := hr
      rw [setFlagByIDs_rows] at hrows
      obtain ⟨m, hm, rfl⟩ := List.mem_map.mp hrows
      obtain ⟨r₀, hr₀, hplain⟩ := h m hm
      refine ⟨r₀, hr₀, ?_⟩
      by_cases hc : ids.contains m.id = true
      · rw [if_pos hc, ← hplain]
        cases flag <;> rfl
      · rw [if_neg hc, hplain]

/-- **A call without faults handles group after group.** What every group keeps of the
mail rows and the queue, the call keeps. -/
theorem run_calm (o : Order) (now : Time) (c : Call) {db₀ : DB} (hlinked : db₀.Linked)
    {P : Messages → WritebackOps → Prop} (h₀ : P db₀.messages db₀.ops)
    (hstep : ∀ n g src d d', Item.group n g ∈ c.plan o db₀ → GroupOK db₀ g → RowsFrom db₀ d →
      Touched db₀ (c.action db₀) g src d d' → P d.messages d.ops → P d'.messages d'.ops) :
    let db' := (c.run o now (.faulty fun _ => .none) db₀).2
    P db'.messages db'.ops ∧ SameFolders db₀ db' ∧ RowsFrom db₀ db' := by
  obtain ⟨out, db', hrun, -, hchain⟩ := @chain_of_run (fun _ => .none) o now c db₀
  rw [hrun]
  have hchain' : ∀ {items : List Item} {d d' : DB},
      Chain (fun _ => .none) now (c.action db₀) items d d' → (∀ i ∈ items, i ∈ c.plan o db₀) →
      SameFolders db₀ d → RowsFrom db₀ d → P d.messages d.ops →
      P d'.messages d'.ops ∧ SameFolders db₀ d' ∧ RowsFrom db₀ d' := by
    intro items d d' h
    induction h with
    | nil d => intro _ hsame hrows hp; exact ⟨hp, hsame, hrows⟩
    | @cons i rest d e d' h _ ih =>
        intro hin hsame hrows hp
        have hsame' : SameFolders db₀ e := Eq.trans h.folders hsame
        have hrest : ∀ i ∈ rest, i ∈ c.plan o db₀ := fun i hi => hin i (by simp [hi])
        cases i with
        | gate site =>
            have hmsg : e.messages = d.messages := h.messages
            have hops : e.ops = d.ops := h.ops
            refine ih hrest hsame' ?_ (by rw [hmsg, hops]; exact hp)
            intro r hr
            rw [hmsg] at hr
            exact hrows r hr
        | refuse err =>
            have hmsg : e.messages = d.messages := h.messages
            have hops : e.ops = d.ops := h.ops
            refine ih hrest hsame' ?_ (by rw [hmsg, hops]; exact hp)
            intro r hr
            rw [hmsg] at hr
            exact hrows r hr
        | group n g =>
            have hplan := hin (.group n g) (by simp)
            have hg := groupOK_of_mem_plan hplan
            obtain ⟨src, htouch⟩ := touched_of_effect hlinked hg hsame h
            refine ih hrest hsame' ?_ (hstep n g src d e hplan hg hrows htouch hp)
            intro r hr
            rw [htouch.messages] at hr
            exact rowsFrom_change _ _ hrows r hr
  exact hchain' hchain (fun i hi => reached_subset hi) rfl (fun r hr => ⟨r, hr, rfl⟩) h₀

theorem linked_of_rowsFrom {db db' : DB} (h : db.Linked) (hsame : SameFolders db db')
    (hrows : RowsFrom db db') : db'.Linked := by
  intro m hm
  obtain ⟨m₀, hm₀, hplain⟩ := hrows m hm
  obtain ⟨-, haccount, hfolder, -⟩ := eq_of_msgPlain hplain
  obtain ⟨src, hsrc, hsrcaccount⟩ := exists_folder_of_linked h hm₀
  have hmap := hsame.getByID m₀.folderID
  rw [hsrc, Option.map_some, Option.map_eq_some_iff] at hmap
  obtain ⟨f, hf, hfplain⟩ := hmap
  obtain ⟨-, -, -, hfaccount⟩ := eq_of_plain hfplain
  obtain ⟨hmem, hid⟩ := Table.get?_eq_some.mp hf
  exact ⟨f, hmem, hid.trans hfolder.symm, by rw [hfaccount, hsrcaccount, haccount]⟩

/-! ### Settling a row -/

/-- A row of the queue without what attempts at it change. -/
def core (o : WritebackOp) : WritebackOp :=
  { o with attempts := 0, nextAttemptAt := 0, lastError := [] }

/-- What rows equal up to the record of their attempts have in common. -/
theorem eq_of_core {o o' : WritebackOp} (h : core o = core o') :
    o.id = o'.id ∧ o.accountID = o'.accountID ∧ o.folderPath = o'.folderPath ∧ o.op = o'.op ∧
      o.targetPath = o'.targetPath ∧ opUIDs o = opUIDs o' := by
  have hid := congrArg WritebackOp.id h
  have haccount := congrArg WritebackOp.accountID h
  have hpath := congrArg WritebackOp.folderPath h
  have hop := congrArg WritebackOp.op h
  have htarget := congrArg WritebackOp.targetPath h
  have huids : opUIDs (core o) = opUIDs (core o') := congrArg opUIDs h
  exact ⟨hid, haccount, hpath, hop, htarget, huids⟩

theorem coveredBy_of_core {o o' : WritebackOp} (h : core o = core o') (p : Place) :
    p.coveredBy o = p.coveredBy o' := by
  obtain ⟨-, haccount, hpath, -, -, huids⟩ := eq_of_core h
  unfold Place.coveredBy
  rw [haccount, hpath, huids]

theorem settle_messages (op : WritebackOp) (failed : Option Text) (now : Time) (db : DB) :
    (settle op failed now db).messages = db.messages := by
  cases failed with
  | none => rfl
  | some cause =>
      unfold settle
      dsimp only
      cases WbStore.getByID db op.id with
      | none => rfl
      | some row =>
          dsimp only
          split <;> rfl

theorem settle_folders (op : WritebackOp) (failed : Option Text) (now : Time) (db : DB) :
    (settle op failed now db).folders = db.folders := by
  cases failed with
  | none => rfl
  | some cause =>
      unfold settle
      dsimp only
      cases WbStore.getByID db op.id with
      | none => rfl
      | some row =>
          dsimp only
          split <;> rfl

theorem settle_last (op : WritebackOp) (failed : Option Text) (now : Time) (db : DB) :
    (settle op failed now db).ops.last = db.ops.last := by
  cases failed with
  | none => rfl
  | some cause =>
      unfold settle
      dsimp only
      cases WbStore.getByID db op.id with
      | none => rfl
      | some row =>
          dsimp only
          split <;> rfl

/-- A row that goes through leaves the queue; the other rows stay as they were. -/
theorem settle_ok (op : WritebackOp) (now : Time) (db : DB) :
    (settle op none now db).ops.rows = db.ops.rows.filter fun o => !(o.id == op.id) := rfl

/-- A row that fails stays, unless it is given up. -/
theorem settle_failed {op : WritebackOp} {cause : Text} {now : Time} {db : DB}
    (h : atLimit db op = false) :
    (settle op (some cause) now db).ops.rows.map core = db.ops.rows.map core := by
  unfold settle
  dsimp only
  unfold atLimit at h
  cases hrow : WbStore.getByID db op.id with
  | none => rfl
  | some row =>
      rw [hrow] at h
      have hlimit : ¬ row.attempts + 1 ≥ WbStore.maxWritebackAttempts := by simpa using h
      dsimp only
      rw [if_neg hlimit]
      rw [WbStore.fail_rows, List.map_map]
      refine List.map_congr_left fun o _ => ?_
      show core (if o.id == op.id then WbStore.putOff cause now o else o) = core o
      by_cases hid : (o.id == op.id) = true
      · rw [if_pos hid]
        rfl
      · rw [if_neg hid]

/-- Settling a row leaves the other rows alone. -/
theorem mem_settle_of_ne {op : WritebackOp} {failed : Option Text} {now : Time} {db : DB}
    {o : WritebackOp} (hne : o.id ≠ op.id) :
    o ∈ (settle op failed now db).ops.rows ↔ o ∈ db.ops.rows := by
  have hdelete : ∀ db : DB, o ∈ (WbStore.delete op.id db).ops.rows ↔ o ∈ db.ops.rows := by
    intro db
    show o ∈ (Table.delete _ _).rows ↔ _
    rw [Table.mem_delete]
    simp [hne]
  have hfail : ∀ cause, o ∈ (WbStore.fail op.id cause now db).ops.rows ↔ o ∈ db.ops.rows := by
    intro cause
    rw [WbStore.fail_rows]
    refine ⟨fun h => ?_, fun h => ?_⟩
    · obtain ⟨a, ha, heq⟩ := List.mem_map.mp h
      by_cases hid : (a.id == op.id) = true
      · rw [if_pos hid] at heq
        have hao : a.id = o.id := by
          have hid := congrArg WritebackOp.id heq
          exact hid
        exact absurd (hao.symm.trans (by simpa using hid)) hne
      · rw [if_neg hid] at heq
        rw [← heq]
        exact ha
    · exact List.mem_map.mpr ⟨o, h, by simp [hne]⟩
  cases failed with
  | none => exact hdelete db
  | some cause =>
      unfold settle
      dsimp only
      cases WbStore.getByID db op.id with
      | none => exact Iff.rfl
      | some row =>
          dsimp only
          split
          · rw [hdelete, hfail]
          · rw [hfail]

/-- No row is in the queue after settling that was not there before. -/
theorem exists_of_mem_settle {op : WritebackOp} {failed : Option Text} {now : Time} {db : DB}
    {o : WritebackOp} (h : o ∈ (settle op failed now db).ops.rows) :
    ∃ o₀ ∈ db.ops.rows, core o₀ = core o := by
  by_cases hne : o.id = op.id
  · have hfail : ∀ cause, o ∈ (WbStore.fail op.id cause now db).ops.rows →
        ∃ o₀ ∈ db.ops.rows, core o₀ = core o := by
      intro cause hmem
      rw [WbStore.fail_rows] at hmem
      obtain ⟨a, ha, heq⟩ := List.mem_map.mp hmem
      refine ⟨a, ha, ?_⟩
      rw [← heq]
      by_cases hid : (a.id == op.id) = true
      · rw [if_pos hid]
        rfl
      · rw [if_neg hid]
    cases failed with
    | none => exact ⟨o, (Table.mem_delete.mp h).1, rfl⟩
    | some cause =>
        unfold settle at h
        dsimp only at h
        cases hrow : WbStore.getByID db op.id with
        | none =>
            rw [hrow] at h
            exact ⟨o, h, rfl⟩
        | some row =>
            rw [hrow] at h
            dsimp only at h
            split at h
            · exact hfail cause (Table.mem_delete.mp h).1
            · exact hfail cause h
  · exact ⟨o, (mem_settle_of_ne hne).mp h, rfl⟩

/-! ### What the runners hold -/

/-- Where the queue and the runners stand to each other. -/
structure QueueInv (s : System) : Prop where
  linked : s.db.Linked
  /-- The rows a runner has in hand are queued rows of its account. -/
  work : ∀ accountID, ∀ o ∈ (s.runners accountID).work,
    o.accountID = accountID ∧ ∃ row ∈ s.db.ops.rows, core row = core o
  /-- It has each of them once. -/
  distinct : ∀ accountID, (s.runners accountID).work.Pairwise fun a b => a.id ≠ b.id
  /-- A task is about a row of its runner's account, if that row is still there. -/
  tasks : ∀ accountID id, Task.process id ∈ (s.runners accountID).tasks →
    id ≤ s.db.ops.last ∧ ∀ row ∈ s.db.ops.rows, row.id = id → row.accountID = accountID

theorem submitAll_work (ops : List WritebackOp) :
    ∀ (runners : Nat → Runner) (accountID : Nat),
      (submitAll runners ops accountID).work = (runners accountID).work := by
  induction ops with
  | nil => intro runners accountID; rfl
  | cons o rest ih =>
      intro runners accountID
      show (submitAll (Function.update runners o.accountID _) rest accountID).work = _
      rw [ih]
      by_cases h : accountID = o.accountID
      · subst h
        rw [Function.update_self]
        unfold Runner.submit
        split <;> rfl
      · rw [Function.update_of_ne h]

theorem mem_submitAll_tasks {t : Task} (ops : List WritebackOp) :
    ∀ (runners : Nat → Runner) (accountID : Nat),
      t ∈ (submitAll runners ops accountID).tasks →
        t ∈ (runners accountID).tasks ∨ ∃ o ∈ ops, o.accountID = accountID ∧ t = .process o.id := by
  induction ops with
  | nil => intro runners accountID h; exact Or.inl h
  | cons o rest ih =>
      intro runners accountID h
      rcases ih _ accountID h with h | ⟨o', ho', haccount, ht⟩
      · dsimp only at h
        by_cases hacc : accountID = o.accountID
        · subst hacc
          rw [Function.update_self] at h
          unfold Runner.submit at h
          split at h
          · rcases List.mem_append.mp h with h | h
            · exact Or.inl h
            · exact Or.inr ⟨o, by simp, rfl, List.mem_singleton.mp h⟩
          · exact Or.inl h
        · rw [Function.update_of_ne hacc] at h
          exact Or.inl h
      · exact Or.inr ⟨o', by simp [ho'], haccount, ht⟩

/-- The row was queued for a group of the call. -/
def QueuedBy (o : Order) (c : Call) (db : DB) (row : WritebackOp) : Prop :=
  ∃ n g src, Item.group n g ∈ c.plan o db ∧
    Folder.Repository.getByID db g.folderID = some src ∧ src.accountID = g.accountID ∧
      core row = core { queuedOp db (c.action db) g src with id := row.id }

/-- **A call takes nothing out of the queue** and adds a row for each group. -/
theorem ops_of_run_calm (o : Order) (now : Time) (c : Call) {db : DB} (hlinked : db.Linked) :
    let db' := (c.run o now (.faulty fun _ => .none) db).2
    (∃ new, db'.ops.rows = db.ops.rows ++ new ∧
      ∀ row ∈ new, db.ops.last < row.id ∧ QueuedBy o c db row) ∧
      db.ops.last ≤ db'.ops.last := by
  refine (run_calm o now c hlinked (P := fun _ ops =>
    (∃ new, ops.rows = db.ops.rows ++ new ∧
      ∀ row ∈ new, db.ops.last < row.id ∧ QueuedBy o c db row) ∧
      db.ops.last ≤ ops.last) ⟨⟨[], by simp, by simp⟩, Nat.le_refl _⟩ ?_).1
  intro n g src d d' hplan _ _ htouch h
  obtain ⟨⟨new, hnew, hrows⟩, hle⟩ := h
  obtain ⟨due, hops⟩ := htouch.ops
  refine ⟨⟨new ++ [_], by rw [hops, hnew, List.append_assoc], ?_⟩, ?_⟩
  · intro row hrow
    rcases List.mem_append.mp hrow with hrow | hrow
    · exact hrows row hrow
    · rw [List.mem_singleton.mp hrow]
      refine ⟨?_, n, g, src, hplan, htouch.found, htouch.account, rfl⟩
      show db.ops.last < d.ops.last + 1
      omega
  · rw [htouch.last]
    omega

private theorem core_mem_of_settle {op o : WritebackOp} {failed : Option Text} {now : Time}
    {db : DB} (hne : o.id ≠ op.id) (h : ∃ row ∈ db.ops.rows, core row = core o) :
    ∃ row ∈ (settle op failed now db).ops.rows, core row = core o := by
  obtain ⟨row, hrow, hcore⟩ := h
  refine ⟨row, (mem_settle_of_ne ?_).mpr hrow, hcore⟩
  rw [(eq_of_core hcore).1]
  exact hne

/-- A runner takes rows of the queue in hand, and perhaps drops tasks. -/
private theorem queueInv_setRunner {s : System} (h : QueueInv s) {accountID : Nat} {r : Runner}
    (hwork : ∀ o ∈ r.work, o.accountID = accountID ∧ ∃ row ∈ s.db.ops.rows, core row = core o)
    (hdistinct : r.work.Pairwise fun a b => a.id ≠ b.id)
    (htasks : ∀ t ∈ r.tasks, t ∈ (s.runners accountID).tasks) :
    QueueInv { s with runners := Function.update s.runners accountID r } := by
  refine ⟨h.linked, fun b op hop => ?_, fun b => ?_, fun b id hid => ?_⟩
  · by_cases hb : b = accountID
    · subst hb
      simp only [Function.update_self] at hop
      exact hwork op hop
    · simp only [Function.update_of_ne hb] at hop
      exact h.work b op hop
  · by_cases hb : b = accountID
    · subst hb
      simp only [Function.update_self]
      exact hdistinct
    · simp only [Function.update_of_ne hb]
      exact h.distinct b
  · by_cases hb : b = accountID
    · subst hb
      simp only [Function.update_self] at hid
      exact h.tasks b id (htasks _ hid)
    · simp only [Function.update_of_ne hb] at hid
      exact h.tasks b id hid

/-- The rows that are due are rows of the account's queue, each of them once. -/
private theorem duePending_ok (db : DB) (accountID : Nat) (now : Time) :
    (∀ o ∈ WbStore.duePending db accountID now,
      o.accountID = accountID ∧ ∃ row ∈ db.ops.rows, core row = core o) ∧
      (WbStore.duePending db accountID now).Pairwise fun a b => a.id ≠ b.id := by
  refine ⟨fun o ho => ?_, (db.ops.sorted.filter _).imp fun hlt => ?_⟩
  · obtain ⟨hmem, hdue⟩ := List.mem_filter.mp ho
    exact ⟨by simpa using (Bool.and_eq_true_iff.mp hdue).1, o, hmem, rfl⟩
  · omega

/-- **Every step keeps the queue and the runners together.** -/
theorem queueInv_step {s t : System} {l : Label} (h : QueueInv s) (hstep : s.step l = some t) :
    QueueInv t := by
  cases l with
  | user o c =>
      cases hstep
      have hcalm := run_calm o s.now c h.linked (P := fun _ _ => True) trivial
        (fun _ _ _ _ _ _ _ _ _ _ => trivial)
      obtain ⟨⟨new, hnew, hlt⟩, hle⟩ := ops_of_run_calm o s.now c h.linked
      have hlt : ∀ row ∈ new, s.db.ops.last < row.id := fun row hrow => (hlt row hrow).1
      refine ⟨linked_of_rowsFrom h.linked hcalm.2.1 hcalm.2.2, fun b op hop => ?_, fun b => ?_,
        fun b id hid => ?_⟩
      · rw [submitAll_work] at hop
        obtain ⟨haccount, row, hrow, hcore⟩ := h.work b op hop
        refine ⟨haccount, row, ?_, hcore⟩
        rw [hnew]
        exact List.mem_append.mpr (Or.inl hrow)
      · show (submitAll _ _ b).work.Pairwise _
        rw [submitAll_work]
        exact h.distinct b
      · rcases mem_submitAll_tasks _ _ _ hid with hid | ⟨op, hop, haccount, heq⟩
        · obtain ⟨hlast, hrows⟩ := h.tasks b id hid
          refine ⟨Nat.le_trans hlast hle, fun row hrow hrid => ?_⟩
          rw [hnew] at hrow
          rcases List.mem_append.mp hrow with hrow | hrow
          · exact hrows row hrow hrid
          · have := hlt row hrow
            omega
        · cases heq
          obtain ⟨hmem, -⟩ := List.mem_filter.mp hop
          refine ⟨Table.below _ op hmem, fun row hrow hrid => ?_⟩
          rw [Table.eq_of_pk _ hrow hmem hrid]
          exact haccount
  | tick seconds =>
      cases hstep
      exact ⟨h.linked, h.work, h.distinct, h.tasks⟩
  | poll accountID =>
      simp only [System.step] at hstep
      split at hstep
      · cases hstep
        obtain ⟨hwork, hdistinct⟩ := duePending_ok s.db accountID s.now
        exact queueInv_setRunner h hwork hdistinct fun _ ht => ht
      · cases hstep
  | next accountID =>
      simp only [System.step] at hstep
      split at hstep
      · rename_i t rest hwork htasks
        cases hstep
        have hdrop : ∀ t' ∈ rest, t' ∈ (s.runners accountID).tasks := by
          intro t' ht'
          rw [htasks]
          exact List.mem_cons_of_mem _ ht'
        cases t with
        | process id =>
            refine queueInv_setRunner h (fun op hop => ?_) ?_ hdrop
            · have hget : WbStore.getByID s.db id = some op := Option.mem_toList.mp hop
              obtain ⟨hmem, hid⟩ := Table.get?_eq_some.mp hget
              refine ⟨(h.tasks accountID id ?_).2 op hmem hid, op, hmem, rfl⟩
              rw [htasks]
              exact List.mem_cons_self
            · show (WbStore.getByID s.db id).toList.Pairwise _
              cases WbStore.getByID s.db id with
              | none => exact .nil
              | some op => exact List.pairwise_singleton _ _
        | drain =>
            obtain ⟨hwork, hdistinct⟩ := duePending_ok s.db accountID s.now
            exact queueInv_setRunner h hwork hdistinct hdrop
      · cases hstep
  | refuse accountID =>
      simp only [System.step] at hstep
      split at hstep
      · rename_i t rest hwork htasks
        cases hstep
        refine queueInv_setRunner h (h.work accountID) (h.distinct accountID) fun t' ht' => ?_
        rw [htasks]
        exact List.mem_cons_of_mem _ ht'
      · cases hstep
  | attempt accountID x =>
      simp only [System.step] at hstep
      split at hstep
      · rename_i op rest hwork
        cases hstep
        have hrest : rest.Pairwise (fun a b => a.id ≠ b.id) ∧ ∀ o ∈ rest, op.id ≠ o.id := by
          have hdistinct := h.distinct accountID
          rw [hwork, List.pairwise_cons] at hdistinct
          exact ⟨hdistinct.2, hdistinct.1⟩
        have hop := h.work accountID op (by rw [hwork]; exact List.mem_cons_self)
        refine ⟨?_, fun b o ho => ?_, fun b => ?_, fun b id hid => ?_⟩
        · intro m hm
          have hm' : m ∈ s.db.messages.rows := by
            simpa only [System.attempt, settle_messages] using hm
          obtain ⟨f, hf, hrow⟩ := h.linked m hm'
          exact ⟨f, by simpa only [System.attempt, settle_folders] using hf, hrow⟩
        · by_cases hb : b = accountID
          · subst hb
            simp only [System.attempt, Function.update_self] at ho
            obtain ⟨haccount, hqueued⟩ :=
              h.work b o (by rw [hwork]; exact List.mem_cons_of_mem _ ho)
            exact ⟨haccount, core_mem_of_settle (fun he => hrest.2 o ho he.symm) hqueued⟩
          · simp only [System.attempt, Function.update_of_ne hb] at ho
            obtain ⟨haccount, row, hrow, hcore⟩ := h.work b o ho
            -- A row of another account is another row.
            have hne : o.id ≠ op.id := by
              intro he
              obtain ⟨haccount', row', hrow', hcore'⟩ := hop
              have hsame : row = row' := Table.eq_of_pk _ hrow hrow'
                (((eq_of_core hcore).1.trans he).trans (eq_of_core hcore').1.symm)
              have hb' : o.accountID = op.accountID := by
                rw [← (eq_of_core hcore).2.1, hsame, (eq_of_core hcore').2.1]
              exact hb (haccount.symm.trans (hb'.trans haccount'))
            exact ⟨haccount, core_mem_of_settle hne ⟨row, hrow, hcore⟩⟩
        · by_cases hb : b = accountID
          · subst hb
            simp only [System.attempt, Function.update_self]
            exact hrest.1
          · simp only [System.attempt, Function.update_of_ne hb]
            exact h.distinct b
        · have hid' : Task.process id ∈ (s.runners b).tasks := by
            by_cases hb : b = accountID
            · subst hb
              simpa only [System.attempt, Function.update_self] using hid
            · simpa only [System.attempt, Function.update_of_ne hb] using hid
          obtain ⟨hlast, hrows⟩ := h.tasks b id hid'
          refine ⟨by simpa only [System.attempt, settle_last] using hlast, fun row hrow hrid => ?_⟩
          obtain ⟨row₀, hrow₀, hcore⟩ := exists_of_mem_settle hrow
          obtain ⟨hid₀, haccount₀, -⟩ := eq_of_core hcore
          rw [← haccount₀]
          exact hrows row₀ hrow₀ (hid₀.trans hrid)
      · cases hstep
  | restart =>
      cases hstep
      refine ⟨h.linked, fun b o ho => ?_, fun b => ?_, fun b id hid => ?_⟩
      · simp at ho
      · exact .nil
      · dsimp only at hid
        split at hid <;> simp at hid

/-- **What a step can do**: a call, an attempt, or nothing but giving the runners work. -/
theorem step_cases {s t : System} {l : Label} (h : s.step l = some t) :
    (∃ o c, l = .user o c) ∨
      (∃ accountID x op rest, l = .attempt accountID x ∧
        (s.runners accountID).work = op :: rest ∧ t = s.attempt accountID op rest x) ∨
      (t.db = s.db ∧ t.boxes = s.boxes ∧ t.moved = s.moved) := by
  cases l with
  | user o c => exact Or.inl ⟨o, c, rfl⟩
  | attempt accountID x =>
      simp only [System.step] at h
      split at h
      · rename_i op rest hwork
        cases h
        exact Or.inr (Or.inl ⟨accountID, x, op, rest, rfl, hwork, rfl⟩)
      · cases h
  | tick seconds =>
      cases h
      exact Or.inr (Or.inr ⟨rfl, rfl, rfl⟩)
  | restart =>
      cases h
      exact Or.inr (Or.inr ⟨rfl, rfl, rfl⟩)
  | poll accountID =>
      simp only [System.step] at h
      split at h <;> cases h
      exact Or.inr (Or.inr ⟨rfl, rfl, rfl⟩)
  | next accountID =>
      simp only [System.step] at h
      split at h <;> cases h
      exact Or.inr (Or.inr ⟨rfl, rfl, rfl⟩)
  | refuse accountID =>
      simp only [System.step] at h
      split at h <;> cases h
      exact Or.inr (Or.inr ⟨rfl, rfl, rfl⟩)

end FlyMail.Sync
