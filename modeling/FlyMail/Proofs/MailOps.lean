/-
What one item of a plan does, whatever fails.

The programs of the mail operations are run once here, statement by statement, under
arbitrary faults.  What comes out is one `Effect` for an item: which rows change, which
row the queue gains, and whether the call goes on.  Everything later argues from the
effect and never from the programs.

The folder counts are the one thing an effect leaves open, since nothing but the
counts themselves depends on them.
-/
import FlyMail.Sync.Plan

namespace FlyMail.Sync

open Proc

/-! ### The folder rows, up to their counts -/

/-- A folder row without its counts. -/
def Folder.plain (f : Folder) : Folder := { f with totalCount := 0, unreadCount := 0 }

/-- `db'` is `db` with some folders counted again. -/
structure Recounted (db db' : DB) : Prop where
  messages : db'.messages = db.messages
  ops : db'.ops = db.ops
  folders : db'.folders.rows.map Folder.plain = db.folders.rows.map Folder.plain

theorem Recounted.refl (db : DB) : Recounted db db := ⟨rfl, rfl, rfl⟩

private theorem map_plain_modify {l : List Folder} {p : Folder → Bool} {f : Folder → Folder}
    (h : ∀ r, Folder.plain (f r) = Folder.plain r) :
    (l.map fun r => if p r then f r else r).map Folder.plain = l.map Folder.plain := by
  rw [List.map_map]
  refine List.map_congr_left fun r _ => ?_
  show Folder.plain (if p r then f r else r) = Folder.plain r
  by_cases hp : p r = true
  · rw [if_pos hp, h]
  · rw [if_neg hp]

theorem recounted_updateCounts (id total unread : Nat) (db : DB) :
    Recounted db (Folder.Repository.updateCounts id total unread db) :=
  ⟨rfl, rfl, map_plain_modify fun _ => rfl⟩

theorem recounted_updateUnreadCount (id unread : Nat) (db : DB) :
    Recounted db (Folder.Repository.updateUnreadCount id unread db) :=
  ⟨rfl, rfl, map_plain_modify fun _ => rfl⟩

/-- Looking for a folder by what the counts do not enter finds the same folder. -/
theorem find?_plain {l l' : List Folder} {p : Folder → Bool}
    (hp : ∀ f, p (Folder.plain f) = p f) (h : l'.map Folder.plain = l.map Folder.plain) :
    (l'.find? p).map Folder.plain = (l.find? p).map Folder.plain := by
  have hmap : ∀ l : List Folder, (l.map Folder.plain).find? p = (l.find? p).map Folder.plain := by
    intro l
    have hcomp : p ∘ Folder.plain = p := funext hp
    rw [List.find?_map, hcomp]
  rw [← hmap, ← hmap, h]

/-- The folder rows agree up to the counts. -/
def SameFolders (db db' : DB) : Prop :=
  db'.folders.rows.map Folder.plain = db.folders.rows.map Folder.plain

section SameFolders

variable {db db' : DB} (h : SameFolders db db')

include h

theorem SameFolders.getByID (id : Nat) :
    (Folder.Repository.getByID db' id).map Folder.plain
      = (Folder.Repository.getByID db id).map Folder.plain :=
  find?_plain (fun _ => rfl) h

theorem SameFolders.findByType (accountID : Nat) (type : FolderType) :
    (Folder.Repository.findByType db' accountID type).map Folder.plain
      = (Folder.Repository.findByType db accountID type).map Folder.plain :=
  find?_plain (fun _ => rfl) h

end SameFolders

/-- What rows equal up to the counts have in common. -/
theorem eq_of_plain {f f' : Folder} (h : Folder.plain f' = Folder.plain f) :
    f'.id = f.id ∧ f'.path = f.path ∧ f'.type = f.type ∧ f'.accountID = f.accountID := by
  have hid := congrArg Folder.id h
  have hpath := congrArg Folder.path h
  have htype := congrArg Folder.type h
  have haccount := congrArg Folder.accountID h
  exact ⟨hid, hpath, htype, haccount⟩

theorem newOp_plain {f f' : Folder} (h : Folder.plain f' = Folder.plain f) (accountID : Nat)
    (uids : List UID) (op : WbOp) (target : Text) :
    newOp accountID f' uids op target = newOp accountID f uids op target := by
  unfold newOp
  rw [(eq_of_plain h).2.1]

theorem deleteTarget_plain {t t' : Option Folder} {f f' : Folder}
    (ht : t'.map Folder.plain = t.map Folder.plain) (h : Folder.plain f' = Folder.plain f) :
    deleteTarget t' f' = deleteTarget t f := by
  obtain ⟨hid, -, htype, -⟩ := eq_of_plain h
  cases t with
  | none =>
      cases t' with
      | none => rfl
      | some a => cases ht
  | some a =>
      cases t' with
      | none => cases ht
      | some a' =>
          have hplain : Folder.plain a' = Folder.plain a := Option.some.inj ht
          obtain ⟨haid, hapath, -, -⟩ := eq_of_plain hplain
          unfold deleteTarget
          simp only [htype, hid, haid, hapath]

/-! ### Flags of a row -/

@[simp] theorem MailFlag.of_put (flag : MailFlag) (on : Bool) (m : Message) :
    flag.of (flag.put on m) = on := by
  cases flag <;> rfl

theorem MailFlag.put_of (flag : MailFlag) (m : Message) : flag.put (flag.of m) m = m := by
  cases flag <;> rfl

@[simp] theorem MailFlag.put_id (flag : MailFlag) (on : Bool) (m : Message) :
    (flag.put on m).id = m.id := by
  cases flag <;> rfl

theorem setFlagByIDs_rows (flag : MailFlag) (ids : List Nat) (on : Bool) (db : DB) :
    (setFlagByIDs flag ids on db).messages.rows
      = db.messages.rows.map fun m => if ids.contains m.id then flag.put on m else m := by
  cases flag <;> rfl

/-! ### The parts of a group's program -/

variable {φ : Site → Fault}

theorem refreshFolderCounts_spec (at_ : GroupStmt → Site) (folderID : Nat) (db : DB) :
    ∃ db', Recounted db db' ∧ refreshFolderCounts at_ folderID (.faulty φ) db
      = (if survivesCounts φ at_ then .ok () else .dead, db') := by
  cases htotal : φ (at_ .countTotal) <;> cases hunread : φ (at_ .countUnread) <;>
    cases hset : φ (at_ .setCounts) <;>
    simp only [refreshFolderCounts, bind_apply, attempt_apply, query_faulty, update_faulty,
      pure_apply, survivesCounts, htotal, hunread, hset] <;>
    first
      | exact ⟨_, recounted_updateCounts _ _ _ _, rfl⟩
      | exact ⟨_, Recounted.refl _, rfl⟩

theorem refreshUnreadCount_spec (at_ : GroupStmt → Site) (folderID : Nat) (db : DB) :
    ∃ db', Recounted db db' ∧ refreshUnreadCount at_ folderID (.faulty φ) db
      = (if survivesUnread φ at_ then .ok () else .dead, db') := by
  cases hunread : φ (at_ .countUnread) <;> cases hset : φ (at_ .setCounts) <;>
    simp only [refreshUnreadCount, bind_apply, attempt_apply, query_faulty, update_faulty,
      pure_apply, survivesUnread, hunread, hset] <;>
    first
      | exact ⟨_, recounted_updateUnreadCount _ _ _, rfl⟩
      | exact ⟨_, Recounted.refl _, rfl⟩

/-- The database with one more row in the queue, or none. -/
def queued (now : Time) (db : DB) : Option WritebackOp → DB
  | some o => WbStore.enqueue o now db
  | none => db

theorem queued_ops {db db' : DB} (h : db'.ops = db.ops) (now : Time) (o : Option WritebackOp) :
    (queued now db' o).ops = (queued now db o).ops := by
  obtain ⟨messages, folders, ops⟩ := db
  obtain ⟨messages', folders', ops'⟩ := db'
  have hops : ops' = ops := h
  subst hops
  cases o <;> rfl

theorem queued_messages (now : Time) (db : DB) (o : Option WritebackOp) :
    (queued now db o).messages = db.messages := by
  cases o <;> rfl

theorem queued_folders (now : Time) (db : DB) (o : Option WritebackOp) :
    (queued now db o).folders = db.folders := by
  cases o <;> rfl

theorem enqueueWritebackUIDs_spec (at_ : GroupStmt → Site) (now : Time)
    (accountID folderID : Nat) {uids : List UID} (hne : uids ≠ []) (op : WbOp) (target : Text)
    (db : DB) :
    enqueueWritebackUIDs at_ now accountID folderID uids op target (.faulty φ) db
      = (if diesQueueing φ db at_ folderID then .dead else .ok (),
          queued now db (stored φ db at_ accountID folderID uids op target)) := by
  cases hqueue : φ (at_ .queueFolder) <;> cases hf : Folder.Repository.getByID db folderID <;>
    cases hcreate : φ (at_ .createOp) <;>
    simp only [enqueueWritebackUIDs, if_neg hne, bind_apply, attempt_apply, getFolder,
      query_faulty, update_faulty, pure_apply, diesQueueing, stored, hqueue, hf, hcreate] <;>
    rfl

/-! ### The effect of an item -/

/-- What the item `i` of a plan makes of the database `db`. -/
structure Effect (φ : Site → Fault) (now : Time) (a : Action) (i : Item) (db db' : DB) :
    Prop where
  messages : db'.messages
    = if i.changes φ db a then (a.change i.ids db).messages else db.messages
  ops : db'.ops = (queued now db (i.stores φ db a)).ops
  folders : SameFolders db db'

/-- Changing rows, counting again and queueing, in this order. -/
private theorem change_spec {r : Prog Unit} {alive : Bool} {f : DB → DB} {db : DB}
    {at_ : GroupStmt → Site}
    (hr : ∀ db, ∃ db', Recounted db db' ∧
      r (.faulty φ) db = (if alive then .ok () else .dead, db'))
    (hops : (f db).ops = db.ops) (hfolders : (f db).folders = db.folders) (now : Time)
    (accountID folderID : Nat) {uids : List UID} (hne : uids ≠ []) (op : WbOp) (target : Text) :
    ∃ out db', (do
        update (at_ .changeRows) .db f
        r
        enqueueWritebackUIDs at_ now accountID folderID uids op target : Prog Unit)
          (.faulty φ) db = (out, db') ∧
      (out = .ok () ↔
        φ (at_ .changeRows) = .none ∧ alive = true ∧ diesQueueing φ db at_ folderID = false) ∧
      db'.messages = (if φ (at_ .changeRows) = .none then (f db).messages else db.messages) ∧
      db'.ops = (queued now db (if φ (at_ .changeRows) = .none ∧ alive then
        stored φ db at_ accountID folderID uids op target else none)).ops ∧
      SameFolders db db' := by
  cases hchange : φ (at_ .changeRows) with
  | fail =>
      refine ⟨.err .db, db, ?_, by simp, by simp, by simp [queued], rfl⟩
      rw [bind_apply, update_faulty, hchange]
  | crash =>
      refine ⟨.dead, db, ?_, by simp, by simp, by simp [queued], rfl⟩
      rw [bind_apply, update_faulty, hchange]
  | none =>
      have hupdate : update (at_ .changeRows) Err.db f (.faulty φ) db = (.ok (), f db) := by
        rw [update_faulty, hchange]
      obtain ⟨db', hrec, hrun⟩ := hr (f db)
      have hsame : SameFolders db db' := by
        show db'.folders.rows.map Folder.plain = db.folders.rows.map Folder.plain
        rw [hrec.folders, hfolders]
      rw [bind_ok hupdate]
      cases alive with
      | false =>
          refine ⟨.dead, db', bind_dead hrun, by simp, ?_, ?_, hsame⟩
          · simpa using hrec.messages
          · simp [queued, hrec.ops, hops]
      | true =>
          have hdies : diesQueueing φ db' at_ folderID = diesQueueing φ db at_ folderID := by
            have hsome := congrArg Option.isSome (hsame.getByID folderID)
            rw [Option.isSome_map, Option.isSome_map] at hsome
            unfold diesQueueing
            rw [hsome]
          have hstored : stored φ db' at_ accountID folderID uids op target
              = stored φ db at_ accountID folderID uids op target := by
            unfold stored
            have hf := hsame.getByID folderID
            cases h : Folder.Repository.getByID db folderID with
            | none =>
                rw [h, Option.map_none, Option.map_eq_none_iff] at hf
                rw [hf]
            | some a =>
                rw [h, Option.map_some, Option.map_eq_some_iff] at hf
                obtain ⟨a', ha', hplain⟩ := hf
                rw [ha', Option.map_some, Option.map_some, newOp_plain hplain]
          have hops' : db'.ops = db.ops := by rw [hrec.ops, hops]
          have hend := @enqueueWritebackUIDs_spec φ at_ now accountID folderID _ hne op target
            db'
          rw [hdies, hstored] at hend
          refine ⟨_, _, (bind_ok hrun).trans hend, ?_, ?_, ?_, ?_⟩
          · cases diesQueueing φ db at_ folderID <;> simp
          · rw [queued_messages, hrec.messages, if_pos rfl]
          · rw [if_pos ⟨rfl, rfl⟩]
            exact queued_ops hops' now _
          · show (queued now db' _).folders.rows.map Folder.plain = _
            rw [queued_folders]
            exact hsame

private theorem uids_ne_nil {g : Group} (hne : g.msgs ≠ []) : g.uids ≠ [] := by
  unfold Group.uids
  simpa using hne

private theorem removeGroup_spec (at_ : GroupStmt → Site) (now : Time) {g : Group}
    (hne : g.msgs ≠ []) (op : WbOp) (target : Text) (db : DB) :
    ∃ out db', removeGroup at_ now g op target (.faulty φ) db = (out, db') ∧
      (out = .ok () ↔ φ (at_ .changeRows) = .none ∧ survivesCounts φ at_ = true ∧
        diesQueueing φ db at_ g.folderID = false) ∧
      db'.messages = (if φ (at_ .changeRows) = .none then
        (Message.Repository.deleteByIDs g.ids db).messages else db.messages) ∧
      db'.ops = (queued now db (if φ (at_ .changeRows) = .none ∧ survivesCounts φ at_ then
        stored φ db at_ g.accountID g.folderID g.uids op target else none)).ops ∧
      SameFolders db db' :=
  change_spec (fun db => refreshFolderCounts_spec at_ g.folderID db) rfl rfl now g.accountID
    g.folderID (uids_ne_nil hne) op target

private theorem setFlagGroup_spec (n : Nat) (now : Time) {g : Group} (hne : g.msgs ≠ [])
    (flag : MailFlag) (on : Bool) (db : DB) :
    let at_ := Site.group n g.accountID g.folderID
    ∃ out db', setFlagGroup now n flag on g (.faulty φ) db = (out, db') ∧
      (out = .ok () ↔ φ (at_ .changeRows) = .none ∧ survives φ (.set flag on) at_ = true ∧
        diesQueueing φ db at_ g.folderID = false) ∧
      db'.messages = (if φ (at_ .changeRows) = .none then
        (setFlagByIDs flag g.ids on db).messages else db.messages) ∧
      db'.ops = (queued now db (if φ (at_ .changeRows) = .none ∧ survives φ (.set flag on) at_ then
        stored φ db at_ g.accountID g.folderID g.uids (flagOp flag on) [] else none)).ops ∧
      SameFolders db db' := by
  cases flag with
  | seen =>
      exact change_spec (fun db => refreshUnreadCount_spec _ g.folderID db) rfl rfl now
        g.accountID g.folderID (uids_ne_nil hne) (flagOp .seen on) []
  | flagged =>
      have hpure : ∀ db : DB, ∃ db', Recounted db db' ∧
          (pure () : Prog Unit) (.faulty φ) db = (if true then .ok () else .dead, db') :=
        fun db => ⟨db, Recounted.refl db, rfl⟩
      exact change_spec hpure rfl rfl now g.accountID g.folderID (uids_ne_nil hne)
        (flagOp .flagged on) []

/-- What `deleteGroup` does before it removes anything: it decides the verb. -/
private theorem deleteTargetFor_spec (at_ : GroupStmt → Site) (accountID : Nat) (src : Folder)
    (db : DB) :
    deleteTargetFor at_ accountID src (.faulty φ) db
      = (if φ (at_ .findTrash) = .crash then .dead else .ok
          (if φ (at_ .findTrash) = .none then
            deleteTarget (Folder.Repository.findByType db accountID .trash) src
          else deleteTarget none src), db) := by
  cases h : φ (at_ .findTrash) <;>
    simp only [deleteTargetFor, bind_apply, attempt_apply, query_faulty, pure_apply, h] <;> rfl

/-- A folder that is not there gets no row queued. -/
private theorem stored_eq_bind (at_ : GroupStmt → Site) (db : DB) (g : Group) (op : WbOp)
    (target : Text) :
    stored φ db at_ g.accountID g.folderID g.uids op target
      = (g.src db).bind fun _ => stored φ db at_ g.accountID g.folderID g.uids op target := by
  cases h : g.src db with
  | some src => rfl
  | none =>
      have hnone : Folder.Repository.getByID db g.folderID = none := h
      rw [Option.bind_none, stored, hnone, Option.map_none, ite_self]

/-- What is left of an item's effect once the statements in front of the change got
through with verb `v`. -/
private theorem effect_of_parts {now : Time} {a : Action} {n : Nat} {g : Group} {db db' : DB}
    {v : WbOp × Text} (hopen : opens φ db a n g = true)
    (hv : ∀ src, g.src db = some src → verb φ db a n g src = v)
    (hmsg : db'.messages = if φ (.group n g.accountID g.folderID .changeRows) = .none then
      (a.change g.ids db).messages else db.messages)
    (hops : db'.ops = (queued now db
      (if φ (.group n g.accountID g.folderID .changeRows) = .none ∧
          survives φ a (Site.group n g.accountID g.folderID) then
        stored φ db (Site.group n g.accountID g.folderID) g.accountID g.folderID g.uids v.1 v.2
      else none)).ops)
    (hfolders : SameFolders db db') : Effect φ now a (.group n g) db db' := by
  refine ⟨?_, ?_, hfolders⟩
  · simpa [Item.changes, hopen, Item.ids] using hmsg
  · rw [hops]
    have hstores : (g.src db).bind (fun src =>
          stored φ db (Site.group n g.accountID g.folderID) g.accountID g.folderID g.uids
            (verb φ db a n g src).1 (verb φ db a n g src).2)
        = stored φ db (Site.group n g.accountID g.folderID) g.accountID g.folderID g.uids
            v.1 v.2 := by
      rw [stored_eq_bind]
      cases h : g.src db with
      | none => rfl
      | some src => rw [Option.bind_some, Option.bind_some, hv src h]
    simp only [Item.stores, Item.changes, hopen, Bool.true_and, beq_iff_eq, hstores]

/-- A group whose statements in front of the change do not get through is left alone. -/
private theorem effect_of_closed {now : Time} {a : Action} {n : Nat} {g : Group} {db : DB}
    (hopen : opens φ db a n g = false) : Effect φ now a (.group n g) db db := by
  refine ⟨?_, ?_, rfl⟩
  · simp [Item.changes, hopen]
  · simp [Item.stores, Item.changes, hopen, queued]

private theorem effect_of_delete (now : Time) (n : Nat) {g : Group} (hne : g.msgs ≠ [])
    (db : DB) :
    ∃ out db', (Item.group n g).prog now .delete (.faulty φ) db = (out, db') ∧
      (out = .ok () ↔ (Item.group n g).stops φ db .delete = false) ∧
      Effect φ now .delete (.group n g) db db' := by
  have hclosed : opens φ db .delete n g = false → ∀ out, out ≠ .ok () →
      deleteGroup now n g (.faulty φ) db = (out, db) →
      ∃ out db', (Item.group n g).prog now .delete (.faulty φ) db = (out, db') ∧
        (out = .ok () ↔ (Item.group n g).stops φ db .delete = false) ∧
        Effect φ now .delete (.group n g) db db' := by
    intro hopen out hout hrun
    refine ⟨out, db, hrun, ?_, effect_of_closed hopen⟩
    simp [Item.stops, Item.changes, hopen, hout]
  have hsrc : g.src db = Folder.Repository.getByID db g.folderID := rfl
  cases hget : φ (.group n g.accountID g.folderID .getFolder) with
  | fail =>
      refine hclosed (by simp [opens, hget]) (.err .db) (by simp) ?_
      simp only [deleteGroup, bind_apply, getFolder, query_faulty, hget]
  | crash =>
      refine hclosed (by simp [opens, hget]) .dead (by simp) ?_
      simp only [deleteGroup, bind_apply, getFolder, query_faulty, hget]
  | none =>
      cases hf : Folder.Repository.getByID db g.folderID with
      | none =>
          refine hclosed (by simp [opens, hsrc, hf]) (.err .folderNotFound) (by simp) ?_
          simp only [deleteGroup, bind_apply, getFolder, query_faulty, hget, hf]
      | some src =>
          have hfetch : getFolder (.group n g.accountID g.folderID .getFolder) g.folderID
              (.faulty φ) db = (.ok src, db) := by
            simp only [getFolder, query_faulty, hget, hf]
          by_cases htrash : φ (.group n g.accountID g.folderID .findTrash) = .crash
          · refine hclosed (by simp [opens, htrash]) .dead (by simp) ?_
            have htarget := @deleteTargetFor_spec φ
              (Site.group n g.accountID g.folderID) g.accountID src db
            rw [if_pos htrash] at htarget
            unfold deleteGroup
            rw [bind_ok hfetch, bind_dead htarget]
          · obtain ⟨out, db', hrun, hout, hmsg, hops, hfolders⟩ :=
              @removeGroup_spec φ (Site.group n g.accountID g.folderID) now _ hne
                (verb φ db .delete n g src).1 (verb φ db .delete n g src).2 db
            have hopen : opens φ db .delete n g = true := by
              simp [opens, hget, hsrc, hf, htrash]
            have htarget := @deleteTargetFor_spec φ
              (Site.group n g.accountID g.folderID) g.accountID src db
            rw [if_neg htrash] at htarget
            refine ⟨out, db', ?_, ?_, effect_of_parts hopen ?_ hmsg hops hfolders⟩
            · show deleteGroup now n g (.faulty φ) db = (out, db')
              unfold deleteGroup
              rw [bind_ok hfetch, bind_ok htarget]
              exact hrun
            · rw [hout]
              simp [Item.stops, Item.changes, hopen, survives, and_assoc]
            · intro src' h
              rw [hsrc, hf] at h
              rw [Option.some.inj h]

/-- **What an item does under any faults**, and when the call goes on behind it. -/
theorem effect_of_item (now : Time) (a : Action) (i : Item)
    (hne : ∀ n g, i = .group n g → g.msgs ≠ []) (db : DB) :
    ∃ out db', i.prog now a (.faulty φ) db = (out, db') ∧
      (out = .ok () ↔ i.stops φ db a = false) ∧ Effect φ now a i db db' := by
  cases i with
  | gate site =>
      cases h : φ site with
      | none =>
          refine ⟨.ok (), db, ?_, by simp [Item.stops, h], rfl, rfl, rfl⟩
          simp only [Item.prog, query_faulty, h]
      | fail =>
          refine ⟨.err .db, db, ?_, by simp [Item.stops, h], rfl, rfl, rfl⟩
          simp only [Item.prog, query_faulty, h]
      | crash =>
          refine ⟨.dead, db, ?_, by simp [Item.stops, h], rfl, rfl, rfl⟩
          simp only [Item.prog, query_faulty, h]
  | refuse e => exact ⟨.err e, db, rfl, by simp [Item.stops], rfl, rfl, rfl⟩
  | group n g =>
      have hg := hne n g rfl
      cases a with
      | move target =>
          obtain ⟨out, db', hrun, hout, hmsg, hops, hfolders⟩ :=
            removeGroup_spec (Site.group n g.accountID g.folderID) now hg .move target db
          refine ⟨out, db', hrun, ?_, effect_of_parts rfl (fun _ _ => rfl) hmsg hops hfolders⟩
          rw [hout]
          simp [Item.stops, Item.changes, opens, survives, and_assoc]
      | set flag on =>
          obtain ⟨out, db', hrun, hout, hmsg, hops, hfolders⟩ :=
            setFlagGroup_spec n now hg flag on db
          refine ⟨out, db', hrun, ?_, effect_of_parts rfl (fun _ _ => rfl) hmsg hops hfolders⟩
          rw [hout]
          simp [Item.stops, Item.changes, opens, and_assoc]
      | delete => exact effect_of_delete now n hg db

/-! ### A run of items

What becomes of an item depends on the folder rows up to their counts, which no item
changes, so it can be read off the database the call started from.
-/

section SameFolders

variable {db db' : DB} (h : SameFolders db db') (a : Action)

include h

private theorem isSome_src (g : Group) : (g.src db').isSome = (g.src db).isSome := by
  have hsome := congrArg Option.isSome (h.getByID g.folderID)
  rw [Option.isSome_map, Option.isSome_map] at hsome
  exact hsome

theorem SameFolders.changes (i : Item) : i.changes φ db' a = i.changes φ db a := by
  cases i with
  | gate site => rfl
  | refuse e => rfl
  | group n g =>
      cases a with
      | delete => simp only [Item.changes, opens, isSome_src h]
      | move target => rfl
      | set flag on => rfl

theorem SameFolders.stops (i : Item) : i.stops φ db' a = i.stops φ db a := by
  cases i with
  | gate site => rfl
  | refuse e => rfl
  | group n g =>
      have hsome := isSome_src h g
      simp only [Group.src] at hsome
      simp only [Item.stops, diesQueueing, h.changes a, hsome]

theorem SameFolders.reached (items : List Item) :
    Sync.reached φ db' a items = Sync.reached φ db a items := by
  induction items with
  | nil => rfl
  | cons i rest ih =>
      simp only [Sync.reached, h.stops a, ih]

theorem SameFolders.stores (i : Item) : i.stores φ db' a = i.stores φ db a := by
  cases i with
  | gate site => rfl
  | refuse e => rfl
  | group n g =>
      have hstored : ∀ op target,
          stored φ db' (Site.group n g.accountID g.folderID) g.accountID g.folderID g.uids op target
          = stored φ db (Site.group n g.accountID g.folderID) g.accountID g.folderID g.uids
              op target := by
        intro op target
        have hf := h.getByID g.folderID
        unfold stored
        cases hsrc : Folder.Repository.getByID db g.folderID with
        | none =>
            rw [hsrc, Option.map_none, Option.map_eq_none_iff] at hf
            rw [hf]
        | some f =>
            rw [hsrc, Option.map_some, Option.map_eq_some_iff] at hf
            obtain ⟨f', hf', hplain⟩ := hf
            rw [hf', Option.map_some, Option.map_some, newOp_plain hplain]
      have hbind : (g.src db').bind (fun src =>
            stored φ db (Site.group n g.accountID g.folderID) g.accountID g.folderID g.uids
              (verb φ db' a n g src).1 (verb φ db' a n g src).2)
          = (g.src db).bind fun src =>
            stored φ db (Site.group n g.accountID g.folderID) g.accountID g.folderID g.uids
              (verb φ db a n g src).1 (verb φ db a n g src).2 := by
        have hf : (g.src db').map Folder.plain = (g.src db).map Folder.plain :=
          h.getByID g.folderID
        cases hsrc : g.src db with
        | none =>
            rw [hsrc, Option.map_none, Option.map_eq_none_iff] at hf
            rw [hf]
            rfl
        | some f =>
            rw [hsrc, Option.map_some, Option.map_eq_some_iff] at hf
            obtain ⟨f', hf', hplain⟩ := hf
            have hverb : verb φ db' a n g f' = verb φ db a n g f := by
              cases a with
              | move target => rfl
              | set flag on => rfl
              | delete =>
                  unfold verb
                  dsimp only
                  rw [deleteTarget_plain (h.findByType g.accountID .trash) hplain,
                    deleteTarget_plain rfl hplain]
            rw [hf', Option.bind_some, Option.bind_some, hverb]
      simp only [Item.stores, h.changes a, hstored, hbind]

end SameFolders

theorem reached_subset {db : DB} {a : Action} {items : List Item} {i : Item}
    (h : i ∈ reached φ db a items) : i ∈ items := by
  induction items with
  | nil => exact h
  | cons j rest ih =>
      by_cases hstop : j.stops φ db a = true
      · rw [reached, if_pos hstop] at h
        rw [List.mem_singleton.mp h]
        exact List.mem_cons_self
      · rw [reached, if_neg hstop] at h
        rcases List.mem_cons.mp h with h | h
        · rw [h]
          exact List.mem_cons_self
        · exact List.mem_cons_of_mem _ (ih h)

theorem reached_eq_self {db : DB} {a : Action} {items : List Item}
    (h : ∀ i ∈ items, i.stops φ db a = false) : reached φ db a items = items := by
  induction items with
  | nil => rfl
  | cons j rest ih =>
      rw [reached, if_neg (by simp [h j]), ih fun i hi => h i (by simp [hi])]

/-- The items one after another, each with its effect. -/
inductive Chain (φ : Site → Fault) (now : Time) (a : Action) : List Item → DB → DB → Prop
  | nil (db : DB) : Chain φ now a [] db db
  | cons {i : Item} {rest : List Item} {db d db' : DB} (h : Effect φ now a i db d)
      (hrest : Chain φ now a rest d db') : Chain φ now a (i :: rest) db db'

theorem Chain.sameFolders {now : Time} {a : Action} {items : List Item} {db db' : DB}
    (h : Chain φ now a items db db') : SameFolders db db' := by
  induction h with
  | nil db => rfl
  | cons h _ ih => exact Eq.trans ih h.folders

/-- **What a run of items does**: the items up to the first that stops it have their
effects one after another, and the run comes to its end when none does. -/
theorem chain_of_each (now : Time) (a : Action) (items : List Item)
    (hne : ∀ n g, .group n g ∈ items → g.msgs ≠ []) :
    ∀ db, ∃ out db', each (Item.prog now a) items (.faulty φ) db = (out, db') ∧
      (out = .ok () ↔ ∀ i ∈ items, i.stops φ db a = false) ∧
      Chain φ now a (reached φ db a items) db db' := by
  induction items with
  | nil => intro db; exact ⟨.ok (), db, rfl, by simp, .nil db⟩
  | cons i rest ih =>
      intro db
      obtain ⟨out, d, hrun, hout, heffect⟩ :=
        @effect_of_item φ now a i (fun n g hi => hne n g (by simp [hi])) db
      cases hstop : i.stops φ db a with
      | true =>
          have hne : out ≠ .ok () := by
            rw [ne_eq, hout, hstop]
            decide
          have hend : each (Item.prog now a) (i :: rest) (.faulty φ) db = (out, d) := by
            cases out with
            | ok u => exact absurd rfl hne
            | err e => exact bind_err hrun
            | dead => exact bind_dead hrun
          refine ⟨out, d, hend, ?_, ?_⟩
          · simp [hne, hstop]
          · rw [reached, if_pos hstop]
            exact .cons heffect (.nil d)
      | false =>
          obtain rfl := hout.mpr hstop
          obtain ⟨out', db', hrun', hout', hchain⟩ :=
            ih (fun n g hg => hne n g (List.mem_cons_of_mem _ hg)) d
          refine ⟨out', db', (bind_ok hrun).trans hrun', ?_, ?_⟩
          · rw [hout']
            simp only [heffect.folders.stops a, List.forall_mem_cons, hstop, true_and]
          · rw [reached, if_neg (by simp [hstop]), ← heffect.folders.reached a]
            exact .cons heffect hchain

end FlyMail.Sync
