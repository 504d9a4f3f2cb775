/-
Is a local change always backed by a queued one?

The rows of a group are changed by one statement and the change is queued by another.
Between the two the folder's mails are counted and its row is looked up, and whatever
fails there is logged at most: the rows stay changed and the call goes on, to report
success in the end.  A deletion has a second way to go wrong.  An error while it looks
for the trash counts as there being none, and what should have moved to the trash is
queued to be deleted for good.

`Loses` names these failures, statement by statement.  The result is that they are the
only ones: a call under any faults keeps the user's intent exactly when each mail of a
group that loses it is covered by some other row of the queue.
-/
import FlyMail.Proofs.Plan

namespace FlyMail.Sync

/-! ### What the user meant -/

/-- The queued row `o` brings the change of the mail `m` to the server. -/
def Covers (db : DB) (a : Action) (m : Message) (o : WritebackOp) : Prop :=
  ∃ src, Folder.Repository.getByID db m.folderID = some src ∧ o.accountID = m.accountID ∧
    o.folderPath = src.path ∧ m.uid.val ∈ opUIDs o ∧
    (o.op, o.targetPath) = a.intended db m.accountID src

/-- The mails a call is about, less those that already are where it would put them. -/
def Call.owed (m : Message) : Call → Bool
  | .deleteMessage id => m.id == id
  | .moveMessage id target => m.id == id && m.folderID != target
  | .batchDelete ids => ids.contains m.id
  | .batchMove ids target => ids.contains m.id && m.folderID != target
  | .batchSetRead ids _ => ids.contains m.id
  | .batchSetFlagged ids _ => ids.contains m.id
  | .setRead id _ => m.id == id
  | .setFlagged id _ => m.id == id
  | .markFolderRead folderID => m.folderID == folderID && !m.seen

/-- How a call that started from `db` should leave things: no row gone or changed
without a queued row for it, and on success all of the call's mails queued. -/
structure KeepsIntent (c : Call) (db : DB) (result : Outcome Err Unit × DB) : Prop where
  changed : ∀ m ∈ db.messages.rows, m ∉ result.2.messages.rows →
    ∃ o ∈ result.2.ops.rows, Covers db (c.action db) m o
  complete : result.1 = .ok () → ∀ m ∈ db.messages.rows, c.owed m = true →
    ∃ o ∈ result.2.ops.rows, Covers db (c.action db) m o

/-! ### How it gets lost -/

/-- The action leaves the row other than it was. -/
def Action.alters (a : Action) (m : Message) : Bool :=
  match a with
  | .set flag on => flag.of m != on
  | _ => true

/-- The trash could not be looked up, and that made a difference. -/
def misdirects (φ : Site → Fault) (db : DB) (a : Action) (n : Nat) (g : Group) : Bool :=
  match a, g.src db with
  | .delete, some src =>
      φ (.group n g.accountID g.folderID .findTrash) != .none &&
        a.intended db g.accountID src != deleteTarget none src
  | _, _ => false

/-- Once the rows of the group are changed: the process dies while counting, the folder
is not found, the row of the queue is not stored, or it is the wrong one. -/
def Loses (φ : Site → Fault) (db : DB) (a : Action) : Item → Bool
  | .group n g =>
      let at_ := Site.group n g.accountID g.folderID
      Item.changes φ db a (.group n g) &&
        (!survives φ a at_ || φ (at_ .queueFolder) != .none || (g.src db).isNone ||
          φ (at_ .createOp) != .none || misdirects φ db a n g)
  | _ => false

/-- The rows of the item's group. -/
def Item.msgs : Item → List Message
  | .group _ g => g.msgs
  | _ => []

/-- Each mail of a group that loses its change is covered all the same: by a row queued
before the call, or by the row stored for another group of it.  A mail the action leaves
as it was only counts where the call comes to its end. -/
def Recovers (φ : Site → Fault) (o : Order) (c : Call) (db : DB) : Prop :=
  ∀ i ∈ reached φ db (c.action db) (c.plan o db), Loses φ db (c.action db) i = true →
    ∀ m ∈ i.msgs,
      ((c.action db).alters m = true ∨
        (∀ j ∈ c.plan o db, j.stops φ db (c.action db) = false) ∧ c.owed m = true) →
      (∃ old ∈ db.ops.rows, Covers db (c.action db) m old) ∨
        ∃ j ∈ reached φ db (c.action db) (c.plan o db), ∃ new,
          j.stores φ db (c.action db) = some new ∧ Covers db (c.action db) m new

variable {φ : Site → Fault}

/-! ### A group that does not lose its change covers its rows -/

private theorem verb_eq_intended {db : DB} {a : Action} {n : Nat} {g : Group} {src : Folder}
    (hsrc : g.src db = some src) (h : misdirects φ db a n g = false) :
    verb φ db a n g src = a.intended db g.accountID src := by
  cases a with
  | move target => rfl
  | set flag on => rfl
  | delete =>
      by_cases htrash : φ (.group n g.accountID g.folderID .findTrash) = .none
      · simp only [verb, htrash, if_true, Action.intended]
      · simp only [misdirects, hsrc, Bool.and_eq_false_iff, bne_eq_false_iff_eq] at h
        rcases h with h | h
        · exact absurd h htrash
        · simp only [verb, if_neg htrash, h]

/-- A group whose rows are changed either loses the change or has it queued. -/
theorem stores_of_not_loses {db : DB} {a : Action} {n : Nat} {g : Group} (hg : GroupOK db g)
    (hchange : Item.changes φ db a (.group n g) = true)
    (h : Loses φ db a (.group n g) = false) :
    ∃ o, Item.stores φ db a (.group n g) = some o ∧ ∀ m ∈ g.msgs, Covers db a m o := by
  simp only [Loses, hchange, Bool.true_and, Bool.or_eq_false_iff, Bool.not_eq_false',
    bne_eq_false_iff_eq] at h
  obtain ⟨⟨⟨⟨hsurvive, hqueue⟩, hnone⟩, hcreate⟩, hdirect⟩ := h
  cases hsrc : g.src db with
  | none => simp [hsrc] at hnone
  | some src =>
      have hget : Folder.Repository.getByID db g.folderID = some src := hsrc
      have hverb := @verb_eq_intended φ _ _ n _ _ hsrc hdirect
      refine ⟨newOp g.accountID src g.uids (a.intended db g.accountID src).1
        (a.intended db g.accountID src).2, ?_, ?_⟩
      · simp only [Item.stores, hchange, hsurvive, and_self, if_true, hsrc, Option.bind_some,
          stored, hqueue, hcreate, hget, Option.map_some, hverb]
      · intro m hm
        refine ⟨src, ?_, (hg.account m hm).symm, rfl, ?_, ?_⟩
        · rw [hg.folder m hm]
          exact hget
        · rw [opUIDs_joinUIDs rfl (by simpa [Group.uids] using hg.ne_nil)]
          exact List.mem_map.mpr ⟨m.uid, List.mem_map.mpr ⟨m, hm, rfl⟩, rfl⟩
        · rw [hg.account m hm]
          rfl

/-! ### What the queue holds at the end -/

/-- A mail is covered at the end where it was before, or where an item stored a row for
it.  `db₀` is where the call started. -/
private theorem covered_of_chain {now : Time} {a : Action} {db₀ : DB} {m : Message}
    {items : List Item} {db db' : DB} (h : Chain φ now a items db db') :
    SameFolders db₀ db →
    ((∃ o ∈ db'.ops.rows, Covers db₀ a m o) ↔
      (∃ o ∈ db.ops.rows, Covers db₀ a m o) ∨
        ∃ i ∈ items, ∃ o, i.stores φ db₀ a = some o ∧ Covers db₀ a m o) := by
  induction h with
  | nil db => intro _; simp
  | @cons i rest db d db' h _ ih =>
      intro hsame
      have hstep : (∃ o ∈ d.ops.rows, Covers db₀ a m o) ↔
          (∃ o ∈ db.ops.rows, Covers db₀ a m o) ∨
            ∃ o, i.stores φ db₀ a = some o ∧ Covers db₀ a m o := by
        rw [h.ops, hsame.stores a]
        cases hstores : i.stores φ db₀ a with
        | none => simp [queued]
        | some o =>
            simp only [queued, WbStore.enqueue, Table.insert_rows, List.mem_append,
              List.mem_singleton, or_and_right, exists_or, exists_eq_left, Option.some.injEq,
              exists_eq_left']
            exact Iff.rfl
      rw [ih (Eq.trans h.folders hsame), hstep, or_assoc]
      simp only [List.mem_cons, or_and_right, exists_or, exists_eq_left]

/-! ### Which rows are other than they were -/

private theorem mem_setFlag {db : DB} {flag : MailFlag} {ids : List Nat} {on : Bool}
    {m : Message} (hm : m ∈ db.messages.rows) :
    m ∈ (setFlagByIDs flag ids on db).messages.rows ↔ m.id ∉ ids ∨ flag.of m = on := by
  rw [setFlagByIDs_rows, List.mem_map]
  refine ⟨fun h => ?_, fun h => ?_⟩
  · obtain ⟨r, _, heq⟩ := h
    by_cases hc : ids.contains r.id = true
    · rw [if_pos hc] at heq
      exact Or.inr (by rw [← heq, MailFlag.of_put])
    · rw [if_neg hc] at heq
      rw [heq] at hc
      exact Or.inl (by simpa using hc)
  · refine ⟨m, hm, ?_⟩
    rcases h with h | h
    · rw [if_neg (by simpa using h)]
    · rw [← h, MailFlag.put_of, ite_self]

/-- A row that has the flag's new value keeps it. -/
private theorem of_setFlag {db : DB} {flag : MailFlag} {ids : List Nat} {on : Bool} {id : Nat}
    (h : ∀ r ∈ db.messages.rows, r.id = id → flag.of r = on) :
    ∀ r ∈ (setFlagByIDs flag ids on db).messages.rows, r.id = id → flag.of r = on := by
  intro r hr hid
  rw [setFlagByIDs_rows] at hr
  obtain ⟨m, hm, rfl⟩ := List.mem_map.mp hr
  by_cases hc : ids.contains m.id = true
  · rw [if_pos hc, MailFlag.of_put]
  · rw [if_neg hc] at hid ⊢
    exact h m hm hid

/-- The row of a mail whose flag was set has the flag's new value. -/
private theorem of_setFlag_of_mem {db : DB} {flag : MailFlag} {ids : List Nat} {on : Bool}
    {id : Nat} (h : id ∈ ids) :
    ∀ r ∈ (setFlagByIDs flag ids on db).messages.rows, r.id = id → flag.of r = on := by
  intro r hr hid
  rw [setFlagByIDs_rows] at hr
  obtain ⟨m, hm, rfl⟩ := List.mem_map.mp hr
  by_cases hc : ids.contains m.id = true
  · rw [if_pos hc, MailFlag.of_put]
  · rw [if_neg hc] at hid
    exact absurd (by simpa [hid] using h) hc

private theorem mem_deleteByIDs {db : DB} {ids : List Nat} {m : Message} :
    m ∈ (Message.Repository.deleteByIDs ids db).messages.rows ↔
      m ∈ db.messages.rows ∧ m.id ∉ ids := by
  show m ∈ (Table.delete _ _).rows ↔ _
  rw [Table.mem_delete]
  simp

/-- What an item does to a row that is still as it was. -/
private theorem mem_of_effect {now : Time} {a : Action} {i : Item} {db db' : DB} {m : Message}
    (h : Effect φ now a i db db') (hm : m ∈ db.messages.rows) :
    m ∈ db'.messages.rows ↔
      ¬ (i.changes φ db a = true ∧ m.id ∈ i.ids ∧ a.alters m = true) := by
  rw [h.messages]
  by_cases hc : i.changes φ db a = true
  · rw [if_pos hc]
    cases a with
    | delete =>
        show m ∈ (Message.Repository.deleteByIDs i.ids db).messages.rows ↔ _
        rw [mem_deleteByIDs]
        simp [hm, hc, Action.alters]
    | move target =>
        show m ∈ (Message.Repository.deleteByIDs i.ids db).messages.rows ↔ _
        rw [mem_deleteByIDs]
        simp [hm, hc, Action.alters]
    | set flag on =>
        show m ∈ (setFlagByIDs flag i.ids on db).messages.rows ↔ _
        rw [mem_setFlag hm]
        simp only [hc, Action.alters, true_and, bne_iff_ne, ne_eq, not_and, not_not]
        exact ⟨fun h hid => h.resolve_left (fun hn => hn hid),
          fun h => (Classical.em (m.id ∈ i.ids)).elim (fun hid => Or.inr (h hid)) Or.inl⟩
  · rw [if_neg hc]
    simp [hm, hc]

/-- What is gone or changed stays so: no later item brings the row back. -/
private theorem notMem_of_chain {now : Time} {a : Action} {m : Message} {items : List Item}
    {db db' : DB} (h : Chain φ now a items db db') :
    (match a with
      | .set flag on => flag.of m ≠ on ∧ ∀ r ∈ db.messages.rows, r.id = m.id → flag.of r = on
      | _ => m ∉ db.messages.rows) → m ∉ db'.messages.rows := by
  induction h with
  | nil db =>
      intro hstart hm
      cases a with
      | delete => exact hstart hm
      | move target => exact hstart hm
      | set flag on => exact hstart.1 (hstart.2 m hm rfl)
  | @cons i rest db d db' h _ ih =>
      intro hstart
      apply ih
      have hmsg := h.messages
      by_cases hc : i.changes φ db a = true
      · rw [if_pos hc] at hmsg
        cases a with
        | delete =>
            show m ∉ d.messages.rows
            rw [hmsg]
            exact fun hm => hstart (mem_deleteByIDs.mp hm).1
        | move target =>
            show m ∉ d.messages.rows
            rw [hmsg]
            exact fun hm => hstart (mem_deleteByIDs.mp hm).1
        | set flag on =>
            refine ⟨hstart.1, ?_⟩
            rw [hmsg]
            exact of_setFlag hstart.2
      · rw [if_neg hc] at hmsg
        cases a with
        | delete => rw [hmsg]; exact hstart
        | move target => rw [hmsg]; exact hstart
        | set flag on => rw [hmsg]; exact hstart

/-- **A row is other than it was exactly where a group that holds it was changed**, by an
action that alters it. -/
private theorem notMem_iff_of_chain {now : Time} {a : Action} {db₀ : DB} {m : Message}
    {items : List Item} {db db' : DB} (h : Chain φ now a items db db') :
    SameFolders db₀ db → m ∈ db.messages.rows →
      (m ∉ db'.messages.rows ↔
        ∃ i ∈ items, i.changes φ db₀ a = true ∧ m.id ∈ i.ids ∧ a.alters m = true) := by
  induction h with
  | nil db => intro _ hm; simp [hm]
  | @cons i rest db d db' h hrest ih =>
      intro hsame hm
      have hstep := mem_of_effect h hm
      rw [hsame.changes a] at hstep
      by_cases hhit : i.changes φ db₀ a = true ∧ m.id ∈ i.ids ∧ a.alters m = true
      · have hgone : m ∉ d.messages.rows := fun hd => hstep.mp hd hhit
        refine ⟨fun _ => ⟨i, by simp, hhit⟩, fun _ => notMem_of_chain hrest ?_⟩
        cases a with
        | delete => exact hgone
        | move target => exact hgone
        | set flag on =>
            refine ⟨by simpa [Action.alters] using hhit.2.2, ?_⟩
            have hmsg := h.messages
            rw [hsame.changes, if_pos hhit.1] at hmsg
            rw [hmsg]
            exact of_setFlag_of_mem hhit.2.1
      · rw [ih (Eq.trans h.folders hsame) (hstep.mpr hhit)]
        simp only [List.mem_cons, exists_eq_or_imp, hhit, false_or]

/-! ### A call that comes to its end has seen all of its mails -/

section Complete

variable {o : Order} {db : DB} {a : Action} {m : Message}

private theorem planMessage_complete {id : Nat} {k : Message → List Item}
    (hgo : ∀ i ∈ planMessage db id k, i.stops φ db a = false) :
    ∃ m₀, Message.Repository.getByID db id = some m₀ ∧ (∀ i ∈ k m₀, i.stops φ db a = false) ∧
      ∀ i ∈ k m₀, i ∈ planMessage db id k := by
  unfold planMessage at hgo ⊢
  cases hm : Message.Repository.getByID db id with
  | none =>
      have hrefuse := hgo (.refuse .messageNotFound) (by simp [hm])
      simp [Item.stops] at hrefuse
  | some m₀ =>
      refine ⟨m₀, rfl, fun i hi => hgo i (by simp [hm, hi]), fun i hi => by simp [hi]⟩

private theorem planFolder_complete {s : CallStmt} {id : Nat} {k : Folder → List Item}
    (hgo : ∀ i ∈ planFolder db s id k, i.stops φ db a = false) :
    ∃ f, Folder.Repository.getByID db id = some f ∧ (∀ i ∈ k f, i.stops φ db a = false) ∧
      ∀ i ∈ k f, i ∈ planFolder db s id k := by
  unfold planFolder at hgo ⊢
  cases hf : Folder.Repository.getByID db id with
  | none =>
      have hrefuse := hgo (.refuse .folderNotFound) (by simp [hf])
      simp [Item.stops] at hrefuse
  | some f =>
      refine ⟨f, rfl, fun i hi => hgo i (by simp [hf, hi]), fun i hi => by simp [hi]⟩

private theorem refuse_stops {e : Err} : (Item.refuse e).stops φ db a = true := rfl

/-- Where no item of the plan stops the call, each of its mails is in a group. -/
theorem exists_group_of_owed {c : Call} (hm : m ∈ db.messages.rows) (howed : c.owed m = true)
    (hgo : ∀ i ∈ c.plan o db, i.stops φ db a = false) :
    ∃ n g, Item.group n g ∈ c.plan o db ∧ m ∈ g.msgs := by
  cases c with
  | deleteMessage id =>
      obtain ⟨m₀, hm₀, -, hin⟩ := planMessage_complete hgo
      obtain ⟨hrow, hid⟩ := Table.get?_eq_some.mp hm₀
      have hown : m.id = id := by simpa [Call.owed] using howed
      have hsame : m = m₀ := db.messages.eq_of_pk hm hrow (hown.trans hid.symm)
      exact ⟨0, _, hin _ (List.mem_singleton.mpr rfl), by simp [hsame]⟩
  | moveMessage id target =>
      obtain ⟨m₀, hm₀, hgo₁, hin₁⟩ := planMessage_complete hgo
      obtain ⟨hrow, hid⟩ := Table.get?_eq_some.mp hm₀
      obtain ⟨src, hsrc, hgo₂, hin₂⟩ := planFolder_complete hgo₁
      obtain ⟨dst, hdst, hgo₃, hin₃⟩ := planFolder_complete hgo₂
      obtain ⟨-, hsrcid⟩ := Table.get?_eq_some.mp hsrc
      obtain ⟨-, hdstid⟩ := Table.get?_eq_some.mp hdst
      have hown : m.id = id ∧ m.folderID ≠ target := by simpa [Call.owed] using howed
      have hsame : m = m₀ := db.messages.eq_of_pk hm hrow (hown.1.trans hid.symm)
      have hcross : ¬ dst.accountID ≠ m₀.accountID := by
        intro hc
        have hstop := hgo₃ (.refuse .crossAccountMove) (by simp [hc])
        rw [refuse_stops] at hstop
        cases hstop
      have hother : ¬ dst.id = src.id := by
        intro hc
        have hid' : dst.id = target := hdstid
        have hfolder : src.id = m₀.folderID := hsrcid
        exact hown.2 (by rw [hsame, ← hfolder, ← hc, hid'])
      refine ⟨0, ⟨m₀.accountID, src.id, [m₀]⟩, hin₁ _ (hin₂ _ (hin₃ _ ?_)), by simp [hsame]⟩
      rw [if_neg hcross, if_neg hother]
      exact List.mem_singleton.mpr rfl
  | batchDelete ids =>
      have hid : m.id ∈ ids := by simpa [Call.owed] using howed
      obtain ⟨g, hg, hmem, -⟩ := exists_group_of_mem o 0 (mem_rowsOf.mpr ⟨hm, hid⟩)
      exact ⟨0, g, mem_planBatch.mpr ⟨rfl, hg⟩, hmem⟩
  | batchMove ids target =>
      obtain ⟨dst, hdst, hgo₁, hin⟩ := planFolder_complete hgo
      obtain ⟨-, hdstid⟩ := Table.get?_eq_some.mp hdst
      have hown : m.id ∈ ids ∧ m.folderID ≠ target := by simpa [Call.owed] using howed
      obtain ⟨g, hg, hmem, hfolder⟩ :=
        exists_group_of_mem o 0 (mem_rowsOf.mpr ⟨hm, hown.1⟩)
      have hcross : ¬ ((o.groups 0 (rowsOf db ids)).any fun g => g.accountID != dst.accountID) = true := by
        intro hc
        have hstop := hgo₁ (.refuse .crossAccountMove)
          (List.mem_append.mpr (Or.inr (by rw [if_pos hc]; exact List.mem_singleton.mpr rfl)))
        rw [refuse_stops] at hstop
        cases hstop
      have hother : (g.folderID != dst.id) = true := by
        have hid : dst.id = target := hdstid
        rw [hfolder, hid]
        simpa using hown.2
      refine ⟨0, g, hin _ (List.mem_append.mpr (Or.inr ?_)), hmem⟩
      rw [if_neg hcross]
      exact List.mem_map.mpr ⟨g, List.mem_filter.mpr ⟨hg, hother⟩, rfl⟩
  | batchSetRead ids read =>
      obtain ⟨g, hg, hmem⟩ := exists_planSet_of_mem o 0 hm (by simpa [Call.owed] using howed)
      exact ⟨0, g, hg, hmem⟩
  | batchSetFlagged ids flagged =>
      obtain ⟨g, hg, hmem⟩ := exists_planSet_of_mem o 0 hm (by simpa [Call.owed] using howed)
      exact ⟨0, g, hg, hmem⟩
  | setRead id read =>
      obtain ⟨m₀, -, -, hin⟩ := planMessage_complete hgo
      have hid : m.id ∈ [id] := by simpa [Call.owed] using howed
      obtain ⟨g, hg, hmem⟩ := exists_planSet_of_mem o 0 hm hid
      exact ⟨0, g, hin _ hg, hmem⟩
  | setFlagged id flagged =>
      obtain ⟨m₀, -, -, hin⟩ := planMessage_complete hgo
      have hid : m.id ∈ [id] := by simpa [Call.owed] using howed
      obtain ⟨g, hg, hmem⟩ := exists_planSet_of_mem o 0 hm hid
      exact ⟨0, g, hin _ hg, hmem⟩
  | markFolderRead folderID =>
      have hown : m.folderID = folderID ∧ m.seen = false := by simpa [Call.owed] using howed
      have hid : m.id ∈ Message.Repository.unreadIDsByFolder db folderID :=
        List.mem_map.mpr ⟨m, List.mem_filter.mpr ⟨hm, by simp [hown]⟩, rfl⟩
      obtain ⟨c, hc, hmc⟩ := (exists_mem_chunksOf (by decide : 0 < markFolderReadChunk)).mpr hid
      obtain ⟨k, g, hg, hmem⟩ := exists_planChunks_of_mem o hm hmc (n := 0) hc
      exact ⟨k, g, List.mem_cons_of_mem _ hg, hmem⟩

end Complete

/-! ### The result -/

/-- An item that does not stop the call and holds rows changes them. -/
private theorem changes_of_not_stops {db : DB} {a : Action} {n : Nat} {g : Group}
    (h : Item.stops φ db a (.group n g) = false) : Item.changes φ db a (.group n g) = true := by
  simp only [Item.stops, Bool.or_eq_false_iff, Bool.not_eq_false'] at h
  exact h.1.1

/-- **A call keeps the user's intent exactly when each mail of a group that loses its
change is covered otherwise.** -/
theorem keepsIntent_iff_recovers (φ : Site → Fault) (o : Order) (now : Time) (c : Call)
    (db : DB) : KeepsIntent c db (c.run o now (.faulty φ) db) ↔ Recovers φ o c db := by
  obtain ⟨out, db', hrun, hout, hchain⟩ := @chain_of_run φ o now c db
  have hsame : SameFolders db db := rfl
  have hcovered : ∀ m, _ := fun m => covered_of_chain (m := m) hchain hsame
  have hgone : ∀ m ∈ db.messages.rows, _ := fun m hm => notMem_iff_of_chain hchain hsame hm
  rw [hrun]
  refine ⟨fun h => ?_, fun h => ?_⟩
  · intro i hi hloses m hm hcause
    cases i with
    | gate site => simp [Loses] at hloses
    | refuse e => simp [Loses] at hloses
    | group n g =>
        have hg := groupOK_of_mem_plan (reached_subset hi)
        have hrow := hg.mem m hm
        apply (hcovered m).mp
        rcases hcause with halter | ⟨hgo, howed⟩
        · refine h.changed m hrow ((hgone m hrow).mpr ⟨_, hi, ?_, ?_, halter⟩)
          · simp only [Loses, Bool.and_eq_true] at hloses
            exact hloses.1
          · exact List.mem_map.mpr ⟨m, hm, rfl⟩
        · exact h.complete (hout.mpr hgo) m hrow howed
  · have hgroup : ∀ m ∈ db.messages.rows, ∀ n g,
        Item.group n g ∈ reached φ db (c.action db) (c.plan o db) → m ∈ g.msgs →
        Item.changes φ db (c.action db) (.group n g) = true →
        ((c.action db).alters m = true ∨
          (∀ j ∈ c.plan o db, j.stops φ db (c.action db) = false) ∧ c.owed m = true) →
        ∃ o ∈ db'.ops.rows, Covers db (c.action db) m o := by
      intro m hrow n g hi hm hchange hcause
      apply (hcovered m).mpr
      cases hloses : Loses φ db (c.action db) (.group n g) with
      | true => exact h _ hi hloses m hm hcause
      | false =>
          obtain ⟨new, hstores, hcovers⟩ :=
            stores_of_not_loses (groupOK_of_mem_plan (reached_subset hi)) hchange hloses
          exact Or.inr ⟨_, hi, new, hstores, hcovers m hm⟩
    refine ⟨fun m hrow hnot => ?_, fun hok m hrow howed => ?_⟩
    · obtain ⟨i, hi, hchange, hid, halter⟩ := (hgone m hrow).mp hnot
      cases i with
      | gate site => simp [Item.changes] at hchange
      | refuse e => simp [Item.changes] at hchange
      | group n g =>
          obtain ⟨m', hm', heq⟩ := List.mem_map.mp hid
          have hrow' := (groupOK_of_mem_plan (reached_subset hi)).mem m' hm'
          have hself : m' = m := db.messages.eq_of_pk hrow' hrow heq
          exact hgroup m hrow n g hi (hself ▸ hm') hchange (Or.inl halter)
    · have hgo := hout.mp hok
      obtain ⟨n, g, hi, hm⟩ := exists_group_of_owed hrow howed hgo
      refine hgroup m hrow n g ?_ hm (changes_of_not_stops (hgo _ hi)) (Or.inr ⟨hgo, howed⟩)
      rw [reached_eq_self hgo]
      exact hi

/-! ### A change that is lost

One unread mail in the inbox, which is marked as read.  The row changes; storing the row
of the queue fails; the call reports success.
-/

private def unreadMail : Message := .bare 1 1 1 (.numbered 7)

private def oneMail : DB where
  messages := .single unreadMail
  folders := .single (.bare 1 1 "INBOX".toList .inbox)
  ops := .empty

private def insertFails : Site → Fault
  | .group _ _ _ .createOp => .fail
  | _ => .none

/-- **A call can report success and leave a changed row without a queued one.** -/
theorem intent_lost : ¬ ∀ (φ : Site → Fault) (o : Order) (now : Time) (c : Call) (db : DB),
    KeepsIntent c db (c.run o now (.faulty φ) db) := by
  intro h
  have hkeeps := h insertFails ⟨fun _ _ => 0, fun _ _ => 0⟩ 1 (.batchSetRead [1] true) oneMail
  obtain ⟨o, ho, -⟩ := hkeeps.changed unreadMail (by decide) (by decide)
  have hempty : ((Call.batchSetRead [1] true).run ⟨fun _ _ => 0, fun _ _ => 0⟩ 1
      (.faulty insertFails) oneMail).2.ops.rows = [] := by rfl
  rw [hempty] at ho
  exact absurd ho List.not_mem_nil

end FlyMail.Sync
