/-
Flags: the server's and the local ones, and what is queued between them.

The local row has the flag the user set last.  The server's flag is on its way there:
it will be what the last queued change of the flag says, or is it already where nothing
is queued.  A call keeps that so, as it queues what it sets.  An attempt keeps it so
unless the row that goes through is the last one queued for the flag of some mail, while
an earlier one that says the opposite is still waiting for its turn to be tried again.
The queue does not prevent that, as every row waits by itself.
-/
import FlyMail.Lib.LastWrite
import FlyMail.Proofs.Queue
import FlyMail.Proofs.Server

namespace FlyMail.Sync

/-! ### Statement -/

/-- The flag as a server knows it. -/
def MailFlag.wire : MailFlag → Imap.Flag
  | .seen => .seen
  | .flagged => .flagged

/-- The flags of every row are the flags the server has for the mail. -/
def FlagsAgree (s : System) : Prop :=
  ∀ m ∈ s.db.messages.rows, ∀ src, Folder.Repository.getByID s.db m.folderID = some src →
    ∀ r ∈ (s.boxes m.accountID src.path).mails, r.uid = m.uid.val →
      r.seen = m.seen ∧ r.flagged = m.flagged

/-- Every row has a UID its mailbox has handed out. -/
def KnownUIDs (s : System) : Prop :=
  ∀ m ∈ s.db.messages.rows, ∀ src, Folder.Repository.getByID s.db m.folderID = some src →
    m.uid.val < (s.boxes m.accountID src.path).uidNext

/-- Nothing is under way, and the flags agree. -/
structure Settled (s : System) : Prop where
  linked : s.db.Linked
  empty : s.db.ops.rows = []
  idle : ∀ accountID, s.runners accountID = ⟨[], []⟩
  known : KnownUIDs s
  agree : FlagsAgree s

/-- The row goes through in turn: whichever flag it sets of whichever mail, a later row is
queued for the same flag of the same mail, or no earlier one that says the opposite. -/
def inTurn (db : DB) (op : WritebackOp) : Bool :=
  [MailFlag.seen, MailFlag.flagged].all fun flag =>
    match WbOp.value op.op flag with
    | none => true
    | some v =>
        (opUIDs op).all fun uid =>
          let p : Place := ⟨op.accountID, op.folderPath, uid⟩
          (db.ops.rows.any fun o =>
            decide (op.id < o.id) && p.coveredBy o && (WbOp.value o.op flag).isSome) ||
          !(db.ops.rows.any fun o =>
            decide (o.id < op.id) && p.coveredBy o && WbOp.value o.op flag == some !v)

/-- What is asked of a step: no row is given up, and one that goes through is in turn. -/
def flagsKept (s : System) (l : Label) : Bool :=
  noGiveUp s l &&
    match l with
    | .attempt accountID .ok =>
        match (s.runners accountID).work with
        | op :: _ => inTurn s.db op
        | [] => true
    | _ => true

/-! ### What is queued for a flag -/

theorem pendingFlag_append (ops ops' : List WritebackOp) (p : Place) (flag : MailFlag) :
    pendingFlag (ops ++ ops') p flag = pendingFlag ops p flag ++ pendingFlag ops' p flag :=
  List.filterMap_append

/-- What is queued does not depend on the record of the attempts. -/
theorem pendingFlag_of_core {ops ops' : List WritebackOp} (h : ops'.map core = ops.map core)
    (p : Place) (flag : MailFlag) : pendingFlag ops' p flag = pendingFlag ops p flag := by
  have hcore : ∀ ops : List WritebackOp,
      pendingFlag ops p flag = pendingFlag (ops.map core) p flag := by
    intro ops
    unfold pendingFlag
    rw [List.filterMap_map]
    rfl
  rw [hcore, h, ← hcore]

theorem WbOp.value_flagOp (flag flag' : MailFlag) (on : Bool) :
    WbOp.value (flagOp flag on) flag' = if flag' = flag then some on else none := by
  cases flag <;> cases flag' <;> cases on <;> rfl

theorem mem_pendingFlag {ops : List WritebackOp} {p : Place} {flag : MailFlag} {v : Bool} :
    v ∈ pendingFlag ops p flag ↔
      ∃ o ∈ ops, p.coveredBy o = true ∧ WbOp.value o.op flag = some v := by
  unfold pendingFlag
  rw [List.mem_filterMap]
  refine ⟨fun h => ?_, fun h => ?_⟩
  · obtain ⟨o, ho, hv⟩ := h
    by_cases hc : p.coveredBy o = true
    · rw [if_pos hc] at hv
      exact ⟨o, ho, hc, hv⟩
    · rw [if_neg hc] at hv
      cases hv
  · obtain ⟨o, ho, hc, hv⟩ := h
    exact ⟨o, ho, by rw [if_pos hc]; exact hv⟩

/-- A queued row stands between the earlier and the later ones. -/
theorem exists_split {db : DB} {row : WritebackOp} (h : row ∈ db.ops.rows) :
    ∃ before after, db.ops.rows = before ++ row :: after ∧
      (db.ops.rows.filter fun o => !(o.id == row.id)) = before ++ after ∧
      (∀ o ∈ before, o.id < row.id) ∧ ∀ o ∈ after, row.id < o.id := by
  obtain ⟨before, after, hsplit⟩ := List.append_of_mem h
  have hsorted := db.ops.sorted
  rw [hsplit, List.pairwise_append, List.pairwise_cons] at hsorted
  obtain ⟨-, ⟨hafter, -⟩, hbefore⟩ := hsorted
  have hlt : ∀ o ∈ before, o.id < row.id := fun o ho => hbefore o ho row List.mem_cons_self
  refine ⟨before, after, hsplit, ?_, hlt, hafter⟩
  have hkeep : ∀ l : List WritebackOp, (∀ o ∈ l, o.id ≠ row.id) →
      (l.filter fun o => !(o.id == row.id)) = l := by
    intro l hl
    refine List.filter_eq_self.mpr fun o ho => ?_
    simpa using hl o ho
  rw [hsplit, List.filter_append, List.filter_cons, hkeep before, hkeep after]
  · simp
  · intro o ho
    have := hafter o ho
    omega
  · intro o ho
    have := hlt o ho
    omega

/-- **A row goes through in turn**: the value written last stays what it was. -/
theorem latest_of_inTurn {db : DB} {row : WritebackOp} (h : row ∈ db.ops.rows)
    (hturn : inTurn db row = true) {p : Place} (hc : p.coveredBy row = true) {flag : MailFlag}
    {v : Bool} (hv : WbOp.value row.op flag = some v) (w : Bool) :
    latest (pendingFlag (db.ops.rows.filter fun o => !(o.id == row.id)) p flag) v
      = latest (pendingFlag db.ops.rows p flag) w := by
  obtain ⟨before, after, hsplit, hfilter, hbefore, hafter⟩ := exists_split h
  have hrow : pendingFlag [row] p flag = [v] := by
    simp [pendingFlag, hc, hv]
  have hcons : pendingFlag db.ops.rows p flag
      = pendingFlag before p flag ++ v :: pendingFlag after p flag := by
    rw [hsplit, pendingFlag_append, ← List.singleton_append, pendingFlag_append, hrow]
    rfl
  rw [hfilter, hcons, pendingFlag_append]
  apply latest_arrive
  -- The place the row covers is that of one of its UIDs.
  have hplace : p = ⟨row.accountID, row.folderPath, p.uid⟩ ∧ p.uid ∈ opUIDs row := by
    unfold Place.coveredBy at hc
    simp only [Bool.and_eq_true, beq_iff_eq, List.contains_iff_mem] at hc
    obtain ⟨⟨haccount, hpath⟩, huid⟩ := hc
    exact ⟨by rw [haccount, hpath], huid⟩
  have hflag := List.all_eq_true.mp hturn flag (by cases flag <;> simp)
  simp only [hv] at hflag
  have huid := List.all_eq_true.mp hflag p.uid hplace.2
  rw [← hplace.1, Bool.or_eq_true] at huid
  rcases huid with hlater | hearlier
  · left
    obtain ⟨o, ho, hcond⟩ := List.any_eq_true.mp hlater
    simp only [Bool.and_eq_true, decide_eq_true_eq] at hcond
    obtain ⟨⟨hid, hco⟩, hsome⟩ := hcond
    obtain ⟨u, hu⟩ := Option.isSome_iff_exists.mp hsome
    have hmem : o ∈ after := by
      rw [hsplit] at ho
      rcases List.mem_append.mp ho with ho | ho
      · have := hbefore o ho
        omega
      · rcases List.mem_cons.mp ho with rfl | ho
        · omega
        · exact ho
    exact List.ne_nil_of_mem (mem_pendingFlag.mpr ⟨o, hmem, hco, hu⟩)
  · right
    intro u hu
    obtain ⟨o, ho, hco, huo⟩ := mem_pendingFlag.mp hu
    by_contra hne
    have hopposite : u = !v := Bool.eq_not_iff.mpr hne
    have hany : (db.ops.rows.any fun o =>
        decide (o.id < row.id) && p.coveredBy o && WbOp.value o.op flag == some !v) = true := by
      refine List.any_eq_true.mpr ⟨o, ?_, ?_⟩
      · rw [hsplit]
        exact List.mem_append.mpr (Or.inl ho)
      · simp [hbefore o ho, hco, huo, hopposite]
    rw [hany] at hearlier
    cases hearlier

/-- A row that sets another flag, or nothing, or is about other mails, may go. -/
theorem pendingFlag_filter {ops : List WritebackOp} {id : Nat} {p : Place} {flag : MailFlag}
    (h : ∀ o ∈ ops, o.id = id → p.coveredBy o = true → WbOp.value o.op flag = none) :
    pendingFlag (ops.filter fun o => !(o.id == id)) p flag = pendingFlag ops p flag := by
  unfold pendingFlag
  rw [List.filterMap_filter]
  refine List.filterMap_congr fun o ho => ?_
  by_cases hid : o.id = id
  · have hnone : (if p.coveredBy o = true then WbOp.value o.op flag else none) = none := by
      by_cases hc : p.coveredBy o = true
      · rw [if_pos hc]
        exact h o ho hid hc
      · rw [if_neg hc]
    rw [hnone]
    simp [hid]
  · simp [hid]

/-! ### What an attempt does to a flag -/

theorem MailFlag.wire_injective {flag flag' : MailFlag} (h : flag.wire = flag'.wire) :
    flag = flag' := by
  cases flag <;> cases flag' <;> first | rfl | cases h

/-- A verb sets a flag, or takes mails away. -/
theorem WbOp.flag_or_removal (op : WbOp) :
    (∃ flag on, op = flagOp flag on) ∨ op = .move ∨ op = .expunge := by
  cases op with
  | read => exact Or.inl ⟨.seen, true, rfl⟩
  | unread => exact Or.inl ⟨.seen, false, rfl⟩
  | star => exact Or.inl ⟨.flagged, true, rfl⟩
  | unstar => exact Or.inl ⟨.flagged, false, rfl⟩
  | move => exact Or.inr (Or.inl rfl)
  | expunge => exact Or.inr (Or.inr rfl)

theorem WbOp.eq_flagOp_of_value {op : WbOp} {flag : MailFlag} {v : Bool}
    (h : WbOp.value op flag = some v) : op = flagOp flag v := by
  rcases WbOp.flag_or_removal op with ⟨flag', on, rfl⟩ | rfl | rfl
  · rw [WbOp.value_flagOp] at h
    by_cases hflag : flag = flag'
    · rw [if_pos hflag] at h
      cases h
      rw [hflag]
    · rw [if_neg hflag] at h
      cases h
  · cases flag <;> cases h
  · cases flag <;> cases h

theorem applyWriteback_flag {canMove : Bool} {op : WritebackOp} {flag : MailFlag} {on : Bool}
    (h : op.op = flagOp flag on) :
    applyWriteback canMove op = Imap.storeFlags (opUIDs op) flag.wire on := by
  unfold applyWriteback
  dsimp only
  by_cases hnil : opUIDs op = []
  · rw [if_pos hnil, hnil]
    rfl
  · rw [if_neg hnil, h]
    cases flag <;> cases on <;> rfl

/-- A row that takes mails away stores no flag but the mark for `EXPUNGE`. -/
theorem not_store_of_removal {canMove : Bool} {op : WritebackOp} {flag : MailFlag} {on : Bool}
    {uids : List Nat} (h : op.op = .move ∨ op.op = .expunge) :
    Imap.Command.store flag.wire on uids ∉ applyWriteback canMove op := by
  have hdelete : ∀ us, Imap.Command.store flag.wire on uids ∉ Imap.delete us := by
    intro us
    unfold Imap.delete Imap.storeFlags
    by_cases hus : us = []
    · rw [if_pos hus]
      simp
    · rw [if_neg hus]
      cases flag <;> simp [MailFlag.wire]
  unfold applyWriteback
  dsimp only
  by_cases hnil : opUIDs op = []
  · rw [if_pos hnil]
    exact List.not_mem_nil
  rw [if_neg hnil]
  rcases h with h | h
  · rw [h]
    unfold Imap.move
    rw [if_neg hnil]
    by_cases hmove : canMove = true
    · rw [if_pos hmove]
      simp
    · rw [if_neg hmove]
      intro hmem
      rcases List.mem_cons.mp hmem with hmem | hmem
      · cases hmem
      · exact hdelete _ hmem
  · rw [h]
    exact hdelete _

theorem value_of_store_mem {canMove : Bool} {op : WritebackOp} {flag : MailFlag} {on : Bool}
    {uids : List Nat} (h : Imap.Command.store flag.wire on uids ∈ applyWriteback canMove op) :
    WbOp.value op.op flag = some on ∧ uids = opUIDs op := by
  rcases WbOp.flag_or_removal op.op with ⟨flag', on', hop⟩ | hop
  · rw [applyWriteback_flag hop] at h
    unfold Imap.storeFlags at h
    by_cases hnil : opUIDs op = []
    · rw [if_pos hnil] at h
      exact absurd h List.not_mem_nil
    · rw [if_neg hnil] at h
      have hcmd := List.mem_singleton.mp h
      simp only [Imap.Command.store.injEq] at hcmd
      obtain ⟨hflag, hon, huids⟩ := hcmd
      rw [hop, WbOp.value_flagOp, if_pos (MailFlag.wire_injective hflag), hon]
      exact ⟨rfl, huids⟩
  · exact absurd h (not_store_of_removal hop)

section Attempt

variable {canMove : Bool} {op : WritebackOp} {x : Imap.Exchange} {boxes : Imap.Boxes}
  {p : Text} {r : Imap.Mail}

/-- An attempt leaves the flag of a mail alone, unless the row is about it. -/
theorem flag_of_attempt (flag : MailFlag)
    (h : r ∈ (Imap.runCommands op.folderPath (applyWriteback canMove op) x boxes p).mails)
    (hold : r.uid < (boxes p).uidNext) :
    ∃ r₀ ∈ (boxes p).mails, r₀.uid = r.uid ∧ (r.has flag.wire = r₀.has flag.wire ∨
      p = op.folderPath ∧ r.uid ∈ opUIDs op ∧ (WbOp.value op.op flag).isSome = true) := by
  obtain ⟨r₀, hr₀, hfrom⟩ := Imap.fromOld_of_mem_runCommands h hold
  refine ⟨r₀, hr₀, hfrom.uid, ?_⟩
  rcases hfrom.flags flag.wire with heq | ⟨on, uids, hstore, hpath, huid, -⟩
  · exact Or.inl heq
  · obtain ⟨hvalue, huids⟩ := value_of_store_mem hstore
    refine Or.inr ⟨hpath, ?_, by rw [hvalue]; rfl⟩
    rw [← huids, ← hfrom.uid]
    exact huid

/-- A row that goes through sets the flag of every mail it is about. -/
theorem flag_of_ok {flag : MailFlag} {v : Bool}
    (h : r ∈ (Imap.runCommands op.folderPath (applyWriteback canMove op) .ok boxes
      op.folderPath).mails)
    (huid : r.uid ∈ opUIDs op) (hv : WbOp.value op.op flag = some v) :
    r.has flag.wire = v := by
  rw [applyWriteback_flag (WbOp.eq_flagOp_of_value hv)] at h
  unfold Imap.storeFlags at h
  rw [if_neg (List.ne_nil_of_mem huid)] at h
  simp only [Imap.runCommands, Imap.Command.run, Function.update_self] at h
  obtain ⟨r₀, -, rfl⟩ := List.mem_map.mp h
  by_cases hc : ((opUIDs op).contains r₀.uid && true) = true
  · rw [if_pos hc]
    exact r₀.has_set_self flag.wire v
  · rw [if_neg hc] at huid
    exact absurd (by simpa using huid) hc

end Attempt

/-! ### The invariant -/

/-- Each flag the server has for the mail at `p` is on its way to what is wanted. -/
def Settling (boxes : Nat → Imap.Boxes) (ops : List WritebackOp) (p : Place)
    (wanted : MailFlag → Bool) : Prop :=
  ∀ r ∈ (boxes p.accountID p.path).mails, r.uid = p.uid → ∀ flag,
    latest (pendingFlag ops p flag) (r.has flag.wire) = wanted flag

structure FlagsInv (s : System) : Prop where
  queue : QueueInv s
  known : KnownUIDs s
  settling : ∀ m ∈ s.db.messages.rows, ∀ src,
    Folder.Repository.getByID s.db m.folderID = some src →
      Settling s.boxes s.db.ops.rows (placeOf m src) (MailFlag.of m)

theorem Settled.inv {s : System} (h : Settled s) : FlagsInv s := by
  refine ⟨⟨h.linked, ?_, ?_, ?_⟩, h.known, ?_⟩
  · intro accountID o ho
    rw [h.idle] at ho
    exact absurd ho List.not_mem_nil
  · intro accountID
    rw [h.idle]
    exact .nil
  · intro accountID id hid
    rw [h.idle] at hid
    exact absurd hid List.not_mem_nil
  · intro m hm src hsrc r hr huid flag
    obtain ⟨hseen, hflagged⟩ := h.agree m hm src hsrc r hr huid
    rw [h.empty]
    cases flag with
    | seen => exact hseen
    | flagged => exact hflagged

/-- With nothing queued, what is on its way has arrived. -/
theorem FlagsInv.agree {s : System} (h : FlagsInv s) (hempty : s.db.ops.rows = []) :
    FlagsAgree s := by
  intro m hm src hsrc r hr huid
  have hflag := h.settling m hm src hsrc r hr huid
  rw [hempty] at hflag
  exact ⟨hflag .seen, hflag .flagged⟩

/-! ### A call keeps it -/

/-- What an action sets a flag to. -/
def Action.sets : Action → MailFlag → Option Bool
  | .set flag on, flag' => if flag' = flag then some on else none
  | _, _ => none

/-- The verb an action is queued with says what the action sets. -/
theorem value_intended (a : Action) (db : DB) (accountID : Nat) (src : Folder)
    (flag : MailFlag) : WbOp.value (a.intended db accountID src).1 flag = a.sets flag := by
  cases a with
  | set flag' on => exact WbOp.value_flagOp flag' flag on
  | move target => cases flag <;> rfl
  | delete =>
      show WbOp.value (deleteTarget _ src).1 flag = none
      unfold deleteTarget
      split
      · cases flag <;> rfl
      · split <;> cases flag <;> rfl

/-- A row after a group was handled is a row from before, with the flags the action sets. -/
theorem exists_of_mem_change {a : Action} {ids : List Nat} {d : DB} {m : Message}
    (h : m ∈ (a.change ids d).messages.rows) :
    ∃ m₁ ∈ d.messages.rows, Message.plain m = Message.plain m₁ ∧ ∀ flag, MailFlag.of m flag
      = if m₁.id ∈ ids then (a.sets flag).getD (MailFlag.of m₁ flag) else MailFlag.of m₁ flag := by
  have hremoved : m ∈ (Message.Repository.deleteByIDs ids d).messages.rows →
      a.sets = (fun _ => none) → ∃ m₁ ∈ d.messages.rows, Message.plain m = Message.plain m₁ ∧
        ∀ flag, MailFlag.of m flag = if m₁.id ∈ ids then
          (a.sets flag).getD (MailFlag.of m₁ flag) else MailFlag.of m₁ flag := by
    intro hmem hsets
    refine ⟨m, (Table.mem_delete.mp hmem).1, rfl, fun flag => ?_⟩
    rw [hsets]
    exact (ite_self _).symm
  cases a with
  | delete => exact hremoved h rfl
  | move target => exact hremoved h rfl
  | set flag' on =>
      have hrows : m ∈ (setFlagByIDs flag' ids on d).messages.rows := h
      rw [setFlagByIDs_rows] at hrows
      obtain ⟨m₁, hm₁, rfl⟩ := List.mem_map.mp hrows
      refine ⟨m₁, hm₁, ?_, fun flag => ?_⟩
      · split
        · cases flag' <;> rfl
        · rfl
      · by_cases hin : m₁.id ∈ ids
        · rw [if_pos (by simpa using hin), if_pos hin]
          cases flag <;> cases flag' <;> rfl
        · rw [if_neg (by simpa using hin), if_neg hin]

/-- What the row queued for a group has in store for a mail. -/
theorem pendingFlag_queuedOp {db₀ : DB} {a : Action} {g : Group} {src f : Folder} {m : Message}
    (hlinked : db₀.Linked) (hg : GroupOK db₀ g)
    (hsrc : Folder.Repository.getByID db₀ g.folderID = some src) (hm : m ∈ db₀.messages.rows)
    (hf : Folder.Repository.getByID db₀ m.folderID = some f) (id : Nat) (due : Time)
    (flag : MailFlag) :
    pendingFlag [{ queuedOp db₀ a g src with id := id, nextAttemptAt := due }] (placeOf m f) flag
      = if m.id ∈ g.ids then (a.sets flag).toList else [] := by
  have hcover := coveredBy_queuedOp (o := { queuedOp db₀ a g src with
    id := id, nextAttemptAt := due }) hlinked hg hsrc rfl rfl rfl hm hf
  have hvalue : WbOp.value (queuedOp db₀ a g src).op flag = a.sets flag :=
    value_intended a db₀ g.accountID src flag
  unfold pendingFlag
  by_cases hin : m.id ∈ g.ids
  · have hc := hcover.mpr hin
    rw [if_pos hin]
    cases hsets : a.sets flag <;> simp [hc, hvalue, hsets]
  · have hc : ¬ (placeOf m f).coveredBy { queuedOp db₀ a g src with
        id := id, nextAttemptAt := due } = true := fun hc => hin (hcover.mp hc)
    rw [if_neg hin]
    simp [hc]

/-- A group is handled: what its rows are set to is queued behind all else. -/
theorem settling_touched {db₀ d d' : DB} {a : Action} {g : Group} {src : Folder}
    {boxes : Nat → Imap.Boxes} (hlinked : db₀.Linked) (hg : GroupOK db₀ g)
    (hrows : RowsFrom db₀ d) (htouch : Touched db₀ a g src d d')
    (h : ∀ m ∈ d.messages.rows, ∀ f, Folder.Repository.getByID db₀ m.folderID = some f →
      Settling boxes d.ops.rows (placeOf m f) (MailFlag.of m)) :
    ∀ m ∈ d'.messages.rows, ∀ f, Folder.Repository.getByID db₀ m.folderID = some f →
      Settling boxes d'.ops.rows (placeOf m f) (MailFlag.of m) := by
  intro m hm f hf r hr huid flag
  rw [htouch.messages] at hm
  obtain ⟨m₁, hm₁, hplain, hflags⟩ := exists_of_mem_change hm
  obtain ⟨-, hacc, hfolder, huid₁⟩ := eq_of_msgPlain hplain
  obtain ⟨m₀, hm₀, hplain₀⟩ := hrows m₁ hm₁
  obtain ⟨hid₀, hacc₀, hfolder₀, huid₀⟩ := eq_of_msgPlain hplain₀
  obtain ⟨due, hops⟩ := htouch.ops
  have hplace₁ : placeOf m f = placeOf m₁ f := by
    unfold placeOf
    rw [hacc, huid₁]
  have hplace₀ : placeOf m₁ f = placeOf m₀ f := by
    unfold placeOf
    rw [hacc₀, huid₀]
  have hold := h m₁ hm₁ f (hfolder ▸ hf) r (hplace₁ ▸ hr) (hplace₁ ▸ huid) flag
  have hf₀ : Folder.Repository.getByID db₀ m₀.folderID = some f := by
    rw [← hfolder₀, ← hfolder]
    exact hf
  have hnew := pendingFlag_queuedOp (a := a) hlinked hg htouch.found hm₀ hf₀
    (d.ops.last + 1) due flag
  rw [hops, pendingFlag_append, hplace₁, hflags flag, ← hold, hplace₀, hnew, hid₀]
  by_cases hin : m₀.id ∈ g.ids
  · rw [if_pos hin, if_pos hin]
    cases a.sets flag with
    | none => rw [Option.toList_none, List.append_nil, Option.getD_none]
    | some v => exact latest_concat _ v _
  · rw [if_neg hin, if_neg hin, List.append_nil]

/-- The folder a row had before a call had the same path. -/
theorem exists_folder_before {db db' : DB} (hsame : SameFolders db db') {id : Nat} {src : Folder}
    (h : Folder.Repository.getByID db' id = some src) :
    ∃ f, Folder.Repository.getByID db id = some f ∧ f.path = src.path := by
  have hmap := hsame.getByID id
  rw [h, Option.map_some, eq_comm, Option.map_eq_some_iff] at hmap
  obtain ⟨f, hf, hplain⟩ := hmap
  exact ⟨f, hf, (eq_of_plain hplain).2.1⟩

theorem flagsInv_user {s : System} (h : FlagsInv s) {o : Order} {c : Call} {t : System}
    (hstep : s.step (.user o c) = some t) : FlagsInv t := by
  have hqueue := queueInv_step h.queue hstep
  cases hstep
  have hcalm := run_calm o s.now c h.queue.linked
    (P := fun messages ops => ∀ m ∈ messages.rows, ∀ f,
      Folder.Repository.getByID s.db m.folderID = some f →
        Settling s.boxes ops.rows (placeOf m f) (MailFlag.of m))
    h.settling fun n g src d d' _ hg hrows htouch hp =>
      settling_touched h.queue.linked hg hrows htouch hp
  obtain ⟨hsettling, hsame, hrows⟩ := hcalm
  refine ⟨hqueue, fun m hm src hsrc => ?_, fun m hm src hsrc r hr huid flag => ?_⟩
  · obtain ⟨m₀, hm₀, hplain⟩ := hrows m hm
    obtain ⟨-, hacc, hfolder, huid⟩ := eq_of_msgPlain hplain
    obtain ⟨f, hf, hpath⟩ := exists_folder_before hsame hsrc
    have hknown := h.known m₀ hm₀ f (hfolder ▸ hf)
    rw [hacc, huid, ← hpath]
    exact hknown
  · obtain ⟨f, hf, hpath⟩ := exists_folder_before hsame hsrc
    have hplace : placeOf m src = placeOf m f := by
      unfold placeOf
      rw [hpath]
    rw [hplace] at hr huid ⊢
    exact hsettling m hm f hf r hr huid flag

/-! ### An attempt keeps it -/

/-- Whether a row is in turn does not depend on the record of its attempts. -/
theorem inTurn_of_core {db : DB} {o o' : WritebackOp} (h : core o = core o') :
    inTurn db o = inTurn db o' := by
  obtain ⟨hid, haccount, hpath, hop, -, huids⟩ := eq_of_core h
  unfold inTurn
  rw [hid, haccount, hpath, hop, huids]

section Attempt

variable {s : System} {op : WritebackOp} {canMove : Bool} {p : Place} {wanted : MailFlag → Bool}

/-- A row that goes through in turn. -/
theorem settling_goes (hop : ∃ row ∈ s.db.ops.rows, core row = core op)
    (hturn : inTurn s.db op = true) (hknown : p.uid < (s.boxes p.accountID p.path).uidNext)
    (h : Settling s.boxes s.db.ops.rows p wanted) :
    Settling (Function.update s.boxes op.accountID
        (Imap.runCommands op.folderPath (applyWriteback canMove op) .ok (s.boxes op.accountID)))
      (s.db.ops.rows.filter fun o => !(o.id == op.id)) p wanted := by
  intro r hr huid flag
  obtain ⟨row, hrow, hcore⟩ := hop
  obtain ⟨hid, -, -, hverb, -, -⟩ := eq_of_core hcore
  have hself : ∀ o ∈ s.db.ops.rows, o.id = op.id → o = row := fun o ho hoid =>
    s.db.ops.eq_of_pk ho hrow (hoid.trans hid.symm)
  by_cases hc : p.coveredBy op = true ∧ (WbOp.value op.op flag).isSome = true
  · -- The row sets this flag of this mail.
    obtain ⟨hc, hsome⟩ := hc
    obtain ⟨v, hv⟩ := Option.isSome_iff_exists.mp hsome
    have hcrow : p.coveredBy row = true := by
      rw [coveredBy_of_core hcore]
      exact hc
    unfold Place.coveredBy at hc
    simp only [Bool.and_eq_true, beq_iff_eq, List.contains_iff_mem] at hc
    obtain ⟨⟨haccount, hpath⟩, hmem⟩ := hc
    rw [← haccount, Function.update_self, ← hpath] at hr
    have hset := flag_of_ok hr (huid ▸ hmem) hv
    rw [← haccount, ← hpath] at hknown
    obtain ⟨r₀, hr₀, huid₀, -⟩ := flag_of_attempt flag hr (huid ▸ hknown)
    have hlatest := latest_of_inTurn hrow ((inTurn_of_core hcore).trans hturn) hcrow
      (show WbOp.value row.op flag = some v by rw [hverb]; exact hv) (r₀.has flag.wire)
    rw [hset, ← hid, hlatest]
    refine h r₀ ?_ (huid₀.trans huid) flag
    rw [← haccount, ← hpath]
    exact hr₀
  · -- It does not.
    rw [pendingFlag_filter fun o ho hoid hco => ?_]
    · by_cases haccount : p.accountID = op.accountID
      · rw [haccount, Function.update_self] at hr
        rw [haccount] at hknown
        obtain ⟨r₀, hr₀, huid₀, heq⟩ := flag_of_attempt flag hr (huid ▸ hknown)
        have hsame : r.has flag.wire = r₀.has flag.wire := by
          refine heq.resolve_right fun hset => hc ⟨?_, hset.2.2⟩
          unfold Place.coveredBy
          simp [haccount, hset.1, ← huid, hset.2.1]
        rw [hsame]
        exact h r₀ (haccount ▸ hr₀) (huid₀.trans huid) flag
      · rw [Function.update_of_ne haccount] at hr
        exact h r hr huid flag
    · rw [hself o ho hoid] at hco ⊢
      rw [coveredBy_of_core hcore] at hco
      rw [hverb]
      exact Option.not_isSome_iff_eq_none.mp fun hsome => hc ⟨hco, hsome⟩

/-- A row that fails and stays, whatever it did on the server. -/
theorem settling_fails (hop : ∃ row ∈ s.db.ops.rows, core row = core op) {x : Imap.Exchange}
    {ops : List WritebackOp} (hops : ops.map core = s.db.ops.rows.map core)
    (hknown : p.uid < (s.boxes p.accountID p.path).uidNext)
    (h : Settling s.boxes s.db.ops.rows p wanted) :
    Settling (Function.update s.boxes op.accountID
        (Imap.runCommands op.folderPath (applyWriteback canMove op) x (s.boxes op.accountID)))
      ops p wanted := by
  intro r hr huid flag
  rw [pendingFlag_of_core hops]
  by_cases haccount : p.accountID = op.accountID
  · rw [haccount, Function.update_self] at hr
    rw [haccount] at hknown
    obtain ⟨r₀, hr₀, huid₀, heq⟩ := flag_of_attempt flag hr (huid ▸ hknown)
    have hlatest := h r₀ (haccount ▸ hr₀) (huid₀.trans huid) flag
    rcases heq with hsame | ⟨hpath, hmem, hsome⟩
    · rw [hsame]
      exact hlatest
    · -- The row may have set the flag, but it is still queued.
      obtain ⟨row, hrow, hcore⟩ := hop
      obtain ⟨-, -, -, hverb, -, -⟩ := eq_of_core hcore
      obtain ⟨v, hv⟩ := Option.isSome_iff_exists.mp hsome
      have hc : p.coveredBy row = true := by
        rw [coveredBy_of_core hcore]
        unfold Place.coveredBy
        simp [haccount, hpath, ← huid, hmem]
      have hqueued : pendingFlag s.db.ops.rows p flag ≠ [] :=
        List.ne_nil_of_mem (mem_pendingFlag.mpr ⟨row, hrow, hc, by rw [hverb]; exact hv⟩)
      rw [latest_of_ne_nil hqueued _ (r₀.has flag.wire)]
      exact hlatest
  · rw [Function.update_of_ne haccount] at hr
    exact h r hr huid flag

end Attempt

/-- Rows without UIDs are always in turn. -/
theorem inTurn_of_nil {db : DB} {op : WritebackOp} (h : opUIDs op = []) :
    inTurn db op = true := by
  refine List.all_eq_true.mpr fun flag _ => ?_
  cases WbOp.value op.op flag with
  | none => rfl
  | some v => simp [h]

theorem runCommands_of_nil {canMove : Bool} {op : WritebackOp} (h : opUIDs op = [])
    (x x' : Imap.Exchange) (boxes : Imap.Boxes) :
    Imap.runCommands op.folderPath (applyWriteback canMove op) x boxes
      = Imap.runCommands op.folderPath (applyWriteback canMove op) x' boxes := by
  unfold applyWriteback
  rw [if_pos h]
  rfl

/-- **An attempt keeps what is on its way to a known mail.** -/
theorem settling_attempt {s : System} (hqueue : QueueInv s) {accountID : Nat}
    {x : Imap.Exchange} {op : WritebackOp} {rest : List WritebackOp}
    (hok : flagsKept s (.attempt accountID x) = true)
    (hwork : (s.runners accountID).work = op :: rest) {p : Place} {wanted : MailFlag → Bool}
    (hknown : p.uid < (s.boxes p.accountID p.path).uidNext)
    (h : Settling s.boxes s.db.ops.rows p wanted) :
    Settling (s.attempt accountID op rest x).boxes (s.attempt accountID op rest x).db.ops.rows
      p wanted := by
  obtain ⟨haccount, hop⟩ := hqueue.work accountID op (by rw [hwork]; exact List.mem_cons_self)
  subst haccount
  cases x with
  | ok =>
      simp only [flagsKept, hwork, Bool.and_eq_true] at hok
      exact settling_goes hop hok.2 hknown h
  | broke done hit =>
      simp only [flagsKept, noGiveUp, hwork, Bool.and_true] at hok
      by_cases hnil : opUIDs op = []
      · simp only [System.attempt, if_pos hnil]
        rw [runCommands_of_nil hnil _ .ok]
        exact settling_goes hop (inTurn_of_nil hnil) hknown h
      · simp only [System.attempt, if_neg hnil]
        exact settling_fails hop (settle_failed (by simpa using hok)) hknown h

/-- Attempts change no row of a folder. -/
theorem getByID_attempt (s : System) (accountID : Nat) (op : WritebackOp)
    (rest : List WritebackOp) (x : Imap.Exchange) (id : Nat) :
    Folder.Repository.getByID (s.attempt accountID op rest x).db id
      = Folder.Repository.getByID s.db id := by
  unfold Folder.Repository.getByID System.attempt
  rw [settle_folders]

theorem messages_attempt (s : System) (accountID : Nat) (op : WritebackOp)
    (rest : List WritebackOp) (x : Imap.Exchange) :
    (s.attempt accountID op rest x).db.messages = s.db.messages :=
  settle_messages _ _ _ _

theorem uidNext_le_attempt (s : System) (accountID : Nat) (op : WritebackOp)
    (rest : List WritebackOp) (x : Imap.Exchange) (accountID' : Nat) (path : Text) :
    (s.boxes accountID' path).uidNext
      ≤ ((s.attempt accountID op rest x).boxes accountID' path).uidNext := by
  unfold System.attempt
  by_cases hacc : accountID' = accountID
  · subst hacc
    simp only [Function.update_self]
    exact Imap.uidNext_le_runCommands _ _ _ _
  · simp only [Function.update_of_ne hacc]
    exact Nat.le_refl _

theorem flagsInv_attempt {s : System} (h : FlagsInv s) {accountID : Nat} {x : Imap.Exchange}
    {op : WritebackOp} {rest : List WritebackOp}
    (hok : flagsKept s (.attempt accountID x) = true)
    (hwork : (s.runners accountID).work = op :: rest)
    (hqueue : QueueInv (s.attempt accountID op rest x)) :
    FlagsInv (s.attempt accountID op rest x) := by
  refine ⟨hqueue, fun m hm src hsrc => ?_, fun m hm src hsrc => ?_⟩
  · rw [messages_attempt] at hm
    rw [getByID_attempt] at hsrc
    exact Nat.lt_of_lt_of_le (h.known m hm src hsrc) (uidNext_le_attempt _ _ _ _ _ _ _)
  · rw [messages_attempt] at hm
    rw [getByID_attempt] at hsrc
    exact settling_attempt h.queue hok hwork (p := placeOf m src) (h.known m hm src hsrc)
      (h.settling m hm src hsrc)

/-! ### The result -/

theorem flagsInv_step {s t : System} {l : Label} (h : FlagsInv s) (hok : flagsKept s l = true)
    (hstep : s.step l = some t) : FlagsInv t := by
  have hqueue := queueInv_step h.queue hstep
  rcases step_cases hstep with ⟨o, c, rfl⟩ | ⟨accountID, x, op, rest, rfl, hwork, rfl⟩ |
    ⟨hdb, hboxes, -⟩
  · exact flagsInv_user h hstep
  · exact flagsInv_attempt h hok hwork hqueue
  · refine ⟨hqueue, ?_, ?_⟩
    · unfold KnownUIDs
      rw [hdb, hboxes]
      exact h.known
    · rw [hdb, hboxes]
      exact h.settling

/-- **While rows go through in turn, the server ends with the flags the user set last.** -/
theorem flagsAgree_of_run {s t : System}
    (h : Run System.step (fun s l => flagsKept s l = true) s t) (hs : Settled s)
    (hempty : t.db.ops.rows = []) : FlagsAgree t :=
  (h.invariant (fun _ _ _ hinv hok hstep => flagsInv_step hinv hok hstep) hs.inv).agree hempty

/-! ### An older row that is tried again

One unread mail in the inbox, marked as read and at once as unread again.  The first
attempt at the older row fails, so it waits; the newer one goes through; then the older
one is due and goes through as well.
-/

private def inboxMail : Message := .bare 1 1 1 (.numbered 7)

private def inboxAtRest : System where
  db := ⟨.single inboxMail, .single (.bare 1 1 "INBOX".toList .inbox), .empty⟩
  boxes := fun _ _ => ⟨[⟨1, 7, false, false, false, false, ⟨[], [], [], [], [], [], [], 0, 0⟩⟩], 8⟩
  canMove := fun _ => true
  runners := fun _ => ⟨[], []⟩
  now := 1
  moved := []

private theorem inboxAtRest_settled : Settled inboxAtRest := by
  refine ⟨?_, rfl, fun _ => rfl, ?_, ?_⟩
  · intro m hm
    rw [List.mem_singleton.mp hm]
    exact ⟨_, List.mem_singleton.mpr rfl, rfl, rfl⟩
  · intro m hm src _
    rw [List.mem_singleton.mp hm]
    show 7 < 8
    omega
  · intro m hm src _ r hr _
    rw [List.mem_singleton.mp hm, List.mem_singleton.mp hr]
    exact ⟨rfl, rfl⟩

private def firstOrder : Order := ⟨fun _ _ => 0, fun _ _ => 0⟩

/-- A row that goes through at once, and the flags agree. -/
theorem flagsAgree_of_run_inbox : ∃ t, exec System.step flagsKept inboxAtRest
    [.user firstOrder (.batchSetRead [1] true), .next 1, .attempt 1 .ok] = some t ∧
      t.db.messages.rows.map Message.seen = [true] ∧ FlagsAgree t := by
  have hview : (exec System.step flagsKept inboxAtRest
      [.user firstOrder (.batchSetRead [1] true), .next 1, .attempt 1 .ok]).map (fun t =>
        (t.db.ops.rows, t.db.messages.rows.map Message.seen)) = some ([], [true]) := rfl
  obtain ⟨t, ht, heq⟩ := Option.map_eq_some_iff.mp hview
  obtain ⟨hempty, hseen⟩ := Prod.mk.inj heq
  exact ⟨t, ht, hseen, flagsAgree_of_run (Run.ofExec _ ht) inboxAtRest_settled hempty⟩

/-- **The older of two changes can be the one the server ends with.** -/
theorem older_flag_wins : ¬ ∀ s t : System,
    Run System.step (fun s l => noGiveUp s l = true) s t → Settled s →
      t.db.ops.rows = [] → FlagsAgree t := by
  intro h
  have hview : (exec System.step noGiveUp inboxAtRest
      [.user firstOrder (.batchSetRead [1] true), .user firstOrder (.batchSetRead [1] false),
        .next 1, .attempt 1 (.broke 0 fun _ => false), .next 1, .attempt 1 .ok, .tick 60, .poll 1,
        .attempt 1 .ok]).map (fun t =>
      (t.db.ops.rows, t.db.messages.rows, (Folder.Repository.getByID t.db 1).map Folder.path,
        (t.boxes 1 "INBOX".toList).mails.map fun r => (r.uid, r.seen)))
      = some ([], [inboxMail], some "INBOX".toList, [(7, true)]) := rfl
  obtain ⟨t, ht, heq⟩ := Option.map_eq_some_iff.mp hview
  simp only [Prod.mk.injEq] at heq
  obtain ⟨hempty, hrows, hfolder, hmails⟩ := heq
  obtain ⟨src, hsrc, hpath⟩ := Option.map_eq_some_iff.mp hfolder
  have hagree := h inboxAtRest t (Run.ofExec _ ht) inboxAtRest_settled hempty
  have hmem : (7, true) ∈ (t.boxes 1 "INBOX".toList).mails.map fun r => (r.uid, r.seen) := by
    rw [hmails]
    exact List.mem_singleton.mpr rfl
  obtain ⟨r, hr, hpair⟩ := List.mem_map.mp hmem
  obtain ⟨huid, hseen⟩ := Prod.mk.inj hpair
  have hflag := hagree inboxMail (by rw [hrows]; exact List.mem_singleton.mpr rfl) src hsrc r
    (by rw [hpath]; exact hr) huid
  rw [hseen] at hflag
  cases hflag.1

end FlyMail.Sync
