/-
Moved mails: where they end up, and with which flags.

A call that moves a mail takes its row away and queues the move.  Until that goes through
the mail is still where it was, under a UID that queued flag changes may be about as well.
Once it has gone through the UID is gone, and a flag change that comes to it later changes
nothing and counts as done.  So the flags have to be there first.

A server without `MOVE` needs three commands for a move.  When the exchange breaks off
between them the mail can be in both places, and the next attempt copies it again.
-/
import FlyMail.Proofs.Flags

namespace FlyMail.Sync

/-! ### Statement -/

/-- What the user had set. -/
def Moved.wanted (e : Moved) : MailFlag → Bool
  | .seen => e.seen
  | .flagged => e.flagged

/-- The mail is in its account exactly once, where it was to go, with the user's flags. -/
structure Arrived (s : System) (e : Moved) : Prop where
  once : ∀ path, ((s.boxes e.accountID path).mails.filter fun r => r.serial == e.serial).length
    = if path = e.target then 1 else 0
  flags : ∀ r ∈ (s.boxes e.accountID e.target).mails, r.serial = e.serial →
    r.seen = e.seen ∧ r.flagged = e.flagged

/-- The mail is there, and nobody has marked it for `EXPUNGE`. -/
def Holds (boxes : Nat → Imap.Boxes) (p : Place) (serial : Nat) : Prop :=
  ∃ r ∈ (boxes p.accountID p.path).mails,
    r.uid = p.uid ∧ r.serial = serial ∧ r.deleted = false

/-- Nothing is under way, every mail is in one place, and every row has its mail. -/
structure Orderly (s : System) : Prop where
  settled : Settled s
  sound : ∀ accountID, Imap.Sound (s.boxes accountID)
  held : ∀ m ∈ s.db.messages.rows, ∀ src,
    Folder.Repository.getByID s.db m.folderID = some src →
      ∃ serial, Holds s.boxes (placeOf m src) serial
  fresh : s.moved = []

/-- No row queued for a flag of the mail would still change it. -/
def flagsDone (ops : List WritebackOp) (p : Place) (r : Imap.Mail) : Bool :=
  [MailFlag.seen, MailFlag.flagged].all fun flag =>
    latest (pendingFlag ops p flag) (r.has flag.wire) == r.has flag.wire

/-- The attempt moves no mail whose flags are still on their way, and leaves none in two
places. -/
def movesMails (s : System) (accountID : Nat) (op : WritebackOp) (x : Imap.Exchange) : Bool :=
  op.op != .move ||
    (s.boxes accountID op.folderPath).mails.all fun r =>
      !(opUIDs op).contains r.uid ||
        (x.leavesOne (s.canMove accountID) r.uid &&
          (!x.reached r.uid || flagsDone s.db.ops.rows ⟨accountID, op.folderPath, r.uid⟩ r))

/-- What is asked of a step. -/
def movesKept (s : System) (l : Label) : Bool :=
  flagsKept s l &&
    match l with
    | .attempt accountID x =>
        match (s.runners accountID).work with
        | op :: _ => movesMails s accountID op x
        | [] => true
    | _ => true

theorem movesMails_spec {s : System} {accountID : Nat} {op : WritebackOp} {x : Imap.Exchange}
    (h : movesMails s accountID op x = true) (hop : op.op = .move) :
    ∀ r ∈ (s.boxes accountID op.folderPath).mails, r.uid ∈ opUIDs op →
      x.leavesOne (s.canMove accountID) r.uid = true ∧ (x.reached r.uid = true →
        flagsDone s.db.ops.rows ⟨accountID, op.folderPath, r.uid⟩ r = true) := by
  intro r hr huid
  unfold movesMails at h
  rw [hop, bne_self_eq_false, Bool.false_or] at h
  have hmail := List.all_eq_true.mp h r hr
  have hcontains : (opUIDs op).contains r.uid = true := List.contains_iff_mem.mpr huid
  rw [hcontains, Bool.not_true, Bool.false_or, Bool.and_eq_true] at hmail
  refine ⟨hmail.1, fun hreached => ?_⟩
  rw [hreached, Bool.not_true, Bool.false_or] at hmail
  exact hmail.2

/-! ### The invariant -/

/-- The verb takes mails away. -/
def WbOp.removes : WbOp → Bool
  | .move => true
  | .expunge => true
  | _ => false

/-- A row is queued that moves the mail at `p` to `target`, and none that does otherwise. -/
structure Bound (ops : List WritebackOp) (p : Place) (target : Text) : Prop where
  queued : ∃ o ∈ ops, p.coveredBy o = true ∧ o.op = .move
  only : ∀ o ∈ ops, p.coveredBy o = true → WbOp.removes o.op = true →
    o.op = .move ∧ o.targetPath = target

/-- No row is about the place. -/
def NoRow (db : DB) (p : Place) : Prop :=
  ∀ m ∈ db.messages.rows, ∀ src, Folder.Repository.getByID db m.folderID = some src →
    placeOf m src ≠ p

/-- The moved mail is at `p`: it has arrived, or it is bound for where it is to go. -/
structure Underway (s : System) (e : Moved) (p : Place) : Prop where
  account : p.accountID = e.accountID
  holds : Holds s.boxes p e.serial
  settling : Settling s.boxes s.db.ops.rows p e.wanted
  noRow : NoRow s.db p
  bound : (p.path = e.target ∧ ∀ o ∈ s.db.ops.rows, p.coveredBy o = false) ∨
    Bound s.db.ops.rows p e.target

structure MovesInv (s : System) : Prop where
  flags : FlagsInv s
  sound : ∀ accountID, Imap.Sound (s.boxes accountID)
  /-- A queued row moves to another mailbox, and is about UIDs handed out. -/
  ops : ∀ o ∈ s.db.ops.rows, (o.op = .move → o.targetPath ≠ o.folderPath) ∧
    ∀ p : Place, p.coveredBy o = true → p.uid < (s.boxes p.accountID p.path).uidNext
  /-- A row's mail is there, and nothing is queued that takes it away. -/
  rows : ∀ m ∈ s.db.messages.rows, ∀ src,
    Folder.Repository.getByID s.db m.folderID = some src →
      (∃ serial, Holds s.boxes (placeOf m src) serial) ∧
        ∀ o ∈ s.db.ops.rows, (placeOf m src).coveredBy o = true → WbOp.removes o.op = false
  moved : ∀ e ∈ s.moved, ∃ p, Underway s e p

theorem Orderly.inv {s : System} (h : Orderly s) : MovesInv s := by
  refine ⟨h.settled.inv, h.sound, ?_, ?_, ?_⟩
  · intro o ho
    rw [h.settled.empty] at ho
    exact absurd ho List.not_mem_nil
  · intro m hm src hsrc
    refine ⟨h.held m hm src hsrc, fun o ho => ?_⟩
    rw [h.settled.empty] at ho
    exact absurd ho List.not_mem_nil
  · intro e he
    rw [h.fresh] at he
    exact absurd he List.not_mem_nil

/-- With nothing queued for the account, a mail under way has arrived. -/
theorem Underway.arrived {s : System} (h : MovesInv s) {e : Moved} {p : Place}
    (hu : Underway s e p) (hempty : ∀ o ∈ s.db.ops.rows, o.accountID ≠ e.accountID) :
    Arrived s e := by
  have hsound := h.sound e.accountID
  have hnone : ∀ o ∈ s.db.ops.rows, p.coveredBy o = false := by
    intro o ho
    have hne := hempty o ho
    rw [← hu.account] at hne
    simp [Place.coveredBy, hne]
  have hpath : p.path = e.target := by
    rcases hu.bound with ⟨hpath, -⟩ | hbound
    · exact hpath
    · obtain ⟨o, ho, hc, -⟩ := hbound.queued
      rw [hnone o ho] at hc
      cases hc
  obtain ⟨r, hr, huid, hserial, -⟩ := hu.holds
  rw [hu.account, hpath] at hr
  have hself : ∀ path, ∀ r' ∈ (s.boxes e.accountID path).mails, r'.serial = e.serial →
      path = e.target ∧ r'.uid = r.uid := fun path r' hr' hs =>
    hsound.serials path e.target r' hr' r hr (hs.trans hserial.symm)
  refine ⟨fun path => ?_, fun r' hr' hs => ?_⟩
  · by_cases hp : path = e.target
    · subst hp
      rw [if_pos rfl, ← List.countP_eq_length_filter]
      have hcount : (s.boxes e.accountID e.target).mails.countP (fun r => r.serial == e.serial)
          = ((s.boxes e.accountID e.target).mails.map Imap.Mail.serial).count e.serial := by
        rw [List.count, List.countP_map]
        rfl
      rw [hcount]
      refine List.count_eq_one_of_mem (hsound.nodup_serials _) ?_
      exact List.mem_map.mpr ⟨r, hr, hserial⟩
    · rw [if_neg hp, List.length_eq_zero_iff, List.filter_eq_nil_iff]
      intro r' hr' hs
      exact hp (hself path r' hr' (by simpa using hs)).1
  · have hpending : ∀ flag, pendingFlag s.db.ops.rows p flag = [] := by
      intro flag
      refine List.eq_nil_iff_forall_not_mem.mpr fun v hv => ?_
      obtain ⟨o, ho, hc, -⟩ := mem_pendingFlag.mp hv
      rw [hnone o ho] at hc
      cases hc
    have hflag := hu.settling r' (by rw [hu.account, hpath]; exact hr')
      ((hself e.target r' hr' hs).2.trans huid)
    have hseen := hflag .seen
    have hflagged := hflag .flagged
    rw [hpending, latest_nil] at hseen hflagged
    exact ⟨hseen, hflagged⟩

/-! ### An attempt keeps it -/

theorem removes_flagOp (flag : MailFlag) (on : Bool) : WbOp.removes (flagOp flag on) = false := by
  cases flag <;> cases on <;> rfl

/-- What a row's commands leave alone: mails it is not about, and all mails if it only sets
a flag. -/
theorem spares_of_applyWriteback {canMove : Bool} {op : WritebackOp} {path : Text} {uid : Nat}
    (h : path = op.folderPath → uid ∈ opUIDs op → WbOp.removes op.op = false) :
    ∀ c ∈ applyWriteback canMove op, c.spares op.folderPath path uid := by
  rcases WbOp.flag_or_removal op.op with ⟨flag, on, hop⟩ | hop
  · rw [applyWriteback_flag hop]
    intro c hc
    unfold Imap.storeFlags at hc
    split at hc
    · exact absurd hc List.not_mem_nil
    · rw [List.mem_singleton.mp hc]
      cases flag <;> exact trivial
  · have hout : path = op.folderPath → uid ∉ opUIDs op := by
      intro hpath huid
      have hflag := h hpath huid
      rcases hop with hop | hop <;> rw [hop] at hflag <;> cases hflag
    have hdelete : ∀ c ∈ Imap.delete (opUIDs op), c.spares op.folderPath path uid := by
      intro c hc
      unfold Imap.delete Imap.storeFlags at hc
      split at hc
      · rw [List.mem_singleton.mp hc]
        exact trivial
      · rcases List.mem_cons.mp hc with rfl | hc
        · exact hout
        · rw [List.mem_singleton.mp hc]
          exact trivial
    intro c hc
    unfold applyWriteback at hc
    dsimp only at hc
    by_cases hnil : opUIDs op = []
    · rw [if_pos hnil] at hc
      exact absurd hc List.not_mem_nil
    rw [if_neg hnil] at hc
    rcases hop with hop | hop
    · rw [hop] at hc
      unfold Imap.move at hc
      rw [if_neg hnil] at hc
      by_cases hmove : canMove = true
      · rw [if_pos hmove] at hc
        rw [List.mem_singleton.mp hc]
        exact hout
      · rw [if_neg hmove] at hc
        rcases List.mem_cons.mp hc with rfl | hc
        · exact trivial
        · exact hdelete c hc
    · rw [hop] at hc
      exact hdelete c hc

theorem applyWriteback_move {canMove : Bool} {op : WritebackOp} (hop : op.op = .move)
    (hnil : opUIDs op ≠ []) :
    applyWriteback canMove op = Imap.move canMove op.targetPath (opUIDs op) := by
  rw [applyWriteback, if_neg hnil, hop]

/-- All rows but moves change mails where they are. -/
theorem inPlace_of_applyWriteback {canMove : Bool} {op : WritebackOp} (hop : op.op ≠ .move) :
    ∀ c ∈ applyWriteback canMove op, c.inPlace = true := by
  have hstore : ∀ {uids : List Nat} {flag : Imap.Flag} {on : Bool},
      ∀ c ∈ Imap.storeFlags uids flag on, c.inPlace = true := by
    intro uids flag on c hc
    unfold Imap.storeFlags at hc
    split at hc
    · exact absurd hc List.not_mem_nil
    · rw [List.mem_singleton.mp hc]
      rfl
  intro c hc
  rcases WbOp.flag_or_removal op.op with ⟨flag, on, hflag⟩ | hmove | hexpunge
  · rw [applyWriteback_flag hflag] at hc
    exact hstore c hc
  · exact absurd hmove hop
  · by_cases hnil : opUIDs op = []
    · rw [applyWriteback, if_pos hnil] at hc
      exact absurd hc List.not_mem_nil
    · rw [applyWriteback, if_neg hnil, hexpunge] at hc
      rcases List.mem_append.mp hc with hc | hc
      · exact hstore c hc
      · rw [List.mem_singleton.mp hc]
        rfl

theorem mem_opUIDs_of_coveredBy {p : Place} {o : WritebackOp} (h : p.coveredBy o = true) :
    o.accountID = p.accountID ∧ o.folderPath = p.path ∧ p.uid ∈ opUIDs o := by
  unfold Place.coveredBy at h
  simp only [Bool.and_eq_true, beq_iff_eq, List.contains_iff_mem] at h
  exact ⟨h.1.1, h.1.2, h.2⟩

section Attempt

variable {s : System} {accountID : Nat} {op : WritebackOp} {rest : List WritebackOp}
  {x : Imap.Exchange}

/-- A mail the row does not take away is still there. -/
theorem holds_attempt {p : Place} {serial : Nat} (h : Holds s.boxes p serial)
    (haccount : op.accountID = accountID)
    (hkeep : p.coveredBy op = true → WbOp.removes op.op = false) :
    Holds (s.attempt accountID op rest x).boxes p serial := by
  obtain ⟨r, hr, huid, hserial, hdeleted⟩ := h
  unfold Holds System.attempt
  by_cases hacc : p.accountID = accountID
  · rw [hacc] at hr
    have hspare : ∀ c ∈ applyWriteback (s.canMove accountID) op,
        c.spares op.folderPath p.path r.uid := by
      refine spares_of_applyWriteback fun hpath hmem => hkeep ?_
      unfold Place.coveredBy
      simp [hacc, haccount, hpath, ← huid, hmem]
    obtain ⟨r', hr', huid', hserial', hdeleted'⟩ :=
      Imap.exists_mem_runCommands (x := x) hr hdeleted hspare
    refine ⟨r', ?_, huid'.trans huid, hserial'.trans hserial, hdeleted'⟩
    simp only [hacc, Function.update_self]
    exact hr'
  · refine ⟨r, ?_, huid, hserial, hdeleted⟩
    simp only [Function.update_of_ne hacc]
    exact hr

/-- A row queued after the attempt was queued before. -/
theorem exists_of_mem_attempt {o : WritebackOp}
    (ho : o ∈ (s.attempt accountID op rest x).db.ops.rows) :
    ∃ o₀ ∈ s.db.ops.rows, core o₀ = core o :=
  exists_of_mem_settle ho

/-- The mails of a server are each in one place after the attempt as well. -/
theorem sound_attempt (h : MovesInv s) (hwork : (s.runners accountID).work = op :: rest)
    (hok : movesKept s (.attempt accountID x) = true) (accountID' : Nat) :
    Imap.Sound ((s.attempt accountID op rest x).boxes accountID') := by
  obtain ⟨-, row, hrow, hcore⟩ :=
    h.flags.queue.work accountID op (by rw [hwork]; exact List.mem_cons_self)
  obtain ⟨-, -, hpath, hverb, htarget, -⟩ := eq_of_core hcore
  unfold System.attempt
  by_cases hacc : accountID' = accountID
  · simp only [hacc, Function.update_self]
    have hsound := h.sound accountID
    by_cases hop : op.op = .move
    · by_cases hnil : opUIDs op = []
      · rw [applyWriteback, if_pos hnil]
        exact hsound
      · rw [applyWriteback_move hop hnil]
        have hne : op.targetPath ≠ op.folderPath := by
          rw [← htarget, ← hpath]
          exact (h.ops row hrow).1 (hverb.trans hop)
        simp only [movesKept, hwork, Bool.and_eq_true] at hok
        have hmails := movesMails_spec hok.2 hop
        exact (Imap.move_spec hsound hne hnil fun r hr huid => (hmails r hr huid).1).1
    · exact Imap.sound_runCommands (inPlace_of_applyWriteback hop) hsound
  · simp only [Function.update_of_ne hacc]
    exact h.sound accountID'

theorem known_of_holds (h : MovesInv s) {p : Place} {serial : Nat}
    (hp : Holds s.boxes p serial) : p.uid < (s.boxes p.accountID p.path).uidNext := by
  obtain ⟨r, hr, huid, -, -⟩ := hp
  rw [← huid]
  exact (h.sound p.accountID).old p.path r hr

theorem noRow_attempt {p : Place} (h : NoRow s.db p) :
    NoRow (s.attempt accountID op rest x).db p := by
  intro m hm src hsrc
  rw [messages_attempt] at hm
  rw [getByID_attempt] at hsrc
  exact h m hm src hsrc

/-- A row that fails and is not given up is still queued. -/
theorem exists_mem_attempt (accountID : Nat) (rest : List WritebackOp) (done : Nat)
    (hit : Nat → Bool) (hop : ∃ row ∈ s.db.ops.rows, core row = core op) (hnil : opUIDs op ≠ [])
    (hlimit : atLimit s.db op = false) :
    ∃ row ∈ (s.attempt accountID op rest (.broke done hit)).db.ops.rows, core row = core op := by
  obtain ⟨row, hrow, hcore⟩ := hop
  have hmap : (s.attempt accountID op rest (.broke done hit)).db.ops.rows.map core
      = s.db.ops.rows.map core := by
    simp only [System.attempt, if_neg hnil]
    exact settle_failed hlimit
  have hmem : core op ∈ s.db.ops.rows.map core := List.mem_map.mpr ⟨row, hrow, hcore⟩
  rw [← hmap] at hmem
  exact List.mem_map.mp hmem

/-- A mail under way, and a row that does not take it away. -/
theorem underway_stays (h : MovesInv s) (hwork : (s.runners accountID).work = op :: rest)
    (hok : flagsKept s (.attempt accountID x) = true) {e : Moved} {p : Place}
    (hu : Underway s e p) (hkeep : p.coveredBy op = true → WbOp.removes op.op = false) :
    Underway (s.attempt accountID op rest x) e p := by
  obtain ⟨haccount, row, hrow, hcore⟩ :=
    h.flags.queue.work accountID op (by rw [hwork]; exact List.mem_cons_self)
  refine ⟨hu.account, holds_attempt hu.holds haccount hkeep,
    settling_attempt h.flags.queue hok hwork (known_of_holds h hu.holds) hu.settling,
    noRow_attempt hu.noRow, ?_⟩
  rcases hu.bound with ⟨hpath, hnone⟩ | hbound
  · refine Or.inl ⟨hpath, fun o ho => ?_⟩
    obtain ⟨o₀, ho₀, hcore₀⟩ := exists_of_mem_attempt ho
    rw [← coveredBy_of_core hcore₀]
    exact hnone o₀ ho₀
  · refine Or.inr ⟨?_, fun o ho hc hremoves => ?_⟩
    · obtain ⟨o, ho, hc, hmove⟩ := hbound.queued
      refine ⟨o, (mem_settle_of_ne fun hid => ?_).mpr ho, hc, hmove⟩
      -- The row that moves the mail is not the one that was executed.
      have hself : o = row := s.db.ops.eq_of_pk ho hrow (hid.trans (eq_of_core hcore).1.symm)
      subst hself
      have hflag := hkeep (by rw [← coveredBy_of_core hcore]; exact hc)
      rw [← (eq_of_core hcore).2.2.2.1, hmove] at hflag
      cases hflag
    · obtain ⟨o₀, ho₀, hcore₀⟩ := exists_of_mem_attempt ho
      obtain ⟨-, -, -, hverb, htarget, -⟩ := eq_of_core hcore₀
      rw [← hverb, ← htarget]
      rw [← coveredBy_of_core hcore₀] at hc
      rw [← hverb] at hremoves
      exact hbound.only o₀ ho₀ hc hremoves

/-- A mail under way, and the row that moves it. -/
theorem underway_moves (h : MovesInv s) (hwork : (s.runners accountID).work = op :: rest)
    (hok : movesKept s (.attempt accountID x) = true) {e : Moved} {p : Place}
    (hu : Underway s e p) (hc : p.coveredBy op = true) (hremoves : WbOp.removes op.op = true) :
    ∃ p', Underway (s.attempt accountID op rest x) e p' := by
  obtain ⟨haccount, hop⟩ :=
    h.flags.queue.work accountID op (by rw [hwork]; exact List.mem_cons_self)
  obtain ⟨row, hrow, hcore⟩ := hop
  obtain ⟨-, -, hpath, hverb, htarget, -⟩ := eq_of_core hcore
  have hcrow : p.coveredBy row = true := by
    rw [coveredBy_of_core hcore]
    exact hc
  have hbound : Bound s.db.ops.rows p e.target := by
    refine hu.bound.resolve_left fun hleft => ?_
    rw [hleft.2 row hrow] at hcrow
    cases hcrow
  obtain ⟨hmove, hto⟩ := hbound.only row hrow hcrow (by rw [hverb]; exact hremoves)
  obtain ⟨hacc, hfolder, huidmem⟩ := mem_opUIDs_of_coveredBy hc
  have hpacc : p.accountID = accountID := hacc.symm.trans haccount
  have hnil : opUIDs op ≠ [] := List.ne_nil_of_mem huidmem
  have hopmove : op.op = .move := hverb.symm.trans hmove
  have hne : op.targetPath ≠ op.folderPath := by
    rw [← htarget, ← hpath]
    exact (h.ops row hrow).1 hmove
  have hboth := hok
  simp only [movesKept, hwork, Bool.and_eq_true] at hboth
  have hmails := movesMails_spec hboth.2 hopmove
  obtain ⟨r, hr, huid, hserial, hdeleted⟩ := hu.holds
  rw [hpacc, ← hfolder] at hr
  have hmem : r.uid ∈ opUIDs op := huid ▸ huidmem
  obtain ⟨hsound', hspec⟩ := Imap.move_spec (h.sound accountID) hne hnil
    fun r hr huid => (hmails r hr huid).1
  have hmail := hspec r hr hmem
  have hboxes : (s.attempt accountID op rest x).boxes accountID
      = Imap.runCommands op.folderPath (Imap.move (s.canMove accountID) op.targetPath (opUIDs op))
          x (s.boxes accountID) := by
    unfold System.attempt
    rw [applyWriteback_move hopmove hnil]
    exact Function.update_self _ _ _
  by_cases hreached : x.reached r.uid = true
  · -- It has arrived.
    rw [if_pos hreached] at hmail
    obtain ⟨r', hr', hnew, heq⟩ := hmail
    have hfresh : ∀ o ∈ s.db.ops.rows,
        (⟨accountID, op.targetPath, r'.uid⟩ : Place).coveredBy o = false := by
      intro o ho
      by_contra hcover
      have := (h.ops o ho).2 _ (Bool.not_eq_false _ ▸ hcover)
      dsimp only at this
      omega
    have hnone : ∀ o ∈ (s.attempt accountID op rest x).db.ops.rows,
        (⟨accountID, op.targetPath, r'.uid⟩ : Place).coveredBy o = false := by
      intro o ho
      obtain ⟨o₀, ho₀, hcore₀⟩ := exists_of_mem_attempt ho
      rw [← coveredBy_of_core hcore₀]
      exact hfresh o₀ ho₀
    refine ⟨⟨accountID, op.targetPath, r'.uid⟩, hpacc.symm.trans hu.account, ?_, ?_, ?_, ?_⟩
    · refine ⟨r', ?_, rfl, ?_, ?_⟩
      · dsimp only
        rw [hboxes]
        exact hr'
      · rw [heq]
        exact hserial
      · rw [heq]
        exact hdeleted
    · intro r₂ hr₂ huid₂ flag
      dsimp only at hr₂ huid₂
      rw [hboxes] at hr₂
      rw [hsound'.eq_of_uid hr₂ hr' huid₂]
      have hpending : pendingFlag (s.attempt accountID op rest x).db.ops.rows
          ⟨accountID, op.targetPath, r'.uid⟩ flag = [] := by
        refine List.eq_nil_iff_forall_not_mem.mpr fun v hv => ?_
        obtain ⟨o, ho, hcover, -⟩ := mem_pendingFlag.mp hv
        rw [hnone o ho] at hcover
        cases hcover
      rw [hpending, latest_nil]
      -- Its flags were there already.
      have hdone := List.all_eq_true.mp ((hmails r hr hmem).2 hreached) flag
        (by cases flag <;> simp)
      have hplace : (⟨accountID, op.folderPath, r.uid⟩ : Place) = p := by
        rw [hfolder, huid, ← hpacc]
      rw [hplace, beq_iff_eq] at hdone
      have hwanted := hu.settling r (by rw [hpacc, ← hfolder]; exact hr) huid flag
      rw [hdone] at hwanted
      rw [← hwanted, heq]
      cases flag <;> rfl
    · intro m hm src hsrc hplace
      rw [messages_attempt] at hm
      rw [getByID_attempt] at hsrc
      have hknown := h.flags.known m hm src hsrc
      obtain ⟨hacc₂, hpath₂, huid₂⟩ := Place.mk.inj hplace
      rw [hacc₂, hpath₂, huid₂] at hknown
      omega
    · refine Or.inl ⟨?_, hnone⟩
      rw [← htarget]
      exact hto
  · -- It is still where it was, and so is the row.
    rw [if_neg hreached] at hmail
    cases x with
    | ok => exact absurd rfl hreached
    | broke done hit =>
        have hkept := hboth.1
        simp only [flagsKept, noGiveUp, hwork, Bool.and_true] at hkept
        obtain ⟨row', hrow', hcore'⟩ := exists_mem_attempt accountID rest done hit
          ⟨row, hrow, hcore⟩ hnil (by simpa using hkept)
        refine ⟨p, hu.account, ⟨r, ?_, huid, hserial, hdeleted⟩,
          settling_attempt h.flags.queue hboth.1 hwork (known_of_holds h hu.holds) hu.settling,
          noRow_attempt hu.noRow, Or.inr ⟨⟨row', hrow', ?_, ?_⟩, fun o ho hco hrem => ?_⟩⟩
        · rw [hpacc, hboxes, ← hfolder]
          exact hmail
        · rw [coveredBy_of_core hcore']
          exact hc
        · rw [(eq_of_core hcore').2.2.2.1]
          exact hopmove
        · obtain ⟨o₀, ho₀, hcore₀⟩ := exists_of_mem_attempt ho
          obtain ⟨-, -, -, hverb₀, htarget₀, -⟩ := eq_of_core hcore₀
          rw [← hverb₀, ← htarget₀]
          rw [← coveredBy_of_core hcore₀] at hco
          rw [← hverb₀] at hrem
          exact hbound.only o₀ ho₀ hco hrem

theorem movesInv_attempt (h : MovesInv s) (hwork : (s.runners accountID).work = op :: rest)
    (hok : movesKept s (.attempt accountID x) = true)
    (hflags : FlagsInv (s.attempt accountID op rest x)) :
    MovesInv (s.attempt accountID op rest x) := by
  obtain ⟨haccount, row, hrow, hcore⟩ :=
    h.flags.queue.work accountID op (by rw [hwork]; exact List.mem_cons_self)
  have hkept : flagsKept s (.attempt accountID x) = true := by
    unfold movesKept at hok
    exact (Bool.and_eq_true_iff.mp hok).1
  refine ⟨hflags, sound_attempt h hwork hok, fun o ho => ?_, fun m hm src hsrc => ?_,
    fun e he => ?_⟩
  · obtain ⟨o₀, ho₀, hcore₀⟩ := exists_of_mem_attempt ho
    obtain ⟨-, -, hpath, hverb, htarget, -⟩ := eq_of_core hcore₀
    obtain ⟨hne, hknown⟩ := h.ops o₀ ho₀
    rw [← hverb, ← hpath, ← htarget]
    refine ⟨hne, fun p hc => ?_⟩
    rw [← coveredBy_of_core hcore₀] at hc
    exact Nat.lt_of_lt_of_le (hknown p hc) (uidNext_le_attempt _ _ _ _ _ _ _)
  · rw [messages_attempt] at hm
    rw [getByID_attempt] at hsrc
    obtain ⟨⟨serial, hholds⟩, hflag⟩ := h.rows m hm src hsrc
    refine ⟨⟨serial, holds_attempt hholds haccount fun hc => ?_⟩, fun o ho hc => ?_⟩
    · rw [← (eq_of_core hcore).2.2.2.1]
      exact hflag row hrow (by rw [coveredBy_of_core hcore]; exact hc)
    · obtain ⟨o₀, ho₀, hcore₀⟩ := exists_of_mem_attempt ho
      rw [← (eq_of_core hcore₀).2.2.2.1]
      exact hflag o₀ ho₀ (by rw [coveredBy_of_core hcore₀]; exact hc)
  · obtain ⟨p, hu⟩ := h.moved e he
    by_cases hcase : p.coveredBy op = true ∧ WbOp.removes op.op = true
    · exact underway_moves h hwork hok hu hcase.1 hcase.2
    · refine ⟨p, underway_stays h hwork hkept hu fun hc => ?_⟩
      rw [← Bool.not_eq_true]
      exact fun hremoves => hcase ⟨hc, hremoves⟩

end Attempt

/-! ### A call keeps it -/

section User

variable {s : System} {o : Order} {c : Call}

/-- A row the call queued is about mails of rows, and moves them to another mailbox. -/
theorem queuedBy_spec {db : DB} {row : WritebackOp} (h : QueuedBy o c db row) :
    (∀ p : Place, p.coveredBy row = true → ∃ m ∈ db.messages.rows, ∃ src,
      Folder.Repository.getByID db m.folderID = some src ∧ placeOf m src = p) ∧
      (row.op = .move → row.targetPath ≠ row.folderPath) ∧
      ∀ flag, WbOp.value row.op flag = (c.action db).sets flag := by
  obtain ⟨n, g, src, hplan, hsrc, haccount, hcore⟩ := h
  obtain ⟨-, hacc, hpath, hverb, htarget, -⟩ := eq_of_core hcore
  have hg := groupOK_of_mem_plan hplan
  refine ⟨fun p hc => ?_, fun hmove => ?_, fun flag => ?_⟩
  · rw [coveredBy_of_core hcore, coveredBy_of_group hg rfl rfl rfl] at hc
    obtain ⟨m, hm, hplace⟩ := hc
    exact ⟨m, hg.mem m hm, src, by rw [hg.folder m hm]; exact hsrc, hplace⟩
  · rw [hpath, htarget]
    rw [hverb] at hmove
    exact target_ne_of_mem_plan hplan hsrc haccount (Prod.ext hmove rfl)
  · rw [hverb]
    exact value_intended (c.action db) db g.accountID src flag

/-- A row that is left of `m` after a group was handled, or a row of the group. -/
theorem mem_change_or {a : Action} {ids : List Nat} {d : DB} {m : Message}
    (hm : m ∈ d.messages.rows) :
    (∃ m' ∈ (a.change ids d).messages.rows, m'.id = m.id) ∨ m.id ∈ ids := by
  by_cases hin : m.id ∈ ids
  · exact Or.inr hin
  · refine Or.inl ?_
    have hdelete : m ∈ (Message.Repository.deleteByIDs ids d).messages.rows :=
      Table.mem_delete.mpr ⟨hm, by simpa using hin⟩
    cases a with
    | delete => exact ⟨m, hdelete, rfl⟩
    | move target => exact ⟨m, hdelete, rfl⟩
    | set flag on =>
        refine ⟨m, ?_, rfl⟩
        show m ∈ (setFlagByIDs flag ids on d).messages.rows
        rw [setFlagByIDs_rows]
        exact List.mem_map.mpr ⟨m, hm, by rw [if_neg (by simpa using hin)]⟩

/-- An action whose verb takes mails away takes the rows away. -/
theorem notMem_change {a : Action} {db : DB} {accountID : Nat} {src : Folder} {ids : List Nat}
    {d : DB} {m : Message} (hverb : WbOp.removes (a.intended db accountID src).1 = true)
    (hm : m ∈ (a.change ids d).messages.rows) : m.id ∉ ids := by
  have hdelete : m ∈ (Message.Repository.deleteByIDs ids d).messages.rows → m.id ∉ ids := by
    intro hmem
    simpa using (Table.mem_delete.mp hmem).2
  cases a with
  | delete => exact hdelete hm
  | move target => exact hdelete hm
  | set flag on =>
      have hflag := removes_flagOp flag on
      rw [show (Action.intended (.set flag on) db accountID src).1 = flagOp flag on from rfl,
        hflag] at hverb
      cases hverb

/-- What becomes of one row in a call: rows queued to take its mail away have taken it away
themselves, with the verb and to the mailbox the action means for it; and if it is gone,
one is queued. -/
theorem row_of_run (now : Time) {db : DB} (hlinked : db.Linked) {m₀ : Message} {f : Folder}
    (hm₀ : m₀ ∈ db.messages.rows) (hf : Folder.Repository.getByID db m₀.folderID = some f) :
    let db' := (c.run o now (.faulty fun _ => .none) db).2
    ∃ new, db'.ops.rows = db.ops.rows ++ new ∧
      (∀ row ∈ new, (placeOf m₀ f).coveredBy row = true → WbOp.removes row.op = true →
        (row.op, row.targetPath) = (c.action db).intended db m₀.accountID f ∧
          ∀ m ∈ db'.messages.rows, m.id ≠ m₀.id) ∧
      ((∀ m ∈ db'.messages.rows, m.id ≠ m₀.id) →
        ∃ row ∈ new, (placeOf m₀ f).coveredBy row = true ∧
          (row.op, row.targetPath) = (c.action db).intended db m₀.accountID f) := by
  refine (run_calm o now c hlinked (P := fun messages ops =>
    ∃ new, ops.rows = db.ops.rows ++ new ∧
      (∀ row ∈ new, (placeOf m₀ f).coveredBy row = true → WbOp.removes row.op = true →
        (row.op, row.targetPath) = (c.action db).intended db m₀.accountID f ∧
          ∀ m ∈ messages.rows, m.id ≠ m₀.id) ∧
      ((∀ m ∈ messages.rows, m.id ≠ m₀.id) →
        ∃ row ∈ new, (placeOf m₀ f).coveredBy row = true ∧
          (row.op, row.targetPath) = (c.action db).intended db m₀.accountID f))
    ⟨[], by simp, by simp, fun h => absurd rfl (h m₀ hm₀)⟩ ?_).1
  intro n g src d d' _ hg hrows htouch h
  obtain ⟨new, hnew, htaken, hgone⟩ := h
  obtain ⟨due, hops⟩ := htouch.ops
  have hcover := coveredBy_queuedOp (o := { queuedOp db (c.action db) g src with
    id := d.ops.last + 1, nextAttemptAt := due }) hlinked hg htouch.found rfl rfl rfl hm₀ hf
  -- The group of the row is the rows of its folder.
  have hmine : m₀.id ∈ g.ids → src = f ∧ g.accountID = m₀.accountID := by
    intro hin
    obtain ⟨x, hx, hid⟩ := List.mem_map.mp hin
    have hxm : x = m₀ := db.messages.eq_of_pk (hg.mem x hx) hm₀ hid
    subst hxm
    have hfound := htouch.found
    rw [← hg.folder x hx, hf] at hfound
    exact ⟨(Option.some.inj hfound).symm, (hg.account x hx).symm⟩
  have hfewer : (∀ m ∈ d.messages.rows, m.id ≠ m₀.id) → ∀ m ∈ d'.messages.rows, m.id ≠ m₀.id := by
    intro hall m hm
    rw [htouch.messages] at hm
    obtain ⟨m₁, hm₁, hplain, -⟩ := exists_of_mem_change hm
    rw [(eq_of_msgPlain hplain).1]
    exact hall m₁ hm₁
  refine ⟨new ++ [_], by rw [hops, hnew, List.append_assoc], fun row hrow hc hremoves => ?_,
    fun hall => ?_⟩
  · rcases List.mem_append.mp hrow with hrow | hrow
    · obtain ⟨hverb, hall⟩ := htaken row hrow hc hremoves
      exact ⟨hverb, hfewer hall⟩
    · rw [List.mem_singleton.mp hrow] at hc hremoves ⊢
      have hin := hcover.mp hc
      obtain ⟨rfl, haccount⟩ := hmine hin
      refine ⟨by rw [← haccount]; rfl, fun m hm hid => ?_⟩
      rw [htouch.messages] at hm
      exact notMem_change hremoves hm (hid ▸ hin)
  · by_cases hbefore : ∀ m ∈ d.messages.rows, m.id ≠ m₀.id
    · obtain ⟨row, hrow, hrest⟩ := hgone hbefore
      exact ⟨row, List.mem_append.mpr (Or.inl hrow), hrest⟩
    · obtain ⟨m, hm, hid⟩ : ∃ m ∈ d.messages.rows, m.id = m₀.id := by
        by_contra hnone
        exact hbefore fun m hm hid => hnone ⟨m, hm, hid⟩
      have hin : m₀.id ∈ g.ids := by
        have hor : (∃ m' ∈ ((c.action db).change g.ids d).messages.rows, m'.id = m.id) ∨
            m.id ∈ g.ids := mem_change_or hm
        rcases hor with ⟨m', hm', hid'⟩ | hin
        · rw [← htouch.messages] at hm'
          exact absurd (hid'.trans hid) (hall m' hm')
        · exact hid ▸ hin
      obtain ⟨rfl, haccount⟩ := hmine hin
      refine ⟨_, List.mem_append.mpr (Or.inr (List.mem_singleton.mpr rfl)), hcover.mpr hin, ?_⟩
      rw [← haccount]
      rfl

/-- What a call leaves as it was for a place without a row. -/
structure Unmoved (s t : System) (p : Place) : Prop where
  boxes : t.boxes = s.boxes
  noRow : NoRow t.db p
  ops : ∃ new, t.db.ops.rows = s.db.ops.rows ++ new ∧ ∀ o ∈ new, p.coveredBy o = false

theorem Underway.of_unmoved {s t : System} {e : Moved} {p : Place} (hu : Underway s e p)
    (h : Unmoved s t p) : Underway t e p := by
  obtain ⟨new, hnew, hnone⟩ := h.ops
  have hpending : ∀ flag, pendingFlag t.db.ops.rows p flag = pendingFlag s.db.ops.rows p flag := by
    intro flag
    have hnil : pendingFlag new p flag = [] := by
      refine List.eq_nil_iff_forall_not_mem.mpr fun v hv => ?_
      obtain ⟨o, ho, hc, -⟩ := mem_pendingFlag.mp hv
      rw [hnone o ho] at hc
      cases hc
    rw [hnew, pendingFlag_append, hnil, List.append_nil]
  refine ⟨hu.account, ?_, ?_, h.noRow, ?_⟩
  · rw [h.boxes]
    exact hu.holds
  · intro r hr huid flag
    rw [h.boxes] at hr
    rw [hpending]
    exact hu.settling r hr huid flag
  · rw [hnew]
    rcases hu.bound with ⟨hpath, hall⟩ | hbound
    · refine Or.inl ⟨hpath, fun o ho => ?_⟩
      rcases List.mem_append.mp ho with ho | ho
      · exact hall o ho
      · exact hnone o ho
    · refine Or.inr ⟨?_, fun o ho hc hremoves => ?_⟩
      · obtain ⟨o, ho, hrest⟩ := hbound.queued
        exact ⟨o, List.mem_append.mpr (Or.inl ho), hrest⟩
      · rcases List.mem_append.mp ho with ho | ho
        · exact hbound.only o ho hc hremoves
        · rw [hnone o ho] at hc
          cases hc

/-- A row after a call is at the place of a row before it, which has its key. -/
theorem exists_row_before {db db' : DB} (hrows : RowsFrom db db') (hsame : SameFolders db db')
    {m : Message} (hm : m ∈ db'.messages.rows) {src : Folder}
    (hsrc : Folder.Repository.getByID db' m.folderID = some src) :
    ∃ m₀ ∈ db.messages.rows, ∃ f, Folder.Repository.getByID db m₀.folderID = some f ∧
      placeOf m₀ f = placeOf m src ∧ m₀.id = m.id := by
  obtain ⟨m₀, hm₀, hplain⟩ := hrows m hm
  obtain ⟨hid, hacc, hfolder, huid⟩ := eq_of_msgPlain hplain
  obtain ⟨f, hf, hpath⟩ := exists_folder_before hsame hsrc
  refine ⟨m₀, hm₀, f, hfolder ▸ hf, ?_, hid.symm⟩
  unfold placeOf
  rw [← hacc, hpath, ← huid]

/-- A mail the call moves is under way. -/
theorem underway_of_movedEntry (h : MovesInv s) {t : System} (hstep : s.step (.user o c) = some t)
    {m : Message} (hm : m ∈ s.db.messages.rows) (hgone : ∀ m' ∈ t.db.messages.rows, m'.id ≠ m.id)
    {e : Moved} (he : movedEntry s (c.action s.db) m = some e) : ∃ p, Underway t e p := by
  have hlinked := h.flags.queue.linked
  cases hstep
  have hcalm := run_calm o s.now c hlinked (P := fun _ _ => True) trivial
    (fun _ _ _ _ _ _ _ _ _ _ => trivial)
  obtain ⟨-, hsame, hrows⟩ := hcalm
  obtain ⟨⟨new, hnew, hqueued⟩, -⟩ := ops_of_run_calm o s.now c hlinked
  unfold movedEntry at he
  cases hsrc : Folder.Repository.getByID s.db m.folderID with
  | none => simp [hsrc] at he
  | some src =>
      obtain ⟨⟨serial, r₀, hr₀, huid₀, -, hdeleted⟩, hflagonly⟩ := h.rows m hm src hsrc
      obtain ⟨new', hnew', htaken, hcovered⟩ := row_of_run (c := c) (o := o) s.now hlinked hm hsrc
      have hnn : new' = new := List.append_cancel_left (hnew'.symm.trans hnew)
      subst hnn
      rw [hsrc] at he
      dsimp only at he
      cases hv : (c.action s.db).intended s.db m.accountID src with
      | mk verb target =>
        rw [hv] at he htaken hcovered
        cases verb with
        | move =>
            obtain ⟨r, hfind, rfl⟩ := Option.map_eq_some_iff.mp he
            have hr := List.mem_of_find?_eq_some hfind
            have huid : r.uid = m.uid.val := by
              simpa using List.find?_some hfind
            have hself : r = r₀ := (h.sound m.accountID).eq_of_uid hr hr₀ (huid.trans huid₀.symm)
            refine ⟨placeOf m src, rfl, ⟨r, hr, huid, rfl, by rw [hself]; exact hdeleted⟩,
              ?_, ?_, Or.inr ⟨?_, ?_⟩⟩
            · -- What is moved is not also flagged by the call.
              intro r' hr' huid' flag
              have hnil : pendingFlag new' (placeOf m src) flag = [] := by
                refine List.eq_nil_iff_forall_not_mem.mpr fun v hvm => ?_
                obtain ⟨row, hrow, -, hvalue⟩ := mem_pendingFlag.mp hvm
                rw [(queuedBy_spec (hqueued row hrow).2).2.2 flag] at hvalue
                rw [← value_intended (c.action s.db) s.db m.accountID src, hv] at hvalue
                cases flag <;> cases hvalue
              have hold := h.flags.settling m hm src hsrc r' hr' huid' flag
              dsimp only
              rw [hnew', pendingFlag_append, hnil, List.append_nil, hold]
              cases flag <;> rfl
            · intro m' hm' src' hsrc' hplace
              obtain ⟨m₀, hm₀, f, hf, hplace₀, hid⟩ := exists_row_before hrows hsame hm' hsrc'
              have hmm := eq_of_placeOf hlinked hm₀ hf hm hsrc (hplace₀.trans hplace)
              rw [hmm] at hid
              exact hgone m' hm' hid.symm
            · obtain ⟨row, hrow, hc, hverb⟩ := hcovered hgone
              refine ⟨row, ?_, hc, (Prod.mk.inj hverb).1⟩
              dsimp only
              rw [hnew']
              exact List.mem_append.mpr (Or.inr hrow)
            · intro row hrow hc hremoves
              dsimp only at hrow
              rw [hnew'] at hrow
              rcases List.mem_append.mp hrow with hrow | hrow
              · rw [hflagonly row hrow hc] at hremoves
                cases hremoves
              · exact Prod.mk.inj (htaken row hrow hc hremoves).1
        | _ => simp at he

/-- A row the call takes away to move its mail is recorded, as the user had left it. -/
theorem exists_moved_of_gone (h : MovesInv s) {t : System} (hstep : s.step (.user o c) = some t)
    {m : Message} (hm : m ∈ s.db.messages.rows) (hgone : ∀ m' ∈ t.db.messages.rows, m'.id ≠ m.id)
    {src : Folder} (hsrc : Folder.Repository.getByID s.db m.folderID = some src) {target : Text}
    (hv : (c.action s.db).intended s.db m.accountID src = (.move, target)) :
    ∃ e ∈ t.moved, e.accountID = m.accountID ∧ e.target = target ∧ e.wanted = MailFlag.of m ∧
      ∃ r ∈ (s.boxes m.accountID src.path).mails, r.uid = m.uid.val ∧ r.serial = e.serial := by
  cases hstep
  obtain ⟨⟨serial, r₀, hr₀, huid₀, -⟩, -⟩ := h.rows m hm src hsrc
  cases hfind : (s.boxes m.accountID src.path).mails.find? fun r => r.uid == m.uid.val with
  | none =>
      have hnone := List.find?_eq_none.mp hfind r₀ hr₀
      exact absurd (beq_iff_eq.mpr huid₀) hnone
  | some r =>
      have hentry : movedEntry s (c.action s.db) m
          = some ⟨m.accountID, src.path, m.uid, target, r.serial, m.seen, m.flagged⟩ := by
        unfold movedEntry
        simp only [hsrc, hv, hfind, Option.map_some]
      refine ⟨_, List.mem_append.mpr (Or.inr (List.mem_filterMap.mpr ⟨m, ?_, hentry⟩)), rfl, rfl,
        funext fun flag => by cases flag <;> rfl, r, List.mem_of_find?_eq_some hfind, ?_, rfl⟩
      · refine List.mem_filter.mpr ⟨hm, ?_⟩
        rw [Option.isNone_iff_eq_none, Table.get?_eq_none]
        exact hgone
      · simpa using List.find?_some hfind

theorem movesInv_user (h : MovesInv s) {t : System} (hstep : s.step (.user o c) = some t) :
    MovesInv t := by
  have hflags := flagsInv_user h.flags hstep
  have hentry := fun m hm hgone e he =>
    underway_of_movedEntry (o := o) (c := c) h hstep (m := m) hm hgone (e := e) he
  have hlinked := h.flags.queue.linked
  cases hstep
  have hcalm := run_calm o s.now c hlinked (P := fun _ _ => True) trivial
    (fun _ _ _ _ _ _ _ _ _ _ => trivial)
  obtain ⟨-, hsame, hrows⟩ := hcalm
  obtain ⟨⟨new, hnew, hqueued⟩, -⟩ := ops_of_run_calm o s.now c hlinked
  refine ⟨hflags, h.sound, fun row hrow => ?_, fun m hm src hsrc => ?_, fun e he => ?_⟩
  · dsimp only at hrow
    rw [hnew] at hrow
    rcases List.mem_append.mp hrow with hrow | hrow
    · exact h.ops row hrow
    · obtain ⟨hplaces, hmove, -⟩ := queuedBy_spec (hqueued row hrow).2
      refine ⟨hmove, fun p hc => ?_⟩
      obtain ⟨m, hm, src, hsrc, rfl⟩ := hplaces p hc
      exact h.flags.known m hm src hsrc
  · obtain ⟨m₀, hm₀, f, hf, hplace, hid⟩ := exists_row_before hrows hsame hm hsrc
    rw [← hplace]
    obtain ⟨hholds, hflagonly⟩ := h.rows m₀ hm₀ f hf
    refine ⟨hholds, fun row hrow hc => ?_⟩
    obtain ⟨new', hnew', htaken, -⟩ := row_of_run (c := c) (o := o) s.now hlinked hm₀ hf
    dsimp only at hrow
    rw [hnew'] at hrow
    rcases List.mem_append.mp hrow with hrow | hrow
    · exact hflagonly row hrow hc
    · rw [← Bool.not_eq_true]
      intro hremoves
      exact (htaken row hrow hc hremoves).2 m hm hid.symm
  · dsimp only at he
    rcases List.mem_append.mp he with he | he
    · obtain ⟨p, hu⟩ := h.moved e he
      refine ⟨p, hu.of_unmoved
        ⟨rfl, fun m hm src hsrc hplace => ?_, new, hnew, fun row hrow => ?_⟩⟩
      · obtain ⟨m₀, hm₀, f, hf, hplace₀, -⟩ := exists_row_before hrows hsame hm hsrc
        exact hu.noRow m₀ hm₀ f hf (hplace₀.trans hplace)
      · rw [← Bool.not_eq_true]
        intro hc
        obtain ⟨m, hm, src, hsrc, hplace⟩ := (queuedBy_spec (hqueued row hrow).2).1 p hc
        exact hu.noRow m hm src hsrc hplace
    · obtain ⟨m, hm, hmove⟩ := List.mem_filterMap.mp he
      obtain ⟨hrow, hnone⟩ := List.mem_filter.mp hm
      refine hentry m hrow (fun m' hm' hid => ?_) e hmove
      rw [Option.isNone_iff_eq_none, Table.get?_eq_none] at hnone
      exact hnone m' hm' hid

end User

/-! ### The result -/

theorem movesInv_step {s t : System} {l : Label} (h : MovesInv s) (hok : movesKept s l = true)
    (hstep : s.step l = some t) : MovesInv t := by
  have hkept : flagsKept s l = true := by
    unfold movesKept at hok
    exact (Bool.and_eq_true_iff.mp hok).1
  have hflags := flagsInv_step h.flags hkept hstep
  rcases step_cases hstep with ⟨o, c, rfl⟩ | ⟨accountID, x, op, rest, rfl, hwork, rfl⟩ |
    ⟨hdb, hboxes, hmoved⟩
  · exact movesInv_user h hstep
  · exact movesInv_attempt h hwork hok hflags
  · refine ⟨hflags, ?_, ?_, ?_, ?_⟩
    · rw [hboxes]
      exact h.sound
    · rw [hdb, hboxes]
      exact h.ops
    · rw [hdb, hboxes]
      exact h.rows
    · rw [hmoved]
      intro e he
      obtain ⟨p, hu⟩ := h.moved e he
      refine ⟨p, hu.account, ?_, ?_, ?_, ?_⟩
      · rw [hboxes]
        exact hu.holds
      · rw [hdb, hboxes]
        exact hu.settling
      · rw [hdb]
        exact hu.noRow
      · rw [hdb]
        exact hu.bound

/-- **A mail is moved after its flags, and in one go**: then each moved mail is in the end
exactly where it was to go, with the flags the user had set. -/
theorem arrived_of_run {s t : System}
    (h : Run System.step (fun s l => movesKept s l = true) s t) (hs : Orderly s) {accountID : Nat}
    (hempty : ∀ o ∈ t.db.ops.rows, o.accountID ≠ accountID) :
    ∀ e ∈ t.moved, e.accountID = accountID → Arrived t e := by
  intro e he hacc
  have hinv := h.invariant (fun _ _ _ hinv hok hstep => movesInv_step hinv hok hstep) hs.inv
  obtain ⟨p, hu⟩ := hinv.moved e he
  exact hu.arrived hinv (hacc ▸ hempty)

/-! ### A flag that comes too late

One unread mail in the inbox, marked as read and then moved to the archive.  The first
attempt at the flag fails; the move goes through; the second attempt at the flag finds no
mail under the UID any more and counts as done.
-/

private def mailToMove : Message := .bare 1 1 1 (.numbered 7)

private def inbox : Text := "INBOX".toList

private def archive : Text := "Archive".toList

private def beforeMove : System where
  db :=
    { messages := .single mailToMove
      folders := (Folder.Repository.upsertByPath (.bare 2 1 archive .archive)
        (Folder.Repository.upsertByPath (.bare 1 1 inbox .inbox) .empty)).folders
      ops := .empty }
  boxes := fun _ path =>
    if path = inbox then
      ⟨[⟨1, 7, false, false, false, false, ⟨[], [], [], [], [], [], [], 0, 0⟩⟩], 8⟩
    else ⟨[], 1⟩
  canMove := fun _ => true
  runners := fun _ => ⟨[], []⟩
  now := 1
  moved := []

private theorem mail_beforeMove {accountID : Nat} {path : Text} {r : Imap.Mail}
    (h : r ∈ (beforeMove.boxes accountID path).mails) : path = inbox ∧ r.uid = 7 ∧
      r.seen = false ∧ r.flagged = false := by
  unfold beforeMove at h
  dsimp only at h
  by_cases hp : path = inbox
  · rw [if_pos hp] at h
    rw [List.mem_singleton.mp h]
    exact ⟨hp, rfl, rfl, rfl⟩
  · rw [if_neg hp] at h
    exact absurd h List.not_mem_nil

private theorem folder_beforeMove {m : Message} (hm : m ∈ beforeMove.db.messages.rows)
    {src : Folder} (hsrc : Folder.Repository.getByID beforeMove.db m.folderID = some src) :
    m = mailToMove ∧ src.path = inbox := by
  have hself : m = mailToMove := List.mem_singleton.mp hm
  subst hself
  have hfound : Folder.Repository.getByID beforeMove.db mailToMove.folderID
      = some (.bare 1 1 inbox .inbox) := rfl
  rw [hfound] at hsrc
  cases hsrc
  exact ⟨rfl, rfl⟩

private theorem beforeMove_orderly : Orderly beforeMove := by
  refine ⟨⟨?_, rfl, fun _ => rfl, ?_, ?_⟩, fun accountID => ⟨?_, ?_, ?_⟩, ?_, rfl⟩
  · intro m hm
    rw [List.mem_singleton.mp hm]
    exact ⟨_, List.mem_cons_self, rfl, rfl⟩
  · intro m hm src hsrc
    obtain ⟨rfl, hpath⟩ := folder_beforeMove hm hsrc
    rw [hpath]
    show 7 < 8
    omega
  · intro m hm src hsrc r hr _
    obtain ⟨rfl, -⟩ := folder_beforeMove hm hsrc
    obtain ⟨-, -, hseen, hflagged⟩ := mail_beforeMove hr
    exact ⟨hseen, hflagged⟩
  · intro path r hr
    obtain ⟨rfl, huid, -⟩ := mail_beforeMove hr
    rw [huid]
    show 7 < 8
    omega
  · intro path
    by_cases hp : path = inbox
    · subst hp
      exact List.nodup_singleton _
    · have hbox : (beforeMove.boxes accountID path).mails = [] := by
        unfold beforeMove
        dsimp only
        rw [if_neg hp]
      rw [hbox]
      exact .nil
  · intro p q r hr r' hr' _
    obtain ⟨hp, huid, -⟩ := mail_beforeMove hr
    obtain ⟨hq, huid', -⟩ := mail_beforeMove hr'
    exact ⟨hp.trans hq.symm, huid.trans huid'.symm⟩
  · intro m hm src hsrc
    obtain ⟨rfl, hpath⟩ := folder_beforeMove hm hsrc
    refine ⟨1, ⟨1, 7, false, false, false, false, ⟨[], [], [], [], [], [], [], 0, 0⟩⟩, ?_, rfl, rfl,
      rfl⟩
    show _ ∈ (beforeMove.boxes 1 src.path).mails
    rw [hpath]
    exact List.mem_cons_self

private def aloneOrder : Order := ⟨fun _ _ => 0, fun _ _ => 0⟩

/-- The flag first and then the move, and the mail arrives. -/
theorem arrived_of_run_archive : ∃ t, exec System.step movesKept beforeMove
    [.user aloneOrder (.batchSetRead [1] true), .user aloneOrder (.batchMove [1] 2), .next 1,
      .attempt 1 .ok, .next 1, .attempt 1 .ok] = some t ∧
      t.moved.map (fun e => (e.target, e.seen)) = [(archive, true)] ∧
      ∀ e ∈ t.moved, e.accountID = 1 → Arrived t e := by
  have hview : (exec System.step movesKept beforeMove
      [.user aloneOrder (.batchSetRead [1] true), .user aloneOrder (.batchMove [1] 2), .next 1,
        .attempt 1 .ok, .next 1, .attempt 1 .ok]).map (fun t =>
      (t.db.ops.rows, t.moved.map fun e => (e.target, e.seen))) = some ([], [(archive, true)]) :=
    rfl
  obtain ⟨t, ht, heq⟩ := Option.map_eq_some_iff.mp hview
  obtain ⟨hempty, hmoved⟩ := Prod.mk.inj heq
  refine ⟨t, ht, hmoved, arrived_of_run (Run.ofExec _ ht) beforeMove_orderly ?_⟩
  rw [hempty]
  exact fun o ho => absurd ho List.not_mem_nil

/-- **A flag set before a move can be lost.** -/
theorem flag_lost_by_move : ¬ ∀ s t : System,
    Run System.step (fun s l => noGiveUp s l = true) s t → Orderly s → ∀ accountID,
      (∀ o ∈ t.db.ops.rows, o.accountID ≠ accountID) →
        ∀ e ∈ t.moved, e.accountID = accountID → Arrived t e := by
  intro h
  have hview : (exec System.step noGiveUp beforeMove
      [.user aloneOrder (.batchSetRead [1] true), .user aloneOrder (.batchMove [1] 2), .next 1,
        .attempt 1 (.broke 0 fun _ => false), .next 1, .attempt 1 .ok, .tick 60, .poll 1,
        .attempt 1 .ok]).map (fun t =>
      (t.db.ops.rows, t.moved,
        (t.boxes 1 archive).mails.map fun r => (r.serial, r.seen)))
      = some ([], [⟨1, inbox, (.numbered 7), archive, 1, true, false⟩],
        [(1, false)]) := rfl
  obtain ⟨t, ht, heq⟩ := Option.map_eq_some_iff.mp hview
  simp only [Prod.mk.injEq] at heq
  obtain ⟨hempty, hmoved, hmails⟩ := heq
  have harrived := h beforeMove t (Run.ofExec _ ht) beforeMove_orderly 1
    (by rw [hempty]; exact fun o ho => absurd ho List.not_mem_nil) _
    (by rw [hmoved]; exact List.mem_singleton.mpr rfl) rfl
  have hmem : (1, false) ∈ (t.boxes 1 archive).mails.map fun r => (r.serial, r.seen) := by
    rw [hmails]
    exact List.mem_singleton.mpr rfl
  obtain ⟨r, hr, hpair⟩ := List.mem_map.mp hmem
  obtain ⟨hserial, hseen⟩ := Prod.mk.inj hpair
  have hflag := (harrived.flags r hr hserial).1
  rw [hseen] at hflag
  cases hflag

end FlyMail.Sync
