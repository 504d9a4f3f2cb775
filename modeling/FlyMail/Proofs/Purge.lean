/-
What is deleted, and what is not.

A phase deletes from some tables under one condition that reads none of them, so that what it takes can be told
beforehand; all deleting is made of phases.  From this come three results.

  * A row that belongs to an account is there for as long as the account is, and its folder
    (`owned_of_run`), whatever fails.
  * Nothing is ever left of an account or a folder that went (`noOrphans_of_run`), whatever fails.
  * A start leaves exactly the rows whose account is there (`purgeOrphans_done`).  A rule for all accounts is of no
    account, and does not outlive the next start (`listEnabledFor_of_start`).
-/
import FlyMail.Account.Purge
import FlyMail.Rule.Service

namespace FlyMail.Account.Purge

variable {has : Name → Bool} {x : Luck} {db tx : Rows}

/-! ### Conditions -/

theorem hasAccount_iff {accountID : Nat} : hasAccount db accountID = true ↔ ∃ a ∈ db .accounts, a.id = accountID := by
  simp [hasAccount]

/-- A condition sees the tables it reads. -/
theorem holds_congr {c : Cond} (h : ∀ t ∈ c.reads, tx t = db t) : c.holds tx = c.holds db := by
  funext r
  cases c <;> simp [Cond.reads] at h <;> simp [Cond.holds, hasAccount, h]

/-! ### Phases -/

/-- Delete from these tables under one condition. -/
def phase (c : Cond) (ts : List Name) : List Stmt := ts.map fun t => ⟨t, c⟩

theorem apart_phase {c : Cond} {ts : List Name} (h : ∀ t ∈ c.reads, t ∉ ts) :
    Apart (· ∈ ts) ((phase c ts).map Stmt.deletion) := by
  intro d hd
  obtain ⟨s, hs, rfl⟩ := List.mem_map.mp hd
  obtain ⟨t, ht, rfl⟩ := List.mem_map.mp hs
  exact ⟨ht, fun db tx hdb => holds_congr fun u hu => hdb u (h u hu)⟩

/-- **What a phase leaves.**  Of the tables it came to, the rows that do not meet the condition; and it came to
all unless it failed. -/
theorem mem_phase {c : Cond} {ts : List Name} (h : ∀ t ∈ c.reads, t ∉ ts) :
    ∃ done ⊆ ts, ((run has x db (phase c ts)).2 = none → done = ts) ∧
      ∀ t r, r ∈ (run has x db (phase c ts)).1 t ↔ r ∈ db t ∧ (t ∈ done → c.holds db r = false) := by
  obtain ⟨l, hl, hnone, heq⟩ := @sweep_spec _ _ _ _ _ _ (fun _ s => fault has x s) db _ _ (apart_phase h)
  obtain ⟨done, hdone, rfl⟩ := List.prefix_map_iff.mp hl
  refine ⟨done, hdone.subset, fun hn => ?_, fun t r => ?_⟩
  · exact List.map_injective_iff.mpr (fun _ _ he => (Stmt.mk.inj he).1) (hnone hn)
  · rw [run, heq, mem_without]
    refine and_congr_right fun _ => ⟨fun hall ht => ?_, fun hall d hd hdt => ?_⟩
    · exact hall ⟨t, fun db r => c.holds db r⟩ (by simpa [Stmt.deletion] using ht) rfl
    · obtain ⟨u, hu, rfl⟩ : ∃ u ∈ done, Stmt.deletion ⟨u, c⟩ = d := by simpa using hd
      exact hall (hdt ▸ hu)

section

variable {c : Cond} {ts : List Name}

/-- A phase takes a row only if it meets the condition and stands in one of the tables. -/
theorem mem_phase_of_not {t : Name} {r : Row} (h : ∀ t ∈ c.reads, t ∉ ts) (hr : r ∈ db t)
    (hc : t ∈ ts → c.holds db r = false) : r ∈ (run has x db (phase c ts)).1 t := by
  obtain ⟨done, hdone, -, hmem⟩ := @mem_phase has x db c ts h
  exact (hmem t r).mpr ⟨hr, fun ht => hc (hdone ht)⟩

/-- A phase that comes to its end leaves no row that meets the condition. -/
theorem not_of_mem_phase {t : Name} {r : Row} (h : ∀ t ∈ c.reads, t ∉ ts)
    (hdone : (run has x db (phase c ts)).2 = none) (hr : r ∈ (run has x db (phase c ts)).1 t) (ht : t ∈ ts) :
    c.holds db r = false := by
  obtain ⟨done, -, hall, hmem⟩ := @mem_phase has x db c ts h
  exact ((hmem t r).mp hr).2 (hall hdone ▸ ht)

/-- A phase leaves the other tables as they are. -/
theorem phase_of_not_mem {t : Name} (h : ∀ t ∈ c.reads, t ∉ ts) (ht : t ∉ ts) :
    (run has x db (phase c ts)).1 t = db t := by
  rw [(thinned_run _).eq_filter (q := fun _ => true)]
  · simp
  · exact fun r hr => by simpa using mem_phase_of_not h hr fun hm => absurd hm ht

end

/-! ### Rows of an account -/

/-- The row belongs to account `a`, and to folder `f` if it is a folder, a mail or part of a mail. -/
def Owned (a f : Nat) (db : Rows) : Name → Row → Prop
  | .accounts, r => r.id = a
  | .folders, r => r.accountID = a ∧ r.id = f
  | .messages, r => r.accountID = a ∧ r.folderID = f
  | .attachments, r | .messageBodies, r | .messageTranslations, r =>
      ∃ m ∈ db .messages, m.id = r.messageID ∧ m.accountID = a ∧ m.folderID = f
  | _, r => r.accountID = a

/-- The account's rows in `db` are all in `tx`. -/
def Keeps (a f : Nat) (db tx : Rows) : Prop :=
  ∀ t r, r ∈ db t → Owned a f db t r → r ∈ tx t ∧ Owned a f tx t r

theorem Keeps.refl (a f : Nat) (db : Rows) : Keeps a f db db := fun _ _ hr ho => ⟨hr, ho⟩

theorem Keeps.trans {a f : Nat} {db tx tx' : Rows} (h : Keeps a f db tx) (h' : Keeps a f tx tx') : Keeps a f db tx' :=
  fun t r hr ho => h' t r (h t r hr ho).1 (h t r hr ho).2

/-- Rows that are kept are still the account's. -/
theorem Keeps.of_mem {a f : Nat} (h : ∀ t r, r ∈ db t → Owned a f db t r → r ∈ tx t) : Keeps a f db tx := by
  intro t r hr ho
  refine ⟨h t r hr ho, ?_⟩
  have hmessage : ∀ m ∈ db .messages, m.accountID = a ∧ m.folderID = f → m ∈ tx .messages := fun m hm hf =>
    h .messages m hm hf
  cases t <;> first
    | exact ho
    | exact ho.imp fun m hm => ⟨hmessage m hm.1 hm.2.2, hm.2⟩

theorem Keeps.hasAccount {a f : Nat} (h : Keeps a f db tx) (ha : hasAccount db a = true) : hasAccount tx a = true := by
  obtain ⟨r, hr, hra⟩ := hasAccount_iff.mp ha
  exact hasAccount_iff.mpr ⟨r, (h .accounts r hr hra).1, hra⟩

theorem keeps_phase {a f : Nat} {c : Cond} {ts : List Name} (h : ∀ t ∈ c.reads, t ∉ ts)
    (hc : ∀ t ∈ ts, ∀ r ∈ db t, Owned a f db t r → c.holds db r = false) :
    Keeps a f db (run has x db (phase c ts)).1 :=
  Keeps.of_mem fun t r hr ho => mem_phase_of_not h hr fun ht => hc t ht r hr ho

/-- Part of a mail of the account is part of no other mail. -/
theorem message_of_owned {a f : Nat} {t : Name} {r : Row} (h : Sound has db) (ht : t ∈ messageOwnedTables)
    (ho : Owned a f db t r) : (∃ m ∈ db .messages, m.id = r.messageID) ∧
      ∀ m ∈ db .messages, m.id = r.messageID → m.accountID = a ∧ m.folderID = f := by
  have hex : ∃ m ∈ db .messages, m.id = r.messageID ∧ m.accountID = a ∧ m.folderID = f := by
    simp only [messageOwnedTables, List.mem_cons, List.not_mem_nil, or_false] at ht
    rcases ht with rfl | rfl | rfl <;> exact ho
  obtain ⟨m, hm, hid, hof⟩ := hex
  refine ⟨⟨m, hm, hid⟩, fun m' hm' hid' => ?_⟩
  have he : m' = m := List.inj_on_of_nodup_map (h.unique .messages) hm' hm (hid'.trans hid.symm)
  exact he ▸ hof

theorem account_of_owned {a f : Nat} {t : Name} {r : Row} (ht : t ∈ accountOwnedTables) (ho : Owned a f db t r) :
    r.accountID = a := by
  simp only [accountOwnedTables, List.mem_cons, List.not_mem_nil, or_false] at ht
  rcases ht with rfl | rfl | rfl | rfl | rfl | rfl | rfl | rfl | rfl <;> first
    | exact ho
    | exact ho.1

/-! ### Rows that are kept -/

section

variable {a f : Nat}

theorem Keeps.goOn {o : Rows × Option Err} {next : Rows → Rows × Option Err} (ho : Keeps a f db o.1)
    (hnext : Keeps a f o.1 (next o.1).1) : Keeps a f db (goOn o next).1 := by
  unfold FlyMail.goOn
  split
  · exact ho
  · exact ho.trans hnext

theorem keeps_transaction {o : Rows × Option Err} (ho : Keeps a f db o.1) : Keeps a f db (transaction x db o).1 := by
  unfold transaction
  split
  · exact Keeps.refl a f db
  · split
    · exact Keeps.refl a f db
    · exact ho

theorem reads_children (c : Cond) : ∀ t ∈ c.reads, t ∉ messageOwnedTables.filter has := by
  intro t ht
  cases c <;> simp [Cond.reads] at ht <;> simp [messageOwnedTables, ht]
  rcases ht with rfl | rfl <;> simp

theorem keeps_children {c : Cond} (hs : Sound has db)
    (hc : ∀ r : Row, (∃ m ∈ db .messages, m.id = r.messageID) →
      (∀ m ∈ db .messages, m.id = r.messageID → m.accountID = a ∧ m.folderID = f) → c.holds db r = false) :
    Keeps a f db (purgeMessageChildren has x c db).1 :=
  keeps_phase (reads_children c) fun t ht r _ ho => by
    obtain ⟨hex, hall⟩ := message_of_owned hs (List.mem_filter.mp ht).1 ho
    exact hc r hex hall

theorem reads_noAccount (has : Name → Bool) : ∀ t ∈ Cond.noAccount.reads, t ∉ accountOwnedTables.filter has := by
  intro t ht
  simp [show t = .accounts by simpa [Cond.reads] using ht, accountOwnedTables]

theorem keeps_purgeOrphans (hs : Sound has db) (ha : hasAccount db a = true) :
    Keeps a f db (purgeOrphans has x db).1 := by
  have h₁ : Keeps a f db (purgeMessageChildren has x .messageOfNobody db).1 := keeps_children hs fun r _ hall => by
    simp only [Cond.holds, List.any_eq_false, Bool.and_eq_true, beq_iff_eq, Bool.not_eq_true', not_and]
    intro m hm hid
    rw [(hall m hm hid).1, ha]
    simp
  refine h₁.goOn (Keeps.goOn (keeps_phase (reads_noAccount has) ?_) (keeps_children ?_ ?_))
  · intro t ht r _ ho
    have hra := account_of_owned (List.mem_filter.mp ht).1 ho
    simp [Cond.holds, hra, h₁.hasAccount ha]
  · exact (hs.thinned (thinned_purgeMessageChildren _)).thinned (thinned_run _)
  · intro r hex _
    simpa [Cond.holds] using hex

theorem keeps_delete {id : Nat} (hs : Sound has db) (hid : id ≠ a) : Keeps a f db (delete has x id db).1 := by
  have h₁ : Keeps a f db (run has x db (phase (.id [id]) [.accounts])).1 := by
    refine keeps_phase (by simp [Cond.reads]) fun t ht r _ ho => ?_
    rw [List.mem_singleton.mp ht] at ho
    simpa [Cond.holds, show r.id = a from ho] using Ne.symm hid
  refine keeps_transaction (h₁.goOn ?_)
  split
  · refine Keeps.goOn (keeps_children (hs.thinned (thinned_run _)) fun r _ hall => ?_)
      (keeps_phase (by simp [Cond.reads]) fun t ht r _ ho => ?_)
    · simp only [Cond.holds, List.any_eq_false, Bool.and_eq_true, beq_iff_eq, not_and]
      intro m hm hmr
      rw [(hall m hm hmr).1]
      exact Ne.symm hid
    · simpa [Cond.holds, account_of_owned (List.mem_filter.mp ht).1 ho] using Ne.symm hid
  · exact Keeps.refl a f _

theorem keeps_pruneMissing {accountID : Nat} {keep : List Text} (hs : Sound has db)
    (hkeep : ∀ p ∈ db .folders, p.accountID = accountID → p.id = f → p.path ∈ keep) :
    Keeps a f db (pruneMissing has x accountID keep db).1 := by
  unfold pruneMissing
  split
  · exact Keeps.refl a f db
  dsimp only
  split
  · exact Keeps.refl a f db
  generalize hids : List.map Row.id _ = ids
  have hf : f ∉ ids := by
    rw [← hids]
    intro hf
    obtain ⟨p, hp, hpf⟩ := List.mem_map.mp hf
    simp only [List.mem_filter, beq_iff_eq, Bool.not_eq_true', List.contains_eq_mem, decide_eq_false_iff_not] at hp
    exact hp.2 (hkeep p hp.1.1 hp.1.2 hpf)
  refine keeps_transaction ((keeps_children hs fun r _ hall => ?_).goOn (Keeps.goOn ?_
    (@keeps_phase has x _ a f (.id ids) [.folders] (by simp [Cond.reads]) fun t ht r _ ho => ?_)))
  · simp only [Cond.holds, List.any_eq_false, Bool.and_eq_true, beq_iff_eq, List.contains_eq_mem,
      decide_eq_true_eq, not_and]
    intro m hm hmr
    rw [(hall m hm hmr).2]
    exact hf
  · split
    · refine @keeps_phase has x _ a f (.folder ids) [.messages] (by simp [Cond.reads]) fun t ht r _ ho => ?_
      rw [List.mem_singleton.mp ht] at ho
      simpa [Cond.holds, show r.folderID = f from ho.2] using hf
    · exact Keeps.refl a f _
  · rw [List.mem_singleton.mp ht] at ho
    simpa [Cond.holds, show r.id = f from ho.2] using hf

theorem keeps_of_subset (h : ∀ t, db t ⊆ tx t) : Keeps a f db tx := Keeps.of_mem fun t _ hr _ => h t hr

theorem subset_add (db : Rows) (t : Name) (r : Row) (u : Name) : db u ⊆ Function.update db t (db t ++ [r]) u := by
  by_cases hu : u = t
  · subst hu
    simp
  · simp [hu]

end

/-! ### Listing the folders -/

/-- Taking over the list adds folders of the account that are listed, and nothing else. -/
structure Listed (has : Name → Bool) (accountID : Nat) (paths : List Text) (db tx : Rows) : Prop where
  sound : Sound has tx
  subset : ∀ t, db t ⊆ tx t
  same : ∀ t, t ≠ .folders → tx t = db t
  folders : ∀ p ∈ tx .folders, p ∈ db .folders ∨ p.accountID = accountID ∧ p.path ∈ paths

variable {accountID : Nat} {paths : List Text}

theorem listed_upsertByPath {path : Text} (h : Listed has accountID paths db tx) (hp : path ∈ paths) {tx' : Rows}
    (hu : upsertByPath has x accountID tx path = .ok tx') : Listed has accountID paths db tx' := by
  have hs := h.sound.upsertByPath hu
  rcases upsertByPath_cases hu with rfl | ⟨-, rfl⟩
  · exact h
  refine ⟨hs, fun t => List.Subset.trans (h.subset t) (subset_add tx .folders _ t), fun t ht => ?_, fun p hpm => ?_⟩
  · simpa [ht] using h.same t ht
  · rw [Function.update_self] at hpm
    rcases List.mem_append.mp hpm with hold | hnew
    · exact h.folders p hold
    · rw [List.mem_singleton.mp hnew]
      exact .inr ⟨rfl, hp⟩

theorem listed_upserts (hs : Sound has db) :
    Listed has accountID paths db (untilError (upsertByPath has x accountID) db paths).1 := by
  obtain ⟨rest, h, -⟩ := @untilError_invariant _ _ _ (upsertByPath has x accountID) db paths
    (fun tx rest => Listed has accountID paths db tx ∧ rest ⊆ paths)
    (fun tx path rest tx' h hu => ⟨listed_upsertByPath h.1 (h.2 List.mem_cons_self) hu,
      fun p hp => h.2 (List.mem_cons_of_mem _ hp)⟩)
    ⟨⟨hs, fun _ => List.Subset.refl _, fun _ _ => rfl, fun p hp => .inl hp⟩, List.Subset.refl _⟩
  exact h.1

theorem keeps_syncFolders {a f : Nat} (hs : Sound has db)
    (hkeep : ∀ p ∈ db .folders, p.accountID = accountID → p.id = f → paths = [] ∨ p.path ∈ paths) :
    Keeps a f db (syncFolders has x accountID paths db).1 := by
  unfold syncFolders
  split
  · exact Keeps.refl a f db
  next hne =>
  have h := @listed_upserts has x db accountID paths hs
  refine (keeps_of_subset h.subset).goOn (keeps_pruneMissing h.sound fun p hp hpa hpf => ?_)
  rcases h.folders p hp with hold | hnew
  · exact (hkeep p hold hpa hpf).resolve_left hne
  · exact hnew.2

/-! ### What belongs to an account that stays is never lost -/

/-- The step neither deletes account `a`, nor does it come with a list of folders in which folder `f` is
missing. -/
def Spares (a f : Nat) (db : DB has) : Op → Prop
  | .start _ | .insert _ _ => True
  | .delete _ id => id ≠ a
  | .syncFolders _ accountID paths =>
      ∀ p ∈ db.rows .folders, p.accountID = accountID → p.id = f → paths = [] ∨ p.path ∈ paths

theorem insert_cases {db db' : DB has} {t : Name} {r : Row} (h : step has db (.insert t r) = some db') :
    has t = true ∧ db'.rows = Function.update db.rows t (db.rows t ++ [r]) := by
  simp only [step] at h
  split at h
  · next hok =>
    cases h
    exact ⟨hok.1, rfl⟩
  · cases h

theorem keeps_step {a f : Nat} {db db' : DB has} {op : Op} (ha : hasAccount db.rows a = true) (hop : Spares a f db op)
    (h : step has db op = some db') : Keeps a f db.rows db'.rows := by
  cases op with
  | start x =>
      cases h
      exact keeps_purgeOrphans db.sound ha
  | delete x id =>
      cases h
      exact keeps_delete db.sound hop
  | syncFolders x accountID paths =>
      cases h
      exact keeps_syncFolders db.sound hop
  | insert t r =>
      rw [(insert_cases h).2]
      exact keeps_of_subset (subset_add db.rows t r)

/-- **What belongs to an account that stays is never lost.**  Accounts are deleted and the program is started,
lists of folders are taken over, in any order, and any statement may fail.  A row of account `a`, in folder `f` if it
is in one, is there as long as the account is not deleted and no list of its folders comes without `f`. -/
theorem owned_of_run {db db' : DB has} {a f : Nat} (h : Run (step has) (Spares a f) db db')
    (ha : hasAccount db.rows a = true) {t : Name} {r : Row} (hr : r ∈ db.rows t) (ho : Owned a f db.rows t r) :
    r ∈ db'.rows t ∧ Owned a f db'.rows t r := by
  have hkeeps : Keeps a f db.rows db'.rows := h.invariant (I := fun tx => Keeps a f db.rows tx.rows)
    (fun tx op tx' hI hop hstep => hI.trans (keeps_step (hI.hasAccount ha) hop hstep)) (Keeps.refl a f db.rows)
  exact hkeeps t r hr ho

/-- Two accounts with a mail each, and a rule for both. -/
def sample : DB fun _ => true where
  rows
    | .accounts => [⟨1, 0, 0, 0, []⟩, ⟨2, 0, 0, 0, []⟩]
    | .folders => [⟨1, 1, 0, 0, ['a']⟩, ⟨2, 2, 0, 0, ['a']⟩]
    | .messages => [⟨1, 1, 1, 0, []⟩, ⟨2, 2, 2, 0, []⟩]
    | .messageBodies => [⟨1, 0, 0, 1, []⟩, ⟨2, 0, 0, 2, []⟩]
    | .inboxRules => [⟨1, 0, 0, 0, []⟩, ⟨2, 1, 0, 0, []⟩]
    | _ => []
  sound := ⟨fun t => by cases t <;> decide, fun _ h => by cases h⟩

/-- Nothing fails. -/
def smooth : Luck := ⟨fun _ => false, fun _ => false, false, false, 0⟩

instance (a f : Nat) (db : DB has) : (op : Op) → Decidable (Spares a f db op)
  | .start _ | .insert _ _ => .isTrue trivial
  | .delete _ id => inferInstanceAs (Decidable (id ≠ a))
  | .syncFolders _ accountID paths =>
      inferInstanceAs (Decidable (∀ p ∈ db.rows .folders, p.accountID = accountID → p.id = f → paths = [] ∨ p.path ∈ paths))

/-- The second account goes, with all its rows; the body of the first one's mail stays. -/
theorem owned_of_run_sample : ∃ db : DB fun _ => true,
    exec (step fun _ => true) (fun db op => decide (Spares 1 1 db op)) sample
      [.delete smooth 2, .syncFolders smooth 1 [['a'], ['b']], .start smooth] = some db ∧
      (db.rows .messageBodies).length = 1 ∧ ⟨1, 0, 0, 1, []⟩ ∈ db.rows .messageBodies := by
  have hexec : ∃ db : DB fun _ => true,
      exec (step fun _ => true) (fun db op => decide (Spares 1 1 db op)) sample
        [.delete smooth 2, .syncFolders smooth 1 [['a'], ['b']], .start smooth] = some db ∧
        (db.rows .messageBodies).length = 1 := ⟨_, rfl, rfl⟩
  obtain ⟨db, hdb, hlen⟩ := hexec
  have hrun := (Run.ofExec _ hdb).mono fun _ _ h => of_decide_eq_true h
  exact ⟨db, hdb, hlen, (owned_of_run hrun (by decide) (t := .messageBodies) (r := ⟨1, 0, 0, 1, []⟩) (by decide)
    ⟨⟨1, 1, 1, 0, []⟩, by decide, rfl, rfl, rfl⟩).1⟩

/-! ### What is left -/

/-- A phase that comes to its end has seen to all its tables. -/
theorem phase_done {c : Cond} {ts : List Name} (h : ∀ t ∈ c.reads, t ∉ ts)
    (hdone : (run has x db (phase c ts)).2 = none) (t : Name) :
    (run has x db (phase c ts)).1 t = if t ∈ ts then (db t).filter fun r => !c.holds db r else db t := by
  split
  · next ht =>
    refine (thinned_run _).eq_filter fun r hr => ⟨fun hm => ?_, fun hc => ?_⟩
    · simp [not_of_mem_phase h hdone hm ht]
    · exact mem_phase_of_not h hr fun _ => by simpa using hc
  · next ht => exact phase_of_not_mem h ht

/-- The tables that are passed over have no rows to take. -/
theorem phase_filter_done {c : Cond} {ts : List Name} (hs : Sound has db) (h : ∀ t ∈ c.reads, t ∉ ts.filter has)
    (hdone : (run has x db (phase c (ts.filter has))).2 = none) (t : Name) :
    (run has x db (phase c (ts.filter has))).1 t = if t ∈ ts then (db t).filter fun r => !c.holds db r else db t := by
  rw [phase_done h hdone]
  cases ht : has t with
  | true => simp [ht]
  | false => simp [ht, hs.absent t ht]

theorem goOn_done {o : Rows × Option Err} {next : Rows → Rows × Option Err} (h : (goOn o next).2 = none) :
    o.2 = none ∧ (next o.1).2 = none ∧ (goOn o next).1 = (next o.1).1 := by
  unfold goOn at h ⊢
  split at h
  · next e he =>
    rw [he] at h
    cases h
  · next ho => exact ⟨ho, h, rfl⟩

/-- A transaction that fails does nothing. -/
theorem transaction_cases (x : Luck) (db : Rows) (o : Rows × Option Err) :
    transaction x db o = o ∧ o.2 = none ∨ (transaction x db o).1 = db ∧ (transaction x db o).2 ≠ none := by
  unfold transaction
  cases ho : o.2 with
  | some e => exact .inr ⟨rfl, by simp⟩
  | none =>
      by_cases hx : x.failsCommit
      · exact .inr ⟨by simp [hx], by simp [hx]⟩
      · exact .inl ⟨by simp [hx], rfl⟩

/-- A row that goes with account `id`. -/
def goesWith (id : Nat) (db : Rows) : Name → Row → Bool
  | .accounts, r => r.id == id
  | .attachments, r | .messageBodies, r | .messageTranslations, r => Cond.holds db (.messageOf id) r
  | _, r => r.accountID == id

theorem children_done {c : Cond} (hs : Sound has db) (hdone : (purgeMessageChildren has x c db).2 = none) (t : Name) :
    (purgeMessageChildren has x c db).1 t =
      if t ∈ messageOwnedTables then (db t).filter fun r => !c.holds db r else db t :=
  phase_filter_done hs (reads_children c) hdone t

theorem purgeAccountData_done {id : Nat} (hs : Sound has db) (hdone : (purgeAccountData has x id db).2 = none)
    (t : Name) : (purgeAccountData has x id db).1 t = if t = .accounts then db t else
      (db t).filter fun r => !goesWith id db t r := by
  obtain ⟨h₁, h₂, heq⟩ := goOn_done hdone
  rw [purgeAccountData, heq]
  have hs₁ : Sound has (purgeMessageChildren has x (.messageOf id) db).1 := hs.thinned (thinned_purgeMessageChildren _)
  have h := phase_filter_done hs₁ (by simp [Cond.reads]) h₂ t
  rw [phase] at h
  rw [h, children_done hs h₁]
  cases t <;> simp [accountOwnedTables, messageOwnedTables, goesWith, Cond.holds]

/-- **What deleting an account leaves**: what did not belong to it.  Where something fails nothing is done. -/
theorem delete_spec {id : Nat} (hs : Sound has db) :
    (hasAccount db id = true ∧ (delete has x id db).2 = none ∧
        ∀ t, (delete has x id db).1 t = (db t).filter fun r => !goesWith id db t r) ∨
      (delete has x id db).2 ≠ none ∧ (delete has x id db).1 = db := by
  rw [delete]
  rcases transaction_cases x db _ with ⟨heq, hdone⟩ | h
  · obtain ⟨h₁, h₂, hgo⟩ := goOn_done hdone
    refine .inl ?_
    rw [heq, hgo]
    have htx := @phase_done has x db (.id [id]) [.accounts] (by simp [Cond.reads]) h₁
    have hs₁ : Sound has (run has x db [⟨.accounts, .id [id]⟩]).1 := hs.thinned (thinned_run _)
    by_cases ha : hasAccount db id = true
    · rw [if_pos ha] at h₂ ⊢
      refine ⟨ha, hdone, fun t => ?_⟩
      rw [purgeAccountData_done hs₁ h₂]
      rw [phase, List.map_singleton] at htx
      cases t <;> simp [htx, goesWith, Cond.holds, Bool.beq_eq_decide_eq]
    · rw [if_neg ha] at h₂
      cases h₂
  · exact .inr h.symm

/-- A row of folders `ids`. -/
def goesWithFolders (ids : List Nat) (db : Rows) : Name → Row → Bool
  | .folders, r => ids.contains r.id
  | .messages, r => ids.contains r.folderID
  | .attachments, r | .messageBodies, r | .messageTranslations, r => Cond.holds db (.messageIn ids) r
  | _, _ => false

/-- The account's folders that are not in `keep`. -/
def staleIDs (accountID : Nat) (keep : List Text) (db : Rows) : List Nat :=
  (((db .folders).filter fun f => f.accountID == accountID).filter fun f => !keep.contains f.path).map Row.id

theorem messages_done {ids : List Nat} (hs : Sound has db)
    (h : (if has .messages then run has x db [⟨.messages, .folder ids⟩] else (db, none)).2 = none) (t : Name) :
    (if has .messages then run has x db [⟨.messages, .folder ids⟩] else (db, none)).1 t =
      if t = .messages then (db t).filter fun r => !ids.contains r.folderID else db t := by
  split
  · next hm =>
    rw [if_pos hm] at h
    have hphase := @phase_done has x db (.folder ids) [.messages] (by simp [Cond.reads]) h t
    rw [phase, List.map_singleton] at hphase
    simpa [Cond.holds] using hphase
  · next hm =>
    split
    · next ht => simp [ht, hs.absent .messages (by simpa using hm)]
    · rfl

/-- **What pruning leaves**: what is not in a folder that is missing.  Where something fails nothing is done. -/
theorem pruneMissing_spec {keep : List Text} (hs : Sound has db) :
    ((pruneMissing has x accountID keep db).2 = none ∧
        ∀ t, (pruneMissing has x accountID keep db).1 t =
          (db t).filter fun r => !goesWithFolders (staleIDs accountID keep db) db t r) ∨
      (pruneMissing has x accountID keep db).2 ≠ none ∧ (pruneMissing has x accountID keep db).1 = db := by
  unfold pruneMissing
  split
  · exact .inr ⟨by simp, rfl⟩
  dsimp only
  rw [← staleIDs]
  generalize staleIDs accountID keep db = ids
  split
  · next hids =>
    refine .inl ⟨rfl, fun t => (List.filter_eq_self.mpr fun r _ => ?_).symm⟩
    rw [hids]
    cases t <;> simp [goesWithFolders, Cond.holds]
  · rcases transaction_cases x db
        (goOn (purgeMessageChildren has x (.messageIn ids) db) fun tx =>
          goOn (if has .messages then run has x tx [⟨.messages, .folder ids⟩] else (tx, none)) fun tx =>
            run has x tx [⟨.folders, .id ids⟩]) with ⟨heq, hdone⟩ | h
    · obtain ⟨h₁, h₂, hgo⟩ := goOn_done hdone
      obtain ⟨h₂, h₃, hgo'⟩ := goOn_done h₂
      refine .inl ?_
      rw [heq, hgo, hgo']
      refine ⟨hdone, fun t => ?_⟩
      have hfolders := @phase_done has x _ (.id ids) [.folders] (by simp [Cond.reads]) h₃ t
      rw [phase, List.map_singleton] at hfolders
      have hchildren := children_done hs h₁
      have hmessages := messages_done (hs.thinned (thinned_purgeMessageChildren _)) h₂
      rw [hfolders]
      cases t <;> simp [hmessages, hchildren, messageOwnedTables, goesWithFolders, Cond.holds]
    · exact .inr h.symm

/-- A row whose account is gone, or whose mail is. -/
def orphan (db : Rows) : Name → Row → Bool
  | .accounts, _ => false
  | .attachments, r | .messageBodies, r | .messageTranslations, r =>
      !(db .messages).any fun m => m.id == r.messageID && hasAccount db m.accountID
  | _, r => !hasAccount db r.accountID

/-- The mails whose account is there are found by those parts of them that do not belong to another. -/
theorem any_message_iff {id : Nat} (hs : Sound has db) :
    ((db .messages).any fun m => m.id == id && hasAccount db m.accountID) =
      (!((db .messages).any fun m => m.id == id && !hasAccount db m.accountID) &&
        ((db .messages).filter fun m => hasAccount db m.accountID).any fun m => m.id == id) := by
  rw [Bool.eq_iff_iff]
  simp only [List.any_eq_true, Bool.and_eq_true, beq_iff_eq, Bool.not_eq_true', List.any_eq_false, not_and,
    List.mem_filter, Bool.not_eq_false]
  refine ⟨fun h => ?_, fun h => ?_⟩
  · obtain ⟨m, hm, hid, ha⟩ := h
    refine ⟨fun m' hm' hid' => ?_, m, ⟨hm, ha⟩, hid⟩
    have he : m' = m := List.inj_on_of_nodup_map (hs.unique .messages) hm' hm (hid'.trans hid.symm)
    exact he ▸ ha
  · obtain ⟨-, m, ⟨hm, ha⟩, hid⟩ := h
    exact ⟨m, hm, hid, ha⟩

/-- **What a start leaves**, if nothing fails: exactly the rows that are no orphans. -/
theorem purgeOrphans_done (hs : Sound has db) (hdone : (purgeOrphans has x db).2 = none) (t : Name) :
    (purgeOrphans has x db).1 t = (db t).filter fun r => !orphan db t r := by
  rw [purgeOrphans] at hdone ⊢
  obtain ⟨h₁, h₂, hgo⟩ := goOn_done hdone
  obtain ⟨h₂, h₃, hgo'⟩ := goOn_done h₂
  rw [hgo, hgo']
  have hs₁ : Sound has (purgeMessageChildren has x .messageOfNobody db).1 := hs.thinned (thinned_purgeMessageChildren _)
  have hchildren := children_done hs h₁
  have howned := phase_filter_done hs₁ (reads_noAccount has) h₂
  rw [phase] at howned
  have haccount : hasAccount (purgeMessageChildren has x .messageOfNobody db).1 = hasAccount db := by
    funext id
    simp [hasAccount, hchildren, messageOwnedTables]
  rw [children_done (hs₁.thinned (thinned_run _)) h₃]
  generalize htx : (run has x (purgeMessageChildren has x .messageOfNobody db).1
    ((accountOwnedTables.filter has).map fun t => ⟨t, .noAccount⟩)).1 = tx at howned ⊢
  have hmessages : tx .messages = (db .messages).filter fun m => hasAccount db m.accountID := by
    simp [howned, hchildren, accountOwnedTables, messageOwnedTables, Cond.holds, haccount]
  have hparts : ∀ rows : List Row, ((rows.filter fun r => !Cond.holds db .messageOfNobody r).filter
      fun r => !Cond.holds tx .noMessage r) =
      rows.filter fun r => (db .messages).any fun m => m.id == r.messageID && hasAccount db m.accountID := by
    intro rows
    rw [List.filter_filter]
    refine List.filter_congr fun r _ => ?_
    rw [any_message_iff hs, Bool.and_comm, Cond.holds, Cond.holds, Bool.not_not, hmessages]
  cases t with
  | attachments | messageBodies | messageTranslations =>
      simp only [howned, hchildren, accountOwnedTables, messageOwnedTables, List.mem_cons, reduceCtorEq, List.not_mem_nil,
        or_false, or_true, if_true, if_false, orphan, Bool.not_not]
      exact hparts _
  | _ => simp [howned, hchildren, accountOwnedTables, messageOwnedTables, orphan, Cond.holds, haccount]

theorem purgeOrphans_done_sample :
    (purgeOrphans (fun _ => true) smooth sample.rows).1 .inboxRules = [⟨2, 1, 0, 0, []⟩] ∧
      ∀ t, (purgeOrphans (fun _ => true) smooth sample.rows).1 t =
        (sample.rows t).filter fun r => !orphan sample.rows t r :=
  ⟨rfl, fun t => purgeOrphans_done sample.sound rfl t⟩

/-! ### Nothing is left of what went -/

/-- No row has lost what it belongs to. -/
structure NoOrphans (db : Rows) : Prop where
  account : ∀ t ∈ accountOwnedTables, ∀ r ∈ db t, hasAccount db r.accountID = true
  message : ∀ t ∈ messageOwnedTables, ∀ r ∈ db t, ∃ m ∈ db .messages, m.id = r.messageID
  folder : ∀ m ∈ db .messages, ∃ f ∈ db .folders, f.id = m.folderID ∧ f.accountID = m.accountID

theorem phase_eq_self {c : Cond} {ts : List Name} (h : ∀ t ∈ c.reads, t ∉ ts)
    (hc : ∀ t ∈ ts, ∀ r ∈ db t, c.holds db r = false) : (run has x db (phase c ts)).1 = db := by
  funext t
  rw [(thinned_run _).eq_filter (q := fun _ => true)]
  · simp
  · exact fun r hr => by simpa using mem_phase_of_not h hr fun ht => hc t ht r hr

theorem goOn_eq_self {o : Rows × Option Err} {next : Rows → Rows × Option Err} (ho : o.1 = db)
    (hnext : (next db).1 = db) : (goOn o next).1 = db := by
  unfold goOn
  split
  · exact ho
  · rw [ho, hnext]

/-- Where there are no orphans a start deletes nothing. -/
theorem NoOrphans.purgeOrphans (h : NoOrphans db) : (purgeOrphans has x db).1 = db := by
  have haccount : ∀ m ∈ db .messages, hasAccount db m.accountID = true := h.account .messages (by decide)
  refine goOn_eq_self (phase_eq_self (reads_children _) fun t ht r hr => ?_)
    (goOn_eq_self (phase_eq_self (reads_noAccount has) fun t ht r hr => ?_)
      (phase_eq_self (reads_children _) fun t ht r hr => ?_))
  · simp only [Cond.holds, List.any_eq_false, Bool.and_eq_true, Bool.not_eq_true', not_and]
    intro m hm _
    simp [haccount m hm]
  · simp [Cond.holds, h.account t (List.mem_filter.mp ht).1 r hr]
  · simpa [Cond.holds] using h.message t (List.mem_filter.mp ht).1 r hr

theorem goesWith_of_account {id : Nat} {t : Name} (ht : t ∈ accountOwnedTables) (r : Row) :
    goesWith id db t r = (r.accountID == id) := by
  cases t <;> first
    | rfl
    | simp [accountOwnedTables] at ht

theorem goesWith_of_message {id : Nat} {t : Name} (ht : t ∈ messageOwnedTables) (r : Row) :
    goesWith id db t r = Cond.holds db (.messageOf id) r := by
  cases t <;> first
    | rfl
    | simp [messageOwnedTables] at ht

theorem goesWithFolders_of_message {ids : List Nat} {t : Name} (ht : t ∈ messageOwnedTables) (r : Row) :
    goesWithFolders ids db t r = Cond.holds db (.messageIn ids) r := by
  cases t <;> first
    | rfl
    | simp [messageOwnedTables] at ht

theorem NoOrphans.delete {id : Nat} (hs : Sound has db) (h : NoOrphans db) : NoOrphans (delete has x id db).1 := by
  rcases @delete_spec has x db id hs with ⟨-, -, hd⟩ | ⟨-, hd⟩
  · have hmem : ∀ t r, r ∈ (Purge.delete has x id db).1 t ↔ r ∈ db t ∧ goesWith id db t r = false := by
      simp [hd]
    have haccount : ∀ n, hasAccount db n = true → n ≠ id → hasAccount (Purge.delete has x id db).1 n = true := by
      intro n hn hne
      obtain ⟨a, ha, he⟩ := hasAccount_iff.mp hn
      exact hasAccount_iff.mpr ⟨a, (hmem .accounts a).mpr ⟨ha, by simpa [goesWith, he] using hne⟩, he⟩
    refine ⟨fun t ht r hr => ?_, fun t ht r hr => ?_, fun m hm => ?_⟩
    · obtain ⟨hr, hgo⟩ := (hmem t r).mp hr
      exact haccount _ (h.account t ht r hr) (by simpa [goesWith_of_account ht] using hgo)
    · obtain ⟨hr, hgo⟩ := (hmem t r).mp hr
      obtain ⟨m, hm, hid⟩ := h.message t ht r hr
      rw [goesWith_of_message ht] at hgo
      simp only [Cond.holds, List.any_eq_false, Bool.and_eq_true, beq_iff_eq, not_and] at hgo
      exact ⟨m, (hmem .messages m).mpr ⟨hm, by simpa [goesWith] using hgo m hm hid⟩, hid⟩
    · obtain ⟨hm, hgo⟩ := (hmem .messages m).mp hm
      obtain ⟨f, hf, hid, ha⟩ := h.folder m hm
      exact ⟨f, (hmem .folders f).mpr ⟨hf, by simpa [goesWith, ha] using hgo⟩, hid, ha⟩
  · rw [hd]
    exact h

theorem NoOrphans.pruneMissing {keep : List Text} (hs : Sound has db) (h : NoOrphans db) :
    NoOrphans (pruneMissing has x accountID keep db).1 := by
  rcases @pruneMissing_spec has x db accountID keep hs with ⟨-, hd⟩ | ⟨-, hd⟩
  · generalize staleIDs accountID keep db = ids at hd
    have hmem : ∀ t r, r ∈ (Purge.pruneMissing has x accountID keep db).1 t ↔
        r ∈ db t ∧ goesWithFolders ids db t r = false := by
      simp [hd]
    refine ⟨fun t ht r hr => ?_, fun t ht r hr => ?_, fun m hm => ?_⟩
    · obtain ⟨a, ha, he⟩ := hasAccount_iff.mp (h.account t ht r ((hmem t r).mp hr).1)
      exact hasAccount_iff.mpr ⟨a, (hmem .accounts a).mpr ⟨ha, rfl⟩, he⟩
    · obtain ⟨hr, hgo⟩ := (hmem t r).mp hr
      obtain ⟨m, hm, hid⟩ := h.message t ht r hr
      rw [goesWithFolders_of_message ht] at hgo
      simp only [Cond.holds, List.any_eq_false, Bool.and_eq_true, beq_iff_eq, not_and] at hgo
      exact ⟨m, (hmem .messages m).mpr ⟨hm, by simpa [goesWithFolders] using hgo m hm hid⟩, hid⟩
    · obtain ⟨hm, hgo⟩ := (hmem .messages m).mp hm
      obtain ⟨f, hf, hid, ha⟩ := h.folder m hm
      exact ⟨f, (hmem .folders f).mpr ⟨hf, by simpa [goesWithFolders, hid] using hgo⟩, hid, ha⟩
  · rw [hd]
    exact h

/-- What the row belongs to is there. -/
def Proper (db : Rows) (t : Name) (r : Row) : Prop :=
  (t ∈ accountOwnedTables → hasAccount db r.accountID = true) ∧
  (t ∈ messageOwnedTables → ∃ m ∈ db .messages, m.id = r.messageID) ∧
  (t = .messages → ∃ f ∈ db .folders, f.id = r.folderID ∧ f.accountID = r.accountID)

/-- There may be more rows, if what they belong to is there. -/
theorem NoOrphans.grow (h : NoOrphans db) (hsub : ∀ t, db t ⊆ tx t)
    (hnew : ∀ t, ∀ r ∈ tx t, r ∈ db t ∨ Proper db t r) : NoOrphans tx := by
  have haccount : ∀ n, hasAccount db n = true → hasAccount tx n = true := by
    intro n hn
    obtain ⟨a, ha, he⟩ := hasAccount_iff.mp hn
    exact hasAccount_iff.mpr ⟨a, hsub .accounts ha, he⟩
  refine ⟨fun t ht r hr => haccount _ ?_, fun t ht r hr => ?_, fun m hm => ?_⟩
  · rcases hnew t r hr with hold | hp
    · exact h.account t ht r hold
    · exact hp.1 ht
  · have hm : ∃ m ∈ db .messages, m.id = r.messageID := by
      rcases hnew t r hr with hold | hp
      · exact h.message t ht r hold
      · exact hp.2.1 ht
    exact hm.imp fun m hm => ⟨hsub .messages hm.1, hm.2⟩
  · have hf : ∃ f ∈ db .folders, f.id = m.folderID ∧ f.accountID = m.accountID := by
      rcases hnew .messages m hm with hold | hp
      · exact h.folder m hold
      · exact hp.2.2 rfl
    exact hf.imp fun f hf => ⟨hsub .folders hf.1, hf.2⟩

theorem NoOrphans.syncFolders (hs : Sound has db) (h : NoOrphans db) (ha : hasAccount db accountID = true) :
    NoOrphans (syncFolders has x accountID paths db).1 := by
  unfold Purge.syncFolders
  split
  · exact h
  have hl := @listed_upserts has x db accountID paths hs
  have hup : NoOrphans (untilError (upsertByPath has x accountID) db paths).1 := by
    refine h.grow hl.subset fun t r hr => ?_
    by_cases ht : t = .folders
    · subst ht
      rcases hl.folders r hr with hold | ⟨hra, -⟩
      · exact .inl hold
      · exact .inr ⟨fun _ => hra.symm ▸ ha, fun hm => by simp [messageOwnedTables] at hm, fun hm => by cases hm⟩
    · exact .inl (hl.same t ht ▸ hr)
  unfold goOn
  split
  · exact hup
  · exact hup.pruneMissing hl.sound

/-- What is stored belongs to something that is there. -/
def Places (db : DB has) : Op → Prop
  | .start _ | .delete _ _ => True
  | .syncFolders _ accountID _ => hasAccount db.rows accountID = true
  | .insert t r => Proper db.rows t r

theorem noOrphans_step {db db' : DB has} {op : Op} (h : NoOrphans db.rows) (hop : Places db op)
    (hstep : step has db op = some db') : NoOrphans db'.rows := by
  cases op with
  | start x =>
      cases hstep
      have he : (Purge.purgeOrphans has x db.rows).1 = db.rows := h.purgeOrphans
      simpa only [he] using h
  | delete x id =>
      cases hstep
      exact h.delete db.sound
  | syncFolders x accountID paths =>
      cases hstep
      exact h.syncFolders db.sound hop
  | insert t r =>
      rw [(insert_cases hstep).2]
      refine h.grow (subset_add db.rows t r) fun u s hu => ?_
      by_cases hut : u = t
      · subst hut
        rw [Function.update_self] at hu
        rcases List.mem_append.mp hu with hold | hnew
        · exact .inl hold
        · rw [List.mem_singleton.mp hnew]
          exact .inr hop
      · exact .inl (by simpa [hut] using hu)

/-- **Nothing is left of what went.**  Accounts are deleted, lists of folders are taken over and the program is
started, in any order, and any statement may fail.  As long as what is stored belongs to an account, a folder or a
mail that is there, every row that is there does. -/
theorem noOrphans_of_run {db db' : DB has} (h : Run (step has) Places db db') (hdb : NoOrphans db.rows) :
    NoOrphans db'.rows :=
  h.invariant (I := fun tx => NoOrphans tx.rows) (fun _ _ _ hI hop hstep => noOrphans_step hI hop hstep) hdb

/-- What is left of the sample after a start. -/
def started : DB fun _ => true :=
  ⟨(purgeOrphans (fun _ => true) smooth sample.rows).1, sample.sound.thinned thinned_purgeOrphans⟩

theorem noOrphans_of_run_started : ∃ db : DB fun _ => true,
    step (fun _ => true) started (.delete smooth 2) = some db ∧ (db.rows .folders).length = 1 ∧ NoOrphans db.rows := by
  have hstep : ∃ db : DB fun _ => true,
      step (fun _ => true) started (.delete smooth 2) = some db ∧ (db.rows .folders).length = 1 := ⟨_, rfl, rfl⟩
  obtain ⟨db, hdb, hlen⟩ := hstep
  have hrun : Run (step fun _ => true) Places started db := Run.tail .refl (a := .delete smooth 2) trivial hdb
  exact ⟨db, hdb, hlen, noOrphans_of_run hrun ⟨by decide, by decide, by decide⟩⟩

/-! ### Rules for all accounts -/

/-- The columns of a rule that are read. -/
def ruleRow (r : Rules.Rule) : Row := ⟨r.id, r.accountID, 0, 0, []⟩

/-- **A rule for all accounts does not outlive a start.**  Such a rule has `0` in place of an account, and there is
no account with that number. -/
theorem listEnabledFor_of_start (hs : Sound has db) (hdone : (purgeOrphans has x db).2 = none)
    (hzero : hasAccount db 0 = false) {rules : List Rules.Rule}
    (hrules : rules.map ruleRow = (purgeOrphans has x db).1 .inboxRules) (accountID : Nat) :
    Rules.listEnabledFor rules accountID =
      Rules.listEnabledFor (rules.filter fun r => r.accountID == accountID) accountID := by
  have hne : ∀ r ∈ rules, r.accountID ≠ 0 := by
    intro r hr h0
    have hrow : ruleRow r ∈ (purgeOrphans has x db).1 .inboxRules := hrules ▸ List.mem_map_of_mem hr
    rw [purgeOrphans_done hs hdone] at hrow
    have hacc : hasAccount db r.accountID = true := by simpa [orphan, ruleRow] using (List.mem_filter.mp hrow).2
    rw [h0, hzero] at hacc
    cases hacc
  unfold Rules.listEnabledFor
  rw [List.filter_filter]
  congr 1
  refine List.filter_congr fun r hr => ?_
  have h0 := hne r hr
  by_cases ha : r.accountID = accountID <;> simp [h0, ha]

/-- The rule for both accounts is gone after a start, and the one for the first account is left. -/
theorem listEnabledFor_of_start_sample : ∃ rules : List Rules.Rule,
    rules.map ruleRow = (purgeOrphans (fun _ => true) smooth sample.rows).1 .inboxRules ∧
      Rules.listEnabledFor rules 2 = Rules.listEnabledFor (rules.filter fun r => r.accountID == 2) 2 := by
  have hrules : ([⟨2, [], true, 0, 1, [], none, none, false⟩] : List Rules.Rule).map ruleRow =
      (purgeOrphans (fun _ => true) smooth sample.rows).1 .inboxRules := rfl
  exact ⟨_, hrules, listEnabledFor_of_start sample.sound rfl rfl hrules 2⟩

/-! ### The folders and mails of the store -/

/-- The columns of a mail and a folder that are read. -/
def messageRow (m : Message) : Row := ⟨m.id, m.accountID, m.folderID, 0, []⟩

def folderRow (f : Folder) : Row := ⟨f.id, f.accountID, 0, 0, f.path⟩

/-- Pruning that succeeds does to mails and folders what it does to them in the store. -/
theorem pruneMissing_store (hs : Sound has db) {d : FlyMail.DB} (hm : db .messages = d.messages.rows.map messageRow)
    (hf : db .folders = d.folders.rows.map folderRow) {keep : List Text}
    (hdone : (pruneMissing has x accountID keep db).2 = none) :
    (pruneMissing has x accountID keep db).1 .messages =
        (Folder.Repository.pruneMissing accountID keep d).messages.rows.map messageRow ∧
      (pruneMissing has x accountID keep db).1 .folders =
        (Folder.Repository.pruneMissing accountID keep d).folders.rows.map folderRow := by
  have hids : staleIDs accountID keep db = (d.folders.rows.filter fun f =>
      f.accountID == accountID && !keep.contains f.path).map Folder.id := by
    simp only [staleIDs, hf, List.filter_map, List.filter_filter, List.map_map]
    congr 1
    refine List.filter_congr fun f _ => ?_
    by_cases hp : f.path ∈ keep <;> simp [folderRow, hp]
  rcases @pruneMissing_spec has x db accountID keep hs with ⟨-, h⟩ | ⟨hne, -⟩
  · rw [h, h, hids, hm, hf, List.filter_map, List.filter_map]
    exact ⟨rfl, rfl⟩
  · exact absurd hdone hne

end FlyMail.Account.Purge
