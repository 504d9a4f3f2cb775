/-
When the index has what the mail rows have.

While a rebuild goes on, the index has the current entry of every row the back-fill has passed.
Of the others it has either the current entry, if a trigger put it there, or none.  A trigger
takes the row's entry out first, so it keeps this wherever the rebuild stands.  The back-fill
does not: a row of its batch that is entered already is entered a second time.

So a rebuild that never meets such a row leaves the index exact, and writes keep it so; and
one mail that comes in between the emptying of the index and the first batch is enough to be
found twice from then on.
-/
import FlyMail.Lib.Run
import FlyMail.Message.Fts

namespace FlyMail

/-- Rows are told apart by their keys. -/
theorem Table.filter_pk {α κ : Type} {pk : α → Nat} {uk : α → κ} (t : Table α pk uk) (id : Nat) :
    (t.rows.filter fun r => pk r == id) = (t.get? id).toList := by
  have hsorted := t.sorted
  unfold Table.get?
  generalize t.rows = rows at hsorted ⊢
  induction rows with
  | nil => rfl
  | cons r rest ih =>
      obtain ⟨hlt, hrest⟩ := List.pairwise_cons.mp hsorted
      by_cases hr : pk r = id
      · have hnone : (rest.filter fun r => pk r == id) = [] := by
          refine List.filter_eq_nil_iff.mpr fun a ha => ?_
          have := hlt a ha
          simp
          omega
        simp [hr, hnone]
      · simp [hr, ih hrest]

namespace Message.Fts

variable {fn : Functions} {s t : State} {id : Nat}

/-- What should be entered under a key: the row's current entry, if there is such a row. -/
def current (fn : Functions) (s : State) (id : Nat) : List Row :=
  ((Repository.getByID s.db id).map (rowOf fn s.bodies)).toList

/-- The index has one entry for each row, the current one, and no others. -/
def Exact (fn : Functions) (s : State) : Prop := ∀ id, s.index.entries id = current fn s id

/-- The back-fill has passed the key. -/
def State.passed (s : State) (id : Nat) : Prop :=
  match s.rebuild with
  | .idle => True
  | .scan last => id ≤ last
  | .fill last _ => id ≤ last

/-- What the index has of a key. -/
def Entered (fn : Functions) (s : State) (id : Nat) : Prop :=
  s.index.entries id = current fn s id ∨ (¬ s.passed id ∧ s.index.entries id = [])

/-- The keys begin with 1. -/
def State.Keyed (s : State) : Prop := ∀ m ∈ s.db.messages.rows, 0 < m.id

structure Inv (fn : Functions) (s : State) : Prop where
  keyed : s.Keyed
  under_way : s.rebuild ≠ .idle → s.complete = false
  entered : s.rebuild ≠ .idle ∨ s.complete = true → ∀ id, Entered fn s id

theorem entries_ftsRowSelect (fn : Functions) (s : State) (p : Nat → Bool) (id : Nat) :
    (ftsRowSelect fn s p).entries id = if p id then current fn s id else [] := by
  unfold ftsRowSelect current Repository.getByID
  rw [Postings.entries_map, List.filter_filter]
  by_cases hp : p id = true
  · have hsame : (s.db.messages.rows.filter fun m => m.id == id && p m.id)
        = s.db.messages.rows.filter fun m => m.id == id := by
      refine List.filter_congr fun m _ => ?_
      by_cases hm : m.id = id
      · simp [hm, hp]
      · simp [hm]
    rw [if_pos hp, hsame, s.db.messages.filter_pk id]
    cases s.db.messages.get? id <;> rfl
  · have hnone : (s.db.messages.rows.filter fun m => m.id == id && p m.id) = [] := by
      refine List.filter_eq_nil_iff.mpr fun m _ => ?_
      by_cases hm : m.id = id
      · simp [hm, hp]
      · simp [hm]
    rw [if_neg hp, hnone]
    rfl

/-! ### Writers -/

/-- Only what belongs to the key `k` is another now. -/
structure Changes (fn : Functions) (k : Nat) (s t : State) : Prop where
  index : t.index = s.index
  rebuild : t.rebuild = s.rebuild
  complete : t.complete = s.complete
  keyed : s.Keyed → t.Keyed
  current : ∀ id, id ≠ k → current fn t id = current fn s id

section Triggers

variable {k : Nat}

theorem Changes.entered (h : Changes fn k s t) (hid : id ≠ k) (hs : Entered fn s id) :
    Entered fn t id := by
  unfold Entered State.passed at hs ⊢
  rw [h.index, h.rebuild, h.current id hid]
  exact hs

theorem Changes.inv (h : Changes fn k s t) (hs : Inv fn s)
    (hk : Entered fn s k → Entered fn t k) : Inv fn t where
  keyed := h.keyed hs.keyed
  under_way := by
    rw [h.rebuild, h.complete]
    exact hs.under_way
  entered hopen id := by
    rw [h.rebuild, h.complete] at hopen
    by_cases hid : id = k
    · rw [hid]
      exact hk (hs.entered hopen k)
    · exact h.entered hid (hs.entered hopen id)

/-- A trigger that takes an entry out. -/
theorem Changes.remove (h : Changes fn k s t) (hs : Inv fn s) (hnone : Fts.current fn t k = []) :
    Inv fn { t with index := t.index.remove k } := by
  refine ⟨h.keyed hs.keyed, ?_, fun hopen id => ?_⟩
  · show t.rebuild ≠ .idle → t.complete = false
    rw [h.rebuild, h.complete]
    exact hs.under_way
  · have hopen : s.rebuild ≠ .idle ∨ s.complete = true := by
      rw [← h.rebuild, ← h.complete]
      exact hopen
    by_cases hid : id = k
    · subst hid
      refine Or.inl ?_
      show (t.index.remove id).entries id = Fts.current fn t id
      rw [Postings.entries_remove_self, hnone]
    · have hrest := h.entered hid (hs.entered hopen id)
      unfold Entered at hrest ⊢
      show (t.index.remove k).entries id = _ ∨ _ ∧ (t.index.remove k).entries id = _
      rw [Postings.entries_remove_of_ne hid]
      exact hrest

/-- **A trigger that takes an entry out and puts it in again.** -/
theorem Changes.reindex (h : Changes fn k s t) (hs : Inv fn s) : Inv fn (reindex fn k k t) := by
  refine ⟨h.keyed hs.keyed, ?_, fun hopen id => ?_⟩
  · show t.rebuild ≠ .idle → t.complete = false
    rw [h.rebuild, h.complete]
    exact hs.under_way
  · have hopen : s.rebuild ≠ .idle ∨ s.complete = true := by
      rw [← h.rebuild, ← h.complete]
      exact hopen
    have hentries : (Fts.reindex fn k k t).index.entries id
        = (t.index.remove k).entries id ++ if id == k then Fts.current fn t id else [] := by
      show ((t.index.remove k) ++ _).entries id = _
      rw [Postings.entries_append, entries_ftsRowSelect]
    by_cases hid : id = k
    · subst hid
      refine Or.inl ?_
      rw [hentries, Postings.entries_remove_self]
      simp
      rfl
    · have hrest := h.entered hid (hs.entered hopen id)
      unfold Entered at hrest ⊢
      rw [hentries, Postings.entries_remove_of_ne hid]
      rw [if_neg (by simpa using hid), List.append_nil]
      exact hrest

end Triggers

/-! ### Writes -/

section Writes

theorem insert_rows {m : Message}
    (hnew : (s.db.messages.rows.any fun r => r.key == m.key) = false) :
    (Repository.upsert m s.db).messages.rows
      = s.db.messages.rows ++ [Repository.asRow m (s.db.messages.last + 1)] := by
  refine Repository.upsert_rows_of_new fun r hr heq => ?_
  simpa [heq] using List.any_eq_false.mp hnew r hr

theorem changes_insert {m : Message} (hnew : (s.db.messages.rows.any fun r => r.key == m.key) = false) :
    Changes fn (s.db.messages.last + 1) s { s with db := Repository.upsert m s.db } where
  index := rfl
  rebuild := rfl
  complete := rfl
  keyed hs r hr := by
    change r ∈ (Repository.upsert m s.db).messages.rows at hr
    rw [insert_rows hnew] at hr
    rcases List.mem_append.mp hr with hr | hr
    · exact hs r hr
    · rw [List.mem_singleton.mp hr]
      exact Nat.succ_pos _
  current id hid := by
    unfold current Repository.getByID Table.get?
    rw [insert_rows hnew, List.find?_append]
    have hne : (Repository.asRow m (s.db.messages.last + 1)).id ≠ id := fun h => hid h.symm
    simp [hne]

theorem changes_update (k : Nat) (m : Message) :
    Changes fn k s { s with
      db := { s.db with
        messages := s.db.messages.modify (fun r => r.id == k) (updated m) (fun _ => rfl)
          fun _ => rfl } } where
  index := rfl
  rebuild := rfl
  complete := rfl
  keyed hs r hr := by
    obtain ⟨a, ha, rfl⟩ := List.mem_map.mp hr
    have hpos := hs a ha
    split
    · exact hpos
    · exact hpos
  current id hid := by
    have hget : ((s.db.messages.rows.map fun r => if r.id == k then updated m r else r).find?
        fun r => r.id == id) = s.db.messages.rows.find? fun r => r.id == id := by
      induction s.db.messages.rows with
      | nil => rfl
      | cons r rest ih =>
          rw [List.map_cons, List.find?_cons, List.find?_cons, ih]
          by_cases hr : r.id = k
          · have hne : (r.id == id) = false := by simp [hr, Ne.symm hid]
            have hkey : ((updated m r).id == id) = false := hne
            rw [if_pos (by simpa using hr), hkey, hne]
          · rw [if_neg (by simpa using hr)]
    show ((List.find? _ (List.map _ _)).map _).toList = _
    rw [hget]
    rfl

theorem changes_delete (k : Nat) :
    Changes fn k s { s with db := Repository.deleteByIDs [k] s.db } where
  index := rfl
  rebuild := rfl
  complete := rfl
  keyed hs r hr := hs r (List.mem_filter.mp hr).1
  current id hid := by
    have hget : ((s.db.messages.rows.filter fun r => !([k].contains r.id)).find?
        fun r => r.id == id) = s.db.messages.rows.find? fun r => r.id == id := by
      rw [List.find?_filter]
      refine congrArg (fun p => List.find? p _) (funext fun r => ?_)
      by_cases hr : r.id = id
      · simp [hr, hid]
      · simp [hr]
    show ((List.find? _ (List.filter _ _)).map _).toList = _
    rw [hget]
    rfl

/-- The rows of other mails are made of other bodies. -/
theorem changes_bodies {k : Nat} {t : Bodies}
    (h : ∀ id, id ≠ k → t.getByMessageID id = s.bodies.getByMessageID id) :
    Changes fn k s { s with bodies := t } where
  index := rfl
  rebuild := rfl
  complete := rfl
  keyed hs := hs
  current id hid := by
    unfold current
    cases hm : Repository.getByID s.db id with
    | none => rfl
    | some m =>
        have hrow : m.id = id := (Table.get?_eq_some.mp hm).2
        simp only [Option.map_some, rowOf, hrow, h id hid]

theorem messageID_of_get {t : Bodies} {k : Nat} {b : MessageBody}
    (h : t.getByMessageID k = some b) : b.messageID = k := by
  simpa using List.find?_some h

theorem changes_upsertBody (b : MessageBody) :
    Changes fn b.messageID s { s with bodies := s.bodies.upsert b } :=
  changes_bodies fun id hid => by rw [Bodies.getByMessageID_upsert, if_neg hid]

theorem changes_deleteBody (k : Nat) :
    Changes fn k s { s with
      bodies := { s.bodies with
        bodies := s.bodies.bodies.filter fun b => b.messageID != k } } := by
  refine changes_bodies fun id hid => ?_
  unfold Bodies.getByMessageID
  rw [List.find?_filter]
  refine congrArg (fun p => List.find? p _) (funext fun b => ?_)
  by_cases hb : b.messageID = id
  · simp [hb, hid]
  · simp [hb]

/-- A row none of whose columns the index has is written. -/
theorem inv_messagesAU {k : Nat} (hs : Inv fn s) {m old : Message}
    (hold : Repository.getByID s.db k = some old) (ht : Changes fn k s t)
    (hnew : Repository.getByID t.db k = some (updated m old)) (hbodies : t.bodies = s.bodies) :
    Inv fn (messagesAU fn old (updated m old) t) := by
  have hid : old.id = k := (Table.get?_eq_some.mp hold).2
  unfold messagesAU
  split
  · subst hid
    exact ht.reindex hs
  · rename_i hsame
    refine ht.inv hs fun hentered => ?_
    have hcurrent : current fn t k = current fn s k := by
      unfold current
      rw [hold, hnew, hbodies]
      simp only [not_or, not_not] at hsame
      obtain ⟨hsubject, hname, haddr, hto, hcc⟩ := hsame
      simp only [Option.map_some, rowOf, ← hsubject, ← hname, ← haddr, ← hto, ← hcc]
      rfl
    unfold Entered State.passed at hentered ⊢
    rw [ht.index, ht.rebuild, hcurrent]
    exact hentered

theorem inv_messageBodiesAU (hs : Inv fn s) {b old : MessageBody}
    (hold : s.bodies.getByMessageID b.messageID = some old) :
    Inv fn (messageBodiesAU fn old b { s with bodies := s.bodies.upsert b }) := by
  unfold messageBodiesAU
  split
  · exact (changes_upsertBody b).reindex hs
  · rename_i hsame
    refine (changes_upsertBody b).inv hs fun hentered => ?_
    have heq : b = old := by
      have hid := messageID_of_get hold
      simp only [not_or, not_not] at hsame
      cases b
      cases old
      simp_all
    have hbody : (s.bodies.upsert b).getByMessageID b.messageID
        = s.bodies.getByMessageID b.messageID := by
      rw [Bodies.getByMessageID_upsert, if_pos rfl, hold, heq]
    have hcurrent : current fn { s with bodies := s.bodies.upsert b } b.messageID
        = current fn s b.messageID := by
      unfold current
      cases hm : Repository.getByID s.db b.messageID with
      | none => rfl
      | some m =>
          have hrow : m.id = b.messageID := (Table.get?_eq_some.mp hm).2
          simp only [Option.map_some, rowOf, hrow, hbody]
    unfold Entered at hentered ⊢
    rw [hcurrent]
    exact hentered

/-- **Whatever others write, the triggers keep what the index has.** -/
theorem inv_write (hs : Inv fn s) {w : Write} (hw : s.write fn w = some t) : Inv fn t := by
  cases w with
  | insert m =>
      simp only [State.write] at hw
      split at hw
      · cases hw
      · rename_i hnew
        exact Option.some.inj hw ▸ (changes_insert (Bool.not_eq_true _ ▸ hnew)).reindex hs
  | update k m =>
      obtain ⟨old, hold, rfl⟩ := Option.map_eq_some_iff.mp hw
      refine inv_messagesAU hs hold (changes_update k m) ?_ rfl
      obtain ⟨hmem, hid⟩ := Table.get?_eq_some.mp hold
      refine Table.get?_eq_some.mpr ⟨?_, hid⟩
      refine List.mem_map.mpr ⟨old, hmem, ?_⟩
      rw [if_pos (by simpa using hid)]
  | delete k =>
      obtain ⟨old, hold, rfl⟩ := Option.map_eq_some_iff.mp hw
      obtain rfl : old.id = k := (Table.get?_eq_some.mp hold).2
      refine (changes_delete old.id).remove hs ?_
      have hnone : Repository.getByID (Repository.deleteByIDs [old.id] s.db) old.id = none := by
        refine Table.get?_eq_none.mpr fun r hr heq => ?_
        have hout := (Table.mem_delete.mp hr).2
        simp [heq] at hout
      unfold current
      rw [hnone]
      rfl
  | insertBody b =>
      simp only [State.write] at hw
      split at hw
      · cases hw
      · exact Option.some.inj hw ▸ (changes_upsertBody b).reindex hs
  | updateBody b =>
      obtain ⟨old, hold, rfl⟩ := Option.map_eq_some_iff.mp hw
      exact inv_messageBodiesAU hs hold
  | deleteBody k =>
      obtain ⟨old, hold, rfl⟩ := Option.map_eq_some_iff.mp hw
      obtain rfl := messageID_of_get hold
      exact (changes_deleteBody old.messageID).reindex hs

end Writes

/-! ### A rebuild -/

/-- No row the back-fill is about to enter is entered already. -/
def State.clear (s : State) : Act → Bool
  | .backfill =>
      match s.rebuild with
      | .fill last upper =>
          s.db.messages.rows.all fun m =>
            !(decide (last < m.id) && decide (m.id ≤ upper)) || (s.index.entries m.id).isEmpty
      | _ => true
  | _ => true

/-- Behind the last batch there is no row. -/
theorem current_of_upperBound {last : Nat} (h : upperBound s last = none) (hid : last < id) :
    current fn s id = [] := by
  have hnone : Repository.getByID s.db id = none := by
    refine Table.get?_eq_none.mpr fun m hm heq => ?_
    unfold upperBound at h
    rw [List.max?_eq_none_iff, List.map_eq_nil_iff, List.take_eq_nil_iff] at h
    rcases h with h | h
    · exact absurd h (by decide)
    · have hout := List.filter_eq_nil_iff.mp h m hm
      rw [decide_eq_true_eq] at hout
      omega
  unfold current
  rw [hnone]
  rfl

theorem inv_batchBound (hs : Inv fn s) {last : Nat} (hscan : s.rebuild = .scan last)
    (h : upperBound s last = none) : Inv fn { s with rebuild := .idle, complete := true } where
  keyed := hs.keyed
  under_way hopen := absurd rfl hopen
  entered _ id := by
    have hopen : s.rebuild ≠ .idle := by simp [hscan]
    refine Or.inl ?_
    rcases hs.entered (Or.inl hopen) id with heq | ⟨hnot, hempty⟩
    · exact heq
    · have hlast : last < id := by simpa [State.passed, hscan] using hnot
      exact hempty.trans (current_of_upperBound h hlast).symm

/-- **The back-fill enters a batch**, none of which is entered already. -/
theorem inv_backfill (hs : Inv fn s) {last upper : Nat} (hfill : s.rebuild = .fill last upper)
    (hclear : s.clear .backfill = true) :
    Inv fn { s with
      index := s.index ++ ftsRowSelect fn s fun id => decide (last < id) && decide (id ≤ upper)
      rebuild := .scan upper } where
  keyed := hs.keyed
  under_way _ := hs.under_way (by simp [hfill])
  entered _ id := by
    have hentered := hs.entered (Or.inl (by simp [hfill])) id
    have hentries : (s.index ++ ftsRowSelect fn s fun id =>
        decide (last < id) && decide (id ≤ upper)).entries id
          = s.index.entries id ++ if last < id ∧ id ≤ upper then current fn s id else [] := by
      rw [Postings.entries_append, entries_ftsRowSelect]
      simp
    unfold Entered State.passed at hentered ⊢
    rw [hfill] at hentered
    rw [hentries]
    by_cases hbatch : last < id ∧ id ≤ upper
    · rw [if_pos hbatch]
      refine Or.inl ?_
      cases hm : Repository.getByID s.db id with
      | none =>
          have hnone : current fn s id = [] := by simp [current, hm]
          rcases hentered with heq | ⟨-, hempty⟩
          · rw [heq, hnone]
            exact hnone.symm
          · rw [hempty, hnone]
            exact hnone.symm
      | some m =>
          obtain ⟨hmem, rfl⟩ := Table.get?_eq_some.mp hm
          simp only [State.clear, hfill, List.all_eq_true] at hclear
          have hempty := hclear m hmem
          rw [decide_eq_true hbatch.1, decide_eq_true hbatch.2] at hempty
          have hnil : s.index.entries m.id = [] := by simpa using hempty
          rw [hnil]
          rfl
    · rw [if_neg hbatch, List.append_nil]
      rcases hentered with heq | ⟨hnot, hempty⟩
      · exact Or.inl heq
      · exact Or.inr ⟨fun hle => hbatch ⟨by omega, hle⟩, hempty⟩

theorem inv_step (hs : Inv fn s) {a : Act} (hclear : s.clear a = true)
    (hstep : step fn s a = some t) : Inv fn t := by
  cases a with
  | write w => exact inv_write hs hstep
  | deleteAll =>
      simp only [step] at hstep
      split at hstep
      · obtain rfl := Option.some.inj hstep
        refine ⟨hs.keyed, fun _ => rfl, fun _ id => ?_⟩
        by_cases hzero : id ≤ 0
        · refine Or.inl ?_
          have hnone : Repository.getByID s.db id = none := by
            refine Table.get?_eq_none.mpr fun m hm heq => ?_
            have hpos := hs.keyed m hm
            omega
          unfold current
          rw [hnone]
          rfl
        · exact Or.inr ⟨hzero, rfl⟩
      · cases hstep
  | batchBound =>
      simp only [step] at hstep
      split at hstep
      · rename_i last hscan
        split at hstep
        · rename_i hnone
          exact Option.some.inj hstep ▸ inv_batchBound hs hscan hnone
        · rename_i upper hsome
          obtain rfl := Option.some.inj hstep
          have hopen : s.rebuild ≠ .idle := by simp [hscan]
          refine ⟨hs.keyed, fun _ => hs.under_way hopen, fun _ id => ?_⟩
          have hentered := hs.entered (Or.inl hopen) id
          unfold Entered State.passed at hentered ⊢
          rw [hscan] at hentered
          exact hentered
      · cases hstep
  | backfill =>
      simp only [step] at hstep
      split at hstep
      · rename_i last upper hfill
        exact Option.some.inj hstep ▸ inv_backfill hs hfill hclear
      · cases hstep
  | abort =>
      simp only [step] at hstep
      split at hstep
      · cases hstep
      · rename_i hopen
        obtain rfl := Option.some.inj hstep
        have hcomplete := hs.under_way hopen
        refine ⟨hs.keyed, fun h => absurd rfl h, fun h => ?_⟩
        rcases h with h | h
        · exact absurd rfl h
        · rw [show s.complete = true from h] at hcomplete
          cases hcomplete

/-- **When a rebuild has completed, the index is exact, and writes keep it so**, whatever is
written meanwhile and however often a rebuild breaks off, provided that no rebuild comes to a
batch with a row that is entered already. -/
theorem exact_of_run {s t : State} (hkeyed : s.Keyed) (hidle : s.rebuild = .idle)
    (hnot : s.complete = false)
    (hrun : Run (step fn) (fun s a => s.clear a = true) s t) (hcomplete : t.complete = true) :
    Exact fn t := by
  have hinit : Inv fn s := by
    refine ⟨hkeyed, fun h => absurd hidle h, fun h => ?_⟩
    rcases h with h | h
    · exact absurd hidle h
    · rw [hnot] at h
      cases h
  have hinv := hrun.invariant (fun _ _ _ hs hclear hstep => inv_step hs hclear hstep) hinit
  have hdone : t.rebuild = .idle := by
    by_contra hopen
    rw [hinv.under_way hopen] at hcomplete
    cases hcomplete
  intro id
  rcases hinv.entered (Or.inr hcomplete) id with heq | ⟨hpassed, -⟩
  · exact heq
  · exact absurd (by rw [State.passed, hdone]; trivial) hpassed

/-- Words stand as they are. -/
private def plain : Functions := ⟨fun _ => false, fun _ => [], fun t => t⟩

private def oneRow : State :=
  ⟨⟨.single (.bare 1 1 1 (.numbered 1)), .empty, .empty⟩, ⟨[], []⟩, [], .idle, false⟩

/-- A mail comes in when the rebuild is done. -/
theorem exact_of_run_oneRow : ∃ t : State,
    exec (step plain) (fun s a => s.clear a) oneRow [.deleteAll, .batchBound, .backfill, .batchBound,
      .write (.insert (.bare 0 1 1 (.numbered 2)))] = some t ∧
        t.index.map Prod.fst = [1, 2] ∧ Exact plain t := by
  have hview : (exec (step plain) (fun s a => s.clear a) oneRow [.deleteAll, .batchBound, .backfill,
      .batchBound, .write (.insert (.bare 0 1 1 (.numbered 2)))]).map (fun t =>
        (t.complete, t.index.map Prod.fst)) = some (true, [1, 2]) := rfl
  obtain ⟨t, ht, heq⟩ := Option.map_eq_some_iff.mp hview
  obtain ⟨hcomplete, hindex⟩ := Prod.mk.inj heq
  have hkeyed : oneRow.Keyed := by
    intro m hm
    rw [List.mem_singleton.mp hm]
    exact Nat.one_pos
  exact ⟨t, ht, hindex, exact_of_run hkeyed rfl rfl (Run.ofExec _ ht) hcomplete⟩

/-- **A mail that comes in between the emptying of the index and the first batch is entered
twice**: by the trigger and by the back-fill. -/
theorem entered_twice : ∃ t : State,
    exec (step plain) (fun _ _ => true) ⟨⟨.empty, .empty, .empty⟩, ⟨[], []⟩, [], .idle, false⟩
      [.deleteAll, .write (.insert (.bare 0 1 1 (.numbered 1))), .batchBound, .backfill,
        .batchBound] = some t ∧ t.complete = true ∧ ¬ Exact plain t := by
  have hview : (exec (step plain) (fun _ _ => true)
      ⟨⟨.empty, .empty, .empty⟩, ⟨[], []⟩, [], .idle, false⟩
      [.deleteAll, .write (.insert (.bare 0 1 1 (.numbered 1))), .batchBound, .backfill,
        .batchBound]).map (fun t => (t.complete, (t.index.entries 1).length, (current plain t 1).length))
          = some (true, 2, 1) := rfl
  obtain ⟨t, ht, heq⟩ := Option.map_eq_some_iff.mp hview
  obtain ⟨hcomplete, hlengths⟩ := Prod.mk.inj heq
  obtain ⟨hentries, hcurrent⟩ := Prod.mk.inj hlengths
  refine ⟨t, ht, hcomplete, fun hexact => ?_⟩
  rw [hexact 1, hcurrent] at hentries
  omega

end Message.Fts

end FlyMail
