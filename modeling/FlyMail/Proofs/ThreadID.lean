/-
New names for old conversations.

A name of the old form is replaced by `newName` of it, whichever rows have it; two old names that
come out as one stop the loop (`foldlM_openRow`).  Nothing looks at the names that are not of the
old form.  An old name may come out as one of them, and the two conversations are one from then on:
`ensureOpaque_keeps_iff` says that nothing else can go wrong, whichever statement fails.
-/
import FlyMail.Message.ThreadID
import FlyMail.Proofs.Rebuild

namespace FlyMail.Message

open Proc

/-- What a name is replaced by. -/
def newName (digest : Text → Text) (t : Text) : Option Text :=
  (Text.cut t ':').map fun p => p.1 ++ ':' :: digest p.2

/-- Two names come out as one. -/
def Collides (digest : Text → Text) (rows : List Message) : Prop :=
  ∃ q ∈ rows, ∃ r ∈ rows, q.threadID ≠ r.threadID ∧
    ∃ n, newName digest q.threadID = some n ∧ newName digest r.threadID = some n

/-! ### The loop -/

/-- What holds once the rows `done` are through. -/
structure Opens (digest : Text → Text) (done : List Message) (st : Opened) : Prop where
  renamed : ∀ t n, st.renamed t = some n ↔
    (∃ r ∈ done, r.threadID = t) ∧ newName digest t = some n
  taken : ∀ n t, st.taken n = some t ↔
    (∃ r ∈ done, r.threadID = t) ∧ newName digest t = some n
  updates : st.updates = done.filterMap fun r => (newName digest r.threadID).map fun n => (r.id, n)

section Loop

variable {digest : Text → Text} {done : List Message} {st : Opened}

theorem opens_nil (digest : Text → Text) : Opens digest [] .empty := by
  refine ⟨fun t n => ?_, fun n t => ?_, rfl⟩
  · exact iff_of_false (by simp [Opened.empty]) (by simp)
  · exact iff_of_false (by simp [Opened.empty]) (by simp)

/-- No two names have come out as one. -/
theorem Opens.not_collides (h : Opens digest done st) : ¬ Collides digest done := by
  rintro ⟨q, hq, r, hr, hne, n, hqn, hrn⟩
  have hq' := (h.taken n q.threadID).mpr ⟨⟨q, hq, rfl⟩, hqn⟩
  have hr' := (h.taken n r.threadID).mpr ⟨⟨r, hr, rfl⟩, hrn⟩
  rw [hq'] at hr'
  exact hne (Option.some.inj hr')

/-- **One row of the loop.** -/
theorem Opens.step (h : Opens digest done st) (m : Message) :
    (∃ st', openRow digest st m = .ok st' ∧ Opens digest (done ++ [m]) st') ∨
      ∃ e, openRow digest st m = .error e ∧ Collides digest (done ++ [m]) := by
  have hmem : ∀ t, (∃ r ∈ done ++ [m], r.threadID = t) ↔ (∃ r ∈ done, r.threadID = t) ∨ m.threadID = t := by
    intro t
    simp only [List.mem_append, List.mem_singleton, or_and_right, exists_or, exists_eq_left]
  have hlast : ∀ n, newName digest m.threadID = some n →
      (done ++ [m]).filterMap (fun r => (newName digest r.threadID).map fun n => (r.id, n))
        = st.updates ++ [(m.id, n)] := by
    intro n hn
    rw [List.filterMap_append, ← h.updates]
    simp [hn]
  unfold openRow
  cases hren : st.renamed m.threadID with
  | some n =>
      obtain ⟨⟨r, hr, hrm⟩, hn⟩ := (h.renamed _ _).mp hren
      -- a row of this name has been there
      have hsame : ∀ t, (∃ r ∈ done ++ [m], r.threadID = t) ↔ ∃ r ∈ done, r.threadID = t := by
        intro t
        rw [hmem]
        exact or_iff_left_of_imp fun heq => ⟨r, hr, hrm.trans heq⟩
      refine Or.inl ⟨_, rfl, fun t k => ?_, fun k t => ?_, (hlast n hn).symm⟩
      · rw [hsame]
        exact h.renamed t k
      · rw [hsame]
        exact h.taken k t
  | none =>
      have hnew : newName digest m.threadID ≠ none → ∀ r ∈ done, r.threadID ≠ m.threadID := by
        intro hsome r hr heq
        obtain ⟨n, hn⟩ := Option.ne_none_iff_exists'.mp hsome
        rw [(h.renamed _ _).mpr ⟨⟨r, hr, heq⟩, hn⟩] at hren
        cases hren
      cases hcut : Text.cut m.threadID ':' with
      | none =>
          have hnone : newName digest m.threadID = none := by
            unfold newName
            rw [hcut]
            rfl
          have hsame : ∀ t n, newName digest t = some n →
              ((∃ r ∈ done ++ [m], r.threadID = t) ↔ ∃ r ∈ done, r.threadID = t) := by
            intro t n hn
            rw [hmem]
            refine or_iff_left fun heq => ?_
            rw [← heq, hnone] at hn
            cases hn
          refine Or.inl ⟨st, rfl, fun t k => ?_, fun k t => ?_, ?_⟩
          · rw [h.renamed]
            exact and_congr_left fun hk => (hsame t k hk).symm
          · rw [h.taken]
            exact and_congr_left fun hk => (hsame t k hk).symm
          · rw [List.filterMap_append, ← h.updates]
            simp [hnone]
      | some p =>
          obtain ⟨acct, mid⟩ := p
          have hn : newName digest m.threadID = some (acct ++ ':' :: digest mid) := by
            unfold newName
            rw [hcut]
            rfl
          have hfresh := hnew (by rw [hn]; exact Option.some_ne_none _)
          dsimp only
          cases htaken : st.taken (acct ++ ':' :: digest mid) with
          | some prev =>
              obtain ⟨⟨q, hq, rfl⟩, hqn⟩ := (h.taken _ _).mp htaken
              exact Or.inr ⟨_, rfl, q, List.mem_append_left _ hq, m,
                List.mem_append_right _ (List.mem_singleton.mpr rfl), hfresh q hq, _, hqn, hn⟩
          | none =>
              refine Or.inl ⟨_, rfl, fun t k => ?_, fun k t => ?_, (hlast _ hn).symm⟩
              · rw [hmem, or_and_right, ← h.renamed]
                dsimp only
                by_cases heq : m.threadID = t
                · subst heq
                  rw [hren, Function.update_self, hn]
                  simp
                · rw [Function.update_of_ne (Ne.symm heq)]
                  simp [heq]
              · rw [hmem, or_and_right, ← h.taken]
                dsimp only
                by_cases heq : k = acct ++ ':' :: digest mid
                · subst heq
                  rw [htaken, Function.update_self]
                  simp only [reduceCtorEq, false_or, Option.some.injEq]
                  exact ⟨fun heq => ⟨heq, heq ▸ hn⟩, fun h => h.1⟩
                · rw [Function.update_of_ne heq]
                  refine (or_iff_left ?_).symm
                  rintro ⟨rfl, hk⟩
                  rw [hn] at hk
                  exact heq (Option.some.inj hk).symm

/-- **The loop.** -/
theorem foldlM_openRow (rows : List Message) :
    ∀ {done : List Message} {st : Opened}, Opens digest done st →
      (∃ st', rows.foldlM (openRow digest) st = .ok st' ∧ Opens digest (done ++ rows) st') ∨
        ∃ e, rows.foldlM (openRow digest) st = .error e ∧ Collides digest (done ++ rows) := by
  induction rows with
  | nil =>
      intro done st h
      rw [List.append_nil]
      exact Or.inl ⟨st, rfl, h⟩
  | cons m rest ih =>
      intro done st h
      have happend : done ++ m :: rest = done ++ [m] ++ rest := by simp
      rw [happend, List.foldlM_cons]
      rcases h.step m with ⟨st', hstep, h'⟩ | ⟨e, hstep, q, hq, r, hr, hrest⟩
      · rw [hstep]
        exact ih h'
      · rw [hstep]
        exact Or.inr ⟨e, rfl, q, List.mem_append_left _ hq, r, List.mem_append_left _ hr, hrest⟩

end Loop

/-! ### The migration -/

section Main

variable {digest : Text → Text} {db : DB}

/-- The rows whose names are to be replaced. -/
def oldRows (db : DB) : List Message := db.messages.rows.filter fun m => m.threadID.contains '@'

theorem mem_oldRows {r : Message} : r ∈ oldRows db ↔ r ∈ db.messages.rows ∧ '@' ∈ r.threadID := by
  unfold oldRows
  rw [List.mem_filter, List.contains_iff_mem]

/-- Every name is empty, or starts with the number of an account and a colon. -/
def NamesFormed (db : DB) : Prop :=
  ∀ r ∈ db.messages.rows, r.threadID = [] ∨ ∃ n t, r.threadID = Text.formatUint n ++ ':' :: t

/-- What is asked of the migration, whichever of its statements fails. -/
def Migrates (digest : Text → Text) (db : DB) (fault : ThreadIDStmt → Fault) : Prop :=
  ((ensureOpaqueThreadIDs digest (.faulty fault) db).1 ≠ .ok () ∧
    (ensureOpaqueThreadIDs digest (.faulty fault) db).2 = db) ∨
  ∃ db', ensureOpaqueThreadIDs digest (.faulty fault) db = (.ok (), db') ∧
    (∀ r ∈ db.messages.rows, ∀ s ∈ db.messages.rows,
      threadOf db' r = threadOf db' s ↔ r.threadID = s.threadID) ∧
    (∀ r ∈ db.messages.rows, ∀ n t, r.threadID = Text.formatUint n ++ ':' :: t → '@' ∈ t →
      threadOf db' r = Text.formatUint n ++ ':' :: digest t) ∧
    ∀ again, (ensureOpaqueThreadIDs digest (.faulty again) db').2 = db'

/-- No name comes out as a name that is not replaced. -/
def NewNamesFree (digest : Text → Text) (db : DB) : Prop :=
  ∀ r ∈ oldRows db, ∀ s ∈ db.messages.rows, '@' ∉ s.threadID → newName digest r.threadID ≠ some s.threadID

theorem colon_notMem_formatUint (n : Nat) : ':' ∉ Text.formatUint n :=
  fun h => absurd (Text.isDigit_of_mem_formatUint h) (by decide)

theorem newName_formed (digest : Text → Text) (n : Nat) (t : Text) :
    newName digest (Text.formatUint n ++ ':' :: t) = some (Text.formatUint n ++ ':' :: digest t) := by
  unfold newName
  rw [Text.cut_append (colon_notMem_formatUint n)]
  rfl

/-- An old name is replaced, by one that shows no Message-ID. -/
theorem exists_newName (hhex : ∀ t, ∀ c ∈ digest t, c ∈ "0123456789abcdef".toList)
    (hformed : NamesFormed db) {r : Message} (hr : r ∈ oldRows db) :
    ∃ n, newName digest r.threadID = some n ∧ '@' ∉ n := by
  obtain ⟨hr, hat⟩ := mem_oldRows.mp hr
  rcases hformed r hr with hnil | ⟨n, t, heq⟩
  · rw [hnil] at hat
    exact absurd hat List.not_mem_nil
  · refine ⟨_, heq ▸ newName_formed digest n t, ?_⟩
    rw [List.mem_append, List.mem_cons]
    rintro (h | h | h)
    · exact absurd (Text.isDigit_of_mem_formatUint h) (by decide)
    · exact absurd h (by decide)
    · exact absurd (hhex t _ h) (by decide)

/-- The changes of a migration. -/
def opening (digest : Text → Text) (db : DB) : List (Nat × Text) :=
  (oldRows db).filterMap fun r => (newName digest r.threadID).map fun n => (r.id, n)

theorem mem_opening {p : Nat × Text} :
    p ∈ opening digest db ↔ ∃ r ∈ oldRows db, newName digest r.threadID = some p.2 ∧ r.id = p.1 := by
  unfold opening
  rw [List.mem_filterMap]
  refine exists_congr fun r => and_congr_right fun _ => ?_
  rw [Option.map_eq_some_iff]
  constructor
  · rintro ⟨n, hn, rfl⟩
    exact ⟨hn, rfl⟩
  · rintro ⟨hn, hid⟩
    exact ⟨p.2, hn, by rw [hid]⟩

/-- **The thread of a row after the migration.** -/
theorem threadOf_opened {r : Message} (hr : r ∈ db.messages.rows) :
    threadOf (applyUpdates (opening digest db) db) r
      = if '@' ∈ r.threadID then (newName digest r.threadID).getD r.threadID else r.threadID := by
  have hmem := List.mem_map_of_mem (f := retagAll (opening digest db)) hr
  rw [← applyUpdates_rows] at hmem
  rw [threadOf_of_mem hmem (retagAll_keys _ r).2.1]
  have hown : ∀ p ∈ opening digest db, p.1 = r.id →
      r ∈ oldRows db ∧ newName digest r.threadID = some p.2 := by
    intro p hp hid
    obtain ⟨q, hq, hn, hqid⟩ := mem_opening.mp hp
    have heq : q = r := db.messages.eq_of_pk (mem_oldRows.mp hq).1 hr (hqid.trans hid)
    exact ⟨heq ▸ hq, heq ▸ hn⟩
  split
  · rename_i hat
    have hold : r ∈ oldRows db := mem_oldRows.mpr ⟨hr, hat⟩
    cases hn : newName digest r.threadID with
    | some n =>
        refine retagAll_threadID _ (fun p hp hid => ?_) (Or.inr (mem_opening.mpr ⟨r, hold, hn, rfl⟩))
        have hpn := (hown p hp hid).2
        rw [hn] at hpn
        exact (Option.some.inj hpn).symm
    | none =>
        rw [retagAll_of_notMem _ fun p hp hid => by rw [hn] at hown; exact absurd (hown p hp hid).2 (by simp)]
        rfl
  · rename_i hat
    rw [retagAll_of_notMem _ fun p hp hid => hat (mem_oldRows.mp (hown p hp hid).1).2]

/-- How a run ends. -/
theorem ensureOpaque_run (digest : Text → Text) (db : DB) (fault : ThreadIDStmt → Fault) :
    ((ensureOpaqueThreadIDs digest (.faulty fault) db).1 ≠ .ok () ∧
      (ensureOpaqueThreadIDs digest (.faulty fault) db).2 = db ∧
        (Collides digest (oldRows db) ∨ ∃ stmt, fault stmt ≠ .none)) ∨
    (ensureOpaqueThreadIDs digest (.faulty fault) db = (.ok (), applyUpdates (opening digest db) db) ∧
      ¬ Collides digest (oldRows db)) := by
  unfold ensureOpaqueThreadIDs queryDB
  cases hsel : fault .select with
  | fail =>
      rw [bind_err (Proc.query_fail hsel)]
      exact Or.inl ⟨by simp, rfl, Or.inr ⟨.select, by rw [hsel]; simp⟩⟩
  | crash =>
      rw [bind_dead (Proc.query_crash hsel)]
      exact Or.inl ⟨by simp, rfl, Or.inr ⟨.select, by rw [hsel]; simp⟩⟩
  | none =>
      have hstay : (Env.faulty fault : Env ThreadIDStmt DB).meddle .select db = db := rfl
      rw [bind_ok (a := oldRows db) (Proc.query_none hsel), hstay]
      rcases foldlM_openRow (oldRows db) (opens_nil digest) with ⟨st, hfold, hopens⟩ | ⟨e, hfold, hcollides⟩
      · rw [List.nil_append] at hopens
        have hupdates : st.updates = opening digest db := hopens.updates
        rw [hfold]
        dsimp only
        rw [hupdates]
        by_cases hnil : opening digest db = []
        · rw [if_pos hnil, hnil]
          exact Or.inr ⟨rfl, hopens.not_collides⟩
        · rw [if_neg hnil]
          cases hwrite : fault .write with
          | none => exact Or.inr ⟨Proc.update_none hwrite, hopens.not_collides⟩
          | fail =>
              have hrun : (updateDB .write .db (applyUpdates (opening digest db)) :
                  Proc ThreadIDStmt ThreadIDErr DB Unit) (.faulty fault) db = (.err .db, db) :=
                Proc.update_fail hwrite
              rw [hrun]
              exact Or.inl ⟨by simp, rfl, Or.inr ⟨.write, by rw [hwrite]; simp⟩⟩
          | crash =>
              have hrun : (updateDB .write .db (applyUpdates (opening digest db)) :
                  Proc ThreadIDStmt ThreadIDErr DB Unit) (.faulty fault) db = (.dead, db) :=
                Proc.update_crash hwrite
              rw [hrun]
              exact Or.inl ⟨by simp, rfl, Or.inr ⟨.write, by rw [hwrite]; simp⟩⟩
      · rw [List.nil_append] at hcollides
        rw [hfold]
        exact Or.inl ⟨by simp, rfl, Or.inl hcollides⟩

/-- Where no name is old, nothing is changed. -/
theorem ensureOpaque_of_new (digest : Text → Text) (fault : ThreadIDStmt → Fault) (h : oldRows db = []) :
    (ensureOpaqueThreadIDs digest (.faulty fault) db).2 = db := by
  have hopening : opening digest db = [] := by
    unfold opening
    rw [h]
    rfl
  rcases ensureOpaque_run digest db fault with ⟨-, hsame, -⟩ | ⟨hrun, -⟩
  · exact hsame
  · rw [hrun, hopening]
    rfl

/-- **The migration keeps conversations apart and together exactly if** two names come out as one,
and it stops, or no name comes out as a name that is not replaced. -/
theorem ensureOpaque_keeps_iff (hhex : ∀ t, ∀ c ∈ digest t, c ∈ "0123456789abcdef".toList)
    (hformed : NamesFormed db) :
    (∀ fault, Migrates digest db fault) ↔ Collides digest (oldRows db) ∨ NewNamesFree digest db := by
  have hthread : ∀ r ∈ oldRows db, ∀ n, newName digest r.threadID = some n →
      threadOf (applyUpdates (opening digest db) db) r = n := by
    intro r hr n hn
    obtain ⟨hr, hat⟩ := mem_oldRows.mp hr
    rw [threadOf_opened hr, if_pos hat, hn]
    rfl
  have hkept : ∀ r ∈ db.messages.rows, '@' ∉ r.threadID →
      threadOf (applyUpdates (opening digest db) db) r = r.threadID := by
    intro r hr hat
    rw [threadOf_opened hr, if_neg hat]
  constructor
  · intro h
    rcases h fun _ => .none with ⟨hfail, -⟩ | ⟨db', hrun, hpart, -⟩
    · rcases ensureOpaque_run digest db fun _ => .none with ⟨-, -, hcollides | ⟨_, hno⟩⟩ | ⟨hrun, -⟩
      · exact Or.inl hcollides
      · exact absurd rfl hno
      · rw [hrun] at hfail
        exact absurd rfl hfail
    · refine Or.inr fun r hr s hs hat hnew => ?_
      rcases ensureOpaque_run digest db fun _ => .none with ⟨hfail, -⟩ | ⟨hrun', -⟩
      · rw [hrun] at hfail
        exact absurd rfl hfail
      · rw [hrun] at hrun'
        obtain rfl := (Prod.mk.inj hrun').2
        have hsame := (hpart r (mem_oldRows.mp hr).1 s hs).mp
          ((hthread r hr _ hnew).trans (hkept s hs hat).symm)
        exact hat (hsame ▸ (mem_oldRows.mp hr).2)
  · intro h fault
    rcases ensureOpaque_run digest db fault with ⟨hfail, hsame, -⟩ | ⟨hrun, hfree⟩
    · exact Or.inl ⟨hfail, hsame⟩
    have hnew := h.resolve_left hfree
    refine Or.inr ⟨_, hrun, ?_, ?_, ?_⟩
    · intro r hr s hs
      by_cases hrat : '@' ∈ r.threadID
      · have hrold := mem_oldRows.mpr ⟨hr, hrat⟩
        obtain ⟨n, hn, -⟩ := exists_newName hhex hformed hrold
        rw [hthread r hrold n hn]
        by_cases hsat : '@' ∈ s.threadID
        · have hsold := mem_oldRows.mpr ⟨hs, hsat⟩
          obtain ⟨k, hk, -⟩ := exists_newName hhex hformed hsold
          rw [hthread s hsold k hk]
          constructor
          · rintro rfl
            by_contra hne
            exact hfree ⟨r, hrold, s, hsold, hne, n, hn, hk⟩
          · intro heq
            rw [heq, hk] at hn
            exact (Option.some.inj hn).symm
        · rw [hkept s hs hsat]
          refine iff_of_false (fun heq => ?_) fun heq => hsat (heq ▸ hrat)
          exact hnew r hrold s hs hsat (heq ▸ hn)
      · rw [hkept r hr hrat]
        by_cases hsat : '@' ∈ s.threadID
        · have hsold := mem_oldRows.mpr ⟨hs, hsat⟩
          obtain ⟨k, hk, -⟩ := exists_newName hhex hformed hsold
          rw [hthread s hsold k hk]
          refine iff_of_false (fun heq => ?_) fun heq => hrat (heq ▸ hsat)
          exact hnew s hsold r hr hrat (heq ▸ hk)
        · rw [hkept s hs hsat]
    · intro r hr n t heq hat
      have hold : r ∈ oldRows db := by
        refine mem_oldRows.mpr ⟨hr, ?_⟩
        rw [heq]
        exact List.mem_append_right _ (List.mem_cons_of_mem _ hat)
      exact hthread r hold _ (heq ▸ newName_formed digest n t)
    · intro again
      refine ensureOpaque_of_new digest again (List.eq_nil_iff_forall_not_mem.mpr fun r' hr' => ?_)
      obtain ⟨hr', hat⟩ := mem_oldRows.mp hr'
      have hrow := hr'
      rw [applyUpdates_rows] at hrow
      obtain ⟨r, hr, rfl⟩ := List.mem_map.mp hrow
      rw [← threadOf_of_mem hr' (retagAll_keys _ r).2.1] at hat
      by_cases hrat : '@' ∈ r.threadID
      · have hrold := mem_oldRows.mpr ⟨hr, hrat⟩
        obtain ⟨n, hn, hnat⟩ := exists_newName hhex hformed hrold
        rw [hthread r hrold n hn] at hat
        exact hnat hat
      · rw [hkept r hr hrat] at hat
        exact hrat hat

/-- The digest of the Message-ID `a@x`. -/
def goldenDigest (t : Text) : Text := if t = "a@x".toList then "bd39e6feafd837011c64".toList else []

theorem goldenDigest_hex (t : Text) : ∀ c ∈ goldenDigest t, c ∈ "0123456789abcdef".toList := by
  unfold goldenDigest
  split
  · decide
  · simp

/-- An old name, and a new one that it comes out as. -/
def oldAndNew : DB :=
  { DB.empty with
    messages := ⟨[{ Message.bare 1 1 1 (.numbered 1) with threadID := "1:a@x".toList },
      { Message.bare 2 1 1 (.numbered 2) with threadID := "1:bd39e6feafd837011c64".toList }], 2,
      by decide, by decide, by decide⟩ }

theorem ensureOpaque_keeps_oldAndNew :
    (∀ fault, Migrates goldenDigest oldAndNew fault) ↔
      Collides goldenDigest (oldRows oldAndNew) ∨ NewNamesFree goldenDigest oldAndNew := by
  refine ensureOpaque_keeps_iff goldenDigest_hex fun r hr => Or.inr ?_
  rcases List.mem_cons.mp hr with rfl | hr
  · exact ⟨1, "a@x".toList, by decide⟩
  · rw [List.mem_singleton.mp hr]
    exact ⟨1, "bd39e6feafd837011c64".toList, by decide⟩

/-- **Two conversations become one.** -/
theorem ensureOpaque_joins_oldAndNew : ¬ ∀ fault, Migrates goldenDigest oldAndNew fault := by
  intro h
  rcases h fun _ => .none with ⟨hfail, -⟩ | ⟨db', hrun, hpart, -⟩
  · exact hfail (by decide)
  · have hdb : db' = (ensureOpaqueThreadIDs goldenDigest (.faulty fun _ => .none) oldAndNew).2 := by
      rw [hrun]
    subst hdb
    have hsame := (hpart _ List.mem_cons_self _ (List.mem_cons_of_mem _ List.mem_cons_self)).mp (by decide)
    revert hsame
    decide

end Main

end FlyMail.Message
