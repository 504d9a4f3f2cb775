/-
A batch of rows that were loaded together.

`assignThreads` reads the table for every row, but what it knows of the row itself was loaded
before the first.  An earlier row of the batch may have given the row another thread since.

Threads that are joined are joined as a whole, so a step parts two rows in one way only: it moves
the row alone, out of a thread it does not know the row is in.  `Deserts` says when it does, and
`assignThreads_keeps_iff` that conversations stay together exactly if no row of the batch does.
-/
import FlyMail.Proofs.Threads
import Mathlib.Data.List.Induction

namespace FlyMail.Message

open Proc

/-! ### One row -/

section Row

variable {ι : Type} (digest : Text → Text) (at_ : ThreadStmt → ι) (m : Message) (db : DB)

/-- The thread that is chosen for a row. -/
def chosenThread : Text :=
  match foundThreads db m with
  | [] => if m.threadID = [] then threadKey digest m else m.threadID
  | [t] => t
  | t :: _ =>
      if Repository.earliestThread db m.accountID (foundThreads db m) = [] then t
      else Repository.earliestThread db m.accountID (foundThreads db m)

/-- What processing `m` does to the thread of a row. -/
def rethread (merge : List Text) (t : Text) (r : Message) : Text :=
  if r.id = m.id ∧ m.threadID ≠ t then t
  else if r.accountID = m.accountID ∧ r.threadID ∈ merge then t
  else r.threadID

/-- The row with that thread. -/
def rethreaded (merge : List Text) (t : Text) (r : Message) : Message :=
  { r with threadID := rethread m merge t r }

theorem spec_joinThreads_rows (merge : List Text) (t : Text) :
    ∃ db', joinThreads at_ m merge t .calm db = (.ok (), db') ∧
      db'.messages.rows = db.messages.rows.map (rethreaded m merge t) := by
  let joined := if merge = [] then db else Repository.mergeThreads m.accountID merge t db
  have hjoined : joined.messages.rows = db.messages.rows.map fun r =>
      if r.accountID = m.accountID ∧ r.threadID ∈ merge then { r with threadID := t } else r := by
    by_cases hnil : merge = []
    · have hdb : joined = db := if_pos hnil
      rw [hdb, hnil]
      simp
    · have hdb : joined = Repository.mergeThreads m.accountID merge t db := if_neg hnil
      rw [hdb, Repository.mergeThreads_rows]
      refine List.map_congr_left fun r _ => ?_
      simp
  have hset : ∀ d : DB, (if m.threadID = t then pure () else
      updateDB (at_ (.setOwn m.id)) .db (Repository.setThread m.id t) : Proc ι Err DB Unit) .calm d
      = (.ok (), if m.threadID = t then d else Repository.setThread m.id t d) := by
    intro d
    split
    · rfl
    · rfl
  refine ⟨if m.threadID = t then joined else Repository.setThread m.id t joined, ?_, ?_⟩
  · unfold joinThreads
    by_cases hnil : merge = []
    · have hdb : joined = db := if_pos hnil
      rw [if_pos hnil, hdb]
      exact hset db
    · have hdb : joined = Repository.mergeThreads m.accountID merge t db := if_neg hnil
      rw [if_neg hnil, hdb]
      exact (bind_ok (updateDB_calm _ _ _ _)).trans (hset _)
  · by_cases hsame : m.threadID = t
    · rw [if_pos hsame, hjoined]
      refine List.map_congr_left fun r _ => ?_
      unfold rethreaded rethread
      rw [if_neg fun h : r.id = m.id ∧ m.threadID ≠ t => h.2 hsame]
      split
      · rfl
      · rfl
    · rw [if_neg hsame, Repository.setThread_rows, hjoined, List.map_map]
      refine List.map_congr_left fun r _ => ?_
      unfold rethreaded rethread
      by_cases hmerge : r.accountID = m.accountID ∧ r.threadID ∈ merge
      · by_cases hid : r.id = m.id
        · simp [hmerge, hid, hsame]
        · simp [hmerge, hid]
      · by_cases hid : r.id = m.id
        · simp [hmerge, hid, hsame]
        · simp [hmerge, hid]

/-- **What processing a row does**, whatever is known of it. -/
theorem spec_assignThread_rows :
    ∃ db', assignThread digest at_ m .calm db = (.ok (), db') ∧
      db'.messages.rows = db.messages.rows.map (rethreaded m
        (toMerge m (foundThreads db m) (chosenThread digest m db)) (chosenThread digest m db)) := by
  have hchoose : chooseThread digest at_ m (foundThreads db m) .calm db
      = (.ok (chosenThread digest m db), db) := by
    unfold chosenThread
    generalize foundThreads db m = found
    rcases found with _ | ⟨t, _ | ⟨u, rest⟩⟩
    · rfl
    · rfl
    · exact bind_ok (queryDB_calm _ _ _ _)
  obtain ⟨db', hjoin, hrows⟩ := spec_joinThreads_rows at_ m db
    (toMerge m (foundThreads db m) (chosenThread digest m db)) (chosenThread digest m db)
  refine ⟨db', ?_, hrows⟩
  have hforward : forwardThreads at_ m .calm db
      = (.ok (if linkedIDs m = [] then [] else Repository.threadsOf db m fun r =>
        (linkedIDs m).contains r.messageID), db) := by
    unfold forwardThreads
    split <;> rfl
  have hbackward : backwardThreads at_ m .calm db
      = (.ok (if m.messageID = [] then [] else Repository.threadsOf db m fun r =>
        r.inReplyTo == m.messageID), db) := by
    unfold backwardThreads
    split <;> rfl
  exact (bind_ok hforward).trans ((bind_ok hbackward).trans ((bind_ok hchoose).trans hjoin))

/-- Only threads with a name are found. -/
theorem nil_notMem_foundThreads : [] ∉ foundThreads db m := by
  have hnone : ∀ p : Message → Bool, [] ∉ Repository.threadsOf db m p := by
    intro p h
    obtain ⟨r, -, -, -, hne, -, heq⟩ := mem_threadsOf.mp h
    exact hne heq
  unfold foundThreads
  rw [List.mem_append, not_or]
  constructor
  · split
    · exact List.not_mem_nil
    · exact hnone _
  · split
    · exact List.not_mem_nil
    · exact hnone _

/-- The thread that is chosen is one of those found or, where there is none, the row's own. -/
theorem chosenThread_cases :
    (foundThreads db m = [] ∧
        chosenThread digest m db = if m.threadID = [] then threadKey digest m else m.threadID) ∨
      chosenThread digest m db ∈ foundThreads db m := by
  unfold chosenThread
  generalize foundThreads db m = found
  rcases found with _ | ⟨t, _ | ⟨u, rest⟩⟩
  · exact Or.inl ⟨rfl, rfl⟩
  · exact Or.inr List.mem_cons_self
  · refine Or.inr ?_
    dsimp only
    split
    · exact List.mem_cons_self
    · rename_i hne
      exact earliestThread_mem hne

theorem chosenThread_ne_nil : chosenThread digest m db ≠ [] := by
  rcases chosenThread_cases digest m db with ⟨-, heq⟩ | hmem
  · rw [heq]
    split
    · exact threadKey_ne_nil digest m
    · assumption
  · exact fun hnil => nil_notMem_foundThreads m db (hnil ▸ hmem)

end Row

/-! ### A batch -/

section Batch

variable {digest : Text → Text} {db₀ db : DB} {m : Message} {batch : List Message} {accountID : Nat}

/-- The database once the rows have been through `assignThreads`. -/
def assigned (digest : Text → Text) (db₀ : DB) (batch : List Message) : DB :=
  (assignThreads digest (fun stmt => stmt) batch .calm db₀).2

/-- It comes through every row. -/
theorem assignThreads_ok (digest : Text → Text) (batch : List Message) :
    ∀ db₀, assignThreads digest (fun stmt => stmt) batch .calm db₀ = (.ok (), assigned digest db₀ batch) := by
  induction batch with
  | nil => exact fun db₀ => rfl
  | cons m rest ih =>
      intro db₀
      obtain ⟨db₁, hrun, -⟩ := spec_assignThread_rows digest (fun stmt => stmt) m db₀
      have hcons : ∀ d, assignThreads digest (fun stmt => stmt) rest .calm db₁ = (.ok (), d) →
          assignThreads digest (fun stmt => stmt) (m :: rest) .calm db₀ = (.ok (), d) :=
        fun d hd => (bind_ok hrun).trans hd
      have hall := hcons _ (ih db₁)
      unfold assigned
      rw [hall]

/-- One row more. -/
theorem rows_assigned_concat (done : List Message) :
    (assigned digest db₀ (done ++ [m])).messages.rows
      = (assigned digest db₀ done).messages.rows.map (rethreaded m
        (toMerge m (foundThreads (assigned digest db₀ done) m)
          (chosenThread digest m (assigned digest db₀ done)))
        (chosenThread digest m (assigned digest db₀ done))) := by
  obtain ⟨db₁, hrun, hrows⟩ := spec_assignThread_rows digest (fun stmt => stmt) m (assigned digest db₀ done)
  have hlast : assignThreads digest (fun stmt => stmt) [m] .calm (assigned digest db₀ done) = (.ok (), db₁) :=
    bind_ok hrun
  have happend : assignThreads digest (fun stmt => stmt) (done ++ [m]) .calm db₀ = (.ok (), db₁) :=
    (each_append _ _ _ _ _).trans ((bind_ok (assignThreads_ok digest done db₀)).trans hlast)
  have hdb : assigned digest db₀ (done ++ [m]) = db₁ := by
    unfold assigned
    rw [happend]
  rw [hdb, hrows]

/-- The rows are the same but for their threads. -/
def SameRows (db₀ db : DB) : Prop :=
  db.messages.rows = db₀.messages.rows.map fun r => { r with threadID := threadOf db r }

theorem sameRows_refl (db : DB) : SameRows db db := by
  refine ((List.map_congr_left fun r hr => ?_).trans (List.map_id _)).symm
  rw [threadOf_of_mem hr rfl]
  rfl

theorem SameRows.mem (h : SameRows db₀ db) {r : Message} (hr : r ∈ db₀.messages.rows) :
    { r with threadID := threadOf db r } ∈ db.messages.rows := by
  have hrows : db.messages.rows = _ := h
  rw [hrows]
  exact List.mem_map_of_mem (f := fun r => { r with threadID := threadOf db r }) hr

/-- What a step does to the thread of a row. -/
theorem threadOf_step {db' : DB} {merge : List Text} {t : Text} (h : SameRows db₀ db)
    (hrows : db'.messages.rows = db.messages.rows.map (rethreaded m merge t)) {r : Message}
    (hr : r ∈ db₀.messages.rows) :
    threadOf db' r = rethread m merge t { r with threadID := threadOf db r } := by
  have hmem := List.mem_map_of_mem (f := rethreaded m merge t) (h.mem hr)
  rw [← hrows] at hmem
  exact threadOf_of_mem hmem rfl

theorem SameRows.step {db' : DB} {merge : List Text} {t : Text} (h : SameRows db₀ db)
    (hrows : db'.messages.rows = db.messages.rows.map (rethreaded m merge t)) : SameRows db₀ db' := by
  have hold : db.messages.rows = _ := h
  unfold SameRows
  rw [hrows, hold, List.map_map]
  refine List.map_congr_left fun r hr => ?_
  rw [threadOf_step h hrows hr]
  rfl

/-- A row that had a thread has one. -/
def StaysNamed (db₀ db : DB) : Prop :=
  ∀ r ∈ db₀.messages.rows, r.threadID ≠ [] → threadOf db r ≠ []

/-- What is asked of processing a batch. -/
structure KeepsTogether (accountID : Nat) (db₀ : DB) (batch : List Message) (db : DB) : Prop where
  together : ∀ r ∈ db₀.messages.rows, ∀ s ∈ db₀.messages.rows, r.accountID = accountID →
    s.accountID = accountID → r.threadID ≠ [] → s.threadID = r.threadID → threadOf db r = threadOf db s
  named : ∀ r ∈ batch, threadOf db r ≠ []
  others : (db.messages.rows.filter fun r => r.accountID != accountID)
    = db₀.messages.rows.filter fun r => r.accountID != accountID

/-- The row leaves, alone, a thread it does not know it is in, and it came with another row. -/
structure Deserts (digest : Text → Text) (db₀ db : DB) (m : Message) : Prop where
  known : m.threadID ≠ []
  shared : ∃ r ∈ db₀.messages.rows, r.accountID = m.accountID ∧ r.id ≠ m.id ∧ r.threadID = m.threadID
  stale : threadOf db m ≠ m.threadID
  unfound : threadOf db m ∉ foundThreads db m
  moves : chosenThread digest m db ≠ m.threadID

section Step

variable {db' : DB} {done : List Message} (hsame : SameRows db₀ db) (hm : m ∈ db₀.messages.rows)
  (hrows : db'.messages.rows = db.messages.rows.map (rethreaded m
    (toMerge m (foundThreads db m) (chosenThread digest m db)) (chosenThread digest m db)))

include hsame hrows

/-- A row that is not the one that is processed goes with its thread. -/
theorem threadOf_step_of_ne {r : Message} (hr : r ∈ db₀.messages.rows) (hid : r.id ≠ m.id) :
    threadOf db' r = if r.accountID = m.accountID ∧
        threadOf db r ∈ toMerge m (foundThreads db m) (chosenThread digest m db) then chosenThread digest m db
      else threadOf db r := by
  rw [threadOf_step hsame hrows hr]
  unfold rethread
  exact if_neg fun h => hid h.1

include hm

theorem threadOf_step_self :
    threadOf db' m = if m.threadID ≠ chosenThread digest m db ∨
        threadOf db m ∈ toMerge m (foundThreads db m) (chosenThread digest m db) then chosenThread digest m db
      else threadOf db m := by
  rw [threadOf_step hsame hrows hm]
  unfold rethread
  by_cases hne : m.threadID = chosenThread digest m db
  · rw [if_neg fun h => h.2 hne]
    exact if_congr ⟨fun h => Or.inr h.2, fun h => ⟨rfl, h.resolve_left (not_not.mpr hne)⟩⟩ rfl rfl
  · rw [if_pos ⟨rfl, hne⟩, if_pos (Or.inl hne)]

/-- **Two rows of one thread are parted** exactly if one is moved out of a thread that is not
joined with any. -/
theorem threadOf_step_eq_iff {r : Message} (hr : r ∈ db₀.messages.rows) (hacc : r.accountID = m.accountID)
    (hid : r.id ≠ m.id) (hthread : threadOf db r = threadOf db m) (hknown : m.threadID ≠ []) :
    threadOf db' r = threadOf db' m ↔
      (threadOf db m ≠ m.threadID → threadOf db m ∉ foundThreads db m →
        chosenThread digest m db = m.threadID) := by
  rw [threadOf_step_of_ne hsame hrows hr hid, threadOf_step_self hsame hm hrows, hthread]
  have hmerge : threadOf db m ∈ toMerge m (foundThreads db m) (chosenThread digest m db) ↔
      (threadOf db m ∈ foundThreads db m ∧ threadOf db m ≠ chosenThread digest m db) ∨
        (m.threadID ≠ chosenThread digest m db ∧ threadOf db m = m.threadID) := by
    unfold toMerge
    rw [List.mem_append, List.mem_filter]
    refine or_congr (by simp) ?_
    split
    · rename_i h
      rw [List.mem_singleton]
      exact ⟨fun heq => ⟨h.2, heq⟩, fun h => h.2⟩
    · rename_i h
      exact iff_of_false List.not_mem_nil fun h' => h ⟨hknown, h'.1⟩
  by_cases hmove : m.threadID = chosenThread digest m db
  · -- the row is not moved by itself
    refine iff_of_true ?_ fun _ _ => hmove.symm
    by_cases hin : threadOf db m ∈ toMerge m (foundThreads db m) (chosenThread digest m db)
    · rw [if_pos ⟨hacc, hin⟩, if_pos (Or.inr hin)]
    · rw [if_neg fun h => hin h.2, if_neg fun h => h.elim (fun hne => hne hmove) hin]
  · have hfound : chosenThread digest m db ∈ foundThreads db m := by
      refine (chosenThread_cases digest m db).resolve_left fun h => hmove ?_
      rw [h.2, if_neg hknown]
    rw [if_pos (Or.inl hmove : m.threadID ≠ _ ∨ _)]
    constructor
    · intro heq hstale hunfound
      split at heq
      · rename_i hin
        rcases hmerge.mp hin.2 with h | h
        · exact absurd h.1 hunfound
        · exact absurd h.2 hstale
      · exact absurd (heq ▸ hfound) hunfound
    · intro h
      by_cases hin : threadOf db m ∈ toMerge m (foundThreads db m) (chosenThread digest m db)
      · exact if_pos ⟨hacc, hin⟩
      · rw [if_neg fun h => hin h.2]
        rw [hmerge, not_or] at hin
        by_contra hne
        have hstale : threadOf db m ≠ m.threadID := fun heq => hin.2 ⟨hmove, heq⟩
        have hunfound : threadOf db m ∉ foundThreads db m := fun hf => hin.1 ⟨hf, hne⟩
        exact hmove (h hstale hunfound).symm

omit hm in
/-- No row loses its thread. -/
theorem threadOf_step_ne_nil {r : Message} (hr : r ∈ db₀.messages.rows) (hne : threadOf db r ≠ []) :
    threadOf db' r ≠ [] := by
  rw [threadOf_step hsame hrows hr]
  unfold rethread
  split
  · exact chosenThread_ne_nil digest m db
  · split
    · exact chosenThread_ne_nil digest m db
    · exact hne

/-- The row has a thread. -/
theorem threadOf_step_self_ne_nil (hset : StaysNamed db₀ db) : threadOf db' m ≠ [] := by
  rw [threadOf_step_self hsame hm hrows]
  split
  · exact chosenThread_ne_nil digest m db
  · rename_i h
    refine hset m hm fun hnil => h (Or.inl ?_)
    rw [hnil]
    exact (chosenThread_ne_nil digest m db).symm

omit hsame hm in
/-- The other accounts' rows stay. -/
theorem others_step (hacc : m.accountID = accountID) (hold : ∀ r ∈ db.messages.rows, r.id = m.id →
      r.accountID = m.accountID) :
    (db'.messages.rows.filter fun r => r.accountID != accountID)
      = db.messages.rows.filter fun r => r.accountID != accountID := by
  rw [hrows, List.filter_map]
  refine (List.map_congr_left fun r hr => ?_).trans (List.map_id _)
  obtain ⟨hr, hne⟩ := List.mem_filter.mp hr
  have hother : r.accountID ≠ m.accountID := by
    have hne : (r.accountID != accountID) = true := hne
    rw [hacc]
    simpa using hne
  unfold rethreaded rethread
  rw [if_neg fun h => hother (hold r hr h.1), if_neg fun h => hother h.1]
  rfl

/-- **One row of a batch.** -/
theorem KeepsTogether.step_iff (h : KeepsTogether accountID db₀ done db) (hset : StaysNamed db₀ db)
    (hdone : ∀ r ∈ done, r ∈ db₀.messages.rows) (hacc : m.accountID = accountID) :
    KeepsTogether accountID db₀ (done ++ [m]) db' ↔ ¬ Deserts digest db₀ db m := by
  have hone : ∀ r ∈ db₀.messages.rows, r.id = m.id → r = m := fun r hr hid =>
    db₀.messages.eq_of_pk hr hm hid
  -- a row that was of one thread with `m` from the start
  have hpair : ∀ r ∈ db₀.messages.rows, r.accountID = accountID → r.id ≠ m.id → m.threadID ≠ [] →
      r.threadID = m.threadID → (threadOf db' r = threadOf db' m ↔
        (threadOf db m ≠ m.threadID → threadOf db m ∉ foundThreads db m →
          chosenThread digest m db = m.threadID)) := fun r hr hra hid hknown hthread =>
    threadOf_step_eq_iff hsame hm hrows hr (hra.trans hacc.symm) hid
      (h.together m hm r hr hacc hra hknown hthread).symm hknown
  constructor
  · rintro h' ⟨hknown, ⟨r, hr, hra, hid, hthread⟩, hstale, hunfound, hmoves⟩
    refine hmoves ((hpair r hr (hra.trans hacc) hid hknown hthread).mp ?_ hstale hunfound)
    exact (h'.together m hm r hr hacc (hra.trans hacc) hknown hthread).symm
  · intro hno
    have hwith : ∀ r ∈ db₀.messages.rows, r.accountID = accountID → r.id ≠ m.id → m.threadID ≠ [] →
        r.threadID = m.threadID → threadOf db' r = threadOf db' m := by
      intro r hr hra hid hknown hthread
      rw [hpair r hr hra hid hknown hthread]
      intro hstale hunfound
      by_contra hmoves
      exact hno ⟨hknown, ⟨r, hr, hra.trans hacc.symm, hid, hthread⟩, hstale, hunfound, hmoves⟩
    refine ⟨?_, ?_, ?_⟩
    · intro r hr s hs hra hsa hne hthread
      by_cases hrm : r.id = m.id
      · by_cases hsm : s.id = m.id
        · rw [hone r hr hrm, hone s hs hsm]
        · have heq := hone r hr hrm
          rw [heq] at hne hthread ⊢
          exact (hwith s hs hsa hsm hne hthread).symm
      · by_cases hsm : s.id = m.id
        · have heq := hone s hs hsm
          rw [heq] at hthread ⊢
          exact hwith r hr hra hrm (hthread ▸ hne) hthread.symm
        · rw [threadOf_step_of_ne hsame hrows hr hrm, threadOf_step_of_ne hsame hrows hs hsm,
            h.together r hr s hs hra hsa hne hthread, hra, hsa]
    · intro r hr
      rcases List.mem_append.mp hr with hr | hr
      · exact threadOf_step_ne_nil hsame hrows (hdone r hr) (h.named r hr)
      · rw [List.mem_singleton.mp hr]
        exact threadOf_step_self_ne_nil hsame hm hrows hset
    · refine (others_step hrows hacc fun r hr hid => ?_).trans h.others
      have hrows₀ : db.messages.rows = _ := hsame
      rw [hrows₀] at hr
      obtain ⟨r₀, hr₀, rfl⟩ := List.mem_map.mp hr
      rw [hone r₀ hr₀ hid]

end Step

/-- What holds in any case once some rows are through. -/
theorem assigned_sound (hbatch : ∀ r ∈ batch, r ∈ db₀.messages.rows) :
    SameRows db₀ (assigned digest db₀ batch) ∧ StaysNamed db₀ (assigned digest db₀ batch) := by
  induction batch using List.reverseRecOn with
  | nil =>
      refine ⟨sameRows_refl db₀, fun r hr hne => ?_⟩
      show threadOf db₀ r ≠ []
      rwa [threadOf_of_mem hr rfl]
  | append_singleton done m ih =>
      obtain ⟨hsame, hset⟩ := ih fun r hr => hbatch r (List.mem_append_left _ hr)
      have hrows := @rows_assigned_concat digest db₀ m done
      exact ⟨hsame.step hrows, fun r hr hne => threadOf_step_ne_nil hsame hrows hr (hset r hr hne)⟩

/-- **Conversations stay together**, whatever rows of the batch have been processed, exactly if
none of them deserts. -/
theorem assignThreads_keeps_iff (hbatch : ∀ r ∈ batch, r ∈ db₀.messages.rows ∧ r.accountID = accountID) :
    (∀ done, done <+: batch → KeepsTogether accountID db₀ done (assigned digest db₀ done)) ↔
      ∀ done m, done ++ [m] <+: batch → ¬ Deserts digest db₀ (assigned digest db₀ done) m := by
  have hstep : ∀ done m, done ++ [m] <+: batch →
      KeepsTogether accountID db₀ done (assigned digest db₀ done) →
      (KeepsTogether accountID db₀ (done ++ [m]) (assigned digest db₀ (done ++ [m])) ↔
        ¬ Deserts digest db₀ (assigned digest db₀ done) m) := by
    intro done m hpre h
    have hdone : ∀ r ∈ done, r ∈ db₀.messages.rows := fun r hr =>
      (hbatch r (hpre.subset (List.mem_append_left _ hr))).1
    obtain ⟨hm, hacc⟩ := hbatch m (hpre.subset (List.mem_append_right _ (List.mem_singleton.mpr rfl)))
    obtain ⟨hsame, hset⟩ := @assigned_sound digest db₀ done hdone
    exact h.step_iff hsame hm (rows_assigned_concat done) hset hdone hacc
  constructor
  · intro h done m hpre
    have hdone : done <+: batch := (List.prefix_append done [m]).trans hpre
    exact (hstep done m hpre (h done hdone)).mp (h _ hpre)
  · intro h done
    induction done using List.reverseRecOn with
    | nil =>
        intro _
        refine ⟨fun r hr s hs _ _ _ hthread => ?_, by simp, rfl⟩
        show threadOf db₀ r = threadOf db₀ s
        rw [threadOf_of_mem hr rfl, threadOf_of_mem hs rfl, hthread]
    | append_singleton done m ih =>
        intro hpre
        exact (hstep done m hpre (ih ((List.prefix_append done [m]).trans hpre))).mpr
          (h done m hpre)

/-- Three threads: the second mail of the batch answers a mail of the one, the first a mail of
another, and both are in the third. -/
def threeThreads : DB :=
  { DB.empty with
    messages := ⟨[
      { Message.bare 1 1 1 (.numbered 1) with messageID := "old".toList, threadID := "1:a".toList, date := 1 },
      { Message.bare 2 1 1 (.numbered 2) with messageID := "new".toList, threadID := "1:b".toList, date := 2 },
      { Message.bare 3 1 1 (.numbered 3) with
        messageID := "sibling".toList, threadID := "1:c".toList, date := 3 },
      { Message.bare 4 1 1 (.numbered 4) with
        messageID := "first".toList, inReplyTo := "old".toList, threadID := "1:c".toList, date := 4 },
      { Message.bare 5 1 1 (.numbered 5) with
        messageID := "second".toList, inReplyTo := "new".toList, threadID := "1:c".toList, date := 5 }], 5,
      by decide, by decide, by decide⟩ }

/-- The two of them, as they are loaded. -/
def bothAnswers : List Message := Repository.getUIDChunk threeThreads 1 [.numbered 4, .numbered 5]

theorem assignThreads_keeps_bothAnswers :
    (∀ done, done <+: bothAnswers →
      KeepsTogether 1 threeThreads done (assigned (fun t => t) threeThreads done)) ↔
      ∀ done m, done ++ [m] <+: bothAnswers →
        ¬ Deserts (fun t => t) threeThreads (assigned (fun t => t) threeThreads done) m :=
  assignThreads_keeps_iff (by decide)

/-- **The second mail leaves the thread that the first has joined with another**, and its sibling
stays. -/
theorem assignThreads_parts_siblings :
    (∀ r ∈ bothAnswers, r ∈ threeThreads.messages.rows ∧ r.accountID = 1) ∧
      ¬ KeepsTogether 1 threeThreads bothAnswers (assigned (fun t => t) threeThreads bothAnswers) := by
  refine ⟨by decide, fun h => ?_⟩
  have hrow : ∀ n (hn : n < threeThreads.messages.rows.length),
      threeThreads.messages.rows[n] ∈ threeThreads.messages.rows := fun n hn => List.getElem_mem hn
  have hsame := h.together _ (hrow 2 (by decide)) _ (hrow 4 (by decide)) (by decide) (by decide)
    (by decide) (by decide)
  revert hsame
  decide

end Batch

end FlyMail.Message
