/-
Changes that still wait, and what fetching does to them.

A user's change of a flag is in the row at once and on its way to the server in the queue.
Until it is there the server's copy of the mail has the old flag, and the upsert takes the
flags from whatever the server sends; nothing asks the queue.  So a waiting change lasts
through a round exactly if the server sends the mail with the flag as the user left it, or
does not send it.

What the server may be made to send, `Round.MaySend`, depends on which of the lookups at
the beginning of the round fail, since the round goes on without their answers: without a
UIDNEXT it asks for all behind the largest UID it has, and then a server answers with the
last mail even if that is not behind it.

`pending_kept_iff` is about whatever fails and wherever the round breaks off.  That nothing
else than the mails sent matters is what `keeps_incrementalSync` and its like say.  That
each of them matters is shown by a round that breaks off right behind it.
-/
import FlyMail.Proofs.Fetch
import FlyMail.Sync.System

namespace FlyMail

namespace Message

open Proc

/-! ### What a round may ask for -/

/-- Which lookups of a round fail. -/
structure Lookups where
  statusUIDValidity : Bool
  statusUIDNext : Bool
  maxUIDBefore : Bool
  deriving DecidableEq, Repr

/-- What `SELECT` said or, where it said nothing, what `STATUS` says if it does not fail. -/
def saidIf (fails : Bool) (selected : Nat) (status : Option Nat) : Nat :=
  if selected = 0 then (if fails then 0 else status.getD 0) else selected

/-- The largest UID in the folder, as far as the lookup goes. -/
def maxUIDIf (fails : Bool) (db : DB) (folderID : Nat) : Nat :=
  if fails then 0 else Repository.maxUID db folderID

/-- Where fetching starts when the server says which UID comes next. -/
def anchorOf (prevUIDNext maxUID : Nat) : Nat :=
  if prevUIDNext = 0 then (if maxUID > 0 then u32 (maxUID + 1) else 1) else prevUIDNext

/-- The ranges asked for in turn. -/
def rangesOf (start last : Nat) : List (Nat × Nat) := batches (last + 1 - start) start last

/-- The requests that look for new mail: where each begins, and what the server sends
for it. -/
def newRequests (syncDepth : Nat) (c : Session) (path : Text)
    (prevUIDNext numMessages uidNext maxUID : Nat) : List (Nat × List ParsedEmail) :=
  if uidNext > 0 then
    if uidNext > anchorOf prevUIDNext maxUID then
      (rangesOf (anchorOf prevUIDNext maxUID) (uidNext - 1)).map fun b =>
        (b.1, c.fetchByUIDRange path b.1 b.2)
    else []
  else if maxUID > 0 then [(u32 (maxUID + 1), c.fetchByUIDRange path (u32 (maxUID + 1)) 0)]
  else if numMessages = 0 then []
  else
    (rangesOf (if numMessages > syncDepth then numMessages - syncDepth + 1 else 1)
      numMessages).map fun b => (b.1, c.fetchBySeqRange path b.1 b.2)

/-- The folder is emptied first: it is another one by now. -/
def rebuilds (c : Session) (f : Folder) (l : Lookups) : Bool :=
  let uidValidity := saidIf l.statusUIDValidity (c.selectFolder f.path).uidValidity
    (c.statusUIDValidity f.path)
  decide (f.uidValidity ≠ 0 ∧ uidValidity ≠ 0 ∧ uidValidity ≠ f.uidValidity)

/-- The requests of a round. Where the folder is emptied first, no row of it is there to be
changed. -/
def requests (syncDepth : Nat) (c : Session) (db : DB) (f : Folder) (l : Lookups) :
    List (Nat × List ParsedEmail) :=
  if rebuilds c f l then []
  else
    newRequests syncDepth c f.path f.uidNext (c.selectFolder f.path).numMessages
      (saidIf l.statusUIDNext (c.selectFolder f.path).uidNext (c.statusUIDNext f.path))
      (maxUIDIf l.maxUIDBefore db f.id)

/-- A range begins where no other does. -/
theorem eq_of_mem_batches {n start last : Nat} {b b' : Nat × Nat}
    (hb : b ∈ batches n start last) (hb' : b' ∈ batches n start last) (h : b.1 = b'.1) :
    b = b' := by
  have hend : ∀ n start, ∀ b ∈ batches n start last, b.2 =
      if u32 (b.1 + fetchBatchSize - 1) > last ∨ u32 (b.1 + fetchBatchSize - 1) < b.1 then last
      else u32 (b.1 + fetchBatchSize - 1) := by
    intro n
    induction n with
    | zero =>
        intro start b hb
        simp [batches] at hb
    | succ n ih =>
        intro start b hb
        unfold batches at hb
        by_cases hle : start ≤ last
        · rw [if_pos hle] at hb
          dsimp only at hb
          rcases List.mem_cons.mp hb with rfl | hb
          · rfl
          · split at hb
            · rw [if_pos rfl] at hb
              exact absurd hb List.not_mem_nil
            · split at hb
              · exact absurd hb List.not_mem_nil
              · exact ih _ b hb
        · rw [if_neg hle] at hb
          simp at hb
  exact Prod.ext h (by rw [hend n start b hb, hend n start b' hb', h])

/-! ### Where a batch can break off -/

section Break

variable {ι σ : Type} [HasDB σ] {digest : Text → Text} {at_ : BatchStmt → ι}
  {accountID folderID : Nat} {I : DB → Prop}

theorem upsertAll_append (l₁ l₂ : List ParsedEmail) :
    ∀ n, (upsertAll at_ accountID folderID n (l₁ ++ l₂) : Proc ι Err σ Unit)
      = upsertAll at_ accountID folderID n l₁ >>= fun _ =>
          upsertAll at_ accountID folderID (n + l₁.length) l₂ := by
  induction l₁ with
  | nil => exact fun n => rfl
  | cons e rest ih =>
      intro n
      show (updateDB _ _ _ >>= fun _ => upsertAll at_ accountID folderID (n + 1) (rest ++ l₂)) = _
      rw [ih (n + 1), show n + 1 + rest.length = n + (e :: rest).length by
        rw [List.length_cons]; omega]
      exact (bind_assoc _ _ _).symm

/-- Rows that cannot be loaded. -/
theorem loadByFolderUIDs_dead {φ : ι → Fault} (hcrash : φ (at_ (.load 0)) = .crash)
    {uids : List UID} (hne : uids ≠ []) (s : σ) :
    loadByFolderUIDs at_ folderID uids (.faulty φ) s = (.dead, s) := by
  unfold loadByFolderUIDs
  cases hchunks : chunksOf Repository.uidChunk uids with
  | nil =>
      have hflat := flatten_chunksOf (n := Repository.uidChunk) (by decide) uids
      rw [hchunks] at hflat
      exact absurd hflat.symm hne
  | cons c rest => exact bind_dead (query_crash hcrash)

/-- The statement behind the upsert of the mail that `post` follows. -/
def behind (pre post : List ParsedEmail) : BatchStmt :=
  if post = [] then .load 0 else .upsert (pre.length + 1)

theorem fetch_ne_behind (pre post : List ParsedEmail) : BatchStmt.fetch ≠ behind pre post := by
  unfold behind
  split <;> exact fun h => nomatch h

/-- **A batch can break off behind any of its mails**, and what it leaves then has that
mail's upsert for its last change. -/
theorem upsertBatch_breaks
    (hup : ∀ e d, I d → I (Repository.upsert (toMessage accountID folderID e) d))
    {pre post : List ParsedEmail} {e : ParsedEmail} {φ : ι → Fault}
    (hcrash : φ (at_ (behind pre post)) = .crash)
    (hcalm : ∀ s, s ≠ behind pre post → φ (at_ s) = .none) {s : σ} (hs : I (db s)) :
    ∃ d, I d ∧ ∃ t, upsertBatch digest at_ accountID folderID (pre ++ e :: post) (.faulty φ) s
      = (.dead, t) ∧ db t = Repository.upsert (toMessage accountID folderID e) d := by
  have huses : Uses (fun i => φ i = .none)
      (upsertAll at_ accountID folderID 0 pre : Proc ι Err σ Unit) := by
    refine uses_upsertAll accountID folderID pre 0 fun k _ hk => hcalm _ fun hne => ?_
    unfold behind at hne
    split at hne
    · cases hne
    · rw [BatchStmt.upsert.injEq] at hne
      omega
  obtain ⟨_, s₁, h₁⟩ := returns_upsertAll at_ accountID folderID pre 0 s
  have hrun₁ := (huses.calm (fun i hi => hi) s).trans h₁
  have hs₁ : I (db s₁) := by
    have hkeeps : Keeps (fun s : σ => I (db s)) (upsertAll at_ accountID folderID 0 pre) :=
      keeps_upsertAll at_ accountID folderID (fun e _ => on_db (hup e)) 0
    have hleft := hkeeps .calm (fun _ _ h => h) s hs
    rw [h₁] at hleft
    exact hleft
  have hself : φ (at_ (.upsert pre.length)) = .none := by
    refine hcalm _ fun hne => ?_
    unfold behind at hne
    split at hne
    · cases hne
    · rw [BatchStmt.upsert.injEq] at hne
      omega
  let t := setDB s₁ (Repository.upsert (toMessage accountID folderID e) (db s₁))
  have hone : (updateDB (at_ (.upsert pre.length)) .db
      (Repository.upsert (toMessage accountID folderID e)) : Proc ι Err σ Unit) (.faulty φ) s₁
        = (.ok (), t) := update_none hself
  refine ⟨db s₁, hs₁, t, ?_, db_setDB _ _⟩
  unfold upsertBatch
  rw [if_neg (by simp), upsertAll_append, bind_assoc, bind_ok hrun₁, Nat.zero_add]
  cases post with
  | nil =>
      have hloads : (at_ (behind pre [])) = at_ (.load 0) := rfl
      rw [hloads] at hcrash
      have hlast : upsertAll at_ accountID folderID pre.length [e] (.faulty φ) s₁ = (.ok (), t) :=
        bind_ok hone
      exact (bind_ok hlast).trans (bind_dead (loadByFolderUIDs_dead hcrash (by simp) t))
  | cons e' rest =>
      have hnext : at_ (behind pre (e' :: rest)) = at_ (.upsert (pre.length + 1)) := rfl
      rw [hnext] at hcrash
      exact bind_dead ((bind_ok hone).trans (bind_dead (update_crash hcrash)))

end Break

section BreakRange

variable {ι σ : Type} [HasDB σ] {digest : Text → Text} {at_ : SyncStmt → ι}
  {accountID folderID : Nat} {I : DB → Prop}

/-- **A range can break off behind any mail it is sent.** -/
theorem fetchBatched_breaks (hI : Coarse I)
    (hup : ∀ e d, I d → I (Repository.upsert (toMessage accountID folderID e) d))
    {fetch : Nat → Nat → List ParsedEmail} {start last : Nat} {b : Nat × Nat}
    (hb : b ∈ rangesOf start last) {pre post : List ParsedEmail} {e : ParsedEmail}
    (hfetch : fetch b.1 b.2 = pre ++ e :: post) {φ : ι → Fault}
    (hcrash : φ (at_ (.batch b.1 (behind pre post))) = .crash)
    (hcalm : ∀ n s, n ≠ b.1 ∨ s ≠ behind pre post → φ (at_ (.batch n s)) = .none) {s : σ}
    (hs : I (db s)) :
    ∃ d, I d ∧ ∃ t, fetchBatched digest at_ accountID folderID fetch start last (.faulty φ) s
      = (.dead, t) ∧ db t = Repository.upsert (toMessage accountID folderID e) d := by
  let one := fun b : Nat × Nat => (do
    let emails ← ask (at_ (.batch b.1 .fetch)) (fetch b.1 b.2)
    upsertBatch digest (fun s => at_ (.batch b.1 s)) accountID folderID emails :
      Proc ι Err σ Unit)
  obtain ⟨l₁, l₂, hsplit, hnotin⟩ := List.eq_append_cons_of_mem hb
  have hother : ∀ b' ∈ l₁, b'.1 ≠ b.1 := by
    intro b' hb' heq
    have hin : b' ∈ rangesOf start last := hsplit ▸ List.mem_append_left _ hb'
    exact hnotin (eq_of_mem_batches hin hb heq ▸ hb')
  have huses : Uses (fun i => φ i = .none) (each one l₁) := by
    refine uses_each l₁ fun b' hb' => ?_
    have hnone : ∀ s, φ (at_ (.batch b'.1 s)) = .none := fun s =>
      hcalm _ s (Or.inl (hother b' hb'))
    refine uses_bind ?_ fun _ => ?_
    · refine uses_query ?_ _ _
      exact hnone .fetch
    · exact uses_upsertBatch digest accountID folderID hnone _
  obtain ⟨_, s₁, h₁⟩ : ∃ a t, each one l₁ .calm s = (.ok a, t) :=
    returns_each l₁ (fun b' _ => returns_bind (fun s => ⟨_, s, rfl⟩) fun emails =>
      returns_upsertBatch digest _ accountID folderID emails) s
  have hs₁ : I (db s₁) := by
    have hkeeps : Keeps (fun s : σ => I (db s)) (each one l₁) := by
      refine keeps_each l₁ fun b' _ => keeps_ask_bind ?_
      exact keeps_upsertBatch digest _ accountID folderID (coarseOn_db hI) fun e _ => on_db (hup e)
    have hleft := hkeeps .calm (fun _ _ h => h) s hs
    rw [h₁] at hleft
    exact hleft
  obtain ⟨d, hd, t, hbreak, ht⟩ : ∃ d, I d ∧ ∃ t,
      upsertBatch digest (fun s => at_ (.batch b.1 s)) accountID folderID (pre ++ e :: post)
        (.faulty φ) s₁ = (.dead, t) ∧ db t = Repository.upsert (toMessage accountID folderID e) d :=
    upsertBatch_breaks hup hcrash (fun s hne => hcalm b.1 s (Or.inr hne)) hs₁
  refine ⟨d, hd, t, ?_, ht⟩
  have hask : (ask (at_ (.batch b.1 .fetch)) (fetch b.1 b.2) : Proc ι Err σ _) (.faulty φ) s₁
      = (.ok (pre ++ e :: post), s₁) := by
    rw [← hfetch]
    exact query_none (hcalm _ _ (Or.inr (fetch_ne_behind pre post)))
  show each one (rangesOf start last) (.faulty φ) s = _
  rw [hsplit, each_append, bind_ok ((huses.calm (fun i hi => hi) s).trans h₁)]
  exact bind_dead ((bind_ok hask).trans hbreak)

end BreakRange

/-! ### Where a round can break off -/

/-- The luck of a round whose lookups fail as `l` says, and which breaks off at a statement
of the batch that begins at `n`. -/
def Lookups.luck (l : Lookups) (n : Nat) (stmt : BatchStmt) : SyncStmt → Fault
  | .statusUIDValidity => if l.statusUIDValidity then .fail else .none
  | .statusUIDNext => if l.statusUIDNext then .fail else .none
  | .maxUIDBefore => if l.maxUIDBefore then .fail else .none
  | .batch n' stmt' => if n' = n ∧ stmt' = stmt then .crash else .none
  | _ => .none

section BreakRound

variable {ι σ : Type} [HasDB σ] {φ : ι → Fault} {s : σ} {i : ι} {fails : Bool}

omit [HasDB σ] in
theorem reported_luck (hφ : φ i = if fails then .fail else .none) (selected : Nat)
    (status : Option Nat) :
    (reported i selected status : Proc ι Err σ Nat) (.faulty φ) s
      = (.ok (saidIf fails selected status), s) := by
  unfold reported saidIf ask
  by_cases h : selected = 0
  · rw [if_pos h, if_pos h, withDefault_apply, query_faulty, hφ]
    cases fails <;> rfl
  · rw [if_neg h, if_neg h]
    rfl

theorem withDefault_luck {α : Type} (hφ : φ i = if fails then .fail else .none) (e : Err)
    (f : DB → α) (a : α) :
    (withDefault (queryDB i e f) a : Proc ι Err σ α) (.faulty φ) s
      = (.ok (if fails then a else f (db s)), s) := by
  unfold queryDB
  rw [withDefault_apply, query_faulty, hφ]
  cases fails <;> rfl

variable {digest : Text → Text} {syncDepth : Nat} {at_ : SyncStmt → ι} {c : Session}
  {l : Lookups} {b : Nat × List ParsedEmail} {pre post : List ParsedEmail} {e : ParsedEmail}
  {I : DB → Prop}

theorem anchorFor_luck (hφ : φ (at_ .maxUIDBefore) = if fails then .fail else .none)
    (folderID prevUIDNext : Nat) :
    (anchorFor at_ folderID prevUIDNext : Proc ι Err σ Nat) (.faulty φ) s
      = (.ok (anchorOf prevUIDNext (maxUIDIf fails (db s) folderID)), s) := by
  unfold anchorFor anchorOf
  by_cases hzero : prevUIDNext = 0
  · rw [if_pos hzero, if_pos hzero, bind_ok (withDefault_luck hφ .db _ 0)]
    rfl
  · rw [if_neg hzero, if_neg hzero]
    rfl

private theorem fetchNew_breaks {accountID folderID : Nat} {path : Text}
    {prevUIDNext numMessages uidNext : Nat} (hI : Coarse I)
    (hup : ∀ e d, I d → I (Repository.upsert (toMessage accountID folderID e) d))
    (hb : b ∈ newRequests syncDepth c path prevUIDNext numMessages uidNext
      (maxUIDIf l.maxUIDBefore (db s) folderID))
    (hsent : b.2 = pre ++ e :: post)
    (hφ : ∀ x, φ (at_ x) = l.luck b.1 (behind pre post) x) (hs : I (db s)) :
    ∃ d, I d ∧ ∃ t, fetchNew digest syncDepth at_ c accountID folderID path prevUIDNext numMessages
      uidNext (.faulty φ) s = (.dead, t) ∧
      db t = Repository.upsert (toMessage accountID folderID e) d := by
  have hcrash : φ (at_ (.batch b.1 (behind pre post))) = .crash := by
    rw [hφ]
    exact if_pos ⟨rfl, rfl⟩
  have hcalm : ∀ n s, n ≠ b.1 ∨ s ≠ behind pre post → φ (at_ (.batch n s)) = .none := by
    intro n s hne
    rw [hφ]
    refine if_neg fun heq => ?_
    rcases hne with hne | hne
    · exact hne heq.1
    · exact hne heq.2
  unfold newRequests at hb
  unfold fetchNew
  by_cases hknown : uidNext > 0
  · rw [if_pos hknown] at hb ⊢
    rw [bind_ok (anchorFor_luck (hφ .maxUIDBefore) folderID prevUIDNext)]
    by_cases hmore : uidNext > anchorOf prevUIDNext (maxUIDIf l.maxUIDBefore (db s) folderID)
    · rw [if_pos hmore] at hb ⊢
      obtain ⟨b', hb', rfl⟩ := List.mem_map.mp hb
      exact fetchBatched_breaks hI hup hb' hsent hcrash hcalm hs
    · rw [if_neg hmore] at hb
      exact absurd hb List.not_mem_nil
  · have hmax : (withDefault (queryDB (at_ .maxUIDBefore) .db fun db =>
        Repository.maxUID db folderID) 0 : Proc ι Err σ Nat) (.faulty φ) s
          = (.ok (maxUIDIf l.maxUIDBefore (db s) folderID), s) :=
      withDefault_luck (hφ .maxUIDBefore) .db _ 0
    rw [if_neg hknown] at hb ⊢
    rw [bind_ok hmax]
    by_cases hlocal : maxUIDIf l.maxUIDBefore (db s) folderID > 0
    · rw [if_pos hlocal] at hb ⊢
      obtain rfl := List.mem_singleton.mp hb
      have hask : (ask (at_ (.batch (u32 (maxUIDIf l.maxUIDBefore (db s) folderID + 1)) .fetch))
          (c.fetchByUIDRange path (u32 (maxUIDIf l.maxUIDBefore (db s) folderID + 1)) 0) :
            Proc ι Err σ _) (.faulty φ) s = (.ok (pre ++ e :: post), s) := by
        rw [← hsent]
        exact query_none (hcalm _ _ (Or.inr (fetch_ne_behind pre post)))
      rw [bind_ok hask]
      exact upsertBatch_breaks hup hcrash (fun s hne => hcalm _ s (Or.inr hne)) hs
    · rw [if_neg hlocal] at hb ⊢
      unfold importRecent
      by_cases hnone : numMessages = 0
      · rw [if_pos hnone] at hb
        exact absurd hb List.not_mem_nil
      · rw [if_neg hnone] at hb ⊢
        rw [if_neg (Nat.lt_irrefl 0)]
        obtain ⟨b', hb', rfl⟩ := List.mem_map.mp hb
        exact fetchBatched_breaks hI hup hb' hsent hcrash hcalm hs

/-- **A round can break off behind any mail it can be made to be sent.** -/
theorem incrementalSync_breaks {f : Folder} (hI : Coarse I)
    (hup : ∀ e d, I d → I (Repository.upsert (toMessage f.accountID f.id e) d))
    (hb : b ∈ requests syncDepth c (db s) f l) (hsent : b.2 = pre ++ e :: post)
    (hφ : ∀ x, φ (at_ x) = l.luck b.1 (behind pre post) x) (hs : I (db s)) :
    ∃ d, I d ∧ ∃ t, incrementalSync digest syncDepth at_ c f.accountID f.id f.path
        f.uidValidity f.uidNext (.faulty φ) s = (.dead, t) ∧
      db t = Repository.upsert (toMessage f.accountID f.id e) d := by
  have hdefault : ∀ {α : Type} (x : SyncStmt) (f : DB → α) (a : α), φ (at_ x) = .none →
      (withDefault (queryDB (at_ x) .db f) a : Proc ι Err σ α) (.faulty φ) s
        = (.ok (f (db s)), s) := by
    intro α x f a h
    have hluck : φ (at_ x) = if false then .fail else .none := h
    exact withDefault_luck hluck .db f a
  have hselect : (ask (at_ .select) (c.selectFolder f.path) : Proc ι Err σ _) (.faulty φ) s
      = (.ok (c.selectFolder f.path), s) := query_none (hφ .select)
  unfold requests at hb
  by_cases hrebuilt : rebuilds c f l = true
  · rw [if_pos hrebuilt] at hb
    exact absurd hb List.not_mem_nil
  · rw [if_neg hrebuilt] at hb
    obtain ⟨d, hd, t, hdead, ht⟩ := fetchNew_breaks hI hup hb hsent hφ hs
    refine ⟨d, hd, t, ?_, ht⟩
    unfold incrementalSync
    rw [bind_ok hselect, bind_ok (reported_luck (hφ .statusUIDValidity) _ _),
      if_neg (fun h => hrebuilt (decide_eq_true h)), bind_ok (hdefault .countBefore _ 0 (hφ _)),
      bind_ok (hdefault .maxIDBefore _ 0 (hφ _)),
      bind_ok (reported_luck (hφ .statusUIDNext) _ _)]
    exact bind_dead hdead

end BreakRound

/-! ### Where a search can break off -/

section BreakSearch

variable {ι σ : Type} [HasBodies σ] {digest : Text → Text} {at_ : Nat → SearchStmt → ι}
  {accountID folderID : Nat} {I : DB → Prop} {φ : ι → Fault}

/-- **A search can break off behind any of its results.** -/
theorem storeResults_breaks (hI : Coarse I)
    (hup : ∀ e d, I d → I (Repository.upsert (toMessage accountID folderID e) d))
    {e : FetchedEmail} (post : List FetchedEmail) (pre : List FetchedEmail) :
    ∀ (n : Nat) (s : σ), φ (at_ (n + pre.length) (.store (.load 0))) = .crash →
      (∀ k x, k ≠ n + pre.length ∨ x ≠ .store (.load 0) → φ (at_ k x) = .none) → I (db s) →
      ∃ d, I d ∧ ∃ t, storeResults digest at_ accountID folderID n (pre ++ e :: post) (.faulty φ) s
        = (.dead, t) ∧ db t = Repository.upsert (toMessage accountID folderID e.toParsedEmail) d := by
  induction pre with
  | nil =>
      intro n s hcrash hcalm hs
      refine ⟨db s, hs, _, ?_, db_setDB s _⟩
      have hstore : (updateDB (at_ n (.store (.upsert 0))) .db (Repository.upsert
          (toMessage accountID folderID e.toParsedEmail)) : Proc ι Err σ Unit) (.faulty φ) s
            = (.ok (), setDB s (Repository.upsert
              (toMessage accountID folderID e.toParsedEmail) (db s))) :=
        update_none (hcalm _ _ (Or.inr (by simp)))
      exact bind_dead ((bind_ok hstore).trans (bind_dead (query_crash hcrash)))
  | cons e' rest ih =>
      intro n s hcrash hcalm hs
      have hnone : ∀ x, φ (at_ n x) = .none := fun x =>
        hcalm n x (Or.inl (by rw [List.length_cons]; omega))
      obtain ⟨m, s₁, h₁, hrow⟩ := returns_storeFetched digest
        (fun s => at_ n (.store s)) accountID folderID e'.toParsedEmail s
      obtain ⟨s₂, h₂⟩ := returns_storeParsedBody digest (fun s => at_ n (.body s)) e' hrow
      have hrun₁ := ((uses_storeFetched (S := fun i => φ i = .none) digest (fun s => hnone _) accountID
        folderID e'.toParsedEmail).calm (fun i hi => hi) s).trans h₁
      have hrun₂ := ((uses_storeParsedBody (S := fun i => φ i = .none) digest (fun s => hnone _) m.id
        e').calm (fun i hi => hi) s₁).trans h₂
      have hs₁ : I (db s₁) := by
        have hleft := keeps_storeFetched digest (fun s => at_ n (.store s)) accountID
          folderID (coarseOn_db hI) (on_db (hup e'.toParsedEmail)) .calm (fun _ _ h => h) s hs
        rw [h₁] at hleft
        exact hleft
      have hs₂ : I (db s₂) := by
        have hleft := keeps_storeParsedBody digest (fun s => at_ n (.body s))
          (coarseOn_db hI) bodyBlind_db m.id e' .calm (fun _ _ h => h) s₁ hs₁
        rw [h₂] at hleft
        exact hleft
      have hlength : n + (e' :: rest).length = n + 1 + rest.length := by
        rw [List.length_cons]
        omega
      rw [hlength] at hcrash hcalm
      obtain ⟨d, hd, t, hdead, ht⟩ := ih (n + 1) s₂ hcrash hcalm hs₂
      exact ⟨d, hd, t, (bind_ok hrun₁).trans ((bind_ok hrun₂).trans hdead), ht⟩

end BreakSearch

/-! ### What a round leaves alone -/

section Leave

variable {ι σ : Type} [HasDB σ] {φ : ι → Fault} {s : σ} {i : ι} {α : Type} {R : σ → Prop}

omit [HasDB σ] in
theorem ends_ask {answer : α} {Q : α → σ → Prop} (hQ : Q answer s) (hR : R s) :
    Ends (.faulty φ) s (ask i answer : Proc ι Err σ α) Q R := by
  refine ends_query (fun a ha => ?_) hR
  obtain rfl := Except.ok.inj ha
  exact hQ

omit [HasDB σ] in
theorem ends_reported {selected : Nat} {status : Option Nat} {Q : Nat → σ → Prop}
    (hQ : Q (saidIf (φ i == .fail) selected status) s) (hR : R s) :
    Ends (.faulty φ) s (reported i selected status : Proc ι Err σ Nat) Q R := by
  cases hφ : φ i with
  | none =>
      have hluck : φ i = if false then .fail else .none := hφ
      rw [hφ] at hQ
      unfold Ends
      rw [reported_luck hluck]
      exact hQ
  | fail =>
      have hluck : φ i = if true then .fail else .none := hφ
      rw [hφ] at hQ
      unfold Ends
      rw [reported_luck hluck]
      exact hQ
  | crash =>
      unfold reported ask
      unfold saidIf at hQ
      by_cases h : selected = 0
      · rw [if_pos h]
        unfold Ends
        rw [withDefault_apply, query_faulty, hφ]
        exact hR
      · rw [if_neg h] at hQ ⊢
        exact ends_pure hQ

theorem ends_default {e : Err} {f : DB → α} {a : α} {Q : α → σ → Prop}
    (hQ : Q (if φ i == .fail then a else f (db s)) s) (hR : R s) :
    Ends (.faulty φ) s (withDefault (queryDB i e f) a : Proc ι Err σ α) Q R := by
  unfold Ends queryDB
  rw [withDefault_apply, query_faulty]
  cases hφ : φ i with
  | none => rw [hφ] at hQ; exact hQ
  | fail => rw [hφ] at hQ; exact hQ
  | crash => exact hR

variable {digest : Text → Text} {syncDepth : Nat} {at_ : SyncStmt → ι} {c : Session}
  {I J : DB → Prop}

theorem fetchNew_leaves {accountID folderID : Nat} {path : Text}
    {prevUIDNext numMessages uidNext : Nat} (hI : Coarse I)
    (hup : ∀ b ∈ newRequests syncDepth c path prevUIDNext numMessages uidNext
      (maxUIDIf (φ (at_ .maxUIDBefore) == .fail) (db s) folderID), ∀ e ∈ b.2, ∀ d, I d →
        I (Repository.upsert (toMessage accountID folderID e) d))
    (hs : I (db s)) :
    Ends (.faulty φ) s (fetchNew digest syncDepth at_ c accountID folderID path prevUIDNext
      numMessages uidNext) (fun _ t => I (db t)) (fun t => I (db t)) := by
  unfold newRequests at hup
  unfold fetchNew
  by_cases hknown : uidNext > 0
  · rw [if_pos hknown] at hup ⊢
    have hrange : ∀ anchor,
        anchor = anchorOf prevUIDNext (maxUIDIf (φ (at_ .maxUIDBefore) == .fail) (db s) folderID) →
        Ends (.faulty φ) s (if uidNext > anchor then
            fetchRangeBatched digest at_ c accountID folderID path anchor (uidNext - 1)
          else pure ()) (fun _ t => I (db t)) (fun t => I (db t)) := by
      rintro anchor rfl
      split
      · rename_i hmore
        rw [if_pos hmore] at hup
        refine Keeps.ends ?_ (fun _ _ h => h) hs
        exact keeps_fetchBatched (coarseOn_db hI) fun b hb e he =>
          on_db (hup _ (List.mem_map.mpr ⟨b, hb, rfl⟩) e he)
      · exact ends_pure hs
    unfold anchorFor
    by_cases hzero : prevUIDNext = 0
    · rw [if_pos hzero, bind_assoc]
      refine ends_bind (ends_default (hrange _ ?_) hs)
      unfold anchorOf
      rw [if_pos hzero]
      rfl
    · rw [if_neg hzero]
      refine hrange _ ?_
      unfold anchorOf
      rw [if_neg hzero]
  · rw [if_neg hknown] at hup ⊢
    refine ends_bind (ends_default ?_ hs)
    change Ends _ s (if maxUIDIf (φ (at_ .maxUIDBefore) == .fail) (db s) folderID > 0 then _ else _)
      _ _
    split
    · rename_i hlocal
      rw [if_pos hlocal] at hup
      refine ends_bind (ends_ask ?_ hs)
      refine Keeps.ends ?_ (fun _ _ h => h) hs
      exact keeps_upsertBatch digest _ accountID folderID (coarseOn_db hI) fun e he =>
        on_db (hup _ (List.mem_singleton.mpr rfl) e he)
    · rename_i hempty
      rw [if_neg hempty] at hup
      unfold importRecent
      split
      · exact ends_pure hs
      · rename_i hsome
        rw [if_neg hsome] at hup
        rw [if_neg (Nat.lt_irrefl 0)]
        refine Keeps.ends ?_ (fun _ _ h => h) hs
        exact keeps_fetchBatched (coarseOn_db hI) fun b hb e he =>
          on_db (hup _ (List.mem_map.mpr ⟨b, hb, rfl⟩) e he)

/-- **What the upserts of all mails it can be made to be sent keep, a round keeps.** Where it
empties the folder, `J` is what all upserts keep from then on. -/
theorem incrementalSync_leaves {f : Folder} (hI : Coarse I)
    (hup : ∀ l, ∀ b ∈ requests syncDepth c (db s) f l, ∀ e ∈ b.2, ∀ d, I d →
      I (Repository.upsert (toMessage f.accountID f.id e) d))
    (hJ : Coarse J) (hJup : ∀ e d, J d → J (Repository.upsert (toMessage f.accountID f.id e) d))
    (hdelete : ∀ d, I d → J (Repository.deleteByFolder f.id d)) (hJI : ∀ d, J d → I d)
    (hs : I (db s)) :
    I (db (incrementalSync digest syncDepth at_ c f.accountID f.id f.path f.uidValidity f.uidNext
      (.faulty φ) s).2) := by
  have hends : Ends (.faulty φ) s (incrementalSync digest syncDepth at_ c f.accountID f.id f.path
      f.uidValidity f.uidNext) (fun _ t => I (db t)) (fun t => I (db t)) := by
    have hrequests := hup ⟨φ (at_ .statusUIDValidity) == .fail, φ (at_ .statusUIDNext) == .fail,
      φ (at_ .maxUIDBefore) == .fail⟩
    unfold requests rebuilds at hrequests
    unfold incrementalSync
    refine ends_bind (ends_ask ?_ hs)
    refine ends_bind (ends_reported ?_ hs)
    split
    · refine ends_bind (ends_update ?_ hs)
      have hstart : J (db (setDB s (Repository.deleteByFolder f.id (db s)))) := by
        rw [db_setDB]
        exact hdelete _ hs
      refine ends_bind (Ends.imp (Keeps.ends ?_ (fun _ _ h => h) hstart) (fun _ t ht => hJI _ ht)
        fun t ht => hJI _ ht)
      exact keeps_syncFolderMessages (coarseOn_db hJ) (fun e _ => on_db (hJup e))
        (on_db fun d hd => hdelete d (hJI d hd)) syncDepth 0
    · rename_i hrebuilt
      rw [if_neg (fun h => hrebuilt (of_decide_eq_true h))] at hrequests
      refine ends_bind (ends_default ?_ hs)
      refine ends_bind (ends_default ?_ hs)
      refine ends_bind (ends_reported ?_ hs)
      refine ends_bind ((fetchNew_leaves hI hrequests hs).imp (fun _ t ht => ?_) fun _ ht => ht)
      refine Keeps.ends ?_ (fun _ _ h => h) ht
      refine keeps_bind (keeps_withDefault (keeps_queryDB _ _ _) 0) fun total => ?_
      refine keeps_bind (keeps_withDefault (keeps_queryDB _ _ _) 0) fun unread => ?_
      refine keeps_bind (keeps_newMail f.id _ _ _ _) fun nm => ?_
      exact keeps_bind (keeps_folderState f.id _ _ _ _) fun _ => keeps_pure _
  exact hends.left

end Leave

end Message

namespace Sync

open Proc FlyMail.Message

/-- The flag a fetched mail comes with. -/
def MailFlag.sent (e : ParsedEmail) : MailFlag → Bool
  | .seen => e.isRead
  | .flagged => e.isStarred

/-- The row's flag is as the user left it, and the change still waits in the queue. -/
def Waits (db : DB) (m : FlyMail.Message) (flag : MailFlag) : Prop :=
  ∃ src, Folder.Repository.getByID db m.folderID = some src ∧
    (pendingFlag db.ops.rows (placeOf m src) flag).getLast? = some (flag.of m)

/-! ### Rounds -/

/-- What brings mails into a folder: a round of fetching, or a search on the server. -/
inductive Round
  | incremental (c : Session)
  | search (results : List FetchedEmail)

/-- The statements of a round. -/
inductive RoundStmt
  | sync (s : SyncStmt)
  | search (n : Nat) (s : SearchStmt)
  deriving DecidableEq, Repr

def Round.run (digest : Text → Text) (syncDepth : Nat) (f : Folder) :
    Round → Proc RoundStmt Message.Err (DB × Bodies) Unit
  | .incremental c => do
      let _ ← incrementalSync digest syncDepth .sync c f.accountID f.id f.path f.uidValidity
        f.uidNext
  | .search results => storeResults digest .search f.accountID f.id 0 results

/-- The server may be made to send the mail in this round. -/
def Round.MaySend (syncDepth : Nat) (f : Folder) (db : DB) (e : ParsedEmail) : Round → Prop
  | .incremental c => ∃ l, ∃ b ∈ requests syncDepth c db f l, e ∈ b.2
  | .search results => ∃ r ∈ results, r.toParsedEmail = e

/-! ### A row and its flag -/

section Row

variable {flag : MailFlag} {m : FlyMail.Message} {d : DB} {accountID folderID : Nat}
  {e : ParsedEmail}

/-- The row, if it is there, is where it was and has its flag. -/
structure Kept (flag : MailFlag) (m : FlyMail.Message) (d : DB) : Prop where
  below : m.id ≤ d.messages.last
  row : ∀ r ∈ d.messages.rows, r.id = m.id → r.key = m.key ∧ flag.of r = flag.of m

/-- The row, if it is there, is in another folder, and has its flag. -/
structure Away (flag : MailFlag) (m : FlyMail.Message) (folderID : Nat) (d : DB) : Prop
    extends Kept flag m d where
  away : ∀ r ∈ d.messages.rows, r.id = m.id → r.folderID ≠ folderID

/-- The row is there, and where it was. -/
def Stands (m : FlyMail.Message) (d : DB) : Prop :=
  ∃ r ∈ d.messages.rows, r.id = m.id ∧ r.key = m.key

theorem of_core (flag : MailFlag) (r : FlyMail.Message) : flag.of r.core = flag.of r := by
  cases flag <;> rfl

theorem Kept.of (hm : m ∈ d.messages.rows) : Kept flag m d := by
  refine ⟨d.messages.below m hm, fun r hr hid => ?_⟩
  rw [d.messages.eq_of_pk hr hm hid]
  exact ⟨rfl, rfl⟩

theorem coarse_kept : Coarse (Kept flag m) := by
  intro d d' hsame h
  refine ⟨hsame.last.symm ▸ h.below, fun r hr hid => ?_⟩
  obtain ⟨r₀, hr₀, hcore⟩ := hsame.exists_core hr
  obtain ⟨hkey, hflag⟩ := h.row r₀ hr₀ ((congrArg FlyMail.Message.id hcore).trans hid)
  refine ⟨(congrArg FlyMail.Message.key hcore).symm.trans hkey, ?_⟩
  rw [← hflag, ← of_core flag r, ← hcore, of_core]

theorem coarse_away : Coarse (Away flag m folderID) := by
  intro d d' hsame h
  refine ⟨coarse_kept d d' hsame h.toKept, fun r hr hid => ?_⟩
  obtain ⟨r₀, hr₀, hcore⟩ := hsame.exists_core hr
  have haway := h.away r₀ hr₀ ((congrArg FlyMail.Message.id hcore).trans hid)
  have hfolder : r₀.core.folderID = r.core.folderID := congrArg FlyMail.Message.folderID hcore
  exact fun heq => haway (hfolder.trans heq)

theorem coarse_stands : Coarse (Stands m) := by
  rintro d d' hsame ⟨r, hr, hid, hkey⟩
  obtain ⟨r', hr', hcore⟩ := hsame.symm.exists_core hr
  exact ⟨r', hr', (congrArg FlyMail.Message.id hcore).trans hid,
    (congrArg FlyMail.Message.key hcore).trans hkey⟩

/-- **An upsert leaves a row its flag** unless it is the row's mail, with the other flag. -/
theorem Kept.upsert (h : Kept flag m d)
    (he : ∀ r ∈ d.messages.rows, r.id = m.id → r.key = (folderID, e.uid) →
      flag.sent e = flag.of m) :
    Kept flag m (Repository.upsert (toMessage accountID folderID e) d) := by
  refine ⟨Nat.le_trans h.below Repository.last_le_upsert, fun r hr hid => ?_⟩
  rcases Repository.mem_upsert.mp hr with ⟨hr, -⟩ | ⟨a, ha, hkey, rfl⟩ | ⟨-, rfl⟩
  · exact h.row r hr hid
  · refine ⟨(h.row a ha hid).1, ?_⟩
    rw [← he a ha hid hkey]
    cases flag <;> rfl
  · have hbelow := h.below
    have hnew : d.messages.last + 1 = m.id := hid
    omega

theorem Away.upsert (h : Away flag m folderID d) :
    Away flag m folderID (Repository.upsert (toMessage accountID folderID e) d) := by
  have hother : ∀ r ∈ d.messages.rows, r.id = m.id → r.key ≠ (folderID, e.uid) :=
    fun r hr hid hkey => h.away r hr hid (congrArg Prod.fst hkey)
  refine ⟨h.toKept.upsert fun r hr hid hkey => absurd hkey (hother r hr hid), fun r hr hid => ?_⟩
  rcases Repository.mem_upsert.mp hr with ⟨hr, -⟩ | ⟨a, ha, hkey, rfl⟩ | ⟨-, rfl⟩
  · exact h.away r hr hid
  · exact absurd hkey (hother a ha hid)
  · have hbelow := h.below
    have hnew : d.messages.last + 1 = m.id := hid
    omega

theorem Kept.deleteByFolder (h : Kept flag m d) (folderID : Nat) :
    Away flag m folderID (Repository.deleteByFolder folderID d) := by
  refine ⟨⟨h.below, fun r hr => h.row r (List.mem_filter.mp hr).1⟩, fun r hr _ heq => ?_⟩
  have hnot : (!(r.folderID == folderID)) = true := (List.mem_filter.mp hr).2
  rw [heq, beq_self_eq_true] at hnot
  cases hnot

theorem Stands.upsert (h : Stands m d) :
    Stands m (Repository.upsert (toMessage accountID folderID e) d) := by
  obtain ⟨r, hr, hid, hkey⟩ := h
  by_cases hk : r.key = (toMessage accountID folderID e).key
  · exact ⟨_, Repository.mem_upsert.mpr (Or.inr (Or.inl ⟨r, hr, hk, rfl⟩)), hid, hkey⟩
  · exact ⟨r, Repository.mem_upsert.mpr (Or.inl ⟨hr, hk⟩), hid, hkey⟩

/-- **The upsert of a row's mail gives the row the mail's flag.** -/
theorem Stands.takes (h : Stands m d) (accountID : Nat) (hkey : m.key = (folderID, e.uid)) (flag : MailFlag) :
    ∃ r ∈ (Repository.upsert (toMessage accountID folderID e) d).messages.rows,
      r.id = m.id ∧ flag.of r = flag.sent e := by
  obtain ⟨r, hr, hid, hk⟩ := h
  refine ⟨_, Repository.mem_upsert.mpr (Or.inr (Or.inl ⟨r, hr, hk.trans hkey, rfl⟩)), hid, ?_⟩
  cases flag <;> rfl

end Row

/-! ### The result -/

/-- The rows whose changes wait are as the user left them. -/
def WaitingKept (d d' : DB) : Prop :=
  ∀ m ∈ d.messages.rows, ∀ flag, Waits d m flag → ∀ m' ∈ d'.messages.rows, m'.id = m.id →
    flag.of m' = flag.of m

private theorem kept_run {digest : Text → Text} {syncDepth : Nat} {f : Folder} {r : Round}
    {s : DB × Bodies} {m : FlyMail.Message} (hm : m ∈ s.1.messages.rows) {flag : MailFlag}
    (h : m.folderID = f.id → ∀ e, r.MaySend syncDepth f s.1 e → e.uid = m.uid →
      flag.sent e = flag.of m) (φ : RoundStmt → Fault) :
    Kept flag m (r.run digest syncDepth f (.faulty φ) s).2.1 := by
  have hup : ∀ e, r.MaySend syncDepth f s.1 e → ∀ d, Kept flag m d →
      Kept flag m (Repository.upsert (toMessage f.accountID f.id e) d) := by
    intro e he d hd
    refine hd.upsert fun a ha hid hkey => ?_
    have hk : m.key = (f.id, e.uid) := (hd.row a ha hid).1.symm.trans hkey
    rw [FlyMail.Message.key, Prod.mk.injEq] at hk
    exact h hk.1 e he hk.2.symm
  cases r with
  | incremental c =>
      have hleft : Kept flag m (db (incrementalSync digest syncDepth RoundStmt.sync c f.accountID
          f.id f.path f.uidValidity f.uidNext (.faulty φ) s).2) := by
        refine incrementalSync_leaves (J := Away flag m f.id) coarse_kept ?_ coarse_away
          (fun e d hd => hd.upsert) (fun d hd => hd.deleteByFolder f.id) (fun d hd => hd.toKept)
          (Kept.of hm)
        exact fun l b hb e he => hup e ⟨l, b, hb, he⟩
      show Kept flag m ((incrementalSync digest syncDepth RoundStmt.sync c f.accountID f.id f.path
        f.uidValidity f.uidNext >>= fun _ => pure ()) (.faulty φ) s).2.1
      rw [bind_apply]
      split
      · rename_i heq
        rw [heq] at hleft
        exact hleft
      · rename_i heq
        rw [heq] at hleft
        exact hleft
      · rename_i heq
        rw [heq] at hleft
        exact hleft
  | search results =>
      refine keeps_storeResults digest RoundStmt.search f.accountID f.id (coarseOn_db coarse_kept)
        bodyBlind_db results ?_ 0 (.faulty φ) (fun _ _ h => h) s (Kept.of hm)
      exact fun e he => on_db (hup e.toParsedEmail ⟨e, he, rfl⟩)

/-- The luck of a round of fetching. -/
private def syncLuck (φ : SyncStmt → Fault) : RoundStmt → Fault
  | .sync x => φ x
  | .search _ _ => .none

/-- The luck of a search that breaks off behind its `n`-th result. -/
private def searchLuck (n : Nat) : RoundStmt → Fault
  | .sync _ => .none
  | .search k x => if k = n ∧ x = .store (.load 0) then .crash else .none

private theorem exists_break {digest : Text → Text} {syncDepth : Nat} {f : Folder} {r : Round}
    {s : DB × Bodies} {m : FlyMail.Message} (hm : m ∈ s.1.messages.rows) (hfolder : m.folderID = f.id)
    {e : ParsedEmail} (he : r.MaySend syncDepth f s.1 e) (huid : e.uid = m.uid) (flag : MailFlag) :
    ∃ φ : RoundStmt → Fault, ∃ m' ∈ (r.run digest syncDepth f (.faulty φ) s).2.1.messages.rows,
      m'.id = m.id ∧ flag.of m' = flag.sent e := by
  have hstands : Stands m (db s) := ⟨m, hm, rfl, rfl⟩
  have hkey : m.key = (f.id, e.uid) := by rw [FlyMail.Message.key, hfolder, huid]
  cases r with
  | incremental c =>
      obtain ⟨l, b, hb, he⟩ := he
      obtain ⟨pre, post, hsent⟩ := List.append_of_mem he
      have hbreak : ∃ d, Stands m d ∧ ∃ t, incrementalSync digest syncDepth RoundStmt.sync c
          f.accountID f.id f.path f.uidValidity f.uidNext
          (.faulty (syncLuck (l.luck b.1 (behind pre post)))) s = (.dead, t) ∧
            db t = Repository.upsert (toMessage f.accountID f.id e) d :=
        incrementalSync_breaks coarse_stands (fun e d hd => hd.upsert) hb hsent (fun _ => rfl)
          hstands
      obtain ⟨d, hd, t, hdead, ht⟩ := hbreak
      obtain ⟨m', hm', hid, hflag⟩ := hd.takes f.accountID hkey flag
      refine ⟨syncLuck (l.luck b.1 (behind pre post)), m', ?_, hid, hflag⟩
      show m' ∈ ((incrementalSync digest syncDepth RoundStmt.sync c f.accountID f.id f.path
        f.uidValidity f.uidNext >>= fun _ => pure ()) _ s).2.1.messages.rows
      rw [bind_dead hdead]
      show m' ∈ (db t).messages.rows
      rw [ht]
      exact hm'
  | search results =>
      obtain ⟨e', he', rfl⟩ := he
      obtain ⟨pre, post, hresults⟩ := List.append_of_mem he'
      have hbreak : ∃ d, Stands m d ∧ ∃ t, storeResults digest RoundStmt.search f.accountID f.id 0
          (pre ++ e' :: post) (.faulty (searchLuck pre.length)) s = (.dead, t) ∧
            db t = Repository.upsert (toMessage f.accountID f.id e'.toParsedEmail) d := by
        refine storeResults_breaks coarse_stands (fun e d hd => hd.upsert) post pre 0 s ?_ ?_ hstands
        · rw [Nat.zero_add]
          exact if_pos ⟨rfl, rfl⟩
        · intro k x hne
          rw [Nat.zero_add] at hne
          refine if_neg fun heq => ?_
          rcases hne with hne | hne
          · exact hne heq.1
          · exact hne heq.2
      obtain ⟨d, hd, t, hdead, ht⟩ := hbreak
      obtain ⟨m', hm', hid, hflag⟩ := hd.takes f.accountID hkey flag
      refine ⟨searchLuck pre.length, m', ?_, hid, hflag⟩
      show m' ∈ (storeResults digest RoundStmt.search f.accountID f.id 0 results _ s).2.1.messages.rows
      rw [hresults, hdead]
      show m' ∈ (db t).messages.rows
      rw [ht]
      exact hm'

/-- **When waiting changes last through a round**, whatever fails and wherever it breaks off:
when the server sends no mail of theirs with another flag. -/
theorem waiting_kept_iff (digest : Text → Text) (syncDepth : Nat) (f : Folder) (r : Round)
    (s : DB × Bodies) :
    (∀ φ, WaitingKept s.1 (r.run digest syncDepth f (.faulty φ) s).2.1) ↔
      ∀ m ∈ s.1.messages.rows, m.folderID = f.id → ∀ flag, Waits s.1 m flag →
        ∀ e, r.MaySend syncDepth f s.1 e → e.uid = m.uid → flag.sent e = flag.of m := by
  constructor
  · intro h m hm hfolder flag hwaits e he huid
    obtain ⟨φ, m', hm', hid, hflag⟩ := exists_break hm hfolder he huid flag
    exact hflag.symm.trans (h φ m hm flag hwaits m' hm' hid)
  · intro h φ m hm flag hwaits m' hm' hid
    exact ((kept_run hm (fun hfolder => h m hm hfolder flag hwaits) φ).row m' hm' hid).2

/-- The one mail of the inbox, as the server has it. -/
private def unreadOnServer : ParsedEmail where
  messageID := []
  uid := .numbered 7
  inReplyTo := []
  references := []
  subject := []
  sender := []
  toList := []
  ccList := []
  date := 0
  size := 0
  flags := []
  isRead := false
  isStarred := false

/-- A server that does not say which UID comes next. To a request for all mails from 8 on it
answers with the last mail, number 7. -/
private def withoutUIDNext : Session where
  listFolders := []
  selectFolder _ := ⟨1, 1, 0⟩
  statusUIDValidity _ := none
  statusUIDNext _ := none
  fetchByUIDRange _ _ _ := [unreadOnServer]
  fetchBySeqRange _ _ _ := [unreadOnServer]

private def inboxRow : Folder := .bare 1 1 "INBOX".toList .inbox

/-- The user has read the mail, and that waits to be sent. -/
private def justRead : DB :=
  ((Call.setRead 1 true).run ⟨fun _ _ => 0, fun _ _ => 0⟩ 1 .calm
    ⟨.single (.bare 1 1 1 (.numbered 7)), .single inboxRow, .empty⟩).2

/-- **A mail that was just read is unread again** after a round in which nothing fails. -/
theorem read_reverted :
    ¬ WaitingKept justRead ((Round.incremental withoutUIDNext).run id 1000 inboxRow .calm
      (justRead, ⟨[], []⟩)).2.1 := by
  intro h
  let m : FlyMail.Message := { FlyMail.Message.bare 1 1 1 (.numbered 7) with seen := true }
  have hrows : justRead.messages.rows = [m] := rfl
  have hwaits : Waits justRead m .seen := ⟨inboxRow, rfl, rfl⟩
  have hafter : ((Round.incremental withoutUIDNext).run id 1000 inboxRow .calm
      (justRead, ⟨[], []⟩)).2.1.messages.rows.map (fun m => (m.id, m.seen)) = [(1, false)] := rfl
  have hmem : (1, false) ∈ [(1, false)] := List.mem_singleton.mpr rfl
  rw [← hafter] at hmem
  obtain ⟨m', hm', heq⟩ := List.mem_map.mp hmem
  obtain ⟨hid, hseen⟩ := Prod.mk.inj heq
  have hkept : m'.seen = true :=
    h m (hrows ▸ List.mem_singleton.mpr rfl) .seen hwaits m' hm' hid
  rw [hseen] at hkept
  cases hkept

end Sync

end FlyMail
