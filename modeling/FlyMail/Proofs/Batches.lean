/-
A range is fetched batch by batch, all of it and nothing twice.

The loop of the source asks for a sub-range, stores what came, and goes on behind it, in 32-bit
arithmetic that may wrap at the top.  `batchEnd` never lies beyond the end of the range, and where it is
not the end the number behind it has not wrapped (`batchEnd_spec`); so what is left of the range gets
less with every pass, and the loop ends wherever it began.  The sub-ranges it would ask for if nothing
failed are `rangesOf`, which tile the range (`tiles_rangesOf`), and when a call fails those before it
are stored.
-/
import FlyMail.Lib.While
import FlyMail.Proofs.Pending

namespace FlyMail.Message

open Proc

/-! ### The sub-ranges -/

/-- The last number of the sub-range that begins at `start`. -/
def batchEnd (start last : Nat) : Nat :=
  let next := u32 (start + fetchBatchSize - 1)
  if next > last ∨ next < start then last else next

theorem batchEnd_spec {start last : Nat} (hlast : last < 2 ^ 32) (hle : start ≤ last) :
    start ≤ batchEnd start last ∧ batchEnd start last ≤ last ∧
      batchEnd start last + 1 - start ≤ fetchBatchSize ∧
        (batchEnd start last ≠ last → u32 (batchEnd start last + 1) = batchEnd start last + 1) := by
  unfold batchEnd fetchBatchSize
  dsimp only
  split
  · rename_i hcut
    unfold u32 at hcut
    exact ⟨hle, Nat.le_refl _, by omega, fun hne => absurd rfl hne⟩
  · rename_i hcut
    unfold u32 at hcut ⊢
    refine ⟨by omega, by omega, by omega, fun _ => by omega⟩

theorem batches_succ (n start last : Nat) : batches (n + 1) start last =
    if start ≤ last then
      (start, batchEnd start last) ::
        if batchEnd start last = last then [] else batches n (u32 (batchEnd start last + 1)) last
    else [] := rfl

/-- The sub-ranges are the range in pieces of at most `fetchBatchSize` numbers. -/
structure Tiles (first last : Nat) (ranges : List (Nat × Nat)) : Prop where
  nonempty : ∀ b ∈ ranges, b.1 ≤ b.2
  size : ∀ b ∈ ranges, b.2 + 1 - b.1 ≤ fetchBatchSize
  /-- They do not overlap, and stand in ascending order. -/
  ascending : ranges.Pairwise fun b b' => b.2 < b'.1
  covers : ∀ n, (∃ b ∈ ranges, b.1 ≤ n ∧ n ≤ b.2) ↔ first ≤ n ∧ n ≤ last

theorem ascending_batches {last : Nat} (hlast : last < 2 ^ 32) (n : Nat) :
    ∀ start, (∀ b ∈ batches n start last, b.2 + 1 - b.1 ≤ fetchBatchSize) ∧
      (batches n start last).Pairwise fun b b' => b.2 < b'.1 := by
  induction n with
  | zero => exact fun start => ⟨fun b hb => absurd hb List.not_mem_nil, .nil⟩
  | succ n ih =>
      intro start
      rw [batches_succ]
      split
      · rename_i hle
        obtain ⟨-, -, hsize, hnext⟩ := batchEnd_spec hlast hle
        split
        · refine ⟨fun b hb => ?_, List.pairwise_singleton _ _⟩
          rw [List.mem_singleton.mp hb]
          exact hsize
        · rename_i hne
          obtain ⟨hsizes, hpairs⟩ := ih (u32 (batchEnd start last + 1))
          refine ⟨fun b hb => ?_, List.pairwise_cons.mpr ⟨fun b hb => ?_, hpairs⟩⟩
          · rcases List.mem_cons.mp hb with rfl | hb
            · exact hsize
            · exact hsizes b hb
          · have hbehind := (batch_within hlast hb).1
            rw [hnext hne] at hbehind
            exact hbehind
      · exact ⟨fun b hb => absurd hb List.not_mem_nil, .nil⟩

/-- **The sub-ranges tile the range.** -/
theorem tiles_rangesOf {first last : Nat} (hlast : last < 2 ^ 32) : Tiles first last (rangesOf first last) := by
  obtain ⟨hsizes, hpairs⟩ := ascending_batches hlast (last + 1 - first) first
  refine ⟨fun b hb => (batch_within hlast hb).2.1, hsizes, hpairs, fun n => ⟨?_, ?_⟩⟩
  · rintro ⟨b, hb, hlo, hhi⟩
    obtain ⟨h1, -, h3⟩ := batch_within hlast hb
    exact ⟨h1.trans hlo, hhi.trans h3⟩
  · rintro ⟨hlo, hhi⟩
    exact mem_batches hlast (Nat.le_refl _) hlo hhi

/-- At the top of the range the arithmetic wraps, and the last sub-range is cut short. -/
example : rangesOf (2 ^ 32 - 250) (2 ^ 32 - 1) =
    [(2 ^ 32 - 250, 2 ^ 32 - 51), (2 ^ 32 - 50, 2 ^ 32 - 1)] := by decide

/-! ### The loop -/

/-- The loop on its way: where the next sub-range begins, those asked for, and the store. -/
structure Walk (σ : Type) where
  start : Nat
  asked : List (Nat × Nat)
  store : σ

/-- What has become of the range. -/
structure Walked (σ : Type) where
  out : Outcome Err Unit
  asked : List (Nat × Nat)
  store : σ

section Loop

variable {ι σ : Type} [HasDB σ] (digest : Text → Text) (at_ : SyncStmt → ι) (accountID folderID : Nat)
  (fetch : Nat → Nat → List ParsedEmail)

/-- A sub-range is asked for, and what came is stored. -/
def fetchBatch (b : Nat × Nat) : Proc ι Err σ Unit := do
  let emails ← ask (at_ (.batch b.1 .fetch)) (fetch b.1 b.2)
  upsertBatch digest (fun s => at_ (.batch b.1 s)) accountID folderID emails

variable (env : Env ι σ) (last : Nat)

/-- One pass of the loop. -/
def fetchPass (w : Walk σ) : Walked σ ⊕ Walk σ :=
  if w.start ≤ last then
    let asked := w.asked ++ [(w.start, batchEnd w.start last)]
    match fetchBatch digest at_ accountID folderID fetch (w.start, batchEnd w.start last) env w.store with
    | (.ok _, t) =>
        if batchEnd w.start last = last then .inl ⟨.ok (), asked, t⟩
        else .inr ⟨u32 (batchEnd w.start last + 1), asked, t⟩
    | (out, t) => .inl ⟨out, asked, t⟩
  else .inl ⟨.ok (), w.asked, w.store⟩

/-- The sub-ranges of the list one after another, behind those asked for. -/
def walked (asked ranges : List (Nat × Nat)) (s : σ) : Walked σ where
  out := (each (fetchBatch digest at_ accountID folderID fetch) ranges env s).1
  asked := asked ++ begun (fetchBatch digest at_ accountID folderID fetch) env ranges s
  store := (each (fetchBatch digest at_ accountID folderID fetch) ranges env s).2

variable {digest at_ accountID folderID fetch env last}

theorem walked_nil (asked : List (Nat × Nat)) (s : σ) :
    walked digest at_ accountID folderID fetch env asked [] s = ⟨.ok (), asked, s⟩ :=
  congrArg (fun l => Walked.mk _ l _) (List.append_nil asked)

theorem walked_of_ok {asked rest : List (Nat × Nat)} {b : Nat × Nat} {s t : σ}
    (h : fetchBatch digest at_ accountID folderID fetch b env s = (.ok (), t)) :
    walked digest at_ accountID folderID fetch env asked (b :: rest) s =
      walked digest at_ accountID folderID fetch env (asked ++ [b]) rest t := by
  unfold walked
  rw [each_of_ok h, begun_of_ok h, List.append_assoc]
  rfl

theorem walked_of_ne {asked rest : List (Nat × Nat)} {b : Nat × Nat} {s : σ}
    (h : (fetchBatch digest at_ accountID folderID fetch b env s).1 ≠ .ok ()) :
    walked digest at_ accountID folderID fetch env asked (b :: rest) s =
      ⟨(fetchBatch digest at_ accountID folderID fetch b env s).1, asked ++ [b],
        (fetchBatch digest at_ accountID folderID fetch b env s).2⟩ := by
  unfold walked
  rw [each_of_ne h, begun_of_ne h]

/-- The ways a pass goes. -/
inductive PassCase (digest : Text → Text) (at_ : SyncStmt → ι) (accountID folderID : Nat)
    (fetch : Nat → Nat → List ParsedEmail) (env : Env ι σ) (last : Nat) (w : Walk σ) :
    Walked σ ⊕ Walk σ → Prop
  | beyond (h : ¬ w.start ≤ last) : PassCase digest at_ accountID folderID fetch env last w
      (.inl ⟨.ok (), w.asked, w.store⟩)
  | finished {t : σ} (hle : w.start ≤ last) (hend : batchEnd w.start last = last)
      (h : fetchBatch digest at_ accountID folderID fetch (w.start, batchEnd w.start last) env w.store =
        (.ok (), t)) :
      PassCase digest at_ accountID folderID fetch env last w
        (.inl ⟨.ok (), w.asked ++ [(w.start, batchEnd w.start last)], t⟩)
  | goesOn {t : σ} (hle : w.start ≤ last) (hend : batchEnd w.start last ≠ last)
      (h : fetchBatch digest at_ accountID folderID fetch (w.start, batchEnd w.start last) env w.store =
        (.ok (), t)) :
      PassCase digest at_ accountID folderID fetch env last w
        (.inr ⟨u32 (batchEnd w.start last + 1), w.asked ++ [(w.start, batchEnd w.start last)], t⟩)
  | fails {r : Outcome Err Unit × σ} (hle : w.start ≤ last)
      (h : fetchBatch digest at_ accountID folderID fetch (w.start, batchEnd w.start last) env w.store = r)
      (hne : r.1 ≠ .ok ()) :
      PassCase digest at_ accountID folderID fetch env last w
        (.inl ⟨r.1, w.asked ++ [(w.start, batchEnd w.start last)], r.2⟩)

theorem fetchPass_cases (w : Walk σ) : PassCase digest at_ accountID folderID fetch env last w
    (fetchPass digest at_ accountID folderID fetch env last w) := by
  unfold fetchPass
  split
  · rename_i hle
    dsimp only
    cases h : fetchBatch digest at_ accountID folderID fetch (w.start, batchEnd w.start last) env w.store with
    | mk out t =>
        cases out with
        | ok _ =>
            dsimp only
            split
            · rename_i hend
              exact .finished hle hend h
            · rename_i hend
              exact .goesOn hle hend h
        | err e => exact .fails hle h fun hok => by cases hok
        | dead => exact .fails hle h fun hok => by cases hok
  · rename_i h
    exact .beyond h

/-- **The loop ends**, having gone through the sub-ranges. -/
theorem loop_fetchPass (hlast : last < 2 ^ 32) (first : Nat) (s : σ) :
    loop (fetchPass digest at_ accountID folderID fetch env last) ⟨first, [], s⟩ =
      Part.some (walked digest at_ accountID folderID fetch env [] (rangesOf first last) s) := by
  by_cases hle : first ≤ last
  · refine @loop_eq_some _ _ (fetchPass digest at_ accountID folderID fetch env last) (fun w => w.start ≤ last)
      (fun w => last - w.start)
      (fun n w => walked digest at_ accountID folderID fetch env w.asked (batches n w.start last) w.store)
      ?_ ?_ ?_ (last + 1 - first) ⟨first, [], s⟩ hle ?_
    · intro w w' hw h
      have hcase := @fetchPass_cases ι σ _ digest at_ accountID folderID fetch env last w
      rw [h] at hcase
      cases hcase with
      | goesOn _ hend _ =>
          obtain ⟨hstart, hwithin, -, hnext⟩ := batchEnd_spec hlast hw
          show u32 (batchEnd w.start last + 1) ≤ last ∧ last - u32 (batchEnd w.start last + 1) < last - w.start
          rw [hnext hend]
          omega
    · intro n w r h
      have hcase := @fetchPass_cases ι σ _ digest at_ accountID folderID fetch env last w
      rw [h] at hcase
      rw [batches_succ]
      cases hcase with
      | beyond hgt =>
          rw [if_neg hgt]
          exact walked_nil w.asked w.store
      | finished hle hend hbatch =>
          rw [if_pos hle, if_pos hend, walked_of_ok hbatch]
          exact walked_nil _ _
      | fails hle hbatch hne =>
          rw [if_pos hle]
          subst hbatch
          exact walked_of_ne hne
    · intro n w w' h
      have hcase := @fetchPass_cases ι σ _ digest at_ accountID folderID fetch env last w
      rw [h] at hcase
      rw [batches_succ]
      cases hcase with
      | goesOn hle hend hbatch =>
          rw [if_pos hle, if_neg hend]
          exact walked_of_ok hbatch
    · show last - first < last + 1 - first
      omega
  · have hnone : rangesOf first last = [] := by
      have hzero : last + 1 - first = 0 := by omega
      unfold rangesOf
      rw [hzero]
      rfl
    rw [hnone]
    exact loop_stop (if_neg hle)

variable (digest at_ accountID folderID fetch env) in
/-- How far a range is fetched from `s` on: to its end, or up to a sub-range for which a call fails.
The sub-ranges before that one are stored. -/
inductive Fetched (s : σ) (ranges : List (Nat × Nat)) : Walked σ → Prop
  /-- No call failed. -/
  | all {t : σ} (hstored : each (fetchBatch digest at_ accountID folderID fetch) ranges env s = (.ok (), t)) :
      Fetched s ranges ⟨.ok (), ranges, t⟩
  /-- The fetcher failed at `b`. Nothing was done since, but what others did. -/
  | refused {before after : List (Nat × Nat)} {b : Nat × Nat} {t : σ} (hranges : ranges = before ++ b :: after)
      (hstored : each (fetchBatch digest at_ accountID folderID fetch) before env s = (.ok (), t))
      (hfault : env.fault (at_ (.batch b.1 .fetch)) = .fail) :
      Fetched s ranges ⟨.err .imap, before ++ [b], env.meddle (at_ (.batch b.1 .fetch)) t⟩
  /-- The process died there. -/
  | died {before after : List (Nat × Nat)} {b : Nat × Nat} {t : σ} (hranges : ranges = before ++ b :: after)
      (hstored : each (fetchBatch digest at_ accountID folderID fetch) before env s = (.ok (), t))
      (hfault : env.fault (at_ (.batch b.1 .fetch)) = .crash) :
      Fetched s ranges ⟨.dead, before ++ [b], env.meddle (at_ (.batch b.1 .fetch)) t⟩
  /-- The store failed on what came for `b`. -/
  | unstored {before after : List (Nat × Nat)} {b : Nat × Nat} {t : σ} {r : Outcome Err Unit × σ}
      (hranges : ranges = before ++ b :: after)
      (hstored : each (fetchBatch digest at_ accountID folderID fetch) before env s = (.ok (), t))
      (hfault : env.fault (at_ (.batch b.1 .fetch)) = .none)
      (h : upsertBatch digest (fun s => at_ (.batch b.1 s)) accountID folderID (fetch b.1 b.2) env
        (env.meddle (at_ (.batch b.1 .fetch)) t) = r)
      (hne : r.1 ≠ .ok ()) :
      Fetched s ranges ⟨r.1, before ++ [b], r.2⟩

theorem fetched_walked (ranges : List (Nat × Nat)) (s : σ) :
    Fetched digest at_ accountID folderID fetch env s ranges
      (walked digest at_ accountID folderID fetch env [] ranges s) := by
  rcases @each_begun ι Err σ _ (fetchBatch digest at_ accountID folderID fetch) env ranges s with
    ⟨t, ht, hall⟩ | ⟨before, b, after, t, hranges, ht, hbegun, heach, hne⟩
  · unfold walked
    rw [ht, hall]
    exact .all ht
  · have hwalked : walked digest at_ accountID folderID fetch env [] ranges s =
        ⟨(fetchBatch digest at_ accountID folderID fetch b env t).1, before ++ [b],
          (fetchBatch digest at_ accountID folderID fetch b env t).2⟩ := by
      unfold walked
      rw [heach, hbegun]
      rfl
    rw [hwalked]
    cases hfault : env.fault (at_ (.batch b.1 .fetch)) with
    | none =>
        have hfetched : fetchBatch digest at_ accountID folderID fetch b env t = _ :=
          bind_ok (query_none hfault)
        rw [hfetched] at hne ⊢
        exact .unstored hranges ht hfault rfl hne
    | fail =>
        have hfetched : fetchBatch digest at_ accountID folderID fetch b env t = _ :=
          bind_err (query_fail hfault)
        rw [hfetched]
        exact .refused hranges ht hfault
    | crash =>
        have hfetched : fetchBatch digest at_ accountID folderID fetch b env t = _ :=
          bind_dead (query_crash hfault)
        rw [hfetched]
        exact .died hranges ht hfault

variable (digest at_ accountID folderID fetch) in
/-- The program fetches every range of 32-bit numbers as it should: its loop ends, what it asks for
tiles the range unless a call fails, and then what it asked for before is stored. -/
def FetchesExactly (program : Nat → Nat → Proc ι Err σ Unit) : Prop :=
  ∀ first last : UInt32, ∃ ranges, Tiles first.toNat last.toNat ranges ∧
    (∀ (env : Env ι σ) (s : σ), ∃ r,
      loop (fetchPass digest at_ accountID folderID fetch env last.toNat) ⟨first.toNat, [], s⟩ = Part.some r ∧
      program first.toNat last.toNat env s = (r.out, r.store) ∧
      Fetched digest at_ accountID folderID fetch env s ranges r) ∧
    ∀ s : σ, ∃ t,
      loop (fetchPass digest at_ accountID folderID fetch .calm last.toNat) ⟨first.toNat, [], s⟩ =
        Part.some ⟨.ok (), ranges, t⟩

theorem returns_fetchBatch (b : Nat × Nat) :
    Returns (fetchBatch digest at_ accountID folderID fetch b : Proc ι Err σ Unit) :=
  returns_bind (fun s => ⟨_, s, rfl⟩) fun _ => returns_upsertBatch digest _ accountID folderID _

theorem fetchesExactly_fetchBatched :
    FetchesExactly digest at_ accountID folderID fetch
      (fetchBatched digest at_ accountID folderID fetch : Nat → Nat → Proc ι Err σ Unit) := by
  intro first last
  have hlast : last.toNat < 2 ^ 32 := last.toNat_lt
  refine ⟨rangesOf first.toNat last.toNat, tiles_rangesOf hlast, fun env s => ?_, fun s => ?_⟩
  · exact ⟨_, loop_fetchPass hlast first.toNat s, rfl, fetched_walked _ s⟩
  · obtain ⟨_, t, ht⟩ := returns_each (rangesOf first.toNat last.toNat)
      (fun b _ => @returns_fetchBatch ι σ _ digest at_ accountID folderID fetch b) s
    refine ⟨t, ?_⟩
    rw [loop_fetchPass hlast first.toNat s]
    unfold walked
    rw [begun_of_each ht, ht]
    rfl

end Loop

/-- **Both loops cover their range exactly**, whatever the fetcher sends, and stop where a call fails. -/
theorem fetchRanges_exact {ι σ : Type} [HasDB σ] (digest : Text → Text) (at_ : SyncStmt → ι) (c : Session)
    (accountID folderID : Nat) (path : Text) :
    FetchesExactly digest at_ accountID folderID (c.fetchByUIDRange path)
        (fetchRangeBatched digest at_ c accountID folderID path : Nat → Nat → Proc ι Err σ Unit) ∧
      FetchesExactly digest at_ accountID folderID (c.fetchBySeqRange path)
        (fetchSeqRangeBatched digest at_ c accountID folderID path : Nat → Nat → Proc ι Err σ Unit) :=
  ⟨fetchesExactly_fetchBatched, fetchesExactly_fetchBatched⟩

end FlyMail.Message
