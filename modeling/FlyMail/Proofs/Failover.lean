/-
Which provider translates a mail.

The order in which providers are tried is a permutation of those in use (`order_perm`), and a call goes along it
without skipping one until a translation succeeds (`Trial.Right`).  So a call that gives up has had a failure
from every provider, and what is kept or returned was made by one provider alone (`failover_of_run`).

The table of the providers' health says no more than what was entered: the failures since the last success, and
until when the latest of them that counts has to be waited for (`Follows`).  From this follows when a provider
cools down (`cooling_iff_of_run`).
-/
import FlyMail.Translate.Failover
import Mathlib.Algebra.Ring.Int.Defs

namespace FlyMail.Ai

/-! ### How long -/

theorem le_mul_pow {d : Int} (hd : 0 < d) (n : Nat) : d ≤ d * 2 ^ n := by
  induction n with
  | zero => simp
  | succ n ih =>
      rw [pow_succ, ← Int.mul_assoc]
      omega

theorem doubled_eq (n : Nat) : ∀ d : Int, 0 < d → min (doubled n d) cooldownMax = min (d * 2 ^ n) cooldownMax := by
  induction n with
  | zero =>
      intro d hd
      simp [doubled]
  | succ n ih =>
      intro d hd
      unfold doubled
      split
      · rw [ih (d * 2) (by omega), Int.pow_succ, Int.mul_assoc, Int.mul_comm 2]
      · have hle := le_mul_pow hd (n + 1)
        omega

/-- **Twice as long each time, up to the limit.** -/
theorem backoff_eq (failures : Nat) : backoff failures = min (cooldownBase * 2 ^ (failures - 1)) cooldownMax :=
  doubled_eq (failures - 1) cooldownBase (by decide)

theorem backoff_bounds (failures : Nat) : cooldownBase ≤ backoff failures ∧ backoff failures ≤ cooldownMax := by
  have hle := le_mul_pow (show 0 < cooldownBase by decide) (failures - 1)
  have hmax : cooldownBase ≤ cooldownMax := by decide
  rw [backoff_eq]
  omega

/-- The failures a provider is not blamed for. -/
def spared (kind : Kind) : Bool := kind == .truncated || kind == .badOutput || kind == .canceled

theorem cooldownFor_bounds (kind : Kind) (err : Err) (failures : Nat) :
    (0 < cooldownFor kind err failures ↔ spared kind = false) ∧ cooldownFor kind err failures ≤ cooldownQuota := by
  obtain ⟨hlow, hhigh⟩ := backoff_bounds failures
  have hbase : 0 < cooldownBase := by decide
  have hmax : cooldownMax ≤ cooldownQuota := by decide
  cases kind with
  | quota => exact ⟨iff_of_true (show 0 < cooldownQuota by decide) rfl, Int.le_refl _⟩
  | auth | notConfigured =>
      exact ⟨iff_of_true (show 0 < cooldownAuth by decide) rfl, show cooldownAuth ≤ cooldownQuota by decide⟩
  | rejected =>
      exact ⟨iff_of_true (show 0 < cooldownRejected by decide) rfl, show cooldownRejected ≤ cooldownQuota by decide⟩
  | rateLimit =>
      have hfloor : rateLimitFloor ≤ cooldownQuota := by decide
      simp only [cooldownFor]
      split
      · exact ⟨iff_of_true (by omega) rfl, by omega⟩
      · exact ⟨iff_of_true (by omega) rfl, by omega⟩
  | upstream => exact ⟨iff_of_true (by simp only [cooldownFor]; omega) rfl, by simp only [cooldownFor]; omega⟩
  | truncated | badOutput | canceled =>
      exact ⟨iff_of_false (show ¬ (0 : Int) < 0 by decide) (by simp [spared]), show 0 ≤ cooldownQuota by decide⟩

/-! ### Who comes first -/

namespace Health

variable (h : Health) (now : Int) (ids : List Nat)

theorem order_perm : (h.order now ids).Perm ids := by
  refine ((List.Perm.append_left _ (List.perm_insertionSort _ _)).trans List.perm_append_comm).trans ?_
  exact List.filter_append_perm (h.cooling now) ids

/-- **Those that are free come first, as they were listed, and then the others, the one that is free first before
the rest.** -/
theorem order_split : ∃ ready cooling, h.order now ids = ready ++ cooling ∧
    ready = ids.filter (fun id => !h.cooling now id) ∧ cooling.Perm (ids.filter (h.cooling now)) ∧
    cooling.Pairwise fun a b => h.freeAt a ≤ h.freeAt b := by
  have : Std.Total fun a b => h.freeAt a ≤ h.freeAt b := ⟨fun a b => Int.le_total _ _⟩
  have : IsTrans Nat fun a b => h.freeAt a ≤ h.freeAt b := ⟨fun a b c hab hbc => Int.le_trans hab hbc⟩
  exact ⟨_, _, rfl, rfl, List.perm_insertionSort _ _, List.pairwise_insertionSort _ _⟩

end Health

end FlyMail.Ai

namespace FlyMail.Translate.Failover

open Ai (Health Kind Err classify cooldownFor cooldownQuota spared cooldownFor_bounds)

/-! ### What the table says -/

/-- The failures of the provider in a row, the latest event first. -/
def streak : List Event → Nat → Nat
  | [], _ => 0
  | .fail id' _ _ :: log, id => if id = id' then streak log id + 1 else streak log id
  | .ok id' _ :: log, id | .reset id' :: log, id | .forget id' :: log, id => if id = id' then 0 else streak log id

section Log

variable (toLower : Char → Char)

/-- How long the provider cools down after a failure. -/
def penalty (log : List Event) (id : Nat) (err : Err) : Int :=
  cooldownFor (classify toLower err) err (streak log id + 1)

/-- Until when the latest failure that counts has to be waited for. -/
def cooledUntil : List Event → Nat → Option Int
  | [], _ => none
  | .fail id' now err :: log, id =>
      if id = id' then
        if 0 < penalty toLower log id err then some (now + penalty toLower log id err) else cooledUntil log id
      else cooledUntil log id
  | .ok id' _ :: log, id | .reset id' :: log, id | .forget id' :: log, id => if id = id' then none else cooledUntil log id

/-- The event leaves it open how long the provider has to be waited for. -/
def Event.Passes (id : Nat) : Event → Prop
  | .fail id' _ err => id = id' → spared (classify toLower err) = true
  | .ok id' _ | .reset id' | .forget id' => id ≠ id'

variable {toLower}

/-- **The latest failure that counts, if nothing has cleared it.** -/
theorem cooledUntil_eq_some {log : List Event} {id : Nat} {t : Int} :
    cooledUntil toLower log id = some t ↔ ∃ later now err earlier, log = later ++ .fail id now err :: earlier ∧
      spared (classify toLower err) = false ∧ t = now + penalty toLower earlier id err ∧
      ∀ e ∈ later, e.Passes toLower id := by
  induction log with
  | nil => simp [cooledUntil]
  | cons e log ih =>
      have hskip (hpasses : e.Passes toLower id) (hsame : cooledUntil toLower (e :: log) id = cooledUntil toLower log id)
          (hnot : ∀ now err, e = .fail id now err → spared (classify toLower err) = true) :
          cooledUntil toLower (e :: log) id = some t ↔ ∃ later now err earlier,
            e :: log = later ++ .fail id now err :: earlier ∧ spared (classify toLower err) = false ∧
            t = now + penalty toLower earlier id err ∧ ∀ e ∈ later, e.Passes toLower id := by
        rw [hsame, ih]
        constructor
        · rintro ⟨later, now, err, earlier, rfl, hcounts, ht, hlater⟩
          exact ⟨e :: later, now, err, earlier, rfl, hcounts, ht, List.forall_mem_cons.mpr ⟨hpasses, hlater⟩⟩
        · rintro ⟨_ | ⟨e', later⟩, now, err, earlier, heq, hcounts, ht, hlater⟩
          · rw [hnot now err (List.cons.inj heq).1] at hcounts
            cases hcounts
          · exact ⟨later, now, err, earlier, (List.cons.inj heq).2, hcounts, ht,
              fun e he => hlater e (List.mem_cons_of_mem _ he)⟩
      have hstop (hmine : e = .reset id ∨ e = .forget id ∨ ∃ now, e = .ok id now) :
          cooledUntil toLower (e :: log) id = some t ↔ ∃ later now err earlier,
            e :: log = later ++ .fail id now err :: earlier ∧ spared (classify toLower err) = false ∧
            t = now + penalty toLower earlier id err ∧ ∀ e ∈ later, e.Passes toLower id := by
        have hnone : cooledUntil toLower (e :: log) id = none := by
          rcases hmine with rfl | rfl | ⟨now, rfl⟩ <;> simp [cooledUntil]
        rw [hnone]
        refine iff_of_false (by simp) ?_
        rintro ⟨_ | ⟨e', later⟩, now, err, earlier, heq, -, -, hlater⟩
        · rcases hmine with rfl | rfl | ⟨now', rfl⟩ <;> cases (List.cons.inj heq).1
        · have hpasses := hlater e' List.mem_cons_self
          rw [← (List.cons.inj heq).1] at hpasses
          rcases hmine with rfl | rfl | ⟨now', rfl⟩ <;> exact hpasses rfl
      cases e with
      | fail id' now err =>
          by_cases hid : id = id'
          · subst hid
            cases hcounts : spared (classify toLower err) with
            | true =>
                have hzero : ¬ 0 < penalty toLower log id err := by
                  unfold penalty
                  rw [(cooldownFor_bounds _ _ _).1, hcounts]
                  simp
                refine hskip (fun _ => hcounts) (by simp [cooledUntil, hzero]) ?_
                rintro now' err' heq
                obtain ⟨-, -, rfl⟩ := Event.fail.inj heq
                exact hcounts
            | false =>
                have hpos : 0 < penalty toLower log id err := (cooldownFor_bounds _ _ _).1.mpr hcounts
                simp only [cooledUntil, if_true, if_pos hpos, Option.some.injEq]
                constructor
                · intro ht
                  exact ⟨[], now, err, log, rfl, hcounts, ht.symm, by simp⟩
                · rintro ⟨_ | ⟨e', later⟩, now', err', earlier, heq, -, ht, hlater⟩
                  · obtain ⟨hfail, rfl⟩ := List.cons.inj heq
                    obtain ⟨-, rfl, rfl⟩ := Event.fail.inj hfail
                    exact ht.symm
                  · have hpasses := hlater e' List.mem_cons_self
                    rw [← (List.cons.inj heq).1] at hpasses
                    rw [hpasses rfl] at hcounts
                    cases hcounts
          · refine hskip (fun h => absurd h hid) (by simp [cooledUntil, hid]) ?_
            rintro now' err' heq
            exact absurd (Event.fail.inj heq).1.symm hid
      | ok id' now =>
          by_cases hid : id = id'
          · exact hstop (Or.inr (Or.inr ⟨now, by rw [hid]⟩))
          · exact hskip hid (by simp [cooledUntil, hid]) (by simp)
      | reset id' =>
          by_cases hid : id = id'
          · exact hstop (Or.inl (by rw [hid]))
          · exact hskip hid (by simp [cooledUntil, hid]) (by simp)
      | forget id' =>
          by_cases hid : id = id'
          · exact hstop (Or.inr (Or.inl (by rw [hid])))
          · exact hskip hid (by simp [cooledUntil, hid]) (by simp)

end Log

variable {toLower : Char → Char}

/-- The table says what was entered. -/
structure Follows (toLower : Char → Char) (h : Health) (log : List Event) : Prop where
  failures : ∀ id, (h.get id).failures = streak log id
  cooled : ∀ id, (h.get id).cooldownUntil = cooledUntil toLower log id

theorem follows_new : Follows toLower .new [] := ⟨fun _ => rfl, fun _ => rfl⟩

theorem get_set {h : Health} {id id' : Nat} {st : Ai.State} : (h.set id' st).get id = if id = id' then st else h.get id := by
  unfold Health.get Health.set Function.update
  by_cases hid : id = id' <;> simp [hid]

variable {h : Health} {log : List Event}

theorem Follows.recordOK (hf : Follows toLower h log) (now : Int) (id : Nat) :
    Follows toLower (h.recordOK now id) (.ok id now :: log) := by
  constructor <;> intro id' <;> by_cases hid : id' = id <;>
    simp [Health.recordOK, get_set, streak, cooledUntil, hid, hf.failures, hf.cooled]

theorem Follows.reset (hf : Follows toLower h log) (id : Nat) : Follows toLower (h.reset id) (.reset id :: log) := by
  constructor <;> intro id' <;> by_cases hid : id' = id <;>
    simp [Health.reset, get_set, streak, cooledUntil, hid, hf.failures, hf.cooled]

theorem get_forget {id id' : Nat} : (h.forget id').get id = if id = id' then .zero else h.get id := by
  unfold Health.get Health.forget Function.update
  by_cases hid : id = id' <;> simp [hid]

theorem Follows.forget (hf : Follows toLower h log) (id : Nat) : Follows toLower (h.forget id) (.forget id :: log) := by
  constructor <;> intro id' <;> by_cases hid : id' = id <;>
    simp [get_forget, streak, cooledUntil, hid, hf.failures, hf.cooled, Ai.State.zero]

theorem Follows.recordFail (hf : Follows toLower h log) (now : Int) (id : Nat) (err : Err) :
    Follows toLower (h.recordFail toLower now id err).2
      (if (h.recordFail toLower now id err).1 = .canceled then log else .fail id now err :: log) := by
  unfold Health.recordFail
  by_cases hcanceled : classify toLower err = .canceled
  · simpa [hcanceled] using hf
  · simp only [hcanceled, if_false]
    constructor <;> intro id' <;> by_cases hid : id' = id <;>
      simp [get_set, streak, cooledUntil, penalty, hid, hf.failures, hf.cooled]

theorem cooling_eq (hf : Follows toLower h log) (now : Int) (id : Nat) :
    h.cooling now id = (cooledUntil toLower log id).any fun t => decide (now < t) := by
  rw [← hf.cooled]
  unfold Health.cooling Health.get Ai.State.cooling
  cases h id <;> rfl

/-! ### Along a run -/

section Trials

variable (lib : Lib Err) (toLower : Char → Char)

/-- The provider made the translation by itself, and left some of it only if it was allowed to. -/
def Made (t : Trial) (id : Nat) (tolerant : Bool) (out : Translation) : Prop :=
  ∃ client complete,
    translateDetail lib t.d t.target (t.byID id).name client tolerant (isFatal toLower) complete = .ok out

/-- The failure was put down to the provider, but for a call that was broken off. -/
structure Attempt.Entered (log : List Event) (t : Trial) (a : Attempt) : Prop where
  name : a.name = (t.byID a.id).name
  kind : a.kind = classify toLower a.err
  entered : a.kind = .canceled ∨ ∃ now, .fail a.id now a.err ∈ log

/-- A trial that has the providers `rest` still in front of it. -/
structure Trial.Right (log : List Event) (t : Trial) (rest : List Nat) : Prop where
  ordered : ∃ h, Follows toLower h t.past ∧ t.order = h.order t.now (t.providers.map Provider.id)
  past : t.past <:+ log
  tried : t.attempts.map Attempt.id ++ rest = t.order
  entered : ∀ a ∈ t.attempts, a.Entered toLower log t

/-- What holds of a call at its point. -/
def Frame.Right (log : List Event) : Frame → Prop
  | .weigh t id rest | .fail t id rest _ | .stopped t id rest _ => t.Right toLower log (id :: rest)
  | .run t id rest tolerant => t.Right toLower log (id :: rest) ∧ (rest = [] → tolerant = true)
  | .ok t id rest out => t.Right toLower log (id :: rest) ∧
      ∃ tolerant, (rest = [] → tolerant = true) ∧ Made lib toLower t id tolerant out
  | .save t id rest out | .translated t id rest out => t.Right toLower log (id :: rest) ∧ (∃ now, .ok id now ∈ log) ∧
      ∃ tolerant, (rest = [] → tolerant = true) ∧ Made lib toLower t id tolerant out
  | .failed t => t.Right toLower log []
  | .cached messageID target out => out.messageID = messageID ∧ out.targetLang = target ∧
      ∃ t id tolerant, Made lib toLower t id tolerant out
  | _ => True

structure Store.Right (s : Store) : Prop where
  follows : Follows toLower s.health s.log
  saved : ∀ out ∈ s.saved, ∃ t id tolerant, Made lib toLower t id tolerant out

variable {lib toLower} {s s' : Store} {f f' : Frame} {t : Trial} {rest : List Nat} {log log' : List Event}

theorem Trial.Right.mono (h : t.Right toLower log rest) (hlog : log <:+ log') : t.Right toLower log' rest where
  ordered := h.ordered
  past := h.past.trans hlog
  tried := h.tried
  entered a ha := by
    obtain ⟨hname, hkind, hentered⟩ := h.entered a ha
    exact ⟨hname, hkind, hentered.imp_right fun ⟨now, hmem⟩ => ⟨now, hlog.subset hmem⟩⟩

/-- What was entered stays. -/
theorem Frame.Right.mono (h : f.Right lib toLower log) (hlog : log <:+ log') : f.Right lib toLower log' := by
  cases f with
  | weigh t id rest | fail t id rest err | stopped t id rest why | failed t => exact Trial.Right.mono h hlog
  | run t id rest tolerant => exact ⟨h.1.mono hlog, h.2⟩
  | ok t id rest out => exact ⟨h.1.mono hlog, h.2⟩
  | save t id rest out | translated t id rest out =>
      obtain ⟨hright, ⟨now, hmem⟩, hmade⟩ := h
      exact ⟨hright.mono hlog, ⟨now, hlog.subset hmem⟩, hmade⟩
  | _ => exact h

theorem right_tryNext (h : t.Right toLower log rest) : (tryNext t rest).Right lib toLower log := by
  cases rest with
  | nil => exact h
  | cons id rest => exact h

/-- A call whose step changes no more than the table. -/
theorem right_next {x : Luck} (hs : s.Right lib toLower) (hf : f.Right lib toLower s.log)
    (hnext : next lib toLower x f s = some (s', f')) :
    s'.Right lib toLower ∧ f'.Right lib toLower s'.log ∧ s.log <:+ s'.log := by
  have hlogFail (id : Nat) (err : Err) : s.log <:+ (recordFail toLower s id err).2.log := by
    unfold recordFail
    dsimp only
    split
    · exact List.suffix_refl _
    · exact List.suffix_cons _ _
  cases f with
  | cached _ _ _ | notConfigured | noDetail | translated _ _ _ _ | stopped _ _ _ _ | failed _ | returned => cases hnext
  | lookUp messageID target force providers =>
      simp only [next] at hnext
      split at hnext
      · rename_i out hout
        obtain ⟨rfl, rfl⟩ := Prod.mk.inj (Option.some.inj hnext)
        split at hout
        · cases hout
        · have hmem := List.mem_of_find?_eq_some hout
          have hkey := List.find?_some hout
          simp only [Bool.and_eq_true, beq_iff_eq] at hkey
          exact ⟨hs, ⟨hkey.1, hkey.2, hs.saved out hmem⟩, List.suffix_refl _⟩
      · obtain ⟨rfl, rfl⟩ := Prod.mk.inj (Option.some.inj hnext)
        refine ⟨hs, ?_, List.suffix_refl _⟩
        split <;> exact trivial
  | detail messageID target providers =>
      simp only [next] at hnext
      split at hnext <;> obtain ⟨rfl, rfl⟩ := Prod.mk.inj (Option.some.inj hnext) <;>
        exact ⟨hs, trivial, List.suffix_refl _⟩
  | order d target providers =>
      obtain ⟨rfl, rfl⟩ := Prod.mk.inj (Option.some.inj hnext)
      refine ⟨hs, right_tryNext ?_, List.suffix_refl _⟩
      exact ⟨⟨s.health, hs.follows, rfl⟩, List.suffix_refl _, rfl, fun a ha => by cases ha⟩
  | weigh t id rest =>
      obtain ⟨rfl, rfl⟩ := Prod.mk.inj (Option.some.inj hnext)
      exact ⟨hs, ⟨hf, fun hrest => by rw [hrest]; rfl⟩, List.suffix_refl _⟩
  | run t id rest tolerant =>
      simp only [next] at hnext
      split at hnext
      · rename_i out hout
        obtain ⟨rfl, rfl⟩ := Prod.mk.inj (Option.some.inj hnext)
        exact ⟨hs, ⟨hf.1, tolerant, hf.2, _, _, hout⟩, List.suffix_refl _⟩
      · split at hnext
        · obtain ⟨rfl, rfl⟩ := Prod.mk.inj (Option.some.inj hnext)
          exact ⟨hs, hf.1, List.suffix_refl _⟩
        · split at hnext <;> obtain ⟨rfl, rfl⟩ := Prod.mk.inj (Option.some.inj hnext) <;>
            exact ⟨hs, hf.1, List.suffix_refl _⟩
  | ok t id rest out =>
      obtain ⟨rfl, rfl⟩ := Prod.mk.inj (Option.some.inj hnext)
      have hlog : s.log <:+ (recordOK s id).log := List.suffix_cons _ _
      exact ⟨⟨hs.follows.recordOK s.now id, hs.saved⟩, ⟨hf.1.mono hlog, ⟨s.now, List.mem_cons_self⟩, hf.2⟩, hlog⟩
  | fail t id rest err =>
      obtain ⟨rfl, rfl⟩ := Prod.mk.inj (Option.some.inj hnext)
      refine ⟨⟨hs.follows.recordFail s.now id err, hs.saved⟩, right_tryNext ?_, hlogFail id err⟩
      have hold := Trial.Right.mono hf (hlogFail id err)
      refine ⟨hold.ordered, hold.past, ?_, ?_⟩
      · rw [← hold.tried]
        simp
      · intro a ha
        rcases List.mem_append.mp ha with ha | ha
        · obtain ⟨hname, hkind, hentered⟩ := hold.entered a ha
          exact ⟨hname, hkind, hentered⟩
        · rw [List.mem_singleton.mp ha]
          refine ⟨rfl, ?_, ?_⟩
          · show (Health.recordFail _ _ _ _ _).1 = _
            unfold Health.recordFail
            dsimp only
            split <;> rfl
          · by_cases hcanceled : (s.health.recordFail toLower s.now id err).1 = .canceled
            · exact Or.inl hcanceled
            · exact Or.inr ⟨s.now, by simp [recordFail, hcanceled]⟩
  | save t id rest out =>
      obtain ⟨rfl, rfl⟩ := Prod.mk.inj (Option.some.inj hnext)
      obtain ⟨tolerant, -, hmade⟩ := hf.2.2
      refine ⟨⟨hs.follows, fun r hr => ?_⟩, hf, List.suffix_refl _⟩
      dsimp only at hr
      split at hr
      · exact hs.saved r hr
      · rcases List.mem_cons.mp hr with rfl | hr
        · exact ⟨t, id, tolerant, hmade⟩
        · exact hs.saved r (List.mem_filter.mp hr).1
  | test id =>
      simp only [next] at hnext
      split at hnext
      · obtain ⟨rfl, rfl⟩ := Prod.mk.inj (Option.some.inj hnext)
        exact ⟨hs, trivial, List.suffix_refl _⟩
      · split at hnext
        · obtain ⟨rfl, rfl⟩ := Prod.mk.inj (Option.some.inj hnext)
          exact ⟨⟨hs.follows.recordOK s.now id, hs.saved⟩, trivial, List.suffix_cons _ _⟩
        · rename_i err _
          split at hnext <;> obtain ⟨rfl, rfl⟩ := Prod.mk.inj (Option.some.inj hnext)
          · exact ⟨hs, trivial, List.suffix_refl _⟩
          · exact ⟨⟨hs.follows.recordFail s.now id err, hs.saved⟩, trivial, hlogFail id err⟩
  | reset id =>
      simp only [next] at hnext
      split at hnext <;> obtain ⟨rfl, rfl⟩ := Prod.mk.inj (Option.some.inj hnext)
      · exact ⟨hs, trivial, List.suffix_refl _⟩
      · exact ⟨⟨hs.follows.reset id, hs.saved⟩, trivial, List.suffix_cons _ _⟩
  | delete id =>
      simp only [next] at hnext
      split at hnext <;> obtain ⟨rfl, rfl⟩ := Prod.mk.inj (Option.some.inj hnext)
      · exact ⟨hs, trivial, List.suffix_refl _⟩
      · exact ⟨⟨hs.follows.forget id, hs.saved⟩, trivial, List.suffix_cons _ _⟩

theorem holds_of_run {now : Int} {p : Pool Frame Store}
    (h : FlyMail.Run (Pool.step (service lib toLower)) (fun _ _ => True) ⟨.fresh now, []⟩ p) :
    Pool.Holds (Store.Right lib toLower) (fun f s => f.Right lib toLower s.log) p := by
  refine Pool.invariant ?_ ?_ ?_ h (Pool.holds_of_no_calls ⟨follows_new, fun out hout => absurd hout List.not_mem_nil⟩)
  · intro c s hs
    cases c <;> exact trivial
  · intro p i x f s f' hp _ hf hnext
    obtain ⟨hs, hf', hlog⟩ := right_next hp.store (hp.calls i f hf) hnext
    exact ⟨hs, hf', fun j g _ hg => (hp.calls j g hg).mono hlog⟩
  · intro p d hp _
    exact ⟨⟨hp.store.follows, hp.store.saved⟩, fun j g hg => hp.calls j g hg⟩

/-- The providers tried and those to be tried are the ones in use. -/
theorem Trial.Right.perm (h : t.Right toLower log rest) :
    (t.attempts.map Attempt.id ++ rest).Perm (t.providers.map Provider.id) := by
  obtain ⟨health, -, horder⟩ := h.ordered
  rw [h.tried, horder]
  exact health.order_perm _ _

/-- **A mail is translated by one provider alone, and only when all have failed is it not.** -/
theorem failover_of_run {now : Int} {p : Pool Frame Store}
    (h : FlyMail.Run (Pool.step (service lib toLower)) (fun _ _ => True) ⟨.fresh now, []⟩ p) :
    (∀ t id rest out, .translated t id rest out ∈ p.calls → t.Right toLower p.store.log (id :: rest) ∧
        (t.attempts.map Attempt.id ++ id :: rest).Perm (t.providers.map Provider.id) ∧
          (∃ now, .ok id now ∈ p.store.log) ∧
            ∃ tolerant, (rest = [] → tolerant = true) ∧ Made lib toLower t id tolerant out) ∧
      (∀ t, .failed t ∈ p.calls → t.Right toLower p.store.log [] ∧
        (t.attempts.map Attempt.id).Perm (t.providers.map Provider.id)) ∧
      ∀ messageID target out, .cached messageID target out ∈ p.calls →
        out.messageID = messageID ∧ out.targetLang = target ∧ ∃ t id tolerant, Made lib toLower t id tolerant out := by
  have hholds := holds_of_run h
  have hright {f : Frame} (hf : f ∈ p.calls) : f.Right lib toLower p.store.log := by
    obtain ⟨i, hi⟩ := List.mem_iff_getElem?.mp hf
    exact hholds.calls i f hi
  refine ⟨?_, ?_, fun messageID target out hmem => hright hmem⟩
  · intro t id rest out hmem
    obtain ⟨htrial, hok, hmade⟩ := hright hmem
    exact ⟨htrial, htrial.perm, hok, hmade⟩
  · intro t hmem
    have htrial : t.Right toLower p.store.log [] := hright hmem
    have hperm := htrial.perm
    rw [List.append_nil] at hperm
    exact ⟨htrial, hperm⟩

/-- Two providers, of which one is limited and the other out of reach. -/
def refusals : List (Turn Request Luck Nat) :=
  let x (err : Err) : Luck := ⟨false, some ⟨7, "s".toList, "t".toList, []⟩, .error err, fun _ => [], false, none⟩
  let limited := x (.api ⟨429, "slow down".toList, [], 0⟩)
  let lost := x (.other "no route".toList)
  [.start (.translate 7 "zh".toList false [⟨2, "b".toList⟩, ⟨1, "a".toList⟩]), .go 0 limited, .go 0 limited, .go 0 limited,
    .go 0 limited, .go 0 limited, .go 0 limited, .go 0 lost, .go 0 lost, .go 0 lost, .outside 5]

def textLib : Lib Err := ⟨Char.isAlpha, fun _ => .error .truncated, fun _ => .error .truncated, fun _ _ => []⟩

theorem failover_of_run_refusals : ∃ t : Trial, t.attempts.map Attempt.kind = [.rateLimit, .upstream] ∧
    (t.attempts.map Attempt.id).Perm [2, 1] := by
  have hexec : ∃ (p : Pool Frame Store) (t : Trial), exec (Pool.step (service textLib Char.toLower)) (fun _ _ => true) ⟨.fresh 0, []⟩ refusals = some p ∧
      p.calls = [.failed t] ∧ t.attempts.map Attempt.kind = [.rateLimit, .upstream] ∧
      t.providers.map Provider.id = [2, 1] := ⟨_, _, rfl, rfl, rfl, rfl⟩
  obtain ⟨p, t, hp, hcalls, hkinds, hproviders⟩ := hexec
  obtain ⟨-, hfailed, -⟩ := failover_of_run ((Run.ofExec refusals hp).mono fun _ _ _ => trivial)
  refine ⟨t, hkinds, ?_⟩
  rw [← hproviders]
  exact (hfailed t (by rw [hcalls]; exact List.mem_singleton_self _)).2

/-- **A provider cools down after the latest failure that counts, until its time is over or something clears it.**
It does so for an hour at most. -/
theorem cooling_iff_of_run {now : Int} {p : Pool Frame Store}
    (h : FlyMail.Run (Pool.step (service lib toLower)) (fun _ _ => True) ⟨.fresh now, []⟩ p) (id : Nat) :
    (p.store.health.get id).failures = streak p.store.log id ∧
      (p.store.health.cooling p.store.now id = true ↔ ∃ later now err earlier,
        p.store.log = later ++ .fail id now err :: earlier ∧ spared (classify toLower err) = false ∧
          p.store.now < now + penalty toLower earlier id err ∧ penalty toLower earlier id err ≤ cooldownQuota ∧
          ∀ e ∈ later, e.Passes toLower id) := by
  have hfollows := (holds_of_run h).store.follows
  refine ⟨hfollows.failures id, ?_⟩
  rw [cooling_eq hfollows, Option.any_eq_true]
  constructor
  · rintro ⟨t, ht, hlt⟩
    obtain ⟨later, now, err, earlier, hlog, hcounts, rfl, hlater⟩ := cooledUntil_eq_some.mp ht
    exact ⟨later, now, err, earlier, hlog, hcounts, of_decide_eq_true hlt, (cooldownFor_bounds _ _ _).2, hlater⟩
  · rintro ⟨later, now, err, earlier, hlog, hcounts, hlt, -, hlater⟩
    exact ⟨_, cooledUntil_eq_some.mpr ⟨later, now, err, earlier, hlog, hcounts, rfl, hlater⟩, decide_eq_true hlt⟩

theorem cooling_iff_of_run_refusals : ∃ p : Pool Frame Store, exec (Pool.step (service textLib Char.toLower)) (fun _ _ => true)
    ⟨.fresh 0, []⟩ refusals = some p ∧ (p.store.health.get 2).failures = 1 ∧ ∃ later now err earlier,
      p.store.log = later ++ .fail 2 now err :: earlier ∧ spared (classify Char.toLower err) = false := by
  have hexec : ∃ p : Pool Frame Store, exec (Pool.step (service textLib Char.toLower)) (fun _ _ => true) ⟨.fresh 0, []⟩ refusals = some p ∧
      (p.store.health.get 2).failures = 1 ∧ p.store.health.cooling p.store.now 2 = true := ⟨_, rfl, rfl, rfl⟩
  obtain ⟨p, hp, hone, hcooling⟩ := hexec
  obtain ⟨-, hiff⟩ := cooling_iff_of_run ((Run.ofExec refusals hp).mono fun _ _ _ => trivial) 2
  obtain ⟨later, now, err, earlier, hlog, hcounts, -⟩ := hiff.mp hcooling
  exact ⟨p, hp, hone, later, now, err, earlier, hlog, hcounts⟩

end Trials

end FlyMail.Translate.Failover
