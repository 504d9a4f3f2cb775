/-
Values that can be fetched once.

A value is put on offer under a key, and whoever names the key takes it away.  A value that has waited
too long is worth nothing any more, and may be swept away at any time.

What a history of offers and takes leaves under a key is `held`.  A store that is swept answers no
differently (`Follows.fresh`).  Of calls that run at the same time, some offer and some take, and each of
these enters itself in the history (`Deal`).  Then no two calls come away with one offer
(`Booked.got_le_gave`).
-/
import FlyMail.Lib.Calls
import FlyMail.Lib.Utf8
import Mathlib.Data.List.Nodup

namespace FlyMail.OneTime

/-! ### Keys -/

/-- What a random source fills a buffer with. -/
structure Draw where
  buf : Bytes
  full : buf.length = 32
  deriving DecidableEq, Repr

def hexDigits : Text := "0123456789abcdef".toList

/-- Two digits for each byte. -/
def encodeToString (buf : Bytes) : Text :=
  buf.flatMap fun b => [hexDigits.getD (b.toNat / 16) '0', hexDigits.getD (b.toNat % 16) '0']

/-! ### Values on offer -/

/-- The values on offer, at most one under each key. -/
structure Offers (κ ν : Type) where
  entries : List (κ × ν)
  nodup : (entries.map Prod.fst).Nodup

variable {κ ν : Type}

namespace Offers

def empty : Offers κ ν := ⟨[], .nil⟩

/-- Drop the entries that do not meet `p`. -/
def keep (o : Offers κ ν) (p : κ × ν → Bool) : Offers κ ν where
  entries := o.entries.filter p
  nodup := o.nodup.sublist (List.filter_sublist.map Prod.fst)

/-- Sweep away the values that meet `p`. -/
def sweep (o : Offers κ ν) (p : ν → Bool) : Offers κ ν := o.keep fun e => !p e.2

variable [DecidableEq κ]

def get (o : Offers κ ν) (k : κ) : Option ν := o.entries.lookup k

def take (o : Offers κ ν) (k : κ) : Offers κ ν := o.keep fun e => e.1 != k

/-- Put `v` on offer under `k`, in the place of what was there. -/
def offer (o : Offers κ ν) (k : κ) (v : ν) : Offers κ ν where
  entries := (k, v) :: (o.take k).entries
  nodup := by
    refine List.nodup_cons.mpr ⟨fun h => ?_, (o.take k).nodup⟩
    obtain ⟨e, he, hk⟩ := List.mem_map.mp h
    simp [take, keep, hk] at he

variable {o : Offers κ ν} {k k' : κ} {v : ν}

theorem get_eq_some : o.get k = some v ↔ (k, v) ∈ o.entries := by
  obtain ⟨entries, h⟩ := o
  unfold get
  induction entries with
  | nil => simp
  | cons e l ih =>
      obtain ⟨hhead, htail⟩ := List.nodup_cons.mp h
      rw [List.lookup_cons, List.mem_cons]
      by_cases hk : k = e.1
      · subst hk
        have hnot : (e.1, v) ∉ l := fun hmem => hhead (List.mem_map.mpr ⟨_, hmem, rfl⟩)
        simp [hnot, Prod.ext_iff, eq_comm]
      · rw [beq_false_of_ne hk]
        have hne : (k, v) ≠ e := fun heq => hk (by rw [← heq])
        simpa [hne] using ih htail

theorem get_keep {p : κ × ν → Bool} : (o.keep p).get k = (o.get k).filter fun v => p (k, v) := by
  ext v
  rw [get_eq_some, Option.filter_eq_some_iff, get_eq_some]
  exact List.mem_filter

@[simp] theorem get_sweep (p : ν → Bool) : (o.sweep p).get k = (o.get k).filter fun v => !p v := get_keep

theorem get_take : (o.take k').get k = if k = k' then none else o.get k := by
  unfold take
  rw [get_keep]
  by_cases hk : k = k'
  · simp [hk]
  · cases o.get k <;> simp [hk, Option.filter]

theorem get_offer : (o.offer k' v).get k = if k = k' then some v else o.get k := by
  unfold get offer
  rw [List.lookup_cons]
  by_cases hk : k = k'
  · simp [hk]
  · rw [beq_false_of_ne hk, if_neg hk]
    exact (get_take (o := o)).trans (if_neg hk)

@[simp] theorem get_empty : (empty : Offers κ ν).get k = none := rfl

end Offers

/-! ### What has happened -/

/-- What happens to the values on offer. -/
inductive Event (κ ν : Type)
  | offer (k : κ) (v : ν)
  | take (k : κ)
  deriving DecidableEq, Repr

variable [DecidableEq κ]

/-- The value under `k` after what has happened, the latest first. -/
def held : List (Event κ ν) → κ → Option ν
  | [], _ => none
  | .offer k' v :: h, k => if k = k' then some v else held h k
  | .take k' :: h, k => if k = k' then none else held h k

/-- The offers under `k`. -/
def offered (k : κ) : List (Event κ ν) → Nat
  | [] => 0
  | .offer k' _ :: h => offered k h + if k = k' then 1 else 0
  | .take _ :: h => offered k h

/-- The takes that found a value under `k`. -/
def taken (k : κ) : List (Event κ ν) → Nat
  | [] => 0
  | .offer _ _ :: h => taken k h
  | .take k' :: h => taken k h + if k = k' ∧ (held h k).isSome then 1 else 0

variable {k : κ} {v : ν} {h : List (Event κ ν)}

/-- **What is held was offered, and since then neither taken nor replaced.** -/
theorem held_eq_some :
    held h k = some v ↔ ∃ later earlier, h = later ++ .offer k v :: earlier ∧
      ∀ e ∈ later, e ≠ .take k ∧ ∀ v', e ≠ .offer k v' := by
  induction h with
  | nil => simp [held]
  | cons e h ih =>
      have hskip (hne : e ≠ .take k ∧ ∀ v', e ≠ .offer k v') (hrest : held (e :: h) k = held h k) :
          held (e :: h) k = some v ↔ ∃ later earlier, e :: h = later ++ .offer k v :: earlier ∧
            ∀ e ∈ later, e ≠ .take k ∧ ∀ v', e ≠ .offer k v' := by
        rw [hrest, ih]
        refine ⟨fun ⟨later, earlier, heq, hlater⟩ => ⟨e :: later, earlier, by simp [heq], ?_⟩, ?_⟩
        · exact List.forall_mem_cons.mpr ⟨hne, hlater⟩
        · rintro ⟨_ | ⟨e', later⟩, earlier, heq, hlater⟩
          · exact absurd (List.cons.inj heq).1 (hne.2 v)
          · exact ⟨later, earlier, (List.cons.inj heq).2, fun e he => hlater e (List.mem_cons_of_mem _ he)⟩
      have hstop (hmine : e = .take k ∨ ∃ v', e = .offer k v') (hv : e ≠ .offer k v) :
          ¬ ∃ later earlier, e :: h = later ++ .offer k v :: earlier ∧
            ∀ e ∈ later, e ≠ .take k ∧ ∀ v', e ≠ .offer k v' := by
        rintro ⟨_ | ⟨e', later⟩, earlier, heq, hlater⟩
        · exact hv (List.cons.inj heq).1
        · obtain ⟨htake, hoffer⟩ := hlater e' List.mem_cons_self
          rw [← (List.cons.inj heq).1] at htake hoffer
          rcases hmine with rfl | ⟨v', rfl⟩
          · exact htake rfl
          · exact hoffer v' rfl
      cases e with
      | offer k' v' =>
          by_cases hk : k = k'
          · subst hk
            by_cases hv : v' = v
            · subst hv
              simp only [held, if_true, true_iff]
              exact ⟨[], h, rfl, by simp⟩
            · simp only [held, if_true, Option.some.injEq, hv, false_iff]
              exact hstop (Or.inr ⟨v', rfl⟩) (by simp [hv])
          · exact hskip ⟨by simp, by simp [Ne.symm hk]⟩ (by simp [held, hk])
      | take k' =>
          by_cases hk : k = k'
          · subst hk
            simp only [held, if_true, reduceCtorEq, false_iff]
            exact hstop (Or.inl rfl) (by simp)
          · exact hskip ⟨by simp [Ne.symm hk], by simp⟩ (by simp [held, hk])

theorem offer_mem_of_held (hheld : held h k = some v) : .offer k v ∈ h := by
  obtain ⟨later, earlier, rfl, -⟩ := held_eq_some.mp hheld
  simp

/-- **Every take that finds something has an offer of its own.** -/
theorem taken_le_offered (k : κ) (h : List (Event κ ν)) : taken k h ≤ offered k h := by
  have hroom : taken k h + (if (held h k).isSome then 1 else 0) ≤ offered k h := by
    induction h with
    | nil => simp [taken, offered, held]
    | cons e h ih =>
        cases e with
        | offer k' v =>
            by_cases hk : k = k'
            · simp only [taken, offered, held, if_pos hk]
              split at ih <;> simp <;> omega
            · simpa [taken, offered, held, hk] using ih
        | take k' =>
            by_cases hk : k = k'
            · simpa [taken, offered, held, hk] using ih
            · simpa [taken, offered, held, hk] using ih
  omega

/-! ### A store that is swept -/

/-- The store agrees with what has happened, but for values that are worth nothing any more. -/
def Follows (stale : ν → Bool) (o : Offers κ ν) (h : List (Event κ ν)) : Prop :=
  ∀ k, o.get k = held h k ∨ o.get k = none ∧ (held h k).all stale

variable {stale stale' : ν → Bool} {o : Offers κ ν}

theorem follows_empty : Follows stale (.empty : Offers κ ν) [] := fun _ => Or.inl rfl

theorem Follows.offer (hf : Follows stale o h) (k : κ) (v : ν) : Follows stale (o.offer k v) (.offer k v :: h) := by
  intro k'
  rw [Offers.get_offer]
  unfold held
  split
  · exact Or.inl rfl
  · exact hf k'

theorem Follows.take (hf : Follows stale o h) (k : κ) : Follows stale (o.take k) (.take k :: h) := by
  intro k'
  rw [Offers.get_take]
  unfold held
  split
  · exact Or.inl rfl
  · exact hf k'

/-- Taking what is not there changes nothing. -/
theorem Follows.take_none (hf : Follows stale o h) {k : κ} (hget : o.get k = none) :
    Follows stale o (.take k :: h) := by
  intro k'
  have htaken := hf.take k k'
  rw [Offers.get_take] at htaken
  by_cases hk : k' = k
  · simpa [hk, hget] using htaken
  · simpa [hk] using htaken

theorem Follows.held_of_get (hf : Follows stale o h) {k : κ} {v : ν} (hget : o.get k = some v) : held h k = some v := by
  rcases hf k with heq | ⟨hnone, -⟩
  · rw [← heq, hget]
  · rw [hnone] at hget
    cases hget

/-- Values only get worse. -/
theorem Follows.later (hf : Follows stale o h) (hle : ∀ v, stale v = true → stale' v = true) :
    Follows stale' o h := by
  intro k
  refine (hf k).imp_right fun ⟨hnone, hall⟩ => ⟨hnone, ?_⟩
  rw [Option.all_eq_true] at hall ⊢
  exact fun v hv => hle v (hall v hv)

/-- What is swept away is worth nothing. -/
theorem Follows.sweep (hf : Follows stale o h) {p : ν → Bool} (hp : ∀ v, p v = true → stale v = true) :
    Follows stale (o.sweep p) h := by
  intro k
  rw [Offers.get_sweep]
  rcases hf k with heq | ⟨hnone, hall⟩
  · rw [heq]
    cases hv : held h k with
    | none => simp
    | some v =>
        cases hpv : p v with
        | false => simp [Option.filter, hpv]
        | true => simp [Option.filter, hpv, hp v hpv]
  · exact Or.inr ⟨by simp [hnone], hall⟩

/-- **A swept store answers as if nothing had been swept.** -/
theorem Follows.fresh (hf : Follows stale o h) (k : κ) :
    ((o.get k).filter fun v => !stale v) = (held h k).filter fun v => !stale v := by
  rcases hf k with heq | ⟨hnone, hall⟩
  · rw [heq]
  · rw [hnone]
    symm
    rw [Option.filter_none, Option.filter_eq_none_iff]
    intro v hv
    rw [Option.all_eq_true] at hall
    simp [hall v hv]

/-! ### Calls that offer and take -/

/-- What the calls have to do with the values: the offer a call made, and the value it came away with. -/
structure Part (κ ν φ : Type) where
  gave : φ → Option (κ × ν)
  got : φ → Option (κ × ν)

namespace Part

variable {φ : Type}

def gaveAs (part : Part κ ν φ) (k : κ) (f : φ) : Bool := (part.gave f).any fun e => e.1 == k

def gotAs (part : Part κ ν φ) (k : κ) (f : φ) : Bool := (part.got f).any fun e => e.1 == k

variable {part : Part κ ν φ} {k : κ} {f f' : φ}

theorem gaveAs_congr (h : part.gave f' = part.gave f) : part.gaveAs k f' = part.gaveAs k f := by
  rw [gaveAs, h, gaveAs]

theorem gotAs_congr (h : part.got f' = part.got f) : part.gotAs k f' = part.gotAs k f := by
  rw [gotAs, h, gotAs]

theorem gaveAs_of_none (h : part.gave f = none) : part.gaveAs k f = false := by
  rw [gaveAs, h, Option.any_none]

theorem gotAs_of_none (h : part.got f = none) : part.gotAs k f = false := by
  rw [gotAs, h, Option.any_none]

end Part

variable {φ : Type} {part : Part κ ν φ}

/-- A call that goes on from `f` to `f'`, and what it enters. -/
inductive Deal (part : Part κ ν φ) (h : List (Event κ ν)) (f f' : φ) : List (Event κ ν) → Prop
  | none (hgave : part.gave f' = part.gave f) (hgot : part.got f' = part.got f ∨ part.got f' = .none) :
      Deal part h f f' h
  | offer (k : κ) (v : ν) (hgave : part.gave f = .none ∧ part.gave f' = some (k, v))
      (hgot : part.got f' = .none) : Deal part h f f' (.offer k v :: h)
  | take (k : κ) (hgave : part.gave f' = part.gave f)
      (hgot : ∀ e, part.got f' = some e → e.1 = k ∧ held h k = some e.2) : Deal part h f f' (.take k :: h)

/-- The history has the offers of the calls, and the calls came away with no more than it lets go. -/
structure Booked (part : Part κ ν φ) (calls : List φ) (h : List (Event κ ν)) : Prop where
  offers : ∀ k v, .offer k v ∈ h → ∃ f ∈ calls, part.gave f = some (k, v)
  given : ∀ k, offered k h = calls.countP (part.gaveAs k)
  gotten : ∀ k, calls.countP (part.gotAs k) ≤ taken k h
  got : ∀ f ∈ calls, ∀ k v, part.got f = some (k, v) → .offer k v ∈ h

theorem booked_nil (part : Part κ ν φ) : Booked part [] [] where
  offers k v hm := by cases hm
  given k := rfl
  gotten k := Nat.le_refl 0
  got f hm := by cases hm

variable {calls : List φ}

/-- What a call came away with, another one gave. -/
theorem Booked.exists_gave (hb : Booked part calls h) {f : φ} (hf : f ∈ calls) (hgot : part.got f = some (k, v)) :
    ∃ g ∈ calls, part.gave g = some (k, v) :=
  hb.offers k v (hb.got f hf k v hgot)

/-- **No two calls come away with one offer.** -/
theorem Booked.got_le_gave (hb : Booked part calls h) (k : κ) :
    calls.countP (part.gotAs k) ≤ calls.countP (part.gaveAs k) :=
  calc calls.countP (part.gotAs k) ≤ taken k h := hb.gotten k
    _ ≤ offered k h := taken_le_offered k h
    _ = calls.countP (part.gaveAs k) := hb.given k

/-- A call that is new has neither given nor got. -/
theorem Booked.start (hb : Booked part calls h) {f : φ} (hgave : part.gave f = none) (hgot : part.got f = none) :
    Booked part (calls ++ [f]) h where
  offers k v hm := by
    obtain ⟨g, hg, heq⟩ := hb.offers k v hm
    exact ⟨g, List.mem_append_left _ hg, heq⟩
  given k := by
    rw [hb.given k]
    simp [List.countP_append, Part.gaveAs, hgave]
  gotten k := by
    have hle := hb.gotten k
    simpa [List.countP_append, Part.gotAs, hgot] using hle
  got g hg k v heq := by
    rcases List.mem_append.mp hg with hold | hnew
    · exact hb.got g hold k v heq
    · rw [List.mem_singleton.mp hnew, hgot] at heq
      cases heq

variable {σ : Type} {p : Pool φ σ} {i : Nat} {f f' : φ} {h' : List (Event κ ν)}

theorem mem_goOn {s : σ} {g : φ} (hg : g ∈ (p.goOn i s f').calls) : g = f' ∨ g ∈ p.calls := by
  obtain ⟨j, hj⟩ := List.mem_iff_getElem?.mp hg
  rcases Pool.getElem?_goOn hj with ⟨-, heq⟩ | ⟨-, hold⟩
  · exact Or.inl heq
  · exact Or.inr (List.mem_of_getElem? hold)

omit [DecidableEq κ] in
/-- What a call gave, it or another has given afterwards. -/
theorem exists_gave_goOn {s : σ} (hf : p.calls[i]? = some f) {e : κ × ν} (hstays : part.gave f = some e → part.gave f' = some e)
    (hgave : ∃ g ∈ p.calls, part.gave g = some e) : ∃ g ∈ (p.goOn i s f').calls, part.gave g = some e := by
  obtain ⟨g, hg, heq⟩ := hgave
  obtain ⟨j, hj⟩ := List.mem_iff_getElem?.mp hg
  by_cases hji : j = i
  · subst hji
    obtain rfl := Option.some.inj (hf.symm.trans hj)
    exact ⟨f', List.mem_of_getElem? (Pool.getElem?_goOn_self hf), hstays heq⟩
  · exact ⟨g, List.mem_of_getElem? (Pool.getElem?_goOn_of_ne hji hj), heq⟩

/-- **What one call enters keeps the books.** -/
theorem Booked.goOn (hb : Booked part p.calls h) {s : σ} (hf : p.calls[i]? = some f) (hd : Deal part h f f' h') :
    Booked part (p.goOn i s f').calls h' := by
  have hgaveCount (k : κ) := Pool.countP_goOn (s := s) (g := f') (part.gaveAs k) hf
  have hgotCount (k : κ) := Pool.countP_goOn (s := s) (g := f') (part.gotAs k) hf
  have hfmem : f ∈ p.calls := List.mem_of_getElem? hf
  cases hd with
  | none hgave hgot =>
      refine ⟨fun k v hm => exists_gave_goOn hf (fun h => hgave.trans h) (hb.offers k v hm), fun k => ?_, fun k => ?_, ?_⟩
      · have hcount := hgaveCount k
        have hold := hb.given k
        rw [Part.gaveAs_congr hgave] at hcount
        omega
      · have hcount := hgotCount k
        have hold := hb.gotten k
        rcases hgot with hsame | hnone
        · rw [Part.gotAs_congr hsame] at hcount
          omega
        · rw [Part.gotAs_of_none hnone, if_neg Bool.false_ne_true] at hcount
          omega
      · intro g hg k v heq
        rcases mem_goOn hg with rfl | hold
        · rcases hgot with hsame | hnone
          · exact hb.got f hfmem k v (hsame ▸ heq)
          · rw [hnone] at heq
            cases heq
        · exact hb.got g hold k v heq
  | offer k₀ v₀ hgave hgot =>
      refine ⟨?_, fun k => ?_, fun k => ?_, ?_⟩
      · intro k v hm
        rcases List.mem_cons.mp hm with heq | hold
        · obtain ⟨rfl, rfl⟩ := Event.offer.inj heq
          exact ⟨f', List.mem_of_getElem? (Pool.getElem?_goOn_self hf), hgave.2⟩
        · refine exists_gave_goOn hf (fun h => ?_) (hb.offers k v hold)
          rw [hgave.1] at h
          cases h
      · have hcount := hgaveCount k
        have hold := hb.given k
        have hmine : part.gaveAs k f' = decide (k = k₀) := by
          simp [Part.gaveAs, hgave.2, eq_comm (b := k), beq_eq_decide]
        rw [Part.gaveAs_of_none hgave.1, if_neg Bool.false_ne_true, hmine] at hcount
        simp only [offered]
        by_cases hkk : k = k₀
        · simp only [hkk, decide_true, if_true] at hcount ⊢
          rw [hkk] at hold
          omega
        · simp only [hkk, decide_false, Bool.false_eq_true, if_false] at hcount ⊢
          omega
      · have hcount := hgotCount k
        have hold := hb.gotten k
        rw [Part.gotAs_of_none hgot, if_neg Bool.false_ne_true] at hcount
        simp only [taken]
        omega
      · intro g hg k v heq
        refine List.mem_cons_of_mem _ ?_
        rcases mem_goOn hg with rfl | hold
        · rw [hgot] at heq
          cases heq
        · exact hb.got g hold k v heq
  | take k₀ hgave hgot =>
      refine ⟨?_, fun k => ?_, fun k => ?_, ?_⟩
      · intro k v hm
        refine exists_gave_goOn hf (fun h => hgave.trans h) (hb.offers k v ?_)
        simpa using hm
      · have hcount := hgaveCount k
        have hold := hb.given k
        rw [Part.gaveAs_congr hgave] at hcount
        simp only [offered]
        omega
      · have hcount := hgotCount k
        have hold := hb.gotten k
        simp only [taken]
        cases heq : part.got f' with
        | none =>
            rw [Part.gotAs_of_none heq, if_neg Bool.false_ne_true] at hcount
            omega
        | some e =>
            obtain ⟨hk, hheld⟩ := hgot e heq
            have hmine : part.gotAs k f' = decide (k = k₀) := by
              simp [Part.gotAs, heq, hk, eq_comm (b := k), beq_eq_decide]
            rw [hmine] at hcount
            by_cases hkk : k = k₀
            · subst hkk
              simp only [decide_true, if_true, hheld, Option.isSome_some, and_self] at hcount ⊢
              omega
            · simp only [hkk, decide_false, Bool.false_eq_true, if_false, false_and] at hcount ⊢
              omega
      · intro g hg k v heq
        refine List.mem_cons_of_mem _ ?_
        rcases mem_goOn hg with rfl | hold
        · obtain ⟨rfl, hheld⟩ := hgot (k, v) heq
          exact offer_mem_of_held hheld
        · exact hb.got g hold k v heq

end FlyMail.OneTime
