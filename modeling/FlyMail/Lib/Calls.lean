/-
Calls that run at the same time on one store.

A service is entered by requests.  The call a request starts goes on one operation on
the store at a time, and between two of its operations any other call may go on.  What a
call knows, the point it has come to and the copies it holds, is its frame.  A call that
has returned keeps its last frame, in which there is nothing left to do.

So the pool of calls is a transition system whose labels say which call goes on next and
with what luck, and besides the calls the world outside may change the store.

`Pool.invariant` is the rule for such systems.  The store has an invariant, every frame
has an assertion about the store, and each operation has to keep the first, to establish
the assertion of the frame it ends in, and to leave standing those of the other frames.
-/
import FlyMail.Lib.Run
import Mathlib.Algebra.Ring.Nat

namespace FlyMail

/-- A service over the store `σ`: requests `κ`, luck `χ`, frames `φ`, and events `ε` of
the world outside. -/
structure Service (κ χ ε φ σ : Type) where
  enter : κ → φ
  /-- The next operation of a call; `none` when it has returned or has to wait. -/
  next : χ → φ → σ → Option (σ × φ)
  outside : ε → σ → σ

/-- The store and the calls made so far. -/
structure Pool (φ σ : Type) where
  store : σ
  calls : List φ
  deriving DecidableEq, Repr

/-- Whose turn it is. -/
inductive Turn (κ χ ε : Type)
  | start (c : κ)
  | go (i : Nat) (x : χ)
  | outside (e : ε)
  deriving Repr

variable {κ χ ε φ σ : Type}

/-! ### A call by itself -/

/-- A call that goes on while all others wait, one operation for each stroke of luck. -/
def Service.alone (v : Service κ χ ε φ σ) : List χ → φ → σ → φ × σ
  | [], f, s => (f, s)
  | x :: xs, f, s =>
      match v.next x f s with
      | none => (f, s)
      | some r => v.alone xs r.2 r.1

theorem Service.alone_cons {v : Service κ χ ε φ σ} {x : χ} {xs : List χ} {f f' : φ} {s s' : σ}
    (h : v.next x f s = some (s', f')) : v.alone (x :: xs) f s = v.alone xs f' s' := by
  rw [alone, h]

/-- An assertion that every operation of the call hands on. -/
theorem Service.alone_invariant {v : Service κ χ ε φ σ} {J : φ → σ → Prop}
    (hnext : ∀ x f s s' f', J f s → v.next x f s = some (s', f') → J f' s') (xs : List χ) :
    ∀ {f s}, J f s → J (v.alone xs f s).1 (v.alone xs f s).2 := by
  induction xs with
  | nil => exact fun h => h
  | cons x xs ih =>
      intro f s h
      unfold alone
      cases hr : v.next x f s with
      | none => exact h
      | some r => exact ih (hnext x f s r.1 r.2 h hr)

/-! ### All calls -/

namespace Pool

/-- The call `i` goes on to the frame `f`, and leaves the store `s`. -/
def goOn (p : Pool φ σ) (i : Nat) (s : σ) (f : φ) : Pool φ σ := ⟨s, p.calls.set i f⟩

/-- The pool's step function. -/
def step (v : Service κ χ ε φ σ) (p : Pool φ σ) : Turn κ χ ε → Option (Pool φ σ)
  | .start c => some { p with calls := p.calls ++ [v.enter c] }
  | .go i x =>
      match p.calls[i]? with
      | none => none
      | some f => (v.next x f p.store).map fun r => p.goOn i r.1 r.2
  | .outside e => some { p with store := v.outside e p.store }

variable {v : Service κ χ ε φ σ} {p q : Pool φ σ}

/-- What a turn of the call `i` does. -/
theorem step_go {i : Nat} {x : χ} (h : p.step v (.go i x) = some q) :
    ∃ f s f', p.calls[i]? = some f ∧ v.next x f p.store = some (s, f') ∧ q = p.goOn i s f' := by
  simp only [step] at h
  cases hf : p.calls[i]? with
  | none => rw [hf] at h; cases h
  | some f =>
      rw [hf] at h
      obtain ⟨⟨s, f'⟩, hnext, rfl⟩ := Option.map_eq_some_iff.mp h
      exact ⟨f, s, f', rfl, hnext, rfl⟩

/-- Every other call stays where it was. -/
theorem getElem?_goOn {i j : Nat} {s : σ} {f g : φ} (h : (p.goOn i s f).calls[j]? = some g) :
    (j = i ∧ g = f) ∨ (j ≠ i ∧ p.calls[j]? = some g) := by
  by_cases hj : j = i
  · subst hj
    refine Or.inl ⟨rfl, ?_⟩
    unfold goOn at h
    rw [List.getElem?_set_self'] at h
    cases hc : p.calls[j]? with
    | none => rw [hc] at h; cases h
    | some f₀ => rw [hc] at h; exact (Option.some.inj h).symm
  · refine Or.inr ⟨hj, ?_⟩
    unfold goOn at h
    rwa [List.getElem?_set_ne (fun he => hj he.symm)] at h

/-- How the number of calls in frames of a kind changes when one call goes on. -/
theorem countP_goOn {i : Nat} {s : σ} {f g : φ} (kind : φ → Bool) (h : p.calls[i]? = some f) :
    (p.goOn i s g).calls.countP kind + (if kind f then 1 else 0)
      = p.calls.countP kind + (if kind g then 1 else 0) := by
  obtain ⟨hi, rfl⟩ := List.getElem?_eq_some_iff.mp h
  have hle : (if kind p.calls[i] then 1 else 0) ≤ p.calls.countP kind := by
    split
    · rename_i hkind
      exact List.countP_pos_iff.mpr ⟨_, List.getElem_mem hi, hkind⟩
    · exact Nat.zero_le _
  unfold goOn
  rw [List.countP_set hi]
  omega

theorem countP_goOn_le {i : Nat} {s : σ} {f g : φ} (kind : φ → Bool) (h : p.calls[i]? = some f)
    (hkind : kind g = true → kind f = true) :
    (p.goOn i s g).calls.countP kind ≤ p.calls.countP kind := by
  have hcount := countP_goOn (s := s) (g := g) kind h
  by_cases hg : kind g = true
  · rw [if_pos hg, if_pos (hkind hg)] at hcount
    omega
  · rw [if_neg hg] at hcount
    omega

private theorem sum_map_set (w : φ → Nat) {f g : φ} (l : List φ) :
    ∀ i : Nat, l[i]? = some f → ((l.set i g).map w).sum + w f = (l.map w).sum + w g := by
  induction l with
  | nil =>
      intro i h
      simp at h
  | cons e rest ih =>
      intro i h
      cases i with
      | zero =>
          obtain rfl := Option.some.inj h
          simp only [List.set_cons_zero, List.map_cons, List.sum_cons]
          omega
      | succ i =>
          have hrest := ih i h
          simp only [List.set_cons_succ, List.map_cons, List.sum_cons]
          omega

/-- How what the calls hold together changes when one call goes on. -/
theorem sum_goOn {i : Nat} {s : σ} {f g : φ} (w : φ → Nat) (h : p.calls[i]? = some f) :
    ((p.goOn i s g).calls.map w).sum + w f = (p.calls.map w).sum + w g :=
  sum_map_set w p.calls i h

/-- The store meets `I`, and every call's frame its assertion `J`. -/
structure Holds (I : σ → Prop) (J : φ → σ → Prop) (p : Pool φ σ) : Prop where
  store : I p.store
  calls : ∀ (i : Nat) (f : φ), p.calls[i]? = some f → J f p.store

variable {I : σ → Prop} {J : φ → σ → Prop} {ok : Pool φ σ → Turn κ χ ε → Prop}

/-- A pool without calls asserts nothing but the store's invariant. -/
theorem holds_of_no_calls {s : σ} (h : I s) : Holds I J ⟨s, []⟩ :=
  ⟨h, fun i f hf => by simp at hf⟩

/-- **The rule for calls that interleave.** -/
theorem invariant
    (henter : ∀ c s, I s → J (v.enter c) s)
    (hnext : ∀ p (i : Nat) x f s f', Holds I J p → ok p (.go i x) → p.calls[i]? = some f →
      v.next x f p.store = some (s, f') →
      I s ∧ J f' s ∧ ∀ (j : Nat) g, j ≠ i → p.calls[j]? = some g → J g s)
    (houtside : ∀ p e, Holds I J p → ok p (.outside e) →
      I (v.outside e p.store) ∧ ∀ (j : Nat) g, p.calls[j]? = some g → J g (v.outside e p.store))
    (h : Run (step v) ok p q) (hp : Holds I J p) : Holds I J q := by
  refine Run.invariant (fun p turn q hp hok hstep => ?_) h hp
  cases turn with
  | start c =>
      obtain rfl := Option.some.inj hstep
      refine ⟨hp.store, fun i f hf => ?_⟩
      rcases List.mem_append.mp (List.mem_of_getElem? hf) with hold | hnew
      · obtain ⟨j, hj⟩ := List.mem_iff_getElem?.mp hold
        exact hp.calls j f hj
      · rw [List.mem_singleton.mp hnew]
        exact henter c p.store hp.store
  | go i x =>
      obtain ⟨f, s, f', hf, hfs, rfl⟩ := step_go hstep
      obtain ⟨hI, hJ, hothers⟩ := hnext p i x f s f' hp hok hf hfs
      refine ⟨hI, fun j g hg => ?_⟩
      rcases getElem?_goOn hg with ⟨-, rfl⟩ | ⟨hj, hold⟩
      · exact hJ
      · exact hothers j g hj hold
  | outside e =>
      obtain rfl := Option.some.inj hstep
      obtain ⟨hI, hothers⟩ := houtside p e hp hok
      exact ⟨hI, hothers⟩

/-! ### A store that is mended -/

/-- The store is good, or some call, left to itself, would make it so. -/
def Mended (good : σ → Prop) (mends : φ → σ → Prop) (p : Pool φ σ) : Prop :=
  good p.store ∨ ∃ (i : Nat) (f : φ), p.calls[i]? = some f ∧ mends f p.store

/-- A call that mends goes on to do so; another changes nothing, or leaves a third that mends. -/
def Mending (v : Service κ χ ε φ σ) (mends : φ → σ → Prop) (p : Pool φ σ) : Turn κ χ ε → Prop
  | .go i x => ∀ f s f', p.calls[i]? = some f → v.next x f p.store = some (s, f') →
      mends f p.store ∨ s = p.store ∨ ∃ j, j ≠ i ∧ ∃ g, p.calls[j]? = some g ∧ mends g s
  | _ => True

theorem getElem?_goOn_self {i : Nat} {f g : φ} {s : σ} (h : p.calls[i]? = some f) :
    (p.goOn i s g).calls[i]? = some g := by
  unfold goOn
  rw [List.getElem?_set_self', h]
  rfl

theorem getElem?_goOn_of_ne {i j : Nat} {f g : φ} {s : σ} (hj : j ≠ i) (h : p.calls[j]? = some f) :
    (p.goOn i s g).calls[j]? = some f := by
  unfold goOn
  rw [List.getElem?_set_ne fun heq => hj heq.symm]
  exact h

theorem getElem?_append_of_some {calls : List φ} {i : Nat} {f g : φ} (h : calls[i]? = some f) :
    (calls ++ [g])[i]? = some f := by
  rw [List.getElem?_append_left (List.getElem?_eq_some_iff.mp h).1]
  exact h

/-- **The rule for calls that mend what others break.** -/
theorem mended_of_run {good : σ → Prop} {mends : φ → σ → Prop}
    (hmends : ∀ x f s s' f', mends f s → v.next x f s = some (s', f') → good s' ∨ mends f' s')
    (houtside : ∀ e s, v.outside e s = s) (h : Run (step v) (Mending v mends) p q) (hp : Mended good mends p) :
    Mended good mends q := by
  refine Run.invariant (fun p turn q hp hok hstep => ?_) h hp
  cases turn with
  | start c =>
      obtain rfl := Option.some.inj hstep
      rcases hp with hgood | ⟨i, f, hf, hmend⟩
      · exact Or.inl hgood
      · exact Or.inr ⟨i, f, getElem?_append_of_some hf, hmend⟩
  | go i x =>
      obtain ⟨f, s, f', hf, hnext, rfl⟩ := step_go hstep
      by_cases hmend : mends f p.store
      · rcases hmends x f p.store s f' hmend hnext with hgood | hmend'
        · exact Or.inl hgood
        · exact Or.inr ⟨i, f', getElem?_goOn_self hf, hmend'⟩
      rcases hok f s f' hf hnext with hmend' | rfl | ⟨j, hj, g, hg, hmend'⟩
      · exact absurd hmend' hmend
      · rcases hp with hgood | ⟨j, g, hg, hmend'⟩
        · exact Or.inl hgood
        · refine Or.inr ⟨j, g, getElem?_goOn_of_ne (fun hji => hmend ?_) hg, hmend'⟩
          rw [hji, hf] at hg
          exact Option.some.inj hg ▸ hmend'
      · exact Or.inr ⟨j, g, getElem?_goOn_of_ne hj hg, hmend'⟩
  | outside e =>
      obtain rfl := Option.some.inj hstep
      rw [houtside]
      exact hp

end Pool

end FlyMail
