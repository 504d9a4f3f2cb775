/-
Programs made of statements that can fail.

A program that works on a store does so statement by statement, and every
statement is a place where something can go wrong: the store refuses it, or the
process dies in front of it.  Between two statements other programs may have
changed the store.  An `Env` settles both for every statement in advance, by the
statement's site, so a program with all its bad luck is a plain function and
"whatever fails, wherever" is a quantifier over `Env`.

A failed statement changes nothing.  A program may pass the error on, which ends
it, or look at it (`attempt`) and go on; a dead process does neither.
-/
import Mathlib.Init

namespace FlyMail

/-- What happens to one statement. -/
inductive Fault
  | none
  | fail
  | crash
  deriving DecidableEq, Repr

/-- How a program ends. -/
inductive Outcome (ε α : Type)
  | ok (a : α)
  | err (e : ε)
  | dead
  deriving DecidableEq, Repr

/-- The luck of a program: which of its statements fail, and what others do to
the store just before each of them. -/
structure Env (ι σ : Type) where
  fault : ι → Fault
  meddle : ι → σ → σ

/-- Nothing fails and nobody interferes. -/
def Env.calm {ι σ : Type} : Env ι σ := ⟨fun _ => .none, fun _ s => s⟩

/-- Statements fail as `fault` says and nobody interferes. -/
def Env.faulty {ι σ : Type} (fault : ι → Fault) : Env ι σ := ⟨fault, fun _ s => s⟩

/-- A program over the store `σ` whose statements have sites in `ι`. -/
def Proc (ι ε σ α : Type) : Type := Env ι σ → σ → Outcome ε α × σ

namespace Proc

variable {ι ε σ α β : Type}

instance : Monad (Proc ι ε σ) where
  pure a := fun _ s => (.ok a, s)
  bind p f := fun env s =>
    match p env s with
    | (.ok a, s') => f a env s'
    | (.err e, s') => (.err e, s')
    | (.dead, s') => (.dead, s')

/-- End the program with an error. -/
def throw (e : ε) : Proc ι ε σ α := fun _ s => (.err e, s)

/-- One statement.  `e` is the error reported when the store refuses it; the
statement itself may find an error of its own. -/
def stmt (i : ι) (e : ε) (f : σ → Except ε α × σ) : Proc ι ε σ α := fun env s =>
  match env.fault i with
  | .none =>
      match f (env.meddle i s) with
      | (.ok a, s') => (.ok a, s')
      | (.error e', s') => (.err e', s')
  | .fail => (.err e, env.meddle i s)
  | .crash => (.dead, env.meddle i s)

/-- A statement that reads. -/
def query (i : ι) (e : ε) (f : σ → Except ε α) : Proc ι ε σ α := stmt i e fun s => (f s, s)

/-- A statement that writes. -/
def update (i : ι) (e : ε) (f : σ → σ) : Proc ι ε σ Unit := stmt i e fun s => (.ok (), f s)

/-- Run `p` and hand its error to the program instead of passing it on. -/
def attempt (p : Proc ι ε σ α) : Proc ι ε σ (Except ε α) := fun env s =>
  match p env s with
  | (.ok a, s') => (.ok (.ok a), s')
  | (.err e, s') => (.ok (.error e), s')
  | (.dead, s') => (.dead, s')

/-- Run `p`, and take `a` for its answer where it fails. -/
def withDefault (p : Proc ι ε σ α) (a : α) : Proc ι ε σ α := fun env s =>
  match p env s with
  | (.err _, s') => (.ok a, s')
  | r => r

/-- Run the program for every element, stopping at the first that does not return. -/
def each (f : α → Proc ι ε σ Unit) : List α → Proc ι ε σ Unit
  | [] => pure ()
  | a :: rest => do
      f a
      each f rest

/-- The program under other names for its sites. -/
def relabel {κ : Type} (at_ : κ → ι) (p : Proc κ ε σ α) : Proc ι ε σ α := fun env s =>
  p ⟨fun i => env.fault (at_ i), fun i => env.meddle (at_ i)⟩ s

/-! ### Running a program one statement further -/

@[simp] theorem pure_apply (a : α) (env : Env ι σ) (s : σ) :
    (pure a : Proc ι ε σ α) env s = (.ok a, s) := rfl

theorem bind_apply (p : Proc ι ε σ α) (f : α → Proc ι ε σ β) (env : Env ι σ) (s : σ) :
    (p >>= f) env s = match p env s with
      | (.ok a, s') => f a env s'
      | (.err e, s') => (.err e, s')
      | (.dead, s') => (.dead, s') := rfl

theorem bind_ok {p : Proc ι ε σ α} {f : α → Proc ι ε σ β} {env : Env ι σ} {s s' : σ} {a : α}
    (h : p env s = (.ok a, s')) : (p >>= f) env s = f a env s' := by
  rw [bind_apply, h]

theorem bind_err {p : Proc ι ε σ α} {f : α → Proc ι ε σ β} {env : Env ι σ} {s s' : σ} {e : ε}
    (h : p env s = (.err e, s')) : (p >>= f) env s = (.err e, s') := by
  rw [bind_apply, h]

theorem bind_dead {p : Proc ι ε σ α} {f : α → Proc ι ε σ β} {env : Env ι σ} {s s' : σ}
    (h : p env s = (.dead, s')) : (p >>= f) env s = (.dead, s') := by
  rw [bind_apply, h]

theorem bind_assoc {γ : Type} (p : Proc ι ε σ α) (f : α → Proc ι ε σ β) (g : β → Proc ι ε σ γ) :
    (p >>= f) >>= g = p >>= fun a => f a >>= g := by
  funext env s
  rw [bind_apply, bind_apply, bind_apply]
  cases p env s with
  | mk out s' => cases out <;> rfl

/-- Programs that end alike in front of the same rest end alike. -/
theorem bind_congr {p q : Proc ι ε σ α} {f : α → Proc ι ε σ β} {env : Env ι σ} {s : σ}
    (h : p env s = q env s) : (p >>= f) env s = (q >>= f) env s := by
  rw [bind_apply, bind_apply, h]

@[simp] theorem throw_apply (e : ε) (env : Env ι σ) (s : σ) :
    (throw e : Proc ι ε σ α) env s = (.err e, s) := rfl

theorem query_none {i : ι} {e : ε} {f : σ → Except ε α} {env : Env ι σ} {s : σ}
    (h : env.fault i = .none) :
    query i e f env s = match f (env.meddle i s) with
      | .ok a => (.ok a, env.meddle i s)
      | .error e' => (.err e', env.meddle i s) := by
  unfold query stmt
  rw [h]
  dsimp only
  cases f (env.meddle i s) <;> rfl

theorem query_fail {i : ι} {e : ε} {f : σ → Except ε α} {env : Env ι σ} {s : σ}
    (h : env.fault i = .fail) : query i e f env s = (.err e, env.meddle i s) := by
  unfold query stmt
  rw [h]

theorem query_crash {i : ι} {e : ε} {f : σ → Except ε α} {env : Env ι σ} {s : σ}
    (h : env.fault i = .crash) : query i e f env s = (.dead, env.meddle i s) := by
  unfold query stmt
  rw [h]

theorem update_none {i : ι} {e : ε} {f : σ → σ} {env : Env ι σ} {s : σ}
    (h : env.fault i = .none) : update i e f env s = (.ok (), f (env.meddle i s)) := by
  unfold update stmt
  rw [h]

theorem update_fail {i : ι} {e : ε} {f : σ → σ} {env : Env ι σ} {s : σ}
    (h : env.fault i = .fail) : update i e f env s = (.err e, env.meddle i s) := by
  unfold update stmt
  rw [h]

theorem update_crash {i : ι} {e : ε} {f : σ → σ} {env : Env ι σ} {s : σ}
    (h : env.fault i = .crash) : update i e f env s = (.dead, env.meddle i s) := by
  unfold update stmt
  rw [h]

theorem each_append (f : α → Proc ι ε σ Unit) (l₁ l₂ : List α) (env : Env ι σ) :
    ∀ s, each f (l₁ ++ l₂) env s = (each f l₁ >>= fun _ => each f l₂) env s := by
  induction l₁ with
  | nil => intro s; rfl
  | cons a rest ih =>
      intro s
      show (f a >>= fun _ => each f (rest ++ l₂)) env s
        = ((f a >>= fun _ => each f rest) >>= fun _ => each f l₂) env s
      rw [bind_assoc, bind_apply, bind_apply]
      cases h : f a env s with
      | mk out s' =>
          cases out with
          | ok u => exact ih s'
          | err e => rfl
          | dead => rfl

theorem each_map (f : α → Proc ι ε σ Unit) (g : β → α) (l : List β) :
    each f (l.map g) = each (fun b => f (g b)) l := by
  induction l with
  | nil => rfl
  | cons b rest ih =>
      show (f (g b) >>= fun _ => each f (rest.map g)) = _
      rw [ih]
      rfl

/-! ### Where nobody interferes -/

variable {φ : ι → Fault}

theorem query_faulty (i : ι) (e : ε) (f : σ → Except ε α) (s : σ) :
    query i e f (.faulty φ) s = match φ i with
      | .none => (match f s with
        | .ok a => (.ok a, s)
        | .error e' => (.err e', s))
      | .fail => (.err e, s)
      | .crash => (.dead, s) := by
  cases h : φ i with
  | none => rw [query_none h]; rfl
  | fail => rw [query_fail h]; rfl
  | crash => rw [query_crash h]; rfl

theorem query_calm {i : ι} {e : ε} {f : σ → Except ε α} {s : σ} {a : α} (h : f s = .ok a) :
    query i e f .calm s = (.ok a, s) := by
  have hrun : query i e f (.faulty fun _ => .none) s = _ := query_faulty i e f s
  rw [h] at hrun
  exact hrun

theorem update_faulty (i : ι) (e : ε) (f : σ → σ) (s : σ) :
    update i e f (.faulty φ) s = match φ i with
      | .none => (.ok (), f s)
      | .fail => (.err e, s)
      | .crash => (.dead, s) := by
  cases h : φ i with
  | none => rw [update_none h]; rfl
  | fail => rw [update_fail h]; rfl
  | crash => rw [update_crash h]; rfl

theorem attempt_apply (p : Proc ι ε σ α) (env : Env ι σ) (s : σ) :
    attempt p env s = match p env s with
      | (.ok a, s') => (.ok (.ok a), s')
      | (.err e, s') => (.ok (.error e), s')
      | (.dead, s') => (.dead, s') := rfl

theorem withDefault_apply (p : Proc ι ε σ α) (a : α) (env : Env ι σ) (s : σ) :
    withDefault p a env s = match p env s with
      | (.err _, s') => (.ok a, s')
      | r => r := rfl

theorem withDefault_ok {p : Proc ι ε σ α} {a b : α} {env : Env ι σ} {s s' : σ}
    (h : p env s = (.ok b, s')) : withDefault p a env s = (.ok b, s') := by
  unfold withDefault
  rw [h]

/-! ### What a program keeps, however it ends -/

/-- `p` keeps `I` in every environment that keeps it, whether it returns, fails
or dies. -/
def Keeps (I : σ → Prop) (p : Proc ι ε σ α) : Prop :=
  ∀ env : Env ι σ, (∀ i s, I s → I (env.meddle i s)) → ∀ s, I s → I (p env s).2

variable {I : σ → Prop}

theorem keeps_pure (a : α) : Keeps I (pure a : Proc ι ε σ α) := fun _ _ _ h => h

theorem keeps_throw (e : ε) : Keeps I (throw e : Proc ι ε σ α) := fun _ _ _ h => h

theorem keeps_bind {p : Proc ι ε σ α} {f : α → Proc ι ε σ β} (hp : Keeps I p)
    (hf : ∀ a, Keeps I (f a)) : Keeps I (p >>= f) := by
  intro env henv s hs
  have h1 := hp env henv s hs
  rw [bind_apply]
  split
  · rename_i a s' heq
    rw [heq] at h1
    exact hf a env henv s' h1
  · rename_i heq
    rw [heq] at h1
    exact h1
  · rename_i heq
    rw [heq] at h1
    exact h1

theorem keeps_query (i : ι) (e : ε) (f : σ → Except ε α) : Keeps I (query i e f) := by
  intro env henv s hs
  have hm := henv i s hs
  cases hf : env.fault i with
  | none =>
      rw [query_none hf]
      split <;> exact hm
  | fail => rw [query_fail hf]; exact hm
  | crash => rw [query_crash hf]; exact hm

theorem keeps_update {i : ι} {e : ε} {f : σ → σ} (h : ∀ s, I s → I (f s)) :
    Keeps I (update i e f : Proc ι ε σ Unit) := by
  intro env henv s hs
  have hm := henv i s hs
  cases hf : env.fault i with
  | none => rw [update_none hf]; exact h _ hm
  | fail => rw [update_fail hf]; exact hm
  | crash => rw [update_crash hf]; exact hm

theorem keeps_attempt {p : Proc ι ε σ α} (hp : Keeps I p) : Keeps I (attempt p) := by
  intro env henv s hs
  have h1 := hp env henv s hs
  unfold attempt
  split <;> · rename_i heq; rw [heq] at h1; exact h1

theorem keeps_withDefault {p : Proc ι ε σ α} (hp : Keeps I p) (a : α) :
    Keeps I (withDefault p a) := by
  intro env henv s hs
  have h1 := hp env henv s hs
  unfold withDefault
  split
  · rename_i heq
    rw [heq] at h1
    exact h1
  · exact h1

theorem keeps_relabel {κ : Type} {p : Proc κ ε σ α} (hp : Keeps I p) (at_ : κ → ι) :
    Keeps I (relabel at_ p) := fun _ henv s hs => hp _ (fun i => henv (at_ i)) s hs

/-- **The loop rule.** -/
theorem keeps_each {f : α → Proc ι ε σ Unit} (l : List α) (h : ∀ a ∈ l, Keeps I (f a)) :
    Keeps I (each f l) := by
  induction l with
  | nil => exact keeps_pure ()
  | cons a rest ih =>
      exact keeps_bind (h a (by simp)) fun _ => ih fun b hb => h b (by simp [hb])

end Proc

end FlyMail
