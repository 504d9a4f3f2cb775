/-
Rules for programs of statements.

`Ends env s p Q R` says how `p` ends when it is started in `s`: where it returns, its
answer and the state are as `Q` says, and where it fails or dies, the state is as `R`
says.  There is one rule for each way a program is put together, so that a proof about a
program follows its text.

Two more notions are about luck.  A program that `Returns` does so whenever nothing goes
wrong, whatever the state.  A program `Uses` only certain sites if its luck elsewhere is
of no consequence; this is what lets a proof choose where a program breaks off and know
that everything before went as if nothing could fail.
-/
import FlyMail.Lib.Proc

namespace FlyMail.Proc

variable {ι ε σ α β : Type}

/-! ### How a program ends -/

/-- `p`, started in `s`, returns with `Q` or breaks off with `R`. -/
def Ends (env : Env ι σ) (s : σ) (p : Proc ι ε σ α) (Q : α → σ → Prop) (R : σ → Prop) : Prop :=
  match p env s with
  | (.ok a, t) => Q a t
  | (.err _, t) => R t
  | (.dead, t) => R t

section Rules

variable {env : Env ι σ} {s : σ} {p : Proc ι ε σ α} {Q : α → σ → Prop} {R : σ → Prop}

theorem Ends.ok {a : α} {t : σ} (h : Ends env s p Q R) (hp : p env s = (.ok a, t)) : Q a t := by
  unfold Ends at h
  rw [hp] at h
  exact h

/-- What holds however the program ends. -/
theorem Ends.left (h : Ends env s p (fun _ t => R t) R) : R (p env s).2 := by
  unfold Ends at h
  cases hp : p env s with
  | mk out t =>
      rw [hp] at h
      cases out with
      | ok a => exact h
      | err e => exact h
      | dead => exact h

theorem ends_of_left (h : R (p env s).2) : Ends env s p (fun _ => R) R := by
  unfold Ends
  cases hp : p env s with
  | mk out t =>
      rw [hp] at h
      cases out with
      | ok a => exact h
      | err e => exact h
      | dead => exact h

theorem Ends.imp {Q' : α → σ → Prop} {R' : σ → Prop} (h : Ends env s p Q R)
    (hQ : ∀ a t, Q a t → Q' a t) (hR : ∀ t, R t → R' t) : Ends env s p Q' R' := by
  unfold Ends at h ⊢
  cases hp : p env s with
  | mk out t =>
      rw [hp] at h
      cases out with
      | ok a => exact hQ a t h
      | err e => exact hR t h
      | dead => exact hR t h

theorem Ends.and {Q' : α → σ → Prop} {R' : σ → Prop} (h : Ends env s p Q R) (h' : Ends env s p Q' R') :
    Ends env s p (fun a t => Q a t ∧ Q' a t) fun t => R t ∧ R' t := by
  unfold Ends at h h' ⊢
  cases hp : p env s with
  | mk out t =>
      rw [hp] at h h'
      cases out with
      | ok a => exact ⟨h, h'⟩
      | err e => exact ⟨h, h'⟩
      | dead => exact ⟨h, h'⟩

/-- Nothing need be known of the program. -/
theorem ends_any (hQ : ∀ a t, Q a t) (hR : ∀ t, R t) : Ends env s p Q R := by
  unfold Ends
  cases p env s with
  | mk out t =>
      cases out with
      | ok a => exact hQ a t
      | err e => exact hR t
      | dead => exact hR t

theorem ends_of_ok {a : α} {t : σ} (hp : p env s = (.ok a, t)) (hQ : Q a t) :
    Ends env s p Q R := by
  unfold Ends
  rw [hp]
  exact hQ

theorem ends_pure {a : α} (h : Q a s) : Ends env s (pure a : Proc ι ε σ α) Q R := h

theorem ends_throw {e : ε} (h : R s) : Ends env s (throw e : Proc ι ε σ α) Q R := h

theorem ends_bind {f : α → Proc ι ε σ β} {Q : β → σ → Prop}
    (h : Ends env s p (fun a t => Ends env t (f a) Q R) R) : Ends env s (p >>= f) Q R := by
  unfold Ends at h ⊢
  rw [bind_apply]
  cases hp : p env s with
  | mk out t =>
      rw [hp] at h
      cases out with
      | ok a => exact h
      | err e => exact h
      | dead => exact h

theorem ends_query {i : ι} {e : ε} {f : σ → Except ε α}
    (hQ : ∀ a, f (env.meddle i s) = .ok a → Q a (env.meddle i s)) (hR : R (env.meddle i s)) :
    Ends env s (query i e f) Q R := by
  unfold Ends
  cases hf : env.fault i with
  | none =>
      rw [query_none hf]
      cases ha : f (env.meddle i s) with
      | ok a => exact hQ a ha
      | error e' => exact hR
  | fail => rw [query_fail hf]; exact hR
  | crash => rw [query_crash hf]; exact hR

theorem ends_update {i : ι} {e : ε} {f : σ → σ} {Q : Unit → σ → Prop}
    (hQ : Q () (f (env.meddle i s))) (hR : R (env.meddle i s)) :
    Ends env s (update i e f) Q R := by
  unfold Ends
  cases hf : env.fault i with
  | none => rw [update_none hf]; exact hQ
  | fail => rw [update_fail hf]; exact hR
  | crash => rw [update_crash hf]; exact hR

theorem ends_withDefault {a : α} (h : Ends env s p Q fun t => Q a t ∧ R t) :
    Ends env s (withDefault p a) Q R := by
  unfold Ends withDefault at *
  cases hp : p env s with
  | mk out t =>
      rw [hp] at h
      cases out with
      | ok b => exact h
      | err e => exact h.1
      | dead => exact h.2

theorem ends_attempt {Q : Except ε α → σ → Prop}
    (h : Ends env s p (fun a t => Q (.ok a) t) fun t => (∀ e, Q (.error e) t) ∧ R t) :
    Ends env s (attempt p) Q R := by
  unfold Ends attempt at *
  cases hp : p env s with
  | mk out t =>
      rw [hp] at h
      cases out with
      | ok b => exact h
      | err e => exact h.1 e
      | dead => exact h.2

/-- **The loop rule.** `I` is about what is still to be done. -/
theorem ends_each {f : α → Proc ι ε σ Unit} {I : List α → σ → Prop} (l : List α)
    (h : ∀ a rest t, I (a :: rest) t → Ends env t (f a) (fun _ u => I rest u) R) :
    ∀ {s : σ}, I l s → Ends env s (each f l) (fun _ t => I [] t) R := by
  induction l with
  | nil =>
      intro s hs
      exact ends_pure hs
  | cons a rest ih =>
      intro s hs
      exact ends_bind ((h a rest s hs).imp (fun _ t ht => ih ht) fun _ ht => ht)

/-- What a program keeps, it leaves. -/
theorem Keeps.ends {I : σ → Prop} (h : Keeps I p) (henv : ∀ i s, I s → I (env.meddle i s))
    (hs : I s) : Ends env s p (fun _ => I) I :=
  ends_of_left (h env henv s hs)

end Rules

/-! ### A program whose error is looked at -/

section Attempt

variable {env : Env ι σ} {s t : σ} {p : Proc ι ε σ α}

theorem attempt_ok {a : α} (h : p env s = (.ok a, t)) : attempt p env s = (.ok (.ok a), t) := by
  rw [attempt_apply, h]

theorem attempt_err {e : ε} (h : p env s = (.err e, t)) : attempt p env s = (.ok (.error e), t) := by
  rw [attempt_apply, h]

theorem attempt_dead (h : p env s = (.dead, t)) : attempt p env s = (.dead, t) := by
  rw [attempt_apply, h]

end Attempt

/-! ### How far a loop comes -/

/-- The items the loop over a list begins with: all up to the first it does not return from. -/
def begun (f : α → Proc ι ε σ Unit) (env : Env ι σ) : List α → σ → List α
  | [], _ => []
  | a :: rest, s =>
      match f a env s with
      | (.ok _, t) => a :: begun f env rest t
      | _ => [a]

section Begun

variable {f : α → Proc ι ε σ Unit} {env : Env ι σ} {a : α} {rest : List α} {s t : σ}

theorem begun_of_ok (h : f a env s = (.ok (), t)) : begun f env (a :: rest) s = a :: begun f env rest t := by
  rw [begun, h]

theorem begun_of_ne (h : (f a env s).1 ≠ .ok ()) : begun f env (a :: rest) s = [a] := by
  rw [begun]
  split
  · rename_i heq
    rw [heq] at h
    exact absurd rfl h
  · rfl

theorem each_of_ok (h : f a env s = (.ok (), t)) : each f (a :: rest) env s = each f rest env t := bind_ok h

theorem each_of_ne (h : (f a env s).1 ≠ .ok ()) : each f (a :: rest) env s = f a env s := by
  show (f a >>= fun _ => each f rest) env s = _
  cases hf : f a env s with
  | mk out u =>
      rw [hf] at h
      cases out with
      | ok _ => exact absurd rfl h
      | err e => exact bind_err hf
      | dead => exact bind_dead hf

/-- **A loop comes to its end**, or up to an item it does not return from. -/
theorem each_begun (l : List α) : ∀ s,
    (∃ t, each f l env s = (.ok (), t) ∧ begun f env l s = l) ∨
      ∃ before a rest t, l = before ++ a :: rest ∧ each f before env s = (.ok (), t) ∧
        begun f env l s = before ++ [a] ∧ each f l env s = f a env t ∧ (f a env t).1 ≠ .ok () := by
  induction l with
  | nil => exact fun s => .inl ⟨s, rfl, rfl⟩
  | cons a rest ih =>
      intro s
      by_cases hf : (f a env s).1 = .ok ()
      · have hok : f a env s = (.ok (), (f a env s).2) := Prod.ext hf rfl
        rcases ih (f a env s).2 with ⟨t, ht, hall⟩ | ⟨before, b, after, t, rfl, ht, hall, heach, hne⟩
        · exact .inl ⟨t, (each_of_ok hok).trans ht, by rw [begun_of_ok hok, hall]⟩
        · refine .inr ⟨a :: before, b, after, t, rfl, (each_of_ok hok).trans ht, ?_, ?_, hne⟩
          · rw [begun_of_ok hok, hall]
            rfl
          · exact (each_of_ok hok).trans heach
      · exact .inr ⟨[], a, rest, s, rfl, rfl, begun_of_ne hf, each_of_ne hf, hf⟩

/-- A loop that comes to its end has begun with all items. -/
theorem begun_of_each {l : List α} (h : each f l env s = (.ok (), t)) : begun f env l s = l := by
  rcases each_begun l s with ⟨_, -, hall⟩ | ⟨_, _, _, _, -, -, -, heach, hne⟩
  · exact hall
  · rw [← heach, h] at hne
    exact absurd rfl hne

end Begun

/-! ### What returns when nothing fails -/

/-- When nothing goes wrong, the program returns. -/
def Returns (p : Proc ι ε σ α) : Prop := ∀ s, ∃ a t, p .calm s = (.ok a, t)

theorem returns_pure (a : α) : Returns (pure a : Proc ι ε σ α) := fun s => ⟨a, s, rfl⟩

theorem returns_bind {p : Proc ι ε σ α} {f : α → Proc ι ε σ β} (hp : Returns p)
    (hf : ∀ a, Returns (f a)) : Returns (p >>= f) := by
  intro s
  obtain ⟨a, t, ha⟩ := hp s
  obtain ⟨b, u, hb⟩ := hf a t
  exact ⟨b, u, (bind_ok ha).trans hb⟩

theorem returns_each {f : α → Proc ι ε σ Unit} (l : List α) (h : ∀ a ∈ l, Returns (f a)) :
    Returns (each f l) := by
  induction l with
  | nil => exact returns_pure ()
  | cons a rest ih =>
      exact returns_bind (h a List.mem_cons_self) fun _ =>
        ih fun b hb => h b (List.mem_cons_of_mem a hb)

/-! ### What returns in an environment -/

/-- In this environment the program returns. -/
def ReturnsIn (env : Env ι σ) (p : Proc ι ε σ α) : Prop := ∀ s, ∃ a t, p env s = (.ok a, t)

/-- In this environment the program does not die. -/
def Lives (env : Env ι σ) (p : Proc ι ε σ α) : Prop := ∀ s, (p env s).1 ≠ .dead

section ReturnsIn

variable {env : Env ι σ}

theorem returnsIn_pure (a : α) : ReturnsIn env (pure a : Proc ι ε σ α) := fun s => ⟨a, s, rfl⟩

theorem returnsIn_bind {p : Proc ι ε σ α} {f : α → Proc ι ε σ β} (hp : ReturnsIn env p)
    (hf : ∀ a, ReturnsIn env (f a)) : ReturnsIn env (p >>= f) := by
  intro s
  obtain ⟨a, t, ha⟩ := hp s
  obtain ⟨b, u, hb⟩ := hf a t
  exact ⟨b, u, (bind_ok ha).trans hb⟩

theorem returnsIn_query {i : ι} (hi : env.fault i = .none) (e : ε) (f : σ → α) :
    ReturnsIn env (query i e fun s => .ok (f s)) := fun s => ⟨_, _, query_none hi⟩

theorem returnsIn_update {i : ι} (hi : env.fault i = .none) (e : ε) (f : σ → σ) :
    ReturnsIn env (update i e f : Proc ι ε σ Unit) := fun s => ⟨_, _, update_none hi⟩

theorem returnsIn_each {f : α → Proc ι ε σ Unit} (l : List α) (h : ∀ a ∈ l, ReturnsIn env (f a)) :
    ReturnsIn env (each f l) := by
  induction l with
  | nil => exact returnsIn_pure ()
  | cons a rest ih =>
      exact returnsIn_bind (h a List.mem_cons_self) fun _ => ih fun b hb => h b (List.mem_cons_of_mem a hb)

/-- What is kept where the program returns. -/
theorem ReturnsIn.ends {p : Proc ι ε σ α} {I R : σ → Prop} (h : ReturnsIn env p) (hp : Keeps I p)
    (henv : ∀ i s, I s → I (env.meddle i s)) {s : σ} (hs : I s) : Ends env s p (fun _ => I) R := by
  obtain ⟨a, t, ha⟩ := h s
  refine ends_of_ok ha ?_
  have hleft := hp env henv s hs
  rw [ha] at hleft
  exact hleft

theorem ReturnsIn.lives {p : Proc ι ε σ α} (h : ReturnsIn env p) : Lives env p := by
  intro s hdead
  obtain ⟨a, t, ha⟩ := h s
  rw [ha] at hdead
  cases hdead

theorem lives_bind {p : Proc ι ε σ α} {f : α → Proc ι ε σ β} (hp : Lives env p)
    (hf : ∀ a, Lives env (f a)) : Lives env (p >>= f) := by
  intro s hdead
  rw [bind_apply] at hdead
  split at hdead
  · exact hf _ _ hdead
  · cases hdead
  · rename_i heq
    exact hp s (congrArg Prod.fst heq)

theorem lives_query {i : ι} (hi : env.fault i ≠ .crash) (e : ε) (f : σ → Except ε α) :
    Lives env (query i e f) := by
  intro s hdead
  cases hf : env.fault i with
  | none =>
      rw [query_none hf] at hdead
      split at hdead
      · cases hdead
      · cases hdead
  | fail =>
      rw [query_fail hf] at hdead
      cases hdead
  | crash => exact hi hf

theorem lives_each {f : α → Proc ι ε σ Unit} (l : List α) (h : ∀ a ∈ l, Lives env (f a)) :
    Lives env (each f l) := by
  induction l with
  | nil => exact (returnsIn_pure ()).lives
  | cons a rest ih =>
      exact lives_bind (h a List.mem_cons_self) fun _ => ih fun b hb => h b (List.mem_cons_of_mem a hb)

/-- A program whose error is passed over returns if it does not die. -/
theorem returnsIn_withDefault {p : Proc ι ε σ α} (h : Lives env p) (a : α) :
    ReturnsIn env (withDefault p a) := by
  intro s
  rw [withDefault_apply]
  cases hp : p env s with
  | mk out t =>
      cases out with
      | ok b => exact ⟨b, t, rfl⟩
      | err e => exact ⟨a, t, rfl⟩
      | dead => exact absurd (congrArg Prod.fst hp) (h s)

end ReturnsIn

/-! ### Where a program's luck matters -/

/-- Only the luck at the sites in `S` matters. -/
def Uses (S : ι → Prop) (p : Proc ι ε σ α) : Prop :=
  ∀ φ ψ : ι → Fault, (∀ i, S i → φ i = ψ i) → ∀ s, p (.faulty φ) s = p (.faulty ψ) s

section Uses

variable {S T : ι → Prop}

theorem Uses.mono {p : Proc ι ε σ α} (h : Uses S p) (hST : ∀ i, S i → T i) : Uses T p :=
  fun φ ψ hφ => h φ ψ fun i hi => hφ i (hST i hi)

/-- Where its luck is good, a program runs as if nothing could fail. -/
theorem Uses.calm {p : Proc ι ε σ α} (h : Uses S p) {φ : ι → Fault} (hφ : ∀ i, S i → φ i = .none)
    (s : σ) : p (.faulty φ) s = p .calm s := h φ (fun _ => .none) hφ s

theorem uses_pure (a : α) : Uses S (pure a : Proc ι ε σ α) := fun _ _ _ _ => rfl

theorem uses_bind {p : Proc ι ε σ α} {f : α → Proc ι ε σ β} (hp : Uses S p)
    (hf : ∀ a, Uses S (f a)) : Uses S (p >>= f) := by
  intro φ ψ hφ s
  rw [bind_apply, bind_apply, hp φ ψ hφ s]
  cases p (.faulty ψ) s with
  | mk out t =>
      cases out with
      | ok a => exact hf a φ ψ hφ t
      | err e => rfl
      | dead => rfl

theorem uses_query {i : ι} (hi : S i) (e : ε) (f : σ → Except ε α) : Uses S (query i e f) := by
  intro φ ψ hφ s
  rw [query_faulty, query_faulty, hφ i hi]

theorem uses_update {i : ι} (hi : S i) (e : ε) (f : σ → σ) :
    Uses S (update i e f : Proc ι ε σ Unit) := by
  intro φ ψ hφ s
  rw [update_faulty, update_faulty, hφ i hi]

theorem uses_withDefault {p : Proc ι ε σ α} (h : Uses S p) (a : α) : Uses S (withDefault p a) := by
  intro φ ψ hφ s
  rw [withDefault_apply, withDefault_apply, h φ ψ hφ s]

theorem uses_each {f : α → Proc ι ε σ Unit} (l : List α) (h : ∀ a ∈ l, Uses S (f a)) :
    Uses S (each f l) := by
  induction l with
  | nil => exact uses_pure ()
  | cons a rest ih =>
      exact uses_bind (h a List.mem_cons_self) fun _ =>
        ih fun b hb => h b (List.mem_cons_of_mem a hb)

end Uses

end FlyMail.Proc
