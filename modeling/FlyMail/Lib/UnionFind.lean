/-
Union-find over any type of nodes.

A node points at its parent, a root points at itself, and a node never heard of is a
root of size one.  `find` halves the paths it walks and `union` hangs the smaller tree
below the larger.  The structure carries what makes this work: sizes grow along every
parent link and stay below a bound, so a path to a root is shorter than the bound.

What a forest means is `root`.  It is determined by two equations (`root_unique`), so
an operation is understood once its parent links are checked against them: halving
changes no root, a union sends the one class to the other's root.
-/
import FlyMail.Lib.Components
import Mathlib.Logic.Function.Basic

namespace FlyMail

/-- A forest of parent links. -/
structure UnionFind (α : Type) where
  parent : α → α
  size : α → Nat
  /-- Above every size. -/
  cap : Nat
  pos : ∀ x, 0 < size x
  below : ∀ x, size x < cap
  climbs : ∀ x, parent x ≠ x → size x < size (parent x)

namespace UnionFind

variable {α : Type} [DecidableEq α]

/-- The forest in which every node is alone. -/
def empty : UnionFind α where
  parent := id
  size _ := 1
  cap := 2
  pos _ := Nat.one_pos
  below _ := Nat.lt_succ_self 1
  climbs _ h := absurd rfl h

/-- Point `x` at its grandparent. -/
def halve (u : UnionFind α) (x : α) : UnionFind α where
  parent := Function.update u.parent x (u.parent (u.parent x))
  size := u.size
  cap := u.cap
  pos := u.pos
  below := u.below
  climbs := by
    intro y hy
    by_cases hyx : y = x
    · subst hyx
      rw [Function.update_self] at hy ⊢
      by_cases h1 : u.parent y = y
      · rw [h1, h1] at hy
        exact absurd rfl hy
      · have h2 := u.climbs y h1
        by_cases h3 : u.parent (u.parent y) = u.parent y
        · rwa [h3]
        · exact Nat.lt_trans h2 (u.climbs _ h3)
    · rw [Function.update_of_ne hyx] at hy ⊢
      exact u.climbs y hy

@[simp] theorem halve_parent (u : UnionFind α) (x : α) :
    (u.halve x).parent = Function.update u.parent x (u.parent (u.parent x)) := rfl

/-- The loop of `find`. -/
def findLoop : Nat → UnionFind α → α → α × UnionFind α
  | 0, u, x => (x, u)
  | n + 1, u, x =>
      if u.parent x = x then (x, u)
      else findLoop n (u.halve x) (u.parent (u.parent x))

/-- The root of `x`, and the forest with the path to it halved. -/
def find (u : UnionFind α) (x : α) : α × UnionFind α := findLoop u.cap u x

/-- Hang the root `b` below the other root `a`, whose tree is no smaller. -/
def link (u : UnionFind α) (a b : α) (ha : u.parent a = a) (hne : a ≠ b)
    (hle : u.size b ≤ u.size a) : UnionFind α where
  parent := Function.update u.parent b a
  size := Function.update u.size a (u.size a + u.size b)
  cap := u.cap + u.cap
  pos := by
    intro x
    by_cases hx : x = a
    · rw [hx, Function.update_self]
      have := u.pos a
      omega
    · rw [Function.update_of_ne hx]
      exact u.pos x
  below := by
    intro x
    have hax := u.below a
    have hbx := u.below b
    have hxx := u.below x
    by_cases hx : x = a
    · rw [hx, Function.update_self]
      omega
    · rw [Function.update_of_ne hx]
      omega
  climbs := by
    intro x hx
    by_cases hxb : x = b
    · subst hxb
      rw [Function.update_self, Function.update_self, Function.update_of_ne (Ne.symm hne)]
      have := u.pos x
      omega
    · rw [Function.update_of_ne hxb] at hx ⊢
      have hxa : x ≠ a := fun h => hx (by rw [h, ha])
      have hlt := u.climbs x hx
      rw [Function.update_of_ne hxa]
      by_cases hpa : u.parent x = a
      · rw [hpa] at hlt ⊢
        rw [Function.update_self]
        omega
      · rwa [Function.update_of_ne hpa]

@[simp] theorem link_parent {u : UnionFind α} {a b : α} {ha : u.parent a = a} {hne : a ≠ b}
    {hle : u.size b ≤ u.size a} :
    (u.link a b ha hne hle).parent = Function.update u.parent b a := rfl

/-! ### The root of a node -/

/-- Climb `n` links, stopping at a root. -/
def climb (u : UnionFind α) : Nat → α → α
  | 0, x => x
  | n + 1, x => if u.parent x = x then x else climb u n (u.parent x)

def root (u : UnionFind α) (x : α) : α := climb u u.cap x

variable {u : UnionFind α}

private theorem climb_succ (n : Nat) (x : α) :
    climb u (n + 1) x = if u.parent x = x then x else climb u n (u.parent x) := rfl

private theorem parent_climb :
    ∀ n x, u.cap ≤ u.size x + n → u.parent (climb u n x) = climb u n x := by
  intro n
  induction n with
  | zero =>
      intro x hn
      have := u.below x
      omega
  | succ n ih =>
      intro x hn
      unfold climb
      by_cases h : u.parent x = x
      · rw [if_pos h]
        exact h
      · have hlt := u.climbs x h
        rw [if_neg h]
        exact ih _ (by omega)

private theorem climb_eq {f : α → α} (hroot : ∀ x, u.parent x = x → f x = x)
    (hparent : ∀ x, f (u.parent x) = f x) :
    ∀ n x, u.cap ≤ u.size x + n → climb u n x = f x := by
  intro n
  induction n with
  | zero =>
      intro x hn
      have := u.below x
      omega
  | succ n ih =>
      intro x hn
      unfold climb
      by_cases h : u.parent x = x
      · rw [if_pos h, hroot x h]
      · have hlt := u.climbs x h
        rw [if_neg h, ih _ (by omega), hparent]

theorem parent_root (x : α) : u.parent (u.root x) = u.root x :=
  parent_climb u.cap x (by omega)

/-- **A function that fixes the roots and is constant along links is `root`.** -/
theorem root_unique {f : α → α} (hroot : ∀ x, u.parent x = x → f x = x)
    (hparent : ∀ x, f (u.parent x) = f x) (x : α) : u.root x = f x :=
  climb_eq hroot hparent u.cap x (by omega)

theorem root_of_parent_eq {x : α} (h : u.parent x = x) : u.root x = x := by
  unfold root
  cases hc : u.cap with
  | zero => rfl
  | succ n =>
      unfold climb
      rw [if_pos h]

/-- One link more than enough changes nothing. -/
private theorem climb_more :
    ∀ n x, u.cap ≤ u.size x + n → climb u (n + 1) x = climb u n x := by
  intro n
  induction n with
  | zero =>
      intro x hn
      have := u.below x
      omega
  | succ n ih =>
      intro x hn
      rw [climb_succ (n + 1) x, climb_succ n x]
      by_cases h : u.parent x = x
      · rw [if_pos h, if_pos h]
      · have hlt := u.climbs x h
        rw [if_neg h, if_neg h, ih _ (by omega)]

theorem root_parent (x : α) : u.root (u.parent x) = u.root x := by
  by_cases h : u.parent x = x
  · rw [h]
  · have h1 : climb u (u.cap + 1) x = climb u u.cap (u.parent x) := by
      rw [climb_succ, if_neg h]
    unfold root
    rw [← h1, climb_more u.cap x (by omega)]

theorem root_root (x : α) : u.root (u.root x) = u.root x := root_of_parent_eq (parent_root x)

@[simp] theorem root_empty (x : α) : (empty : UnionFind α).root x = x :=
  root_of_parent_eq rfl

/-! ### What the operations do to the roots -/

theorem root_halve (x y : α) : (u.halve x).root y = u.root y := by
  refine root_unique ?_ ?_ y
  · intro z hz
    by_cases hzx : z = x
    · subst hzx
      rw [halve_parent, Function.update_self] at hz
      have h1 : u.root (u.parent (u.parent z)) = u.root z := by rw [root_parent, root_parent]
      by_cases h2 : u.parent z = z
      · exact root_of_parent_eq h2
      · -- `z` is its own grandparent, which sizes forbid
        have h3 := u.climbs z h2
        by_cases h4 : u.parent (u.parent z) = u.parent z
        · rw [h4] at hz
          exact absurd hz h2
        · have h5 := u.climbs _ h4
          rw [hz] at h5
          omega
    · rw [halve_parent, Function.update_of_ne hzx] at hz
      exact root_of_parent_eq hz
  · intro z
    rw [halve_parent]
    by_cases hzx : z = x
    · rw [hzx, Function.update_self, root_parent, root_parent]
    · rw [Function.update_of_ne hzx, root_parent]

private theorem findLoop_spec :
    ∀ n (u : UnionFind α) x, u.cap ≤ u.size x + n →
      (findLoop n u x).1 = u.root x ∧ ∀ y, (findLoop n u x).2.root y = u.root y := by
  intro n
  induction n with
  | zero =>
      intro u x hn
      have := u.below x
      omega
  | succ n ih =>
      intro u x hn
      unfold findLoop
      by_cases h : u.parent x = x
      · rw [if_pos h]
        exact ⟨(root_of_parent_eq h).symm, fun _ => rfl⟩
      · have h1 := u.climbs x h
        have h2 : u.size (u.parent x) ≤ u.size (u.parent (u.parent x)) := by
          by_cases h3 : u.parent (u.parent x) = u.parent x
          · exact Nat.le_of_eq (by rw [h3])
          · exact Nat.le_of_lt (u.climbs _ h3)
        have hsize : (u.halve x).size = u.size := rfl
        have hcap : (u.halve x).cap = u.cap := rfl
        obtain ⟨hfst, hsnd⟩ := ih (u.halve x) (u.parent (u.parent x)) (by rw [hsize, hcap]; omega)
        rw [if_neg h]
        refine ⟨?_, ?_⟩
        · rw [hfst, root_halve, root_parent, root_parent]
        · intro y
          rw [hsnd, root_halve]

/-- **`find` finds the root.** -/
theorem find_fst (u : UnionFind α) (x : α) : (u.find x).1 = u.root x :=
  (findLoop_spec u.cap u x (by omega)).1

theorem root_find (u : UnionFind α) (x y : α) : (u.find x).2.root y = u.root y :=
  (findLoop_spec u.cap u x (by omega)).2 y

theorem root_link {a b : α} {ha : u.parent a = a} {hne : a ≠ b} {hle : u.size b ≤ u.size a}
    (hb : u.parent b = b) (x : α) :
    (u.link a b ha hne hle).root x = if u.root x = b then a else u.root x := by
  refine root_unique (f := fun x => if u.root x = b then a else u.root x) ?_ ?_ x
  · intro y hy
    rw [link_parent] at hy
    by_cases hyb : y = b
    · subst hyb
      rw [Function.update_self] at hy
      exact absurd hy hne
    · rw [Function.update_of_ne hyb] at hy
      have hroot : u.root y = y := root_of_parent_eq hy
      show (if u.root y = b then a else u.root y) = y
      rw [hroot, if_neg hyb]
  · intro y
    show (if u.root (Function.update u.parent b a y) = b then a
      else u.root (Function.update u.parent b a y)) = if u.root y = b then a else u.root y
    by_cases hyb : y = b
    · subst hyb
      rw [Function.update_self, root_of_parent_eq ha, root_of_parent_eq hb, if_neg hne, if_pos rfl]
    · rw [Function.update_of_ne hyb, root_parent]

/-! ### Union -/

/-- Join the classes of `x` and `y`. -/
def union (u : UnionFind α) (x y : α) : UnionFind α :=
  let a := u.find x
  let b := a.2.find y
  if hne : a.1 = b.1 then b.2
  else
    have hroot : ∀ z, b.2.parent (u.root z) = u.root z := by
      intro z
      have h : b.2.root z = u.root z := by rw [root_find, root_find]
      rw [← h]
      exact parent_root z
    have ha : b.2.parent a.1 = a.1 := by
      rw [show a.1 = u.root x from find_fst u x]
      exact hroot x
    have hb : b.2.parent b.1 = b.1 := by
      rw [show b.1 = u.root y by rw [show b.1 = a.2.root y from find_fst a.2 y, root_find]]
      exact hroot y
    if hlt : b.2.size a.1 < b.2.size b.1 then
      b.2.link b.1 a.1 hb (Ne.symm hne) (Nat.le_of_lt hlt)
    else b.2.link a.1 b.1 ha hne (Nat.le_of_not_lt hlt)

/-- **What a union does**: the two roots become one, every other root stays. -/
theorem root_union (u : UnionFind α) (x y : α) :
    ∃ t, (t = u.root x ∨ t = u.root y) ∧
      ∀ z, (u.union x y).root z =
        if u.root z = u.root x ∨ u.root z = u.root y then t else u.root z := by
  have hfst : (u.find x).1 = u.root x := find_fst u x
  have hsnd : ((u.find x).2.find y).1 = u.root y := by rw [find_fst, root_find]
  have hroots : ∀ z, ((u.find x).2.find y).2.root z = u.root z := by
    intro z
    rw [root_find, root_find]
  have hparent : ∀ z, ((u.find x).2.find y).2.parent (u.root z) = u.root z := by
    intro z
    rw [← hroots z]
    exact parent_root z
  unfold union
  dsimp only
  by_cases hxy : u.root x = u.root y
  · rw [dif_pos (by rw [hfst, hsnd, hxy])]
    refine ⟨u.root x, Or.inl rfl, ?_⟩
    intro z
    rw [hroots]
    by_cases hz : u.root z = u.root x
    · rw [if_pos (Or.inl hz), hz]
    · rw [if_neg (by rw [← hxy]; simp [hz])]
  · rw [dif_neg (by rw [hfst, hsnd]; exact hxy)]
    split
    · refine ⟨u.root y, Or.inr rfl, ?_⟩
      intro z
      rw [root_link (by rw [hfst]; exact hparent x), hroots, hfst, hsnd]
      by_cases h1 : u.root z = u.root x
      · rw [if_pos h1, if_pos (Or.inl h1)]
      · by_cases h2 : u.root z = u.root y
        · rw [if_neg h1, if_pos (Or.inr h2), h2]
        · rw [if_neg h1, if_neg (by simp [h1, h2])]
    · refine ⟨u.root x, Or.inl rfl, ?_⟩
      intro z
      rw [root_link (by rw [hsnd]; exact hparent y), hroots, hfst, hsnd]
      by_cases h2 : u.root z = u.root y
      · rw [if_pos h2, if_pos (Or.inr h2)]
      · by_cases h1 : u.root z = u.root x
        · rw [if_neg h2, if_pos (Or.inl h1), h1]
        · rw [if_neg h2, if_neg (by simp [h1, h2])]

theorem root_union_self (u : UnionFind α) (x y : α) :
    (u.union x y).root x = (u.union x y).root y := by
  obtain ⟨t, -, h⟩ := root_union u x y
  rw [h x, h y, if_pos (Or.inl rfl), if_pos (Or.inr rfl)]

theorem root_union_mono {u : UnionFind α} {v w : α} (h : u.root v = u.root w) (x y : α) :
    (u.union x y).root v = (u.union x y).root w := by
  obtain ⟨t, -, hz⟩ := root_union u x y
  rw [hz v, hz w, h]

/-! ### Labels that agree along the forest -/

/-- Every node has the label of its root. -/
def Respects {κ : Type} (u : UnionFind α) (lab : α → κ) : Prop := ∀ x, lab (u.root x) = lab x

theorem respects_empty {κ : Type} (lab : α → κ) : (empty : UnionFind α).Respects lab := by
  intro x
  rw [root_empty]

/-- **A union of two nodes of one label respects the labels.** -/
theorem Respects.union {κ : Type} {lab : α → κ} (h : u.Respects lab) {x y : α}
    (hxy : lab x = lab y) : (u.union x y).Respects lab := by
  intro z
  obtain ⟨t, ht, hz⟩ := root_union u x y
  have hlab : lab t = lab x := by
    rcases ht with rfl | rfl
    · exact h x
    · rw [h y, hxy]
  rw [hz z]
  by_cases hc : u.root z = u.root x ∨ u.root z = u.root y
  · rw [if_pos hc, hlab]
    rcases hc with hc | hc
    · rw [← h z, hc, h x]
    · rw [← h z, hc, h y, hxy]
  · rw [if_neg hc]
    exact h z

theorem Respects.lab_eq {κ : Type} {lab : α → κ} (h : u.Respects lab) {x y : α}
    (hxy : u.root x = u.root y) : lab x = lab y := by
  rw [← h x, hxy, h y]

/-! ### What the forest spans -/

/-- Two nodes have one root exactly if a path of edges leads from one to the other. -/
def Spans (u : UnionFind α) (E : α → α → Prop) : Prop :=
  ∀ x y, u.root x = u.root y ↔ Relation.EqvGen E x y

variable {E : α → α → Prop}

theorem spans_empty : (empty : UnionFind α).Spans fun _ _ => False := by
  intro x y
  rw [root_empty, root_empty]
  constructor
  · rintro rfl
    exact .refl x
  · intro h
    show id x = id y
    exact lab_eq_of_eqvGen (fun _ _ h => h.elim) h

theorem Spans.find (h : u.Spans E) (x : α) : (u.find x).2.Spans E := by
  intro a b
  rw [root_find, root_find]
  exact h a b

/-- **A union adds one edge.** -/
theorem Spans.union (h : u.Spans E) (x y : α) :
    (u.union x y).Spans fun a b => E a b ∨ (a = x ∧ b = y) := by
  have hmono : ∀ {a b}, Relation.EqvGen E a b →
      Relation.EqvGen (fun a b => E a b ∨ (a = x ∧ b = y)) a b :=
    fun h => Relation.EqvGen.mono (fun _ _ => Or.inl) _ _ h
  have hedge : Relation.EqvGen (fun a b => E a b ∨ (a = x ∧ b = y)) x y := .rel _ _ (Or.inr ⟨rfl, rfl⟩)
  have hold : ∀ {a b}, u.root a = u.root b →
      Relation.EqvGen (fun a b => E a b ∨ (a = x ∧ b = y)) a b := fun hab => hmono ((h _ _).mp hab)
  obtain ⟨t, ht, hroot⟩ := root_union u x y
  -- a node whose class is one of the two is joined to both ends of the edge
  have hend : ∀ {a}, u.root a = u.root x ∨ u.root a = u.root y →
      Relation.EqvGen (fun a b => E a b ∨ (a = x ∧ b = y)) a x := by
    rintro a (ha | ha)
    · exact hold ha
    · exact .trans _ _ _ (hold ha) (.symm _ _ hedge)
  intro a b
  constructor
  · intro hab
    rw [hroot a, hroot b] at hab
    by_cases ha : u.root a = u.root x ∨ u.root a = u.root y
    · by_cases hb : u.root b = u.root x ∨ u.root b = u.root y
      · exact .trans _ _ _ (hend ha) (.symm _ _ (hend hb))
      · rw [if_pos ha, if_neg hb] at hab
        exact absurd (ht.imp hab.symm.trans hab.symm.trans) hb
    · by_cases hb : u.root b = u.root x ∨ u.root b = u.root y
      · rw [if_neg ha, if_pos hb] at hab
        exact absurd (ht.imp hab.trans hab.trans) ha
      · rw [if_neg ha, if_neg hb] at hab
        exact hold hab
  · refine lab_eq_of_eqvGen fun a b hab => ?_
    rcases hab with hab | ⟨rfl, rfl⟩
    · exact root_union_mono ((h a b).mpr (.rel _ _ hab)) x y
    · exact root_union_self u a b

/-- The forest with some more edges. -/
def joinAll (u : UnionFind α) (es : List (α × α)) : UnionFind α :=
  es.foldl (fun u e => u.union e.1 e.2) u

theorem Spans.congr {E' : α → α → Prop} (h : u.Spans E) (heq : ∀ a b, E a b ↔ E' a b) : u.Spans E' := by
  have hsame : E = E' := funext fun a => funext fun b => propext (heq a b)
  rwa [← hsame]

theorem Spans.joinAll (es : List (α × α)) :
    ∀ {u : UnionFind α} {E : α → α → Prop}, u.Spans E →
      (u.joinAll es).Spans fun a b => E a b ∨ (a, b) ∈ es := by
  induction es with
  | nil => exact fun h => h.congr fun a b => by simp
  | cons e rest ih =>
      intro u E h
      refine (ih (h.union e.1 e.2)).congr fun a b => ?_
      rw [List.mem_cons, Prod.ext_iff, or_assoc]

end UnionFind

end FlyMail
