/-
Patterns, and rewriting what they match.

A pattern is a regular expression without nested repetition: what is repeated is a class of
characters.  Its matches at the beginning of a text are listed in the order in which a
backtracking matcher would try them, so the first of the list is the match that counts.

A text is scanned from left to right: at each place either the pattern matches, and the
scan goes on behind the match, or one character is kept.  `scan` does not ask for a text
but for cells that show a character each, so that a rewriting can be followed on cells that
carry more than their character.  `scan_induction` is the rule for proofs about it.
-/
import FlyMail.Lib.Text
import Mathlib.Data.List.Chain
import Mathlib.Data.List.Forall2

namespace FlyMail

inductive Pattern
  | empty
  | char (p : Char → Bool)
  | seq (a b : Pattern)
  /-- `a` or, failing that, `b`. -/
  | alt (a b : Pattern)
  /-- As many characters of the class as possible. -/
  | many (p : Char → Bool)
  /-- As few characters of the class as possible. -/
  | few (p : Char → Bool)
  /-- The text ends here, or goes on with a character that is not of the class. -/
  | stop (p : Char → Bool)
  /-- What `a` takes is remembered under the number. -/
  | group (n : Nat) (a : Pattern)

/-- A match at the beginning of a text. -/
structure Match where
  taken : Text
  rest : Text
  groups : List (Nat × Text)
  deriving DecidableEq, Repr

/-- What was remembered under the number, nothing if nothing was. -/
def Match.group (m : Match) (n : Nat) : Text :=
  match m.groups.find? fun g => g.1 == n with
  | some g => g.2
  | none => []

namespace Pattern

/-- The beginnings of the text with characters of the class only, longest first. -/
def runs (p : Char → Bool) : Text → List Match
  | [] => [⟨[], [], []⟩]
  | c :: rest =>
      if p c then
        (runs p rest).map (fun m => { m with taken := c :: m.taken }) ++ [⟨[], c :: rest, []⟩]
      else [⟨[], c :: rest, []⟩]

/-- The ways to match the beginning of the text, the preferred ones first. -/
def tries : Pattern → Text → List Match
  | .empty, t => [⟨[], t, []⟩]
  | .char _, [] => []
  | .char p, c :: rest => if p c then [⟨[c], rest, []⟩] else []
  | .seq a b, t =>
      (a.tries t).flatMap fun m => (b.tries m.rest).map fun m' =>
        ⟨m.taken ++ m'.taken, m'.rest, m.groups ++ m'.groups⟩
  | .alt a b, t => a.tries t ++ b.tries t
  | .many p, t => runs p t
  | .few p, t => (runs p t).reverse
  | .stop _, [] => [⟨[], [], []⟩]
  | .stop p, c :: rest => if p c then [] else [⟨[], c :: rest, []⟩]
  | .group n a, t => (a.tries t).map fun m => { m with groups := m.groups ++ [(n, m.taken)] }

/-- The match at the beginning of the text, unless it takes nothing. -/
def first (p : Pattern) (t : Text) : Option Match :=
  (p.tries t).head?.filter fun m => m.taken != []

def opt (a : Pattern) : Pattern := .alt a .empty

/-- One pattern after another. -/
def seqs : List Pattern → Pattern
  | [] => .empty
  | [a] => a
  | a :: b :: rest => .seq a (seqs (b :: rest))

/-! ### Characters and words -/

def notChar (c x : Char) : Bool := x != c

/-- The two characters differ in case at most. `c` is an ASCII character, lower case if it
is a letter. -/
def sameFold (c x : Char) : Bool :=
  x == c || ('a' ≤ c && c ≤ 'z' && x.toNat + 32 == c.toNat) ||
    (c == 's' && x == 'ſ') || (c == 'k' && x.toNat == 0x212A)

/-- The word in any letter case. -/
def word (s : String) : Pattern := seqs (s.toList.map fun c => .char (sameFold c))

def one (c : Char) : Pattern := .char fun x => x == c

/-- `\s` -/
def isBlank (c : Char) : Bool := c == ' ' || c == '\t' || c == '\n' || c.toNat == 12 || c == '\r'

/-- `\w` -/
def isWord (c : Char) : Bool :=
  ('0' ≤ c && c ≤ '9') || ('a' ≤ c && c ≤ 'z') || ('A' ≤ c && c ≤ 'Z') || c == '_'

/-! ### A match is a beginning of the text -/

theorem runs_split {p : Char → Bool} {t : Text} :
    ∀ m ∈ runs p t, m.taken ++ m.rest = t := by
  induction t with
  | nil =>
      intro m hm
      obtain rfl := List.mem_singleton.mp hm
      rfl
  | cons c rest ih =>
      intro m hm
      unfold runs at hm
      by_cases hp : p c = true
      · rw [if_pos hp, List.mem_append, List.mem_singleton] at hm
        rcases hm with hm | rfl
        · obtain ⟨m', hm', rfl⟩ := List.mem_map.mp hm
          show c :: (m'.taken ++ m'.rest) = c :: rest
          rw [ih m' hm']
        · rfl
      · rw [if_neg hp, List.mem_singleton] at hm
        rw [hm]
        rfl

theorem tries_split (p : Pattern) : ∀ {t : Text}, ∀ m ∈ p.tries t, m.taken ++ m.rest = t := by
  induction p with
  | empty =>
      intro t m hm
      obtain rfl := List.mem_singleton.mp hm
      rfl
  | char q =>
      intro t m hm
      cases t with
      | nil => cases hm
      | cons c rest =>
          unfold tries at hm
          by_cases hq : q c = true
          · rw [if_pos hq] at hm
            obtain rfl := List.mem_singleton.mp hm
            rfl
          · rw [if_neg hq] at hm
            cases hm
  | seq a b iha ihb =>
      intro t m hm
      obtain ⟨m₁, hm₁, hm⟩ := List.mem_flatMap.mp hm
      obtain ⟨m₂, hm₂, rfl⟩ := List.mem_map.mp hm
      show m₁.taken ++ m₂.taken ++ m₂.rest = t
      rw [List.append_assoc, ihb m₂ hm₂, iha m₁ hm₁]
  | alt a b iha ihb =>
      intro t m hm
      exact (List.mem_append.mp hm).elim (iha m) (ihb m)
  | many q =>
      intro t m hm
      exact runs_split m hm
  | few q =>
      intro t m hm
      exact runs_split m (List.mem_reverse.mp hm)
  | stop q =>
      intro t m hm
      cases t with
      | nil =>
          obtain rfl := List.mem_singleton.mp hm
          rfl
      | cons c rest =>
          unfold tries at hm
          by_cases hq : q c = true
          · rw [if_pos hq] at hm
            cases hm
          · rw [if_neg hq] at hm
            obtain rfl := List.mem_singleton.mp hm
            rfl
  | group n a iha =>
      intro t m hm
      obtain ⟨m', hm', rfl⟩ := List.mem_map.mp hm
      exact iha m' hm'

theorem first_eq_some {p : Pattern} {t : Text} {m : Match} (h : p.first t = some m) :
    m ∈ p.tries t ∧ m.taken ≠ [] := by
  obtain ⟨hhead, htaken⟩ := Option.filter_eq_some_iff.mp h
  exact ⟨List.mem_of_mem_head? hhead, by simpa using htaken⟩

/-! ### Patterns that take something -/

/-- Whatever it matches, the pattern takes at least one character. -/
def solid : Pattern → Bool
  | .char _ => true
  | .seq a b => a.solid || b.solid
  | .alt a b => a.solid && b.solid
  | .group _ a => a.solid
  | _ => false

theorem taken_ne_nil {p : Pattern} : ∀ {t : Text}, p.solid = true → ∀ m ∈ p.tries t,
    m.taken ≠ [] := by
  induction p with
  | char q =>
      intro t _ m hm
      cases t with
      | nil => cases hm
      | cons c rest =>
          unfold tries at hm
          by_cases hq : q c = true
          · rw [if_pos hq] at hm
            obtain rfl := List.mem_singleton.mp hm
            exact List.cons_ne_nil c []
          · rw [if_neg hq] at hm
            cases hm
  | seq a b iha ihb =>
      intro t hsolid m hm
      obtain ⟨m₁, hm₁, hm⟩ := List.mem_flatMap.mp hm
      obtain ⟨m₂, hm₂, rfl⟩ := List.mem_map.mp hm
      rcases Bool.or_eq_true _ _ |>.mp hsolid with ha | hb
      · exact List.append_ne_nil_of_left_ne_nil (iha ha m₁ hm₁) _
      · exact List.append_ne_nil_of_right_ne_nil _ (ihb hb m₂ hm₂)
  | alt a b iha ihb =>
      intro t hsolid m hm
      obtain ⟨ha, hb⟩ := Bool.and_eq_true _ _ |>.mp hsolid
      exact (List.mem_append.mp hm).elim (iha ha m) (ihb hb m)
  | group n a iha =>
      intro t hsolid m hm
      obtain ⟨m', hm', rfl⟩ := List.mem_map.mp hm
      exact iha hsolid m' hm'
  | empty | many | few | stop => intro t hsolid; cases hsolid

theorem first_isSome {p : Pattern} {t : Text} {m : Match} (hsolid : p.solid = true)
    (hm : m ∈ p.tries t) : (p.first t).isSome = true := by
  unfold first
  cases htries : p.tries t with
  | nil =>
      rw [htries] at hm
      cases hm
  | cons m' rest =>
      have htaken := taken_ne_nil hsolid m' (by rw [htries]; exact List.mem_cons_self)
      simp [htaken]

/-- Before a match of `[class]* b` there can be one character more of the class. -/
theorem tries_many_cons {q : Char → Bool} {b : Pattern} {t : Text} {c : Char} {m : Match}
    (hc : q c = true) (hm : m ∈ (seq (.many q) b).tries t) :
    ∃ m' ∈ (seq (.many q) b).tries (c :: t), m'.taken = c :: m.taken := by
  obtain ⟨m₁, hm₁, hm⟩ := List.mem_flatMap.mp hm
  obtain ⟨m₂, hm₂, rfl⟩ := List.mem_map.mp hm
  refine ⟨⟨c :: (m₁.taken ++ m₂.taken), m₂.rest, m₁.groups ++ m₂.groups⟩, ?_, rfl⟩
  refine List.mem_flatMap.mpr ⟨{ m₁ with taken := c :: m₁.taken }, ?_, ?_⟩
  · show _ ∈ runs q (c :: t)
    rw [runs, if_pos hc]
    exact List.mem_append_left _ (List.mem_map_of_mem hm₁)
  · exact List.mem_map.mpr ⟨m₂, hm₂, rfl⟩

/-! ### Matches that there are -/

/-- The pattern can match the beginning of the text so that this is left. -/
def Leaves (p : Pattern) (t rest : Text) : Prop := ∃ m ∈ p.tries t, m.rest = rest

theorem Leaves.seq {a b : Pattern} {t u v : Text} (ha : a.Leaves t u) (hb : b.Leaves u v) :
    (Pattern.seq a b).Leaves t v := by
  obtain ⟨m, hm, rfl⟩ := ha
  obtain ⟨m', hm', rfl⟩ := hb
  exact ⟨_, List.mem_flatMap.mpr ⟨m, hm, List.mem_map.mpr ⟨m', hm', rfl⟩⟩, rfl⟩

theorem Leaves.opt (a : Pattern) (t : Text) : (Pattern.opt a).Leaves t t :=
  ⟨⟨[], t, []⟩, List.mem_append_right _ (List.mem_singleton.mpr rfl), rfl⟩

theorem Leaves.group {n : Nat} {a : Pattern} {t u : Text} (h : a.Leaves t u) :
    (Pattern.group n a).Leaves t u := by
  obtain ⟨m, hm, rfl⟩ := h
  exact ⟨_, List.mem_map.mpr ⟨m, hm, rfl⟩, rfl⟩

theorem Leaves.char {q : Char → Bool} {c : Char} (h : q c = true) (t : Text) :
    (Pattern.char q).Leaves (c :: t) t := by
  refine ⟨⟨[c], t, []⟩, ?_, rfl⟩
  rw [tries, if_pos h]
  exact List.mem_singleton.mpr rfl

theorem Leaves.few {q : Char → Bool} {w t : Text} (h : (Pattern.many q).Leaves (w ++ t) t) :
    (Pattern.few q).Leaves (w ++ t) t := by
  obtain ⟨m, hm, hrest⟩ := h
  exact ⟨m, List.mem_reverse.mpr hm, hrest⟩

theorem Leaves.many {q : Char → Bool} {w : Text} (h : ∀ c ∈ w, q c = true) (t : Text) :
    (Pattern.many q).Leaves (w ++ t) t := by
  have hruns : ∃ m ∈ runs q (w ++ t), m.rest = t := by
    induction w with
    | nil =>
        cases t with
        | nil => exact ⟨_, List.mem_singleton.mpr rfl, rfl⟩
        | cons c rest =>
            refine ⟨⟨[], c :: rest, []⟩, ?_, rfl⟩
            rw [List.nil_append, runs]
            split
            · exact List.mem_append_right _ (List.mem_singleton.mpr rfl)
            · exact List.mem_singleton.mpr rfl
    | cons c w ih =>
        obtain ⟨m, hm, hrest⟩ := ih fun c hc => h c (List.mem_cons_of_mem _ hc)
        refine ⟨{ m with taken := c :: m.taken }, ?_, hrest⟩
        rw [List.cons_append, runs, if_pos (h c List.mem_cons_self)]
        exact List.mem_append_left _ (List.mem_map_of_mem hm)
  exact hruns

theorem Leaves.chars {qs : List (Char → Bool)} (hne : qs ≠ []) {w : Text}
    (h : List.Forall₂ (fun q c => q c = true) qs w) (t : Text) :
    (seqs (qs.map .char)).Leaves (w ++ t) t := by
  induction h with
  | nil => exact absurd rfl hne
  | @cons q c qs w hq hrest ih =>
      cases qs with
      | nil =>
          cases hrest
          exact Leaves.char hq t
      | cons q' qs => exact (Leaves.char hq (w ++ t)).seq (ih (List.cons_ne_nil q' qs))

theorem Leaves.word {s : String} (hne : s.toList ≠ []) {w : Text}
    (h : List.Forall₂ (fun c x => sameFold c x = true) s.toList w) (t : Text) :
    (Pattern.word s).Leaves (w ++ t) t := by
  have hchars := @Leaves.chars (s.toList.map sameFold) (by simpa using hne) w
    (List.forall₂_map_left_iff.mpr h) t
  rwa [List.map_map] at hchars

/-! ### What a match is made of -/

theorem mem_tries_char {q : Char → Bool} {t : Text} {m : Match} (h : m ∈ (Pattern.char q).tries t) :
    ∃ c rest, q c = true ∧ m = ⟨[c], rest, []⟩ := by
  cases t with
  | nil => cases h
  | cons c rest =>
      unfold tries at h
      by_cases hq : q c = true
      · rw [if_pos hq] at h
        exact ⟨c, rest, hq, List.mem_singleton.mp h⟩
      · rw [if_neg hq] at h
        cases h

theorem mem_tries_one {c : Char} {t : Text} {m : Match} (h : m ∈ (one c).tries t) :
    m.taken = [c] ∧ m.groups = [] := by
  obtain ⟨c', rest, hc, rfl⟩ := mem_tries_char h
  obtain rfl : c' = c := by simpa using hc
  exact ⟨rfl, rfl⟩

theorem mem_tries_seq {a b : Pattern} {t : Text} {m : Match} (h : m ∈ (Pattern.seq a b).tries t) :
    ∃ m₁ ∈ a.tries t, ∃ m₂ ∈ b.tries m₁.rest, m.taken = m₁.taken ++ m₂.taken ∧
      m.groups = m₁.groups ++ m₂.groups := by
  obtain ⟨m₁, hm₁, h⟩ := List.mem_flatMap.mp h
  obtain ⟨m₂, hm₂, rfl⟩ := List.mem_map.mp h
  exact ⟨m₁, hm₁, m₂, hm₂, rfl, rfl⟩

theorem mem_tries_group {n : Nat} {a : Pattern} {t : Text} {m : Match}
    (h : m ∈ (Pattern.group n a).tries t) :
    ∃ m₁ ∈ a.tries t, m.taken = m₁.taken ∧ m.groups = m₁.groups ++ [(n, m₁.taken)] := by
  obtain ⟨m₁, hm₁, rfl⟩ := List.mem_map.mp h
  exact ⟨m₁, hm₁, rfl, rfl⟩

theorem mem_tries_chars {qs : List (Char → Bool)} : ∀ {t : Text} {m : Match}, m ∈ (seqs (qs.map .char)).tries t →
    List.Forall₂ (fun q c => q c = true) qs m.taken ∧ m.groups = [] := by
  induction qs with
  | nil =>
      intro t m h
      obtain rfl := List.mem_singleton.mp h
      exact ⟨.nil, rfl⟩
  | cons q qs ih =>
      intro t m h
      cases qs with
      | nil =>
          obtain ⟨c, rest, hq, rfl⟩ := mem_tries_char h
          exact ⟨.cons hq .nil, rfl⟩
      | cons q' qs =>
          obtain ⟨m₁, hm₁, m₂, hm₂, htaken, hgroups⟩ := mem_tries_seq h
          obtain ⟨c, rest, hq, rfl⟩ := mem_tries_char hm₁
          obtain ⟨hrest, hnone⟩ := ih hm₂
          rw [htaken, hgroups, hnone]
          exact ⟨.cons hq hrest, rfl⟩

theorem mem_tries_word {s : String} {t : Text} {m : Match} (h : m ∈ (word s).tries t) :
    List.Forall₂ (fun c x => sameFold c x = true) s.toList m.taken ∧ m.groups = [] := by
  have hchars : m ∈ (seqs ((s.toList.map sameFold).map .char)).tries t := by
    rw [List.map_map]
    exact h
  obtain ⟨htaken, hgroups⟩ := mem_tries_chars hchars
  exact ⟨List.forall₂_map_left_iff.mp htaken, hgroups⟩

/-- What is repeated takes characters of its class. -/
theorem mem_runs {q : Char → Bool} {t : Text} : ∀ m ∈ runs q t, (∀ c ∈ m.taken, q c = true) ∧ m.groups = [] := by
  induction t with
  | nil =>
      intro m hm
      obtain rfl := List.mem_singleton.mp hm
      exact ⟨fun c hc => absurd hc List.not_mem_nil, rfl⟩
  | cons c rest ih =>
      intro m hm
      unfold runs at hm
      by_cases hq : q c = true
      · rw [if_pos hq, List.mem_append, List.mem_singleton] at hm
        rcases hm with hm | rfl
        · obtain ⟨m', hm', rfl⟩ := List.mem_map.mp hm
          obtain ⟨hall, hgroups⟩ := ih m' hm'
          refine ⟨fun d hd => ?_, hgroups⟩
          rcases List.mem_cons.mp hd with rfl | hd
          · exact hq
          · exact hall d hd
        · exact ⟨fun c hc => absurd hc List.not_mem_nil, rfl⟩
      · rw [if_neg hq, List.mem_singleton] at hm
        rw [hm]
        exact ⟨fun c hc => absurd hc List.not_mem_nil, rfl⟩

/-! ### The match that counts -/

/-- What the pattern takes at the beginning of the text, if it is asked once. -/
def Takes (p : Pattern) (t : Text) (m : Match) : Prop := (p.tries t).head? = some m

theorem Takes.first {p : Pattern} {t : Text} {m : Match} (h : p.Takes t m) (hne : m.taken ≠ []) :
    p.first t = some m := by
  unfold Pattern.first
  rw [h]
  exact Option.filter_eq_some_iff.mpr ⟨rfl, by simpa using hne⟩

theorem Takes.char {q : Char → Bool} {c : Char} (h : q c = true) (t : Text) :
    (Pattern.char q).Takes (c :: t) ⟨[c], t, []⟩ := by
  unfold Takes
  rw [tries, if_pos h]
  rfl

theorem Takes.seq {a b : Pattern} {t : Text} {m m' : Match} (ha : a.Takes t m) (hb : b.Takes m.rest m') :
    (Pattern.seq a b).Takes t ⟨m.taken ++ m'.taken, m'.rest, m.groups ++ m'.groups⟩ := by
  obtain ⟨others, hothers⟩ := List.head?_eq_some_iff.mp ha
  obtain ⟨others', hothers'⟩ := List.head?_eq_some_iff.mp hb
  unfold Takes
  rw [tries, hothers, List.flatMap_cons, hothers']
  rfl

theorem Takes.group {n : Nat} {a : Pattern} {t : Text} {m : Match} (h : a.Takes t m) :
    (Pattern.group n a).Takes t { m with groups := m.groups ++ [(n, m.taken)] } := by
  unfold Takes
  rw [tries, List.head?_map, h]
  rfl

/-- All characters of the class in front of one that is not of it. -/
theorem Takes.many {q : Char → Bool} {w : Text} (hw : ∀ c ∈ w, q c = true) {c : Char} (hc : q c = false)
    (t : Text) : (Pattern.many q).Takes (w ++ c :: t) ⟨w, c :: t, []⟩ := by
  show (runs q (w ++ c :: t)).head? = _
  induction w with
  | nil =>
      rw [List.nil_append, runs, if_neg (by simp [hc])]
      rfl
  | cons d w ih =>
      have hrest := ih fun x hx => hw x (List.mem_cons_of_mem _ hx)
      rw [List.cons_append, runs, if_pos (hw d List.mem_cons_self), List.head?_append, List.head?_map, hrest]
      rfl

/-! ### Scanning -/

variable {α β : Type}

/-- A piece of what is scanned: a cell that is kept, or the cells of a match. -/
inductive Piece (α : Type)
  | kept (a : α)
  | hit (cells : List α) (m : Match)

def Piece.map (f : α → β) : Piece α → Piece β
  | .kept a => .kept (f a)
  | .hit cells m => .hit (cells.map f) m

/-- The pieces of the cells, the first `n` of which are passed over. -/
def scan (p : Pattern) (view : α → Char) : Nat → List α → List (Piece α)
  | _, [] => []
  | n + 1, _ :: rest => scan p view n rest
  | 0, a :: rest =>
      match p.first ((a :: rest).map view) with
      | some m =>
          .hit ((a :: rest).take m.taken.length) m :: scan p view (m.taken.length - 1) rest
      | none => .kept a :: scan p view 0 rest

/-- The cells with every match rewritten. -/
def rewrite (p : Pattern) (view : α → Char) (f : List α → Match → List α) (t : List α) : List α :=
  (p.scan view 0 t).flatMap fun
    | .kept a => [a]
    | .hit cells m => f cells m

/-- The matches in a text, from left to right. -/
def findAll (p : Pattern) (t : Text) : List Match :=
  (p.scan id 0 t).filterMap fun
    | .kept _ => none
    | .hit _ m => some m

/-- The text with every match replaced. -/
def replaceAll (p : Pattern) (f : Match → Text) (t : Text) : Text := p.rewrite id (fun _ => f) t

/-- What `f` gathers from the matches, from left to right. -/
def gather (p : Pattern) (view : α → Char) (f : List α → Match → List β) (t : List α) : List β :=
  (p.scan view 0 t).flatMap fun
    | .kept _ => []
    | .hit cells m => f cells m

theorem scan_drop (p : Pattern) (view : α → Char) (t : List α) :
    ∀ n, p.scan view n t = p.scan view 0 (t.drop n) := by
  induction t with
  | nil =>
      intro n
      cases n <;> rfl
  | cons a rest ih =>
      intro n
      cases n with
      | zero => rfl
      | succ n =>
          rw [scan, List.drop_succ_cons]
          exact ih n

/-- **The rule for scans**: what holds of nothing, and is passed on by a cell that is kept
and by a match, holds of every scan. -/
theorem scan_induction {p : Pattern} {view : α → Char}
    {P : List α → List (Piece α) → Prop} (nil : P [] [])
    (kept : ∀ a rest, p.first ((a :: rest).map view) = none → P rest (p.scan view 0 rest) →
      P (a :: rest) (.kept a :: p.scan view 0 rest))
    (hit : ∀ cells m rest, p.first ((cells ++ rest).map view) = some m →
      m.taken = cells.map view → P rest (p.scan view 0 rest) →
      P (cells ++ rest) (.hit cells m :: p.scan view 0 rest)) :
    ∀ n t, t.length ≤ n → P t (p.scan view 0 t) := by
  intro n
  induction n with
  | zero =>
      intro t ht
      obtain rfl := List.length_eq_zero_iff.mp (Nat.le_zero.mp ht)
      exact nil
  | succ n ih =>
      intro t ht
      cases t with
      | nil => exact nil
      | cons a rest =>
          rw [List.length_cons] at ht
          rw [scan]
          cases hfirst : p.first ((a :: rest).map view) with
          | none => exact kept a rest hfirst (ih rest (by omega))
          | some m =>
              obtain ⟨hmem, hne⟩ := first_eq_some hfirst
              have hlen := List.length_pos_iff.mpr hne
              have hsplit := tries_split p m hmem
              have htaken : m.taken = ((a :: rest).take m.taken.length).map view := by
                rw [List.map_take, ← hsplit, List.take_left]
              have hdrop : rest.drop (m.taken.length - 1) = (a :: rest).drop m.taken.length := by
                rw [← List.drop_succ_cons (a := a), Nat.sub_add_cancel hlen]
              have hrest := ih ((a :: rest).drop m.taken.length)
                (by rw [List.length_drop, List.length_cons]; omega)
              have hwhole := hit _ m _ (by rwa [List.take_append_drop]) htaken hrest
              rw [List.take_append_drop] at hwhole
              dsimp only
              rw [scan_drop p view rest, hdrop]
              exact hwhole

/-- The same, for all cells. -/
theorem scan_rule {p : Pattern} {view : α → Char}
    {P : List α → List (Piece α) → Prop} (nil : P [] [])
    (kept : ∀ a rest, p.first ((a :: rest).map view) = none → P rest (p.scan view 0 rest) →
      P (a :: rest) (.kept a :: p.scan view 0 rest))
    (hit : ∀ cells m rest, p.first ((cells ++ rest).map view) = some m →
      m.taken = cells.map view → P rest (p.scan view 0 rest) →
      P (cells ++ rest) (.hit cells m :: p.scan view 0 rest)) (t : List α) :
    P t (p.scan view 0 t) :=
  scan_induction nil kept hit t.length t (Nat.le_refl _)

/-- Scanning looks at nothing but what the cells show. -/
theorem scan_map {p : Pattern} {view : β → Char} (f : α → β) (t : List α) :
    ∀ n, p.scan view n (t.map f) = (p.scan (fun a => view (f a)) n t).map (Piece.map f) := by
  induction t with
  | nil =>
      intro n
      cases n <;> rfl
  | cons a rest ih =>
      intro n
      cases n with
      | succ n => exact ih n
      | zero =>
          have hview : (f a :: rest.map f).map view = (a :: rest).map fun a => view (f a) := by
            rw [List.map_cons, List.map_map, List.map_cons]
            rfl
          rw [List.map_cons, scan, scan, hview]
          cases p.first ((a :: rest).map fun a => view (f a)) with
          | none =>
              show _ :: _ = _ :: _
              rw [ih 0]
              rfl
          | some m =>
              show _ :: _ = _ :: _
              rw [ih (m.taken.length - 1), Piece.map, List.map_take, List.map_cons]

/-- What holds of a match where it is found holds of every match of a scan. -/
theorem forall_hit {p : Pattern} {view : α → Char} {P : List α → Match → Prop}
    (h : ∀ cells m rest, p.first ((cells ++ rest).map view) = some m →
      m.taken = cells.map view → P cells m) {t cells : List α} {m : Match}
    (hmem : .hit cells m ∈ p.scan view 0 t) : P cells m := by
  refine scan_rule (P := fun _ pieces => .hit cells m ∈ pieces → P cells m) ?_ ?_ ?_ t hmem
  · intro hmem
    cases hmem
  · intro a rest _ ih hmem
    exact ih ((List.mem_cons.mp hmem).resolve_left fun heq => by cases heq)
  · intro cells' m' rest hfirst htaken ih hmem
    rcases List.mem_cons.mp hmem with heq | hmem
    · cases heq
      exact h _ _ _ hfirst htaken
    · exact ih hmem

/-- The cells of a match show what it takes. -/
theorem taken_of_hit {p : Pattern} {view : α → Char} {t cells : List α} {m : Match}
    (h : .hit cells m ∈ p.scan view 0 t) : m.taken = cells.map view :=
  forall_hit (P := fun cells m => m.taken = cells.map view) (fun _ _ _ _ htaken => htaken) h

theorem ne_nil_of_hit {p : Pattern} {view : α → Char} {t cells : List α} {m : Match}
    (h : .hit cells m ∈ p.scan view 0 t) : cells ≠ [] := by
  refine forall_hit (P := fun cells _ => cells ≠ []) ?_ h
  rintro _ m rest hfirst htaken rfl
  exact (first_eq_some hfirst).2 htaken

/-- **A rewriting can be followed** on cells that carry more than their character. -/
theorem rewrite_map {p : Pattern} {view : β → Char} {f : α → β}
    {g : List α → Match → List α} {g' : List β → Match → List β}
    (hg : ∀ cells m, m.taken = cells.map (fun a => view (f a)) →
      (g cells m).map f = g' (cells.map f) m) (t : List α) :
    (p.rewrite (fun a => view (f a)) g t).map f = p.rewrite view g' (t.map f) := by
  unfold rewrite
  rw [scan_map, List.map_flatMap, List.flatMap_map]
  refine List.flatMap_congr fun piece hpiece => ?_
  cases piece with
  | kept a => rfl
  | hit cells m => exact hg cells m (taken_of_hit hpiece)

/-- What is there after a rewriting was there before, or was put in. -/
theorem forall_mem_rewrite {p : Pattern} {view : α → Char} {f : List α → Match → List α}
    {P : α → Prop} (hf : ∀ cells m, (∀ a ∈ cells, P a) → ∀ a ∈ f cells m, P a) {t : List α}
    (h : ∀ a ∈ t, P a) : ∀ a ∈ p.rewrite view f t, P a := by
  refine scan_rule (P := fun t pieces => (∀ a ∈ t, P a) → ∀ a ∈ pieces.flatMap (fun
    | .kept a => [a]
    | .hit cells m => f cells m), P a) ?_ ?_ ?_ t h
  · intro _ a ha
    cases ha
  · intro a rest _ ih hall b hb
    rcases List.mem_cons.mp hb with rfl | hb
    · exact hall b List.mem_cons_self
    · exact ih (fun c hc => hall c (List.mem_cons_of_mem _ hc)) b hb
  · intro cells m rest _ _ ih hall b hb
    rcases List.mem_append.mp hb with hb | hb
    · exact hf cells m (fun c hc => hall c (List.mem_append_left _ hc)) b hb
    · exact ih (fun c hc => hall c (List.mem_append_right _ hc)) b hb

/-- Where every match is kept as it is, everything is. -/
theorem rewrite_self {p : Pattern} {view : α → Char} {f : List α → Match → List α}
    (hf : ∀ cells m, m.taken = cells.map view → f cells m = cells) (t : List α) :
    p.rewrite view f t = t := by
  refine scan_rule (P := fun t pieces => pieces.flatMap (fun
    | .kept a => [a]
    | .hit cells m => f cells m) = t) rfl ?_ ?_ t
  · intro a rest _ ih
    rw [List.flatMap_cons, ih]
    rfl
  · intro cells m rest _ htaken ih
    rw [List.flatMap_cons, ih]
    exact congrArg (· ++ rest) (hf cells m htaken)

/-- What is left when matches are taken out stood in the text in this order. -/
theorem sublist_rewrite {p : Pattern} {view : α → Char} {f : List α → Match → List α}
    (hf : ∀ cells m, (f cells m).Sublist cells) (t : List α) : (p.rewrite view f t).Sublist t := by
  refine scan_rule (P := fun t pieces => (pieces.flatMap fun
    | .kept a => [a]
    | .hit cells m => f cells m).Sublist t) (List.Sublist.refl []) ?_ ?_ t
  · intro a rest _ ih
    exact ih.cons_cons a
  · intro cells m rest _ _ ih
    exact (hf cells m).append ih

theorem findAll_cons {p : Pattern} {c : Char} {t : Text} (h : p.first (c :: t) = none) :
    p.findAll (c :: t) = p.findAll t := by
  unfold findAll
  rw [scan, List.map_id, h]
  rfl

/-- The match at the beginning is the first one that is found. -/
theorem findAll_append {p : Pattern} {w t : Text} {m : Match} (h : p.first (w ++ t) = some m)
    (htaken : m.taken = w) : p.findAll (w ++ t) = m :: p.findAll t := by
  have hne := (first_eq_some h).2
  rw [htaken] at hne
  obtain ⟨c, w', rfl⟩ := List.exists_cons_of_ne_nil hne
  have hdrop : (w' ++ t).drop (m.taken.length - 1) = t := by
    rw [htaken, List.length_cons, Nat.add_sub_cancel, List.drop_left]
  unfold findAll
  rw [List.cons_append] at h ⊢
  rw [scan, List.map_id, h]
  dsimp only
  rw [scan_drop, hdrop]
  rfl

/-- Where nothing is found, the pattern matches nowhere. -/
theorem first_eq_none_of_findAll {p : Pattern} {t : Text} (h : p.findAll t = []) :
    ∀ before c rest, t = before ++ c :: rest → p.first (c :: rest) = none := by
  unfold findAll at h
  refine @scan_rule Char p id (fun t pieces => (pieces.filterMap fun
    | .kept _ => none
    | .hit _ m => some m) = [] → ∀ before c rest, t = before ++ c :: rest →
      p.first (c :: rest) = none) ?_ ?_ ?_ t h
  · intro _ before c rest heq
    exact absurd heq (List.append_ne_nil_of_right_ne_nil _ (List.cons_ne_nil c rest)).symm
  · intro a rest hnone ih hempty before c rest' heq
    cases before with
    | nil =>
        obtain ⟨rfl, rfl⟩ := List.cons.inj heq
        rwa [List.map_id] at hnone
    | cons b before => exact ih hempty before c rest' (List.cons.inj heq).2
  · intro cells m rest _ _ _ hempty
    cases hempty

/-- The matches in what the cells show. -/
theorem findAll_map {p : Pattern} {view : α → Char} (t : List α) :
    p.findAll (t.map view) = (p.scan view 0 t).filterMap fun
      | .kept _ => none
      | .hit _ m => some m := by
  unfold findAll
  rw [@scan_map α Char p id view t 0, List.filterMap_map]
  refine List.filterMap_congr fun piece _ => ?_
  cases piece with
  | kept a => rfl
  | hit cells m => rfl

/-- Where nothing is found, nothing is rewritten. -/
theorem rewrite_of_findAll {p : Pattern} {view : α → Char} {f : List α → Match → List α}
    {t : List α} (h : p.findAll (t.map view) = []) : p.rewrite view f t = t := by
  rw [findAll_map] at h
  refine scan_rule (P := fun t pieces => (pieces.filterMap fun
    | .kept _ => none
    | .hit _ m => some m) = [] → (pieces.flatMap fun
    | .kept a => [a]
    | .hit cells m => f cells m) = t) ?_ ?_ ?_ t h
  · exact fun _ => rfl
  · intro a rest _ ih hempty
    rw [List.flatMap_cons, ih hempty]
    rfl
  · intro cells m rest _ _ _ hempty
    cases hempty

/-- Where every match is replaced by something shorter, only a text without matches stays as it is. -/
theorem findAll_of_rewrite {p : Pattern} {view : α → Char} {f : List α → Match → List α}
    (hf : ∀ cells m, p.first (cells.map view ++ m.rest) = some m → m.taken = cells.map view →
      (f cells m).length < cells.length) {t : List α} (h : p.rewrite view f t = t) :
    p.findAll (t.map view) = [] := by
  rw [findAll_map]
  have hlength : (p.rewrite view f t).length ≤ t.length ∧ ((p.rewrite view f t).length = t.length →
      (p.scan view 0 t).filterMap (fun
        | .kept _ => none
        | .hit _ m => some m) = []) := by
    refine scan_rule (P := fun t pieces => (pieces.flatMap fun
      | .kept a => [a]
      | .hit cells m => f cells m).length ≤ t.length ∧ ((pieces.flatMap fun
      | .kept a => [a]
      | .hit cells m => f cells m).length = t.length → (pieces.filterMap fun
      | .kept _ => none
      | .hit _ m => some m) = [])) ⟨Nat.le_refl _, fun _ => rfl⟩ ?_ ?_ t
    · intro a rest _ ih
      obtain ⟨hle, heq⟩ := ih
      refine ⟨by simpa using hle, fun hlen => ?_⟩
      exact heq (by simpa using hlen)
    · intro cells m rest hfirst htaken ih
      have hsplit := tries_split p m (first_eq_some hfirst).1
      rw [htaken, List.map_append, List.append_cancel_left_eq] at hsplit
      rw [List.map_append, ← hsplit] at hfirst
      have hlt := hf cells m hfirst htaken
      rw [List.flatMap_cons, List.length_append, List.length_append]
      refine ⟨Nat.add_le_add hlt.le ih.1, fun hlen => ?_⟩
      have hle := ih.1
      exact absurd hlen (by dsimp only; omega)
  exact hlength.2 (congrArg List.length h)

/-! ### Gathering -/

theorem length_gather {p : Pattern} {view : α → Char} {f : List α → Match → List β}
    {count : Match → Nat}
    (hf : ∀ cells m, cells ≠ [] → m.taken = cells.map view → (f cells m).length = count m)
    (t : List α) :
    (p.gather view f t).length = ((p.findAll (t.map view)).map count).sum := by
  have hpieces : ∀ pieces : List (Piece α),
      (∀ cells m, .hit cells m ∈ pieces → (f cells m).length = count m) →
      (pieces.flatMap fun
        | .kept _ => []
        | .hit cells m => f cells m).length
        = ((pieces.filterMap fun
            | .kept _ => none
            | .hit _ m => some m).map count).sum := by
    intro pieces
    induction pieces with
    | nil => exact fun _ => rfl
    | cons piece rest ih =>
        intro hall
        have hrest := ih fun cells m hmem => hall cells m (List.mem_cons_of_mem _ hmem)
        rw [List.flatMap_cons, List.length_append, hrest]
        cases piece with
        | kept a => exact Nat.zero_add _
        | hit cells m =>
            simp only [List.filterMap_cons, List.map_cons, List.sum_cons]
            rw [hall cells m List.mem_cons_self]
  rw [findAll_map]
  exact hpieces _ fun cells m hmem => hf cells m (ne_nil_of_hit hmem) (taken_of_hit hmem)

/-- What is gathered stands in the text in this order, if it does in each match. -/
theorem sublist_gather {p : Pattern} {view : α → Char} {f : List α → Match → List β} {g : α → β}
    (hf : ∀ cells m, cells ≠ [] → (f cells m).Sublist (cells.map g)) (t : List α) :
    (p.gather view f t).Sublist (t.map g) := by
  refine scan_rule (P := fun t pieces => (pieces.flatMap fun
    | .kept _ => []
    | .hit cells m => f cells m).Sublist (t.map g)) (List.Sublist.refl []) ?_ ?_ t
  · intro a rest _ ih
    exact ih.cons (g a)
  · intro cells m rest hfirst htaken ih
    rw [List.map_append]
    refine (hf cells m ?_).append ih
    rintro rfl
    exact (first_eq_some hfirst).2 htaken

/-! ### Cells in a row -/

/-- Where every match is kept or replaced by cells that go with any neighbour, cells that
went together still do. -/
theorem isChain_rewrite {p : Pattern} {view : α → Char} {R : α → α → Prop}
    {f : List α → Match → List α}
    (hf : ∀ cells m, f cells m = cells ∨ (f cells m).IsChain R ∧ f cells m ≠ [] ∧
      (∀ a, ∀ b ∈ (f cells m).head?, R a b) ∧ ∀ a ∈ (f cells m).getLast?, ∀ b, R a b)
    {t : List α} (h : t.IsChain R) : (p.rewrite view f t).IsChain R := by
  have hall : ∀ before, (before ++ t).IsChain R → (before ++ p.rewrite view f t).IsChain R := by
    refine scan_rule (P := fun t pieces => ∀ before, (before ++ t).IsChain R →
      (before ++ pieces.flatMap fun
        | .kept a => [a]
        | .hit cells m => f cells m).IsChain R) ?_ ?_ ?_ t
    · intro before hchain
      exact hchain
    · intro a rest _ ih before hchain
      rw [List.append_cons] at hchain
      rw [List.flatMap_cons, ← List.append_assoc]
      exact ih _ hchain
    · intro cells m rest _ _ ih before hchain
      rw [← List.append_assoc] at hchain
      rw [List.flatMap_cons]
      rcases hf cells m with hkept | ⟨hchainNew, hne, hbefore, hafter⟩
      · dsimp only
        rw [hkept, ← List.append_assoc]
        exact ih _ hchain
      · have hleft := (List.isChain_append.mp hchain).1
        have hrest := ih [] (by rw [List.nil_append]; exact (List.isChain_append.mp hchain).2.1)
        rw [List.nil_append] at hrest
        refine List.isChain_append.mpr ⟨(List.isChain_append.mp hleft).1, ?_, ?_⟩
        · refine List.isChain_append.mpr ⟨hchainNew, hrest, ?_⟩
          intro a ha b _
          exact hafter a ha b
        · intro a _ b hb
          rw [List.head?_append_of_ne_nil _ hne] at hb
          exact hbefore a b hb
  exact hall [] h

/-- Where matches are left out and a match never begins behind a cell that is not free, the
cells that are left go together if a free cell goes with any neighbour. -/
theorem isChain_drop {p : Pattern} {view : α → Char} {R : α → α → Prop} {free : α → Prop}
    (hfree : ∀ a, free a → ∀ b, R a b)
    (hearlier : ∀ a rest, ¬ free a → (p.first (rest.map view)).isSome = true →
      (p.first ((a :: rest).map view)).isSome = true)
    {t : List α} (h : t.IsChain R) : (p.rewrite view (fun _ _ => []) t).IsChain R := by
  have hall : ∀ before, (before ++ t).IsChain R →
      (∀ a ∈ before.getLast?, free a ∨ p.first ((a :: t).map view) = none) →
      (before ++ p.rewrite view (fun _ _ => []) t).IsChain R := by
    refine scan_rule (P := fun t pieces => ∀ before, (before ++ t).IsChain R →
      (∀ a ∈ before.getLast?, free a ∨ p.first ((a :: t).map view) = none) →
      (before ++ pieces.flatMap fun
        | .kept a => [a]
        | .hit _ _ => []).IsChain R) ?_ ?_ ?_ t
    · intro before hchain _
      exact hchain
    · intro a rest hnone ih before hchain _
      rw [List.append_cons] at hchain
      rw [List.flatMap_cons, ← List.append_assoc]
      refine ih _ hchain fun b hb => Or.inr ?_
      rw [List.getLast?_concat] at hb
      rw [← Option.some.inj hb]
      exact hnone
    · intro cells m rest hfirst _ ih before hchain hbefore
      -- the match does not begin behind a cell that is not free: it would have begun earlier
      have hlast : ∀ a ∈ before.getLast?, free a := by
        intro a ha
        by_contra hnot
        have hsome := hearlier a (cells ++ rest) hnot (by rw [hfirst]; rfl)
        rw [(hbefore a ha).resolve_left hnot] at hsome
        cases hsome
      rw [List.flatMap_cons, List.nil_append]
      refine ih before ?_ fun a ha => Or.inl (hlast a ha)
      have hright := (List.isChain_append.mp hchain).2.1
      refine List.isChain_append.mpr
        ⟨(List.isChain_append.mp hchain).1, (List.isChain_append.mp hright).2.1, ?_⟩
      intro a ha b _
      exact hfree a (hlast a ha) b
  exact hall [] h fun a ha => by cases ha

end Pattern

end FlyMail
