/-
SQL patterns.

`%` stands for any text and `_` for any character; behind the escape character every character stands for itself.
Letters are compared by a key, so that small and capital ones can be taken for the same.

A pattern is read piece by piece: what a `%` in front, and what a text with its special characters escaped in
front, asks of the text it is matched with.  A text escaped between two `%` is looked for as it is.
-/
import FlyMail.Lib.Text
import Mathlib.Data.List.Infix

namespace FlyMail.Like

variable {κ : Type} [DecidableEq κ] (key : Char → κ) (escape : Char)

/-- Some end of the text is one that is asked for. -/
def anywhere (p : Text → Bool) : Text → Bool
  | [] => p []
  | d :: s => p (d :: s) || anywhere p s

/-- The text begins with a character that is asked for, and goes on as asked for. -/
def begins (c : Char → Bool) (p : Text → Bool) : Text → Bool
  | [] => false
  | d :: s => c d && p s

/-- The text is as the pattern says; `escaped` is that the escape character has just been read. -/
def accepts : Bool → Text → Text → Bool
  | false, [] => fun s => s == []
  | true, [] => fun _ => false
  | true, c :: p => begins (fun d => key c == key d) (accepts false p)
  | false, c :: p =>
      if c = '%' then anywhere (accepts false p)
      else if c = escape then accepts true p
      else begins (fun d => c == '_' || key c == key d) (accepts false p)

/-- `s LIKE p ESCAPE escape`. -/
def matches_ (p s : Text) : Bool := accepts key escape false p s

/-- The text with its special characters escaped. -/
def quote (q : Text) : Text :=
  q.flatMap fun c => if c = '%' ∨ c = '_' ∨ c = escape then [escape, c] else [c]

/-- The pattern that looks for a text as it is. -/
def containing (q : Text) : Text := '%' :: (quote escape q ++ ['%'])

variable {key escape}

theorem anywhere_iff {p : Text → Bool} {s : Text} : anywhere p s = true ↔ ∃ a b, s = a ++ b ∧ p b = true := by
  induction s with
  | nil => simp [anywhere]
  | cons d s ih =>
      rw [anywhere, Bool.or_eq_true, ih]
      refine ⟨fun h => ?_, fun h => ?_⟩
      · rcases h with h | ⟨a, b, rfl, h⟩
        · exact ⟨[], d :: s, rfl, h⟩
        · exact ⟨d :: a, b, rfl, h⟩
      · obtain ⟨a, b, hs, h⟩ := h
        cases a with
        | nil => exact .inl (by simpa [hs] using h)
        | cons e a =>
            obtain ⟨rfl, rfl⟩ := List.cons.inj hs
            exact .inr ⟨a, b, rfl, h⟩

theorem begins_iff {c : Char → Bool} {p : Text → Bool} {s : Text} :
    begins c p s = true ↔ ∃ d t, s = d :: t ∧ c d = true ∧ p t = true := by
  cases s with
  | nil => simp [begins]
  | cons d t => simp [begins]

/-- A `%` in front stands for any beginning. -/
theorem matches_percent {p s : Text} :
    matches_ key escape ('%' :: p) s = true ↔ ∃ a b, s = a ++ b ∧ matches_ key escape p b = true := by
  simp only [matches_, accepts, if_true, anywhere_iff]

/-- A character that is quoted stands for itself. -/
theorem matches_quoted (hescape : escape ≠ '%') {c : Char} {p s : Text} :
    matches_ key escape ((if c = '%' ∨ c = '_' ∨ c = escape then [escape, c] else [c]) ++ p) s = true ↔
      ∃ d t, s = d :: t ∧ key c = key d ∧ matches_ key escape p t = true := by
  by_cases hc : c = '%' ∨ c = '_' ∨ c = escape
  · simp [hc, matches_, accepts, hescape, begins_iff]
  · have hne := not_or.mp hc
    simp only [not_or] at hne
    simp [hne, matches_, accepts, begins_iff]

/-- A quoted text in front stands for itself. -/
theorem matches_quote (hescape : escape ≠ '%') {q p : Text} : ∀ {s : Text},
    matches_ key escape (quote escape q ++ p) s = true ↔
      ∃ m t, s = m ++ t ∧ m.map key = q.map key ∧ matches_ key escape p t = true := by
  induction q with
  | nil =>
      intro s
      refine ⟨fun h => ⟨[], s, rfl, rfl, h⟩, fun h => ?_⟩
      obtain ⟨m, t, hs, hm, h⟩ := h
      obtain rfl := List.map_eq_nil_iff.mp hm
      exact hs ▸ h
  | cons c q ih =>
      intro s
      rw [quote, List.flatMap_cons, List.append_assoc, matches_quoted hescape]
      refine ⟨fun h => ?_, fun h => ?_⟩
      · obtain ⟨d, t, hs, hd, h⟩ := h
        obtain ⟨m, u, rfl, hm, hu⟩ := ih.mp h
        exact ⟨d :: m, u, hs, by rw [List.map_cons, List.map_cons, hd, hm], hu⟩
      · obtain ⟨m, t, hs, hm, h⟩ := h
        cases m with
        | nil => cases hm
        | cons d m =>
            obtain ⟨hd, hm⟩ := List.cons.inj hm
            exact ⟨d, m ++ t, hs, hd.symm, ih.mpr ⟨m, t, rfl, hm, h⟩⟩

/-- **A text is found as it is**, whatever characters are in it. -/
theorem matches_containing (hescape : escape ≠ '%') {q s : Text} :
    matches_ key escape (containing escape q) s = true ↔ q.map key <:+: s.map key := by
  rw [containing, matches_percent]
  refine ⟨fun h => ?_, fun h => ?_⟩
  · obtain ⟨a, b, hs, h⟩ := h
    obtain ⟨m, t, rfl, hm, -⟩ := (matches_quote hescape).mp h
    exact ⟨a.map key, t.map key, by rw [hs, ← hm]; simp⟩
  · obtain ⟨u, w, h⟩ := h
    obtain ⟨am, t, rfl, ham, rfl⟩ := List.map_eq_append_iff.mp h.symm
    obtain ⟨a, m, rfl, rfl, hm⟩ := List.map_eq_append_iff.mp ham
    refine ⟨a, m ++ t, by simp, (matches_quote hescape).mpr ⟨m, t, rfl, hm, ?_⟩⟩
    exact matches_percent.mpr ⟨t, [], by simp, by simp [matches_, accepts]⟩

end FlyMail.Like
