/-
Words with quotes.

A text is cut at its blanks, but not at those between quotes.  The words come with their quotes, and an
empty word stands between any two blanks and at the ends.

`wordsFrom_eq_cons` cuts off one word, which is how a scanner that reads word after word goes;
`words_congr` says that only the characters of the text matter.
-/
import Mathlib.Init

namespace FlyMail.Quoted

variable {α : Type} {isQuote isBlank : α → Bool}

/-- The words of the rest, where `cur` has been read of the first one. -/
def wordsFrom (isQuote isBlank : α → Bool) : List α → Bool → List α → List (List α)
  | cur, _, [] => [cur]
  | cur, inQuote, c :: rest =>
      if isQuote c then wordsFrom isQuote isBlank (cur ++ [c]) (!inQuote) rest
      else if !inQuote && isBlank c then cur :: wordsFrom isQuote isBlank [] false rest
      else wordsFrom isQuote isBlank (cur ++ [c]) inQuote rest

def words (isQuote isBlank : α → Bool) (s : List α) : List (List α) := wordsFrom isQuote isBlank [] false s

/-- The first word of the rest and what comes after it, from its blank on. -/
def readWord (isQuote isBlank : α → Bool) : Bool → List α → List α × List α
  | _, [] => ([], [])
  | inQuote, c :: rest =>
      if isQuote c then
        let r := readWord isQuote isBlank (!inQuote) rest
        (c :: r.1, r.2)
      else if !inQuote && isBlank c then ([], c :: rest)
      else
        let r := readWord isQuote isBlank inQuote rest
        (c :: r.1, r.2)

theorem readWord_length (s : List α) : ∀ inQuote, (readWord isQuote isBlank inQuote s).2.length ≤ s.length := by
  induction s with
  | nil => exact fun _ => Nat.le_refl _
  | cons c rest ih =>
      intro inQuote
      unfold readWord
      split
      · exact Nat.le_succ_of_le (ih _)
      · split
        · exact Nat.le_refl _
        · exact Nat.le_succ_of_le (ih _)

/-- What comes after a word begins with a blank. -/
theorem readWord_blank {b : α} {after : List α} (s : List α) : ∀ inQuote,
    (readWord isQuote isBlank inQuote s).2 = b :: after → isQuote b = false ∧ isBlank b = true := by
  induction s with
  | nil => exact fun _ h => by cases h
  | cons c rest ih =>
      intro inQuote h
      unfold readWord at h
      split at h
      · exact ih _ h
      · rename_i hquote
        split at h
        · rename_i hblank
          obtain ⟨rfl, rfl⟩ := List.cons.inj h
          exact ⟨by simpa using hquote, by simp_all⟩
        · exact ih _ h

/-- **One word is cut off.**  What comes after it is nothing or begins with a blank. -/
theorem wordsFrom_eq_cons (s : List α) : ∀ cur inQuote,
    wordsFrom isQuote isBlank cur inQuote s =
      match readWord isQuote isBlank inQuote s with
      | (w, []) => [cur ++ w]
      | (w, _ :: rest) => (cur ++ w) :: words isQuote isBlank rest := by
  induction s with
  | nil => exact fun cur _ => by simp [wordsFrom, readWord]
  | cons c rest ih =>
      intro cur inQuote
      unfold wordsFrom readWord
      split
      · rw [ih]
        rcases readWord isQuote isBlank (!inQuote) rest with ⟨w, _ | ⟨b, after⟩⟩ <;> simp
      · split
        · simp [words]
        · rw [ih]
          rcases readWord isQuote isBlank inQuote rest with ⟨w, _ | ⟨b, after⟩⟩ <;> simp

/-- Two who know the same quotes and blanks among the characters of a text read the same words. -/
theorem wordsFrom_congr {isQuote' isBlank' : α → Bool} (s : List α)
    (h : ∀ c ∈ s, isQuote c = isQuote' c ∧ (isQuote c = false → isBlank c = isBlank' c)) : ∀ cur inQuote,
    wordsFrom isQuote isBlank cur inQuote s = wordsFrom isQuote' isBlank' cur inQuote s := by
  induction s with
  | nil => exact fun _ _ => rfl
  | cons c rest ih =>
      intro cur inQuote
      obtain ⟨hquote, hblank⟩ := h c List.mem_cons_self
      have hrest := ih fun d hd => h d (List.mem_cons_of_mem _ hd)
      unfold wordsFrom
      rw [← hquote]
      cases hc : isQuote c with
      | true => simp only [if_true, hrest]
      | false => simp only [Bool.false_eq_true, if_false, ← hblank hc, hrest]

theorem words_congr {isQuote' isBlank' : α → Bool} {s : List α}
    (h : ∀ c ∈ s, isQuote c = isQuote' c ∧ (isQuote c = false → isBlank c = isBlank' c)) :
    words isQuote isBlank s = words isQuote' isBlank' s :=
  wordsFrom_congr s h [] false

/-- The characters of a word are characters of the text. -/
theorem mem_of_mem_words {w s : List α} {c : α} (hw : w ∈ words isQuote isBlank s) (hc : c ∈ w) : c ∈ s := by
  have hgen : ∀ (s cur : List α) (inQuote : Bool), w ∈ wordsFrom isQuote isBlank cur inQuote s → c ∈ cur ∨ c ∈ s := by
    intro s
    induction s with
    | nil =>
        intro cur _ h
        rw [wordsFrom, List.mem_singleton] at h
        exact Or.inl (h ▸ hc)
    | cons d rest ih =>
        have hstep : ∀ cur inQuote, w ∈ wordsFrom isQuote isBlank (cur ++ [d]) inQuote rest →
            c ∈ cur ∨ c ∈ d :: rest := by
          intro cur inQuote h
          rcases ih _ _ h with h | h
          · rcases List.mem_append.mp h with h | h
            · exact Or.inl h
            · exact Or.inr (List.mem_cons.mpr (Or.inl (List.mem_singleton.mp h)))
          · exact Or.inr (List.mem_cons_of_mem _ h)
        intro cur inQuote h
        unfold wordsFrom at h
        split at h
        · exact hstep _ _ h
        · split at h
          · rcases List.mem_cons.mp h with h | h
            · exact Or.inl (h ▸ hc)
            · rcases ih _ _ h with h | h
              · cases h
              · exact Or.inr (List.mem_cons_of_mem _ h)
          · exact hstep _ _ h
  rcases hgen s [] false hw with h | h
  · cases h
  · exact h

end FlyMail.Quoted
