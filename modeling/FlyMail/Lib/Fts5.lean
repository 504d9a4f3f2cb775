/-
SQLite's full-text index.

A text is indexed by its tokens, in order.  The tokenizer `unicode61` takes a token from a
letter or a digit on, as far as letters, digits and diacritics go, and folds its characters;
everything else is a separator.  What counts as which is a parameter beyond ASCII.

A phrase of a query is cut into tokens in the same way, and matches where its tokens stand
side by side; of a prefix phrase the last token need only be the beginning of one.  Phrases
one after another must all match, phrases without tokens aside.
-/
import FlyMail.Lib.Text

namespace FlyMail.Fts5

/-! ### Tokens -/

structure Unicode61 where
  isAlnum : Char → Bool
  isDiacritic : Char → Bool
  /-- Lower case, without diacritics; nothing is left of a diacritic. -/
  fold : Char → Option Char
  alnum_ascii : ∀ c, c.toNat < 0x80 → isAlnum c = c.isAlphanum
  diacritic_ascii : ∀ c, c.toNat < 0x80 → isDiacritic c = false

namespace Unicode61

variable (u : Unicode61)

/-- The tokens of the rest of a text, where `cur` has been read of a token. -/
def tokensFrom : Option Text → Text → List Text
  | cur, [] => cur.toList
  | none, c :: rest =>
      if u.isAlnum c then tokensFrom (some (u.fold c).toList) rest else tokensFrom none rest
  | some cur, c :: rest =>
      if u.isAlnum c || u.isDiacritic c then tokensFrom (some (cur ++ (u.fold c).toList)) rest
      else cur :: tokensFrom none rest

def tokens (t : Text) : List Text := u.tokensFrom none t

def isSeparator (c : Char) : Bool := !u.isAlnum c && !u.isDiacritic c

variable {u}

theorem separator_space : u.isSeparator ' ' = true := by
  unfold isSeparator
  rw [u.alnum_ascii ' ' (by decide), u.diacritic_ascii ' ' (by decide)]
  rfl

theorem tokensFrom_separator {c : Char} (h : u.isSeparator c = true) (cur : Option Text) (t : Text) :
    u.tokensFrom cur (c :: t) = cur.toList ++ u.tokens t := by
  obtain ⟨halnum, hdia⟩ := Bool.and_eq_true _ _ |>.mp h
  rw [Bool.not_eq_true'] at halnum hdia
  cases cur with
  | none => simp [tokensFrom, halnum, tokens]
  | some cur => simp [tokensFrom, halnum, hdia, tokens]

/-- **A separator parts the text.** -/
theorem tokensFrom_append {c : Char} (h : u.isSeparator c = true) (s t : Text) :
    ∀ cur, u.tokensFrom cur (s ++ c :: t) = u.tokensFrom cur s ++ u.tokens t := by
  induction s with
  | nil =>
      intro cur
      cases cur with
      | none => exact tokensFrom_separator h none t
      | some cur => exact tokensFrom_separator h (some cur) t
  | cons d rest ih =>
      intro cur
      rw [List.cons_append]
      cases cur with
      | none =>
          rw [tokensFrom, tokensFrom]
          split
          · exact ih _
          · exact ih none
      | some cur =>
          rw [tokensFrom, tokensFrom]
          split
          · exact ih _
          · rw [ih none]
            rfl

theorem tokens_append {c : Char} (h : u.isSeparator c = true) (s t : Text) :
    u.tokens (s ++ c :: t) = u.tokens s ++ u.tokens t :=
  tokensFrom_append h s t none

theorem tokensFrom_some_ne_nil (t : Text) : ∀ cur, u.tokensFrom (some cur) t ≠ [] := by
  induction t with
  | nil => exact fun cur => List.cons_ne_nil cur []
  | cons c rest ih =>
      intro cur
      rw [tokensFrom]
      split
      · exact ih _
      · exact List.cons_ne_nil _ _

/-- A text has a token if it has a letter or a digit. -/
theorem tokens_eq_nil_iff {t : Text} : u.tokens t = [] ↔ ∀ c ∈ t, u.isAlnum c = false := by
  unfold tokens
  induction t with
  | nil => simp [tokensFrom]
  | cons c rest ih =>
      rw [tokensFrom, List.forall_mem_cons, ← ih]
      by_cases halnum : u.isAlnum c = true
      · rw [if_pos halnum, halnum]
        exact ⟨fun h => absurd h (tokensFrom_some_ne_nil rest _), fun h => absurd h.1 (by decide)⟩
      · rw [if_neg halnum]
        exact ⟨fun h => ⟨Bool.eq_false_iff.mpr halnum, h⟩, fun h => h.2⟩

/-! ### Words -/

variable (u)

/-- The words of the rest of a text, as they are written. -/
def wordsFrom : Option Text → Text → List Text
  | cur, [] => cur.toList
  | none, c :: rest =>
      if u.isAlnum c then wordsFrom (some [c]) rest else wordsFrom none rest
  | some cur, c :: rest =>
      if u.isAlnum c || u.isDiacritic c then wordsFrom (some (cur ++ [c])) rest
      else cur :: wordsFrom none rest

def words (t : Text) : List Text := u.wordsFrom none t

def folded (w : Text) : Text := w.filterMap u.fold

variable {u}

theorem folded_concat (w : Text) (c : Char) : u.folded (w ++ [c]) = u.folded w ++ (u.fold c).toList := by
  unfold folded
  rw [List.filterMap_append]
  cases h : u.fold c <;> simp [h]

theorem tokensFrom_eq_map (t : Text) : ∀ cur,
    u.tokensFrom (cur.map u.folded) t = (u.wordsFrom cur t).map u.folded := by
  induction t with
  | nil => exact fun cur => by cases cur <;> rfl
  | cons c rest ih =>
      intro cur
      cases cur with
      | none =>
          have hnext := ih (some [c])
          rw [Option.map_some, ← List.nil_append [c], folded_concat] at hnext
          rw [Option.map_none, tokensFrom, wordsFrom]
          split
          · exact hnext
          · exact ih none
      | some cur =>
          rw [Option.map_some, tokensFrom, wordsFrom]
          split
          · rw [← folded_concat]
            exact ih (some (cur ++ [c]))
          · rw [List.map_cons, ← ih none, Option.map_none]

/-- The tokens are the words, folded. -/
theorem tokens_eq_map (t : Text) : u.tokens t = (u.words t).map u.folded := tokensFrom_eq_map t none

/-- A word begins with a letter or a digit and goes on as far as letters, digits and diacritics. -/
def IsWord (u : Unicode61) (w : Text) : Prop :=
  (∀ c ∈ w.head?, u.isAlnum c = true) ∧ w ≠ [] ∧ ∀ c ∈ w, u.isSeparator c = false

theorem not_isSeparator {c : Char} :
    u.isSeparator c = false ↔ (u.isAlnum c || u.isDiacritic c) = true := by
  unfold isSeparator
  cases u.isAlnum c <;> cases u.isDiacritic c <;> decide

theorem isWord_of_mem (t : Text) : ∀ cur, (∀ w ∈ cur, u.IsWord w) → ∀ w ∈ u.wordsFrom cur t, u.IsWord w := by
  induction t with
  | nil => exact fun cur h w hw => h w (Option.mem_toList.mp hw)
  | cons c rest ih =>
      intro cur h w hw
      cases cur with
      | none =>
          rw [wordsFrom] at hw
          split at hw
          · rename_i halnum
            refine ih (some [c]) (fun v hv => ?_) w hw
            obtain rfl := Option.some.inj hv
            refine ⟨by simpa using halnum, List.cons_ne_nil _ _, ?_⟩
            simp [not_isSeparator, halnum]
          · exact ih none (fun v hv => by cases hv) w hw
      | some cur =>
          obtain ⟨hhead, hne, hall⟩ := h cur rfl
          rw [wordsFrom] at hw
          split at hw
          · rename_i hgoes
            refine ih (some (cur ++ [c])) (fun v hv => ?_) w hw
            obtain rfl := Option.some.inj hv
            refine ⟨?_, List.append_ne_nil_of_left_ne_nil hne _, fun d hd => ?_⟩
            · obtain ⟨d, more, rfl⟩ := List.exists_cons_of_ne_nil hne
              exact hhead
            · rcases List.mem_append.mp hd with hd | hd
              · exact hall d hd
              · rw [List.mem_singleton.mp hd]
                exact not_isSeparator.mpr hgoes
          · rcases List.mem_cons.mp hw with rfl | hw
            · exact h w rfl
            · exact ih none (fun v hv => by cases hv) w hw

theorem mem_of_mem_wordsFrom (t : Text) : ∀ cur, ∀ w ∈ u.wordsFrom cur t, ∀ c ∈ w,
    c ∈ cur.getD [] ∨ c ∈ t := by
  induction t with
  | nil =>
      intro cur w hw c hc
      obtain rfl := Option.mem_toList.mp hw
      exact Or.inl hc
  | cons d rest ih =>
      intro cur w hw c hc
      cases cur with
      | none =>
          rw [wordsFrom] at hw
          split at hw
          · simpa [or_assoc] using ih (some [d]) w hw c hc
          · simpa using Or.inr (ih none w hw c hc)
      | some cur =>
          rw [wordsFrom] at hw
          split at hw
          · simpa [or_assoc] using ih (some (cur ++ [d])) w hw c hc
          · rcases List.mem_cons.mp hw with rfl | hw
            · exact Or.inl hc
            · have hrest := ih none w hw c hc
              rw [Option.getD_none] at hrest
              exact Or.inr (List.mem_cons_of_mem _ (hrest.resolve_left List.not_mem_nil))

theorem mem_of_mem_words {t w : Text} (h : w ∈ u.words t) {c : Char} (hc : c ∈ w) : c ∈ t :=
  (mem_of_mem_wordsFrom t none w h c hc).resolve_left List.not_mem_nil

theorem wordsFrom_alnum (s : Text) : ∀ cur, (∀ c ∈ s, u.isAlnum c = true) →
    u.wordsFrom (some cur) s = [cur ++ s] := by
  induction s with
  | nil => exact fun cur _ => by rw [wordsFrom, List.append_nil]; rfl
  | cons c rest ih =>
      intro cur h
      rw [wordsFrom, h c List.mem_cons_self, Bool.true_or, if_pos rfl,
        ih _ fun d hd => h d (List.mem_cons_of_mem _ hd), List.append_assoc]
      rfl

theorem tokens_alnum {s : Text} (hne : s ≠ []) (h : ∀ c ∈ s, u.isAlnum c = true) :
    u.tokens s = [u.folded s] := by
  obtain ⟨c, rest, rfl⟩ := List.exists_cons_of_ne_nil hne
  rw [tokens_eq_map, words, wordsFrom, if_pos (h c List.mem_cons_self),
    wordsFrom_alnum rest [c] fun d hd => h d (List.mem_cons_of_mem _ hd)]
  rfl

theorem isWord_of_mem_words {t w : Text} (h : w ∈ u.words t) : u.IsWord w :=
  isWord_of_mem t none (fun v hv => by cases hv) w h

end Unicode61

/-! ### Phrases -/

structure Phrase where
  text : Text
  isPrefix : Bool
  deriving DecidableEq, Repr

/-- The words stand side by side at the beginning; the last one may go on if the phrase is a
prefix. -/
def startsWith (isPrefix : Bool) : List Text → List Text → Bool
  | [], _ => true
  | _ :: _, [] => false
  | [w], v :: _ => if isPrefix then w.isPrefixOf v else w == v
  | w :: w' :: ws, v :: vs => w == v && startsWith isPrefix (w' :: ws) vs

/-- The words stand side by side. -/
def standsIn (isPrefix : Bool) (words : List Text) : List Text → Bool
  | [] => startsWith isPrefix words []
  | v :: vs => startsWith isPrefix words (v :: vs) || standsIn isPrefix words vs

/-- The phrase matches a text with these tokens. -/
def Phrase.matches (u : Unicode61) (p : Phrase) (index : List Text) : Bool :=
  standsIn p.isPrefix (u.tokens p.text) index

/-- Phrases one after another. -/
def matchesAll (u : Unicode61) (phrases : List Phrase) (index : List Text) : Bool :=
  let phrases := phrases.filter fun p => u.tokens p.text != []
  phrases != [] && phrases.all fun p => p.matches u index

theorem startsWith_false (words : List Text) : ∀ index,
    startsWith false words index = true ↔ words <+: index := by
  induction words with
  | nil => exact fun index => by simp [startsWith]
  | cons w rest ih =>
      intro index
      cases index with
      | nil => simp [startsWith]
      | cons v vs =>
          cases rest with
          | nil => simp [startsWith, List.cons_prefix_cons]
          | cons w' ws => simp [startsWith, List.cons_prefix_cons, ih]

theorem standsIn_false (words : List Text) (index : List Text) :
    standsIn false words index = true ↔ words <:+: index := by
  induction index with
  | nil =>
      rw [standsIn, startsWith_false, List.infix_nil, List.prefix_nil]
  | cons v vs ih =>
      rw [standsIn, Bool.or_eq_true, startsWith_false, ih, List.infix_cons_iff]

/-- A phrase that matches as it is matches as a prefix. -/
theorem startsWith_of_false (words : List Text) : ∀ index,
    startsWith false words index = true → ∀ isPrefix, startsWith isPrefix words index = true := by
  induction words with
  | nil => exact fun _ _ _ => by simp [startsWith]
  | cons w rest ih =>
      intro index h isPrefix
      cases index with
      | nil => cases rest <;> cases h
      | cons v vs =>
          cases rest with
          | nil =>
              have heq : w = v := by simpa [startsWith] using h
              simp [startsWith, heq]
          | cons w' ws =>
              rw [startsWith, Bool.and_eq_true] at h ⊢
              exact ⟨h.1, ih vs h.2 isPrefix⟩

theorem standsIn_of_infix {words index : List Text} (h : words <:+: index) (isPrefix : Bool) :
    standsIn isPrefix words index = true := by
  rw [← standsIn_false] at h
  induction index with
  | nil => exact startsWith_of_false words [] h isPrefix
  | cons v vs ih =>
      rw [standsIn, Bool.or_eq_true] at h ⊢
      exact h.imp (fun h => startsWith_of_false words _ h isPrefix) ih

end FlyMail.Fts5
