/-
Which words find the text they are taken from.

A query is cut into words by the platform's letters and digits, the index by those of the
tokenizer, whose diacritics are part of a word as well.  What stands in a text is found by
itself if the two agree on it; where they do not, the query asks for pieces that the index does
not have.  `Alike` says how far they may differ: the words of which nothing is left in the
query may only stand at the two ends, and the others may only lose marks behind their last
letter.

The proof compares two lists over the words of the text: the pieces that are left of each, and
the words themselves.  The first stands within the second just where the words between the ends
are their own only pieces (`exists_own`).
-/
import FlyMail.Proofs.Bigrams

namespace FlyMail.Message.Fts

open Fts5 Fts5.Unicode61

/-! ### Lists of pieces -/

section Pieces

variable {ω τ : Type} {f : ω → List τ} {g : ω → τ}

/-- If every word has a piece, the pieces are the words only word by word. -/
theorem pieces_eq_map (own : List ω) (hpiece : ∀ v ∈ own, f v ≠ []) : ∀ before after,
    before ++ own.flatMap f ++ after = own.map g →
      before = [] ∧ after = [] ∧ ∀ v ∈ own, f v = [g v] := by
  induction own with
  | nil =>
      intro before after h
      have hnil : before = [] ∧ after = [] := by simpa using h
      exact ⟨hnil.1, hnil.2, fun v hv => (List.not_mem_nil hv).elim⟩
  | cons v rest ih =>
      intro before after h
      have ih := ih fun w hw => hpiece w (List.mem_cons_of_mem _ hw)
      obtain ⟨x, more, hv⟩ := List.exists_cons_of_ne_nil (hpiece v List.mem_cons_self)
      rw [List.flatMap_cons, hv, List.map_cons] at h
      cases before with
      | nil =>
          have hcons : x :: (more ++ rest.flatMap f ++ after) = g v :: rest.map g := by
            simpa using h
          obtain ⟨rfl, htail⟩ := List.cons.inj hcons
          obtain ⟨rfl, hafter, hrest⟩ := ih more after htail
          exact ⟨rfl, hafter, List.forall_mem_cons.mpr ⟨hv, hrest⟩⟩
      | cons a before =>
          have hcons : a :: ((before ++ x :: more) ++ rest.flatMap f ++ after) = g v :: rest.map g := by
            simpa using h
          obtain ⟨hnil, -⟩ := ih (before ++ x :: more) after (List.cons.inj hcons).2
          exact absurd hnil (List.append_ne_nil_of_right_ne_nil _ (List.cons_ne_nil _ _))

/-- **The pieces stand side by side among the words** where a stretch of the words are their own
only pieces and the others have none. -/
theorem exists_own {ws : List ω} (hpiece : ∀ v ∈ ws, g v ∈ ws.flatMap f → f v ≠ []) :
    (ws.flatMap f ≠ [] ∧ ws.flatMap f <:+: ws.map g) ↔
      ∃ front own back, ws = front ++ own ++ back ∧ own ≠ [] ∧
        (∀ v ∈ front ++ back, f v = []) ∧ ∀ v ∈ own, f v = [g v] := by
  constructor
  · rintro ⟨hne, before, after, heq⟩
    obtain ⟨most, back, rfl, hmost, -⟩ := List.map_eq_append_iff.mp heq.symm
    obtain ⟨front, own, rfl, -, hown⟩ := List.map_eq_append_iff.mp hmost
    have hmem : ∀ v ∈ own, f v ≠ [] := fun v hv =>
      hpiece v (by simp [hv]) (hown ▸ List.mem_map_of_mem hv)
    have hall : front.flatMap f ++ own.flatMap f ++ back.flatMap f = own.map g := by
      rw [hown, List.flatMap_append, List.flatMap_append]
    obtain ⟨hfront, hback, hself⟩ := pieces_eq_map own hmem _ _ hall
    refine ⟨front, own, back, rfl, ?_, ?_, hself⟩
    · rintro rfl
      exact hne hown.symm
    · intro v hv
      rcases List.mem_append.mp hv with hv | hv
      · exact List.flatMap_eq_nil_iff.mp hfront v hv
      · exact List.flatMap_eq_nil_iff.mp hback v hv
  · rintro ⟨front, own, back, rfl, hne, hnone, hself⟩
    have hown : own.flatMap f = own.map g := by
      rw [List.map_eq_flatMap]
      exact List.flatMap_congr fun v hv => hself v hv
    have hall : (front ++ own ++ back).flatMap f = own.map g := by
      rw [List.flatMap_append, List.flatMap_append, hown,
        List.flatMap_eq_nil_iff.mpr fun v hv => hnone v (List.mem_append_left _ hv),
        List.flatMap_eq_nil_iff.mpr fun v hv => hnone v (List.mem_append_right _ hv),
        List.nil_append, List.append_nil]
    rw [hall]
    refine ⟨fun h => hne (List.map_eq_nil_iff.mp h), front.map g, back.map g, ?_⟩
    rw [List.map_append, List.map_append]

end Pieces

namespace Engine

variable (e : Engine)

/-! ### What a query leaves of a text -/

/-- The text with blanks for what is no letter and no digit. -/
def blank (w : Text) : Text := w.map fun c => if e.cls.isWord c then c else ' '

/-- What a query leaves of a word. -/
def pieces (v : Text) : List Text := e.u.tokens (e.blank v)

variable {e}

theorem blank_append (s t : Text) : e.blank (s ++ t) = e.blank s ++ e.blank t := List.map_append

theorem tokens_separator {c : Char} (h : e.u.isSeparator c = true) (t : Text) :
    e.u.tokens (c :: t) = e.u.tokens t := tokensFrom_separator h none t

theorem tokens_nil : e.u.tokens [] = [] := rfl

theorem join_cons (t : Text) (ts : List Text) :
    e.u.tokens (Text.join (t :: ts) [' ']) = e.u.tokens t ++ e.u.tokens (Text.join ts [' ']) := by
  cases ts with
  | nil => simp [Text.join, tokens_nil]
  | cons t' ts =>
      have hjoin : Text.join (t :: t' :: ts) [' '] = t ++ ' ' :: Text.join (t' :: ts) [' '] := by
        simp [Text.join, List.intercalate_cons_cons]
      rw [hjoin, tokens_append separator_space]

/-- The words of a phrase are cut into tokens each for itself. -/
theorem tokens_join (ts : List Text) :
    e.u.tokens (Text.join ts [' ']) = ts.flatMap e.u.tokens := by
  induction ts with
  | nil => rfl
  | cons t ts ih => rw [join_cons, ih, List.flatMap_cons]

theorem flushToken_flatMap (cur : Text) : (flushToken cur).flatMap e.u.tokens = e.u.tokens cur := by
  unfold flushToken
  split
  · rename_i hnil
    rw [hnil]
    rfl
  · rw [List.flatMap_singleton]

theorem latinTokensFrom_flatMap (w : Text) : ∀ cur,
    (latinTokensFrom e.cls cur w).flatMap e.u.tokens = e.u.tokens (cur ++ e.blank w) := by
  induction w with
  | nil =>
      intro cur
      rw [latinTokensFrom, flushToken_flatMap, blank, List.map_nil, List.append_nil]
  | cons c rest ih =>
      intro cur
      rw [latinTokensFrom]
      by_cases hc : e.cls.isWord c = true
      · rw [if_pos hc, ih, blank, blank, List.map_cons, if_pos hc, List.append_assoc]
        rfl
      · rw [if_neg hc, List.flatMap_append, flushToken_flatMap, ih, blank, blank, List.map_cons,
          if_neg hc, tokens_append separator_space, List.nil_append]

/-- The phrase of a text asks for what is left of it. -/
theorem tokens_latinTokens (w : Text) :
    e.u.tokens (Text.join (latinTokens e.cls w) [' ']) = e.u.tokens (e.blank w) := by
  rw [tokens_join, latinTokens, latinTokensFrom_flatMap, List.nil_append]

/-- What is no letter and no digit is a blank in the query, and the rest parts words in both. -/
theorem separator_blank {c : Char} (h : e.u.isAlnum c = false) :
    e.u.isSeparator (if e.cls.isWord c then c else ' ') = true := by
  split
  · rename_i hword
    have hmark : e.u.isDiacritic c = false := by
      refine Bool.eq_false_iff.mpr fun hmark => ?_
      rw [e.diacritic_word c hmark] at hword
      cases hword
    simp [isSeparator, h, hmark]
  · exact separator_space

theorem tokens_blank_from (w : Text) : ∀ cur : Option Text,
    e.u.tokens (e.blank (cur.getD [] ++ w)) = (e.u.wordsFrom cur w).flatMap e.pieces := by
  induction w with
  | nil =>
      intro cur
      cases cur with
      | none => rfl
      | some cur => rw [wordsFrom, Option.toList_some, List.flatMap_singleton, List.append_nil]; rfl
  | cons c rest ih =>
      intro cur
      cases cur with
      | none =>
          rw [wordsFrom]
          split
          · exact ih (some [c])
          · rename_i halnum
            rw [← ih none]
            exact tokens_separator (separator_blank (Bool.eq_false_iff.mpr halnum)) _
      | some cur =>
          rw [wordsFrom]
          split
          · rw [← ih (some (cur ++ [c])), Option.getD_some, Option.getD_some, List.append_assoc]
            rfl
          · rename_i hgoes
            rw [Bool.or_eq_true, not_or] at hgoes
            rw [List.flatMap_cons, ← ih none, Option.getD_some, blank_append]
            exact tokens_append (separator_blank (Bool.eq_false_iff.mpr hgoes.1)) _ _

/-- What is left of a text is what is left of its words. -/
theorem tokens_blank (w : Text) : e.u.tokens (e.blank w) = (e.u.words w).flatMap e.pieces :=
  tokens_blank_from w none

/-! ### What is left of a word -/

theorem not_word_of_separator {c : Char} (hsep : e.u.isSeparator c = false)
    (hword : e.cls.isWord c = true) : e.u.isAlnum c = true := by
  rcases Bool.or_eq_true _ _ |>.mp (not_isSeparator.mp hsep) with halnum | hmark
  · exact halnum
  · rw [e.diacritic_word c hmark] at hword
    cases hword

theorem pieces_eq_nil {v : Text} (h : e.u.IsWord v) :
    e.pieces v = [] ↔ ∀ c ∈ v, e.cls.isWord c = false := by
  unfold pieces blank
  rw [tokens_eq_nil_iff, List.forall_mem_map]
  refine forall₂_congr fun c hc => ?_
  split
  · rename_i hword
    rw [hword, not_word_of_separator (h.2.2 c hc) hword]
  · rename_i hword
    rw [Bool.eq_false_iff.mpr hword, e.u.alnum_ascii ' ' (by decide)]
    decide

/-- The pieces are made of letters and digits. -/
theorem isWord_of_mem_pieces {v p : Text} (h : p ∈ e.pieces v) : ∀ c ∈ p, e.cls.isWord c = true := by
  unfold pieces at h
  rw [tokens_eq_map] at h
  obtain ⟨w, hw, rfl⟩ := List.mem_map.mp h
  intro c hc
  obtain ⟨d, hd, hfold⟩ := List.mem_filterMap.mp hc
  have hsep := (isWord_of_mem_words hw).2.2 d hd
  obtain ⟨b, -, hb⟩ := List.mem_map.mp (mem_of_mem_words hw hd)
  by_cases hword : e.cls.isWord b = true
  · rw [if_pos hword] at hb
    subst hb
    obtain ⟨c', hc', heq⟩ := e.fold_alnum b (not_word_of_separator hsep hword)
    rw [hfold] at hc'
    rw [Option.some.inj hc', heq, hword]
  · rw [if_neg hword] at hb
    rw [← hb, separator_space] at hsep
    cases hsep

/-- If its folded form is made of letters and digits, so is the word, marks aside. -/
theorem isWord_of_folded {v : Text} (h : ∀ c ∈ e.u.folded v, e.cls.isWord c = true) {c : Char}
    (hc : c ∈ v) (halnum : e.u.isAlnum c = true) : e.cls.isWord c = true := by
  obtain ⟨d, hd, heq⟩ := e.fold_alnum c halnum
  rw [← heq]
  exact h d (List.mem_filterMap.mpr ⟨c, hc, hd⟩)

theorem folded_marks {marks : Text} (h : ∀ c ∈ marks, e.u.isDiacritic c = true) (s : Text) :
    e.u.folded (s ++ marks) = e.u.folded s := by
  unfold folded
  rw [List.filterMap_append,
    List.filterMap_eq_nil_iff.mpr fun c hc => e.fold_diacritic c (h c hc), List.append_nil]

theorem blank_marks {marks : Text} (h : ∀ c ∈ marks, e.u.isDiacritic c = true) :
    e.u.tokens (e.blank marks) = [] := by
  rw [tokens_eq_nil_iff, blank, List.forall_mem_map]
  intro c hc
  rw [e.diacritic_word c (h c hc), if_neg (by decide), e.u.alnum_ascii ' ' (by decide)]
  decide

theorem blank_word {s : Text} (h : ∀ c ∈ s, e.cls.isWord c = true) : e.blank s = s := by
  unfold blank
  conv => rhs; rw [← List.map_id s]
  exact List.map_congr_left fun c hc => if_pos (h c hc)

/-- The letters and digits, and what is left of the rest behind a mark. -/
theorem pieces_append {s : Text} (hs : ∀ c ∈ s, e.cls.isWord c = true) {d : Char}
    (hd : e.u.isDiacritic d = true) (more : Text) :
    e.pieces (s ++ d :: more) = e.u.tokens s ++ e.u.tokens (e.blank more) := by
  have hblank : e.blank (s ++ d :: more) = s ++ ' ' :: e.blank more := by
    rw [blank_append, blank_word hs]
    simp [blank, e.diacritic_word d hd]
  unfold pieces
  rw [hblank, tokens_append separator_space]

theorem not_diacritic_of_alnum {c : Char} (h : e.u.isAlnum c = true) : e.u.isDiacritic c = false := by
  refine Bool.eq_false_iff.mpr fun hmark => ?_
  obtain ⟨d, hd, -⟩ := e.fold_alnum c h
  rw [e.fold_diacritic c hmark] at hd
  cases hd

/-- Nothing but letters and digits, and marks behind them. -/
def Sound (e : Engine) (v : Text) : Prop :=
  ∃ s marks, v = s ++ marks ∧ (∀ c ∈ s, e.cls.isWord c = true) ∧
    ∀ c ∈ marks, e.u.isDiacritic c = true

theorem pieces_of_sound {v : Text} (h : e.u.IsWord v) (hsound : e.Sound v) :
    e.pieces v = [e.u.folded v] := by
  obtain ⟨s, marks, rfl, hs, hmarks⟩ := hsound
  have hne : s ≠ [] := by
    rintro rfl
    obtain ⟨c, more, rfl⟩ := List.exists_cons_of_ne_nil h.2.1
    have hplain := not_diacritic_of_alnum (h.1 c rfl)
    rw [hmarks c List.mem_cons_self] at hplain
    cases hplain
  have hkept : e.u.tokens s = [e.u.folded s] := tokens_alnum hne fun c hc =>
    not_word_of_separator (h.2.2 c (List.mem_append_left _ hc)) (hs c hc)
  rw [folded_marks hmarks]
  cases marks with
  | nil => rw [pieces, List.append_nil, blank_word hs, hkept]
  | cons d more =>
      rw [pieces_append hs (hmarks d List.mem_cons_self), hkept,
        blank_marks fun c hc => hmarks c (List.mem_cons_of_mem _ hc), List.append_nil]

theorem sound_of_pieces {v : Text} (h : e.u.IsWord v)
    (hclean : ∀ c ∈ e.u.folded v, e.cls.isWord c = true) (hself : e.pieces v = [e.u.folded v]) :
    e.Sound v := by
  have hmark : ∀ c ∈ v, e.cls.isWord c = false → e.u.isDiacritic c = true := by
    intro c hc hnot
    rcases Bool.or_eq_true _ _ |>.mp (not_isSeparator.mp (h.2.2 c hc)) with halnum | hmark
    · rw [isWord_of_folded hclean hc halnum] at hnot
      cases hnot
    · exact hmark
  have hsplit := List.takeWhile_append_dropWhile (p := e.cls.isWord) (l := v)
  have hfront : ∀ c ∈ v.takeWhile e.cls.isWord, e.cls.isWord c = true := fun c hc =>
    List.mem_takeWhile_imp hc
  cases hrest : v.dropWhile e.cls.isWord with
  | nil =>
      rw [hrest, List.append_nil] at hsplit
      exact ⟨v, [], (List.append_nil v).symm, fun c hc => hfront c (hsplit.symm ▸ hc),
        fun c hc => (List.not_mem_nil hc).elim⟩
  | cons d more =>
      rw [hrest] at hsplit
      have hd : e.u.isDiacritic d = true := by
        refine hmark d (hsplit ▸ by simp) ?_
        exact dropWhile_head? e.cls.isWord v d (by rw [hrest]; rfl)
      -- a second piece would stand behind the mark
      have hnone : e.u.tokens (e.blank more) = [] := by
        have hfirst : e.u.tokens (v.takeWhile e.cls.isWord) ≠ [] := by
          obtain ⟨c, w, rfl⟩ := List.exists_cons_of_ne_nil h.2.1
          have halnum := h.1 c rfl
          have hword := isWord_of_folded hclean List.mem_cons_self halnum
          rw [Ne, tokens_eq_nil_iff]
          intro hall
          rw [List.takeWhile_cons_of_pos hword] at hall
          rw [hall c List.mem_cons_self] at halnum
          cases halnum
        have hlength := congrArg List.length hself
        rw [← hsplit, pieces_append hfront hd, List.length_append, hsplit] at hlength
        have hpos := List.length_pos_of_ne_nil hfirst
        exact List.length_eq_zero_iff.mp (by simp at hlength; omega)
      refine ⟨v.takeWhile e.cls.isWord, d :: more, hsplit.symm, hfront, ?_⟩
      refine List.forall_mem_cons.mpr ⟨hd, fun c hc => hmark c (hsplit ▸ by simp [hc]) ?_⟩
      refine Bool.eq_false_iff.mpr fun hword => ?_
      rw [tokens_eq_nil_iff, blank, List.forall_mem_map] at hnone
      have halnum := hnone c hc
      rw [if_pos hword, not_word_of_separator (h.2.2 c (hsplit ▸ by simp [hc])) hword] at halnum
      cases halnum

/-! ### Where a text is found -/

variable (e)

/-- The words of which nothing is left stand at the two ends, and the others are sound. -/
def Alike (w : Text) : Prop :=
  ∃ front own back, e.u.words w = front ++ own ++ back ∧ own ≠ [] ∧
    (∀ v ∈ front ++ back, ∀ c ∈ v, e.cls.isWord c = false) ∧ ∀ v ∈ own, e.Sound v

variable {e}

/-- **What is left of a text stands in its own index.** -/
theorem alike_iff (w : Text) :
    (e.u.tokens (e.blank w) ≠ [] ∧ e.u.tokens (e.blank w) <:+: e.u.tokens w) ↔ e.Alike w := by
  have hpiece : ∀ v ∈ e.u.words w, e.u.folded v ∈ (e.u.words w).flatMap e.pieces → e.pieces v ≠ [] := by
    intro v hv hmem
    have hword := isWord_of_mem_words hv
    obtain ⟨w', -, hw'⟩ := List.mem_flatMap.mp hmem
    have hclean := isWord_of_mem_pieces hw'
    obtain ⟨c, more, rfl⟩ := List.exists_cons_of_ne_nil hword.2.1
    intro hnil
    have hnot := (pieces_eq_nil hword).mp hnil c List.mem_cons_self
    rw [isWord_of_folded hclean List.mem_cons_self (hword.1 c rfl)] at hnot
    cases hnot
  rw [tokens_blank, tokens_eq_map, exists_own hpiece]
  constructor
  · rintro ⟨front, own, back, heq, hne, hnone, hself⟩
    have hmem : ∀ v ∈ front ++ own ++ back, e.u.IsWord v := fun v hv =>
      isWord_of_mem_words (heq ▸ hv)
    refine ⟨front, own, back, heq, hne, fun v hv => ?_, fun v hv => ?_⟩
    · refine (pieces_eq_nil (hmem v ?_)).mp (hnone v hv)
      rcases List.mem_append.mp hv with hv | hv
      · simp [hv]
      · simp [hv]
    · have hclean : ∀ c ∈ e.u.folded v, e.cls.isWord c = true :=
        isWord_of_mem_pieces (v := v) (by rw [hself v hv]; exact List.mem_singleton_self _)
      exact sound_of_pieces (hmem v (by simp [hv])) hclean (hself v hv)
  · rintro ⟨front, own, back, heq, hne, hnone, hsound⟩
    have hmem : ∀ v ∈ front ++ own ++ back, e.u.IsWord v := fun v hv =>
      isWord_of_mem_words (heq ▸ hv)
    refine ⟨front, own, back, heq, hne, fun v hv => ?_, fun v hv => ?_⟩
    · refine (pieces_eq_nil (hmem v ?_)).mpr (hnone v hv)
      rcases List.mem_append.mp hv with hv | hv
      · simp [hv]
      · simp [hv]
    · exact pieces_of_sound (hmem v (by simp [hv])) (hsound v hv)

/-! ### Words within a text -/

variable (e)

/-- Whether a word of the index goes on behind the character, if one goes `on` before it. -/
def goesOn (on : Bool) (c : Char) : Bool :=
  !e.cls.isCJK c && (e.u.isAlnum c || on && e.u.isDiacritic c)

/-- A word goes on at the end of the text. -/
def inWord (t : Text) : Bool := t.foldl e.goesOn false

/-- No word of the index stands across the border of the two. -/
def WordBorder (s t : Text) : Prop :=
  e.inWord s = false ∨ ∀ c ∈ t.head?, e.cls.isCJK c = true ∨ e.u.isSeparator c = true

/-- What stands in the text between borders of words, without characters of the other kind. -/
def Stretch (t w : Text) : Prop :=
  ∃ before after, t = before ++ w ++ after ∧ (∀ c ∈ w, e.cls.isCJK c = false) ∧
    e.WordBorder before w ∧ e.WordBorder w after

def Place.going : Place → Bool
  | .outside cur => cur.isSome
  | .inRun _ _ => false

variable {e}

theorem wordStep_isSome (cur : Option Text) (c : Char) :
    (e.wordStep cur c).2.isSome = (e.u.isAlnum c || cur.isSome && e.u.isDiacritic c) := by
  cases cur with
  | none =>
      rw [wordStep]
      by_cases h : e.u.isAlnum c = true <;> simp [h]
  | some cur =>
      rw [wordStep]
      by_cases h : (e.u.isAlnum c || e.u.isDiacritic c) = true <;> simp [h]

/-- The index of a text and more begins with what the text gives, and then goes on. -/
theorem indexFrom_before (s : Text) : ∀ place, ∃ front next,
    (∀ t, e.indexFrom place (s ++ t) = front ++ e.indexFrom next t) ∧
      next.going = s.foldl e.goesOn place.going := by
  induction s with
  | nil => exact fun place => ⟨[], place, fun t => rfl, rfl⟩
  | cons c rest ih =>
      intro place
      obtain ⟨front, next, hstep, hgoing⟩ : ∃ front next,
          (∀ t, e.indexFrom place (c :: t) = front ++ e.indexFrom next t) ∧
            next.going = e.goesOn place.going c := by
        by_cases hc : e.cls.isCJK c = true
        · cases place with
          | outside cur =>
              exact ⟨cur.toList, .inRun c true, fun t => by rw [indexFrom, if_pos hc], by simp [hc, goesOn, Place.going]⟩
          | inRun prev first =>
              exact ⟨e.keep [prev, c], .inRun c false, fun t => by rw [indexFrom, if_pos hc],
                by simp [hc, goesOn, Place.going]⟩
        · cases place with
          | outside cur =>
              refine ⟨_, .outside (e.wordStep cur c).2, fun t => by rw [indexFrom, if_neg hc], ?_⟩
              rw [Place.going, wordStep_isSome, goesOn, Bool.eq_false_iff.mpr hc, Bool.not_false, Bool.true_and]
              rfl
          | inRun prev first =>
              refine ⟨_, .outside (e.wordStep none c).2, fun t => by rw [indexFrom, if_neg hc], ?_⟩
              rw [Place.going, wordStep_isSome, goesOn, Bool.eq_false_iff.mpr hc, Bool.not_false, Bool.true_and]
              rfl
      obtain ⟨more, last, hrest, hlast⟩ := ih next
      refine ⟨front ++ more, last, fun t => ?_, ?_⟩
      · rw [List.cons_append, hstep, hrest, List.append_assoc]
      · rw [hlast, List.foldl_cons, hgoing]

/-- The tokens of a text without characters of the other kind stand at the beginning of its index,
if its last word does not go on. -/
theorem tokensFrom_lead (w after : Text) : ∀ cur, (∀ c ∈ w, e.cls.isCJK c = false) →
    (w.foldl e.goesOn cur.isSome = false ∨
      ∀ c ∈ after.head?, e.cls.isCJK c = true ∨ e.u.isSeparator c = true) →
    e.u.tokensFrom cur w <+: e.indexFrom (.outside cur) (w ++ after) := by
  induction w with
  | nil =>
      intro cur _ hborder
      rw [List.nil_append]
      cases cur with
      | none => exact List.nil_prefix
      | some cur =>
          have hborder := hborder.resolve_left (by simp)
          show [cur] <+: _
          cases after with
          | nil => exact List.prefix_rfl
          | cons c rest =>
              rw [indexFrom]
              split
              · exact List.prefix_append _ _
              · rename_i hc
                have hsep := (hborder c rfl).resolve_left hc
                obtain ⟨halnum, hmark⟩ := Bool.and_eq_true _ _ |>.mp hsep
                rw [Bool.not_eq_true'] at halnum hmark
                rw [wordStep, halnum, hmark, if_neg (by decide)]
                exact List.prefix_append _ _
  | cons c rest ih =>
      intro cur h hborder
      have hc := h c List.mem_cons_self
      rw [List.cons_append, indexFrom, hc, if_neg (by decide), tokensFrom_cons]
      refine (List.prefix_append_right_inj _).mpr (ih _ (fun d hd => h d (List.mem_cons_of_mem _ hd)) ?_)
      rwa [List.foldl_cons, goesOn, hc, Bool.not_false, Bool.true_and, ← wordStep_isSome] at hborder

/-- Behind a border the index goes on as at the beginning of a text. -/
theorem indexFrom_border {place : Place} {c : Char} (hc : e.cls.isCJK c = false)
    (hborder : place.going = false ∨ e.u.isSeparator c = true) (t : Text) :
    ∃ front, e.indexFrom place (c :: t) = front ++ e.indexFrom (.outside none) (c :: t) := by
  cases place with
  | outside cur =>
      cases cur with
      | none => exact ⟨[], rfl⟩
      | some cur =>
          have hsep := hborder.resolve_left (by simp [Place.going])
          obtain ⟨halnum, hmark⟩ := Bool.and_eq_true _ _ |>.mp hsep
          rw [Bool.not_eq_true'] at halnum hmark
          refine ⟨[cur], ?_⟩
          rw [indexFrom, indexFrom, hc, if_neg (by decide), if_neg (by decide), wordStep, wordStep,
            halnum, hmark]
          rfl
  | inRun prev first =>
      refine ⟨e.leave prev first, ?_⟩
      rw [indexFrom, indexFrom, hc, if_neg (by decide), if_neg (by decide), wordStep]
      rfl

/-- The tokens of a stretch of a text stand in the index. -/
theorem Stretch.tokens_within {t w : Text} (h : e.Stretch t w) : e.u.tokens w <:+: e.index t := by
  obtain ⟨before, after, rfl, hplain, hbefore, hafter⟩ := h
  rw [index_eq, List.append_assoc]
  obtain ⟨front, place, hfront, hgoing⟩ := indexFrom_before (e := e) before (.outside none)
  rw [hfront]
  cases w with
  | nil => exact List.nil_infix
  | cons c rest =>
      have hc := hplain c List.mem_cons_self
      obtain ⟨front', hborder⟩ := @indexFrom_border e place c hc
        (hbefore.imp (fun h => hgoing.trans h) fun h => (h c rfl).resolve_left (by simp [hc]))
        (rest ++ after)
      rw [List.cons_append, hborder, ← List.append_assoc]
      exact ((tokensFrom_lead (c :: rest) after none hplain hafter).isInfix).trans
        (List.suffix_append _ _).isInfix

/-! ### What a query asks for -/

variable (e)

/-- The query of the words finds the text, in quotes and without. -/
def Found (t w : Text) : Prop :=
  ∀ phrase, matchExpr e.cls w phrase ≠ [] ∧ e.finds t w phrase = true

variable {e}

theorem matchParts_plain {w : Text} (h : ∀ c ∈ w, e.cls.isCJK c = false) (phrase : Bool) :
    matchParts e.cls w phrase =
      if latinTokens e.cls w = [] then []
      else if phrase then [⟨Text.join (latinTokens e.cls w) [' '], false⟩]
      else (latinTokens e.cls w).map fun tok => ⟨tok, true⟩ := by
  unfold matchParts
  by_cases hnil : w = []
  · rw [hnil]
    rfl
  · rw [segments_uniform hnil h, List.flatMap_singleton]
    rfl

/-- In quotes, what is left of the words is looked for as it is. -/
theorem finds_phrase {w : Text} (h : ∀ c ∈ w, e.cls.isCJK c = false) (t : Text) :
    e.finds t w true = true ↔
      e.u.tokens (e.blank w) ≠ [] ∧ e.u.tokens (e.blank w) <:+: e.index t := by
  unfold finds matchesAll
  rw [matchParts_plain h, ← tokens_latinTokens]
  by_cases hnil : latinTokens e.cls w = []
  · simp [hnil, Text.join, tokens_nil]
  · by_cases hnone : e.u.tokens (Text.join (latinTokens e.cls w) [' ']) = []
    · simp [hnil, hnone]
    · simp [hnil, hnone, Phrase.matches, standsIn_false]

/-- What is found in quotes is found without. -/
theorem finds_of_phrase {w : Text} (h : ∀ c ∈ w, e.cls.isCJK c = false) {t : Text}
    (hphrase : e.finds t w true = true) : e.Found t w := by
  obtain ⟨hne, hin⟩ := (finds_phrase h t).mp hphrase
  rw [← tokens_latinTokens, tokens_join] at hne hin
  have hsome : latinTokens e.cls w ≠ [] := fun hnil => hne (by rw [hnil]; rfl)
  intro phrase
  constructor
  · refine mt matchExpr_eq_nil.mp ?_
    rw [matchParts_plain h, if_neg hsome]
    cases phrase with
    | false => simpa using hsome
    | true => simp
  · cases phrase with
    | true => exact hphrase
    | false =>
        unfold finds matchesAll
        rw [matchParts_plain h, if_neg hsome, if_neg (by decide)]
        obtain ⟨tok, htok, hleft⟩ : ∃ tok ∈ latinTokens e.cls w, e.u.tokens tok ≠ [] := by
          by_contra hnone
          exact hne (List.flatMap_eq_nil_iff.mpr fun tok htok => by
            by_contra hleft
            exact hnone ⟨tok, htok, hleft⟩)
        have hmatches : ∀ tok ∈ latinTokens e.cls w,
            Phrase.matches e.u ⟨tok, true⟩ (e.index t) = true := fun tok htok =>
          standsIn_of_infix ((List.infix_flatMap_of_mem htok _).trans hin) true
        simp only [Bool.and_eq_true, List.all_eq_true, bne_iff_ne, ne_eq]
        refine ⟨fun hnil => ?_, fun p hp => ?_⟩
        · have hall := List.filter_eq_nil_iff.mp hnil ⟨tok, true⟩ (List.mem_map_of_mem htok)
          exact hall (by simpa using hleft)
        · obtain ⟨tok, htok, rfl⟩ := List.mem_map.mp (List.mem_of_mem_filter hp)
          exact hmatches tok htok

theorem stretch_self {w : Text} (h : ∀ c ∈ w, e.cls.isCJK c = false) : e.Stretch w w :=
  ⟨[], [], by simp, h, Or.inl rfl, Or.inr fun c hc => by cases hc⟩

theorem index_plain {w : Text} (h : ∀ c ∈ w, e.cls.isCJK c = false) : e.index w = e.u.tokens w := by
  unfold index tokenize
  rw [if_neg]
  simpa using h

/-- **Every text is found by the words that stand in it**, if the query and the index are alike
on them. -/
theorem found_by_own_words_iff (e : Engine) {w : Text} (hplain : ∀ c ∈ w, e.cls.isCJK c = false) :
    (∀ t, e.Stretch t w → e.Found t w) ↔ e.Alike w := by
  rw [← alike_iff]
  constructor
  · intro h
    have hfound := (h w (stretch_self hplain) true).2
    rwa [finds_phrase hplain, index_plain hplain] at hfound
  · intro h t ht
    exact finds_of_phrase hplain ((finds_phrase hplain t).mpr ⟨h.1, h.2.trans ht.tokens_within⟩)

theorem found_by_own_words_iff_basic :
    (∀ t, Engine.basic.Stretch t "it's Invoice_7".toList → Engine.basic.Found t "it's Invoice_7".toList) ↔
      Engine.basic.Alike "it's Invoice_7".toList :=
  found_by_own_words_iff Engine.basic (by decide)

/-- A text that says m² is not found by it. -/
theorem lost_superscript : ¬ ∀ (e : Engine) (t w : Text), e.Stretch t w → e.u.tokens w ≠ [] →
    e.Found t w := by
  intro h
  have hstretch : Engine.basic.Stretch "m²".toList "m²".toList := stretch_self (by decide)
  have hfound := h Engine.basic _ _ hstretch (by decide +kernel) true
  exact absurd hfound.2 (by decide +kernel)

end Engine

end FlyMail.Message.Fts
