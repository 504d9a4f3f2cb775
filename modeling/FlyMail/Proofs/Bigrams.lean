/-
Which texts a run of characters without blanks finds.

The index has a pair of neighbours for every two characters of a run, and a query asks for
its pairs side by side.  They stand side by side where the query stands, but not only there:
where one run ends and the next begins with the same character, and there is nothing between
them that the tokenizer keeps, the pairs of both stand side by side as well.  `ReadsIn` says
how a query can be read in a text across such borders, and `pairs_infix_iff` that its pairs
are found just where it can.

The tokenizer does not keep all characters that the platform takes for such: of symbols
nothing is left.
-/
import Mathlib.Data.List.DropRight
import Mathlib.Data.List.TakeWhile
import FlyMail.Message.Match

namespace FlyMail.Message.Fts

open Fts5 Fts5.Unicode61

namespace Engine

variable (e : Engine)

/-! ### The index, character by character -/

/-- What is left of a word of characters without blanks. -/
def keep (w : Text) : List Text :=
  if w.filter e.u.isAlnum = [] then [] else [w.filter e.u.isAlnum]

/-- What is left of the pairs of a run. -/
def windowTokens : Text → List Text
  | x :: y :: rest => e.keep [x, y] ++ windowTokens (y :: rest)
  | _ => []

/-- Where the index stands in a text. -/
inductive Place
  /-- Outside of runs, where `cur` has been read of a word. -/
  | outside (cur : Option Text)
  /-- In a run, behind `prev`, which may be its first character. -/
  | inRun (prev : Char) (first : Bool)

/-- The word that is completed by the character, and what has been read of the next one. -/
def wordStep : Option Text → Char → List Text × Option Text
  | none, c => ([], if e.u.isAlnum c then some (e.u.fold c).toList else none)
  | some cur, c =>
      if e.u.isAlnum c || e.u.isDiacritic c then ([], some (cur ++ (e.u.fold c).toList))
      else ([cur], none)

/-- The token that is left of a run of one character. -/
def leave (prev : Char) (first : Bool) : List Text := if first then e.keep [prev] else []

def indexFrom : Place → Text → List Text
  | .outside cur, [] => cur.toList
  | .outside cur, c :: rest =>
      if e.cls.isCJK c then cur.toList ++ indexFrom (.inRun c true) rest
      else (e.wordStep cur c).1 ++ indexFrom (.outside (e.wordStep cur c).2) rest
  | .inRun prev first, [] => e.leave prev first
  | .inRun prev first, c :: rest =>
      if e.cls.isCJK c then e.keep [prev, c] ++ indexFrom (.inRun c false) rest
      else e.leave prev first ++ indexFrom (.outside (e.wordStep none c).2) rest

variable {e}

theorem tokensFrom_cons (cur : Option Text) (c : Char) (rest : Text) :
    e.u.tokensFrom cur (c :: rest)
      = (e.wordStep cur c).1 ++ e.u.tokensFrom (e.wordStep cur c).2 rest := by
  cases cur with
  | none =>
      rw [tokensFrom, wordStep]
      split
      · rfl
      · rfl
  | some cur =>
      rw [tokensFrom, wordStep]
      split
      · rfl
      · rfl

theorem tokens_one {x : Char} (hx : e.cls.isCJK x = true) : e.u.tokens [x] = e.keep [x] := by
  unfold tokens keep
  rw [tokensFrom]
  by_cases halnum : e.u.isAlnum x = true
  · simp [halnum, e.fold_cjk x hx, tokensFrom]
  · simp [halnum, tokensFrom]

theorem tokens_two {x y : Char} (hx : e.cls.isCJK x = true) (hy : e.cls.isCJK y = true) :
    e.u.tokens [x, y] = e.keep [x, y] := by
  unfold tokens keep
  rw [tokensFrom]
  by_cases halnum : e.u.isAlnum x = true
  · by_cases halnum' : e.u.isAlnum y = true
    · simp [halnum, halnum', e.fold_cjk x hx, e.fold_cjk y hy, tokensFrom]
    · simp [halnum, halnum', e.fold_cjk x hx, e.diacritic_cjk y hy, tokensFrom]
  · by_cases halnum' : e.u.isAlnum y = true
    · simp [halnum, halnum', e.fold_cjk y hy, tokensFrom]
    · simp [halnum, halnum', tokensFrom]

/-- What the tokenizer leaves of the pairs of a run. -/
theorem tokens_writeBigrams {run : Text} (hne : run ≠ []) (h : ∀ c ∈ run, e.cls.isCJK c = true) :
    e.u.tokens (writeBigrams run)
      = e.windowTokens run ++ (if run.length = 1 then e.keep run else []) := by
  induction run using writeBigrams.induct with
  | case1 => exact absurd rfl hne
  | case2 c =>
      rw [writeBigrams, tokens_one (h c List.mem_cons_self)]
      rfl
  | case3 c d =>
      rw [writeBigrams, tokens_two (h c (by simp)) (h d (by simp))]
      simp [windowTokens]
  | case4 c d f rest ih =>
      have hrest := ih (List.cons_ne_nil _ _) fun x hx => h x (List.mem_cons_of_mem _ hx)
      have hsplit : writeBigrams (c :: d :: f :: rest)
          = [c, d] ++ ' ' :: writeBigrams (d :: f :: rest) := rfl
      rw [hsplit, tokens_append separator_space, tokens_two (h c (by simp)) (h d (by simp)), hrest]
      simp [windowTokens]

theorem windowTokens_concat (run : Text) (x y : Char) :
    e.windowTokens (run ++ [x] ++ [y]) = e.windowTokens (run ++ [x]) ++ e.keep [x, y] := by
  induction run with
  | nil => simp [windowTokens]
  | cons c rest ih =>
      cases rest with
      | nil => simp [windowTokens]
      | cons d rest =>
          simp only [List.cons_append, windowTokens] at ih ⊢
          rw [ih, List.append_assoc]

theorem flush_tokens {run : Text} (hne : run ≠ []) (h : ∀ c ∈ run, e.cls.isCJK c = true)
    (cur : Option Text) (t : Text) : e.u.tokensFrom cur (flush run ++ t)
      = cur.toList ++ (e.windowTokens run ++ (if run.length = 1 then e.keep run else []))
        ++ e.u.tokens t := by
  have hflush : flush run ++ t = ' ' :: (writeBigrams run ++ ' ' :: t) := by
    unfold flush
    rw [if_neg hne]
    simp
  rw [hflush, tokensFrom_separator separator_space, tokens_append separator_space,
    tokens_writeBigrams hne h]
  simp only [List.append_assoc]

theorem leave_eq (run : Text) (x : Char) :
    e.leave x (run == []) = if (run ++ [x]).length = 1 then e.keep (run ++ [x]) else [] := by
  cases run with
  | nil => rfl
  | cons c rest => simp [leave]

/-- The index of the rest of a text, in a run and outside of runs. -/
theorem tokensFrom_tokenizeFrom (t : Text) :
    (∀ cur, e.u.tokensFrom cur (tokenizeFrom e.cls.isCJK [] t) = e.indexFrom (.outside cur) t) ∧
      ∀ cur run x, (∀ c ∈ run ++ [x], e.cls.isCJK c = true) →
        e.u.tokensFrom cur (tokenizeFrom e.cls.isCJK (run ++ [x]) t)
          = cur.toList ++ e.windowTokens (run ++ [x])
            ++ e.indexFrom (.inRun x (run == [])) t := by
  induction t with
  | nil =>
      constructor
      · intro cur
        cases cur with
        | none => rfl
        | some cur => rfl
      · intro cur run x hrun
        have hflush := flush_tokens (by simp) hrun cur []
        rw [List.append_nil] at hflush
        rw [tokenizeFrom, hflush, ← leave_eq]
        simp [indexFrom, tokens, tokensFrom]
  | cons c rest ih =>
      obtain ⟨ihOutside, ihRun⟩ := ih
      by_cases hc : e.cls.isCJK c = true
      · constructor
        · intro cur
          have hrun := ihRun cur [] c (by simpa using hc)
          rw [tokenizeFrom, if_pos hc, hrun, indexFrom, if_pos hc]
          simp [windowTokens]
        · intro cur run x hrun
          have hmore := ihRun cur (run ++ [x]) c fun d hd =>
            (List.mem_append.mp hd).elim (hrun d) fun hd => by rwa [List.mem_singleton.mp hd]
          have hlong : ((run ++ [x]) == []) = false := by simp
          rw [tokenizeFrom, if_pos hc, hmore, windowTokens_concat, hlong, indexFrom, if_pos hc]
          simp only [List.append_assoc]
      · constructor
        · intro cur
          rw [tokenizeFrom, if_neg hc, flush, if_pos rfl, List.nil_append, tokensFrom_cons,
            ihOutside, indexFrom, if_neg hc]
        · intro cur run x hrun
          rw [tokenizeFrom, if_neg hc, flush_tokens (by simp) hrun, ← leave_eq, tokens,
            tokensFrom_cons, ihOutside, indexFrom, if_neg hc, wordStep]
          simp only [List.append_assoc, List.nil_append]

theorem tokenize_eq (isCJK : Char → Bool) (t : Text) : tokenize isCJK t = tokenizeFrom isCJK [] t := by
  unfold tokenize
  split
  · rfl
  · rename_i hnone
    have hall : ∀ c ∈ t, isCJK c = false := by simpa using hnone
    clear hnone
    induction t with
    | nil => rfl
    | cons c rest ih =>
        have hc := hall c List.mem_cons_self
        rw [tokenizeFrom, if_neg (Bool.eq_false_iff.mp hc), flush, if_pos rfl, List.nil_append,
          ← ih fun d hd => hall d (List.mem_cons_of_mem _ hd)]

/-- **The index, character by character.** -/
theorem index_eq (t : Text) : e.index t = e.indexFrom (.outside none) t := by
  unfold index
  rw [tokenize_eq]
  exact (tokensFrom_tokenizeFrom t).1 none

/-! ### Reading a query in a text -/

variable (e)

/-- A character without blanks that the tokenizer keeps. -/
def Kept (c : Char) : Prop := e.cls.isCJK c = true ∧ e.u.isAlnum c = true

/-- Nothing of this is in the index, and no run goes on behind it. -/
def Border (gap : Text) : Prop :=
  (∀ c ∈ gap.getLast?, e.cls.isCJK c = false) ∧ ∀ c ∈ gap, e.u.isAlnum c = false

/-- Behind `prev`, the rest of a query can be read in the rest of a text: where a run ends one
may go on at the next, if it begins with the same character and nothing of what is between
them is in the index. -/
inductive Goes : Char → Text → Text → Prop
  | done (prev : Char) (rest : Text) : Goes prev [] rest
  | next {prev c : Char} {query rest : Text} :
      Goes c query rest → Goes prev (c :: query) (c :: rest)
  | cross {prev c : Char} {query gap rest : Text} :
      gap ≠ [] → (∀ d ∈ gap.head?, e.cls.isCJK d = false) → e.Border gap → Goes c query rest →
      Goes prev (c :: query) (gap ++ prev :: c :: rest)

/-- The query, of two characters at least, can be read in the text. -/
def ReadsIn (query t : Text) : Prop :=
  ∃ x y more before rest, query = x :: y :: more ∧ t = before ++ x :: y :: rest ∧ e.Goes y more rest

/-- The pairs of neighbours. -/
def pairs : Text → List Text
  | x :: y :: rest => [x, y] :: pairs (y :: rest)
  | _ => []

variable {e}

theorem windowTokens_kept {q : Text} (h : ∀ c ∈ q, e.Kept c) : e.windowTokens q = pairs q := by
  induction q using pairs.induct with
  | case1 x y rest ih =>
      have hx := (h x List.mem_cons_self).2
      have hy := (h y (List.mem_cons_of_mem _ List.mem_cons_self)).2
      rw [windowTokens, pairs, ih fun c hc => h c (List.mem_cons_of_mem _ hc)]
      simp [keep, hx, hy]
  | case2 q hq =>
      cases q with
      | nil => rfl
      | cons x rest =>
          cases rest with
          | nil => rfl
          | cons y rest => exact absurd rfl (hq x y rest)

/-- What is left of two characters, unless both are kept, is not the two. -/
theorem notMem_keep {x y c d : Char} (h : ¬ (e.u.isAlnum c = true ∧ e.u.isAlnum d = true)) :
    [x, y] ∉ e.keep [c, d] := by
  have hlength : ([c, d].filter e.u.isAlnum).length < 2 := by
    cases hc : e.u.isAlnum c with
    | false => cases hd : e.u.isAlnum d <;> simp [hc, hd]
    | true =>
        have hd : e.u.isAlnum d = false := by
          refine Bool.eq_false_iff.mpr fun hd => h ⟨hc, hd⟩
        simp [hc, hd]
  unfold keep
  split
  · exact List.not_mem_nil
  · intro hmem
    rw [← List.mem_singleton.mp hmem] at hlength
    exact Nat.lt_irrefl 2 hlength

theorem notMem_leave {x y prev : Char} {first : Bool} : [x, y] ∉ e.leave prev first := by
  unfold leave keep
  split
  · split
    · exact List.not_mem_nil
    · intro hmem
      have hlength := congrArg List.length (List.mem_singleton.mp hmem)
      have hle := List.length_filter_le e.u.isAlnum [prev]
      rw [← hlength] at hle
      exact Nat.not_succ_le_self 1 hle
  · exact List.not_mem_nil

/-- The first token of the rest of a text is the word that has been begun. -/
theorem indexFrom_some (t : Text) : ∀ cur, (∀ c ∈ cur, e.cls.isCJK c = false) →
    ∃ word more, e.indexFrom (.outside (some cur)) t = word :: more ∧
      ∀ c ∈ word, e.cls.isCJK c = false := by
  induction t with
  | nil => exact fun cur h => ⟨cur, [], rfl, h⟩
  | cons c rest ih =>
      intro cur h
      rw [indexFrom]
      by_cases hc : e.cls.isCJK c = true
      · rw [if_pos hc]
        exact ⟨cur, _, rfl, h⟩
      · rw [if_neg hc, wordStep]
        split
        · refine ih _ fun d hd => ?_
          rcases List.mem_append.mp hd with hd | hd
          · exact h d hd
          · exact e.fold_other c d (Bool.eq_false_iff.mpr hc) (Option.mem_toList.mp hd)
        · exact ⟨cur, _, rfl, h⟩

/-- What stands in front and does not have the first element may be passed over. -/
theorem infix_append_of_notMem {α : Type} {a : α} {l front rest : List α} (h : a ∉ front) :
    a :: l <:+: front ++ rest ↔ a :: l <:+: rest := by
  induction front with
  | nil => rfl
  | cons b front ih =>
      rw [List.mem_cons, not_or] at h
      rw [List.cons_append, List.infix_cons_iff, List.cons_prefix_cons, ih h.2]
      exact ⟨fun hin => hin.elim (fun hhead => absurd hhead.1 h.1) (fun hrest => hrest), Or.inr⟩

theorem prefix_append_of_notMem {α : Type} {a : α} {l front rest : List α} (h : a ∉ front)
    (hne : front ≠ []) : ¬ a :: l <+: front ++ rest := by
  intro hprefixed
  obtain ⟨b, more, rfl⟩ := List.exists_cons_of_ne_nil hne
  rw [List.cons_append, List.cons_prefix_cons] at hprefixed
  exact h (hprefixed.1 ▸ List.mem_cons_self)

theorem Border.nil : e.Border [] := by
  simp [Border]

theorem Border.cons {c : Char} {gap : Text} (hc : e.cls.isCJK c = false ∨ gap ≠ [])
    (halnum : e.u.isAlnum c = false) (h : e.Border gap) : e.Border (c :: gap) := by
  refine ⟨fun d hd => ?_, List.forall_mem_cons.mpr ⟨halnum, h.2⟩⟩
  cases gap with
  | nil =>
      obtain rfl := Option.some.inj hd
      exact hc.resolve_right fun hne => hne rfl
  | cons b more =>
      rw [List.getLast?_cons_cons] at hd
      exact h.1 d hd

theorem Border.of_cons {c : Char} {gap : Text} (h : e.Border (c :: gap)) (hne : gap ≠ []) :
    e.Border gap := by
  refine ⟨fun d hd => h.1 d ?_, (List.forall_mem_cons.mp h.2).2⟩
  obtain ⟨b, more, rfl⟩ := List.exists_cons_of_ne_nil hne
  rw [List.getLast?_cons_cons]
  exact hd

/-- A place in the text from which the query goes on, behind a gap. -/
def Behind (y w : Char) (q s : Text) (e : Engine) : Prop :=
  ∃ gap rest, s = gap ++ y :: w :: rest ∧ e.Border gap ∧ e.Goes w q rest

theorem not_behind_nil {y w : Char} {q : Text} : ¬ Behind y w q [] e := by
  rintro ⟨gap, rest, heq, -⟩
  exact absurd heq.symm (List.append_ne_nil_of_right_ne_nil _ (List.cons_ne_nil _ _))

/-- Nothing is read behind a character that is in the index, unless it is the first one. -/
theorem behind_cons_alnum {y w c : Char} {q s : Text} (hc : e.u.isAlnum c = true) :
    Behind y w q (c :: s) e ↔ c = y ∧ ∃ rest, s = w :: rest ∧ e.Goes w q rest := by
  constructor
  · rintro ⟨gap, rest, heq, hborder, hgoes⟩
    cases gap with
    | nil =>
        obtain ⟨rfl, rfl⟩ := List.cons.inj heq
        exact ⟨rfl, rest, rfl, hgoes⟩
    | cons b more =>
        obtain ⟨rfl, -⟩ := List.cons.inj heq
        have hb := hborder.2 c List.mem_cons_self
        rw [hc] at hb
        cases hb
  · rintro ⟨rfl, rest, rfl, hgoes⟩
    exact ⟨[], rest, rfl, .nil, hgoes⟩

/-- A character that is not in the index may be passed over. -/
theorem behind_cons {y w c : Char} {q s : Text} (hy : e.u.isAlnum y = true)
    (hc : e.u.isAlnum c = false) (hout : e.cls.isCJK c = false) :
    Behind y w q (c :: s) e ↔ Behind y w q s e := by
  constructor
  · rintro ⟨gap, rest, heq, hborder, hgoes⟩
    cases gap with
    | nil =>
        obtain ⟨rfl, -⟩ := List.cons.inj heq
        rw [hy] at hc
        cases hc
    | cons b more =>
        obtain ⟨rfl, rfl⟩ := List.cons.inj heq
        refine ⟨more, rest, rfl, ?_, hgoes⟩
        by_cases hne : more = []
        · rw [hne]
          exact .nil
        · exact hborder.of_cons hne
  · rintro ⟨gap, rest, rfl, hborder, hgoes⟩
    exact ⟨c :: gap, rest, rfl, hborder.cons (Or.inl hout) hc, hgoes⟩

/-- Behind a character of a run that is not in the index the next run has to begin anew. -/
def Later (y w : Char) (q s : Text) (e : Engine) : Prop :=
  ∃ gap rest, s = gap ++ y :: w :: rest ∧ gap ≠ [] ∧ e.Border gap ∧ e.Goes w q rest

theorem behind_cons_cjk {y w c : Char} {q s : Text} (hy : e.u.isAlnum y = true)
    (hc : e.u.isAlnum c = false) (hin : e.cls.isCJK c = true) :
    Behind y w q (c :: s) e ↔ Later y w q s e := by
  constructor
  · rintro ⟨gap, rest, heq, hborder, hgoes⟩
    cases gap with
    | nil =>
        obtain ⟨rfl, -⟩ := List.cons.inj heq
        rw [hy] at hc
        cases hc
    | cons b more =>
        obtain ⟨rfl, rfl⟩ := List.cons.inj heq
        have hne : more ≠ [] := by
          rintro rfl
          have hlast := hborder.1 c rfl
          rw [hin] at hlast
          cases hlast
        exact ⟨more, rest, rfl, hne, hborder.of_cons hne, hgoes⟩
  · rintro ⟨gap, rest, rfl, hne, hborder, hgoes⟩
    exact ⟨c :: gap, rest, rfl, hborder.cons (Or.inr hne) hc, hgoes⟩

theorem later_iff_behind {y w : Char} {q s : Text} (h : ∀ c ∈ s.head?, c ≠ y) :
    Later y w q s e ↔ Behind y w q s e := by
  constructor
  · rintro ⟨gap, rest, heq, -, hborder, hgoes⟩
    exact ⟨gap, rest, heq, hborder, hgoes⟩
  · rintro ⟨gap, rest, rfl, hborder, hgoes⟩
    refine ⟨gap, rest, rfl, ?_, hborder, hgoes⟩
    rintro rfl
    exact h y rfl rfl

theorem later_cons_cjk {y w c : Char} {q s : Text} (hin : e.cls.isCJK c = true) :
    Later y w q (c :: s) e ↔ e.u.isAlnum c = false ∧ Later y w q s e := by
  constructor
  · rintro ⟨gap, rest, heq, hne, hborder, hgoes⟩
    obtain ⟨b, more, rfl⟩ := List.exists_cons_of_ne_nil hne
    obtain ⟨rfl, rfl⟩ := List.cons.inj heq
    have hmore : more ≠ [] := by
      rintro rfl
      have hlast := hborder.1 c rfl
      rw [hin] at hlast
      cases hlast
    exact ⟨hborder.2 c List.mem_cons_self, more, rest, rfl, hmore, hborder.of_cons hmore, hgoes⟩
  · rintro ⟨hc, gap, rest, rfl, hne, hborder, hgoes⟩
    exact ⟨c :: gap, rest, rfl, List.cons_ne_nil _ _, hborder.cons (Or.inr hne) hc, hgoes⟩

/-- Inside a run, the query goes on with the next character. -/
theorem goes_cons_cjk {prev w c : Char} {query s : Text} (hc : e.cls.isCJK c = true) :
    e.Goes prev (w :: query) (c :: s) ↔ w = c ∧ e.Goes w query s := by
  constructor
  · intro h
    generalize hs : c :: s = s' at h
    cases h with
    | next h =>
        obtain ⟨rfl, rfl⟩ := List.cons.inj hs
        exact ⟨rfl, h⟩
    | @cross _ _ _ gap rest hne hhead hborder h =>
        obtain ⟨b, more, rfl⟩ := List.exists_cons_of_ne_nil hne
        obtain ⟨rfl, -⟩ := List.cons.inj hs
        have hout := hhead c rfl
        rw [hc] at hout
        cases hout
  · rintro ⟨rfl, h⟩
    exact .next h

/-- At its end, the query goes on behind a border. -/
theorem goes_cons_other {prev w c : Char} {query s : Text} (hprev : e.cls.isCJK prev = true)
    (hw : e.cls.isCJK w = true) (hc : e.cls.isCJK c = false) :
    e.Goes prev (w :: query) (c :: s) ↔ Behind prev w query (c :: s) e := by
  constructor
  · intro h
    generalize hs : c :: s = s' at h
    cases h with
    | next h =>
        obtain ⟨rfl, rfl⟩ := List.cons.inj hs
        rw [hw] at hc
        cases hc
    | @cross _ _ _ gap rest hne hhead hborder h => exact ⟨gap, rest, rfl, hborder, h⟩
  · rintro ⟨gap, rest, heq, hborder, h⟩
    have hne : gap ≠ [] := by
      rintro rfl
      obtain ⟨rfl, -⟩ := List.cons.inj heq
      rw [hprev] at hc
      cases hc
    rw [heq]
    refine .cross hne (fun d hd => ?_) hborder h
    obtain ⟨b, more, rfl⟩ := List.exists_cons_of_ne_nil hne
    obtain rfl := Option.some.inj hd
    obtain ⟨rfl, -⟩ := List.cons.inj heq
    exact hc

theorem not_goes_nil {prev w : Char} {query : Text} : ¬ e.Goes prev (w :: query) [] := by
  intro h
  generalize hs : ([] : Text) = s at h
  cases h with
  | next h => cases hs
  | cross hne hhead hborder h =>
      exact absurd hs.symm (List.append_ne_nil_of_right_ne_nil _ (List.cons_ne_nil _ _))

/-! ### Where the pairs stand -/

theorem keep_kept {c d : Char} (hc : e.u.isAlnum c = true) (hd : e.u.isAlnum d = true) :
    e.keep [c, d] = [[c, d]] := by
  simp [keep, hc, hd]

theorem indexFrom_inRun_other {prev c : Char} {first : Bool} {rest : Text}
    (hc : e.cls.isCJK c = false) : e.indexFrom (.inRun prev first) (c :: rest)
      = e.leave prev first ++ e.indexFrom (.outside none) (c :: rest) := by
  rw [indexFrom, if_neg (Bool.eq_false_iff.mp hc), indexFrom, if_neg (Bool.eq_false_iff.mp hc),
    wordStep, List.nil_append]

theorem leave_dropped {prev : Char} (h : e.u.isAlnum prev = false) (first : Bool) :
    e.leave prev first = [] := by
  simp [leave, keep, h]

theorem leave_kept {prev : Char} (h : e.u.isAlnum prev = true) : e.leave prev true = [[prev]] := by
  simp [leave, keep, h]

theorem not_later_nil {y w : Char} {q : Text} : ¬ Later y w q [] e := by
  rintro ⟨gap, rest, heq, -⟩
  exact absurd heq.symm (List.append_ne_nil_of_right_ne_nil _ (List.cons_ne_nil _ _))

/-- A pair at the beginning of what is in the index of a run. -/
theorem pair_prefix_iff {x y c d : Char} {more : List Text} {s : Text}
    (hx : e.u.isAlnum x = true) (hy : e.u.isAlnum y = true)
    (hc : e.u.isAlnum c = true ∨ e.u.isAlnum d = true) :
    [x, y] :: more <+: e.keep [c, d] ++ e.indexFrom (.inRun d false) s ↔
      x = c ∧ y = d ∧ more <+: e.indexFrom (.inRun d false) s := by
  by_cases hboth : e.u.isAlnum c = true ∧ e.u.isAlnum d = true
  · rw [keep_kept hboth.1 hboth.2, List.singleton_append, List.cons_prefix_cons]
    simp [and_assoc]
  · constructor
    · intro hprefixed
      refine absurd hprefixed (prefix_append_of_notMem (notMem_keep hboth) ?_)
      unfold keep
      rcases hc with hc | hd
      · simp [hc]
      · simp [hd]
    · rintro ⟨rfl, rfl, -⟩
      exact absurd ⟨hx, hy⟩ hboth

/-- The pairs stand at the beginning of what is in the index of the rest of a text where the
query goes on: in a run, outside of runs, and in a run behind a character that is not kept. -/
theorem pairs_prefix_iff (s : Text) :
    (∀ y q, e.Kept y → (∀ c ∈ q, e.Kept c) →
      (pairs (y :: q) <+: e.indexFrom (.inRun y false) s ↔ e.Goes y q s)) ∧
    (∀ y w q, e.Kept y → (∀ c ∈ w :: q, e.Kept c) →
      (pairs (y :: w :: q) <+: e.indexFrom (.outside none) s ↔ Behind y w q s e)) ∧
    ∀ d first y w q, e.u.isAlnum d = false → e.Kept y → (∀ c ∈ w :: q, e.Kept c) →
      (pairs (y :: w :: q) <+: e.indexFrom (.inRun d first) s ↔ Later y w q s e) := by
  induction s with
  | nil =>
      refine ⟨fun y q hy hq => ?_, fun y w q hy hq => ?_, fun d first y w q hd hy hq => ?_⟩
      · cases q with
        | nil => exact ⟨fun _ => .done y [], fun _ => List.nil_prefix⟩
        | cons w q => exact ⟨fun h => by simp [pairs, indexFrom, leave] at h, fun h => absurd h not_goes_nil⟩
      · exact ⟨fun h => by simp [pairs, indexFrom] at h, fun h => absurd h not_behind_nil⟩
      · rw [indexFrom, leave_dropped hd]
        exact ⟨fun h => by simp [pairs] at h, fun h => absurd h not_later_nil⟩
  | cons c rest ih =>
      obtain ⟨ihRun, ihOutside, ihDropped⟩ := ih
      have houtside : ∀ y w q, e.Kept y → (∀ c ∈ w :: q, e.Kept c) →
          (pairs (y :: w :: q) <+: e.indexFrom (.outside none) (c :: rest) ↔
            Behind y w q (c :: rest) e) := by
        intro y w q hy hq
        have hw := hq w List.mem_cons_self
        by_cases hc : e.cls.isCJK c = true
        · rw [indexFrom, if_pos hc, Option.toList_none, List.nil_append]
          by_cases halnum : e.u.isAlnum c = true
          · rw [behind_cons_alnum halnum]
            cases rest with
            | nil =>
                rw [indexFrom, leave_kept halnum]
                exact ⟨fun h => by simp [pairs] at h, fun h => by simp at h⟩
            | cons d more =>
                by_cases hd : e.cls.isCJK d = true
                · -- a second character makes no difference between a run that begins and one that goes on
                  have hfirst : e.indexFrom (.inRun c true) (d :: more)
                      = e.indexFrom (.inRun c false) (d :: more) := by
                    rw [indexFrom, indexFrom, if_pos hd, if_pos hd]
                  rw [hfirst]
                  constructor
                  · intro h
                    have heq : y = c := by
                      rw [indexFrom, if_pos hd, pairs, pair_prefix_iff hy.2 hw.2 (Or.inl halnum)] at h
                      exact h.1
                    subst heq
                    obtain ⟨rfl, hgoes⟩ := (goes_cons_cjk hd).mp ((ihRun y (w :: q) hy hq).mp h)
                    exact ⟨rfl, more, rfl, hgoes⟩
                  · rintro ⟨rfl, s, heq, hgoes⟩
                    obtain ⟨rfl, rfl⟩ := List.cons.inj heq
                    exact (ihRun c (d :: q) hy hq).mpr (.next hgoes)
                · have hout := Bool.eq_false_iff.mpr hd
                  rw [indexFrom_inRun_other hout]
                  constructor
                  · intro h
                    refine absurd h (prefix_append_of_notMem notMem_leave ?_)
                    rw [leave_kept halnum]
                    exact List.cons_ne_nil _ _
                  · rintro ⟨-, s, heq, -⟩
                    obtain ⟨rfl, -⟩ := List.cons.inj heq
                    exact absurd hw.1 hd
          · have hnot := Bool.eq_false_iff.mpr halnum
            rw [behind_cons_cjk hy.2 hnot hc]
            exact ihDropped c true y w q hnot hy hq
        · have hout := Bool.eq_false_iff.mpr hc
          rw [indexFrom, if_neg hc, wordStep, List.nil_append]
          by_cases halnum : e.u.isAlnum c = true
          · rw [if_pos halnum, behind_cons_alnum halnum]
            obtain ⟨word, more, hword, hplain⟩ := indexFrom_some rest (e.u.fold c).toList
              fun d hd => e.fold_other c d hout (Option.mem_toList.mp hd)
            rw [hword, pairs, List.cons_prefix_cons]
            constructor
            · rintro ⟨rfl, -⟩
              have hplainY := hplain y List.mem_cons_self
              rw [hy.1] at hplainY
              cases hplainY
            · rintro ⟨rfl, -⟩
              exact absurd hy.1 hc
          · have hnot := Bool.eq_false_iff.mpr halnum
            rw [if_neg halnum, behind_cons hy.2 hnot hout]
            exact ihOutside y w q hy hq
      refine ⟨fun y q hy hq => ?_, houtside, fun d first y w q hd hy hq => ?_⟩
      · cases q with
        | nil => exact ⟨fun _ => .done y _, fun _ => List.nil_prefix⟩
        | cons w q =>
            have hw := hq w List.mem_cons_self
            by_cases hc : e.cls.isCJK c = true
            · rw [goes_cons_cjk hc, indexFrom, if_pos hc, pairs,
                pair_prefix_iff hy.2 hw.2 (Or.inl hy.2)]
              constructor
              · rintro ⟨-, rfl, h⟩
                exact ⟨rfl, (ihRun w q hw fun d hd => hq d (List.mem_cons_of_mem _ hd)).mp h⟩
              · rintro ⟨rfl, h⟩
                exact ⟨rfl, rfl, (ihRun w q hw fun d hd => hq d (List.mem_cons_of_mem _ hd)).mpr h⟩
            · rw [goes_cons_other hy.1 hw.1 (Bool.eq_false_iff.mpr hc),
                indexFrom_inRun_other (Bool.eq_false_iff.mpr hc)]
              exact houtside y w q hy hq
      · have hw := hq w List.mem_cons_self
        by_cases hc : e.cls.isCJK c = true
        · rw [later_cons_cjk hc, indexFrom, if_pos hc]
          by_cases halnum : e.u.isAlnum c = true
          · rw [pairs, pair_prefix_iff hy.2 hw.2 (Or.inr halnum)]
            constructor
            · rintro ⟨rfl, -⟩
              exact absurd hy.2 (Bool.eq_false_iff.mp hd)
            · rintro ⟨hnot, -⟩
              exact absurd halnum (Bool.eq_false_iff.mp hnot)
          · have hnot := Bool.eq_false_iff.mpr halnum
            have hnone : e.keep [d, c] = [] := by simp [keep, hd, hnot]
            rw [hnone, List.nil_append, ihDropped c false y w q hnot hy hq]
            exact ⟨fun h => ⟨hnot, h⟩, fun h => h.2⟩
        · have hout := Bool.eq_false_iff.mpr hc
          rw [indexFrom_inRun_other hout, leave_dropped hd, List.nil_append, houtside y w q hy hq]
          refine (later_iff_behind fun b hb => ?_).symm
          obtain rfl := Option.some.inj hb
          rintro rfl
          rw [hy.1] at hout
          cases hout

/-- The query goes on from this character of the text. -/
def Here (x y : Char) (q s : Text) (e : Engine) : Prop :=
  ∃ before rest, s = before ++ x :: y :: rest ∧ e.Goes y q rest

theorem not_here_nil {x y : Char} {q : Text} : ¬ Here x y q [] e := by
  rintro ⟨before, rest, heq, -⟩
  exact absurd heq.symm (List.append_ne_nil_of_right_ne_nil _ (List.cons_ne_nil _ _))

theorem here_cons {x y c : Char} {q s : Text} : Here x y q (c :: s) e ↔
    (c = x ∧ ∃ rest, s = y :: rest ∧ e.Goes y q rest) ∨ Here x y q s e := by
  constructor
  · rintro ⟨before, rest, heq, hgoes⟩
    cases before with
    | nil =>
        obtain ⟨rfl, rfl⟩ := List.cons.inj heq
        exact Or.inl ⟨rfl, rest, rfl, hgoes⟩
    | cons b before => exact Or.inr ⟨before, rest, (List.cons.inj heq).2, hgoes⟩
  · rintro (⟨rfl, rest, rfl, hgoes⟩ | ⟨before, rest, rfl, hgoes⟩)
    · exact ⟨[], rest, rfl, hgoes⟩
    · exact ⟨c :: before, rest, rfl, hgoes⟩

/-- What the words outside of runs are made of. -/
def Plain (e : Engine) (cur : Option Text) : Prop := ∀ w ∈ cur, ∀ c ∈ w, e.cls.isCJK c = false

theorem Plain.notMem {cur : Option Text} (h : Plain e cur) {x y : Char} (hx : e.cls.isCJK x = true) :
    [x, y] ∉ cur.toList := by
  intro hmem
  have hplain := h [x, y] (Option.mem_toList.mp hmem) x List.mem_cons_self
  rw [hx] at hplain
  cases hplain

theorem Plain.wordStep {cur : Option Text} (h : Plain e cur) {c : Char} (hc : e.cls.isCJK c = false) :
    (∀ w ∈ (e.wordStep cur c).1, some w = cur) ∧ Plain e (e.wordStep cur c).2 := by
  have hfold : ∀ d ∈ (e.u.fold c).toList, e.cls.isCJK d = false := fun d hd =>
    e.fold_other c d hc (Option.mem_toList.mp hd)
  cases cur with
  | none =>
      refine ⟨fun w hw => (List.not_mem_nil hw).elim, fun w hw => ?_⟩
      rw [Engine.wordStep] at hw
      split at hw
      · rw [← Option.some.inj hw]
        exact hfold
      · cases hw
  | some cur =>
      rw [Engine.wordStep]
      split
      · refine ⟨fun w hw => (List.not_mem_nil hw).elim, fun w hw d hd => ?_⟩
        obtain rfl := Option.some.inj hw
        exact (List.mem_append.mp hd).elim (h cur rfl d) (hfold d)
      · exact ⟨fun w hw => by rw [List.mem_singleton.mp hw], fun w hw => by cases hw⟩

theorem not_infix_of_notMem {α : Type} {a : α} {l front : List α} (h : a ∉ front) :
    ¬ a :: l <:+: front :=
  fun hin => h (hin.subset List.mem_cons_self)

/-- The pairs stand in what is in the index of the rest of a text where the query can be read:
outside of runs, and in a run, whose last character may be the first one of the query. -/
theorem pairs_infix_from {x y : Char} {q : Text} (hx : e.Kept x) (hy : e.Kept y)
    (hq : ∀ c ∈ q, e.Kept c) (s : Text) :
    (∀ cur, Plain e cur → ([x, y] :: pairs (y :: q) <:+: e.indexFrom (.outside cur) s ↔ Here x y q s e)) ∧
    ∀ z first, [x, y] :: pairs (y :: q) <:+: e.indexFrom (.inRun z first) s ↔
      (z = x ∧ ∃ rest, s = y :: rest ∧ e.Goes y q rest) ∨ Here x y q s e := by
  induction s with
  | nil =>
      refine ⟨fun cur hcur => ?_, fun z first => ?_⟩
      · exact ⟨fun h => absurd h (not_infix_of_notMem (hcur.notMem hx.1)), fun h => absurd h not_here_nil⟩
      · constructor
        · exact fun h => absurd h (not_infix_of_notMem notMem_leave)
        · rintro (⟨-, rest, heq, -⟩ | h)
          · cases heq
          · exact absurd h not_here_nil
  | cons c rest ih =>
      obtain ⟨ihOutside, ihRun⟩ := ih
      have houtside : ∀ cur, Plain e cur →
          ([x, y] :: pairs (y :: q) <:+: e.indexFrom (.outside cur) (c :: rest) ↔
            Here x y q (c :: rest) e) := by
        intro cur hcur
        rw [here_cons, indexFrom]
        by_cases hc : e.cls.isCJK c = true
        · rw [if_pos hc, infix_append_of_notMem (hcur.notMem hx.1), ihRun c true]
        · obtain ⟨hwords, hnext⟩ := hcur.wordStep (Bool.eq_false_iff.mpr hc)
          have hnotMem : [x, y] ∉ (e.wordStep cur c).1 := fun hmem =>
            hcur.notMem hx.1 (Option.mem_toList.mpr (hwords _ hmem).symm)
          rw [if_neg hc, infix_append_of_notMem hnotMem, ihOutside _ hnext]
          refine ⟨Or.inr, fun h => h.resolve_left ?_⟩
          rintro ⟨rfl, -⟩
          exact hc hx.1
      refine ⟨houtside, fun z first => ?_⟩
      by_cases hc : e.cls.isCJK c = true
      · rw [here_cons, indexFrom, if_pos hc]
        by_cases hboth : e.u.isAlnum z = true ∧ e.u.isAlnum c = true
        · rw [keep_kept hboth.1 hboth.2, List.singleton_append, List.infix_cons_iff,
            List.cons_prefix_cons, ihRun c false]
          refine or_congr_left ?_
          constructor
          · rintro ⟨hpair, hprefixed⟩
            simp only [List.cons.injEq, and_true] at hpair
            obtain ⟨rfl, rfl⟩ := hpair
            exact ⟨rfl, rest, rfl, ((pairs_prefix_iff rest).1 y q hy hq).mp hprefixed⟩
          · rintro ⟨rfl, s, heq, hgoes⟩
            obtain ⟨rfl, rfl⟩ := List.cons.inj heq
            exact ⟨rfl, ((pairs_prefix_iff rest).1 c q hy hq).mpr hgoes⟩
        · rw [infix_append_of_notMem (notMem_keep hboth), ihRun c false]
          refine ⟨Or.inr, fun h => h.resolve_left ?_⟩
          rintro ⟨rfl, s, heq, -⟩
          obtain ⟨rfl, -⟩ := List.cons.inj heq
          exact hboth ⟨hx.2, hy.2⟩
      · rw [indexFrom_inRun_other (Bool.eq_false_iff.mpr hc), infix_append_of_notMem notMem_leave,
          houtside none fun w hw => by cases hw]
        refine ⟨Or.inr, fun h => h.resolve_left ?_⟩
        rintro ⟨-, s, heq, -⟩
        obtain ⟨rfl, -⟩ := List.cons.inj heq
        exact hc hy.1

/-- **The pairs of a query stand in the index where it can be read.** -/
theorem pairs_infix_iff {q : Text} (hlen : 2 ≤ q.length) (hq : ∀ c ∈ q, e.Kept c) (t : Text) :
    pairs q <:+: e.index t ↔ e.ReadsIn q t := by
  obtain ⟨x, y, more, rfl⟩ : ∃ x y more, q = x :: y :: more := by
    cases q with
    | nil => simp at hlen
    | cons x rest =>
        cases rest with
        | nil => simp at hlen
        | cons y more => exact ⟨x, y, more, rfl⟩
  have hx := hq x List.mem_cons_self
  have hy := hq y (List.mem_cons_of_mem _ List.mem_cons_self)
  have hmore : ∀ c ∈ more, e.Kept c := fun c hc =>
    hq c (List.mem_cons_of_mem _ (List.mem_cons_of_mem _ hc))
  rw [index_eq, pairs, (pairs_infix_from hx hy hmore t).1 none fun w hw => by cases hw]
  constructor
  · rintro ⟨before, rest, heq, hgoes⟩
    exact ⟨x, y, more, before, rest, rfl, heq, hgoes⟩
  · rintro ⟨x', y', more', before, rest, heq, ht, hgoes⟩
    cases heq
    exact ⟨before, rest, ht, hgoes⟩

/-! ### Runs -/

variable (e)

/-- The run cannot be longer. -/
def IsRun (t run : Text) : Prop :=
  ∃ before after, t = before ++ run ++ after ∧ (∀ c ∈ run, e.cls.isCJK c = true) ∧
    (∀ c ∈ before.getLast?, e.cls.isCJK c = false) ∧ ∀ c ∈ after.head?, e.cls.isCJK c = false

def OccursInRun (t q : Text) : Prop := ∃ run, e.IsRun t run ∧ q <:+: run

variable {e}

theorem rdropWhile_getLast? (p : Char → Bool) (l : Text) : ∀ c ∈ (l.rdropWhile p).getLast?, p c = false := by
  intro c hc
  obtain ⟨hne, rfl⟩ := List.mem_getLast?_eq_getLast hc
  exact Bool.eq_false_iff.mpr (List.rdropWhile_last_not p l hne)

theorem dropWhile_head? (p : Char → Bool) (l : Text) : ∀ c ∈ (l.dropWhile p).head?, p c = false := by
  intro c hc
  have hnot := List.head?_dropWhile_not p l
  rw [Option.mem_def.mp hc] at hnot
  simpa using hnot

theorem occursInRun_iff {q : Text} (hq : ∀ c ∈ q, e.cls.isCJK c = true) (t : Text) :
    e.OccursInRun t q ↔ q <:+: t := by
  constructor
  · rintro ⟨run, ⟨before, after, rfl, -⟩, hin⟩
    exact hin.trans (List.infix_append before run after)
  · rintro ⟨before, after, rfl⟩
    refine ⟨before.rtakeWhile e.cls.isCJK ++ q ++ after.takeWhile e.cls.isCJK,
      ⟨before.rdropWhile e.cls.isCJK, after.dropWhile e.cls.isCJK, ?_, ?_,
        rdropWhile_getLast? _ before, dropWhile_head? _ after⟩, List.infix_append _ q _⟩
    · have hbefore := List.rdropWhile_append_rtakeWhile (p := e.cls.isCJK) (l := before)
      have hafter := List.takeWhile_append_dropWhile (p := e.cls.isCJK) (l := after)
      conv => lhs; rw [← hbefore, ← hafter]
      simp only [List.append_assoc]
    · intro c hc
      rcases List.mem_append.mp hc with hc | hc
      · rcases List.mem_append.mp hc with hc | hc
        · exact List.mem_rtakeWhile_imp hc
        · exact hq c hc
      · exact List.mem_takeWhile_imp hc

/-- The index of a text begins with the pairs of the run it begins with. -/
theorem windowTokens_lead (q after : Text) : ∀ prev first, (∀ c ∈ q, e.cls.isCJK c = true) →
    e.windowTokens (prev :: q) <+: e.indexFrom (.inRun prev first) (q ++ after) := by
  induction q with
  | nil => exact fun prev first _ => List.nil_prefix
  | cons c rest ih =>
      intro prev first h
      rw [windowTokens, List.cons_append, indexFrom, if_pos (h c List.mem_cons_self)]
      exact (List.prefix_append_right_inj _).mpr
        (ih c false fun d hd => h d (List.mem_cons_of_mem _ hd))

/-- From every place the index goes on to the next one. -/
theorem indexFrom_cons (place : Place) (c : Char) (rest : Text) :
    ∃ front next, e.indexFrom place (c :: rest) = front ++ e.indexFrom next rest ∧
      (e.cls.isCJK c = true → ∃ first, next = .inRun c first) := by
  by_cases hc : e.cls.isCJK c = true
  · cases place with
    | outside cur =>
        rw [indexFrom, if_pos hc]
        exact ⟨_, _, rfl, fun _ => ⟨true, rfl⟩⟩
    | inRun prev first =>
        rw [indexFrom, if_pos hc]
        exact ⟨_, _, rfl, fun _ => ⟨false, rfl⟩⟩
  · cases place with
    | outside cur =>
        rw [indexFrom, if_neg hc]
        exact ⟨_, _, rfl, fun h => absurd h hc⟩
    | inRun prev first =>
        rw [indexFrom, if_neg hc]
        exact ⟨_, _, rfl, fun h => absurd h hc⟩

/-- **What occurs in a text has its pairs in the index.** -/
theorem windowTokens_within {q : Text} (hq : ∀ c ∈ q, e.cls.isCJK c = true) (before after : Text) :
    ∀ place, e.windowTokens q <:+: e.indexFrom place (before ++ q ++ after) := by
  induction before with
  | nil =>
      intro place
      cases q with
      | nil => exact List.nil_infix
      | cons x more =>
          obtain ⟨front, next, heq, hnext⟩ := indexFrom_cons (e := e) place x (more ++ after)
          obtain ⟨first, rfl⟩ := hnext (hq x List.mem_cons_self)
          rw [List.nil_append, List.cons_append, heq]
          exact (windowTokens_lead more after x first fun c hc =>
            hq c (List.mem_cons_of_mem _ hc)).isInfix.trans (List.suffix_append _ _).isInfix
  | cons b before ih =>
      intro place
      obtain ⟨front, next, heq, -⟩ := indexFrom_cons (e := e) place b (before ++ q ++ after)
      rw [List.cons_append, List.cons_append, heq]
      exact (ih next).trans (List.suffix_append _ _).isInfix

/-! ### Queries of such characters -/

theorem segmentsFrom_uniform {isCJK : Char → Bool} {b : Bool} (q : Text) : ∀ cur,
    (∀ c ∈ q, isCJK c = b) → segmentsFrom isCJK cur b q = flushSegment (cur ++ q) b := by
  induction q with
  | nil => exact fun cur _ => by rw [segmentsFrom, List.append_nil]
  | cons c rest ih =>
      intro cur h
      have hc := h c List.mem_cons_self
      rw [segmentsFrom, if_neg fun hcut => hcut.2 hc, hc,
        ih (cur ++ [c]) fun d hd => h d (List.mem_cons_of_mem _ hd)]
      simp

/-- A term of characters of one kind is not cut. -/
theorem segments_uniform {isCJK : Char → Bool} {b : Bool} {q : Text} (hne : q ≠ [])
    (h : ∀ c ∈ q, isCJK c = b) : segments isCJK q = [⟨q, b⟩] := by
  obtain ⟨c, rest, rfl⟩ := List.exists_cons_of_ne_nil hne
  rw [segments, segmentsFrom, if_neg fun hcut => hcut.1 rfl, h c List.mem_cons_self,
    List.nil_append, segmentsFrom_uniform rest [c] fun d hd => h d (List.mem_cons_of_mem _ hd)]
  rfl

/-- The query finds a text if something is left of it and that stands in the index. -/
theorem finds_cjk {q : Text} (hlen : 2 ≤ q.length) (hq : ∀ c ∈ q, e.cls.isCJK c = true) (t : Text) :
    e.finds t q false = true ↔ e.windowTokens q ≠ [] ∧ e.windowTokens q <:+: e.index t := by
  have hne : q ≠ [] := fun h => by simp [h] at hlen
  have htokens : e.u.tokens (writeBigrams q) = e.windowTokens q := by
    rw [tokens_writeBigrams hne hq, if_neg (by omega), List.append_nil]
  have hparts : matchParts e.cls q false = [⟨writeBigrams q, false⟩] := by
    unfold matchParts
    rw [segments_uniform hne hq]
    rfl
  unfold finds matchesAll
  rw [hparts]
  by_cases hnone : e.windowTokens q = []
  · simp [htokens, hnone]
  · simp [htokens, hnone, Phrase.matches, standsIn_false]

theorem keep_ne_nil {w : Text} : e.keep w ≠ [] ↔ ∃ c ∈ w, e.u.isAlnum c = true := by
  unfold keep
  split
  · rename_i hnone
    simpa using List.filter_eq_nil_iff.mp hnone
  · rename_i hsome
    simpa using hsome

theorem windowTokens_ne_nil (rest : Text) : ∀ x y, e.windowTokens (x :: y :: rest) ≠ [] ↔
    ∃ c ∈ x :: y :: rest, e.u.isAlnum c = true := by
  induction rest with
  | nil =>
      intro x y
      simp only [windowTokens, List.append_nil]
      exact keep_ne_nil
  | cons z rest ih =>
      intro x y
      rw [windowTokens, ne_eq, List.append_eq_nil_iff, not_and_or, ← ne_eq, ← ne_eq, ih y z,
        keep_ne_nil]
      simp only [List.exists_mem_cons_iff, List.not_mem_nil, false_and, exists_false, or_false]
      tauto

/-- The query says where it is found: it can only be read where it occurs, and if the tokenizer
does not keep all of it, it does not occur unseen, and what is left of it stands only where it
occurs. -/
def Apart (e : Engine) (t q : Text) : Prop :=
  ((∀ c ∈ q, e.u.isAlnum c = true) → e.ReadsIn q t → e.OccursInRun t q) ∧
  ((∃ c ∈ q, e.u.isAlnum c = false) →
    (e.OccursInRun t q → ∃ c ∈ q, e.u.isAlnum c = true) ∧
    ((∃ c ∈ q, e.u.isAlnum c = true) →
      e.windowTokens q <:+: e.indexFrom (.outside none) t → e.OccursInRun t q))

/-- **A query of characters without blanks finds the texts in whose runs it occurs**, if it
cannot be read across their borders. -/
theorem finds_iff_occursInRun (e : Engine) (t : Text) {q : Text} (hlen : 2 ≤ q.length)
    (hq : ∀ c ∈ q, e.cls.isCJK c = true) :
    (e.finds t q false = true ↔ e.OccursInRun t q) ↔ Apart e t q := by
  have hsome : e.windowTokens q ≠ [] ↔ ∃ c ∈ q, e.u.isAlnum c = true := by
    obtain ⟨x, y, rest, rfl⟩ : ∃ x y rest, q = x :: y :: rest := by
      cases q with
      | nil => simp at hlen
      | cons x rest =>
          cases rest with
          | nil => simp at hlen
          | cons y rest => exact ⟨x, y, rest, rfl⟩
    exact windowTokens_ne_nil rest x y
  have hoccurs : e.OccursInRun t q → e.windowTokens q <:+: e.index t := by
    rw [occursInRun_iff hq, index_eq]
    rintro ⟨before, after, rfl⟩
    exact windowTokens_within hq before after _
  rw [finds_cjk hlen hq, hsome]
  by_cases hall : ∀ c ∈ q, e.u.isAlnum c = true
  · -- a query that is kept as a whole
    have hkept : ∀ c ∈ q, e.Kept c := fun c hc => ⟨hq c hc, hall c hc⟩
    have hmem : ∃ c ∈ q, e.u.isAlnum c = true := by
      obtain ⟨c, hc⟩ := List.exists_mem_of_length_pos (Nat.lt_of_lt_of_le Nat.two_pos hlen)
      exact ⟨c, hc, hall c hc⟩
    have hreads := windowTokens_kept hkept ▸ pairs_infix_iff hlen hkept t
    constructor
    · refine fun h => ⟨fun _ hin => h.mp ⟨hmem, hreads.mpr hin⟩, ?_⟩
      rintro ⟨c, hc, hnot⟩
      rw [hall c hc] at hnot
      cases hnot
    · exact fun h => ⟨fun hfound => h.1 hall (hreads.mp hfound.2), fun hin => ⟨hmem, hoccurs hin⟩⟩
  · have hdropped : ∃ c ∈ q, e.u.isAlnum c = false := by simpa using hall
    rw [index_eq] at hoccurs ⊢
    constructor
    · exact fun h => ⟨fun hno => absurd hno hall, fun _ =>
        ⟨fun hin => (h.mpr hin).1, fun hmem hin => h.mp ⟨hmem, hin⟩⟩⟩
    · exact fun h => ⟨fun hfound => (h.2 hdropped).2 hfound.1 hfound.2, fun hin =>
        ⟨(h.2 hdropped).1 hin, hoccurs hin⟩⟩

theorem finds_iff_occursInRun_basic :
    let t := "张三给李四发了发票".toList
    let q := "李四发".toList
    (Engine.basic.finds t q false = true ↔ Engine.basic.OccursInRun t q) ↔
      Apart Engine.basic t q :=
  finds_iff_occursInRun Engine.basic _ (by decide) (by decide)

/-- 张三，三给 is found when one looks for 张三给. -/
theorem finds_across_border : ¬ ∀ (e : Engine) (t q : Text), 2 ≤ q.length →
    (∀ c ∈ q, e.cls.isCJK c = true) → (e.finds t q false = true ↔ e.OccursInRun t q) := by
  intro h
  have hq : ∀ c ∈ "张三给".toList, Engine.basic.cls.isCJK c = true := by decide
  have hiff := h Engine.basic "张三，三给".toList "张三给".toList (by decide) hq
  rw [occursInRun_iff hq] at hiff
  exact absurd (hiff.mp (by decide +kernel)) (by decide +kernel)

end Engine

end FlyMail.Message.Fts
