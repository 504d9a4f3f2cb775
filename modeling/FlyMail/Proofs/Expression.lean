/-
Nothing that is typed breaks the expression.

What `Match` writes is described from above: clauses, each of phrases for some columns, written
down with the program's own brackets, columns and operators.  The texts of the phrases are all
that comes from the input, and they have no quote and no NUL: the words of a term are letters
and digits, the pairs characters without blanks, and both classes are known within ASCII.  So
the index reads off just these clauses again (`lex_written`), and they are a query.
-/
import FlyMail.Lib.Fts5Query
import FlyMail.Lib.Utf8
import FlyMail.Message.Match

namespace FlyMail.Message.Fts

open Fts5 (Phrase Tok lex lexFrom Quotable)

/-! ### Clauses -/

/-- Phrases that must all be found, in these columns if there are any. -/
structure Clause where
  columns : List Text
  phrases : List Phrase

def writeColumns : List Text → Text
  | [] => []
  | [c] => c ++ ": ".toList
  | cs => "\x7b".toList ++ Text.join cs [' '] ++ "\x7d: ".toList

def Clause.written (cl : Clause) : Text :=
  writeColumns cl.columns ++ '(' :: Text.join (cl.phrases.map writePhrase) [' '] ++ [')']

def written (cls : List Clause) : Text := Text.join (cls.map Clause.written) " AND ".toList

def phraseToks (p : Phrase) : List Tok := .quoted p.text :: if p.isPrefix then [.star] else []

def columnToks : List Text → List Tok
  | [] => []
  | [c] => [.word c, .colon]
  | cs => .lcp :: cs.map .word ++ [.rcp, .colon]

def Clause.toks (cl : Clause) : List Tok :=
  columnToks cl.columns ++ .lp :: cl.phrases.flatMap phraseToks ++ [.rp]

def exprToks : List Clause → List Tok
  | [] => []
  | [cl] => cl.toks
  | cl :: cls => cl.toks ++ .and :: exprToks cls

def columns : List Text :=
  ["subject", "from_name", "from_addr", "recipients", "body"].map String.toList

/-- The columns of the program's own clauses. -/
def scopes : List (List Text) :=
  [[], ["from_name".toList, "from_addr".toList], ["recipients".toList], ["subject".toList]]

/-- The clauses of some terms. -/
def clausesFor (cls : Classes) (cols : List Text) (terms : List Query.Term) : List Clause :=
  terms.filterMap fun t =>
    if matchParts cls t.text t.phrase = [] then none else some ⟨cols, matchParts cls t.text t.phrase⟩

def clauses (cls : Classes) (q : Query.Parsed) : List Clause :=
  clausesFor cls [] q.terms ++ clausesFor cls ["from_name".toList, "from_addr".toList] q.fromTerms ++
    clausesFor cls ["recipients".toList] q.toTerms ++ clausesFor cls ["subject".toList] q.subject

/-- A clause as the program makes them. -/
def Clause.Own (cl : Clause) : Prop :=
  cl.columns ∈ scopes ∧ cl.phrases ≠ [] ∧ ∀ p ∈ cl.phrases, Quotable p.text

/-! ### What comes from the input -/

theorem ascii_quotable (isClass : Char → Bool) (hquote : isClass Fts5.quote = false)
    (hnul : isClass Fts5.nul = false) {t : Text} (h : ∀ c ∈ t, isClass c = true) : Quotable t := by
  intro c hc
  have hclass := h c hc
  constructor
  · rintro rfl
    rw [hquote] at hclass
    cases hclass
  · rintro rfl
    rw [hnul] at hclass
    cases hclass

theorem isWord_ascii (cls : Classes) {c : Char} (h : c.toNat < 0x80) :
    cls.isWord c = (c.isAlpha || c.isDigit) := by
  unfold Classes.isWord
  rw [cls.letter_ascii c h, cls.digit_ascii c h]

theorem mem_writeBigrams {run : Text} {c : Char} (h : c ∈ writeBigrams run) : c ∈ run ∨ c = ' ' := by
  induction run using writeBigrams.induct with
  | case1 => exact (List.not_mem_nil h).elim
  | case2 d => exact Or.inl h
  | case3 d f => exact Or.inl h
  | case4 d f g rest ih =>
      rw [writeBigrams] at h
      simp only [List.mem_cons] at h ⊢
      rcases h with h | h | h | h
      · exact Or.inl (Or.inl h)
      · exact Or.inl (Or.inr (Or.inl h))
      · exact Or.inr h
      · exact (ih h).imp_left fun h => Or.inr (by simpa using h)

theorem quotable_writeBigrams (cls : Classes) {run : Text} (h : ∀ c ∈ run, cls.isCJK c = true) :
    Quotable (writeBigrams run) := by
  refine ascii_quotable (fun c => cls.isCJK c || c == ' ') ?_ ?_ fun c hc => ?_
  · rw [cls.cjk_ascii _ (by decide)]
    rfl
  · rw [cls.cjk_ascii _ (by decide)]
    rfl
  · rcases mem_writeBigrams hc with hc | rfl
    · simp [h c hc]
    · simp

/-- The characters of a segment are of its kind. -/
theorem segmentsFrom_kind {isCJK : Char → Bool} (s : Text) : ∀ cur kind,
    (∀ c ∈ cur, isCJK c = kind) → ∀ seg ∈ segmentsFrom isCJK cur kind s,
      ∀ c ∈ seg.text, isCJK c = seg.cjk := by
  have hflush : ∀ cur kind, (∀ c ∈ cur, isCJK c = kind) → ∀ seg ∈ flushSegment cur kind,
      ∀ c ∈ seg.text, isCJK c = seg.cjk := by
    intro cur kind h seg hseg
    unfold flushSegment at hseg
    split at hseg
    · exact (List.not_mem_nil hseg).elim
    · rw [List.mem_singleton.mp hseg]
      exact h
  induction s with
  | nil => exact fun cur kind h => hflush cur kind h
  | cons r rest ih =>
      intro cur kind h seg hseg
      rw [segmentsFrom] at hseg
      split at hseg
      · rcases List.mem_append.mp hseg with hseg | hseg
        · exact hflush cur kind h seg hseg
        · exact ih [r] (isCJK r) (by simp) seg hseg
      · rename_i hstay
        refine ih (cur ++ [r]) (isCJK r) (fun c hc => ?_) seg hseg
        rcases List.mem_append.mp hc with hc | hc
        · have hkind : isCJK r = kind := by
            by_contra hne
            exact hstay ⟨List.ne_nil_of_mem hc, hne⟩
          rw [h c hc, hkind]
        · rw [List.mem_singleton.mp hc]

theorem latinTokensFrom_word (cls : Classes) (s : Text) : ∀ cur, (∀ c ∈ cur, cls.isWord c = true) →
    ∀ tok ∈ latinTokensFrom cls cur s, ∀ c ∈ tok, cls.isWord c = true := by
  have hflush : ∀ cur : Text, (∀ c ∈ cur, cls.isWord c = true) → ∀ tok ∈ flushToken cur,
      ∀ c ∈ tok, cls.isWord c = true := by
    intro cur h tok htok
    unfold flushToken at htok
    split at htok
    · exact (List.not_mem_nil htok).elim
    · rw [List.mem_singleton.mp htok]
      exact h
  induction s with
  | nil => exact fun cur h => hflush cur h
  | cons r rest ih =>
      intro cur h tok htok
      rw [latinTokensFrom] at htok
      split at htok
      · rename_i hword
        refine ih (cur ++ [r]) (fun c hc => ?_) tok htok
        rcases List.mem_append.mp hc with hc | hc
        · exact h c hc
        · rwa [List.mem_singleton.mp hc]
      · rcases List.mem_append.mp htok with htok | htok
        · exact hflush cur h tok htok
        · exact ih [] (by simp) tok htok

theorem mem_join {ts : List Text} {c : Char} (h : c ∈ Text.join ts [' ']) :
    (∃ t ∈ ts, c ∈ t) ∨ c = ' ' := by
  induction ts with
  | nil => exact (List.not_mem_nil h).elim
  | cons t ts ih =>
      cases ts with
      | nil => exact Or.inl ⟨t, List.mem_cons_self, by simpa [Text.join] using h⟩
      | cons t' ts =>
          rw [Text.join, List.intercalate_cons_cons] at h
          rcases List.mem_append.mp h with h | h
          · rcases List.mem_append.mp h with h | h
            · exact Or.inl ⟨t, List.mem_cons_self, h⟩
            · exact Or.inr (List.mem_singleton.mp h)
          · refine (ih h).imp_left ?_
            rintro ⟨u, hu, hc⟩
            exact ⟨u, List.mem_cons_of_mem _ hu, hc⟩

/-- **The texts of the phrases have no quote and no NUL.** -/
theorem quotable_matchParts (cls : Classes) (term : Text) (phrase : Bool) :
    ∀ p ∈ matchParts cls term phrase, Quotable p.text := by
  intro p hp
  obtain ⟨seg, hseg, hp⟩ := List.mem_flatMap.mp hp
  have hkind := segmentsFrom_kind term [] false (by simp) seg hseg
  have hwords := latinTokensFrom_word cls seg.text [] (by simp)
  have hclass : ∀ c, (cls.isWord c || c == ' ') = true → c ≠ Fts5.quote ∧ c ≠ Fts5.nul := by
    intro c hc
    refine ascii_quotable (fun c => cls.isWord c || c == ' ') ?_ ?_ (t := [c])
      (by simpa using hc) c List.mem_cons_self
    · rw [isWord_ascii cls (by decide)]
      rfl
    · rw [isWord_ascii cls (by decide)]
      rfl
  unfold segmentParts at hp
  split at hp
  · rename_i hcjk
    rw [List.mem_singleton.mp hp]
    exact quotable_writeBigrams cls fun c hc => (hkind c hc).trans hcjk
  · dsimp only at hp
    split at hp
    · exact (List.not_mem_nil hp).elim
    · split at hp
      · rw [List.mem_singleton.mp hp]
        intro c hc
        refine hclass c ?_
        rcases mem_join hc with ⟨tok, htok, hc⟩ | rfl
        · simp [hwords tok htok c hc]
        · simp
      · obtain ⟨tok, htok, rfl⟩ := List.mem_map.mp hp
        exact fun c hc => hclass c (by simp [hwords tok htok c hc])

/-! ### What is written -/

theorem addTerms_eq (cls : Classes) (cols : List Text) (terms : List Query.Term) (name : Text)
    (hname : writeColumns cols = if name = [] then [] else name ++ ": ".toList) :
    addTerms cls name terms = (clausesFor cls cols terms).map Clause.written := by
  unfold addTerms clausesFor
  rw [List.map_filterMap]
  refine List.filterMap_congr fun t _ => ?_
  by_cases hnil : matchParts cls t.text t.phrase = []
  · simp [matchExpr_eq_nil.mpr hnil, hnil]
  · have hexpr := mt matchExpr_eq_nil.mp hnil
    simp only [hexpr, hnil, if_false, Option.map_some, Clause.written, hname]
    split
    · rfl
    · simp [matchExpr]

/-- **The expression is the clauses written down.** -/
theorem matchQuery_eq (cls : Classes) (q : Query.Parsed) : matchQuery cls q = written (clauses cls q) := by
  unfold matchQuery written clauses
  rw [addTerms_eq cls [] q.terms [] rfl,
    addTerms_eq cls ["from_name".toList, "from_addr".toList] q.fromTerms _ rfl,
    addTerms_eq cls ["recipients".toList] q.toTerms _ rfl,
    addTerms_eq cls ["subject".toList] q.subject _ rfl]
  simp only [List.map_append]

theorem own_clausesFor (cls : Classes) {cols : List Text} (hcols : cols ∈ scopes)
    (terms : List Query.Term) : ∀ cl ∈ clausesFor cls cols terms, cl.Own := by
  intro cl hcl
  obtain ⟨t, -, ht⟩ := List.mem_filterMap.mp hcl
  split at ht
  · cases ht
  · rename_i hne
    rw [← Option.some.inj ht]
    exact ⟨hcols, hne, quotable_matchParts cls t.text t.phrase⟩

theorem own_clauses (cls : Classes) (q : Query.Parsed) : ∀ cl ∈ clauses cls q, cl.Own := by
  intro cl hcl
  simp only [clauses, List.mem_append] at hcl
  rcases hcl with ((hcl | hcl) | hcl) | hcl
  · exact own_clausesFor cls (by decide) _ cl hcl
  · exact own_clausesFor cls (by decide) _ cl hcl
  · exact own_clausesFor cls (by decide) _ cl hcl
  · exact own_clausesFor cls (by decide) _ cl hcl

/-! ### What is read -/

theorem lexFrom_phrase {p : Phrase} (h : Quotable p.text) {rest : Text}
    (hrest : rest.head? ≠ some Fts5.quote) :
    lexFrom .outside (writePhrase p ++ rest) = (lexFrom .outside rest).map (phraseToks p ++ ·) := by
  have hwritten : writePhrase p ++ rest =
      Fts5.quote :: p.text ++ Fts5.quote :: ((if p.isPrefix then ['*'] else []) ++ rest) := by
    unfold writePhrase
    rw [List.append_assoc]
    rfl
  rw [hwritten]
  unfold phraseToks
  cases p.isPrefix with
  | false =>
      rw [Fts5.lexFrom_string h (by simpa using hrest)]
      rfl
  | true =>
      have hstar : lexFrom .outside (['*'] ++ rest) = (lexFrom .outside rest).map ([Tok.star] ++ ·) :=
        Fts5.lexFrom_begins (by rfl) rest
      rw [if_pos rfl, Fts5.lexFrom_string h (by simp [Fts5.quote]), hstar, Option.map_map]
      rfl

/-- The phrases of a clause, up to its bracket. -/
theorem lexFrom_phrases {ps : List Phrase} (hne : ps ≠ []) (h : ∀ p ∈ ps, Quotable p.text)
    (rest : Text) : lexFrom .outside (Text.join (ps.map writePhrase) [' '] ++ ')' :: rest)
      = (lexFrom .outside rest).map (ps.flatMap phraseToks ++ [.rp] ++ ·) := by
  induction ps with
  | nil => exact absurd rfl hne
  | cons p ps ih =>
      have hp := h p List.mem_cons_self
      cases ps with
      | nil =>
          have hclose : lexFrom .outside (')' :: rest) = (lexFrom .outside rest).map ([Tok.rp] ++ ·) :=
            Fts5.lexFrom_begins (by rfl) rest
          have hjoin : Text.join ([p].map writePhrase) [' '] = writePhrase p := by simp [Text.join]
          rw [hjoin, lexFrom_phrase hp (by simp [Fts5.quote]), hclose, Option.map_map]
          simp [Function.comp_def]
      | cons p' ps =>
          have hjoin : Text.join ((p :: p' :: ps).map writePhrase) [' '] ++ ')' :: rest
              = writePhrase p ++ ' ' :: (Text.join ((p' :: ps).map writePhrase) [' '] ++ ')' :: rest) := by
            simp [Text.join, List.intercalate_cons_cons]
          have hblank : ∀ t, lexFrom .outside (' ' :: t) = (lexFrom .outside t).map ([] ++ ·) :=
            Fts5.lexFrom_begins (by rfl)
          have ih := ih (List.cons_ne_nil _ _) fun q hq => h q (List.mem_cons_of_mem _ hq)
          rw [hjoin, lexFrom_phrase hp (by simp [Fts5.quote]), hblank, ih, Option.map_map, Option.map_map,
            List.flatMap_cons]
          simp [Function.comp_def]

/-- The scanner of the index reads the column as it is. -/
def BareColumn (name : Text) : Prop :=
  ∃ d w, name = d :: w ∧ Fts5.begins d = some ([], some (.word [d])) ∧
    (∀ c ∈ w, Fts5.isBareword c = true) ∧ Fts5.bareword name = .word name

theorem bareColumn_of_mem {cols : List Text} (h : cols ∈ scopes) : ∀ name ∈ cols, BareColumn name := by
  have hall : ∀ name ∈ columns, BareColumn name := by
    unfold columns
    simp only [List.forall_mem_map, List.forall_mem_cons]
    exact ⟨⟨'s', "ubject".toList, by decide⟩, ⟨'f', "rom_name".toList, by decide⟩,
      ⟨'f', "rom_addr".toList, by decide⟩, ⟨'r', "ecipients".toList, by decide⟩,
      ⟨'b', "ody".toList, by decide⟩, by simp⟩
  have hsub : ∀ cols ∈ scopes, ∀ name ∈ cols, name ∈ columns := by decide
  exact fun name hname => hall name (hsub cols h name hname)

theorem lexFrom_column {name : Text} (h : BareColumn name) {c : Char}
    (hc : Fts5.isBareword c = false) (rest : Text) : lexFrom .outside (name ++ c :: rest)
      = (lexFrom .outside (c :: rest)).map (.word name :: ·) := by
  obtain ⟨d, w, rfl, hd, hw, hname⟩ := h
  rw [Fts5.lexFrom_bareword hd hw hc, hname]

theorem lexFrom_columns {cols : List Text} (h : cols ∈ scopes) (rest : Text) :
    lexFrom .outside (writeColumns cols ++ rest)
      = (lexFrom .outside rest).map (columnToks cols ++ ·) := by
  have hbare := bareColumn_of_mem h
  have hcolon : ∀ t, lexFrom .outside (':' :: t) = (lexFrom .outside t).map ([Tok.colon] ++ ·) :=
    Fts5.lexFrom_begins (by rfl)
  have hblank : ∀ t, lexFrom .outside (' ' :: t) = (lexFrom .outside t).map ([] ++ ·) :=
    Fts5.lexFrom_begins (by rfl)
  simp only [scopes, List.mem_cons, List.not_mem_nil, or_false] at h
  rcases h with rfl | rfl | rfl | rfl
  · simp [writeColumns, columnToks]
  · have hopen : ∀ t, lexFrom .outside (Char.ofNat 0x7B :: t)
        = (lexFrom .outside t).map ([Tok.lcp] ++ ·) := Fts5.lexFrom_begins (by rfl)
    have hclose : ∀ t, lexFrom .outside (Char.ofNat 0x7D :: t)
        = (lexFrom .outside t).map ([Tok.rcp] ++ ·) := Fts5.lexFrom_begins (by rfl)
    have hwritten : writeColumns ["from_name".toList, "from_addr".toList] ++ rest
        = Char.ofNat 0x7B :: ("from_name".toList ++ ' ' :: ("from_addr".toList ++
          Char.ofNat 0x7D :: ':' :: ' ' :: rest)) := by
      simp [writeColumns, Text.join, List.intercalate_cons_cons]
    rw [hwritten, hopen, lexFrom_column (hbare _ (by simp)) (by decide), hblank,
      lexFrom_column (hbare _ (by simp)) (by decide), hclose, hcolon, hblank]
    simp [Function.comp_def, columnToks]
  · have hwritten : writeColumns ["recipients".toList] ++ rest
        = "recipients".toList ++ ':' :: ' ' :: rest := by simp [writeColumns]
    rw [hwritten, lexFrom_column (hbare _ (by simp)) (by decide), hcolon, hblank]
    simp [Function.comp_def, columnToks]
  · have hwritten : writeColumns ["subject".toList] ++ rest
        = "subject".toList ++ ':' :: ' ' :: rest := by simp [writeColumns]
    rw [hwritten, lexFrom_column (hbare _ (by simp)) (by decide), hcolon, hblank]
    simp [Function.comp_def, columnToks]

theorem lexFrom_clause {cl : Clause} (h : cl.Own) (rest : Text) :
    lexFrom .outside (cl.written ++ rest) = (lexFrom .outside rest).map (cl.toks ++ ·) := by
  obtain ⟨hcols, hne, hquotable⟩ := h
  have hopen : ∀ t, lexFrom .outside ('(' :: t) = (lexFrom .outside t).map ([Tok.lp] ++ ·) :=
    Fts5.lexFrom_begins (by rfl)
  have hwritten : cl.written ++ rest = writeColumns cl.columns ++
      '(' :: (Text.join (cl.phrases.map writePhrase) [' '] ++ ')' :: rest) := by
    simp [Clause.written]
  rw [hwritten, lexFrom_columns hcols, hopen, lexFrom_phrases hne hquotable]
  simp [Function.comp_def, Clause.toks]

/-- **The index reads off the clauses that have been written.** -/
theorem lex_written {cls : List Clause} (h : ∀ cl ∈ cls, cl.Own) : lex (written cls) = some (exprToks cls) := by
  unfold lex
  induction cls with
  | nil => rfl
  | cons cl cls ih =>
      have hcl := h cl List.mem_cons_self
      have ih := ih fun c hc => h c (List.mem_cons_of_mem _ hc)
      cases cls with
      | nil =>
          have hwritten : written [cl] = cl.written ++ [] := by simp [written, Text.join]
          rw [hwritten, lexFrom_clause hcl]
          simp [lexFrom, Fts5.Place.flush, exprToks]
      | cons cl' cls =>
          have hblank : ∀ t, lexFrom .outside (' ' :: t) = (lexFrom .outside t).map ([] ++ ·) :=
            Fts5.lexFrom_begins (by rfl)
          have hand : ∀ t, lexFrom .outside ("AND".toList ++ ' ' :: t)
              = (lexFrom .outside (' ' :: t)).map (Tok.and :: ·) :=
            Fts5.lexFrom_bareword (by rfl) (by decide) (by decide)
          have hwritten : written (cl :: cl' :: cls)
              = cl.written ++ ' ' :: ("AND".toList ++ ' ' :: written (cl' :: cls)) := by
            simp [written, Text.join, List.intercalate_cons_cons]
          rw [hwritten, lexFrom_clause hcl, hblank, hand, hblank, ih]
          simp [exprToks]

/-! ### Queries -/

theorem isItem_phrase (p : Phrase) : Fts5.IsItem columns (phraseToks p) := by
  unfold phraseToks
  refine .near (.phrase (.one (.quoted p.text) ?_))
  split
  · exact .star
  · exact .none

theorem isItems_append (ps : List Phrase) : ∀ items, Fts5.IsItems columns items →
    Fts5.IsItems columns (items ++ ps.flatMap phraseToks) := by
  induction ps with
  | nil =>
      intro items h
      rwa [List.flatMap_nil, List.append_nil]
  | cons p ps ih =>
      intro items h
      rw [List.flatMap_cons, ← List.append_assoc]
      exact ih _ (.cons h (isItem_phrase p))

theorem isQuery_phrases {ps : List Phrase} (hne : ps ≠ []) :
    Fts5.IsQuery columns (ps.flatMap phraseToks) := by
  obtain ⟨p, ps, rfl⟩ := List.exists_cons_of_ne_nil hne
  exact .items (isItems_append ps _ (.one (isItem_phrase p)))

theorem isQuery_clause {cl : Clause} (h : cl.Own) : Fts5.IsQuery columns cl.toks := by
  obtain ⟨hcols, hne, -⟩ := h
  have hquery := isQuery_phrases hne
  have hcolumn : ∀ name ∈ columns, Fts5.IsColumn columns (.word name) := fun name hname => .word hname
  unfold Clause.toks
  simp only [scopes, List.mem_cons, List.not_mem_nil, or_false] at hcols
  rcases hcols with heq | heq | heq | heq
  · rw [heq]
    exact .parens hquery
  · rw [heq]
    have hcs : Fts5.IsColumns columns [.word "from_name".toList, .word "from_addr".toList] :=
      .cons (.one (hcolumn _ (by decide))) (hcolumn _ (by decide))
    exact .columns (.some hcs) hquery
  · rw [heq]
    exact .columns (.one (hcolumn _ (by decide))) hquery
  · rw [heq]
    exact .columns (.one (hcolumn _ (by decide))) hquery

theorem isQuery_clauses {cls : List Clause} (hne : cls ≠ []) (h : ∀ cl ∈ cls, cl.Own) :
    Fts5.IsQuery columns (exprToks cls) := by
  induction cls with
  | nil => exact absurd rfl hne
  | cons cl cls ih =>
      have hcl := isQuery_clause (h cl List.mem_cons_self)
      cases cls with
      | nil => exact hcl
      | cons cl' cls =>
          exact .and hcl (ih (List.cons_ne_nil _ _) fun c hc => h c (List.mem_cons_of_mem _ hc))

/-- **Whatever is typed, the expression is empty or the program's own query** of texts in quotes. -/
theorem matchQuery_own (cls : Classes) (lower : Text → Text) (input : Bytes) :
    let expr := matchQuery cls (Query.parse lower (Utf8.runes input))
    expr = [] ∨ ∃ own : List Clause, own ≠ [] ∧ (∀ cl ∈ own, cl.Own) ∧ expr = written own ∧
      lex expr = some (exprToks own) ∧ Fts5.IsQuery columns (exprToks own) := by
  intro expr
  have heq : expr = written (clauses cls (Query.parse lower (Utf8.runes input))) := matchQuery_eq cls _
  have hown := own_clauses cls (Query.parse lower (Utf8.runes input))
  by_cases hnil : clauses cls (Query.parse lower (Utf8.runes input)) = []
  · left
    rw [heq, hnil]
    rfl
  · exact Or.inr ⟨_, hnil, hown, heq, heq ▸ lex_written hown, isQuery_clauses hnil hown⟩

end FlyMail.Message.Fts
