/-
When a style block stays closed.

The tokenizer ends the text of a style element where it finds the end tag, so that text
contains none.  What is emitted is not that text, but what the patterns leave of it, and two
of them can put an end tag together: resolving escapes writes any character, and an
`@import` that is taken out joins what stood before and behind it.

The other three cannot (`chain_survivors`): a declaration taken out begins behind a
semicolon or a brace, and what a reference is replaced by is no part of a tag.  So the
emitted text contains an end tag just when one stands in the text with escapes resolved and
imports taken out, and the rest leaves it alone (`style_stays_closed_iff`).  To say this,
the three are followed on cells that know where their character stood.
-/
import FlyMail.Html.Sanitize

namespace FlyMail.Htmlsan

open Pattern

/-! ### The end of a style element -/

def asciiLower (c : Char) : Char := if 'A' ≤ c && c ≤ 'Z' then Char.ofNat (c.toNat + 32) else c

/-- The text is the beginning of the end tag, in any letter case. -/
def isEndTag (w : Text) : Bool := w.map asciiLower == "</style".toList

def EndsStyle (css : Text) : Prop := ∃ w, w <:+: css ∧ isEndTag w = true

/-! ### Characters that know where they stood -/

/-- A character, and where it stood if it is not new. -/
abbrev Cell := Char × Option Nat

def cellsOf (v : Text) : List Cell := v.zipIdx.map fun e => (e.1, some e.2)

def noneCells : List Cell := cssNone.map fun c => (c, none)

def replaceCells (f : Match → Text) (cells : List Cell) (m : Match) : List Cell :=
  if f m = m.taken then cells else noneCells

/-- What the last three patterns leave of a text. -/
def survivors (allowRemote : Bool) (v : Text) : List Cell :=
  reCSSURL.rewrite Prod.fst (replaceCells (cssURLOne allowRemote))
    (reImageSet.rewrite Prod.fst (replaceCells (imageSetOne allowRemote))
      (reDanger.rewrite Prod.fst (fun _ _ => []) (cellsOf v)))

/-- An end tag stands in the text, and stays there with all its characters. -/
def BreaksOut (allowRemote : Bool) (v : Text) : Prop :=
  ∃ i w, w <:+: survivors allowRemote v ∧ isEndTag (w.map Prod.fst) = true ∧
    w.map Prod.snd = (List.range' i 7).map some

theorem map_fst_cellsOf (v : Text) : (cellsOf v).map Prod.fst = v := by
  unfold cellsOf
  rw [List.map_map]
  exact List.zipIdx_map_fst 0 v

theorem replaceCells_map {f : Match → Text} (hf : ∀ m, f m = m.taken ∨ f m = cssNone)
    {cells : List Cell} {m : Match} (h : m.taken = cells.map Prod.fst) :
    (replaceCells f cells m).map Prod.fst = f m := by
  unfold replaceCells
  by_cases hkept : f m = m.taken
  · rw [if_pos hkept, hkept, h]
  · rw [if_neg hkept, (hf m).resolve_left hkept]
    rfl

theorem imageSetOne_eq (allowRemote : Bool) (m : Match) :
    imageSetOne allowRemote m = m.taken ∨ imageSetOne allowRemote m = cssNone := by
  unfold imageSetOne
  split
  · exact Or.inr rfl
  · exact Or.inl rfl

theorem cssURLOne_eq (allowRemote : Bool) (m : Match) :
    cssURLOne allowRemote m = m.taken ∨ cssURLOne allowRemote m = cssNone := by
  unfold cssURLOne
  split
  · exact Or.inr rfl
  · split
    · split
      · exact Or.inl rfl
      · exact Or.inr rfl
    · exact Or.inl rfl

/-- The style text with escapes resolved and imports taken out. -/
def rewritten (css : Text) : Text := reImport.replaceAll (fun _ => []) (cssUnescape css)

/-- **The cells show what is emitted.** -/
theorem sanitizeCSS_eq (css : Text) (allowRemote : Bool) :
    (sanitizeCSS css allowRemote).1 = (survivors allowRemote (rewritten css)).map Prod.fst := by
  have hdanger : (reDanger.rewrite Prod.fst (fun _ _ => []) (cellsOf (rewritten css))).map Prod.fst
      = reDanger.rewrite id (fun _ _ => []) ((cellsOf (rewritten css)).map Prod.fst) :=
    @rewrite_map Cell Char reDanger id Prod.fst _ _ (fun _ _ _ => rfl) _
  have hsets := @rewrite_map Cell Char reImageSet id Prod.fst _ (fun _ => imageSetOne allowRemote)
    (fun _ _ h => replaceCells_map (imageSetOne_eq allowRemote) h)
    (reDanger.rewrite Prod.fst (fun _ _ => []) (cellsOf (rewritten css)))
  have hurls := @rewrite_map Cell Char reCSSURL id Prod.fst _ (fun _ => cssURLOne allowRemote)
    (fun _ _ h => replaceCells_map (cssURLOne_eq allowRemote) h)
    (reImageSet.rewrite Prod.fst (replaceCells (imageSetOne allowRemote))
      (reDanger.rewrite Prod.fst (fun _ _ => []) (cellsOf (rewritten css))))
  rw [map_fst_cellsOf] at hdanger
  unfold survivors
  refine Eq.trans ?_ hurls.symm
  refine Eq.trans ?_ (congrArg (reCSSURL.rewrite id fun _ => cssURLOne allowRemote) hsets.symm)
  exact congrArg (fun v => reCSSURL.rewrite id (fun _ => cssURLOne allowRemote)
    (reImageSet.rewrite id (fun _ => imageSetOne allowRemote) v)) hdanger.symm

/-! ### Neighbours -/

/-- A declaration ends here. -/
def isCut (c : Char) : Bool := !noneOf ";\x7b\x7d" c

/-- Cells of the text stood side by side, unless a declaration ends between them. -/
def Beside (a b : Cell) : Prop :=
  ∀ i j, a.2 = some i → b.2 = some j → j = i + 1 ∨ isCut a.1 = true

/-- And no new `e` stands behind a cell of the text. -/
def Adjacent (a b : Cell) : Prop := Beside a b ∧ (b.2 = none → b.1 = 'e' → a.2 = none)

theorem isChain_cellsOf (v : Text) : (cellsOf v).IsChain Beside := by
  unfold cellsOf
  rw [List.isChain_map]
  have hfrom : ∀ n, (v.zipIdx n).IsChain fun a b => b.2 = a.2 + 1 := by
    induction v with
    | nil =>
        intro n
        exact .nil
    | cons c rest ih =>
        intro n
        rw [List.zipIdx_cons]
        refine (ih (n + 1)).cons fun b hb => ?_
        cases rest with
        | nil => cases hb
        | cons d rest =>
            rw [List.zipIdx_cons, List.head?_cons] at hb
            obtain rfl := Option.some.inj hb
            rfl
  refine (hfrom 0).imp fun a b hab i j hi hj => Or.inl ?_
  rw [← Option.some.inj hi, ← Option.some.inj hj, hab]

/-- A dangerous declaration begins where a declaration begins. -/
theorem danger_earlier {a : Cell} {rest : List Cell} (ha : ¬ isCut a.1 = true)
    (h : (reDanger.first (rest.map Prod.fst)).isSome = true) :
    (reDanger.first ((a :: rest).map Prod.fst)).isSome = true := by
  obtain ⟨m, hm⟩ := Option.isSome_iff_exists.mp h
  have hinside : noneOf ";\x7b\x7d" a.1 = true := by
    unfold isCut at ha
    simpa using ha
  obtain ⟨m', hm', -⟩ := tries_many_cons hinside (first_eq_some hm).1
  exact first_isSome (by rfl) hm'

theorem isSome_of_mem_danger {v : Text} :
    ∀ a ∈ reDanger.rewrite Prod.fst (fun _ _ => []) (cellsOf v), a.2 ≠ none := by
  refine forall_mem_rewrite (fun _ _ _ a ha => by cases ha) fun a ha => ?_
  obtain ⟨e, -, rfl⟩ := List.mem_map.mp ha
  exact Option.some_ne_none _

theorem isChain_danger (v : Text) :
    (reDanger.rewrite Prod.fst (fun _ _ => []) (cellsOf v)).IsChain Adjacent := by
  have hfree : ∀ a : Cell, isCut a.1 = true → ∀ b, Beside a b := fun a ha b i j _ _ => Or.inr ha
  have hbeside := isChain_drop hfree (fun a rest ha h => danger_earlier ha h) (isChain_cellsOf v)
  refine hbeside.imp_of_mem_imp fun a b _ hb hab => ⟨hab, fun hnone => ?_⟩
  exact absurd hnone (isSome_of_mem_danger b hb)

/-- Behind a new cell, anything may stand. -/
theorem adjacent_of_new {a : Cell} (ha : a.2 = none) (b : Cell) : Adjacent a b := by
  refine ⟨fun i j hi => ?_, fun _ _ => ha⟩
  rw [ha] at hi
  cases hi

theorem isNew_of_mem {a : Cell} (ha : a ∈ noneCells) : a.2 = none := by
  obtain ⟨c, -, rfl⟩ := List.mem_map.mp ha
  rfl

theorem isChain_noneCells : noneCells.IsChain Adjacent :=
  (List.pairwise_of_forall_mem_list fun _ ha b _ => adjacent_of_new (isNew_of_mem ha) b).isChain

theorem replaceCells_goes (f : Match → Text) (cells : List Cell) (m : Match) :
    replaceCells f cells m = cells ∨
      (replaceCells f cells m).IsChain Adjacent ∧ replaceCells f cells m ≠ [] ∧
        (∀ a, ∀ b ∈ (replaceCells f cells m).head?, Adjacent a b) ∧
          ∀ a ∈ (replaceCells f cells m).getLast?, ∀ b, Adjacent a b := by
  unfold replaceCells
  by_cases hkept : f m = m.taken
  · exact Or.inl (if_pos hkept)
  · rw [if_neg hkept]
    refine Or.inr ⟨isChain_noneCells, List.cons_ne_nil _ _, ?_, ?_⟩
    · intro a b hb
      obtain rfl := Option.some.inj hb
      refine ⟨fun i j _ hj => ?_, fun _ he => absurd he (by decide)⟩
      cases hj
    · intro a ha b
      exact adjacent_of_new (isNew_of_mem (List.mem_of_mem_getLast? ha)) b

/-- **What is left goes together.** -/
theorem chain_survivors (allowRemote : Bool) (v : Text) :
    (survivors allowRemote v).IsChain Adjacent :=
  isChain_rewrite (replaceCells_goes _)
    (isChain_rewrite (replaceCells_goes _) (isChain_danger v))

/-- A new cell is one of the word `none`. -/
theorem mem_survivors {allowRemote : Bool} {v : Text} :
    ∀ a ∈ survivors allowRemote v, a.2 = none → a.1 ∈ cssNone := by
  have hnew : ∀ (f : Match → Text) (cells : List Cell) (m : Match),
      (∀ a ∈ cells, a.2 = none → a.1 ∈ cssNone) →
        ∀ a ∈ replaceCells f cells m, a.2 = none → a.1 ∈ cssNone := by
    intro f cells m hcells a ha
    unfold replaceCells at ha
    split at ha
    · exact hcells a ha
    · intro _
      obtain ⟨c, hc, rfl⟩ := List.mem_map.mp ha
      exact hc
  refine forall_mem_rewrite (hnew _) (forall_mem_rewrite (hnew _) fun a ha hnone => ?_)
  exact absurd hnone (isSome_of_mem_danger a ha)

/-! ### An end tag that is left -/

/-- Cells of the text with nothing cut between them stood in a row. -/
theorem row_of_chain : ∀ {w : List Cell}, w.IsChain Beside → (∀ a ∈ w, a.2 ≠ none) →
    (∀ a ∈ w, isCut a.1 = false) → ∃ i, w.map Prod.snd = (List.range' i w.length).map some
  | [], _, _, _ => ⟨0, rfl⟩
  | [a], _, hsome, _ => by
      obtain ⟨i, hi⟩ := Option.ne_none_iff_exists'.mp (hsome a List.mem_cons_self)
      exact ⟨i, by simp [hi]⟩
  | a :: b :: rest, hchain, hsome, hcut => by
      rw [List.isChain_cons_cons] at hchain
      obtain ⟨j, hj⟩ := row_of_chain hchain.2 (fun c hc => hsome c (List.mem_cons_of_mem _ hc))
        fun c hc => hcut c (List.mem_cons_of_mem _ hc)
      obtain ⟨i, hi⟩ := Option.ne_none_iff_exists'.mp (hsome a List.mem_cons_self)
      have hb : b.2 = some j := by
        rw [List.map_cons, List.length_cons, List.range'_succ, List.map_cons] at hj
        exact (List.cons.inj hj).1
      have hnext : j = i + 1 := by
        refine (hchain.1 i j hi hb).resolve_right fun hcutA => ?_
        rw [hcut a List.mem_cons_self] at hcutA
        cases hcutA
      refine ⟨i, ?_⟩
      rw [List.map_cons, hj, hi, hnext, List.length_cons (a := a), List.range'_succ, List.map_cons]

/-- The characters of an end tag are none of the word `none` but for the last, and end no
declaration. -/
theorem endTag_chars {w : Text} (h : isEndTag w = true) :
    ∃ init last, w = init ++ [last] ∧ asciiLower last = 'e' ∧ (∀ c ∈ init, c ∉ cssNone) ∧
      (∀ c ∈ w, isCut c = false) ∧ w.length = 7 := by
  have hmap : w.map asciiLower = "</style".toList := by simpa [isEndTag] using h
  have hlen : w.length = 7 := by
    have hlength := congrArg List.length hmap
    rw [List.length_map] at hlength
    exact hlength
  have hne : w ≠ [] := by
    rintro rfl
    cases hlen
  have hsplit := List.dropLast_append_getLast hne
  have hinit : w.dropLast.map asciiLower = "</styl".toList := by
    rw [List.map_dropLast, hmap]
    rfl
  refine ⟨w.dropLast, w.getLast hne, hsplit.symm, ?_, ?_, ?_, hlen⟩
  · have hlast : (w.map asciiLower).getLast? = some 'e' := by
      rw [hmap]
      rfl
    rw [List.getLast?_map, List.getLast?_eq_some_getLast hne] at hlast
    exact Option.some.inj hlast
  · intro c hc hnone
    have hmem : asciiLower c ∈ "</styl".toList := by
      rw [← hinit]
      exact List.mem_map_of_mem hc
    have hall : cssNone.all (fun c => !"</styl".toList.contains (asciiLower c)) = true := by decide
    have hfalse := List.all_eq_true.mp hall c hnone
    rw [List.contains_iff_mem.mpr hmem] at hfalse
    cases hfalse
  · intro c hc
    have hmem : asciiLower c ∈ "</style".toList := by
      rw [← hmap]
      exact List.mem_map_of_mem hc
    have hall : (";\x7b\x7d".toList.all fun c => !"</style".toList.contains (asciiLower c)) = true := by
      decide
    by_contra hcut
    have htrue : isCut c = true := Bool.not_eq_false _ |>.mp hcut
    rw [isCut, noneOf, Bool.not_not] at htrue
    have hfalse := List.all_eq_true.mp hall c (List.contains_iff_mem.mp htrue)
    rw [List.contains_iff_mem.mpr hmem] at hfalse
    cases hfalse

/-- **Nothing but what stood in the text** can make up an end tag. -/
theorem endsStyle_survivors {allowRemote : Bool} {v : Text} :
    EndsStyle ((survivors allowRemote v).map Prod.fst) ↔ BreaksOut allowRemote v := by
  constructor
  · rintro ⟨w', hw', hend⟩
    obtain ⟨w, hw, rfl⟩ := List.infix_map_iff.mp hw'
    have hchain : w.IsChain Adjacent := by
      obtain ⟨before, after, heq⟩ := hw
      have hall := chain_survivors allowRemote v
      rw [← heq] at hall
      exact hall.left_of_append.right_of_append
    obtain ⟨init, last, hsplit, hlast, hinit, hcut, hlen⟩ := endTag_chars hend
    have hsome : ∀ a ∈ w, a.2 ≠ none := by
      obtain ⟨wi, wl, rfl, hwi, hwl⟩ := List.map_eq_append_iff.mp hsplit
      obtain ⟨a, rfl, rfl⟩ := List.map_eq_singleton_iff.mp hwl
      have holder : ∀ b ∈ wi, b.2 ≠ none := by
        intro b hb hnone
        have hnew := mem_survivors b (hw.subset (List.mem_append_left _ hb)) hnone
        exact hinit b.1 (by rw [← hwi]; exact List.mem_map_of_mem hb) hnew
      intro b hb hnone
      rcases List.mem_append.mp hb with hb | hb
      · exact holder b hb hnone
      · obtain rfl := List.mem_singleton.mp hb
        -- the last character is the `e` of a new word, and stands behind a cell of the text
        have hnew := mem_survivors b (hw.subset (List.mem_append_right _ hb)) hnone
        have he : ∀ c ∈ cssNone, asciiLower c = 'e' → c = 'e' := by
          simp [cssNone, asciiLower]
        have hlenw : wi.length + 1 = 7 := by simpa using hlen
        have hwine : wi ≠ [] := by
          rintro rfl
          cases hlenw
        have hadjacent := (List.isChain_append.mp hchain).2.2 (wi.getLast hwine)
          (List.getLast?_eq_some_getLast hwine) b rfl
        exact holder _ (List.getLast_mem hwine) (hadjacent.2 hnone (he b.1 hnew hlast))
    obtain ⟨i, hi⟩ := row_of_chain (hchain.imp fun a b hab => hab.1) hsome fun a ha =>
      hcut a.1 (List.mem_map_of_mem ha)
    rw [List.length_map] at hlen
    exact ⟨i, w, hw, hend, by rw [hi, hlen]⟩
  · rintro ⟨i, w, hw, hend, -⟩
    exact ⟨w.map Prod.fst, hw.map Prod.fst, hend⟩

/-! ### The style blocks of a mail -/

/-- The texts of style elements that the tokens have for a reader in this state. -/
def styleTexts (lib : Library) (allowRemote : Bool) : State → List Token → List Text
  | _, [] => []
  | st, tok :: rest =>
      (if st.inStyle && tok.type == .text then [tok.data] else []) ++
        styleTexts lib allowRemote (step lib allowRemote st tok) rest

/-- The texts of style elements that count, where the mail has not been left out. -/
def styleTextsOf (lib : Library) (input : Text) (allowRemote : Bool) : List Text :=
  if Text.trimSpace input = [] then []
  else styleTexts lib allowRemote .init (lib.tokenize (clip maxInput input))

/-- The CSS emitted between style tags. -/
def emittedStyles (lib : Library) (input : Text) (allowRemote : Bool) : List Text :=
  if Text.trimSpace input = [] then [] else (scanTokens lib input allowRemote).styles

/-- What the whitelist has let through. -/
def emittedRest (lib : Library) (input : Text) (allowRemote : Bool) : Text :=
  if Text.trimSpace input = [] then []
  else lib.policySanitize (scanTokens lib input allowRemote).out

theorem sanitize_html (lib : Library) (input : Text) (allowRemote : Bool) :
    (sanitize lib input allowRemote).html
      = (emittedStyles lib input allowRemote).flatMap styleBlock
        ++ emittedRest lib input allowRemote := by
  unfold sanitize emittedStyles emittedRest
  by_cases hblank : Text.trimSpace input = []
  · rw [if_pos hblank, if_pos hblank, if_pos hblank]
    rfl
  · rw [if_neg hblank, if_neg hblank, if_neg hblank]
    rfl

theorem readToken_styles (lib : Library) (allowRemote : Bool) (st : State) (tok : Token) :
    (readToken lib allowRemote st tok).styles = st.styles := by
  unfold readToken
  dsimp only
  split
  · rfl
  · split <;> rfl
  · rfl
  · rfl
  all_goals
    split
    · rfl
    · split
      · split <;> rfl
      · split <;> rfl

theorem step_styles (lib : Library) (allowRemote : Bool) (st : State) (tok : Token) :
    (step lib allowRemote st tok).styles = st.styles ++
      (if st.inStyle && tok.type == .text then [tok.data] else []).map
        fun t => (sanitizeCSS t allowRemote).1 := by
  unfold step
  by_cases hin : st.inStyle = true
  · rw [if_pos hin, hin]
    cases tok.type with
    | text => rfl
    | startTag | endTag | selfClosingTag | comment | doctype => exact (List.append_nil _).symm
  · rw [if_neg hin, Bool.eq_false_iff.mpr hin, Bool.false_and, if_neg Bool.false_ne_true,
      List.map_nil, List.append_nil]
    split
    · dsimp only
      split
      · rfl
      · split
        · split <;> rfl
        · rfl
    · exact readToken_styles lib allowRemote st tok

theorem foldl_step_styles (lib : Library) (allowRemote : Bool) (toks : List Token) :
    ∀ st, (toks.foldl (step lib allowRemote) st).styles = st.styles ++
      (styleTexts lib allowRemote st toks).map fun t => (sanitizeCSS t allowRemote).1 := by
  induction toks with
  | nil =>
      intro st
      exact (List.append_nil _).symm
  | cons tok rest ih =>
      intro st
      rw [List.foldl_cons, ih, step_styles, styleTexts, List.map_append, List.append_assoc]

theorem emittedStyles_eq (lib : Library) (input : Text) (allowRemote : Bool) :
    emittedStyles lib input allowRemote
      = (styleTextsOf lib input allowRemote).map fun t => (sanitizeCSS t allowRemote).1 := by
  unfold emittedStyles styleTextsOf
  by_cases hblank : Text.trimSpace input = []
  · rw [if_pos hblank, if_pos hblank]
    rfl
  · rw [if_neg hblank, if_neg hblank]
    exact foldl_step_styles lib allowRemote _ .init

/-! ### Reading the output -/

/-- What may follow the name in a tag. -/
def endsName (c : Char) : Bool := isBlank c || c == '/' || c == '>'

/-- What HTML reads outside of style elements. Inside, only the end tag counts. The first
`n` characters are passed over. -/
def outside : Bool → Nat → Text → Text
  | _, _, [] => []
  | inside, n + 1, _ :: rest => outside inside n rest
  | false, 0, c :: rest =>
      if "<style>".toList.isPrefixOf (c :: rest) then outside true 6 rest
      else c :: outside false 0 rest
  | true, 0, c :: rest =>
      if isEndTag ((c :: rest).take 7) && ((c :: rest).drop 7).head?.any endsName then
        outside false ((rest.takeWhile fun x => x != '>').length + 1) rest
      else outside true 0 rest

/-- Where the text before an end tag contains none, none begins in it. -/
theorem not_isEndTag {c : Char} {css : Text} (rest : Text) (h : ¬ EndsStyle (c :: css)) :
    isEndTag ((c :: css ++ "</style>\n".toList ++ rest).take 7) = false := by
  by_contra hend
  have htag := Bool.not_eq_false _ |>.mp hend
  rw [List.append_assoc] at htag
  by_cases hlen : 7 ≤ (c :: css).length
  · rw [List.take_append_of_le_length hlen] at htag
    exact h ⟨_, (List.take_prefix 7 (c :: css)).isInfix, htag⟩
  · -- the end tag's first character stands where the beginning of an end tag has another
    have hmap : (((c :: css) ++ ("</style>\n".toList ++ rest)).take 7).map asciiLower
        = "</style".toList := by simpa [isEndTag] using htag
    have hget := congrArg (fun l => l[(c :: css).length]?) hmap
    have hlt : (c :: css).length < 7 := Nat.lt_of_not_le hlen
    have hleft : ((((c :: css) ++ ("</style>\n".toList ++ rest)).take 7).map
        asciiLower)[(c :: css).length]? = some '<' := by
      rw [List.getElem?_map, List.getElem?_take, if_pos hlt,
        List.getElem?_append_right (Nat.le_refl _), Nat.sub_self]
      rfl
    have hright : ∀ k, k < 7 → 0 < k → "</style".toList[k]? ≠ some '<' := by decide
    rw [hleft] at hget
    exact hright _ hlt (by rw [List.length_cons]; exact Nat.succ_pos _) hget.symm

theorem EndsStyle.cons {c : Char} {css : Text} (h : EndsStyle css) : EndsStyle (c :: css) := by
  obtain ⟨w, hw, hend⟩ := h
  exact ⟨w, List.infix_cons hw, hend⟩

theorem outside_style {css : Text} (rest : Text) (h : ¬ EndsStyle css) :
    outside true 0 (css ++ "</style>\n".toList ++ rest) = '\n' :: outside false 0 rest := by
  induction css with
  | nil => rfl
  | cons c css ih =>
      rw [List.cons_append, List.cons_append, outside]
      have hnot := not_isEndTag rest h
      rw [List.cons_append, List.cons_append] at hnot
      rw [hnot, Bool.false_and, if_neg Bool.false_ne_true]
      exact ih fun hends => h hends.cons

/-- **A block without an end tag in it is read as one style element.** -/
theorem outside_styleBlock {css : Text} (rest : Text) (h : ¬ EndsStyle css) :
    outside false 0 (styleBlock css ++ rest) = '\n' :: outside false 0 rest := by
  unfold styleBlock
  rw [List.append_assoc, List.append_assoc, ← List.append_assoc css]
  exact outside_style rest h

theorem outside_styleBlocks {blocks : List Text} (rest : Text)
    (h : ∀ css ∈ blocks, ¬ EndsStyle css) :
    outside false 0 (blocks.flatMap styleBlock ++ rest)
      = List.replicate blocks.length '\n' ++ outside false 0 rest := by
  induction blocks with
  | nil => rfl
  | cons css blocks ih =>
      rw [List.flatMap_cons, List.append_assoc,
        outside_styleBlock _ (h css List.mem_cons_self),
        ih fun css hcss => h css (List.mem_cons_of_mem _ hcss)]
      rfl

/-- **No style block contains an end tag just when none stands where it is left alone**, and
then what is read outside of the blocks is what the whitelist has let through. -/
theorem style_stays_closed_iff (lib : Library) (input : Text) (allowRemote : Bool) :
    ((∀ css ∈ emittedStyles lib input allowRemote, ¬ EndsStyle css) ↔
        ∀ t ∈ styleTextsOf lib input allowRemote, ¬ BreaksOut allowRemote (rewritten t)) ∧
      ((∀ t ∈ styleTextsOf lib input allowRemote, ¬ BreaksOut allowRemote (rewritten t)) →
        outside false 0 (sanitize lib input allowRemote).html
          = List.replicate (emittedStyles lib input allowRemote).length '\n'
            ++ outside false 0 (emittedRest lib input allowRemote)) := by
  have hiff : (∀ css ∈ emittedStyles lib input allowRemote, ¬ EndsStyle css) ↔
      ∀ t ∈ styleTextsOf lib input allowRemote, ¬ BreaksOut allowRemote (rewritten t) := by
    rw [emittedStyles_eq, List.forall_mem_map]
    refine forall₂_congr fun t _ => not_congr ?_
    rw [sanitizeCSS_eq]
    exact endsStyle_survivors
  refine ⟨hiff, fun h => ?_⟩
  rw [sanitize_html]
  exact outside_styleBlocks _ (hiff.mpr h)

/-! ### An end tag written with an escape -/

private def escaped : Text := "\\3c/style>x".toList

private def escapedMail : Text := "<style>".toList ++ escaped ++ "</style>".toList

/-- A library that reads this mail. -/
private def reader : Library where
  tokenize := fun t =>
    if t = escapedMail then
      [⟨.startTag, "style".toList, []⟩, ⟨.text, escaped, []⟩, ⟨.endTag, "style".toList, []⟩]
    else []
  escapeString := id
  toLower := toLower
  policySanitize := id

/-- **A style block that is closed by its own text.** -/
theorem escaped_end_tag : ¬ ∀ (lib : Library) (input : Text) (allowRemote : Bool),
    (∀ t ∈ styleTextsOf lib input allowRemote, ¬ EndsStyle t) →
    ∀ css ∈ emittedStyles lib input allowRemote, ¬ EndsStyle css := by
  intro h
  have htexts : styleTextsOf reader escapedMail false = [escaped] := rfl
  have hemitted : emittedStyles reader escapedMail false = ["</style>x".toList] := rfl
  have hplain : ∀ t ∈ styleTextsOf reader escapedMail false, ¬ EndsStyle t := by
    rw [htexts]
    rintro t ht ⟨w, hw, hend⟩
    obtain rfl := List.mem_singleton.mp ht
    have hmap : w.map asciiLower = "</style".toList := by simpa [isEndTag] using hend
    have hmem : '<' ∈ w.map asciiLower := by
      rw [hmap]
      exact List.mem_cons_self
    obtain ⟨c, hc, hlower⟩ := List.mem_map.mp hmem
    have hother : (escaped.all fun c => !asciiLower c == '<') = true := by decide
    have hfalse := List.all_eq_true.mp hother c (hw.subset hc)
    rw [hlower] at hfalse
    cases hfalse
  exact h reader escapedMail false hplain _ (by rw [hemitted]; exact List.mem_singleton.mpr rfl)
    ⟨"</style".toList, ⟨[], ">x".toList, rfl⟩, rfl⟩

end FlyMail.Htmlsan
