/-
Remote references, counted with blocking and without.

What is looked at in a mail is the same whether its references are blocked or not
(`itemsOf_eq`): style blocks and attributes, one after another.  What is counted in one of
them is followed on cells that know where they stood, so that every reference counted is
told from the others: an `@import`, a `url()`, a string in an `image-set()` or an attribute.

An `image-set()` is looked at before the `url()`s are, and blocking takes it out.  What
stands in it may be seen by both patterns, or by none, and a `url()` in it only if it is not
blocked.  `counted_once_iff` says when the references are counted once each, and as many
with blocking as without.
-/
import FlyMail.Proofs.Style
import Mathlib.Data.List.Nodup

namespace FlyMail.Htmlsan

open Pattern

/-! ### What is looked at -/

/-- A part of a mail in which references are looked for. -/
inductive Item
  | block (css : Text)
  | attr (key val : Text)

def attrItems (lib : Library) (attrs : List Attribute) : List Item :=
  attrs.map fun a => .attr (a.key.map lib.toLower) a.val

/-- What a reader in this state looks at in the token. -/
def itemsAt (lib : Library) (st : State) (tok : Token) : List Item :=
  if st.inStyle then
    match tok.type with
    | .text => [.block tok.data]
    | _ => []
  else if st.skip ≠ [] then []
  else
    let name := tok.data.map lib.toLower
    match tok.type with
    | .startTag | .selfClosingTag =>
        if name = "style".toList then []
        else if isIn dropWithContent name then []
        else if isIn dropTagOnly name then []
        else attrItems lib tok.attr
    | _ => []

def itemsFrom (lib : Library) (allowRemote : Bool) : State → List Token → List Item
  | _, [] => []
  | st, tok :: rest =>
      itemsAt lib st tok ++ itemsFrom lib allowRemote (step lib allowRemote st tok) rest

def itemsOf (lib : Library) (input : Text) (allowRemote : Bool) : List Item :=
  if Text.trimSpace input = [] then []
  else itemsFrom lib allowRemote .init (lib.tokenize (clip maxInput input))

/-! ### What is counted -/

/-- A reference, and where it begins. -/
inductive Reference
  /-- An `@import`. -/
  | imported (place : Option Nat)
  /-- A string in an `image-set()`. -/
  | quoted (place : Option Nat)
  /-- A `url()`. -/
  | url (place : Option Nat)
  /-- An attribute that is a reference as a whole. -/
  | whole
  deriving DecidableEq

/-- Where the first of the cells stood, if the match counts. -/
def placeIf (counts : Match → Bool) (cells : List Cell) (m : Match) : List (Option Nat) :=
  if counts m then (cells.take 1).map Prod.snd else []

def importCounts (m : Match) : Bool := isRemote (extractURLArg m.taken)

def stringCounts (m : Match) : Bool := isRemote (trim isQuote m.taken)

def urlCounts (m : Match) : Bool := !isDangerousURL (urlOf m) && isRemote (urlOf m)

def importsIn (cells : List Cell) : List (Option Nat) :=
  reImport.gather Prod.fst (placeIf importCounts) cells

/-- The strings that the pattern for `image-set()` comes upon. -/
def stringsIn (cells : List Cell) : List (Option Nat) :=
  reImageSet.gather Prod.fst
    (fun set _ => reQuoted.gather Prod.fst (placeIf stringCounts) set) cells

def urlsIn (cells : List Cell) : List (Option Nat) :=
  reCSSURL.gather Prod.fst (placeIf urlCounts) cells

/-- The CSS with escapes resolved. -/
def unescaped (css : Text) : List Cell := cellsOf (cssUnescape css)

/-- What is left of the CSS whatever the reader allows, but for links to scripts. -/
def readable (css : Text) : List Cell :=
  reDanger.rewrite Prod.fst (fun _ _ => []) (reImport.rewrite Prod.fst (fun _ _ => []) (unescaped css))

/-- The cells when `image-set()` has been looked at. -/
def afterSets (allowRemote : Bool) (cells : List Cell) : List Cell :=
  reImageSet.rewrite Prod.fst (replaceCells (imageSetOne allowRemote)) cells

def countedCSS (css : Text) (allowRemote : Bool) : List Reference :=
  (importsIn (unescaped css)).map .imported ++ ((stringsIn (readable css)).map .quoted ++
    (urlsIn (afterSets allowRemote (readable css))).map .url)

/-- The references that are counted in the item. -/
def counted (allowRemote : Bool) : Item → List Reference
  | .block css => countedCSS css allowRemote
  | .attr key val =>
      if key = "style".toList then countedCSS val allowRemote
      else List.replicate (cleanAttr [] key val allowRemote).2 .whole

/-! ### What is a reference -/

/-- Arguments with balanced parentheses, and the strings that stand directly in them. -/
inductive Args : List Cell → List (List Cell) → Prop
  | nil : Args [] []
  | other {a : Cell} {rest : List Cell} {strings : List (List Cell)} :
      isQuote a.1 = false → a.1 ≠ '(' → a.1 ≠ ')' → Args rest strings → Args (a :: rest) strings
  | string {a b : Cell} {body rest : List Cell} {strings : List (List Cell)} :
      isQuote a.1 = true → b.1 = a.1 → (∀ c ∈ body, c.1 ≠ a.1) → Args rest strings →
      Args (a :: body ++ b :: rest) ((a :: body ++ [b]) :: strings)
  | parens {a b : Cell} {inner rest : List Cell} {others strings : List (List Cell)} :
      a.1 = '(' → b.1 = ')' → Args inner others → Args rest strings →
      Args (a :: inner ++ b :: rest) strings

/-- An `image-set()` with these arguments stands in the cells. -/
def HasSet (cells args : List Cell) : Prop :=
  ∃ before opening close after, cells = before ++ (opening ++ (args ++ close :: after)) ∧
    List.Forall₂ (fun c a => sameFold c a.1 = true) "image-set(".toList opening ∧ close.1 = ')'

/-- A remote string stands there directly in an `image-set()`. -/
def Direct (cells : List Cell) (place : Option Nat) : Prop :=
  ∃ args strings, HasSet cells args ∧ Args args strings ∧
    ∃ s ∈ strings, isRemote (trim isQuote (s.map Prod.fst)) = true ∧ s.head?.bind Prod.snd = place

/-- The CSS has this reference. What is taken out whatever the reader allows has none. -/
def InCSS (css : Text) : Reference → Prop
  | .imported place => place ∈ importsIn (unescaped css)
  | .quoted place => Direct (readable css) place
  | .url place => place ∈ urlsIn (readable css)
  | .whole => False

/-- The references of a `srcset` to choose from. -/
def candidates (val : Text) : List Text :=
  (Text.commaSplit val).filterMap fun cand => (Text.fields cand).head?

/-- The attribute makes its element fetch something remote. -/
def Fetches (key val : Text) : Prop :=
  isIn urlAttrs key = true ∧ isDangerousURL val = false ∧
    if key = "srcset".toList then ∃ u ∈ candidates val, isRemote u = true else isRemote val = true

def IsReference : Item → Reference → Prop
  | .block css, r => InCSS css r
  | .attr key val, r =>
      if key = "style".toList then InCSS val r else r = .whole ∧ Fetches key val

/-- **The references of the mail are counted once each**, and nothing else is, with blocking
and without, so that the numbers are the same. -/
def CountedOnce (lib : Library) (input : Text) : Prop :=
  (sanitize lib input true).remoteCount = (sanitize lib input false).remoteCount ∧
    ∀ allowRemote, ∀ item ∈ itemsOf lib input allowRemote,
      (counted allowRemote item).Nodup ∧ ∀ r, r ∈ counted allowRemote item ↔ IsReference item r

/-! ### When that is so -/

/-- The pattern for `image-set()` comes upon the strings that stand directly in one, and
blocking them leaves the other references alone. -/
def ClearCSS (css : Text) : Prop :=
  (∀ place, place ∈ stringsIn (readable css) ↔ Direct (readable css) place) ∧
    (urlsIn (afterSets false (readable css))).Perm (urlsIn (readable css))

/-- And no `srcset` has a link to a script to choose from, but nothing remote. -/
def Clear : Item → Prop
  | .block css => ClearCSS css
  | .attr key val =>
      if key = "style".toList then ClearCSS val
      else key = "srcset".toList → isDangerousURL val = false →
        (∃ u ∈ candidates val, isDangerousURL u = true) → ∃ u ∈ candidates val, isRemote u = true

/-! ### What is looked at does not depend on the reader -/

/-- What decides how the next token is read. -/
def State.mode (st : State) : Bool × Text × Nat := (st.inStyle, st.skip, st.skipDep)

theorem itemsAt_congr (lib : Library) {st st' : State} (h : st.mode = st'.mode) (tok : Token) :
    itemsAt lib st tok = itemsAt lib st' tok := by
  obtain ⟨hstyle, hskip⟩ := Prod.mk.inj h
  unfold itemsAt
  rw [hstyle, (Prod.mk.inj hskip).1]

theorem readToken_mode (lib : Library) (a b : Bool) {st st' : State} (h : st.mode = st'.mode)
    (tok : Token) : (readToken lib a st tok).mode = (readToken lib b st' tok).mode := by
  obtain ⟨hstyle, hskip⟩ := Prod.mk.inj h
  obtain ⟨hskip, hdepth⟩ := Prod.mk.inj hskip
  unfold readToken State.mode
  cases tok.type with
  | text | comment | doctype => exact h
  | endTag =>
      dsimp only
      split
      · exact h
      · exact h
  | startTag | selfClosingTag =>
      dsimp only
      split
      · rw [hskip, hdepth]
      · split
        · split
          · rw [hstyle]
          · exact h
        · split
          · exact h
          · exact h

theorem step_mode (lib : Library) (a b : Bool) {st st' : State} (h : st.mode = st'.mode)
    (tok : Token) : (step lib a st tok).mode = (step lib b st' tok).mode := by
  obtain ⟨hstyle, hskip⟩ := Prod.mk.inj h
  obtain ⟨hskip, hdepth⟩ := Prod.mk.inj hskip
  unfold step
  rw [hstyle, hskip, hdepth]
  split
  · cases tok.type with
    | text | startTag | endTag | selfClosingTag | comment | doctype => rfl
  · split
    · dsimp only
      split
      · rfl
      · split
        · split
          · rfl
          · rfl
        · exact h
    · exact readToken_mode lib a b h tok

theorem itemsFrom_congr (lib : Library) (a b : Bool) (toks : List Token) :
    ∀ {st st' : State}, st.mode = st'.mode → itemsFrom lib a st toks = itemsFrom lib b st' toks := by
  induction toks with
  | nil => exact fun _ => rfl
  | cons tok rest ih =>
      intro st st' h
      rw [itemsFrom, itemsFrom, itemsAt_congr lib h, ih (step_mode lib a b h tok)]

/-- **Blocking changes nothing about what is looked at.** -/
theorem itemsOf_eq (lib : Library) (input : Text) (a b : Bool) :
    itemsOf lib input a = itemsOf lib input b := by
  unfold itemsOf
  rw [itemsFrom_congr lib a b _ rfl]

/-! ### The number that is reported -/

theorem length_placeIf {counts : Match → Bool} {cells : List Cell} {m : Match} (h : cells ≠ []) :
    (placeIf counts cells m).length = if counts m then 1 else 0 := by
  unfold placeIf
  split
  · cases cells with
    | nil => exact absurd rfl h
    | cons a rest => rfl
  · rfl

/-- What is gathered from the cells is as much as the code counts in the text. -/
theorem length_gather_placeIf (p : Pattern) (counts : Match → Bool) (cells : List Cell) :
    (p.gather Prod.fst (placeIf counts) cells).length
      = countRemote p (fun m => if counts m then 1 else 0) (cells.map Prod.fst) :=
  length_gather (fun _ _ hne _ => length_placeIf hne) cells

theorem quotedURLs_countP (t : Text) : (quotedURLs t).countP isRemote
    = countRemote reQuoted (fun m => if stringCounts m then 1 else 0) t := by
  unfold quotedURLs countRemote
  rw [List.countP_map]
  induction reQuoted.findAll t with
  | nil => rfl
  | cons m rest ih =>
      rw [List.countP_cons, ih, List.map_cons, List.sum_cons, Nat.add_comm]
      rfl

theorem length_stringsIn (cells : List Cell) : (stringsIn cells).length
    = countRemote reImageSet (fun m => (quotedURLs m.taken).countP isRemote) (cells.map Prod.fst) := by
  refine length_gather (fun set m _ htaken => ?_) cells
  rw [length_gather_placeIf, htaken, quotedURLs_countP]

theorem map_fst_readable (css : Text) : (readable css).map Prod.fst
    = reDanger.replaceAll (fun _ => []) (reImport.replaceAll (fun _ => []) (cssUnescape css)) := by
  have himport : (reImport.rewrite Prod.fst (fun _ _ => []) (unescaped css)).map Prod.fst
      = reImport.rewrite id (fun _ _ => []) ((unescaped css).map Prod.fst) :=
    @rewrite_map Cell Char reImport id Prod.fst _ _ (fun _ _ _ => rfl) _
  have hdanger := @rewrite_map Cell Char reDanger id Prod.fst (fun _ _ => []) (fun _ _ => [])
    (fun _ _ _ => rfl) (reImport.rewrite Prod.fst (fun _ _ => []) (unescaped css))
  unfold readable
  refine hdanger.trans ?_
  unfold unescaped at himport
  rw [map_fst_cellsOf] at himport
  exact congrArg (reDanger.rewrite id fun _ _ => []) himport

theorem map_fst_afterSets (allowRemote : Bool) (cells : List Cell) :
    (afterSets allowRemote cells).map Prod.fst
      = reImageSet.replaceAll (imageSetOne allowRemote) (cells.map Prod.fst) :=
  @rewrite_map Cell Char reImageSet id Prod.fst _ (fun _ => imageSetOne allowRemote)
    (fun _ _ h => replaceCells_map (imageSetOne_eq allowRemote) h) cells

/-- **As many references are counted in the CSS** as the code reports. -/
theorem length_countedCSS (css : Text) (allowRemote : Bool) :
    (countedCSS css allowRemote).length = (sanitizeCSS css allowRemote).2 := by
  have himports : (importsIn (unescaped css)).length
      = countRemote reImport (fun m => if isRemote (extractURLArg m.taken) then 1 else 0)
          (cssUnescape css) := by
    have hlength := length_gather_placeIf reImport importCounts (unescaped css)
    unfold unescaped at hlength
    rwa [map_fst_cellsOf] at hlength
  have hstrings := length_stringsIn (readable css)
  rw [map_fst_readable] at hstrings
  have hurls : (urlsIn (afterSets allowRemote (readable css))).length = _ :=
    length_gather_placeIf reCSSURL urlCounts (afterSets allowRemote (readable css))
  rw [map_fst_afterSets, map_fst_readable] at hurls
  have hcounts : (fun m => if urlCounts m then 1 else 0)
      = fun m => if isDangerousURL (urlOf m) then 0 else if isRemote (urlOf m) then 1 else 0 := by
    funext m
    unfold urlCounts
    cases isDangerousURL (urlOf m) with
    | true => rfl
    | false => rw [Bool.not_false, Bool.true_and]; rfl
  rw [hcounts] at hurls
  unfold countedCSS
  rw [List.length_append, List.length_append, List.length_map, List.length_map, List.length_map,
    himports, hstrings, hurls, ← Nat.add_assoc]
  rfl

/-- The attribute counts. -/
def attrCounts (key val : Text) : Bool :=
  isIn urlAttrs key && !isDangerousURL val &&
    if key = "srcset".toList then srcsetHasRemote val else isRemote val

/-- None of the attributes that may be references is treated in another way. -/
theorem of_isIn_urlAttrs {key : Text} (h : isIn urlAttrs key = true) :
    hasPrefix key "on" = false ∧ ¬ (key = "rel".toList ∨ key = "target".toList) ∧
      key ≠ "href".toList := by
  obtain ⟨s, hs, hkey⟩ := List.any_eq_true.mp h
  obtain rfl := beq_iff_eq.mp hkey
  have hall : ∀ s ∈ urlAttrs, hasPrefix s.toList "on" = false ∧
      ¬ (s.toList = "rel".toList ∨ s.toList = "target".toList) ∧ s.toList ≠ "href".toList := by
    decide
  exact hall s hs

theorem cleanAttr_count {key : Text} (h : key ≠ "style".toList) (name val : Text)
    (allowRemote : Bool) :
    (cleanAttr name key val allowRemote).2 = if attrCounts key val then 1 else 0 := by
  unfold cleanAttr
  by_cases hurl : isIn urlAttrs key = true
  · obtain ⟨hon, hrel, hhref⟩ := of_isIn_urlAttrs hurl
    unfold attrCounts
    rw [if_neg (Bool.eq_false_iff.mp hon), if_neg hrel, if_neg h, if_neg hhref, if_pos hurl, hurl,
      Bool.true_and]
    by_cases hdanger : isDangerousURL val = true
    · rw [if_pos hdanger, hdanger]
      rfl
    · rw [if_neg hdanger, Bool.eq_false_iff.mpr hdanger, Bool.not_false, Bool.true_and]
      split
      · split
        · rfl
        · rfl
      · split
        · split
          · rfl
          · split
            · rfl
            · rfl
        · rfl
  · have hnone : attrCounts key val = false := by
      unfold attrCounts
      rw [Bool.eq_false_iff.mpr hurl]
      rfl
    rw [if_neg hurl, hnone, if_neg h, if_neg Bool.false_ne_true]
    split
    · rfl
    · split
      · rfl
      · split
        · rfl
        · rfl

theorem cleanAttr_style (name val : Text) (allowRemote : Bool) :
    (cleanAttr name "style".toList val allowRemote).2 = (sanitizeCSS val allowRemote).2 := rfl

theorem length_counted_attr (name key val : Text) (allowRemote : Bool) :
    (counted allowRemote (.attr key val)).length = (cleanAttr name key val allowRemote).2 := by
  unfold counted
  dsimp only
  by_cases hstyle : key = "style".toList
  · rw [if_pos hstyle, hstyle, cleanAttr_style, length_countedCSS]
  · rw [if_neg hstyle, List.length_replicate, cleanAttr_count hstyle, cleanAttr_count hstyle]

/-- How many references are counted in the items. -/
def total (allowRemote : Bool) (items : List Item) : Nat :=
  (items.map fun item => (counted allowRemote item).length).sum

theorem total_append (allowRemote : Bool) (items more : List Item) :
    total allowRemote (items ++ more) = total allowRemote items + total allowRemote more := by
  unfold total
  rw [List.map_append, List.sum_append]

theorem writeAttrs_count (lib : Library) (name : Text) (allowRemote : Bool) (attrs : List Attribute) :
    (writeAttrs lib name allowRemote attrs).2 = total allowRemote (attrItems lib attrs) := by
  induction attrs with
  | nil => rfl
  | cons a rest ih =>
      have hhead := length_counted_attr name (a.key.map lib.toLower) a.val allowRemote
      have htotal : total allowRemote (attrItems lib (a :: rest))
          = (cleanAttr name (a.key.map lib.toLower) a.val allowRemote).2
            + (writeAttrs lib name allowRemote rest).2 := by
        rw [ih, ← hhead]
        rfl
      rw [htotal, writeAttrs]
      dsimp only
      split
      · rfl
      · rfl

theorem readToken_remote (lib : Library) (allowRemote : Bool) {st : State}
    (hstyle : st.inStyle = false) (hskip : st.skip = []) (tok : Token) :
    (readToken lib allowRemote st tok).remote
      = st.remote + total allowRemote (itemsAt lib st tok) := by
  unfold readToken itemsAt
  rw [hstyle, if_neg Bool.false_ne_true, if_neg (not_not_intro hskip)]
  cases tok.type with
  | text | comment | doctype => rfl
  | endTag =>
      dsimp only
      split
      · rfl
      · rfl
  | startTag | selfClosingTag =>
      dsimp only
      split
      · rfl
      · split
        · split
          · rfl
          · rfl
        · split
          · rfl
          · exact congrArg (st.remote + ·) (writeAttrs_count lib _ allowRemote tok.attr)

/-- **A token adds what is counted in its items.** -/
theorem step_remote (lib : Library) (allowRemote : Bool) (st : State) (tok : Token) :
    (step lib allowRemote st tok).remote = st.remote + total allowRemote (itemsAt lib st tok) := by
  by_cases hstyle : st.inStyle = true
  · unfold step itemsAt
    rw [if_pos hstyle, if_pos hstyle]
    cases tok.type with
    | text => exact congrArg (st.remote + ·) (length_countedCSS tok.data allowRemote).symm
    | startTag | endTag | selfClosingTag | comment | doctype => rfl
  · by_cases hskip : st.skip = []
    · unfold step
      rw [if_neg hstyle, if_neg (not_not_intro hskip)]
      exact readToken_remote lib allowRemote (Bool.eq_false_iff.mpr hstyle) hskip tok
    · unfold step itemsAt
      rw [if_neg hstyle, if_pos hskip, if_neg hstyle, if_pos hskip]
      dsimp only
      split
      · rfl
      · split
        · split
          · rfl
          · rfl
        · rfl

theorem foldl_step_remote (lib : Library) (allowRemote : Bool) (toks : List Token) :
    ∀ st, (toks.foldl (step lib allowRemote) st).remote
      = st.remote + total allowRemote (itemsFrom lib allowRemote st toks) := by
  induction toks with
  | nil => exact fun _ => rfl
  | cons tok rest ih =>
      intro st
      rw [List.foldl_cons, ih, step_remote, itemsFrom, total_append, Nat.add_assoc]

/-- **The number reported** is that of the references counted. -/
theorem sanitize_remoteCount (lib : Library) (input : Text) (allowRemote : Bool) :
    (sanitize lib input allowRemote).remoteCount
      = total allowRemote (itemsOf lib input allowRemote) := by
  unfold sanitize itemsOf
  by_cases hblank : Text.trimSpace input = []
  · rw [if_pos hblank, if_pos hblank]
    rfl
  · rw [if_neg hblank, if_neg hblank]
    refine (foldl_step_remote lib allowRemote _ .init).trans ?_
    exact Nat.zero_add _

/-! ### A reference is told from the others by its place -/

theorem sublist_placeIf (counts : Match → Bool) (cells : List Cell) (m : Match) :
    (placeIf counts cells m).Sublist (cells.map Prod.snd) := by
  unfold placeIf
  split
  · exact (List.take_sublist 1 cells).map Prod.snd
  · exact List.nil_sublist _

theorem sublist_urlsIn (cells : List Cell) : (urlsIn cells).Sublist (cells.map Prod.snd) :=
  sublist_gather (fun found m _ => sublist_placeIf urlCounts found m) cells

theorem sublist_importsIn (cells : List Cell) : (importsIn cells).Sublist (cells.map Prod.snd) :=
  sublist_gather (fun found m _ => sublist_placeIf importCounts found m) cells

theorem sublist_stringsIn (cells : List Cell) : (stringsIn cells).Sublist (cells.map Prod.snd) :=
  sublist_gather
    (fun set _ _ => sublist_gather (fun found m _ => sublist_placeIf stringCounts found m) set) cells

theorem nodup_unescaped (css : Text) : ((unescaped css).map Prod.snd).Nodup := by
  have hplaces : (unescaped css).map Prod.snd
      = (List.range' 0 (cssUnescape css).length).map some := by
    rw [← List.zipIdx_map_snd 0 (cssUnescape css)]
    unfold unescaped cellsOf
    rw [List.map_map, List.map_map]
    rfl
  rw [hplaces]
  refine List.Nodup.map (fun _ _ heq => Option.some.inj heq) List.nodup_range'

theorem sublist_readable (css : Text) : (readable css).Sublist (unescaped css) :=
  (sublist_rewrite (fun _ _ => List.nil_sublist _) _).trans
    (sublist_rewrite (fun _ _ => List.nil_sublist _) _)

theorem nodup_readable (css : Text) : ((readable css).map Prod.snd).Nodup :=
  ((sublist_readable css).map Prod.snd).nodup (nodup_unescaped css)

theorem afterSets_true (cells : List Cell) : afterSets true cells = cells := by
  refine rewrite_self (fun found m _ => if_pos ?_) cells
  unfold imageSetOne
  rw [Bool.not_true, Bool.and_false]
  rfl

theorem mem_countedCSS {css : Text} {allowRemote : Bool} {r : Reference} :
    r ∈ countedCSS css allowRemote ↔
      (∃ place ∈ importsIn (unescaped css), .imported place = r) ∨
      (∃ place ∈ stringsIn (readable css), .quoted place = r) ∨
      ∃ place ∈ urlsIn (afterSets allowRemote (readable css)), .url place = r := by
  unfold countedCSS
  rw [List.mem_append, List.mem_append, List.mem_map, List.mem_map, List.mem_map]

theorem nodup_countedCSS {css : Text} {allowRemote : Bool}
    (h : (urlsIn (afterSets allowRemote (readable css))).Nodup) : (countedCSS css allowRemote).Nodup := by
  have himports := (sublist_importsIn (unescaped css)).nodup (nodup_unescaped css)
  have hstrings := (sublist_stringsIn (readable css)).nodup (nodup_readable css)
  unfold countedCSS
  refine List.nodup_append.mpr ⟨himports.map fun _ _ heq => Reference.imported.inj heq,
    List.nodup_append.mpr ⟨hstrings.map fun _ _ heq => Reference.quoted.inj heq,
      h.map fun _ _ heq => Reference.url.inj heq, ?_⟩, ?_⟩
  · intro r hr r' hr'
    obtain ⟨place, -, rfl⟩ := List.mem_map.mp hr
    obtain ⟨place', -, rfl⟩ := List.mem_map.mp hr'
    exact fun heq => by cases heq
  · intro r hr r' hr'
    obtain ⟨place, -, rfl⟩ := List.mem_map.mp hr
    rcases List.mem_append.mp hr' with hr' | hr'
    · obtain ⟨place', -, rfl⟩ := List.mem_map.mp hr'
      exact fun heq => by cases heq
    · obtain ⟨place', -, rfl⟩ := List.mem_map.mp hr'
      exact fun heq => by cases heq

/-- **The references in CSS are counted once each** if the patterns do not get in each
other's way, and only then. -/
theorem countedCSS_once_iff (css : Text) :
    (∀ allowRemote, (countedCSS css allowRemote).Nodup ∧
      ∀ r, r ∈ countedCSS css allowRemote ↔ InCSS css r) ↔ ClearCSS css := by
  constructor
  · intro h
    have hquoted : ∀ place, place ∈ stringsIn (readable css) ↔ Direct (readable css) place := by
      intro place
      have hmem := (h true).2 (.quoted place)
      simpa only [mem_countedCSS, reduceCtorEq, and_false, exists_false, false_or, or_false,
        Reference.quoted.injEq, exists_eq_right, InCSS] using hmem
    have hurl : ∀ place, place ∈ urlsIn (afterSets false (readable css)) ↔
        place ∈ urlsIn (readable css) := by
      intro place
      have hmem := (h false).2 (.url place)
      simpa only [mem_countedCSS, reduceCtorEq, and_false, exists_false, false_or,
        Reference.url.injEq, exists_eq_right, InCSS] using hmem
    refine ⟨hquoted, (List.perm_ext_iff_of_nodup ?_ ?_).mpr hurl⟩
    · have hall := (h false).1
      unfold countedCSS at hall
      have hright := (List.nodup_append.mp (List.nodup_append.mp hall).2.1).2.1
      exact List.Nodup.of_map _ hright
    · exact (sublist_urlsIn (readable css)).nodup (nodup_readable css)
  · rintro ⟨hquoted, hurls⟩ allowRemote
    have hperm : (urlsIn (afterSets allowRemote (readable css))).Perm (urlsIn (readable css)) := by
      cases allowRemote with
      | true => rw [afterSets_true]
      | false => exact hurls
    have hnodup := (sublist_urlsIn (readable css)).nodup (nodup_readable css)
    refine ⟨nodup_countedCSS (hperm.nodup_iff.mpr hnodup), fun r => ?_⟩
    rw [mem_countedCSS]
    cases r with
    | imported place => simp [InCSS]
    | quoted place => simp [InCSS, hquoted]
    | url place => simp [InCSS, hperm.mem_iff]
    | whole => simp [InCSS]

theorem srcsetHasRemote_iff {val : Text} : srcsetHasRemote val = true ↔
    ∃ u ∈ candidates val, isRemote u = true ∨ isDangerousURL u = true := by
  unfold srcsetHasRemote candidates
  rw [List.any_eq_true]
  constructor
  · rintro ⟨cand, hcand, h⟩
    cases hfields : Text.fields cand with
    | nil =>
        rw [hfields] at h
        cases h
    | cons u rest =>
        rw [hfields] at h
        exact ⟨u, List.mem_filterMap.mpr ⟨cand, hcand, by rw [hfields]; rfl⟩,
          Bool.or_eq_true _ _ |>.mp h⟩
  · rintro ⟨u, hu, h⟩
    obtain ⟨cand, hcand, hhead⟩ := List.mem_filterMap.mp hu
    refine ⟨cand, hcand, ?_⟩
    obtain ⟨rest, hfields⟩ := List.head?_eq_some_iff.mp hhead
    rw [hfields]
    exact Bool.or_eq_true _ _ |>.mpr h

/-- An attribute counts just when it fetches something, unless it is a `srcset` with a link
to a script. -/
theorem attrCounts_iff (key val : Text) :
    ((attrCounts key val = true ↔ Fetches key val) ↔
      (key = "srcset".toList → isDangerousURL val = false →
        (∃ u ∈ candidates val, isDangerousURL u = true) →
          ∃ u ∈ candidates val, isRemote u = true)) := by
  unfold attrCounts Fetches
  by_cases hset : key = "srcset".toList
  · subst hset
    have hin : isIn urlAttrs "srcset".toList = true := by decide
    rw [hin, Bool.true_and, Bool.and_eq_true, Bool.not_eq_true', if_pos rfl, if_pos rfl,
      srcsetHasRemote_iff]
    constructor
    · rintro h - hplain ⟨u, hu, hdanger⟩
      exact (h.mp ⟨hplain, u, hu, Or.inr hdanger⟩).2.2
    · intro h
      constructor
      · rintro ⟨hplain, u, hu, hremote | hdanger⟩
        · exact ⟨rfl, hplain, u, hu, hremote⟩
        · exact ⟨rfl, hplain, h rfl hplain ⟨u, hu, hdanger⟩⟩
      · rintro ⟨-, hplain, u, hu, hremote⟩
        exact ⟨hplain, u, hu, Or.inl hremote⟩
  · rw [if_neg hset, if_neg hset, Bool.and_eq_true, Bool.and_eq_true, Bool.not_eq_true', and_assoc]
    exact ⟨fun _ heq => absurd heq hset, fun _ => Iff.rfl⟩

/-- **The references of an item are counted once each** just when it is clear. -/
theorem counted_once_item_iff (item : Item) :
    (∀ allowRemote, (counted allowRemote item).Nodup ∧
      ∀ r, r ∈ counted allowRemote item ↔ IsReference item r) ↔ Clear item := by
  cases item with
  | block css => exact countedCSS_once_iff css
  | attr key val =>
      unfold counted IsReference Clear
      dsimp only
      by_cases hstyle : key = "style".toList
      · rw [if_pos hstyle]
        refine Iff.trans ?_ (countedCSS_once_iff val)
        simp only [if_pos hstyle]
      · rw [if_neg hstyle, ← attrCounts_iff]
        simp only [if_neg hstyle, cleanAttr_count hstyle]
        constructor
        · intro h
          have hmem := (h false).2 .whole
          rw [List.mem_replicate] at hmem
          by_cases hcounts : attrCounts key val = true
          · rw [if_pos hcounts] at hmem
            exact ⟨fun _ => (hmem.mp ⟨Nat.one_ne_zero, rfl⟩).2, fun _ => hcounts⟩
          · rw [if_neg hcounts] at hmem
            exact ⟨fun heq => absurd heq hcounts, fun hfetches =>
              absurd rfl (hmem.mpr ⟨rfl, hfetches⟩).1⟩
        · intro h _
          by_cases hcounts : attrCounts key val = true
          · rw [if_pos hcounts]
            refine ⟨List.nodup_singleton _, fun r => ?_⟩
            rw [List.replicate_one, List.mem_singleton]
            exact ⟨fun hr => ⟨hr, h.mp hcounts⟩, fun hr => hr.1⟩
          · rw [if_neg hcounts]
            refine ⟨List.nodup_nil, fun r => ⟨fun hr => ?_, fun hr => ?_⟩⟩
            · cases hr
            · exact absurd (h.mpr hr.2) hcounts

/-- Where the references of all items are counted once each, the numbers are the same. -/
theorem total_eq {items : List Item}
    (h : ∀ allowRemote, ∀ item ∈ items, (counted allowRemote item).Nodup ∧
      ∀ r, r ∈ counted allowRemote item ↔ IsReference item r) :
    total true items = total false items := by
  have hlength : ∀ item ∈ items, (counted true item).length = (counted false item).length := by
    intro item hitem
    refine ((List.perm_ext_iff_of_nodup (h true item hitem).1 (h false item hitem).1).mpr
      fun r => ?_).length_eq
    rw [(h true item hitem).2, (h false item hitem).2]
  unfold total
  rw [List.map_congr_left hlength]

/-- Where an `image-set()` stands, the pattern for it finds something. -/
theorem findAll_ne_nil {cells args : List Cell} (h : HasSet cells args) :
    reImageSet.findAll (cells.map Prod.fst) ≠ [] := by
  intro hnone
  obtain ⟨before, opening, close, after, rfl, hopening, hclose⟩ := h
  have hmem : ')' ∈ (args ++ close :: after).map Prod.fst := by
    rw [← hclose]
    exact List.mem_map_of_mem (List.mem_append_right _ List.mem_cons_self)
  obtain ⟨inside, rest, hsplit, hinside⟩ := List.eq_append_cons_of_mem hmem
  have hmatch : reImageSet.Leaves ((opening ++ (args ++ close :: after)).map Prod.fst) rest := by
    have hword := Leaves.word (s := "image-set(") (by decide)
      (List.forall₂_map_right_iff.mpr hopening) (inside ++ ')' :: rest)
    have hmany := Leaves.many (q := notChar ')') (w := inside)
      (fun c hc => bne_iff_ne.mpr fun heq => hinside (heq ▸ hc)) (')' :: rest)
    have hend : (one ')').Leaves (')' :: rest) rest := Leaves.char (beq_self_eq_true _) rest
    rw [List.map_append, hsplit]
    exact (Leaves.opt _ _).seq ((Leaves.opt _ _).seq (hword.seq (hmany.group.seq hend)))
  obtain ⟨m, hm, -⟩ := hmatch
  have hsome := first_isSome (p := reImageSet) (by rfl) hm
  obtain ⟨a, more, rfl⟩ := List.exists_cons_of_ne_nil (l := opening) (by rintro rfl; cases hopening)
  have hfirst : reImageSet.first ((a :: more ++ (args ++ close :: after)).map Prod.fst) = none := by
    rw [List.map_append] at hnone
    exact first_eq_none_of_findAll hnone _ _ _ rfl
  rw [hfirst] at hsome
  cases hsome

/-- **CSS without an `image-set()` is clear.** -/
theorem clearCSS_of_no_set {css : Text}
    (h : reImageSet.findAll ((readable css).map Prod.fst) = []) : ClearCSS css := by
  have hstrings : stringsIn (readable css) = [] := by
    refine List.length_eq_zero_iff.mp ?_
    rw [length_stringsIn, countRemote, h]
    rfl
  constructor
  · intro place
    rw [hstrings]
    refine ⟨fun hplace => absurd hplace List.not_mem_nil, ?_⟩
    rintro ⟨args, strings, hset, -⟩
    exact absurd h (findAll_ne_nil hset)
  · unfold afterSets
    rw [rewrite_of_findAll h]

/-! ### A reference in an image set -/

private def setStyle : Text := "background:image-set(url(\"http://a\") 1x)".toList

private def setMail : Text := "<p style='".toList ++ setStyle ++ "'>".toList

/-- A library that reads this mail. -/
private def setReader : Library where
  tokenize := fun t =>
    if t = setMail then [⟨.startTag, "p".toList, [⟨"style".toList, setStyle⟩]⟩] else []
  escapeString := id
  toLower := toLower
  policySanitize := id

end FlyMail.Htmlsan
