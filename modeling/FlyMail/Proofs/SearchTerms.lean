/-
The words that are highlighted are the words that were searched for.

Two scanners cut the query into tokens, and on a query whose quotes and blanks both know they cut it
alike (`tokens_agree`).  From then on a token is on its own.  The one side looks for a colon outside the
quotes and keeps the quotes in what is before it, the other drops the quotes first; so they read a
token alike as long as no quote comes before the colon of a qualifier (`highlighted_ordinary`).
-/
import FlyMail.Lib.Quoted
import FlyMail.Message.Query
import FlyMail.Ui.SearchTerms
import Mathlib.Data.List.TakeWhile

namespace FlyMail.Ui.SearchTerms

open Message.Query (Term Parsed splitTokens splitQualifier applyQualifier parse parseToken)

/-- How the two languages lower a text.  They differ on `İ`, and on the final sigma. -/
structure Lowering where
  /-- `strings.ToLower` -/
  go : Text → Text
  /-- `toLowerCase` -/
  js : Text → Text
  agree : ∀ name, 'İ' ∉ name → ∀ w ∈ Message.Query.knownQualifiers, js name = w ↔ go name = w
  quote : ∀ name, '"' ∈ name → '"' ∈ js name

/-- Only the 26 letters have a lower case. -/
def Lowering.ascii : Lowering where
  go t := t.map Char.toLower
  js t := t.map Char.toLower
  agree _ _ _ _ := Iff.rfl
  quote name h := List.mem_map.mpr ⟨'"', h, by decide⟩

/-! ### Tokens -/

def isQuote (c : Char) : Bool := c == '"'

/-- The character is no typographic quote and no `İ`, and a blank to both sides or to none. -/
def plainChar (c : Char) : Bool :=
  c != '“' && c != '”' && c != 'İ' && (isBlank c == Message.Query.isBlank c) &&
    (Text.isSpace c == Message.Query.isBlank c)

theorem readToken_eq (s : Text) : ∀ inQuote, readToken inQuote s = Quoted.readWord isQuote isBlank inQuote s := by
  induction s with
  | nil => exact fun _ => rfl
  | cons c rest ih =>
      intro inQuote
      unfold readToken Quoted.readWord
      rw [ih, ih]
      rfl

theorem isQuote_of_isBlank {c : Char} (h : isBlank c = true) : isQuote c = false := by
  unfold isQuote
  rw [beq_eq_false_iff_ne]
  rintro rfl
  exact absurd h (by decide)

theorem words_cons_of_isBlank {c : Char} {rest : Text} (h : isBlank c = true) :
    Quoted.words isQuote isBlank (c :: rest) = [] :: Quoted.words isQuote isBlank rest := by
  unfold Quoted.words
  rw [Quoted.wordsFrom, isQuote_of_isBlank h, h]
  rfl

/-- The loop finds the words that are not empty. -/
theorem tokensFrom_eq (fuel : Nat) : ∀ s : Text, s.length ≤ fuel →
    tokensFrom fuel s = (Quoted.words isQuote isBlank s).filter (· ≠ []) := by
  induction fuel with
  | zero =>
      intro s h
      rw [List.length_eq_zero_iff.mp (Nat.le_zero.mp h)]
      rfl
  | succ fuel ih =>
      intro s h
      cases s with
      | nil => rfl
      | cons c rest =>
          rw [List.length_cons] at h
          have hrest : rest.length ≤ fuel := by omega
          unfold tokensFrom
          by_cases hblank : isBlank c = true
          · rw [if_pos hblank, ih rest hrest, words_cons_of_isBlank hblank]
            simp
          · rw [if_neg hblank, readToken_eq]
            have hwords : Quoted.words isQuote isBlank (c :: rest) = _ := Quoted.wordsFrom_eq_cons (c :: rest) [] false
            have hafter : ∃ w after, Quoted.readWord isQuote isBlank false (c :: rest) = (c :: w, after) ∧
                after.length ≤ rest.length := by
              unfold Quoted.readWord
              split
              · exact ⟨_, _, rfl, Quoted.readWord_length _ _⟩
              · rw [if_neg (by simpa using hblank)]
                exact ⟨_, _, rfl, Quoted.readWord_length _ _⟩
            obtain ⟨w, after, hread, hle⟩ := hafter
            rw [hwords, hread]
            dsimp only
            rw [if_neg (by simp), ih after (by omega)]
            cases after with
            | nil => simp [Quoted.words, Quoted.wordsFrom]
            | cons b after =>
                have hb := (Quoted.readWord_blank (c :: rest) false (by rw [hread])).2
                rw [words_cons_of_isBlank hb]
                simp

/-- What a word with its quotes is to the parser. -/
def tokenOf (w : Text) : List Message.Query.Token :=
  Message.Query.flush (w.filter fun c => !Message.Query.isQuote c) (w.any Message.Query.isQuote)

theorem splitFrom_eq (s : Text) : ∀ (cur : Text) (inQuote : Bool),
    (inQuote = true → cur.any Message.Query.isQuote = true) →
    Message.Query.splitFrom (cur.filter fun c => !Message.Query.isQuote c) inQuote (cur.any Message.Query.isQuote) s =
      (Quoted.wordsFrom Message.Query.isQuote Message.Query.isBlank cur inQuote s).flatMap tokenOf := by
  induction s with
  | nil =>
      intro cur inQuote _
      simp [Message.Query.splitFrom, Quoted.wordsFrom, tokenOf]
  | cons r rest ih =>
      intro cur inQuote hin
      unfold Message.Query.splitFrom Quoted.wordsFrom
      cases hquote : Message.Query.isQuote r with
      | true =>
          have hany : (cur ++ [r]).any Message.Query.isQuote = true := by simp [hquote]
          rw [if_pos rfl, if_pos rfl, ← ih (cur ++ [r]) (!inQuote) fun _ => hany, hany]
          have hflag : (if !inQuote then true else cur.any Message.Query.isQuote) = true := by
            cases inQuote with
            | true => exact hin rfl
            | false => rfl
          rw [hflag]
          simp [List.filter_append, hquote]
      | false =>
          have hany : (cur ++ [r]).any Message.Query.isQuote = cur.any Message.Query.isQuote := by simp [hquote]
          simp only [Bool.false_eq_true, if_false]
          by_cases hblank : (!inQuote && Message.Query.isBlank r) = true
          · rw [if_pos hblank, if_pos hblank, List.flatMap_cons]
            have hout : inQuote = false := by
              cases inQuote with
              | true => simp at hblank
              | false => rfl
            rw [hout]
            exact congrArg (tokenOf cur ++ ·) (ih [] false fun h => by cases h)
          · rw [if_neg hblank, if_neg hblank, ← ih (cur ++ [r]) inQuote fun h => hany ▸ hin h, hany]
            simp [List.filter_append, hquote]

theorem splitTokens_eq (s : Text) :
    splitTokens s = (Quoted.words Message.Query.isQuote Message.Query.isBlank s).flatMap tokenOf :=
  splitFrom_eq s [] false fun h => by cases h

theorem isQuote_of_plain {c : Char} (h : plainChar c = true) : Message.Query.isQuote c = isQuote c := by
  unfold plainChar at h
  simp only [Bool.and_eq_true, bne_iff_ne] at h
  unfold Message.Query.isQuote isQuote
  rw [beq_eq_false_iff_ne.mpr h.1.1.1.1, beq_eq_false_iff_ne.mpr h.1.1.1.2, Bool.or_false, Bool.or_false]

theorem isBlank_of_plain {c : Char} (h : plainChar c = true) : isBlank c = Text.isSpace c := by
  unfold plainChar at h
  simp only [Bool.and_eq_true, beq_iff_eq] at h
  rw [h.1.2, h.2]

/-- **Both sides cut a plain query alike.** -/
theorem tokens_agree {q : Text} (hq : ∀ c ∈ q, plainChar c = true) :
    splitTokens q = (tokens q).flatMap tokenOf ∧ ∀ raw ∈ tokens q, ∀ c ∈ raw, c ∈ q := by
  have htokens : tokens q = (Quoted.words isQuote isBlank q).filter (· ≠ []) := tokensFrom_eq _ q (Nat.le_refl _)
  have hwords : Quoted.words Message.Query.isQuote Message.Query.isBlank q = Quoted.words isQuote isBlank q := by
    refine Quoted.words_congr fun c hc => ⟨isQuote_of_plain (hq c hc), fun _ => ?_⟩
    have h := hq c hc
    unfold plainChar at h
    simp only [Bool.and_eq_true, beq_iff_eq] at h
    exact h.1.2.symm
  refine ⟨?_, fun raw hraw c hc => ?_⟩
  · rw [splitTokens_eq, hwords, htokens]
    induction Quoted.words isQuote isBlank q with
    | nil => rfl
    | cons w rest ih =>
        rw [List.flatMap_cons, ih]
        by_cases hw : w = []
        · rw [hw]
          rfl
        · rw [List.filter_cons_of_pos (by simpa using hw), List.flatMap_cons]
  · rw [htokens] at hraw
    exact Quoted.mem_of_mem_words (List.mem_filter.mp hraw).1 hc

/-! ### The colon of a token -/

/-- The token without its quotes. -/
def textOf (raw : Text) : Text := raw.filter (· != '"')

theorem outerColon_none {raw : Text} (h : ':' ∉ raw) : ∀ inQuote, outerColon inQuote raw = none := by
  induction raw with
  | nil => exact fun _ => rfl
  | cons c rest ih =>
      intro inQuote
      rw [List.mem_cons, not_or] at h
      have hc : (c == ':') = false := by simpa using fun he : c = ':' => h.1 he.symm
      unfold outerColon
      simp [ih h.2, hc]

/-- Where no quote comes before the first colon, that is the colon. -/
theorem outerColon_first {name : Text} (hquote : '"' ∉ name) (hcolon : ':' ∉ name) (after : Text) :
    outerColon false (name ++ ':' :: after) = some (name, after) := by
  induction name with
  | nil => rfl
  | cons c rest ih =>
      rw [List.mem_cons, not_or] at hquote hcolon
      have hq : (c == '"') = false := by simpa using fun he : c = '"' => hquote.1 he.symm
      have hc : (c == ':') = false := by simpa using fun he : c = ':' => hcolon.1 he.symm
      rw [List.cons_append, outerColon, ih hquote.2 hcolon.2]
      simp [hq, hc]

theorem outerColon_append {raw name value : Text} : ∀ {inQuote}, outerColon inQuote raw = some (name, value) →
    raw = name ++ ':' :: value := by
  induction raw generalizing name with
  | nil => exact fun h => by cases h
  | cons c rest ih =>
      intro inQuote h
      unfold outerColon at h
      split at h
      · obtain ⟨r, hr, heq⟩ := Option.map_eq_some_iff.mp h
        obtain ⟨rfl, rfl⟩ := Prod.mk.inj heq
        rw [List.cons_append, ← ih hr]
      · split at h
        · rename_i hc
          obtain ⟨rfl, rfl⟩ := Prod.mk.inj (Option.some.inj h)
          simp only [Bool.and_eq_true, beq_iff_eq] at hc
          rw [hc.1]
          rfl
        · obtain ⟨r, hr, heq⟩ := Option.map_eq_some_iff.mp h
          obtain ⟨rfl, rfl⟩ := Prod.mk.inj heq
          rw [List.cons_append, ← ih hr]

/-- What is before the first colon of a token, with its quotes. -/
def head (raw : Text) : Text := raw.takeWhile (· != ':')

theorem colon_not_mem_head (raw : Text) : ':' ∉ head raw := by
  intro h
  have hne := List.mem_takeWhile_imp h
  simp at hne

/-- A token has a first colon or none. -/
theorem colon_cases (raw : Text) : (':' ∉ raw ∧ head raw = raw) ∨ ∃ after, raw = head raw ++ ':' :: after := by
  have happend : head raw ++ raw.dropWhile (· != ':') = raw := List.takeWhile_append_dropWhile
  cases hdrop : raw.dropWhile (· != ':') with
  | nil =>
      rw [hdrop, List.append_nil] at happend
      exact Or.inl ⟨happend ▸ colon_not_mem_head raw, happend⟩
  | cons c after =>
      have hc := List.head?_dropWhile_not (· != ':') raw
      rw [hdrop] at hc
      simp only [List.head?_cons, bne_eq_false_iff_eq] at hc
      rw [hdrop, hc] at happend
      exact Or.inr ⟨after, happend.symm⟩

theorem quote_not_mem_known : ∀ w ∈ knownQualifiers, '"' ∉ w := by decide

/-- **A quote before the colon** keeps the token together. -/
theorem highlighted_quoted (L : Lowering) {raw : Text} (h : '"' ∈ head raw) : highlighted L.js raw = [unquote raw] := by
  unfold highlighted
  cases houter : outerColon false raw with
  | none => rfl
  | some r =>
      obtain ⟨name, value⟩ := r
      have hraw := outerColon_append houter
      -- What is before the first colon is before this one.
      have hname : '"' ∈ name := by
        have hsplit : head raw = head (name ++ ':' :: value) := congrArg head hraw
        unfold head at hsplit h
        rw [hsplit, List.takeWhile_append] at h
        split at h
        · simpa using h
        · exact (List.takeWhile_prefix _).subset h
      have hne : name ≠ [] := List.ne_nil_of_mem hname
      have hunknown : knownQualifiers.contains (L.js name) = false := by
        rw [← Bool.not_eq_true, List.contains_iff_mem]
        exact fun hmem => quote_not_mem_known _ hmem (L.quote name hname)
      dsimp only
      rw [if_neg hne, if_neg (by rw [hunknown]; simp)]

/-! ### A token on the other side -/

/-- The value is one that the qualifier has. -/
def understood (lower : Text → Text) (key val : Text) : Bool := (applyQualifier lower .empty key val false).isSome

/-- The text terms that a token makes. -/
def termsOf (lower : Text → Text) (tok : Message.Query.Token) : List Term :=
  match splitQualifier lower tok.text with
  | none => [⟨tok.text, tok.quoted⟩]
  | some (key, val) =>
      if val = [] then []
      else if textQualifiers.contains key then [⟨val, tok.quoted⟩]
      else if understood lower key val then []
      else [⟨tok.text, tok.quoted⟩]

theorem splitQualifier_of_colon {name after : Text} (h : ':' ∉ name) (lower : Text → Text) :
    splitQualifier lower (name ++ ':' :: after) =
      if name = [] then none
      else if Message.Query.knownQualifiers.contains (lower name) then some (lower name, Text.trimSpace after)
      else none := by
  unfold splitQualifier
  rw [Text.cut_append h]

theorem splitQualifier_of_none {text : Text} (h : ':' ∉ text) (lower : Text → Text) :
    splitQualifier lower text = none := by
  have hdrop : text.dropWhile (· != ':') = [] := by
    rw [List.dropWhile_eq_nil_iff]
    intro c hc
    rw [bne_iff_ne]
    exact fun he => h (he ▸ hc)
  unfold splitQualifier Text.cut
  rw [hdrop]

theorem dropWhile_congr {p p' : Char → Bool} {t : Text} (h : ∀ c ∈ t, p c = p' c) : t.dropWhile p = t.dropWhile p' := by
  induction t with
  | nil => rfl
  | cons c rest ih =>
      rw [List.dropWhile_cons, List.dropWhile_cons, h c List.mem_cons_self,
        ih fun d hd => h d (List.mem_cons_of_mem _ hd)]

/-- Both sides trim a plain text alike. -/
theorem unquote_eq {raw : Text} (hplain : ∀ c ∈ raw, plainChar c = true) :
    unquote raw = Text.trimSpace (textOf raw) := by
  have hblank : ∀ c ∈ textOf raw, isBlank c = Text.isSpace c := fun c hc =>
    isBlank_of_plain (hplain c (List.mem_filter.mp hc).1)
  show trim (textOf raw) = Text.trimSpace (textOf raw)
  unfold trim Text.trimSpace
  rw [dropWhile_congr hblank, dropWhile_congr fun c hc => ?_]
  exact hblank c ((List.dropWhile_suffix _).subset (List.mem_reverse.mp hc))

theorem tokenOf_plain {raw : Text} (hplain : ∀ c ∈ raw, plainChar c = true) :
    tokenOf raw = Message.Query.flush (textOf raw) (raw.any isQuote) := by
  unfold tokenOf
  congr 1
  · exact List.filter_congr fun c hc => by rw [isQuote_of_plain (hplain c hc)]; rfl
  · rw [Bool.eq_iff_iff, List.any_eq_true, List.any_eq_true]
    exact exists_congr fun c => and_congr_right fun hc => by rw [isQuote_of_plain (hplain c hc)]

/-- The token is read alike on both sides: no quote comes before the colon of a qualifier, the qualifier is
not `folder`, and its value is empty or one that it has. -/
def Ordinary (L : Lowering) (raw : Text) : Prop :=
  ∀ key val, splitQualifier L.go (textOf raw) = some (key, val) →
    '"' ∉ head raw ∧ key ≠ "folder".toList ∧ (val = [] ∨ textQualifiers.contains key = true ∨
      understood L.go key val = true)

/-- The terms that are not blank, trimmed. -/
def trimmed (ts : List Term) : List Text := (ts.map fun t => Text.trimSpace t.text).filter (· ≠ [])

theorem known_of_known : ∀ key ∈ Message.Query.knownQualifiers, key ≠ "folder".toList → key ∈ knownQualifiers := by
  decide

theorem known_subset : ∀ w ∈ knownQualifiers, w ∈ Message.Query.knownQualifiers := by decide

theorem colon_split {raw after : Text} (hquote : '"' ∉ head raw) (hafter : raw = head raw ++ ':' :: after) :
    textOf raw = head raw ++ ':' :: textOf after ∧ outerColon false raw = some (head raw, after) := by
  have hname : textOf (head raw) = head raw :=
    List.filter_eq_self.mpr fun c hc => by
      rw [bne_iff_ne]
      exact fun he => hquote (he ▸ hc)
  refine ⟨?_, ?_⟩
  · conv_lhs => rw [hafter]
    unfold textOf
    rw [List.filter_append, List.filter_cons_of_pos (by decide)]
    exact congrArg (· ++ ':' :: textOf after) hname
  · conv_lhs => rw [hafter]
    exact outerColon_first hquote (colon_not_mem_head raw) after

theorem plain_head {raw : Text} (hplain : ∀ c ∈ raw, plainChar c = true) : 'İ' ∉ head raw := by
  intro hmem
  have hc := hplain 'İ' ((List.takeWhile_prefix _).subset hmem)
  exact absurd hc (by decide)

/-- What is no qualifier to the parser is text to both. -/
theorem highlighted_unknown (L : Lowering) {raw : Text} (hplain : ∀ c ∈ raw, plainChar c = true)
    (hsplit : splitQualifier L.go (textOf raw) = none) : highlighted L.js raw = [unquote raw] := by
  by_cases hquote : '"' ∈ head raw
  · exact highlighted_quoted L hquote
  rcases colon_cases raw with ⟨hcolon, -⟩ | ⟨after, hafter⟩
  · unfold highlighted
    rw [outerColon_none hcolon]
  obtain ⟨htext, houter⟩ := colon_split hquote hafter
  rw [htext, splitQualifier_of_colon (colon_not_mem_head raw)] at hsplit
  unfold highlighted
  rw [houter]
  dsimp only
  by_cases hnil : head raw = []
  · rw [if_pos hnil]
  rw [if_neg hnil] at hsplit ⊢
  have hunknown : L.go (head raw) ∉ Message.Query.knownQualifiers := fun hmem => by
    rw [if_pos (List.contains_iff_mem.mpr hmem)] at hsplit
    cases hsplit
  refine if_neg fun hmem => hunknown ?_
  have hknown := known_subset _ (List.contains_iff_mem.mp hmem)
  exact (L.agree (head raw) (plain_head hplain) _ hknown).mp rfl ▸ hknown

/-- Of a qualifier that both know, without a quote before the colon, the value is text or nothing is. -/
theorem highlighted_known (L : Lowering) {raw key val : Text} (hplain : ∀ c ∈ raw, plainChar c = true)
    (hquote : '"' ∉ head raw) (hsplit : splitQualifier L.go (textOf raw) = some (key, val))
    (hfolder : key ≠ "folder".toList) :
    highlighted L.js raw = if textQualifiers.contains key = true then [val] else [] := by
  rcases colon_cases raw with ⟨hcolon, -⟩ | ⟨after, hafter⟩
  · have hnone := splitQualifier_of_none (fun h : ':' ∈ textOf raw => hcolon (List.mem_filter.mp h).1) L.go
    rw [hnone] at hsplit
    cases hsplit
  obtain ⟨htext, houter⟩ := colon_split hquote hafter
  rw [htext, splitQualifier_of_colon (colon_not_mem_head raw)] at hsplit
  by_cases hnil : head raw = []
  · rw [if_pos hnil] at hsplit
    cases hsplit
  by_cases hknown : L.go (head raw) ∈ Message.Query.knownQualifiers
  · rw [if_neg hnil, if_pos (List.contains_iff_mem.mpr hknown)] at hsplit
    obtain ⟨rfl, rfl⟩ := Prod.mk.inj (Option.some.inj hsplit)
    have hjs : L.js (head raw) = L.go (head raw) := (L.agree (head raw) (plain_head hplain) _ hknown).mpr rfl
    have hvalue : unquote after = Text.trimSpace (textOf after) :=
      unquote_eq fun c hc => hplain c (hafter ▸ List.mem_append_right _ (List.mem_cons_of_mem _ hc))
    unfold highlighted
    rw [houter]
    dsimp only
    rw [if_neg hnil, hjs, if_pos (List.contains_iff_mem.mpr (known_of_known _ hknown hfolder)), hvalue]
  · rw [if_neg hnil, if_neg (by rwa [List.contains_iff_mem])] at hsplit
    cases hsplit

theorem trimSpace_of_splitQualifier {lower : Text → Text} {text key val : Text}
    (h : splitQualifier lower text = some (key, val)) : Text.trimSpace val = val := by
  unfold splitQualifier at h
  split at h
  · cases h
  · split at h
    · cases h
    · split at h
      · obtain ⟨-, rfl⟩ := Prod.mk.inj (Option.some.inj h)
        exact Text.trimSpace_trimSpace _
      · cases h

/-- **A token that both read alike** is highlighted just as far as it is searched for as text. -/
theorem highlighted_ordinary (L : Lowering) {raw : Text} (hplain : ∀ c ∈ raw, plainChar c = true)
    (hraw : Ordinary L raw) (quoted : Bool) :
    (highlighted L.js raw).filter (· ≠ []) = trimmed (termsOf L.go ⟨textOf raw, quoted⟩) := by
  unfold termsOf
  cases hsplit : splitQualifier L.go (textOf raw) with
  | none =>
      rw [highlighted_unknown L hplain hsplit, unquote_eq hplain]
      rfl
  | some r =>
      obtain ⟨key, val⟩ := r
      obtain ⟨hquote, hfolder, hval⟩ := hraw key val hsplit
      rw [highlighted_known L hplain hquote hsplit hfolder]
      dsimp only
      by_cases hempty : val = []
      · rw [if_pos hempty, hempty]
        split <;> rfl
      rw [if_neg hempty]
      by_cases htextual : textQualifiers.contains key = true
      · rw [if_pos htextual, if_pos htextual]
        show [val].filter (· ≠ []) = [Text.trimSpace val].filter (· ≠ [])
        rw [trimSpace_of_splitQualifier hsplit]
      · rw [if_neg htextual, if_neg htextual, if_pos ((hval.resolve_left hempty).resolve_left htextual)]
        rfl

/-! ### The query -/

def texts (q : Parsed) : List Term := q.terms ++ q.fromTerms ++ q.toTerms ++ q.subject

theorem textual_iff {key : Text} : textQualifiers.contains key = true ↔
    key = "from".toList ∨ key = "to".toList ∨ key = "subject".toList := by
  simp [textQualifiers]

theorem applyIs_texts {q q' : Parsed} {value : Text} (h : Message.Query.applyIs q value = some q') :
    texts q' = texts q := by
  unfold Message.Query.applyIs at h
  split at h
  · rw [← Option.some.inj h]
    rfl
  · split at h
    · rw [← Option.some.inj h]
      rfl
    · split at h
      · rw [← Option.some.inj h]
        rfl
      · split at h
        · rw [← Option.some.inj h]
          rfl
        · cases h

theorem applyIs_isSome (q q' : Parsed) (value : Text) :
    (Message.Query.applyIs q value).isSome = (Message.Query.applyIs q' value).isSome := by
  unfold Message.Query.applyIs
  split
  · rfl
  · split
    · rfl
    · split
      · rfl
      · split <;> rfl

/-- A structural qualifier has nothing to do with texts, and what it has of a value is in the value. -/
theorem applyQualifier_structural (lower : Text → Text) {key val : Text} (htextual : textQualifiers.contains key = false)
    (hval : val ≠ []) (q : Parsed) (quoted : Bool) :
    (applyQualifier lower q key val quoted).isSome = understood lower key val ∧
      ∀ q', applyQualifier lower q key val quoted = some q' → texts q' = texts q := by
  have hkeys := mt textual_iff.mpr (by rw [htextual]; simp)
  simp only [not_or] at hkeys
  unfold understood applyQualifier
  rw [if_neg hval, if_neg hval, if_neg hkeys.1, if_neg hkeys.1, if_neg hkeys.2.1, if_neg hkeys.2.1,
    if_neg hkeys.2.2, if_neg hkeys.2.2]
  split
  · split
    · exact ⟨rfl, fun q' h => by rw [← Option.some.inj h]; rfl⟩
    · exact ⟨rfl, fun q' h => by cases h⟩
  · split
    · exact ⟨applyIs_isSome _ _ _, fun q' h => applyIs_texts h⟩
    · split
      · refine ⟨by simp, fun q' h => ?_⟩
        obtain ⟨d, -, rfl⟩ := Option.map_eq_some_iff.mp h
        rfl
      · split
        · refine ⟨by simp, fun q' h => ?_⟩
          obtain ⟨d, -, rfl⟩ := Option.map_eq_some_iff.mp h
          rfl
        · split
          · exact ⟨rfl, fun q' h => by rw [← Option.some.inj h]; rfl⟩
          · split
            · exact ⟨rfl, fun q' h => by rw [← Option.some.inj h]; rfl⟩
            · exact ⟨rfl, fun q' h => by rw [← Option.some.inj h]⟩

theorem applyQualifier_textual (lower : Text → Text) {key val : Text} (htextual : textQualifiers.contains key = true)
    (hval : val ≠ []) (q : Parsed) (quoted : Bool) :
    ∃ q', applyQualifier lower q key val quoted = some q' ∧
      ∀ t, t ∈ texts q' ↔ t ∈ texts q ∨ t = ⟨val, quoted⟩ := by
  unfold applyQualifier
  rw [if_neg hval]
  rcases textual_iff.mp htextual with rfl | rfl | rfl
  · refine ⟨_, if_pos rfl, fun t => ?_⟩
    simp only [texts, List.mem_append, List.mem_singleton]
    tauto
  · refine ⟨_, (if_neg (by decide)).trans (if_pos rfl), fun t => ?_⟩
    simp only [texts, List.mem_append, List.mem_singleton]
    tauto
  · refine ⟨_, (if_neg (by decide)).trans ((if_neg (by decide)).trans (if_pos rfl)), fun t => ?_⟩
    simp only [texts, List.mem_append, List.mem_singleton]
    tauto

theorem mem_texts_concat (q : Parsed) (tok : Message.Query.Token) (t : Term) :
    t ∈ texts { q with terms := q.terms ++ [⟨tok.text, tok.quoted⟩] } ↔ t ∈ texts q ∨ t = ⟨tok.text, tok.quoted⟩ := by
  simp only [texts, List.mem_append, List.mem_singleton]
  tauto

/-- **One token adds its terms.** -/
theorem mem_texts_parseToken (lower : Text → Text) (q : Parsed) (tok : Message.Query.Token) (t : Term) :
    t ∈ texts (parseToken lower q tok) ↔ t ∈ texts q ∨ t ∈ termsOf lower tok := by
  unfold parseToken termsOf
  cases hsplit : splitQualifier lower tok.text with
  | none =>
      dsimp only
      rw [mem_texts_concat, List.mem_singleton]
  | some r =>
      obtain ⟨key, val⟩ := r
      dsimp only
      by_cases hval : val = []
      · have hnone : applyQualifier lower q key val tok.quoted = none := if_pos hval
        rw [hnone, if_pos hval]
        simp [hval]
      rw [if_neg hval]
      by_cases htextual : textQualifiers.contains key = true
      · obtain ⟨q', happly, hmem⟩ := applyQualifier_textual lower htextual hval q tok.quoted
        rw [happly, if_pos htextual, List.mem_singleton]
        exact hmem t
      · obtain ⟨hsome, hsame⟩ := applyQualifier_structural lower (by simpa using htextual) hval q tok.quoted
        rw [if_neg htextual, ← hsome]
        cases happly : applyQualifier lower q key val tok.quoted with
        | none =>
            dsimp only
            rw [if_pos hval, mem_texts_concat]
            simp
        | some q' =>
            dsimp only
            rw [hsame q' happly]
            simp

theorem mem_texts_parse (lower : Text → Text) (input : Text) (t : Term) :
    t ∈ texts (parse lower input) ↔ ∃ tok ∈ splitTokens input, t ∈ termsOf lower tok := by
  have hfold : ∀ (toks : List Message.Query.Token) (q : Parsed),
      t ∈ texts (toks.foldl (parseToken lower) q) ↔ t ∈ texts q ∨ ∃ tok ∈ toks, t ∈ termsOf lower tok := by
    intro toks
    induction toks with
    | nil => simp
    | cons tok rest ih =>
        intro q
        rw [List.foldl_cons, ih, mem_texts_parseToken, or_assoc]
        simp
  unfold parse
  rw [hfold]
  simp [texts, Parsed.empty]

/-! ### What is highlighted -/

theorem mem_extractHighlightTerms {lower : Text → Text} {q t : Text} (h : t ∈ extractHighlightTerms lower q) :
    t ≠ [] ∧ ∃ raw ∈ tokens q, t ∈ highlighted lower raw := by
  unfold extractHighlightTerms at h
  rw [List.mem_insertionSort] at h
  obtain ⟨hmem, hne⟩ := List.mem_filter.mp (mem_of_mem_firsts h)
  exact ⟨by simpa using hne, List.mem_flatMap.mp hmem⟩

theorem exists_extractHighlightTerms {lower : Text → Text} {q raw t : Text} (hraw : raw ∈ tokens q)
    (ht : t ∈ highlighted lower raw) (hne : t ≠ []) : ∃ t' ∈ extractHighlightTerms lower q, lower t' = lower t := by
  have hmem : t ∈ ((tokens q).flatMap (highlighted lower)).filter (· ≠ []) :=
    List.mem_filter.mpr ⟨List.mem_flatMap.mpr ⟨raw, hraw, ht⟩, by simpa using hne⟩
  rcases @exists_mem_firsts Text Text _ (fun t => some (lower t)) _ t (lower t) hmem rfl [] with ⟨e, he, -⟩ | ⟨b, hb, heq⟩
  · cases he
  · exact ⟨b, (List.mem_insertionSort _).mpr hb, Option.some.inj heq⟩

/-- Each term is there once. -/
theorem nodup_extractHighlightTerms (lower : Text → Text) (q : Text) :
    ((extractHighlightTerms lower q).map lower).Nodup :=
  ((List.perm_insertionSort _ _).map lower).nodup_iff.mpr nodup_firsts

/-- No term comes before a longer one. -/
theorem sorted_extractHighlightTerms (lower : Text → Text) (q : Text) :
    (extractHighlightTerms lower q).Pairwise fun a b => length b ≤ length a := by
  have htotal : Std.Total fun a b : Text => length b ≤ length a := ⟨fun a b => Nat.le_total _ _⟩
  have htrans : IsTrans Text fun a b => length b ≤ length a := ⟨fun a b c hab hbc => Nat.le_trans hbc hab⟩
  exact List.pairwise_insertionSort _ _

/-- The text terms of a plain query come from its tokens. -/
theorem mem_trimmed_texts {L : Lowering} {q : Text} (hq : ∀ c ∈ q, plainChar c = true) (t : Text) :
    t ∈ trimmed (texts (parse L.go q)) ↔
      ∃ raw ∈ tokens q, t ∈ trimmed (termsOf L.go ⟨textOf raw, raw.any isQuote⟩) := by
  obtain ⟨hsplit, hchars⟩ := tokens_agree hq
  have htrimmed : ∀ ts : List Term, t ∈ trimmed ts ↔ t ≠ [] ∧ ∃ u ∈ ts, Text.trimSpace u.text = t := by
    intro ts
    simp [trimmed, List.mem_filter, and_comm]
  simp only [htrimmed, mem_texts_parse, hsplit, List.mem_flatMap]
  refine ⟨?_, ?_⟩
  · rintro ⟨hne, u, ⟨tok, ⟨raw, hraw, htok⟩, hu⟩, heq⟩
    rw [tokenOf_plain fun c hc => hq c (hchars raw hraw c hc)] at htok
    unfold Message.Query.flush at htok
    split at htok
    · cases htok
    · rw [List.mem_singleton.mp htok] at hu
      exact ⟨raw, hraw, hne, u, hu, heq⟩
  · rintro ⟨raw, hraw, hne, u, hu, heq⟩
    refine ⟨hne, u, ⟨_, ⟨raw, hraw, ?_⟩, hu⟩, heq⟩
    rw [tokenOf_plain fun c hc => hq c (hchars raw hraw c hc), Message.Query.flush]
    by_cases htext : textOf raw = []
    · -- A token of quotes alone is text to nobody.
      rw [htext] at hu
      rw [show termsOf L.go ⟨[], raw.any isQuote⟩ = [⟨[], raw.any isQuote⟩] from rfl, List.mem_singleton] at hu
      rw [hu] at heq
      exact absurd heq.symm hne
    · rw [if_neg htext]
      exact List.mem_singleton_self _

/-- How a query is highlighted and searched for. -/
structure Highlights (L : Lowering) (q : Text) : Prop where
  /-- Both sides see the same tokens. -/
  tokens : splitTokens q = (tokens q).flatMap fun raw => Message.Query.flush (textOf raw) (raw.any isQuote)
  /-- A token that both read alike is highlighted just as far as it is searched for as text. -/
  ordinary : ∀ raw ∈ SearchTerms.tokens q, Ordinary L raw →
    (highlighted L.js raw).filter (· ≠ []) = trimmed (termsOf L.go ⟨textOf raw, raw.any isQuote⟩)
  /-- A token with a quote before its colon is highlighted as it stands. -/
  quoted : ∀ raw ∈ SearchTerms.tokens q, '"' ∈ head raw → highlighted L.js raw = [unquote raw]
  /-- A structural qualifier is not highlighted, whatever its value. -/
  structural : ∀ raw ∈ SearchTerms.tokens q, ∀ key val, '"' ∉ head raw →
    splitQualifier L.go (textOf raw) = some (key, val) → key ≠ "folder".toList →
      textQualifiers.contains key = false → highlighted L.js raw = []
  once : ((extractHighlightTerms L.js q).map L.js).Nodup
  longestFirst : (extractHighlightTerms L.js q).Pairwise fun a b => length b ≤ length a
  /-- Where all tokens are read alike, the terms are those that are searched for. -/
  same : (∀ raw ∈ SearchTerms.tokens q, Ordinary L raw) →
    ∀ k, k ∈ (extractHighlightTerms L.js q).map L.js ↔ k ∈ (trimmed (texts (parse L.go q))).map L.js

/-- **What is highlighted is what is searched for**, of a query whose characters mean the same to both
sides. -/
theorem highlights_searched (L : Lowering) (q : Text) (hq : ∀ c ∈ q, plainChar c = true) : Highlights L q := by
  obtain ⟨hsplit, hchars⟩ := tokens_agree hq
  have hplain : ∀ raw ∈ tokens q, ∀ c ∈ raw, plainChar c = true := fun raw hraw c hc => hq c (hchars raw hraw c hc)
  refine ⟨?_, fun raw hraw hord => highlighted_ordinary L (hplain raw hraw) hord _,
    fun raw _ => highlighted_quoted L, fun raw hraw key val hquote hqual hfolder htextual => ?_,
    nodup_extractHighlightTerms L.js q, sorted_extractHighlightTerms L.js q, fun hord k => ?_⟩
  · rw [hsplit]
    exact List.flatMap_congr fun raw hraw => tokenOf_plain (hplain raw hraw)
  · rw [highlighted_known L (hplain raw hraw) hquote hqual hfolder, if_neg (by rw [htextual]; simp)]
  · rw [List.mem_map, List.mem_map]
    refine ⟨?_, ?_⟩
    · rintro ⟨t, ht, heq⟩
      obtain ⟨hne, raw, hraw, hhigh⟩ := mem_extractHighlightTerms ht
      refine ⟨t, (mem_trimmed_texts hq t).mpr ⟨raw, hraw, ?_⟩, heq⟩
      rw [← highlighted_ordinary L (hplain raw hraw) (hord raw hraw)]
      exact List.mem_filter.mpr ⟨hhigh, by simpa using hne⟩
    · rintro ⟨t, ht, heq⟩
      obtain ⟨raw, hraw, hmem⟩ := (mem_trimmed_texts hq t).mp ht
      rw [← highlighted_ordinary L (hplain raw hraw) (hord raw hraw)] at hmem
      obtain ⟨hhigh, hne⟩ := List.mem_filter.mp hmem
      obtain ⟨t', ht', heq'⟩ := exists_extractHighlightTerms hraw hhigh (by simpa using hne)
      exact ⟨t', ht', heq'.trans heq⟩

theorem highlights_searched_invoice :
    Highlights Lowering.ascii "from:Ann is:unread \"due invoice\" invoice".toList :=
  highlights_searched Lowering.ascii _ (by decide +kernel)

/-- A word that is searched for twice is highlighted once, a value that is not understood is searched for and
not highlighted, and of a qualifier in quotes it is the other way round. -/
theorem highlights_differ :
    (extractHighlightTerms Lowering.ascii.js "a a".toList).map Lowering.ascii.js ≠
        (trimmed (texts (parse Lowering.ascii.go "a a".toList))).map Lowering.ascii.js ∧
      extractHighlightTerms Lowering.ascii.js "is:later".toList = [] ∧
      texts (parse Lowering.ascii.go "is:later".toList) = [⟨"is:later".toList, false⟩] ∧
      extractHighlightTerms Lowering.ascii.js "\"is:unread\"".toList = ["is:unread".toList] ∧
      texts (parse Lowering.ascii.go "\"is:unread\"".toList) = [] := by
  refine ⟨?_, ?_, ?_, ?_, ?_⟩ <;> decide +kernel

end FlyMail.Ui.SearchTerms
