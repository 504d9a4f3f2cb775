/-
The query language of SQLite's full-text index.

A query is cut into tokens first: strings, either bare words or in quotes, in which two quotes
stand for one; operators; and punctuation.  A NUL ends the query.  Which tokens make a query is
said by the grammar of the documentation: strings make phrases, phrases stand one after another
or near each other, perhaps for some columns only, and such lists are combined by the operators.
-/
import FlyMail.Lib.Text

namespace FlyMail.Fts5

inductive Tok
  | lp | rp | lcp | rcp | colon | comma | plus | star | minus | caret
  | and | or | not
  /-- A string, as a bare word or in quotes. -/
  | word (text : Text)
  | quoted (text : Text)
  deriving DecidableEq, Repr

/-! ### Tokens -/

def quote : Char := Char.ofNat 34

def nul : Char := Char.ofNat 0

def isBareword (c : Char) : Bool := c.isAlphanum || c == '_' || c.toNat == 0x1A || 0x80 ≤ c.toNat

def isBlank (c : Char) : Bool := c == ' ' || c == '\t' || c == '\n' || c == '\r'

def punctuation : List (Char × Tok) :=
  [('(', .lp), (')', .rp), (Char.ofNat 0x7B, .lcp), (Char.ofNat 0x7D, .rcp), (':', .colon),
    (',', .comma), ('+', .plus), ('*', .star), ('-', .minus), ('^', .caret)]

/-- The operators are bare words in capitals. -/
def bareword (w : Text) : Tok :=
  if w = "AND".toList then .and
  else if w = "OR".toList then .or
  else if w = "NOT".toList then .not
  else .word w

/-- Where the scanner is; what has been read of a string. -/
inductive Place
  | outside
  | word (cur : Text)
  | quoted (cur : Text)
  /-- Behind a quote, which is the end of the string unless another one follows. -/
  | closing (cur : Text)
  deriving DecidableEq, Repr

/-- The token that ends here. -/
def Place.flush : Place → Option (List Tok)
  | .outside => some []
  | .word cur => some [bareword cur]
  | .quoted _ => none
  | .closing cur => some [.quoted cur]

/-- The character begins something new; `none` is the end of the query. -/
def begins (c : Char) : Option (List Tok × Option Place) :=
  if c = nul then some ([], none)
  else if isBlank c then some ([], some .outside)
  else if c = quote then some ([], some (.quoted []))
  else
    match punctuation.lookup c with
    | some tok => some ([tok], some .outside)
    | none => if isBareword c then some ([], some (.word [c])) else none

def Place.next : Place → Char → Option (List Tok × Option Place)
  | .outside, c => begins c
  | .word cur, c =>
      if isBareword c then some ([], some (.word (cur ++ [c])))
      else (begins c).map fun r => (bareword cur :: r.1, r.2)
  | .quoted cur, c =>
      if c = nul then none
      else if c = quote then some ([], some (.closing cur))
      else some ([], some (.quoted (cur ++ [c])))
  | .closing cur, c =>
      if c = quote then some ([], some (.quoted (cur ++ [quote])))
      else (begins c).map fun r => (.quoted cur :: r.1, r.2)

/-- The tokens of the rest of a query, if it has no error. -/
def lexFrom : Place → Text → Option (List Tok)
  | place, [] => place.flush
  | place, c :: rest =>
      match place.next c with
      | none => none
      | some (toks, none) => some toks
      | some (toks, some place) => (lexFrom place rest).map fun more => toks ++ more

def lex (query : Text) : Option (List Tok) := lexFrom .outside query

/-! ### The grammar -/

inductive IsString : Tok → Prop
  | word (text : Text) : IsString (.word text)
  | quoted (text : Text) : IsString (.quoted text)

inductive IsStar : List Tok → Prop
  | none : IsStar []
  | star : IsStar [.star]

inductive IsPhrase : List Tok → Prop
  | one {s : Tok} {star : List Tok} : IsString s → IsStar star → IsPhrase (s :: star)
  | plus {p : List Tok} {s : Tok} {star : List Tok} :
      IsPhrase p → IsString s → IsStar star → IsPhrase (p ++ .plus :: s :: star)

inductive IsPhrases : List Tok → Prop
  | one {p : List Tok} : IsPhrase p → IsPhrases p
  | cons {ps p : List Tok} : IsPhrases ps → IsPhrase p → IsPhrases (ps ++ p)

inductive IsNear : List Tok → Prop
  | phrase {p : List Tok} : IsPhrase p → IsNear p
  | first {p : List Tok} : IsPhrase p → IsNear (.caret :: p)
  | near {ps : List Tok} : IsPhrases ps → IsNear (.word "NEAR".toList :: .lp :: ps ++ [.rp])
  | nearWithin {ps : List Tok} {distance : Text} : IsPhrases ps → distance.all Char.isDigit = true →
      IsNear (.word "NEAR".toList :: .lp :: ps ++ [.comma, .word distance, .rp])

section Columns

variable (columns : List Text)

inductive IsColumn : Tok → Prop
  | word {c : Text} : c ∈ columns → IsColumn (.word c)
  | quoted {c : Text} : c ∈ columns → IsColumn (.quoted c)

inductive IsColumns : List Tok → Prop
  | one {c : Tok} : IsColumn columns c → IsColumns [c]
  | cons {cs : List Tok} {c : Tok} : IsColumns cs → IsColumn columns c → IsColumns (cs ++ [c])

/-- A column or several, or all but these. -/
inductive IsColset : List Tok → Prop
  | one {c : Tok} : IsColumn columns c → IsColset [c]
  | not {c : Tok} : IsColumn columns c → IsColset [.minus, c]
  | some {cs : List Tok} : IsColumns columns cs → IsColset (.lcp :: cs ++ [.rcp])
  | notSome {cs : List Tok} : IsColumns columns cs → IsColset (.minus :: .lcp :: cs ++ [.rcp])

inductive IsItem : List Tok → Prop
  | near {n : List Tok} : IsNear n → IsItem n
  | columns {cs n : List Tok} : IsColset columns cs → IsNear n → IsItem (cs ++ .colon :: n)

inductive IsItems : List Tok → Prop
  | one {i : List Tok} : IsItem columns i → IsItems i
  | cons {is i : List Tok} : IsItems is → IsItem columns i → IsItems (is ++ i)

/-- The queries of a table with these columns. -/
inductive IsQuery : List Tok → Prop
  | items {is : List Tok} : IsItems columns is → IsQuery is
  | parens {q : List Tok} : IsQuery q → IsQuery (.lp :: q ++ [.rp])
  | columns {cs q : List Tok} : IsColset columns cs → IsQuery q →
      IsQuery (cs ++ .colon :: .lp :: q ++ [.rp])
  | and {q r : List Tok} : IsQuery q → IsQuery r → IsQuery (q ++ .and :: r)
  | or {q r : List Tok} : IsQuery q → IsQuery r → IsQuery (q ++ .or :: r)
  | not {q r : List Tok} : IsQuery q → IsQuery r → IsQuery (q ++ .not :: r)

end Columns

/-! ### Scanning -/

/-- Nothing that means something between quotes. -/
def Quotable (t : Text) : Prop := ∀ c ∈ t, c ≠ quote ∧ c ≠ nul

theorem lexFrom_of_next {place next : Place} {c : Char} {toks : List Tok}
    (h : place.next c = some (toks, some next)) (rest : Text) :
    lexFrom place (c :: rest) = (lexFrom next rest).map (toks ++ ·) := by
  rw [lexFrom, h]

theorem lexFrom_of_quiet {place next : Place} {c : Char} (h : place.next c = some ([], some next))
    (rest : Text) : lexFrom place (c :: rest) = lexFrom next rest := by
  rw [lexFrom_of_next h]
  simp

/-- The character ends a string, and then is read as if there had been none. -/
theorem lexFrom_of_ends {place : Place} {c : Char} {tok : Tok}
    (h : place.next c = (begins c).map fun r => (tok :: r.1, r.2)) (rest : Text) :
    lexFrom place (c :: rest) = (lexFrom .outside (c :: rest)).map (tok :: ·) := by
  have houtside : Place.outside.next c = begins c := rfl
  rw [lexFrom, lexFrom, h, houtside]
  rcases begins c with _ | ⟨toks, _ | next⟩
  · rfl
  · rfl
  · simp only [Option.map_some, Option.map_map]
    rfl

/-- A character that is read by itself. -/
theorem lexFrom_begins {c : Char} {toks : List Tok} (h : begins c = some (toks, some .outside))
    (rest : Text) : lexFrom .outside (c :: rest) = (lexFrom .outside rest).map (toks ++ ·) :=
  @lexFrom_of_next .outside .outside c toks h rest

theorem lexFrom_quoted {t : Text} (h : Quotable t) (rest : Text) : ∀ cur,
    lexFrom (.quoted cur) (t ++ quote :: rest) = lexFrom (.closing (cur ++ t)) rest := by
  induction t with
  | nil =>
      intro cur
      have hnext : (Place.quoted cur).next quote = some ([], some (.closing cur)) := by
        rw [Place.next, if_neg (by decide), if_pos rfl]
      rw [List.nil_append, lexFrom_of_quiet hnext, List.append_nil]
  | cons c t ih =>
      intro cur
      obtain ⟨hquote, hnul⟩ := h c List.mem_cons_self
      have hnext : (Place.quoted cur).next c = some ([], some (.quoted (cur ++ [c]))) := by
        rw [Place.next, if_neg hnul, if_neg hquote]
      rw [List.cons_append, lexFrom_of_quiet hnext, ih fun d hd => h d (List.mem_cons_of_mem _ hd),
        List.append_assoc, List.singleton_append]

/-- **A text in quotes is one token**, if it has no quote itself. -/
theorem lexFrom_string {t : Text} (h : Quotable t) {rest : Text} (hrest : rest.head? ≠ some quote) :
    lexFrom .outside (quote :: t ++ quote :: rest) = (lexFrom .outside rest).map (.quoted t :: ·) := by
  have hnext : Place.outside.next quote = some ([], some (.quoted [])) := rfl
  rw [List.cons_append, lexFrom_of_quiet hnext, lexFrom_quoted h, List.nil_append]
  cases rest with
  | nil => rfl
  | cons c rest =>
      have hends : (Place.closing t).next c = (begins c).map fun r => (.quoted t :: r.1, r.2) :=
        if_neg fun hc => hrest (congrArg some hc)
      exact lexFrom_of_ends hends rest

theorem lexFrom_word {w : Text} (h : ∀ c ∈ w, isBareword c = true) {c : Char}
    (hc : isBareword c = false) (rest : Text) : ∀ cur,
    lexFrom (.word cur) (w ++ c :: rest)
      = (lexFrom .outside (c :: rest)).map (bareword (cur ++ w) :: ·) := by
  induction w with
  | nil =>
      intro cur
      rw [List.nil_append, List.append_nil]
      have hends : (Place.word cur).next c = (begins c).map fun r => (bareword cur :: r.1, r.2) :=
        if_neg (Bool.eq_false_iff.mp hc)
      exact lexFrom_of_ends hends rest
  | cons d w ih =>
      intro cur
      have hnext : (Place.word cur).next d = some ([], some (.word (cur ++ [d]))) :=
        if_pos (h d List.mem_cons_self)
      rw [List.cons_append, lexFrom_of_quiet hnext, ih fun x hx => h x (List.mem_cons_of_mem _ hx),
        List.append_assoc, List.singleton_append]

/-- **A bare word is one token.** -/
theorem lexFrom_bareword {d : Char} {w : Text} (hd : begins d = some ([], some (.word [d])))
    (h : ∀ c ∈ w, isBareword c = true) {c : Char} (hc : isBareword c = false) (rest : Text) :
    lexFrom .outside (d :: w ++ c :: rest)
      = (lexFrom .outside (c :: rest)).map (bareword (d :: w) :: ·) := by
  rw [List.cons_append, @lexFrom_of_quiet .outside _ d hd, lexFrom_word h hc]
  rfl

end FlyMail.Fts5
