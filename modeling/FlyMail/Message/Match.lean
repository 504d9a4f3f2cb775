/-
What is asked of the full-text index.

A search term is cut where characters without blanks between words meet others.  A run of the
former becomes a phrase of its pairs, as it has in the index; of the rest the words are taken,
each as the beginning of one unless the user has put the term in quotes.  A query asks for all
its terms, some of them in one column.

What the user writes stands between quotes in the expression, and quotes are no part of words.
Which characters are letters and digits, and which have no blanks between words, are the
platform's tables, of which nothing is known beyond ASCII.
-/
import FlyMail.Lib.Fts5
import FlyMail.Message.Fts
import FlyMail.Message.Query

namespace FlyMail.Message.Fts

open Fts5 (Phrase)

/-- The classes of characters. -/
structure Classes where
  isCJK : Char → Bool
  isLetter : Char → Bool
  isDigit : Char → Bool
  cjk_ascii : ∀ c, c.toNat < 0x80 → isCJK c = false
  letter_ascii : ∀ c, c.toNat < 0x80 → isLetter c = c.isAlpha
  digit_ascii : ∀ c, c.toNat < 0x80 → isDigit c = c.isDigit

/-- What the words of a query are made of. -/
def Classes.isWord (cls : Classes) (c : Char) : Bool := cls.isLetter c || cls.isDigit c

/-! ### Terms -/

structure Segment where
  text : Text
  cjk : Bool
  deriving DecidableEq, Repr

def flushSegment (cur : Text) (curCJK : Bool) : List Segment :=
  if cur = [] then [] else [⟨cur, curCJK⟩]

def segmentsFrom (isCJK : Char → Bool) : Text → Bool → Text → List Segment
  | cur, curCJK, [] => flushSegment cur curCJK
  | cur, curCJK, r :: rest =>
      if cur ≠ [] ∧ isCJK r ≠ curCJK then
        flushSegment cur curCJK ++ segmentsFrom isCJK [r] (isCJK r) rest
      else segmentsFrom isCJK (cur ++ [r]) (isCJK r) rest

/-- The term, cut where the two kinds of characters meet. -/
def segments (isCJK : Char → Bool) (term : Text) : List Segment := segmentsFrom isCJK [] false term

def flushToken (cur : Text) : List Text := if cur = [] then [] else [cur]

def latinTokensFrom (cls : Classes) : Text → Text → List Text
  | cur, [] => flushToken cur
  | cur, r :: rest =>
      if cls.isWord r then latinTokensFrom cls (cur ++ [r]) rest
      else flushToken cur ++ latinTokensFrom cls [] rest

/-- The words of a text. -/
def latinTokens (cls : Classes) (s : Text) : List Text := latinTokensFrom cls [] s

/-- The phrases that a segment becomes. -/
def segmentParts (cls : Classes) (phrase : Bool) (seg : Segment) : List Phrase :=
  if seg.cjk then [⟨writeBigrams seg.text, false⟩]
  else
    let toks := latinTokens cls seg.text
    if toks = [] then []
    else if phrase then [⟨Text.join toks [' '], false⟩]
    else toks.map fun tok => ⟨tok, true⟩

def matchParts (cls : Classes) (term : Text) (phrase : Bool) : List Phrase :=
  (segments cls.isCJK term).flatMap (segmentParts cls phrase)

def quoteMark : Char := Char.ofNat 34

def writePhrase (p : Phrase) : Text :=
  quoteMark :: p.text ++ quoteMark :: (if p.isPrefix then ['*'] else [])

/-- The part of the expression for a term. -/
def matchExpr (cls : Classes) (term : Text) (phrase : Bool) : Text :=
  Text.join ((matchParts cls term phrase).map writePhrase) [' ']

theorem matchExpr_eq_nil {cls : Classes} {term : Text} {phrase : Bool} :
    matchExpr cls term phrase = [] ↔ matchParts cls term phrase = [] := by
  unfold matchExpr
  constructor
  · intro h
    by_contra hne
    obtain ⟨p, ps, heq⟩ := List.exists_cons_of_ne_nil hne
    rw [heq, List.map_cons] at h
    cases ps with
    | nil => simp [Text.join, writePhrase] at h
    | cons p' ps => simp [Text.join, List.intercalate_cons_cons, writePhrase] at h
  · intro h
    rw [h]
    rfl

/-! ### Queries -/

/-- The terms of a query for some columns. -/
def addTerms (cls : Classes) (columns : Text) (terms : List Query.Term) : List Text :=
  terms.filterMap fun t =>
    let expr := matchExpr cls t.text t.phrase
    if expr = [] then none
    else if columns = [] then some ('(' :: expr ++ [')'])
    else some (columns ++ ": (".toList ++ expr ++ [')'])

/-- `Match`: the whole expression. -/
def matchQuery (cls : Classes) (q : Query.Parsed) : Text :=
  Text.join
    (addTerms cls [] q.terms ++ addTerms cls "\x7bfrom_name from_addr\x7d".toList q.fromTerms ++
      addTerms cls "recipients".toList q.toTerms ++ addTerms cls "subject".toList q.subject)
    " AND ".toList

/-! ### The index -/

/-- The tables of the platform and the tokenizer of the index, and how they agree. -/
structure Engine where
  cls : Classes
  u : Fts5.Unicode61
  diacritic_cjk : ∀ c, cls.isCJK c = true → u.isDiacritic c = false
  /-- There is no case and no diacritic to fold. -/
  fold_cjk : ∀ c, cls.isCJK c = true → u.fold c = some c
  fold_other : ∀ c d, cls.isCJK c = false → u.fold c = some d → cls.isCJK d = false
  diacritic_word : ∀ c, u.isDiacritic c = true → cls.isWord c = false
  fold_diacritic : ∀ c, u.isDiacritic c = true → u.fold c = none
  fold_alnum : ∀ c, u.isAlnum c = true → ∃ d, u.fold c = some d ∧ cls.isWord d = cls.isWord c

/-- The tokens of a text in the index. -/
def Engine.index (e : Engine) (t : Text) : List Text := e.u.tokens (tokenize e.cls.isCJK t)

/-- The expression for a term matches an indexed text. -/
def Engine.finds (e : Engine) (t term : Text) (phrase : Bool) : Bool :=
  Fts5.matchesAll e.u (matchParts e.cls term phrase) (e.index t)

def isHan (c : Char) : Bool := 0x4E00 ≤ c.toNat && c.toNat ≤ 0x9FFF

theorem isHan_toLower (c : Char) : isHan c.toLower = isHan c := by
  rcases Text.toLower_cases c with heq | hascii
  · rw [heq]
  · have hlower : isHan c.toLower = false := by simp [isHan]; omega
    have hhan : isHan c = false := by simp [isHan]; omega
    rw [hlower, hhan]

def foldASCII (c : Char) : Option Char :=
  if 0x300 ≤ c.toNat ∧ c.toNat ≤ 0x331 then none else some c.toLower

theorem foldASCII_han {c : Char} (h : isHan c = true) : foldASCII c = some c := by
  unfold isHan at h
  unfold foldASCII
  simp at h
  rw [if_neg (by omega)]
  rcases Text.toLower_cases c with heq | hascii
  · rw [heq]
  · omega

theorem foldASCII_other {c d : Char} (h : isHan c = false) (hd : foldASCII c = some d) :
    isHan d = false := by
  unfold foldASCII at hd
  split at hd
  · cases hd
  · obtain rfl := Option.some.inj hd
    rw [isHan_toLower]
    exact h

/-- Letters and digits. -/
theorem isAlphanum_iff (c : Char) : c.isAlphanum = true ↔
    (('A'.val ≤ c.val ∧ c.val ≤ 'Z'.val) ∨ ('a'.val ≤ c.val ∧ c.val ≤ 'z'.val)) ∨
      ('0'.val ≤ c.val ∧ c.val ≤ '9'.val) := by
  have hunfold : c.isAlphanum = ((decide ('A'.val ≤ c.val ∧ c.val ≤ 'Z'.val) ||
      (decide ('a'.val ≤ c.val) && decide (c.val ≤ 'z'.val))) ||
      (decide ('0'.val ≤ c.val) && decide (c.val ≤ '9'.val))) := rfl
  simp only [hunfold, Bool.or_eq_true, Bool.and_eq_true, decide_eq_true_eq]

/-- Lower case keeps letters and digits. -/
theorem toLower_isAlphanum (c : Char) : c.toLower.isAlphanum = c.isAlphanum := by
  unfold Char.toLower
  split
  · rename_i h
    have hval : (c.val + ('a'.val - 'A'.val)).toNat = (c.val.toNat + 32) % 2 ^ 32 := by
      simp [UInt32.toNat_add]
    have hA : ('A').val.toNat = 65 := rfl
    have hZ : ('Z').val.toNat = 90 := rfl
    have ha : ('a').val.toNat = 97 := rfl
    have hz : ('z').val.toNat = 122 := rfl
    have hzero : ('0').val.toNat = 48 := rfl
    have hnine : ('9').val.toNat = 57 := rfl
    rw [Bool.eq_iff_iff, isAlphanum_iff, isAlphanum_iff]
    simp only [ge_iff_le, UInt32.le_iff_toNat_le, hval] at h ⊢
    omega
  · rfl

theorem isAlphanum_ascii {c : Char} (h : c.isAlphanum = true) : c.toNat < 0x80 := by
  simp only [isAlphanum_iff, UInt32.le_iff_toNat_le] at h
  have hZ : ('Z').val.toNat = 90 := rfl
  have hz : ('z').val.toNat = 122 := rfl
  have hnine : ('9').val.toNat = 57 := rfl
  show c.val.toNat < 128
  omega

/-- Chinese, ASCII and a superscript, a number but not a digit. -/
def Engine.basic : Engine where
  cls :=
    { isCJK := isHan
      isLetter := fun c => c.isAlpha || isHan c
      isDigit := Char.isDigit
      cjk_ascii := fun c h => by simp [isHan]; omega
      letter_ascii := fun c h => by simp [isHan]; omega
      digit_ascii := fun _ _ => rfl }
  u :=
    { isAlnum := fun c => c.isAlphanum || isHan c || c.toNat == 0xB2
      isDiacritic := fun c => 0x300 ≤ c.toNat && c.toNat ≤ 0x331
      fold := foldASCII
      alnum_ascii := fun c h => by
        have hother : (c.toNat == 0xB2) = false := by simp; omega
        have hhan : isHan c = false := by simp [isHan]; omega
        rw [hother, hhan, Bool.or_false, Bool.or_false]
      diacritic_ascii := fun c h => by simp; omega }
  diacritic_cjk := fun c h => by simp [isHan] at h ⊢; omega
  fold_cjk := fun _ h => foldASCII_han h
  fold_other := fun _ _ h hd => foldASCII_other h hd
  diacritic_word := fun c h => by
    have halnum : c.isAlphanum = false := by
      refine Bool.eq_false_iff.mpr fun halnum => ?_
      have hascii := isAlphanum_ascii halnum
      simp at h
      omega
    have hhan : isHan c = false := by
      simp [isHan] at h ⊢
      omega
    unfold Char.isAlphanum at halnum
    simp_all [Classes.isWord]
  fold_diacritic := fun c h => if_pos (by simpa using h)
  fold_alnum := fun c h => by
    have hplain : ¬ (0x300 ≤ c.toNat ∧ c.toNat ≤ 0x331) := by
      intro hmark
      simp only [Bool.or_eq_true, beq_iff_eq] at h
      rcases h with (halnum | hhan) | htwo
      · have hascii := isAlphanum_ascii halnum
        omega
      · simp [isHan] at hhan
        omega
      · omega
    refine ⟨c.toLower, if_neg hplain, ?_⟩
    have halnum := toLower_isAlphanum c
    unfold Char.isAlphanum at halnum
    simp only [Classes.isWord, isHan_toLower, Bool.or_right_comm, halnum]

end FlyMail.Message.Fts
