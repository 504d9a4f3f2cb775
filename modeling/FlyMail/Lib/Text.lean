/-
Text, and the numbers written in it.

A text is a list of characters.  What is here is the small part of a string
library that stored records rely on: trimming blanks, and decimal numbers with the
round trip from a number to its digits and back.  A list of numbers kept in one
text column, joined by commas, is read back as the same list.
-/
import Mathlib.Algebra.Ring.Nat
import Mathlib.Data.List.TakeWhile

namespace FlyMail

/-- A string, as the characters it is made of. -/
abbrev Text := List Char

/-- Equal texts are those whose characters are. -/
instance lawfulBEqText : LawfulBEq Text := inferInstance

/-- What holds of every entry is decided entry by entry, also where the entries' type could be gone
through whole. -/
instance (priority := 1100) decidableForallEntries {α : Type} {p : α → Prop} [DecidablePred p] (l : List α) :
    Decidable (∀ a ∈ l, p a) :=
  List.decidableBAll p l

namespace Text

/-- The characters Unicode calls white space. -/
def isSpace (c : Char) : Bool :=
  let n := c.toNat
  (9 ≤ n && n ≤ 13) || n == 0x20 || n == 0x85 || n == 0xA0 || n == 0x1680 ||
    (0x2000 ≤ n && n ≤ 0x200A) || n == 0x2028 || n == 0x2029 || n == 0x202F || n == 0x205F ||
    n == 0x3000

/-- The text without the blanks at its two ends. -/
def trimSpace (t : Text) : Text :=
  ((t.dropWhile isSpace).reverse.dropWhile isSpace).reverse

/-- The words of the text: the pieces between runs of blanks. -/
def fields (t : Text) : List Text := (t.splitOnP isSpace).filter fun w => w != []

@[simp] theorem fields_nil : fields [] = [] := rfl

/-- The texts one after another with `sep` between them. -/
def join (ts : List Text) (sep : Text) : Text := sep.intercalate ts

/-- How many bytes the text takes in UTF-8. -/
def byteLen (t : Text) : Nat := (t.map Char.utf8Size).sum

/-- What is before the first `sep` and what is behind it. -/
def cut (t : Text) (sep : Char) : Option (Text × Text) :=
  match t.dropWhile (· != sep) with
  | [] => none
  | _ :: rest => some (t.takeWhile (· != sep), rest)

/-- The element in front of the first list. -/
def consFirst {α : Type} (a : α) : List (List α) → List (List α)
  | [] => [[a]]
  | l :: ls => (a :: l) :: ls

/-- The decimal digits of a number. -/
def formatUint (n : Nat) : Text := Nat.toDigits 10 n

/-- Read a decimal number of at most `bits` bits; nothing but digits is accepted. -/
def parseUint (bits : Nat) (t : Text) : Option Nat :=
  if t ≠ [] ∧ t.all Char.isDigit = true then
    let n := Nat.ofDigitChars 10 t 0
    if n < 2 ^ bits then some n else none
  else none

theorem cut_append {sep : Char} {a : Text} (h : sep ∉ a) (b : Text) :
    cut (a ++ sep :: b) sep = some (a, b) := by
  have hne : ∀ c ∈ a, (c != sep) = true := by
    intro c hc
    rw [bne_iff_ne]
    exact fun heq => h (heq ▸ hc)
  unfold cut
  rw [List.dropWhile_append_of_pos hne, List.takeWhile_append_of_pos hne]
  simp

theorem eq_of_cut {sep : Char} {t a b : Text} (h : cut t sep = some (a, b)) : t = a ++ sep :: b := by
  unfold cut at h
  split at h
  · cases h
  · rename_i c rest hrest
    obtain ⟨rfl, rfl⟩ := Prod.mk.inj (Option.some.inj h)
    have hc : (c != sep) = false := by
      have hnot := List.head?_dropWhile_not (· != sep) t
      rw [hrest] at hnot
      simpa using hnot
    rw [bne_eq_false_iff_eq] at hc
    have hsplit : t.takeWhile (· != sep) ++ t.dropWhile (· != sep) = t := List.takeWhile_append_dropWhile
    rw [hrest, hc] at hsplit
    exact hsplit.symm

/-! ### Lower case of ASCII letters -/

theorem toLower_cases (c : Char) :
    c.toLower = c ∨ (65 ≤ c.toNat ∧ c.toNat ≤ 90 ∧ c.toLower.toNat = c.toNat + 32) := by
  unfold Char.toLower
  split
  · rename_i h
    have hlow : 65 ≤ c.toNat := UInt32.le_iff_toNat_le.mp h.1
    have hhigh : c.toNat ≤ 90 := UInt32.le_iff_toNat_le.mp h.2
    have hval : (c.val + ('a'.val - 'A'.val)).toNat = (c.toNat + 32) % 2 ^ 32 := by
      simp [UInt32.toNat_add]
    refine Or.inr ⟨hlow, hhigh, ?_⟩
    show (c.val + ('a'.val - 'A'.val)).toNat = c.toNat + 32
    omega
  · exact Or.inl rfl

theorem isSpace_of_ascii {c : Char} (hlow : 33 ≤ c.toNat) (hhigh : c.toNat < 128) :
    isSpace c = false := by
  simp [isSpace]
  omega

theorem isSpace_toLower (c : Char) : isSpace c.toLower = isSpace c := by
  rcases toLower_cases c with heq | ⟨hlow, hhigh, heq⟩
  · rw [heq]
  · rw [isSpace_of_ascii (by omega) (by omega), isSpace_of_ascii (by omega) (by omega)]

/-! ### A number survives being written and read -/

theorem isSpace_of_isDigit {c : Char} (h : c.isDigit = true) : isSpace c = false := by
  simp only [Char.isDigit, Bool.and_eq_true, decide_eq_true_eq, ge_iff_le,
    UInt32.le_iff_toNat_le] at h
  change 48 ≤ c.toNat ∧ c.toNat ≤ 57 at h
  simp only [isSpace, Bool.or_eq_false_iff, Bool.and_eq_false_iff, beq_eq_false_iff_ne,
    decide_eq_false_iff_not]
  omega

private theorem dropWhile_eq_self {p : Char → Bool} {t : Text} (h : ∀ c ∈ t, p c = false) :
    t.dropWhile p = t := by
  cases t with
  | nil => rfl
  | cons c rest => rw [List.dropWhile_cons_of_neg (by simp [h c (by simp)])]

theorem trimSpace_eq_self {t : Text} (h : ∀ c ∈ t, isSpace c = false) : trimSpace t = t := by
  unfold trimSpace
  rw [dropWhile_eq_self h, dropWhile_eq_self (by simpa using h), List.reverse_reverse]

private theorem dropWhile_eq_self_of_head {p : Char → Bool} {t : Text} (h : ∀ c ∈ t.head?, p c = false) :
    t.dropWhile p = t := by
  cases t with
  | nil => rfl
  | cons c rest => rw [List.dropWhile_cons_of_neg (by simp [h c rfl])]

private theorem head_dropWhile (p : Char → Bool) (t : Text) : ∀ c ∈ (t.dropWhile p).head?, p c = false := by
  intro c hc
  have h := List.head?_dropWhile_not p t
  rw [Option.mem_def] at hc
  rwa [hc] at h

private theorem dropWhile_append {p : Char → Bool} {x t : Text} (h : ∀ c ∈ x, p c = true) :
    (x ++ t).dropWhile p = t.dropWhile p := by
  induction x with
  | nil => rfl
  | cons c x ih =>
    rw [List.cons_append, List.dropWhile_cons_of_pos (h c List.mem_cons_self),
      ih fun d hd => h d (List.mem_cons_of_mem _ hd)]

/-- A word is left of what is between blanks. -/
theorem trimSpace_between {x t y : Text} (hx : ∀ c ∈ x, isSpace c = true) (ht : ∀ c ∈ t, isSpace c = false)
    (hy : ∀ c ∈ y, isSpace c = true) : trimSpace (x ++ t ++ y) = t := by
  have hy' : ∀ c ∈ y.reverse, isSpace c = true := fun c hc => hy c (List.mem_reverse.mp hc)
  unfold trimSpace
  rw [List.append_assoc, dropWhile_append hx]
  cases t with
  | nil =>
    have hnil := dropWhile_append (t := []) hy
    rw [List.append_nil] at hnil
    rw [List.nil_append, hnil]
    rfl
  | cons c t =>
    rw [List.cons_append, List.dropWhile_cons_of_neg (by simp [ht c List.mem_cons_self]), ← List.cons_append,
      List.reverse_append, dropWhile_append hy', dropWhile_eq_self fun d hd => ht d (List.mem_reverse.mp hd),
      List.reverse_reverse]

/-- What is cut off at the two ends are blanks. -/
theorem exists_trimSpace (t : Text) : ∃ x y, t = x ++ trimSpace t ++ y ∧ (∀ c ∈ x, isSpace c = true) ∧
    ∀ c ∈ y, isSpace c = true := by
  have hfront := List.takeWhile_append_dropWhile (p := isSpace) (l := t)
  have hback := congrArg List.reverse
    (List.takeWhile_append_dropWhile (p := isSpace) (l := (t.dropWhile isSpace).reverse))
  rw [List.reverse_append, List.reverse_reverse] at hback
  refine ⟨t.takeWhile isSpace, ((t.dropWhile isSpace).reverse.takeWhile isSpace).reverse, ?_,
    fun c hc => List.mem_takeWhile_imp hc, fun c hc => List.mem_takeWhile_imp (List.mem_reverse.mp hc)⟩
  unfold trimSpace
  rw [List.append_assoc, hback, hfront]

theorem trimSpace_cons {c : Char} (h : isSpace c = true) (t : Text) : trimSpace (c :: t) = trimSpace t := by
  unfold trimSpace
  rw [List.dropWhile_cons_of_pos h]

/-- What begins with no blank begins as it did. -/
theorem head_trimSpace {c : Char} (h : isSpace c = false) (t : Text) : (trimSpace (c :: t)).head? = some c := by
  obtain ⟨x, y, heq, hx, hy⟩ := exists_trimSpace (c :: t)
  have hnone : ∀ {z : Text}, (∀ d ∈ z, isSpace d = true) → c ∉ z := fun hz hc => by
    rw [hz c hc] at h
    cases h
  cases x with
  | cons d x =>
    obtain ⟨rfl, -⟩ := List.cons.inj heq
    exact absurd List.mem_cons_self (hnone hx)
  | nil =>
    cases htrim : trimSpace (c :: t) with
    | nil =>
      rw [htrim, List.nil_append, List.nil_append] at heq
      exact absurd (heq ▸ List.mem_cons_self) (hnone hy)
    | cons d rest =>
      rw [htrim] at heq
      obtain ⟨rfl, -⟩ := List.cons.inj heq
      rfl

/-- What is trimmed is trimmed. -/
theorem trimSpace_trimSpace (t : Text) : trimSpace (trimSpace t) = trimSpace t := by
  have hlast : ∀ c ∈ ((t.dropWhile isSpace).reverse.dropWhile isSpace).reverse.head?, isSpace c = false := by
    intro c hc
    rw [List.head?_reverse] at hc
    obtain ⟨pre, hpre⟩ := List.dropWhile_suffix isSpace (l := (t.dropWhile isSpace).reverse)
    refine head_dropWhile isSpace t c ?_
    rw [← List.getLast?_reverse, ← hpre, Option.mem_def, List.getLast?_append, Option.mem_def.mp hc]
    rfl
  unfold trimSpace
  rw [dropWhile_eq_self_of_head hlast, List.reverse_reverse,
    dropWhile_eq_self_of_head (head_dropWhile isSpace (t.dropWhile isSpace).reverse)]

theorem isDigit_of_mem_formatUint {n : Nat} {c : Char} (h : c ∈ formatUint n) :
    c.isDigit = true :=
  Nat.isDigit_of_mem_toDigits (by decide) (by decide) h

theorem trimSpace_formatUint (n : Nat) : trimSpace (formatUint n) = formatUint n :=
  trimSpace_eq_self fun _ hc => isSpace_of_isDigit (isDigit_of_mem_formatUint hc)

/-- **A number that fits is read back.** -/
theorem parseUint_formatUint {bits n : Nat} (h : n < 2 ^ bits) :
    parseUint bits (formatUint n) = some n := by
  have hdigits : (formatUint n).all Char.isDigit = true :=
    List.all_eq_true.mpr fun _ hc => isDigit_of_mem_formatUint hc
  have hvalue : Nat.ofDigitChars 10 (formatUint n) 0 = n := Nat.ofDigitChars_ten_toDigits
  have hne : formatUint n ≠ [] := Nat.toDigits_ne_nil
  unfold parseUint
  rw [if_pos ⟨hne, hdigits⟩]
  simp only [hvalue, if_pos h]

/-- The decimal form determines the number. -/
theorem formatUint_inj {m n : Nat} (h : formatUint m = formatUint n) : m = n := by
  have hm : Nat.ofDigitChars 10 (formatUint m) 0 = m := Nat.ofDigitChars_ten_toDigits
  have hn : Nat.ofDigitChars 10 (formatUint n) 0 = n := Nat.ofDigitChars_ten_toDigits
  rw [← hm, ← hn, h]

/-! ### A list of numbers in one text -/

/-- The texts one after another with commas between them. -/
def commaJoin (ts : List Text) : Text := [','].intercalate ts

/-- The pieces between the commas. -/
def commaSplit (t : Text) : List Text := t.splitOn ','

theorem commaSplit_commaJoin {ts : List Text} (hne : ts ≠ []) (h : ∀ t ∈ ts, ',' ∉ t) :
    commaSplit (commaJoin ts) = ts :=
  List.splitOn_intercalate ',' h hne

theorem comma_notMem_formatUint (n : Nat) : ',' ∉ formatUint n :=
  fun h => absurd (isDigit_of_mem_formatUint h) (by decide)

theorem commaJoin_ne_nil {n : Nat} {ns : List Nat} :
    commaJoin ((n :: ns).map formatUint) ≠ [] := by
  have hne : formatUint n ≠ [] := Nat.toDigits_ne_nil
  intro h
  have hsplit : commaSplit (commaJoin ((n :: ns).map formatUint)) = (n :: ns).map formatUint := by
    refine commaSplit_commaJoin (by simp) fun t ht => ?_
    obtain ⟨m, -, rfl⟩ := List.mem_map.mp ht
    exact comma_notMem_formatUint m
  rw [h] at hsplit
  cases ns with
  | nil => exact hne (by simpa [commaSplit] using hsplit.symm)
  | cons m rest => simp [commaSplit] at hsplit

end Text

end FlyMail
