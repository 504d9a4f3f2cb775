/-
Numbers written in columns.

A number of at most `w` digits takes `w` characters, with zeros in front, and a separator follows
it.  Rows of such columns compare as texts the way their numbers do, column by column
(`write_lt_write`), and are read back (`read_write`).
-/
import FlyMail.Lib.Text
import Mathlib.Data.List.Lex

namespace FlyMail.Layout

/-- The last `w` digits of a number. -/
def pad : Nat → Nat → Text
  | 0, _ => []
  | w + 1, n => pad w (n / 10) ++ [Nat.digitChar (n % 10)]

@[simp] theorem length_pad (w : Nat) : ∀ n, (pad w n).length = w := by
  induction w with
  | zero => exact fun n => rfl
  | succ w ih =>
      intro n
      unfold pad
      rw [List.length_append, ih, List.length_singleton]

theorem isDigit_of_mem_pad {w : Nat} {c : Char} : ∀ {n}, c ∈ pad w n → c.isDigit = true := by
  induction w with
  | zero => exact fun h => absurd h List.not_mem_nil
  | succ w ih =>
      intro n h
      rcases List.mem_append.mp h with h | h
      · exact ih h
      · rw [List.mem_singleton.mp h]
        have hall : ∀ d < 10, (Nat.digitChar d).isDigit = true := by decide
        exact hall _ (Nat.mod_lt _ (by decide))

/-- **A number in its column is read back.** -/
theorem ofDigitChars_pad (w : Nat) : ∀ {n}, n < 10 ^ w → Nat.ofDigitChars 10 (pad w n) 0 = n := by
  induction w with
  | zero =>
      intro n h
      rw [Nat.pow_zero, Nat.lt_one_iff] at h
      rw [h]
      rfl
  | succ w ih =>
      intro n h
      have hdiv : n / 10 < 10 ^ w := by
        rw [Nat.pow_succ] at h
        omega
      unfold pad
      rw [Nat.ofDigitChars_append, ih hdiv, Nat.ofDigitChars_cons_digitChar_of_lt_ten (Nat.mod_lt _ (by decide)),
        Nat.ofDigitChars_nil]
      omega

theorem parseUint_pad {bits w n : Nat} (hw : 0 < w) (hn : n < 10 ^ w) (hbits : n < 2 ^ bits) :
    Text.parseUint bits (pad w n) = some n := by
  have hne : pad w n ≠ [] := fun h => by
    have hlen := length_pad w n
    rw [h] at hlen
    exact absurd hlen.symm (Nat.ne_of_gt hw)
  have hdigits : (pad w n).all Char.isDigit = true :=
    List.all_eq_true.mpr fun c hc => isDigit_of_mem_pad hc
  unfold Text.parseUint
  rw [if_pos ⟨hne, hdigits⟩, ofDigitChars_pad w hn]
  exact if_pos hbits

/-! ### Order -/

theorem append_lt_append {s t u v : Text} (h : s < t) (hlen : s.length = t.length) : s ++ u < t ++ v := by
  induction s generalizing t with
  | nil =>
      rw [List.length_eq_zero_iff.mp hlen.symm] at h
      exact absurd h (List.not_lt_nil [])
  | cons a s ih =>
      cases t with
      | nil => exact absurd h (List.not_lt_nil _)
      | cons b t =>
          rw [List.cons_append, List.cons_append, List.cons_lt_cons_iff]
          rcases List.cons_lt_cons_iff.mp h with hab | ⟨hab, hst⟩
          · exact Or.inl hab
          · exact Or.inr ⟨hab, ih hst (Nat.succ.inj hlen)⟩

theorem digitChar_lt {a b : Nat} (hb : b < 10) (h : a < b) : Nat.digitChar a < Nat.digitChar b := by
  have hall : ∀ b < 10, ∀ a < b, Nat.digitChar a < Nat.digitChar b := by decide
  exact hall b hb a h

theorem pad_lt_pad (w : Nat) : ∀ {a b}, a < b → b < 10 ^ w → pad w a < pad w b := by
  induction w with
  | zero =>
      intro a b h hb
      rw [Nat.pow_zero] at hb
      omega
  | succ w ih =>
      intro a b h hb
      have hdiv : b / 10 < 10 ^ w := by
        rw [Nat.pow_succ] at hb
        omega
      unfold pad
      by_cases hlt : a / 10 < b / 10
      · exact append_lt_append (ih hlt hdiv) (by simp)
      · have heq : a / 10 = b / 10 := by omega
        rw [heq]
        refine List.append_left_lt (List.cons_lt_cons_iff.mpr (Or.inl ?_))
        exact digitChar_lt (Nat.mod_lt _ (by decide)) (by omega)

/-! ### Rows of columns -/

/-- The columns: how wide each is and what follows it. -/
abbrev Columns := List (Nat × Char)

def write : Columns → List Nat → Text
  | (w, c) :: columns, n :: ns => pad w n ++ c :: write columns ns
  | _, _ => []

def read : Columns → Text → Option (List Nat)
  | [], t => if t = [] then some [] else none
  | (w, c) :: columns, t =>
      match Text.parseUint 64 (t.take w), t.drop w with
      | some n, d :: rest => if d = c then (read columns rest).map (n :: ·) else none
      | _, _ => none

/-- The numbers fit in the columns. -/
def Fits : Columns → List Nat → Prop
  | [], ns => ns = []
  | (w, _) :: columns, n :: ns => (0 < w ∧ n < 10 ^ w ∧ n < 2 ^ 64) ∧ Fits columns ns
  | _ :: _, [] => False

theorem length_write : ∀ (columns : Columns) {ns ms : List Nat}, Fits columns ns → Fits columns ms →
    (write columns ns).length = (write columns ms).length := by
  intro columns
  induction columns with
  | nil =>
      rintro ns ms rfl rfl
      rfl
  | cons wc columns ih =>
      intro ns ms hn hm
      cases ns with
      | nil => exact hn.elim
      | cons n ns =>
          cases ms with
          | nil => exact hm.elim
          | cons m ms => simp [write, ih hn.2 hm.2]

theorem read_pad {w n : Nat} {c d : Char} {columns : Columns} {t : Text}
    (h : 0 < w ∧ n < 10 ^ w ∧ n < 2 ^ 64) :
    read ((w, c) :: columns) (pad w n ++ d :: t)
      = if d = c then (read columns t).map (n :: ·) else none := by
  have htake : (pad w n ++ d :: t).take w = pad w n := by
    rw [List.take_append_of_le_length (by simp), List.take_of_length_le (by simp)]
  have hdrop : (pad w n ++ d :: t).drop w = d :: t := by
    rw [List.drop_append_of_le_length (by simp), List.drop_of_length_le (by simp), List.nil_append]
  rw [read, htake, hdrop, parseUint_pad h.1 h.2.1 h.2.2]

/-- **Rows are read back.** -/
theorem read_write : ∀ (columns : Columns) {ns : List Nat}, Fits columns ns →
    read columns (write columns ns) = some ns := by
  intro columns
  induction columns with
  | nil =>
      rintro ns rfl
      rfl
  | cons wc columns ih =>
      intro ns h
      cases ns with
      | nil => exact h.elim
      | cons n ns =>
          unfold write
          rw [read_pad h.1, if_pos rfl, ih h.2]
          rfl

/-- **Rows compare as their numbers do.** -/
theorem write_lt_write : ∀ (columns : Columns) {ns ms : List Nat}, Fits columns ns → Fits columns ms →
    ns < ms → write columns ns < write columns ms := by
  intro columns
  induction columns with
  | nil =>
      rintro ns ms rfl rfl h
      exact absurd h (List.not_lt_nil [])
  | cons wc columns ih =>
      intro ns ms hn hm h
      cases ns with
      | nil => exact hn.elim
      | cons n ns =>
          cases ms with
          | nil => exact hm.elim
          | cons m ms =>
              rcases List.cons_lt_cons_iff.mp h with hlt | ⟨rfl, hlt⟩
              · exact append_lt_append (pad_lt_pad wc.1 hlt hm.1.2.1) (by simp)
              · exact List.append_left_lt (List.cons_lt_cons_iff.mpr (Or.inr ⟨rfl, ih hn.2 hm.2 hlt⟩))

end FlyMail.Layout
