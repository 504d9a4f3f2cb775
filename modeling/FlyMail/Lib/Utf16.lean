/-
Text in UTF-16.

A character takes one unit, or two if its number does not fit into one: a high surrogate and
a low one behind it.  No character has the number of a surrogate, so what is written is read
back.  A surrogate without the other one reads as the replacement character.
-/
import FlyMail.Lib.Text

namespace FlyMail.Utf16

def units (c : Char) : List Nat :=
  if c.toNat ≤ 0xFFFF then [c.toNat]
  else [(c.toNat - 0x10000) / 0x400 + 0xD800, (c.toNat - 0x10000) % 0x400 + 0xDC00]

def encode (t : Text) : List Nat := t.flatMap units

def isHigh (u : Nat) : Bool := 0xD800 ≤ u && u < 0xDC00

def isLow (u : Nat) : Bool := 0xDC00 ≤ u && u < 0xE000

/-- A unit by itself. -/
def single (u : Nat) : Char := if isHigh u || isLow u then Char.ofNat 0xFFFD else Char.ofNat u

def decode : List Nat → Text
  | [] => []
  | [u] => [single u]
  | u :: v :: rest =>
      if isHigh u && isLow v then
        Char.ofNat ((u - 0xD800) * 0x400 + (v - 0xDC00) + 0x10000) :: decode rest
      else single u :: decode (v :: rest)

@[simp] theorem encode_nil : encode [] = [] := rfl

@[simp] theorem encode_cons (c : Char) (t : Text) : encode (c :: t) = units c ++ encode t := by
  simp [encode]

theorem units_length_pos (c : Char) : 0 < (units c).length := by
  unfold units
  split
  · exact Nat.one_pos
  · exact Nat.two_pos

theorem lt_of_mem_units {c : Char} {u : Nat} (h : u ∈ units c) : u < 0x10000 := by
  have hvalid : c.toNat < 0xD800 ∨ (0xDFFF < c.toNat ∧ c.toNat < 0x110000) := c.valid
  unfold units at h
  split at h
  · rw [List.mem_singleton] at h
    omega
  · simp only [List.mem_cons, List.not_mem_nil, or_false] at h
    omega

theorem lt_of_mem_encode {t : Text} {u : Nat} (h : u ∈ encode t) : u < 0x10000 := by
  obtain ⟨c, -, hu⟩ := List.mem_flatMap.mp h
  exact lt_of_mem_units hu

theorem decode_single {u : Nat} (h : isHigh u = false) (rest : List Nat) :
    decode (u :: rest) = single u :: decode rest := by
  cases rest with
  | nil => rfl
  | cons v rest => simp [decode, h]

theorem decode_units (c : Char) (rest : List Nat) : decode (units c ++ rest) = c :: decode rest := by
  have hvalid : c.toNat < 0xD800 ∨ (0xDFFF < c.toNat ∧ c.toNat < 0x110000) := c.valid
  unfold units
  split
  · have hhigh : isHigh c.toNat = false := by
      simp only [isHigh, Bool.and_eq_false_iff, decide_eq_false_iff_not]
      omega
    have hlow : isLow c.toNat = false := by
      simp only [isLow, Bool.and_eq_false_iff, decide_eq_false_iff_not]
      omega
    rw [List.singleton_append, decode_single hhigh, single, hhigh, hlow]
    simp
  · rename_i hlarge
    have hhigh : isHigh ((c.toNat - 0x10000) / 0x400 + 0xD800) = true := by
      simp only [isHigh, Bool.and_eq_true, decide_eq_true_eq]
      omega
    have hlow : isLow ((c.toNat - 0x10000) % 0x400 + 0xDC00) = true := by
      simp only [isLow, Bool.and_eq_true, decide_eq_true_eq]
      omega
    have hnumber : ((c.toNat - 0x10000) / 0x400 + 0xD800 - 0xD800) * 0x400
        + ((c.toNat - 0x10000) % 0x400 + 0xDC00 - 0xDC00) + 0x10000 = c.toNat := by
      omega
    simp only [List.cons_append, List.nil_append, decode, hhigh, hlow, Bool.and_self, if_true,
      hnumber, Char.ofNat_toNat]

/-- **What is written is read back.** -/
theorem decode_encode (t : Text) : decode (encode t) = t := by
  induction t with
  | nil => rfl
  | cons c rest ih => rw [encode_cons, decode_units, ih]

end FlyMail.Utf16
