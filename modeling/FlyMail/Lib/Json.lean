/-
Values of JSON, and how many bytes they take.

A text is written between quotes; what would end it, control characters and the characters
that mean something in HTML are written as escapes.  The fields of an object may be written
in any order, which makes no difference to the size.
-/
import FlyMail.Lib.Text

namespace FlyMail

inductive Json
  | str (s : Text)
  | num (n : Nat)
  | bool (b : Bool)
  | arr (elems : List Json)
  | obj (fields : List (Text × Json))

namespace Json

/-- How many bytes a character of a text takes. -/
def escapedSize (c : Char) : Nat :=
  let n := c.toNat
  if n = 0x22 ∨ n = 0x5C ∨ n = 8 ∨ n = 9 ∨ n = 10 ∨ n = 12 ∨ n = 13 then 2
  else if n < 0x20 ∨ n = 0x3C ∨ n = 0x3E ∨ n = 0x26 ∨ n = 0x2028 ∨ n = 0x2029 then 6
  else c.utf8Size

def quotedSize (s : Text) : Nat := 2 + (s.map escapedSize).sum

mutual

/-- How many bytes the value takes. -/
def size : Json → Nat
  | .str s => quotedSize s
  | .num n => (Text.formatUint n).length
  | .bool b => if b then 4 else 5
  | .arr elems => 2 + (sizeElems elems - 1)
  | .obj fields => 2 + (sizeFields fields - 1)

/-- The elements, each with a comma behind it. -/
def sizeElems : List Json → Nat
  | [] => 0
  | e :: rest => size e + 1 + sizeElems rest

/-- The fields, each with a colon inside and a comma behind it. -/
def sizeFields : List (Text × Json) → Nat
  | [] => 0
  | (key, v) :: rest => quotedSize key + 1 + size v + 1 + sizeFields rest

end

/-- The value of an object's field. -/
def get? (key : Text) : Json → Option Json
  | .obj fields => fields.lookup key
  | _ => none

/-- A longer text takes no fewer bytes. -/
theorem quotedSize_le_append (s t : Text) : quotedSize s ≤ quotedSize (s ++ t) := by
  unfold quotedSize
  rw [List.map_append, List.sum_append]
  omega

theorem sizeElems_append (a b : List Json) : sizeElems (a ++ b) = sizeElems a + sizeElems b := by
  induction a with
  | nil => simp [sizeElems]
  | cons e rest ih =>
      simp only [List.cons_append, sizeElems, ih]
      omega

end Json

end FlyMail
