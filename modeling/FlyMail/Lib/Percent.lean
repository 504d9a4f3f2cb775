/-
Percent-encoding.

A byte is written as `%` and two hexadecimal digits.  What is encoded holds no character that means
something in a query, so it is read back from one.  Decoding it once more changes it, unless there was
no `%` in what was encoded.

What a reader of a query makes of bytes that are not UTF-8 is a parameter.
-/
import FlyMail.Lib.Utf8

namespace FlyMail.Percent

/-! ### Hexadecimal digits -/

def digit (n : Nat) : Char := "0123456789ABCDEF".toList.getD n '0'

def value (c : Char) : Option Nat :=
  if '0' ≤ c ∧ c ≤ '9' then some (c.toNat - 48)
  else if 'A' ≤ c ∧ c ≤ 'F' then some (c.toNat - 55)
  else if 'a' ≤ c ∧ c ≤ 'f' then some (c.toNat - 87)
  else none

/-- The byte of two digits. -/
def byte (h l : Char) : Option UInt8 :=
  (value h).bind fun a => (value l).map fun b => UInt8.ofNat (a * 16 + b)

theorem value_digit : ∀ n : Fin 16, value (digit n) = some n.val := by decide

/-- No digit means anything in a query. -/
theorem digit_plain : ∀ n : Fin 16,
    digit n ≠ '%' ∧ digit n ≠ '&' ∧ digit n ≠ '=' ∧ digit n ≠ '+' ∧ digit n ≠ '#' ∧ digit n ≠ '?' := by decide

theorem byte_digits (b : UInt8) : byte (digit (b.toNat / 16)) (digit (b.toNat % 16)) = some b := by
  have hlt := b.toNat_lt
  have hhigh : b.toNat / 16 < 16 := by omega
  have hlow : b.toNat % 16 < 16 := by omega
  have hh := value_digit ⟨_, hhigh⟩
  have hl := value_digit ⟨_, hlow⟩
  unfold byte
  rw [hh, hl]
  show some (UInt8.ofNat (b.toNat / 16 * 16 + b.toNat % 16)) = some b
  rw [show b.toNat / 16 * 16 + b.toNat % 16 = b.toNat by omega, UInt8.ofNat_toNat]

theorem value_percent : value '%' = none := by decide

/-! ### Encoding -/

/-- The characters that `encodeURIComponent` leaves as they are. -/
def unreserved (c : Char) : Bool :=
  ('0' ≤ c && c ≤ '9') || ('A' ≤ c && c ≤ 'Z') || ('a' ≤ c && c ≤ 'z') || "-_.!~*'()".toList.contains c

def escape (b : UInt8) : Text := ['%', digit (b.toNat / 16), digit (b.toNat % 16)]

def encodeChar (c : Char) : Text :=
  if unreserved c then [c] else (String.utf8EncodeChar c).flatMap escape

def encodeURIComponent (t : Text) : Text := t.flatMap encodeChar

/-! ### Decoding -/

/-- `decodeURIComponent`, `acc` the bytes of the escapes just before. -/
def decodeFrom : Bytes → Text → Option Text
  | acc, [] => if Utf8.valid acc then some (Utf8.runes acc) else none
  | acc, '%' :: h :: l :: rest => (byte h l).bind fun b => decodeFrom (acc ++ [b]) rest
  | acc, c :: rest =>
      if c = '%' ∨ Utf8.valid acc = false then none
      else (decodeFrom [] rest).map fun t => Utf8.runes acc ++ c :: t

def decodeURIComponent (t : Text) : Option Text := decodeFrom [] t

/-- The bytes of a text, the escapes read and what is no escape as it is. -/
def bytes : Text → Bytes
  | [] => []
  | '%' :: h :: l :: rest =>
      match byte h l with
      | some b => b :: bytes rest
      | none => Utf8.encode ['%'] ++ bytes (h :: l :: rest)
  | c :: rest => Utf8.encode [c] ++ bytes rest

/-- A name or a value of a query. -/
def formDecode (lossy : Bytes → Text) (t : Text) : Text :=
  let bs := bytes (t.map fun c => if c = '+' then ' ' else c)
  if Utf8.valid bs then Utf8.runes bs else lossy bs

/-- The names and values of a query without its question mark. -/
def formParse (lossy : Bytes → Text) (t : Text) : List (Text × Text) :=
  ((t.splitOn '&').filter (· != [])).map fun s =>
    match Text.cut s '=' with
    | some (name, v) => (formDecode lossy name, formDecode lossy v)
    | none => (formDecode lossy s, [])

/-! ### What is encoded -/

/-- What is encoded means nothing in a query, but for the escapes. -/
theorem plain_encodeURIComponent (t : Text) : ∀ c ∈ encodeURIComponent t,
    c ≠ '&' ∧ c ≠ '=' ∧ c ≠ '+' ∧ c ≠ '#' ∧ c ≠ '?' := by
  intro c hc
  obtain ⟨d, -, hd⟩ := List.mem_flatMap.mp hc
  unfold encodeChar at hd
  split at hd
  · rename_i hun
    rw [List.mem_singleton] at hd
    subst hd
    refine ⟨?_, ?_, ?_, ?_, ?_⟩ <;> (rintro rfl; exact absurd hun (by decide))
  · obtain ⟨b, -, hb⟩ := List.mem_flatMap.mp hd
    have hlt := b.toNat_lt
    have hhigh := digit_plain ⟨b.toNat / 16, by omega⟩
    have hlow := digit_plain ⟨b.toNat % 16, by omega⟩
    have hall : ∀ x ∈ escape b, x ≠ '&' ∧ x ≠ '=' ∧ x ≠ '+' ∧ x ≠ '#' ∧ x ≠ '?' := by
      intro x hx
      rcases List.mem_cons.mp hx with rfl | hx
      · decide
      · rcases List.mem_cons.mp hx with rfl | hx
        · exact hhigh.2
        · rw [List.mem_singleton.mp hx]
          exact hlow.2
    exact hall c hb

theorem bytes_escape (b : UInt8) (t : Text) : bytes (escape b ++ t) = b :: bytes t := by
  show bytes ('%' :: digit (b.toNat / 16) :: digit (b.toNat % 16) :: t) = _
  rw [bytes, byte_digits]

theorem bytes_cons {c : Char} (hc : c ≠ '%') (t : Text) : bytes (c :: t) = Utf8.encode [c] ++ bytes t := by
  rw [bytes]
  exact fun h l rest heq _ => hc heq

theorem bytes_flatMap_escape (bs : Bytes) (t : Text) : bytes (bs.flatMap escape ++ t) = bs ++ bytes t := by
  induction bs with
  | nil => rfl
  | cons b bs ih => rw [List.flatMap_cons, List.append_assoc, bytes_escape, ih, List.cons_append]

theorem bytes_encode (t : Text) : bytes (encodeURIComponent t) = Utf8.encode t := by
  induction t with
  | nil => rfl
  | cons c t ih =>
    show bytes (encodeChar c ++ encodeURIComponent t) = String.utf8EncodeChar c ++ Utf8.encode t
    unfold encodeChar
    split
    · rename_i hun
      have hc : c ≠ '%' := by
        rintro rfl
        exact absurd hun (by decide)
      rw [List.singleton_append, bytes_cons hc, ih]
      simp [Utf8.encode]
    · rw [bytes_flatMap_escape, ih]

/-- **What is encoded is read back from a query.** -/
theorem formDecode_encode (lossy : Bytes → Text) (t : Text) : formDecode lossy (encodeURIComponent t) = t := by
  have hplus : (encodeURIComponent t).map (fun c => if c = '+' then ' ' else c) = encodeURIComponent t := by
    refine (List.map_congr_left fun c hc => ?_).trans (List.map_id _)
    exact if_neg (plain_encodeURIComponent t c hc).2.2.1
  unfold formDecode
  rw [hplus, bytes_encode]
  dsimp only
  rw [if_pos (Utf8.valid_encode t), Utf8.runes_encode]

/-! ### Decoding once more -/

theorem decodeFrom_cons {acc : Bytes} {c : Char} (hc : c ≠ '%') (t : Text) : decodeFrom acc (c :: t) =
    if Utf8.valid acc = true then (decodeFrom [] t).map fun u => Utf8.runes acc ++ c :: u else none := by
  rw [decodeFrom]
  · cases Utf8.valid acc with
    | true => simp [hc]
    | false => simp
  · exact fun h l rest heq _ => hc heq

theorem decode_plain {t : Text} (h : '%' ∉ t) : decodeURIComponent t = some t := by
  unfold decodeURIComponent
  induction t with
  | nil => rfl
  | cons c t ih =>
    have hc : c ≠ '%' := fun heq => h (heq ▸ List.mem_cons_self)
    rw [decodeFrom_cons hc, if_pos (by rfl), ih fun hmem => h (List.mem_cons_of_mem _ hmem)]
    rfl

/-- Every escape takes three characters and gives one at most. -/
theorem length_decodeFrom : ∀ {t : Text} {acc : Bytes} {u : Text}, decodeFrom acc t = some u →
    u.length + 2 * t.count '%' ≤ acc.length + t.length := by
  intro t acc
  induction acc, t using decodeFrom.induct with
  | case1 acc hvalid =>
    intro u h
    rw [decodeFrom, if_pos hvalid] at h
    obtain rfl := Option.some.inj h
    exact Utf8.length_runesFrom_le acc 0
  | case2 acc hvalid =>
    intro u h
    rw [decodeFrom, if_neg hvalid] at h
    cases h
  | case3 acc hd ld rest ih =>
    intro u h
    rw [decodeFrom] at h
    obtain ⟨b, hb, h⟩ := Option.bind_eq_some_iff.mp h
    have hh : hd ≠ '%' := by
      rintro rfl
      rw [byte, value_percent] at hb
      cases hb
    have hl : ld ≠ '%' := by
      rintro rfl
      rw [byte, value_percent] at hb
      obtain ⟨a, -, hnone⟩ := Option.bind_eq_some_iff.mp hb
      cases hnone
    have hle := ih b h
    rw [List.length_append, List.length_singleton] at hle
    rw [List.count_cons_self, List.count_cons_of_ne hh, List.count_cons_of_ne hl]
    simp only [List.length_cons]
    omega
  | case4 acc c rest hnot hstop =>
    intro u h
    rw [decodeFrom, if_pos hstop] at h
    · cases h
    · exact hnot
  | case5 acc c rest hnot hgo ih =>
    intro u h
    rw [decodeFrom, if_neg hgo] at h
    · obtain ⟨v, hv, rfl⟩ := Option.map_eq_some_iff.mp h
      have hc : c ≠ '%' := fun heq => hgo (.inl heq)
      have hle := ih hv
      have hruns : (Utf8.runes acc).length ≤ acc.length := Utf8.length_runesFrom_le acc 0
      rw [List.count_cons_of_ne hc]
      simp only [List.length_append, List.length_cons, List.length_nil] at hle ⊢
      omega
    · exact hnot

/-- **A text is its own decoding** just if there is no `%` in it. -/
theorem decode_eq_self_iff {t : Text} : decodeURIComponent t = some t ↔ '%' ∉ t := by
  refine ⟨fun h hmem => ?_, decode_plain⟩
  have hle := length_decodeFrom h
  have hpos := List.count_pos_iff.mpr hmem
  simp only [List.length_nil] at hle
  omega

end FlyMail.Percent
