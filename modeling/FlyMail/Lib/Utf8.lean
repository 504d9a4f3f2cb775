/-
Bytes, as UTF-8 and as lines.

Bytes are UTF-8 if a reader that takes them one after another is between two characters in the end.
An ASCII byte is a character by itself and part of no other, so it may stand at such a place only:
what is on either side of it is UTF-8 by itself (`valid_append_cons`).  Line ends are ASCII, so
bytes are UTF-8 just when their lines are.
-/
import FlyMail.Lib.Text

namespace FlyMail

abbrev Bytes := List UInt8

namespace Utf8

/-- Where a reader of UTF-8 is: between two characters, or in one of which so much is to come. -/
inductive Place
  | between
  /-- The second byte of a character of three, which begins with `E0` or with `ED`. -/
  | afterE0
  | afterED
  /-- The second byte of a character of four, which begins with `F0` or with `F4`. -/
  | afterF0
  | afterF4
  /-- One byte more than the number. -/
  | tail (more : Nat)
  deriving DecidableEq, Repr

def Place.step : Place → UInt8 → Option Place
  | .between, b =>
      if b.toNat < 0x80 then some .between
      else if b.toNat < 0xC2 then none
      else if b.toNat < 0xE0 then some (.tail 0)
      else if b.toNat = 0xE0 then some .afterE0
      else if b.toNat = 0xED then some .afterED
      else if b.toNat < 0xF0 then some (.tail 1)
      else if b.toNat = 0xF0 then some .afterF0
      else if b.toNat < 0xF4 then some (.tail 2)
      else if b.toNat = 0xF4 then some .afterF4
      else none
  | .afterE0, b => if 0xA0 ≤ b.toNat ∧ b.toNat < 0xC0 then some (.tail 0) else none
  | .afterED, b => if 0x80 ≤ b.toNat ∧ b.toNat < 0xA0 then some (.tail 0) else none
  | .afterF0, b => if 0x90 ≤ b.toNat ∧ b.toNat < 0xC0 then some (.tail 1) else none
  | .afterF4, b => if 0x80 ≤ b.toNat ∧ b.toNat < 0x90 then some (.tail 1) else none
  | .tail 0, b => if 0x80 ≤ b.toNat ∧ b.toNat < 0xC0 then some .between else none
  | .tail (more + 1), b => if 0x80 ≤ b.toNat ∧ b.toNat < 0xC0 then some (.tail more) else none

def run : Place → Bytes → Option Place
  | p, [] => some p
  | p, b :: bs => (p.step b).bind fun q => run q bs

def valid (bs : Bytes) : Bool := run .between bs == some .between

theorem valid_iff {bs : Bytes} : valid bs = true ↔ run .between bs = some .between := by
  unfold valid
  exact beq_iff_eq

theorem run_append (bs cs : Bytes) : ∀ p, run p (bs ++ cs) = (run p bs).bind fun q => run q cs := by
  induction bs with
  | nil => exact fun p => rfl
  | cons b bs ih =>
      intro p
      rw [List.cons_append, run, run]
      cases p.step b with
      | none => rfl
      | some q => exact ih q

/-! ### ASCII -/

theorem step_ascii {b : UInt8} (h : b.toNat < 0x80) (p : Place) :
    p.step b = if p = .between then some .between else none := by
  cases p with
  | between => simp [Place.step, h]
  | tail more =>
      cases more with
      | zero =>
          rw [Place.step, if_neg (by omega)]
          rfl
      | succ more =>
          rw [Place.step, if_neg (by omega)]
          rfl
  | _ =>
      rw [Place.step, if_neg (by omega)]
      rfl

theorem run_cons_ascii {b : UInt8} (h : b.toNat < 0x80) (p : Place) (bs : Bytes) :
    run p (b :: bs) = some .between ↔ p = .between ∧ run .between bs = some .between := by
  rw [run, step_ascii h]
  by_cases hp : p = .between
  · simp [hp]
  · simp [hp]

/-- **An ASCII byte parts the text.** -/
theorem valid_append_cons {b : UInt8} (h : b.toNat < 0x80) (as bs : Bytes) :
    valid (as ++ b :: bs) = true ↔ valid as = true ∧ valid bs = true := by
  rw [valid_iff, valid_iff, valid_iff, run_append]
  cases run .between as with
  | none => simp
  | some p =>
      rw [Option.bind_some, run_cons_ascii h]
      simp

/-! ### Writing characters -/

def encode (t : Text) : Bytes := t.flatMap String.utf8EncodeChar

@[simp] theorem encode_append (t u : Text) : encode (t ++ u) = encode t ++ encode u :=
  List.flatMap_append

theorem encode_ascii {c : Char} (h : c.toNat < 0x80) : encode [c] = [UInt8.ofNat c.toNat] := by
  have hone : String.utf8EncodeChar c = [UInt8.ofNat c.toNat] := if_pos (Nat.le_of_lt_succ h)
  simp [encode, hone]

theorem toNat_ofNat {n : Nat} (h : n < 256) : (UInt8.ofNat n).toNat = n := by
  simp
  omega

/-- A byte within a character. -/
theorem step_tail {n : Nat} (h : n < 64) : ∀ more,
    (Place.tail more).step (UInt8.ofNat (n + 0x80))
      = some (match more with | 0 => .between | more + 1 => .tail more) := by
  have hbyte : (UInt8.ofNat (n + 0x80)).toNat = n + 0x80 := toNat_ofNat (by omega)
  intro more
  cases more with
  | zero => rw [Place.step, hbyte, if_pos (by omega)]
  | succ more => rw [Place.step, hbyte, if_pos (by omega)]

theorem run_encodeChar (c : Char) : run .between (String.utf8EncodeChar c) = some .between := by
  have hvalid : c.val.toNat < 0xD800 ∨ (0xDFFF < c.val.toNat ∧ c.val.toNat < 0x110000) := c.valid
  unfold String.utf8EncodeChar
  dsimp only
  generalize c.val.toNat = n at hvalid
  split
  · have hbyte : (UInt8.ofNat n).toNat = n := toNat_ofNat (by omega)
    rw [run, Place.step, hbyte, if_pos (by omega)]
    rfl
  · split
    · have hbyte : (UInt8.ofNat (n / 64 % 0x20 + 0xc0)).toNat = n / 64 % 0x20 + 0xc0 :=
        toNat_ofNat (by omega)
      have hlead : Place.between.step (UInt8.ofNat (n / 64 % 0x20 + 0xc0)) = some (.tail 0) := by
        rw [Place.step, hbyte, if_neg (by omega), if_neg (by omega), if_pos (by omega)]
      simp only [run, hlead, step_tail (Nat.mod_lt n (by decide)), Option.bind_some]
    · split
      · have hbyte : (UInt8.ofNat (n / 4096 % 0x10 + 0xe0)).toNat = n / 4096 % 0x10 + 0xe0 :=
          toNat_ofNat (by omega)
        have hsecond : (UInt8.ofNat (n / 64 % 0x40 + 0x80)).toNat = n / 64 % 0x40 + 0x80 :=
          toNat_ofNat (by omega)
        have htwo : (Place.between.step (UInt8.ofNat (n / 4096 % 0x10 + 0xe0))).bind
            (fun q => q.step (UInt8.ofNat (n / 64 % 0x40 + 0x80))) = some (.tail 0) := by
          rw [Place.step, hbyte, if_neg (by omega), if_neg (by omega), if_neg (by omega)]
          by_cases hE0 : n / 4096 % 0x10 + 0xe0 = 0xE0
          · rw [if_pos hE0, Option.bind_some, Place.step, hsecond, if_pos (by omega)]
          · rw [if_neg hE0]
            by_cases hED : n / 4096 % 0x10 + 0xe0 = 0xED
            · rw [if_pos hED, Option.bind_some, Place.step, hsecond, if_pos (by omega)]
            · rw [if_neg hED, if_pos (by omega), Option.bind_some]
              exact step_tail (Nat.mod_lt _ (by decide)) 1
        simp only [run]
        rw [← Option.bind_assoc, htwo, Option.bind_some, step_tail (Nat.mod_lt n (by decide))]
        rfl
      · have hbyte : (UInt8.ofNat (n / 262144 % 0x08 + 0xf0)).toNat = n / 262144 % 0x08 + 0xf0 :=
          toNat_ofNat (by omega)
        have hsecond : (UInt8.ofNat (n / 4096 % 0x40 + 0x80)).toNat = n / 4096 % 0x40 + 0x80 :=
          toNat_ofNat (by omega)
        have htwo : (Place.between.step (UInt8.ofNat (n / 262144 % 0x08 + 0xf0))).bind
            (fun q => q.step (UInt8.ofNat (n / 4096 % 0x40 + 0x80))) = some (.tail 1) := by
          rw [Place.step, hbyte, if_neg (by omega), if_neg (by omega), if_neg (by omega),
            if_neg (by omega), if_neg (by omega), if_neg (by omega)]
          by_cases hF0 : n / 262144 % 0x08 + 0xf0 = 0xF0
          · rw [if_pos hF0, Option.bind_some, Place.step, hsecond, if_pos (by omega)]
          · rw [if_neg hF0]
            by_cases hF4 : n / 262144 % 0x08 + 0xf0 < 0xF4
            · rw [if_pos hF4, Option.bind_some]
              exact step_tail (Nat.mod_lt _ (by decide)) 2
            · rw [if_neg hF4, if_pos (by omega), Option.bind_some, Place.step, hsecond, if_pos (by omega)]
        simp only [run]
        rw [← Option.bind_assoc, htwo, Option.bind_some, step_tail (Nat.mod_lt _ (by decide)),
          Option.bind_some, step_tail (Nat.mod_lt n (by decide))]
        rfl

/-- **What is written is UTF-8.** -/
theorem valid_encode (t : Text) : valid (encode t) = true := by
  rw [valid_iff]
  induction t with
  | nil => rfl
  | cons c rest ih =>
      rw [encode, List.flatMap_cons, run_append, run_encodeChar, Option.bind_some]
      exact ih

/-! ### Reading characters -/

/-- How many bytes a character takes that begins with this one. -/
def width (b : UInt8) : Nat :=
  if b.toNat < 0x80 then 1 else if b.toNat < 0xE0 then 2 else if b.toNat < 0xF0 then 3 else 4

/-- The number that the bytes of a character stand for. -/
def codePoint (bs : Bytes) : Nat :=
  match bs with
  | [] => 0
  | [b] => b.toNat
  | b :: bs => bs.foldl (fun n b => n * 64 + b.toNat % 64) (b.toNat % 2 ^ (7 - (bs.length + 1)))

/-- The first character and how many bytes it takes; a byte that does not belong to one is a
replacement character by itself. -/
def rune (bs : Bytes) : Char × Nat :=
  match bs with
  | [] => (Char.ofNat 0xFFFD, 1)
  | b :: _ =>
      let first := bs.take (width b)
      if first.length = width b ∧ valid first = true then (Char.ofNat (codePoint first), width b)
      else (Char.ofNat 0xFFFD, 1)

/-- The characters of a string; `skip` bytes have been read already. -/
def runesFrom : Nat → Bytes → Text
  | _, [] => []
  | skip + 1, _ :: rest => runesFrom skip rest
  | 0, b :: rest => (rune (b :: rest)).1 :: runesFrom ((rune (b :: rest)).2 - 1) rest

def runes (bs : Bytes) : Text := runesFrom 0 bs

example : runes [0x6D, 0xC2, 0xB2, 0xFF, 0xE5, 0xBC, 0xA0, 0xF0, 0x9F, 0x98, 0x80, 0xE5, 0xBC]
    = "m²\uFFFD张😀\uFFFD\uFFFD".toList := by decide

/-- The bytes of a character tell how many there are and which character it is. -/
theorem encodeChar_cases (c : Char) : ∃ b bs, String.utf8EncodeChar c = b :: bs ∧
    width b = bs.length + 1 ∧ codePoint (b :: bs) = c.toNat := by
  have hvalid : c.val.toNat < 0xD800 ∨ (0xDFFF < c.val.toNat ∧ c.val.toNat < 0x110000) := c.valid
  have hbyte (m : Nat) (h : m < 256) : (UInt8.ofNat m).toNat = m := toNat_ofNat h
  show ∃ b bs, String.utf8EncodeChar c = b :: bs ∧ width b = bs.length + 1 ∧ codePoint (b :: bs) = c.val.toNat
  unfold String.utf8EncodeChar
  dsimp only
  generalize c.val.toNat = n at hvalid
  split
  · refine ⟨_, _, rfl, ?_, hbyte n (by omega)⟩
    unfold width
    rw [hbyte n (by omega), if_pos (by omega)]
    rfl
  · split
    · refine ⟨_, _, rfl, ?_, ?_⟩
      · unfold width
        rw [hbyte _ (by omega), if_neg (by omega), if_pos (by omega)]
        rfl
      · show (UInt8.ofNat _).toNat % 2 ^ 5 * 64 + (UInt8.ofNat _).toNat % 64 = n
        rw [hbyte _ (by omega), hbyte _ (by omega)]
        omega
    · split
      · refine ⟨_, _, rfl, ?_, ?_⟩
        · unfold width
          rw [hbyte _ (by omega), if_neg (by omega), if_neg (by omega), if_pos (by omega)]
          rfl
        · show ((UInt8.ofNat _).toNat % 2 ^ 4 * 64 + (UInt8.ofNat _).toNat % 64) * 64 +
            (UInt8.ofNat _).toNat % 64 = n
          rw [hbyte _ (by omega), hbyte _ (by omega), hbyte _ (by omega)]
          omega
      · refine ⟨_, _, rfl, ?_, ?_⟩
        · unfold width
          rw [hbyte _ (by omega), if_neg (by omega), if_neg (by omega), if_neg (by omega)]
          rfl
        · show (((UInt8.ofNat _).toNat % 2 ^ 3 * 64 + (UInt8.ofNat _).toNat % 64) * 64 +
            (UInt8.ofNat _).toNat % 64) * 64 + (UInt8.ofNat _).toNat % 64 = n
          rw [hbyte _ (by omega), hbyte _ (by omega), hbyte _ (by omega), hbyte _ (by omega)]
          omega

theorem rune_encodeChar (c : Char) (bs : Bytes) :
    rune (String.utf8EncodeChar c ++ bs) = (c, (String.utf8EncodeChar c).length) := by
  have hvalid := valid_iff.mpr (run_encodeChar c)
  obtain ⟨b, tail, hbytes, hwidth, hcode⟩ := encodeChar_cases c
  rw [hbytes] at hvalid ⊢
  have hfirst : ((b :: tail) ++ bs).take (width b) = b :: tail := by
    rw [hwidth]
    exact List.take_left' rfl
  show (if (((b :: tail) ++ bs).take (width b)).length = width b ∧ _ then _ else _) = _
  rw [hfirst, if_pos ⟨hwidth.symm, hvalid⟩, hcode, hwidth, Char.ofNat_toNat]
  rfl

theorem runesFrom_drop (bs : Bytes) : ∀ n, runesFrom n bs = runesFrom 0 (bs.drop n) := by
  induction bs with
  | nil =>
      intro n
      cases n <;> rfl
  | cons b bs ih =>
      intro n
      cases n with
      | zero => rfl
      | succ n => exact ih n

/-- **What is written is read back.** -/
theorem runes_encode (t : Text) : runes (encode t) = t := by
  induction t with
  | nil => rfl
  | cons c t ih =>
      have hrune := rune_encodeChar c (encode t)
      have hcons : encode (c :: t) = String.utf8EncodeChar c ++ encode t := List.flatMap_cons
      obtain ⟨b, tail, hbytes, -, -⟩ := encodeChar_cases c
      rw [hcons]
      rw [hbytes, List.cons_append] at hrune ⊢
      unfold runes
      rw [runesFrom, hrune, runesFrom_drop, List.length_cons, Nat.add_sub_cancel, List.drop_left]
      exact congrArg (c :: ·) ih

/-- What is written in front of other bytes is read back as well. -/
theorem runes_append (t : Text) (bs : Bytes) : runes (encode t ++ bs) = t ++ runes bs := by
  induction t with
  | nil => rfl
  | cons c t ih =>
      have hrune := rune_encodeChar c (encode t ++ bs)
      have hcons : encode (c :: t) = String.utf8EncodeChar c ++ encode t := List.flatMap_cons
      obtain ⟨b, tail, hbytes, -, -⟩ := encodeChar_cases c
      rw [hcons, List.append_assoc]
      rw [hbytes, List.cons_append] at hrune ⊢
      unfold runes
      rw [runesFrom, hrune, runesFrom_drop, List.length_cons, Nat.add_sub_cancel, List.drop_left]
      exact congrArg (c :: ·) ih

theorem encode_of_ascii {t : Text} (h : ∀ c ∈ t, c.toNat < 0x80) : encode t = t.map fun c => UInt8.ofNat c.toNat := by
  induction t with
  | nil => rfl
  | cons c t ih =>
      have hc := encode_ascii (h c List.mem_cons_self)
      rw [← List.singleton_append, encode_append, hc, ih fun d hd => h d (List.mem_cons_of_mem _ hd)]
      rfl

theorem length_runesFrom_le (bs : Bytes) : ∀ n, (runesFrom n bs).length ≤ bs.length := by
  induction bs with
  | nil =>
      intro n
      cases n <;> exact Nat.le_refl _
  | cons b bs ih =>
      intro n
      cases n with
      | zero => exact Nat.succ_le_succ (ih _)
      | succ n => exact Nat.le_trans (ih n) (Nat.le_succ _)

/-! ### Latin-1 -/

/-- The character with the number of the byte. -/
def encodeByte (b : UInt8) : Bytes :=
  if b.toNat < 0x80 then [b] else [UInt8.ofNat (0xC0 + b.toNat / 64), UInt8.ofNat (0x80 + b.toNat % 64)]

def latin1 (bs : Bytes) : Bytes := bs.flatMap encodeByte

theorem run_encodeByte (b : UInt8) : run .between (encodeByte b) = some .between := by
  unfold encodeByte
  split
  · rename_i h
    exact (run_cons_ascii h _ _).mpr ⟨rfl, rfl⟩
  · rename_i h
    have hlt := b.toNat_lt
    have hfirst : (UInt8.ofNat (0xC0 + b.toNat / 64)).toNat = 0xC0 + b.toNat / 64 :=
      UInt8.toNat_ofNat_of_lt' (by show _ < 256; omega)
    have hsecond : (UInt8.ofNat (0x80 + b.toNat % 64)).toNat = 0x80 + b.toNat % 64 :=
      UInt8.toNat_ofNat_of_lt' (by show _ < 256; omega)
    rw [run, Place.step, hfirst, if_neg (by omega), if_neg (by omega), if_pos (by omega), Option.bind_some,
      run, Place.step, hsecond, if_pos (by omega)]
    rfl

theorem valid_latin1 (bs : Bytes) : valid (latin1 bs) = true := by
  rw [valid_iff]
  induction bs with
  | nil => rfl
  | cons b bs ih =>
      unfold latin1 at ih ⊢
      rw [List.flatMap_cons, run_append, run_encodeByte]
      exact ih

end Utf8

/-! ### Lines -/

namespace Bytes

def cr : UInt8 := 13

def lf : UInt8 := 10

def crlf : Bytes := [cr, lf]

/-- The lines without their ends; what is behind the last line end is a line as well. -/
def lines : Bytes → List Bytes
  | [] => [[]]
  | c :: t =>
      if c = lf then [] :: lines t
      else if c = cr ∧ t.head? = some lf then lines t
      else Text.consFirst c (lines t)

/-- The first empty line and all that is before it; `start` tells whether a line begins. -/
def throughEmpty : Bool → Bytes → Bytes
  | _, [] => []
  | start, c :: t =>
      if c = lf then if start then [lf] else lf :: throughEmpty true t
      else if c = cr ∧ t.head? = some lf then cr :: throughEmpty start t
      else c :: throughEmpty false t

/-- The lines before the first empty one. -/
def untilEmpty (ls : List Bytes) : List Bytes := ls.takeWhile (· != [])

theorem exists_lines (bs : Bytes) : ∃ l ls, lines bs = l :: ls := by
  induction bs with
  | nil => exact ⟨[], [], rfl⟩
  | cons c t ih =>
      obtain ⟨l, ls, h⟩ := ih
      unfold lines
      split
      · exact ⟨_, _, rfl⟩
      · split
        · exact ⟨l, ls, h⟩
        · rw [h]
          exact ⟨_, _, rfl⟩

theorem head?_throughEmpty (start : Bool) (bs rest : Bytes) :
    ((throughEmpty start bs ++ crlf ++ rest).head? = some lf) ↔ bs.head? = some lf := by
  cases bs with
  | nil => simp [throughEmpty, crlf, cr, lf]
  | cons c t =>
      unfold throughEmpty
      split
      · rename_i hc
        split
        · simp [hc]
        · simp [hc]
      · split
        · rename_i h
          simp [h.1]
        · simp

/-- **The lines up to the first empty one are read from what is before it**, whatever comes behind
an empty line more. -/
theorem lines_throughEmpty (rest : Bytes) : ∀ bs : Bytes,
    untilEmpty (lines (throughEmpty true bs ++ crlf ++ crlf ++ rest)) = untilEmpty (lines bs) ∧
    ∃ l ls ls', lines (throughEmpty false bs ++ crlf ++ crlf ++ rest) = l :: ls ∧ lines bs = l :: ls' ∧
      untilEmpty ls = untilEmpty ls' := by
  intro bs
  induction bs with
  | nil =>
      refine ⟨rfl, [], lines (crlf ++ rest), [], rfl, rfl, ?_⟩
      rfl
  | cons c t ih =>
      obtain ⟨htrue, l, ls, ls', hfalse, ht, hlater⟩ := ih
      have hhead : ∀ start, (throughEmpty start t ++ crlf ++ crlf ++ rest).head? = some lf ↔ t.head? = some lf := by
        intro start
        rw [List.append_assoc _ crlf rest]
        exact head?_throughEmpty start t (crlf ++ rest)
      by_cases hc : c = lf
      · subst hc
        refine ⟨?_, [], lines (throughEmpty true t ++ crlf ++ crlf ++ rest), lines t, ?_, ?_, htrue⟩
        · simp [throughEmpty, lines, untilEmpty]
        · simp [throughEmpty, lines]
        · simp [lines]
      · by_cases hcr : c = cr ∧ t.head? = some lf
        · have hstep : ∀ start, lines (throughEmpty start (c :: t) ++ crlf ++ crlf ++ rest)
              = lines (throughEmpty start t ++ crlf ++ crlf ++ rest) := by
            intro start
            rw [throughEmpty, if_neg hc, if_pos hcr, List.cons_append, List.cons_append, List.cons_append, lines,
              if_neg (by decide), if_pos ⟨rfl, (hhead start).mpr hcr.2⟩]
          have hlines : lines (c :: t) = lines t := by
            rw [lines, if_neg hc, if_pos hcr]
          rw [hstep, hstep, hlines]
          exact ⟨htrue, l, ls, ls', hfalse, ht, hlater⟩
        · have hstep : ∀ start, lines (throughEmpty start (c :: t) ++ crlf ++ crlf ++ rest)
              = (c :: l) :: ls := by
            intro start
            rw [throughEmpty, if_neg hc, if_neg hcr, List.cons_append, List.cons_append, List.cons_append, lines,
              if_neg hc, if_neg (fun h => hcr ⟨h.1, (hhead false).mp h.2⟩), hfalse]
            rfl
          have hlines : lines (c :: t) = (c :: l) :: ls' := by
            rw [lines, if_neg hc, if_neg hcr, ht]
            rfl
          rw [hstep, hstep, hlines]
          refine ⟨?_, c :: l, ls, ls', rfl, rfl, hlater⟩
          unfold untilEmpty at hlater ⊢
          rw [List.takeWhile_cons, List.takeWhile_cons, hlater]

theorem lines_of_head_lf {bs : Bytes} (h : bs.head? = some lf) : ∃ ls, lines bs = [] :: ls := by
  cases bs with
  | nil => exact absurd h.symm (Option.some_ne_none _)
  | cons c t =>
      obtain rfl := Option.some.inj h
      exact ⟨lines t, rfl⟩

theorem run_nil_iff {p : Utf8.Place} : Utf8.run p [] = some .between ↔ p = .between :=
  ⟨Option.some.inj, congrArg some⟩

/-- **Lines of UTF-8 are UTF-8.** -/
theorem valid_of_mem_lines (bs : Bytes) : ∀ {p : Utf8.Place} {l ls}, lines bs = l :: ls →
    Utf8.run p bs = some .between → Utf8.run p l = some .between ∧ ∀ x ∈ ls, Utf8.valid x = true := by
  induction bs with
  | nil =>
      intro p l ls h hrun
      obtain ⟨rfl, rfl⟩ := List.cons.inj h
      exact ⟨hrun, fun x hx => absurd hx List.not_mem_nil⟩
  | cons c t ih =>
      intro p l ls h hrun
      obtain ⟨m, ms, ht⟩ := exists_lines t
      by_cases hc : c = lf
      · rw [lines, if_pos hc] at h
        obtain ⟨rfl, rfl⟩ := List.cons.inj h
        rw [hc] at hrun
        obtain ⟨rfl, hrest⟩ := (Utf8.run_cons_ascii (by decide) p t).mp hrun
        obtain ⟨hm, hms⟩ := ih ht hrest
        refine ⟨rfl, ?_⟩
        rw [ht]
        intro x hx
        rcases List.mem_cons.mp hx with rfl | hx
        · exact Utf8.valid_iff.mpr hm
        · exact hms x hx
      · by_cases hcr : c = cr ∧ t.head? = some lf
        · rw [lines, if_neg hc, if_pos hcr] at h
          rw [hcr.1] at hrun
          obtain ⟨rfl, hrest⟩ := (Utf8.run_cons_ascii (by decide) p t).mp hrun
          exact ih h hrest
        · rw [lines, if_neg hc, if_neg hcr, ht] at h
          obtain ⟨rfl, rfl⟩ := List.cons.inj h
          rw [Utf8.run] at hrun
          obtain ⟨q, hq, hrest⟩ := Option.bind_eq_some_iff.mp hrun
          obtain ⟨hm, hms⟩ := ih ht hrest
          refine ⟨?_, hms⟩
          rw [Utf8.run, hq]
          exact hm

/-- **What is before the first empty line is UTF-8 just if its lines are.** -/
theorem valid_throughEmpty_iff (bs : Bytes) :
    (Utf8.run .between (throughEmpty true bs) = some .between ↔
      ∀ x ∈ untilEmpty (lines bs), Utf8.valid x = true) ∧
    ∀ p l ls, lines bs = l :: ls → (Utf8.run p (throughEmpty false bs) = some .between ↔
      Utf8.run p l = some .between ∧ ∀ x ∈ untilEmpty ls, Utf8.valid x = true) := by
  induction bs with
  | nil =>
      refine ⟨⟨fun _ x hx => absurd hx List.not_mem_nil, fun _ => rfl⟩, fun p l ls h => ?_⟩
      obtain ⟨rfl, rfl⟩ := List.cons.inj h
      exact ⟨fun hrun => ⟨hrun, fun x hx => absurd hx List.not_mem_nil⟩, And.left⟩
  | cons c t ih =>
      obtain ⟨hstart, hwithin⟩ := ih
      obtain ⟨m, ms, ht⟩ := exists_lines t
      by_cases hc : c = lf
      · subst hc
        have hlines : lines (lf :: t) = [] :: lines t := rfl
        refine ⟨⟨fun _ x hx => absurd hx List.not_mem_nil, fun _ => rfl⟩, fun p l ls h => ?_⟩
        rw [hlines] at h
        obtain ⟨rfl, rfl⟩ := List.cons.inj h
        have hthrough : throughEmpty false (lf :: t) = lf :: throughEmpty true t := rfl
        rw [hthrough, Utf8.run_cons_ascii (by decide), run_nil_iff, hstart]
      · by_cases hcr : c = cr ∧ t.head? = some lf
        · have hthrough : ∀ start, throughEmpty start (c :: t) = cr :: throughEmpty start t := by
            intro start
            rw [throughEmpty, if_neg hc, if_pos hcr]
          have hlines : lines (c :: t) = lines t := by
            rw [lines, if_neg hc, if_pos hcr]
          rw [hthrough, hthrough, hlines]
          refine ⟨?_, fun p l ls h => ?_⟩
          · rw [Utf8.run_cons_ascii (by decide), hstart]
            exact and_iff_right rfl
          · obtain ⟨ls', hempty⟩ := lines_of_head_lf hcr.2
            have hl : l = [] := (List.cons.inj (h.symm.trans hempty)).1
            rw [Utf8.run_cons_ascii (by decide), hwithin _ l ls h, hl, run_nil_iff, run_nil_iff]
            exact ⟨fun h => ⟨h.1, h.2.2⟩, fun h => ⟨h.1, rfl, h.2⟩⟩
        · have hthrough : ∀ start, throughEmpty start (c :: t) = c :: throughEmpty false t := by
            intro start
            rw [throughEmpty, if_neg hc, if_neg hcr]
          have hlines : lines (c :: t) = (c :: m) :: ms := by
            rw [lines, if_neg hc, if_neg hcr, ht]
            rfl
          have hboth : ∀ p, Utf8.run p (c :: throughEmpty false t) = some .between ↔
              Utf8.run p (c :: m) = some .between ∧ ∀ x ∈ untilEmpty ms, Utf8.valid x = true := by
            intro p
            rw [Utf8.run, Utf8.run]
            cases p.step c with
            | none => simp
            | some q => exact hwithin q m ms ht
          rw [hthrough, hthrough, hlines]
          refine ⟨?_, fun p l ls h => ?_⟩
          · rw [hboth, ← Utf8.valid_iff]
            unfold untilEmpty
            rw [List.takeWhile_cons_of_pos (by simp)]
            simp
          · obtain ⟨rfl, rfl⟩ := List.cons.inj h
            exact hboth p

end Bytes

end FlyMail
