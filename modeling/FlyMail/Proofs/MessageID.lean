/-
One message-id, read in two ways.

The id of a mail is its `Message-ID` field without the angle brackets at the two ends.  The mails
that reply to it name the id in fields that are read by `messageIDs`, which goes by the brackets.
The two agree on an id that stands alone between its brackets, or alone without any.  A comment, a
second id, or a blank inside the brackets stays in the one and not in the other.

Around the first id of a field there may be nothing but brackets: then all bytes that are no
brackets are the id's, and the place where `messageIDs` finds it is the only one (`only_angles`).
-/
import FlyMail.Lib.Joined
import FlyMail.Proofs.References

namespace FlyMail.Parser

open Joined (Tight)
open FlyMail.Send (trimSpace_eq_self cutAt_append Printable)
open GoMessage (messageIDs bracketed isIDSep)

def isAngle (b : UInt8) : Bool := b == byte '<' || b == byte '>'

/-! ### The first message-id -/

/-- The id is in the first brackets that are not blank. -/
inductive FirstBracketed (id : Bytes) : Bytes → Prop
  | here {x y rest : Bytes} (hx : byte '<' ∉ x) (hy : byte '>' ∉ y) (hid : trimSpace y = id) (hne : id ≠ []) :
      FirstBracketed id (x ++ byte '<' :: (y ++ byte '>' :: rest))
  | later {x y rest : Bytes} (hx : byte '<' ∉ x) (hy : byte '>' ∉ y) (hblank : trimSpace y = [])
      (hrest : FirstBracketed id rest) : FirstBracketed id (x ++ byte '<' :: (y ++ byte '>' :: rest))

/-- The id is the first piece with an at sign. -/
inductive FirstBare (id : Bytes) : Bytes → Prop
  | here {rest : Bytes} (hid : ∀ b ∈ id, isIDSep b = false) (hat : byte '@' ∈ id)
      (hrest : ∀ b ∈ rest.head?, isIDSep b = true) : FirstBare id (id ++ rest)
  | later {y rest : Bytes} {c : UInt8} (hy : ∀ b ∈ y, isIDSep b = false) (hat : byte '@' ∉ y)
      (hc : isIDSep c = true) (hrest : FirstBare id rest) : FirstBare id (y ++ c :: rest)

def FirstID (id raw : Bytes) : Prop :=
  (byte '<' ∈ raw ∧ FirstBracketed id raw) ∨ (byte '<' ∉ raw ∧ FirstBare id raw)

theorem cutAt_some {raw x rest : Bytes} {d : Char} (h : cutAt raw d = some (x, rest)) :
    byte d ∉ x ∧ raw = x ++ byte d :: rest := by
  unfold cutAt at h
  split at h
  · cases h
  · rename_i c rest' hdrop
    obtain ⟨rfl, rfl⟩ := Prod.mk.inj (Option.some.inj h)
    have hc : c = byte d := by
      have hhead := List.head?_dropWhile_not (fun c => c != byte d) raw
      rw [hdrop] at hhead
      simpa using hhead
    refine ⟨fun hmem => ?_, ?_⟩
    · have hne := List.mem_takeWhile_imp hmem
      simp at hne
    · subst hc
      rw [← hdrop, List.takeWhile_append_dropWhile]

theorem head?_bracketed {id : Bytes} (n : Nat) : ∀ raw, raw.length ≤ n →
    (bracketed n raw).head? = some id → FirstBracketed id raw := by
  induction n with
  | zero =>
      intro raw _ h
      cases h
  | succ n ih =>
      intro raw hlength h
      rw [bracketed] at h
      split at h
      · cases h
      · rename_i x rest hopen
        obtain ⟨hx, rfl⟩ := cutAt_some hopen
        split at h
        · cases h
        · rename_i y rest' hclose
          obtain ⟨hy, rfl⟩ := cutAt_some hclose
          split at h
          · rename_i hblank
            refine .later hx hy hblank (ih rest' ?_ h)
            simp only [List.length_append, List.length_cons] at hlength
            omega
          · rename_i hne
            obtain rfl := Option.some.inj h
            exact .here hx hy rfl hne

theorem bracketed_first {id raw : Bytes} (h : FirstBracketed id raw) :
    ∀ n, raw.length ≤ n → (bracketed n raw).head? = some id := by
  induction h with
  | @here x y rest hx hy hid hne =>
      intro n hlength
      obtain ⟨n, rfl⟩ : ∃ m, n = m + 1 := ⟨n - 1, by simp at hlength; omega⟩
      rw [bracketed, cutAt_append hx]
      simp only
      rw [cutAt_append hy]
      simp only
      rw [hid, if_neg hne, List.head?_cons]
  | @later x y rest hx hy hblank _ ih =>
      intro n hlength
      simp only [List.length_append, List.length_cons] at hlength
      obtain ⟨n, rfl⟩ : ∃ m, n = m + 1 := ⟨n - 1, by omega⟩
      rw [bracketed, cutAt_append hx]
      simp only
      rw [cutAt_append hy]
      simp only
      rw [if_pos hblank]
      exact ih n (by omega)

/-- The pieces with an at sign. -/
def pieces (raw : Bytes) : List Bytes := (raw.splitOnP isIDSep).filter fun f => contains f '@'

theorem pieces_cons_sep {y rest : Bytes} {c : UInt8} (hy : ∀ b ∈ y, isIDSep b = false) (hc : isIDSep c = true) :
    pieces (y ++ c :: rest) = if byte '@' ∈ y then y :: pieces rest else pieces rest := by
  unfold pieces
  rw [List.splitOnP_append_cons _ _ hc, List.splitOnP_eq_singleton hy, List.singleton_append, List.filter_cons]
  simp [contains]

theorem pieces_whole {y : Bytes} (hy : ∀ b ∈ y, isIDSep b = false) :
    pieces y = if byte '@' ∈ y then [y] else [] := by
  unfold pieces
  rw [List.splitOnP_eq_singleton hy, List.filter_cons]
  simp [contains]

/-- A text begins with a piece, and a separator is behind it. -/
theorem exists_piece (raw : Bytes) : (∀ b ∈ raw, isIDSep b = false) ∨
    ∃ y c rest, raw = y ++ c :: rest ∧ (∀ b ∈ y, isIDSep b = false) ∧ isIDSep c = true := by
  have hsplit := List.takeWhile_append_dropWhile (p := fun b => !isIDSep b) (l := raw)
  have hpiece : ∀ b ∈ raw.takeWhile (fun b => !isIDSep b), isIDSep b = false := by
    intro b hb
    simpa using List.mem_takeWhile_imp hb
  cases hdrop : raw.dropWhile fun b => !isIDSep b with
  | nil =>
      rw [hdrop, List.append_nil] at hsplit
      exact Or.inl (hsplit ▸ hpiece)
  | cons c rest =>
      have hc := List.head?_dropWhile_not (fun b => !isIDSep b) raw
      rw [hdrop] at hc hsplit
      exact Or.inr ⟨_, c, rest, hsplit.symm, hpiece, by simpa using hc⟩

theorem head?_pieces {id : Bytes} (n : Nat) : ∀ raw, raw.length ≤ n →
    (pieces raw).head? = some id → FirstBare id raw := by
  induction n with
  | zero =>
      intro raw hlength h
      obtain rfl := List.length_eq_zero_iff.mp (Nat.le_zero.mp hlength)
      rw [pieces_whole (fun b hb => absurd hb List.not_mem_nil)] at h
      cases h
  | succ n ih =>
      intro raw hlength h
      rcases exists_piece raw with hall | ⟨y, c, rest, rfl, hy, hc⟩
      · rw [pieces_whole hall] at h
        split at h
        · rename_i hat
          obtain rfl := Option.some.inj h
          have hhere := @FirstBare.here raw [] hall hat fun b hb => absurd hb (by simp)
          rwa [List.append_nil] at hhere
        · cases h
      · rw [pieces_cons_sep hy hc] at h
        split at h
        · rename_i hat
          obtain rfl := Option.some.inj h
          refine .here hy hat fun b hb => ?_
          obtain rfl := Option.some.inj hb
          exact hc
        · rename_i hat
          refine .later hy hat hc (ih rest ?_ h)
          simp only [List.length_append, List.length_cons] at hlength
          omega

theorem pieces_first {id raw : Bytes} (h : FirstBare id raw) : (pieces raw).head? = some id := by
  induction h with
  | @here rest hid hat hrest =>
      cases rest with
      | nil => rw [List.append_nil, pieces_whole hid, if_pos hat, List.head?_cons]
      | cons c rest => rw [pieces_cons_sep hid (hrest c rfl), if_pos hat, List.head?_cons]
  | later hy hat hc _ ih => rw [pieces_cons_sep hy hc, if_neg hat, ih]

theorem contains_iff {s : Bytes} {c : Char} : contains s c = true ↔ byte c ∈ s := List.contains_iff_mem

/-- **What `messageIDs` finds first.** -/
theorem head?_messageIDs_iff {v id : Bytes} : (messageIDs v).head? = some id ↔ FirstID id (trimSpace v) := by
  unfold messageIDs FirstID
  simp only
  by_cases hnil : trimSpace v = []
  · rw [if_pos hnil, hnil]
    constructor
    · intro h
      cases h
    · rintro (⟨hmem, -⟩ | ⟨-, hbare⟩)
      · exact absurd hmem List.not_mem_nil
      · exact absurd (pieces_first hbare) (by
          rw [pieces_whole fun b hb => absurd hb List.not_mem_nil]
          simp)
  · rw [if_neg hnil]
    by_cases hopen : byte '<' ∈ trimSpace v
    · rw [if_pos (contains_iff.mpr hopen)]
      constructor
      · exact fun h => Or.inl ⟨hopen, head?_bracketed _ _ (Nat.le_refl _) h⟩
      · rintro (⟨-, hfirst⟩ | ⟨hnot, -⟩)
        · exact bracketed_first hfirst _ (Nat.le_refl _)
        · exact absurd hopen hnot
    · rw [if_neg fun hc => hopen (contains_iff.mp hc)]
      constructor
      · exact fun h => Or.inr ⟨hopen, head?_pieces _ _ (Nat.le_refl _) h⟩
      · rintro (⟨hmem, -⟩ | ⟨-, hbare⟩)
        · exact absurd hmem hopen
        · exact pieces_first hbare

/-! ### Trimming -/

/-- Bytes of characters that are blanks. -/
def Blankish (b : UInt8) : Prop := ∃ sep ∈ spaces, b ∈ sep

theorem Blankish.not_angle {b : UInt8} (h : Blankish b) : isAngle b = false := by
  have hall : ∀ sep ∈ spaces, ∀ b ∈ sep, isAngle b = false := by decide
  obtain ⟨sep, hsep, hb⟩ := h
  exact hall sep hsep b hb

theorem trimLeft_spec (seps : List Bytes) (fuel : Nat) : ∀ s, ∃ a, s = a ++ trimLeft seps fuel s ∧
    ∀ b ∈ a, ∃ sep ∈ seps, b ∈ sep := by
  induction fuel with
  | zero => exact fun s => ⟨[], rfl, fun b hb => absurd hb List.not_mem_nil⟩
  | succ fuel ih =>
      intro s
      rw [trimLeft]
      split
      · rename_i sep hfind
        have hbegins : sep.isPrefixOf s = true := List.find?_some (p := fun sep : Bytes => sep.isPrefixOf s) hfind
        obtain ⟨more, rfl⟩ := List.isPrefixOf_iff_prefix.mp hbegins
        rw [List.drop_left]
        obtain ⟨a, ha, hsep⟩ := ih more
        refine ⟨sep ++ a, by rw [List.append_assoc, ← ha], fun b hb => ?_⟩
        rcases List.mem_append.mp hb with hb | hb
        · exact ⟨sep, List.mem_of_find?_eq_some hfind, hb⟩
        · exact hsep b hb
      · exact ⟨[], rfl, fun b hb => absurd hb List.not_mem_nil⟩

/-- Nothing but blanks is trimmed. -/
theorem trimSpace_spec (v : Bytes) : ∃ a c, v = a ++ trimSpace v ++ c ∧ ∀ b ∈ a ++ c, Blankish b := by
  obtain ⟨a, ha, hblanksLeft⟩ := trimLeft_spec spaces v.length v
  obtain ⟨c, hc, hblanksRight⟩ :=
    trimLeft_spec (spaces.map List.reverse) (trimLeft spaces v.length v).length (trimLeft spaces v.length v).reverse
  refine ⟨a, c.reverse, ?_, fun b hb => ?_⟩
  · have hrest := congrArg List.reverse hc
    rw [List.reverse_reverse, List.reverse_append] at hrest
    rw [List.append_assoc]
    exact ha.trans (congrArg (a ++ ·) hrest)
  · rcases List.mem_append.mp hb with hb | hb
    · exact hblanksLeft b hb
    · obtain ⟨sep, hsep, hmem⟩ := hblanksRight b (List.mem_reverse.mp hb)
      obtain ⟨sep', hsep', rfl⟩ := List.mem_map.mp hsep
      exact ⟨sep', hsep', List.mem_reverse.mp hmem⟩

/-! ### Brackets around an id -/

/-- Nothing but brackets around the id. -/
def Wrapped (id w : Bytes) : Prop :=
  Tight isAngle id ∧ ∃ l r, w = l ++ id ++ r ∧ ∀ b ∈ l ++ r, isAngle b = true

theorem trim_angles (w : Bytes) : trim w "<>".toList = Joined.trim isAngle w := by
  have hcut : (fun c => ("<>".toList.map byte).contains c) = isAngle := by
    funext b
    rw [Bool.eq_iff_iff]
    simp [isAngle]
  show ((w.dropWhile fun c => ("<>".toList.map byte).contains c).reverse.dropWhile
    fun c => ("<>".toList.map byte).contains c).reverse = _
  rw [hcut]
  rfl

theorem trim_eq_iff {w id : Bytes} (hne : id ≠ []) : trim w "<>".toList = id ↔ Wrapped id w := by
  rw [trim_angles]
  constructor
  · rintro rfl
    exact ⟨Joined.tight_trim w, Joined.trim_spec w⟩
  · rintro ⟨htight, l, r, rfl, hangles⟩
    have hl : l.dropWhile isAngle = [] :=
      List.dropWhile_eq_nil_iff.mpr fun b hb => hangles b (List.mem_append_left _ hb)
    have hr : r.rdropWhile isAngle = [] :=
      List.rdropWhile_eq_nil_iff.mpr fun b hb => hangles b (List.mem_append_right _ hb)
    rw [Joined.trim, Joined.dropWhile_tight hne htight, hl, List.nil_append]
    have hright := Joined.rdropWhile_tight hne htight [] r
    rw [hr, List.nil_append, List.append_nil] at hright
    exact hright

/-- What is around an id in brackets is brackets, wherever it is found. -/
theorem only_angles {id l r l' r' : Bytes} (heq : l ++ id ++ r = l' ++ id ++ r')
    (h : ∀ b ∈ l ++ r, isAngle b = true) : ∀ b ∈ l' ++ r', isAngle b = true := by
  have hcount : (l ++ r).countP (fun b => !isAngle b) = (l' ++ r').countP fun b => !isAngle b := by
    have hwhole := congrArg (List.countP fun b => !isAngle b) heq
    simp only [List.countP_append] at hwhole ⊢
    omega
  have hzero : (l ++ r).countP (fun b => !isAngle b) = 0 :=
    List.countP_eq_zero.mpr fun b hb => by simp [h b hb]
  rw [hzero] at hcount
  intro b hb
  simpa using List.countP_eq_zero.mp hcount.symm b hb

/-- Closing brackets, and brackets with nothing in them. -/
inductive Empties : Bytes → Prop
  | nil : Empties []
  | closing {p : Bytes} (h : Empties p) : Empties (byte '>' :: p)
  | empty {p : Bytes} (h : Empties p) : Empties (byte '<' :: byte '>' :: p)

/-- One id in its brackets, and no others but empty ones in front. -/
structure Alone (id v : Bytes) : Prop where
  around : ∃ p q, v = p ++ byte '<' :: (id ++ byte '>' :: q) ∧ Empties p ∧ ∀ b ∈ q, isAngle b = true
  ne_nil : id ≠ []
  unblank : trimSpace id = id
  unclosed : byte '>' ∉ id
  tight : Tight isAngle id

/-- One id without brackets. -/
structure Bare (v : Bytes) : Prop where
  unopened : byte '<' ∉ v
  at_mem : byte '@' ∈ v
  whole : ∀ b ∈ v, isIDSep b = false
  unblank : trimSpace v = v
  tight : Tight isAngle v

def Plain (v : Bytes) : Prop := Bare v ∨ ∃ id, Alone id v

theorem Empties.angle {p : Bytes} (h : Empties p) : ∀ b ∈ p, isAngle b = true := by
  induction h with
  | nil => exact fun b hb => absurd hb List.not_mem_nil
  | closing _ ih =>
      intro b hb
      rcases List.mem_cons.mp hb with rfl | hb
      · decide
      · exact ih b hb
  | empty _ ih =>
      intro b hb
      rcases List.mem_cons.mp hb with rfl | hb
      · decide
      · rcases List.mem_cons.mp hb with rfl | hb
        · decide
        · exact ih b hb

theorem printable_of_isAngle {b : UInt8} (h : isAngle b = true) : Printable b := by
  unfold isAngle at h
  rw [Bool.or_eq_true, beq_iff_eq, beq_iff_eq] at h
  rcases h with rfl | rfl
  · unfold Printable
    decide
  · unfold Printable
    decide

theorem trimSpace_of_angles {s : Bytes} (hhead : ∀ b ∈ s.head?, isAngle b = true)
    (hlast : ∀ b ∈ s.getLast?, isAngle b = true) : trimSpace s = s :=
  trimSpace_eq_self (fun b hb => printable_of_isAngle (hhead b hb)) fun b hb => printable_of_isAngle (hlast b hb)

theorem FirstBracketed.cons {id s : Bytes} {c : UInt8} (hc : byte '<' ≠ c) (h : FirstBracketed id s) :
    FirstBracketed id (c :: s) := by
  cases h with
  | @here x y rest hx hy hid hne =>
      rw [← List.cons_append]
      exact .here (fun hmem => (List.mem_cons.mp hmem).elim hc hx) hy hid hne
  | @later x y rest hx hy hblank hrest =>
      rw [← List.cons_append]
      exact .later (fun hmem => (List.mem_cons.mp hmem).elim hc hx) hy hblank hrest

theorem first_of_empties {id p q : Bytes} (hp : Empties p) (hclosed : byte '>' ∉ id) (hid : trimSpace id = id)
    (hne : id ≠ []) : FirstBracketed id (p ++ byte '<' :: (id ++ byte '>' :: q)) := by
  induction hp with
  | nil => exact @FirstBracketed.here id [] id q List.not_mem_nil hclosed hid hne
  | closing _ ih => exact FirstBracketed.cons (by decide) ih
  | empty _ ih => exact @FirstBracketed.later id [] [] _ List.not_mem_nil List.not_mem_nil (by decide) ih

theorem eq_nil_of_blankish {t : Bytes} (hblank : ∀ b ∈ t, Blankish b) (hangle : ∀ b ∈ t, isAngle b = true) :
    t = [] := by
  cases t with
  | nil => rfl
  | cons b t =>
      exact absurd ((hangle b List.mem_cons_self).symm.trans (hblank b List.mem_cons_self).not_angle) (by decide)

/-- Where the id in brackets is, and that only empty brackets can be brackets in front of it. -/
theorem FirstBracketed.place {id raw : Bytes} (h : FirstBracketed id raw) :
    ∃ p y q, raw = p ++ byte '<' :: (y ++ byte '>' :: q) ∧ byte '>' ∉ y ∧ trimSpace y = id ∧ id ≠ [] ∧
      ((∀ b ∈ p, isAngle b = true) → Empties p) := by
  -- a text of closing brackets is in front of brackets
  have hclosing : ∀ x p : Bytes, byte '<' ∉ x → (∀ b ∈ x, isAngle b = true) → Empties p → Empties (x ++ p) := by
    intro x p hx hangle hp
    induction x with
    | nil => exact hp
    | cons b x ih =>
        have hb : b = byte '>' := by
          have hor := hangle b List.mem_cons_self
          unfold isAngle at hor
          rw [Bool.or_eq_true, beq_iff_eq, beq_iff_eq] at hor
          exact hor.resolve_left fun heq => hx (heq ▸ List.mem_cons_self)
        rw [List.cons_append, hb]
        exact .closing (ih (fun hmem => hx (List.mem_cons_of_mem _ hmem))
          fun c hc => hangle c (List.mem_cons_of_mem _ hc))
  induction h with
  | @here x y rest hx hy hid hne =>
      refine ⟨x, y, rest, rfl, hy, hid, hne, fun hangle => ?_⟩
      have hempties := hclosing x [] hx hangle .nil
      rwa [List.append_nil] at hempties
  | @later x y rest hx hy hblank _ ih =>
      obtain ⟨p, y', q, hplace, hy', hid, hne, hempties⟩ := ih
      refine ⟨x ++ byte '<' :: (y ++ byte '>' :: p), y', q, by rw [hplace]; simp, hy', hid, hne, fun hangle => ?_⟩
      have hangleY : ∀ b ∈ y, isAngle b = true := fun b hb => hangle b (by simp [hb])
      have hyNil : y = [] := by
        rw [← hblank]
        exact (trimSpace_of_angles (fun b hb => hangleY b (List.mem_of_mem_head? hb))
          fun b hb => hangleY b (List.mem_of_getLast? hb)).symm
      rw [hyNil]
      exact hclosing x _ hx (fun b hb => hangle b (List.mem_append_left _ hb))
        (.empty (hempties fun b hb => hangle b (by simp [hb])))

/-- Where the piece is. -/
theorem FirstBare.place {id raw : Bytes} (h : FirstBare id raw) :
    ∃ u r, raw = u ++ id ++ r ∧ byte '@' ∈ id ∧ (∀ b ∈ id, isIDSep b = false) ∧
      (∀ b ∈ u.getLast?, isIDSep b = true) ∧ ∀ b ∈ r.head?, isIDSep b = true := by
  induction h with
  | @here rest hid hat hrest => exact ⟨[], rest, rfl, hat, hid, fun b hb => absurd hb (by simp), hrest⟩
  | @later y rest c hy hat' hc _ ih =>
      obtain ⟨u, r, hplace, hat, hid, hu, hr⟩ := ih
      refine ⟨y ++ c :: u, r, by rw [hplace]; simp, hat, hid, fun b hb => ?_, hr⟩
      cases u with
      | nil =>
          rw [List.getLast?_concat] at hb
          obtain rfl := Option.some.inj hb
          exact hc
      | cons d u =>
          rw [List.getLast?_append_of_ne_nil _ (List.cons_ne_nil _ _), List.getLast?_cons_cons] at hb
          exact hu b hb

section Stands

variable {id v : Bytes}

theorem alone_of_wrapped (hfirst : FirstBracketed id (trimSpace v)) (hwrapped : Wrapped id v) : Alone id v := by
  obtain ⟨htight, l, r, hv, hangles⟩ := hwrapped
  obtain ⟨a, c, hspace, hblanks⟩ := trimSpace_spec v
  obtain ⟨p, y, q, hplace, hclosed, hid, hne, hempties⟩ := hfirst.place
  obtain ⟨i, j, hy, hinner⟩ := trimSpace_spec y
  rw [hid] at hy
  have hwhole : l ++ id ++ r = (a ++ p ++ byte '<' :: i) ++ id ++ (j ++ byte '>' :: q ++ c) := by
    rw [← hv, hspace, hplace, hy]
    simp
  have hall := only_angles hwhole hangles
  obtain rfl : a = [] := eq_nil_of_blankish (fun b hb => hblanks b (by simp [hb])) fun b hb => hall b (by simp [hb])
  obtain rfl : c = [] := eq_nil_of_blankish (fun b hb => hblanks b (by simp [hb])) fun b hb => hall b (by simp [hb])
  obtain rfl : i = [] := eq_nil_of_blankish (fun b hb => hinner b (by simp [hb])) fun b hb => hall b (by simp [hb])
  obtain rfl : j = [] := eq_nil_of_blankish (fun b hb => hinner b (by simp [hb])) fun b hb => hall b (by simp [hb])
  rw [List.nil_append, List.append_nil] at hy hspace
  subst hy
  exact ⟨⟨p, q, hspace.trans hplace, hempties fun b hb => hall b (by simp [hb]),
    fun b hb => hall b (by simp [hb])⟩, hne, hid, hclosed, htight⟩

theorem isIDSep_of_isAngle {b : UInt8} (h : isAngle b = true) : isIDSep b = false := by
  unfold isAngle at h
  rw [Bool.or_eq_true, beq_iff_eq, beq_iff_eq] at h
  rcases h with rfl | rfl
  · decide
  · decide

theorem bare_of_wrapped (hopen : byte '<' ∉ trimSpace v) (hfirst : FirstBare id (trimSpace v))
    (hwrapped : Wrapped id v) : Bare v := by
  obtain ⟨htight, l, r, hv, hangles⟩ := hwrapped
  obtain ⟨a, c, hspace, hblanks⟩ := trimSpace_spec v
  obtain ⟨u, t, hplace, hat, hwhole, hu, ht⟩ := hfirst.place
  have hplaces : l ++ id ++ r = (a ++ u) ++ id ++ (t ++ c) := by
    rw [← hv, hspace, hplace]
    simp
  have hall := only_angles hplaces hangles
  obtain rfl : a = [] := eq_nil_of_blankish (fun b hb => hblanks b (by simp [hb])) fun b hb => hall b (by simp [hb])
  obtain rfl : c = [] := eq_nil_of_blankish (fun b hb => hblanks b (by simp [hb])) fun b hb => hall b (by simp [hb])
  -- the piece ends at separators, and those are no brackets
  obtain rfl : u = [] := by
    cases hlast : u.getLast? with
    | none => exact List.getLast?_eq_none_iff.mp hlast
    | some b =>
        have hb := isIDSep_of_isAngle (hall b (by simp [List.mem_of_getLast? hlast]))
        exact absurd (hb.symm.trans (hu b hlast)) (by decide)
  obtain rfl : t = [] := by
    cases t with
    | nil => rfl
    | cons b t => exact absurd ((isIDSep_of_isAngle (hall b (by simp))).symm.trans (ht b rfl)) (by decide)
  rw [List.nil_append, List.append_nil] at hplace hspace
  rw [hplace] at hspace hopen
  subst hspace
  exact ⟨hopen, hat, hwhole, hplace, htight⟩

theorem Bare.first (h : Bare v) : FirstID v (trimSpace v) ∧ Wrapped v v := by
  refine ⟨Or.inr ?_, h.tight, [], [], by simp, fun b hb => absurd hb List.not_mem_nil⟩
  have hhere := @FirstBare.here v [] h.whole h.at_mem fun b hb => absurd hb (by simp)
  rw [List.append_nil] at hhere
  rw [h.unblank]
  exact ⟨h.unopened, hhere⟩

theorem Alone.first (h : Alone id v) : FirstID id (trimSpace v) ∧ Wrapped id v := by
  obtain ⟨⟨p, q, rfl, hempties, hq⟩, hne, hid, hclosed, htight⟩ := h
  have hhead : ∀ b ∈ (p ++ byte '<' :: (id ++ byte '>' :: q)).head?, isAngle b = true := by
    intro b hb
    cases p with
    | nil =>
        obtain rfl := Option.some.inj hb
        decide
    | cons c p =>
        obtain rfl := Option.some.inj hb
        exact hempties.angle _ List.mem_cons_self
  have hlast : ∀ b ∈ (p ++ byte '<' :: (id ++ byte '>' :: q)).getLast?, isAngle b = true := by
    intro b hb
    have hend : p ++ byte '<' :: (id ++ byte '>' :: q) = (p ++ byte '<' :: id) ++ byte '>' :: q := by simp
    rw [hend, List.getLast?_append_of_ne_nil _ (List.cons_ne_nil _ _)] at hb
    rcases List.mem_cons.mp (List.mem_of_getLast? hb) with rfl | hb
    · decide
    · exact hq b hb
  refine ⟨Or.inl ?_, htight, p ++ [byte '<'], byte '>' :: q, by simp, fun b hb => ?_⟩
  · rw [trimSpace_of_angles hhead hlast]
    exact ⟨by simp, first_of_empties hempties hclosed hid hne⟩
  · simp only [List.mem_append, List.mem_cons, List.not_mem_nil, or_false] at hb
    rcases hb with (hb | rfl) | rfl | hb
    · exact hempties.angle b hb
    · decide
    · decide
    · exact hq b hb

/-- **An id with nothing but brackets around it is the first one just if it stands alone.** -/
theorem first_wrapped_iff : (∃ id, FirstID id (trimSpace v) ∧ Wrapped id v) ↔ Plain v := by
  constructor
  · rintro ⟨id, ⟨-, hfirst⟩ | ⟨hopen, hfirst⟩, hwrapped⟩
    · exact Or.inr ⟨id, alone_of_wrapped hfirst hwrapped⟩
    · exact Or.inl (bare_of_wrapped hopen hfirst hwrapped)
  · rintro (hbare | ⟨id, halone⟩)
    · exact ⟨v, hbare.first⟩
    · exact ⟨id, halone.first⟩

end Stands

/-! ### The stored id -/

section Stored

variable {g : GoMessage} {header : List Bytes} {email : ParsedEmail}

/-- The first id of the field is the id of the mail, and the one that other mails name. -/
structure Canonical (g : GoMessage) (header : List Bytes) (id : Bytes) : Prop where
  first : (messageIDs (g.get header "Message-ID".toList)).head? = some id
  inReplyTo : ∀ header' reply, g.get header' "In-Reply-To".toList = g.get header "Message-ID".toList →
    reply.inReplyTo = [] → (g.fillThreadHeaders header' reply).inReplyTo = id
  references : ∀ header' reply, g.get header' "References".toList = g.get header "Message-ID".toList →
    reply.references = [] → ∃ more, (g.fillThreadHeaders header' reply).references
      = [byte ' '].intercalate (id :: more)

theorem canonical_of_first {id : Bytes} (h : (messageIDs (g.get header "Message-ID".toList)).head? = some id) :
    Canonical g header id := by
  refine ⟨h, fun header' reply hget hnone => ?_, fun header' reply hget hnone => ?_⟩
  · unfold GoMessage.fillThreadHeaders
    rw [if_pos hnone, hget, h]
    rfl
  · obtain ⟨more, hids⟩ := List.head?_eq_some_iff.mp h
    refine ⟨more, ?_⟩
    unfold GoMessage.fillThreadHeaders
    simp only [hget, hids, if_pos hnone]

/-- The field as it is read for the mail, with its encoded words decoded: an id alone, or if it had
encoded words, the first id of the undecoded field in nothing but brackets. -/
def Stands (v w : Bytes) : Prop :=
  if w = v then Plain v else ∃ id, FirstID id (trimSpace v) ∧ Wrapped id w

theorem stands_iff (v w : Bytes) : Stands v w ↔ ∃ id, FirstID id (trimSpace v) ∧ Wrapped id w := by
  unfold Stands
  split
  · rename_i heq
    rw [heq]
    exact first_wrapped_iff.symm
  · rfl

/-- A first id is an id. -/
theorem FirstID.ne_nil {id raw : Bytes} (h : FirstID id raw) : id ≠ [] := by
  rcases h with ⟨-, h⟩ | ⟨-, h⟩
  · obtain ⟨-, -, -, -, -, -, hne, -⟩ := h.place
    exact hne
  · obtain ⟨-, -, -, hat, -⟩ := h.place
    exact List.ne_nil_of_mem hat

/-- **The id of a mail is the one that others name it by just if it stands alone in its field.** -/
theorem messageID_canonical_iff (hnone : email.messageID = []) :
    Canonical g header (g.fillFromHeaders header email).messageID ↔
      ∃ w, g.text header "Message-ID".toList = some w ∧ Stands (g.get header "Message-ID".toList) w := by
  have hstored : (g.fillFromHeaders header email).messageID
      = ((g.text header "Message-ID".toList).map fun mid => trim mid "<>".toList).getD [] := by
    cases hmid : g.text header "Message-ID".toList with
    | none => simp only [GoMessage.fillFromHeaders, hnone, hmid, if_true, Option.map_none, Option.getD_none]
    | some mid => simp only [GoMessage.fillFromHeaders, hnone, hmid, if_true, Option.map_some, Option.getD_some]
  constructor
  · intro h
    have hfirst := head?_messageIDs_iff.mp h.first
    rw [hstored] at hfirst
    cases htext : g.text header "Message-ID".toList with
    | some mid =>
      rw [htext] at hfirst
      exact ⟨mid, rfl, (stands_iff _ _).mpr ⟨_, hfirst, (trim_eq_iff hfirst.ne_nil).mp rfl⟩⟩
    | none =>
      rw [htext] at hfirst
      exact absurd rfl hfirst.ne_nil
  · rintro ⟨w, htext, hstands⟩
    obtain ⟨id, hfirst, hwrapped⟩ := (stands_iff _ _).mp hstands
    have hid : (g.fillFromHeaders header email).messageID = id := by
      rw [hstored, htext]
      exact (trim_eq_iff hfirst.ne_nil).mpr hwrapped
    rw [hid]
    exact canonical_of_first (head?_messageIDs_iff.mpr hfirst)

end Stored

/-- A library for one field without encoded words, the same in every header. -/
def oneField (v : Bytes) : GoMessage where
  createReader _ := .reader
  text _ _ := some v
  get _ _ := v
  addressList _ _ := none
  date _ := none
  decodeHeader := some
  walkParts _ := ([], [], [])

theorem messageID_canonical_iff_bare :
    Canonical (oneField ("a@x.example".toList.map byte)) []
        ((oneField ("a@x.example".toList.map byte)).fillFromHeaders [] ParsedEmail.empty).messageID ↔
      ∃ w, (oneField ("a@x.example".toList.map byte)).text [] "Message-ID".toList = some w ∧
        Stands ((oneField ("a@x.example".toList.map byte)).get [] "Message-ID".toList) w :=
  messageID_canonical_iff rfl

/-- A comment behind the id becomes part of it. -/
theorem comment_stored : ¬ ∀ (g : GoMessage) (header : List Bytes) (email : ParsedEmail),
    email.messageID = [] → messageIDs (g.get header "Message-ID".toList) ≠ [] →
      Canonical g header (g.fillFromHeaders header email).messageID := by
  intro h
  have hfirst := (h (oneField ("<a@x> (b)".toList.map byte)) [] ParsedEmail.empty rfl (by decide)).first
  exact absurd hfirst (by decide)

end FlyMail.Parser
