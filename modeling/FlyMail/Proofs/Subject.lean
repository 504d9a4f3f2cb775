/-
Reply prefixes.

A subject is stripped of its reply prefixes one after another, and what is left of it names the
conversation.  Stripping comes to an end, since every prefix makes the subject shorter.  A prefix
from the list is taken off as a whole, and so is one with a count, as long as its colon is ASCII
and the count has three digits at most: the colon is looked for within eight bytes, and behind it
one byte is cut, which of a full-width colon leaves two bytes that are no character.

That something is left behind shows in the number of characters that are no blanks
(`nonblank_normalize`), so a prefix that is not taken off makes another subject.
-/
import FlyMail.Lib.Joined
import FlyMail.Lib.Utf8
import FlyMail.Message.Thread

namespace FlyMail.Message

open Joined (Tight)

/-- What lower case is relied on for. -/
structure LowersSubjects (lower : Char → Char) : Prop where
  ascii : ∀ c, c.toNat < 128 → lower c = c.toLower
  space : ∀ c, Text.isSpace (lower c) = Text.isSpace c
  wide : lower '：' = '：'
  replacement : lower '\uFFFD' = '\uFFFD'

/-! ### The documented prefixes -/

/-- A prefix from the list, in any case, or one with a count. -/
inductive ReplyForm
  | listed (p : Text)
  | counted (word : Text) (left : Char) (digits : Text) (right : Char) (colon : Char)

namespace ReplyForm

def text : ReplyForm → Text
  | listed p => p
  | counted word left digits right colon => word ++ left :: (digits ++ [right, colon])

def Documented (lower : Char → Char) : ReplyForm → Prop
  | listed p => p.map lower ∈ replyPrefixes
  | counted word left digits right colon =>
      (word.map Char.toLower = ['r', 'e'] ∨ word.map Char.toLower = ['f', 'w']) ∧
        ((left = '[' ∧ right = ']') ∨ (left = '(' ∧ right = ')')) ∧
        (digits ≠ [] ∧ ∀ c ∈ digits, c.isDigit = true) ∧ (colon = ':' ∨ colon = '：')

/-- An ASCII colon, and no more than three digits. -/
def Narrow : ReplyForm → Prop
  | listed _ => True
  | counted _ _ digits _ colon => colon = ':' ∧ digits.length ≤ 3

end ReplyForm

/-- Prefixes with what stands behind each. -/
def stack (forms : List (ReplyForm × Text)) : Text := forms.flatMap fun f => f.1.text ++ f.2

/-! ### The end of the loop -/

section Loop

variable {lower : Char → Char}

theorem trimSpace_length (t : Text) : (Text.trimSpace t).length ≤ t.length := by
  have hright : ((t.dropWhile Text.isSpace).rdropWhile Text.isSpace).length
      ≤ (t.dropWhile Text.isSpace).length := (List.rdropWhile_prefix _ _).length_le
  exact hright.trans (List.dropWhile_suffix _).length_le

/-- The characters that the counted prefixes begin with are no colons. -/
theorem not_colon (h : LowersSubjects lower) {c : Char} (hc : lower c ≠ ':' ∧ lower c ≠ '：') :
    (c != ':' && c != '：') = true := by
  have hcolon : lower ':' = ':' := h.ascii ':' (by decide)
  simp only [Bool.and_eq_true, bne_iff_ne]
  constructor
  · rintro rfl
    exact hc.1 hcolon
  · rintro rfl
    exact hc.2 h.wide

theorem two_before (h : LowersSubjects lower) {s : Text}
    (hstart : (s.map lower).take 2 = ['r', 'e'] ∨ (s.map lower).take 2 = ['f', 'w']) :
    2 ≤ (s.takeWhile fun c => c != ':' && c != '：').length := by
  match s with
  | [] => simp at hstart
  | [a] => simp at hstart
  | a :: b :: rest =>
      simp only [List.map_cons, List.take_succ_cons, List.take_zero, List.cons.injEq, and_true] at hstart
      have ha : (a != ':' && a != '：') = true := by
        refine not_colon h ?_
        rcases hstart with ⟨heq, -⟩ | ⟨heq, -⟩
        · rw [heq]
          decide
        · rw [heq]
          decide
      have hb : (b != ':' && b != '：') = true := by
        refine not_colon h ?_
        rcases hstart with ⟨-, heq⟩ | ⟨-, heq⟩
        · rw [heq]
          decide
        · rw [heq]
          decide
      rw [List.takeWhile_cons_of_pos (by exact ha), List.takeWhile_cons_of_pos (by exact hb)]
      simp

theorem stripCounted_length (h : LowersSubjects lower) {s rest : Text}
    (hstrip : stripCounted lower s = some rest) : rest.length < s.length := by
  unfold stripCounted at hstrip
  dsimp only at hstrip
  split at hstrip
  · rename_i hstart
    have htwo := two_before h hstart.2
    split at hstrip
    · rename_i c more hdrop
      split at hstrip
      · obtain rfl := Option.some.inj hstrip
        have hlength := congrArg List.length hdrop
        rw [List.length_drop, List.length_cons] at hlength
        refine Nat.lt_of_le_of_lt (trimSpace_length _) ?_
        split
        · simp only [List.length_cons]
          omega
        · omega
      · cases hstrip
    · cases hstrip
  · cases hstrip

/-- **A stripped subject is shorter.** -/
theorem stripReply_length (h : LowersSubjects lower) {s rest : Text}
    (hstrip : stripReply lower s = some rest) : rest.length < s.length := by
  unfold stripReply at hstrip
  split at hstrip
  · rename_i p hfind
    obtain rfl := Option.some.inj hstrip
    have hmem := List.mem_of_find?_eq_some hfind
    have hpos : ∀ q ∈ replyPrefixes, 0 < q.length := by decide
    have hhit : p.isPrefixOf (s.map lower) = true :=
      List.find?_some (p := fun p : Text => p.isPrefixOf (s.map lower)) hfind
    have hle := (List.isPrefixOf_iff_prefix.mp hhit).length_le
    rw [List.length_map] at hle
    have hp := hpos p hmem
    refine Nat.lt_of_le_of_lt (trimSpace_length _) ?_
    rw [List.length_drop]
    omega
  · exact stripCounted_length h hstrip

/-- How long the loop may run does not matter, if it may run as long as the subject. -/
theorem stripReplies_enough (h : LowersSubjects lower) (n : Nat) : ∀ (s : Text) (had : Bool) (m : Nat),
    s.length ≤ n → s.length ≤ m → stripReplies lower n s had = stripReplies lower m s had := by
  induction n with
  | zero =>
      intro s had m hn hm
      obtain rfl := List.length_eq_zero_iff.mp (Nat.le_zero.mp hn)
      cases m with
      | zero => rfl
      | succ m =>
          rw [stripReplies, stripReplies]
          split
          · rename_i rest hstrip
            exact absurd (stripReply_length h hstrip) (Nat.not_lt_zero _)
          · rfl
  | succ n ih =>
      intro s had m hn hm
      cases m with
      | zero =>
          obtain rfl := List.length_eq_zero_iff.mp (Nat.le_zero.mp hm)
          rw [stripReplies, stripReplies]
          split
          · rename_i rest hstrip
            exact absurd (stripReply_length h hstrip) (Nat.not_lt_zero _)
          · rfl
      | succ m =>
          rw [stripReplies, stripReplies]
          split
          · rename_i rest hstrip
            have hlt := stripReply_length h hstrip
            exact ih rest true m (by omega) (by omega)
          · rfl

/-- The subject without its prefixes, and whether it had any. -/
def stripAll (lower : Char → Char) (s : Text) (had : Bool) : Text × Bool :=
  stripReplies lower s.length s had

theorem stripAll_eq (h : LowersSubjects lower) (s : Text) (had : Bool) :
    stripAll lower s had =
      match stripReply lower s with
      | some rest => stripAll lower rest true
      | none => (s, had) := by
  unfold stripAll
  rw [stripReplies_enough h s.length s had (s.length + 1) (Nat.le_refl _) (Nat.le_succ _), stripReplies]
  cases hstrip : stripReply lower s with
  | none => rfl
  | some rest =>
      exact stripReplies_enough h s.length rest true rest.length
        (Nat.le_of_lt (stripReply_length h hstrip)) (Nat.le_refl _)

/-- **The loop ends where there is nothing to be stripped.** -/
theorem stripReply_stripAll (h : LowersSubjects lower) (s : Text) (had : Bool) :
    stripReply lower (stripAll lower s had).1 = none := by
  induction hn : s.length using Nat.strongRecOn generalizing s had with
  | _ n ih =>
      rw [stripAll_eq h]
      split
      · rename_i rest hstrip
        exact ih rest.length (hn ▸ stripReply_length h hstrip) rest true rfl
      · rename_i hnone
        exact hnone

/-! ### One prefix -/

/-- A character of a counted prefix in front of the colon. -/
def Counting (c : Char) : Prop :=
  c.toNat < 128 ∧ Text.isSpace c = false ∧ (c != ':' && c != '：') = true

theorem counting_of_toNat {c : Char} (hlow : 33 ≤ c.toNat) (hhigh : c.toNat < 128)
    (hcolon : c.toNat ≠ 58) : Counting c := by
  refine ⟨hhigh, Text.isSpace_of_ascii hlow hhigh, ?_⟩
  simp only [Bool.and_eq_true, bne_iff_ne]
  constructor
  · rintro rfl
    exact hcolon rfl
  · rintro rfl
    exact absurd hhigh (by decide)

theorem counting_of_letter {c : Char} (hlow : 97 ≤ c.toLower.toNat) (hhigh : c.toLower.toNat ≤ 122) :
    Counting c := by
  rcases Text.toLower_cases c with heq | ⟨h1, h2, heq⟩
  · rw [heq] at hlow hhigh
    exact counting_of_toNat (by omega) (by omega) (by omega)
  · exact counting_of_toNat (by omega) (by omega) (by omega)

theorem counting_of_digit {c : Char} (hc : c.isDigit = true) : Counting c := by
  obtain ⟨hlow, hhigh⟩ : 48 ≤ c.toNat ∧ c.toNat ≤ 57 := by
    simp only [Char.isDigit, Bool.and_eq_true, decide_eq_true_eq, ge_iff_le, UInt32.le_iff_toNat_le] at hc
    exact hc
  exact counting_of_toNat (by omega) (by omega) (by omega)

namespace ReplyForm

/-- What stands in front of the colon. -/
def before : ReplyForm → Text
  | listed _ => []
  | counted word left digits right _ => word ++ left :: (digits ++ [right])

end ReplyForm

section Counted

variable {word digits : Text} {left right colon : Char}

theorem word_cases (hword : word.map Char.toLower = ['r', 'e'] ∨ word.map Char.toLower = ['f', 'w']) :
    ∃ a b, word = [a, b] ∧ Counting a ∧ Counting b := by
  match word with
  | [] => simp at hword
  | [a] => simp at hword
  | [a, b] =>
      refine ⟨a, b, rfl, ?_⟩
      simp only [List.map_cons, List.map_nil, List.cons.injEq, and_true] at hword
      rcases hword with ⟨ha, hb⟩ | ⟨ha, hb⟩
      · exact ⟨counting_of_letter (by rw [ha]; decide) (by rw [ha]; decide),
          counting_of_letter (by rw [hb]; decide) (by rw [hb]; decide)⟩
      · exact ⟨counting_of_letter (by rw [ha]; decide) (by rw [ha]; decide),
          counting_of_letter (by rw [hb]; decide) (by rw [hb]; decide)⟩
  | _ :: _ :: _ :: _ => simp at hword

theorem counting_before (hdoc : (ReplyForm.counted word left digits right colon).Documented lower) :
    ∀ c ∈ (ReplyForm.counted word left digits right colon).before, Counting c := by
  obtain ⟨hword, hbrackets, ⟨-, hdigits⟩, -⟩ := hdoc
  obtain ⟨a, b, rfl, ha, hb⟩ := word_cases hword
  have hleft : Counting left ∧ Counting right := by
    rcases hbrackets with ⟨rfl, rfl⟩ | ⟨rfl, rfl⟩
    · exact ⟨counting_of_toNat (by decide) (by decide) (by decide),
        counting_of_toNat (by decide) (by decide) (by decide)⟩
    · exact ⟨counting_of_toNat (by decide) (by decide) (by decide),
        counting_of_toNat (by decide) (by decide) (by decide)⟩
  intro c hc
  simp only [ReplyForm.before, List.cons_append, List.nil_append, List.mem_cons, List.mem_append,
    List.not_mem_nil, or_false] at hc
  rcases hc with rfl | rfl | rfl | hc | rfl
  · exact ha
  · exact hb
  · exact hleft.1
  · exact counting_of_digit (hdigits c hc)
  · exact hleft.2

theorem text_counted : (ReplyForm.counted word left digits right colon).text
    = (ReplyForm.counted word left digits right colon).before ++ [colon] := by
  simp [ReplyForm.text, ReplyForm.before]

end Counted

/-- A documented prefix has no blanks. -/
theorem text_nonblank (h : LowersSubjects lower) {f : ReplyForm} (hdoc : f.Documented lower) :
    f.text ≠ [] ∧ ∀ c ∈ f.text, Text.isSpace c = false := by
  cases f with
  | listed p =>
      have hall : ∀ q ∈ replyPrefixes, q ≠ [] ∧ ∀ c ∈ q, Text.isSpace c = false := by decide
      obtain ⟨hne, hnone⟩ := hall _ hdoc
      refine ⟨fun hp => hne (by rw [show p = [] from hp]; rfl), fun c hc => ?_⟩
      rw [← h.space]
      exact hnone _ (List.mem_map_of_mem hc)
  | counted word left digits right colon =>
      have hbefore := counting_before hdoc
      obtain ⟨-, -, -, hcolon⟩ := hdoc
      rw [text_counted]
      refine ⟨List.append_ne_nil_of_right_ne_nil _ (List.cons_ne_nil _ _), fun c hc => ?_⟩
      rcases List.mem_append.mp hc with hc | hc
      · exact (hbefore c hc).2.1
      · rw [List.mem_singleton.mp hc]
        rcases hcolon with rfl | rfl
        · decide
        · decide

/-- In front of a text, the blanks at its end are trimmed only. -/
theorem trimSpace_text (h : LowersSubjects lower) {f : ReplyForm} (hdoc : f.Documented lower) (t : Text) :
    Text.trimSpace (f.text ++ t) = f.text ++ t.rdropWhile Text.isSpace := by
  obtain ⟨hne, hnone⟩ := text_nonblank h hdoc
  have htight : Tight Text.isSpace f.text :=
    ⟨fun c hc => hnone c (List.mem_of_mem_head? hc), fun c hc => hnone c (List.mem_of_getLast? hc)⟩
  have hleft := Joined.dropWhile_tight hne htight [] t
  have hright := Joined.rdropWhile_tight hne htight [] t
  rw [List.dropWhile_nil, List.nil_append] at hleft
  show ((f.text ++ t).dropWhile Text.isSpace).rdropWhile Text.isSpace = _
  rw [hleft]
  simpa using hright

/-- A prefix from the list is taken off as a whole. -/
theorem stripReply_listed {p : Text} (hp : p.map lower ∈ replyPrefixes) (t : Text) :
    stripReply lower (p ++ t) = some (Text.trimSpace t) := by
  have hprefixed : p.map lower <+: (p ++ t).map lower := by
    rw [List.map_append]
    exact List.prefix_append _ _
  obtain ⟨q, hfind⟩ : ∃ q, replyPrefixes.find? (fun p' => p'.isPrefixOf ((p ++ t).map lower)) = some q := by
    rw [← Option.isSome_iff_exists, List.find?_isSome]
    exact ⟨p.map lower, hp, List.isPrefixOf_iff_prefix.mpr hprefixed⟩
  have hhit : q.isPrefixOf ((p ++ t).map lower) = true :=
    List.find?_some (p := fun p' : Text => p'.isPrefixOf ((p ++ t).map lower)) hfind
  -- none of the list begins another one
  have hfree : ∀ a ∈ replyPrefixes, ∀ b ∈ replyPrefixes, a <+: b → a = b := by decide +kernel
  have heq : q = p.map lower := by
    have hq := List.mem_of_find?_eq_some hfind
    rcases List.prefix_or_prefix_of_prefix (List.isPrefixOf_iff_prefix.mp hhit) hprefixed with hle | hle
    · exact hfree q hq _ hp hle
    · exact (hfree _ hp q hq hle).symm
  rw [stripReply, hfind, heq]
  show some (Text.trimSpace ((p ++ t).drop (p.map lower).length)) = _
  rw [List.length_map, List.drop_left]

section Counted

variable {word digits : Text} {left right colon : Char}

/-- A counted prefix is none of the list. -/
theorem find?_counted (h : LowersSubjects lower)
    (hdoc : (ReplyForm.counted word left digits right colon).Documented lower) (t : Text) :
    replyPrefixes.find? (fun p =>
      p.isPrefixOf (((ReplyForm.counted word left digits right colon).text ++ t).map lower)) = none := by
  obtain ⟨hword, hbrackets, -, -⟩ := hdoc
  obtain ⟨a, b, rfl, ha, hb⟩ := word_cases hword
  rw [List.find?_eq_none]
  intro q hq hhit
  have hq3 : ∀ q ∈ replyPrefixes, 3 ≤ q.length ∧ q.take 3 ∉
      [['r', 'e', '['], ['r', 'e', '('], ['f', 'w', '['], ['f', 'w', '(']] := by decide
  obtain ⟨hlength, hnot⟩ := hq3 q hq
  obtain ⟨more, hmore⟩ := List.isPrefixOf_iff_prefix.mp hhit
  have htake : q.take 3 = (((ReplyForm.counted [a, b] left digits right colon).text ++ t).map lower).take 3 := by
    rw [← hmore, List.take_append_of_le_length hlength]
  have hleft : left = '[' ∨ left = '(' := hbrackets.imp And.left And.left
  have hlower : lower left = left := by
    rcases hleft with rfl | rfl
    · exact h.ascii _ (by decide)
    · exact h.ascii _ (by decide)
  rw [htake] at hnot
  refine hnot ?_
  simp only [List.map_cons, List.map_nil, List.cons.injEq, and_true] at hword
  simp only [ReplyForm.text, List.cons_append, List.nil_append, List.map_cons, List.take_succ_cons,
    List.take_zero, hlower, h.ascii a ha.1, h.ascii b hb.1]
  rcases hword with ⟨h1, h2⟩ | ⟨h1, h2⟩
  · rw [h1, h2]
    rcases hleft with rfl | rfl
    · decide
    · decide
  · rw [h1, h2]
    rcases hleft with rfl | rfl
    · decide
    · decide

theorem byteLen_append (t u : Text) : Text.byteLen (t ++ u) = Text.byteLen t + Text.byteLen u := by
  simp [Text.byteLen]

theorem byteLen_counting {t : Text} (ht : ∀ c ∈ t, Counting c) : Text.byteLen t = t.length := by
  induction t with
  | nil => rfl
  | cons c rest ih =>
      have hsize : c.utf8Size = 1 := Char.utf8Size_eq_one_iff.mpr (by
        have hc := (ht c List.mem_cons_self).1
        exact UInt32.le_iff_toNat_le.mpr (Nat.le_of_lt_succ hc))
      have hrest := ih fun d hd => ht d (List.mem_cons_of_mem _ hd)
      unfold Text.byteLen at hrest ⊢
      rw [List.map_cons, List.sum_cons, hsize, hrest, List.length_cons, Nat.add_comm]

theorem allowed_of_digit {c : Char} (hc : c.isDigit = true) :
    "[]()0123456789 ".toList.contains c = true := by
  obtain ⟨hlow, hhigh⟩ : 48 ≤ c.toNat ∧ c.toNat ≤ 57 := by
    simp only [Char.isDigit, Bool.and_eq_true, decide_eq_true_eq, ge_iff_le, UInt32.le_iff_toNat_le] at hc
    exact hc
  have hofNat : c = Char.ofNat c.toNat := (Char.ofNat_toNat c).symm
  have hall : ∀ n, n < 58 → 48 ≤ n → "[]()0123456789 ".toList.contains (Char.ofNat n) = true := by decide
  rw [hofNat]
  exact hall _ (by omega) hlow

/-- What is left of a counted prefix: nothing, two bytes that are no character, or all of it. -/
theorem stripReply_counted (h : LowersSubjects lower)
    (hdoc : (ReplyForm.counted word left digits right colon).Documented lower) (t : Text) :
    stripReply lower ((ReplyForm.counted word left digits right colon).text ++ t)
      = if digits.length ≤ 3 then
          some (Text.trimSpace (if colon = '：' then '\uFFFD' :: '\uFFFD' :: t else t))
        else none := by
  have hcounting := counting_before hdoc
  have hfind := find?_counted h hdoc t
  obtain ⟨hword, hbrackets, ⟨-, hdigits⟩, hcolon⟩ := hdoc
  obtain ⟨a, b, rfl, ha, hb⟩ := word_cases hword
  rw [stripReply, hfind]
  show stripCounted lower _ = _
  rw [text_counted, List.append_assoc, List.singleton_append]
  have hlength : (ReplyForm.counted [a, b] left digits right colon).before.length = digits.length + 4 := by
    simp [ReplyForm.before]
  have hdrop : (ReplyForm.counted [a, b] left digits right colon).before.drop 2 = left :: (digits ++ [right]) := rfl
  have hstart : ∀ u, (((ReplyForm.counted [a, b] left digits right colon).before ++ u).map lower).take 2
      = [a, b].map Char.toLower := by
    intro u
    simp [ReplyForm.before, h.ascii a ha.1, h.ascii b hb.1]
  generalize (ReplyForm.counted [a, b] left digits right colon).before = B at *
  have hwhile : (B ++ colon :: t).takeWhile (fun c => c != ':' && c != '：') = B := by
    have hstop : (colon :: t).takeWhile (fun c => c != ':' && c != '：') = [] := by
      refine List.takeWhile_cons_of_neg ?_
      rcases hcolon with rfl | rfl
      · decide
      · decide
    rw [List.takeWhile_append_of_pos fun c hc => (hcounting c hc).2.2, hstop, List.append_nil]
  have hall : (B.drop 2).all "[]()0123456789 ".toList.contains = true := by
    rw [hdrop, List.all_eq_true]
    intro c hc
    rcases List.mem_cons.mp hc with rfl | hc
    · rcases hbrackets with ⟨rfl, -⟩ | ⟨rfl, -⟩
      · decide
      · decide
    · rcases List.mem_append.mp hc with hc | hc
      · exact allowed_of_digit (hdigits c hc)
      · rw [List.mem_singleton.mp hc]
        rcases hbrackets with ⟨-, rfl⟩ | ⟨-, rfl⟩
        · decide
        · decide
  have hbytes : Text.byteLen (B ++ colon :: t) > 3 := by
    rw [byteLen_append, byteLen_counting hcounting]
    omega
  rw [stripCounted, hstart, if_pos ⟨hbytes, hword⟩, hwhile]
  dsimp only
  rw [byteLen_counting hcounting, List.drop_left]
  show (if 0 < B.length ∧ B.length < 8 ∧ _ then _ else _) = _
  rw [hlength]
  by_cases hthree : digits.length ≤ 3
  · rw [if_pos ⟨by omega, by omega, hall⟩, if_pos hthree]
  · rw [if_neg fun hc => hthree (by omega), if_neg hthree]

end Counted

/-! ### How much is left -/

/-- How many characters are no blanks. -/
def weight (t : Text) : Nat := (t.filter fun c => !Text.isSpace c).length

theorem weight_append (t u : Text) : weight (t ++ u) = weight t + weight u := by
  simp [weight]

theorem weight_of_blank {t : Text} (ht : ∀ c ∈ t, Text.isSpace c = true) : weight t = 0 := by
  unfold weight
  rw [List.length_eq_zero_iff, List.filter_eq_nil_iff]
  intro c hc
  simp [ht c hc]

theorem weight_of_nonblank {t : Text} (ht : ∀ c ∈ t, Text.isSpace c = false) : weight t = t.length := by
  unfold weight
  rw [List.filter_eq_self.mpr]
  intro c hc
  simp [ht c hc]

theorem weight_rdropWhile (t : Text) : weight (t.rdropWhile Text.isSpace) = weight t := by
  conv => rhs; rw [← List.rdropWhile_append_rtakeWhile (p := Text.isSpace) (l := t)]
  rw [weight_append, weight_of_blank fun c hc => List.mem_rtakeWhile_imp hc, Nat.add_zero]

theorem weight_trimSpace (t : Text) : weight (Text.trimSpace t) = weight t := by
  show weight ((t.dropWhile Text.isSpace).rdropWhile Text.isSpace) = weight t
  rw [weight_rdropWhile]
  conv => rhs; rw [← List.takeWhile_append_dropWhile (p := Text.isSpace) (l := t)]
  rw [weight_append, weight_of_blank fun c hc => List.mem_takeWhile_imp hc, Nat.zero_add]

theorem weight_map (h : LowersSubjects lower) (t : Text) : weight (t.map lower) = weight t := by
  unfold weight
  rw [List.filter_map, List.length_map]
  simp only [Function.comp_def, h.space]

theorem weight_cons (c : Char) (t : Text) : weight (c :: t) = (if Text.isSpace c then 0 else 1) + weight t := by
  unfold weight
  rw [List.filter_cons]
  cases Text.isSpace c with
  | true => simp
  | false => simp [Nat.add_comm]

theorem weight_join (ts : List Text) : weight (Text.join ts [' ']) = (ts.map weight).sum := by
  induction ts with
  | nil => rfl
  | cons t ts ih =>
      cases ts with
      | nil => simp [Text.join]
      | cons t' ts =>
          have hjoin : Text.join (t :: t' :: ts) [' '] = t ++ ' ' :: Text.join (t' :: ts) [' '] := by
            simp [Text.join, List.intercalate_cons_cons]
          rw [hjoin, weight_append, weight_cons, ih, if_pos (by decide), Nat.zero_add]
          rfl

theorem weight_splitOnP (t : Text) : ((t.splitOnP Text.isSpace).map weight).sum = weight t := by
  induction t with
  | nil => simp [weight]
  | cons c t ih =>
      rw [List.splitOnP_cons_eq_if_modifyHead, weight_cons]
      split
      · rw [List.map_cons, List.sum_cons, ih]
        rfl
      · obtain ⟨w, ws, hws⟩ := List.exists_cons_of_ne_nil (List.splitOnP_ne_nil Text.isSpace t)
        rw [hws] at ih ⊢
        rename_i hc
        simp only [List.modifyHead_cons, List.map_cons, List.sum_cons, weight_cons] at ih ⊢
        rw [if_neg hc]
        omega

theorem sum_weight_filter (ws : List Text) :
    ((ws.filter fun w => w != []).map weight).sum = (ws.map weight).sum := by
  induction ws with
  | nil => rfl
  | cons w ws ih =>
      rw [List.filter_cons]
      by_cases hw : w = []
      · rw [if_neg (by simp [hw]), ih, List.map_cons, List.sum_cons, hw]
        simp [weight]
      · rw [if_pos (by simp [hw]), List.map_cons, List.map_cons, List.sum_cons, List.sum_cons, ih]

/-- **Pressing blanks together and lowering letters keep the weight.** -/
theorem weight_normal (h : LowersSubjects lower) (t : Text) :
    weight ((Text.join (Text.fields t) [' ']).map lower) = weight t := by
  rw [weight_map h, weight_join, Text.fields, sum_weight_filter, weight_splitOnP]

/-! ### Many prefixes -/

theorem trimSpace_rdropWhile (t : Text) : Text.trimSpace (t.rdropWhile Text.isSpace) = Text.trimSpace t := by
  have hleft := @Joined.trim_eq Char Text.isSpace (t.rdropWhile Text.isSpace)
  have hright := @Joined.trim_eq Char Text.isSpace t
  rw [List.rdropWhile_idempotent] at hleft
  exact hleft.trans hright.symm

theorem trimSpace_blank_append {b : Text} (hb : ∀ c ∈ b, Text.isSpace c = true) (t : Text) :
    Text.trimSpace (b ++ t) = Text.trimSpace t := Joined.trim_blank_append hb t

/-- One prefix that is taken off. -/
theorem stripAll_narrow (h : LowersSubjects lower) {f : ReplyForm} (hdoc : f.Documented lower)
    (hnarrow : f.Narrow) {b : Text} (hb : ∀ c ∈ b, Text.isSpace c = true) (t : Text) (had : Bool) :
    stripAll lower (Text.trimSpace (f.text ++ (b ++ t))) had = stripAll lower (Text.trimSpace t) true := by
  have hstrip : stripReply lower (f.text ++ (b ++ t).rdropWhile Text.isSpace) = some (Text.trimSpace t) := by
    rw [← trimSpace_blank_append hb t, ← trimSpace_rdropWhile (b ++ t)]
    cases f with
    | listed p => exact stripReply_listed hdoc _
    | counted word left digits right colon =>
        obtain ⟨rfl, hthree⟩ := hnarrow
        rw [stripReply_counted h hdoc, if_pos hthree, if_neg (by decide)]
  rw [trimSpace_text h hdoc, stripAll_eq h, hstrip]

/-- What begins with a replacement character has no prefix. -/
theorem stripReply_replacement (h : LowersSubjects lower) (t : Text) :
    stripReply lower ('\uFFFD' :: t) = none := by
  have hfind : replyPrefixes.find? (fun p => p.isPrefixOf (('\uFFFD' :: t).map lower)) = none := by
    rw [List.find?_eq_none]
    intro q hq hhit
    have hhead : ∀ q ∈ replyPrefixes, q ≠ [] ∧ q.head? ≠ some '\uFFFD' := by decide
    obtain ⟨more, hmore⟩ := List.isPrefixOf_iff_prefix.mp hhit
    obtain ⟨hne, hnot⟩ := hhead q hq
    obtain ⟨c, q, rfl⟩ := List.exists_cons_of_ne_nil hne
    rw [List.map_cons, h.replacement, List.cons_append] at hmore
    exact hnot (congrArg some (List.cons.inj hmore).1)
  rw [stripReply, hfind]
  show stripCounted lower _ = none
  rw [stripCounted, if_neg]
  rintro ⟨-, hstart | hstart⟩
  · rw [List.map_cons, h.replacement] at hstart
    cases hstart
  · rw [List.map_cons, h.replacement] at hstart
    cases hstart

/-- One prefix that is not taken off, or not as a whole. -/
theorem stripAll_not_narrow (h : LowersSubjects lower) {f : ReplyForm} (hdoc : f.Documented lower)
    (hwide : ¬ f.Narrow) (t : Text) (had : Bool) :
    weight t < weight (stripAll lower (Text.trimSpace (f.text ++ t)) had).1 := by
  obtain ⟨hne, hnonblank⟩ := text_nonblank h hdoc
  rw [trimSpace_text h hdoc, stripAll_eq h]
  cases f with
  | listed p => exact absurd trivial hwide
  | counted word left digits right colon =>
      rw [stripReply_counted h hdoc]
      by_cases hthree : digits.length ≤ 3
      · -- two bytes of the colon are left
        have hcolon : colon = '：' := hdoc.2.2.2.resolve_left fun hcolon => hwide ⟨hcolon, hthree⟩
        have htrim : Text.trimSpace ('\uFFFD' :: '\uFFFD' :: t.rdropWhile Text.isSpace)
            = '\uFFFD' :: ('\uFFFD' :: t.rdropWhile Text.isSpace).rdropWhile Text.isSpace :=
          @Joined.trim_append_cons Char Text.isSpace '\uFFFD' (by decide) []
            ('\uFFFD' :: t.rdropWhile Text.isSpace)
        rw [if_pos hthree, if_pos hcolon, htrim]
        show weight t < weight (stripAll lower _ true).1
        rw [stripAll_eq h, stripReply_replacement h]
        show weight t < weight ('\uFFFD' :: _)
        rw [weight_cons, weight_rdropWhile, weight_cons, weight_rdropWhile, if_neg (by decide)]
        omega
      · rw [if_neg hthree]
        show weight t < weight (_ ++ _)
        rw [weight_append, weight_of_nonblank hnonblank, weight_rdropWhile]
        have hpos := List.length_pos_of_ne_nil hne
        omega

/-- Prefixes one after another are all taken off if each one is, and only then. -/
theorem stripAll_stack (h : LowersSubjects lower) {s : Text} (hs : stripReply lower (Text.trimSpace s) = none) :
    ∀ (forms : List (ReplyForm × Text)) (had : Bool),
      (∀ f ∈ forms, f.1.Documented lower ∧ ∀ c ∈ f.2, Text.isSpace c = true) →
      ((∀ f ∈ forms, f.1.Narrow) →
        stripAll lower (Text.trimSpace (stack forms ++ s)) had = (Text.trimSpace s, had || !forms.isEmpty)) ∧
      ((∃ f ∈ forms, ¬ f.1.Narrow) →
        weight s < weight (stripAll lower (Text.trimSpace (stack forms ++ s)) had).1) := by
  intro forms
  induction forms with
  | nil =>
      intro had _
      refine ⟨fun _ => ?_, ?_⟩
      · have hstack : stack [] ++ s = s := rfl
        rw [hstack, stripAll_eq h, hs]
        simp
      · rintro ⟨f, hf, -⟩
        exact (List.not_mem_nil hf).elim
  | cons f rest ih =>
      intro had hforms
      obtain ⟨hdoc, hblank⟩ := hforms f List.mem_cons_self
      obtain ⟨ihNarrow, ihWide⟩ := ih true fun g hg => hforms g (List.mem_cons_of_mem _ hg)
      have hstack : stack (f :: rest) ++ s = f.1.text ++ (f.2 ++ (stack rest ++ s)) := by
        simp [stack]
      rw [hstack]
      constructor
      · intro hall
        rw [stripAll_narrow h hdoc (hall f List.mem_cons_self) hblank,
          ihNarrow fun g hg => hall g (List.mem_cons_of_mem _ hg)]
        simp
      · intro hwide
        by_cases hf : f.1.Narrow
        · rw [stripAll_narrow h hdoc hf hblank]
          refine ihWide ?_
          obtain ⟨g, hg, hnot⟩ := hwide
          rcases List.mem_cons.mp hg with rfl | hg
          · exact absurd hf hnot
          · exact ⟨g, hg, hnot⟩
        · refine Nat.lt_of_le_of_lt ?_ (stripAll_not_narrow h hdoc hf _ had)
          rw [weight_append, weight_append]
          omega

theorem normalizeSubject_eq (t : Text) : normalizeSubject lower t =
    ((Text.join (Text.fields (stripAll lower (Text.trimSpace t) false).1) [' ']).map lower,
      (stripAll lower (Text.trimSpace t) false).2) := rfl

theorem stripAll_true (h : LowersSubjects lower) (s : Text) : (stripAll lower s true).2 = true := by
  induction hn : s.length using Nat.strongRecOn generalizing s with
  | _ n ih =>
      rw [stripAll_eq h]
      split
      · rename_i rest hstrip
        exact ih rest.length (hn ▸ stripReply_length h hstrip) rest rfl
      · rfl

/-- A subject without a reply prefix. -/
theorem stripReply_of_bare (h : LowersSubjects lower) {s : Text} (hs : (normalizeSubject lower s).2 = false) :
    stripReply lower (Text.trimSpace s) = none := by
  rw [normalizeSubject_eq, stripAll_eq h] at hs
  cases hstrip : stripReply lower (Text.trimSpace s) with
  | none => rfl
  | some rest =>
      rw [hstrip] at hs
      exact absurd (hs.symm.trans (stripAll_true h rest)) (by decide)

/-- **Reply prefixes are taken off one after another: what is left never begins with another one,
is well formed, and is the bare subject if no colon is full-width behind a count and no count has
more than three digits, and only then.** -/
theorem normalizeSubject_stack_iff (h : LowersSubjects lower) {forms : List (ReplyForm × Text)}
    (hne : forms ≠ [])
    (hforms : ∀ f ∈ forms, f.1.Documented lower ∧ ∀ c ∈ f.2, Text.isSpace c = true)
    {lead s : Text} (hlead : ∀ c ∈ lead, Text.isSpace c = true)
    (hs : (normalizeSubject lower s).2 = false) :
    (stripReply lower (stripAll lower (Text.trimSpace (lead ++ (stack forms ++ s))) false).1 = none ∧
      normalizeSubject lower (lead ++ (stack forms ++ s)) = ((normalizeSubject lower s).1, true) ∧
      Utf8.valid (Utf8.encode (normalizeSubject lower (lead ++ (stack forms ++ s))).1) = true) ↔
    ∀ f ∈ forms, f.1.Narrow := by
  have hbare := stripReply_of_bare h hs
  obtain ⟨hclean, hleft⟩ := stripAll_stack h hbare forms false hforms
  have hnormal : (normalizeSubject lower s).1 = (Text.join (Text.fields (Text.trimSpace s)) [' ']).map lower := by
    rw [normalizeSubject_eq, stripAll_eq h, hbare]
  have hmore : (!forms.isEmpty) = true := by
    cases forms with
    | nil => exact absurd rfl hne
    | cons f rest => rfl
  rw [normalizeSubject_eq (lead ++ (stack forms ++ s)), trimSpace_blank_append hlead, hnormal]
  constructor
  · rintro ⟨-, heq, -⟩
    by_contra hwide
    have hlt := hleft (by simpa using hwide)
    have hweight := congrArg weight (congrArg Prod.fst heq)
    rw [weight_normal h, weight_normal h, weight_trimSpace] at hweight
    omega
  · intro hall
    refine ⟨stripReply_stripAll h _ _, ?_, Utf8.valid_encode _⟩
    rw [hclean hall, hmore]
    rfl

end Loop

theorem lowersSubjects_toLower : LowersSubjects Char.toLower where
  ascii _ _ := rfl
  space := Text.isSpace_toLower
  wide := by decide
  replacement := by decide

def countedTwo (colon : Char) : ReplyForm := .counted "Re".toList '[' ['2'] ']' colon

theorem normalizeSubject_stack_iff_counted :
    stripReply Char.toLower (stripAll Char.toLower (Text.trimSpace
        ([] ++ (stack [(.listed "FW:".toList, [' ']), (countedTwo ':', [])] ++ "x".toList))) false).1 = none ∧
      normalizeSubject Char.toLower
        ([] ++ (stack [(.listed "FW:".toList, [' ']), (countedTwo ':', [])] ++ "x".toList))
        = ((normalizeSubject Char.toLower "x".toList).1, true) ∧
      Utf8.valid (Utf8.encode (normalizeSubject Char.toLower
        ([] ++ (stack [(.listed "FW:".toList, [' ']), (countedTwo ':', [])] ++ "x".toList))).1) = true :=
  (normalizeSubject_stack_iff lowersSubjects_toLower (List.cons_ne_nil _ _)
    (by
      intro f hf
      rcases List.mem_pair.mp hf with rfl | rfl
      · exact ⟨by simp only [ReplyForm.Documented]; decide, by decide⟩
      · exact ⟨by simp only [countedTwo, ReplyForm.Documented]; decide, by decide⟩)
    (fun c hc => absurd hc List.not_mem_nil) (by decide)).mpr
    (by
      intro f hf
      rcases List.mem_pair.mp hf with rfl | rfl
      · trivial
      · exact ⟨rfl, by decide⟩)

/-- Behind a count, a full-width colon leaves two bytes that are no character. -/
theorem wide_colon_left : ¬ ∀ (lower : Char → Char), LowersSubjects lower →
    ∀ (forms : List (ReplyForm × Text)), forms ≠ [] →
      (∀ f ∈ forms, f.1.Documented lower ∧ ∀ c ∈ f.2, Text.isSpace c = true) →
      ∀ (lead s : Text), (∀ c ∈ lead, Text.isSpace c = true) → (normalizeSubject lower s).2 = false →
        normalizeSubject lower (lead ++ (stack forms ++ s)) = ((normalizeSubject lower s).1, true) := by
  intro h
  have heq := h Char.toLower lowersSubjects_toLower [(countedTwo '：', [])] (List.cons_ne_nil _ _)
    (by
      intro f hf
      obtain rfl := List.mem_singleton.mp hf
      exact ⟨by simp only [countedTwo, ReplyForm.Documented]; decide, by decide⟩)
    [] "x".toList (fun c hc => absurd hc List.not_mem_nil) (by decide)
  exact absurd (congrArg Prod.fst heq) (by decide)

end FlyMail.Message
