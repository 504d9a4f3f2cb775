/-
Moments as RFC 3339 texts with fractions of a second.

A moment is written in the local time of its zone.  The fraction has as many digits as it needs and
is left out, with its point, where it needs none.  So two texts need not compare as the moments do,
and `Sorts` says when one comes before the other: the first difference may be between a digit and the
zone, and `Z` comes behind the digits and the point, while the sign of an offset comes before them.
-/
import FlyMail.Lib.Calendar
import Mathlib.Algebra.Group.Int.Defs
import Mathlib.Data.Char
import Mathlib.Data.List.DropRight

namespace FlyMail.Rfc3339

/-- A moment in its zone: the local second, since the year 1, the nanoseconds in it, and by how many
minutes the zone is ahead. -/
structure Stamp where
  second : Nat
  nanos : Nat
  offset : Int
  inYears : second < Calendar.limit
  inSecond : nanos < 10 ^ 9
  inDay : offset.natAbs < 1440
  deriving DecidableEq

namespace Stamp

theorem ext' {s t : Stamp} (hsecond : s.second = t.second) (hnanos : s.nanos = t.nanos)
    (hoffset : s.offset = t.offset) : s = t := by
  cases s
  cases t
  simp_all

/-- The nanoseconds since the year 1 began. -/
def instant (s : Stamp) : Int := (s.second - s.offset * 60) * 10 ^ 9 + s.nanos

/-- The date and the time of day, up to the second. -/
def dateTime (s : Stamp) : Text := (Calendar.text s.second).dropLast

/-- The digits of the fraction, without zeros at the end. -/
def digits (s : Stamp) : Text := (Layout.pad 9 s.nanos).rdropWhile (· == '0')

def fraction (s : Stamp) : Text := if s.digits = [] then [] else '.' :: s.digits

def zone (s : Stamp) : Text :=
  if s.offset = 0 then ['Z']
  else
    (if s.offset < 0 then '-' else '+') ::
      (Layout.pad 2 (s.offset.natAbs / 60) ++ ':' :: Layout.pad 2 (s.offset.natAbs % 60))

def text (s : Stamp) : Text := s.dateTime ++ (s.fraction ++ s.zone)

/-- Where the text of a zone stands among those of the others. -/
def zoneRank (s : Stamp) : Nat :=
  if s.offset = 0 then 2 * 1440 else if s.offset < 0 then 1440 + s.offset.natAbs else s.offset.natAbs

/-- What it takes for the text of the first to come before that of the second. -/
def Sorts (s t : Stamp) : Prop :=
  s.second < t.second ∨ s.second = t.second ∧
    if s.digits = t.digits then s.zoneRank < t.zoneRank
    else if s.digits <+: t.digits then s.offset ≠ 0
    else if t.digits <+: s.digits then t.offset = 0
    else s.nanos < t.nanos

instance (s t : Stamp) : Decidable (Sorts s t) := by
  unfold Sorts
  infer_instance

end Stamp

/-! ### Texts side by side -/

/-- Texts that differ somewhere differ there with anything behind them. -/
theorem append_lt_append_of_differ {l m : Text} (hl : ¬ l <+: m) (hm : ¬ m <+: l) (u v u' v' : Text)
    (h : l ++ u < m ++ v) : l ++ u' < m ++ v' := by
  induction l generalizing m with
  | nil => exact absurd List.nil_prefix hl
  | cons a l ih =>
    cases m with
    | nil => exact absurd List.nil_prefix hm
    | cons b m =>
      rw [List.cons_append, List.cons_append, List.cons_lt_cons_iff] at h ⊢
      rcases h with hab | ⟨rfl, h⟩
      · exact Or.inl hab
      · exact Or.inr ⟨rfl, ih (fun hp => hl ((List.prefix_cons_inj a).mpr hp))
          (fun hp => hm ((List.prefix_cons_inj a).mpr hp)) h⟩

/-- Without the same end, texts of one length compare as before. -/
theorem lt_of_append_lt {l m u : Text} (hlen : l.length = m.length) (h : l ++ u < m ++ u) : l < m := by
  rcases lt_trichotomy l m with hlt | rfl | hlt
  · exact hlt
  · exact absurd h (lt_irrefl _)
  · exact absurd (h.trans (Layout.append_lt_append hlt hlen.symm)) (lt_irrefl _)

namespace Stamp

variable {s t : Stamp}

theorem text_eq (n : Nat) : Calendar.text n = (Calendar.text n).dropLast ++ ['Z'] := by
  obtain ⟨x, hx⟩ : ∃ x, Calendar.text n = x ++ ['Z'] :=
    let d := Calendar.ofSeconds n
    ⟨Layout.pad 4 d.year ++ '-' :: (Layout.pad 2 d.month ++ '-' :: (Layout.pad 2 d.day ++ 'T' ::
      (Layout.pad 2 d.hour ++ ':' :: (Layout.pad 2 d.minute ++ ':' :: Layout.pad 2 d.second)))),
      by simp [Calendar.text, Calendar.columns, Calendar.DateTime.fields, Layout.write, d]⟩
  rw [hx, List.dropLast_concat]

theorem length_dateTime (s : Stamp) : s.dateTime.length = 19 := by
  unfold dateTime
  rw [List.length_dropLast, Calendar.length_text s.inYears]

/-- An earlier second is written before a later one. -/
theorem dateTime_lt (h : s.second < t.second) : s.dateTime < t.dateTime := by
  have hlt := Calendar.text_lt_text h t.inYears
  rw [text_eq s.second, text_eq t.second] at hlt
  exact lt_of_append_lt ((length_dateTime s).trans (length_dateTime t).symm) hlt

/-! ### Zones -/

theorem hoursMinutes_lt {a b : Nat} (h : a < b) (hb : b < 1440) :
    Layout.pad 2 (a / 60) ++ ':' :: Layout.pad 2 (a % 60) < Layout.pad 2 (b / 60) ++ ':' :: Layout.pad 2 (b % 60) := by
  by_cases hlt : a / 60 < b / 60
  · exact Layout.append_lt_append (Layout.pad_lt_pad 2 hlt (by omega)) (by simp)
  · have heq : a / 60 = b / 60 := by omega
    have hminutes : a % 60 < b % 60 := by omega
    rw [heq]
    exact List.append_left_lt (List.cons_lt_cons_iff.mpr (Or.inr ⟨rfl, Layout.pad_lt_pad 2 hminutes (by omega)⟩))

/-- A zone behind or ahead begins with its sign. -/
theorem exists_sign (h : s.offset ≠ 0) : ∃ rest, s.zone = (if s.offset < 0 then '-' else '+') :: rest :=
  ⟨_, if_neg h⟩

theorem digit_bounds {c : Char} (h : c.isDigit = true) : '0' ≤ c ∧ c ≤ '9' := by
  have hbounds := Bool.and_eq_true_iff.mp h
  exact ⟨of_decide_eq_true hbounds.1, of_decide_eq_true hbounds.2⟩

theorem sign_lt (o : Int) {c : Char} (hc : c = '.' ∨ c.isDigit = true ∨ c = 'Z') :
    (if o < 0 then '-' else '+') < c := by
  have hsign : ∀ sign ∈ ['-', '+'], sign < c := by
    intro sign hsign
    rcases hc with rfl | hdigit | rfl
    · revert sign
      decide
    · have hzero : ∀ sign ∈ ['-', '+'], sign < '0' := by decide
      exact lt_of_lt_of_le (hzero sign hsign) (digit_bounds hdigit).1
    · revert sign
      decide
  split
  · exact hsign '-' (by decide)
  · exact hsign '+' (by decide)

theorem zone_lt (h : s.zoneRank < t.zoneRank) : s.zone < t.zone := by
  have hs := s.inDay
  have ht := t.inDay
  unfold zoneRank at h
  by_cases hs0 : s.offset = 0
  · rw [if_pos hs0] at h
    split at h
    · omega
    · split at h
      · omega
      · omega
  · obtain ⟨rest, hrest⟩ := exists_sign hs0
    by_cases ht0 : t.offset = 0
    · rw [hrest, zone, if_pos ht0]
      exact List.cons_lt_cons_iff.mpr (Or.inl (sign_lt _ (Or.inr (Or.inr rfl))))
    · rw [if_neg hs0, if_neg ht0] at h
      rw [zone, zone, if_neg hs0, if_neg ht0, List.cons_lt_cons_iff]
      by_cases hs1 : s.offset < 0
      · by_cases ht1 : t.offset < 0
        · rw [if_pos hs1, if_pos ht1] at h
          rw [if_pos hs1, if_pos ht1]
          exact Or.inr ⟨rfl, hoursMinutes_lt (by omega) ht⟩
        · rw [if_pos hs1, if_neg ht1] at h
          omega
      · by_cases ht1 : t.offset < 0
        · rw [if_neg hs1, if_pos ht1]
          exact Or.inl (by decide)
        · rw [if_neg hs1, if_neg ht1] at h
          rw [if_neg hs1, if_neg ht1]
          exact Or.inr ⟨rfl, hoursMinutes_lt h ht⟩

theorem zoneRank_cases (s : Stamp) :
    (s.offset = 0 ∧ s.zoneRank = 2880) ∨ (s.offset < 0 ∧ s.zoneRank = 1440 + s.offset.natAbs) ∨
      (0 < s.offset ∧ s.zoneRank = s.offset.natAbs) := by
  unfold zoneRank
  split
  · omega
  · split
    · omega
    · omega

theorem offset_eq (h : s.zoneRank = t.zoneRank) : s.offset = t.offset := by
  have hs := s.inDay
  have ht := t.inDay
  have hsrank := s.zoneRank_cases
  have htrank := t.zoneRank_cases
  omega

/-! ### Fractions -/

theorem isDigit_of_mem_digits {c : Char} (h : c ∈ s.digits) : c.isDigit = true :=
  Layout.isDigit_of_mem_pad ((List.rdropWhile_prefix (· == '0') _).subset h)

/-- The digits left out are zeros. -/
theorem pad_eq (s : Stamp) : ∃ k, Layout.pad 9 s.nanos = s.digits ++ List.replicate k '0' := by
  have hzeros : ∀ c ∈ (Layout.pad 9 s.nanos).rtakeWhile (· == '0'), c = '0' := by
    intro c hc
    simpa using List.mem_rtakeWhile_imp hc
  refine ⟨((Layout.pad 9 s.nanos).rtakeWhile (· == '0')).length, ?_⟩
  rw [← List.eq_replicate_of_mem hzeros]
  exact (List.rdropWhile_append_rtakeWhile).symm

theorem nanos_eq (h : s.digits = t.digits) : s.nanos = t.nanos := by
  obtain ⟨k, hk⟩ := s.pad_eq
  obtain ⟨l, hl⟩ := t.pad_eq
  have hlen : k = l := by
    have hks := congrArg List.length hk
    have hlt := congrArg List.length hl
    rw [Layout.length_pad, List.length_append, List.length_replicate] at hks hlt
    rw [h] at hks
    omega
  have hpad : Layout.pad 9 s.nanos = Layout.pad 9 t.nanos := by rw [hk, hl, h, hlen]
  rw [← Layout.ofDigitChars_pad 9 s.inSecond, hpad, Layout.ofDigitChars_pad 9 t.inSecond]

theorem not_lt_zeros {l : Text} (h : ∀ c ∈ l, '0' ≤ c) : ¬ l < List.replicate l.length '0' := by
  induction l with
  | nil => exact List.not_lt_nil []
  | cons c l ih =>
    rw [List.length_cons, List.replicate_succ, List.cons_lt_cons_iff]
    rintro (hlt | ⟨-, hlt⟩)
    · exact absurd hlt (not_lt.mpr (h c List.mem_cons_self))
    · exact ih (fun d hd => h d (List.mem_cons_of_mem _ hd)) hlt

/-- More digits are not less. -/
theorem nanos_le_of_begins (h : s.digits <+: t.digits) : s.nanos ≤ t.nanos := by
  by_contra hlt
  obtain ⟨more, hmore⟩ := h
  obtain ⟨k, hk⟩ := s.pad_eq
  obtain ⟨l, hl⟩ := t.pad_eq
  have hpad := Layout.pad_lt_pad 9 (Nat.lt_of_not_le hlt) s.inSecond
  have hlen : (more ++ List.replicate l '0').length = k := by
    have hks := congrArg List.length hk
    have hls := congrArg List.length hl
    rw [Layout.length_pad] at hks hls
    rw [← hmore] at hls
    simp only [List.length_append, List.length_replicate] at hks hls ⊢
    omega
  rw [hk, hl, ← hmore, List.append_assoc] at hpad
  have hrest : more ++ List.replicate l '0' < List.replicate k '0' := by
    rcases lt_trichotomy (more ++ List.replicate l '0') (List.replicate k '0') with hlt | heq | hgt
    · exact hlt
    · rw [heq] at hpad
      exact absurd hpad (lt_irrefl _)
    · exact absurd (hpad.trans (List.append_left_lt hgt)) (lt_irrefl _)
  rw [← hlen] at hrest
  refine not_lt_zeros (fun c hc => ?_) hrest
  have hmem : c ∈ Layout.pad 9 t.nanos := by
    rw [hl, ← hmore, List.append_assoc]
    exact List.mem_append_right _ hc
  exact (digit_bounds (Layout.isDigit_of_mem_pad hmem)).1

theorem digits_append_lt (hst : ¬ s.digits <+: t.digits) (hts : ¬ t.digits <+: s.digits) (h : s.nanos < t.nanos)
    (u v : Text) : s.digits ++ u < t.digits ++ v := by
  obtain ⟨k, hk⟩ := s.pad_eq
  obtain ⟨l, hl⟩ := t.pad_eq
  have hlt := Layout.pad_lt_pad 9 h t.inSecond
  rw [hk, hl] at hlt
  exact append_lt_append_of_differ hst hts _ _ u v hlt

/-- What follows the date and the time of day. -/
def rest (s : Stamp) : Text := s.fraction ++ s.zone

/-- Behind digits that both texts have, a digit comes behind the sign of a zone. -/
theorem rest_lt_of_digit (hp : s.digits <+: t.digits) (hne : s.digits ≠ t.digits) (hzone : s.offset ≠ 0) :
    s.rest < t.rest := by
  obtain ⟨sign, hsign⟩ := exists_sign hzone
  obtain ⟨more, hmore⟩ := hp
  obtain ⟨d, ds, rfl⟩ : ∃ d ds, more = d :: ds := by
    refine List.exists_cons_of_ne_nil fun hnil => hne ?_
    rw [← hmore, hnil, List.append_nil]
  have ht : t.digits ≠ [] := by simp [← hmore]
  have hmem : d ∈ t.digits := by simp [← hmore]
  have hdigit := isDigit_of_mem_digits hmem
  unfold rest fraction
  rw [if_neg ht, hsign]
  by_cases hs : s.digits = []
  · rw [if_pos hs]
    exact List.cons_lt_cons_iff.mpr (Or.inl (sign_lt _ (Or.inl rfl)))
  · rw [if_neg hs, ← hmore, List.cons_append, List.cons_append, List.append_assoc]
    refine List.cons_lt_cons_iff.mpr (Or.inr ⟨rfl, List.append_left_lt ?_⟩)
    exact List.cons_lt_cons_iff.mpr (Or.inl (sign_lt _ (Or.inr (Or.inl hdigit))))

/-- And in front of `Z`. -/
theorem rest_lt_of_digit' (hp : t.digits <+: s.digits) (hne : s.digits ≠ t.digits) (hzone : t.offset = 0) :
    s.rest < t.rest := by
  obtain ⟨more, hmore⟩ := hp
  obtain ⟨d, ds, rfl⟩ : ∃ d ds, more = d :: ds := by
    refine List.exists_cons_of_ne_nil fun hnil => hne ?_
    rw [← hmore, hnil, List.append_nil]
  have hs : s.digits ≠ [] := by simp [← hmore]
  have hmem : d ∈ s.digits := by simp [← hmore]
  have hdigit := isDigit_of_mem_digits hmem
  have hZ : t.zone = ['Z'] := if_pos hzone
  have hlast : '9' < 'Z' := by decide
  unfold rest fraction
  rw [if_neg hs, hZ]
  by_cases ht : t.digits = []
  · rw [if_pos ht]
    exact List.cons_lt_cons_iff.mpr (Or.inl (by decide))
  · rw [if_neg ht, ← hmore, List.cons_append, List.cons_append, List.append_assoc]
    refine List.cons_lt_cons_iff.mpr (Or.inr ⟨rfl, List.append_left_lt ?_⟩)
    exact List.cons_lt_cons_iff.mpr (Or.inl (lt_of_le_of_lt (digit_bounds hdigit).2 hlast))

/-- A stamp that sorts before another is written before it. -/
theorem text_lt_of_sorts (h : s.Sorts t) : s.text < t.text := by
  rcases h with hlt | ⟨heq, h⟩
  · exact Layout.append_lt_append (dateTime_lt hlt) ((length_dateTime s).trans (length_dateTime t).symm)
  · have hdate : s.dateTime = t.dateTime := by rw [dateTime, heq, dateTime]
    unfold text
    rw [hdate]
    refine List.append_left_lt ?_
    split at h
    · rename_i hdigits
      rw [fraction, hdigits, ← fraction]
      exact List.append_left_lt (zone_lt h)
    · rename_i hdigits
      split at h
      · rename_i hp
        exact rest_lt_of_digit hp hdigits h
      · rename_i hst
        split at h
        · rename_i hp
          exact rest_lt_of_digit' hp hdigits h
        · rename_i hts
          have hs : s.digits ≠ [] := fun hnil => hst (hnil ▸ List.nil_prefix)
          have ht : t.digits ≠ [] := fun hnil => hts (hnil ▸ List.nil_prefix)
          rw [fraction, fraction, if_neg hs, if_neg ht]
          exact List.cons_lt_cons_iff.mpr (Or.inr ⟨rfl, digits_append_lt hst hts h _ _⟩)

/-- Of two stamps one sorts before the other. -/
theorem sorts_total (h : s ≠ t) : s.Sorts t ∨ t.Sorts s := by
  unfold Sorts
  rcases Nat.lt_trichotomy s.second t.second with hlt | heq | hlt
  · exact Or.inl (Or.inl hlt)
  · by_cases hdigits : s.digits = t.digits
    · have hoffset : s.offset ≠ t.offset := fun hoff => h (ext' heq (nanos_eq hdigits) hoff)
      have hrank : s.zoneRank ≠ t.zoneRank := fun hrank => hoffset (offset_eq hrank)
      rw [if_pos hdigits, if_pos hdigits.symm]
      rcases Nat.lt_or_gt_of_ne hrank with hlt | hlt
      · exact Or.inl (Or.inr ⟨heq, hlt⟩)
      · exact Or.inr (Or.inr ⟨heq.symm, hlt⟩)
    · have hnanos : s.nanos ≠ t.nanos := fun hnanos => hdigits (by rw [digits, hnanos, digits])
      have hboth (hst : s.digits <+: t.digits) (hts : t.digits <+: s.digits) : False :=
        hdigits (hst.eq_of_length_le hts.length_le)
      rw [if_neg hdigits, if_neg (Ne.symm hdigits)]
      by_cases hst : s.digits <+: t.digits
      · rw [if_pos hst, if_neg (hboth hst), if_pos hst]
        by_cases hzone : s.offset = 0
        · exact Or.inr (Or.inr ⟨heq.symm, hzone⟩)
        · exact Or.inl (Or.inr ⟨heq, hzone⟩)
      · rw [if_neg hst]
        by_cases hts : t.digits <+: s.digits
        · rw [if_pos hts, if_pos hts]
          by_cases hzone : t.offset = 0
          · exact Or.inl (Or.inr ⟨heq, hzone⟩)
          · exact Or.inr (Or.inr ⟨heq.symm, hzone⟩)
        · rw [if_neg hts, if_neg hts, if_neg hst]
          rcases Nat.lt_or_gt_of_ne hnanos with hlt | hlt
          · exact Or.inl (Or.inr ⟨heq, hlt⟩)
          · exact Or.inr (Or.inr ⟨heq.symm, hlt⟩)
  · exact Or.inr (Or.inl hlt)

/-- **One text comes before another just if the stamps sort so.** -/
theorem text_lt_iff : s.text < t.text ↔ s.Sorts t := by
  refine ⟨fun hlt => ?_, text_lt_of_sorts⟩
  have hne : s ≠ t := by
    rintro rfl
    exact lt_irrefl _ hlt
  exact (sorts_total hne).resolve_right fun h => lt_irrefl _ (hlt.trans (text_lt_of_sorts h))

/-- Different stamps have different texts. -/
theorem text_inj (h : s.text = t.text) : s = t := by
  by_contra hne
  rcases sorts_total hne with hlt | hlt
  · exact (text_lt_of_sorts hlt).ne h
  · exact (text_lt_of_sorts hlt).ne h.symm

/-- **In a zone that is not UTC the texts are in the order of the moments.** -/
theorem sorts_of_same_offset (hzone : s.offset = t.offset) (hne : s.offset ≠ 0) (h : s.instant < t.instant) :
    s.Sorts t := by
  have hs := s.inSecond
  have ht := t.inSecond
  unfold instant at h
  by_cases hlt : s.second < t.second
  · exact Or.inl hlt
  · have hsecond : s.second = t.second := by omega
    have hnanos : s.nanos < t.nanos := by omega
    have hdigits : s.digits ≠ t.digits := fun heq => Nat.ne_of_lt hnanos (nanos_eq heq)
    refine Or.inr ⟨hsecond, ?_⟩
    rw [if_neg hdigits]
    split
    · exact hne
    · rw [if_neg fun hts => Nat.not_le_of_lt hnanos (nanos_le_of_begins hts)]
      exact hnanos

end Stamp

end FlyMail.Rfc3339
