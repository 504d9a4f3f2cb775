/-
Dates of the Gregorian calendar.

A moment is a number of seconds since the first of January of the year 1.  Its date is found by
taking off years, then months, as long as they last (`split`), and the moment is found again from
the date (`toSeconds_ofSeconds`).  Later moments have later dates, field by field
(`fields_lt_fields`), so a date in columns compares as text as its moment does.
-/
import FlyMail.Lib.Layout

namespace FlyMail.Calendar

/-! ### Taking off periods -/

/-- What the periods before the `j`-th last. -/
def before (len : Nat → Nat) : Nat → Nat
  | 0 => 0
  | j + 1 => before len j + len j

/-- Take off periods, from the `i`-th on, at most `fuel` of them: in which period `n` falls, and
where in it. -/
def split (len : Nat → Nat) : Nat → Nat → Nat → Nat × Nat
  | 0, i, n => (i, n)
  | fuel + 1, i, n => if n < len i then (i, n) else split len fuel (i + 1) (n - len i)

variable {len : Nat → Nat}

theorem before_mono {i j : Nat} (h : i ≤ j) : before len i ≤ before len j := by
  induction h with
  | refl => exact Nat.le_refl _
  | step _ ih => exact Nat.le_trans ih (Nat.le_add_right _ _)

theorem before_add_le (hlen : ∀ j, 1 ≤ len j) (i k : Nat) : before len i + k ≤ before len (i + k) := by
  induction k with
  | zero => exact Nat.le_refl _
  | succ k ih =>
      have hstep : before len (i + (k + 1)) = before len (i + k) + len (i + k) := rfl
      have hpos := hlen (i + k)
      omega

/-- Nothing is lost. -/
theorem before_split (fuel : Nat) :
    ∀ i n, i ≤ (split len fuel i n).1 ∧
      before len (split len fuel i n).1 + (split len fuel i n).2 = before len i + n := by
  induction fuel with
  | zero => exact fun i n => ⟨Nat.le_refl _, rfl⟩
  | succ fuel ih =>
      intro i n
      unfold split
      split
      · exact ⟨Nat.le_refl _, rfl⟩
      · obtain ⟨hle, hsum⟩ := ih (i + 1) (n - len i)
        refine ⟨Nat.le_of_succ_le hle, ?_⟩
        rw [hsum]
        have hstep : before len (i + 1) = before len i + len i := rfl
        omega

/-- With enough fuel it ends within a period. -/
theorem split_lt (fuel : Nat) :
    ∀ i n, before len i + n < before len (i + fuel) → (split len fuel i n).2 < len (split len fuel i n).1 := by
  induction fuel with
  | zero =>
      intro i n h
      rw [Nat.add_zero] at h
      omega
  | succ fuel ih =>
      intro i n h
      unfold split
      split
      · assumption
      · refine ih (i + 1) (n - len i) ?_
        have hstep : before len (i + 1) = before len i + len i := rfl
        have hfuel : i + 1 + fuel = i + (fuel + 1) := by omega
        rw [hfuel]
        omega

/-- Later means in a later period, or later in the same one. -/
theorem lt_of_before_lt {i j r s : Nat} (hs : s < len j) (h : before len i + r < before len j + s) :
    i < j ∨ i = j ∧ r < s := by
  rcases Nat.lt_trichotomy i j with hlt | heq | hlt
  · exact Or.inl hlt
  · rw [heq] at h
    exact Or.inr ⟨heq, by omega⟩
  · have hmono := @before_mono len _ _ hlt
    have hstep : before len (j + 1) = before len j + len j := rfl
    have hle : before len (j + 1) ≤ before len i := hmono
    omega

/-! ### Years and months -/

def isLeap (year : Nat) : Bool := year % 4 == 0 && (year % 100 != 0 || year % 400 == 0)

def daysInYear (year : Nat) : Nat := if isLeap year then 366 else 365

def daysInMonth (year month : Nat) : Nat :=
  if month = 2 then if isLeap year then 29 else 28
  else if month = 4 ∨ month = 6 ∨ month = 9 ∨ month = 11 then 30
  else 31

theorem before_daysInMonth (year : Nat) :
    before (daysInMonth year) 13 = before (daysInMonth year) 1 + daysInYear year := by
  unfold daysInYear
  simp only [before, daysInMonth]
  cases isLeap year <;> rfl

theorem one_le_daysInYear (year : Nat) : 1 ≤ daysInYear year := by
  unfold daysInYear
  split
  · decide
  · decide

/-- How many days there are up to the end of a year: a day more every four years, but not every
hundred. -/
theorem before_daysInYear (year : Nat) :
    before daysInYear (year + 1) + year / 100 = 366 + 365 * year + year / 4 + year / 400 := by
  induction year with
  | zero => rfl
  | succ year ih =>
      have hstep : before daysInYear (year + 1 + 1) = before daysInYear (year + 1) + daysInYear (year + 1) := rfl
      have hleap : isLeap (year + 1) = true ↔
          (year + 1) % 4 = 0 ∧ ((year + 1) % 100 ≠ 0 ∨ (year + 1) % 400 = 0) := by
        unfold isLeap
        simp
      have h4 : (year + 1) / 4 = year / 4 + if (year + 1) % 4 = 0 then 1 else 0 := by
        split <;> omega
      have h100 : (year + 1) / 100 = year / 100 + if (year + 1) % 100 = 0 then 1 else 0 := by
        split <;> omega
      have h400 : (year + 1) / 400 = year / 400 + if (year + 1) % 400 = 0 then 1 else 0 := by
        split <;> omega
      have hlen : daysInYear (year + 1) + (if (year + 1) % 100 = 0 then 1 else 0)
          = 365 + (if (year + 1) % 4 = 0 then 1 else 0) + if (year + 1) % 400 = 0 then 1 else 0 := by
        unfold daysInYear
        simp only [hleap]
        by_cases hc4 : (year + 1) % 4 = 0
        · by_cases hc100 : (year + 1) % 100 = 0
          · by_cases hc400 : (year + 1) % 400 = 0
            · simp [hc4, hc100, hc400]
            · simp [hc4, hc100, hc400]
          · have hc400 : ¬ (year + 1) % 400 = 0 := by omega
            simp [hc4, hc100, hc400]
        · have hc100 : ¬ (year + 1) % 100 = 0 := by omega
          have hc400 : ¬ (year + 1) % 400 = 0 := by omega
          simp [hc4, hc100, hc400]
      rw [hstep, h4, h100, h400]
      omega

/-- A date and a time of day. -/
structure DateTime where
  year : Nat
  month : Nat
  day : Nat
  hour : Nat
  minute : Nat
  second : Nat
  deriving DecidableEq, Repr

def ofSeconds (t : Nat) : DateTime :=
  let year := split daysInYear (t / 86400 + 1) 1 (t / 86400)
  let month := split (daysInMonth year.1) 12 1 year.2
  { year := year.1
    month := month.1
    day := month.2 + 1
    hour := t % 86400 / 3600
    minute := t % 3600 / 60
    second := t % 60 }

def toSeconds (d : DateTime) : Nat :=
  (before daysInYear d.year - before daysInYear 1 +
    (before (daysInMonth d.year) d.month - before (daysInMonth d.year) 1) + (d.day - 1)) * 86400 +
    d.hour * 3600 + d.minute * 60 + d.second

/-- The day of the year, and how it hangs together with the year and with the day of the month. -/
structure DayOf (t : Nat) (d : DateTime) (n : Nat) : Prop where
  year : 1 ≤ d.year
  month : 1 ≤ d.month ∧ d.month ≤ 12
  day : 1 ≤ d.day ∧ d.day ≤ daysInMonth d.year d.month
  inYear : n < daysInYear d.year
  ofYear : before daysInYear d.year + n = before daysInYear 1 + t / 86400
  ofMonth : before (daysInMonth d.year) d.month + (d.day - 1) = before (daysInMonth d.year) 1 + n

theorem exists_dayOf (t : Nat) : ∃ n, DayOf t (ofSeconds t) n := by
  let y := split daysInYear (t / 86400 + 1) 1 (t / 86400)
  let m := split (daysInMonth y.1) 12 1 y.2
  obtain ⟨hy, hysum⟩ := @before_split daysInYear (t / 86400 + 1) 1 (t / 86400)
  obtain ⟨hm, hmsum⟩ := @before_split (daysInMonth y.1) 12 1 y.2
  have hyear : y.2 < daysInYear y.1 := by
    refine split_lt (t / 86400 + 1) 1 (t / 86400) ?_
    have hle := before_add_le one_le_daysInYear 1 (t / 86400 + 1)
    omega
  have hthirteen := before_daysInMonth y.1
  have hmonth : m.2 < daysInMonth y.1 m.1 := by
    refine split_lt 12 1 y.2 ?_
    show before (daysInMonth y.1) 1 + y.2 < before (daysInMonth y.1) 13
    omega
  have hle : m.1 ≤ 12 := by
    by_contra hgt
    have hmono := @before_mono (daysInMonth y.1) _ _ (Nat.lt_of_not_le hgt)
    have hmono : before (daysInMonth y.1) 13 ≤ before (daysInMonth y.1) m.1 := hmono
    have hmsum : before (daysInMonth y.1) m.1 + m.2 = before (daysInMonth y.1) 1 + y.2 := hmsum
    omega
  exact ⟨y.2, hy, ⟨hm, hle⟩, ⟨Nat.le_add_left 1 m.2, hmonth⟩, hyear, hysum, hmsum⟩

/-- **The moment is found again.** -/
theorem toSeconds_ofSeconds (t : Nat) : toSeconds (ofSeconds t) = t := by
  obtain ⟨n, h⟩ := exists_dayOf t
  have hyear := @before_mono daysInYear _ _ h.year
  have hmonth := @before_mono (daysInMonth (ofSeconds t).year) _ _ h.month.1
  have hofYear := h.ofYear
  have hofMonth := h.ofMonth
  have hday : before daysInYear (ofSeconds t).year - before daysInYear 1 +
      (before (daysInMonth (ofSeconds t).year) (ofSeconds t).month
        - before (daysInMonth (ofSeconds t).year) 1) + ((ofSeconds t).day - 1) = t / 86400 := by
    omega
  have hhour : (ofSeconds t).hour = t % 86400 / 3600 := rfl
  have hminute : (ofSeconds t).minute = t % 3600 / 60 := rfl
  have hsecond : (ofSeconds t).second = t % 60 := rfl
  unfold toSeconds
  rw [hday, hhour, hminute, hsecond]
  omega

/-- The fields, the largest first. -/
def DateTime.fields (d : DateTime) : List Nat := [d.year, d.month, d.day, d.hour, d.minute, d.second]

/-- **Later moments have later dates.** -/
theorem fields_lt_fields {t u : Nat} (h : t < u) : (ofSeconds t).fields < (ofSeconds u).fields := by
  obtain ⟨n, ht⟩ := exists_dayOf t
  obtain ⟨k, hu⟩ := exists_dayOf u
  unfold DateTime.fields
  simp only [List.cons_lt_cons_iff]
  by_cases hday : t / 86400 < u / 86400
  · have hsum : before daysInYear (ofSeconds t).year + n < before daysInYear (ofSeconds u).year + k := by
      rw [ht.ofYear, hu.ofYear]
      omega
    rcases lt_of_before_lt hu.inYear hsum with hlt | ⟨heq, hlt⟩
    · exact Or.inl hlt
    · refine Or.inr ⟨heq, ?_⟩
      have hmonth := ht.ofMonth
      rw [heq] at hmonth
      have hsum : before (daysInMonth (ofSeconds u).year) (ofSeconds t).month + ((ofSeconds t).day - 1)
          < before (daysInMonth (ofSeconds u).year) (ofSeconds u).month + ((ofSeconds u).day - 1) := by
        rw [hmonth, hu.ofMonth]
        omega
      have hin : (ofSeconds u).day - 1 < daysInMonth (ofSeconds u).year (ofSeconds u).month := by
        have hd := hu.day
        omega
      rcases lt_of_before_lt hin hsum with hlt | ⟨heq, hlt⟩
      · exact Or.inl hlt
      · refine Or.inr ⟨heq, Or.inl ?_⟩
        omega
  · have hsame : t / 86400 = u / 86400 := by omega
    -- the same day, so the same date
    have hyear : (ofSeconds t).year = (ofSeconds u).year := by
      show (split daysInYear (t / 86400 + 1) 1 (t / 86400)).1 = (split daysInYear (u / 86400 + 1) 1 (u / 86400)).1
      rw [hsame]
    have hmonth : (ofSeconds t).month = (ofSeconds u).month := by
      show (split (daysInMonth (split daysInYear (t / 86400 + 1) 1 (t / 86400)).1) 12 1
          (split daysInYear (t / 86400 + 1) 1 (t / 86400)).2).1
        = (split (daysInMonth (split daysInYear (u / 86400 + 1) 1 (u / 86400)).1) 12 1
          (split daysInYear (u / 86400 + 1) 1 (u / 86400)).2).1
      rw [hsame]
    have hdate : (ofSeconds t).day = (ofSeconds u).day := by
      show (split (daysInMonth (split daysInYear (t / 86400 + 1) 1 (t / 86400)).1) 12 1
          (split daysInYear (t / 86400 + 1) 1 (t / 86400)).2).2 + 1
        = (split (daysInMonth (split daysInYear (u / 86400 + 1) 1 (u / 86400)).1) 12 1
          (split daysInYear (u / 86400 + 1) 1 (u / 86400)).2).2 + 1
      rw [hsame]
    refine Or.inr ⟨hyear, Or.inr ⟨hmonth, Or.inr ⟨hdate, ?_⟩⟩⟩
    have hhour : ∀ t, (ofSeconds t).hour = t % 86400 / 3600 := fun _ => rfl
    have hminute : ∀ t, (ofSeconds t).minute = t % 3600 / 60 := fun _ => rfl
    have hsecond : ∀ t, (ofSeconds t).second = t % 60 := fun _ => rfl
    rw [hhour, hhour, hminute, hminute, hsecond, hsecond]
    omega

/-! ### Dates as text -/

/-- `2006-01-02T15:04:05Z`, with `sep` between the date and the time of day. -/
def columns (sep : Char) : Layout.Columns :=
  [(4, '-'), (2, '-'), (2, sep), (2, ':'), (2, ':'), (2, 'Z')]

/-- The first moment whose year has five digits. -/
def limit : Nat := 315537897600

def text (t : Nat) : Text := Layout.write (columns 'T') (ofSeconds t).fields

/-- Read a date in columns; it has to exist. -/
def parse (sep : Char) (s : Text) : Option Nat :=
  match Layout.read (columns sep) s with
  | some [year, month, day, hour, minute, second] =>
      if 1 ≤ year ∧ 1 ≤ month ∧ month ≤ 12 ∧ 1 ≤ day ∧ day ≤ daysInMonth year month ∧
          hour < 24 ∧ minute < 60 ∧ second < 60 then
        some (toSeconds ⟨year, month, day, hour, minute, second⟩)
      else none
  | _ => none

theorem daysInMonth_le (year month : Nat) : daysInMonth year month ≤ 31 := by
  unfold daysInMonth
  split
  · split
    · decide
    · decide
  · split
    · decide
    · decide

theorem year_lt_of_lt_limit {t : Nat} (h : t < limit) : (ofSeconds t).year < 10000 := by
  obtain ⟨n, hday⟩ := exists_dayOf t
  by_contra hge
  have hmono := @before_mono daysInYear _ _ (Nat.le_of_not_lt hge)
  have hlast : before daysInYear 10000 + 99 = 366 + 365 * 9999 + 2499 + 24 := before_daysInYear 9999
  have hfirst : before daysInYear 1 = 366 := rfl
  have hsum := hday.ofYear
  unfold limit at h
  omega

theorem fits_fields {t : Nat} (h : t < limit) (sep : Char) :
    Layout.Fits (columns sep) (ofSeconds t).fields := by
  obtain ⟨n, hday⟩ := exists_dayOf t
  have hyear := year_lt_of_lt_limit h
  have hmonth := hday.month
  have hdate := hday.day
  have hmax := daysInMonth_le (ofSeconds t).year (ofSeconds t).month
  have hhour : (ofSeconds t).hour = t % 86400 / 3600 := rfl
  have hminute : (ofSeconds t).minute = t % 3600 / 60 := rfl
  have hsecond : (ofSeconds t).second = t % 60 := rfl
  exact ⟨⟨by decide, by omega, by omega⟩, ⟨by decide, by omega, by omega⟩, ⟨by decide, by omega, by omega⟩,
    ⟨by decide, by omega, by omega⟩, ⟨by decide, by omega, by omega⟩, ⟨by decide, by omega, by omega⟩, rfl⟩

/-- **The text of a moment is read back.** -/
theorem parse_text {t : Nat} (h : t < limit) : parse 'T' (text t) = some t := by
  obtain ⟨n, hday⟩ := exists_dayOf t
  have hmonth := hday.month
  have hdate := hday.day
  have hyear := hday.year
  have hhour : (ofSeconds t).hour = t % 86400 / 3600 := rfl
  have hminute : (ofSeconds t).minute = t % 3600 / 60 := rfl
  have hsecond : (ofSeconds t).second = t % 60 := rfl
  unfold parse text
  rw [Layout.read_write _ (fits_fields h 'T')]
  unfold DateTime.fields
  dsimp only
  rw [if_pos (by omega)]
  exact congrArg some (toSeconds_ofSeconds t)

/-- **Texts compare as moments do.** -/
theorem text_lt_text {t u : Nat} (h : t < u) (hu : u < limit) : text t < text u :=
  Layout.write_lt_write _ (fits_fields (Nat.lt_trans h hu) 'T') (fits_fields hu 'T') (fields_lt_fields h)

theorem length_text {t : Nat} (h : t < limit) : (text t).length = 20 := by
  have h0 : 0 < limit := by decide
  have hlen := Layout.length_write _ (fits_fields h 'T') (fits_fields h0 'T')
  exact hlen.trans (by decide)

/-- Another separator is not read. -/
theorem parse_text_of_ne {t : Nat} (h : t < limit) {sep : Char} (hsep : sep ≠ 'T') :
    parse sep (text t) = none := by
  obtain ⟨hyear, hmonth, hday, -⟩ := fits_fields h 'T'
  have hread : Layout.read (columns sep) (text t) = none := by
    unfold text columns DateTime.fields Layout.write
    rw [Layout.read_pad hyear]
    unfold Layout.write
    rw [Layout.read_pad hmonth]
    unfold Layout.write
    rw [Layout.read_pad hday, if_neg hsep.symm]
    rfl
  unfold parse
  rw [hread]

end FlyMail.Calendar
