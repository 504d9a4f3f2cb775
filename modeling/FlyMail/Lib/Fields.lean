/-
Fields of headers, as a reader of a mail finds them.

A mail is lines, each ended by CR and LF.  A header is a field a line, up to the first empty line;
a line that begins with a blank goes on with the field before (`read`).  The sections of a mail
begin at its first line and behind every line that is a delimiter.

A text can be written as a field if CR and LF are in it only as line ends in front of a blank
(`folded`).  Such fields are read back, unfolded (`read_fields`), and no others are, for nothing
that is read has a CR or LF in it (`noBreaks_of_read`).
-/
import FlyMail.Lib.Text

namespace FlyMail.Fields

def isWSP (c : Char) : Bool := c == ' ' || c == '\t'

def isBreak (c : Char) : Bool := c == '\r' || c == '\n'

def crlf : Text := ['\r', '\n']

/-! ### Folded texts -/

/-- Where a reader of a folded text is: in a line, or in a line end. -/
inductive Place
  | text
  | cr
  | crlf
  deriving DecidableEq, Repr

def Place.step : Place → Char → Option Place
  | .text, c => if c = '\r' then some .cr else if c = '\n' then none else some .text
  | .cr, c => if c = '\n' then some .crlf else none
  | .crlf, c => if isWSP c then some .text else none

def run : Place → Text → Option Place
  | p, [] => some p
  | p, c :: t => (p.step c).bind fun q => run q t

/-- CR and LF are in the text only together, in front of a blank. -/
def folded (t : Text) : Bool := run .text t == some .text

theorem folded_iff {t : Text} : folded t = true ↔ run .text t = some .text := by
  unfold folded
  exact beq_iff_eq

theorem run_append (s t : Text) : ∀ p, run p (s ++ t) = (run p s).bind fun q => run q t := by
  induction s with
  | nil => exact fun p => rfl
  | cons c s ih =>
      intro p
      rw [List.cons_append, run, run]
      cases p.step c with
      | none => rfl
      | some q => exact ih q

theorem folded_append {s t : Text} (hs : folded s = true) (ht : folded t = true) : folded (s ++ t) = true := by
  rw [folded_iff, run_append, folded_iff.mp hs]
  exact folded_iff.mp ht

/-- A character that can only stand within a line. -/
def Solid (c : Char) : Prop := isWSP c = false ∧ isBreak c = false

instance (c : Char) : Decidable (Solid c) := by
  unfold Solid
  infer_instance

theorem step_text {c : Char} (h : isBreak c = false) : Place.step .text c = some .text := by
  unfold isBreak at h
  simp only [Bool.or_eq_false_iff, beq_eq_false_iff_ne] at h
  rw [Place.step, if_neg h.1, if_neg h.2]

theorem step_solid {c : Char} (h : Solid c) (p : Place) :
    p.step c = if p = .text then some .text else none := by
  cases p with
  | text => exact step_text h.2
  | cr =>
      have hbreak := h.2
      unfold isBreak at hbreak
      simp only [Bool.or_eq_false_iff, beq_eq_false_iff_ne] at hbreak
      rw [Place.step, if_neg hbreak.2]
      rfl
  | crlf =>
      rw [Place.step, if_neg (by rw [h.1]; decide)]
      rfl

theorem folded_cons_iff {c : Char} (h : isBreak c = false) (t : Text) : folded (c :: t) = folded t := by
  unfold folded
  rw [run, step_text h]
  rfl

/-- **A solid character parts the text.** -/
theorem folded_append_cons {c : Char} (h : Solid c) (s t : Text) :
    folded (s ++ c :: t) = true ↔ folded s = true ∧ folded t = true := by
  rw [folded_iff, folded_iff, folded_iff, run_append]
  cases run .text s with
  | none => simp
  | some p =>
      rw [Option.bind_some, run, step_solid h]
      by_cases hp : p = .text
      · simp [hp]
      · simp [hp]

/-- There is no CR and no LF in the text. -/
def NoBreaks (t : Text) : Prop := ∀ c ∈ t, isBreak c = false

theorem noBreaks_append_iff {s t : Text} : NoBreaks (s ++ t) ↔ NoBreaks s ∧ NoBreaks t := by
  unfold NoBreaks
  simp only [List.mem_append]
  exact ⟨fun h => ⟨fun c hc => h c (Or.inl hc), fun c hc => h c (Or.inr hc)⟩,
    fun h c hc => hc.elim (h.1 c) (h.2 c)⟩

theorem NoBreaks.folded {t : Text} (h : NoBreaks t) : folded t = true := by
  induction t with
  | nil => rfl
  | cons c t ih =>
      rw [folded_cons_iff (h c List.mem_cons_self)]
      exact ih fun d hd => h d (List.mem_cons_of_mem _ hd)

theorem noBreaks_cons_iff {c : Char} {t : Text} : NoBreaks (c :: t) ↔ isBreak c = false ∧ NoBreaks t :=
  List.forall_mem_cons

theorem noBreaks_singleton {c : Char} (h : isBreak c = false) : NoBreaks [c] := by
  intro d hd
  rw [List.mem_singleton.mp hd]
  exact h

/-- A test that CR and LF fail keeps them out. -/
theorem isBreak_eq_false {p : Char → Bool} (hcr : p '\r' = false) (hlf : p '\n' = false) {c : Char}
    (h : p c = true) : isBreak c = false := by
  unfold isBreak
  rw [Bool.or_eq_false_iff, beq_eq_false_iff_ne, beq_eq_false_iff_ne]
  refine ⟨fun heq => ?_, fun heq => ?_⟩
  · rw [heq, hcr] at h
    exact Bool.false_ne_true h
  · rw [heq, hlf] at h
    exact Bool.false_ne_true h

theorem folded_noBreaks_append {s : Text} (h : NoBreaks s) (t : Text) : folded (s ++ t) = folded t := by
  induction s with
  | nil => rfl
  | cons c s ih =>
      rw [List.cons_append, folded_cons_iff (h c List.mem_cons_self)]
      exact ih fun d hd => h d (List.mem_cons_of_mem _ hd)

theorem noBreaks_join {sep : Text} (hsep : NoBreaks sep) {ts : List Text} (h : ∀ t ∈ ts, NoBreaks t) :
    NoBreaks (Text.join ts sep) := by
  unfold Text.join
  induction ts with
  | nil => exact fun c hc => absurd hc List.not_mem_nil
  | cons t ts ih =>
      cases ts with
      | nil =>
          rw [List.intercalate_singleton]
          exact h t List.mem_cons_self
      | cons u ts =>
          rw [List.intercalate_cons_cons, noBreaks_append_iff, noBreaks_append_iff]
          exact ⟨⟨h t List.mem_cons_self, hsep⟩, ih fun v hv => h v (List.mem_cons_of_mem _ hv)⟩

/-- A list parted by solid characters, each with a blank behind it. -/
theorem folded_join {c : Char} (h : Solid c) (ts : List Text) :
    folded (Text.join ts [c, ' ']) = true ↔ ∀ t ∈ ts, folded t = true := by
  unfold Text.join
  induction ts with
  | nil => exact ⟨fun _ t ht => absurd ht List.not_mem_nil, fun _ => rfl⟩
  | cons t ts ih =>
      cases ts with
      | nil => simp
      | cons u ts =>
          have hsep (rest : Text) : [c, ' '] ++ rest = c :: ' ' :: rest := rfl
          rw [List.intercalate_cons_cons, List.append_assoc, hsep, folded_append_cons h,
            folded_cons_iff (by decide), ih, List.forall_mem_cons (l := u :: ts)]

/-! ### Lines -/

/-- The lines without their ends; what is behind the last line end is a line as well. -/
def lines : Text → List Text
  | [] => [[]]
  | '\r' :: '\n' :: t => [] :: lines t
  | c :: t => Text.consFirst c (lines t)

/-- The text without the line ends in front of blanks. -/
def unfolded : Text → Text
  | [] => []
  | '\r' :: '\n' :: w :: t => if isWSP w then w :: unfolded t else '\r' :: '\n' :: unfolded (w :: t)
  | c :: t => c :: unfolded t

theorem exists_lines (t : Text) : ∃ l ls, lines t = l :: ls := by
  unfold lines
  split
  · exact ⟨_, _, rfl⟩
  · exact ⟨_, _, rfl⟩
  · unfold Text.consFirst
    split
    · exact ⟨_, _, rfl⟩
    · exact ⟨_, _, rfl⟩

theorem lines_cons {c : Char} {t l : Text} {ls : List Text} (h : ∀ t', c = '\r' → t = '\n' :: t' → False)
    (ht : lines t = l :: ls) : lines (c :: t) = (c :: l) :: ls := by
  rw [lines.eq_3 c t h, ht]
  rfl

/-- **Line by line.** -/
theorem lines_append_crlf (s t : Text) : lines (s ++ crlf ++ t) = lines s ++ lines t := by
  induction s using lines.induct with
  | case1 => rfl
  | case2 s ih => exact congrArg (List.cons []) ih
  | case3 c s hc ih =>
      obtain ⟨l, ls, hs⟩ := exists_lines s
      rw [hs] at ih
      rw [lines_cons hc hs]
      refine lines_cons (fun t' hcr ht => ?_) ih
      cases s with
      | nil => exact absurd (List.cons.inj ht).1 (by decide)
      | cons d s =>
          obtain ⟨rfl, -⟩ := List.cons.inj ht
          exact hc s hcr rfl

theorem lines_of_noBreaks {t : Text} (h : NoBreaks t) : lines t = [t] := by
  induction t with
  | nil => rfl
  | cons c t ih =>
      refine lines_cons (fun t' hcr _ => ?_) (ih fun d hd => h d (List.mem_cons_of_mem _ hd))
      have hbreak := h c List.mem_cons_self
      rw [hcr] at hbreak
      exact absurd hbreak (by decide)

/-- The lines of a folded text: the first as it is, and the others with a blank in front. -/
structure FoldedLines (t l : Text) (ls : List Text) : Prop where
  lines : lines t = l :: ls
  first : NoBreaks l
  others : ∀ x ∈ ls, NoBreaks x ∧ ∃ w x', x = w :: x' ∧ isWSP w = true
  unfolded : unfolded t = l ++ ls.flatten

theorem isBreak_of_isWSP {c : Char} (h : isWSP c = true) : isBreak c = false := by
  unfold isWSP at h
  simp only [Bool.or_eq_true, beq_iff_eq] at h
  rcases h with rfl | rfl
  · decide
  · decide

/-- A folded text begins with a line end only in front of a blank. -/
theorem isBreak_of_folded {c : Char} {t : Text} (hc : ∀ w t', c = '\r' → t = '\n' :: w :: t' → False)
    (h : folded (c :: t) = true) : isBreak c = false := by
  rw [folded_iff, run] at h
  obtain ⟨p, hp, hrest⟩ := Option.bind_eq_some_iff.mp h
  by_cases hcr : c = '\r'
  · exfalso
    rw [hcr] at hp
    obtain rfl := Option.some.inj hp
    cases t with
    | nil => exact absurd hrest (by decide)
    | cons d t =>
        rw [run] at hrest
        obtain ⟨q, hq, hrest⟩ := Option.bind_eq_some_iff.mp hrest
        by_cases hlf : d = '\n'
        · rw [hlf] at hq
          obtain rfl := Option.some.inj hq
          cases t with
          | nil => exact absurd hrest (by decide)
          | cons w t => exact hc w t hcr (by rw [hlf])
        · rw [Place.step, if_neg hlf] at hq
          exact absurd hq.symm (Option.some_ne_none q)
  · have hlf : c ≠ '\n' := by
      rintro rfl
      exact absurd hp.symm (Option.some_ne_none p)
    unfold isBreak
    simp [hcr, hlf]

theorem foldedLines (t : Text) : folded t = true → ∃ l ls, FoldedLines t l ls := by
  induction t using unfolded.induct with
  | case1 => exact fun _ => ⟨[], [], rfl, fun c hc => absurd hc List.not_mem_nil,
      fun x hx => absurd hx List.not_mem_nil, rfl⟩
  | case2 w t hw ih =>
      intro h
      have ht : folded t = true := by
        rw [folded_iff] at h ⊢
        rw [← h]
        simp [run, Place.step, hw]
      obtain ⟨l, ls, hl⟩ := ih ht
      have hbreak := isBreak_of_isWSP hw
      have hlines : lines (w :: t) = (w :: l) :: ls := by
        refine lines_cons (fun t' hcr _ => ?_) hl.lines
        rw [hcr] at hbreak
        exact absurd hbreak (by decide)
      refine ⟨[], (w :: l) :: ls, ?_, fun c hc => absurd hc List.not_mem_nil, ?_, ?_⟩
      · rw [lines, hlines]
      · intro x hx
        rcases List.mem_cons.mp hx with rfl | hx
        · refine ⟨fun c hc => ?_, w, l, rfl, hw⟩
          rcases List.mem_cons.mp hc with rfl | hc
          · exact hbreak
          · exact hl.first c hc
        · exact hl.others x hx
      · rw [unfolded, if_pos hw, hl.unfolded]
        simp
  | case3 w t hw ih =>
      intro h
      rw [folded_iff] at h
      simp [run, Place.step, hw] at h
  | case4 c t hc ih =>
      intro h
      have hbreak : isBreak c = false := isBreak_of_folded (fun w t' => hc w t') h
      rw [folded_cons_iff hbreak] at h
      obtain ⟨l, ls, hl⟩ := ih h
      refine ⟨c :: l, ls, lines_cons (fun t' hcr _ => ?_) hl.lines, fun d hd => ?_, hl.others, ?_⟩
      · rw [hcr] at hbreak
        exact absurd hbreak (by decide)
      · rcases List.mem_cons.mp hd with rfl | hd
        · exact hbreak
        · exact hl.first d hd
      · rw [unfolded.eq_3 c t hc, hl.unfolded]
        rfl

/-- **What is not changed by unfolding and has no breaks then was folded.** -/
theorem folded_of_noBreaks (t : Text) : NoBreaks (unfolded t) → folded t = true := by
  induction t using unfolded.induct with
  | case1 => exact fun _ => rfl
  | case2 w t hw ih =>
      intro h
      rw [unfolded, if_pos hw] at h
      have ht := ih fun c hc => h c (List.mem_cons_of_mem _ hc)
      rw [folded_iff] at ht ⊢
      rw [← ht]
      simp [run, Place.step, hw]
  | case3 w t hw ih =>
      intro h
      rw [unfolded, if_neg hw] at h
      exact absurd (h '\r' List.mem_cons_self) (by decide)
  | case4 c t hc ih =>
      intro h
      rw [unfolded.eq_3 c t hc] at h
      rw [folded_cons_iff (h c List.mem_cons_self)]
      exact ih fun d hd => h d (List.mem_cons_of_mem _ hd)

/-! ### Reading sections -/

/-- A line that goes on with the last field. -/
def goOn : List Text → Text → List Text
  | [], l => [l]
  | [f], l => [f ++ l]
  | f :: g :: fs, l => f :: goOn (g :: fs) l

/-- A line of a header; not if a part of a line end is in it. -/
def addLine (fs : List Text) (l : Text) : Option (List Text) :=
  if l.any isBreak then none
  else if l.head?.any isWSP then some (goOn fs l)
  else some (fs ++ [l])

/-- The fields of each section. `some fs` is what a header has so far, `none` stands for what comes
behind it. -/
def read (delimiters : List Text) : Option (List Text) → List Text → Option (List (List Text))
  | some fs, [] => some [fs]
  | none, [] => some []
  | some fs, l :: ls =>
      if l = [] then (read delimiters none ls).map (fs :: ·)
      else (addLine fs l).bind fun fs => read delimiters (some fs) ls
  | none, l :: ls => if l ∈ delimiters then read delimiters (some []) ls else read delimiters none ls

theorem goOn_concat (f l : Text) (fs : List Text) : goOn (fs ++ [f]) l = fs ++ [f ++ l] := by
  induction fs with
  | nil => rfl
  | cons g fs ih =>
      cases fs with
      | nil => rfl
      | cons h fs => exact congrArg (List.cons g) ih

variable {delimiters : List Text}

theorem any_isBreak_iff {l : Text} : l.any isBreak = false ↔ NoBreaks l := by
  rw [List.any_eq_false]
  unfold NoBreaks
  simp

/-- Lines with a blank in front all go on with the last field. -/
theorem read_others (others tail : List Text) (fs : List Text) :
    ∀ f : Text, (∀ x ∈ others, NoBreaks x ∧ ∃ w x', x = w :: x' ∧ isWSP w = true) →
      read delimiters (some (fs ++ [f])) (others ++ tail)
        = read delimiters (some (fs ++ [f ++ others.flatten])) tail := by
  induction others with
  | nil =>
      intro f _
      rw [List.flatten_nil, List.append_nil, List.nil_append]
  | cons x others ih =>
      intro f h
      obtain ⟨hbreaks, w, x', rfl, hw⟩ := h x List.mem_cons_self
      have hadd : addLine (fs ++ [f]) (w :: x') = some (fs ++ [f ++ w :: x']) := by
        unfold addLine
        rw [if_neg (by rw [any_isBreak_iff.mpr hbreaks]; decide), if_pos (by simp [hw]), goOn_concat]
      rw [List.cons_append, read, if_neg (List.cons_ne_nil _ _), hadd, Option.bind_some,
        ih _ fun y hy => h y (List.mem_cons_of_mem _ hy), List.flatten_cons, List.append_assoc]

/-- **A folded field is read**, and comes unfolded. -/
theorem read_field {c : Char} {f : Text} (hc : Solid c) (hf : folded (c :: f) = true) (t : Text)
    (fs : List Text) :
    read delimiters (some fs) (lines (c :: f ++ crlf ++ t))
      = read delimiters (some (fs ++ [unfolded (c :: f)])) (lines t) := by
  obtain ⟨l, ls, hl⟩ := foldedLines _ hf
  obtain ⟨m, ms, hm⟩ := exists_lines f
  have hcons := lines_cons (c := c) (fun t' hcr _ => by rw [hcr] at hc; exact absurd hc (by decide)) hm
  obtain ⟨hfirst, hothers⟩ := List.cons.inj (hl.lines.symm.trans hcons)
  have hadd : addLine fs (c :: m) = some (fs ++ [c :: m]) := by
    unfold addLine
    rw [if_neg (by rw [any_isBreak_iff.mpr (hfirst ▸ hl.first)]; decide), if_neg (by simp [hc.1])]
  rw [lines_append_crlf, hl.lines, hfirst, List.cons_append, read, if_neg (List.cons_ne_nil _ _), hadd,
    Option.bind_some, read_others ls _ _ _ hl.others, hl.unfolded, hfirst]

/-- Fields as they are written. -/
def write (fields : List Text) : Text := fields.flatMap fun f => f ++ crlf

/-- The text can be written as a field. -/
structure Writable (f : Text) : Prop where
  solid : ∃ c t, f = c :: t ∧ Solid c
  folded : folded f = true

/-- **Folded fields are read back.** -/
theorem read_fields (fields : List Text) (t : Text) :
    ∀ fs, (∀ f ∈ fields, Writable f) → read delimiters (some fs) (lines (write fields ++ t))
      = read delimiters (some (fs ++ fields.map unfolded)) (lines t) := by
  induction fields with
  | nil =>
      intro fs _
      rw [List.map_nil, List.append_nil]
      rfl
  | cons f fields ih =>
      intro fs h
      obtain ⟨⟨c, f', rfl, hc⟩, hfolded⟩ := h f List.mem_cons_self
      have hwrite : write ((c :: f') :: fields) ++ t = c :: f' ++ crlf ++ (write fields ++ t) := by
        unfold write
        rw [List.flatMap_cons, List.append_assoc]
      rw [hwrite, read_field hc hfolded, ih _ fun g hg => h g (List.mem_cons_of_mem _ hg), List.map_cons,
        List.append_assoc]
      rfl

/-- **A section**: its fields, and an empty line. -/
theorem read_section {fields : List Text} (h : ∀ f ∈ fields, Writable f) (t : Text) :
    read delimiters (some []) (lines (write fields ++ crlf ++ t))
      = (read delimiters none (lines t)).map (fields.map unfolded :: ·) := by
  rw [List.append_assoc, read_fields fields _ _ h]
  show read delimiters _ ([] :: lines t) = _
  rw [read, if_pos rfl, List.nil_append]

/-- What is behind a header is skipped line by line. -/
theorem read_skip {l : Text} (h : NoBreaks l) (hl : l ∉ delimiters) (t : Text) :
    read delimiters none (lines (l ++ crlf ++ t)) = read delimiters none (lines t) := by
  rw [lines_append_crlf, lines_of_noBreaks h]
  show read delimiters none (l :: lines t) = _
  rw [read, if_neg hl]

theorem read_delimiter {l : Text} (h : NoBreaks l) (hl : l ∈ delimiters) (t : Text) :
    read delimiters none (lines (l ++ crlf ++ t)) = read delimiters (some []) (lines t) := by
  rw [lines_append_crlf, lines_of_noBreaks h]
  show read delimiters none (l :: lines t) = _
  rw [read, if_pos hl]

/-! ### What is read -/

theorem noBreaks_goOn {fs : List Text} {l : Text} (hfs : ∀ f ∈ fs, NoBreaks f) (hl : NoBreaks l) :
    ∀ f ∈ goOn fs l, NoBreaks f := by
  induction fs with
  | nil =>
      intro f hf
      rw [List.mem_singleton.mp hf]
      exact hl
  | cons g fs ih =>
      intro f hf
      cases fs with
      | nil =>
          rw [List.mem_singleton.mp hf]
          exact noBreaks_append_iff.mpr ⟨hfs g List.mem_cons_self, hl⟩
      | cons h fs =>
          rcases List.mem_cons.mp hf with rfl | hf
          · exact hfs f List.mem_cons_self
          · exact ih (fun x hx => hfs x (List.mem_cons_of_mem _ hx)) f hf

theorem noBreaks_addLine {fs fs' : List Text} {l : Text} (hfs : ∀ f ∈ fs, NoBreaks f)
    (h : addLine fs l = some fs') : ∀ f ∈ fs', NoBreaks f := by
  unfold addLine at h
  split at h
  · exact absurd h.symm (Option.some_ne_none fs')
  · rename_i hbreaks
    have hl : NoBreaks l := any_isBreak_iff.mp (Bool.eq_false_iff.mpr hbreaks)
    split at h
    · obtain rfl := Option.some.inj h
      exact noBreaks_goOn hfs hl
    · obtain rfl := Option.some.inj h
      intro f hf
      rcases List.mem_append.mp hf with hf | hf
      · exact hfs f hf
      · rw [List.mem_singleton.mp hf]
        exact hl

/-- **No CR and no LF is read.** -/
theorem noBreaks_of_read (ls : List Text) : ∀ {mode sections}, read delimiters mode ls = some sections →
    (∀ fs, mode = some fs → ∀ f ∈ fs, NoBreaks f) → ∀ fs ∈ sections, ∀ f ∈ fs, NoBreaks f := by
  induction ls with
  | nil =>
      intro mode sections h hmode fs hfs
      cases mode with
      | none =>
          obtain rfl := Option.some.inj h
          exact absurd hfs List.not_mem_nil
      | some gs =>
          obtain rfl := Option.some.inj h
          rw [List.mem_singleton.mp hfs]
          exact hmode gs rfl
  | cons l ls ih =>
      intro mode sections h hmode
      cases mode with
      | none =>
          rw [read] at h
          split at h
          · exact ih h fun gs hgs f hf => by
              obtain rfl := Option.some.inj hgs
              exact absurd hf List.not_mem_nil
          · exact ih h fun gs hgs => absurd hgs.symm (Option.some_ne_none gs)
      | some gs =>
          rw [read] at h
          split at h
          · obtain ⟨later, hlater, rfl⟩ := Option.map_eq_some_iff.mp h
            intro fs hfs
            rcases List.mem_cons.mp hfs with rfl | hfs
            · exact hmode fs rfl
            · exact ih hlater (fun gs hgs => absurd hgs.symm (Option.some_ne_none gs)) fs hfs
          · obtain ⟨gs', hadd, hlater⟩ := Option.bind_eq_some_iff.mp h
            refine ih hlater fun hs hhs => ?_
            obtain rfl := Option.some.inj hhs
            exact noBreaks_addLine (hmode gs rfl) hadd

/-- **Texts that are read are folded.** -/
theorem folded_of_read {ls : List Text} {sections : List (List Text)}
    (h : read delimiters (some []) ls = some (sections.map fun fs => fs.map unfolded)) :
    ∀ fs ∈ sections, ∀ f ∈ fs, folded f = true := by
  intro fs hfs f hf
  refine folded_of_noBreaks f (noBreaks_of_read ls h ?_ _ (List.mem_map_of_mem hfs) _ (List.mem_map_of_mem hf))
  intro gs hgs g hg
  obtain rfl := Option.some.inj hgs
  exact absurd hg List.not_mem_nil

end FlyMail.Fields
