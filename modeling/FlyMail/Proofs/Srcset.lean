/-
Images among the candidates of a `srcset`.

The pieces a value is split into end at the commas that are not behind `;base64`.  Where all commas within
the addresses are behind one, a piece is one candidate, or some of which each but the last ends with the
marker; only the first of these is looked at, and it is no image.  Where some address has another comma, it
is cut there, and if anything is converted, the address is in no candidate of the result.
-/
import FlyMail.Lib.Srcset
import FlyMail.Proofs.DataUrl

namespace FlyMail.Send

open Srcset (Item Candidate Follows Authored render parse)

/-! ### The marker -/

/-- The character is one of the marker's, in any case. -/
def Mark (c : Char) : Prop := c.toLower ∈ base64Marker

theorem endsWith_iff {cur : Text} : endsWithBase64Marker cur = true ↔
    ∃ x m, cur = x ++ m ∧ m.map Char.toLower = base64Marker := by
  unfold endsWithBase64Marker
  rw [beq_iff_eq]
  constructor
  · exact fun h => ⟨cur.take (cur.length - 7), _, (List.take_append_drop _ _).symm, h⟩
  · rintro ⟨x, m, rfl, h⟩
    have hlen : m.length = 7 := by
      have hlength := congrArg List.length h
      rw [List.length_map] at hlength
      exact hlength
    have hdrop : (x ++ m).length - 7 = x.length := by
      rw [List.length_append, hlen, Nat.add_sub_cancel]
    rw [hdrop, List.drop_left, h]

theorem endsWith_append {x a : Text} (h : endsWithBase64Marker a = true) : endsWithBase64Marker (x ++ a) = true := by
  obtain ⟨y, m, rfl, hm⟩ := endsWith_iff.mp h
  exact endsWith_iff.mpr ⟨x ++ y, m, (List.append_assoc _ _ _).symm, hm⟩

/-- The marker does not reach over a character that is none of its own. -/
theorem endsWith_of_append {x a : Text} (hx : ∀ c ∈ x.getLast?, ¬ Mark c)
    (h : endsWithBase64Marker (x ++ a) = true) : endsWithBase64Marker a = true := by
  obtain ⟨y, m, heq, hm⟩ := endsWith_iff.mp h
  rcases List.append_eq_append_iff.mp heq with ⟨w, rfl, rfl⟩ | ⟨w, rfl, rfl⟩
  · exact endsWith_iff.mpr ⟨w, m, rfl, hm⟩
  · cases hw : w.getLast? with
    | none =>
      obtain rfl := List.getLast?_eq_none_iff.mp hw
      exact endsWith_iff.mpr ⟨[], a, rfl, hm⟩
    | some c =>
      have hlast : (y ++ w).getLast? = some c := by
        rw [List.getLast?_append, hw]
        rfl
      refine absurd ?_ (hx c hlast)
      unfold Mark
      rw [← hm]
      exact List.mem_map.mpr ⟨c, List.mem_append_left _ (List.mem_of_getLast? hw), rfl⟩

theorem endsWith_append_eq {x a : Text} (hx : ∀ c ∈ x.getLast?, ¬ Mark c) :
    endsWithBase64Marker (x ++ a) = endsWithBase64Marker a := by
  cases ha : endsWithBase64Marker a with
  | true => exact endsWith_append ha
  | false =>
    by_contra h
    rw [endsWith_of_append hx (by simpa using h)] at ha
    cases ha

theorem comma_not_mark : ¬ Mark ',' := by
  unfold Mark
  decide

/-- A blank is none of the marker. -/
theorem space_not_mark {c : Char} (h : Text.isSpace c = true) : ¬ Mark c := by
  have hmarker : ∀ d ∈ base64Marker, Text.isSpace d = false := by decide
  intro hmark
  have hlower := hmarker _ hmark
  rw [Text.isSpace_toLower, h] at hlower
  cases hlower

theorem isSpace_of_isBlank {c : Char} (h : Srcset.isBlank c = true) : Text.isSpace c = true ∧ isASCIISpace c = true := by
  have hcases : c = ' ' ∨ c = '\t' ∨ c = '\n' ∨ c = Char.ofNat 12 ∨ c = '\r' := by
    simp only [Srcset.isBlank, Bool.or_eq_true, beq_iff_eq] at h
    rcases h with (((h | h) | h) | h) | h
    · exact .inl h
    · exact .inr (.inl h)
    · exact .inr (.inr (.inl h))
    · exact .inr (.inr (.inr (.inl (by rw [← h, Char.ofNat_toNat]))))
    · exact .inr (.inr (.inr (.inr h)))
  rcases hcases with rfl | rfl | rfl | rfl | rfl <;> decide

/-! ### Tight texts -/

/-- Every comma is behind the marker. -/
def Tight (t : Text) : Prop := ∀ a b, t = a ++ ',' :: b → endsWithBase64Marker a = true

theorem tight_nil : Tight [] := fun a b h => absurd h.symm (List.append_ne_nil_of_right_ne_nil a (List.cons_ne_nil _ b))

/-- What is read behind a character that is none of the marker's is tight if the whole is. -/
theorem Tight.of_append {x t y : Text} (h : Tight (x ++ t ++ y)) (hx : ∀ c ∈ x.getLast?, ¬ Mark c) : Tight t := by
  rintro a b rfl
  refine endsWith_of_append hx (h (x ++ a) (b ++ y) ?_)
  simp

/-- Text without commas on both sides keeps a text tight. -/
theorem Tight.append {x t y : Text} (h : Tight t) (hx : ',' ∉ x) (hy : ',' ∉ y) : Tight (x ++ t ++ y) := by
  intro a b heq
  rw [List.append_assoc] at heq
  rcases List.append_eq_append_iff.mp heq with ⟨w, rfl, hw⟩ | ⟨w, rfl, hw⟩
  · rcases List.append_eq_append_iff.mp hw with ⟨v, rfl, hv⟩ | ⟨v, rfl, hv⟩
    · exact absurd (hv ▸ List.mem_append_right v List.mem_cons_self) hy
    · cases v with
      | nil =>
        rw [List.nil_append] at hv
        exact absurd (hv ▸ List.mem_cons_self) hy
      | cons c v =>
        obtain ⟨rfl, -⟩ := List.cons.inj hv
        exact endsWith_append (h w v rfl)
  · cases w with
    | nil =>
      rw [List.nil_append] at hw
      cases t with
      | nil =>
        rw [List.nil_append] at hw
        exact absurd (hw ▸ List.mem_cons_self) hy
      | cons c t =>
        obtain ⟨rfl, -⟩ := List.cons.inj hw
        have hnil := h [] t rfl
        exact absurd hnil (by decide)
    | cons c w =>
      obtain ⟨rfl, -⟩ := List.cons.inj hw
      exact absurd (List.mem_append_right a List.mem_cons_self) hx

/-! ### Pieces -/

/-- The pieces of a text in front of another: the last of them goes on. -/
theorem splitFrom_append (t : Text) : ∀ cur, ∃ ps q, splitFrom cur t = ps ++ [q] ∧
    ∀ u, splitFrom cur (t ++ u) = ps ++ splitFrom q u := by
  induction t with
  | nil => exact fun cur => ⟨[], cur, rfl, fun u => rfl⟩
  | cons c t ih =>
    intro cur
    by_cases hc : c = ',' ∧ endsWithBase64Marker cur = false
    · obtain ⟨ps, q, hps, hrest⟩ := ih []
      refine ⟨cur :: ps, q, ?_, fun u => ?_⟩
      · rw [splitFrom, if_pos hc, hps]
        rfl
      · rw [List.cons_append, splitFrom, if_pos hc, hrest]
        rfl
    · obtain ⟨ps, q, hps, hrest⟩ := ih (cur ++ [c])
      refine ⟨ps, q, ?_, fun u => ?_⟩
      · rw [splitFrom, if_neg hc, hps]
      · rw [List.cons_append, splitFrom, if_neg hc, hrest]

theorem Tight.concat {t : Text} {c : Char} (h : Tight t) (hc : c = ',' → endsWithBase64Marker t = true) :
    Tight (t ++ [c]) := by
  intro a b heq
  rcases List.append_eq_append_iff.mp heq with ⟨w, rfl, hw⟩ | ⟨w, rfl, hw⟩
  · cases w with
    | nil =>
      obtain ⟨rfl, -⟩ := List.cons.inj hw
      rw [List.append_nil]
      exact hc rfl
    | cons d w =>
      exact absurd (List.cons.inj hw).2.symm (List.append_ne_nil_of_right_ne_nil w (List.cons_ne_nil _ b))
  · cases w with
    | nil =>
      rw [List.nil_append] at hw
      obtain ⟨rfl, -⟩ := List.cons.inj hw
      rw [List.append_nil] at hc
      exact hc rfl
    | cons d w =>
      obtain ⟨rfl, -⟩ := List.cons.inj hw
      exact h a w rfl

/-- All pieces are tight. -/
theorem tight_of_mem_splitFrom (t : Text) : ∀ cur, Tight cur → ∀ p ∈ splitFrom cur t, Tight p := by
  induction t with
  | nil =>
    intro cur hcur p hp
    rwa [List.mem_singleton.mp hp]
  | cons c t ih =>
    intro cur hcur p hp
    rw [splitFrom] at hp
    by_cases hc : c = ',' ∧ endsWithBase64Marker cur = false
    · rw [if_pos hc] at hp
      rcases List.mem_cons.mp hp with rfl | hp
      · exact hcur
      · exact ih [] tight_nil p hp
    · rw [if_neg hc] at hp
      refine ih _ (hcur.concat fun hcomma => ?_) p hp
      by_contra hends
      exact hc ⟨hcomma, by simpa using hends⟩

/-- No piece ends within a tight text. -/
theorem splitFrom_tight_append (u : Text) {cur t : Text} (h : Tight (cur ++ t)) :
    splitFrom cur (t ++ u) = splitFrom (cur ++ t) u := by
  induction t generalizing cur with
  | nil => rw [List.append_nil]; rfl
  | cons c t ih =>
    have hc : ¬ (c = ',' ∧ endsWithBase64Marker cur = false) := by
      rintro ⟨rfl, hends⟩
      rw [h cur t rfl] at hends
      cases hends
    have hcons : cur ++ c :: t = cur ++ [c] ++ t := by simp
    rw [List.cons_append, splitFrom, if_neg hc, ih (hcons ▸ h), hcons]

/-- A tight text is one piece. -/
theorem splitFrom_of_tight {t : Text} (h : Tight t) : splitFrom [] t = [t] := by
  have hsplit : splitFrom [] (t ++ []) = splitFrom t [] := @splitFrom_tight_append [] [] t h
  rwa [List.append_nil] at hsplit

theorem splitFrom_comma_from {t : Text} : ∀ {cur : Text}, endsWithBase64Marker (cur ++ t) = false →
    ∀ u, splitFrom cur (t ++ ',' :: u) = splitFrom cur t ++ splitFrom [] u := by
  induction t with
  | nil =>
    intro cur h u
    rw [List.append_nil] at h
    have hcut : splitFrom cur (',' :: u) = cur :: splitFrom [] u := by rw [splitFrom, if_pos ⟨rfl, h⟩]
    exact hcut
  | cons c t ih =>
    intro cur h u
    rw [List.cons_append, splitFrom, splitFrom]
    have hcons : cur ++ c :: t = (cur ++ [c]) ++ t := by simp
    by_cases hc : c = ',' ∧ endsWithBase64Marker cur = false
    · have hlast : ∀ d ∈ (cur ++ [c]).getLast?, ¬ Mark d := by
        intro d hd
        rw [List.getLast?_concat] at hd
        obtain rfl := Option.some.inj hd
        rw [hc.1]
        exact comma_not_mark
      have ht : endsWithBase64Marker ([] ++ t) = false := by
        rw [hcons, endsWith_append_eq hlast] at h
        exact h
      rw [if_pos hc, if_pos hc, ih ht]
      rfl
    · rw [if_neg hc, if_neg hc]
      exact ih (hcons ▸ h) u

/-- A comma that is not behind the marker ends a piece. -/
theorem splitFrom_comma {t : Text} (h : endsWithBase64Marker t = false) (u : Text) :
    splitFrom [] (t ++ ',' :: u) = splitFrom [] t ++ splitFrom [] u :=
  @splitFrom_comma_from t [] h u

/-- What is in front of a piece goes with it. -/
theorem splitFrom_shift {x : Text} (hx : ∀ c ∈ x.getLast?, ¬ Mark c) (u : Text) : ∀ y,
    splitFrom (x ++ y) u = (splitFrom y u).modifyHead (x ++ ·) := by
  induction u with
  | nil => exact fun y => rfl
  | cons c u ih =>
    intro y
    rw [splitFrom, splitFrom, endsWith_append_eq hx]
    by_cases hc : c = ',' ∧ endsWithBase64Marker y = false
    · rw [if_pos hc, if_pos hc]
      rfl
    · rw [if_neg hc, if_neg hc, List.append_assoc, ih]

/-- The first piece goes on from what is read. -/
theorem exists_splitFrom (u : Text) : ∀ cur, ∃ s ps, splitFrom cur u = (cur ++ s) :: ps ∧ s <+: u := by
  induction u with
  | nil => exact fun cur => ⟨[], [], by rw [List.append_nil]; rfl, List.prefix_refl _⟩
  | cons c u ih =>
    intro cur
    rw [splitFrom]
    by_cases hc : c = ',' ∧ endsWithBase64Marker cur = false
    · rw [if_pos hc]
      exact ⟨[], _, by rw [List.append_nil], List.nil_prefix⟩
    · obtain ⟨s, ps, hsplit, hs⟩ := ih (cur ++ [c])
      rw [if_neg hc, hsplit]
      exact ⟨c :: s, ps, by simp, List.cons_prefix_cons.mpr ⟨rfl, hs⟩⟩

/-- The address of a piece and what is behind it. -/
theorem splitCandidate_eq {w u z : Text} (hw : ∀ c ∈ w, isASCIISpace c = true) (hne : u ≠ [])
    (hu : ∀ c ∈ u, isASCIISpace c = false) (hz : ∀ c ∈ z.head?, isASCIISpace c = true) :
    splitCandidate (w ++ u ++ z) = (u, Text.trimSpace z) := by
  have hrest : (w ++ u ++ z).dropWhile isASCIISpace = u ++ z := by
    obtain ⟨c, u, rfl⟩ := List.exists_cons_of_ne_nil hne
    rw [List.append_assoc, List.dropWhile_append_of_pos hw, List.cons_append, List.dropWhile_cons_of_neg]
    simp [hu c List.mem_cons_self]
  have htake : (u ++ z).takeWhile (fun c => !isASCIISpace c) = u := by
    rw [List.takeWhile_append_of_pos fun c hc => by simp [hu c hc]]
    cases z with
    | nil => simp
    | cons c z => rw [List.takeWhile_cons_of_neg (by simp [hz c rfl]), List.append_nil]
  have hdrop : (u ++ z).dropWhile (fun c => !isASCIISpace c) = z := by
    rw [List.dropWhile_append_of_pos fun c hc => by simp [hu c hc]]
    cases z with
    | nil => rfl
    | cons c z => rw [List.dropWhile_cons_of_neg (by simp [hz c rfl])]
  unfold splitCandidate
  rw [hrest]
  dsimp only
  rw [htake, hdrop]

/-! ### Items -/

theorem isASCIISpace_eq_false {c : Char} (h : Srcset.isBlank c = false ∧ c.toNat ≠ 11) : isASCIISpace c = false := by
  obtain ⟨hblank, hvt⟩ := h
  simp only [Srcset.isBlank, Bool.or_eq_false_iff, beq_eq_false_iff_ne] at hblank
  obtain ⟨⟨⟨⟨hspace, htab⟩, hlf⟩, hff⟩, hcr⟩ := hblank
  have hnat {d : Char} (h : c ≠ d) : c.toNat ≠ d.toNat := fun heq => h (Char.toNat_inj.mp heq)
  have h9 : c.toNat ≠ 9 := hnat htab
  have h10 : c.toNat ≠ 10 := hnat hlf
  have h13 : c.toNat ≠ 13 := hnat hcr
  simp only [isASCIISpace, Bool.or_eq_false_iff, beq_eq_false_iff_ne, Bool.and_eq_false_iff, decide_eq_false_iff_not]
  exact ⟨hspace, by omega⟩

theorem isSpace_of_isDescriptorChar {c : Char} (h : Srcset.isDescriptorChar c = true) : Text.isSpace c = false := by
  have hbounds : 33 ≤ c.toNat ∧ c.toNat < 128 := by
    simp only [Srcset.isDescriptorChar, Bool.or_eq_true, Bool.and_eq_true, decide_eq_true_eq, beq_iff_eq,
      Char.le_def, UInt32.le_iff_toNat_le] at h
    rcases h with ((((⟨hlow, hhigh⟩ | ⟨hlow, hhigh⟩) | rfl) | rfl) | rfl) | rfl
    · change 48 ≤ c.toNat at hlow
      change c.toNat ≤ 57 at hhigh
      omega
    · change 97 ≤ c.toNat at hlow
      change c.toNat ≤ 122 at hhigh
      omega
    all_goals decide
  exact Text.isSpace_of_ascii hbounds.1 hbounds.2

theorem comma_notMem_of_blank {t : Text} (h : ∀ c ∈ t, Srcset.isBlank c = true) : ',' ∉ t :=
  fun hmem => absurd (h _ hmem) (by decide)

theorem not_mark_of_blank {t : Text} (h : ∀ c ∈ t, Srcset.isBlank c = true) : ∀ c ∈ t.getLast?, ¬ Mark c :=
  fun _ hc => space_not_mark (isSpace_of_isBlank (h _ (List.mem_of_getLast? hc))).1

theorem semicolon_mem {t : Text} (h : endsWithBase64Marker t = true) : ';' ∈ t := by
  obtain ⟨x, m, rfl, hm⟩ := endsWith_iff.mp h
  obtain ⟨c, hc, hlower⟩ := List.mem_map.mp (hm ▸ (by decide : ';' ∈ base64Marker))
  have hsemicolon : c = ';' := by
    rcases Text.toLower_cases c with heq | ⟨hlow, hhigh, heq⟩
    · rwa [heq] at hlower
    · have hnat : c.toLower.toNat = 59 := by
        rw [hlower]
        rfl
      omega
  exact List.mem_append_right x (hsemicolon ▸ hc)

section item

variable {it : Item}

/-- What is behind the address. -/
theorem forall_tail (h : it.Valid) {P : Char → Prop} (hblank : ∀ c, Srcset.isBlank c = true → P c)
    (hdescriptor : ∀ c, Srcset.isDescriptorChar c = true → P c) : ∀ c ∈ it.gap ++ it.descriptor ++ it.trail, P c := by
  intro c hc
  simp only [List.mem_append] at hc
  rcases hc with (hc | hc) | hc
  · exact hblank c (h.gap c hc)
  · exact hdescriptor c (h.descriptor c hc)
  · exact hblank c (h.trail c hc)

theorem text_eq (it : Item) : it.text = it.lead ++ it.url ++ (it.gap ++ it.descriptor ++ it.trail) := by
  simp [Item.text]

theorem tight_text_iff (h : it.Valid) : Tight it.text ↔ Tight it.url := by
  rw [text_eq]
  refine ⟨fun ht => ht.of_append (not_mark_of_blank h.lead), fun ht => ht.append (comma_notMem_of_blank h.lead) ?_⟩
  have htail := forall_tail (P := (· ≠ ',')) h (fun c hc => by rintro rfl; exact absurd hc (by decide))
    (fun c hc => by rintro rfl; exact absurd hc (by decide))
  exact fun hmem => htail _ hmem rfl

/-- An item ends with the marker only where its address does. -/
theorem bare_of_endsWith (h : it.Valid) (hends : endsWithBase64Marker it.text = true) :
    it.Bare ∧ it.text = it.lead ++ it.url ∧ endsWithBase64Marker it.url = true := by
  have hbare : it.Bare := by
    by_contra hgap
    have hassoc : it.text = (it.lead ++ it.url ++ it.gap) ++ (it.descriptor ++ it.trail) := by simp [Item.text]
    have hlast : ∀ c ∈ (it.lead ++ it.url ++ it.gap).getLast?, ¬ Mark c := by
      intro c hc
      rw [List.getLast?_append_of_ne_nil _ hgap] at hc
      exact not_mark_of_blank h.gap c hc
    rw [hassoc, endsWith_append_eq hlast] at hends
    rcases List.mem_append.mp (semicolon_mem hends) with hmem | hmem
    · exact absurd (h.descriptor _ hmem) (by decide)
    · exact absurd (h.trail _ hmem) (by decide)
  have hdescriptor : it.descriptor = [] := by_contra fun hne => h.gap_ne_nil hne hbare
  have htext : it.text = it.lead ++ it.url := by
    have hgap : it.gap = [] := hbare
    rw [Item.text, hgap, hdescriptor, h.trail_nil hdescriptor]
    simp
  rw [htext, endsWith_append_eq (not_mark_of_blank h.lead)] at hends
  exact ⟨hbare, htext, hends⟩

theorem lead_space (h : it.Valid) : ∀ c ∈ it.lead, isASCIISpace c = true :=
  fun c hc => (isSpace_of_isBlank (h.lead c hc)).2

theorem url_space (h : it.Valid) : ∀ c ∈ it.url, isASCIISpace c = false :=
  fun c hc => isASCIISpace_eq_false (h.url c hc)

/-- An item's text is taken apart as it was put together. -/
theorem splitCandidate_text (h : it.Valid) : splitCandidate it.text = (it.url, it.descriptor) := by
  have htail : ∀ c ∈ (it.gap ++ it.descriptor ++ it.trail).head?, isASCIISpace c = true := by
    intro c hc
    cases hgap : it.gap with
    | nil =>
      have hdescriptor : it.descriptor = [] := by_contra fun hne => h.gap_ne_nil hne hgap
      rw [hgap, hdescriptor, h.trail_nil hdescriptor] at hc
      cases hc
    | cons b g =>
      rw [hgap] at hc
      obtain rfl : b = c := Option.some.inj hc
      exact (isSpace_of_isBlank (h.gap b (hgap ▸ List.mem_cons_self))).2
  rw [text_eq, splitCandidate_eq (lead_space h) h.url_ne_nil (url_space h) htail,
    Text.trimSpace_between (fun c hc => (isSpace_of_isBlank (h.gap c hc)).1) (fun c hc => isSpace_of_isDescriptorChar (h.descriptor c hc))
      fun c hc => (isSpace_of_isBlank (h.trail c hc)).1]

end item

/-! ### Groups -/

/-- The candidates that are behind one another in one piece. -/
def groups : List Item → List (List Item)
  | [] => []
  | [a] => [[a]]
  | a :: b :: rest =>
      if endsWithBase64Marker a.text then Text.consFirst a (groups (b :: rest)) else [a] :: groups (b :: rest)

theorem exists_groups (a : Item) (rest : List Item) : ∃ g gs, groups (a :: rest) = (a :: g) :: gs := by
  cases rest with
  | nil => exact ⟨[], [], rfl⟩
  | cons b rest =>
    rw [groups]
    split
    · cases groups (b :: rest) with
      | nil => exact ⟨[], [], rfl⟩
      | cons g gs => exact ⟨g, gs, rfl⟩
    · exact ⟨[], _, rfl⟩

theorem groups_cons {a b : Item} {rest g : List Item} {gs : List (List Item)}
    (h : groups (b :: rest) = (b :: g) :: gs) : groups (a :: b :: rest) =
      if endsWithBase64Marker a.text then (a :: b :: g) :: gs else [a] :: (b :: g) :: gs := by
  rw [groups, h]
  rfl

theorem flatten_groups (items : List Item) : (groups items).flatten = items := by
  induction items with
  | nil => rfl
  | cons a rest ih =>
    cases rest with
    | nil => rfl
    | cons b rest =>
      obtain ⟨g, gs, hgroups⟩ := exists_groups b rest
      rw [hgroups] at ih
      rw [groups_cons hgroups]
      split
      · exact congrArg (a :: ·) ih
      · exact congrArg (a :: ·) ih

theorem groups_ne_nil (items : List Item) : ∀ g ∈ groups items, g ≠ [] := by
  induction items with
  | nil => exact fun g hg => absurd hg List.not_mem_nil
  | cons a rest ih =>
    cases rest with
    | nil =>
      intro g hg
      rw [List.mem_singleton.mp hg]
      exact List.cons_ne_nil _ _
    | cons b rest =>
      obtain ⟨g, gs, hgroups⟩ := exists_groups b rest
      rw [hgroups] at ih
      rw [groups_cons hgroups]
      intro g' hg'
      split at hg'
      · rcases List.mem_cons.mp hg' with rfl | hg'
        · exact List.cons_ne_nil _ _
        · exact ih g' (List.mem_cons_of_mem _ hg')
      · rcases List.mem_cons.mp hg' with rfl | hg'
        · exact List.cons_ne_nil _ _
        · exact ih g' hg'

/-- Of two in one group the first ends with the marker. -/
theorem endsWith_of_mem_groups {items : List Item} {a b : Item} {g : List Item} (h : a :: b :: g ∈ groups items) :
    endsWithBase64Marker a.text = true := by
  induction items with
  | nil => exact absurd h List.not_mem_nil
  | cons x rest ih =>
    cases rest with
    | nil => exact absurd (List.cons.inj (List.mem_singleton.mp h)).2 (List.cons_ne_nil _ _)
    | cons y rest =>
      obtain ⟨g', gs, hgroups⟩ := exists_groups y rest
      rw [hgroups] at ih
      rw [groups_cons hgroups] at h
      split at h
      · rename_i hends
        rcases List.mem_cons.mp h with h | h
        · obtain ⟨rfl, -⟩ := List.cons.inj h
          exact hends
        · exact ih (List.mem_cons_of_mem _ h)
      · rcases List.mem_cons.mp h with h | h
        · exact absurd (List.cons.inj h).2 (List.cons_ne_nil _ _)
        · exact ih h

/-- What is behind the marker is what is not first in its group. -/
theorem isChain_iff_groups {C : Item → Prop} (items : List Item) :
    items.IsChain (fun a b => endsWithBase64Marker a.text = true → ¬ C b) ↔
      ∀ g ∈ groups items, ∀ b ∈ g.tail, ¬ C b := by
  induction items with
  | nil => exact ⟨fun _ g hg => absurd hg List.not_mem_nil, fun _ => .nil⟩
  | cons a rest ih =>
    cases rest with
    | nil =>
      refine ⟨fun _ g hg b hb => ?_, fun _ => .singleton a⟩
      rw [List.mem_singleton.mp hg] at hb
      exact absurd hb List.not_mem_nil
    | cons b rest =>
      obtain ⟨g, gs, hgroups⟩ := exists_groups b rest
      rw [hgroups] at ih
      rw [groups_cons hgroups, List.isChain_cons_cons, ih]
      by_cases hends : endsWithBase64Marker a.text = true
      · rw [if_pos hends]
        simp [hends, and_assoc]
      · rw [if_neg hends]
        simp [hends]

/-- **A piece is a group**, where all commas of the addresses are behind the marker. -/
theorem splitSrcset_render {items : List Item} (h : Authored items) (htight : ∀ it ∈ items, Tight it.url) :
    splitSrcset (render items) = (groups items).map render := by
  unfold splitSrcset
  induction items with
  | nil => exact absurd rfl h.ne_nil
  | cons a rest ih =>
    have ha : Tight a.text := (tight_text_iff (h.valid a List.mem_cons_self)).mpr (htight a List.mem_cons_self)
    cases rest with
    | nil =>
      rw [Srcset.render_singleton, splitFrom_of_tight ha]
      simp [groups, Srcset.render_singleton]
    | cons b rest =>
      have hrest := ih h.tail fun x hx => htight x (List.mem_cons_of_mem _ hx)
      obtain ⟨g, gs, hgroups⟩ := exists_groups b rest
      rw [hgroups] at hrest
      rw [Srcset.render_cons, groups_cons hgroups]
      cases hends : endsWithBase64Marker a.text with
      | false =>
        rw [splitFrom_comma hends, splitFrom_of_tight ha, hrest, if_neg Bool.false_ne_true]
        simp [Srcset.render_singleton]
      | true =>
        have hcomma : Tight ([] ++ (a.text ++ [','])) := ha.concat fun _ => hends
        have hassoc : a.text ++ ',' :: render (b :: rest) = (a.text ++ [',']) ++ render (b :: rest) := by simp
        have hlast : ∀ c ∈ (a.text ++ [',']).getLast?, ¬ Mark c := by
          intro c hc
          rw [List.getLast?_concat] at hc
          rw [← Option.some.inj hc]
          exact comma_not_mark
        have hshift := splitFrom_shift hlast (render (b :: rest)) []
        rw [List.append_nil] at hshift
        rw [hassoc, splitFrom_tight_append _ hcomma, List.nil_append, hshift, hrest, if_pos rfl]
        simp [Srcset.render_cons]

theorem authored_of_mem_groups {items g : List Item} (h : Authored items) (hg : g ∈ groups items) : Authored g := by
  have hpart : g <:+: items := flatten_groups items ▸ List.infix_of_mem_flatten hg
  exact ⟨groups_ne_nil items g hg, fun it hit => h.valid it (hpart.subset hit), h.follows.infix hpart⟩

/-! ### What becomes of a piece -/

/-- The address is that of an image that can be converted. The marker is in ASCII letters, as it is in a
`data:` URL; for the pattern a long s would do. -/
def Convertible (url : Text) : Prop := (imageOf url).isSome = true ∧ Tight url

/-- The candidate is what it was or, if it was an image, refers to an attachment with its content. -/
structure Rewritten (atts : List Attachment) (it : Item) (out : Candidate) : Prop where
  descriptors : out.descriptors = it.candidate.descriptors
  kept : ¬ Convertible it.url → out.url = it.url
  replaced : ∀ subtype content, imageOf it.url = some (subtype, content) → Tight it.url →
    ∃ att ∈ atts, out.url = cidOf att.contentID ∧ att.content = content

/-- The candidate with a reference for its address. -/
def refItem (random : Bytes) (descriptor : Text) : Item :=
  ⟨[], cidOf (newContentID random), if descriptor = [] then [] else [' '], descriptor, []⟩

/-- A piece is left, or there is a reference in it. -/
def Written (cand : Text) (out : Text × Bool) (c : InlineConv) : Prop :=
  (imageOf (splitCandidate cand).1 = none ∧ out = (cand, false)) ∨
    ∃ subtype content random, imageOf (splitCandidate cand).1 = some (subtype, content) ∧
      imageAttachment (newContentID random) subtype content ∈ c.atts ∧
      out = ((refItem random (splitCandidate cand).2).text, true)

theorem convertCandidate_written {random : Nat → Bytes} {cand : Text} {c : InlineConv}
    (h : (convertCandidate random cand c).2.err = none) : c.err = none ∧
      c.Extends (convertCandidate random cand c).2 ∧
      Written cand (convertCandidate random cand c).1 (convertCandidate random cand c).2 := by
  have hsnd : (convertCandidate random cand c).2 = (convertURL random (splitCandidate cand).1 c).2 := by
    unfold convertCandidate
    split <;> rename_i heq <;> rw [heq]
  rw [hsnd] at h
  obtain ⟨herr, ⟨hnone, heq⟩ | ⟨subtype, content, himage, hfst, hatts⟩⟩ := convertURL_spec h
  · refine ⟨herr, ?_, .inl ⟨hnone, ?_⟩⟩
    · rw [hsnd, heq]
      exact .refl c
    · unfold convertCandidate
      rw [heq]
  · refine ⟨herr, ?_, .inr ⟨subtype, content, random c.atts.length, himage, ?_, ?_⟩⟩
    · rw [hsnd]
      exact ⟨_, hatts.symm⟩
    · rw [hsnd, hatts]
      exact List.mem_append_right _ (List.mem_singleton.mpr rfl)
    · unfold convertCandidate
      split
      · rename_i heq
        rw [heq] at hfst
        cases hfst
      · rename_i ref c' heq
        rw [heq] at hfst
        obtain rfl := Option.some.inj hfst
        by_cases hdesc : (splitCandidate cand).2 = []
        · simp [refItem, Item.text, hdesc]
        · simp [refItem, Item.text, hdesc]

/-- Each piece is left, or there is a reference in it. -/
theorem each_written {random : Nat → Bytes} {pieces : List Text} {c : InlineConv}
    (h : (each (convertCandidate random) pieces c).2.err = none) :
    List.Forall₂ (fun cand out => Written cand out (each (convertCandidate random) pieces c).2) pieces
      (each (convertCandidate random) pieces c).1 := by
  refine (@each_rule _ _ _ _ (fun c => c.err = none) InlineConv.Extends _ .refl .trans ?_
    (fun cand c => convertCandidate_written) pieces c h).2.2
  rintro cand out s s' hle (hleft | ⟨subtype, content, r, himage, hmem, hout⟩)
  · exact .inl hleft
  · exact .inr ⟨subtype, content, r, himage, hle.subset hmem, hout⟩

/-! ### A group -/

/-- An image does not end with the marker. -/
theorem not_endsWith_of_image {u subtype : Text} {content : Bytes} (h : imageOf u = some (subtype, content)) :
    endsWithBase64Marker u = false := by
  obtain ⟨x, payload, rfl, -, -, hpayload, -⟩ := imageOf_eq_some h
  have hlast : ∀ c ∈ (x ++ [',']).getLast?, ¬ Mark c := by
    intro c hc
    rw [List.getLast?_concat] at hc
    rw [← Option.some.inj hc]
    exact comma_not_mark
  have hassoc : x ++ ',' :: payload = (x ++ [',']) ++ payload := by simp
  rw [hassoc, endsWith_append_eq hlast]
  by_contra hends
  exact (hpayload _ (semicolon_mem (by simpa using hends))).2 rfl

/-- There is something behind the comma of an image. -/
theorem imageOf_concat_comma (u : Text) : imageOf (u ++ [',']) = none := by
  cases himage : imageOf (u ++ [',']) with
  | none => rfl
  | some image =>
    obtain ⟨x, payload, heq, -, hne, hpayload, -⟩ := imageOf_eq_some himage
    have hlast : (x ++ ',' :: payload).getLast? = payload.getLast? := by
      rw [List.append_cons, List.getLast?_append_of_ne_nil _ hne]
    rw [← heq, List.getLast?_concat] at hlast
    exact absurd rfl (hpayload ',' (List.mem_of_getLast? hlast.symm)).1

theorem not_convertible_of_endsWith {u : Text} (h : endsWithBase64Marker u = true) : ¬ Convertible u := by
  rintro ⟨himage, -⟩
  obtain ⟨⟨subtype, content⟩, himage⟩ := Option.isSome_iff_exists.mp himage
  rw [not_endsWith_of_image himage] at h
  cases h

/-- Candidates that are left are what they should be if none of them is an image. -/
theorem rewritten_self_iff {atts : List Attachment} (it : Item) :
    Rewritten atts it it.candidate ↔ ¬ Convertible it.url := by
  constructor
  · rintro h ⟨himage, htight⟩
    obtain ⟨⟨subtype, content⟩, himage⟩ := Option.isSome_iff_exists.mp himage
    obtain ⟨att, -, hurl, -⟩ := h.replaced subtype content himage htight
    have hcid : it.url = cidOf att.contentID := hurl
    rw [hcid, imageOf_cid] at himage
    cases himage
  · refine fun h => ⟨rfl, fun _ => rfl, fun subtype content himage htight => absurd ⟨?_, htight⟩ h⟩
    rw [himage]
    rfl

theorem rewritten_map_iff {atts : List Attachment} (items : List Item) :
    List.Forall₂ (Rewritten atts) items (items.map Item.candidate) ↔ ∀ it ∈ items, ¬ Convertible it.url := by
  rw [List.forall₂_map_right_iff, List.forall₂_same]
  exact forall₂_congr fun it _ => rewritten_self_iff it

theorem valid_refItem {random : Bytes} {descriptor : Text} (h : ∀ c ∈ descriptor, Srcset.isDescriptorChar c = true) :
    (refItem random descriptor).Valid := by
  have hfixed : ∀ c ∈ "cid:".toList, Srcset.isBlank c = false ∧ c.toNat ≠ 11 ∧ c ≠ ',' := by decide
  have hplain : ∀ c ∈ cidOf (newContentID random), Srcset.isBlank c = false ∧ c.toNat ≠ 11 ∧ c ≠ ',' := by
    intro c hc
    rcases List.mem_append.mp hc with hc | hc
    · exact hfixed c hc
    · exact @forall_newContentID (fun c => Srcset.isBlank c = false ∧ c.toNat ≠ 11 ∧ c ≠ ',') (by decide) (by decide)
        random c hc
  refine ⟨fun c hc => absurd hc List.not_mem_nil, List.cons_ne_nil _ _, fun c hc => ⟨(hplain c hc).1, (hplain c hc).2.1⟩,
    ?_, fun hlast => (hplain _ (List.mem_of_getLast? hlast)).2.2 rfl, ?_, h, ?_, fun c hc => absurd hc List.not_mem_nil,
    fun _ => rfl⟩
  · intro hhead
    exact absurd (Option.some.inj hhead) (by decide)
  · intro c hc
    unfold refItem at hc
    dsimp only at hc
    split at hc
    · exact absurd hc List.not_mem_nil
    · rw [List.mem_singleton.mp hc]
      rfl
  · intro hne
    have hgap : (refItem random descriptor).gap = [' '] := if_neg hne
    rw [hgap]
    exact List.cons_ne_nil _ _

/-- What a group is read as behind the conversion. -/
structure Converted (atts : List Attachment) (g : List Item) (out : Text) : Prop where
  reads : ∃ cs last m, Srcset.Reads out cs last m
  length : (parse out).length = g.length
  rewritten_iff : List.Forall₂ (Rewritten atts) g (parse out) ↔ ∀ b ∈ g.tail, ¬ Convertible b.url

theorem converted_one {a : Item} (h : a.Valid) (htight : Tight a.url) {out : Text × Bool} {c : InlineConv}
    (hwritten : Written a.text out c) : Converted c.atts [a] out.1 := by
  unfold Written at hwritten
  rw [splitCandidate_text h] at hwritten
  have hall : ∀ b ∈ [a].tail, ¬ Convertible b.url := fun b hb => absurd hb List.not_mem_nil
  rcases hwritten with ⟨hnone, rfl⟩ | ⟨subtype, content, random, himage, hmem, rfl⟩
  · obtain ⟨m, hreads, -⟩ := Srcset.exists_reads h
    have hnot : ¬ Convertible a.url := fun hconv => by
      rw [Convertible, hnone] at hconv
      cases hconv.1
    have hparse : parse a.text = [a].map Item.candidate := hreads.parse
    refine ⟨⟨_, _, m, hreads⟩, congrArg List.length hparse, fun _ => hall, fun _ => ?_⟩
    dsimp only
    rw [hparse, rewritten_map_iff]
    intro it hit
    rwa [List.mem_singleton.mp hit]
  · obtain ⟨m, hreads, -⟩ := Srcset.exists_reads (@valid_refItem random a.descriptor h.descriptor)
    have hparse : parse (refItem random a.descriptor).text = [(refItem random a.descriptor).candidate] := hreads.parse
    refine ⟨⟨_, _, m, hreads⟩, congrArg List.length hparse, fun _ => hall, fun _ => ?_⟩
    have himage : imageOf a.url = some (subtype, content) := himage
    have hsome : (imageOf a.url).isSome = true := by
      rw [himage]
      rfl
    dsimp only
    rw [hparse]
    refine .cons ⟨rfl, fun hnot => absurd ⟨hsome, htight⟩ hnot, fun subtype' content' himage' _ => ?_⟩ .nil
    rw [himage] at himage'
    obtain ⟨-, rfl⟩ := Prod.mk.inj (Option.some.inj himage')
    exact ⟨_, hmem, rfl, rfl⟩

/-- Of several in one piece the first is looked at. -/
theorem splitCandidate_several {a b : Item} {rest : List Item} (h : Authored (a :: b :: rest))
    (hends : endsWithBase64Marker a.text = true) :
    (splitCandidate (render (a :: b :: rest))).1 = a.url ++ [','] := by
  have ha := h.valid a List.mem_cons_self
  have hb := h.valid b (List.mem_cons_of_mem _ List.mem_cons_self)
  obtain ⟨hbare, htext, -⟩ := bare_of_endsWith ha hends
  obtain ⟨d, u, hd, hrender⟩ := Srcset.exists_blank_render hb (List.isChain_cons_cons.mp h.follows).1 hbare
  have hassoc : render (a :: b :: rest) = a.lead ++ (a.url ++ [',']) ++ d :: u := by
    rw [Srcset.render_cons, htext, hrender]
    simp
  rw [hassoc, splitCandidate_eq (lead_space ha) (List.append_ne_nil_of_right_ne_nil _ (List.cons_ne_nil _ _))]
  · intro c hc
    rcases List.mem_append.mp hc with hc | hc
    · exact url_space ha c hc
    · rw [List.mem_singleton.mp hc]
      rfl
  · intro c hc
    rw [← Option.some.inj hc]
    exact (isSpace_of_isBlank hd).2

theorem converted_several {a b : Item} {rest : List Item} (h : Authored (a :: b :: rest))
    (hends : endsWithBase64Marker a.text = true) {out : Text × Bool} {c : InlineConv}
    (hwritten : Written (render (a :: b :: rest)) out c) : Converted c.atts (a :: b :: rest) out.1 := by
  unfold Written at hwritten
  rw [splitCandidate_several h hends, imageOf_concat_comma] at hwritten
  rcases hwritten with ⟨-, rfl⟩ | ⟨_, _, _, himage, _⟩
  · have hparse := Srcset.parse_render h
    refine ⟨Srcset.exists_reads_render h, ?_, ?_⟩
    · dsimp only
      rw [hparse, List.length_map]
    · dsimp only
      have ha := not_convertible_of_endsWith (bare_of_endsWith (h.valid a List.mem_cons_self) hends).2.2
      rw [hparse, rewritten_map_iff, List.forall_mem_cons]
      exact and_iff_right ha
  · cases himage

theorem converted_of_written {items g : List Item} (h : Authored items) (htight : ∀ it ∈ items, Tight it.url)
    (hg : g ∈ groups items) {out : Text × Bool} {c : InlineConv} (hwritten : Written (render g) out c) :
    Converted c.atts g out.1 := by
  have hauthored := authored_of_mem_groups h hg
  cases g with
  | nil => exact absurd rfl hauthored.ne_nil
  | cons a g =>
    cases g with
    | nil =>
      have ha : a ∈ items := flatten_groups items ▸ List.mem_flatten.mpr ⟨_, hg, List.mem_singleton.mpr rfl⟩
      rw [Srcset.render_singleton] at hwritten
      exact converted_one (h.valid a ha) (htight a ha) hwritten
    | cons b rest => exact converted_several hauthored (endsWith_of_mem_groups hg) hwritten

/-! ### All of them -/

/-- Lists of lists of the same lengths are related as a whole just if each two of them are. -/
theorem forall₂_flatten_iff {α β : Type} {R : α → β → Prop} {as : List (List α)} {bs : List (List β)}
    (h : List.Forall₂ (fun a b => b.length = a.length) as bs) :
    List.Forall₂ R as.flatten bs.flatten ↔ List.Forall₂ (List.Forall₂ R) as bs := by
  induction h with
  | nil => simp
  | @cons a b as bs hlen hrest ih =>
    rw [List.flatten_cons, List.flatten_cons, List.forall₂_cons, ← ih]
    constructor
    · intro hall
      have htake := List.forall₂_take a.length hall
      have hdrop := List.forall₂_drop a.length hall
      rw [List.take_left, ← hlen, List.take_left] at htake
      rw [List.drop_left, ← hlen, List.drop_left] at hdrop
      exact ⟨htake, hdrop⟩
    · rintro ⟨ha, has⟩
      exact List.rel_append ha has

/-- Lists are related just if every element has what relates it. -/
theorem forall₂_iff_forall {α β : Type} {R : α → β → Prop} {P : α → Prop} {as : List α} {bs : List β}
    (h : List.Forall₂ (fun a b => R a b ↔ P a) as bs) : List.Forall₂ R as bs ↔ ∀ a ∈ as, P a := by
  induction h with
  | nil => simp
  | cons hab hrest ih => rw [List.forall₂_cons, List.forall_mem_cons, hab, ih]

theorem exists_of_forall₂ {α β : Type} {R : α → β → Prop} {as : List α} {bs : List β} (h : List.Forall₂ R as bs) :
    ∀ b ∈ bs, ∃ a ∈ as, R a b := by
  induction h with
  | nil => exact fun b hb => absurd hb List.not_mem_nil
  | @cons a b as bs hab hrest ih =>
    intro b' hb'
    rcases List.mem_cons.mp hb' with rfl | hb'
    · exact ⟨a, List.mem_cons_self, hab⟩
    · obtain ⟨a', ha', hR⟩ := ih b' hb'
      exact ⟨a', List.mem_cons_of_mem _ ha', hR⟩

section result

variable {random : Nat → Bytes} {v : Text} {c : InlineConv}

/-- What the value is behind the conversion. -/
def result (random : Nat → Bytes) (v : Text) (c : InlineConv) : Text := (convertSrcset random v c).1.getD v

/-- What becomes of the pieces. -/
def outs (random : Nat → Bytes) (v : Text) (c : InlineConv) : List (Text × Bool) :=
  (each (convertCandidate random) (splitSrcset v) c).1

theorem convertSrcset_snd : (convertSrcset random v c).2 = (each (convertCandidate random) (splitSrcset v) c).2 := by
  unfold convertSrcset
  dsimp only
  split <;> rfl

theorem result_eq : result random v c =
    if (outs random v c).any Prod.snd then Text.join ((outs random v c).map Prod.fst) [',', ' '] else v := by
  unfold result convertSrcset outs
  dsimp only
  split <;> rfl

theorem written_outs (herr : (convertSrcset random v c).2.err = none) :
    List.Forall₂ (fun p out => Written p out (convertSrcset random v c).2) (splitSrcset v) (outs random v c) := by
  rw [convertSrcset_snd] at herr ⊢
  exact each_written herr

/-- A reference is put where there is an image. -/
theorem any_outs_iff (herr : (convertSrcset random v c).2.err = none) :
    (outs random v c).any Prod.snd = true ↔ ∃ p ∈ splitSrcset v, (imageOf (splitCandidate p).1).isSome = true := by
  have hwritten := written_outs herr
  constructor
  · intro hany
    obtain ⟨out, hout, htrue⟩ := List.any_eq_true.mp hany
    obtain ⟨p, hp, ⟨-, rfl⟩ | ⟨subtype, content, _, himage, -⟩⟩ := exists_of_forall₂ hwritten out hout
    · cases htrue
    · refine ⟨p, hp, ?_⟩
      rw [himage]
      rfl
  · rintro ⟨p, hp, hsome⟩
    obtain ⟨out, hout, ⟨hnone, -⟩ | ⟨_, _, _, -, -, rfl⟩⟩ := exists_of_forall₂ hwritten.flip p hp
    · rw [hnone] at hsome
      cases hsome
    · exact List.any_eq_true.mpr ⟨_, hout, rfl⟩

/-- Where there is no image in any piece, the pieces are what they were. -/
theorem map_fst_outs (herr : (convertSrcset random v c).2.err = none)
    (hany : ¬ (outs random v c).any Prod.snd = true) : (outs random v c).map Prod.fst = splitSrcset v := by
  have hwritten := written_outs herr
  have hkept : List.Forall₂ (· = ·) (splitSrcset v) ((outs random v c).map Prod.fst) := by
    rw [List.forall₂_map_right_iff]
    refine ((List.forall₂_and_left _ _).mpr ⟨fun p hp => hp, hwritten⟩).imp ?_
    rintro p out ⟨hp, ⟨-, rfl⟩ | ⟨_, _, _, himage, -⟩⟩
    · rfl
    · refine absurd ((any_outs_iff herr).mpr ⟨p, hp, ?_⟩) hany
      rw [himage]
      rfl
  rw [List.forall₂_eq_eq_eq] at hkept
  exact hkept.symm

/-- **All commas behind the marker**: what is converted is what is first in its group. -/
theorem tight_iff {items : List Item} (h : Authored items) (htight : ∀ it ∈ items, Tight it.url)
    (hv : v = render items) (herr : (convertSrcset random v c).2.err = none) :
    List.Forall₂ (Rewritten (convertSrcset random v c).2.atts) items (parse (result random v c)) ↔
      items.IsChain fun a b => endsWithBase64Marker a.text = true → ¬ Convertible b.url := by
  have hpieces : splitSrcset v = (groups items).map render := hv ▸ splitSrcset_render h htight
  have hwritten := written_outs herr
  rw [hpieces, List.forall₂_map_left_iff] at hwritten
  have hconverted : List.Forall₂ (fun g out => Converted (convertSrcset random v c).2.atts g out.1) (groups items)
      (outs random v c) :=
    ((List.forall₂_and_left _ _).mpr ⟨fun g hg => hg, hwritten⟩).imp fun g out hg =>
      converted_of_written h htight hg.1 hg.2
  have hparse : parse (result random v c) = (((outs random v c).map Prod.fst).map parse).flatten := by
    rw [result_eq]
    by_cases hany : (outs random v c).any Prod.snd = true
    · rw [if_pos hany, Srcset.parse_join, List.flatMap_def]
      intro t ht
      obtain ⟨out, hout, rfl⟩ := List.mem_map.mp ht
      obtain ⟨g, -, hg⟩ := exists_of_forall₂ hconverted out hout
      exact hg.reads
    · rw [if_neg hany, map_fst_outs herr hany, hpieces, hv, Srcset.parse_render h, List.map_map]
      have hgroups : (groups items).map (parse ∘ render) = (groups items).map (List.map Item.candidate) :=
        List.map_congr_left fun g hg => Srcset.parse_render (authored_of_mem_groups h hg)
      rw [hgroups, ← List.map_flatten, flatten_groups]
  have hlength : List.Forall₂ (fun g (cs : List Candidate) => cs.length = g.length) (groups items)
      (((outs random v c).map Prod.fst).map parse) := by
    rw [List.forall₂_map_right_iff, List.forall₂_map_right_iff]
    exact hconverted.imp fun g out hg => hg.length
  have hflatten := forall₂_flatten_iff (R := Rewritten (convertSrcset random v c).2.atts) hlength
  rw [flatten_groups] at hflatten
  rw [hparse, hflatten, isChain_iff_groups, List.forall₂_map_right_iff, List.forall₂_map_right_iff]
  exact forall₂_iff_forall (hconverted.imp fun g out hg => hg.rewritten_iff)

end result

/-! ### Commas elsewhere -/

/-- Every comma is behind the marker, or a blank is behind it. -/
def Spaced (t : Text) : Prop := ∀ a b, t = a ++ ',' :: b → endsWithBase64Marker a = true ∨ b.head? = some ' '

theorem Tight.spaced {t : Text} (h : Tight t) : Spaced t := fun a b heq => .inl (h a b heq)

theorem spaced_join {ts : List Text} (h : ∀ t ∈ ts, Tight t) : Spaced (Text.join ts [',', ' ']) := by
  induction ts with
  | nil => exact tight_nil.spaced
  | cons t ts ih =>
    have ht := h t List.mem_cons_self
    cases ts with
    | nil =>
      have hone : Text.join [t] [',', ' '] = t := by simp [Text.join]
      rw [hone]
      exact ht.spaced
    | cons u ts =>
      have hrest := ih fun x hx => h x (List.mem_cons_of_mem _ hx)
      have hjoin : Text.join (t :: u :: ts) [',', ' '] = t ++ ',' :: ' ' :: Text.join (u :: ts) [',', ' '] := by
        simp [Text.join, List.intercalate_cons_cons]
      rw [hjoin]
      intro a b heq
      rcases List.append_eq_append_iff.mp heq with ⟨w, rfl, hw⟩ | ⟨w, rfl, hw⟩
      · rcases w with _ | ⟨d, _ | ⟨e, w⟩⟩
        · obtain ⟨-, rfl⟩ := List.cons.inj hw
          exact .inr rfl
        · exact absurd (List.cons.inj (List.cons.inj hw).2).1 (by decide)
        · have htail := (List.cons.inj (List.cons.inj hw).2).2
          refine (hrest w b htail).imp_left fun hends => ?_
          have hcons : t ++ d :: e :: w = (t ++ [d, e]) ++ w := by simp
          rw [hcons]
          exact endsWith_append hends
      · cases w with
        | nil =>
          obtain ⟨-, rfl⟩ := List.cons.inj hw
          exact .inr rfl
        | cons d w =>
          obtain ⟨rfl, -⟩ := List.cons.inj hw
          exact .inl (ht a w rfl)

/-- Where the reader is in a text, what is read `x`. -/
def Lies (x : Text) : Srcset.Mode → Prop
  | .start => ∀ c ∈ x.getLast?, ¬ Mark c
  | .url u => (∀ c ∈ u, Srcset.isBlank c = false) ∧ ∃ y, x = y ++ u ∧ ∀ c ∈ y.getLast?, ¬ Mark c
  | .descriptor u _ _ | .parens u _ _ | .after u _ => Tight u

/-- An address is tight, when the commas at its end are gone. -/
theorem tight_trimCommas {y u z : Text} (h : Spaced (y ++ u ++ z)) (hu : ∀ c ∈ u, Srcset.isBlank c = false)
    (hy : ∀ c ∈ y.getLast?, ¬ Mark c) : Tight (Srcset.trimCommas u) := by
  intro a b heq
  obtain ⟨commas, hcommas⟩ := List.rdropWhile_prefix (· == ',') u
  change Srcset.trimCommas u ++ commas = u at hcommas
  cases b with
  | nil =>
    have hne : Srcset.trimCommas u ≠ [] := heq ▸ List.append_ne_nil_of_right_ne_nil a (List.cons_ne_nil _ _)
    have hlast : (Srcset.trimCommas u).getLast hne = ',' := by simp only [heq, List.getLast_concat]
    exact absurd (beq_iff_eq.mpr hlast) (List.rdropWhile_last_not (· == ',') u hne)
  | cons d b =>
    have hsplit : y ++ u ++ z = (y ++ a) ++ ',' :: d :: (b ++ commas ++ z) := by
      rw [← hcommas, heq]
      simp
    rcases h _ _ hsplit with hends | hspace
    · exact endsWith_of_append hy hends
    · obtain rfl := Option.some.inj hspace
      have hmem : ' ' ∈ u := by
        rw [← hcommas, heq]
        simp
      exact absurd (hu ' ' hmem) (by decide)

theorem lies_step {x rest : Text} {m : Srcset.Mode} {c : Char} (h : Spaced (x ++ c :: rest)) (hm : Lies x m) :
    (∀ cand ∈ (Srcset.step m c).1, Tight cand.url) ∧ Lies (x ++ [c]) (Srcset.step m c).2 := by
  have hnone : ∀ cand ∈ ([] : List Candidate), Tight cand.url := fun cand hcand => absurd hcand List.not_mem_nil
  have hblank (hc : Srcset.isBlank c = true) : Lies (x ++ [c]) .start := by
    intro d hd
    rw [List.getLast?_concat] at hd
    rw [← Option.some.inj hd]
    exact space_not_mark (isSpace_of_isBlank hc).1
  have hcomma (hc : c = ',') : Lies (x ++ [c]) .start := by
    intro d hd
    rw [List.getLast?_concat] at hd
    rw [← Option.some.inj hd, hc]
    exact comma_not_mark
  -- behind the address there is nothing but the address to be kept
  have hdescriptor {u : Text} (hu : Tight u) (ds : List Text) (cur : Text) :
      (∀ cand ∈ (Srcset.stepDescriptor u ds cur c).1, Tight cand.url) ∧
        Lies (x ++ [c]) (Srcset.stepDescriptor u ds cur c).2 := by
    unfold Srcset.stepDescriptor
    by_cases hb : Srcset.isBlank c = true
    · rw [if_pos hb]
      exact ⟨hnone, hu⟩
    rw [if_neg hb]
    by_cases hc : c = ','
    · rw [if_pos hc]
      refine ⟨fun cand hcand => ?_, hcomma hc⟩
      rw [List.mem_singleton.mp hcand]
      exact hu
    rw [if_neg hc]
    split
    · exact ⟨hnone, hu⟩
    · exact ⟨hnone, hu⟩
  cases m with
  | start =>
    rw [Srcset.step]
    by_cases hc : (Srcset.isBlank c || c == ',') = true
    · rw [if_pos hc]
      refine ⟨hnone, ?_⟩
      rcases Bool.or_eq_true _ _ ▸ hc with hb | hc
      · exact hblank hb
      · exact hcomma (beq_iff_eq.mp hc)
    · rw [if_neg hc]
      refine ⟨hnone, fun d hd => ?_, x, rfl, hm⟩
      rw [List.mem_singleton.mp hd]
      simp only [Bool.or_eq_true, not_or, Bool.not_eq_true] at hc
      exact hc.1
  | url u =>
    obtain ⟨hu, y, rfl, hy⟩ := hm
    have htrim : Tight (Srcset.trimCommas u) := tight_trimCommas h hu hy
    rw [Srcset.step]
    by_cases hb : Srcset.isBlank c = true
    · rw [if_pos hb]
      by_cases hlast : u.getLast? = some ','
      · rw [if_pos hlast]
        refine ⟨fun cand hcand => ?_, hblank hb⟩
        rw [List.mem_singleton.mp hcand]
        exact htrim
      · rw [if_neg hlast]
        rw [Srcset.trimCommas_of_last hlast] at htrim
        exact ⟨hnone, htrim⟩
    · rw [if_neg hb]
      refine ⟨hnone, fun d hd => ?_, y, List.append_assoc _ _ _, hy⟩
      rcases List.mem_append.mp hd with hd | hd
      · exact hu d hd
      · rw [List.mem_singleton.mp hd]
        simpa using hb
  | descriptor u ds cur => exact hdescriptor hm ds cur
  | parens u ds cur =>
    rw [Srcset.step]
    split
    · exact ⟨hnone, hm⟩
    · exact ⟨hnone, hm⟩
  | after u ds =>
    rw [Srcset.step]
    split
    · exact ⟨hnone, hm⟩
    · exact hdescriptor hm ds []

theorem lies_run (t : Text) : ∀ {x : Text} {m : Srcset.Mode}, Spaced (x ++ t) → Lies x m →
    (∀ cand ∈ (Srcset.run m t).1, Tight cand.url) ∧ Lies (x ++ t) (Srcset.run m t).2 := by
  induction t with
  | nil =>
    intro x m _ hm
    rw [List.append_nil]
    exact ⟨fun cand hcand => absurd hcand List.not_mem_nil, hm⟩
  | cons c t ih =>
    intro x m h hm
    obtain ⟨hfirst, hstep⟩ := lies_step h hm
    rw [List.append_cons] at h ⊢
    obtain ⟨hrest, hend⟩ := ih h hstep
    rw [Srcset.run]
    refine ⟨fun cand hcand => ?_, hend⟩
    rcases List.mem_append.mp hcand with hcand | hcand
    · exact hfirst cand hcand
    · exact hrest cand hcand

/-- **All addresses are tight** where the commas that are not behind the marker are in front of blanks. -/
theorem tight_of_mem_parse {t : Text} (h : Spaced t) : ∀ cand ∈ parse t, Tight cand.url := by
  obtain ⟨hrun, hend⟩ := @lies_run t [] .start h fun c hc => absurd hc (Option.not_mem_none c)
  intro cand hcand
  rcases List.mem_append.mp hcand with hcand | hcand
  · exact hrun cand hcand
  · generalize Srcset.run .start t = r at hend hcand
    obtain ⟨cs, m⟩ := r
    cases m with
    | start => exact absurd hcand List.not_mem_nil
    | url u =>
      obtain ⟨hu, y, heq, hy⟩ := hend
      rw [List.mem_singleton.mp hcand]
      have hspaced : Spaced (y ++ u ++ []) := by rwa [List.append_nil, ← heq]
      exact tight_trimCommas hspaced hu hy
    | descriptor u ds cur | parens u ds cur | after u ds =>
      rw [List.mem_singleton.mp hcand]
      exact hend

/-! ### Where an image stands -/

theorem isSpace_of_isASCIISpace {c : Char} (h : isASCIISpace c = true) : Text.isSpace c = true := by
  simp only [isASCIISpace, Bool.or_eq_true, Bool.and_eq_true, decide_eq_true_eq, beq_iff_eq] at h
  rcases h with rfl | ⟨hlow, hhigh⟩
  · rfl
  · simp [Text.isSpace, hlow, hhigh]

/-- How a piece is put together. -/
theorem exists_splitCandidate (p : Text) : ∃ w z, p = w ++ (splitCandidate p).1 ++ z ∧
    (∀ c ∈ w, isASCIISpace c = true) ∧ (∀ c ∈ (splitCandidate p).1, isASCIISpace c = false) ∧
    (∀ c ∈ z.head?, isASCIISpace c = true) ∧ (splitCandidate p).2 = Text.trimSpace z := by
  refine ⟨p.takeWhile isASCIISpace, (p.dropWhile isASCIISpace).dropWhile fun c => !isASCIISpace c, ?_,
    fun c hc => List.mem_takeWhile_imp hc, fun c hc => ?_, fun c hc => ?_, rfl⟩
  · unfold splitCandidate
    dsimp only
    rw [List.append_assoc, List.takeWhile_append_dropWhile, List.takeWhile_append_dropWhile]
  · have hnot := @List.mem_takeWhile_imp _ (fun c => !isASCIISpace c) (p.dropWhile isASCIISpace) c hc
    simpa using hnot
  · have hnot := List.head?_dropWhile_not (fun c => !isASCIISpace c) (p.dropWhile isASCIISpace)
    rw [Option.mem_def] at hc
    rw [hc] at hnot
    simpa using hnot

theorem not_mark_of_space {w : Text} (h : ∀ c ∈ w, isASCIISpace c = true) : ∀ c ∈ w.getLast?, ¬ Mark c :=
  fun c hc => space_not_mark (isSpace_of_isASCIISpace (h c (List.mem_of_getLast? hc)))

/-- What is behind the address of a tight piece is tight. -/
theorem tight_descriptor {p : Text} (h : Tight p) : Tight (splitCandidate p).2 := by
  obtain ⟨w, z, hp, -, -, hz, hdesc⟩ := exists_splitCandidate p
  rw [hdesc]
  cases z with
  | nil => exact tight_nil
  | cons s z =>
    have hs : Text.isSpace s = true := isSpace_of_isASCIISpace (hz s rfl)
    obtain ⟨x, y, hsplit, hx, -⟩ := Text.exists_trimSpace z
    rw [Text.trimSpace_cons hs]
    have hassoc : p = (w ++ (splitCandidate p).1 ++ s :: x) ++ Text.trimSpace z ++ y := by
      conv_lhs => rw [hp, hsplit]
      simp
    rw [hassoc] at h
    refine h.of_append fun c hc => ?_
    rw [List.getLast?_append_of_ne_nil _ (List.cons_ne_nil _ _)] at hc
    rcases List.mem_cons.mp (List.mem_of_getLast? hc) with rfl | hc
    · exact space_not_mark hs
    · exact space_not_mark (hx c hc)

theorem tight_refItem {random : Bytes} {descriptor : Text} (h : Tight descriptor) :
    Tight (refItem random descriptor).text := by
  have hfixed : ∀ c ∈ "cid:".toList, c ≠ ',' := by decide
  have hcid : ',' ∉ cidOf (newContentID random) := by
    intro hmem
    rcases List.mem_append.mp hmem with hmem | hmem
    · exact hfixed _ hmem rfl
    · exact @forall_newContentID (fun c => c ≠ ',') (by decide) (by decide) random ',' hmem rfl
  have hgap : ',' ∉ (refItem random descriptor).gap := by
    unfold refItem
    dsimp only
    split
    · exact List.not_mem_nil
    · decide
  have hassoc : (refItem random descriptor).text =
      (cidOf (newContentID random) ++ (refItem random descriptor).gap) ++ descriptor ++ [] := by
    simp [Item.text, refItem]
  rw [hassoc]
  refine h.append (fun hmem => ?_) List.not_mem_nil
  rcases List.mem_append.mp hmem with hmem | hmem
  · exact hcid hmem
  · exact hgap hmem

/-- Where a piece ends: at a comma that is not behind the marker. -/
def Cut (x : Text) : Prop := x = [] ∨ ∃ y, x = y ++ [','] ∧ endsWithBase64Marker y = false

theorem Cut.not_mark {x : Text} (h : Cut x) : ∀ c ∈ x.getLast?, ¬ Mark c := by
  intro c hc
  rcases h with rfl | ⟨y, rfl, -⟩
  · cases hc
  · rw [List.getLast?_concat] at hc
    rw [← Option.some.inj hc]
    exact comma_not_mark

/-- An image that can be converted is between two of the commas at which the value is cut, with blanks
around it and perhaps more behind these. -/
def Stands (v : Text) : Prop := ∃ x w u z, v = x ++ (w ++ u ++ z) ∧ Cut x ∧ (∀ c ∈ w, isASCIISpace c = true) ∧
  (∀ c ∈ u, isASCIISpace c = false) ∧ Convertible u ∧ ∀ c ∈ z.head?, isASCIISpace c = true ∨ c = ','

theorem mem_splitSrcset_of_cut {x t p : Text} (hx : Cut x) (h : p ∈ splitSrcset t) : p ∈ splitSrcset (x ++ t) := by
  rcases hx with rfl | ⟨y, rfl, hy⟩
  · exact h
  · unfold splitSrcset
    rw [← List.append_cons, splitFrom_comma hy]
    exact List.mem_append_right _ h

/-- A piece and what is around it. -/
theorem exists_of_mem_splitFrom (v : Text) : ∀ cur, ∀ p ∈ splitFrom cur v,
    ∃ x y, cur ++ v = x ++ p ++ y ∧ Cut x ∧ ∀ c ∈ y.head?, c = ',' := by
  induction v with
  | nil =>
    intro cur p hp
    rw [List.mem_singleton.mp hp]
    exact ⟨[], [], by simp, .inl rfl, fun c hc => absurd hc (Option.not_mem_none c)⟩
  | cons c v ih =>
    intro cur p hp
    rw [splitFrom] at hp
    by_cases hc : c = ',' ∧ endsWithBase64Marker cur = false
    · obtain ⟨rfl, hends⟩ := hc
      rw [if_pos ⟨rfl, hends⟩] at hp
      rcases List.mem_cons.mp hp with rfl | hp
      · exact ⟨[], ',' :: v, by simp, .inl rfl, fun c hc => (Option.some.inj hc).symm⟩
      · obtain ⟨x, y, heq, hx, hy⟩ := ih [] p hp
        rw [List.nil_append] at heq
        refine ⟨cur ++ [','] ++ x, y, by simp [heq], .inr ?_, hy⟩
        rcases hx with rfl | ⟨x, rfl, hx⟩
        · exact ⟨cur, List.append_nil _, hends⟩
        · refine ⟨cur ++ [','] ++ x, by simp, ?_⟩
          rwa [endsWith_append_eq (Cut.not_mark (.inr ⟨cur, rfl, hends⟩))]
    · rw [if_neg hc] at hp
      obtain ⟨x, y, heq, hx, hy⟩ := ih (cur ++ [c]) p hp
      exact ⟨x, y, by rw [← heq, List.append_cons], hx, hy⟩

/-- **An image stands** in the value just if one of the pieces has it for its address. -/
theorem stands_iff (v : Text) : Stands v ↔ ∃ p ∈ splitSrcset v, (imageOf (splitCandidate p).1).isSome = true := by
  constructor
  · rintro ⟨x, w, u, z, rfl, hx, hw, hu, ⟨himage, htight⟩, hz⟩
    obtain ⟨⟨subtype, content⟩, hsome⟩ := Option.isSome_iff_exists.mp himage
    have hne : u ≠ [] := by
      obtain ⟨a, payload, rfl, -⟩ := imageOf_eq_some hsome
      exact List.append_ne_nil_of_right_ne_nil a (List.cons_ne_nil _ _)
    have hcomma : ',' ∉ w := fun hmem => absurd (hw ',' hmem) (by decide)
    have htext : Tight ([] ++ (w ++ u)) := by
      have h := htight.append hcomma (y := []) List.not_mem_nil
      rwa [List.append_nil] at h
    have hends : endsWithBase64Marker (w ++ u) = false := by
      rw [endsWith_append_eq (not_mark_of_space hw)]
      exact not_endsWith_of_image hsome
    have hnil : ∀ c ∈ ([] : Text).head?, isASCIISpace c = true := fun c hc => absurd hc (Option.not_mem_none c)
    obtain ⟨s, hs, hmem⟩ : ∃ s : Text, (∀ c ∈ s.head?, isASCIISpace c = true) ∧ w ++ u ++ s ∈ splitSrcset (w ++ u ++ z) := by
      unfold splitSrcset
      rw [splitFrom_tight_append z htext]
      cases z with
      | nil =>
        refine ⟨[], hnil, ?_⟩
        rw [List.append_nil]
        exact List.mem_singleton.mpr rfl
      | cons c z =>
        rcases hz c rfl with hc | rfl
        · obtain ⟨s, ps, hsplit, hpre⟩ := exists_splitFrom (c :: z) (w ++ u)
          refine ⟨s, fun d hd => ?_, by rw [List.nil_append, hsplit]; exact List.mem_cons_self⟩
          cases s with
          | nil => cases hd
          | cons e s =>
            obtain ⟨rfl, -⟩ := List.cons_prefix_cons.mp hpre
            rw [← Option.some.inj hd]
            exact hc
        · refine ⟨[], hnil, ?_⟩
          rw [List.nil_append, splitFrom, if_pos ⟨rfl, hends⟩, List.append_nil]
          exact List.mem_cons_self
    refine ⟨_, mem_splitSrcset_of_cut hx hmem, ?_⟩
    rw [splitCandidate_eq hw hne hu hs]
    exact himage
  · rintro ⟨p, hp, himage⟩
    obtain ⟨x, y, heq, hx, hy⟩ := exists_of_mem_splitFrom v [] p hp
    obtain ⟨w, z, hsplit, hw, hu, hz, -⟩ := exists_splitCandidate p
    have hptight := tight_of_mem_splitFrom v [] tight_nil p hp
    rw [hsplit] at hptight
    refine ⟨x, w, (splitCandidate p).1, z ++ y, ?_, hx, hw, hu, ⟨himage, hptight.of_append (not_mark_of_space hw)⟩, ?_⟩
    · rw [List.nil_append] at heq
      conv_lhs => rw [heq, hsplit]
      simp
    · intro c hc
      cases z with
      | nil => exact .inr (hy c hc)
      | cons d z => exact .inl (hz c hc)

/-- What is behind no marker stands in the value. -/
theorem stands_of_convertible {items : List Item} : ∀ {x : Text}, (∀ it ∈ items, it.Valid) →
    items.IsChain (fun a b => endsWithBase64Marker a.text = true → ¬ Convertible b.url) →
    (∀ c ∈ x.getLast?, ¬ Mark c) → (∀ a ∈ items.head?, Convertible a.url → Cut x) →
    ∀ it ∈ items, Convertible it.url → Stands (x ++ render items) := by
  induction items with
  | nil => exact fun _ _ _ _ it hit => absurd hit List.not_mem_nil
  | cons a rest ih =>
    intro x hvalid hchain hx hcut it hit hconv
    have ha := hvalid a List.mem_cons_self
    -- behind the address there is a blank, the next comma, or nothing
    have hbehind (t : Text) (ht : ∀ c ∈ t.head?, c = ',') :
        ∀ c ∈ (a.gap ++ a.descriptor ++ a.trail ++ t).head?, isASCIISpace c = true ∨ c = ',' := by
      intro c hc
      cases hgap : a.gap with
      | nil =>
        have hdescriptor : a.descriptor = [] := by_contra fun hne => ha.gap_ne_nil hne hgap
        rw [hgap, hdescriptor, ha.trail_nil hdescriptor] at hc
        exact .inr (ht c hc)
      | cons b g =>
        rw [hgap] at hc
        obtain rfl : b = c := Option.some.inj hc
        exact .inl (isSpace_of_isBlank (ha.gap b (hgap ▸ List.mem_cons_self))).2
    have hfirst (t : Text) (ht : ∀ c ∈ t.head?, c = ',') (hconv : Convertible a.url) : Stands (x ++ (a.text ++ t)) := by
      refine ⟨x, a.lead, a.url, a.gap ++ a.descriptor ++ a.trail ++ t, ?_, hcut a rfl hconv, lead_space ha,
        url_space ha, hconv, hbehind t ht⟩
      simp [Item.text]
    cases rest with
    | nil =>
      rw [List.mem_singleton.mp hit] at hconv
      have h := hfirst [] (fun c hc => absurd hc (Option.not_mem_none c)) hconv
      rwa [List.append_nil, ← Srcset.render_singleton] at h
    | cons b rest =>
      rw [Srcset.render_cons]
      rcases List.mem_cons.mp hit with rfl | hit
      · exact hfirst _ (fun c hc => (Option.some.inj hc).symm) hconv
      · have hassoc : x ++ (a.text ++ ',' :: render (b :: rest)) = (x ++ a.text ++ [',']) ++ render (b :: rest) := by
          simp
        rw [hassoc]
        refine ih (fun y hy => hvalid y (List.mem_cons_of_mem _ hy)) hchain.tail (fun c hc => ?_)
          (fun y hy hconv => ?_) it hit hconv
        · rw [List.getLast?_concat] at hc
          rw [← Option.some.inj hc]
          exact comma_not_mark
        · obtain rfl := Option.some.inj hy
          refine .inr ⟨x ++ a.text, rfl, ?_⟩
          rw [endsWith_append_eq hx]
          by_contra hends
          exact (List.isChain_cons_cons.mp hchain).1 (by simpa using hends) hconv

/-! ### The whole value -/

section whole

variable {random : Nat → Bytes} {items : List Item} {v : Text} {c : InlineConv}

/-- Where an address has a comma of its own, nothing may be converted. -/
theorem not_stands_of_loose (hloose : ∃ it ∈ items, ¬ Tight it.url) (herr : (convertSrcset random v c).2.err = none)
    (h : List.Forall₂ (Rewritten (convertSrcset random v c).2.atts) items (parse (result random v c))) :
    ¬ Stands v := by
  rw [stands_iff]
  intro hstands
  have hany := (any_outs_iff herr).mpr hstands
  have hspaced : Spaced (result random v c) := by
    rw [result_eq, if_pos hany]
    refine spaced_join fun t ht => ?_
    obtain ⟨out, hout, rfl⟩ := List.mem_map.mp ht
    obtain ⟨p, hp, hwritten⟩ := exists_of_forall₂ (written_outs herr) out hout
    have hptight := tight_of_mem_splitFrom v [] tight_nil p hp
    rcases hwritten with ⟨-, rfl⟩ | ⟨_, _, _, -, -, rfl⟩
    · exact hptight
    · exact tight_refItem (tight_descriptor hptight)
  obtain ⟨it, hit, hnot⟩ := hloose
  obtain ⟨out, hout, hrewritten⟩ := exists_of_forall₂ h.flip it hit
  have htight := tight_of_mem_parse hspaced out hout
  rw [hrewritten.kept fun hconv => hnot hconv.2] at htight
  exact hnot htight

/-- **A `srcset` is read as it should be** behind the conversion just if no image is behind a candidate that
ends with `;base64` and, where an address has a comma of its own, no image stands in the value. -/
theorem srcset_rewritten_iff (h : Authored items) (herr : (convertSrcset random (render items) c).2.err = none) :
    List.Forall₂ (Rewritten (convertSrcset random (render items) c).2.atts) items
        (parse ((convertSrcset random (render items) c).1.getD (render items))) ↔
      items.IsChain (fun a b => endsWithBase64Marker a.text = true → ¬ Convertible b.url) ∧
        ((∃ it ∈ items, ¬ Tight it.url) → ¬ Stands (render items)) := by
  change List.Forall₂ _ items (parse (result random (render items) c)) ↔ _
  by_cases hloose : ∃ it ∈ items, ¬ Tight it.url
  · have hleft (hnot : ¬ Stands (render items)) : parse (result random (render items) c) = items.map Item.candidate := by
      rw [result_eq, if_neg fun hany => hnot ((stands_iff _).mpr ((any_outs_iff herr).mp hany)), Srcset.parse_render h]
    constructor
    · intro hall
      have hnot := not_stands_of_loose hloose herr hall
      rw [hleft hnot, rewritten_map_iff] at hall
      exact ⟨h.follows.imp_of_mem_imp fun a b _ hb _ _ => hall b hb, fun _ => hnot⟩
    · rintro ⟨hchain, hstands⟩
      have hnot := hstands hloose
      rw [hleft hnot, rewritten_map_iff]
      intro it hit hconv
      exact hnot (@stands_of_convertible items [] h.valid hchain (fun c hc => absurd hc (Option.not_mem_none c))
        (fun _ _ _ => .inl rfl) it hit hconv)
  · have htight : ∀ it ∈ items, Tight it.url := fun it hit => by_contra fun hnot => hloose ⟨it, hit, hnot⟩
    rw [tight_iff h htight rfl herr]
    exact (and_iff_left fun hex => absurd hex hloose).symm

end whole

theorem tight_of_splitFrom {t : Text} (h : splitFrom [] t = [t]) : Tight t :=
  tight_of_mem_splitFrom t [] tight_nil t (h ▸ List.mem_singleton.mpr rfl)

/-- A picture, and an image for a finer screen. -/
def pictureAndImage (picture : Text) : List Item :=
  [⟨[], picture, [' '], "1x".toList, []⟩, ⟨[' '], "data:image/png;base64,AAAA".toList, [' '], "2x".toList, []⟩]

theorem authored_pictureAndImage {picture : Text} (hne : picture ≠ [])
    (hplain : ∀ c ∈ picture, Srcset.isBlank c = false ∧ c.toNat ≠ 11) (hhead : picture.head? ≠ some ',')
    (hlast : picture.getLast? ≠ some ',') : Authored (pictureAndImage picture) := by
  refine ⟨List.cons_ne_nil _ _, ?_, .cons_cons (fun _ => List.cons_ne_nil _ _) (.singleton _)⟩
  have hnone : ∀ c ∈ ([] : Text), Srcset.isBlank c = true := by decide
  have hgap : ∀ c ∈ [' '], Srcset.isBlank c = true := by decide
  have hdescriptor : ∀ c ∈ "1x".toList, Srcset.isDescriptorChar c = true := by decide
  intro it hit
  rcases List.mem_pair.mp hit with rfl | rfl
  · exact ⟨hnone, hne, hplain, hhead, hlast, hgap, hdescriptor, fun _ => List.cons_ne_nil _ _, hnone, fun _ => rfl⟩
  · exact ⟨by decide, by decide, by decide, by decide, by decide, by decide, by decide, by decide, by decide,
      by decide⟩

/-- With a picture whose address has no comma the image is converted. -/
theorem image_behind_picture :
    List.Forall₂
      (Rewritten (convertSrcset (fun _ => [0]) (render (pictureAndImage "a.png".toList)) .init).2.atts)
      (pictureAndImage "a.png".toList)
      (parse ((convertSrcset (fun _ => [0]) (render (pictureAndImage "a.png".toList)) .init).1.getD
        (render (pictureAndImage "a.png".toList)))) := by
  refine (srcset_rewritten_iff (authored_pictureAndImage (by decide) (by decide) (by decide) (by decide))
    (by decide +kernel)).mpr ⟨.cons_cons (fun hends => absurd hends (by decide)) (.singleton _), ?_⟩
  rintro ⟨it, hit, hnot⟩
  rcases List.mem_pair.mp hit with rfl | rfl
  · exact absurd (tight_of_splitFrom (by decide)) hnot
  · exact absurd (tight_of_splitFrom (by decide)) hnot

/-- An address is cut in two at its comma. -/
theorem comma_cuts_address :
    Authored (pictureAndImage "https://x/w_100,h_50/a.png".toList) ∧
    (convertSrcset (fun _ => [0]) (render (pictureAndImage "https://x/w_100,h_50/a.png".toList)) .init).2.err = none ∧
    ¬ List.Forall₂
      (Rewritten (convertSrcset (fun _ => [0])
        (render (pictureAndImage "https://x/w_100,h_50/a.png".toList)) .init).2.atts)
      (pictureAndImage "https://x/w_100,h_50/a.png".toList)
      (parse ((convertSrcset (fun _ => [0])
        (render (pictureAndImage "https://x/w_100,h_50/a.png".toList)) .init).1.getD
        (render (pictureAndImage "https://x/w_100,h_50/a.png".toList)))) := by
  have hparse : parse ((convertSrcset (fun _ => [0])
      (render (pictureAndImage "https://x/w_100,h_50/a.png".toList)) .init).1.getD
      (render (pictureAndImage "https://x/w_100,h_50/a.png".toList))) =
      [⟨"https://x/w_100".toList, []⟩, ⟨"h_50/a.png".toList, ["1x".toList]⟩, ⟨"cid:ii_00".toList, ["2x".toList]⟩] := by
    decide +kernel
  refine ⟨authored_pictureAndImage (by decide) (by decide) (by decide) (by decide), by decide +kernel, fun hall => ?_⟩
  rw [hparse] at hall
  exact absurd hall.length_eq (by decide)

end FlyMail.Send
