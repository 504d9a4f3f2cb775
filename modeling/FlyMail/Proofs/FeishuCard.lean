/-
A card fits or is at its floor, and what its links show.

The limits the loop tries get smaller, and it stops at the first card that fits.  A link of the block
cannot be closed by its address, since the address has no brackets left; but an address with something
bold in it is shown without the marks.
-/
import FlyMail.Notify.LarkMd
import FlyMail.Notify.Render
import FlyMail.Proofs.Mailtext

namespace FlyMail.Notify

open LarkMd (Bold)

/-! ### The limits that are tried -/

/-- The limits from `n` on, down to the last that may be tried. -/
def tried (n : Nat) : List Nat :=
  if _h : minFeishuBodyRunes < n then n :: tried (nextBodyRunes n) else [n]
termination_by n
decreasing_by exact nextBodyRunes_lt ‹_›

theorem le_of_mem_tried {n : Nat} : ∀ j ∈ tried n, j ≤ n := by
  induction n using Nat.strongRecOn with
  | ind n ih =>
    intro j hj
    rw [tried] at hj
    split at hj
    · rename_i hmin
      have hlt := nextBodyRunes_lt hmin
      rcases List.mem_cons.mp hj with rfl | hj
      · exact Nat.le_refl _
      · exact (ih _ hlt j hj).trans hlt.le
    · exact (List.mem_singleton.mp hj).le

theorem pos_of_mem_tried {n : Nat} (hn : 0 < n) : ∀ j ∈ tried n, 0 < j := by
  induction n using Nat.strongRecOn with
  | ind n ih =>
    intro j hj
    rw [tried] at hj
    split at hj
    · rename_i hmin
      rcases List.mem_cons.mp hj with rfl | hj
      · exact hn
      · have hpos : 0 < nextBodyRunes n := Nat.lt_of_lt_of_le (by decide) (Nat.le_max_right _ _)
        exact ih _ (nextBodyRunes_lt hmin) hpos j hj
    · rwa [List.mem_singleton.mp hj]

theorem configuredBodyRunes_pos (env : Env) : 0 < configuredBodyRunes env := by
  unfold configuredBodyRunes
  split
  · decide
  · split
    · omega
    · decide

/-- The body the card has room for. -/
def wholeBody (evt : Event) (level : ContentLevel) : Text :=
  match evt.structured with
  | some (mail, _) =>
      if level.wantsBody then
        Text.trimSpace (if level = .full ∧ mail.body ≠ [] then mail.body else mail.snippet)
      else []
  | none => evt.body

/-- What a card is to be: of the limits that are tried, the longest with which it fits, or the shortest
if there is none; and its text is cut behind a character, and no longer for a smaller limit. -/
structure Fitted (env : Env) (evt : Event) (level : ContentLevel) : Prop where
  card : ∃ k ∈ tried (configuredBodyRunes env),
    fitFeishuCard env evt level (configuredBodyRunes env) = feishuCard env evt level k ∧
    (∀ j ∈ tried (configuredBodyRunes env), k < j →
      feishuPayloadBudget < (feishuCard env evt level j).size) ∧
    (feishuPayloadBudget < (feishuCard env evt level k).size →
      ∀ j ∈ tried (configuredBodyRunes env), k ≤ j)
  cut : ∀ k ∈ tried (configuredBodyRunes env), cardBody evt level k =
    if (wholeBody evt level).length ≤ k then wholeBody evt level else (wholeBody evt level).take k ++ ['…']
  shorter : ∀ j ∈ tried (configuredBodyRunes env), ∀ k ∈ tried (configuredBodyRunes env), j ≤ k →
    (cardBody evt level j).length ≤ (cardBody evt level k).length

theorem fit_tried (env : Env) (evt : Event) (level : ContentLevel) (n : Nat) :
    ∃ k ∈ tried n, fitFeishuCard env evt level n = feishuCard env evt level k ∧
      (∀ j ∈ tried n, k < j → feishuPayloadBudget < (feishuCard env evt level j).size) ∧
      (feishuPayloadBudget < (feishuCard env evt level k).size → ∀ j ∈ tried n, k ≤ j) := by
  induction n using Nat.strongRecOn with
  | ind n ih =>
    have hself : n ∈ tried n := by
      rw [tried]
      split
      · exact List.mem_cons_self
      · exact List.mem_singleton.mpr rfl
    by_cases hfits : (feishuCard env evt level n).size ≤ feishuPayloadBudget
    · refine ⟨n, hself, ?_, fun j hj hlt => absurd (le_of_mem_tried j hj) (Nat.not_le.mpr hlt),
        fun hbig => absurd hfits (Nat.not_le.mpr hbig)⟩
      rw [fitFeishuCard]
      exact if_pos hfits
    · by_cases hmin : minFeishuBodyRunes < n
      · have htried : tried n = n :: tried (nextBodyRunes n) := by rw [tried, dif_pos hmin]
        have hfit : fitFeishuCard env evt level n = fitFeishuCard env evt level (nextBodyRunes n) := by
          rw [fitFeishuCard]
          exact (if_neg hfits).trans (dif_pos hmin)
        obtain ⟨k, hk, hcard, hlonger, hfloor⟩ := ih _ (nextBodyRunes_lt hmin)
        refine ⟨k, htried ▸ List.mem_cons_of_mem _ hk, hfit.trans hcard, fun j hj hlt => ?_, fun hbig j hj => ?_⟩
        · rcases List.mem_cons.mp (htried ▸ hj) with rfl | hj
          · exact Nat.not_le.mp hfits
          · exact hlonger j hj hlt
        · rcases List.mem_cons.mp (htried ▸ hj) with rfl | hj
          · exact (le_of_mem_tried k hk).trans (nextBodyRunes_lt hmin).le
          · exact hfloor hbig j hj
      · have htried : tried n = [n] := by rw [tried, dif_neg hmin]
        refine ⟨n, hself, ?_, fun j hj hlt => absurd (le_of_mem_tried j hj) (Nat.not_le.mpr hlt), fun _ j hj => ?_⟩
        · rw [fitFeishuCard]
          exact (if_neg hfits).trans (dif_neg hmin)
        · exact (List.mem_singleton.mp (htried ▸ hj)).ge

/-- The text of a card is a whole one that is cut. -/
theorem cardBody_eq (evt : Event) (level : ContentLevel) {k : Nat} (hk : 0 < k) : cardBody evt level k =
    if (wholeBody evt level).length ≤ k then wholeBody evt level else (wholeBody evt level).take k ++ ['…'] := by
  have hcut (s : Text) : truncateRunes s k = if s.length ≤ k then s else s.take k ++ ['…'] :=
    if_neg (by omega)
  unfold cardBody wholeBody
  cases evt.structured with
  | none => exact hcut _
  | some found =>
    obtain ⟨mail, fields⟩ := found
    show bodyFor mail level k = _
    unfold bodyFor
    by_cases hwants : level.wantsBody = true
    · rw [if_pos hwants]
      simp only [hwants, if_true]
      exact hcut _
    · rw [if_neg hwants]
      simp [hwants]

theorem fitted (env : Env) (evt : Event) (level : ContentLevel) : Fitted env evt level := by
  have hpos := pos_of_mem_tried (configuredBodyRunes_pos env)
  refine ⟨fit_tried env evt level _, fun k hk => cardBody_eq evt level (hpos k hk), fun j hj k hk hle => ?_⟩
  rw [cardBody_eq evt level (hpos j hj), cardBody_eq evt level (hpos k hk)]
  by_cases hlong : (wholeBody evt level).length ≤ k
  · rw [if_pos hlong]
    split
    · exact Nat.le_refl _
    · rw [List.length_append, List.length_take, List.length_singleton]
      omega
  · rw [if_neg hlong, if_neg (by omega)]
    rw [List.length_append, List.length_append, List.length_take, List.length_take]
    omega

/-! ### The block of links -/

def escape (c : Char) : Text :=
  if c = ')' then "%29".toList
  else if c = '(' then "%28".toList
  else if c = ']' then "%5D".toList
  else if c = '[' then "%5B".toList
  else [c]

theorem linkEscaper_eq (u : Text) : linkEscaper u = u.flatMap escape := rfl

theorem escape_cases (c : Char) : escape c = [c] ∧ c ≠ ')' ∧ c ≠ '(' ∧ c ≠ ']' ∧ c ≠ '[' ∨
    escape c ∈ ["%29".toList, "%28".toList, "%5D".toList, "%5B".toList] := by
  unfold escape
  split
  · exact .inr (by decide)
  · split
    · exact .inr (by decide)
    · split
      · exact .inr (by decide)
      · split
        · exact .inr (by decide)
        · exact .inl ⟨rfl, ‹_›, ‹_›, ‹_›, ‹_›⟩

theorem mem_escape {c d : Char} (h : d ∈ escape c) :
    d ≠ ')' ∧ d ≠ '(' ∧ d ≠ ']' ∧ d ≠ '[' ∧ (d = '\n' → c = '\n') ∧ (d = '*' → c = '*') := by
  have hcodes : ∀ w ∈ ["%29".toList, "%28".toList, "%5D".toList, "%5B".toList], ∀ d ∈ w,
      d ≠ ')' ∧ d ≠ '(' ∧ d ≠ ']' ∧ d ≠ '[' ∧ d ≠ '\n' ∧ d ≠ '*' := by decide
  rcases escape_cases c with ⟨hself, h₁, h₂, h₃, h₄⟩ | hcode
  · rw [hself, List.mem_singleton] at h
    subst h
    exact ⟨h₁, h₂, h₃, h₄, id, id⟩
  · obtain ⟨h₁, h₂, h₃, h₄, h₅, h₆⟩ := hcodes _ hcode d h
    exact ⟨h₁, h₂, h₃, h₄, fun h => absurd h h₅, fun h => absurd h h₆⟩

theorem escape_star : escape '*' = ['*'] := by decide

theorem escape_ne_nil (c : Char) : escape c ≠ [] := by
  rcases escape_cases c with ⟨hself, -⟩ | hcode
  · rw [hself]
    exact List.cons_ne_nil c []
  · intro hnil
    rw [hnil] at hcode
    exact absurd hcode (by decide)

/-- A star is escaped by itself, so it comes from a star. -/
theorem star_of_escaped {u : Text} : ∀ {a b : Text}, u.flatMap escape = a ++ '*' :: b →
    ∃ a₀ b₀, u = a₀ ++ '*' :: b₀ ∧ a₀.flatMap escape = a ∧ b₀.flatMap escape = b := by
  induction u with
  | nil =>
    intro a b h
    exact absurd h.symm (List.append_ne_nil_of_right_ne_nil _ (List.cons_ne_nil _ _))
  | cons c u ih =>
    intro a b h
    rw [List.flatMap_cons] at h
    by_cases hc : c = '*'
    · subst hc
      rw [escape_star, List.singleton_append] at h
      cases a with
      | nil => exact ⟨[], u, rfl, rfl, (List.cons.inj h).2⟩
      | cons d a =>
        obtain ⟨rfl, hrest⟩ := List.cons.inj h
        obtain ⟨a₀, b₀, rfl, rfl, rfl⟩ := ih hrest
        exact ⟨'*' :: a₀, b₀, rfl, by rw [List.flatMap_cons, escape_star]; rfl, rfl⟩
    · -- the star is behind what `c` is escaped as
      obtain ⟨w, rfl⟩ : ∃ w, a = escape c ++ w := by
        rcases List.append_eq_append_iff.mp h with ⟨w, hw, -⟩ | ⟨w, hw, hrest⟩
        · exact ⟨w, hw⟩
        · cases w with
          | nil => exact ⟨[], by rw [hw, List.append_nil, List.append_nil]⟩
          | cons d w =>
            obtain rfl := (List.cons.inj hrest).1
            exact absurd ((mem_escape (by rw [hw]; simp)).2.2.2.2.2 rfl) hc
      rw [List.append_assoc, List.append_cancel_left_eq] at h
      obtain ⟨a₀, b₀, rfl, rfl, rfl⟩ := ih h
      exact ⟨c :: a₀, b₀, rfl, List.flatMap_cons, rfl⟩

theorem newline_notMem_escaped {u : Text} : '\n' ∉ linkEscaper u ↔ '\n' ∉ u := by
  rw [linkEscaper_eq]
  constructor
  · exact fun h hu => h (List.mem_flatMap.mpr ⟨'\n', hu, by decide⟩)
  · intro h hmem
    obtain ⟨c, hc, hd⟩ := List.mem_flatMap.mp hmem
    exact h ((mem_escape hd).2.2.2.2.1 rfl ▸ hc)

/-- What is bold in an address is bold in the escaped one. -/
theorem bold_linkEscaper {u : Text} : Bold (linkEscaper u) ↔ Bold u := by
  rw [linkEscaper_eq]
  constructor
  · rintro ⟨a, x, b, h, hx, hline⟩
    obtain ⟨a₀, t₁, rfl, -, ht₁⟩ := star_of_escaped h
    obtain ⟨e₁, t₂, rfl, he₁, ht₂⟩ := star_of_escaped (a := []) ht₁
    obtain ⟨x₀, t₃, rfl, hx₀, ht₃⟩ := star_of_escaped ht₂
    obtain ⟨e₂, b₀, rfl, he₂, -⟩ := star_of_escaped (a := []) ht₃
    have hempty {e : Text} (he : e.flatMap escape = []) : e = [] := by
      cases e with
      | nil => rfl
      | cons c e =>
        rw [List.flatMap_cons, List.append_eq_nil_iff] at he
        exact absurd he.1 (escape_ne_nil c)
    rw [hempty he₁, hempty he₂]
    subst hx₀
    refine ⟨a₀, x₀, b₀, rfl, ?_, newline_notMem_escaped.mp hline⟩
    rintro rfl
    exact hx rfl
  · rintro ⟨a, x, b, rfl, hx, hline⟩
    refine ⟨a.flatMap escape, x.flatMap escape, b.flatMap escape, ?_, ?_, newline_notMem_escaped.mpr hline⟩
    · simp [List.flatMap_append, List.flatMap_cons, escape_star]
    · obtain ⟨c, x, rfl⟩ := List.exists_cons_of_ne_nil hx
      rw [List.flatMap_cons]
      exact List.append_ne_nil_of_left_ne_nil (escape_ne_nil c) _

/-- The text of the block. -/
def linkText (links : List Text) : Text :=
  "**正文中的链接**\n".toList ++ Text.join (links.map markdownLink) ['\n']

/-- The links of the block are the ones it is made of, whatever is in them. -/
theorem links_linkText {links : List Text} (h : ∀ u ∈ links, '\n' ∉ u) :
    LarkMd.links (linkText links)
      = links.map fun u => ⟨LarkMd.shown (linkEscaper u), linkEscaper u⟩ := by
  have hlabel : '[' ∉ "**正文中的链接**\n".toList := by decide
  have hlink (u : Text) (hu : '\n' ∉ u) (t : Text) : LarkMd.links (markdownLink u ++ t)
      = ⟨LarkMd.shown (linkEscaper u), linkEscaper u⟩ :: LarkMd.links t := by
    have hline := newline_notMem_escaped.mpr hu
    have hbrackets (c : Char) (hc : c ∈ linkEscaper u) :
        LarkMd.inLabel c = true ∧ LarkMd.inTarget c = true := by
      obtain ⟨d, -, hd⟩ := List.mem_flatMap.mp hc
      obtain ⟨h₁, h₂, h₃, h₄, -⟩ := mem_escape hd
      have h₅ : c ≠ '\n' := fun h => hline (h ▸ hc)
      simp [LarkMd.inLabel, LarkMd.inTarget, LarkMd.inLine, h₁, h₂, h₃, h₄, h₅]
    have hread := LarkMd.links_link (fun c hc => (hbrackets c hc).1) (fun c hc => (hbrackets c hc).2) t
    rw [← hread]
    unfold markdownLink
    simp
  have hnone : LarkMd.links [] = [] := rfl
  unfold linkText Text.join
  rw [LarkMd.links_append hlabel]
  induction links with
  | nil => rfl
  | cons u links ih =>
    have hu := h u List.mem_cons_self
    have hrest := ih fun v hv => h v (List.mem_cons_of_mem _ hv)
    cases links with
    | nil =>
      rw [List.map_singleton, List.intercalate_singleton, ← List.append_nil (markdownLink u), hlink u hu, hnone]
      rfl
    | cons v links =>
      rw [List.map_cons, List.map_cons, List.intercalate_cons_cons, List.append_assoc, hlink u hu,
        List.singleton_append, LarkMd.links_cons (by decide), ← List.map_cons (f := markdownLink), hrest]
      rfl

/-- The event about a mail with these links. -/
def Event.withLinks (evt : Event) (links : List Text) : Event :=
  { evt with mail := evt.mail.map fun mail => { mail with links := links } }

/-- The block is read as one link for each of these, and each is shown as where it leads. -/
def Shown (evt : Event) (level : ContentLevel) (links : List Text) : Prop :=
  ∀ e ∈ linkElement evt level, ∃ content,
    e = .obj [text "tag" "div".toList,
      ("text".toList, .obj [text "tag" "lark_md".toList, text "content" content])] ∧
    LarkMd.links content = links.map fun u => ⟨linkEscaper u, linkEscaper u⟩

theorem shown_iff {evt : Event} {level : ContentLevel} {links : List Text} (h : ∀ u ∈ links, '\n' ∉ u) :
    Shown (evt.withLinks links) level links ↔
      (evt.mail.isSome = true → level.wantsBody = true → ∀ u ∈ links, ¬ Bold u) := by
  cases hmail : evt.mail with
  | none =>
    have hnone : linkElement (evt.withLinks links) level = [] := by
      simp [linkElement, Event.withLinks, hmail]
    refine ⟨fun _ hsome => absurd hsome (by decide), fun _ e he => ?_⟩
    rw [hnone] at he
    exact absurd he List.not_mem_nil
  | some mail =>
    have helement : linkElement (evt.withLinks links) level =
        if level.wantsBody ∧ links ≠ [] then
          [.obj [text "tag" "div".toList,
            ("text".toList, .obj [text "tag" "lark_md".toList, text "content" (linkText links)])]]
        else [] := by
      simp only [linkElement, Event.withLinks, hmail]
      rfl
    by_cases hshow : level.wantsBody ∧ links ≠ []
    · rw [if_pos hshow] at helement
      have hall : (links.map fun u => (⟨LarkMd.shown (linkEscaper u), linkEscaper u⟩ : LarkMd.Link))
          = (links.map fun u => ⟨linkEscaper u, linkEscaper u⟩) ↔ ∀ u ∈ links, ¬ Bold u := by
        rw [List.map_inj_left]
        refine forall_congr' fun u => forall_congr' fun _ => ?_
        rw [← bold_linkEscaper, ← LarkMd.shown_eq_self_iff]
        simp
      constructor
      · intro hshown _ _
        obtain ⟨content, hcontent, hlinks⟩ := hshown _ (helement ▸ List.mem_singleton.mpr rfl)
        obtain rfl : linkText links = content := by
          simpa [text] using hcontent
        exact hall.mp ((links_linkText h).symm.trans hlinks)
      · intro hplain e he
        rw [helement] at he
        exact ⟨_, List.mem_singleton.mp he, (links_linkText h).trans (hall.mpr (hplain rfl hshow.1))⟩
    · rw [if_neg hshow] at helement
      refine ⟨fun _ _ hwants u hu => ?_, fun _ e he => ?_⟩
      · exact absurd ⟨hwants, List.ne_nil_of_mem hu⟩ hshow
      · rw [helement] at he
        exact absurd he List.not_mem_nil

end FlyMail.Notify
