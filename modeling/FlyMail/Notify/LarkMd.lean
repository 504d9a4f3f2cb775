/-
What Feishu makes of a text with marks.

Two marks are known of it: `[label](target)` is a link and `**x**` is bold.  A mark cannot be escaped.
A link is read before what is bold, so what is opened in a link is not closed behind it.
-/
import FlyMail.Lib.Pattern

namespace FlyMail.Notify.LarkMd

open Pattern

/-- A link as the reader of the card has it. -/
structure Link where
  shown : Text
  target : Text
  deriving DecidableEq, Repr

def inLine (c : Char) : Bool := c != '\n'

def inLabel (c : Char) : Bool := c != '[' && c != ']' && inLine c

def inTarget (c : Char) : Bool := c != '(' && c != ')' && inLine c

def reBold : Pattern :=
  seqs [one '*', one '*', .group 1 (.seq (.char inLine) (.few inLine)), one '*', one '*']

def reLink : Pattern :=
  seqs [one '[', .group 1 (.many inLabel), one ']', one '(', .group 2 (.many inTarget), one ')']

/-- What is bold loses its marks. -/
def shown (t : Text) : Text := reBold.replaceAll (fun m => m.group 1) t

/-- The links of a text, from left to right. -/
def links (t : Text) : List Link := (reLink.findAll t).map fun m => ⟨shown (m.group 1), m.group 2⟩

/-- Two marks with something between them. -/
def Bold (t : Text) : Prop :=
  ∃ a x b, t = a ++ '*' :: '*' :: (x ++ '*' :: '*' :: b) ∧ x ≠ [] ∧ '\n' ∉ x

/-! ### Links -/

/-- A link that is closed where it should be. -/
theorem links_link {label target : Text} (hlabel : ∀ c ∈ label, inLabel c = true)
    (htarget : ∀ c ∈ target, inTarget c = true) (t : Text) :
    links ('[' :: label ++ "](".toList ++ target ++ ')' :: t) = ⟨shown label, target⟩ :: links t := by
  have hopen : (one '[').Takes ('[' :: (label ++ ']' :: '(' :: (target ++ ')' :: t))) _ :=
    Takes.char (beq_self_eq_true _) _
  have hmany := (Takes.many hlabel (c := ']') (by decide) ('(' :: (target ++ ')' :: t))).group (n := 1)
  have hclose : (one ']').Takes (']' :: '(' :: (target ++ ')' :: t)) _ := Takes.char (beq_self_eq_true _) _
  have hopen' : (one '(').Takes ('(' :: (target ++ ')' :: t)) _ := Takes.char (beq_self_eq_true _) _
  have hmany' := (Takes.many htarget (c := ')') (by decide) t).group (n := 2)
  have hclose' : (one ')').Takes (')' :: t) _ := Takes.char (beq_self_eq_true _) _
  have htakes := hopen.seq (hmany.seq (hclose.seq (hopen'.seq (hmany'.seq hclose'))))
  have hfirst : reLink.first ('[' :: (label ++ ']' :: '(' :: (target ++ ')' :: t))) = some _ :=
    htakes.first (List.cons_ne_nil _ _)
  have htext : '[' :: label ++ "](".toList ++ target ++ ')' :: t
      = ('[' :: (label ++ ']' :: '(' :: (target ++ [')']))) ++ t := by simp
  have htext' : '[' :: (label ++ ']' :: '(' :: (target ++ ')' :: t))
      = ('[' :: (label ++ ']' :: '(' :: (target ++ [')']))) ++ t := by simp
  rw [htext'] at hfirst
  rw [htext]
  unfold links
  rw [findAll_append hfirst (by simp)]
  rfl

/-- What is no opening bracket begins no link. -/
theorem links_cons {c : Char} (hc : c ≠ '[') (t : Text) : links (c :: t) = links t := by
  have hnone : reLink.first (c :: t) = none := by
    have hopen : (one '[').tries (c :: t) = [] := if_neg (by simpa using hc)
    have htries : reLink.tries (c :: t) = [] := by
      show ((one '[').tries (c :: t)).flatMap _ = []
      rw [hopen]
      rfl
    unfold first
    rw [htries]
    rfl
  unfold links
  rw [findAll_cons hnone]

theorem links_append {w : Text} (hw : '[' ∉ w) (t : Text) : links (w ++ t) = links t := by
  induction w with
  | nil => rfl
  | cons c w ih =>
    have hc : c ≠ '[' := fun h => hw (h ▸ List.mem_cons_self)
    rw [List.cons_append, links_cons hc, ih fun h => hw (List.mem_cons_of_mem _ h)]

/-! ### What is bold -/

/-- A match of the pattern: marks, something between them, marks. -/
theorem mem_tries_reBold {t : Text} {m : Match} (h : m ∈ reBold.tries t) :
    ∃ x, x ≠ [] ∧ '\n' ∉ x ∧ m.taken = '*' :: '*' :: (x ++ ['*', '*']) ∧ m.group 1 = x := by
  obtain ⟨m₁, h₁, m₂, h₂, htaken, hgroups⟩ := mem_tries_seq h
  obtain ⟨m₃, h₃, m₄, h₄, htaken₂, hgroups₂⟩ := mem_tries_seq h₂
  obtain ⟨m₅, h₅, m₆, h₆, htaken₄, hgroups₄⟩ := mem_tries_seq h₄
  obtain ⟨m₇, h₇, m₈, h₈, htaken₆, hgroups₆⟩ := mem_tries_seq h₆
  obtain ⟨m₉, h₉, htaken₅, hgroups₅⟩ := mem_tries_group h₅
  obtain ⟨m₁₀, h₁₀, m₁₁, h₁₁, htaken₉, hgroups₉⟩ := mem_tries_seq h₉
  obtain ⟨c, rest, hc, rfl⟩ := mem_tries_char h₁₀
  obtain ⟨hclass, hnone⟩ := mem_runs m₁₁ (List.mem_reverse.mp h₁₁)
  obtain ⟨ht₁, hg₁⟩ := mem_tries_one h₁
  obtain ⟨ht₃, hg₃⟩ := mem_tries_one h₃
  obtain ⟨ht₇, hg₇⟩ := mem_tries_one h₇
  obtain ⟨ht₈, hg₈⟩ := mem_tries_one h₈
  refine ⟨m₉.taken, by rw [htaken₉]; exact List.cons_ne_nil _ _, ?_, ?_, ?_⟩
  · rw [htaken₉]
    intro hmem
    rcases List.mem_cons.mp hmem with heq | hmem
    · rw [← heq] at hc
      exact absurd hc (by decide)
    · exact absurd (hclass _ hmem) (by decide)
  · rw [htaken, htaken₂, htaken₄, htaken₆, htaken₅, ht₁, ht₃, ht₇, ht₈]
    rfl
  · have hall : m.groups = [(1, m₉.taken)] := by
      rw [hgroups, hgroups₂, hgroups₄, hgroups₆, hgroups₅, hgroups₉, hg₁, hg₃, hg₇, hg₈, hnone]
      rfl
    unfold Match.group
    rw [hall]
    rfl

/-- Where something is bold, a match begins. -/
theorem first_reBold {x : Text} (hx : x ≠ []) (hline : '\n' ∉ x) (b : Text) :
    (reBold.first ('*' :: '*' :: (x ++ '*' :: '*' :: b))).isSome = true := by
  obtain ⟨c, x, rfl⟩ := List.exists_cons_of_ne_nil hx
  have hinLine (d : Char) (hd : d ∈ c :: x) : inLine d = true := by
    have hne : d ≠ '\n' := fun h => hline (h ▸ hd)
    simpa [inLine] using hne
  have hstar (t : Text) : (one '*').Leaves ('*' :: t) t := Leaves.char (beq_self_eq_true _) t
  have hfew : (Pattern.few inLine).Leaves (x ++ '*' :: '*' :: b) ('*' :: '*' :: b) :=
    (Leaves.many (fun d hd => hinLine d (List.mem_cons_of_mem _ hd)) _).few
  have hbold : reBold.Leaves ('*' :: '*' :: (c :: x ++ '*' :: '*' :: b)) b :=
    (hstar _).seq ((hstar _).seq ((((Leaves.char (hinLine c List.mem_cons_self) _).seq hfew).group).seq
      ((hstar _).seq (hstar b))))
  obtain ⟨m, hm, -⟩ := hbold
  exact first_isSome (by rfl) hm

theorem findAll_reBold {t : Text} : reBold.findAll t = [] ↔ ¬ Bold t := by
  constructor
  · rintro h ⟨a, x, b, rfl, hx, hline⟩
    have hsome := first_reBold hx hline b
    rw [first_eq_none_of_findAll h a _ _ rfl] at hsome
    cases hsome
  · intro h
    by_contra hfound
    refine h ?_
    refine @scan_rule Char reBold id (fun t pieces => pieces.filterMap _ ≠ [] → Bold t) ?_ ?_ ?_ t hfound
    · exact fun hne => absurd rfl hne
    · intro c rest _ ih hne
      obtain ⟨a, x, b, rfl, hx, hline⟩ := ih hne
      exact ⟨c :: a, x, b, rfl, hx, hline⟩
    · intro cells m rest hfirst htaken _ _
      obtain ⟨x, hx, hline, hm, -⟩ := mem_tries_reBold (first_eq_some hfirst).1
      rw [hm, List.map_id] at htaken
      refine ⟨[], x, rest, ?_, hx, hline⟩
      rw [← htaken]
      simp

/-- **A text is shown as it is** unless something in it is bold. -/
theorem shown_eq_self_iff {t : Text} : shown t = t ↔ ¬ Bold t := by
  rw [← findAll_reBold]
  constructor
  · intro h
    have hnone := @findAll_of_rewrite Char reBold id (fun _ m => m.group 1)
      (fun cells m hfirst htaken => ?_) t h
    · rwa [List.map_id] at hnone
    · obtain ⟨x, -, -, hm, hx⟩ := mem_tries_reBold (first_eq_some hfirst).1
      have hlength := congrArg List.length htaken
      rw [hm, List.length_map] at hlength
      simp only [List.length_cons, List.length_append, List.length_nil] at hlength
      rw [hx]
      omega
  · intro h
    exact rewrite_of_findAll (by rwa [List.map_id])

end FlyMail.Notify.LarkMd
