/-
What an entry of the block list blocks.

An entry says an address, or a domain and what belongs to it, and blocks just that.  An own
address is refused as an entry, but only as it stands: a domain to which an own address belongs
is taken, and then blocks it.
-/
import FlyMail.Rule.Blocks

namespace FlyMail.Rules

variable {lib : Lib}

/-- The address is of the domain or of one below it. -/
def Within (domain addr : Text) : Prop :=
  ∃ localPart d, addr = localPart ++ '@' :: d ∧ '@' ∉ d ∧ (d = domain ∨ ('.' :: domain) <:+ d)

/-- The entry says this address. -/
def Says (lib : Lib) (p addr : Text) : Prop :=
  if '@' ∈ p then lib.toLower (Text.trimSpace addr) = p
  else Within p (lib.toLower (Text.trimSpace addr))

/-! ### Domains -/

/-- What comes after the last `@`. -/
theorem exists_domain {addr : Text} (h : '@' ∈ addr) :
    ∃ localPart d, addr = localPart ++ '@' :: d ∧ '@' ∉ d := by
  obtain ⟨d, localPart, heq, hnot⟩ := List.eq_append_cons_of_mem (List.mem_reverse.mpr h)
  refine ⟨localPart.reverse, d.reverse, ?_, fun hmem => hnot (List.mem_reverse.mp hmem)⟩
  rw [← List.reverse_reverse addr, heq]
  simp

/-- The two endings that are looked for say the domain. -/
theorem within_iff {p : Text} (hp : '@' ∉ p) (addr : Text) :
    Within p addr ↔ ('@' :: p) <:+ addr ∨ (('.' :: p) <:+ addr ∧ '@' ∈ addr) := by
  constructor
  · rintro ⟨localPart, d, rfl, -, rfl | hbelow⟩
    · exact Or.inl (List.suffix_append localPart _)
    · refine Or.inr ⟨?_, by simp⟩
      exact hbelow.trans ((List.suffix_cons '@' d).trans (List.suffix_append localPart _))
  · rintro (⟨localPart, rfl⟩ | ⟨hbelow, hat⟩)
    · exact ⟨localPart, p, rfl, hp, Or.inl rfl⟩
    · obtain ⟨localPart, d, rfl, hd⟩ := exists_domain hat
      refine ⟨localPart, d, rfl, hd, Or.inr ?_⟩
      rcases List.suffix_or_suffix_of_suffix hbelow (List.suffix_append localPart ('@' :: d)) with h | h
      · rcases List.suffix_cons_iff.mp h with heq | h
        · cases heq
        · exact h
      · have hmem : '@' ∈ '.' :: p := h.subset List.mem_cons_self
        simp [hp] at hmem

theorem not_within_nil (p : Text) : ¬ Within p [] := by
  rintro ⟨localPart, d, heq, -⟩
  exact absurd heq.symm (List.append_ne_nil_of_right_ne_nil _ (List.cons_ne_nil _ _))

/-- **An entry blocks what it says.** -/
theorem blocked_iff (p addr : Text) : (blocked lib addr [p]).isSome = true ↔ Says lib p addr := by
  have hblocks : ∀ a, a ≠ [] → (([p].find? (blocks a)).isSome = true ↔ blocks a p = true) := by
    intro a _
    by_cases h : blocks a p = true
    · simp [h]
    · simp [h]
  unfold blocked Says
  dsimp only
  by_cases hnil : lib.toLower (Text.trimSpace addr) = []
  · rw [if_pos hnil, hnil]
    split
    · rename_i hat
      refine ⟨fun h => (by cases h), ?_⟩
      rintro rfl
      exact (List.not_mem_nil hat).elim
    · exact ⟨fun h => (by cases h), fun h => absurd h (not_within_nil p)⟩
  · rw [if_neg hnil, hblocks _ hnil, blocks]
    split
    · exact beq_iff_eq
    · rename_i hat
      rw [within_iff hat]
      simp [List.isSuffixOf_iff_suffix]

/-! ### What is taken -/

/-- An entry that is taken has been brought into form and is none of the own addresses. -/
theorem addBlock_ok {equalFold : Text → Text → Bool} {selfAddrs : Option (List Text)} {now : Time}
    {list : BlockList} {pattern note : Text} {entry : BlockEntry}
    (h : (addBlock lib equalFold selfAddrs now list pattern note).1 = .ok entry) :
    entry.pattern = normalizePattern lib pattern ∧
      ∀ self ∈ selfAddrs.getD [], equalFold (Text.trimSpace self) entry.pattern = false := by
  unfold addBlock at h
  dsimp only at h
  split at h
  · cases h
  · split at h
    · cases h
    · rename_i hself
      split at h
      · obtain rfl := Except.ok.inj h
        refine ⟨rfl, fun self hmem => ?_⟩
        refine Bool.eq_false_iff.mpr fun hsame => hself ?_
        exact List.any_eq_true.mpr ⟨self, hmem, hsame⟩
      · cases h

/-- No own address belongs to the entry's domain; and if the entry is an address, the own ones
that are the same in small letters are the same but for case. -/
def SparesOwn (lib : Lib) (equalFold : Text → Text → Bool) (own : List Text) (p : Text) : Prop :=
  if '@' ∈ p then
    ∀ self ∈ own, lib.toLower (Text.trimSpace self) = p → equalFold (Text.trimSpace self) p = true
  else ∀ self ∈ own, ¬ Within p (lib.toLower (Text.trimSpace self))

/-- **An entry that is taken blocks what it says, and none of the own addresses**, if these do
not belong to its domain. -/
theorem addBlock_spares_iff (lib : Lib) (equalFold : Text → Text → Bool) {own : List Text} {now : Time}
    {list : BlockList} {pattern note : Text} {entry : BlockEntry}
    (h : (addBlock lib equalFold (some own) now list pattern note).1 = .ok entry) :
    ((∀ addr, (blocked lib addr [entry.pattern]).isSome = true ↔ Says lib entry.pattern addr) ∧
        ∀ self ∈ own, blocked lib self [entry.pattern] = none) ↔
      SparesOwn lib equalFold own entry.pattern := by
  obtain ⟨-, hself⟩ := addBlock_ok h
  have hnone : ∀ self, blocked lib self [entry.pattern] = none ↔ ¬ Says lib entry.pattern self := by
    intro self
    rw [← blocked_iff, Option.isSome_iff_ne_none, not_not]
  simp only [blocked_iff, hnone, implies_true, true_and, Says, SparesOwn]
  split
  · constructor
    · exact fun hall self hmem hsame => absurd hsame (hall self hmem)
    · intro hall self hmem hsame
      have hfold := hall self hmem hsame
      rw [hself self hmem] at hfold
      cases hfold
  · rfl

/-! ### An own domain -/

def asciiLib : Lib := ⟨Char.toLower, Lib.toLower_ascii, fun _ => .error [], fun t => t⟩

def sameButCase (a b : Text) : Bool := a.map Char.toLower == b.map Char.toLower

def entryFor (pattern : String) : BlockEntry := ⟨1, pattern.toList, [], 0⟩

theorem addBlock_spares_iff_spam :
    ((∀ addr, (blocked asciiLib addr ["spam.example".toList]).isSome = true ↔
          Says asciiLib "spam.example".toList addr) ∧
        ∀ self ∈ ["Me@Work.example".toList], blocked asciiLib self ["spam.example".toList] = none) ↔
      SparesOwn asciiLib sameButCase ["Me@Work.example".toList] "spam.example".toList :=
  @addBlock_spares_iff asciiLib sameButCase ["Me@Work.example".toList] 0 .empty
    " @Spam.example".toList [] (entryFor "spam.example") (by rfl)

/-- The domain of an own address is taken as an entry. -/
theorem own_domain_blocked : ¬ ∀ (lib : Lib) (equalFold : Text → Text → Bool) (own : List Text)
    (now : Time) (list : BlockList) (pattern note : Text) (entry : BlockEntry),
      (addBlock lib equalFold (some own) now list pattern note).1 = .ok entry →
      (∀ addr, (blocked lib addr [entry.pattern]).isSome = true ↔ Says lib entry.pattern addr) ∧
        ∀ self ∈ own, blocked lib self [entry.pattern] = none := by
  intro h
  have hnone := (h asciiLib sameButCase ["me@work.example".toList] 0 .empty "work.example".toList []
    (entryFor "work.example") (by rfl)).2 "me@work.example".toList List.mem_cons_self
  exact absurd hnone (by decide)

end FlyMail.Rules
