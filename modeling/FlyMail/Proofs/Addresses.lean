/-
Conditions on addresses.

A list of recipients is written as one text, once with names and once without, and a condition
looks at the two texts.  That is as good as looking at each address only for a list of one: at
the beginning of the text only the first address is seen, at its end only the last one, and the
whole is never one of several; and a value may run over the comma between two addresses.
`AddrApart` says when none of that matters.
-/
import FlyMail.Lib.Joined
import FlyMail.Rule.Service

namespace FlyMail.Rules

open Joined (Fits Runs Tight seen)

/-! ### What a condition says of the addresses -/

def addrFields : List Text := [fieldFrom, fieldTo, fieldCc]

/-- The addresses of the field. -/
def addresses (field : Text) (m : Mail) : List Address :=
  if field = fieldFrom then [⟨m.row.fromName, m.row.fromAddr⟩]
  else if field = fieldTo then m.row.toList
  else m.row.ccList

/-- An address with its name. -/
def fullForm (a : Address) : Text := formatAddr a.name a.email

/-- The operator holds of one of the addresses, with its name or without; of none, if it is
`not_contains`. -/
def HoldsOf (lib : Lib) (cond : Condition × Option (Text → Bool)) (as : List Address) : Prop :=
  if cond.1.op = opNotContains then
    ∀ a ∈ as, matchText lib cond (fullForm a) = true ∧ matchText lib cond a.email = true
  else ∃ a ∈ as, matchText lib cond (fullForm a) = true ∨ matchText lib cond a.email = true

/-! ### Where it looks -/

section Where

variable (lib : Lib) (cond : Condition × Option (Text → Bool))

def value : Text := lib.toLower (Text.trimSpace cond.1.value)

def atStart : Bool := cond.1.op == opEquals || cond.1.op == opStartsWith

def atEnd : Bool := cond.1.op == opEquals || cond.1.op == opEndsWith

/-- The value stands in the text where the operator wants it. -/
def Hits (t : Text) : Prop :=
  Fits Text.isSpace (atStart cond) (atEnd cond) (value lib cond) (lib.toLower t)

/-- It stands in the address, with its name or without. -/
def HitsAddr (a : Address) : Prop := Hits lib cond (fullForm a) ∨ Hits lib cond a.email

/-- It runs over a comma in the list. -/
def RunsOver (ts : List Text) : Prop :=
  Runs Text.isSpace ',' ' ' (atStart cond) (atEnd cond) (value lib cond) (ts.map lib.toLower)

/-- The value runs over no comma without being in an address, and if it is in some address, then
in one that stands where the operator looks. -/
def AddrApart (as : List Address) : Prop :=
  if cond.1.op = opNotContains then
    RunsOver lib cond (as.map fullForm) → ∃ a ∈ as, HitsAddr lib cond a
  else
    (RunsOver lib cond (as.map fullForm) ∨ RunsOver lib cond (as.map Address.email) →
      ∃ a ∈ as, HitsAddr lib cond a) ∧
    ((∃ a ∈ as, HitsAddr lib cond a) →
      (∃ a ∈ seen (atStart cond) (atEnd cond) as, HitsAddr lib cond a) ∨
        RunsOver lib cond (as.map fullForm) ∨ RunsOver lib cond (as.map Address.email))

end Where

section

variable {lib : Lib} {cond : Condition × Option (Text → Bool)}

theorem tight_value (hspace : ∀ c, Text.isSpace (lib.lower c) = Text.isSpace c) :
    Tight Text.isSpace (value lib cond) :=
  (Joined.tight_trim cond.1.value).map hspace

theorem value_ne_nil (hvalue : Text.trimSpace cond.1.value ≠ []) : value lib cond ≠ [] := by
  unfold value Lib.toLower
  simpa using hvalue

/-- The operators, as places where the value must stand. -/
theorem matchText_iff (hspace : ∀ c, Text.isSpace (lib.lower c) = Text.isSpace c)
    (hvalue : Text.trimSpace cond.1.value ≠ []) (hop : cond.1.op ∈ validOps) (hregex : cond.1.op ≠ opRegex)
    (t : Text) : matchText lib cond t = true ↔
      (if cond.1.op = opNotContains then ¬ Hits lib cond t else Hits lib cond t) := by
  have htight : Tight Text.isSpace (value lib cond) := tight_value hspace
  have hne := @value_ne_nil lib cond hvalue
  have hstart : ∀ op, cond.1.op = op → atStart cond = (op == opEquals || op == opStartsWith) := by
    rintro op rfl
    rfl
  have hend : ∀ op, cond.1.op = op → atEnd cond = (op == opEquals || op == opEndsWith) := by
    rintro op rfl
    rfl
  unfold Hits
  simp only [validOps, List.mem_cons, List.not_mem_nil, or_false] at hop
  rcases hop with hop | hop | hop | hop | hop | hop
  · rw [hstart _ hop, hend _ hop, matchText, hop, if_neg (show ¬ opContains = opRegex by decide),
      if_pos rfl, if_neg (show ¬ opContains = opNotContains by decide), contains, decide_eq_true_iff]
    exact (Joined.fits_anywhere hne htight).symm
  · rw [hstart _ hop, hend _ hop, matchText, hop, if_neg (show ¬ opNotContains = opRegex by decide),
      if_neg (show ¬ opNotContains = opContains by decide), if_pos rfl, if_pos rfl, contains,
      Bool.not_eq_true', decide_eq_false_iff_not]
    exact not_congr (Joined.fits_anywhere hne htight).symm
  · rw [hstart _ hop, hend _ hop, matchText, hop, if_neg (show ¬ opEquals = opRegex by decide),
      if_neg (show ¬ opEquals = opContains by decide), if_neg (show ¬ opEquals = opNotContains by decide),
      if_pos rfl, if_neg (show ¬ opEquals = opNotContains by decide), beq_iff_eq]
    exact Joined.fits_whole.symm
  · exact absurd hop hregex
  · rw [hstart _ hop, hend _ hop, matchText, hop, if_neg (show ¬ opStartsWith = opRegex by decide),
      if_neg (show ¬ opStartsWith = opContains by decide),
      if_neg (show ¬ opStartsWith = opNotContains by decide),
      if_neg (show ¬ opStartsWith = opEquals by decide), if_pos rfl,
      if_neg (show ¬ opStartsWith = opNotContains by decide), List.isPrefixOf_iff_prefix]
    exact Joined.fits_start.symm
  · rw [hstart _ hop, hend _ hop, matchText, hop, if_neg (show ¬ opEndsWith = opRegex by decide),
      if_neg (show ¬ opEndsWith = opContains by decide),
      if_neg (show ¬ opEndsWith = opNotContains by decide),
      if_neg (show ¬ opEndsWith = opEquals by decide), if_neg (show ¬ opEndsWith = opStartsWith by decide),
      if_pos rfl, if_neg (show ¬ opEndsWith = opNotContains by decide), List.isSuffixOf_iff_suffix]
    exact Joined.fits_end.symm

/-! ### The two texts -/

theorem join_eq (ts : List Text) : Text.join ts ", ".toList = Joined.join ',' ' ' ts := by
  induction ts with
  | nil => rfl
  | cons t ts ih =>
      cases ts with
      | nil => simp [Text.join, Joined.join]
      | cons t' ts =>
          rw [Joined.join, ← ih]
          simp [Text.join, List.intercalate_cons_cons]

theorem toLower_join (ts : List Text) :
    lib.toLower (Text.join ts ", ".toList) = Joined.join ',' ' ' (ts.map lib.toLower) := by
  have hcomma : lib.lower ',' = ',' := lib.lower_ascii ',' (by decide)
  have hblank : lib.lower ' ' = ' ' := lib.lower_ascii ' ' (by decide)
  rw [join_eq]
  exact (Joined.join_map hcomma hblank ts).symm

/-- The value is found in the list where an address that is seen has it, or over a comma. -/
theorem hits_join (hspace : ∀ c, Text.isSpace (lib.lower c) = Text.isSpace c)
    (hvalue : Text.trimSpace cond.1.value ≠ []) (ts : List Text) :
    Hits lib cond (Text.join ts ", ".toList) ↔
      (∃ t ∈ seen (atStart cond) (atEnd cond) ts, Hits lib cond t) ∨ RunsOver lib cond ts := by
  unfold Hits RunsOver
  rw [toLower_join, Joined.fits_join (by decide) (by decide) (value_ne_nil hvalue) (tight_value hspace),
    Joined.seen_map]
  simp only [List.mem_map, exists_exists_and_eq_and]

theorem hits_joinAddrs (hspace : ∀ c, Text.isSpace (lib.lower c) = Text.isSpace c)
    (hvalue : Text.trimSpace cond.1.value ≠ []) (form : Address → Text) (as : List Address) :
    Hits lib cond (Text.join (as.map form) ", ".toList) ↔
      (∃ a ∈ seen (atStart cond) (atEnd cond) as, Hits lib cond (form a)) ∨
        RunsOver lib cond (as.map form) := by
  rw [hits_join hspace hvalue, Joined.seen_map]
  simp only [List.mem_map, exists_exists_and_eq_and]

/-- The bare address is part of the address with its name. -/
theorem hits_fullForm (hspace : ∀ c, Text.isSpace (lib.lower c) = Text.isSpace c)
    (hvalue : Text.trimSpace cond.1.value ≠ []) (hop : cond.1.op = opNotContains) {a : Address}
    (h : Hits lib cond a.email) : Hits lib cond (fullForm a) := by
  have hstart : atStart cond = false := by rw [atStart, hop]; decide
  have hend : atEnd cond = false := by rw [atEnd, hop]; decide
  unfold Hits at h ⊢
  rw [hstart, hend, Joined.fits_anywhere (value_ne_nil hvalue) (tight_value hspace)] at h ⊢
  refine h.trans ?_
  unfold fullForm formatAddr Lib.toLower
  split
  · exact List.infix_rfl
  · refine List.IsInfix.map lib.lower ⟨a.name ++ " <".toList, ['>'], ?_⟩
    rfl

end

/-! ### The condition -/

section

variable {lib : Lib} {cond : Condition × Option (Text → Bool)}

/-- What the mail's view has of the addresses of a field. -/
theorem evalCondition_addr (hfield : cond.1.field ∈ addrFields) (m : Mail) (needBody needAtts : Bool) :
    (evalCondition lib cond (view m needBody needAtts)).1
      = matchAddr lib cond (Text.join ((addresses cond.1.field m).map fullForm) ", ".toList)
          (Text.join ((addresses cond.1.field m).map Address.email) ", ".toList) := by
  have hsingle : ∀ t : Text, Text.join [t] ", ".toList = t := fun t => by simp [Text.join]
  simp only [addrFields, List.mem_cons, List.not_mem_nil, or_false] at hfield
  rcases hfield with hfield | hfield | hfield
  · rw [evalCondition, addresses, hfield, if_neg (show ¬ fieldFrom = fieldHasAttachment by decide),
      if_neg (show ¬ fieldFrom = fieldAttachmentName by decide),
      if_neg (show ¬ fieldFrom = fieldBody by decide), if_pos rfl, if_pos rfl]
    simp only [List.map_cons, List.map_nil, hsingle]
    rfl
  · rw [evalCondition, addresses, hfield, if_neg (show ¬ fieldTo = fieldHasAttachment by decide),
      if_neg (show ¬ fieldTo = fieldAttachmentName by decide),
      if_neg (show ¬ fieldTo = fieldBody by decide), if_neg (show ¬ fieldTo = fieldFrom by decide),
      if_pos rfl, if_neg (show ¬ fieldTo = fieldFrom by decide), if_pos rfl]
    rfl
  · rw [evalCondition, addresses, hfield, if_neg (show ¬ fieldCc = fieldHasAttachment by decide),
      if_neg (show ¬ fieldCc = fieldAttachmentName by decide),
      if_neg (show ¬ fieldCc = fieldBody by decide), if_neg (show ¬ fieldCc = fieldFrom by decide),
      if_neg (show ¬ fieldCc = fieldTo by decide), if_pos rfl,
      if_neg (show ¬ fieldCc = fieldFrom by decide), if_neg (show ¬ fieldCc = fieldTo by decide)]
    rfl

/-- A condition on addresses that has passed the check has a value and a known operator. -/
theorem checkCondition_addr {i : Nat} {c : Condition} (hcheck : checkCondition lib i c = .ok cond)
    (hfield : cond.1.field ∈ addrFields) :
    cond.1.op ∈ validOps ∧ Text.trimSpace cond.1.value ≠ [] := by
  have hcond : cond.1 = c := by
    unfold checkCondition at hcheck
    repeat' split at hcheck
    all_goals cases hcheck
    all_goals rfl
  rw [hcond] at hfield ⊢
  have hattachment : c.field ≠ fieldHasAttachment := by
    rintro heq
    rw [heq] at hfield
    exact absurd hfield (by decide)
  unfold checkCondition at hcheck
  rw [if_neg hattachment] at hcheck
  split at hcheck
  · cases hcheck
  · split at hcheck
    · cases hcheck
    · rename_i hop
      split at hcheck
      · cases hcheck
      · rename_i hvalue
        exact ⟨not_not.mp hop, hvalue⟩

/-- **A condition on a list of addresses says what it says of each address**, if the value runs
over no comma and the operator sees the addresses that have it. -/
theorem addrCondition_iff (lib : Lib) (hspace : ∀ c, Text.isSpace (lib.lower c) = Text.isSpace c)
    {i : Nat} {c : Condition} {cond : Condition × Option (Text → Bool)}
    (hcheck : checkCondition lib i c = .ok cond) (hfield : cond.1.field ∈ addrFields)
    (hregex : cond.1.op ≠ opRegex) (m : Mail) (needBody needAtts : Bool) :
    ((evalCondition lib cond (view m needBody needAtts)).1 = true ↔
        HoldsOf lib cond (addresses cond.1.field m)) ↔
      AddrApart lib cond (addresses cond.1.field m) := by
  obtain ⟨hop, hvalue⟩ := checkCondition_addr hcheck hfield
  have hmatch := @matchText_iff lib cond hspace hvalue hop hregex
  have hfulls := hits_joinAddrs hspace hvalue fullForm (addresses cond.1.field m)
  have hemails := hits_joinAddrs hspace hvalue Address.email (addresses cond.1.field m)
  rw [evalCondition_addr hfield, matchAddr, HoldsOf, AddrApart]
  by_cases hnot : cond.1.op = opNotContains
  · -- only the addresses with their names are looked at, which have the bare ones in them
    have hstart : atStart cond = false := by rw [atStart, hnot]; decide
    have hend : atEnd cond = false := by rw [atEnd, hnot]; decide
    simp only [hnot, if_true] at hmatch ⊢
    have hbare : ∀ a, Hits lib cond a.email → Hits lib cond (fullForm a) := fun a =>
      hits_fullForm hspace hvalue hnot
    simp only [hmatch, hfulls, hstart, hend, seen, HitsAddr]
    constructor
    · intro h hruns
      by_contra hno
      refine h.mpr (fun a ha => ⟨fun hhit => hno ⟨a, ha, Or.inl hhit⟩, fun hhit => hno ⟨a, ha, Or.inr hhit⟩⟩)
        (Or.inr hruns)
    · intro h
      constructor
      · intro hno a ha
        exact ⟨fun hhit => hno (Or.inl ⟨a, ha, hhit⟩), fun hhit => hno (Or.inl ⟨a, ha, hbare a hhit⟩)⟩
      · rintro hall (⟨a, ha, hhit⟩ | hruns)
        · exact (hall a ha).1 hhit
        · obtain ⟨a, ha, hhit | hhit⟩ := h hruns
          · exact (hall a ha).1 hhit
          · exact (hall a ha).2 hhit
  · simp only [hnot, if_false] at hmatch ⊢
    rw [Bool.or_eq_true, hmatch, hmatch, hfulls, hemails]
    simp only [hmatch, HitsAddr]
    have hsub : ∀ a, a ∈ seen (atStart cond) (atEnd cond) (addresses cond.1.field m) →
        a ∈ addresses cond.1.field m := fun a ha => Joined.mem_of_mem_seen ha
    constructor
    · intro h
      refine ⟨fun hruns => h.mp ?_, fun hhit => ?_⟩
      · exact hruns.elim (fun hruns => Or.inl (Or.inr hruns)) fun hruns => Or.inr (Or.inr hruns)
      · rcases h.mpr hhit with (⟨a, ha, hhit⟩ | hruns) | ⟨a, ha, hhit⟩ | hruns
        · exact Or.inl ⟨a, ha, Or.inl hhit⟩
        · exact Or.inr (Or.inl hruns)
        · exact Or.inl ⟨a, ha, Or.inr hhit⟩
        · exact Or.inr (Or.inr hruns)
    · rintro ⟨hruns, hseen⟩
      constructor
      · rintro ((⟨a, ha, hhit⟩ | hrun) | ⟨a, ha, hhit⟩ | hrun)
        · exact ⟨a, hsub a ha, Or.inl hhit⟩
        · exact hruns (Or.inl hrun)
        · exact ⟨a, hsub a ha, Or.inr hhit⟩
        · exact hruns (Or.inr hrun)
      · intro hhit
        rcases hseen hhit with ⟨a, ha, hhit | hhit⟩ | hrun | hrun
        · exact Or.inl (Or.inl ⟨a, ha, hhit⟩)
        · exact Or.inr (Or.inl ⟨a, ha, hhit⟩)
        · exact Or.inl (Or.inr hrun)
        · exact Or.inr (Or.inr hrun)

/-! ### Two recipients -/

def plainLib : Lib := ⟨Char.toLower, Lib.toLower_ascii, fun _ => .error [], fun t => t⟩

def sentTo (emails : List String) : Mail where
  row := { Message.bare 1 1 1 (.numbered 1) with toList := emails.map fun a => ⟨[], a.toList⟩ }
  body := none
  attachments := []

def toCondition (op : Text) (value : String) : Condition := ⟨fieldTo, op, value.toList⟩

theorem addrCondition_iff_two :
    ((evalCondition plainLib (toCondition opEndsWith "@y.example", none)
        (view (sentTo ["a@x.example", "b@y.example"]) false false)).1 = true ↔
        HoldsOf plainLib (toCondition opEndsWith "@y.example", none)
          (addresses fieldTo (sentTo ["a@x.example", "b@y.example"]))) ↔
      AddrApart plainLib (toCondition opEndsWith "@y.example", none)
        (addresses fieldTo (sentTo ["a@x.example", "b@y.example"])) :=
  addrCondition_iff plainLib Text.isSpace_toLower (i := 0) (c := toCondition opEndsWith "@y.example")
    (by rfl) (by decide) (by decide) (sentTo ["a@x.example", "b@y.example"]) false false

/-- One of two recipients does not equal its own address. -/
theorem unequal_among_two : ¬ ∀ (lib : Lib), (∀ c, Text.isSpace (lib.lower c) = Text.isSpace c) →
    ∀ (i : Nat) (c : Condition) (cond : Condition × Option (Text → Bool)),
      checkCondition lib i c = .ok cond → cond.1.field ∈ addrFields → cond.1.op ≠ opRegex →
      ∀ (m : Mail) (needBody needAtts : Bool),
        ((evalCondition lib cond (view m needBody needAtts)).1 = true ↔
          HoldsOf lib cond (addresses cond.1.field m)) := by
  intro h
  have hiff := h plainLib Text.isSpace_toLower 0 (toCondition opEquals "a@x.example")
    (toCondition opEquals "a@x.example", none) (by rfl) (by decide) (by decide)
    (sentTo ["a@x.example", "b@y.example"]) false false
  have hholds : HoldsOf plainLib (toCondition opEquals "a@x.example", none)
      (addresses fieldTo (sentTo ["a@x.example", "b@y.example"])) := by
    rw [HoldsOf, if_neg (by decide)]
    exact ⟨⟨[], "a@x.example".toList⟩, List.mem_cons_self, Or.inr (by decide)⟩
  exact absurd (hiff.mpr hholds) (by decide)

end

end FlyMail.Rules
