/-
The rebuild and the components of the reply graph.

In the reply graph the rows of an account and the Message-IDs they mention are nodes.  A row is
joined to its own Message-ID and to those its header names; a reply whose header names nothing is
joined to the last mail of its subject.  Conversations are the components of this graph.

The rebuild has one kind of node only, texts: a row is its Message-ID or, if it has none, its
place.  Its forest spans the edges between those (`spans_forest`), so its classes are components
wherever a place that reads like a mentioned Message-ID is joined to it anyway: `PlacesKnown`.

Every class gets the thread of its oldest row.  What this makes of rows that have threads already
is `rebuild_restores_iff`, what it makes of rows that have none `rebuild_components_iff`.
-/
import FlyMail.Proofs.Rebuild

namespace FlyMail.Message

/-! ### The reply graph -/

/-- The order of a rebuild. -/
def Earlier (r s : Message) : Prop := r.date < s.date ∨ r.date = s.date ∧ r.id < s.id

theorem Earlier.irrefl (r : Message) : ¬ Earlier r r := by
  rintro (h | ⟨-, h⟩)
  · exact Nat.lt_irrefl _ h
  · exact Nat.lt_irrefl _ h

theorem Earlier.trans {r s t : Message} (h : Earlier r s) (h' : Earlier s t) : Earlier r t := by
  rcases h with h | ⟨hd, hi⟩
  · rcases h' with h' | ⟨hd', -⟩
    · exact Or.inl (Nat.lt_trans h h')
    · exact Or.inl (hd' ▸ h)
  · rcases h' with h' | ⟨hd', hi'⟩
    · exact Or.inl (hd ▸ h')
    · exact Or.inr ⟨hd.trans hd', Nat.lt_trans hi hi'⟩

theorem Earlier.asymm {r s : Message} (h : Earlier r s) : ¬ Earlier s r :=
  fun h' => Earlier.irrefl r (h.trans h')

/-- Of rows with keys of their own one is earlier. -/
theorem earlier_or {r s : Message} (hne : r.id ≠ s.id) : Earlier r s ∨ Earlier s r := by
  rcases Nat.lt_trichotomy r.date s.date with h | h | h
  · exact Or.inl (Or.inl h)
  · exact (Nat.lt_or_gt_of_ne hne).imp (fun hi => Or.inr ⟨h, hi⟩) fun hi => Or.inr ⟨h.symm, hi⟩
  · exact Or.inr (Or.inl h)

/-- The row is a reply by its subject alone, and `p` is the last earlier row of that subject, not
too long before it. -/
structure Follows (lower : Char → Char) (rows : List Message) (r p : Message) : Prop where
  row : r ∈ rows
  prev : p ∈ rows
  silent : r.references = [] ∧ r.inReplyTo = []
  prefixed : (normalizeSubject lower r.subject).2 = true
  same : (normalizeSubject lower p.subject).1 = (normalizeSubject lower r.subject).1
  earlier : Earlier p r
  last : ∀ q ∈ rows, (normalizeSubject lower q.subject).1 = (normalizeSubject lower r.subject).1 →
    Earlier q r → ¬ Earlier p q
  recent : r.date ≤ p.date + subjectFallbackWindow

/-- The rebuild looks for the row it follows. It does not if the subject is nothing but prefixes. -/
structure FallsBack (lower : Char → Char) (rows : List Message) (r p : Message) : Prop
    extends Follows lower rows r p where
  subject : (normalizeSubject lower r.subject).1 ≠ []

/-- The nodes of the reply graph. -/
inductive Vertex
  | row (m : Message)
  | mail (messageID : Text)

/-- The edges of the reply graph, where `follows` says which rows follow which by their subjects. -/
inductive Edge (follows : Message → Message → Prop) (rows : List Message) : Vertex → Vertex → Prop
  | own {m} (hm : m ∈ rows) (h : m.messageID ≠ []) : Edge follows rows (.row m) (.mail m.messageID)
  | reference {m t} (hm : m ∈ rows) (ht : t ∈ Text.fields m.references) :
      Edge follows rows (.row m) (.mail t)
  | answer {m} (hm : m ∈ rows) (h : m.inReplyTo ≠ []) : Edge follows rows (.row m) (.mail m.inReplyTo)
  | subject {r p} (h : follows r p) : Edge follows rows (.row p) (.row r)

/-- The nodes are of one component. -/
abbrev Connected (follows : Message → Message → Prop) (rows : List Message) : Vertex → Vertex → Prop :=
  Relation.EqvGen (Edge follows rows)

/-- The Message-ID is the row's own, or the header names it. -/
def Mentions (m : Message) (t : Text) : Prop :=
  (m.messageID ≠ [] ∧ t = m.messageID) ∨ t ∈ Text.fields m.references ∨
    (m.inReplyTo ≠ [] ∧ t = m.inReplyTo)

theorem connected_of_mentions (follows : Message → Message → Prop) {rows : List Message} {m : Message}
    (hm : m ∈ rows) {t : Text} (h : Mentions m t) : Connected follows rows (.row m) (.mail t) := by
  rcases h with ⟨hne, rfl⟩ | ht | ⟨hne, rfl⟩
  · exact .rel _ _ (.own hm hne)
  · exact .rel _ _ (.reference hm ht)
  · exact .rel _ _ (.answer hm hne)

/-- A place that reads like a mentioned Message-ID belongs to a row of that mail's component. -/
def PlacesKnown (follows : Message → Message → Prop) (rows : List Message) : Prop :=
  ∀ x ∈ rows, x.messageID = [] → ∀ m ∈ rows, Mentions m (place x) →
    Connected follows rows (.row x) (.mail (place x))

/-! ### The forest -/

/-- What a row's header joins. -/
def headerEdges (m : Message) : List (Text × Text) :=
  (Text.fields m.references).map (fun t => (node m, t)) ++
    if m.inReplyTo ≠ [] then [(node m, m.inReplyTo)] else []

/-- The edges of the forest. -/
def Linked (lower : Char → Char) (rows : List Message) (a b : Text) : Prop :=
  (∃ m ∈ rows, (a, b) ∈ headerEdges m) ∨ ∃ r p, FallsBack lower rows r p ∧ a = node p ∧ b = node r

theorem linkHeaders_joinAll (u : UnionFind Text) (m : Message) :
    linkHeaders u m = (u.find (node m)).2.joinAll (headerEdges m) := by
  unfold linkHeaders headerEdges UnionFind.joinAll
  rw [List.foldl_append, List.foldl_map]
  split
  · rfl
  · rfl

theorem spans_linkHeaders (rows : List Message) :
    ∀ {u : UnionFind Text} {E : Text → Text → Prop}, u.Spans E →
      (rows.foldl linkHeaders u).Spans fun a b => E a b ∨ ∃ m ∈ rows, (a, b) ∈ headerEdges m := by
  induction rows with
  | nil => exact fun h => h.congr fun a b => by simp
  | cons m rest ih =>
      intro u E h
      rw [List.foldl_cons, linkHeaders_joinAll]
      refine (ih (UnionFind.Spans.joinAll (headerEdges m) (h.find (node m)))).congr fun a b => ?_
      simp only [List.mem_cons, exists_eq_or_imp, or_assoc]

section Subjects

variable {lower : Char → Char} {done : List Message}

/-- The last row of a bare subject. -/
structure Latest (lower : Char → Char) (done : List Message) (subject : Text) (p : Message) : Prop where
  row : p ∈ done
  same : (normalizeSubject lower p.subject).1 = subject
  last : ∀ q ∈ done, (normalizeSubject lower q.subject).1 = subject → ¬ Earlier p q

theorem Latest.unique {p p' : Message} {subject : Text} (hdone : done.Pairwise Earlier)
    (h : Latest lower done subject p) (h' : Latest lower done subject p') : p = p' := by
  have hcases : done.Pairwise fun a b => a = b ∨ Earlier a b ∨ Earlier b a :=
    hdone.imp fun hab => Or.inr (Or.inl hab)
  have hflip : done.Pairwise (flip fun a b => a = b ∨ Earlier a b ∨ Earlier b a) :=
    hdone.imp fun hab => Or.inr (Or.inr hab)
  have hself : ∀ a ∈ done, a = a ∨ Earlier a a ∨ Earlier a a := fun a _ => Or.inl rfl
  rcases List.Pairwise.forall_of_forall_of_flip hself hcases hflip h.row h'.row with heq | hlt | hlt
  · exact heq
  · exact absurd hlt (h.last p' h'.row h'.same)
  · exact absurd hlt (h'.last p h.row h.same)

/-- What the second pass knows of the rows it has seen. -/
structure Seen (lower : Char → Char) (E : Text → Text → Prop) (done : List Message)
    (st : UnionFind Text × BySubject) : Prop where
  spans : st.1.Spans fun a b => E a b ∨ ∃ r p, FallsBack lower done r p ∧ a = node p ∧ b = node r
  subjects : ∀ subject, subject ≠ [] →
    (st.2 subject = none ∧ ∀ q ∈ done, (normalizeSubject lower q.subject).1 ≠ subject) ∨
      ∃ p, Latest lower done subject p ∧ st.2 subject = some (node p, p.date)

/-- The row that comes next follows `p`. -/
structure Joins (lower : Char → Char) (done : List Message) (m p : Message) : Prop where
  silent : m.references = [] ∧ m.inReplyTo = []
  prefixed : (normalizeSubject lower m.subject).2 = true
  subject : (normalizeSubject lower m.subject).1 ≠ []
  latest : Latest lower done (normalizeSubject lower m.subject).1 p
  recent : m.date ≤ p.date + subjectFallbackWindow

/-- A row that comes later follows, at most, the last row of its subject. -/
theorem fallsBack_concat {m r p : Message} (hlater : ∀ q ∈ done, Earlier q m) :
    FallsBack lower (done ++ [m]) r p ↔ FallsBack lower done r p ∨ r = m ∧ Joins lower done m p := by
  have hmem : ∀ {q}, q ∈ done ++ [m] ↔ q ∈ done ∨ q = m := by simp
  constructor
  · intro h
    have hprev : p ∈ done := by
      refine (hmem.mp h.prev).resolve_right fun hp => ?_
      subst hp
      rcases hmem.mp h.row with hr | rfl
      · exact (hlater r hr).asymm h.earlier
      · exact Earlier.irrefl _ h.earlier
    rcases hmem.mp h.row with hr | rfl
    · exact Or.inl { h with
        row := hr
        prev := hprev
        last := fun q hq => h.last q (hmem.mpr (Or.inl hq)) }
    · refine Or.inr ⟨rfl, h.silent, h.prefixed, h.subject, ⟨hprev, h.same, fun q hq hsame => ?_⟩,
        h.recent⟩
      exact h.last q (hmem.mpr (Or.inl hq)) hsame (hlater q hq)
  · rintro (h | ⟨rfl, h⟩)
    · refine { h with row := hmem.mpr (Or.inl h.row), prev := hmem.mpr (Or.inl h.prev), last := ?_ }
      intro q hq hsame hearlier
      rcases hmem.mp hq with hq | rfl
      · exact h.last q hq hsame hearlier
      · exact absurd hearlier (hlater r h.row).asymm
    · refine ⟨⟨hmem.mpr (Or.inr rfl), hmem.mpr (Or.inl h.latest.row), h.silent, h.prefixed,
        h.latest.same, hlater p h.latest.row, fun q hq hsame hearlier => ?_, h.recent⟩, h.subject⟩
      rcases hmem.mp hq with hq | rfl
      · exact h.latest.last q hq hsame
      · exact absurd hearlier (Earlier.irrefl _)

variable {E : Text → Text → Prop} {st : UnionFind Text × BySubject} {m : Message}

/-- What is known of subjects once another row has been seen. -/
theorem Seen.subjects_concat (h : Seen lower E done st) (hlater : ∀ q ∈ done, Earlier q m)
    (subject : Text) (hne : subject ≠ []) :
    ((linkSubject lower st m).2 subject = none ∧
        ∀ q ∈ done ++ [m], (normalizeSubject lower q.subject).1 ≠ subject) ∨
      ∃ p, Latest lower (done ++ [m]) subject p ∧
        (linkSubject lower st m).2 subject = some (node p, p.date) := by
  have hmem : ∀ {q}, q ∈ done ++ [m] ↔ q ∈ done ∨ q = m := by simp
  by_cases hown : (normalizeSubject lower m.subject).1 = subject
  · refine Or.inr ⟨m, ⟨hmem.mpr (Or.inr rfl), hown, fun q hq _ => ?_⟩, ?_⟩
    · rcases hmem.mp hq with hq | rfl
      · exact (hlater q hq).asymm
      · exact Earlier.irrefl _
    · unfold linkSubject
      dsimp only
      rw [hown, if_neg hne]
      exact Function.update_self ..
  · have hsame : (linkSubject lower st m).2 subject = st.2 subject := by
      unfold linkSubject
      dsimp only
      split
      · rfl
      · exact Function.update_of_ne (Ne.symm hown) ..
    rw [hsame]
    refine (h.subjects subject hne).imp (fun hnone => ⟨hnone.1, fun q hq => ?_⟩) ?_
    · rcases hmem.mp hq with hq | rfl
      · exact hnone.2 q hq
      · exact hown
    · rintro ⟨p, hp, hst⟩
      refine ⟨p, ⟨hmem.mpr (Or.inl hp.row), hp.same, fun q hq hqs => ?_⟩, hst⟩
      rcases hmem.mp hq with hq | rfl
      · exact hp.last q hq hqs
      · exact absurd hqs hown

/-- **The second pass joins a row to the one it follows.** -/
theorem Seen.spans_concat (h : Seen lower E done st)
    (hdone : done.Pairwise Earlier) :
    (linkSubject lower st m).1.Spans fun a b =>
      (E a b ∨ ∃ r p, FallsBack lower done r p ∧ a = node p ∧ b = node r) ∨
        ∃ p, Joins lower done m p ∧ a = node p ∧ b = node m := by
  have hnone : (∀ p, ¬ Joins lower done m p) → st.1.Spans fun a b =>
      (E a b ∨ ∃ r p, FallsBack lower done r p ∧ a = node p ∧ b = node r) ∨
        ∃ p, Joins lower done m p ∧ a = node p ∧ b = node m := fun hno =>
    h.spans.congr fun a b => (or_iff_left fun ⟨p, hp, _⟩ => hno p hp).symm
  unfold linkSubject
  dsimp only
  split
  · rename_i hnil
    exact hnone fun p hp => hp.subject hnil
  rename_i hne
  dsimp only
  split
  · rename_i hcond
    rcases h.subjects _ hne with ⟨hst, hno⟩ | ⟨p₀, hp₀, hst⟩
    · rw [hst]
      exact hnone fun p hp => hno p hp.latest.row hp.latest.same
    · rw [hst]
      dsimp only
      have hold : (m.date - p₀.date ≤ subjectFallbackWindow) ↔
          m.date ≤ p₀.date + subjectFallbackWindow := Nat.sub_le_iff_le_add'
      split
      · rename_i hrecent
        refine (h.spans.union (node p₀) (node m)).congr fun a b => or_congr_right ?_
        constructor
        · rintro ⟨rfl, rfl⟩
          exact ⟨p₀, ⟨⟨hcond.1, hcond.2.1⟩, hcond.2.2, hne, hp₀, hold.mp hrecent⟩, rfl, rfl⟩
        · rintro ⟨p, hp, rfl, rfl⟩
          rw [hp.latest.unique hdone hp₀]
          exact ⟨rfl, rfl⟩
      · rename_i hrecent
        refine hnone fun p hp => hrecent (hold.mpr ?_)
        rw [← hp.latest.unique hdone hp₀]
        exact hp.recent
  · rename_i hcond
    exact hnone fun p hp => hcond ⟨hp.silent.1, hp.silent.2, hp.prefixed⟩

/-- **One row of the second pass.** -/
theorem Seen.step (h : Seen lower E done st) (hdone : done.Pairwise Earlier)
    (hlater : ∀ q ∈ done, Earlier q m) : Seen lower E (done ++ [m]) (linkSubject lower st m) := by
  refine ⟨(h.spans_concat hdone).congr fun a b => ?_, h.subjects_concat hlater⟩
  rw [or_assoc]
  refine or_congr_right ⟨?_, ?_⟩
  · rintro (⟨r, p, hp, ha, hb⟩ | ⟨p, hp, ha, hb⟩)
    · exact ⟨r, p, (fallsBack_concat hlater).mpr (Or.inl hp), ha, hb⟩
    · exact ⟨m, p, (fallsBack_concat hlater).mpr (Or.inr ⟨rfl, hp⟩), ha, hb⟩
  · rintro ⟨r, p, hp, ha, hb⟩
    rcases (fallsBack_concat hlater).mp hp with hp | ⟨rfl, hp⟩
    · exact Or.inl ⟨r, p, hp, ha, hb⟩
    · exact Or.inr ⟨p, hp, ha, hb⟩

theorem seen_foldl (rows : List Message) :
    ∀ {done : List Message} {st : UnionFind Text × BySubject}, Seen lower E done st →
      (done ++ rows).Pairwise Earlier →
      Seen lower E (done ++ rows) (rows.foldl (linkSubject lower) st) := by
  induction rows with
  | nil =>
      intro done st h _
      rwa [List.append_nil]
  | cons m rest ih =>
      intro done st h hsorted
      have happend : done ++ m :: rest = done ++ [m] ++ rest := by simp
      rw [happend] at hsorted ⊢
      obtain ⟨hdone, -, hlater⟩ := List.pairwise_append.mp (List.pairwise_append.mp hsorted).1
      exact ih (h.step hdone fun q hq => hlater q hq m (List.mem_singleton.mpr rfl)) hsorted

end Subjects

/-- A rebuild's rows are in its order. -/
theorem pairwise_byDate {rows : List Message} (hids : (rows.map Message.id).Nodup) :
    (byDate rows).Pairwise Earlier := by
  let le := fun a b : Message => a.date < b.date ∨ (a.date = b.date ∧ a.id ≤ b.id)
  have htotal : Std.Total le := by
    refine ⟨fun a b => ?_⟩
    rcases Nat.lt_trichotomy a.date b.date with h | h | h
    · exact Or.inl (Or.inl h)
    · exact (Nat.le_total a.id b.id).imp (fun hi => Or.inr ⟨h, hi⟩) fun hi => Or.inr ⟨h.symm, hi⟩
    · exact Or.inr (Or.inl h)
  have htrans : IsTrans Message le := by
    refine ⟨fun a b c hab hbc => ?_⟩
    rcases hab with hab | ⟨hd, hi⟩
    · rcases hbc with hbc | ⟨hd', -⟩
      · exact Or.inl (Nat.lt_trans hab hbc)
      · exact Or.inl (hd' ▸ hab)
    · rcases hbc with hbc | ⟨hd', hi'⟩
      · exact Or.inl (hd ▸ hbc)
      · exact Or.inr ⟨hd.trans hd', Nat.le_trans hi hi'⟩
  have hsorted : (byDate rows).Pairwise le := List.pairwise_insertionSort le rows
  have hne : (byDate rows).Pairwise fun a b => a.id ≠ b.id := by
    have hperm : ((byDate rows).map Message.id).Perm (rows.map Message.id) :=
      (List.perm_insertionSort _ rows).map _
    exact List.pairwise_map.mp (hperm.nodup_iff.mpr hids)
  refine (hsorted.and hne).imp fun h => ?_
  exact h.1.imp_right fun hi => ⟨hi.1, Nat.lt_of_le_of_ne hi.2 h.2⟩

theorem fallsBack_byDate {lower : Char → Char} {rows : List Message} {r p : Message} :
    FallsBack lower (byDate rows) r p ↔ FallsBack lower rows r p := by
  constructor
  · intro h
    exact { h with
      row := mem_byDate.mp h.row
      prev := mem_byDate.mp h.prev
      last := fun q hq => h.last q (mem_byDate.mpr hq) }
  · intro h
    exact { h with
      row := mem_byDate.mpr h.row
      prev := mem_byDate.mpr h.prev
      last := fun q hq => h.last q (mem_byDate.mp hq) }

/-- **The forest spans the links.** -/
theorem spans_forest (lower : Char → Char) {rows : List Message} (hids : (rows.map Message.id).Nodup) :
    (forest lower rows).Spans (Linked lower rows) := by
  have hheaders := spans_linkHeaders (byDate rows) UnionFind.spans_empty
  have hstart : Seen lower (fun a b => False ∨ ∃ m ∈ byDate rows, (a, b) ∈ headerEdges m) []
      ((byDate rows).foldl linkHeaders .empty, fun _ => none) := by
    refine ⟨hheaders.congr fun a b => ?_, fun subject _ => Or.inl ⟨rfl, by simp⟩⟩
    refine (or_iff_left ?_).symm
    rintro ⟨r, p, h, -⟩
    exact absurd h.row List.not_mem_nil
  refine (seen_foldl (byDate rows) hstart (pairwise_byDate hids)).spans.congr fun a b => ?_
  rw [false_or, List.nil_append]
  simp only [fallsBack_byDate, mem_byDate]
  exact Iff.rfl

/-! ### Classes and components -/

/-- The node of the forest. -/
def Vertex.text : Vertex → Text
  | .row m => node m
  | .mail t => t

/-- The nodes of the account's graph. -/
def Vertex.Present (rows : List Message) : Vertex → Prop
  | .row m => m ∈ rows
  | .mail t => ∃ m ∈ rows, Mentions m t

section Components

variable {lower : Char → Char} {follows : Message → Message → Prop} {rows : List Message}

/-- A link joins nodes of one component. -/
theorem Linked.exists_vertices (hsub : ∀ r p, FallsBack lower rows r p → follows r p) {a b : Text}
    (h : Linked lower rows a b) :
    ∃ v w : Vertex, v.Present rows ∧ w.Present rows ∧ v.text = a ∧ w.text = b ∧
      Connected follows rows v w := by
  rcases h with ⟨m, hm, he⟩ | ⟨r, p, h, rfl, rfl⟩
  · have hmentions : a = node m ∧ Mentions m b := by
      unfold headerEdges at he
      rcases List.mem_append.mp he with he | he
      · obtain ⟨t, ht, heq⟩ := List.mem_map.mp he
        obtain ⟨rfl, rfl⟩ := Prod.mk.inj heq
        exact ⟨rfl, Or.inr (Or.inl ht)⟩
      · split at he
        · rename_i hne
          obtain ⟨rfl, rfl⟩ := Prod.mk.inj (List.mem_singleton.mp he)
          exact ⟨rfl, Or.inr (Or.inr ⟨hne, rfl⟩)⟩
        · exact absurd he List.not_mem_nil
    exact ⟨.row m, .mail b, hm, ⟨m, hm, hmentions.2⟩, hmentions.1.symm, rfl,
      connected_of_mentions follows hm hmentions.2⟩
  · exact ⟨.row p, .row r, h.prev, h.row, rfl, rfl, .rel _ _ (.subject (hsub r p h))⟩

/-- **A component is of one class**, if rows that follow one another are. -/
theorem linked_of_connected
    (hlinked : ∀ r p, follows r p → Relation.EqvGen (Linked lower rows) (node p) (node r))
    {v w : Vertex} (h : Connected follows rows v w) :
    Relation.EqvGen (Linked lower rows) v.text w.text := by
  induction h with
  | rel v w h =>
      cases h with
      | own hm h =>
          have hnode : node _ = _ := if_pos h
          show Relation.EqvGen _ (node _) _
          rw [hnode]
          exact .refl _
      | @reference m t hm ht =>
          refine .rel _ _ (Or.inl ⟨m, hm, List.mem_append_left _ ?_⟩)
          exact List.mem_map_of_mem (f := fun t => (node m, t)) ht
      | @answer m hm h =>
          refine .rel _ _ (Or.inl ⟨m, hm, List.mem_append_right _ ?_⟩)
          rw [if_pos h]
          exact List.mem_singleton.mpr rfl
      | subject h => exact hlinked _ _ h
  | refl v => exact .refl _
  | symm _ _ _ ih => exact .symm _ _ ih
  | trans _ _ _ _ _ ih₁ ih₂ => exact .trans _ _ _ ih₁ ih₂

variable (huk : ∀ a ∈ rows, ∀ b ∈ rows, a.key = b.key → a = b)

include huk

/-- Where places are known, nodes that read the same are of one component. -/
theorem connected_of_text (hplaces : PlacesKnown follows rows) {v w : Vertex} (hv : v.Present rows)
    (hw : w.Present rows) (h : v.text = w.text) : Connected follows rows v w := by
  -- a row and a mentioned Message-ID
  have hmixed : ∀ r ∈ rows, ∀ m ∈ rows, ∀ t, Mentions m t → node r = t →
      Connected follows rows (.row r) (.mail t) := by
    rintro r hr m hm t ht rfl
    by_cases hnone : r.messageID = []
    · have hplace : node r = place r := if_neg (not_not.mpr hnone)
      rw [hplace] at ht ⊢
      exact hplaces r hr hnone m hm ht
    · have hown : node r = r.messageID := if_pos hnone
      rw [hown]
      exact .rel _ _ (.own hr hnone)
  cases v with
  | row r =>
      cases w with
      | mail t =>
          obtain ⟨m, hm, ht⟩ := hw
          exact hmixed r hv m hm t ht h
      | row s =>
          have h : node r = node s := h
          by_cases hnone : s.messageID = []
          · by_cases hnone' : r.messageID = []
            · have hplace : place r = place s := by
                unfold node at h
                rwa [if_neg (not_not.mpr hnone'), if_neg (not_not.mpr hnone)] at h
              rw [huk r hv s hw (place_inj hplace)]
              exact .refl _
            · have hown : node r = r.messageID := if_pos hnone'
              have hr := connected_of_mentions follows hv (Or.inl ⟨hnone', rfl⟩)
              exact .trans _ _ _ hr (.symm _ _ (hmixed s hw r hv _ (Or.inl ⟨hnone', rfl⟩) (h ▸ hown)))
          · have hs := connected_of_mentions follows hw (Or.inl ⟨hnone, rfl⟩)
            have hown : node s = s.messageID := if_pos hnone
            exact .trans _ _ _ (hmixed r hv s hw _ (Or.inl ⟨hnone, rfl⟩) (h.trans hown)) (.symm _ _ hs)
  | mail t =>
      obtain ⟨m, hm, ht⟩ := hv
      cases w with
      | mail t' =>
          have h : t = t' := h
          rw [h]
          exact .refl _
      | row s => exact .symm _ _ (hmixed s hw m hm t ht h.symm)

/-- **Where places are known, a class is a component.** -/
theorem connected_of_linked (hsub : ∀ r p, FallsBack lower rows r p → follows r p) (hplaces : PlacesKnown follows rows) {v w : Vertex} (hv : v.Present rows)
    (hw : w.Present rows) (h : Relation.EqvGen (Linked lower rows) v.text w.text) :
    Connected follows rows v w := by
  -- what is joined to a node that reads `t`
  let near := fun (t : Text) (x : Vertex) =>
    ∃ a : Vertex, a.Present rows ∧ a.text = t ∧ Connected follows rows a x
  have hone : ∀ {v w : Vertex}, v.Present rows → w.Present rows → Connected follows rows v w →
      ∀ x, near v.text x → near w.text x := by
    rintro v w hv hw hvw x ⟨a, ha, hav, hax⟩
    have hva := connected_of_text huk hplaces hv ha hav.symm
    exact ⟨w, hw, rfl, .trans _ _ _ (.symm _ _ hvw) (.trans _ _ _ hva hax)⟩
  have hedge : ∀ a b, Linked lower rows a b → near a = near b := by
    intro a b hab
    obtain ⟨v, w, hv, hw, rfl, rfl, hvw⟩ := hab.exists_vertices hsub
    exact funext fun x => propext ⟨hone hv hw hvw x, hone hw hv (.symm _ _ hvw) x⟩
  have hself : near w.text w := ⟨w, hw, rfl, .refl _⟩
  rw [← lab_eq_of_eqvGen hedge h] at hself
  obtain ⟨a, ha, hav, haw⟩ := hself
  exact .trans _ _ _ (connected_of_text huk hplaces hv ha hav.symm) haw

/-- **Classes are components exactly if places are known** and rows that follow one another are of
one class. -/
theorem classOf_iff_connected (hids : (rows.map Message.id).Nodup)
    (hsub : ∀ r p, FallsBack lower rows r p → follows r p)
    (hrows : ∀ r p, follows r p → r ∈ rows ∧ p ∈ rows) :
    (∀ r ∈ rows, ∀ s ∈ rows, classOf lower rows r = classOf lower rows s ↔
      Connected follows rows (.row r) (.row s)) ↔
      PlacesKnown follows rows ∧
        ∀ r p, follows r p → Relation.EqvGen (Linked lower rows) (node p) (node r) := by
  have hspans := spans_forest lower hids
  constructor
  · intro h
    refine ⟨fun x hx hnone m hm hplace => ?_, fun r p hrp => ?_⟩
    · have hmention : Connected (FallsBack lower rows) rows (.row m) (.mail (place x)) :=
        connected_of_mentions _ hm hplace
      have hlink := linked_of_connected (fun r p hrp => .rel _ _ (Or.inr ⟨r, p, hrp, rfl, rfl⟩)) hmention
      have hnode : node x = place x := if_neg (not_not.mpr hnone)
      have hxm : Connected follows rows (.row x) (.row m) := by
        refine (h x hx m hm).mp ((hspans _ _).mpr ?_)
        rw [hnode]
        exact .symm _ _ hlink
      exact .trans _ _ _ hxm (connected_of_mentions follows hm hplace)
    · obtain ⟨hr, hp⟩ := hrows r p hrp
      exact (hspans _ _).mp ((h p hp r hr).mpr (.rel _ _ (.subject hrp)))
  · rintro ⟨hplaces, hlinked⟩ r hr s hs
    refine (hspans (node r) (node s)).trans ⟨?_, ?_⟩
    · exact connected_of_linked huk hsub hplaces (v := .row r) (w := .row s) hr hs
    · exact linked_of_connected hlinked

end Components

end FlyMail.Message
