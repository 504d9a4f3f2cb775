/-
One row for every mail.

Where a list leaves out copies, the copy that stays is the first of all copies there are: of the
inbox before one of a folder of the user's before any other, and of those the one stored first
(`representative_eq_iff`).  It is chosen without a look at what the list asks for.

So a mail of which some copy belongs in a list is in it if the first copy belongs in it too, and
otherwise it is not in it at all (`loses_none_iff`): a search in the archive does not find what is
in the inbox as well (`archive_loses_inboxCopy`).
-/
import FlyMail.Proofs.Paging

namespace FlyMail.Message

/-! ### The first copy -/

/-- The row is the first of the copies of a mail. -/
structure FirstCopy (db : DB) (m r : Message) : Prop where
  mem : r ∈ db.messages.rows
  copy : isCopy m r = true
  first : ∃ f, db.folders.get? r.folderID = some f ∧
    ∀ x ∈ db.messages.rows, isCopy m x = true → ∀ g, db.folders.get? x.folderID = some g →
      copyRank f.type < copyRank g.type ∨ (copyRank f.type = copyRank g.type ∧ r.id ≤ x.id)

theorem mem_rankedCopies {db : DB} {m : Message} {p : Nat × Nat} :
    p ∈ rankedCopies db m ↔ ∃ x ∈ db.messages.rows, isCopy m x = true ∧
      ∃ f, db.folders.get? x.folderID = some f ∧ p = (copyRank f.type, x.id) := by
  unfold rankedCopies
  rw [List.mem_filterMap]
  constructor
  · rintro ⟨x, hx, hp⟩
    obtain ⟨f, hf, rfl⟩ := Option.map_eq_some_iff.mp hp
    obtain ⟨hmem, hcopy⟩ := List.mem_filter.mp hx
    exact ⟨x, hmem, hcopy, f, hf, rfl⟩
  · rintro ⟨x, hmem, hcopy, f, hf, rfl⟩
    refine ⟨x, List.mem_filter.mpr ⟨hmem, hcopy⟩, ?_⟩
    rw [hf]
    rfl

private def byRank (a b : Nat × Nat) : Prop := a.1 < b.1 ∨ (a.1 = b.1 ∧ a.2 ≤ b.2)

private instance : DecidableRel byRank := fun a b => by
  unfold byRank
  infer_instance

private instance : Std.Total byRank := ⟨fun a b => by unfold byRank; omega⟩

private instance : IsTrans (Nat × Nat) byRank := ⟨fun a b c => by unfold byRank; omega⟩

/-- **The first copy stands for the mail.** -/
theorem representative_eq_iff {db : DB} {m : Message} {id : Nat} :
    representative db m = some id ↔ ∃ r, FirstCopy db m r ∧ r.id = id := by
  have hrep : representative db m = (((rankedCopies db m).insertionSort byRank).head?).map Prod.snd := rfl
  rw [hrep]
  constructor
  · intro h
    obtain ⟨p, hp, rfl⟩ := Option.map_eq_some_iff.mp h
    obtain ⟨hmem, hfirst⟩ := Paging.head?_insertionSort hp
    obtain ⟨r, hr, hcopy, f, hf, rfl⟩ := mem_rankedCopies.mp hmem
    exact ⟨r, ⟨hr, hcopy, f, hf, fun x hx hxcopy g hg =>
      hfirst _ (mem_rankedCopies.mpr ⟨x, hx, hxcopy, g, hg, rfl⟩)⟩, rfl⟩
  · rintro ⟨r, ⟨hr, hcopy, f, hf, hfirst⟩, rfl⟩
    have hmem : (copyRank f.type, r.id) ∈ rankedCopies db m := mem_rankedCopies.mpr ⟨r, hr, hcopy, f, hf, rfl⟩
    cases hhead : ((rankedCopies db m).insertionSort byRank).head? with
    | none =>
        have hnil := List.head?_eq_none_iff.mp hhead
        have hin := (List.mem_insertionSort byRank).mpr hmem
        rw [hnil] at hin
        exact absurd hin List.not_mem_nil
    | some p =>
        obtain ⟨hp, hbefore⟩ := Paging.head?_insertionSort hhead
        obtain ⟨x, hx, hxcopy, g, hg, rfl⟩ := mem_rankedCopies.mp hp
        have hle := hfirst x hx hxcopy g hg
        have hge : byRank (copyRank g.type, x.id) (copyRank f.type, r.id) := hbefore _ hmem
        unfold byRank at hge
        refine congrArg some ?_
        show x.id = r.id
        omega

theorem isCopy_iff {m r : Message} : isCopy m r = true ↔
    r.accountID = m.accountID ∧ r.messageID = m.messageID ∧ r.date = m.date ∧ r.size = m.size := by
  unfold isCopy
  simp [and_assoc]

/-- The copies of a copy are the copies of the mail. -/
theorem isCopy_eq {m r : Message} (h : isCopy m r = true) : isCopy r = isCopy m := by
  obtain ⟨haccount, hid, hdate, hsize⟩ := isCopy_iff.mp h
  funext x
  unfold isCopy
  rw [haccount, hid, hdate, hsize]

theorem representative_copy {m r : Message} (db : DB) (h : isCopy m r = true) :
    representative db r = representative db m := by
  unfold representative rankedCopies
  rw [isCopy_eq h]

/-! ### What a list keeps -/

/-- Of the rows that belong in a list, every mail is in it once. -/
structure LosesNone (belonging listed : List Message) : Prop where
  copies : ∀ m ∈ belonging, m.messageID ≠ [] → listed.countP (isCopy m) = 1
  others : ∀ m ∈ belonging, m.messageID = [] → listed.count m = 1

/-- Of every mail that belongs in a list the first copy belongs in it. -/
def FirstsBelong (db : DB) (belonging : List Message) : Prop :=
  ∀ m ∈ belonging, m.messageID ≠ [] → ∃ r ∈ belonging, FirstCopy db m r

section Kept

variable {db : DB} {belonging : List Message}

theorem mem_dedupeSameMessage {m : Message} (hne : m.messageID ≠ []) :
    m ∈ dedupeSameMessage db belonging ↔ m ∈ belonging ∧ representative db m = some m.id := by
  unfold dedupeSameMessage
  simp [hne]

theorem losesNone_dedupe_iff (hsub : belonging.Sublist db.messages.rows) :
    LosesNone belonging (dedupeSameMessage db belonging) ↔ FirstsBelong db belonging := by
  constructor
  · intro h m hm hne
    have hpos : 0 < (dedupeSameMessage db belonging).countP (isCopy m) := by
      rw [h.copies m hm hne]
      decide
    obtain ⟨x, hx, hcopy⟩ := List.countP_pos_iff.mp hpos
    have hxne : x.messageID ≠ [] := by
      rw [(isCopy_iff.mp hcopy).2.1]
      exact hne
    obtain ⟨hbelongs, hrep⟩ := (mem_dedupeSameMessage hxne).mp hx
    rw [representative_copy db hcopy] at hrep
    obtain ⟨r, hr, hid⟩ := representative_eq_iff.mp hrep
    rw [db.messages.eq_of_pk hr.mem (hsub.mem hbelongs) hid] at hr
    exact ⟨x, hbelongs, hr⟩
  · intro h
    have hnodup : belonging.Nodup := List.Nodup.of_map Message.id (db.messages.nodup_pk hsub)
    have hkept : (dedupeSameMessage db belonging).Nodup := hnodup.sublist List.filter_sublist
    refine ⟨fun m hm hne => ?_, fun m hm hnil => ?_⟩
    · obtain ⟨r, hr, hfirst⟩ := h m hm hne
      have hrep := representative_eq_iff.mpr ⟨r, hfirst, rfl⟩
      have hne' : ∀ {x}, isCopy m x = true → x.messageID ≠ [] := fun {x} hcopy => by
        rw [(isCopy_iff.mp hcopy).2.1]
        exact hne
      have hself : r ∈ dedupeSameMessage db belonging := by
        refine (mem_dedupeSameMessage (hne' hfirst.copy)).mpr ⟨hr, ?_⟩
        rw [representative_copy db hfirst.copy]
        exact hrep
      have honly : ∀ x ∈ dedupeSameMessage db belonging, isCopy m x = true ↔ (x == r) = true := by
        intro x hx
        rw [beq_iff_eq]
        constructor
        · intro hcopy
          obtain ⟨hbelongs, hxrep⟩ := (mem_dedupeSameMessage (hne' hcopy)).mp hx
          rw [representative_copy db hcopy, hrep] at hxrep
          exact (db.messages.eq_of_pk hfirst.mem (hsub.mem hbelongs) (Option.some.inj hxrep)).symm
        · rintro rfl
          exact hfirst.copy
      rw [List.countP_congr honly]
      exact List.count_eq_one_of_mem hkept hself
    · refine List.count_eq_one_of_mem hkept (List.mem_filter.mpr ⟨hm, ?_⟩)
      rw [hnil]
      rfl

end Kept

/-! ### The lists that leave out copies -/

/-- The lists of mail, and the conversations of a scope where copies are left out. -/
inductive DedupedList
  | aggregate (view : View) (f : Filter)
  | search (q : Query) (f : Filter)
  | aggregateThreads (view : View) (f : Filter)
      (need : (view == .unread || view == .starred || f.seen.isSome || f.flagged.isSome) = true)
  | searchThreads (q : Query) (f : Filter)

/-- The rows with everything the list asks for. -/
def DedupedList.belonging (src : Source) : DedupedList → List Message
  | .aggregate view f | .aggregateThreads view f _ => f.apply (aggregateScope src.db view)
  | .search q f | .searchThreads q f => if q.empty then [] else f.apply (searchScope src q)

/-- The rows that are listed, or that the conversations are made from. -/
def DedupedList.listed (src : Source) : DedupedList → List Message
  | .aggregate view f => f.apply (dedupeSameMessage src.db (aggregateScope src.db view))
  | .search q f => if q.empty then [] else dedupeSameMessage src.db (f.apply (searchScope src q))
  | .aggregateThreads view f _ => (ThreadView.aggregate view).scope src f
  | .searchThreads q f => (ThreadView.search q).scope src f

theorem Filter.apply_dedupe (f : Filter) (db : DB) (rows : List Message) :
    f.apply (dedupeSameMessage db rows) = dedupeSameMessage db (f.apply rows) := by
  unfold Filter.apply dedupeSameMessage
  exact List.filter_comm _ _ _

theorem DedupedList.listed_eq (src : Source) (list : DedupedList) :
    list.listed src = dedupeSameMessage src.db (list.belonging src) := by
  have hsearch : ∀ (q : Query) (f : Filter),
      (if q.empty then [] else dedupeSameMessage src.db (f.apply (searchScope src q)))
        = dedupeSameMessage src.db (if q.empty then [] else f.apply (searchScope src q)) := by
    intro q f
    split
    · rfl
    · rfl
  cases list with
  | aggregate view f => exact f.apply_dedupe _ _
  | search q f => exact hsearch q f
  | aggregateThreads view f need =>
      show f.apply (dedupeIf src.db _ _) = _
      rw [need]
      exact f.apply_dedupe _ _
  | searchThreads q f =>
      show (if q.empty then [] else f.apply (dedupeSameMessage src.db (searchScope src q))) = _
      rw [f.apply_dedupe]
      exact hsearch q f

theorem DedupedList.belonging_sublist (src : Source) (list : DedupedList) :
    (list.belonging src).Sublist src.db.messages.rows := by
  have hsearch : ∀ (q : Query) (f : Filter),
      (if q.empty then [] else f.apply (searchScope src q)).Sublist src.db.messages.rows := by
    intro q f
    split
    · exact List.nil_sublist _
    · exact (f.apply_sublist _).trans (searchScope_sublist src q)
  cases list with
  | aggregate view f => exact (f.apply_sublist _).trans (aggregateScope_sublist src.db view)
  | search q f => exact hsearch q f
  | aggregateThreads view f need => exact (f.apply_sublist _).trans (aggregateScope_sublist src.db view)
  | searchThreads q f => exact hsearch q f

/-- **No mail is lost just when the first copies belong in the list.** -/
theorem loses_none_iff (src : Source) (list : DedupedList) :
    LosesNone (list.belonging src) (list.listed src) ↔ FirstsBelong src.db (list.belonging src) := by
  rw [list.listed_eq]
  exact losesNone_dedupe_iff (list.belonging_sublist src)

private def inboxAndArchive : Source where
  db :=
    { messages :=
        { rows := [{ Message.bare 1 1 1 (.numbered 1) with messageID := ['a'] },
            { Message.bare 2 1 2 (.numbered 1) with messageID := ['a'] }]
          last := 2
          sorted := by decide
          below := by decide
          uniq := by decide }
      folders :=
        { rows := [.bare 1 1 "INBOX".toList .inbox, .bare 2 1 "Archive".toList .archive]
          last := 2
          sorted := by decide
          below := by decide
          uniq := by decide }
      ops := .empty }
  accounts := []
  ftsMatch _ := []
  lower := Char.toLower

/-- `in:archive`. -/
private def inArchive : DedupedList :=
  .search ⟨[], none, none, none, none, none, "archive".toList, []⟩ ⟨none, none, none⟩

/-- A mail of the archive is not found there, as it is in the inbox too. -/
theorem archive_loses_inboxCopy :
    ¬ LosesNone (inArchive.belonging inboxAndArchive) (inArchive.listed inboxAndArchive) := by
  intro h
  have hbelongs : { Message.bare 2 1 2 (.numbered 1) with messageID := ['a'] }
      ∈ inArchive.belonging inboxAndArchive := by decide
  have hnone : inArchive.listed inboxAndArchive = [] := by decide
  have hone := h.copies _ hbelongs (List.cons_ne_nil _ _)
  rw [hnone] at hone
  exact absurd hone (by decide)

end FlyMail.Message
