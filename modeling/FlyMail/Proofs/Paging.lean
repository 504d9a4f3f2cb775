/-
Lists, page by page.

Rows whose dates can be written in twenty characters compare as texts the way they do as moments
(`dbTime_lt_iff`), and the cursor of a page comes back as what it was made from.  So following the
cursors reads every row of a list once, the latest first (`messages_paged`), and every
conversation of a scope (`threads_paged`).

A conversation is told by its latest row in the scope.  The largest of the keys is that row's
(`maxRow_spec`), and its date is read back from the key.
-/
import FlyMail.Lib.Paging
import FlyMail.Message.List

namespace FlyMail.Message

/-! ### Texts in order -/

/-- The row's date has four digits for the year, and its key at most twelve digits. -/
structure Canonical (m : Message) : Prop where
  date : m.date < Calendar.limit
  id : m.id < 10 ^ 12

theorem dbTime_lt_iff {t u : Time} (ht : t < Calendar.limit) (hu : u < Calendar.limit) :
    dbTime t < dbTime u ↔ t < u := by
  refine ⟨fun h => ?_, fun h => Calendar.text_lt_text h hu⟩
  rcases Nat.lt_trichotomy t u with hlt | rfl | hlt
  · exact hlt
  · exact absurd h (lt_irrefl _)
  · exact absurd h (lt_asymm (Calendar.text_lt_text hlt ht))

theorem dbTime_inj {t u : Time} (ht : t < Calendar.limit) (hu : u < Calendar.limit) :
    dbTime t = dbTime u ↔ t = u := by
  refine ⟨fun h => ?_, fun h => h ▸ rfl⟩
  rcases Nat.lt_trichotomy t u with hlt | heq | hlt
  · exact absurd h (ne_of_lt (Calendar.text_lt_text hlt hu))
  · exact heq
  · exact absurd h.symm (ne_of_lt (Calendar.text_lt_text hlt ht))

/-- Later, or of the same date and stored later. -/
def Later (a b : Message) : Prop := b.date < a.date ∨ (b.date = a.date ∧ b.id < a.id)

/-! ### Lists of mail -/

/-- The rows, each once, the latest first. -/
structure Lists (selected rows : List Message) : Prop where
  each : rows.Perm selected
  order : rows.Pairwise Later

/-- What a client is given for a row, and hands back. -/
def cursorOf (m : Message) : AggCursor := ⟨Calendar.text m.date, m.id⟩

theorem parse_cursorOf {m : Message} (h : Canonical m) : (cursorOf m).parse = some (m.date, m.id) := by
  unfold AggCursor.parse cursorOf
  rw [Calendar.parse_text h.date]
  rfl

theorem pageLimit_pos (limit : Int) : 0 < pageLimit limit := by
  unfold pageLimit
  split
  · decide
  · omega

theorem pageLimit_le (limit : Int) : pageLimit limit ≤ 200 := by
  unfold pageLimit
  split
  · decide
  · omega

section Messages

variable {rows : List Message}

theorem laterFirst_iff (a b : Message) :
    laterFirst a b ↔ Paging.Descends (fun m => dbTime m.date) Message.id a b := Iff.rfl

theorem differ_of_nodup (hids : (rows.map Message.id).Nodup) :
    rows.Pairwise (Paging.Differ (fun m => dbTime m.date) Message.id) := by
  refine List.Pairwise.imp ?_ (List.pairwise_map.mp hids)
  exact fun h _ => h

theorem lists_sorted (hcanon : ∀ m ∈ rows, Canonical m) (hids : (rows.map Message.id).Nodup) :
    Lists rows (rows.insertionSort laterFirst) := by
  refine ⟨List.perm_insertionSort _ _, ?_⟩
  refine List.Pairwise.imp_of_mem (fun {a b} ha hb h => ?_)
    (Paging.pairwise_precedes laterFirst_iff (differ_of_nodup hids))
  have ha := (hcanon a ((List.mem_insertionSort _).mp ha)).date
  have hb := (hcanon b ((List.mem_insertionSort _).mp hb)).date
  exact h.imp (dbTime_lt_iff hb ha).mp (And.imp_left (dbTime_inj hb ha).mp)

/-- **A page is the beginning of what is left.** -/
theorem messagePage_eq (hcanon : ∀ m ∈ rows, Canonical m) (hids : (rows.map Message.id).Nodup) {n : Nat}
    {cursor : Option AggCursor} {rest : List Message}
    (h : Paging.Behind cursorOf (rows.insertionSort laterFirst) cursor rest) :
    messagePage rows (cursor.bind AggCursor.parse) n = rest.take n := by
  unfold messagePage
  cases cursor with
  | none =>
      have hrest : rest = rows.insertionSort laterFirst := h
      rw [hrest]
      simp
  | some c =>
      obtain ⟨before, a, hall, rfl⟩ := h
      have ha : a ∈ rows.insertionSort laterFirst :=
        hall ▸ List.mem_append_right _ List.mem_cons_self
      rw [Option.bind_some, parse_cursorOf (hcanon a ((List.mem_insertionSort _).mp ha))]
      rw [Paging.insertionSort_precedes laterFirst_iff (differ_of_nodup hids) hall fun b => ?_]
      simp [Paging.Precedes]

/-- Following the cursors reads every row, the latest first. -/
theorem follow_messages (hcanon : ∀ m ∈ rows, Canonical m) (hids : (rows.map Message.id).Nodup) (limit : Int)
    {fetch : Option AggCursor → MessagePage}
    (hfetch : ∀ c, fetch c = withCursor (messagePage rows (c.bind AggCursor.parse) (pageLimit limit))
      (pageLimit limit)) :
    ∃ fuel pages, Paging.follow fetch MessagePage.next fuel none = some pages ∧
      Lists rows (pages.flatMap MessagePage.rows) := by
  have hserves : Paging.Serves fetch MessagePage.next MessagePage.rows
      (Paging.Behind cursorOf (rows.insertionSort laterFirst)) := by
    refine Paging.serves_behind (pageLimit_pos limit) fun cursor rest hleft => ?_
    have hpage := messagePage_eq hcanon hids (n := pageLimit limit) hleft
    rw [hfetch, hpage]
    refine ⟨rfl, ?_⟩
    unfold withCursor
    dsimp only
    split
    · rename_i hlen
      refine Or.inr ⟨?_, rfl⟩
      rw [List.length_take] at hlen
      omega
    · rename_i hlen
      refine Or.inl ⟨rfl, ?_⟩
      rw [List.length_take] at hlen
      omega
  have hstart : Paging.Behind cursorOf (rows.insertionSort laterFirst) none
      (rows.insertionSort laterFirst) := rfl
  obtain ⟨pages, hrun, hall⟩ := Paging.follow_serves hserves _ hstart (Nat.lt_succ_self _)
  exact ⟨_, _, hrun, hall ▸ lists_sorted hcanon hids⟩

end Messages

/-! ### Keys of conversations -/

theorem length_printfID {id : Nat} (h : id < 10 ^ 12) : (printfID id).length = 12 := by
  unfold printfID
  rw [if_pos h, Layout.length_pad]

/-- **The date is read back from the key.** -/
theorem take_lastKey {m : Message} (h : Canonical m) :
    (lastKey m).take ((lastKey m).length - 13) = dbTime m.date := by
  have hlen : (lastKey m).length - 13 = (dbTime m.date).length := by
    unfold lastKey
    rw [List.length_append, List.length_cons, length_printfID h.id]
    omega
  rw [hlen]
  exact List.take_left

theorem lastKey_lt_of_later {a b : Message} (ha : Canonical a) (hb : Canonical b) (h : Later b a) :
    lastKey a < lastKey b := by
  unfold lastKey
  rcases h with h | ⟨hdate, hid⟩
  · refine Layout.append_lt_append (Calendar.text_lt_text h hb.date) ?_
    exact (Calendar.length_text ha.date).trans (Calendar.length_text hb.date).symm
  · rw [hdate]
    refine List.append_left_lt (List.cons_lt_cons_iff.mpr (Or.inr ⟨rfl, ?_⟩))
    unfold printfID
    rw [if_pos ha.id, if_pos hb.id]
    exact Layout.pad_lt_pad 12 hid hb.id

theorem exists_maxRow {rows : List Message} (h : rows ≠ []) : ∃ m, maxRow rows = some m := by
  cases rows with
  | nil => exact absurd rfl h
  | cons a rest =>
      unfold maxRow
      split
      · exact ⟨_, rfl⟩
      · split
        · exact ⟨_, rfl⟩
        · exact ⟨_, rfl⟩

theorem maxRow_spec : ∀ {rows : List Message} {m : Message}, maxRow rows = some m →
    m ∈ rows ∧ ∀ x ∈ rows, ¬ lastKey m < lastKey x := by
  intro rows
  induction rows with
  | nil => exact fun h => absurd h (Option.some_ne_none _).symm
  | cons a rest ih =>
      intro m h
      unfold maxRow at h
      cases hbest : maxRow rest with
      | none =>
          have hnil : rest = [] := by
            by_contra hne
            obtain ⟨best, hsome⟩ := exists_maxRow hne
            exact Option.some_ne_none best (hsome.symm.trans hbest)
          rw [hbest] at h
          obtain rfl := Option.some.inj h
          rw [hnil]
          refine ⟨List.mem_singleton_self a, fun x hx => ?_⟩
          rw [List.mem_singleton.mp hx]
          exact lt_irrefl _
      | some best =>
          obtain ⟨hmem, hmax⟩ := ih hbest
          rw [hbest] at h
          dsimp only at h
          split at h
          · rename_i hlt
            obtain rfl := Option.some.inj h
            refine ⟨List.mem_cons_of_mem a hmem, fun x hx => ?_⟩
            rcases List.mem_cons.mp hx with rfl | hx
            · exact lt_asymm hlt
            · exact hmax x hx
          · rename_i hge
            obtain rfl := Option.some.inj h
            refine ⟨List.mem_cons_self, fun x hx => ?_⟩
            rcases List.mem_cons.mp hx with rfl | hx
            · exact lt_irrefl _
            · exact fun hlt => hmax x hx (lt_of_le_of_lt (not_lt.mp hge) hlt)

/-! ### Conversations of a scope -/

/-- The row is the latest of its conversation. -/
structure LatestRow (scope : List Message) (m : Message) : Prop where
  mem : m ∈ scope
  threaded : m.threadID ≠ []
  later : ∀ x ∈ scope, x.threadID = m.threadID → x = m ∨ Later m x

/-- What the row is told by in a page. -/
def headOf (m : Message) : ThreadHead := ⟨m.threadID, dbTime m.date, m.id, none⟩

section Threads

variable {scope : List Message}

theorem map_threadID_groupThreads (scope : List Message) :
    (groupThreads scope).map ThreadHead.threadID
      = ((scope.filter fun m => m.threadID != []).map Message.threadID).dedup := by
  unfold groupThreads
  rw [List.map_filterMap, List.filterMap_congr (g := some) fun tid htid => ?_, List.filterMap_some]
  obtain ⟨m, hm, hmtid⟩ := List.mem_map.mp (List.mem_dedup.mp htid)
  have hne : scope.filter (fun m => m.threadID == tid) ≠ [] :=
    List.ne_nil_of_mem (List.mem_filter.mpr ⟨(List.mem_filter.mp hm).1, beq_iff_eq.mpr hmtid⟩)
  obtain ⟨best, hbest⟩ := exists_maxRow hne
  rw [hbest]
  rfl

theorem nodup_groupThreads (scope : List Message) :
    ((groupThreads scope).map ThreadHead.threadID).Nodup := by
  rw [map_threadID_groupThreads]
  exact List.nodup_dedup _

/-- **A conversation is told by its latest row.** -/
theorem latest_of_mem_groupThreads (hcanon : ∀ m ∈ scope, Canonical m) (hids : (scope.map Message.id).Nodup)
    {h : ThreadHead} (hh : h ∈ groupThreads scope) : ∃ m, LatestRow scope m ∧ h = headOf m := by
  have htid : h.threadID ∈ (groupThreads scope).map ThreadHead.threadID := List.mem_map_of_mem hh
  rw [map_threadID_groupThreads] at htid
  obtain ⟨y, hy, hytid⟩ := List.mem_map.mp (List.mem_dedup.mp htid)
  obtain ⟨tid, -, hmap⟩ := List.mem_filterMap.mp hh
  obtain ⟨m, hm, rfl⟩ := Option.map_eq_some_iff.mp hmap
  obtain ⟨hmem, hmax⟩ := maxRow_spec hm
  obtain ⟨hscope, hthread⟩ := List.mem_filter.mp hmem
  have hthread : m.threadID = tid := beq_iff_eq.mp hthread
  refine ⟨m, ⟨hscope, ?_, fun x hx hxtid => ?_⟩, ?_⟩
  · have hne := (List.mem_filter.mp hy).2
    rw [hytid] at hne
    rw [hthread]
    exact bne_iff_ne.mp hne
  · by_cases hid : x.id = m.id
    · exact Or.inl (List.inj_on_of_nodup_map hids hx hscope hid)
    refine Or.inr ?_
    have hnlt := hmax x (List.mem_filter.mpr ⟨hx, beq_iff_eq.mpr (hxtid.trans hthread)⟩)
    rcases Nat.lt_trichotomy x.date m.date with hlt | heq | hlt
    · exact Or.inl hlt
    · rcases Nat.lt_or_gt_of_ne hid with hlt | hlt
      · exact Or.inr ⟨heq, hlt⟩
      · exact absurd (lastKey_lt_of_later (hcanon m hscope) (hcanon x hx) (Or.inr ⟨heq.symm, hlt⟩)) hnlt
    · exact absurd (lastKey_lt_of_later (hcanon m hscope) (hcanon x hx) (Or.inl hlt)) hnlt
  · rw [take_lastKey (hcanon m hscope), ← hthread]
    rfl

theorem lastFirst_iff (a b : ThreadHead) :
    lastFirst a b ↔ Paging.Descends ThreadHead.lastDate ThreadHead.threadID a b := by
  unfold lastFirst Paging.Descends
  rw [not_lt]

theorem differ_groupThreads (scope : List Message) :
    (groupThreads scope).Pairwise (Paging.Differ ThreadHead.lastDate ThreadHead.threadID) := by
  refine List.Pairwise.imp ?_ (List.pairwise_map.mp (nodup_groupThreads scope))
  exact fun h _ => h

/-! ### A page of conversations -/

/-- What the cursor for a conversation stands for. -/
def ThreadHead.moment (h : ThreadHead) : Time × Text := (parseDBTime h.lastDate, h.threadID)

theorem parseDBTime_dbTime {t : Time} (h : t < Calendar.limit) : parseDBTime (dbTime t) = t := by
  unfold parseDBTime dbTime
  rw [Calendar.parse_text_of_ne h (by decide), Calendar.parse_text h]
  rfl

/-- The conversation as it is listed. -/
def listed (src : Source) (h : ThreadHead) : ThreadListItem :=
  summarize src { h with latest := src.db.messages.get? h.id }

/-- The conversations, the latest first. -/
def sortedThreads (scope : List Message) : List ThreadHead := (groupThreads scope).insertionSort lastFirst

theorem latest_of_mem_sortedThreads (hcanon : ∀ m ∈ scope, Canonical m)
    (hids : (scope.map Message.id).Nodup) {h : ThreadHead} (hh : h ∈ sortedThreads scope) :
    ∃ m, LatestRow scope m ∧ h = headOf m :=
  latest_of_mem_groupThreads hcanon hids ((List.mem_insertionSort _).mp hh)

/-- **One more than a page is the beginning of what is left.** -/
theorem listThreads_eq (hcanon : ∀ m ∈ scope, Canonical m) (hids : (scope.map Message.id).Nodup) (db : DB)
    {before : Option (Time × Text)} {left : List ThreadHead} {n : Nat} (hn : n ≤ 200)
    (h : Paging.Behind ThreadHead.moment (sortedThreads scope) before left) :
    listThreads db scope before (n + 1 : Nat)
      = (left.take (n + 1)).map fun h => { h with latest := db.messages.get? h.id } := by
  unfold listThreads
  have hlimit : (if ((n + 1 : Nat) : Int) ≤ 0 ∨ 201 < ((n + 1 : Nat) : Int) then 51
      else ((n + 1 : Nat) : Int).toNat) = n + 1 := by
    rw [if_neg (by omega)]
    rfl
  dsimp only
  rw [hlimit]
  congr 2
  cases before with
  | none =>
      have hleft : left = sortedThreads scope := h
      rw [hleft]
      simp [sortedThreads]
  | some c =>
      obtain ⟨first, a, hall, rfl⟩ := h
      refine Paging.insertionSort_precedes lastFirst_iff (differ_groupThreads scope) hall fun b => ?_
      obtain ⟨m, hm, rfl⟩ := latest_of_mem_sortedThreads hcanon hids
        (hall ▸ List.mem_append_right _ List.mem_cons_self)
      simp [Paging.Precedes, ThreadHead.moment, headOf, parseDBTime_dbTime (hcanon m hm.mem).date]

/-- What a client is given for a conversation, and hands back. -/
def threadCursorOf (item : ThreadListItem) : ThreadCursor := ⟨item.date, item.threadID⟩

/-- **A page is the beginning of what is left**, and has a cursor if it is not all of it. -/
theorem threadPage_eq (hcanon : ∀ m ∈ scope, Canonical m) (hids : (scope.map Message.id).Nodup) (src : Source)
    (limit : Int) {before : Option (Time × Text)} {left : List ThreadHead}
    (h : Paging.Behind ThreadHead.moment (sortedThreads scope) before left) :
    (threadPage src scope before limit).threads = (left.take (pageLimit limit)).map (listed src) ∧
      (threadPage src scope before limit).nextCursor
        = if pageLimit limit < left.length then
            ((left.take (pageLimit limit)).map (listed src)).getLast?.map threadCursorOf
          else none := by
  unfold threadPage
  dsimp only
  rw [listThreads_eq hcanon hids src.db (pageLimit_le limit) h, List.length_map, List.length_take]
  by_cases hmore : pageLimit limit < left.length
  · have hmin : pageLimit limit < min (pageLimit limit + 1) left.length := by omega
    rw [if_pos hmin, if_pos hmin, if_pos hmore, ← List.map_take, List.take_take,
      Nat.min_eq_left (Nat.le_succ _)]
    refine ⟨?_, ?_⟩
    · rw [List.map_map]
      rfl
    · rw [List.getLast?_map, List.getLast?_map, Option.map_map, Option.map_map]
      rfl
  · have hmin : ¬ pageLimit limit < min (pageLimit limit + 1) left.length := by omega
    rw [if_neg hmin, if_neg hmin, if_neg hmore, List.take_of_length_le (by omega),
      List.take_of_length_le (by omega), List.map_map]
    exact ⟨rfl, rfl⟩

/-- The conversations of a scope, each once, the latest first. -/
structure ListsThreads (scope : List Message) (items : List ThreadListItem) : Prop where
  each : ∀ tid, tid ∈ items.map ThreadListItem.threadID ↔ tid ≠ [] ∧ ∃ m ∈ scope, m.threadID = tid
  once : (items.map ThreadListItem.threadID).Nodup
  latest : ∀ item ∈ items, ∃ m, LatestRow scope m ∧
    item.threadID = m.threadID ∧ item.latestID = m.id ∧ item.date = Calendar.text m.date
  order : items.Pairwise fun a b =>
    b.date < a.date ∨ (b.date = a.date ∧ b.threadID < a.threadID)

theorem lists_sortedThreads (hcanon : ∀ m ∈ scope, Canonical m) (hids : (scope.map Message.id).Nodup)
    (src : Source) : ListsThreads scope ((sortedThreads scope).map (listed src)) := by
  have hperm : (sortedThreads scope).Perm (groupThreads scope) := List.perm_insertionSort _ _
  have hdate : ∀ {h}, h ∈ sortedThreads scope → (listed src h).date = h.lastDate := by
    intro h hh
    obtain ⟨m, hm, rfl⟩ := latest_of_mem_sortedThreads hcanon hids hh
    exact congrArg Calendar.text (parseDBTime_dbTime (hcanon m hm.mem).date)
  have htids : ((sortedThreads scope).map (listed src)).map ThreadListItem.threadID
      = (sortedThreads scope).map ThreadHead.threadID := by
    rw [List.map_map]
    rfl
  refine ⟨fun tid => ?_, ?_, ?_, ?_⟩
  · rw [htids, (hperm.map _).mem_iff, map_threadID_groupThreads, List.mem_dedup]
    simp only [List.mem_map, List.mem_filter, bne_iff_ne]
    constructor
    · rintro ⟨m, ⟨hm, hne⟩, rfl⟩
      exact ⟨hne, m, hm, rfl⟩
    · rintro ⟨hne, m, hm, rfl⟩
      exact ⟨m, ⟨hm, hne⟩, rfl⟩
  · rw [htids, (hperm.map _).nodup_iff]
    exact nodup_groupThreads scope
  · intro item hitem
    obtain ⟨h, hh, rfl⟩ := List.mem_map.mp hitem
    obtain ⟨m, hm, heq⟩ := latest_of_mem_sortedThreads hcanon hids hh
    refine ⟨m, hm, ?_, ?_, ?_⟩
    · rw [heq]
      rfl
    · rw [heq]
      rfl
    · rw [hdate hh, heq]
      rfl
  · refine List.pairwise_map.mpr (List.Pairwise.imp_of_mem (fun {a b} ha hb h => ?_)
      (Paging.pairwise_precedes lastFirst_iff (differ_groupThreads scope)))
    rw [hdate ha, hdate hb]
    exact h

theorem countThreads_eq (scope : List Message) : countThreads scope = (groupThreads scope).length := by
  unfold countThreads
  rw [← map_threadID_groupThreads, List.length_map]

/-- **Every cursor is read**, and stands for the conversation it was made from. -/
theorem threadPageArgs_eq (hcanon : ∀ m ∈ scope, Canonical m) (hids : (scope.map Message.id).Nodup)
    (src : Source) {cursor : Option ThreadCursor} {left : List ThreadHead}
    (h : Paging.Behind (threadCursorOf ∘ listed src) (sortedThreads scope) cursor left) :
    ∃ before, threadPageArgs cursor = some before ∧
      Paging.Behind ThreadHead.moment (sortedThreads scope) before left := by
  cases cursor with
  | none => exact ⟨none, rfl, h⟩
  | some c =>
      obtain ⟨before, a, hall, rfl⟩ := h
      obtain ⟨m, hm, rfl⟩ := latest_of_mem_sortedThreads hcanon hids
        (hall ▸ List.mem_append_right before List.mem_cons_self)
      refine ⟨some (headOf m).moment, ?_, before, headOf m, hall, rfl⟩
      have hdate := (hcanon m hm.mem).date
      have hparse : ((threadCursorOf ∘ listed src) (headOf m)).parse = some (m.date, m.threadID) := by
        have htext : (listed src (headOf m)).date = Calendar.text m.date :=
          congrArg Calendar.text (parseDBTime_dbTime hdate)
        show (Calendar.parse 'T' (listed src (headOf m)).date).map (fun t => (t, m.threadID)) = _
        rw [htext, Calendar.parse_text hdate]
        rfl
      show Option.map some ((threadCursorOf ∘ listed src) (headOf m)).parse = _
      rw [hparse]
      unfold ThreadHead.moment headOf
      rw [parseDBTime_dbTime hdate]
      rfl

/-- Following the cursors reads every conversation, the latest first, and the first page counts
them. -/
theorem follow_threads (hcanon : ∀ m ∈ scope, Canonical m) (hids : (scope.map Message.id).Nodup)
    (src : Source) (limit : Int) {fetch : Option ThreadCursor → Option ThreadPage}
    (hfetch : ∀ c, fetch c = (threadPageArgs c).map fun before => threadPage src scope before limit) :
    ∃ fuel first pages,
      Paging.follow fetch (fun page => page.bind ThreadPage.nextCursor) fuel none
        = some (some first :: pages) ∧
      first.total = ((some first :: pages).flatMap fun page => page.elim [] ThreadPage.threads).length ∧
      ListsThreads scope ((some first :: pages).flatMap fun page => page.elim [] ThreadPage.threads) := by
  have hserves : Paging.Serves fetch (fun page => page.bind ThreadPage.nextCursor)
      (fun page => page.elim [] ThreadPage.threads)
      (Paging.Behind threadCursorOf ((sortedThreads scope).map (listed src))) := by
    refine Paging.serves_behind (pageLimit_pos limit) fun cursor rest hleft => ?_
    obtain ⟨left, rfl, hcursor⟩ := hleft.of_map
    obtain ⟨before, hargs, hbehind⟩ := threadPageArgs_eq hcanon hids src hcursor
    obtain ⟨hthreads, hnext⟩ := threadPage_eq hcanon hids src limit hbehind
    rw [hfetch, hargs, ← List.map_take, List.length_map]
    refine ⟨hthreads, ?_⟩
    dsimp only [Option.map_some, Option.bind_some]
    rw [hnext]
    split
    · exact Or.inr ⟨by omega, rfl⟩
    · exact Or.inl ⟨rfl, by omega⟩
  have hstart : Paging.Behind threadCursorOf ((sortedThreads scope).map (listed src)) none
      ((sortedThreads scope).map (listed src)) := rfl
  obtain ⟨pages, hrun, hall⟩ := Paging.follow_serves hserves _ hstart (Nat.lt_succ_self _)
  have hfirst : fetch none = some (threadPage src scope none limit) := hfetch none
  rw [hfirst] at hrun hall
  refine ⟨_, _, pages, hrun, ?_, hall ▸ lists_sortedThreads hcanon hids src⟩
  rw [hall, List.length_map]
  exact (countThreads_eq scope).trans (List.perm_insertionSort _ _).length_eq.symm

end Threads

/-! ### Lists of the application -/

theorem Filter.apply_sublist (f : Filter) (rows : List Message) : (f.apply rows).Sublist rows :=
  List.filter_sublist

theorem dedupeSameMessage_sublist (db : DB) (rows : List Message) : (dedupeSameMessage db rows).Sublist rows :=
  List.filter_sublist

theorem aggregateScope_sublist (db : DB) (view : View) : (aggregateScope db view).Sublist db.messages.rows :=
  List.filter_sublist

theorem searchScope_sublist (src : Source) (q : Query) : (searchScope src q).Sublist src.db.messages.rows :=
  List.filter_sublist

theorem ThreadView.scope_sublist (src : Source) (f : Filter) (v : ThreadView) :
    (v.scope src f).Sublist src.db.messages.rows := by
  cases v with
  | folder folderID => exact (f.apply_sublist _).trans List.filter_sublist
  | aggregate view =>
      refine (f.apply_sublist _).trans (List.Sublist.trans ?_ (aggregateScope_sublist src.db view))
      unfold dedupeIf
      split
      · exact dedupeSameMessage_sublist _ _
      · exact List.Sublist.refl _
  | search q =>
      show (if q.empty then [] else f.apply (dedupeSameMessage src.db (searchScope src q))).Sublist _
      split
      · exact List.nil_sublist _
      · exact (f.apply_sublist _).trans ((dedupeSameMessage_sublist _ _).trans (searchScope_sublist src q))

/-- What a reader gets who follows the cursors of a list of conversations. -/
def ThreadsPaged (src : Source) (v : ThreadView) (f : Filter) (limit : Int) : Prop :=
  ∃ fuel first pages,
    Paging.follow (fun c => threadsHandler src v f c limit) (fun page => page.bind ThreadPage.nextCursor)
        fuel none
      = some (some first :: pages) ∧
    first.total = ((some first :: pages).flatMap fun page => page.elim [] ThreadPage.threads).length ∧
    ListsThreads (v.scope src f) ((some first :: pages).flatMap fun page => page.elim [] ThreadPage.threads)

/-- What a reader gets who follows the cursors of a list of mail. -/
def MessagesPaged (list : Option (Time × Nat) → MessagePage) (selected : List Message) : Prop :=
  ∃ fuel pages,
    Paging.follow (fun c : Option AggCursor => list (c.bind AggCursor.parse)) MessagePage.next fuel none
      = some pages ∧
    Lists selected (pages.flatMap MessagePage.rows)

theorem threads_paged {src : Source} (hcanon : ∀ m ∈ src.db.messages.rows, Canonical m) (v : ThreadView)
    (f : Filter) (limit : Int) : ThreadsPaged src v f limit := by
  have hsub := v.scope_sublist src f
  exact follow_threads (fun m hm => hcanon m (hsub.mem hm)) (src.db.messages.nodup_pk hsub) src limit fun _ => rfl

theorem messages_paged {db : DB} (hcanon : ∀ m ∈ db.messages.rows, Canonical m) {rows : List Message}
    (hsub : rows.Sublist db.messages.rows) (limit : Int) {list : Option (Time × Nat) → MessagePage}
    (hlist : ∀ before, list before = withCursor (messagePage rows before (pageLimit limit)) (pageLimit limit)) :
    MessagesPaged list rows :=
  follow_messages (fun m hm => hcanon m (hsub.mem hm)) (db.messages.nodup_pk hsub) limit fun _ => hlist _

/-- **Paging is exact**: whatever the page size, following the cursors lists every conversation of a
scope once and every selected mail once, the latest first. -/
theorem paging_exact (src : Source) (f : Filter) (limit : Int)
    (hcanon : ∀ m ∈ src.db.messages.rows, Canonical m) :
    (∀ v, ThreadsPaged src v f limit) ∧
      (∀ view, MessagesPaged (fun before => listAggregate src view f before limit)
        (f.apply (dedupeSameMessage src.db (aggregateScope src.db view)))) ∧
      ∀ q, MessagesPaged (fun before => listSearch src q f before limit)
        (if q.empty then [] else dedupeSameMessage src.db (f.apply (searchScope src q))) := by
  refine ⟨fun v => threads_paged hcanon v f limit, fun view => ?_, fun q => ?_⟩
  · have hsub := (f.apply_sublist _).trans
      ((dedupeSameMessage_sublist src.db _).trans (aggregateScope_sublist src.db view))
    exact messages_paged hcanon hsub limit fun _ => rfl
  · by_cases hempty : q.empty = true
    · rw [if_pos hempty]
      refine ⟨1, [⟨[], none⟩], ?_, List.Perm.refl _, List.Pairwise.nil⟩
      have hlist : ∀ before, listSearch src q f before limit = ⟨[], none⟩ := fun before => by
        unfold listSearch
        rw [if_pos hempty]
      simp only [hlist]
      rfl
    · rw [if_neg hempty]
      have hsub := (dedupeSameMessage_sublist src.db _).trans
        ((f.apply_sublist _).trans (searchScope_sublist src q))
      refine messages_paged hcanon hsub limit fun before => ?_
      unfold listSearch
      rw [if_neg hempty]

private def sameSecond : Source where
  db :=
    { messages :=
        { rows := [{ Message.bare 1 1 1 (.numbered 1) with threadID := ['a'] },
            { Message.bare 2 1 1 (.numbered 2) with threadID := ['b'] },
            { Message.bare 3 1 1 (.numbered 3) with threadID := ['a'] }]
          last := 3
          sorted := by decide
          below := by decide
          uniq := by decide }
      folders := .single (.bare 1 1 "INBOX".toList .inbox)
      ops := .empty }
  accounts := []
  ftsMatch _ := []
  lower := Char.toLower

/-- Three mails of one second, of two conversations, one to a page. -/
theorem paging_exact_sameSecond :
    (∀ v, ThreadsPaged sameSecond v ⟨none, none, none⟩ 1) ∧
      (∀ view, MessagesPaged (fun before => listAggregate sameSecond view ⟨none, none, none⟩ before 1)
        (Filter.apply ⟨none, none, none⟩
          (dedupeSameMessage sameSecond.db (aggregateScope sameSecond.db view)))) ∧
      ∀ q, MessagesPaged (fun before => listSearch sameSecond q ⟨none, none, none⟩ before 1)
        (if q.empty then []
          else dedupeSameMessage sameSecond.db
            (Filter.apply ⟨none, none, none⟩ (searchScope sameSecond q))) := by
  refine paging_exact sameSecond ⟨none, none, none⟩ 1 ?_
  have hrows : ∀ m ∈ sameSecond.db.messages.rows, m.date < Calendar.limit ∧ m.id < 10 ^ 12 := by decide
  exact fun m hm => ⟨(hrows m hm).1, (hrows m hm).2⟩

end FlyMail.Message
