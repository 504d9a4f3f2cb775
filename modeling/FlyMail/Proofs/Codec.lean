/-
What a reply has for a number.

The signs of the marks are not escaped, so a mark in a translation is a mark.  A number has what is
behind its last mark that is not blank, wherever that mark stands; the translation of another unit
that names it further down takes its place, and so does one further up if its own is blank.
`entry_answer` says what decides, and `entries_own_iff` that nothing else does.
-/
import FlyMail.Lib.Joined
import FlyMail.Translate.Service
import Mathlib.Data.List.Nodup

namespace FlyMail.Translate

theorem signs : Marks.Signs markOpen markClose Char.isDigit := ⟨by decide, by decide, by decide⟩

theorem between_newline : Marks.Between markOpen markClose Char.isDigit '\n' := ⟨by decide, by decide, by decide⟩

/-! ### The texts of a number -/

/-- The texts of a number that are not blank. -/
def labelled (i : Nat) (found : List (Text × Text)) : List Text :=
  found.filterMap fun p => if atoi p.1 = some i ∧ Text.trimSpace p.2 ≠ [] then some (Text.trimSpace p.2) else none

/-- The texts behind the marks of a number. -/
def named (i : Nat) (t : Text) : List Text := labelled i (splitMarks t).2

theorem labelled_append (i : Nat) (found more : List (Text × Text)) :
    labelled i (found ++ more) = labelled i found ++ labelled i more := List.filterMap_append

theorem labelled_cons (i : Nat) (p : Text × Text) (found : List (Text × Text)) :
    labelled i (p :: found) = labelled i [p] ++ labelled i found := labelled_append i [p] found

/-- Trimming leaves no marks where there were none. -/
theorem unmarked_trimSpace {t : Text} (h : Marks.Unmarked markOpen markClose Char.isDigit t) :
    Marks.Unmarked markOpen markClose Char.isDigit (Text.trimSpace t) := by
  obtain ⟨u, w, ht, -⟩ := @Joined.trim_spec Char Text.isSpace t
  rw [ht] at h
  exact (h.of_append_left signs).of_append_right

theorem foldl_enter (i : Nat) (found : List (Text × Text))
    (h : ∀ p ∈ found, Marks.Unmarked markOpen markClose Char.isDigit p.2) :
    ∀ out, found.foldl enter out i = (labelled i found).getLast?.or (out i) := by
  induction found with
  | nil => exact fun out => rfl
  | cons p found ih =>
      intro out
      have hremove := (unmarked_trimSpace (h p List.mem_cons_self)).remove_eq
      have hentered : enter out p i = (labelled i [p]).getLast?.or (out i) := by
        unfold enter labelled
        rw [hremove]
        cases hatoi : atoi p.1 with
        | none => simp [hatoi]
        | some id =>
            simp only [List.filterMap_cons, List.filterMap_nil, hatoi, Option.some.injEq]
            by_cases hblank : Text.trimSpace p.2 = []
            · simp [hblank]
            · by_cases hid : id = i
              · subst hid
                simp [hblank]
              · rw [if_neg hblank, Function.update_of_ne (Ne.symm hid), if_neg fun hc => hid hc.1]
                rfl
      rw [List.foldl_cons, ih (fun q hq => h q (List.mem_cons_of_mem _ hq)), hentered,
        labelled_cons i p found, List.getLast?_append, Option.or_assoc]

/-- **A number has its last text that is not blank.** -/
theorem entry_eq (raw : Text) (i : Nat) : entry raw i = (named i raw).getLast? := by
  have hunmarked : ∀ p ∈ (splitMarks raw).2, Marks.Unmarked markOpen markClose Char.isDigit p.2 :=
    (Marks.unmarked_split raw).2
  unfold entry decodeChunk named
  by_cases hnone : (splitMarks raw).2 = []
  · rw [if_pos hnone, hnone]
    rfl
  · rw [if_neg hnone, Option.bind_some, foldl_enter i _ hunmarked, Option.or_none]

/-! ### Blocks -/

theorem labelled_extend (i : Nat) {more : Text} (hmore : ∀ c ∈ more, Text.isSpace c = true) :
    ∀ found, labelled i (Marks.extend more found) = labelled i found := by
  intro found
  induction found with
  | nil => rfl
  | cons p rest ih =>
      cases rest with
      | nil =>
          have htrim : Text.trimSpace (p.2 ++ more) = Text.trimSpace p.2 := Joined.trim_append_blank hmore p.2
          simp only [Marks.extend, labelled, List.filterMap_cons, List.filterMap_nil, htrim]
      | cons q rest =>
          rw [Marks.extend, labelled_cons, ih, ← labelled_cons]

/-- A text with a line break behind it, and what begins with a mark. -/
theorem labelled_splitMarks (i : Nat) (ds t : Text) {rest : Text} (hrest : (splitMarks rest).1 = []) :
    labelled i ((ds, (splitMarks (t ++ '\n' :: rest)).1) :: (splitMarks (t ++ '\n' :: rest)).2)
      = labelled i [(ds, (splitMarks t).1)] ++ named i t ++ named i rest := by
  have hblank : ∀ c ∈ ['\n'], Text.isSpace c = true := by decide
  have happend := Marks.split_append signs between_newline t rest
  unfold splitMarks at hrest
  rw [hrest] at happend
  unfold named splitMarks
  rw [happend]
  split
  · rename_i hnone
    have htrim : Text.trimSpace ((Marks.split markOpen markClose Char.isDigit t).1 ++ ['\n'])
        = Text.trimSpace (Marks.split markOpen markClose Char.isDigit t).1 := Joined.trim_append_blank hblank _
    rw [labelled_cons, hnone]
    simp only [labelled, List.filterMap_cons, List.filterMap_nil, htrim, List.append_nil]
  · rw [labelled_cons, labelled_append, labelled_extend i hblank, List.append_assoc]

theorem splitMarks_block (id : Nat) (t rest : Text) :
    splitMarks (block id t ++ rest)
      = ([], (Text.formatUint id, (splitMarks (t ++ '\n' :: rest)).1) :: (splitMarks (t ++ '\n' :: rest)).2) := by
  have hblock : block id t ++ rest
      = Marks.mark markOpen markClose (Text.formatUint id) ++ (t ++ '\n' :: rest) := by simp [block]
  rw [hblock]
  exact Marks.split_mark signs Nat.toDigits_ne_nil (fun c hc => Text.isDigit_of_mem_formatUint hc) _

/-- What a unit's own block has for a number. -/
def ownNamed (i id : Nat) (t : Text) : List Text :=
  labelled i [(Text.formatUint id, (splitMarks t).1)] ++ named i t

theorem atoi_formatUint {id i : Nat} (h : atoi (Text.formatUint id) = some i) : i = id := by
  by_cases hid : id < 2 ^ 63
  · rw [atoi, Text.parseUint_formatUint hid] at h
    exact (Option.some.inj h).symm
  · have hdigits : Text.formatUint id ≠ [] ∧ (Text.formatUint id).all Char.isDigit = true :=
      ⟨Nat.toDigits_ne_nil, List.all_eq_true.mpr fun _ hc => Text.isDigit_of_mem_formatUint hc⟩
    have hvalue : Nat.ofDigitChars 10 (Text.formatUint id) 0 = id := Nat.ofDigitChars_ten_toDigits
    rw [atoi, Text.parseUint, if_pos hdigits, hvalue] at h
    simp only [if_neg hid] at h
    cases h

/-- The mark of another unit is none of the number. -/
theorem ownNamed_of_ne {i id : Nat} (h : id ≠ i) (t : Text) : ownNamed i id t = named i t := by
  unfold ownNamed labelled
  rw [List.filterMap_cons, if_neg fun hc => h (atoi_formatUint hc.1).symm]
  rfl

/-- The answer of a model: for every unit its mark and a translation. -/
def answer (tr : Unit → Text) (units : List Unit) : Text := units.flatMap fun u => block u.id (tr u)

theorem splitMarks_answer (i : Nat) (tr : Unit → Text) (units : List Unit) :
    (splitMarks (answer tr units)).1 = [] ∧
      named i (answer tr units) = units.flatMap fun u => ownNamed i u.id (tr u) := by
  induction units with
  | nil => exact ⟨rfl, rfl⟩
  | cons u rest ih =>
      have hcons : answer tr (u :: rest) = block u.id (tr u) ++ answer tr rest := rfl
      rw [hcons]
      refine ⟨by rw [splitMarks_block], ?_⟩
      unfold named
      rw [splitMarks_block]
      show labelled i (_ :: _) = _
      rw [labelled_splitMarks i _ _ ih.1, ih.2]
      rfl

/-- What a unit has from its own translation. -/
def own (tr : Unit → Text) (u : Unit) : Option Text := entry (answer tr [u]) u.id

theorem own_eq (tr : Unit → Text) (u : Unit) : own tr u = (ownNamed u.id u.id (tr u)).getLast? := by
  unfold own
  rw [entry_eq, (splitMarks_answer u.id tr [u]).2, List.flatMap_singleton]

/-! ### Who decides -/

/-- The last text that the translations have behind a mark of the number. -/
def lastNamed (tr : Unit → Text) (i : Nat) (units : List Unit) : Option Text :=
  (units.flatMap fun u => named i (tr u)).getLast?

/-- No unit further down names the unit, unless with the text it has anyway, and none further up if
its own translation is blank. -/
def Apart (tr : Unit → Text) (units : List Unit) : Prop :=
  ∀ before u after, units = before ++ u :: after →
    (∀ t, lastNamed tr u.id after = some t → own tr u = some t) ∧
      (own tr u = none → lastNamed tr u.id before = none)

/-- **A number has its own text or one that another translation has for it.** -/
theorem entry_answer {tr : Unit → Text} {before after : List Unit} {u : Unit}
    (hids : ((before ++ u :: after).map Unit.id).Nodup) :
    entry (answer tr (before ++ u :: after)) u.id
      = ((lastNamed tr u.id after).or (own tr u)).or (lastNamed tr u.id before) := by
  have hothers : ∀ v, v ∈ before ∨ v ∈ after → v.id ≠ u.id := by
    rw [List.map_append, List.map_cons, List.nodup_middle, List.nodup_cons] at hids
    intro v hv heq
    rw [← heq, ← List.map_append] at hids
    exact hids.1 (List.mem_map_of_mem (List.mem_append.mpr hv))
  have hbefore : before.flatMap (fun v => ownNamed u.id v.id (tr v)) = before.flatMap fun v => named u.id (tr v) :=
    List.flatMap_congr fun v hv => ownNamed_of_ne (hothers v (Or.inl hv)) _
  have hafter : after.flatMap (fun v => ownNamed u.id v.id (tr v)) = after.flatMap fun v => named u.id (tr v) :=
    List.flatMap_congr fun v hv => ownNamed_of_ne (hothers v (Or.inr hv)) _
  rw [entry_eq, (splitMarks_answer u.id tr _).2, List.flatMap_append, List.flatMap_cons, hbefore, hafter,
    List.getLast?_append, List.getLast?_append, ← own_eq]
  rfl

/-- **In a chunk every unit has its own text just if the units are apart.** -/
theorem chunk_own_iff {tr : Unit → Text} {units : List Unit} (hids : (units.map Unit.id).Nodup) :
    (∀ u ∈ units, entry (answer tr units) u.id = own tr u) ↔ Apart tr units := by
  constructor
  · intro h before u after hunits
    have hown := h u (by rw [hunits]; simp)
    rw [hunits] at hids
    rw [hunits, entry_answer hids] at hown
    constructor
    · intro t ht
      rw [ht] at hown
      exact hown.symm
    · intro hnone
      rw [hnone, Option.or_none] at hown
      exact (Option.or_eq_none_iff.mp hown).2
  · intro h u hu
    obtain ⟨before, after, hunits⟩ := List.append_of_mem hu
    obtain ⟨hafter, hbefore⟩ := h before u after hunits
    rw [hunits] at hids
    rw [hunits, entry_answer hids]
    cases hlast : lastNamed tr u.id after with
    | some t => exact (hafter t hlast).symm
    | none =>
        cases hown : own tr u with
        | some t => rfl
        | none => rw [hbefore hown]; rfl

/-! ### Chunks -/

theorem flatten_add (budget : Int) (c : Chunking) (u : Unit) :
    (c.add budget u).chunks.flatten ++ (c.add budget u).cur = (c.chunks.flatten ++ c.cur) ++ [u] := by
  unfold Chunking.add
  split
  · simp
  · simp

/-- The chunks have the units in their order. -/
theorem flatten_chunkUnits (units : List Unit) (budget : Int) : (chunkUnits units budget).flatten = units := by
  have hrun : ∀ (us : List Unit) (c : Chunking),
      (us.foldl (Chunking.add budget) c).chunks.flatten ++ (us.foldl (Chunking.add budget) c).cur
        = (c.chunks.flatten ++ c.cur) ++ us := by
    intro us
    induction us with
    | nil => exact fun c => (List.append_nil _).symm
    | cons u us ih =>
        intro c
        rw [List.foldl_cons, ih, flatten_add, List.append_assoc]
        rfl
  have hwhole := hrun units ⟨[], [], 0⟩
  unfold chunkUnits
  simp only
  split
  · rw [List.flatten_append, List.flatten_singleton]
    exact hwhole
  · rename_i hnone
    rw [not_not.mp hnone, List.append_nil] at hwhole
    exact hwhole

/-! ### What comes back for a part -/

/-- What has come back for a part. -/
def getOut (segs : List Segment) (seg part : Nat) : Text := ((segs[seg]?.bind fun s => s.out[part]?)).getD []

/-- There is a place for the unit's text. -/
def Placed (segs : List Segment) (u : Unit) : Prop := ∃ s, segs[u.seg]? = some s ∧ u.part < s.out.length

def slot (u : Unit) : Nat × Nat := (u.seg, u.part)

/-- All of a segment but what has come back. -/
def shape (s : Segment) : Segment × Nat := ({ s with out := [] }, s.out.length)

theorem write_shape (raw : Text) (segs : List Segment) (u : Unit) :
    (write raw segs u).map shape = segs.map shape := by
  unfold write
  split
  · refine List.ext_getElem? fun n => ?_
    rw [List.getElem?_map, List.getElem?_map, List.getElem?_modify]
    cases hs : segs[n]? with
    | none => rfl
    | some s =>
        by_cases hseg : u.seg = n
        · simp [hseg, shape]
        · simp [hseg]
  · rfl

theorem placed_of_shape {segs segs' : List Segment} (h : segs'.map shape = segs.map shape) {u : Unit}
    (hu : Placed segs u) : Placed segs' u := by
  obtain ⟨s, hs, hpart⟩ := hu
  have hshape := congrArg (fun l => l[u.seg]?) h
  simp only [List.getElem?_map, hs, Option.map_some] at hshape
  obtain ⟨s', hs', heq⟩ := Option.map_eq_some_iff.mp hshape
  exact ⟨s', hs', by rw [show s'.out.length = s.out.length from congrArg Prod.snd heq]; exact hpart⟩

theorem getOut_write_self {raw : Text} {segs : List Segment} {u : Unit} (hu : Placed segs u) :
    getOut (write raw segs u) u.seg u.part = (entry raw u.id).getD (getOut segs u.seg u.part) := by
  obtain ⟨s, hs, hpart⟩ := hu
  unfold write
  split
  · rename_i text hentry
    rw [getOut, List.getElem?_modify, hs]
    simp [hentry, List.getElem?_set_self hpart]
  · rename_i hentry
    rw [hentry]
    rfl

theorem getOut_write_of_ne {raw : Text} {segs : List Segment} {u : Unit} {seg part : Nat}
    (h : slot u ≠ (seg, part)) : getOut (write raw segs u) seg part = getOut segs seg part := by
  unfold write
  split
  · rw [getOut, getOut, List.getElem?_modify]
    by_cases hseg : u.seg = seg
    · have hpart : u.part ≠ part := fun heq => h (Prod.ext hseg heq)
      cases hs : segs[seg]? with
      | none => rfl
      | some s => simp [hseg, List.getElem?_set_ne hpart]
    · cases hs : segs[seg]? with
      | none => rfl
      | some s => simp [hseg]
  · rfl

/-- Writes into different places, each with the reply it is from. -/
def writeAll (segs : List Segment) (ws : List (Text × Unit)) : List Segment :=
  ws.foldl (fun segs w => write w.1 segs w.2) segs

theorem writeAll_shape (ws : List (Text × Unit)) : ∀ segs, (writeAll segs ws).map shape = segs.map shape := by
  induction ws with
  | nil => exact fun segs => rfl
  | cons w ws ih => exact fun segs => (ih _).trans (write_shape w.1 segs w.2)

theorem getOut_writeAll_of_ne {seg part : Nat} (ws : List (Text × Unit)) :
    ∀ segs, (∀ w ∈ ws, slot w.2 ≠ (seg, part)) → getOut (writeAll segs ws) seg part = getOut segs seg part := by
  induction ws with
  | nil => exact fun segs _ => rfl
  | cons w ws ih =>
      intro segs h
      exact (ih _ fun v hv => h v (List.mem_cons_of_mem _ hv)).trans (getOut_write_of_ne (h w List.mem_cons_self))

/-- **Every place has what was written there.** -/
theorem getOut_writeAll (ws : List (Text × Unit)) : ∀ segs, (ws.map fun w => slot w.2).Nodup →
    (∀ w ∈ ws, Placed segs w.2) →
    ∀ w ∈ ws, getOut (writeAll segs ws) w.2.seg w.2.part = (entry w.1 w.2.id).getD (getOut segs w.2.seg w.2.part) := by
  induction ws with
  | nil => exact fun segs _ _ w hw => absurd hw List.not_mem_nil
  | cons w ws ih =>
      intro segs hslots hplaced v hv
      rw [List.map_cons, List.nodup_cons] at hslots
      rcases List.mem_cons.mp hv with rfl | hv
      · refine (getOut_writeAll_of_ne ws _ fun x hx heq => hslots.1 ?_).trans
          (getOut_write_self (hplaced v List.mem_cons_self))
        exact List.mem_map.mpr ⟨x, hx, heq⟩
      · have hother : slot w.2 ≠ (v.2.seg, v.2.part) := fun heq =>
          hslots.1 (heq ▸ List.mem_map_of_mem (f := fun w => slot w.2) hv)
        have hrest := ih (write w.1 segs w.2) hslots.2
          (fun x hx => placed_of_shape (write_shape _ _ _) (hplaced x (List.mem_cons_of_mem _ hx))) v hv
        exact hrest.trans (by rw [getOut_write_of_ne hother])

section Answered

variable {E : Type} (tolerant : Bool) (isFatal : E → Bool) (reply : List Unit → Text)

/-- The writes of chunks that are all answered. -/
def answeredWrites (order : List (List Unit)) : List (Text × Unit) :=
  order.flatMap fun chunk => chunk.map fun u => (reply chunk, u)

/-- Chunks that are all answered are written one after another. -/
theorem runChunks_answered (order : List (List Unit)) (segs : List Segment) :
    runChunks tolerant isFatal segs (order.map fun chunk => (chunk, .answered (reply chunk)))
      = ⟨writeAll segs (answeredWrites reply order), none, none⟩ := by
  unfold runChunks
  induction order generalizing segs with
  | nil => rfl
  | cons chunk order ih =>
      rw [List.map_cons, List.foldl_cons]
      have hstep : endChunk tolerant isFatal ⟨segs, none, none⟩ (chunk, .answered (reply chunk))
          = ⟨writeAll segs (chunk.map fun u => (reply chunk, u)), none, none⟩ := by
        rw [endChunk, writeAll, List.foldl_map]
      rw [hstep, ih]
      simp [writeAll, answeredWrites, List.foldl_append]

theorem mem_answeredWrites {order : List (List Unit)} {w : Text × Unit} :
    w ∈ answeredWrites reply order ↔ ∃ chunk ∈ order, w.2 ∈ chunk ∧ w.1 = reply chunk := by
  unfold answeredWrites
  rw [List.mem_flatMap]
  constructor
  · rintro ⟨chunk, hchunk, hw⟩
    obtain ⟨u, hu, rfl⟩ := List.mem_map.mp hw
    exact ⟨chunk, hchunk, hu, rfl⟩
  · rintro ⟨chunk, hchunk, hu, heq⟩
    exact ⟨chunk, hchunk, List.mem_map.mpr ⟨w.2, hu, Prod.ext heq.symm rfl⟩⟩

/-- **A part has what the reply to its chunk has for it**, in whatever order the chunks end. -/
theorem getOut_runChunks {units : List Unit} {budget : Int} {order : List (List Unit)} {segs : List Segment}
    (horder : order.Perm (chunkUnits units budget)) (hslots : (units.map slot).Nodup)
    (hplaced : ∀ u ∈ units, Placed segs u) {chunk : List Unit} (hchunk : chunk ∈ chunkUnits units budget)
    {u : Unit} (hu : u ∈ chunk) :
    getOut (runChunks tolerant isFatal segs (order.map fun chunk => (chunk, .answered (reply chunk)))).segs
      u.seg u.part = (entry (reply chunk) u.id).getD (getOut segs u.seg u.part) := by
  have hunits : ∀ c ∈ order, ∀ v ∈ c, v ∈ units := by
    intro c hc v hv
    rw [← flatten_chunkUnits units budget]
    exact List.mem_flatten.mpr ⟨c, horder.mem_iff.mp hc, hv⟩
  have hnodup : ((answeredWrites reply order).map fun w => slot w.2).Nodup := by
    have hmap : (answeredWrites reply order).map (fun w => slot w.2) = order.flatten.map slot := by
      unfold answeredWrites
      rw [List.map_flatMap, List.map_flatten, List.flatMap]
      simp [Function.comp_def]
    rw [hmap]
    have hperm := (horder.flatten).map slot
    rw [flatten_chunkUnits] at hperm
    exact hperm.nodup_iff.mpr hslots
  rw [runChunks_answered]
  refine getOut_writeAll _ segs hnodup (fun w hw => ?_) (reply chunk, u) ?_
  · obtain ⟨c, hc, hv, -⟩ := (mem_answeredWrites reply).mp hw
    exact hplaced w.2 (hunits c hc w.2 hv)
  · exact (mem_answeredWrites reply).mpr ⟨chunk, horder.mem_iff.mpr hchunk, hu, rfl⟩

end Answered

/-- There is a place for the unit's text, and nothing in it. -/
def Fresh (segs : List Segment) (u : Unit) : Prop := ∃ s, segs[u.seg]? = some s ∧ s.out[u.part]? = some []

theorem Fresh.placed {segs : List Segment} {u : Unit} (h : Fresh segs u) : Placed segs u := by
  obtain ⟨s, hs, hout⟩ := h
  exact ⟨s, hs, (List.getElem?_eq_some_iff.mp hout).1⟩

theorem Fresh.getOut_eq {segs : List Segment} {u : Unit} (h : Fresh segs u) : getOut segs u.seg u.part = [] := by
  obtain ⟨s, hs, hout⟩ := h
  rw [getOut, hs, Option.bind_some, hout, Option.getD_some]

/-- No blank text is entered. -/
theorem entry_ne_nil {raw t : Text} {i : Nat} (h : entry raw i = some t) : t ≠ [] := by
  rw [entry_eq] at h
  obtain ⟨p, -, hp⟩ := List.mem_filterMap.mp (List.mem_of_getLast? h)
  split at hp
  · rename_i hcond
    rw [← Option.some.inj hp]
    exact hcond.2
  · cases hp

theorem entry_getD_inj {raw raw' : Text} {i i' : Nat} (h : (entry raw i).getD [] = (entry raw' i').getD []) :
    entry raw i = entry raw' i' := by
  cases hleft : entry raw i with
  | none =>
      cases hright : entry raw' i' with
      | none => rfl
      | some t =>
          rw [hleft, hright] at h
          exact absurd h.symm (entry_ne_nil hright)
  | some t =>
      cases hright : entry raw' i' with
      | none =>
          rw [hleft, hright] at h
          exact absurd h (entry_ne_nil hleft)
      | some t' =>
          rw [hleft, hright] at h
          exact congrArg some h

/-- **Every part has what is its own just if the units of every chunk are apart.** -/
theorem runChunks_own_iff {E : Type} (tolerant : Bool) (isFatal : E → Bool) {units : List Unit} (budget : Int)
    {order : List (List Unit)} {segs : List Segment} (tr : Unit → Text) (hids : (units.map Unit.id).Nodup)
    (hslots : (units.map slot).Nodup) (hfresh : ∀ u ∈ units, Fresh segs u)
    (horder : order.Perm (chunkUnits units budget)) :
    (∀ u ∈ units, getOut (runChunks tolerant isFatal segs
        (order.map fun chunk => (chunk, .answered (answer tr chunk)))).segs u.seg u.part = (own tr u).getD []) ↔
      ∀ chunk ∈ chunkUnits units budget, Apart tr chunk := by
  have hmem : ∀ u, u ∈ units ↔ ∃ chunk ∈ chunkUnits units budget, u ∈ chunk := by
    intro u
    conv_lhs => rw [← flatten_chunkUnits units budget]
    exact List.mem_flatten
  have hchunkIDs : ∀ chunk ∈ chunkUnits units budget, (chunk.map Unit.id).Nodup := by
    intro chunk hchunk
    have hsub : chunk.Sublist units := by
      rw [← flatten_chunkUnits units budget]
      exact List.sublist_flatten_of_mem hchunk
    exact (hsub.map Unit.id).nodup hids
  have hout : ∀ chunk ∈ chunkUnits units budget, ∀ u ∈ chunk,
      getOut (runChunks tolerant isFatal segs
        (order.map fun chunk => (chunk, .answered (answer tr chunk)))).segs u.seg u.part
        = (entry (answer tr chunk) u.id).getD [] := by
    intro chunk hchunk u hu
    have hfreshU := hfresh u ((hmem u).mpr ⟨chunk, hchunk, hu⟩)
    rw [getOut_runChunks tolerant isFatal (answer tr) horder hslots (fun v hv => (hfresh v hv).placed) hchunk hu,
      hfreshU.getOut_eq]
  constructor
  · intro h chunk hchunk
    refine (chunk_own_iff (hchunkIDs chunk hchunk)).mp fun u hu => ?_
    refine entry_getD_inj ?_
    rw [← hout chunk hchunk u hu]
    exact h u ((hmem u).mpr ⟨chunk, hchunk, hu⟩)
  · intro h u hu
    obtain ⟨chunk, hchunk, hmemU⟩ := (hmem u).mp hu
    rw [hout chunk hchunk u hmemU, (chunk_own_iff (hchunkIDs chunk hchunk)).mpr (h chunk hchunk) u hmemU]

/-- A subject and a body of one part each. -/
def twoUnits (subject body : String) : List Unit := [⟨1, 0, 0, subject.toList⟩, ⟨2, 1, 0, body.toList⟩]

def twoSegments (subject body : String) : List Segment :=
  [subject, body].map fun t => { node := none, lead := [], trail := [], parts := [t.toList], out := [[]], result := [] }

theorem fresh_two (subject body : String) : ∀ u ∈ twoUnits subject body, Fresh (twoSegments subject body) u := by
  intro u hu
  rcases List.mem_pair.mp hu with rfl | rfl
  · exact ⟨_, rfl, rfl⟩
  · exact ⟨_, rfl, rfl⟩

theorem runChunks_own_iff_two :
    (∀ u ∈ twoUnits "a" "b", getOut (runChunks true (fun _ : Bool => false) (twoSegments "a" "b")
        ((chunkUnits (twoUnits "a" "b") maxChunkRunes).map fun chunk =>
          (chunk, .answered (answer Unit.text chunk)))).segs u.seg u.part = (own Unit.text u).getD []) ↔
      ∀ chunk ∈ chunkUnits (twoUnits "a" "b") maxChunkRunes, Apart Unit.text chunk :=
  runChunks_own_iff true (fun _ => false) maxChunkRunes Unit.text (by decide) (by decide) (fresh_two "a" "b") (.refl _)

/-- The body writes the subject. -/
theorem body_in_subject : ¬ ∀ (segs : List Segment) (units : List Unit) (tr : Unit → Text),
    (units.map Unit.id).Nodup → (units.map slot).Nodup → (∀ u ∈ units, Fresh segs u) →
      ∀ u ∈ units, getOut (runChunks true (fun _ : Bool => false) segs
        ((chunkUnits units maxChunkRunes).map fun chunk => (chunk, .answered (answer tr chunk)))).segs u.seg u.part
          = (own tr u).getD [] := by
  intro h
  have hsubject := h (twoSegments "a" "⟦1⟧b") (twoUnits "a" "⟦1⟧b") Unit.text (by decide) (by decide)
    (fresh_two "a" "⟦1⟧b") ⟨1, 0, 0, "a".toList⟩ List.mem_cons_self
  exact absurd hsubject (by decide +kernel)

end FlyMail.Translate
