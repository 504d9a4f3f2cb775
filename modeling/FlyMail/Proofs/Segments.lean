/-
Texts in parts, and parts with numbers.

A text is its blanks in front, its parts, and its blanks behind (`origin_of_newTextSegment`); no part
is empty or longer than a part may be.  The units of a list of segments are their parts, one after
another, with the numbers from one on, and what is sent are the first of them.
-/
import FlyMail.Lib.Joined
import FlyMail.Translate.Service
import Mathlib.Data.List.Nodup

namespace FlyMail.Translate

open Joined (Tight)

/-! ### Cutting -/

theorem breakPoint_pos {max : Nat} (hmax : 0 < max) (runes : Text) : 0 < breakPoint runes max := by
  unfold breakPoint
  split
  · exact Nat.succ_pos _
  · exact hmax

theorem breakPoint_le {max : Nat} (hmax : 0 < max) (runes : Text) : breakPoint runes max ≤ max := by
  unfold breakPoint
  split
  · rename_i i hfind
    obtain ⟨n, -, rfl⟩ := List.mem_map.mp (List.mem_of_find?_eq_some hfind)
    omega
  · exact Nat.le_refl _

theorem flatten_splitFrom (max fuel : Nat) : ∀ runes, (splitFrom max fuel runes).flatten = runes := by
  induction fuel with
  | zero =>
      intro runes
      unfold splitFrom
      split
      · rename_i hnil
        rw [hnil]
        rfl
      · exact List.flatten_singleton
  | succ fuel ih =>
      intro runes
      unfold splitFrom
      split
      · rw [List.flatten_cons, ih, List.take_append_drop]
      · split
        · rename_i hnil
          rw [hnil]
          rfl
        · exact List.flatten_singleton

theorem splitFrom_bounds {max : Nat} (hmax : 0 < max) (fuel : Nat) : ∀ runes : Text, runes.length ≤ fuel →
    ∀ p ∈ splitFrom max fuel runes, p ≠ [] ∧ p.length ≤ max := by
  induction fuel with
  | zero =>
      intro runes hlength p hp
      rw [List.length_eq_zero_iff.mp (Nat.le_zero.mp hlength)] at hp
      exact absurd hp List.not_mem_nil
  | succ fuel ih =>
      intro runes hlength p hp
      unfold splitFrom at hp
      have hpos := breakPoint_pos hmax runes
      have hle := breakPoint_le hmax runes
      split at hp
      · rename_i hlong
        rcases List.mem_cons.mp hp with rfl | hp
        · refine ⟨fun hnil => ?_, ?_⟩
          · have hzero := congrArg List.length hnil
            rw [List.length_take, List.length_nil] at hzero
            omega
          · rw [List.length_take]
            omega
        · refine ih _ ?_ p hp
          rw [List.length_drop]
          omega
      · rename_i hshort
        split at hp
        · exact absurd hp List.not_mem_nil
        · rename_i hne
          rw [List.mem_singleton.mp hp]
          exact ⟨hne, by omega⟩

theorem flatten_splitText (s : Text) (max : Nat) : (splitText s max).flatten = s := by
  unfold splitText
  split
  · exact List.flatten_singleton
  · exact flatten_splitFrom max _ s

theorem splitText_bounds {max : Nat} (hmax : 0 < max) {s : Text} (hne : s ≠ []) :
    ∀ p ∈ splitText s max, p ≠ [] ∧ p.length ≤ max := by
  intro p hp
  unfold splitText at hp
  split at hp
  · rename_i hshort
    rw [List.mem_singleton.mp hp]
    exact ⟨hne, hshort⟩
  · exact splitFrom_bounds hmax _ s (Nat.le_refl _) p hp

/-! ### Segments -/

/-- The text of a segment, as it was. -/
def Segment.origin (s : Segment) : Text := s.lead ++ s.parts.flatten ++ s.trail

theorem index_eq {core : Text} (hne : core ≠ []) (hhead : ∀ c ∈ core.head?, Text.isSpace c = false) {lead : Text}
    (hlead : ∀ c ∈ lead, Text.isSpace c = true) (trail : Text) : index core (lead ++ core ++ trail) = lead.length := by
  obtain ⟨c, core, rfl⟩ := List.exists_cons_of_ne_nil hne
  induction lead with
  | nil =>
      rw [List.nil_append, List.cons_append, index, if_pos]
      · rfl
      · rw [← List.cons_append]
        exact List.isPrefixOf_iff_prefix.mpr (List.prefix_append _ _)
  | cons b lead ih =>
      rw [List.cons_append, List.cons_append, index, if_neg, ih fun d hd => hlead d (List.mem_cons_of_mem _ hd)]
      · rfl
      · intro hpre
        rw [List.isPrefixOf_cons_cons, Bool.and_eq_true, beq_iff_eq] at hpre
        have hb := hlead b List.mem_cons_self
        rw [← hpre.1, hhead c rfl] at hb
        cases hb

section Letters

variable {isLetter : Char → Bool} {text : Text} {s : Segment}

/-- **A segment is its text, in parts.** -/
theorem origin_of_newTextSegment (h : newTextSegment isLetter text = some s) :
    s.origin = text ∧ s.node = none ∧ s.parts = splitText (Text.trimSpace text) maxPartRunes ∧
      Text.trimSpace text ≠ [] ∧ s.out = s.parts.map fun _ => [] := by
  unfold newTextSegment at h
  simp only at h
  split at h
  · rename_i hworth
    have hne : Text.trimSpace text ≠ [] := by
      intro hnil
      rw [hnil] at hworth
      cases hworth
    have htight : Tight Text.isSpace (Text.trimSpace text) := @Joined.tight_trim Char Text.isSpace text
    obtain ⟨u, w, htext, hblank⟩ := @Joined.trim_spec Char Text.isSpace text
    have htext' : text = u ++ Text.trimSpace text ++ w := htext
    have hindex := index_eq hne htight.1 (fun c hc => hblank c (List.mem_append_left _ hc)) w
    rw [← htext'] at hindex
    have hlead : text.take u.length = u := by
      have htake := congrArg (List.take u.length) htext'
      rwa [List.append_assoc, List.take_left] at htake
    have htrail : text.drop (u.length + (Text.trimSpace text).length) = w := by
      have hdrop := congrArg (List.drop (u ++ Text.trimSpace text).length) htext'
      rw [List.drop_left, List.length_append] at hdrop
      exact hdrop
    obtain rfl := Option.some.inj h
    refine ⟨?_, rfl, rfl, hne, rfl⟩
    unfold Segment.origin
    simp only [hindex, hlead, htrail, flatten_splitText]
    exact htext'.symm
  · cases h

end Letters

/-! ### Numbers -/

/-- The places of the parts. -/
def placesOf (segs : List Segment) : List (Nat × Nat × Text) :=
  segs.zipIdx.flatMap fun x => x.1.parts.zipIdx.map fun y => (x.2, y.2, y.1)

theorem buildUnits_eq (segs : List Segment) : buildUnits segs =
    (placesOf segs).zipIdx.map fun x => { id := x.2 + 1, seg := x.1.1, part := x.1.2.1, text := x.1.2.2 } := rfl

theorem mem_placesOf {segs : List Segment} {seg part : Nat} {p : Text} :
    (seg, part, p) ∈ placesOf segs ↔ ∃ s, segs[seg]? = some s ∧ s.parts[part]? = some p := by
  unfold placesOf
  simp only [List.mem_flatMap, List.mem_map, Prod.exists, List.mem_zipIdx_iff_getElem?, Prod.mk.injEq]
  constructor
  · rintro ⟨s, _, hs, _, _, hp, rfl, rfl, rfl⟩
    exact ⟨s, hs, hp⟩
  · rintro ⟨s, hs, hp⟩
    exact ⟨s, seg, hs, p, part, hp, rfl, rfl, rfl⟩

theorem mem_buildUnits {segs : List Segment} {seg part : Nat} {p : Text} :
    (∃ id, ⟨id, seg, part, p⟩ ∈ buildUnits segs) ↔ ∃ s, segs[seg]? = some s ∧ s.parts[part]? = some p := by
  rw [← mem_placesOf, buildUnits_eq]
  constructor
  · rintro ⟨id, hid⟩
    obtain ⟨⟨⟨_, _, _⟩, n⟩, hx, heq⟩ := List.mem_map.mp hid
    cases heq
    exact (List.mem_iff_getElem?.mpr ⟨n, List.mem_zipIdx_iff_getElem?.mp hx⟩)
  · intro hplace
    obtain ⟨n, hn⟩ := List.mem_iff_getElem?.mp hplace
    exact ⟨n + 1, List.mem_map.mpr ⟨((seg, part, p), n), List.mem_zipIdx_iff_getElem?.mpr hn, rfl⟩⟩

theorem id_getElem?_buildUnits {segs : List Segment} {n : Nat} {u : Unit} (h : (buildUnits segs)[n]? = some u) :
    u.id = n + 1 := by
  rw [buildUnits_eq, List.getElem?_map] at h
  obtain ⟨x, hx, rfl⟩ := Option.map_eq_some_iff.mp h
  rw [List.getElem?_zipIdx] at hx
  obtain ⟨y, -, rfl⟩ := Option.map_eq_some_iff.mp hx
  simp

theorem nodup_ids (segs : List Segment) : ((buildUnits segs).map Unit.id).Nodup := by
  rw [buildUnits_eq, List.map_map]
  have hids : (placesOf segs).zipIdx.map (Unit.id ∘ fun x =>
      { id := x.2 + 1, seg := x.1.1, part := x.1.2.1, text := x.1.2.2 }) = (List.range (placesOf segs).length).map (· + 1) := by
    rw [List.range_eq_range', ← List.zipIdx_map_snd 0 (placesOf segs), List.map_map]
    rfl
  rw [hids]
  exact List.nodup_range.map fun a b h => Nat.succ.inj h

theorem nodup_slots (segs : List Segment) : ((buildUnits segs).map fun u => (u.seg, u.part)).Nodup := by
  have hslots : (buildUnits segs).map (fun u => (u.seg, u.part))
      = segs.zipIdx.flatMap fun x => x.1.parts.zipIdx.map fun y => (x.2, y.2) := by
    rw [buildUnits_eq, List.map_map]
    have hplaces : (placesOf segs).zipIdx.map ((fun u : Unit => (u.seg, u.part)) ∘ fun x =>
        { id := x.2 + 1, seg := x.1.1, part := x.1.2.1, text := x.1.2.2 })
          = ((placesOf segs).zipIdx.map Prod.fst).map fun x => (x.1, x.2.1) := by
      rw [List.map_map]
      rfl
    rw [hplaces, List.zipIdx_map_fst, placesOf, List.map_flatMap]
    simp [Function.comp_def]
  rw [hslots, List.nodup_flatMap]
  constructor
  · intro x _
    have hparts : x.1.parts.zipIdx.map (fun y => (x.2, y.2)) = (List.range x.1.parts.length).map fun i => (x.2, i) := by
      rw [List.range_eq_range', ← List.zipIdx_map_snd 0 x.1.parts, List.map_map]
      rfl
    rw [hparts]
    exact List.nodup_range.map fun a b h => (Prod.mk.inj h).2
  · have hsegs : (segs.zipIdx.map Prod.snd).Pairwise (· ≠ ·) := by
      rw [List.zipIdx_map_snd]
      exact List.nodup_range'
    refine (List.pairwise_map.mp hsegs).imp fun {x y} hne => ?_
    intro z hx hy
    obtain ⟨_, -, rfl⟩ := List.mem_map.mp hx
    obtain ⟨_, -, heq⟩ := List.mem_map.mp hy
    exact hne (Prod.mk.inj heq).1.symm

/-! ### The budget -/

theorem capFrom_prefixed (budget : Nat) (us : List Unit) : ∀ total, (capFrom budget total us).1 <+: us := by
  induction us with
  | nil => exact fun total => List.nil_prefix
  | cons u us ih =>
      intro total
      unfold capFrom
      split
      · exact List.nil_prefix
      · exact (List.prefix_cons_inj u).mpr (ih _)

theorem capFrom_length (budget : Nat) (us : List Unit) : ∀ total, total ≤ budget → (∀ u ∈ us, u.text ≠ []) →
    total + (capFrom budget total us).1.length ≤ budget := by
  induction us with
  | nil => exact fun total h _ => h
  | cons u us ih =>
      intro total h hne
      have hpos := List.length_pos_of_ne_nil (hne u List.mem_cons_self)
      unfold capFrom
      split
      · exact h
      · rename_i hroom
        have hrest := ih (total + u.text.length) (by omega) fun v hv => hne v (List.mem_cons_of_mem _ hv)
        simp only [List.length_cons]
        omega

/-- No more units are sent than the budget has characters. -/
theorem length_capUnits {units : List Unit} {budget : Nat} (h : ∀ u ∈ units, u.text ≠ []) :
    (capUnits units budget).1.length ≤ budget := by
  have hbound := capFrom_length budget units 0 (Nat.zero_le _) h
  rwa [Nat.zero_add] at hbound

theorem capUnits_cons {u : Unit} {us : List Unit} {budget : Nat} (h : u.text.length ≤ budget) :
    ∃ rest, (capUnits (u :: us) budget).1 = u :: rest := by
  unfold capUnits capFrom
  rw [if_neg (by omega)]
  exact ⟨_, rfl⟩

/-! ### The tree -/

namespace Node

mutual

/-- The same texts put in leave the node as it is. -/
theorem refill_texts : ∀ (n : Node) (rest : List Text), refill n (texts n ++ rest) = (n, rest)
  | text data, rest => rfl
  | element data attr cs, rest => by
      unfold refill texts
      split
      · rfl
      · rw [refillAll_textsOf cs rest]
  | other data cs, rest => rfl

theorem refillAll_textsOf : ∀ (ns : List Node) (rest : List Text), refillAll ns (textsOf ns ++ rest) = (ns, rest)
  | [], rest => rfl
  | n :: ns, rest => by
      unfold refillAll textsOf
      rw [List.append_assoc, refill_texts n (textsOf ns ++ rest)]
      simp only
      rw [refillAll_textsOf ns rest]

end

mutual

/-- The texts that were put in are there. -/
theorem texts_refill : ∀ (n : Node) (ts : List Text), (texts n).length ≤ ts.length →
    texts (refill n ts).1 = ts.take (texts n).length ∧ (refill n ts).2 = ts.drop (texts n).length
  | text data, ts, h => by
      cases ts with
      | nil => exact absurd h (by simp [texts])
      | cons t ts => exact ⟨rfl, rfl⟩
  | element data attr cs, ts, h => by
      by_cases hskip : skipContainers.contains data = true
      · have htexts : texts (element data attr cs) = [] := by rw [texts, if_pos hskip]
        have hrefill : refill (element data attr cs) ts = (element data attr cs, ts) := by rw [refill, if_pos hskip]
        rw [hrefill, htexts]
        exact ⟨rfl, rfl⟩
      · have htexts : ∀ cs, texts (element data attr cs) = textsOf cs := fun cs => by rw [texts, if_neg hskip]
        have hrefill : refill (element data attr cs) ts = (element data attr (refillAll cs ts).1, (refillAll cs ts).2) := by
          rw [refill, if_neg hskip]
        rw [htexts] at h
        rw [hrefill, htexts, htexts]
        exact textsOf_refillAll cs ts h
  | other data cs, ts, h => ⟨rfl, rfl⟩

theorem textsOf_refillAll : ∀ (ns : List Node) (ts : List Text), (textsOf ns).length ≤ ts.length →
    textsOf (refillAll ns ts).1 = ts.take (textsOf ns).length ∧ (refillAll ns ts).2 = ts.drop (textsOf ns).length
  | [], ts, h => ⟨rfl, rfl⟩
  | n :: ns, ts, h => by
      have hlength : (textsOf (n :: ns)).length = (texts n).length + (textsOf ns).length := by
        rw [textsOf, List.length_append]
      rw [hlength] at h
      obtain ⟨hfirst, hrest⟩ := texts_refill n ts (by omega)
      have hroom : (textsOf ns).length ≤ (refill n ts).2.length := by
        rw [hrest, List.length_drop]
        omega
      obtain ⟨hall, hleft⟩ := textsOf_refillAll ns (refill n ts).2 hroom
      rw [hlength]
      have hrefill : refillAll (n :: ns) ts
          = ((refill n ts).1 :: (refillAll ns (refill n ts).2).1, (refillAll ns (refill n ts).2).2) := by
        rw [refillAll]
      rw [hrefill]
      constructor
      · show textsOf (_ :: _) = _
        rw [textsOf, hfirst, hall, hrest, List.take_add]
      · show (refillAll ns (refill n ts).2).2 = _
        rw [hleft, hrest, List.drop_drop]

end

end Node

/-! ### Segments of a tree -/

section Tree

variable {isLetter : Char → Bool} {doc : Node}

theorem exists_of_mem_segmentsOf {s : Segment} (h : s ∈ segmentsOf isLetter doc) :
    ∃ k data s₀, (Node.textsOf doc.children)[k]? = some data ∧ newTextSegment isLetter data = some s₀ ∧
      s = { s₀ with node := some k } := by
  obtain ⟨⟨data, k⟩, hx, hs⟩ := List.mem_filterMap.mp h
  obtain ⟨s₀, hs₀, rfl⟩ := Option.map_eq_some_iff.mp hs
  exact ⟨k, data, s₀, List.mem_zipIdx_iff_getElem?.mp hx, hs₀, rfl⟩

theorem nodup_nodes (isLetter : Char → Bool) (doc : Node) : ((segmentsOf isLetter doc).map Segment.node).Nodup := by
  have hplaces : ((Node.textsOf doc.children).zipIdx.map Prod.snd).Pairwise (· ≠ ·) := by
    rw [List.zipIdx_map_snd]
    exact List.nodup_range'
  refine List.pairwise_map.mpr (List.pairwise_filterMap.mpr ?_)
  refine (List.pairwise_map.mp hplaces).imp fun {x y} hne s hs t ht heq => hne ?_
  obtain ⟨s₀, -, rfl⟩ := Option.map_eq_some_iff.mp hs
  obtain ⟨t₀, -, rfl⟩ := Option.map_eq_some_iff.mp ht
  exact Option.some.inj heq

end Tree

/-- The texts of the nodes after the segments were applied. -/
def datasOf (segs : List Segment) (doc : Node) : List Text :=
  (Node.textsOf doc.children).zipIdx.map fun x => dataOf segs x.2 x.1

section WriteBack

variable {segs : List Segment} {doc : Node}

theorem datasOf_getElem? (k : Nat) :
    (datasOf segs doc)[k]? = (Node.textsOf doc.children)[k]?.map (dataOf segs k) := by
  unfold datasOf
  rw [List.getElem?_map, List.getElem?_zipIdx, Option.map_map]
  simp [Function.comp_def]

theorem length_datasOf : (datasOf segs doc).length = (Node.textsOf doc.children).length := by
  simp [datasOf]

theorem writeBack_eq_iff_datas : writeBack segs doc = doc ↔ datasOf segs doc = Node.textsOf doc.children := by
  constructor
  · intro h
    obtain ⟨htexts, -⟩ := Node.textsOf_refillAll doc.children (datasOf segs doc) (Nat.le_of_eq length_datasOf.symm)
    rw [← @length_datasOf segs doc, List.take_length] at htexts
    have hchildren : (writeBack segs doc).children = (Node.refillAll doc.children (datasOf segs doc)).1 := by
      cases doc with
      | text data => rfl
      | element data attr cs => rfl
      | other data cs => rfl
    rw [← htexts, ← hchildren, h]
  · intro h
    have hrefill := Node.refillAll_textsOf doc.children []
    rw [List.append_nil] at hrefill
    have hwhole : writeBack segs doc = doc.withChildren (Node.refillAll doc.children (datasOf segs doc)).1 := rfl
    rw [hwhole, h, hrefill]
    cases doc with
    | text data => rfl
    | element data attr cs => rfl
    | other data cs => rfl

/-- **A document is as it was just if each of its segments is.** -/
theorem writeBack_eq_iff
    (hnodes : ∀ s ∈ segs, ∃ k, s.node = some k ∧ (Node.textsOf doc.children)[k]? = some s.origin)
    (hnodup : (segs.map Segment.node).Nodup) : writeBack segs doc = doc ↔ ∀ s ∈ segs, s.result = s.origin := by
  rw [writeBack_eq_iff_datas]
  constructor
  · intro h s hs
    obtain ⟨k, hk, htext⟩ := hnodes s hs
    have hfind : segs.find? (fun t => t.node = some k) = some s := by
      obtain ⟨before, after, rfl⟩ := List.append_of_mem hs
      rw [List.find?_append, List.find?_eq_none.mpr]
      · simp [hk]
      · intro t ht heq
        rw [List.map_append, List.map_cons] at hnodup
        have hdisjoint := (List.nodup_append.mp hnodup).2.2
        exact hdisjoint _ (List.mem_map_of_mem ht) _ List.mem_cons_self ((of_decide_eq_true heq).trans hk.symm)
    have hat := congrArg (fun l => l[k]?) h
    simp only [datasOf_getElem?, htext, Option.map_some, dataOf, hfind] at hat
    exact Option.some.inj hat
  · intro h
    refine List.ext_getElem? fun k => ?_
    rw [datasOf_getElem?]
    cases htext : (Node.textsOf doc.children)[k]? with
    | none => rfl
    | some data =>
        rw [Option.map_some, dataOf]
        split
        · rename_i s hfind
          have hs := List.mem_of_find?_eq_some hfind
          have hk : s.node = some k :=
            of_decide_eq_true (List.find?_some (p := fun t : Segment => decide (t.node = some k)) hfind)
          obtain ⟨k', hk', htext'⟩ := hnodes s hs
          obtain rfl := Option.some.inj (hk.symm.trans hk')
          rw [h s hs, ← htext', htext]
        · rfl

end WriteBack

end FlyMail.Translate
