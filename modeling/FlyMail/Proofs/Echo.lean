/-
A model that repeats what it is asked.

Every part that is sent comes back trimmed: its text is what stands between two marks, and blanks at
the ends of that are taken off.  The blanks at the ends of a whole text are kept aside and put back,
those where a text was cut are not.  So the mail is put together again as it was just if no part that
was sent has blanks at its ends, unless it is nothing but blanks; then the part stays as it was.

A part can only get shorter, so no part makes up for what another one has lost (`flatten_inj`).
-/
import FlyMail.Proofs.Codec
import FlyMail.Proofs.Segments

namespace FlyMail.Translate

/-! ### One chunk -/

/-- No blanks at the ends, or nothing but blanks. -/
def Whole (p : Text) : Prop := Text.trimSpace p = p ∨ Text.trimSpace p = []

instance (p : Text) : Decidable (Whole p) := by
  unfold Whole
  infer_instance

theorem named_newline (i : Nat) (t : Text) : named i (t ++ ['\n']) = named i t := by
  have happend := Marks.split_append signs between_newline t []
  unfold named splitMarks
  rw [happend]
  split
  · rename_i hnone
    rw [hnone]
    rfl
  · have hnil : (Marks.split markOpen markClose Char.isDigit ([] : Text)).2 = [] := rfl
    rw [hnil, List.append_nil]
    exact labelled_extend i (by decide) _

/-- The request has the same texts as it had before its end was trimmed. -/
theorem named_encodeChunk (i : Nat) (chunk : List Unit) :
    named i (encodeChunk chunk) = named i (answer Unit.text chunk) := by
  show named i ((answer Unit.text chunk).rdropWhile (· == '\n')) = _
  induction answer Unit.text chunk using List.reverseRecOn with
  | nil => rfl
  | append_singleton t c ih =>
      rw [List.rdropWhile_concat]
      split
      · rename_i hc
        rw [beq_iff_eq.mp hc, named_newline]
        exact ih
      · rfl

section Clean

variable {chunk : List Unit} {u : Unit}

theorem named_clean (i : Nat) {t : Text} (h : markOpen ∉ t) : named i t = [] := by
  unfold named splitMarks
  rw [show (Marks.split markOpen markClose Char.isDigit t).2 = [] from Marks.unmarked_of_notMem h]
  rfl

theorem apart_clean (h : ∀ u ∈ chunk, markOpen ∉ u.text) : Apart Unit.text chunk := by
  have hnone : ∀ (i : Nat) (us : List Unit), (∀ u ∈ us, u ∈ chunk) → lastNamed Unit.text i us = none := by
    intro i us hus
    unfold lastNamed
    rw [List.getLast?_eq_none_iff, List.flatMap_eq_nil_iff]
    exact fun v hv => named_clean i (h v (hus v hv))
  intro before u after hchunk
  rw [hnone u.id after fun v hv => by rw [hchunk]; simp [hv],
    hnone u.id before fun v hv => by rw [hchunk]; simp [hv]]
  exact ⟨fun t ht => absurd ht.symm (Option.some_ne_none t), fun _ => rfl⟩

theorem own_clean (h : markOpen ∉ u.text) (hid : u.id < 2 ^ 63) :
    (own Unit.text u).getD [] = Text.trimSpace u.text := by
  have hatoi : atoi (Text.formatUint u.id) = some u.id := Text.parseUint_formatUint hid
  have hfront : (splitMarks u.text).1 = u.text := (Marks.unmarked_of_notMem h).front
  rw [own_eq, ownNamed, named_clean _ h, List.append_nil, hfront, labelled, List.filterMap_cons, List.filterMap_nil]
  simp only [hatoi, true_and]
  by_cases hblank : Text.trimSpace u.text = []
  · simp [hblank]
  · simp [hblank]

/-- **What comes back for a part is the part, trimmed.** -/
theorem entry_echo (hids : (chunk.map Unit.id).Nodup) (hclean : ∀ u ∈ chunk, markOpen ∉ u.text) (hu : u ∈ chunk)
    (hid : u.id < 2 ^ 63) : (entry (encodeChunk chunk) u.id).getD [] = Text.trimSpace u.text := by
  have hown := (chunk_own_iff hids).mpr (apart_clean hclean) u hu
  rw [← own_clean (hclean u hu) hid, ← hown, entry_eq, named_encodeChunk, ← entry_eq]

end Clean

/-! ### One segment -/

/-- Parts that have only got shorter are the same if they are the same text. -/
theorem flatten_inj {xs ys : List Text} (hle : List.Forall₂ (fun x y => x.length ≤ y.length) xs ys)
    (h : xs.flatten = ys.flatten) : xs = ys := by
  have hlength : ∀ {xs ys : List Text}, List.Forall₂ (fun x y => x.length ≤ y.length) xs ys →
      xs.flatten.length ≤ ys.flatten.length := by
    intro xs ys hle
    induction hle with
    | nil => exact Nat.le_refl _
    | cons hxy _ ih =>
        rw [List.flatten_cons, List.flatten_cons, List.length_append, List.length_append]
        exact Nat.add_le_add hxy ih
  induction hle with
  | nil => rfl
  | @cons x y xs ys hxy hrest ih =>
      have htotal := congrArg List.length h
      simp only [List.flatten_cons, List.length_append] at htotal
      have hle := hlength hrest
      rw [List.flatten_cons, List.flatten_cons] at h
      obtain ⟨rfl, htail⟩ := List.append_inj h (by omega)
      rw [ih htail]

theorem filled_trimSpace (p : Text) : Segment.filled p (Text.trimSpace p) = p ↔ Whole p := by
  unfold Segment.filled Whole
  by_cases hblank : Text.trimSpace p = []
  · simp [hblank]
  · simp [hblank]

theorem length_trimSpace (p : Text) : (Text.trimSpace p).length ≤ p.length := by
  obtain ⟨u, w, hp, -⟩ := @Joined.trim_spec Char Text.isSpace p
  have hlength := congrArg List.length hp
  simp only [List.length_append] at hlength
  show (Joined.trim Text.isSpace p).length ≤ p.length
  omega

/-- What comes back is the part trimmed, or nothing. -/
def Echoed (p o : Text) : Prop := o = Text.trimSpace p ∨ o = []

theorem Echoed.length_filled {p o : Text} (h : Echoed p o) : (Segment.filled p o).length ≤ p.length := by
  unfold Segment.filled
  split
  · rename_i hne
    rcases h with rfl | rfl
    · exact length_trimSpace p
    · exact absurd rfl hne
  · exact Nat.le_refl _

/-- **A segment is put together again just if each of its parts is.** -/
theorem result_eq_iff {s : Segment} (h : List.Forall₂ Echoed s.parts s.out) :
    s.apply.result = s.origin ↔ List.Forall₂ (fun p o => Segment.filled p o = p) s.parts s.out := by
  have hle : ∀ {ps os : List Text}, List.Forall₂ Echoed ps os →
      List.Forall₂ (fun x y => x.length ≤ y.length) (List.zipWith Segment.filled ps os) ps := by
    intro ps os h
    induction h with
    | nil => exact .nil
    | cons hpo _ ih => exact .cons hpo.length_filled ih
  have hsame : ∀ {ps os : List Text}, List.Forall₂ Echoed ps os →
      (List.zipWith Segment.filled ps os = ps ↔ List.Forall₂ (fun p o => Segment.filled p o = p) ps os) := by
    intro ps os h
    induction h with
    | nil => simp
    | cons _ _ ih => simp [ih]
  rw [← hsame h]
  show s.lead ++ (List.zipWith Segment.filled s.parts s.out).flatten ++ s.trail = s.lead ++ s.parts.flatten ++ s.trail ↔ _
  constructor
  · intro heq
    exact flatten_inj (hle h) (List.append_cancel_left (List.append_cancel_right heq))
  · intro heq
    rw [heq]

/-! ### All segments -/

/-- A segment as it is made: nothing has come back, and the first part is not blank. -/
structure Cut (s : Segment) : Prop where
  out_eq : s.out = s.parts.map fun _ => []
  bounds : ∀ p ∈ s.parts, p ≠ [] ∧ p.length ≤ maxPartRunes
  first : ∃ p ps, s.parts = p :: ps ∧ Text.trimSpace p ≠ []
  clean : ∀ p ∈ s.parts, markOpen ∉ p

/-- The units that are sent. -/
def sentOf (segs : List Segment) : List Unit := (capUnits (buildUnits segs) maxTotalRunes).1

section Sent

variable {segs : List Segment} {u : Unit}

theorem mem_buildUnits_of_sent (h : u ∈ sentOf segs) : u ∈ buildUnits segs :=
  (capFrom_prefixed _ _ _).subset h

theorem part_of_mem (h : u ∈ buildUnits segs) : ∃ s, segs[u.seg]? = some s ∧ s.parts[u.part]? = some u.text :=
  mem_buildUnits.mp ⟨u.id, h⟩

theorem nodup_sent (segs : List Segment) :
    ((sentOf segs).map Unit.id).Nodup ∧ ((sentOf segs).map slot).Nodup :=
  ⟨((capFrom_prefixed _ _ _).sublist.map Unit.id).nodup (nodup_ids segs),
    ((capFrom_prefixed _ _ _).sublist.map slot).nodup (nodup_slots segs)⟩

variable (hcut : ∀ s ∈ segs, Cut s)

include hcut

theorem fresh_of_mem (h : u ∈ buildUnits segs) : Fresh segs u := by
  obtain ⟨s, hs, hp⟩ := part_of_mem h
  refine ⟨s, hs, ?_⟩
  rw [(hcut s (List.mem_of_getElem? hs)).out_eq, List.getElem?_map, hp]
  rfl

theorem text_of_mem (h : u ∈ buildUnits segs) :
    (u.text ≠ [] ∧ u.text.length ≤ maxPartRunes) ∧ markOpen ∉ u.text := by
  obtain ⟨s, hs, hp⟩ := part_of_mem h
  have hcutS := hcut s (List.mem_of_getElem? hs)
  exact ⟨hcutS.bounds _ (List.mem_of_getElem? hp), hcutS.clean _ (List.mem_of_getElem? hp)⟩

theorem id_lt_of_sent (h : u ∈ sentOf segs) : u.id < 2 ^ 63 := by
  obtain ⟨n, hn⟩ := List.mem_iff_getElem?.mp h
  have hlength : (sentOf segs).length ≤ maxTotalRunes :=
    length_capUnits fun v hv => (text_of_mem hcut hv).1.1
  have hlt := (List.getElem?_eq_some_iff.mp hn).1
  have hat : (buildUnits segs)[n]? = some u := by
    obtain ⟨more, hmore⟩ : sentOf segs <+: buildUnits segs := capFrom_prefixed maxTotalRunes (buildUnits segs) 0
    rw [← hmore, List.getElem?_append_left hlt]
    exact hn
  have htotal : maxTotalRunes < 2 ^ 63 := by decide
  rw [id_getElem?_buildUnits hat]
  omega

end Sent

section Echo

variable {E : Type} (tolerant : Bool) (isFatal : E → Bool)

/-- The segments after every request was repeated. -/
def echoed (segs : List Segment) (order : List (List Unit)) : List Segment :=
  (runChunks tolerant isFatal segs (order.map fun chunk => (chunk, .answered (encodeChunk chunk)))).segs

variable {segs : List Segment} {order : List (List Unit)}

theorem echoed_shape : (echoed tolerant isFatal segs order).map shape = segs.map shape := by
  unfold echoed
  rw [runChunks_answered]
  exact writeAll_shape _ segs

theorem getOut_unsent (horder : order.Perm (chunkUnits (sentOf segs) maxChunkRunes)) {seg part : Nat}
    (h : ∀ u ∈ sentOf segs, slot u ≠ (seg, part)) :
    getOut (echoed tolerant isFatal segs order) seg part = getOut segs seg part := by
  unfold echoed
  rw [runChunks_answered]
  refine getOut_writeAll_of_ne _ segs fun w hw => ?_
  obtain ⟨chunk, hchunk, hw2, -⟩ := (mem_answeredWrites encodeChunk).mp hw
  refine h w.2 ?_
  rw [← flatten_chunkUnits (sentOf segs) maxChunkRunes]
  exact List.mem_flatten.mpr ⟨chunk, horder.mem_iff.mp hchunk, hw2⟩

variable (hcut : ∀ s ∈ segs, Cut s) (horder : order.Perm (chunkUnits (sentOf segs) maxChunkRunes))

include hcut horder

theorem getOut_sent {u : Unit} (hu : u ∈ sentOf segs) :
    getOut (echoed tolerant isFatal segs order) u.seg u.part = Text.trimSpace u.text := by
  obtain ⟨hids, hslots⟩ := nodup_sent segs
  have hu' := hu
  rw [← flatten_chunkUnits (sentOf segs) maxChunkRunes] at hu'
  obtain ⟨chunk, hchunk, huc⟩ := List.mem_flatten.mp hu'
  have hsub : chunk.Sublist (sentOf segs) := by
    conv_rhs => rw [← flatten_chunkUnits (sentOf segs) maxChunkRunes]
    exact List.sublist_flatten_of_mem hchunk
  have hfresh : ∀ v ∈ sentOf segs, Fresh segs v := fun v hv => fresh_of_mem hcut (mem_buildUnits_of_sent hv)
  unfold echoed
  rw [getOut_runChunks tolerant isFatal encodeChunk horder hslots (fun v hv => (hfresh v hv).placed) hchunk huc,
    (hfresh u hu).getOut_eq]
  exact entry_echo ((hsub.map Unit.id).nodup hids)
    (fun v hv => (text_of_mem hcut (mem_buildUnits_of_sent (hsub.subset hv))).2) huc (id_lt_of_sent hcut hu)

/-- The segments, with what has come back for each part. -/
theorem echoed_getElem? {n : Nat} {s' : Segment} (h : (echoed tolerant isFatal segs order)[n]? = some s') :
    ∃ s, segs[n]? = some s ∧ s' = { s with out := s'.out } ∧ List.Forall₂ Echoed s'.parts s'.out ∧
      (List.Forall₂ (fun p o => Segment.filled p o = p) s'.parts s'.out ↔
        ∀ u ∈ sentOf segs, u.seg = n → Whole u.text) := by
  have hshape := congrArg (fun l => l[n]?) (@echoed_shape E tolerant isFatal segs order)
  simp only [List.getElem?_map, h, Option.map_some] at hshape
  obtain ⟨s, hs, heq⟩ := Option.map_eq_some_iff.mp hshape.symm
  obtain ⟨hsame, hlength⟩ := Prod.mk.inj heq
  have hs' : s' = { s with out := s'.out } := by
    have hwith := congrArg (fun t : Segment => { t with out := s'.out }) hsame
    exact hwith.symm
  have hparts : s'.parts = s.parts := by
    have heqParts := congrArg Segment.parts hs'
    exact heqParts
  have hcutS := hcut s (List.mem_of_getElem? hs)
  have hlen : s'.parts.length = s'.out.length := by
    rw [hparts, ← hlength, hcutS.out_eq, List.length_map]
  -- a part has come back trimmed, or was not sent
  have hat : ∀ i (hp : i < s'.parts.length) (ho : i < s'.out.length),
      (∃ u ∈ sentOf segs, u.seg = n ∧ u.text = s'.parts[i] ∧ u.part = i ∧ s'.out[i] = Text.trimSpace s'.parts[i]) ∨
        ((∀ u ∈ sentOf segs, slot u ≠ (n, i)) ∧ s'.out[i] = []) := by
    intro i hp ho
    have hout : s'.out[i] = getOut (echoed tolerant isFatal segs order) n i := by
      rw [getOut, h, Option.bind_some, List.getElem?_eq_getElem ho, Option.getD_some]
    have hpart : s.parts[i]? = some s'.parts[i] := by rw [← hparts, List.getElem?_eq_getElem hp]
    by_cases hsent : ∃ u ∈ sentOf segs, slot u = (n, i)
    · obtain ⟨u, hu, hslot⟩ := hsent
      obtain ⟨rfl, rfl⟩ := Prod.mk.inj hslot
      obtain ⟨t, ht, htext⟩ := part_of_mem (mem_buildUnits_of_sent hu)
      obtain rfl := Option.some.inj (hs.symm.trans ht)
      have htextEq := Option.some.inj (htext.symm.trans hpart)
      refine Or.inl ⟨u, hu, rfl, htextEq, rfl, ?_⟩
      rw [hout, getOut_sent tolerant isFatal hcut horder hu, htextEq]
    · have hnone : ∀ u ∈ sentOf segs, slot u ≠ (n, i) := fun u hu heq => hsent ⟨u, hu, heq⟩
      refine Or.inr ⟨hnone, ?_⟩
      rw [hout, getOut_unsent tolerant isFatal horder hnone, getOut, hs, Option.bind_some, hcutS.out_eq,
        List.getElem?_map, hpart]
      rfl
  refine ⟨s, hs, hs', ?_, ?_⟩
  · rw [List.forall₂_iff_get]
    refine ⟨hlen, fun i hp ho => ?_⟩
    rcases hat i hp ho with ⟨u, -, -, -, -, hecho⟩ | ⟨-, hnil⟩
    · exact Or.inl hecho
    · exact Or.inr hnil
  · rw [List.forall₂_iff_get]
    constructor
    · rintro ⟨-, hfilled⟩ u hu rfl
      obtain ⟨t, ht, htext⟩ := part_of_mem (mem_buildUnits_of_sent hu)
      obtain rfl := Option.some.inj (hs.symm.trans ht)
      rw [← hparts] at htext
      obtain ⟨hp, htextEq⟩ := List.getElem?_eq_some_iff.mp htext
      have ho : u.part < s'.out.length := hlen ▸ hp
      rcases hat u.part hp ho with ⟨-, -, -, -, -, hecho⟩ | ⟨hnone, -⟩
      · have hkept : Segment.filled s'.parts[u.part] s'.out[u.part] = s'.parts[u.part] := hfilled u.part hp ho
        rw [hecho, filled_trimSpace, htextEq] at hkept
        exact hkept
      · exact absurd rfl (hnone u hu)
    · intro hwhole
      refine ⟨hlen, fun i hp ho => ?_⟩
      show Segment.filled s'.parts[i] s'.out[i] = s'.parts[i]
      rcases hat i hp ho with ⟨u, hu, hseg, htext, -, hecho⟩ | ⟨-, hnil⟩
      · rw [hecho, filled_trimSpace, ← htext]
        exact hwhole u hu hseg
      · rw [hnil]
        rfl

/-- **All segments are put together again just if every part that was sent is whole.** -/
theorem results_eq_iff : (∀ s' ∈ (echoed tolerant isFatal segs order).map Segment.apply, s'.result = s'.origin) ↔
    ∀ u ∈ sentOf segs, Whole u.text := by
  have hresult : ∀ s' : Segment, s'.apply.origin = s'.origin := fun s' => rfl
  constructor
  · intro h u hu
    obtain ⟨s, hs, -⟩ := part_of_mem (mem_buildUnits_of_sent hu)
    have hshape := congrArg (fun l => l[u.seg]?) (@echoed_shape E tolerant isFatal segs order)
    simp only [List.getElem?_map, hs, Option.map_some] at hshape
    obtain ⟨s', hs', -⟩ := Option.map_eq_some_iff.mp hshape
    obtain ⟨-, -, -, hecho, hiff⟩ := echoed_getElem? tolerant isFatal hcut horder hs'
    have hsame := h s'.apply (List.mem_map_of_mem (List.mem_of_getElem? hs'))
    rw [hresult] at hsame
    exact hiff.mp ((result_eq_iff hecho).mp hsame) u hu rfl
  · intro hwhole s'' hs''
    obtain ⟨s', hmem, rfl⟩ := List.mem_map.mp hs''
    obtain ⟨n, hn⟩ := List.mem_iff_getElem?.mp hmem
    obtain ⟨-, -, -, hecho, hiff⟩ := echoed_getElem? tolerant isFatal hcut horder hn
    rw [hresult]
    exact (result_eq_iff hecho).mpr (hiff.mpr fun u hu _ => hwhole u hu)

end Echo

/-! ### One mail -/

/-- A text without the signs of the marks. -/
def NoMarks (t : Text) : Prop := markOpen ∉ t ∧ markClose ∉ t

instance (t : Text) : Decidable (NoMarks t) := by
  unfold NoMarks
  infer_instance

/-- Nothing in the mail has the signs of the marks, whatever the body is written in. -/
structure Unmarked {E : Type} (lib : Lib E) (d : MessageDetail) : Prop where
  subject : NoMarks d.subject
  textBody : NoMarks d.textBody
  texts : ∀ doc, lib.parse d.htmlBody = .ok doc → ∀ t ∈ Node.textsOf doc.children, NoMarks t

section Mail

variable {E : Type} {lib : Lib E} {d : MessageDetail} {o : Opened}

theorem cut_of_newTextSegment {text : Text} {s : Segment} (h : newTextSegment lib.isLetter text = some s)
    (hclean : markOpen ∉ text) (k : Option Nat) : Cut { s with node := k } := by
  obtain ⟨horigin, -, hparts, hne, hout⟩ := origin_of_newTextSegment h
  have hflatten : s.parts.flatten = Text.trimSpace text := by rw [hparts, flatten_splitText]
  have hbounds : ∀ p ∈ s.parts, p ≠ [] ∧ p.length ≤ maxPartRunes := by
    rw [hparts]
    exact splitText_bounds (by decide) hne
  refine ⟨hout, hbounds, ?_, fun p hp hmem => hclean ?_⟩
  · cases hs : s.parts with
    | nil =>
        rw [hs] at hflatten
        exact absurd hflatten.symm hne
    | cons p ps =>
        refine ⟨p, ps, rfl, fun hblank => ?_⟩
        -- the first character of the text is none of the blanks
        obtain ⟨c, q, rfl⟩ := List.exists_cons_of_ne_nil (hbounds p (hs ▸ List.mem_cons_self)).1
        have hhead := (@Joined.tight_trim Char Text.isSpace text).1 c (by
          show c ∈ (Text.trimSpace text).head?
          rw [← hflatten, hs]
          rfl)
        obtain ⟨u, w, hspec, hblanks⟩ := @Joined.trim_spec Char Text.isSpace (c :: q)
        have hnil : Joined.trim Text.isSpace (c :: q) = [] := hblank
        rw [hnil, List.append_nil] at hspec
        rw [hblanks c (hspec ▸ List.mem_cons_self)] at hhead
        cases hhead
  · rw [← horigin, Segment.origin]
    exact List.mem_append_left _ (List.mem_append_right _ (List.mem_flatten.mpr ⟨p, hp, hmem⟩))

/-- What a mail is opened to. -/
theorem openDetail_ok (h : openDetail lib d = .ok o) :
    o.subjectSeg = newTextSegment lib.isLetter d.subject ∧
      ((∃ doc, lib.parse d.htmlBody = .ok doc ∧ o.doc = some doc ∧ o.bodySegs = segmentsOf lib.isLetter doc) ∨
        (o.doc = none ∧ o.bodySegs = (newTextSegment lib.isLetter d.textBody).toList)) := by
  unfold openDetail at h
  simp only at h
  split at h
  · split at h
    · cases h
    · rename_i doc hparse
      obtain rfl := Except.ok.inj h
      exact ⟨rfl, Or.inl ⟨doc, hparse, rfl, rfl⟩⟩
  · obtain rfl := Except.ok.inj h
    exact ⟨rfl, Or.inr ⟨rfl, rfl⟩⟩

theorem cut_of_mem_all (h : openDetail lib d = .ok o) (hmarks : Unmarked lib d) : ∀ s ∈ o.all, Cut s := by
  obtain ⟨hsubject, hbody⟩ := openDetail_ok h
  have hcutText : ∀ {text : Text} {s : Segment}, newTextSegment lib.isLetter text = some s → NoMarks text → Cut s := by
    intro text s hs hno
    have hcut := cut_of_newTextSegment hs hno.1 s.node
    exact hcut
  intro s hs
  rcases List.mem_append.mp hs with hs | hs
  · rw [hsubject] at hs
    exact hcutText (Option.mem_toList.mp hs) hmarks.subject
  · rcases hbody with ⟨doc, hparse, -, heq⟩ | ⟨-, heq⟩
    · rw [heq] at hs
      obtain ⟨k, data, s₀, htext, hs₀, rfl⟩ := exists_of_mem_segmentsOf hs
      exact cut_of_newTextSegment hs₀ (hmarks.texts doc hparse data (List.mem_of_getElem? htext)).1 (some k)
    · rw [heq] at hs
      exact hcutText (Option.mem_toList.mp hs) hmarks.textBody

/-- Where a segment belongs, and what it was. -/
def key (s : Segment) : Option Nat × Text := (s.node, s.origin)

/-- A text that is one segment, or none. -/
theorem single_eq_iff {text : Text} {segs : List Segment}
    (h : segs.map key = (newTextSegment lib.isLetter text).toList.map key)
    (hne : newTextSegment lib.isLetter text ≠ none) :
    (segs.head?.map Segment.result).getD [] = text ↔ ∀ s ∈ segs, s.result = s.origin := by
  cases hs₀ : newTextSegment lib.isLetter text with
  | none => exact absurd hs₀ hne
  | some s₀ =>
      rw [hs₀] at h
      obtain ⟨s, segs, rfl⟩ := List.exists_cons_of_ne_nil (l := segs) (fun hnil => by rw [hnil] at h; cases h)
      obtain ⟨hkey, hrest⟩ := List.cons.inj h
      obtain rfl := List.map_eq_nil_iff.mp hrest
      have horigin : s.origin = text := by
        rw [← (origin_of_newTextSegment hs₀).1]
        exact congrArg Prod.snd hkey
      rw [List.head?_cons, Option.map_some, Option.getD_some, ← horigin]
      simp

/-- **The mail is put together again just if every segment is**, and if its text had one. -/
theorem close_eq_iff (h : openDetail lib d = .ok o) {segs : List Segment} (hsegs : segs.map key = o.all.map key) :
    ((o.close d segs).subject = d.subject ∧ (o.close d segs).doc = o.doc ∧
        (o.doc = none → (o.close d segs).textBody = d.textBody)) ↔
      (∀ s ∈ segs, s.result = s.origin) ∧ (o.doc = none → o.bodySegs = [] → d.textBody = []) := by
  obtain ⟨hsubject, hbody⟩ := openDetail_ok h
  obtain ⟨front, body, rfl, hfront, hback⟩ : ∃ front body, segs = front ++ body ∧
      front.map key = o.subjectSeg.toList.map key ∧ body.map key = o.bodySegs.map key := by
    rw [Opened.all, List.map_append] at hsegs
    obtain ⟨front, body, hsplit, hfront, hback⟩ := List.map_eq_append_iff.mp hsegs
    exact ⟨front, body, hsplit, hfront, hback⟩
  have hlength : front.length = o.subjectSeg.toList.length := by
    have hmap := congrArg List.length hfront
    rwa [List.length_map, List.length_map] at hmap
  have hdrop : (front ++ body).drop o.subjectSeg.toList.length = body := by rw [← hlength, List.drop_left]
  have hfirst : (o.close d (front ++ body)).subject = d.subject ↔ ∀ s ∈ front, s.result = s.origin := by
    unfold Opened.close
    simp only
    cases hseg : newTextSegment lib.isLetter d.subject with
    | none =>
        rw [hsubject, hseg] at hfront
        rw [hsubject, hseg, List.map_eq_nil_iff.mp hfront]
        simp
    | some s₀ =>
        have hhead : (front ++ body).head? = front.head? := by
          cases front with
          | nil =>
              rw [hsubject, hseg] at hlength
              cases hlength
          | cons f front => rfl
        rw [hsubject] at hfront ⊢
        rw [hhead, if_pos (by rw [hseg]; rfl)]
        exact single_eq_iff hfront (by rw [hseg]; exact Option.some_ne_none s₀)
  have hsecond : ((o.close d (front ++ body)).doc = o.doc ∧
      (o.doc = none → (o.close d (front ++ body)).textBody = d.textBody)) ↔
        (∀ s ∈ body, s.result = s.origin) ∧ (o.doc = none → o.bodySegs = [] → d.textBody = []) := by
    unfold Opened.close
    simp only [hdrop]
    rcases hbody with ⟨doc, -, hdoc, heq⟩ | ⟨hdoc, heq⟩
    · have hnodes : ∀ s ∈ body, ∃ k, s.node = some k ∧ (Node.textsOf doc.children)[k]? = some s.origin := by
        intro s hs
        have hkey : key s ∈ o.bodySegs.map key := hback ▸ List.mem_map_of_mem hs
        rw [heq] at hkey
        obtain ⟨t, ht, hsame⟩ := List.mem_map.mp hkey
        obtain ⟨k, data, s₀, htext, hs₀, rfl⟩ := exists_of_mem_segmentsOf ht
        obtain ⟨hnode, horigin⟩ := Prod.mk.inj hsame
        refine ⟨k, hnode.symm, ?_⟩
        rw [htext, ← horigin, ← (origin_of_newTextSegment hs₀).1]
        rfl
      have hnodup : (body.map Segment.node).Nodup := by
        have hmap := congrArg (List.map Prod.fst) hback
        rw [List.map_map, List.map_map, heq] at hmap
        have hsame : body.map Segment.node = (segmentsOf lib.isLetter doc).map Segment.node := hmap
        rw [hsame]
        exact nodup_nodes lib.isLetter doc
      rw [hdoc, Option.map_some, Option.some.injEq, writeBack_eq_iff hnodes hnodup]
      simp
    · rw [hdoc]
      simp only [Option.map_none, Option.isSome_none, Bool.false_eq_true, if_false, forall_const, true_and]
      cases hseg : newTextSegment lib.isLetter d.textBody with
      | none =>
          rw [hseg] at heq
          rw [heq] at hback ⊢
          rw [List.map_eq_nil_iff.mp hback]
          simp [eq_comm]
      | some s₀ =>
          have hne : newTextSegment lib.isLetter d.textBody ≠ none := by
            rw [hseg]
            exact Option.some_ne_none s₀
          rw [heq] at hback
          rw [single_eq_iff hback hne, heq, hseg]
          simp
  rw [List.forall_mem_append, hfirst, hsecond, and_assoc]

/-- The first unit is sent, and something comes back for it. -/
theorem translated_echoed {E' : Type} (tolerant : Bool) (isFatal : E' → Bool) {segs : List Segment}
    {order : List (List Unit)} (hcut : ∀ s ∈ segs, Cut s)
    (horder : order.Perm (chunkUnits (sentOf segs) maxChunkRunes)) (hne : segs ≠ []) :
    sentOf segs ≠ [] ∧ ((echoed tolerant isFatal segs order).map Segment.apply).any Segment.translated = true := by
  obtain ⟨s, rest, rfl⟩ := List.exists_cons_of_ne_nil hne
  have hcutS := hcut s List.mem_cons_self
  obtain ⟨p, ps, hparts, hblank⟩ := hcutS.first
  obtain ⟨more, hunits⟩ : ∃ more, buildUnits (s :: rest) = ⟨1, 0, 0, p⟩ :: more := by
    unfold buildUnits
    simp only [List.zipIdx_cons, List.flatMap_cons, hparts, List.map_cons, List.cons_append]
    exact ⟨_, rfl⟩
  have hbound : p.length ≤ maxTotalRunes :=
    (hcutS.bounds p (hparts ▸ List.mem_cons_self)).2.trans (by decide)
  have hsent : (⟨1, 0, 0, p⟩ : Unit) ∈ sentOf (s :: rest) := by
    obtain ⟨kept, hkept⟩ := @capUnits_cons ⟨1, 0, 0, p⟩ more maxTotalRunes hbound
    rw [sentOf, hunits, hkept]
    exact List.mem_cons_self
  refine ⟨List.ne_nil_of_mem hsent, ?_⟩
  have hout : getOut (echoed tolerant isFatal (s :: rest) order) 0 0 = Text.trimSpace p :=
    getOut_sent tolerant isFatal hcut horder hsent
  unfold getOut at hout
  cases hat : (echoed tolerant isFatal (s :: rest) order)[0]? with
  | none =>
      rw [hat] at hout
      exact absurd hout.symm hblank
  | some s' =>
      rw [hat, Option.bind_some] at hout
      cases hpart : s'.out[0]? with
      | none =>
          rw [hpart] at hout
          exact absurd hout.symm hblank
      | some t =>
          rw [hpart, Option.getD_some] at hout
          refine List.any_eq_true.mpr ⟨s'.apply, List.mem_map_of_mem (List.mem_of_getElem? hat), ?_⟩
          refine List.any_eq_true.mpr ⟨t, List.mem_of_getElem? hpart, ?_⟩
          rw [hout]
          exact bne_iff_ne.mpr hblank

section Repeated

variable (tolerant : Bool) (isFatal : E → Bool) {order : List (List Unit)}

/-- The segments after every request was repeated, applied. -/
def filledIn (o : Opened) (order : List (List Unit)) : List Segment :=
  (echoed tolerant isFatal o.all order).map Segment.apply

/-- **With a model that repeats what it is asked, the mail is translated.** -/
theorem reassemble_echo (h : openDetail lib d = .ok o) (hmarks : Unmarked lib d) (hall : o.all ≠ [])
    (horder : order.Perm (chunkUnits o.sent.1 maxChunkRunes))
    {complete : List (List Unit) → List (List Unit × Ended E)}
    (hcomplete : complete (chunkUnits o.sent.1 maxChunkRunes)
      = order.map fun chunk => (chunk, .answered (encodeChunk chunk))) :
    reassemble lib d tolerant isFatal complete = .ok (o.close d (filledIn tolerant isFatal o order)) := by
  obtain ⟨hsent, htranslated⟩ := translated_echoed tolerant isFatal (cut_of_mem_all h hmarks) horder hall
  have hfatal : (runChunks tolerant isFatal o.all (order.map fun chunk =>
      (chunk, .answered (encodeChunk chunk)))).fatal = none := by rw [runChunks_answered]
  unfold reassemble
  rw [h]
  simp only
  rw [if_neg (fun hnil => hnil.elim hall hsent), hcomplete]
  simp only [hfatal]
  exact if_pos htranslated

theorem close_echo_iff (h : openDetail lib d = .ok o) (hmarks : Unmarked lib d)
    (horder : order.Perm (chunkUnits o.sent.1 maxChunkRunes)) :
    ((o.close d (filledIn tolerant isFatal o order)).subject = d.subject ∧
        (o.close d (filledIn tolerant isFatal o order)).doc = o.doc ∧
        (o.doc = none → (o.close d (filledIn tolerant isFatal o order)).textBody = d.textBody)) ↔
      (∀ u ∈ o.sent.1, Whole u.text) ∧ (o.doc = none → o.bodySegs = [] → d.textBody = []) := by
  have hkey : (filledIn tolerant isFatal o order).map key = o.all.map key := by
    have hshape := congrArg (List.map fun x : Segment × Nat => key x.1) (@echoed_shape E tolerant isFatal o.all order)
    rw [List.map_map, List.map_map] at hshape
    rw [filledIn, List.map_map]
    exact hshape
  have hwhole : (∀ s ∈ filledIn tolerant isFatal o order, s.result = s.origin) ↔ ∀ u ∈ o.sent.1, Whole u.text :=
    results_eq_iff tolerant isFatal (cut_of_mem_all h hmarks) horder
  rw [close_eq_iff h hkey, hwhole]

/-- **A model that repeats what it is asked leaves the mail as it was just if every part that is
sent is whole**, and a text without markup has letters or is empty. -/
theorem reassemble_echo_iff (h : openDetail lib d = .ok o) (hmarks : Unmarked lib d) (hall : o.all ≠ [])
    {order : List (List Unit) → List (List Unit)} (horder : ∀ chunks, (order chunks).Perm chunks) :
    (∃ r, reassemble lib d tolerant isFatal
          (fun chunks => (order chunks).map fun chunk => (chunk, .answered (encodeChunk chunk))) = .ok r ∧
        r.subject = d.subject ∧ r.doc = o.doc ∧ (o.doc = none → r.textBody = d.textBody)) ↔
      (∀ u ∈ o.sent.1, Whole u.text) ∧ (o.doc = none → o.bodySegs = [] → d.textBody = []) := by
  have hperm := horder (chunkUnits o.sent.1 maxChunkRunes)
  rw [reassemble_echo tolerant isFatal h hmarks hall hperm rfl, ← close_echo_iff tolerant isFatal h hmarks hperm]
  constructor
  · rintro ⟨r, hr, hsame⟩
    obtain rfl := Except.ok.inj hr
    exact hsame
  · exact fun hsame => ⟨_, rfl, hsame⟩

end Repeated

end Mail

/-- Letters as in ASCII, and a body that is one text node. -/
def plainLib : Lib Bool where
  isLetter := Char.isAlpha
  parse t := .ok (.other [] [.text t])
  render _ := .ok []
  detect _ _ := []

def plainMail (subject body : Text) : MessageDetail := ⟨1, subject, body, []⟩

def plainSegment (lead core trail : String) : Segment where
  node := none
  lead := lead.toList
  trail := trail.toList
  parts := [core.toList]
  out := [[]]
  result := []

/-- A mail without markup. -/
theorem openDetail_plain (subject body : Text) : openDetail plainLib (plainMail subject body) =
    .ok ⟨none, newTextSegment Char.isAlpha subject, (newTextSegment Char.isAlpha body).toList⟩ := rfl

theorem unmarked_plain {subject body : Text} (hsubject : NoMarks subject) (hbody : NoMarks body) :
    Unmarked plainLib (plainMail subject body) := by
  refine ⟨hsubject, hbody, fun doc hdoc t ht => ?_⟩
  obtain rfl := Except.ok.inj hdoc
  rw [List.mem_singleton.mp ht]
  exact ⟨List.not_mem_nil, List.not_mem_nil⟩

theorem reassemble_echo_iff_plain :
    (∃ r, reassemble plainLib (plainMail "Hello".toList " a. b\n".toList) true (fun _ => false)
          (fun chunks => chunks.map fun chunk => (chunk, .answered (encodeChunk chunk))) = .ok r ∧
        r.subject = "Hello".toList ∧ r.doc = none ∧
        ((none : Option Node) = none → r.textBody = " a. b\n".toList)) :=
  (reassemble_echo_iff true (fun _ => false)
    (o := ⟨none, some (plainSegment "" "Hello" ""), [plainSegment " " "a. b" "\n"]⟩) (by rfl)
    (unmarked_plain (by decide) (by decide)) (List.cons_ne_nil _ _) fun chunks => .refl chunks).mpr ⟨by decide +kernel, fun _ hnil => absurd hnil (List.cons_ne_nil _ _)⟩

/-- A line break where the text was cut is lost. -/
theorem line_break_lost : ¬ ∀ (lib : Lib Bool) (d : MessageDetail) (o : Opened), openDetail lib d = .ok o →
    Unmarked lib d → o.all ≠ [] →
      ∃ r, reassemble lib d true (fun _ => false)
          (fun chunks => chunks.map fun chunk => (chunk, .answered (encodeChunk chunk))) = .ok r ∧
        r.subject = d.subject ∧ r.doc = o.doc ∧ (o.doc = none → r.textBody = d.textBody) := by
  intro h
  let body : Text := List.replicate 1199 'a' ++ ['\n', 'a']
  have hopen := openDetail_plain [] body
  have hmarks : Unmarked plainLib (plainMail [] body) := unmarked_plain (by decide) (by decide +kernel)
  obtain ⟨r, hr, hsame⟩ := h plainLib (plainMail [] body) _ hopen hmarks (by decide +kernel)
  rw [reassemble_echo true (fun _ => false) hopen hmarks (by decide +kernel) (.refl _) rfl] at hr
  obtain rfl := Except.ok.inj hr
  have hwhole := ((close_echo_iff true (fun _ => false) hopen hmarks (.refl _)).mp hsame).1
  exact absurd hwhole (by decide +kernel)

end FlyMail.Translate
