/-
The message-ids of a reply, from the request to the reader of the mail.

What is written as `In-Reply-To` is one id in angle brackets, and it is read back.  The ids of
`References` are written with brackets between them but without the outermost two, so a reader that
goes by the brackets finds fewer of them than there were, unless there is only one.
-/
import FlyMail.Parser.Headers
import FlyMail.Proofs.Builder

namespace FlyMail.Send

open FlyMail.Parser (byte contains cutAt)
open FlyMail.Parser.GoMessage (messageIDs bracketed)

/-! ### The ids of a text -/

/-- The valid ids among the pieces between blanks and commas, with brackets or without, at most `max`
of them. -/
def msgIDs (raw : Text) (max : Nat) : List Text :=
  (((raw.splitOnP isMsgIDSep).map stripBrackets).filter validMsgID).take max

/-- All of them. -/
private def allIDs (raw : Text) : List Text := ((raw.splitOnP isMsgIDSep).map stripBrackets).filter validMsgID

private theorem allIDs_nil : allIDs [] = [] := by
  unfold allIDs
  rw [List.splitOnP_nil]
  rfl

private theorem allIDs_cons_sep {c : Char} (h : isMsgIDSep c = true) (t : Text) : allIDs (c :: t) = allIDs t := by
  have hsplit := List.splitOnP_append_cons [] t h
  rw [List.nil_append, List.splitOnP_nil] at hsplit
  unfold allIDs
  rw [hsplit]
  rfl

private theorem allIDs_dropWhile (t : Text) : allIDs (t.dropWhile isMsgIDSep) = allIDs t := by
  induction t with
  | nil => rfl
  | cons c t ih =>
      by_cases hc : isMsgIDSep c = true
      · rw [List.dropWhile_cons_of_pos hc, ih, allIDs_cons_sep hc]
      · rw [List.dropWhile_cons_of_neg hc]

/-- A piece in front of what is left. -/
private theorem allIDs_eq (t : Text) :
    allIDs t = [stripBrackets (t.takeWhile fun c => !isMsgIDSep c)].filter validMsgID ++
      allIDs (t.dropWhile fun c => !isMsgIDSep c) := by
  have hpiece : ∀ c ∈ t.takeWhile (fun c => !isMsgIDSep c), isMsgIDSep c = false := by
    intro c hc
    simpa using List.all_eq_true.mp List.all_takeWhile c hc
  have hsplit := List.takeWhile_append_dropWhile (p := fun c => !isMsgIDSep c) (l := t)
  cases hrest : t.dropWhile fun c => !isMsgIDSep c with
  | nil =>
      rw [hrest, List.append_nil] at hsplit
      rw [hsplit] at hpiece ⊢
      rw [allIDs_nil, List.append_nil]
      unfold allIDs
      rw [List.splitOnP_eq_singleton hpiece]
      rfl
  | cons c r =>
      have hc : isMsgIDSep c = true := by
        have hhead := List.head?_dropWhile_not (fun c => !isMsgIDSep c) t
        rw [hrest] at hhead
        simpa using hhead
      rw [allIDs_cons_sep hc]
      conv_lhs => rw [← hsplit, hrest]
      unfold allIDs
      rw [List.splitOnP_append_cons _ _ hc, List.splitOnP_eq_singleton hpiece, List.map_append, List.filter_append]
      rfl

/-- Every piece takes something off the text. -/
private theorem length_rest {raw : Text} {n : Nat} (hne : raw ≠ []) (h : raw.length ≤ n + 1) :
    ((raw.dropWhile isMsgIDSep).dropWhile fun c => !isMsgIDSep c).length ≤ n := by
  cases raw with
  | nil => exact absurd rfl hne
  | cons c t =>
      have ht : t.length ≤ n := Nat.le_of_succ_le_succ h
      by_cases hc : isMsgIDSep c = true
      · rw [List.dropWhile_cons_of_pos hc]
        exact Nat.le_trans ((List.dropWhile_sublist _).length_le.trans (List.dropWhile_sublist _).length_le) ht
      · rw [List.dropWhile_cons_of_neg hc, List.dropWhile_cons_of_pos (by simpa using hc)]
        exact Nat.le_trans (List.dropWhile_sublist _).length_le ht

/-- **The loop finds the ids.** -/
theorem scanMsgIDs_eq (max fuel : Nat) : ∀ (ids : List Text) (raw : Text), raw.length ≤ fuel → ids.length ≤ max →
    scanMsgIDs max fuel ids raw = ids ++ (allIDs raw).take (max - ids.length) := by
  induction fuel with
  | zero =>
      intro ids raw hfuel _
      rw [List.length_eq_zero_iff.mp (Nat.le_zero.mp hfuel), allIDs_nil, List.take_nil, List.append_nil]
      rfl
  | succ fuel ih =>
      intro ids raw hfuel hmax
      rw [scanMsgIDs]
      split
      · rename_i h
        rcases h with rfl | h
        · rw [allIDs_nil, List.take_nil, List.append_nil]
        · rw [Nat.sub_eq_zero_of_le h, List.take_zero, List.append_nil]
      · rename_i h
        rw [not_or, Nat.not_le] at h
        obtain ⟨hne, hlt⟩ := h
        simp only
        have hrest := length_rest hne hfuel
        rw [← allIDs_dropWhile raw, allIDs_eq]
        split
        · rename_i hvalid
          have hroom : max - ids.length = max - (ids.length + 1) + 1 := by omega
          rw [ih _ _ hrest (by rw [List.length_append]; exact hlt), List.filter_cons_of_pos hvalid, List.filter_nil,
            List.append_assoc, List.length_append, List.length_singleton, hroom]
          rfl
        · rename_i hvalid
          rw [ih _ _ hrest hmax, List.filter_cons_of_neg hvalid, List.filter_nil]
          rfl

theorem cleanMsgIDList_eq {raw : Text} (h : raw.any Fields.isBreak = false) (max : Nat) :
    cleanMsgIDList raw max
      = if msgIDs raw max = [] then none else some (Text.join (msgIDs raw max) "> <".toList) := by
  have hscan : scanMsgIDs max raw.length [] raw = msgIDs raw max := by
    rw [scanMsgIDs_eq max raw.length [] raw (Nat.le_refl _) (Nat.zero_le _), List.length_nil, Nat.sub_zero]
    rfl
  unfold cleanMsgIDList
  rw [h, if_neg Bool.false_ne_true]
  simp only [hscan]

/-! ### Bytes of an id -/

/-- What an id is made of: printable characters that mean nothing between ids. -/
def Plain (c : Char) : Prop := (33 ≤ c.toNat ∧ c.toNat < 127) ∧ c ≠ '<' ∧ c ≠ '>' ∧ c ≠ ','

instance (c : Char) : Decidable (Plain c) := by
  unfold Plain
  infer_instance

theorem plain_of_isIDChar {c : Char} (h : isIDChar c = true) : Plain c := by
  have hne {d : Char} (hd : isIDChar d = false) : c ≠ d := fun heq => by
    rw [← heq, h] at hd
    exact Bool.noConfusion hd
  refine ⟨?_, hne (by decide), hne (by decide), hne (by decide)⟩
  unfold isIDChar at h
  simp only [Bool.or_eq_true, Bool.and_eq_true, decide_eq_true_eq, Char.le_def, UInt32.le_iff_toNat_le] at h
  change ((97 ≤ c.toNat ∧ c.toNat ≤ 122) ∨ (65 ≤ c.toNat ∧ c.toNat ≤ 90)) ∨ (48 ≤ c.toNat ∧ c.toNat ≤ 57) at h
  omega

structure IsID (id : Text) : Prop where
  ne_nil : id ≠ []
  at_mem : '@' ∈ id
  plain : ∀ c ∈ id, Plain c

theorem isID_of_validMsgID {id : Text} (h : validMsgID id = true) : IsID id := by
  have hothers : ∀ c ∈ "!#$%&*+-/=?^_`\x7b|\x7d~.@".toList, Plain c := by decide
  unfold validMsgID at h
  simp only [Bool.and_eq_true, List.all_eq_true, bne_iff_ne, beq_iff_eq, decide_eq_true_eq] at h
  obtain ⟨⟨⟨⟨⟨hne, -⟩, hat⟩, -⟩, -⟩, hall⟩ := h
  refine ⟨hne, List.count_pos_iff.mp (by omega), fun c hc => ?_⟩
  rcases Bool.or_eq_true_iff.mp (hall c hc) with hid | hother
  · exact plain_of_isIDChar hid
  · exact hothers c (List.contains_iff_mem.mp hother)

theorem isID_of_mem_msgIDs {raw id : Text} {max : Nat} (h : id ∈ msgIDs raw max) : IsID id :=
  isID_of_validMsgID (List.mem_filter.mp (List.mem_of_mem_take h)).2

theorem utf8_append (s t : Text) : utf8 (s ++ t) = utf8 s ++ utf8 t := List.flatMap_append

theorem utf8_of_ascii {t : Text} (h : ∀ c ∈ t, c.toNat < 128) : utf8 t = t.map byte := by
  unfold utf8
  induction t with
  | nil => rfl
  | cons c t ih =>
      have hone : String.utf8EncodeChar c = [byte c] := if_pos (Nat.le_of_lt_succ (h c List.mem_cons_self))
      rw [List.flatMap_cons, hone, ih fun d hd => h d (List.mem_cons_of_mem _ hd)]
      rfl

theorem toNat_byte {c : Char} (h : c.toNat < 128) : (byte c).toNat = c.toNat := by
  unfold byte
  rw [UInt8.toNat_ofNat_of_lt' (Nat.lt_trans h (by decide))]

theorem IsID.utf8_eq {id : Text} (h : IsID id) : utf8 id = id.map byte :=
  utf8_of_ascii fun c hc => Nat.lt_trans (h.plain c hc).1.2 (by decide)

/-- What is not in an id is not in its bytes. -/
theorem IsID.notMem {id : Text} (h : IsID id) {d : Char} (hd : d.toNat < 128) (hplain : ¬ Plain d) :
    byte d ∉ utf8 id := by
  intro hmem
  rw [h.utf8_eq] at hmem
  obtain ⟨c, hc, heq⟩ := List.mem_map.mp hmem
  have hc128 : c.toNat < 128 := Nat.lt_trans (h.plain c hc).1.2 (by decide)
  have hnat : c.toNat = d.toNat := by rw [← toNat_byte hc128, ← toNat_byte hd, heq]
  have hcd : c = d := Char.ext (UInt32.toNat_inj.mp hnat)
  exact hplain (hcd ▸ h.plain c hc)

/-- Bytes that are not blanks, nor parts of one. -/
def Printable (b : UInt8) : Prop := 33 ≤ b.toNat ∧ b.toNat < 127

theorem IsID.printable {id : Text} (h : IsID id) : ∀ b ∈ utf8 id, Printable b := by
  intro b hb
  rw [h.utf8_eq] at hb
  obtain ⟨c, hc, rfl⟩ := List.mem_map.mp hb
  have hplain := (h.plain c hc).1
  unfold Printable
  rw [toNat_byte (Nat.lt_trans hplain.2 (by decide))]
  exact hplain

theorem IsID.utf8_ne_nil {id : Text} (h : IsID id) : utf8 id ≠ [] := by
  rw [h.utf8_eq]
  exact fun heq => h.ne_nil (List.map_eq_nil_iff.mp heq)

theorem trimLeft_eq_self {seps : List Bytes} (hseps : ∀ sep ∈ seps, ∃ d ds, sep = d :: ds ∧ ¬ Printable d)
    {s : Bytes} (h : ∀ b ∈ s.head?, Printable b) (fuel : Nat) : Parser.trimLeft seps fuel s = s := by
  cases fuel with
  | zero => rfl
  | succ fuel =>
      have hnone : (seps.find? fun sep => sep.isPrefixOf s) = none := by
        rw [List.find?_eq_none]
        intro sep hsep hbegins
        obtain ⟨d, ds, rfl, hd⟩ := hseps sep hsep
        cases s with
        | nil => exact Bool.noConfusion hbegins
        | cons b s =>
            rw [List.isPrefixOf_cons_cons, Bool.and_eq_true, beq_iff_eq] at hbegins
            exact hd (hbegins.1 ▸ h b rfl)
      rw [Parser.trimLeft, hnone]

theorem trimSpace_eq_self {s : Bytes} (hhead : ∀ b ∈ s.head?, Printable b) (hlast : ∀ b ∈ s.getLast?, Printable b) :
    Parser.trimSpace s = s := by
  have hspaces : ∀ sep ∈ Parser.spaces, ∃ d ds, sep = d :: ds ∧ ¬ Printable d := by
    have hall : ∀ sep ∈ Parser.spaces, sep ≠ [] ∧ ∀ d ∈ sep, ¬ (33 ≤ d.toNat ∧ d.toNat < 127) := by decide
    intro sep hsep
    obtain ⟨hne, hnot⟩ := hall sep hsep
    obtain ⟨d, ds, rfl⟩ := List.exists_cons_of_ne_nil hne
    exact ⟨d, ds, rfl, hnot d List.mem_cons_self⟩
  have hreversed : ∀ sep ∈ Parser.spaces.map List.reverse, ∃ d ds, sep = d :: ds ∧ ¬ Printable d := by
    have hall : ∀ sep ∈ Parser.spaces.map List.reverse,
        sep ≠ [] ∧ ∀ d ∈ sep, ¬ (33 ≤ d.toNat ∧ d.toNat < 127) := by decide
    intro sep hsep
    obtain ⟨hne, hnot⟩ := hall sep hsep
    obtain ⟨d, ds, rfl⟩ := List.exists_cons_of_ne_nil hne
    exact ⟨d, ds, rfl, hnot d List.mem_cons_self⟩
  unfold Parser.trimSpace
  simp only
  rw [trimLeft_eq_self hspaces hhead, trimLeft_eq_self hreversed (by rw [List.head?_reverse]; exact hlast),
    List.reverse_reverse]

/-! ### Reading the ids -/

theorem cutAt_append {s t : Bytes} {d : Char} (h : byte d ∉ s) : cutAt (s ++ byte d :: t) d = some (s, t) := by
  have hall : ∀ b ∈ s, (b != byte d) = true := fun b hb => by
    rw [bne_iff_ne]
    exact fun heq => h (heq ▸ hb)
  unfold cutAt
  rw [List.dropWhile_append_of_pos hall, List.takeWhile_append_of_pos hall]
  simp

theorem cutAt_nil (d : Char) : cutAt [] d = none := rfl

/-- **One id without brackets is read.** -/
theorem messageIDs_one {id : Text} (h : IsID id) : messageIDs (utf8 id) = [utf8 id] := by
  have htrim : Parser.trimSpace (utf8 id) = utf8 id :=
    trimSpace_eq_self (fun b hb => h.printable b (List.mem_of_mem_head? hb))
      fun b hb => h.printable b (List.mem_of_mem_getLast? hb)
  have hopen : contains (utf8 id) '<' = false := by
    unfold contains
    rw [Bool.eq_false_iff]
    exact fun hmem => h.notMem (by decide) (by decide) (List.contains_iff_mem.mp hmem)
  have hat : contains (utf8 id) '@' = true := by
    unfold contains
    rw [List.contains_iff_mem, h.utf8_eq]
    exact List.mem_map_of_mem h.at_mem
  have hsep : ∀ b ∈ utf8 id, Parser.GoMessage.isIDSep b = false := by
    intro b hb
    have hprintable := h.printable b hb
    rw [Bool.eq_false_iff]
    intro hsep
    unfold Parser.GoMessage.isIDSep at hsep
    simp only [Bool.or_eq_true, beq_iff_eq] at hsep
    rcases hsep with (((rfl | rfl) | rfl) | rfl) | rfl
    · exact absurd hprintable (by unfold Printable; decide)
    · exact absurd hprintable (by unfold Printable; decide)
    · exact absurd hprintable (by unfold Printable; decide)
    · exact absurd hprintable (by unfold Printable; decide)
    · exact h.notMem (by decide) (by decide) hb
  unfold messageIDs
  simp only [htrim, hopen, if_neg h.utf8_ne_nil, Bool.false_eq_true, if_false]
  rw [List.splitOnP_eq_singleton hsep, List.filter_cons_of_pos (p := fun f => contains f '@') hat,
    List.filter_nil]

/-- **One id in brackets is read.** -/
theorem messageIDs_bracketed {id : Text} (h : IsID id) : messageIDs (utf8 ('<' :: id ++ ['>'])) = [utf8 id] := by
  have hvalue : utf8 ('<' :: id ++ ['>']) = byte '<' :: (utf8 id ++ [byte '>']) := by
    rw [List.cons_append, ← List.singleton_append, utf8_append, utf8_append]
    rfl
  have htrim : Parser.trimSpace (byte '<' :: (utf8 id ++ [byte '>'])) = byte '<' :: (utf8 id ++ [byte '>']) := by
    refine trimSpace_eq_self ?_ ?_
    · rintro b hb
      obtain rfl := Option.some.inj hb
      unfold Printable
      decide
    · intro b hb
      rw [← List.cons_append, List.getLast?_concat] at hb
      obtain rfl := Option.some.inj hb
      unfold Printable
      decide
  have htrimID : Parser.trimSpace (utf8 id) = utf8 id :=
    trimSpace_eq_self (fun b hb => h.printable b (List.mem_of_mem_head? hb))
      fun b hb => h.printable b (List.mem_of_mem_getLast? hb)
  have hclose : byte '>' ∉ utf8 id := h.notMem (by decide) (by decide)
  have hfuel : ∃ n, (byte '<' :: (utf8 id ++ [byte '>'])).length = n + 2 := ⟨(utf8 id).length, by simp⟩
  obtain ⟨n, hn⟩ := hfuel
  have hfirst : cutAt (byte '<' :: (utf8 id ++ [byte '>'])) '<' = some ([], utf8 id ++ [byte '>']) :=
    cutAt_append List.not_mem_nil
  unfold messageIDs
  simp only [hvalue, htrim, if_neg (List.cons_ne_nil _ _)]
  rw [if_pos (by rfl), hn, bracketed, hfirst]
  simp only
  rw [cutAt_append hclose]
  simp only
  rw [htrimID, if_neg h.utf8_ne_nil, bracketed, cutAt_nil]

theorem count_of_cutAt {raw id rest : Bytes} {d : Char} (h : cutAt raw d = some (id, rest)) (b : UInt8) :
    (if byte d = b then 1 else 0) + rest.count b ≤ raw.count b := by
  unfold cutAt at h
  split at h
  · exact absurd h.symm (Option.some_ne_none _)
  · rename_i c rest' hdrop
    obtain ⟨-, rfl⟩ := Prod.mk.inj (Option.some.inj h)
    have hc : c = byte d := by
      have hhead := List.head?_dropWhile_not (fun c => c != byte d) raw
      rw [hdrop] at hhead
      simpa using hhead
    have hraw := List.takeWhile_append_dropWhile (p := fun c => c != byte d) (l := raw)
    rw [hdrop, hc] at hraw
    rw [← hraw, List.count_append, List.count_cons]
    simp only [beq_iff_eq]
    omega

/-- There are no more ids in brackets than brackets. -/
theorem length_bracketed (fuel : Nat) : ∀ raw, (bracketed fuel raw).length ≤ raw.count (byte '<') := by
  induction fuel with
  | zero => exact fun raw => Nat.zero_le _
  | succ fuel ih =>
      intro raw
      rw [bracketed]
      split
      · exact Nat.zero_le _
      · rename_i rest hopen
        have hcount := count_of_cutAt hopen (byte '<')
        rw [if_pos rfl] at hcount
        split
        · exact Nat.zero_le _
        · rename_i id rest' hclose
          have hcount' := count_of_cutAt hclose (byte '<')
          have hrest := ih rest'
          split
          · omega
          · rw [List.length_cons]
            omega

/-- What is written between the first id and the last has a bracket less than there are ids. -/
theorem count_join (ids : List Text) (h : ∀ id ∈ ids, IsID id) :
    (utf8 (Text.join ids "> <".toList)).count (byte '<') = ids.length - 1 := by
  have hnone {id : Text} (hid : IsID id) : (utf8 id).count (byte '<') = 0 :=
    List.count_eq_zero.mpr (hid.notMem (by decide) (by decide))
  have hsep : (utf8 "> <".toList).count (byte '<') = 1 := by decide
  unfold Text.join
  induction ids with
  | nil => rfl
  | cons id ids ih =>
      cases ids with
      | nil =>
          rw [List.intercalate_singleton, hnone (h id List.mem_cons_self)]
          rfl
      | cons id' ids =>
          rw [List.intercalate_cons_cons, utf8_append, utf8_append, List.count_append, List.count_append,
            hnone (h id List.mem_cons_self), hsep, ih fun x hx => h x (List.mem_cons_of_mem _ hx)]
          simp only [List.length_cons]
          omega

theorem head?_join {ids : List Text} (h : ∀ id ∈ ids, IsID id) :
    ∀ b ∈ (utf8 (Text.join ids "> <".toList)).head?, Printable b := by
  unfold Text.join
  intro b hb
  cases ids with
  | nil => exact absurd hb (by simp [utf8])
  | cons id ids =>
      have hid := h id List.mem_cons_self
      obtain ⟨a, t, hat⟩ := List.exists_cons_of_ne_nil hid.utf8_ne_nil
      have hhead : (utf8 (List.intercalate "> <".toList (id :: ids))).head? = some a := by
        cases ids with
        | nil => rw [List.intercalate_singleton, hat, List.head?_cons]
        | cons id' ids =>
            rw [List.intercalate_cons_cons, utf8_append, utf8_append, hat, List.cons_append, List.cons_append,
              List.head?_cons]
      rw [hhead] at hb
      obtain rfl := Option.some.inj hb
      exact hid.printable _ (hat ▸ List.mem_cons_self)

theorem getLast?_join (ids : List Text) (h : ∀ id ∈ ids, IsID id) :
    ∀ b ∈ (utf8 (Text.join ids "> <".toList)).getLast?, Printable b := by
  unfold Text.join
  induction ids with
  | nil => exact fun b hb => absurd hb (by simp [utf8])
  | cons id ids ih =>
      intro b hb
      cases ids with
      | nil =>
          rw [List.intercalate_singleton] at hb
          exact (h id List.mem_cons_self).printable b (List.mem_of_mem_getLast? hb)
      | cons id' ids =>
          have hne : utf8 (List.intercalate "> <".toList (id' :: ids)) ≠ [] := by
            intro hnil
            have hcons : utf8 id' ++ [] = [] := by
              cases ids with
              | nil => rw [List.append_nil, ← hnil, List.intercalate_singleton]
              | cons id'' ids =>
                  rw [List.intercalate_cons_cons, utf8_append, utf8_append] at hnil
                  rw [List.append_nil]
                  exact (List.append_eq_nil_iff.mp (List.append_eq_nil_iff.mp hnil).1).1
            rw [List.append_nil] at hcons
            exact (h id' (List.mem_cons_of_mem _ List.mem_cons_self)).utf8_ne_nil hcons
          rw [List.intercalate_cons_cons, utf8_append, List.getLast?_append_of_ne_nil _ hne] at hb
          exact ih (fun x hx => h x (List.mem_cons_of_mem _ hx)) b hb

/-- **Of several ids joined in this way not all are read.** -/
theorem length_messageIDs_join {ids : List Text} (h : ∀ id ∈ ids, IsID id) (hmany : 1 < ids.length) :
    (messageIDs (utf8 (Text.join ids "> <".toList))).length < ids.length := by
  have hcount := count_join ids h
  have htrim := trimSpace_eq_self (head?_join h) (getLast?_join ids h)
  have hopen : contains (utf8 (Text.join ids "> <".toList)) '<' = true := by
    unfold contains
    rw [List.contains_iff_mem]
    exact List.count_pos_iff.mp (by omega)
  have hlen := length_bracketed (utf8 (Text.join ids "> <".toList)).length (utf8 (Text.join ids "> <".toList))
  unfold messageIDs
  simp only [htrim, hopen, if_true]
  split
  · exact Nat.lt_trans Nat.zero_lt_one hmany
  · omega

/-! ### The lines of the header -/

/-- What stands behind the name. -/
def valueOf (name : String) (f : Text) : Option Text :=
  if (name.toList ++ ": ".toList).isPrefixOf f then some (f.drop (name.toList ++ ": ".toList).length) else none

/-- The values of all fields with the name. -/
def valuesOf (name : String) (fields : List Text) : List Text := fields.filterMap (valueOf name)

/-- There is a field with the name just if there are ids, there is one then, and the parser reads the
ids from it. -/
def Survives (name : String) (ids : List Text) (fields : List Text) : Prop :=
  (valuesOf name fields).map (fun v => messageIDs (utf8 v)) = if ids = [] then [] else [ids.map utf8]

theorem valueOf_field (name : String) (v : Text) : valueOf name (field name v) = some v := by
  unfold valueOf field
  rw [if_pos (List.isPrefixOf_iff_prefix.mpr (List.prefix_append _ _)), List.drop_left]

theorem valueOf_of_head_ne {name : String} {f : Text} {c d : Char} (hname : name.toList.head? = some c)
    (hf : f.head? = some d) (hne : c ≠ d) : valueOf name f = none := by
  unfold valueOf
  refine if_neg fun hbegins => hne ?_
  obtain ⟨t, rfl⟩ := List.isPrefixOf_iff_prefix.mp hbegins
  rw [List.append_assoc, List.head?_append, hname] at hf
  exact Option.some.inj hf

variable {m : WordEncoders} {sender : Identity} {req : SendRequest} {messageID : Text} {date : LocalTime}
  {rand₁ rand₂ : Option Bytes}

/-- Fields with another first letter do not count. -/
theorem valuesOf_of_head_ne {name : String} {c : Char} (hname : name.toList.head? = some c) {fields : List Text}
    (h : ∀ f ∈ fields, ∃ d, f.head? = some d ∧ c ≠ d) : valuesOf name fields = [] := by
  unfold valuesOf
  rw [List.filterMap_eq_nil_iff]
  intro f hf
  obtain ⟨d, hd, hne⟩ := h f hf
  exact valueOf_of_head_ne hname hd hne

theorem valuesOf_append (name : String) (fs gs : List Text) :
    valuesOf name (fs ++ gs) = valuesOf name fs ++ valuesOf name gs := List.filterMap_append

/-- Behind the fields of the header the builder writes fields about the content only. -/
theorem contentFields_of_built {common : List Text} {html out : Text} {inline regular : List Attachment}
    {secs : List (List Text)} (h : Built m common html inline regular rand₁ rand₂ out secs) :
    (∃ rest, out = Fields.write common ++ rest) ∧
      ∃ others, secs.flatten = common ++ others ∧ ∀ f ∈ others, f.head? = some 'C' := by
  have hbegins (fs gs : List Text) (t : Text) : ∃ rest, Fields.write (fs ++ gs) ++ t = Fields.write fs ++ rest := by
    refine ⟨Fields.write gs ++ t, ?_⟩
    unfold Fields.write
    rw [List.flatMap_append, List.append_assoc]
  have hhtml : ∀ f ∈ htmlFields, f.head? = some 'C' := by decide
  have hinline : ∀ f ∈ (inline.map (inlineFields m)).flatten, f.head? = some 'C' := by
    intro f hf
    obtain ⟨fs, hfs, hf⟩ := List.mem_flatten.mp hf
    obtain ⟨att, -, rfl⟩ := List.mem_map.mp hfs
    unfold inlineFields at hf
    simp only [List.mem_cons, List.not_mem_nil, or_false] at hf
    rcases hf with rfl | rfl | rfl | rfl
    · rfl
    · rfl
    · rfl
    · rfl
  have hregular : ∀ f ∈ (regular.map (attachmentFields m)).flatten, f.head? = some 'C' := by
    intro f hf
    obtain ⟨fs, hfs, hf⟩ := List.mem_flatten.mp hf
    obtain ⟨att, -, rfl⟩ := List.mem_map.mp hfs
    unfold attachmentFields at hf
    simp only [List.mem_cons, List.not_mem_nil, or_false] at hf
    rcases hf with rfl | rfl | rfl
    · rfl
    · rfl
    · rfl
  have hrelated (rand : Option Bytes) : ∀ f ∈ [relatedField (boundaryOf rand)], f.head? = some 'C' :=
    List.forall_mem_singleton.mpr rfl
  have hmixed (rand : Option Bytes) : ∀ f ∈ [mixedField (boundaryOf rand)], f.head? = some 'C' :=
    List.forall_mem_singleton.mpr rfl
  cases h with
  | html =>
      refine ⟨?_, htmlFields, by simp, hhtml⟩
      unfold writePart
      rw [List.append_assoc]
      exact hbegins _ _ _
  | related =>
      refine ⟨?_, [relatedField (boundaryOf rand₁)] ++ (htmlFields ++ (inline.map (inlineFields m)).flatten),
        by simp, List.forall_mem_append.mpr ⟨hrelated rand₁, List.forall_mem_append.mpr ⟨hhtml, hinline⟩⟩⟩
      unfold writeRelated
      rw [List.append_assoc]
      exact hbegins _ _ _
  | mixed =>
      refine ⟨?_, [mixedField (boundaryOf rand₁)] ++ (htmlFields ++ (regular.map (attachmentFields m)).flatten),
        by simp, List.forall_mem_append.mpr ⟨hmixed rand₁, List.forall_mem_append.mpr ⟨hhtml, hregular⟩⟩⟩
      rw [List.append_assoc]
      exact hbegins _ _ _
  | nested =>
      refine ⟨?_, [mixedField (boundaryOf rand₁)] ++ ([relatedField (boundaryOf rand₂)] ++
          (htmlFields ++ ((inline.map (inlineFields m)).flatten ++ (regular.map (attachmentFields m)).flatten))),
        by simp, List.forall_mem_append.mpr ⟨hmixed rand₁, List.forall_mem_append.mpr ⟨hrelated rand₂,
          List.forall_mem_append.mpr ⟨hhtml, List.forall_mem_append.mpr ⟨hinline, hregular⟩⟩⟩⟩⟩
      rw [List.append_assoc]
      exact hbegins _ _ _

theorem valuesOf_commonFields (name : String) {c : Char} (hname : name.toList.head? = some c)
    (h : c ∉ ['F', 'T', 'C', 'S', 'D', 'M']) :
    valuesOf name (commonFields m sender req messageID date)
      = valuesOf name (((cleanMsgIDList req.inReplyTo 1).map fun v => field "In-Reply-To" ('<' :: v ++ ['>'])).toList) ++
        valuesOf name (((cleanMsgIDList req.references 255).map fun v => field "References" v).toList) := by
  have hnone {fields : List Text} (hall : ∀ f ∈ fields, ∃ d ∈ ['F', 'T', 'C', 'S', 'D', 'M'], f.head? = some d) :
      valuesOf name fields = [] := by
    refine valuesOf_of_head_ne hname fun f hf => ?_
    obtain ⟨d, hd, hhead⟩ := hall f hf
    exact ⟨d, hhead, fun heq => h (heq ▸ hd)⟩
  have hnil : cleanMsgIDList [] 1 = none ∧ cleanMsgIDList [] 255 = none := ⟨rfl, rfl⟩
  have hreply : (if req.inReplyTo = [] then []
        else ((cleanMsgIDList req.inReplyTo 1).map fun v => field "In-Reply-To" ('<' :: v ++ ['>'])).toList)
      = ((cleanMsgIDList req.inReplyTo 1).map fun v => field "In-Reply-To" ('<' :: v ++ ['>'])).toList := by
    split
    · rename_i hempty
      rw [hempty, hnil.1]
      rfl
    · rfl
  have hrefs : (if req.references = [] then []
        else ((cleanMsgIDList req.references 255).map fun v => field "References" v).toList)
      = ((cleanMsgIDList req.references 255).map fun v => field "References" v).toList := by
    split
    · rename_i hempty
      rw [hempty, hnil.2]
      rfl
    · rfl
  have hcc : valuesOf name (if req.ccList = [] then [] else [field "Cc" (encodeAddressList m req.ccList)]) = [] := by
    refine hnone fun f hf => ?_
    split at hf
    · exact absurd hf List.not_mem_nil
    · rw [List.mem_singleton.mp hf]
      exact ⟨'C', by decide, rfl⟩
  have hfirst : valuesOf name [field "From" (addressString m sender.name sender.address),
      field "To" (encodeAddressList m req.toList)] = [] :=
    hnone (List.forall_mem_cons.mpr ⟨⟨'F', by decide, rfl⟩, List.forall_mem_singleton.mpr ⟨'T', by decide, rfl⟩⟩)
  have hmiddle : valuesOf name [field "Subject" (m.bEncode req.subject), field "Date" (formatDate date),
      field "Message-ID" ('<' :: messageID ++ ['>'])] = [] :=
    hnone (List.forall_mem_cons.mpr ⟨⟨'S', by decide, rfl⟩, List.forall_mem_cons.mpr ⟨⟨'D', by decide, rfl⟩,
      List.forall_mem_singleton.mpr ⟨'M', by decide, rfl⟩⟩⟩)
  have hlast : valuesOf name [field "MIME-Version" "1.0".toList] = [] :=
    hnone (List.forall_mem_singleton.mpr ⟨'M', by decide, rfl⟩)
  unfold commonFields
  rw [hreply, hrefs]
  simp only [valuesOf_append]
  rw [hfirst, hcc, hmiddle, hlast, List.append_nil]
  rfl

theorem valuesOf_option (name : String) (v : Option Text) (g : Text → Text) :
    valuesOf name ((v.map fun v => field name (g v)).toList) = (v.map g).toList := by
  cases v with
  | none => rfl
  | some v =>
      unfold valuesOf
      rw [Option.map_some, Option.toList_some, List.filterMap_cons, valueOf_field]
      rfl

theorem valuesOf_option_of_ne {name other : String} {c d : Char} (hname : name.toList.head? = some c)
    (hother : other.toList.head? = some d) (hne : c ≠ d) (v : Option Text) (g : Text → Text) :
    valuesOf name ((v.map fun v => field other (g v)).toList) = [] := by
  refine valuesOf_of_head_ne hname fun f hf => ?_
  obtain ⟨v, -, rfl⟩ := Option.map_eq_some_iff.mp (Option.mem_toList.mp hf)
  refine ⟨d, ?_, hne⟩
  unfold field
  rw [List.append_assoc, List.head?_append, hother]
  rfl

theorem length_msgIDs_le (raw : Text) (max : Nat) : (msgIDs raw max).length ≤ max := List.length_take_le _ _

/-- **Ids of a reply**: the one of `In-Reply-To` is read back from what is written, and those of
`References` just if there is at most one. -/
theorem references_survive_iff {out : Text} (h : buildRFC5322 m sender req messageID date rand₁ rand₂ = .ok out)
    (hreply : req.inReplyTo.any Fields.isBreak = false) (hrefs : req.references.any Fields.isBreak = false) :
    (∃ rest, out = Fields.write (commonFields m sender req messageID date) ++ rest) ∧
      (Survives "In-Reply-To" (msgIDs req.inReplyTo 1)
            (sections m sender req messageID date (boundaryOf rand₁) (boundaryOf rand₂)).flatten ∧
          Survives "References" (msgIDs req.references 255)
            (sections m sender req messageID date (boundaryOf rand₁) (boundaryOf rand₂)).flatten ↔
        (msgIDs req.references 255).length ≤ 1) := by
  obtain ⟨hbegins, others, hflatten, hothers⟩ := contentFields_of_built (built_of_ok h)
  have hnone {name : String} {c : Char} (hname : name.toList.head? = some c) (hc : c ≠ 'C') :
      valuesOf name others = [] := valuesOf_of_head_ne hname fun f hf => ⟨'C', hothers f hf, hc⟩
  have hreplyValues : valuesOf "In-Reply-To"
      (sections m sender req messageID date (boundaryOf rand₁) (boundaryOf rand₂)).flatten
        = ((cleanMsgIDList req.inReplyTo 1).map fun v => '<' :: v ++ ['>']).toList := by
    rw [hflatten, valuesOf_append, hnone (c := 'I') (by decide) (by decide), List.append_nil,
      valuesOf_commonFields _ (c := 'I') (by decide) (by decide), valuesOf_option,
      valuesOf_option_of_ne (c := 'I') (d := 'R') (by decide) (by decide) (by decide), List.append_nil]
  have hrefsValues : valuesOf "References"
      (sections m sender req messageID date (boundaryOf rand₁) (boundaryOf rand₂)).flatten
        = (cleanMsgIDList req.references 255).toList := by
    rw [hflatten, valuesOf_append, hnone (c := 'R') (by decide) (by decide), List.append_nil,
      valuesOf_commonFields _ (c := 'R') (by decide) (by decide), valuesOf_option _ _ fun v => v,
      valuesOf_option_of_ne (c := 'R') (d := 'I') (by decide) (by decide) (by decide), List.nil_append, Option.map_id']
  have hid : ∀ id ∈ msgIDs req.references 255, IsID id := fun id hmem => isID_of_mem_msgIDs hmem
  have hsurvivesReply : Survives "In-Reply-To" (msgIDs req.inReplyTo 1)
      (sections m sender req messageID date (boundaryOf rand₁) (boundaryOf rand₂)).flatten := by
    unfold Survives
    rw [hreplyValues, cleanMsgIDList_eq hreply]
    cases hids : msgIDs req.inReplyTo 1 with
    | nil => rfl
    | cons id ids =>
        have hlen := length_msgIDs_le req.inReplyTo 1
        rw [hids, List.length_cons] at hlen
        obtain rfl := List.length_eq_zero_iff.mp (by omega : ids.length = 0)
        have hread := messageIDs_bracketed (isID_of_mem_msgIDs (hids ▸ List.mem_cons_self))
        rw [if_neg (List.cons_ne_nil _ _), if_neg (List.cons_ne_nil _ _)]
        unfold Text.join
        rw [List.intercalate_singleton, Option.map_some, Option.toList_some, List.map_singleton, hread]
        rfl
  refine ⟨hbegins, (and_iff_right hsurvivesReply).trans ?_⟩
  unfold Survives
  rw [hrefsValues, cleanMsgIDList_eq hrefs]
  cases hids : msgIDs req.references 255 with
  | nil => simp
  | cons id ids =>
      rw [hids] at hid
      rw [if_neg (List.cons_ne_nil _ _), if_neg (List.cons_ne_nil _ _), Option.toList_some, List.map_singleton]
      refine ⟨fun heq => ?_, fun hone => ?_⟩
      · by_contra hmany
        have hlen := length_messageIDs_join hid (by omega)
        rw [(List.cons.inj heq).1, List.length_map] at hlen
        exact absurd hlen (Nat.lt_irrefl _)
      · rw [List.length_cons] at hone
        obtain rfl := List.length_eq_zero_iff.mp (by omega : ids.length = 0)
        unfold Text.join
        rw [List.intercalate_singleton, messageIDs_one (hid id List.mem_cons_self)]
        rfl

/-- What need not be encoded. -/
private def asciiWord (s : Text) : Text := if isASCII s then s else []

private theorem folded_asciiWord (s : Text) : Fields.folded (asciiWord s) = true := by
  unfold asciiWord
  split
  · rename_i h
    exact (noBreaks_isASCII h).folded
  · rfl

private def asciiWords : WordEncoders := ⟨asciiWord, asciiWord, folded_asciiWord, folded_asciiWord⟩

/-- An answer in a conversation. -/
private def answerTo (references : String) : SendRequest :=
  ⟨["d@e.f".toList], [], "Re: s".toList, "x".toList, "<b@y>".toList, references.toList, []⟩

theorem references_survive_one : ∃ out,
    buildRFC5322 asciiWords ⟨"a@b.c".toList, []⟩ (answerTo "<b@y>") "1@b.c".toList ⟨0, true, 0⟩ none none = .ok out ∧
      Survives "References" (msgIDs "<b@y>".toList 255) (sections asciiWords ⟨"a@b.c".toList, []⟩ (answerTo "<b@y>")
        "1@b.c".toList ⟨0, true, 0⟩ (boundaryOf none) (boundaryOf none)).flatten :=
  ⟨_, rfl, ((references_survive_iff rfl rfl rfl).2.mpr (by decide +kernel)).2⟩

/-- Two ids, of which none is read back. -/
theorem references_lost :
    msgIDs "<a@x> <b@y>".toList 255 = ["a@x".toList, "b@y".toList] ∧
      valuesOf "References" (sections asciiWords ⟨"a@b.c".toList, []⟩ (answerTo "<a@x> <b@y>") "1@b.c".toList
        ⟨0, true, 0⟩ (boundaryOf none) (boundaryOf none)).flatten = ["a@x> <b@y".toList] ∧
        messageIDs (utf8 "a@x> <b@y".toList) = [] ∧
          ¬ Survives "References" (msgIDs "<a@x> <b@y>".toList 255) (sections asciiWords ⟨"a@b.c".toList, []⟩
            (answerTo "<a@x> <b@y>") "1@b.c".toList ⟨0, true, 0⟩ (boundaryOf none) (boundaryOf none)).flatten := by
  unfold Survives
  decide +kernel

end FlyMail.Send
