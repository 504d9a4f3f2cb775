/-
Both walks through the parts of a mail end, and find the same attachments.

What the reader answers does not depend on what the walk is for: a part is read to its end or to
where reading fails, and the next answer is asked for there.  So there is one list of answers, and
the two walks go along it.  They stop at the end, or where the errors behind the last part have
become too many, which is at the end of the first stretch with that many of them and no part.
-/
import FlyMail.Parser.Parts

namespace FlyMail.Parser

/-! ### What the reader answers -/

/-- An answer, with the content of a part and whether reading it failed. -/
inductive Item
  | part (header : Header) (content : Bytes) (failed : Bool)
  | eof
  | unknown
  | other
  deriving DecidableEq, Repr

def Item.isPart : Item → Bool
  | .part .. => true
  | _ => false

/-- More errors that need not get on than are put up with, and no part between them. -/
def Stuck (l : List Item) : Prop :=
  ∃ stretch, stretch <:+: l ∧ (∀ i ∈ stretch, i.isPart = false) ∧ maxConsecutivePartErrs < stretch.count .other

namespace Reader

variable {S : Type} (r : Reader S)

def item (s : S) : Item :=
  match r.nextPart s with
  | (.part header, s') => .part header (r.readAll s').1 (r.readAll s').2.1
  | (.eof, _) => .eof
  | (.unknown, _) => .unknown
  | (.other, _) => .other

/-- Where the reader is behind an answer, and behind the content of a part. -/
def next (s : S) : S :=
  match r.nextPart s with
  | (.part _, s') => (r.readAll s').2.2
  | (_, s') => s'

/-- The first `n` answers. -/
def items : Nat → S → List Item
  | 0, _ => []
  | n + 1, s => r.item s :: items n (r.next s)

end Reader

/-! ### What a walk makes of the answers -/

/-- The text of a part, if it is one of these and could be read. -/
def Item.body (these : PartHeader → Bool) : Item → Option Bytes
  | .part (.inline h) content false => if these h then some content else none
  | _ => none

def Header.isText : Header → Bool
  | .inline h => h.isPlain || h.isHtml
  | .attachment _ => false

def Header.filename : Header → Bytes
  | .inline h => inlineFilename h
  | .attachment h => h.filename

def Header.fields : Header → PartHeader
  | .inline h => h
  | .attachment h => h

def Header.isInline : Header → Bool
  | .inline _ => true
  | .attachment _ => false

/-- The attachment a part is, with its bytes or only their number. -/
def Item.attachment (capture : Bool) : Item → Option AttachmentData
  | .part header content failed =>
      if header.isText then none
      else some {
        filename := header.filename
        contentType := header.fields.contentType
        contentID := header.fields.cid
        isInline := header.isInline
        size := content.length
        content := if capture then content else []
        err := capture && failed }
  | _ => none

/-- The first that is not empty. -/
def firstNonempty (bs : List Bytes) : Bytes := (bs.find? fun b => b ≠ []).getD []

theorem firstNonempty_cons (b : Bytes) (bs : List Bytes) :
    firstNonempty (b :: bs) = if b = [] then firstNonempty bs else b := by
  unfold firstNonempty
  rw [List.find?_cons]
  by_cases hb : b = []
  · simp [hb]
  · simp [hb]

theorem firstNonempty_append (bs bs' : List Bytes) :
    firstNonempty (bs ++ bs') = firstNonempty (firstNonempty bs :: bs') := by
  induction bs with
  | nil => rw [List.nil_append, firstNonempty_cons, if_pos (by rfl)]
  | cons b bs ih =>
    rw [List.cons_append, firstNonempty_cons, ih, firstNonempty_cons b bs]
    by_cases hb : b = []
    · rw [if_pos hb, if_pos hb]
    · rw [if_neg hb, if_neg hb, firstNonempty_cons, if_neg hb]

/-- What there is behind the answers, if there was `w` in front of them. -/
def Walk.along (capture : Bool) (w : Walk) (l : List Item) : Walk where
  text := firstNonempty (w.text :: l.filterMap (Item.body PartHeader.isPlain))
  html := firstNonempty (w.html :: l.filterMap (Item.body PartHeader.isHtml))
  atts := w.atts ++ l.filterMap (Item.attachment capture)

@[simp] theorem firstNonempty_singleton (b : Bytes) : firstNonempty [b] = b := by
  rw [firstNonempty_cons]
  split
  · rename_i hb
    rw [hb]
    rfl
  · rfl

theorem Walk.along_nil (capture : Bool) (w : Walk) : w.along capture [] = w := by
  simp [Walk.along]

theorem Walk.along_append (capture : Bool) (w : Walk) (l l' : List Item) :
    w.along capture (l ++ l') = (w.along capture l).along capture l' := by
  simp only [Walk.along, List.filterMap_append, List.append_assoc]
  rw [← List.cons_append, firstNonempty_append, ← List.cons_append, firstNonempty_append]

/-- An answer with nothing in it adds nothing. -/
theorem Walk.along_cons_of_not_part (capture : Bool) (w : Walk) {i : Item} (hi : i.isPart = false)
    (l : List Item) : w.along capture (i :: l) = w.along capture l := by
  cases i with
  | part header content failed => exact absurd hi Bool.noConfusion
  | eof => rfl
  | unknown => rfl
  | other => rfl

/-! ### One part -/

theorem isHtml_of_isPlain {h : PartHeader} (hplain : h.isPlain = true) : h.isHtml = false := by
  obtain ⟨t, ht⟩ := List.isPrefixOf_iff_prefix.mp hplain
  unfold PartHeader.isHtml
  rw [← ht]
  rfl

theorem Reader.readAttachment_fst {S : Type} (r : Reader S) (s : S) (filename ct cid : Bytes) (isInline capture : Bool) :
    (r.readAttachment s filename ct cid isInline capture).1
      = ⟨filename, ct, cid, isInline, (r.readAll s).1.length, if capture then (r.readAll s).1 else [],
          capture && (r.readAll s).2.1⟩ := by
  unfold Reader.readAttachment
  cases capture with
  | true => rfl
  | false => simp [r.discard_eq]

theorem Walk.along_singleton (capture : Bool) (w : Walk) (i : Item) :
    w.along capture [i] = {
      text := if w.text = [] then (i.body PartHeader.isPlain).getD [] else w.text
      html := if w.html = [] then (i.body PartHeader.isHtml).getD [] else w.html
      atts := w.atts ++ (i.attachment capture).toList } := by
  have hone (b : Bytes) (these : PartHeader → Bool) :
      firstNonempty (b :: [i].filterMap (Item.body these)) = if b = [] then (i.body these).getD [] else b := by
    rw [firstNonempty_cons]
    cases hbody : i.body these with
    | none => simp [hbody, firstNonempty]
    | some content => simp [hbody]
  have hatts : [i].filterMap (Item.attachment capture) = (i.attachment capture).toList := by
    cases hatt : i.attachment capture with
    | none => simp [hatt]
    | some a => simp [hatt]
  unfold Walk.along
  rw [hone, hone, hatts]

theorem Item.body_eq_none {these : PartHeader → Bool} {h : PartHeader} (hnot : these h = false) (content : Bytes)
    (failed : Bool) : (Item.part (.inline h) content failed).body these = none := by
  cases failed with
  | true => rfl
  | false => simp [Item.body, hnot]

@[simp] theorem keep_empty (b : Bytes) : (if b = [] then [] else b) = b := by
  split
  · rename_i hb
    exact hb.symm
  · rfl

/-- A text that could be read takes the place of the one for its content type, if that is empty. -/
theorem walkPart_text (capture : Bool) (h : PartHeader) (w : Walk) (content : Bytes) {S : Type} (s' : S)
    (htext : (h.isPlain || h.isHtml) = true) :
    ((if h.isPlain && w.text = [] then ({ w with text := content }, s')
      else if h.isHtml && w.html = [] then ({ w with html := content }, s')
      else (w, s') : Walk × S)).1
      = w.along capture [.part (.inline h) content false] := by
  have hnone : (Item.part (.inline h) content false).attachment capture = none := if_pos htext
  rw [Walk.along_singleton, hnone]
  cases hplain : h.isPlain with
  | true =>
    have hhtml := isHtml_of_isPlain hplain
    by_cases hempty : w.text = []
    · simp [Item.body, hplain, hhtml, hempty]
    · simp [Item.body, hhtml, hempty]
  | false =>
    have hhtml : h.isHtml = true := by
      rwa [hplain, Bool.false_or] at htext
    by_cases hempty : w.html = []
    · simp [Item.body, hplain, hhtml, hempty]
    · simp [Item.body, hplain, hhtml, hempty]

/-- What a part adds depends on its header and its content only. -/
theorem Reader.walkPart_fst {S : Type} (r : Reader S) (capture : Bool) (header : Header) (s : S) (w : Walk) :
    (r.walkPart capture header s w).1
      = w.along capture [.part header (r.readAll s).1 (r.readAll s).2.1] := by
  unfold Reader.walkPart
  cases header with
  | attachment h =>
    rw [Walk.along_singleton]
    simp [Item.attachment, Item.body, readAttachment_fst, Header.isText, Header.fields, Header.filename, Header.isInline]
  | inline h =>
    obtain ⟨content, failed, s', hread⟩ : ∃ content failed s', r.readAll s = (content, failed, s') :=
      ⟨_, _, _, rfl⟩
    cases htext : h.isPlain || h.isHtml with
    | true =>
      cases failed with
      | true => simp [Walk.along_singleton, Item.body, Item.attachment, Header.isText, htext, hread]
      | false =>
        simp only [htext, hread, if_true]
        rw [← walkPart_text capture h w content s' htext]
        rfl
    | false =>
      have hkinds := Bool.or_eq_false_iff.mp htext
      rw [Walk.along_singleton, Item.body_eq_none hkinds.1, Item.body_eq_none hkinds.2]
      simp [Item.attachment, readAttachment_fst, Header.isText, Header.fields, Header.filename, Header.isInline,
        hkinds]

/-! ### How far the walk goes -/

/-- The errors that need not get on, since the last part, if there were `errs` of them before. -/
def pending (errs : Nat) : List Item → Nat
  | [] => errs
  | .part .. :: l => pending 0 l
  | .other :: l => pending (errs + 1) l
  | .unknown :: l => pending errs l
  | .eof :: l => pending errs l

/-- The walk goes on along these answers, if there were `errs` such errors before them. -/
def Goes (errs : Nat) (l : List Item) : Prop :=
  Item.eof ∉ l ∧ ∀ p, p <+: l → pending errs p ≤ maxConsecutivePartErrs

theorem goes_nil {errs : Nat} (herrs : errs ≤ maxConsecutivePartErrs) : Goes errs [] := by
  refine ⟨List.not_mem_nil, fun p hp => ?_⟩
  rw [List.prefix_nil.mp hp]
  exact herrs

/-- The walk gets past an answer that leaves `errs'` errors. -/
theorem goes_cons_iff {errs errs' : Nat} {i : Item} (hi : i ≠ .eof)
    (hpending : ∀ l, pending errs (i :: l) = pending errs' l) (herrs : errs ≤ maxConsecutivePartErrs)
    (l : List Item) : Goes errs (i :: l) ↔ Goes errs' l := by
  constructor
  · intro ⟨hmem, hle⟩
    refine ⟨fun h => hmem (List.mem_cons_of_mem _ h), fun p hp => ?_⟩
    rw [← hpending]
    exact hle _ ((List.prefix_cons_inj i).mpr hp)
  · intro ⟨hmem, hle⟩
    refine ⟨fun h => ?_, fun p hp => ?_⟩
    · rcases List.mem_cons.mp h with h | h
      · exact hi h.symm
      · exact hmem h
    · rcases List.prefix_cons_iff.mp hp with rfl | ⟨t, rfl, ht⟩
      · exact herrs
      · rw [hpending]
        exact hle t ht

/-- It does not get past the end. -/
theorem not_goes_eof (errs : Nat) (l : List Item) : ¬ Goes errs (.eof :: l) :=
  fun h => h.1 List.mem_cons_self

/-- Nor past one error too many. -/
theorem not_goes_other {errs : Nat} (herrs : errs + 1 > maxConsecutivePartErrs) (l : List Item) :
    ¬ Goes errs (.other :: l) := by
  intro h
  have hle : errs + 1 ≤ maxConsecutivePartErrs := h.2 [.other] ⟨l, rfl⟩
  omega

namespace Reader

variable {S : Type} (r : Reader S)

/-- The walk goes along the answers for as long as it can. -/
def Runs (capture : Bool) (s : S) (errs : Nat) (w : Walk) : Prop :=
  ∃ k, k ≤ r.patience s errs ∧ Goes errs (r.items k s) ∧ ¬ Goes errs (r.items (k + 1) s) ∧
    r.walkLoop capture s errs w = w.along capture (r.items k s)

/-- It does if the next answer stops it. -/
theorem runs_of_stop {capture : Bool} {s : S} {errs : Nat} {w : Walk} (herrs : errs ≤ maxConsecutivePartErrs)
    (hstop : ¬ Goes errs [r.item s]) (hloop : r.walkLoop capture s errs w = w) : r.Runs capture s errs w :=
  ⟨0, Nat.zero_le _, goes_nil herrs, hstop, by rw [hloop, items, Walk.along_nil]⟩

/-- And if it does so behind the next answer. -/
theorem runs_of_next {capture : Bool} {s : S} {errs : Nat} {w : Walk} (errs' : Nat) (w' : Walk)
    (herrs : errs ≤ maxConsecutivePartErrs) (hi : r.item s ≠ .eof)
    (hpending : ∀ l, pending errs (r.item s :: l) = pending errs' l)
    (hcost : r.patience (r.next s) errs' < r.patience s errs) (hw : w' = w.along capture [r.item s])
    (hloop : r.walkLoop capture s errs w = r.walkLoop capture (r.next s) errs' w')
    (h : r.Runs capture (r.next s) errs' w') : r.Runs capture s errs w := by
  obtain ⟨k, hk, hgoes, hstops, heq⟩ := h
  refine ⟨k + 1, by omega, ?_, ?_, ?_⟩
  · exact (goes_cons_iff hi hpending herrs _).mpr hgoes
  · exact fun h => hstops ((goes_cons_iff hi hpending herrs _).mp h)
  · rw [hloop, heq, hw, ← Walk.along_append]
    rfl

theorem runs (capture : Bool) (s : S) (errs : Nat) (w : Walk) (herrs : errs ≤ maxConsecutivePartErrs) :
    r.Runs capture s errs w := by
  induction s, errs, w using walkLoop.induct r capture with
  | case1 s errs w s' h =>
    have hitem : r.item s = .eof := by simp [item, h]
    refine r.runs_of_stop herrs (hitem ▸ not_goes_eof errs []) ?_
    rw [walkLoop]
    split <;> simp_all
  | case2 s errs w s' h ih =>
    have hitem : r.item s = .unknown := by simp [item, h]
    have hnext : r.next s = s' := by simp [next, h]
    refine r.runs_of_next errs w herrs (by simp [hitem]) (fun l => by simp [hitem, pending])
      (hnext ▸ r.patience_unknown h errs) ?_ ?_ (hnext ▸ ih herrs)
    · rw [hitem, Walk.along_cons_of_not_part capture w rfl, Walk.along_nil]
    · rw [walkLoop, hnext]
      split <;> simp_all
  | case3 s errs w s' h hmax =>
    have hitem : r.item s = .other := by simp [item, h]
    refine r.runs_of_stop herrs (hitem ▸ not_goes_other hmax []) ?_
    rw [walkLoop]
    split <;> simp_all
  | case4 s errs w s' h hmax ih =>
    have hitem : r.item s = .other := by simp [item, h]
    have hnext : r.next s = s' := by simp [next, h]
    refine r.runs_of_next (errs + 1) w herrs (by simp [hitem]) (fun l => by simp [hitem, pending])
      (hnext ▸ r.patience_other h hmax) ?_ ?_ (hnext ▸ ih (Nat.le_of_not_gt hmax))
    · rw [hitem, Walk.along_cons_of_not_part capture w rfl, Walk.along_nil]
    · rw [walkLoop, hnext]
      split <;> simp_all only [dif_neg, not_false_eq_true, Prod.mk.injEq, reduceCtorEq, false_and, true_and]
  | case5 s errs w header s' h ih =>
    have hitem : r.item s = .part header (r.readAll s').1 (r.readAll s').2.1 := by simp [item, h]
    have hnext : r.next s = (r.walkPart capture header s' w).2 := by simp [next, h, walkPart_snd]
    refine r.runs_of_next 0 (r.walkPart capture header s' w).1 herrs (by simp [hitem])
      (fun l => by simp [hitem, pending]) (hnext ▸ r.patience_part h (r.walkPart_snd ..) errs) ?_ ?_
      (hnext ▸ ih (Nat.zero_le _))
    · rw [hitem, walkPart_fst]
    · rw [walkLoop, hnext]
      split <;> simp_all

end Reader

/-! ### Where the errors have become too many -/

theorem pending_append (errs : Nat) (l l' : List Item) : pending errs (l ++ l') = pending (pending errs l) l' := by
  induction l generalizing errs with
  | nil => rfl
  | cons i l ih =>
    cases i with
    | part header content failed => exact ih 0
    | eof => exact ih errs
    | unknown => exact ih errs
    | other => exact ih (errs + 1)

/-- Without a part the errors are only counted. -/
theorem pending_of_no_part {l : List Item} (h : ∀ i ∈ l, i.isPart = false) (errs : Nat) :
    pending errs l = errs + l.count .other := by
  induction l generalizing errs with
  | nil => rfl
  | cons i l ih =>
    have hrest := ih fun i hi => h i (List.mem_cons_of_mem _ hi)
    cases i with
    | part header content failed => exact absurd (h _ List.mem_cons_self) Bool.noConfusion
    | eof => simpa [pending] using hrest errs
    | unknown => simpa [pending] using hrest errs
    | other =>
      have hcount : (Item.other :: l).count .other = l.count .other + 1 := List.count_cons_self
      rw [pending, hrest, hcount]
      omega

/-- The errors since the last part are those of a stretch at the end without a part. -/
theorem exists_stretch (l : List Item) :
    ∃ stretch, stretch <:+ l ∧ (∀ i ∈ stretch, i.isPart = false) ∧ stretch.count .other = pending 0 l := by
  induction l using List.reverseRecOn with
  | nil => exact ⟨[], List.suffix_rfl, fun _ h => absurd h List.not_mem_nil, rfl⟩
  | append_singleton l i ih =>
    obtain ⟨stretch, hsuffix, hall, hcount⟩ := ih
    by_cases hi : i.isPart = true
    · refine ⟨[], List.nil_suffix, fun _ h => absurd h List.not_mem_nil, ?_⟩
      rw [pending_append]
      cases i with
      | part header content failed => rfl
      | eof => exact absurd hi Bool.noConfusion
      | unknown => exact absurd hi Bool.noConfusion
      | other => exact absurd hi Bool.noConfusion
    · have hone : ∀ j ∈ [i], j.isPart = false := by simpa using hi
      refine ⟨stretch ++ [i], ?_, ?_, ?_⟩
      · obtain ⟨before, rfl⟩ := hsuffix
        exact ⟨before, by simp⟩
      · intro j hj
        rcases List.mem_append.mp hj with hj | hj
        · exact hall j hj
        · exact hone j hj
      · rw [List.count_append, hcount, pending_append, pending_of_no_part hone]

/-- **The walk goes along just the answers in front of the end and of the first stretch with too many
errors.** -/
theorem goes_iff (l : List Item) : Goes 0 l ↔ Item.eof ∉ l ∧ ¬ Stuck l := by
  refine and_congr_right fun _ => ⟨fun hle hstuck => ?_, fun hstuck p hp => ?_⟩
  · obtain ⟨stretch, ⟨before, after, rfl⟩, hall, hcount⟩ := hstuck
    have h := hle (before ++ stretch) ⟨after, rfl⟩
    rw [pending_append, pending_of_no_part hall] at h
    omega
  · obtain ⟨stretch, hsuffix, hall, hcount⟩ := exists_stretch p
    by_contra hlt
    exact hstuck ⟨stretch, hsuffix.isInfix.trans hp.isInfix, hall, by omega⟩

theorem Goes.of_prefix {errs : Nat} {l l' : List Item} (h : Goes errs l') (hp : l <+: l') : Goes errs l :=
  ⟨fun hmem => h.1 (hp.subset hmem), fun p hpre => h.2 p (hpre.trans hp)⟩

/-! ### The two walks -/

namespace Reader

variable {S : Type} (r : Reader S)

theorem items_prefix {m n : Nat} (h : m ≤ n) (s : S) : r.items m s <+: r.items n s := by
  induction m generalizing n s with
  | zero => exact List.nil_prefix
  | succ m ih =>
    obtain ⟨n, rfl⟩ := Nat.exists_eq_succ_of_ne_zero (Nat.ne_of_gt (Nat.lt_of_lt_of_le (Nat.succ_pos m) h))
    exact (List.prefix_cons_inj _).mpr (ih (Nat.le_of_succ_le_succ h) _)

/-- What the walk has gone along when it ends: the answers before the end and before the errors have
become too many, all of them, and no more of them than there is patience for. -/
theorem walkParts_spec (s : S) :
    ∃ k, k ≤ r.patience s 0 ∧ (∀ n, n ≤ k ↔ Item.eof ∉ r.items n s ∧ ¬ Stuck (r.items n s)) ∧
      ∀ capture, r.walkParts capture s = Walk.along capture ⟨[], [], []⟩ (r.items k s) := by
  obtain ⟨k, hk, hgoes, hstops, -⟩ := r.runs true s 0 ⟨[], [], []⟩ (Nat.zero_le _)
  have hiff (n : Nat) : n ≤ k ↔ Goes 0 (r.items n s) := by
    refine ⟨fun hn => hgoes.of_prefix (r.items_prefix hn s), fun h => ?_⟩
    by_contra hlt
    exact hstops (h.of_prefix (r.items_prefix (Nat.lt_of_not_le hlt) s))
  refine ⟨k, hk, fun n => (hiff n).trans (goes_iff _), fun capture => ?_⟩
  obtain ⟨k', -, hgoes', hstops', heq⟩ := r.runs capture s 0 ⟨[], [], []⟩ (Nat.zero_le _)
  have hle := (hiff k').mpr hgoes'
  have hge : ¬ k' + 1 ≤ k := fun h => hstops' ((hiff (k' + 1)).mp h)
  obtain rfl : k' = k := by omega
  exact heq

end Reader

/-- The entry for an attachment does not depend on whether its content is kept. -/
theorem Item.attachment_listed (i : Item) :
    (i.attachment false).map AttachmentData.listed = (i.attachment true).map AttachmentData.listed := by
  cases i with
  | part header content failed =>
    by_cases h : header.isText
    · simp [Item.attachment, h]
    · simp [Item.attachment, h, AttachmentData.listed]
  | eof => rfl
  | unknown => rfl
  | other => rfl

theorem along_listed (w : Walk) (l : List Item) :
    (w.along false l).atts.map AttachmentData.listed = (w.along true l).atts.map AttachmentData.listed := by
  simp only [Walk.along, List.map_append, List.map_filterMap]
  congr 1
  exact List.filterMap_congr fun i _ => i.attachment_listed

/-- **Both walks end, having taken in every part in front of the end and of the first stretch with too
many errors, and the list of a mail's attachments is that of the attachments to download.** -/
theorem walkParts_alike {S : Type} (r : Reader S) (g : GoMessage) (start : Bytes → S) :
    (∀ s, ∃ k, k ≤ (maxConsecutivePartErrs + 1) * r.size s + maxConsecutivePartErrs ∧
      (∀ n, n ≤ k ↔ Item.eof ∉ r.items n s ∧ ¬ Stuck (r.items n s)) ∧
      ∀ capture, r.walkParts capture s = {
        text := firstNonempty ((r.items k s).filterMap (Item.body PartHeader.isPlain))
        html := firstNonempty ((r.items k s).filterMap (Item.body PartHeader.isHtml))
        atts := (r.items k s).filterMap (Item.attachment capture) }) ∧
    ∀ m email fallbackHeaders,
      ((g.withParts r start).parseBody m email fallbackHeaders).map (·.attachments)
        = ((g.withParts r start).extractAttachments r start m).map fun atts =>
            email.attachments ++ atts.map AttachmentData.listed := by
  constructor
  · intro s
    obtain ⟨k, hk, hiff, heq⟩ := r.walkParts_spec s
    refine ⟨k, hk, hiff, fun capture => ?_⟩
    rw [heq]
    simp [Walk.along, firstNonempty_cons]
  · intro m email fallbackHeaders
    obtain ⟨k, -, -, heq⟩ := r.walkParts_spec (start m)
    have hlisted : (r.walkParts false (start m)).atts.map AttachmentData.listed
        = (r.walkParts true (start m)).atts.map AttachmentData.listed := by
      rw [heq, heq, along_listed]
    have hcreated : (g.withParts r start).createReader (headerLines m) = g.createReader (headerLines m) := rfl
    unfold GoMessage.parseBody GoMessage.extractAttachments
    rw [hcreated]
    cases g.createReader (headerLines m) with
    | reader =>
      simp only [Option.map_some, ← hlisted]
      cases fallbackHeaders with
      | true => rfl
      | false => rfl
    | readerAndError => rfl
    | error => rfl

end FlyMail.Parser
