/-
What a reader finds in an outgoing mail.

Most of what goes into the fields cannot break out of them: encoded words are folded, quoted strings
and percent-encoded names have no line ends, and ids are checked or cleaned.  Four things are written
as they are: the domain of an address, the message id, and the content type of an attachment.

`sections_read_iff` says that the fields of every section are read as they are meant just if these
are folded, that is, if they have CR and LF in them only as line ends in front of a blank.
-/
import FlyMail.Send.Builder
import Mathlib.Data.List.Forall2

namespace FlyMail.Send

open Fields (crlf NoBreaks Writable folded folded_iff noBreaks_append_iff noBreaks_cons_iff
  noBreaks_singleton isBreak_eq_false folded_noBreaks_append)

variable {m : WordEncoders}

/-! ### What has no line ends -/

/-- An entry of a table, or what stands for one that is missing. -/
theorem forall_getD {α : Type} {P : α → Prop} {l : List α} {d : α} (h : ∀ a ∈ l, P a) (hd : P d) (i : Nat) :
    P (l.getD i d) := by
  rw [List.getD_eq_getElem?_getD]
  cases hi : l[i]? with
  | none => exact hd
  | some a => exact h a (List.mem_of_getElem? hi)

theorem isBreak_of_isVchar {c : Char} (h : isVchar c = true) : Fields.isBreak c = false :=
  isBreak_eq_false (by decide) (by decide) h

theorem noBreaks_quoteString (s : Text) : NoBreaks (quoteString s) := by
  have hquote : Fields.isBreak '"' = false := by decide
  unfold quoteString
  rw [List.cons_append, noBreaks_cons_iff, noBreaks_append_iff]
  refine ⟨hquote, fun d hd => ?_, noBreaks_singleton hquote⟩
  obtain ⟨c, -, hd⟩ := List.mem_flatMap.mp hd
  split at hd
  · rename_i h
    rw [List.mem_singleton.mp hd]
    exact isBreak_eq_false (p := fun c => isQtext c || Fields.isWSP c) (by decide) (by decide) h
  · split at hd
    · rename_i h
      refine noBreaks_cons_iff.mpr ⟨by decide, noBreaks_singleton (isBreak_of_isVchar h)⟩ d hd
    · exact absurd hd List.not_mem_nil

/-- What need not be quoted. -/
theorem noBreaks_of_quoteLocal {t : Text} : ∀ {prev}, quoteLocal prev t = false → NoBreaks t := by
  induction t with
  | nil => exact fun _ c hc => absurd hc List.not_mem_nil
  | cons c t ih =>
      intro prev h
      rw [quoteLocal] at h
      split at h
      · rename_i hc
        refine noBreaks_cons_iff.mpr ⟨?_, ih h⟩
        rw [Bool.or_eq_true, Bool.and_eq_true, Bool.and_eq_true, Bool.and_eq_true] at hc
        rcases hc with hatext | ⟨⟨⟨hdot, -⟩, -⟩, -⟩
        · exact isBreak_eq_false (by decide) (by decide) hatext
        · rw [beq_iff_eq.mp hdot]
          decide
      · exact absurd h.symm Bool.false_ne_true

theorem folded_displayName (m : WordEncoders) (name : Text) : folded (displayName m name) = true := by
  unfold displayName
  split
  · rfl
  · split
    · refine Fields.folded_append (noBreaks_quoteString name).folded rfl
    · split
      · exact Fields.folded_append (m.folded_bEncode name) rfl
      · exact Fields.folded_append (m.folded_qEncode name) rfl

theorem noBreaks_validContentID {id : Text} (h : validContentID id = true) : NoBreaks id := by
  unfold validContentID at h
  rw [Bool.and_eq_true, List.all_eq_true] at h
  exact fun c hc => isBreak_eq_false (p := fun c => isIDChar c || "._-".toList.contains c)
    (by decide) (by decide) (h.2 c hc)

theorem noBreaks_validMsgID {id : Text} (h : validMsgID id = true) : NoBreaks id := by
  unfold validMsgID at h
  rw [Bool.and_eq_true, List.all_eq_true] at h
  exact fun c hc => isBreak_eq_false
    (p := fun c => isIDChar c || "!#$%&*+-/=?^_`\x7b|\x7d~.@".toList.contains c) (by decide) (by decide) (h.2 c hc)

theorem valid_of_mem_scanMsgIDs {max : Nat} (fuel : Nat) : ∀ {ids : List Text} {raw : Text},
    (∀ id ∈ ids, validMsgID id = true) → ∀ id ∈ scanMsgIDs max fuel ids raw, validMsgID id = true := by
  induction fuel with
  | zero => exact fun h => h
  | succ fuel ih =>
      intro ids raw h
      rw [scanMsgIDs]
      split
      · exact h
      · simp only
        split
        · rename_i hvalid
          exact ih (List.forall_mem_append.mpr ⟨h, List.forall_mem_singleton.mpr hvalid⟩)
        · exact ih h

theorem noBreaks_cleanMsgIDList {raw : Text} {max : Nat} {v : Text} (h : cleanMsgIDList raw max = some v) :
    NoBreaks v := by
  unfold cleanMsgIDList at h
  split at h
  · exact absurd h.symm (Option.some_ne_none v)
  · simp only at h
    split at h
    · exact absurd h.symm (Option.some_ne_none v)
    · obtain rfl := Option.some.inj h
      refine Fields.noBreaks_join (by unfold NoBreaks; decide) fun id hid => noBreaks_validMsgID ?_
      exact valid_of_mem_scanMsgIDs _ (fun _ hmem => absurd hmem List.not_mem_nil) id hid

theorem noBreaks_isASCII {s : Text} (h : isASCII s = true) : NoBreaks s := by
  unfold isASCII at h
  exact fun c hc => isBreak_eq_false (p := fun c => 0x20 ≤ c.toNat && c.toNat ≤ 0x7e) (by decide) (by decide)
    (List.all_eq_true.mp h c hc)

theorem noBreaks_dropQuotes {s : Text} (h : NoBreaks s) : NoBreaks (dropQuotes s) :=
  fun c hc => h c (List.mem_filter.mp hc).1

theorem folded_encodeParamValue (m : WordEncoders) (s : Text) : folded (encodeParamValue m s) = true := by
  have hquote : Fields.isBreak '"' = false := by decide
  unfold encodeParamValue
  split
  · rename_i h
    refine NoBreaks.folded (noBreaks_append_iff.mpr ⟨noBreaks_cons_iff.mpr ⟨hquote, ?_⟩, noBreaks_singleton hquote⟩)
    exact noBreaks_dropQuotes (noBreaks_isASCII h)
  · exact m.folded_bEncode s

theorem noBreaks_pctEncode (s : Text) : NoBreaks (pctEncode s) := by
  have hhex (n : Nat) : Fields.isBreak (hexDigit n) = false :=
    forall_getD (P := fun c => Fields.isBreak c = false) (by decide) (by decide) n
  intro c hc
  obtain ⟨b, -, hc⟩ := List.mem_flatMap.mp hc
  simp only at hc
  split at hc
  · rename_i hsafe
    rw [List.mem_singleton.mp hc]
    exact isBreak_eq_false (p := fun c => isIDChar c || "!#$&+-.^_`|~".toList.contains c) (by decide) (by decide) hsafe
  · exact noBreaks_cons_iff.mpr ⟨by decide, noBreaks_cons_iff.mpr ⟨hhex _, noBreaks_singleton (hhex _)⟩⟩ c hc

theorem noBreaks_dispositionFilename (s : Text) : NoBreaks (dispositionFilename s) := by
  unfold dispositionFilename
  split
  · rename_i h
    rw [noBreaks_append_iff, noBreaks_append_iff]
    exact ⟨⟨by unfold NoBreaks; decide, noBreaks_dropQuotes (noBreaks_isASCII h)⟩, noBreaks_singleton (by decide)⟩
  · rw [noBreaks_append_iff]
    exact ⟨by unfold NoBreaks; decide, noBreaks_pctEncode s⟩

theorem isBreak_of_isDigit {c : Char} (h : c.isDigit = true) : Fields.isBreak c = false :=
  isBreak_eq_false (by decide) (by decide) h

theorem noBreaks_formatDate (t : LocalTime) : NoBreaks (formatDate t) := by
  have hpad (w n : Nat) : NoBreaks (Layout.pad w n) := fun c hc => isBreak_of_isDigit (Layout.isDigit_of_mem_pad hc)
  have hday : NoBreaks (weekday t) := forall_getD (P := fun s : String => NoBreaks s.toList)
    (by unfold NoBreaks; decide) (by unfold NoBreaks; decide) _
  have hmonth (month : Nat) : NoBreaks (monthName month) := forall_getD (P := fun s : String => NoBreaks s.toList)
    (by unfold NoBreaks; decide) (by unfold NoBreaks; decide) _
  have hyear (year : Nat) : NoBreaks (if year < 10000 then Layout.pad 4 year else Text.formatUint year) := by
    split
    · exact hpad 4 year
    · exact fun c hc => isBreak_of_isDigit (Text.isDigit_of_mem_formatUint hc)
  have hsign : NoBreaks [if t.east then '+' else '-'] := by
    refine noBreaks_singleton ?_
    split
    · decide
    · decide
  have hblank : NoBreaks [' '] := noBreaks_singleton (by decide)
  have hcolon : NoBreaks [':'] := noBreaks_singleton (by decide)
  have hcomma : NoBreaks ", ".toList := by unfold NoBreaks; decide
  unfold formatDate
  simp only [noBreaks_append_iff]
  simp only [hpad, hday, hmonth, hyear, hsign, hblank, hcolon, hcomma, and_self]

/-! ### What is not a delimiter -/

/-- The boundary of random bytes, as it is written. -/
def boundaryOf (rand : Option Bytes) : Text := "flymail_".toList ++ (rand.getD []).flatMap hexByte

theorem boundary_of_randomBoundary {rand : Option Bytes} {boundary : Text}
    (h : randomBoundary rand = .ok boundary) : boundary = boundaryOf rand := by
  unfold randomBoundary at h
  split at h
  · exact absurd h (by simp)
  · exact (Except.ok.inj h).symm

/-- A property of every hexadecimal digit holds of what is written in them. -/
theorem forall_hexByte {P : Char → Prop} (h : ∀ n < 16, P (Nat.digitChar n)) {c : Char} {b : UInt8}
    (hc : c ∈ hexByte b) : P c := by
  have hlt := b.toNat_lt
  unfold hexByte at hc
  rw [Nat.toDigits_of_lt_base (by omega), Nat.toDigits_of_lt_base (by omega)] at hc
  rcases List.mem_append.mp hc with hc | hc
  · rw [List.mem_singleton.mp hc]
    exact h _ (by omega)
  · rw [List.mem_singleton.mp hc]
    exact h _ (by omega)

theorem forall_boundaryOf {P : Char → Prop} (hflymail : ∀ c ∈ "flymail_".toList, P c)
    (h : ∀ n < 16, P (Nat.digitChar n)) (rand : Option Bytes) : ∀ c ∈ boundaryOf rand, P c := by
  intro c hc
  rcases List.mem_append.mp hc with hc | hc
  · exact hflymail c hc
  · obtain ⟨b, -, hc⟩ := List.mem_flatMap.mp hc
    exact forall_hexByte h hc

theorem noBreaks_boundaryOf (rand : Option Bytes) : NoBreaks (boundaryOf rand) :=
  forall_boundaryOf (by decide) (by decide) rand

/-- How a delimiter is told from a line of content and from the end of a container. -/
theorem count_delimiter (rand : Option Bytes) : (delimiter (boundaryOf rand)).count '-' = 2 := by
  have hnone : '-' ∉ boundaryOf rand := fun h =>
    forall_boundaryOf (P := fun c => c ≠ '-') (by decide) (by decide) rand _ h rfl
  unfold delimiter
  rw [List.count_cons_self, List.count_cons_self, List.count_eq_zero.mpr hnone]

theorem noBreaks_delimiter (rand : Option Bytes) : NoBreaks (delimiter (boundaryOf rand)) :=
  noBreaks_cons_iff.mpr ⟨by decide, noBreaks_cons_iff.mpr ⟨by decide, noBreaks_boundaryOf rand⟩⟩

/-- A property of every character of base64 holds of what is encoded. -/
theorem forall_encodeToString {P : Char → Prop} (hpad : P '=') (h : ∀ n, P (base64Char n)) (data : Bytes) :
    ∀ c ∈ encodeToString data, P c := by
  induction data using encodeToString.induct with
  | case1 a b c t ih =>
      simp only [encodeToString, List.mem_append, List.mem_cons, List.not_mem_nil, or_false]
      rintro d ((rfl | rfl | rfl | rfl) | hd)
      · exact h _
      · exact h _
      · exact h _
      · exact h _
      · exact ih d hd
  | case2 a b =>
      simp only [encodeToString, List.mem_cons, List.not_mem_nil, or_false]
      rintro d (rfl | rfl | rfl | rfl)
      · exact h _
      · exact h _
      · exact h _
      · exact hpad
  | case3 a =>
      simp only [encodeToString, List.mem_cons, List.not_mem_nil, or_false]
      rintro d (rfl | rfl | rfl | rfl)
      · exact h _
      · exact h _
      · exact hpad
      · exact hpad
  | case4 => exact fun d hd => absurd hd List.not_mem_nil

theorem base64_plain (data : Bytes) : ∀ c ∈ encodeToString data, c ≠ '-' ∧ Fields.isBreak c = false :=
  forall_encodeToString (by decide)
    (forall_getD (P := fun c => c ≠ '-' ∧ Fields.isBreak c = false) (by decide) (by decide)) data

/-! ### Reading the parts -/

/-- A text that is read, from the beginning of a header, as these sections, whatever follows it. -/
def Reads (ds : List Text) (p : Text) (sections : List (List Text)) : Prop :=
  ∀ t, Fields.read ds (some []) (Fields.lines (p ++ t))
    = (Fields.read ds none (Fields.lines t)).map (sections ++ ·)

section Reading

variable {ds : List Text} (hds : ∀ d ∈ ds, d.count '-' = 2)

include hds

/-- **The content of a part is skipped.** -/
theorem read_content (data : Bytes) (t : Text) :
    Fields.read ds none (Fields.lines (writeBase64Wrapped data ++ t)) = Fields.read ds none (Fields.lines t) := by
  have hplain : ∀ l ∈ chunksOf 76 (encodeToString data), ∀ c ∈ l, c ≠ '-' ∧ Fields.isBreak c = false :=
    fun l hl c hc => base64_plain data c ((exists_mem_chunksOf (by decide)).mp ⟨l, hl, hc⟩)
  unfold writeBase64Wrapped
  generalize chunksOf 76 (encodeToString data) = pieces at hplain ⊢
  induction pieces with
  | nil => rfl
  | cons l ls ih =>
      have hcount : l.count '-' = 0 :=
        List.count_eq_zero.mpr fun h => (hplain l List.mem_cons_self _ h).1 rfl
      have hl : l ∉ ds := fun h => by
        rw [hds l h] at hcount
        exact absurd hcount (by decide)
      rw [List.flatMap_cons, List.append_assoc,
        Fields.read_skip (fun c hc => (hplain l List.mem_cons_self c hc).2) hl]
      exact ih fun k hk => hplain k (List.mem_cons_of_mem _ hk)

theorem reads_writePart {fields : List Text} (h : ∀ f ∈ fields, Writable f) (content : Bytes) :
    Reads ds (writePart fields content) [fields.map Fields.unfolded] := by
  intro t
  unfold writePart
  rw [List.append_assoc, Fields.read_section h, read_content hds]
  rfl

/-- **The parts of a container are read one after another.** -/
theorem read_writeParts {rand : Option Bytes} (hmem : delimiter (boundaryOf rand) ∈ ds) {ps : List Text}
    {sections : List (List (List Text))} (h : List.Forall₂ (Reads ds) ps sections) (t : Text) :
    Fields.read ds none (Fields.lines (writeParts (boundaryOf rand) ps ++ t))
      = (Fields.read ds none (Fields.lines t)).map (sections.flatten ++ ·) := by
  have hbreaks := noBreaks_delimiter rand
  have hcount := count_delimiter rand
  unfold writeParts
  induction h with
  | nil =>
      have hclose : NoBreaks (delimiter (boundaryOf rand) ++ "--".toList) :=
        noBreaks_append_iff.mpr ⟨hbreaks, by unfold NoBreaks; decide⟩
      have hnotMem : delimiter (boundaryOf rand) ++ "--".toList ∉ ds := fun hin => by
        have htwo := hds _ hin
        rw [List.count_append, hcount] at htwo
        exact absurd htwo (by decide)
      rw [List.flatMap_nil, List.nil_append, Fields.read_skip hclose hnotMem]
      simp
  | @cons p secs ps sections hp _ ih =>
      rw [List.flatMap_cons, List.flatten_cons]
      simp only [List.append_assoc] at ih ⊢
      rw [← List.append_assoc, Fields.read_delimiter hbreaks hmem, hp, ih, Option.map_map]
      simp only [Function.comp_def]

theorem reads_container {rand : Option Bytes} (hmem : delimiter (boundaryOf rand) ∈ ds) {fields ps : List Text}
    (hfields : ∀ f ∈ fields, Writable f) {sections : List (List (List Text))}
    (h : List.Forall₂ (Reads ds) ps sections) :
    Reads ds (Fields.write fields ++ crlf ++ writeParts (boundaryOf rand) ps)
      (fields.map Fields.unfolded :: sections.flatten) := by
  intro t
  rw [List.append_assoc, Fields.read_section hfields, read_writeParts hds hmem h, Option.map_map]
  rfl

theorem reads_attachments {fields : Attachment → List Text} (atts : List Attachment)
    (h : ∀ att ∈ atts, ∀ f ∈ fields att, Writable f) :
    List.Forall₂ (Reads ds) (atts.map fun att => writePart (fields att) att.content)
      (atts.map fun att => [(fields att).map Fields.unfolded]) := by
  rw [List.forall₂_map_left_iff, List.forall₂_map_right_iff, List.forall₂_same]
  exact fun att hatt => reads_writePart hds (h att hatt) _

end Reading

/-! ### Fields -/

def names : List String :=
  ["From", "To", "Cc", "Subject", "Date", "Message-ID", "In-Reply-To", "References", "MIME-Version",
    "Content-Type", "Content-Transfer-Encoding", "Content-ID", "Content-Disposition"]

/-- A name in front of each. -/
def Named (f : Text) : Prop := ∃ name ∈ names, ∃ value, f = field name value

theorem named_field {name : String} (h : name ∈ names) (value : Text) : Named (field name value) :=
  ⟨name, h, value, rfl⟩

theorem Named.writable {f : Text} (h : Named f) (hf : folded f = true) : Writable f := by
  obtain ⟨name, hname, value, rfl⟩ := h
  have hsolid : ∀ name ∈ names, name.toList ≠ [] ∧ ∀ c ∈ name.toList, Fields.Solid c := by decide
  obtain ⟨hne, hall⟩ := hsolid name hname
  obtain ⟨c, t, ht⟩ := List.exists_cons_of_ne_nil hne
  refine ⟨⟨c, t ++ ": ".toList ++ value, ?_, hall c (ht ▸ List.mem_cons_self)⟩, hf⟩
  unfold field
  rw [ht]
  rfl

theorem folded_field {name : String} (h : name ∈ names) (value : Text) :
    folded (field name value) = folded value := by
  have hall : ∀ name ∈ names, NoBreaks name.toList := by
    unfold NoBreaks
    decide
  unfold field
  rw [List.append_assoc, folded_noBreaks_append (hall name h), folded_noBreaks_append (by unfold NoBreaks; decide)]

/-- **Of an address only the domain can break a field.** -/
theorem folded_addressString (m : WordEncoders) (name address : Text) :
    folded (addressString m name address) = folded (domainOf address) := by
  have hlocal : folded (if quoteLocal none (localOf address) then quoteString (localOf address) else localOf address)
      = true := by
    split
    · exact (noBreaks_quoteString _).folded
    · rename_i h
      exact (noBreaks_of_quoteLocal (Bool.eq_false_iff.mpr h)).folded
  unfold addressString
  rw [Bool.eq_iff_iff]
  simp only [List.append_assoc, List.cons_append]
  rw [Fields.folded_append_cons (by decide), Fields.folded_append_cons (by decide),
    Fields.folded_append_cons (by decide)]
  simp only [folded_displayName, hlocal, true_and]
  exact and_iff_left rfl

theorem folded_encodeAddressList (m : WordEncoders) (addrs : List Text) :
    folded (encodeAddressList m addrs) = true ↔ ∀ addr ∈ addrs, folded (domainOf addr) = true := by
  unfold encodeAddressList
  show folded (Text.join _ [',', ' ']) = true ↔ _
  rw [Fields.folded_join (by decide), List.forall_mem_map]
  simp only [folded_addressString]

theorem folded_bracketed (t : Text) : folded ('<' :: t ++ ['>']) = folded t := by
  rw [List.cons_append, Fields.folded_cons_iff (by decide), Bool.eq_iff_iff, Fields.folded_append_cons (by decide)]
  exact and_iff_left rfl

theorem folded_contentTypeField (m : WordEncoders) (att : Attachment) :
    folded (contentTypeField m att) = folded att.contentType := by
  have htype : folded (contentTypeOrDefault att) = folded att.contentType := by
    unfold contentTypeOrDefault
    split
    · rename_i h
      rw [h]
      decide
    · rfl
  have hname : folded (" name=".toList ++ encodeParamValue m att.filename) = true := by
    rw [folded_noBreaks_append (by unfold NoBreaks; decide), folded_encodeParamValue]
  unfold contentTypeField
  rw [folded_field (by decide), List.append_assoc, ← htype, Bool.eq_iff_iff]
  show folded (contentTypeOrDefault att ++ ';' :: (" name=".toList ++ encodeParamValue m att.filename)) = true ↔ _
  rw [Fields.folded_append_cons (by decide), hname]
  exact and_iff_left rfl

theorem folded_commonFields (m : WordEncoders) (sender : Identity) (req : SendRequest) (messageID : Text)
    (date : LocalTime) :
    (∀ f ∈ commonFields m sender req messageID date, folded f = true) ↔
      folded (domainOf sender.address) = true ∧ (∀ addr ∈ req.toList ++ req.ccList, folded (domainOf addr) = true) ∧
        folded messageID = true := by
  have hcc : (∀ f ∈ if req.ccList = [] then [] else [field "Cc" (encodeAddressList m req.ccList)], folded f = true) ↔
      ∀ addr ∈ req.ccList, folded (domainOf addr) = true := by
    split
    · rename_i h
      rw [h]
      exact Iff.intro (fun _ addr haddr => absurd haddr List.not_mem_nil) (fun _ f hf => absurd hf List.not_mem_nil)
    · rw [List.forall_mem_singleton, folded_field (by decide), folded_encodeAddressList]
  have hreply : ∀ f ∈ if req.inReplyTo = [] then []
      else ((cleanMsgIDList req.inReplyTo 1).map fun v => field "In-Reply-To" ('<' :: v ++ ['>'])).toList,
      folded f = true := by
    intro f hf
    split at hf
    · exact absurd hf List.not_mem_nil
    · obtain ⟨v, hv, rfl⟩ := Option.map_eq_some_iff.mp (Option.mem_toList.mp hf)
      rw [folded_field (by decide), folded_bracketed]
      exact (noBreaks_cleanMsgIDList hv).folded
  have hrefs : ∀ f ∈ if req.references = [] then []
      else ((cleanMsgIDList req.references 255).map fun v => field "References" v).toList, folded f = true := by
    intro f hf
    split at hf
    · exact absurd hf List.not_mem_nil
    · obtain ⟨v, hv, rfl⟩ := Option.map_eq_some_iff.mp (Option.mem_toList.mp hf)
      rw [folded_field (by decide)]
      exact (noBreaks_cleanMsgIDList hv).folded
  unfold commonFields
  simp only [List.forall_mem_append, List.forall_mem_cons, hcc]
  rw [folded_field (by decide), folded_field (by decide), folded_field (by decide), folded_field (by decide),
    folded_field (by decide), folded_field (by decide), folded_addressString, folded_encodeAddressList,
    m.folded_bEncode, (noBreaks_formatDate date).folded, folded_bracketed]
  have hversion : folded "1.0".toList = true := by decide
  simp only [hversion]
  tauto

theorem folded_htmlFields : ∀ f ∈ htmlFields, folded f = true := by decide

theorem folded_relatedField (rand : Option Bytes) : folded (relatedField (boundaryOf rand)) = true := by
  unfold relatedField
  rw [folded_field (by decide), List.append_assoc, folded_noBreaks_append (by unfold NoBreaks; decide),
    folded_noBreaks_append (noBreaks_boundaryOf rand)]
  decide

theorem folded_mixedField (rand : Option Bytes) : folded (mixedField (boundaryOf rand)) = true := by
  unfold mixedField
  rw [folded_field (by decide), List.append_assoc, folded_noBreaks_append (by unfold NoBreaks; decide),
    folded_noBreaks_append (noBreaks_boundaryOf rand)]
  decide

theorem folded_attachmentFields (m : WordEncoders) (att : Attachment) :
    (∀ f ∈ attachmentFields m att, folded f = true) ↔ folded att.contentType = true := by
  have hencoding : folded (field "Content-Transfer-Encoding" "base64".toList) = true := by decide
  have hdisposition :
      folded (field "Content-Disposition" ("attachment; ".toList ++ dispositionFilename att.filename)) = true := by
    rw [folded_field (by decide), folded_noBreaks_append (by unfold NoBreaks; decide)]
    exact (noBreaks_dispositionFilename _).folded
  unfold attachmentFields
  simp only [List.forall_mem_cons, folded_contentTypeField, hencoding, hdisposition, List.not_mem_nil,
    false_implies, implies_true, and_true]

theorem folded_inlineFields (m : WordEncoders) {att : Attachment} (h : validContentID att.contentID = true) :
    (∀ f ∈ inlineFields m att, folded f = true) ↔ folded att.contentType = true := by
  have hencoding : folded (field "Content-Transfer-Encoding" "base64".toList) = true := by decide
  have hid : folded (field "Content-ID" ('<' :: att.contentID ++ ['>'])) = true := by
    rw [folded_field (by decide), folded_bracketed]
    exact (noBreaks_validContentID h).folded
  have hdisposition :
      folded (field "Content-Disposition" ("inline; ".toList ++ dispositionFilename att.filename)) = true := by
    rw [folded_field (by decide), folded_noBreaks_append (by unfold NoBreaks; decide)]
    exact (noBreaks_dispositionFilename _).folded
  unfold inlineFields
  simp only [List.forall_mem_cons, folded_contentTypeField, hencoding, hid, hdisposition, List.not_mem_nil,
    false_implies, implies_true, and_true]

/-! ### Names -/

/-- The names in front of what every mail has. -/
def commonNames : List String :=
  ["From", "To", "Cc", "Subject", "Date", "Message-ID", "In-Reply-To", "References", "MIME-Version"]

theorem forall_commonFields {P : Text → Prop} (m : WordEncoders) (sender : Identity) (req : SendRequest)
    (messageID : Text) (date : LocalTime) (h : ∀ name ∈ commonNames, ∀ value, P (field name value)) :
    ∀ f ∈ commonFields m sender req messageID date, P f := by
  have hopt (name : String) (hname : name ∈ commonNames) (value : Option Text) (g : Text → Text) :
      ∀ f ∈ (value.map fun v => field name (g v)).toList, P f := by
    intro f hf
    obtain ⟨v, -, rfl⟩ := Option.map_eq_some_iff.mp (Option.mem_toList.mp hf)
    exact h name hname _
  have hif {l : List Text} {p : Prop} [Decidable p] (hl : ∀ f ∈ l, P f) : ∀ f ∈ if p then [] else l, P f := by
    intro f hf
    split at hf
    · exact absurd hf List.not_mem_nil
    · exact hl f hf
  have hone (name : String) (hname : name ∈ commonNames) (value : Text) : ∀ f ∈ [field name value], P f :=
    List.forall_mem_singleton.mpr (h name hname value)
  have hpair (name : String) (hname : name ∈ commonNames) (value : Text) {l : List Text} (hl : ∀ f ∈ l, P f) :
      ∀ f ∈ field name value :: l, P f := List.forall_mem_cons.mpr ⟨h name hname value, hl⟩
  unfold commonFields
  simp only [List.forall_mem_append]
  refine ⟨⟨⟨⟨⟨hpair "From" (by decide) _ (hone "To" (by decide) _), hif (hone "Cc" (by decide) _)⟩, ?_⟩,
    hif (hopt "In-Reply-To" (by decide) _ _)⟩, hif (hopt "References" (by decide) _ _)⟩,
    hone "MIME-Version" (by decide) _⟩
  exact hpair "Subject" (by decide) _ (hpair "Date" (by decide) _ (hone "Message-ID" (by decide) _))

theorem named_commonFields (m : WordEncoders) (sender : Identity) (req : SendRequest) (messageID : Text)
    (date : LocalTime) : ∀ f ∈ commonFields m sender req messageID date, Named f :=
  forall_commonFields m sender req messageID date fun _ hname value =>
    named_field (List.mem_append_left ["Content-Type", "Content-Transfer-Encoding", "Content-ID", "Content-Disposition"]
      hname) value

theorem named_htmlFields : ∀ f ∈ htmlFields, Named f := by
  unfold htmlFields
  simp only [List.forall_mem_cons]
  exact ⟨named_field (by decide) _, named_field (by decide) _, fun f hf => absurd hf List.not_mem_nil⟩

theorem named_attachmentFields (m : WordEncoders) (att : Attachment) : ∀ f ∈ attachmentFields m att, Named f := by
  unfold attachmentFields
  simp only [List.forall_mem_cons]
  exact ⟨named_field (by decide) _, named_field (by decide) _, named_field (by decide) _,
    fun f hf => absurd hf List.not_mem_nil⟩

theorem named_inlineFields (m : WordEncoders) (att : Attachment) : ∀ f ∈ inlineFields m att, Named f := by
  unfold inlineFields
  simp only [List.forall_mem_cons]
  exact ⟨named_field (by decide) _, named_field (by decide) _, named_field (by decide) _, named_field (by decide) _,
    fun f hf => absurd hf List.not_mem_nil⟩

/-! ### The mail -/

/-- What is built, and the fields of its sections. -/
inductive Built (m : WordEncoders) (common : List Text) (html : Text) (inline regular : List Attachment)
    (rand₁ rand₂ : Option Bytes) : Text → List (List Text) → Prop
  | html : inline = [] → regular = [] →
      Built m common html inline regular rand₁ rand₂ (writePart (common ++ htmlFields) (utf8 html))
        [common ++ htmlFields]
  | related : inline ≠ [] → regular = [] →
      Built m common html inline regular rand₁ rand₂ (writeRelated m (boundaryOf rand₁) common html inline)
        ((common ++ [relatedField (boundaryOf rand₁)]) :: htmlFields :: inline.map (inlineFields m))
  | mixed : inline = [] → regular ≠ [] →
      Built m common html inline regular rand₁ rand₂
        (Fields.write (common ++ [mixedField (boundaryOf rand₁)]) ++ crlf ++
          writeParts (boundaryOf rand₁) (writePart htmlFields (utf8 html) ::
            regular.map fun att => writePart (attachmentFields m att) att.content))
        ((common ++ [mixedField (boundaryOf rand₁)]) :: htmlFields :: regular.map (attachmentFields m))
  | nested : inline ≠ [] → regular ≠ [] →
      Built m common html inline regular rand₁ rand₂
        (Fields.write (common ++ [mixedField (boundaryOf rand₁)]) ++ crlf ++
          writeParts (boundaryOf rand₁) (writeRelated m (boundaryOf rand₂) [] html inline ::
            regular.map fun att => writePart (attachmentFields m att) att.content))
        ((common ++ [mixedField (boundaryOf rand₁)]) :: [relatedField (boundaryOf rand₂)] ::
          (htmlFields :: inline.map (inlineFields m) ++ regular.map (attachmentFields m)))

variable {sender : Identity} {req : SendRequest} {messageID : Text} {date : LocalTime} {rand₁ rand₂ : Option Bytes}

theorem built_of_ok {out : Text} (h : buildRFC5322 m sender req messageID date rand₁ rand₂ = .ok out) :
    Built m (commonFields m sender req messageID date) req.bodyHTML (splitAttachments req.attachments).1
      (splitAttachments req.attachments).2 rand₁ rand₂ out
      (sections m sender req messageID date (boundaryOf rand₁) (boundaryOf rand₂)) := by
  have hbind {rand : Option Bytes} {k : Text → Except Err Text}
      (h : (randomBoundary rand).bind k = .ok out) : k (boundaryOf rand) = .ok out := by
    cases hb : randomBoundary rand with
    | error e =>
        rw [hb] at h
        exact absurd h (by simp [Except.bind])
    | ok boundary =>
        rw [hb, boundary_of_randomBoundary hb] at h
        exact h
  unfold buildRFC5322 at h
  unfold sections
  simp only at h ⊢
  split at h
  · exact absurd h (by simp)
  · by_cases hregular : (splitAttachments req.attachments).2 = []
    · rw [if_pos hregular] at h ⊢
      by_cases hinline : (splitAttachments req.attachments).1 = []
      · rw [if_pos hinline] at h ⊢
        obtain rfl := Except.ok.inj h
        exact .html hinline hregular
      · rw [if_neg hinline] at h ⊢
        have hok := hbind h
        obtain rfl := Except.ok.inj hok
        exact .related hinline hregular
    · rw [if_neg hregular] at h ⊢
      have hrest := hbind h
      by_cases hinline : (splitAttachments req.attachments).1 = []
      · rw [if_pos hinline] at hrest ⊢
        obtain rfl := Except.ok.inj hrest
        exact .mixed hinline hregular
      · rw [if_neg hinline] at hrest ⊢
        have hok := hbind hrest
        obtain rfl := Except.ok.inj hok
        exact .nested hinline hregular

theorem validContentID_of_ok {out : Text} (h : buildRFC5322 m sender req messageID date rand₁ rand₂ = .ok out) :
    ∀ att ∈ (splitAttachments req.attachments).1, validContentID att.contentID = true := by
  unfold buildRFC5322 at h
  simp only at h
  split at h
  · exact absurd h (by simp)
  · rename_i hnone
    intro att hatt
    have hvalid := List.find?_eq_none.mp hnone att hatt
    simpa using hvalid

section Built

variable {common : List Text} {html out : Text} {inline regular : List Attachment} {secs : List (List Text)}

theorem named_of_built (hcommon : ∀ f ∈ common, Named f)
    (h : Built m common html inline regular rand₁ rand₂ out secs) : ∀ fs ∈ secs, ∀ f ∈ fs, Named f := by
  have hrelated (rand : Option Bytes) : Named (relatedField (boundaryOf rand)) := named_field (by decide) _
  have hmixed (rand : Option Bytes) : Named (mixedField (boundaryOf rand)) := named_field (by decide) _
  cases h with
  | html =>
      simp only [List.forall_mem_cons, List.forall_mem_append]
      exact ⟨⟨hcommon, named_htmlFields⟩, by simp⟩
  | related =>
      simp only [List.forall_mem_cons, List.forall_mem_append, List.forall_mem_map]
      exact ⟨⟨hcommon, hrelated rand₁, by simp⟩, named_htmlFields, fun att _ => named_inlineFields m att⟩
  | mixed =>
      simp only [List.forall_mem_cons, List.forall_mem_append, List.forall_mem_map]
      exact ⟨⟨hcommon, hmixed rand₁, by simp⟩, named_htmlFields, fun att _ => named_attachmentFields m att⟩
  | nested =>
      simp only [List.forall_mem_cons, List.forall_mem_append, List.forall_mem_map]
      exact ⟨⟨hcommon, hmixed rand₁, by simp⟩, ⟨hrelated rand₂, by simp⟩,
        ⟨named_htmlFields, fun att _ => named_inlineFields m att⟩, fun att _ => named_attachmentFields m att⟩

/-- **When all fields are folded.** -/
theorem folded_of_built (hids : ∀ att ∈ inline, validContentID att.contentID = true)
    (h : Built m common html inline regular rand₁ rand₂ out secs) :
    (∀ fs ∈ secs, ∀ f ∈ fs, folded f = true) ↔
      (∀ f ∈ common, folded f = true) ∧ (∀ att ∈ inline, folded att.contentType = true) ∧
        ∀ att ∈ regular, folded att.contentType = true := by
  have hinline : (∀ att ∈ inline, ∀ f ∈ inlineFields m att, folded f = true) ↔
      ∀ att ∈ inline, folded att.contentType = true :=
    forall₂_congr fun att hatt => folded_inlineFields m (hids att hatt)
  have hhtml := iff_true_intro folded_htmlFields
  cases h with
  | html hnoInline hnoRegular =>
      subst hnoInline hnoRegular
      simp only [List.forall_mem_cons, List.forall_mem_append, hhtml, List.not_mem_nil, false_implies, implies_true,
        and_true]
  | related _ hnoRegular =>
      subst hnoRegular
      simp only [List.forall_mem_cons, List.forall_mem_append, List.forall_mem_map, hinline, folded_relatedField,
        hhtml, List.not_mem_nil, false_implies, implies_true, and_true, true_and]
  | mixed hnoInline =>
      subst hnoInline
      simp only [List.forall_mem_cons, List.forall_mem_append, List.forall_mem_map, folded_attachmentFields,
        folded_mixedField, hhtml, List.not_mem_nil, false_implies, implies_true, and_true, true_and]
  | nested =>
      simp only [List.forall_mem_cons, List.forall_mem_append, List.forall_mem_map, hinline, folded_attachmentFields,
        folded_relatedField, folded_mixedField, hhtml, List.not_mem_nil, false_implies, implies_true, and_true,
        true_and]

theorem flatten_singletons {α β : Type} (g : α → β) (l : List α) : (l.map fun a => [g a]).flatten = l.map g := by
  rw [← List.flatMap_def]
  exact (List.map_eq_flatMap ..).symm

/-- **Folded fields are read.** -/
theorem reads_of_built {ds : List Text} (hds : ∀ d ∈ ds, d.count '-' = 2)
    (hfirst : delimiter (boundaryOf rand₁) ∈ ds) (hsecond : delimiter (boundaryOf rand₂) ∈ ds)
    (h : Built m common html inline regular rand₁ rand₂ out secs) (hw : ∀ fs ∈ secs, ∀ f ∈ fs, Writable f) :
    Reads ds out (secs.map fun fs => fs.map Fields.unfolded) := by
  cases h with
  | html => exact reads_writePart hds (hw _ List.mem_cons_self) _
  | related =>
      simp only [List.forall_mem_cons, List.forall_mem_map] at hw
      obtain ⟨hfields, hhtml, hinline⟩ := hw
      have hparts := reads_container hds hfirst hfields
        (List.Forall₂.cons (reads_writePart hds hhtml (utf8 html)) (reads_attachments hds inline hinline))
      rw [List.flatten_cons, flatten_singletons] at hparts
      simpa [writeRelated, Function.comp_def] using hparts
  | mixed =>
      simp only [List.forall_mem_cons, List.forall_mem_map] at hw
      obtain ⟨hfields, hhtml, hregular⟩ := hw
      have hparts := reads_container hds hfirst hfields
        (List.Forall₂.cons (reads_writePart hds hhtml (utf8 html)) (reads_attachments hds regular hregular))
      rw [List.flatten_cons, flatten_singletons] at hparts
      simpa [Function.comp_def] using hparts
  | nested =>
      obtain ⟨hfields, hw⟩ := List.forall_mem_cons.mp hw
      obtain ⟨hrelated, hw⟩ := List.forall_mem_cons.mp hw
      obtain ⟨hw, hregular⟩ := List.forall_mem_append.mp hw
      obtain ⟨hhtml, hinline⟩ := List.forall_mem_cons.mp hw
      rw [List.forall_mem_map] at hinline hregular
      have hinner := reads_container hds hsecond hrelated
        (List.Forall₂.cons (reads_writePart hds hhtml (utf8 html)) (reads_attachments hds inline hinline))
      have hparts := reads_container hds hfirst hfields
        (List.Forall₂.cons hinner (reads_attachments hds regular hregular))
      rw [List.flatten_cons, flatten_singletons, List.flatten_cons, flatten_singletons] at hparts
      simpa [writeRelated, Function.comp_def] using hparts

end Built

/-- What is written as it is given. -/
def verbatim (sender : Identity) (req : SendRequest) (messageID : Text) : List Text :=
  domainOf sender.address :: (req.toList ++ req.ccList).map domainOf ++
    messageID :: req.attachments.map Attachment.contentType

theorem folded_verbatim (m : WordEncoders) (date : LocalTime) :
    (∀ t ∈ verbatim sender req messageID, folded t = true) ↔
      (∀ f ∈ commonFields m sender req messageID date, folded f = true) ∧
        (∀ att ∈ (splitAttachments req.attachments).1, folded att.contentType = true) ∧
          ∀ att ∈ (splitAttachments req.attachments).2, folded att.contentType = true := by
  have hsplit : (∀ att ∈ req.attachments, folded att.contentType = true) ↔
      (∀ att ∈ (splitAttachments req.attachments).1, folded att.contentType = true) ∧
        ∀ att ∈ (splitAttachments req.attachments).2, folded att.contentType = true := by
    unfold splitAttachments
    simp only [List.mem_filter]
    refine ⟨fun h => ⟨fun att hatt => h att hatt.1, fun att hatt => h att hatt.1⟩, fun h att hatt => ?_⟩
    cases hinline : att.isInline with
    | true => exact h.1 att ⟨hatt, hinline⟩
    | false => exact h.2 att ⟨hatt, by rw [hinline]; rfl⟩
  rw [folded_commonFields, ← hsplit]
  unfold verbatim
  rw [List.cons_append, List.forall_mem_cons, List.forall_mem_append, List.forall_mem_cons, List.forall_mem_map,
    List.forall_mem_map]
  tauto

/-- **The fields of the mail and of its parts are read as they are meant just if what is written as it
is given is folded.** -/
theorem sections_read_iff {out : Text} (h : buildRFC5322 m sender req messageID date rand₁ rand₂ = .ok out) :
    Fields.read [delimiter (boundaryOf rand₁), delimiter (boundaryOf rand₂)] (some []) (Fields.lines out)
        = some ((sections m sender req messageID date (boundaryOf rand₁) (boundaryOf rand₂)).map fun fs =>
            fs.map Fields.unfolded) ↔
      ∀ t ∈ verbatim sender req messageID, folded t = true := by
  have hbuilt := built_of_ok h
  have hds : ∀ d ∈ [delimiter (boundaryOf rand₁), delimiter (boundaryOf rand₂)], d.count '-' = 2 :=
    List.forall_mem_cons.mpr ⟨count_delimiter rand₁, List.forall_mem_singleton.mpr (count_delimiter rand₂)⟩
  rw [folded_verbatim m date, ← folded_of_built (validContentID_of_ok h) hbuilt]
  refine ⟨Fields.folded_of_read, fun hfolded => ?_⟩
  have hnamed := named_of_built (named_commonFields m sender req messageID date) hbuilt
  have hreads := reads_of_built hds (by simp) (by simp) hbuilt fun fs hfs f hf =>
    (hnamed fs hfs f hf).writable (hfolded fs hfs f hf)
  have hend : Fields.read [delimiter (boundaryOf rand₁), delimiter (boundaryOf rand₂)] none (Fields.lines [])
      = some [] := rfl
  have hall := hreads []
  rw [List.append_nil, hend] at hall
  simpa using hall

/-- One word, as long as it is: what is printable as it is, and base64 for the others. -/
private def oneWord (s : Text) : Text :=
  if isASCII s then s else "=?UTF-8?b?".toList ++ encodeToString (utf8 s) ++ "?=".toList

private theorem folded_oneWord (s : Text) : folded (oneWord s) = true := by
  unfold oneWord
  split
  · rename_i h
    exact (noBreaks_isASCII h).folded
  · refine NoBreaks.folded (noBreaks_append_iff.mpr ⟨noBreaks_append_iff.mpr ⟨?_, ?_⟩, ?_⟩)
    · unfold NoBreaks
      decide
    · exact fun c hc => (base64_plain _ c hc).2
    · unfold NoBreaks
      decide

private def words : WordEncoders := ⟨oneWord, oneWord, folded_oneWord, folded_oneWord⟩

private def writer : Identity := ⟨"a@b.c".toList, []⟩

/-- A mail to one recipient, with one attachment. -/
private def mailTo (recipient contentType : String) : SendRequest :=
  ⟨[recipient.toList], [], "s".toList, "x".toList, [], [],
    [⟨"f".toList, contentType.toList, [1], []⟩]⟩

theorem sections_read_plain : ∃ out,
    buildRFC5322 words writer (mailTo "d@e.f" "text/plain") "1@b.c".toList ⟨0, true, 0⟩ (some [7]) none = .ok out ∧
      Fields.read [delimiter (boundaryOf (some [7])), delimiter (boundaryOf none)] (some []) (Fields.lines out)
        = some ((sections words writer (mailTo "d@e.f" "text/plain") "1@b.c".toList ⟨0, true, 0⟩
            (boundaryOf (some [7])) (boundaryOf none)).map fun fs => fs.map Fields.unfolded) :=
  ⟨_, rfl, (sections_read_iff rfl).mpr (by decide)⟩

/-- The fields that are found in a mail without inline attachments. -/
private def fieldsFound (req : SendRequest) : Option (List (List Text)) :=
  (buildRFC5322 words writer req "1@b.c".toList ⟨0, true, 0⟩ (some [7]) none).toOption.bind fun out =>
    Fields.read [delimiter (boundaryOf (some [7])), delimiter (boundaryOf none)] (some []) (Fields.lines out)

private def fieldsMeant (req : SendRequest) : List (List Text) :=
  (sections words writer req "1@b.c".toList ⟨0, true, 0⟩ (boundaryOf (some [7])) (boundaryOf none)).map fun fs =>
    fs.map Fields.unfolded

/-- A recipient and the type of an attachment that bring fields with them. -/
theorem recipient_brings_field :
    fieldsFound (mailTo "d@e.f\r\nBcc: g" "text/plain\r\nX-Y: z")
      = some [["From: <a@b.c>".toList, "To: <d@e.f".toList, "Bcc: g>".toList, "Subject: s".toList,
            "Date: Mon, 01 Jan 0001 00:00:00 +0000".toList, "Message-ID: <1@b.c>".toList,
            "MIME-Version: 1.0".toList, "Content-Type: multipart/mixed; boundary=\"flymail_07\"".toList],
          ["Content-Type: text/html; charset=UTF-8".toList, "Content-Transfer-Encoding: base64".toList],
          ["Content-Type: text/plain".toList, "X-Y: z; name=\"f\"".toList,
            "Content-Transfer-Encoding: base64".toList,
            "Content-Disposition: attachment; filename=\"f\"".toList]] ∧
      fieldsFound (mailTo "d@e.f\r\nBcc: g" "text/plain\r\nX-Y: z")
        ≠ some (fieldsMeant (mailTo "d@e.f\r\nBcc: g" "text/plain\r\nX-Y: z")) := by
  decide +kernel

end FlyMail.Send
