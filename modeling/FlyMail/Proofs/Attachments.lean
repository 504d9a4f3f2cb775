/-
What is attached to a mail is found in it.

The builder writes the name of an attachment twice, in the content type in quotes or in words, and in the
disposition in quotes or byte by byte.  The walk takes it from the disposition, so what becomes of the words
does not matter; quotes are left out of a name in ASCII, and inline attachments come before the others.

Which parts a mail has is what the standards say of it (`Mime.read`).  The library is one that finds them
(`Implements`): of values that are not well formed, such as a content type with words in it, it may make
what it likes.
-/
import FlyMail.Lib.Mime
import FlyMail.Proofs.Builder
import FlyMail.Proofs.Parts
import FlyMail.Send.DataUrl

namespace FlyMail.Send

open Fields (crlf NoBreaks)
open Mime (Lined IsField Leaf Quotable)

/-! ### Base64 -/

theorem base64Value_base64Char : ∀ n : Fin 64, base64Value (base64Char n.val) = some n.val ∧ base64Char n.val ≠ '=' := by
  decide +kernel

theorem ofNat_of_mod {n : Nat} {b : UInt8} (h : n % 256 = b.toNat) : UInt8.ofNat n = b := by
  rw [← UInt8.toNat_inj, ← h]
  simp

theorem decodeString_four {a b c d : Char} (hd : d ≠ '=') (rest : Text) :
    decodeString (a :: b :: c :: d :: rest) =
      (base64Value a).bind fun x => (base64Value b).bind fun y => (base64Value c).bind fun z =>
        (base64Value d).bind fun w => (decodeString rest).bind fun more =>
          some (UInt8.ofNat ((((x * 64 + y) * 64 + z) * 64 + w) / 65536) ::
            UInt8.ofNat ((((x * 64 + y) * 64 + z) * 64 + w) / 256) ::
              UInt8.ofNat (((x * 64 + y) * 64 + z) * 64 + w) :: more) := by
  rw [decodeString]
  · rfl
  · exact fun _ heq _ => hd heq
  · exact fun heq _ => hd heq

theorem decodeString_three {a b c : Char} (hc : c ≠ '=') :
    decodeString [a, b, c, '='] =
      (base64Value a).bind fun x => (base64Value b).bind fun y => (base64Value c).bind fun z =>
        some [UInt8.ofNat (((x * 64 + y) * 64 + z) / 1024), UInt8.ofNat (((x * 64 + y) * 64 + z) / 4)] := by
  rw [decodeString]
  · rfl
  · exact hc

theorem decodeString_two (a b : Char) :
    decodeString [a, b, '=', '='] =
      (base64Value a).bind fun x => (base64Value b).bind fun y => some [UInt8.ofNat ((x * 64 + y) / 16)] := by
  rw [decodeString]
  rfl

/-- **What is encoded in base64 is read back.** -/
theorem decodeString_encodeToString (data : Bytes) : decodeString (encodeToString data) = some data := by
  have hvalue {n : Nat} (h : n < 64) : base64Value (base64Char n) = some n ∧ base64Char n ≠ '=' :=
    base64Value_base64Char ⟨n, h⟩
  induction data using encodeToString.induct with
  | case1 a b c t ih =>
      have ha := a.toNat_lt
      have hb := b.toNat_lt
      have hc := c.toNat_lt
      simp only [encodeToString, List.cons_append, List.nil_append]
      rw [decodeString_four (hvalue (by omega)).2, (hvalue (by omega)).1, (hvalue (by omega)).1, (hvalue (by omega)).1,
        (hvalue (by omega)).1, ih]
      simp only [Option.bind_some]
      rw [ofNat_of_mod (b := a) (by omega), ofNat_of_mod (b := b) (by omega), ofNat_of_mod (b := c) (by omega)]
  | case2 a b =>
      have ha := a.toNat_lt
      have hb := b.toNat_lt
      simp only [encodeToString]
      rw [decodeString_three (hvalue (by omega)).2, (hvalue (by omega)).1, (hvalue (by omega)).1, (hvalue (by omega)).1]
      simp only [Option.bind_some]
      rw [ofNat_of_mod (b := a) (by omega), ofNat_of_mod (b := b) (by omega)]
  | case3 a =>
      have ha := a.toNat_lt
      simp only [encodeToString]
      rw [decodeString_two, (hvalue (by omega)).1, (hvalue (by omega)).1]
      simp only [Option.bind_some]
      rw [ofNat_of_mod (b := a) (by omega)]
  | case4 => rfl

/-! ### Names -/

/-- The name an attachment is sent with. -/
def sentName (s : Text) : Text := if isASCII s then dropQuotes s else s

theorem plain_byte : ∀ n : Fin 256, (isIDChar (Char.ofNat n.val) || "!#$&+-.^_`|~".toList.contains (Char.ofNat n.val)) = true →
    Mime.isToken (Char.ofNat n.val) = true ∧ Char.ofNat n.val ≠ '%' ∧ Utf8.encode [Char.ofNat n.val] = [UInt8.ofNat n.val] := by
  decide +kernel

theorem octets_pctEncode (s : Text) : Mime.octets (pctEncode s) = some (utf8 s) := by
  unfold pctEncode
  induction utf8 s with
  | nil => rfl
  | cons b bs ih =>
      rw [List.flatMap_cons]
      dsimp only
      split
      · rename_i hplain
        obtain ⟨htoken, hpercent, hbyte⟩ := plain_byte ⟨b.toNat, b.toNat_lt⟩ hplain
        rw [UInt8.ofNat_toNat] at hbyte
        rw [List.singleton_append, Mime.octets_plain htoken hpercent, ih, hbyte]
        rfl
      · show Mime.octets (Percent.escape b ++ _) = _
        rw [Mime.octets_escape, ih]
        rfl

theorem plain_pctEncode (s : Text) : ∀ c ∈ pctEncode s, Fields.isWSP c = false ∧ c ≠ ';' ∧ c ≠ '"' := by
  have hhex (n : Nat) : Fields.isWSP (hexDigit n) = false ∧ hexDigit n ≠ ';' ∧ hexDigit n ≠ '"' :=
    forall_getD (P := fun c => Fields.isWSP c = false ∧ c ≠ ';' ∧ c ≠ '"') (by decide) (by decide) n
  intro c hc
  obtain ⟨b, -, hc⟩ := List.mem_flatMap.mp hc
  dsimp only at hc
  split at hc
  · rename_i hplain
    rw [List.mem_singleton.mp hc]
    have htoken := (plain_byte ⟨b.toNat, b.toNat_lt⟩ hplain).1
    refine ⟨Mime.isWSP_of_isToken htoken, fun heq => ?_, fun heq => ?_⟩
    · rw [heq] at htoken
      cases htoken
    · rw [heq] at htoken
      cases htoken
  · rcases List.mem_cons.mp hc with rfl | hc
    · decide
    · rcases List.mem_cons.mp hc with rfl | hc
      · exact hhex _
      · rw [List.mem_singleton.mp hc]
        exact hhex _

/-! ### Fields -/

theorem token_of_names : ∀ name ∈ names, name.toList ≠ [] ∧ name.toList.all Mime.isToken = true ∧ NoBreaks name.toList ∧
    name.toList.head? ≠ some '-' := by
  unfold NoBreaks
  decide

theorem isField_of_named {f : Text} (h : Named f) (hf : Fields.folded f = true) : IsField f := by
  obtain ⟨name, hname, value, rfl⟩ := h
  obtain ⟨hne, htoken, -, -⟩ := token_of_names name hname
  refine ⟨hf, name.toList, ' ' :: value, ?_, hne, htoken⟩
  unfold field
  simp

/-- **What is read of a field.** -/
theorem get_field {name : String} (hname : name ∈ names) (value : Text) (fs : List Text) (key : Text) :
    Mime.get (Fields.unfolded (field name value) :: fs) key =
      if Mime.lower name.toList = key then some (Mime.trim (Fields.unfolded value)) else Mime.get fs key := by
  obtain ⟨-, htoken, hbreaks, -⟩ := token_of_names name hname
  have hunfolded : Fields.unfolded (field name value) = name.toList ++ ':' :: ' ' :: Fields.unfolded value := by
    have hcolon : NoBreaks ": ".toList := by
      unfold NoBreaks
      decide
    unfold field
    rw [List.append_assoc, Mime.unfolded_append hbreaks, Mime.unfolded_append hcolon]
    rfl
  rw [hunfolded, Mime.get_cons (Mime.not_mem_of_token htoken (by decide)), Mime.trim_blank (by decide)]

/-- What every mail has says nothing of its content. -/
theorem get_common {common : List Text} (hcommon : ∀ f ∈ common, ∃ name ∈ commonNames, ∃ value, f = field name value)
    (fs : List Text) {key : Text} (hkey : "content-".toList.isPrefixOf key = true) :
    Mime.get (common.map Fields.unfolded ++ fs) key = Mime.get fs key := by
  induction common with
  | nil => rfl
  | cons f common ih =>
      obtain ⟨name, hname, value, rfl⟩ := hcommon f List.mem_cons_self
      have hother : ∀ name ∈ commonNames, "content-".toList.isPrefixOf (Mime.lower name.toList) = false ∧ name ∈ names := by
        decide
      obtain ⟨hnot, hnames⟩ := hother name hname
      rw [List.map_cons, List.cons_append, get_field hnames, if_neg, ih fun g hg => hcommon g (List.mem_cons_of_mem _ hg)]
      rintro rfl
      rw [hnot] at hkey
      cases hkey

/-! ### Lines -/

/-- The lines of a part. -/
def partLines (fields : List Text) (content : Bytes) : List Text :=
  fields.flatMap Fields.lines ++ [] :: chunksOf 76 (encodeToString content)

/-- The lines of a container. -/
def containerLines (fields : List Text) (d : Text) (parts : List (List Text)) : List Text :=
  fields.flatMap Fields.lines ++ [] :: (parts.flatMap (d :: ·) ++ [d ++ "--".toList])

theorem plain_of_mem_chunksOf {data : Bytes} {l : Text} (hl : l ∈ chunksOf 76 (encodeToString data)) :
    ∀ c ∈ l, c ≠ '-' ∧ Fields.isBreak c = false :=
  fun c hc => base64_plain data c ((exists_mem_chunksOf (by decide)).mp ⟨l, hl, hc⟩)

theorem lined_fields {fields : List Text} (h : ∀ f ∈ fields, IsField f) :
    Lined (Fields.write fields ++ crlf) (fields.flatMap Fields.lines ++ [[]]) :=
  (Mime.lined_write h).append (Mime.lined_line (l := []) fun _ hc => absurd hc List.not_mem_nil)

theorem lined_writePart {fields : List Text} (h : ∀ f ∈ fields, IsField f) (content : Bytes) :
    Lined (writePart fields content) (partLines fields content) := by
  have hcontent : Lined (writeBase64Wrapped content) (chunksOf 76 (encodeToString content)) := by
    have hmap := Mime.lined_flatMap (f := fun l => l ++ crlf) (g := fun l => [l]) (chunksOf 76 (encodeToString content))
      fun l hl => Mime.lined_line fun c hc => (plain_of_mem_chunksOf hl c hc).2
    rwa [List.flatMap_singleton'] at hmap
  unfold partLines
  rw [List.append_cons]
  exact (lined_fields h).append hcontent

theorem lined_container {fields : List Text} (h : ∀ f ∈ fields, IsField f) (rand : Option Bytes)
    {ps : List Text} {parts : List (List Text)} (hparts : List.Forall₂ Lined ps parts) :
    Lined (Fields.write fields ++ crlf ++ writeParts (boundaryOf rand) ps)
      (containerLines fields (delimiter (boundaryOf rand)) parts) := by
  have hbreaks := noBreaks_delimiter rand
  have hclose : NoBreaks (delimiter (boundaryOf rand) ++ "--".toList) :=
    Fields.noBreaks_append_iff.mpr ⟨hbreaks, by unfold NoBreaks; decide⟩
  have hinner : Lined (writeParts (boundaryOf rand) ps)
      (parts.flatMap (delimiter (boundaryOf rand) :: ·) ++ [delimiter (boundaryOf rand) ++ "--".toList]) := by
    unfold writeParts
    rw [List.append_assoc, List.append_assoc, ← List.append_assoc (delimiter _)]
    refine Lined.append ?_ (Mime.lined_line hclose)
    induction hparts with
    | nil => exact Mime.lined_nil
    | cons hp _ ih =>
        rw [List.flatMap_cons, List.flatMap_cons]
        exact ((Mime.lined_line hbreaks).append hp).append ih
  unfold containerLines
  rw [List.append_cons]
  exact (lined_fields h).append hinner

/-! ### Parts -/

/-- Fields that can be written. -/
def Sendable (fields : List Text) : Prop := ∀ f ∈ fields, Named f ∧ Fields.folded f = true

theorem Sendable.isField {fields : List Text} (h : Sendable fields) : ∀ f ∈ fields, IsField f :=
  fun f hf => isField_of_named (h f hf).1 (h f hf).2

/-- A line that is not for a container. -/
def Indented (l : Text) : Prop := l.head? ≠ some '-'

theorem not_delimiter {l : Text} (h : Indented l) (boundary : Text) : (delimiter boundary).isPrefixOf l = false := by
  cases l with
  | nil => rfl
  | cons c l =>
      have hc : '-' ≠ c := fun heq => h (heq ▸ rfl)
      show ('-' == c && _) = false
      rw [beq_eq_false_iff_ne.mpr hc]
      rfl

theorem indented_fields {fields : List Text} (h : Sendable fields) : ∀ l ∈ fields.flatMap Fields.lines, Indented l := by
  intro l hl
  obtain ⟨f, hf, hl⟩ := List.mem_flatMap.mp hl
  obtain ⟨first, others, hlines⟩ := Mime.exists_fieldLines (h.isField f hf)
  rw [hlines.lines] at hl
  rcases List.mem_cons.mp hl with rfl | hl
  · unfold Indented
    rw [hlines.head]
    obtain ⟨name, hname, value, rfl⟩ := (h f hf).1
    obtain ⟨hne, -, -, hhead⟩ := token_of_names name hname
    obtain ⟨c, t, hname⟩ := List.exists_cons_of_ne_nil hne
    unfold field
    rw [hname] at hhead ⊢
    exact hhead
  · obtain ⟨-, w, x, rfl, hw⟩ := hlines.others l hl
    intro heq
    obtain rfl := Option.some.inj heq
    cases hw

theorem indented_partLines {fields : List Text} (h : Sendable fields) (content : Bytes) :
    ∀ l ∈ partLines fields content, Indented l := by
  intro l hl
  rcases List.mem_append.mp hl with hl | hl
  · exact indented_fields h l hl
  · rcases List.mem_cons.mp hl with rfl | hl
    · exact Option.some_ne_none _ ∘ Eq.symm
    · intro heq
      exact (plain_of_mem_chunksOf hl '-' (List.mem_of_mem_head? heq)).1 rfl

/-- The fields of a part with content. -/
structure IsPart (fields : List Text) : Prop where
  sendable : Sendable fields
  leaf : Mime.isContainer (fields.map Fields.unfolded) = false
  encoding : Mime.get (fields.map Fields.unfolded) "content-transfer-encoding".toList = some "base64".toList

/-- A part as it is read. -/
def leafOf (fields : List Text) (content : Bytes) : Leaf := ⟨fields.map Fields.unfolded, content⟩

theorem leaves_part {fields : List Text} (h : IsPart fields) (content : Bytes) {tail : List Text} (htail : tail.flatten = [])
    (depth : Nat) :
    Mime.leaves decodeString (depth + 1) (partLines fields content ++ tail) = some [leafOf fields content] := by
  unfold partLines
  rw [List.append_assoc, List.cons_append]
  refine Mime.leaves_leaf h.sendable.isField h.leaf ?_
  unfold Mime.decode
  rw [h.encoding]
  show (if _ then decodeString _ else _) = _
  rw [if_pos (by decide), List.flatten_append, flatten_chunksOf (by decide), htail, List.append_nil,
    decodeString_encodeToString]

/-! ### Containers -/

section Common

variable {common : List Text} (hcommon : ∀ f ∈ common, ∃ name ∈ commonNames, ∃ value, f = field name value)

include hcommon

theorem contentType_common (value : Text) (fs : List Text) :
    Mime.contentType ((common ++ field "Content-Type" value :: fs).map Fields.unfolded)
      = Mime.trim (Fields.unfolded value) := by
  unfold Mime.contentType
  rw [List.map_append, List.map_cons, get_common hcommon _ (by decide), get_field (by decide), if_pos (by decide)]
  rfl

theorem isPart_html (h : Sendable common) : IsPart (common ++ htmlFields) := by
  refine ⟨?_, ?_, ?_⟩
  · exact List.forall_mem_append.mpr ⟨h, fun f hf => ⟨named_htmlFields f hf, folded_htmlFields f hf⟩⟩
  · have htype := contentType_common hcommon "text/html; charset=UTF-8".toList
      [field "Content-Transfer-Encoding" "base64".toList]
    unfold Mime.isContainer
    show (_ : Text).isPrefixOf (Mime.kindOf (Mime.contentType ((common ++ field "Content-Type" _ :: _).map _))) = false
    rw [htype]
    decide
  · rw [List.map_append, get_common hcommon _ (by decide)]
    decide

/-- **The boundary of a container is read back.** -/
theorem delimiterOf_container {kind : Text} {ps : List (Text × Bytes)} (hps : Mime.params kind = some ps)
    (hno : "boundary".toList ∉ ps.map Prod.fst) (hkind : "multipart/".toList.isPrefixOf (Mime.kindOf kind) = true)
    (htight : Mime.Tight kind) (hbreaks : NoBreaks kind) (rand : Option Bytes) :
    let fields := (common ++ [field "Content-Type" (kind ++ "; boundary=\"".toList ++ boundaryOf rand ++ ['"'])]).map
      Fields.unfolded
    Mime.isContainer fields = true ∧ Mime.delimiterOf fields = some (delimiter (boundaryOf rand)) := by
  have htoken : ∀ c ∈ boundaryOf rand, Mime.isToken c = true := forall_boundaryOf (by decide) (by decide) rand
  have hquotable : Mime.Quotable (boundaryOf rand) :=
    forall_boundaryOf (by decide) (by decide) rand
  have hvalue : kind ++ "; boundary=\"".toList ++ boundaryOf rand ++ ['"'] =
      kind ++ ';' :: (' ' :: ("boundary".toList ++ '=' :: '"' :: (boundaryOf rand ++ ['"']))) := by
    simp
  have hall : NoBreaks (kind ++ "; boundary=\"".toList ++ boundaryOf rand ++ ['"']) := by
    simp only [Fields.noBreaks_append_iff]
    exact ⟨⟨⟨hbreaks, by unfold NoBreaks; decide⟩, noBreaks_boundaryOf rand⟩, Fields.noBreaks_singleton (by decide)⟩
  have htype : Mime.contentType ((common ++ [field "Content-Type" (kind ++ "; boundary=\"".toList ++ boundaryOf rand
      ++ ['"'])]).map Fields.unfolded) =
        kind ++ ';' :: (' ' :: ("boundary".toList ++ '=' :: '"' :: (boundaryOf rand ++ ['"']))) := by
    have hends : Mime.Tight (kind ++ ("; boundary=\"".toList ++ boundaryOf rand ++ ['"'])) := by
      refine htight.append fun c hc => ?_
      rw [List.getLast?_concat] at hc
      rw [← Option.some.inj hc]
      decide
    rw [← List.append_assoc, ← List.append_assoc, hvalue] at hends
    rw [contentType_common hcommon, Mime.unfolded_of_noBreaks hall, hvalue, Mime.trim_tight hends]
  have hname : Mime.IsName "boundary".toList := ⟨by decide, by decide, by decide⟩
  have hparams := Mime.params_quoted hps hname hquotable hno
  have hlookup : (ps ++ [(Mime.lower "boundary".toList, Utf8.encode (boundaryOf rand))]).lookup "boundary".toList
      = some (Utf8.encode (boundaryOf rand)) := by
    rw [List.lookup_append, List.lookup_eq_none_iff.mpr fun x hx => ?_]
    · rfl
    · rw [bne_iff_ne]
      exact fun heq => hno (heq ▸ List.mem_map_of_mem hx)
  dsimp only
  unfold Mime.isContainer Mime.delimiterOf
  rw [htype, hparams, Mime.kindOf_append]
  refine ⟨hkind, ?_⟩
  rw [Option.bind_some, hlookup, Option.bind_some, if_pos, Utf8.runes_encode]
  · rfl
  · rw [Utf8.runes_encode]
    refine ⟨fun hnil => ?_, List.all_eq_true.mpr htoken⟩
    have hrunes := Utf8.runes_encode (boundaryOf rand)
    rw [hnil] at hrunes
    exact absurd hrunes.symm (List.append_ne_nil_of_left_ne_nil (by decide) _)

end Common

/-! ### Attachments -/

/-- A content type as it should be given. -/
structure WellFormed (t : Text) : Prop where
  params : ∃ ps, Mime.params t = some ps
  tight : Mime.Tight t
  noBreaks : NoBreaks t

/-- What is asked of an attachment: a type under which a reader gives the content as it is and does not
take it for the text of the mail, and a name that can stand in quotes. -/
structure Fit (att : Attachment) : Prop where
  type : WellFormed (contentTypeOrDefault att)
  leaf : "multipart/".toList.isPrefixOf (Mime.kindOf (contentTypeOrDefault att)) = false
  utf8 : Mime.isUtf8 (contentTypeOrDefault att) = true
  noText : att.isInline = true → ¬ "text/plain".toList <+: Mime.kindOf (contentTypeOrDefault att) ∧
    ¬ "text/html".toList <+: Mime.kindOf (contentTypeOrDefault att)
  printable : ∀ c ∈ att.filename, 0x20 ≤ c.toNat ∧ c.toNat ≠ 0x7f
  noSlash : isASCII att.filename = true → '\\' ∉ att.filename
  named : sentName att.filename = [] → att.isInline = true →
    ∀ ps, Mime.params (contentTypeOrDefault att) = some ps → "name".toList ∉ ps.map Prod.fst

/-- Characters that are not ASCII are written in words. -/
def WordEncoders.Encodes (m : WordEncoders) : Prop :=
  ∀ s, (∃ c ∈ s, 0x7e < c.toNat) → ∃ t, m.bEncode s = "=?".toList ++ t ∧ ∀ c ∈ t, c ≠ ';' ∧ c ≠ '"'

theorem quotable_dropQuotes {s : Text} (h : '\\' ∉ s) : Quotable (dropQuotes s) := by
  intro c hc
  obtain ⟨hmem, hquote⟩ := List.mem_filter.mp hc
  refine ⟨by simpa using hquote, ?_⟩
  rintro rfl
  exact h hmem

theorem exists_beyond {s : Text} (hs : isASCII s = false) (hprintable : ∀ c ∈ s, 0x20 ≤ c.toNat ∧ c.toNat ≠ 0x7f) :
    ∃ c ∈ s, 0x7e < c.toNat := by
  unfold isASCII at hs
  obtain ⟨c, hc, hnot⟩ := List.all_eq_false.mp hs
  have hlow := (hprintable c hc).1
  refine ⟨c, hc, ?_⟩
  simp only [Bool.and_eq_true, decide_eq_true_eq] at hnot
  omega

/-- The name as a parameter of the content type: a reader has it in one piece, whatever it makes of it. -/
structure NamePiece (att : Attachment) (p : Text) : Prop where
  piece : Mime.pieces .outside p = [p]
  name : ∀ x, Mime.param p = some x → x.1 = "name".toList
  quoted : isASCII att.filename = true →
    p = ' ' :: ("name".toList ++ '=' :: '"' :: (dropQuotes att.filename ++ ['"']))

section Attachment

variable {m : WordEncoders} (hm : m.Encodes) {att : Attachment} (hatt : Fit att)

include hm hatt

/-- **The content type of an attachment, as it is read.** -/
theorem exists_type (fs : List Text) : ∃ p, NamePiece att p ∧
    Mime.contentType ((contentTypeField m att :: fs).map Fields.unfolded) = contentTypeOrDefault att ++ ';' :: p := by
  have hbreaks : NoBreaks (contentTypeOrDefault att ++ "; name=".toList) :=
    Fields.noBreaks_append_iff.mpr ⟨hatt.type.noBreaks, by unfold NoBreaks; decide⟩
  have hread : Mime.contentType ((contentTypeField m att :: fs).map Fields.unfolded)
      = Mime.trim (contentTypeOrDefault att ++ "; name=".toList ++ Fields.unfolded (encodeParamValue m att.filename)) := by
    have hnone : ∀ f ∈ ([] : List Text), ∃ name ∈ commonNames, ∃ value, f = field name value :=
      fun f hf => absurd hf List.not_mem_nil
    have hcommon := contentType_common hnone
      (contentTypeOrDefault att ++ "; name=".toList ++ encodeParamValue m att.filename) fs
    rw [List.nil_append, Mime.unfolded_append hbreaks] at hcommon
    exact hcommon
  have hname : Mime.IsName "name".toList := ⟨by decide, by decide, by decide⟩
  have hstart : Mime.Tight (contentTypeOrDefault att ++ "; name=".toList) :=
    hatt.type.tight.append (by decide)
  cases hascii : isASCII att.filename with
  | true =>
      have hquotable := quotable_dropQuotes (hatt.noSlash hascii)
      have hvalue : contentTypeOrDefault att ++ "; name=".toList ++ ('"' :: dropQuotes att.filename ++ ['"'])
          = contentTypeOrDefault att ++ ';' :: ' ' :: ("name".toList ++ '=' :: '"' :: (dropQuotes att.filename ++ ['"'])) := by
        simp
      have htight : Mime.Tight (contentTypeOrDefault att ++ "; name=".toList ++ ('"' :: dropQuotes att.filename ++ ['"'])) := by
        refine hstart.append fun c hc => ?_
        rw [List.getLast?_concat] at hc
        rw [← Option.some.inj hc]
        decide
      refine ⟨' ' :: ("name".toList ++ '=' :: '"' :: (dropQuotes att.filename ++ ['"'])), ⟨?_, ?_, fun _ => rfl⟩, ?_⟩
      · exact (Mime.piece_quoted hname.token hquotable).1
      · exact fun x hx => Mime.param_name hname hx
      · have hnoBreaks : NoBreaks (encodeParamValue m att.filename) := by
          unfold encodeParamValue
          rw [hascii, if_pos rfl]
          refine Fields.noBreaks_append_iff.mpr ⟨Fields.noBreaks_cons_iff.mpr ⟨by decide, ?_⟩,
            Fields.noBreaks_singleton (by decide)⟩
          exact noBreaks_dropQuotes (noBreaks_isASCII hascii)
        rw [hread, Mime.unfolded_of_noBreaks hnoBreaks]
        unfold encodeParamValue
        rw [hascii, if_pos rfl, Mime.trim_tight htight, hvalue]
  | false =>
      obtain ⟨t, ht, hplain⟩ := hm att.filename (exists_beyond hascii hatt.printable)
      have hword : Mime.Tight (contentTypeOrDefault att ++ "; name=".toList ++ "=?".toList) := hstart.append (by decide)
      have hmem {c : Char} (hc : c ∈ (Fields.unfolded t).rdropWhile Fields.isWSP) : c ≠ ';' ∧ c ≠ '"' :=
        hplain c (Mime.mem_of_mem_unfolded ((List.rdropWhile_prefix Fields.isWSP _).subset hc))
      refine ⟨' ' :: ("name".toList ++ '=' :: ("=?".toList ++ (Fields.unfolded t).rdropWhile Fields.isWSP)),
        ⟨?_, ?_, fun h => ?_⟩, ?_⟩
      · have hall : ∀ c ∈ " name==?".toList ++ (Fields.unfolded t).rdropWhile Fields.isWSP, c ≠ ';' ∧ c ≠ '"' :=
          List.forall_mem_append.mpr ⟨by decide, fun c hc => hmem hc⟩
        have hpieces := Mime.pieces_plain hall (show Mime.pieces .outside [] = [] :: [] from rfl)
        rw [List.append_nil] at hpieces
        exact hpieces
      · exact fun x hx => Mime.param_name hname hx
      · rw [hascii] at h
        cases h
      · have hnoBreaks : NoBreaks "=?".toList := by
          unfold NoBreaks
          decide
        rw [hread]
        unfold encodeParamValue
        rw [hascii, if_neg Bool.false_ne_true, ht, Mime.unfolded_append hnoBreaks, ← List.append_assoc,
          Mime.trim_append hword]
        simp

theorem kind_type (fs : List Text) :
    Mime.kindOf (Mime.contentType ((contentTypeField m att :: fs).map Fields.unfolded))
      = Mime.kindOf (contentTypeOrDefault att) := by
  obtain ⟨p, -, hp⟩ := exists_type hm hatt fs
  rw [hp, Mime.kindOf_append]

theorem isUtf8_type (fs : List Text) :
    Mime.isUtf8 (Mime.contentType ((contentTypeField m att :: fs).map Fields.unfolded)) = true := by
  obtain ⟨p, hpiece, hp⟩ := exists_type hm hatt fs
  obtain ⟨ps, hps⟩ := hatt.type.params
  rw [hp, Mime.isUtf8_append hps hpiece.piece fun x hx => ?_]
  · exact hatt.utf8
  · rw [hpiece.name x hx]
    decide

/-- The fields of an attachment are those of a part with content. -/
theorem isPart_attachment {fs : List Text}
    (h : Sendable (contentTypeField m att :: field "Content-Transfer-Encoding" "base64".toList :: fs)) :
    IsPart (contentTypeField m att :: field "Content-Transfer-Encoding" "base64".toList :: fs) := by
  refine ⟨h, ?_, ?_⟩
  · unfold Mime.isContainer
    rw [kind_type hm hatt]
    exact hatt.leaf
  · unfold contentTypeField
    rw [List.map_cons, List.map_cons, get_field (by decide), if_neg (by decide), get_field (by decide),
      if_pos (by decide)]
    decide

end Attachment

/-- **The name in the disposition is the one the attachment is sent with.** -/
theorem params_disposition {kind name : Text} (hkind : Mime.params kind = some []) (htight : Mime.Tight kind)
    (hbreaks : NoBreaks kind) (hslash : isASCII name = true → '\\' ∉ name) :
    let d := Mime.trim (Fields.unfolded (kind ++ "; ".toList ++ dispositionFilename name))
    Mime.kindOf d = Mime.kindOf kind ∧ Mime.params d = some [("filename".toList, utf8 (sentName name))] := by
  have hname : Mime.IsName "filename".toList := ⟨by decide, by decide, by decide⟩
  have hfilename : Mime.lower "filename".toList = "filename".toList := by decide
  have hunfolded : Fields.unfolded (kind ++ "; ".toList ++ dispositionFilename name)
      = kind ++ "; ".toList ++ dispositionFilename name := by
    refine Mime.unfolded_of_noBreaks (Fields.noBreaks_append_iff.mpr ⟨?_, noBreaks_dispositionFilename name⟩)
    exact Fields.noBreaks_append_iff.mpr ⟨hbreaks, by unfold NoBreaks; decide⟩
  dsimp only
  rw [hunfolded]
  unfold dispositionFilename sentName
  split
  · rename_i hascii
    have hvalue : kind ++ "; ".toList ++ ("filename=\"".toList ++ dropQuotes name ++ ['"'])
        = kind ++ ';' :: ' ' :: ("filename".toList ++ '=' :: '"' :: (dropQuotes name ++ ['"'])) := by simp
    have hends : Mime.Tight (kind ++ ("; filename=\"".toList ++ dropQuotes name ++ ['"'])) := by
      refine htight.append fun c hc => ?_
      rw [List.getLast?_concat] at hc
      rw [← Option.some.inj hc]
      decide
    have hsplit : kind ++ ("; filename=\"".toList ++ dropQuotes name ++ ['"'])
        = kind ++ ';' :: ' ' :: ("filename".toList ++ '=' :: '"' :: (dropQuotes name ++ ['"'])) := by simp
    rw [hsplit] at hends
    rw [hvalue, Mime.trim_tight hends, Mime.kindOf_append,
      Mime.params_quoted hkind hname (quotable_dropQuotes (hslash hascii)) List.not_mem_nil, hfilename]
    exact ⟨rfl, rfl⟩
  · have hvalue : kind ++ "; ".toList ++ ("filename*=UTF-8''".toList ++ pctEncode name)
        = kind ++ ';' :: ' ' :: ("filename".toList ++ '*' :: '=' :: ("UTF-8''".toList ++ pctEncode name)) := by simp
    have hends : Mime.Tight (kind ++ "; filename*=UTF-8''".toList ++ pctEncode name) := by
      refine (htight.append (by decide)).append fun c hc => (plain_pctEncode name c (List.mem_of_getLast? hc)).1
    have hsplit : kind ++ "; filename*=UTF-8''".toList ++ pctEncode name
        = kind ++ ';' :: ' ' :: ("filename".toList ++ '*' :: '=' :: ("UTF-8''".toList ++ pctEncode name)) := by simp
    rw [hsplit] at hends
    rw [hvalue, Mime.trim_tight hends, Mime.kindOf_append,
      Mime.params_extended hkind hname.token (octets_pctEncode name) (plain_pctEncode name) List.not_mem_nil, hfilename]
    exact ⟨rfl, rfl⟩

/-! ### Headers -/

open Parser (PartHeader Header Item Reader GoMessage)

/-- The library finds the same parameters. -/
def Agrees (ps : List (Text × Bytes)) (found : Option (List (Bytes × Bytes))) : Prop :=
  ∃ l, found = some l ∧ ∀ name, l.lookup (utf8 name) = ps.lookup name

/-- What the library makes of the fields of a part.  If a value is not well formed, what it makes of its
parameters is its own. -/
structure HeaderOf (fields : List Text) (header : Header) : Prop where
  type : header.fields.contentType = utf8 (Mime.kindOf (Mime.contentType fields)) ∨
    header.fields.contentType = utf8 (Mime.contentType fields)
  wellFormed : ∀ ps, Mime.params (Mime.contentType fields) = some ps →
    header.fields.contentType = utf8 (Mime.kindOf (Mime.contentType fields)) ∧ Agrees ps header.fields.typeParams
  contentID : header.fields.contentID = utf8 ((Mime.get fields "content-id".toList).getD [])
  undisposed : Mime.get fields "content-disposition".toList = none →
    "text/".toList <+: Mime.kindOf (Mime.contentType fields) → header.isInline = true
  disposition : ∀ d ps, Mime.get fields "content-disposition".toList = some d → Mime.params d = some ps →
    Agrees ps header.fields.dispositionParams ∧
      (∀ filename, ps.lookup "filename".toList = some filename → header.fields.filename = filename) ∧
      (Mime.kindOf d = "inline".toList → header.isInline = true) ∧
      (Mime.kindOf d = "attachment".toList → header.isInline = false)

/-- The part that is found for a leaf. -/
def Found (leaf : Leaf) (item : Item) : Prop :=
  ∃ header, item = .part header leaf.content false ∧ HeaderOf leaf.fields header

/-- **A library that reads mails**: of a mail whose parts are certain, and whose texts are in UTF-8, it gives
the parts in their order. -/
structure Implements {S : Type} (g : GoMessage) (r : Reader S) (start : Bytes → S) : Prop where
  created : ∀ t leaves, Mime.read decodeString t = some leaves →
    (∀ leaf ∈ leaves, Mime.isUtf8 (Mime.contentType leaf.fields) = true) →
      g.createReader (Parser.headerLines (utf8 t)) = .reader
  items : ∀ t leaves, Mime.read decodeString t = some leaves →
    (∀ leaf ∈ leaves, Mime.isUtf8 (Mime.contentType leaf.fields) = true) →
      ∃ items, List.Forall₂ Found leaves items ∧ r.items (leaves.length + 1) (start (utf8 t)) = items ++ [.eof]

/-! ### What is found -/

/-- ASCII at the beginning of a text's bytes is at the beginning of the text. -/
theorem prefix_of_hasPrefix {p t : Text} (hp : ∀ c ∈ p, c.toNat < 0x80) (h : Parser.hasPrefix (utf8 t) p = true) :
    p <+: t := by
  obtain ⟨rest, hrest⟩ := List.isPrefixOf_iff_prefix.mp h
  have hruns := Utf8.runes_append p rest
  rw [Utf8.encode_of_ascii hp] at hruns
  have ht : Utf8.runes (utf8 t) = t := Utf8.runes_encode t
  rw [← hrest] at ht
  exact ⟨_, hruns.symm.trans ht⟩

theorem isIDChar_ascii {c : Char} (h : isIDChar c = true) : c.toNat < 0x80 := by
  unfold isIDChar at h
  simp only [Bool.or_eq_true, Bool.and_eq_true, decide_eq_true_eq] at h
  have hle {d : Char} (hd : c ≤ d) : c.toNat ≤ d.toNat := UInt32.le_iff_toNat_le.mp hd
  rcases h with (⟨-, h⟩ | ⟨-, h⟩) | ⟨-, h⟩
  · exact Nat.lt_of_le_of_lt (hle h) (by decide)
  · exact Nat.lt_of_le_of_lt (hle h) (by decide)
  · exact Nat.lt_of_le_of_lt (hle h) (by decide)

theorem trim_bracketed {bs : Bytes} (hne : bs ≠ []) (h : ∀ b ∈ bs, ("<>".toList.map Parser.byte).contains b = false) :
    Parser.trim (Parser.byte '<' :: bs ++ [Parser.byte '>']) "<>".toList = bs := by
  obtain ⟨b, rest, rfl⟩ := List.exists_cons_of_ne_nil hne
  have hfirst := h b List.mem_cons_self
  have hdrop : (Parser.byte '<' :: (b :: rest) ++ [Parser.byte '>']).dropWhile (fun c => ("<>".toList.map Parser.byte).contains c)
      = (b :: rest) ++ [Parser.byte '>'] := by
    rw [List.cons_append, List.dropWhile_cons_of_pos (by decide), List.cons_append,
      List.dropWhile_cons_of_neg (by rw [hfirst]; decide)]
  unfold Parser.trim
  dsimp only
  rw [hdrop, List.reverse_append, List.reverse_singleton, List.singleton_append, List.dropWhile_cons_of_pos (by decide)]
  obtain ⟨init, d, hd⟩ := List.eq_nil_or_concat' (b :: rest) |>.resolve_left hne
  have hlast := h d (hd ▸ by simp)
  rw [hd, List.reverse_append, List.reverse_singleton, List.singleton_append,
    List.dropWhile_cons_of_neg (by rw [hlast]; decide)]
  simp

/-- The content id, read without its brackets. -/
theorem cid_bracketed {id : Text} (h : validContentID id = true) {header : PartHeader}
    (hid : header.contentID = utf8 ('<' :: id ++ ['>'])) : header.cid = utf8 id := by
  unfold validContentID at h
  simp only [Bool.and_eq_true, bne_iff_ne, List.all_eq_true] at h
  obtain ⟨⟨hne, -⟩, hall⟩ := h
  have hascii : ∀ c ∈ id, c.toNat < 0x80 := by
    intro c hc
    rcases Bool.or_eq_true_iff.mp (hall c hc) with hc | hc
    · exact isIDChar_ascii hc
    · exact (show ∀ c ∈ "._-".toList, c.toNat < 0x80 by decide) c (List.contains_iff_mem.mp hc)
  have hbytes : utf8 id = id.map Parser.byte := Utf8.encode_of_ascii hascii
  have hsplit : utf8 ('<' :: id ++ ['>']) = Parser.byte '<' :: utf8 id ++ [Parser.byte '>'] := by
    rw [← List.singleton_append]
    show Utf8.encode _ = _
    rw [Utf8.encode_append, Utf8.encode_append]
    rfl
  unfold PartHeader.cid
  rw [hid, hsplit]
  refine trim_bracketed (by rw [hbytes]; simpa using hne) fun b hb => ?_
  rw [hbytes] at hb
  obtain ⟨c, hc, rfl⟩ := List.mem_map.mp hb
  have hother {d : Char} (hd : d.toNat < 0x80) (heq : Parser.byte c = Parser.byte d) : c = d := by
    have hnat : c.toNat = d.toNat := by
      have hc' := Utf8.toNat_ofNat (show c.toNat < 256 by have := hascii c hc; omega)
      have hd' := Utf8.toNat_ofNat (show d.toNat < 256 by omega)
      rw [← hc', ← hd']
      exact congrArg UInt8.toNat heq
    rw [← Char.ofNat_toNat c, hnat, Char.ofNat_toNat]
  rw [← Bool.not_eq_true]
  intro hmem
  obtain ⟨d, hd, heq⟩ := List.mem_map.mp (List.contains_iff_mem.mp hmem)
  have hcd : c = d := hother ((show ∀ d ∈ "<>".toList, d.toNat < 0x80 by decide) d hd) heq.symm
  have hnot : ∀ d ∈ "<>".toList, (isIDChar d || "._-".toList.contains d) = false := by decide
  rw [hcd] at hc
  have htrue := hall d hc
  rw [hnot d hd] at htrue
  cases htrue

section Found

variable {m : WordEncoders} (hm : m.Encodes) {att : Attachment} (hatt : Fit att)

/-- What is found of an attachment. -/
def IsAttachment (att : Attachment) (item : Item) : Prop :=
  (∃ contentType, item.attachment true = some {
    filename := utf8 (sentName att.filename)
    contentType := contentType
    contentID := utf8 att.contentID
    isInline := att.isInline
    size := att.content.length
    content := att.content
    err := false }) ∧ item.isPart = true ∧ item.body PartHeader.isHtml = none

theorem eq_inline {header : Header} (h : header.isInline = true) : ∃ p, header = .inline p := by
  cases header with
  | inline p => exact ⟨p, rfl⟩
  | attachment p => cases h

theorem eq_attachment {header : Header} (h : header.isInline = false) : ∃ p, header = .attachment p := by
  cases header with
  | inline p => cases h
  | attachment p => exact ⟨p, rfl⟩

theorem lookup_filename {ps : List (Text × Bytes)} {found : Option (List (Bytes × Bytes))} (h : Agrees ps found)
    (name : String) (hname : ∀ c ∈ name.toList, c.toNat < 0x80) :
    (found.bind fun params => params.lookup (name.toList.map Parser.byte)) = ps.lookup name.toList := by
  obtain ⟨l, rfl, hl⟩ := h
  rw [Option.bind_some, ← hl]
  show _ = l.lookup (Utf8.encode _)
  rw [Utf8.encode_of_ascii hname]
  rfl

include hm hatt

/-- An inline attachment is not taken for text. -/
theorem not_text {fs : List Text} {header : PartHeader} (hinline : att.isInline = true)
    (h : HeaderOf ((contentTypeField m att :: fs).map Fields.unfolded) (.inline header)) :
    header.isPlain = false ∧ header.isHtml = false := by
  have hkind := kind_type hm hatt fs
  obtain ⟨hplain, hhtml⟩ := hatt.noText hinline
  have hnot {p : Text} (hp : Mime.Tight p) (hsemicolon : ';' ∉ p) (hlower : Mime.lower p = p)
      (hascii : ∀ c ∈ p, c.toNat < 0x80) (hno : ¬ p <+: Mime.kindOf (contentTypeOrDefault att)) :
      Parser.hasPrefix header.contentType p = false := by
    rw [← Bool.not_eq_true]
    intro hprefix
    rw [← hkind] at hno
    rcases h.type with htype | htype
    · refine hno (prefix_of_hasPrefix hascii ?_)
      rw [← htype]
      exact hprefix
    · refine hno (Mime.prefix_kindOf hp hsemicolon hlower (prefix_of_hasPrefix hascii ?_))
      rw [← htype]
      exact hprefix
  exact ⟨hnot ⟨by decide, by decide, by decide⟩ (by decide) (by decide) (by decide) hplain,
    hnot ⟨by decide, by decide, by decide⟩ (by decide) (by decide) (by decide) hhtml⟩

/-- Without a name in the disposition there is none in the type. -/
theorem name_of_nameless {fs : List Text} {header : Header} (hempty : sentName att.filename = [])
    (hinline : att.isInline = true) (h : HeaderOf ((contentTypeField m att :: fs).map Fields.unfolded) header) :
    ((header.fields.typeParams.bind fun params => params.lookup ("name".toList.map Parser.byte)).getD []) = [] := by
  obtain ⟨ps, hps⟩ := hatt.type.params
  have hno := hatt.named hempty hinline ps hps
  have hascii : isASCII att.filename = true := by
    cases hascii : isASCII att.filename with
    | true => rfl
    | false =>
        unfold sentName at hempty
        rw [hascii, if_neg Bool.false_ne_true] at hempty
        rw [hempty] at hascii
        cases hascii
  have hquotes : dropQuotes att.filename = [] := by
    unfold sentName at hempty
    rwa [hascii, if_pos rfl] at hempty
  obtain ⟨p, hpiece, hp⟩ := exists_type hm hatt fs
  have hname : Mime.IsName "name".toList := ⟨by decide, by decide, by decide⟩
  have hparams := Mime.params_quoted hps hname (s := []) (fun c hc => absurd hc List.not_mem_nil) hno
  have htype : Mime.contentType ((contentTypeField m att :: fs).map Fields.unfolded)
      = contentTypeOrDefault att ++ ';' :: ' ' :: ("name".toList ++ '=' :: '"' :: ([] ++ ['"'])) := by
    rw [hp, hpiece.quoted hascii, hquotes]
  rw [← htype] at hparams
  have hagrees := (h.wellFormed _ hparams).2
  rw [lookup_filename hagrees "name" (by decide), List.lookup_append, List.lookup_eq_none_iff.mpr fun x hx => ?_]
  · rfl
  · rw [bne_iff_ne]
    exact fun heq => hno (heq ▸ List.mem_map_of_mem hx)

/-- **An inline attachment is found.** -/
theorem found_inline (hinline : att.isInline = true) (hid : validContentID att.contentID = true) {item : Item}
    (h : Found (leafOf (inlineFields m att) att.content) item) : IsAttachment att item := by
  obtain ⟨header, rfl, hheader⟩ := h
  have hdisposition : Mime.get ((inlineFields m att).map Fields.unfolded) "content-disposition".toList
      = some (Mime.trim (Fields.unfolded ("inline".toList ++ "; ".toList ++ dispositionFilename att.filename))) := by
    unfold inlineFields contentTypeField
    rw [List.map_cons, List.map_cons, List.map_cons, List.map_cons, get_field (by decide), if_neg (by decide),
      get_field (by decide), if_neg (by decide), get_field (by decide), if_neg (by decide), get_field (by decide),
      if_pos (by decide)]
    rfl
  have hcid : Mime.get ((inlineFields m att).map Fields.unfolded) "content-id".toList
      = some ('<' :: att.contentID ++ ['>']) := by
    have hbreaks : NoBreaks ('<' :: att.contentID ++ ['>']) :=
      Fields.noBreaks_append_iff.mpr ⟨Fields.noBreaks_cons_iff.mpr ⟨by decide, noBreaks_validContentID hid⟩,
        Fields.noBreaks_singleton (by decide)⟩
    have htight : Mime.Tight ('<' :: att.contentID ++ ['>']) := by
      refine ⟨by simp, ?_, ?_⟩
      · intro c hc
        rw [← Option.some.inj hc]
        decide
      · intro c hc
        rw [List.getLast?_concat] at hc
        rw [← Option.some.inj hc]
        decide
    unfold inlineFields contentTypeField
    rw [List.map_cons, List.map_cons, List.map_cons, get_field (by decide), if_neg (by decide), get_field (by decide),
      if_neg (by decide), get_field (by decide), if_pos (by decide), Mime.unfolded_of_noBreaks hbreaks,
      Mime.trim_tight htight]
  have hnoParams : Mime.params "inline".toList = some [] := by decide
  obtain ⟨hkind, hparams⟩ := params_disposition hnoParams ⟨by decide, by decide, by decide⟩
    (by unfold NoBreaks; decide) hatt.noSlash
  obtain ⟨hagrees, -, hisInline, -⟩ := hheader.disposition _ _ hdisposition hparams
  obtain ⟨part, rfl⟩ := eq_inline (hisInline (hkind.trans (by decide)))
  have hid' : part.cid = utf8 att.contentID := by
    refine cid_bracketed hid ?_
    have hfound := hheader.contentID
    rw [show (leafOf (inlineFields m att) att.content).fields = (inlineFields m att).map Fields.unfolded from rfl, hcid]
      at hfound
    exact hfound
  have hfilename : Parser.inlineFilename part = utf8 (sentName att.filename) := by
    obtain ⟨l, hl, hlookup⟩ := hagrees
    have hbytes : "filename".toList.map Parser.byte = utf8 "filename".toList := by decide
    have hfound : l.lookup ("filename".toList.map Parser.byte) = some (utf8 (sentName att.filename)) := by
      rw [hbytes, hlookup]
      rfl
    unfold Parser.inlineFilename
    rw [show part.dispositionParams = some l from hl]
    dsimp only
    rw [hfound]
    dsimp only
    by_cases hempty : sentName att.filename = []
    · rw [hempty]
      exact (if_pos rfl).trans (name_of_nameless hm hatt hempty hinline hheader)
    · refine if_neg fun hnil => hempty ?_
      have hrunes : Utf8.runes (utf8 (sentName att.filename)) = sentName att.filename := Utf8.runes_encode _
      rw [hnil] at hrunes
      exact hrunes.symm
  obtain ⟨hplain, hhtml⟩ := not_text hm hatt hinline hheader
  refine ⟨⟨part.contentType, ?_⟩, rfl, ?_⟩
  · show (if (part.isPlain || part.isHtml) = true then none else some _) = _
    rw [hplain, hhtml, if_neg (by decide), hinline, ← hid', ← hfilename]
    rfl
  · exact Item.body_eq_none hhtml _ _

omit hm in
/-- **And one that is not.** -/
theorem found_attachment (hinline : att.isInline = false) {item : Item}
    (h : Found (leafOf (attachmentFields m att) att.content) item) : IsAttachment att item := by
  obtain ⟨header, rfl, hheader⟩ := h
  have hdisposition : Mime.get ((attachmentFields m att).map Fields.unfolded) "content-disposition".toList
      = some (Mime.trim (Fields.unfolded ("attachment".toList ++ "; ".toList ++ dispositionFilename att.filename))) := by
    unfold attachmentFields contentTypeField
    rw [List.map_cons, List.map_cons, List.map_cons, get_field (by decide), if_neg (by decide), get_field (by decide),
      if_neg (by decide), get_field (by decide), if_pos (by decide)]
    rfl
  have hcid : Mime.get ((attachmentFields m att).map Fields.unfolded) "content-id".toList = none := by
    unfold attachmentFields contentTypeField
    rw [List.map_cons, List.map_cons, List.map_cons, get_field (by decide), if_neg (by decide), get_field (by decide),
      if_neg (by decide), get_field (by decide), if_neg (by decide)]
    rfl
  have hnone : att.contentID = [] := by
    unfold Attachment.isInline at hinline
    simpa using hinline
  have hnoParams : Mime.params "attachment".toList = some [] := by decide
  obtain ⟨hkind, hparams⟩ := params_disposition hnoParams ⟨by decide, by decide, by decide⟩
    (by unfold NoBreaks; decide) hatt.noSlash
  obtain ⟨-, hfilename, -, hisAttachment⟩ := hheader.disposition _ _ hdisposition hparams
  obtain ⟨part, rfl⟩ := eq_attachment (hisAttachment (hkind.trans (by decide)))
  have hname : part.filename = utf8 (sentName att.filename) := hfilename _ rfl
  have hid : part.contentID = [] := by
    have hfound := hheader.contentID
    rw [show (leafOf (attachmentFields m att) att.content).fields = (attachmentFields m att).map Fields.unfolded from rfl,
      hcid] at hfound
    exact hfound
  have hid' : part.cid = utf8 att.contentID := by
    unfold PartHeader.cid
    rw [hid, hnone]
    rfl
  refine ⟨⟨part.contentType, ?_⟩, rfl, rfl⟩
  show some _ = _
  rw [hinline, ← hid', ← hname]
  rfl

end Found

/-- The text of the mail, as it is found. -/
def IsText (html : Text) (item : Item) : Prop :=
  item.attachment true = none ∧ item.isPart = true ∧ item.body PartHeader.isHtml = some (utf8 html)

/-- **The text of the mail is found.** -/
theorem found_html {common : List Text} (hcommon : ∀ f ∈ common, ∃ name ∈ commonNames, ∃ value, f = field name value)
    {html : Text} {item : Item} (h : Found (leafOf (common ++ htmlFields) (utf8 html)) item) : IsText html item := by
  obtain ⟨header, rfl, hheader⟩ := h
  have htype : Mime.contentType ((common ++ htmlFields).map Fields.unfolded) = "text/html; charset=UTF-8".toList := by
    have hread := contentType_common hcommon "text/html; charset=UTF-8".toList
      [field "Content-Transfer-Encoding" "base64".toList]
    exact hread.trans (by decide)
  have hnone : Mime.get ((common ++ htmlFields).map Fields.unfolded) "content-disposition".toList = none := by
    rw [List.map_append, get_common hcommon _ (by decide)]
    decide
  have hkind : Mime.kindOf (Mime.contentType ((common ++ htmlFields).map Fields.unfolded)) = "text/html".toList := by
    rw [htype]
    decide
  have hinline := hheader.undisposed hnone (by
    show _ <+: Mime.kindOf (Mime.contentType ((common ++ htmlFields).map Fields.unfolded))
    rw [hkind]
    decide)
  obtain ⟨part, rfl⟩ := eq_inline hinline
  obtain ⟨ps, hps⟩ : ∃ ps, Mime.params (Mime.contentType ((common ++ htmlFields).map Fields.unfolded)) = some ps := by
    rw [htype]
    exact ⟨[("charset".toList, utf8 "UTF-8".toList)], by decide⟩
  have hcontentType : part.contentType = utf8 "text/html".toList := by
    have hfound := (hheader.wellFormed ps hps).1
    rw [show (leafOf (common ++ htmlFields) (utf8 html)).fields = (common ++ htmlFields).map Fields.unfolded from rfl,
      hkind] at hfound
    exact hfound
  have hhtml : part.isHtml = true := by
    unfold PartHeader.isHtml
    rw [hcontentType]
    decide
  refine ⟨?_, rfl, ?_⟩
  · show (if (part.isPlain || part.isHtml) = true then none else some _) = none
    rw [hhtml, Bool.or_true, if_pos rfl]
  · show (if part.isHtml = true then some (utf8 html) else none) = _
    rw [hhtml, if_pos rfl]

/-! ### Leaves -/

theorem mapM_cons_eq {α β : Type} {f : α → Option β} {a : α} {b : β} {l : List α} {bs : List β} (ha : f a = some b)
    (hl : l.mapM f = some bs) : (a :: l).mapM f = some (b :: bs) := by
  rw [List.mapM_cons, ha, hl]
  rfl

theorem mapM_eq_map {α β : Type} {f : α → Option β} {g : α → β} {l : List α} (h : ∀ a ∈ l, f a = some (g a)) :
    l.mapM f = some (l.map g) := by
  induction l with
  | nil => rfl
  | cons a l ih =>
      exact mapM_cons_eq (h a List.mem_cons_self) (ih fun b hb => h b (List.mem_cons_of_mem _ hb))

/-- Lines that a container's delimiter is not in front of. -/
def Clear (rand : Option Bytes) (p : List Text) : Prop := ∀ l ∈ p, (delimiter (boundaryOf rand)).isPrefixOf l = false

theorem clear_partLines {fields : List Text} (h : Sendable fields) (content : Bytes) (rand : Option Bytes) :
    Clear rand (partLines fields content) :=
  fun l hl => not_delimiter (indented_partLines h content l hl) _

/-- The end of one container is not taken for a delimiter of another. -/
theorem not_prefix_close {rand₁ rand₂ : Option Bytes} (h : ¬ boundaryOf rand₁ <+: boundaryOf rand₂) :
    ¬ delimiter (boundaryOf rand₁) <+: delimiter (boundaryOf rand₂) ++ "--".toList := by
  have hdelimiter : ¬ delimiter (boundaryOf rand₁) <+: delimiter (boundaryOf rand₂) := fun hprefix =>
    h ((List.prefix_cons_inj '-').mp ((List.prefix_cons_inj '-').mp hprefix))
  have hcount := count_delimiter rand₁
  have hcount' := count_delimiter rand₂
  intro hprefix
  rw [show delimiter (boundaryOf rand₂) ++ "--".toList = delimiter (boundaryOf rand₂) ++ ['-'] ++ ['-'] by simp,
    List.prefix_concat_iff, List.prefix_concat_iff] at hprefix
  rcases hprefix with heq | heq | hprefix
  · rw [heq, List.count_append, List.count_append, hcount'] at hcount
    exact absurd hcount (by decide)
  · rw [heq, List.count_append, hcount'] at hcount
    exact absurd hcount (by decide)
  · exact hdelimiter hprefix

theorem clear_containerLines {fields : List Text} (h : Sendable fields) {rand₁ rand₂ : Option Bytes}
    (hdraws : ¬ boundaryOf rand₁ <+: boundaryOf rand₂) {parts : List (List Text)} (hparts : ∀ p ∈ parts, Clear rand₁ p) :
    Clear rand₁ (containerLines fields (delimiter (boundaryOf rand₂)) parts) := by
  have hclose := not_prefix_close hdraws
  intro l hl
  rw [← Bool.not_eq_true, List.isPrefixOf_iff_prefix]
  rcases List.mem_append.mp hl with hl | hl
  · rw [← List.isPrefixOf_iff_prefix, Bool.not_eq_true]
    exact not_delimiter (indented_fields h l hl) _
  · rcases List.mem_cons.mp hl with rfl | hl
    · exact fun hprefix => absurd (List.prefix_nil.mp hprefix) (List.cons_ne_nil _ _)
    · rcases List.mem_append.mp hl with hl | hl
      · obtain ⟨p, hp, hl⟩ := List.mem_flatMap.mp hl
        rcases List.mem_cons.mp hl with rfl | hl
        · exact fun hstart => hclose (hstart.trans (List.prefix_append _ _))
        · rw [← List.isPrefixOf_iff_prefix, Bool.not_eq_true]
          exact hparts p hp l hl
      · rw [List.mem_singleton.mp hl]
        exact hclose

/-- Fields that say how the parts behind them are told apart. -/
def IsContainer (fields : List Text) (rand : Option Bytes) : Prop :=
  Mime.isContainer (fields.map Fields.unfolded) = true ∧
    Mime.delimiterOf (fields.map Fields.unfolded) = some (delimiter (boundaryOf rand))

theorem isContainer_related {common : List Text}
    (hcommon : ∀ f ∈ common, ∃ name ∈ commonNames, ∃ value, f = field name value) (rand : Option Bytes) :
    IsContainer (common ++ [relatedField (boundaryOf rand)]) rand := by
  have hparams : Mime.params "multipart/related; type=\"text/html\"".toList
      = some [("type".toList, utf8 "text/html".toList)] := by decide
  exact delimiterOf_container hcommon hparams (by decide) (by decide) ⟨by decide, by decide, by decide⟩
    (by unfold NoBreaks; decide) rand

theorem isContainer_mixed {common : List Text}
    (hcommon : ∀ f ∈ common, ∃ name ∈ commonNames, ∃ value, f = field name value) (rand : Option Bytes) :
    IsContainer (common ++ [mixedField (boundaryOf rand)]) rand := by
  have hparams : Mime.params "multipart/mixed".toList = some [] := by decide
  exact delimiterOf_container hcommon hparams (by decide) (by decide) ⟨by decide, by decide, by decide⟩
    (by unfold NoBreaks; decide) rand

theorem leaves_parts {fields : List Text} {rand : Option Bytes} {parts : List (List Text)} {found : List (List Leaf)}
    {depth : Nat} (h : Sendable fields) (hcontainer : IsContainer fields rand) (hparts : ∀ p ∈ parts, Clear rand p)
    (hfound : parts.mapM (Mime.leaves decodeString depth) = some found) (tail : List Text) :
    Mime.leaves decodeString (depth + 1) (containerLines fields (delimiter (boundaryOf rand)) parts ++ tail)
      = some found.flatten := by
  have hlast : ∀ c ∈ (delimiter (boundaryOf rand)).getLast?, Fields.isWSP c = false := by
    intro c hc
    rcases List.mem_cons.mp (List.mem_of_getLast? hc) with rfl | hc
    · decide
    · rcases List.mem_cons.mp hc with rfl | hc
      · decide
      · exact forall_boundaryOf (P := fun c => Fields.isWSP c = false) (by decide) (by decide) rand c hc
  unfold containerLines
  rw [List.append_assoc, List.cons_append, List.append_assoc]
  exact Mime.leaves_container h.isField hcontainer.1 hcontainer.2 hlast (List.cons_ne_nil _ _) hparts hfound

/-! ### The mail -/

/-- The parts with content that are meant. -/
def meant (m : WordEncoders) (fs : List Text) (html : Text) (inline regular : List Attachment) : List Leaf :=
  leafOf (fs ++ htmlFields) (utf8 html) ::
    (inline.map (fun att => leafOf (inlineFields m att) att.content) ++
      regular.map fun att => leafOf (attachmentFields m att) att.content)

section Built

variable {m : WordEncoders} {common : List Text} {html out : Text} {inline regular : List Attachment}
  {rand₁ rand₂ : Option Bytes} {secs : List (List Text)}

theorem leaves_part_alone {fields : List Text} (h : IsPart fields) (content : Bytes) (depth : Nat) :
    Mime.leaves decodeString (depth + 1) (partLines fields content) = some [leafOf fields content] := by
  have hpart := leaves_part h content List.flatten_nil depth
  rwa [List.append_nil] at hpart

theorem leaves_attachments {fields : Attachment → List Text} (atts : List Attachment)
    (h : ∀ att ∈ atts, IsPart (fields att)) (depth : Nat) :
    (atts.map fun att => partLines (fields att) att.content).mapM (Mime.leaves decodeString (depth + 1))
      = some (atts.map fun att => [leafOf (fields att) att.content]) := by
  rw [List.mapM_map]
  exact mapM_eq_map fun att hatt => leaves_part_alone (h att hatt) att.content depth

theorem lined_attachments {fields : Attachment → List Text} (atts : List Attachment)
    (h : ∀ att ∈ atts, IsPart (fields att)) :
    List.Forall₂ Lined (atts.map fun att => writePart (fields att) att.content)
      (atts.map fun att => partLines (fields att) att.content) := by
  rw [List.forall₂_map_left_iff, List.forall₂_map_right_iff, List.forall₂_same]
  exact fun att hatt => lined_writePart (h att hatt).sendable.isField att.content

/-- **A mail with parts has the leaves that are meant.** -/
theorem read_built (hcommon : ∀ f ∈ common, ∃ name ∈ commonNames, ∃ value, f = field name value)
    (hdraws : ¬ boundaryOf rand₁ <+: boundaryOf rand₂) (hinline : ∀ att ∈ inline, IsPart (inlineFields m att))
    (hregular : ∀ att ∈ regular, IsPart (attachmentFields m att)) (hsecs : ∀ fs ∈ secs, Sendable fs)
    (h : Built m common html inline regular rand₁ rand₂ out secs) :
    ∃ fs, (∀ f ∈ fs, f ∈ common) ∧ Mime.read decodeString out = some (meant m fs html inline regular) := by
  have hnone : ∀ f ∈ ([] : List Text), ∃ name ∈ commonNames, ∃ value, f = field name value :=
    fun f hf => absurd hf List.not_mem_nil
  have hhtml : IsPart htmlFields := isPart_html hnone fun f hf => absurd hf List.not_mem_nil
  have hhtmlLeaves (depth : Nat) := leaves_part_alone hhtml (utf8 html) depth
  have hhtmlLined := lined_writePart hhtml.sendable.isField (utf8 html)
  -- the lines and the leaves of the text with attachments behind it
  have hparts {fields : Attachment → List Text} {atts : List Attachment} (hatts : ∀ att ∈ atts, IsPart (fields att))
      (rand : Option Bytes) :
      ∀ p ∈ partLines htmlFields (utf8 html) :: atts.map (fun att => partLines (fields att) att.content), Clear rand p :=
    List.forall_mem_cons.mpr ⟨clear_partLines hhtml.sendable _ rand, List.forall_mem_map.mpr fun att hatt =>
      clear_partLines (hatts att hatt).sendable _ rand⟩
  have hleaves {fields : Attachment → List Text} {atts : List Attachment} (hatts : ∀ att ∈ atts, IsPart (fields att))
      (depth : Nat) :
      (partLines htmlFields (utf8 html) :: atts.map (fun att => partLines (fields att) att.content)).mapM
        (Mime.leaves decodeString (depth + 1))
          = some ([leafOf htmlFields (utf8 html)] :: atts.map fun att => [leafOf (fields att) att.content]) := by
    exact mapM_cons_eq (hhtmlLeaves depth) (leaves_attachments atts hatts depth)
  cases h with
  | html hnoInline hnoRegular =>
      subst hnoInline hnoRegular
      have hpart := isPart_html hcommon fun f hf => hsecs _ List.mem_cons_self f (List.mem_append_left _ hf)
      refine ⟨common, fun f hf => hf, Mime.read_lined (lined_writePart hpart.sendable.isField (utf8 html)) ?_⟩
      exact leaves_part hpart (utf8 html) (by rfl) _
  | related _ hnoRegular =>
      subst hnoRegular
      refine ⟨[], fun f hf => absurd hf List.not_mem_nil, ?_⟩
      have hsend := hsecs _ List.mem_cons_self
      have hlined := lined_container hsend.isField rand₁ (.cons hhtmlLined (lined_attachments inline hinline))
      refine Mime.read_lined hlined ?_
      rw [leaves_parts hsend (isContainer_related hcommon rand₁) (hparts hinline rand₁) (hleaves hinline _)]
      simp [meant, flatten_singletons]
  | mixed hnoInline =>
      subst hnoInline
      refine ⟨[], fun f hf => absurd hf List.not_mem_nil, ?_⟩
      have hsend := hsecs _ List.mem_cons_self
      have hlined := lined_container hsend.isField rand₁ (.cons hhtmlLined (lined_attachments regular hregular))
      refine Mime.read_lined hlined ?_
      rw [leaves_parts hsend (isContainer_mixed hcommon rand₁) (hparts hregular rand₁) (hleaves hregular _)]
      simp [meant, flatten_singletons]
  | nested =>
      refine ⟨[], fun f hf => absurd hf List.not_mem_nil, ?_⟩
      have hsend := hsecs _ List.mem_cons_self
      have hrelated : Sendable ([] ++ [relatedField (boundaryOf rand₂)]) := hsecs _ (List.mem_cons_of_mem _ List.mem_cons_self)
      have hinner := lined_container hrelated.isField rand₂ (.cons hhtmlLined (lined_attachments inline hinline))
      have hlined := lined_container hsend.isField rand₁ (.cons hinner (lined_attachments regular hregular))
      have hrelatedLeaves (depth : Nat) : Mime.leaves decodeString (depth + 1 + 1)
          (containerLines ([] ++ [relatedField (boundaryOf rand₂)]) (delimiter (boundaryOf rand₂))
            (partLines htmlFields (utf8 html) :: inline.map fun att => partLines (inlineFields m att) att.content))
          = some ([leafOf htmlFields (utf8 html)] ::
              inline.map fun att => [leafOf (inlineFields m att) att.content]).flatten := by
        have hpart := leaves_parts hrelated (isContainer_related hnone rand₂) (hparts hinline rand₂)
          (hleaves hinline depth) []
        rwa [List.append_nil] at hpart
      have hall (depth : Nat) := mapM_cons_eq (hrelatedLeaves depth) (leaves_attachments regular hregular (depth + 1))
      have hclear := List.forall_mem_cons.mpr ⟨clear_containerLines hrelated hdraws (hparts hinline rand₁),
        List.forall_mem_map.mpr fun att hatt => clear_partLines (hregular att hatt).sendable att.content rand₁⟩
      refine Mime.read_lined hlined ?_
      obtain ⟨depth, hdepth⟩ : ∃ depth, (containerLines (common ++ [mixedField (boundaryOf rand₁)])
          (delimiter (boundaryOf rand₁))
          (containerLines ([] ++ [relatedField (boundaryOf rand₂)]) (delimiter (boundaryOf rand₂))
            (partLines htmlFields (utf8 html) :: inline.map fun att => partLines (inlineFields m att) att.content) ::
              regular.map fun att => partLines (attachmentFields m att) att.content)).length = depth + 1 :=
        Nat.exists_eq_add_one_of_ne_zero (by unfold containerLines; simp)
      rw [hdepth, leaves_parts hsend (isContainer_mixed hcommon rand₁) hclear (hall depth)]
      simp [meant, flatten_singletons]

end Built

/-! ### The walk -/

section Walk

open Parser (Walk firstNonempty)

variable {S : Type} {r : Reader S} {s : S}

theorem length_items (r : Reader S) (n : Nat) : ∀ s, (r.items n s).length = n := by
  induction n with
  | zero => exact fun s => rfl
  | succ n ih => exact fun s => congrArg Nat.succ (ih _)

/-- **A walk along parts only takes in all of them.** -/
theorem walkParts_of_parts {items : List Item} (hparts : ∀ i ∈ items, i.isPart = true)
    (h : r.items (items.length + 1) s = items ++ [.eof]) (capture : Bool) :
    r.walkParts capture s = Walk.along capture ⟨[], [], []⟩ items := by
  have hitems : r.items items.length s = items := by
    have hprefix := r.items_prefix (Nat.le_succ items.length) s
    rw [h] at hprefix
    have hlength := length_items r items.length s
    exact (List.prefix_of_prefix_length_le hprefix (List.prefix_append items [.eof]) (Nat.le_of_eq hlength)).eq_of_length
      hlength
  obtain ⟨k, -, hiff, heq⟩ := r.walkParts_spec s
  have heof : Item.eof ∉ items := fun hmem => absurd (hparts _ hmem) Bool.noConfusion
  have hge : items.length ≤ k := by
    refine (hiff _).mpr ⟨by rwa [hitems], ?_⟩
    rintro ⟨stretch, hwithin, hnone, hcount⟩
    rw [hitems] at hwithin
    have hempty : stretch = [] := by
      cases stretch with
      | nil => rfl
      | cons i stretch =>
          have hpart := hparts i (hwithin.subset List.mem_cons_self)
          rw [hnone i List.mem_cons_self] at hpart
          cases hpart
    rw [hempty] at hcount
    exact absurd hcount (by decide)
  have hle : ¬ items.length + 1 ≤ k := fun hk => ((hiff _).mp hk).1 (h ▸ List.mem_append_right _ (List.mem_singleton_self _))
  obtain rfl : k = items.length := by omega
  rw [heq, hitems]

end Walk

/-- What is to come back of an attachment. -/
def back (att : Attachment) : Bytes × Bytes × Bytes × Bool × Bool :=
  (utf8 (sentName att.filename), utf8 att.contentID, att.content, att.isInline, false)

/-- What has come back. -/
def cameBack (a : Parser.AttachmentData) : Bytes × Bytes × Bytes × Bool × Bool :=
  (a.filename, a.contentID, a.content, a.isInline, a.err)

theorem filterMap_attachments {atts : List Attachment} {items : List Item} (h : List.Forall₂ IsAttachment atts items) :
    (items.filterMap (Item.attachment true)).map cameBack = atts.map back ∧
      items.filterMap (Item.body PartHeader.isHtml) = [] ∧ ∀ i ∈ items, i.isPart = true := by
  induction h with
  | nil => exact ⟨rfl, rfl, fun i hi => absurd hi List.not_mem_nil⟩
  | @cons att item atts items hitem _ ih =>
      obtain ⟨⟨contentType, hatt⟩, hpart, hbody⟩ := hitem
      obtain ⟨hmap, hhtml, hparts⟩ := ih
      refine ⟨?_, ?_, List.forall_mem_cons.mpr ⟨hpart, hparts⟩⟩
      · rw [List.filterMap_cons, hatt, List.map_cons, List.map_cons, hmap]
        rfl
      · rw [List.filterMap_cons, hbody, hhtml]

section Survive

variable {m : WordEncoders} {sender : Identity} {req : SendRequest} {messageID : Text} {date : LocalTime}
  {rand₁ rand₂ : Option Bytes} {out : Text} {S : Type} {g : GoMessage} {r : Reader S} {start : Bytes → S}

/-- **Attachments survive sending.** -/
theorem attachments_survive (hg : Implements g r start) (hm : m.Encodes)
    (hfit : ∀ att ∈ req.attachments, Fit att) (hverbatim : ∀ t ∈ verbatim sender req messageID, Fields.folded t = true)
    (hdraws : ¬ boundaryOf rand₁ <+: boundaryOf rand₂)
    (h : buildRFC5322 m sender req messageID date rand₁ rand₂ = .ok out) :
    (g.extractAttachments r start (utf8 out)).map (fun atts => atts.map cameBack)
        = some ((req.attachments.filter Attachment.isInline ++
            req.attachments.filter fun att => !att.isInline).map back) ∧
      ∀ fallbackHeaders, ((g.withParts r start).parseBody (utf8 out) .empty fallbackHeaders).map (·.htmlBody)
        = some (utf8 req.bodyHTML) := by
  have hbuilt := built_of_ok h
  have hids := validContentID_of_ok h
  obtain ⟨hcommonFolded, hinlineFolded, hregularFolded⟩ := (folded_verbatim m date).mp hverbatim
  have hsecs : ∀ fs ∈ sections m sender req messageID date (boundaryOf rand₁) (boundaryOf rand₂), Sendable fs :=
    fun fs hfs f hf => ⟨named_of_built (named_commonFields m sender req messageID date) hbuilt fs hfs f hf,
      (folded_of_built hids hbuilt).mpr ⟨hcommonFolded, hinlineFolded, hregularFolded⟩ fs hfs f hf⟩
  have hcommon : ∀ f ∈ commonFields m sender req messageID date, ∃ name ∈ commonNames, ∃ value, f = field name value :=
    forall_commonFields m sender req messageID date fun name hname value => ⟨name, hname, value, rfl⟩
  have hmemInline : ∀ att ∈ (splitAttachments req.attachments).1, Fit att ∧ att.isInline = true :=
    fun att hatt => ⟨hfit att (List.mem_filter.mp hatt).1, (List.mem_filter.mp hatt).2⟩
  have hmemRegular : ∀ att ∈ (splitAttachments req.attachments).2, Fit att ∧ att.isInline = false :=
    fun att hatt => ⟨hfit att (List.mem_filter.mp hatt).1, by simpa using (List.mem_filter.mp hatt).2⟩
  obtain ⟨fs, hfs, hread⟩ := read_built hcommon hdraws
    (fun att hatt => isPart_attachment hm (hmemInline att hatt).1 fun f hf =>
      ⟨named_inlineFields m att f hf, (folded_inlineFields m (hids att hatt)).mpr (hinlineFolded att hatt) f hf⟩)
    (fun att hatt => isPart_attachment hm (hmemRegular att hatt).1 fun f hf =>
      ⟨named_attachmentFields m att f hf, (folded_attachmentFields m att).mpr (hregularFolded att hatt) f hf⟩)
    hsecs hbuilt
  have hfsCommon : ∀ f ∈ fs, ∃ name ∈ commonNames, ∃ value, f = field name value := fun f hf => hcommon f (hfs f hf)
  have hutf8 : ∀ leaf ∈ meant m fs req.bodyHTML (splitAttachments req.attachments).1 (splitAttachments req.attachments).2,
      Mime.isUtf8 (Mime.contentType leaf.fields) = true := by
    refine List.forall_mem_cons.mpr ⟨?_, List.forall_mem_append.mpr ⟨?_, ?_⟩⟩
    · have htype := contentType_common hfsCommon "text/html; charset=UTF-8".toList
        [field "Content-Transfer-Encoding" "base64".toList]
      show Mime.isUtf8 (Mime.contentType ((fs ++ field "Content-Type" _ :: _).map _)) = true
      rw [htype]
      decide
    · exact List.forall_mem_map.mpr fun att hatt => isUtf8_type hm (hmemInline att hatt).1 _
    · exact List.forall_mem_map.mpr fun att hatt => isUtf8_type hm (hmemRegular att hatt).1 _
  obtain ⟨items, hfound, hitems⟩ := hg.items out _ hread hutf8
  rw [hfound.length_eq] at hitems
  obtain ⟨first, rest, hfirst, hrest, rfl⟩ := List.forall₂_cons_left_iff.mp hfound
  obtain ⟨hnone, hpart, hbody⟩ := found_html hfsCommon hfirst
  have hatts : List.Forall₂ IsAttachment ((splitAttachments req.attachments).1 ++ (splitAttachments req.attachments).2)
      rest := by
    have hleft := (List.forall₂_take_append _ _ _ hrest.flip).flip
    have hright := (List.forall₂_drop_append _ _ _ hrest.flip).flip
    rw [List.forall₂_map_left_iff] at hleft hright
    have hleft := (List.forall₂_and_left _ _).mpr ⟨fun att hatt => And.intro (hmemInline att hatt) (hids att hatt), hleft⟩
    have hright := (List.forall₂_and_left _ _).mpr ⟨hmemRegular, hright⟩
    rw [← List.take_append_drop _ rest]
    exact List.rel_append (hleft.imp fun att item hitem => found_inline hm hitem.1.1.1 hitem.1.1.2 hitem.1.2 hitem.2)
      (hright.imp fun att item hitem => found_attachment hitem.1.1 hitem.1.2 hitem.2)
  obtain ⟨hmap, hhtml, hparts⟩ := filterMap_attachments hatts
  have hwalk := walkParts_of_parts (List.forall_mem_cons.mpr ⟨hpart, hparts⟩) hitems
  have hcreated := hg.created out _ hread hutf8
  constructor
  · unfold GoMessage.extractAttachments
    rw [hcreated]
    dsimp only
    rw [hwalk]
    refine congrArg some (Eq.trans ?_ hmap)
    show ([] ++ (first :: rest).filterMap (Item.attachment true)).map cameBack = _
    rw [List.nil_append, List.filterMap_cons, hnone]
  · intro fallbackHeaders
    unfold GoMessage.parseBody
    rw [show (g.withParts r start).createReader = g.createReader from rfl, hcreated]
    dsimp only
    have hhtmlBody : (r.walkParts false (start (utf8 out))).html = utf8 req.bodyHTML := by
      rw [hwalk]
      show Parser.firstNonempty ([] :: (first :: rest).filterMap (Item.body PartHeader.isHtml)) = _
      rw [List.filterMap_cons, hbody, hhtml, Parser.firstNonempty_cons, if_pos rfl, Parser.firstNonempty_singleton]
    rw [Option.map_some]
    refine congrArg some ?_
    cases fallbackHeaders with
    | true => exact hhtmlBody
    | false => exact hhtmlBody

end Survive

/-! ### A library -/

open Mime (get params kindOf contentType)

/-- What a value's parameters are to the library. -/
def libraryParams (ps : List (Text × Bytes)) : List (Bytes × Bytes) := ps.map fun x => (utf8 x.1, x.2)

theorem agrees_libraryParams (ps : List (Text × Bytes)) : Agrees ps (some (libraryParams ps)) := by
  refine ⟨_, rfl, fun name => ?_⟩
  unfold libraryParams
  induction ps with
  | nil => rfl
  | cons x ps ih =>
      have hinjective : utf8 name = utf8 x.1 ↔ name = x.1 := by
        refine ⟨fun heq => ?_, congrArg utf8⟩
        have hname : Utf8.runes (utf8 name) = name := Utf8.runes_encode name
        have hx : Utf8.runes (utf8 x.1) = x.1 := Utf8.runes_encode x.1
        rw [← hname, heq, hx]
      rw [List.map_cons, List.lookup_cons, List.lookup_cons, ih]
      by_cases heq : name = x.1
      · rw [beq_iff_eq.mpr (hinjective.mpr heq), beq_iff_eq.mpr heq]
      · rw [beq_eq_false_iff_ne.mpr (mt hinjective.mp heq), beq_eq_false_iff_ne.mpr heq]

/-- The header of a part with these fields. -/
def headerOf (fields : List Text) : Header :=
  let v := contentType fields
  let disposition := get fields "content-disposition".toList
  let dispositionParams := disposition.bind params
  let part : PartHeader := {
    contentType := utf8 (if (params v).isSome then kindOf v else v)
    typeParams := (params v).map libraryParams
    dispositionParams := dispositionParams.map libraryParams
    filename := (dispositionParams.bind fun ps => ps.lookup "filename".toList).getD
      (((params v).bind fun ps => ps.lookup "name".toList).getD [])
    contentID := utf8 ((get fields "content-id".toList).getD []) }
  let kind := (disposition.map kindOf).getD []
  if kind = "inline".toList ∨ (kind ≠ "attachment".toList ∧ "text/".toList <+: kindOf v) then .inline part
  else .attachment part

theorem headerOf_fields (fields : List Text) : (headerOf fields).fields = {
    contentType := utf8 (if (params (contentType fields)).isSome then kindOf (contentType fields) else contentType fields)
    typeParams := (params (contentType fields)).map libraryParams
    dispositionParams := ((get fields "content-disposition".toList).bind params).map libraryParams
    filename := (((get fields "content-disposition".toList).bind params).bind fun ps => ps.lookup "filename".toList).getD
      (((params (contentType fields)).bind fun ps => ps.lookup "name".toList).getD [])
    contentID := utf8 ((get fields "content-id".toList).getD []) } := by
  unfold headerOf
  dsimp only
  split
  · rfl
  · rfl

theorem headerOf_isInline (fields : List Text) : (headerOf fields).isInline = true ↔
    ((get fields "content-disposition".toList).map kindOf).getD [] = "inline".toList ∨
      (((get fields "content-disposition".toList).map kindOf).getD [] ≠ "attachment".toList ∧
        "text/".toList <+: kindOf (contentType fields)) := by
  unfold headerOf
  dsimp only
  split
  · rename_i h
    exact iff_of_true rfl h
  · rename_i h
    exact iff_of_false Bool.false_ne_true h

theorem headerOf_spec (fields : List Text) : HeaderOf fields (headerOf fields) := by
  have hisInline := headerOf_isInline fields
  refine ⟨?_, fun ps hps => ?_, ?_, fun hnone htext => ?_, fun d ps hd hps => ?_⟩
  · rw [headerOf_fields]
    dsimp only
    split
    · exact .inl rfl
    · exact .inr rfl
  · rw [headerOf_fields, hps]
    exact ⟨rfl, agrees_libraryParams ps⟩
  · rw [headerOf_fields]
  · rw [hisInline, hnone]
    exact .inr ⟨by decide, htext⟩
  · rw [hd] at hisInline
    rw [headerOf_fields, hd, Option.bind_some, hps]
    refine ⟨agrees_libraryParams ps, fun filename hfilename => ?_, fun hkind => ?_, fun hkind => ?_⟩
    · dsimp only
      rw [Option.bind_some, hfilename]
      rfl
    · exact hisInline.mpr (.inl hkind)
    · rw [← Bool.not_eq_true, hisInline]
      show ¬ (kindOf d = _ ∨ (kindOf d ≠ _ ∧ _))
      rw [hkind]
      rintro (heq | hne)
      · exact absurd heq (by decide)
      · exact hne.1 rfl

/-- The parts that are left, and what is left of the content of the one answered last. -/
def mimeReader : Reader (Bytes × List (Header × Bytes)) where
  nextPart s :=
    match s with
    | (content, []) => (.eof, (content, []))
    | (_, (header, content) :: rest) => (.part header, (content, rest))
  read s := (s.1, .eof, ([], s.2))
  size s := s.2.length
  size_part := by
    intro s h s' heq
    obtain ⟨content, rest⟩ := s
    cases rest with
    | nil => cases heq
    | cons part rest =>
        obtain ⟨-, rfl⟩ := Prod.mk.inj heq
        exact Nat.lt_succ_self _
  size_unknown := by
    intro s s' heq
    obtain ⟨content, rest⟩ := s
    cases rest with
    | nil => cases heq
    | cons part rest => cases heq
  size_other := by
    intro s s' heq
    obtain ⟨content, rest⟩ := s
    cases rest with
    | nil => cases heq
    | cons part rest => cases heq
  size_more := fun heq => by cases heq
  size_read := fun heq => by
    cases heq
    exact Nat.le_refl _

/-- The parts of a mail. -/
def mimeStart (bs : Bytes) : Bytes × List (Header × Bytes) :=
  ([], (((Mime.read decodeString (Utf8.runes bs)).getD []).map fun leaf => (headerOf leaf.fields, leaf.content)))

/-- The library, but for the fields of a mail. -/
def mimeLibrary : GoMessage where
  createReader := fun _ => .reader
  text := fun _ _ => none
  get := fun _ _ => []
  addressList := fun _ _ => none
  date := fun _ => none
  decodeHeader := fun _ => none
  walkParts := fun _ => ([], [], [])

theorem items_mimeReader (rest : List (Header × Bytes)) : ∀ content,
    mimeReader.items (rest.length + 1) (content, rest)
      = rest.map (fun part => .part part.1 part.2 false) ++ [.eof] := by
  induction rest with
  | nil => exact fun content => rfl
  | cons part rest ih =>
      intro content
      have hread : mimeReader.readAll (part.2, rest) = (part.2, false, ([], rest)) :=
        mimeReader.readAll_eof (s := (part.2, rest)) rfl
      have hitem : mimeReader.item (content, part :: rest) = .part part.1 part.2 false := by
        show Item.part part.1 (mimeReader.readAll (part.2, rest)).1 (mimeReader.readAll (part.2, rest)).2.1 = _
        rw [hread]
      have hnext : mimeReader.next (content, part :: rest) = ([], rest) := by
        show (mimeReader.readAll (part.2, rest)).2.2 = _
        rw [hread]
      rw [List.length_cons, Reader.items, hitem, hnext, ih]
      rfl

/-- **There is such a library.** -/
theorem mimeLibrary_implements : Implements mimeLibrary mimeReader mimeStart := by
  refine ⟨fun _ _ _ _ => rfl, fun t leaves hread _ => ?_⟩
  refine ⟨leaves.map fun leaf => .part (headerOf leaf.fields) leaf.content false, ?_, ?_⟩
  · rw [List.forall₂_map_right_iff, List.forall₂_same]
    exact fun leaf _ => ⟨_, rfl, headerOf_spec leaf.fields⟩
  · have hrunes : Utf8.runes (utf8 t) = t := Utf8.runes_encode t
    have hitems := items_mimeReader (leaves.map fun leaf => (headerOf leaf.fields, leaf.content)) []
    rw [List.length_map, List.map_map] at hitems
    unfold mimeStart
    rw [hrunes, hread]
    exact hitems

/-- Words in base64. -/
def inWords (s : Text) : Text :=
  if isASCII s then s else "=?UTF-8?b?".toList ++ encodeToString (utf8 s) ++ "?=".toList

theorem folded_inWords (s : Text) : Fields.folded (inWords s) = true := by
  unfold inWords
  split
  · rename_i h
    exact (noBreaks_isASCII h).folded
  · refine NoBreaks.folded (Fields.noBreaks_append_iff.mpr ⟨Fields.noBreaks_append_iff.mpr ⟨?_, ?_⟩, ?_⟩)
    · unfold NoBreaks
      decide
    · exact fun c hc => (base64_plain _ c hc).2
    · unfold NoBreaks
      decide

def wordEncoders : WordEncoders := ⟨inWords, inWords, folded_inWords, folded_inWords⟩

theorem wordEncoders_encodes : wordEncoders.Encodes := by
  intro s ⟨c, hc, hlt⟩
  have hascii : isASCII s = false := by
    rw [← Bool.not_eq_true]
    intro hascii
    have hle := List.all_eq_true.mp hascii c hc
    simp only [Bool.and_eq_true, decide_eq_true_eq] at hle
    omega
  refine ⟨"UTF-8?b?".toList ++ encodeToString (utf8 s) ++ "?=".toList, ?_, ?_⟩
  · show inWords s = _
    unfold inWords
    rw [hascii, if_neg Bool.false_ne_true]
    rfl
  · refine List.forall_mem_append.mpr ⟨List.forall_mem_append.mpr ⟨by decide, ?_⟩, by decide⟩
    exact forall_encodeToString (P := fun c => c ≠ ';' ∧ c ≠ '"') (by decide)
      (forall_getD (P := fun c => c ≠ ';' ∧ c ≠ '"') (by decide) (by decide)) _

def storyteller : Identity := ⟨"a@b.c".toList, []⟩

/-- A mail with a document and a picture that it shows. -/
def illustrated : SendRequest :=
  ⟨["d@e.f".toList], [], "s".toList, "<p>x</p>".toList, [], [],
    [⟨"报告;1.pdf".toList, "application/pdf".toList, [1, 2], []⟩,
      ⟨"a \"b\".png".toList, "image/png".toList, [3], "img".toList⟩]⟩

theorem fit_illustrated : ∀ att ∈ illustrated.attachments, Fit att := by
  refine List.forall_mem_cons.mpr ⟨⟨⟨⟨[], by decide⟩, ⟨by decide, by decide, by decide⟩, by unfold NoBreaks; decide⟩,
    by decide, by decide, by decide, by decide, by decide, fun h => absurd h (by decide)⟩, List.forall_mem_singleton.mpr
      ⟨⟨⟨[], by decide⟩, ⟨by decide, by decide, by decide⟩, by unfold NoBreaks; decide⟩, by decide, by decide, by decide,
        by decide, by decide, fun h => absurd h (by decide)⟩⟩

/-- The picture comes back first, without the quotes in its name. -/
theorem attachments_survive_illustrated : ∃ out,
    buildRFC5322 wordEncoders storyteller illustrated "1@b.c".toList ⟨0, true, 0⟩ (some [7]) (some [8]) = .ok out ∧
      (mimeLibrary.extractAttachments mimeReader mimeStart (utf8 out)).map (fun atts => atts.map cameBack)
        = some [(utf8 "a b.png".toList, utf8 "img".toList, [3], true, false),
            (utf8 "报告;1.pdf".toList, [], [1, 2], false, false)] :=
  ⟨_, rfl, (attachments_survive mimeLibrary_implements wordEncoders_encodes fit_illustrated
    (show ∀ t ∈ verbatim storyteller illustrated "1@b.c".toList, Fields.folded t = true by decide)
    (show ¬ boundaryOf (some [7]) <+: boundaryOf (some [8]) by decide) rfl).1⟩

end FlyMail.Send
