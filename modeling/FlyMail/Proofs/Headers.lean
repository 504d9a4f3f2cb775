/-
One header, read in two ways.

The mail library is known for no more than this: what it answers depends on the lines of the header.
So the envelope of a mail is the same from the whole mail and from its header just when both give
the library the same lines (`paths_agree_iff`).  They do if the header is UTF-8; if it is not, only
`ParseHeaders` changes its bytes, and the library is given one line at least that it is not given
by `ParseBody` (`headerLines_decoded_iff`).
-/
import FlyMail.Parser.Headers

namespace FlyMail.Parser

/-- The envelopes are the same. -/
structure Agree (a b : ParsedEmail) : Prop where
  subject : a.subject = b.subject
  fromList : a.fromList = b.fromList
  toList : a.toList = b.toList
  cc : a.cc = b.cc
  date : a.date = b.date
  messageID : a.messageID = b.messageID
  inReplyTo : a.inReplyTo = b.inReplyTo
  references : a.references = b.references

/-- Whatever the mail library makes of headers, the mail has one envelope. -/
def PathsAgree (gb18030 : Bytes → Option Bytes) (m : Bytes) : Prop :=
  ∀ (g : GoMessage) email, g.parseBody m .empty true = some email →
    Agree (g.parseHeaders gb18030 (headerSection m) .empty) email

section Decoded

variable (gb18030 : Bytes → Option Bytes)

theorem decodeRawHeaderBytes_of_valid {b : Bytes} (h : Utf8.valid b = true) :
    decodeRawHeaderBytes gb18030 b = b := by
  unfold decodeRawHeaderBytes
  exact if_pos h

/-- **What comes out is UTF-8.** -/
theorem valid_decodeRawHeaderBytes (b : Bytes) : Utf8.valid (decodeRawHeaderBytes gb18030 b) = true := by
  unfold decodeRawHeaderBytes
  split
  · assumption
  · split
    · split
      · assumption
      · exact Utf8.valid_latin1 b
    · exact Utf8.valid_latin1 b

theorem valid_crlf (b : Bytes) : Utf8.valid (b ++ Bytes.crlf ++ Bytes.crlf) = Utf8.valid b := by
  rw [Bool.eq_iff_iff]
  unfold Bytes.crlf
  rw [List.append_assoc, List.cons_append, Utf8.valid_append_cons (by decide)]
  exact and_iff_left rfl

theorem headerLines_headerSection (m : Bytes) :
    headerLines (headerSection m ++ Bytes.crlf ++ Bytes.crlf) = headerLines m := by
  have hlines := (Bytes.lines_throughEmpty [] m).1
  rwa [List.append_nil] at hlines

theorem valid_headerSection_iff (m : Bytes) :
    Utf8.valid (headerSection m) = true ↔ ∀ l ∈ headerLines m, Utf8.valid l = true := by
  rw [Utf8.valid_iff]
  exact (Bytes.valid_throughEmpty_iff m).1

theorem valid_of_mem_headerLines {b l : Bytes} (h : Utf8.valid b = true) (hl : l ∈ headerLines b) :
    Utf8.valid l = true := by
  obtain ⟨first, others, hlines⟩ := Bytes.exists_lines b
  obtain ⟨hfirst, hothers⟩ := Bytes.valid_of_mem_lines b hlines (Utf8.valid_iff.mp h)
  have hmem : l ∈ Bytes.lines b := (List.takeWhile_sublist _).mem hl
  rw [hlines] at hmem
  rcases List.mem_cons.mp hmem with rfl | hmem
  · exact Utf8.valid_iff.mpr hfirst
  · exact hothers l hmem

/-- **The library is given the same lines just if the header is UTF-8.** -/
theorem headerLines_decoded_iff (m : Bytes) :
    headerLines (decodeRawHeaderBytes gb18030 (headerSection m) ++ Bytes.crlf ++ Bytes.crlf) = headerLines m ↔
      Utf8.valid (headerSection m) = true := by
  constructor
  · intro h
    rw [valid_headerSection_iff, ← h]
    intro l hl
    refine valid_of_mem_headerLines ?_ hl
    rw [valid_crlf]
    exact valid_decodeRawHeaderBytes gb18030 _
  · intro h
    rw [decodeRawHeaderBytes_of_valid gb18030 h]
    exact headerLines_headerSection m

/-! ### The envelope -/

theorem agree_of_lines (g : GoMessage) {raw m : Bytes} {email : ParsedEmail}
    (hlines : headerLines (decodeRawHeaderBytes gb18030 raw ++ Bytes.crlf ++ Bytes.crlf) = headerLines m)
    (h : g.parseBody m .empty true = some email) : Agree (g.parseHeaders gb18030 raw .empty) email := by
  unfold GoMessage.parseBody at h
  unfold GoMessage.parseHeaders
  rw [hlines]
  cases hcreated : g.createReader (headerLines m) with
  | reader =>
      rw [hcreated] at h
      obtain rfl := Option.some.inj h
      simp only [hcreated]
      exact ⟨rfl, rfl, rfl, rfl, rfl, rfl, rfl, rfl⟩
  | readerAndError =>
      rw [hcreated] at h
      exact absurd h.symm (Option.some_ne_none email)
  | error =>
      rw [hcreated] at h
      exact absurd h.symm (Option.some_ne_none email)

/-- A library that finds one subject in a header, and another in all others. -/
def telling (header : List Bytes) : GoMessage where
  createReader _ := .reader
  text header' _ := some (if header' = header then [1] else [2])
  get _ _ := []
  addressList _ _ := none
  date _ := none
  decodeHeader := some
  walkParts _ := ([], [], [])

/-- The subject it leads to. -/
def telledSubject (header header' : List Bytes) : Bytes :=
  let subj : Bytes := if header' = header then [1] else [2]
  if subj = [] then [] else subj

/-- **The two ways agree just on headers that are UTF-8.** -/
theorem paths_agree_iff (m : Bytes) : PathsAgree gb18030 m ↔ Utf8.valid (headerSection m) = true := by
  rw [← headerLines_decoded_iff gb18030 m]
  constructor
  · intro h
    by_contra hne
    have hsubject := (h (telling (headerLines m)) _ rfl).subject
    have hhere : telledSubject (headerLines m) (headerLines m) = [1] := by
      unfold telledSubject
      rw [if_pos rfl]
      rfl
    have hthere : telledSubject (headerLines m)
        (headerLines (decodeRawHeaderBytes gb18030 (headerSection m) ++ Bytes.crlf ++ Bytes.crlf)) = [2] := by
      unfold telledSubject
      rw [if_neg hne]
      rfl
    exact absurd (hthere.symm.trans (hsubject.trans hhere)) (by decide)
  · exact fun h g email hbody => agree_of_lines gb18030 g h hbody

end Decoded

/-! ### A header in GBK -/

/-- The value of the first line with the key. -/
def valueOf (header : List Bytes) (key : Text) : Option Bytes :=
  (header.find? fun l => (key.map byte ++ [byte ':', byte ' ']).isPrefixOf l).map fun l => l.drop (key.length + 2)

/-- A library for headers without folded lines and encoded words. -/
private def plainHeaders : GoMessage where
  createReader _ := .reader
  text header key := some ((valueOf header key).getD [])
  get header key := (valueOf header key).getD []
  addressList _ _ := none
  date _ := none
  decodeHeader := some
  walkParts _ := ([], [], [])

/-- `Subject: ` and one character in GBK, and the same in UTF-8. -/
private def subjectGBK : Bytes := "Subject: ".toList.map byte ++ [0xBF, 0xD5] ++ Bytes.crlf ++ Bytes.crlf

private def subjectUTF8 : Bytes :=
  "Subject: ".toList.map byte ++ [0xE7, 0xA9, 0xBA] ++ Bytes.crlf ++ Bytes.crlf

/-- The subject is read from the header, and its bytes are kept from the mail. -/
theorem paths_differ_on_GBK :
    ¬ PathsAgree (fun b => if b = subjectGBK then some subjectUTF8 else none) subjectGBK := by
  intro h
  have hsubject := (h plainHeaders _ rfl).subject
  exact absurd hsubject (by decide)

end FlyMail.Parser
