/-
Images in URLs, one by one.

A conversion that does not fail leaves a URL alone or puts a reference to a new attachment in its place,
and which of the two depends on the URL only (`imageOf`).
-/
import FlyMail.Send.DataUrl
import FlyMail.Proofs.Builder

namespace FlyMail.Send

open Pattern

/-! ### The image in a URL -/

/-- Subtype and content of the image in a URL, if there is one that can be converted. -/
def imageOf (url : Text) : Option (Text × Bytes) := do
  let (subtype, payload) ← dataImage (Text.trimSpace url)
  let decoded ← decodeString (stripWS payload)
  if decoded = [] then none else some (subtype, decoded)

theorem imageOf_of_dataImage {url subtype payload : Text} (h : dataImage (Text.trimSpace url) = some (subtype, payload)) :
    imageOf url = (decodeString (stripWS payload)).bind fun decoded =>
      if decoded = [] then none else some (subtype, decoded) := by
  unfold imageOf
  rw [h]
  rfl

/-- What is matched is the beginning, a subtype, the marker and a payload. -/
theorem dataImage_eq_some {t subtype payload : Text} (h : dataImage t = some (subtype, payload)) :
    ∃ start marker, t = start ++ subtype ++ marker ++ payload ∧
      List.Forall₂ (fun c x => sameFold c x = true) "data:image/".toList start ∧
      (∀ c ∈ subtype, reDataImage.subtype c = true) ∧
      List.Forall₂ (fun c x => sameFold c x = true) ";base64,".toList marker ∧
      ∀ c ∈ payload, reDataImage.payload c = true := by
  obtain ⟨m, hfind, hm⟩ := Option.map_eq_some_iff.mp h
  have hmem := List.mem_of_find?_eq_some hfind
  have hrest : m.rest = [] := by simpa using List.find?_some hfind
  obtain ⟨m₁, hm₁, m₂, hm₂, htaken, hgroups⟩ := mem_tries_seq hmem
  obtain ⟨hstart, hnone⟩ := mem_tries_word hm₁
  obtain ⟨m₃, hm₃, m₄, hm₄, htaken₂, hgroups₂⟩ := mem_tries_seq hm₂
  obtain ⟨s, hs, htaken₃, hgroups₃⟩ := mem_tries_group hm₃
  obtain ⟨m₅, hm₅, m₆, hm₆, htaken₄, hgroups₄⟩ := mem_tries_seq hm₄
  obtain ⟨hmarker, hnone'⟩ := mem_tries_word hm₅
  obtain ⟨p, hp, htaken₆, hgroups₆⟩ := mem_tries_group hm₆
  obtain ⟨hpayload, hnone''⟩ := mem_runs p hp
  obtain ⟨s₁, hs₁, s₂, hs₂, htakens, hgroupss⟩ := mem_tries_seq hs
  obtain ⟨c, rest, hc, rfl⟩ := mem_tries_char hs₁
  obtain ⟨hsubtype, hnones⟩ := mem_runs s₂ hs₂
  have hg : m.groups = [(1, s.taken), (2, p.taken)] := by
    rw [hgroups, hnone, hgroups₂, hgroups₃, hgroupss, hnones, hgroups₄, hnone', hgroups₆, hnone'']
    rfl
  have hone : m.group 1 = s.taken := by
    unfold Match.group
    rw [hg]
    rfl
  have htwo : m.group 2 = p.taken := by
    unfold Match.group
    rw [hg]
    rfl
  obtain ⟨hsub, hpay⟩ := Prod.mk.inj hm
  rw [hone] at hsub
  rw [htwo] at hpay
  refine ⟨m₁.taken, m₅.taken, ?_, hstart, fun x hx => ?_, hmarker, fun x hx => hpayload x (hpay ▸ hx)⟩
  · rw [← tries_split _ m hmem, hrest, htaken, htaken₂, htaken₃, htaken₄, htaken₆, hsub, hpay]
    simp
  · rw [← hsub, htakens] at hx
    rcases List.mem_cons.mp hx with rfl | hx
    · exact hc
    · exact hsubtype x hx

/-- Letters that match a word have in them only what the word's could be. -/
theorem forall_of_folds {P : Char → Prop} {w t : Text} (h : List.Forall₂ (fun c x => sameFold c x = true) w t)
    (hP : ∀ c ∈ w, ∀ x, sameFold c x = true → P x) : ∀ x ∈ t, P x := by
  induction h with
  | nil => exact fun x hx => absurd hx List.not_mem_nil
  | @cons c y w t hc hrest ih =>
    intro x hx
    rcases List.mem_cons.mp hx with rfl | hx
    · exact hP c List.mem_cons_self x hc
    · exact ih (fun d hd => hP d (List.mem_cons_of_mem _ hd)) x hx

/-- A comma is no letter in another case. -/
theorem ne_comma_of_fold {c x : Char} (hc : sameFold c ',' = false) (h : sameFold c x = true) : x ≠ ',' := by
  rintro rfl
  rw [hc] at h
  cases h

theorem eq_comma_of_fold {x : Char} (h : sameFold ',' x = true) : x = ',' := by
  simpa [sameFold] using h

/-- The one comma of an image is in front of its content, which is not empty. -/
theorem imageOf_eq_some {url subtype : Text} {content : Bytes} (h : imageOf url = some (subtype, content)) :
    ∃ x payload, url = x ++ ',' :: payload ∧ ',' ∉ x ∧ payload ≠ [] ∧
      (∀ c ∈ payload, c ≠ ',' ∧ c ≠ ';') ∧ ∃ c ∈ (Text.trimSpace url).head?, sameFold 'd' c = true := by
  unfold imageOf at h
  obtain ⟨⟨subtype', payload⟩, himage, h⟩ := Option.bind_eq_some_iff.mp h
  obtain ⟨decoded, hdecoded, h⟩ := Option.bind_eq_some_iff.mp h
  have hne : decoded ≠ [] := by
    rintro rfl
    rw [if_pos rfl] at h
    cases h
  have hpayload : payload ≠ [] := by
    rintro rfl
    exact hne (Option.some.inj hdecoded).symm
  obtain ⟨start, marker, hsplit, hstart, hsubtype, hmarker, hall⟩ := dataImage_eq_some himage
  have hcomma : ∀ w : Text, (∀ c ∈ w, sameFold c ',' = false) → ∀ c ∈ w, ∀ x, sameFold c x = true → x ≠ ',' :=
    fun w hw c hc x => ne_comma_of_fold (hw c hc)
  -- the marker is seven characters without a comma, and the comma
  have hseven : ∀ x ∈ marker.take 7, x ≠ ',' :=
    forall_of_folds (List.forall₂_take 7 hmarker) (hcomma _ (by decide))
  have hlast : marker.drop 7 = [','] := by
    obtain ⟨x, t, hx, ht, hdrop⟩ := List.forall₂_cons_left_iff.mp (List.forall₂_drop 7 hmarker)
    obtain rfl := List.forall₂_nil_left_iff.mp ht
    rw [hdrop, eq_comma_of_fold hx]
  have hsubtype_comma : ',' ∉ subtype' := fun hmem => absurd (hsubtype _ hmem) (by decide)
  have hstart_comma := forall_of_folds hstart (hcomma _ (by decide))
  obtain ⟨x, y, hurl, hx, hy⟩ := Text.exists_trimSpace url
  have hspace {t : Text} (ht : ∀ c ∈ t, Text.isSpace c = true) : ∀ c ∈ t, c ≠ ',' ∧ c ≠ ';' := by
    intro c hc
    have hblank := ht c hc
    constructor
    · rintro rfl
      exact absurd hblank (by decide)
    · rintro rfl
      exact absurd hblank (by decide)
  refine ⟨x ++ start ++ subtype' ++ marker.take 7, payload ++ y, ?_, ?_, ?_, ?_, ?_⟩
  · have hmarker_eq : marker = marker.take 7 ++ [','] := by rw [← hlast, List.take_append_drop]
    conv_lhs => rw [hurl, hsplit, hmarker_eq]
    simp
  · intro hmem
    simp only [List.mem_append] at hmem
    rcases hmem with ((hmem | hmem) | hmem) | hmem
    · exact (hspace hx _ hmem).1 rfl
    · exact hstart_comma _ hmem rfl
    · exact hsubtype_comma hmem
    · exact hseven _ hmem rfl
  · exact List.append_ne_nil_of_left_ne_nil hpayload y
  · intro c hc
    rcases List.mem_append.mp hc with hc | hc
    · have hpay := hall c hc
      constructor
      · rintro rfl
        exact absurd hpay (by decide)
      · rintro rfl
        exact absurd hpay (by decide)
    · exact hspace hy c hc
  · obtain ⟨d, start, hd, -, rfl⟩ := List.forall₂_cons_left_iff.mp hstart
    refine ⟨d, ?_, hd⟩
    rw [hsplit]
    rfl

/-- The reference to an attachment. -/
def cidOf (id : Text) : Text := "cid:".toList ++ id

/-- What a content id is made of. -/
theorem forall_newContentID {P : Char → Prop} (hii : ∀ c ∈ "ii_".toList, P c) (h : ∀ n < 16, P (Nat.digitChar n))
    (random : Bytes) : ∀ c ∈ newContentID random, P c := by
  intro c hc
  rcases List.mem_append.mp hc with hc | hc
  · exact hii c hc
  · obtain ⟨b, -, hc⟩ := List.mem_flatMap.mp hc
    exact forall_hexByte h hc

/-- A reference is no image. -/
theorem imageOf_cid (id : Text) : imageOf (cidOf id) = none := by
  cases himage : imageOf (cidOf id) with
  | none => rfl
  | some image =>
    obtain ⟨-, -, -, -, -, -, c, hc, hfold⟩ := imageOf_eq_some himage
    have hhead : (Text.trimSpace (cidOf id)).head? = some 'c' := Text.head_trimSpace (by decide) _
    obtain rfl := Option.some.inj (hhead.symm.trans hc)
    exact absurd hfold (by decide)

/-! ### A conversion -/

/-- The attachments of the one are those of the other and some more. -/
def InlineConv.Extends (c c' : InlineConv) : Prop := c.atts <+: c'.atts

theorem InlineConv.Extends.refl (c : InlineConv) : c.Extends c := List.prefix_refl _

theorem InlineConv.Extends.trans {a b c : InlineConv} (hab : a.Extends b) (hbc : b.Extends c) : a.Extends c :=
  List.IsPrefix.trans hab hbc

/-- **What becomes of a URL**, if nothing is too large. -/
theorem convertURL_spec {random : Nat → Bytes} {raw : Text} {c : InlineConv}
    (h : (convertURL random raw c).2.err = none) : c.err = none ∧
      ((imageOf raw = none ∧ convertURL random raw c = (none, c)) ∨
        ∃ subtype content, imageOf raw = some (subtype, content) ∧
          (convertURL random raw c).1 = some (cidOf (newContentID (random c.atts.length))) ∧
          (convertURL random raw c).2.atts =
            c.atts ++ [imageAttachment (newContentID (random c.atts.length)) subtype content]) := by
  unfold convertURL at h ⊢
  cases herr : c.err with
  | some e =>
    rw [herr, Option.isSome_some, if_pos rfl] at h
    rw [herr] at h
    cases h
  | none =>
    rw [herr, Option.isSome_none, if_neg Bool.false_ne_true] at h
    rw [Option.isSome_none, if_neg Bool.false_ne_true]
    refine ⟨rfl, ?_⟩
    cases himage : dataImage (Text.trimSpace raw) with
    | none =>
      left
      refine ⟨?_, rfl⟩
      unfold imageOf
      rw [himage]
      rfl
    | some image =>
      obtain ⟨subtype, payload⟩ := image
      rw [himage] at h
      dsimp only at h ⊢
      by_cases hone : maxInlineDataURI < base64Len payload / 4 * 3
      · rw [if_pos hone] at h
        cases h
      rw [if_neg hone] at h ⊢
      by_cases hall : maxAttachmentTotal < c.total + base64Len payload / 4 * 3
      · rw [if_pos hall] at h
        cases h
      rw [if_neg hall] at h ⊢
      cases hdecoded : decodeString (stripWS payload) with
      | none =>
        left
        refine ⟨?_, rfl⟩
        rw [imageOf_of_dataImage himage, hdecoded]
        rfl
      | some decoded =>
        have himageOf : imageOf raw = if decoded = [] then none else some (subtype, decoded) := by
          rw [imageOf_of_dataImage himage, hdecoded]
          rfl
        dsimp only
        by_cases hnil : decoded = []
        · left
          rw [himageOf, if_pos hnil, if_pos hnil]
          exact ⟨rfl, rfl⟩
        · right
          rw [himageOf, if_neg hnil, if_neg hnil]
          exact ⟨subtype, decoded, rfl, rfl, rfl⟩

/-! ### One after another -/

section each

variable {α β σ : Type} {f : α → σ → β × σ}

/-- **What holds of each** when it is done and cannot be undone holds of all in the end. -/
theorem each_rule {ok : σ → Prop} {le : σ → σ → Prop} {R : α → β → σ → Prop}
    (refl : ∀ s, le s s) (trans : ∀ {a b c}, le a b → le b c → le a c)
    (mono : ∀ {a b s s'}, le s s' → R a b s → R a b s')
    (step : ∀ a s, ok (f a s).2 → ok s ∧ le s (f a s).2 ∧ R a (f a s).1 (f a s).2) (l : List α) :
    ∀ s, ok (each f l s).2 → ok s ∧ le s (each f l s).2 ∧
      List.Forall₂ (fun a b => R a b (each f l s).2) l (each f l s).1 := by
  induction l with
  | nil => exact fun s hs => ⟨hs, refl s, .nil⟩
  | cons a l ih =>
    intro s hs
    obtain ⟨hok, hle, hrest⟩ := ih (f a s).2 hs
    obtain ⟨hok', hle', hR⟩ := step a s hok
    exact ⟨hok', trans hle' hle, .cons (mono hle hR) hrest⟩

end each

end FlyMail.Send
