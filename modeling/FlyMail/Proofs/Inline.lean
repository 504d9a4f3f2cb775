/-
What becomes of a text whose images are attached.

Reading a tag decodes its names and values in the bytes it was read from, and these are what is copied when
nothing in the tag is an image: a tag with an upper case letter or a character reference may be changed, and
a tag without its end is lost.  All else is as it should be: every reference stands for one attachment with
the content of the image it replaces, and every attachment is referred to.

What is to come out is described by what is cited: a relation between a piece of the input, a piece of the
output, and the attachments that the output refers to and the input does not.  A piece that cites nothing is
left whole.
-/
import FlyMail.Proofs.DataUrl
import Mathlib.Data.List.Nodup

namespace FlyMail.Send

open Pattern

/-! ### What is cited -/

section cites

variable {α β γ : Type}

/-- What is cited by one after another. -/
inductive CitesAll (R : α → β → List Attachment → Prop) : List α → List β → List Attachment → Prop
  | nil : CitesAll R [] [] []
  | cons {a : α} {b : β} {c : List Attachment} {as : List α} {bs : List β} {cs : List Attachment} :
      R a b c → CitesAll R as bs cs → CitesAll R (a :: as) (b :: bs) (c ++ cs)

/-- Something made of parts, left whole if there is nothing to be cited. -/
def CitesWhole (R : α → β → List Attachment → Prop) (parts : List α) (glue : List β → γ) (whole out : γ)
    (cited : List Attachment) : Prop :=
  ∃ outs, CitesAll R parts outs cited ∧ out = if cited = [] then whole else glue outs

/-- How much is cited depends on the input only, and what is put in its place on what is cited. -/
def Determined (R : α → β → List Attachment → Prop) : Prop :=
  ∀ ⦃a b b' c c'⦄, R a b c → R a b' c' → c.length = c'.length ∧ (c = c' → b = b')

/-- Something is cited just if there is an image. -/
def Tells (R : α → β → List Attachment → Prop) (image : α → Prop) : Prop :=
  ∀ ⦃a b c⦄, R a b c → (c ≠ [] ↔ image a)

theorem append_ne_nil {c cs : List Attachment} : c ++ cs ≠ [] ↔ c ≠ [] ∨ cs ≠ [] := by
  rw [ne_eq, List.append_eq_nil_iff, not_and_or]

theorem Determined.all {R : α → β → List Attachment → Prop} (h : Determined R) : Determined (CitesAll R) := by
  intro as bs bs' c c' hR hR'
  induction hR generalizing bs' c' with
  | nil =>
    cases hR'
    exact ⟨rfl, fun _ => rfl⟩
  | cons hone hrest ih =>
    cases hR' with
    | cons hone' hrest' =>
      obtain ⟨hlen, heq⟩ := h hone hone'
      obtain ⟨hlens, heqs⟩ := ih hrest'
      refine ⟨by rw [List.length_append, List.length_append, hlen, hlens], fun happend => ?_⟩
      obtain ⟨hc, hcs⟩ := List.append_inj happend hlen
      rw [heq hc, heqs hcs]

theorem Tells.all {R : α → β → List Attachment → Prop} {image : α → Prop} (h : Tells R image) :
    Tells (CitesAll R) fun as => ∃ a ∈ as, image a := by
  intro as bs c hR
  induction hR with
  | nil => simp
  | cons hone hrest ih => exact append_ne_nil.trans ((or_congr (h hone) ih).trans (List.exists_mem_cons_iff _ _ _).symm)

/-- What is left whole need not be the same. -/
theorem Determined.apart {R : α → β → List Attachment → Prop} (h : Determined R) {parts : List α}
    {glue : List β → γ} {whole whole' out out' : γ} {c c' : List Attachment}
    (hR : CitesWhole R parts glue whole out c) (hR' : CitesWhole R parts glue whole' out' c') :
    c.length = c'.length ∧ (c = c' → c ≠ [] → out = out') := by
  obtain ⟨outs, hall, rfl⟩ := hR
  obtain ⟨outs', hall', rfl⟩ := hR'
  obtain ⟨hlen, heq⟩ := h.all hall hall'
  refine ⟨hlen, ?_⟩
  rintro rfl hc
  rw [heq rfl, if_neg hc, if_neg hc]

theorem CitesWhole.of_nil {R : α → β → List Attachment → Prop} {parts : List α} {glue : List β → γ}
    {whole out : γ} (h : CitesWhole R parts glue whole out []) : out = whole := by
  obtain ⟨outs, -, hout⟩ := h
  rwa [if_pos rfl] at hout

theorem Determined.whole {R : α → β → List Attachment → Prop} (h : Determined R) {parts : List α}
    {glue : List β → γ} {whole out out' : γ} {c c' : List Attachment}
    (hR : CitesWhole R parts glue whole out c) (hR' : CitesWhole R parts glue whole out' c') :
    c.length = c'.length ∧ (c = c' → out = out') := by
  obtain ⟨hlen, heq⟩ := h.apart hR hR'
  refine ⟨hlen, ?_⟩
  rintro rfl
  by_cases hc : c = []
  · subst hc
    rw [hR.of_nil, hR'.of_nil]
  · exact heq rfl hc

theorem Tells.whole {R : α → β → List Attachment → Prop} {image : α → Prop} (h : Tells R image) {parts : List α}
    {glue : List β → γ} {whole out : γ} {c : List Attachment} (hR : CitesWhole R parts glue whole out c) :
    c ≠ [] ↔ ∃ a ∈ parts, image a := by
  obtain ⟨outs, hall, -⟩ := hR
  exact h.all hall

end cites

/-- A URL is left, or an attachment with the content of its image is cited in its place. -/
inductive CitesURL (url : Text) : Text → List Attachment → Prop
  | left : imageOf url = none → CitesURL url url []
  | cited {subtype : Text} {content : Bytes} {att : Attachment} : imageOf url = some (subtype, content) →
      att.content = content → CitesURL url (cidOf att.contentID) [att]

def IsImage (url : Text) : Prop := (imageOf url).isSome = true

theorem determined_url : Determined CitesURL := by
  intro url out out' c c' h h'
  cases h with
  | left hnone =>
    cases h' with
    | left => exact ⟨rfl, fun _ => rfl⟩
    | cited himage =>
      rw [hnone] at himage
      cases himage
  | cited himage =>
    cases h' with
    | left hnone =>
      rw [hnone] at himage
      cases himage
    | cited =>
      refine ⟨rfl, fun heq => ?_⟩
      rw [(List.cons.inj heq).1]

theorem tells_url : Tells CitesURL IsImage := by
  intro url out c h
  unfold IsImage
  cases h with
  | left hnone => simp [hnone]
  | cited himage => simp [himage]

/-! ### Candidates, CSS and attributes -/

/-- The URL in a piece is cited, and what is around it kept. -/
def CitesIn {α : Type} (url : α → Text) (whole : α → Text) (put : α → Text → Text) (a : α) (out : Text)
    (cited : List Attachment) : Prop :=
  ∃ ref, CitesURL (url a) ref cited ∧ out = if cited = [] then whole a else put a ref

theorem determined_in {α : Type} {url : α → Text} {whole : α → Text} {put : α → Text → Text} :
    Determined (CitesIn url whole put) := by
  rintro a out out' c c' ⟨ref, href, rfl⟩ ⟨ref', href', rfl⟩
  obtain ⟨hlen, heq⟩ := determined_url href href'
  exact ⟨hlen, fun hc => by rw [heq hc, hc]⟩

theorem tells_in {α : Type} {url : α → Text} {whole : α → Text} {put : α → Text → Text} :
    Tells (CitesIn url whole put) fun a => IsImage (url a) := by
  rintro a out c ⟨ref, href, -⟩
  exact tells_url href

/-- A candidate keeps its descriptor. -/
def withDescriptor (cand ref : Text) : Text :=
  if (splitCandidate cand).2 = [] then ref else ref ++ ' ' :: (splitCandidate cand).2

def CitesSrcset (v : Text) : Text → List Attachment → Prop :=
  CitesWhole (CitesIn (fun cand => (splitCandidate cand).1) id withDescriptor) (splitSrcset v)
    (fun cands => Text.join cands ", ".toList) v

def SrcsetImage (v : Text) : Prop := ∃ cand ∈ splitSrcset v, IsImage (splitCandidate cand).1

/-- The URL of a piece of CSS, if it is one. -/
def pieceURL : Piece Char → Text
  | .kept _ => []
  | .hit _ m => Htmlsan.urlOf m

def pieceText : Piece Char → Text
  | .kept a => [a]
  | .hit cells _ => cells

def CitesCSS (css out : Text) (cited : List Attachment) : Prop :=
  if containsDataImage css then
    CitesWhole (CitesIn pieceURL pieceText fun _ ref => "url(\"".toList ++ ref ++ "\")".toList)
      (Htmlsan.reCSSURL.scan id 0 css) List.flatten css out cited
  else out = css ∧ cited = []

theorem citesCSS_of_data {css : Text} (h : containsDataImage css = true) : CitesCSS css =
    CitesWhole (CitesIn pieceURL pieceText fun _ ref => "url(\"".toList ++ ref ++ "\")".toList)
      (Htmlsan.reCSSURL.scan id 0 css) List.flatten css :=
  funext fun _ => funext fun _ => if_pos h

theorem citesCSS_of_not {css : Text} (h : ¬ containsDataImage css = true) :
    CitesCSS css = fun out cited => out = css ∧ cited = [] :=
  funext fun _ => funext fun _ => if_neg h

def CSSImage (css : Text) : Prop :=
  containsDataImage css = true ∧ ∃ p ∈ Htmlsan.reCSSURL.scan id 0 css, IsImage (pieceURL p)

theorem citesCSS_nil {css out : Text} (h : CitesCSS css out []) : out = css := by
  by_cases hdata : containsDataImage css = true
  · rw [citesCSS_of_data hdata] at h
    exact h.of_nil
  · rw [citesCSS_of_not hdata] at h
    exact h.1

theorem determined_css : Determined CitesCSS := by
  intro css out out' c c' h h'
  unfold CitesCSS at h h'
  by_cases hdata : containsDataImage css = true
  · rw [if_pos hdata] at h h'
    exact Determined.whole determined_in h h'
  · rw [if_neg hdata] at h h'
    obtain ⟨rfl, rfl⟩ := h
    obtain ⟨rfl, rfl⟩ := h'
    exact ⟨rfl, fun _ => rfl⟩

theorem tells_css : Tells CitesCSS CSSImage := by
  intro css out c h
  unfold CitesCSS at h
  unfold CSSImage
  by_cases hdata : containsDataImage css = true
  · rw [if_pos hdata] at h
    rw [Tells.whole tells_in h]
    exact (and_iff_right hdata).symm
  · rw [if_neg hdata] at h
    simp [h.2, hdata]

/-- In an attribute the value is cited from, by what the attribute is. -/
def CitesValue (key v out : Text) (cited : List Attachment) : Prop :=
  if key ∈ inlineURLAttrs then CitesURL v out cited
  else if key = "srcset".toList then CitesSrcset v out cited
  else if key = "style".toList then CitesCSS v out cited
  else out = v ∧ cited = []

def ValueImage (key v : Text) : Prop :=
  if key ∈ inlineURLAttrs then IsImage v
  else if key = "srcset".toList then SrcsetImage v
  else if key = "style".toList then CSSImage v
  else False

theorem determined_value (key : Text) : Determined (CitesValue key) := by
  intro v out out' c c' h h'
  unfold CitesValue at h h'
  by_cases hurl : key ∈ inlineURLAttrs
  · rw [if_pos hurl] at h h'
    exact determined_url h h'
  rw [if_neg hurl] at h h'
  by_cases hsrcset : key = "srcset".toList
  · rw [if_pos hsrcset] at h h'
    exact Determined.whole determined_in h h'
  rw [if_neg hsrcset] at h h'
  by_cases hstyle : key = "style".toList
  · rw [if_pos hstyle] at h h'
    exact determined_css h h'
  · rw [if_neg hstyle] at h h'
    obtain ⟨rfl, rfl⟩ := h
    obtain ⟨rfl, rfl⟩ := h'
    exact ⟨rfl, fun _ => rfl⟩

theorem tells_value (key : Text) : Tells (CitesValue key) (ValueImage key) := by
  intro v out c h
  unfold CitesValue at h
  unfold ValueImage
  by_cases hurl : key ∈ inlineURLAttrs
  · rw [if_pos hurl] at h ⊢
    exact tells_url h
  rw [if_neg hurl] at h ⊢
  by_cases hsrcset : key = "srcset".toList
  · rw [if_pos hsrcset] at h ⊢
    exact Tells.whole tells_in h
  rw [if_neg hsrcset] at h ⊢
  by_cases hstyle : key = "style".toList
  · rw [if_pos hstyle] at h ⊢
    exact tells_css h
  · rw [if_neg hstyle] at h ⊢
    exact iff_of_false (not_not_intro h.2) not_false

/-- An attribute keeps its name. -/
def CitesAttr (a b : Text × Text) (cited : List Attachment) : Prop := b.1 = a.1 ∧ CitesValue (lower a.1) a.2 b.2 cited

theorem determined_attr : Determined CitesAttr := by
  rintro a b b' c c' ⟨hkey, hvalue⟩ ⟨hkey', hvalue'⟩
  obtain ⟨hlen, heq⟩ := determined_value _ hvalue hvalue'
  exact ⟨hlen, fun hc => Prod.ext (hkey.trans hkey'.symm) (heq hc)⟩

theorem tells_attr : Tells CitesAttr fun a => ValueImage (lower a.1) a.2 :=
  fun _ _ _ h => tells_value _ h.2

/-! ### What the conversion does -/

/-- The content ids are those that are drawn, in turn. -/
def Numbered (random : Nat → Bytes) (atts : List Attachment) : Prop :=
  atts.map Attachment.contentID = (List.range atts.length).map fun n => newContentID (random n)

/-- From one state to another, with what is attached on the way. -/
structure Step (random : Nat → Bytes) (s s' : InlineConv) (cited : List Attachment) : Prop where
  ok : s.err = none
  atts : s'.atts = s.atts ++ cited
  numbered : Numbered random s.atts → Numbered random s'.atts

section step

variable {random : Nat → Bytes} {α β γ : Type}

theorem Step.refl {s : InlineConv} (h : s.err = none) : Step random s s [] := ⟨h, (List.append_nil _).symm, id⟩

theorem Step.trans {a b c : InlineConv} {x y : List Attachment} (hab : Step random a b x) (hbc : Step random b c y) :
    Step random a c (x ++ y) where
  ok := hab.ok
  atts := by rw [hbc.atts, hab.atts, List.append_assoc]
  numbered h := hbc.numbered (hab.numbered h)

theorem numbered_concat {atts : List Attachment} (h : Numbered random atts) (subtype : Text) (content : Bytes) :
    Numbered random (atts ++ [imageAttachment (newContentID (random atts.length)) subtype content]) := by
  unfold Numbered at h ⊢
  rw [List.map_append, h, List.length_append, List.length_singleton, List.range_succ, List.map_append]
  rfl

theorem convertURL_cites {raw : Text} {s : InlineConv} (h : (convertURL random raw s).2.err = none) :
    ∃ c, Step random s (convertURL random raw s).2 c ∧ CitesURL raw ((convertURL random raw s).1.getD raw) c ∧
      ((convertURL random raw s).1.isSome = true ↔ c ≠ []) := by
  obtain ⟨hok, ⟨hnone, heq⟩ | ⟨subtype, content, himage, hfst, hatts⟩⟩ := convertURL_spec h
  · refine ⟨[], ?_, ?_, ?_⟩
    · rw [heq]
      exact .refl hok
    · rw [heq]
      exact .left hnone
    · simp [heq]
  · refine ⟨[imageAttachment (newContentID (random s.atts.length)) subtype content], ⟨hok, hatts, fun hs => ?_⟩, ?_, ?_⟩
    · rw [hatts]
      exact numbered_concat hs subtype content
    · rw [hfst]
      exact @CitesURL.cited raw subtype content (imageAttachment (newContentID (random s.atts.length)) subtype content)
        himage rfl
    · simp [hfst]

/-- What is converted has its mark. -/
def Flagged (R : α → β → List Attachment → Prop) (a : α) (out : β × Bool) (cited : List Attachment) : Prop :=
  R a out.1 cited ∧ (out.2 = true ↔ cited ≠ [])

theorem citesAll_fst {R : α → β → List Attachment → Prop} {as : List α} {outs : List (β × Bool)}
    {c : List Attachment} (h : CitesAll (Flagged R) as outs c) :
    CitesAll R as (outs.map Prod.fst) c ∧ (outs.any Prod.snd = true ↔ c ≠ []) := by
  induction h with
  | nil => exact ⟨.nil, by simp⟩
  | cons hone hrest ih =>
    refine ⟨.cons hone.1 ih.1, ?_⟩
    rw [List.any_cons, Bool.or_eq_true, hone.2, ih.2, append_ne_nil]

/-- **One after another**, what each cites. -/
theorem each_cites {f : α → InlineConv → β × InlineConv} {R : α → β → List Attachment → Prop}
    (step : ∀ a s, (f a s).2.err = none → ∃ c, Step random s (f a s).2 c ∧ R a (f a s).1 c) (l : List α) :
    ∀ s, (each f l s).2.err = none → ∃ c, Step random s (each f l s).2 c ∧ CitesAll R l (each f l s).1 c := by
  induction l with
  | nil => exact fun s hs => ⟨[], .refl hs, .nil⟩
  | cons a l ih =>
    intro s hs
    obtain ⟨cs, hrest, hall⟩ := ih (f a s).2 hs
    obtain ⟨c, hone, hR⟩ := step a s hrest.ok
    exact ⟨c ++ cs, hone.trans hrest, .cons hR hall⟩

/-- What is put together of parts if any of them is converted. -/
theorem whole_cites {f : α → InlineConv → (β × Bool) × InlineConv} {R : α → β → List Attachment → Prop}
    (step : ∀ a s, (f a s).2.err = none → ∃ c, Step random s (f a s).2 c ∧ Flagged R a (f a s).1 c)
    (glue : List β → γ) (whole : γ) {l : List α} {s : InlineConv} (h : (each f l s).2.err = none) :
    ∃ c, Step random s (each f l s).2 c ∧
      CitesWhole R l glue whole
        (if (each f l s).1.any Prod.snd then glue ((each f l s).1.map Prod.fst) else whole) c ∧
      ((each f l s).1.any Prod.snd = true ↔ c ≠ []) := by
  obtain ⟨c, hstep, hall⟩ := each_cites step l s h
  obtain ⟨hall, hany⟩ := citesAll_fst hall
  refine ⟨c, hstep, ⟨_, hall, ?_⟩, hany⟩
  by_cases hc : c = []
  · rw [if_pos hc, if_neg (by simp [hany, hc])]
  · rw [if_neg hc, if_pos (hany.mpr hc)]

theorem convertCandidate_cites (cand : Text) (s : InlineConv) (h : (convertCandidate random cand s).2.err = none) :
    ∃ c, Step random s (convertCandidate random cand s).2 c ∧
      Flagged (CitesIn (fun cand => (splitCandidate cand).1) id withDescriptor) cand
        (convertCandidate random cand s).1 c := by
  unfold convertCandidate at h ⊢
  have hurl := @convertURL_cites random (splitCandidate cand).1 s
  generalize convertURL random (splitCandidate cand).1 s = r at h hurl ⊢
  obtain ⟨o, s'⟩ := r
  cases o with
  | none =>
    obtain ⟨c, hstep, hcites, hsome⟩ := hurl h
    have hc : c = [] := by simpa using hsome
    refine ⟨c, hstep, ⟨_, hcites, ?_⟩, ?_⟩
    · rw [if_pos hc]
      rfl
    · simp [hc]
  | some ref =>
    obtain ⟨c, hstep, hcites, hsome⟩ := hurl h
    have hc : c ≠ [] := by simpa using hsome
    refine ⟨c, hstep, ⟨_, hcites, ?_⟩, ?_⟩
    · rw [if_neg hc]
      rfl
    · simp [hc]

theorem convertPiece_cites (p : Piece Char) (s : InlineConv) (h : (convertPiece random p s).2.err = none) :
    ∃ c, Step random s (convertPiece random p s).2 c ∧
      Flagged (CitesIn pieceURL pieceText fun _ ref => "url(\"".toList ++ ref ++ "\")".toList) p
        (convertPiece random p s).1 c := by
  cases p with
  | kept a =>
    refine ⟨[], .refl h, ⟨[], .left (by rfl), rfl⟩, ?_⟩
    simp [convertPiece]
  | hit cells m =>
    unfold convertPiece at h ⊢
    have hurl := @convertURL_cites random (Htmlsan.urlOf m) s
    dsimp only at h ⊢
    generalize convertURL random (Htmlsan.urlOf m) s = r at h hurl ⊢
    obtain ⟨o, s'⟩ := r
    cases o with
    | none =>
      obtain ⟨c, hstep, hcites, hsome⟩ := hurl h
      have hc : c = [] := by simpa using hsome
      refine ⟨c, hstep, ⟨_, hcites, ?_⟩, ?_⟩
      · rw [if_pos hc]
        rfl
      · simp [hc]
    | some ref =>
      obtain ⟨c, hstep, hcites, hsome⟩ := hurl h
      have hc : c ≠ [] := by simpa using hsome
      refine ⟨c, hstep, ⟨_, hcites, ?_⟩, ?_⟩
      · rw [if_neg hc]
        rfl
      · simp [hc]

theorem convertSrcset_cites {v : Text} {s : InlineConv} (h : (convertSrcset random v s).2.err = none) :
    ∃ c, Step random s (convertSrcset random v s).2 c ∧ CitesSrcset v ((convertSrcset random v s).1.getD v) c ∧
      ((convertSrcset random v s).1.isSome = true ↔ c ≠ []) := by
  have hwhole := @whole_cites random _ _ _ _ _ convertCandidate_cites (fun cands => Text.join cands ", ".toList) v
    (splitSrcset v) s
  unfold convertSrcset at h ⊢
  generalize each (convertCandidate random) (splitSrcset v) s = r at h hwhole ⊢
  obtain ⟨outs, s'⟩ := r
  dsimp only at h hwhole ⊢
  by_cases hany : outs.any Prod.snd = true
  · rw [if_pos hany] at h hwhole ⊢
    obtain ⟨c, hstep, hcites, hiff⟩ := hwhole h
    exact ⟨c, hstep, hcites, iff_of_true rfl (hiff.mp hany)⟩
  · rw [if_neg hany] at h hwhole ⊢
    obtain ⟨c, hstep, hcites, hiff⟩ := hwhole h
    exact ⟨c, hstep, hcites, iff_of_false Bool.false_ne_true fun hc => hany (hiff.mpr hc)⟩

theorem convertCSS_cites {css : Text} {s : InlineConv} (h : (convertCSS random css s).2.err = none) :
    ∃ c, Step random s (convertCSS random css s).2 c ∧ CitesCSS css ((convertCSS random css s).1.getD css) c ∧
      ((convertCSS random css s).1.isSome = true ↔ c ≠ []) := by
  unfold convertCSS at h ⊢
  by_cases hdata : containsDataImage css = true
  · rw [if_pos hdata] at h ⊢
    have hwhole := @whole_cites random _ _ _ _ _ convertPiece_cites List.flatten css
      (Htmlsan.reCSSURL.scan id 0 css) s
    rw [citesCSS_of_data hdata]
    generalize each (convertPiece random) (Htmlsan.reCSSURL.scan id 0 css) s = r at h hwhole ⊢
    obtain ⟨outs, s'⟩ := r
    dsimp only at h hwhole ⊢
    by_cases hany : outs.any Prod.snd = true
    · rw [if_pos hany] at h hwhole ⊢
      obtain ⟨c, hstep, hcites, hiff⟩ := hwhole h
      exact ⟨c, hstep, hcites, iff_of_true rfl (hiff.mp hany)⟩
    · rw [if_neg hany] at h hwhole ⊢
      obtain ⟨c, hstep, hcites, hiff⟩ := hwhole h
      exact ⟨c, hstep, hcites, iff_of_false Bool.false_ne_true fun hc => hany (hiff.mpr hc)⟩
  · rw [if_neg hdata] at h ⊢
    rw [citesCSS_of_not hdata]
    exact ⟨[], .refl h, ⟨rfl, rfl⟩, iff_of_false Bool.false_ne_true (not_not_intro rfl)⟩

theorem convertAttr_eq (a : Text × Text) (s : InlineConv) : convertAttr random a s =
    (((a.1, (convertValue random (lower a.1) a.2 s).1.getD a.2), (convertValue random (lower a.1) a.2 s).1.isSome),
      (convertValue random (lower a.1) a.2 s).2) := by
  unfold convertAttr
  generalize convertValue random (lower a.1) a.2 s = r
  obtain ⟨o, s'⟩ := r
  cases o with
  | none => rfl
  | some v => rfl

theorem convertValue_cites {key v : Text} {s : InlineConv} (h : (convertValue random key v s).2.err = none) :
    ∃ c, Step random s (convertValue random key v s).2 c ∧ CitesValue key v ((convertValue random key v s).1.getD v) c ∧
      ((convertValue random key v s).1.isSome = true ↔ c ≠ []) := by
  unfold convertValue at h ⊢
  by_cases hurl : key ∈ inlineURLAttrs
  · have hvalue : CitesValue key = CitesURL := funext fun _ => funext fun _ => funext fun _ => if_pos hurl
    rw [if_pos hurl] at h ⊢
    rw [hvalue]
    exact convertURL_cites h
  by_cases hsrcset : key = "srcset".toList
  · have hvalue : CitesValue key = CitesSrcset :=
      funext fun _ => funext fun _ => funext fun _ => (if_neg hurl).trans (if_pos hsrcset)
    rw [if_neg hurl, if_pos hsrcset] at h ⊢
    rw [hvalue]
    exact convertSrcset_cites h
  by_cases hstyle : key = "style".toList
  · have hvalue : CitesValue key = CitesCSS :=
      funext fun _ => funext fun _ => funext fun _ => (if_neg hurl).trans ((if_neg hsrcset).trans (if_pos hstyle))
    rw [if_neg hurl, if_neg hsrcset, if_pos hstyle] at h ⊢
    rw [hvalue]
    exact convertCSS_cites h
  · have hvalue : CitesValue key = fun v out cited => out = v ∧ cited = [] :=
      funext fun _ => funext fun _ => funext fun _ => (if_neg hurl).trans ((if_neg hsrcset).trans (if_neg hstyle))
    rw [if_neg hurl, if_neg hsrcset, if_neg hstyle] at h ⊢
    rw [hvalue]
    exact ⟨[], .refl h, ⟨rfl, rfl⟩, iff_of_false Bool.false_ne_true (not_not_intro rfl)⟩

theorem convertAttr_cites (a : Text × Text) (s : InlineConv) (h : (convertAttr random a s).2.err = none) :
    ∃ c, Step random s (convertAttr random a s).2 c ∧ Flagged CitesAttr a (convertAttr random a s).1 c := by
  rw [convertAttr_eq] at h ⊢
  obtain ⟨c, hstep, hcites, hsome⟩ := convertValue_cites h
  exact ⟨c, hstep, ⟨rfl, hcites⟩, hsome⟩

theorem rewriteTag_cites {t : Tag} {s : InlineConv} (h : (rewriteTag random t s).2.err = none) :
    ∃ c, Step random s (rewriteTag random t s).2 c ∧ ∃ attrs, CitesAll CitesAttr t.attrs attrs c ∧
      (rewriteTag random t s).1 = if c = [] then none else some { t with attrs := attrs } := by
  have hall := each_cites (@convertAttr_cites random) t.attrs s
  unfold rewriteTag at h ⊢
  generalize each (convertAttr random) t.attrs s = r at h hall ⊢
  obtain ⟨outs, s'⟩ := r
  dsimp only at h hall ⊢
  by_cases hany : outs.any Prod.snd = true
  · rw [if_pos hany] at h ⊢
    obtain ⟨c, hstep, hcites⟩ := hall h
    obtain ⟨hattrs, hiff⟩ := citesAll_fst hcites
    exact ⟨c, hstep, _, hattrs, (if_neg (hiff.mp hany)).symm⟩
  · rw [if_neg hany] at h ⊢
    obtain ⟨c, hstep, hcites⟩ := hall h
    obtain ⟨hattrs, hiff⟩ := citesAll_fst hcites
    exact ⟨c, hstep, _, hattrs, (if_pos (not_not.mp fun hc => hany (hiff.mpr hc))).symm⟩

end step

/-! ### Tokens -/

/-- Whether what is behind a token is a style sheet. -/
def opensStyle (isStyle : StartTag → Bool) : Token → Bool
  | .startTag t => isStyle t
  | .text _ | .other _ => false

/-- The tokens, each with whether it is behind the start tag of a style sheet. -/
def marked (isStyle : StartTag → Bool) : Bool → List Token → List (Bool × Token)
  | _, [] => []
  | inStyle, token :: rest => (inStyle, token) :: marked isStyle (opensStyle isStyle token) rest

/-- Attributes as they are written. -/
def writtenAttrs (tk : Tokenizer) : Text → List (Text × Text) → List RawAttr
  | _, [] => []
  | before, a :: rest => ⟨before, a.1, "=\"".toList, tk.escape a.2⟩ :: writtenAttrs tk "\" ".toList rest

/-- A tag as it is written. -/
def writtenTag (tk : Tokenizer) (t : Tag) (selfClosing : Bool) : StartTag where
  opening := ['<']
  name := t.data
  attrs := writtenAttrs tk [' '] t.attrs
  closing := (if t.attrs = [] then [] else ['"']) ++ (if selfClosing then " /".toList else []) ++ ['>']
  selfClosing := selfClosing

theorem raw_writtenAttrs (tk : Tokenizer) (rest : List (Text × Text)) : ∀ (before : Text) (a : Text × Text),
    (writtenAttrs tk before (a :: rest)).flatMap RawAttr.raw ++ ['"'] =
      before ++ (a.1 ++ "=\"".toList ++ tk.escape a.2 ++ ['"']) ++
        rest.flatMap fun a => ' ' :: a.1 ++ "=\"".toList ++ tk.escape a.2 ++ ['"'] := by
  induction rest with
  | nil =>
    intro before a
    simp [writtenAttrs, RawAttr.raw]
  | cons b rest ih =>
    intro before a
    rw [writtenAttrs, List.flatMap_cons, List.append_assoc, ih]
    simp [RawAttr.raw]

theorem raw_writtenTag (tk : Tokenizer) (t : Tag) (selfClosing : Bool) :
    (writtenTag tk t selfClosing).raw = writeTag tk t selfClosing := by
  obtain ⟨data, attrs⟩ := t
  unfold StartTag.raw writtenTag writeTag
  cases attrs with
  | nil => simp [writtenAttrs]
  | cons a rest =>
    have hattrs := raw_writtenAttrs tk rest [' '] a
    dsimp only at hattrs ⊢
    rw [if_neg (List.cons_ne_nil a rest), List.flatMap_cons, ← List.append_assoc, ← List.append_assoc,
      List.append_assoc (['<'] ++ data), hattrs]
    simp

/-- **A tag that is written is read** as it was meant. -/
theorem token_writtenTag (tk : Tokenizer) {t : Tag} (selfClosing : Bool) (hdata : t.data.map Char.toLower = t.data)
    (hkeys : ∀ a ∈ t.attrs, a.1.map Char.toLower = a.1) : tk.token (writtenTag tk t selfClosing) = t := by
  have hattrs (attrs : List (Text × Text)) (hkeys : ∀ a ∈ attrs, a.1.map Char.toLower = a.1) : ∀ before,
      (writtenAttrs tk before attrs).map (fun a => (a.key.map Char.toLower, tk.unescape (convertNewlines a.val))) =
        attrs := by
    induction attrs with
    | nil => exact fun before => rfl
    | cons a rest ih =>
      intro before
      rw [writtenAttrs, List.map_cons, ih fun b hb => hkeys b (List.mem_cons_of_mem _ hb)]
      dsimp only
      rw [hkeys a List.mem_cons_self, tk.unescape_escape]
  obtain ⟨data, attrs⟩ := t
  unfold Tokenizer.token writtenTag
  dsimp only
  rw [hattrs attrs hkeys, hdata]

/-- What a token becomes: a tag in which nothing is cited is `whole`, and in a style sheet the text is CSS. -/
def CitesToken (tk : Tokenizer) (whole : StartTag → Bytes) : Bool × Token → Bytes → List Attachment → Prop
  | (_, .startTag t), out, cited =>
      CitesWhole CitesAttr (tk.token t).attrs
        (fun attrs => Utf8.encode (writtenTag tk ⟨(tk.token t).data, attrs⟩ t.selfClosing).raw) (whole t) out cited
  | (true, .text raw), out, cited => ∃ css, CitesCSS raw css cited ∧ out = Utf8.encode css
  | (false, .text raw), out, cited | (_, .other raw), out, cited => out = Utf8.encode raw ∧ cited = []

/-- How the code tells a style sheet. -/
def foldsStyle (tk : Tokenizer) (t : StartTag) : Bool := equalFold (tk.token t).data "style"

section token

variable {tk : Tokenizer} {random : Nat → Bytes}

theorem inlineToken_startTag (inStyle : Bool) (t : StartTag) (s : InlineConv) :
    inlineToken tk random inStyle (.startTag t) s =
      (((rewriteTag random (tk.token t) s).1.map fun tag' => Utf8.encode (writeTag tk tag' t.selfClosing)).getD (tk.left t),
        foldsStyle tk t, (rewriteTag random (tk.token t) s).2) := by
  unfold inlineToken
  dsimp only
  generalize rewriteTag random (tk.token t) s = r
  obtain ⟨o, s'⟩ := r
  cases o with
  | none => rfl
  | some tag' => rfl

theorem inlineToken_text (inStyle : Bool) (raw : Text) (s : InlineConv) :
    inlineToken tk random inStyle (.text raw) s =
      if inStyle then (Utf8.encode ((convertCSS random raw s).1.getD raw), false, (convertCSS random raw s).2)
      else (Utf8.encode raw, false, s) := by
  unfold inlineToken
  dsimp only
  cases inStyle with
  | false => rfl
  | true =>
    rw [if_pos rfl, if_pos rfl]
    generalize convertCSS random raw s = r
    obtain ⟨o, s'⟩ := r
    cases o with
    | none => rfl
    | some css => rfl

theorem inlineToken_cites (inStyle : Bool) (token : Token) (s : InlineConv)
    (h : (inlineToken tk random inStyle token s).2.2.err = none) :
    ∃ c, Step random s (inlineToken tk random inStyle token s).2.2 c ∧
      CitesToken tk tk.left (inStyle, token) (inlineToken tk random inStyle token s).1 c := by
  cases token with
  | startTag t =>
    rw [inlineToken_startTag] at h ⊢
    obtain ⟨c, hstep, attrs, hattrs, heq⟩ := rewriteTag_cites h
    refine ⟨c, hstep, attrs, hattrs, ?_⟩
    rw [heq]
    by_cases hc : c = []
    · rw [if_pos hc, if_pos hc]
      rfl
    · rw [if_neg hc, if_neg hc]
      exact congrArg Utf8.encode (raw_writtenTag tk _ _).symm
  | text raw =>
    rw [inlineToken_text] at h ⊢
    cases inStyle with
    | false => exact ⟨[], .refl h, rfl, rfl⟩
    | true =>
      rw [if_pos rfl] at h ⊢
      obtain ⟨c, hstep, hcites, -⟩ := convertCSS_cites h
      exact ⟨c, hstep, _, hcites, rfl⟩
  | other raw =>
    cases inStyle with
    | false => exact ⟨[], .refl h, rfl, rfl⟩
    | true => exact ⟨[], .refl h, rfl, rfl⟩

/-- **What the code writes**, token by token. -/
theorem inlineTokens_cites (tokens : List Token) : ∀ inStyle s,
    (inlineTokens tk random inStyle tokens s).2.err = none →
    ∃ c outs, Step random s (inlineTokens tk random inStyle tokens s).2 c ∧
      CitesAll (CitesToken tk tk.left) (marked (foldsStyle tk) inStyle tokens) outs c ∧
      (inlineTokens tk random inStyle tokens s).1 = outs.flatten := by
  induction tokens with
  | nil => exact fun inStyle s hs => ⟨[], [], .refl hs, .nil, rfl⟩
  | cons token rest ih =>
    intro inStyle s hs
    have hok : s.err.isSome = false := by
      by_contra hsome
      rw [inlineTokens, if_pos (by rwa [Bool.not_eq_false] at hsome)] at hs
      change s.err = none at hs
      rw [hs] at hsome
      exact hsome (by rfl)
    have heq : inlineTokens tk random inStyle (token :: rest) s =
        ((inlineToken tk random inStyle token s).1 ++
          (inlineTokens tk random (inlineToken tk random inStyle token s).2.1 rest
            (inlineToken tk random inStyle token s).2.2).1,
          (inlineTokens tk random (inlineToken tk random inStyle token s).2.1 rest
            (inlineToken tk random inStyle token s).2.2).2) := by
      rw [inlineTokens, hok]
      rfl
    rw [heq] at hs ⊢
    obtain ⟨cs, outs, hrest, hall, hflatten⟩ := ih _ _ hs
    obtain ⟨c, hone, hcites⟩ := inlineToken_cites inStyle token s hrest.ok
    refine ⟨c ++ cs, _ :: outs, hone.trans hrest, ?_, congrArg _ hflatten⟩
    have hmarked : marked (foldsStyle tk) inStyle (token :: rest) =
        (inStyle, token) :: marked (foldsStyle tk) (inlineToken tk random inStyle token s).2.1 rest := by
      cases token with
      | startTag t =>
        rw [inlineToken_startTag, marked]
        rfl
      | text raw =>
        rw [inlineToken_text, marked]
        cases inStyle with
        | false => rfl
        | true => rfl
      | other raw => rfl
    rw [hmarked]
    exact .cons hcites hall

end token

/-! ### What is to come out -/

/-- How a style sheet is told. -/
def namesStyle (t : StartTag) : Bool := t.name.map Char.toLower == "style".toList

/-- A token is copied, or its images are attached. -/
def Copied (tk : Tokenizer) (p : Bool × Token) (out : Bytes) (cited : List Attachment) : Prop :=
  (out = Utf8.encode p.2.raw ∧ cited = []) ∨ CitesToken tk (fun t => Utf8.encode t.raw) p out cited

/-- The text with its images attached: each token is copied or cites attachments for its images, all is there
and in order, and no two attachments have one id. -/
structure Inlined (tk : Tokenizer) (input : Text) (out : Bytes) (atts : List Attachment) : Prop where
  copied : ∃ outs, CitesAll (Copied tk) (marked namesStyle false (tk.tokens input)) outs atts ∧
    out = outs.flatten ++ Utf8.encode (tk.rest input)
  distinct : (atts.map Attachment.contentID).Nodup

/-- There is an image in one of the tag's attributes. -/
def HoldsImage (t : Tag) : Prop := ∃ a ∈ t.attrs, ValueImage (lower a.1) a.2

/-- Only a style sheet is taken for one, if there is an image in what is behind it. -/
def StylesAgree (tk : Tokenizer) (a b : Token) : Prop := ∀ t raw, a = .startTag t → b = .text raw →
  foldsStyle tk t = true → namesStyle t = false → ¬ CSSImage raw

section compare

variable {tk : Tokenizer}

theorem foldsStyle_of_namesStyle {t : StartTag} (h : namesStyle t = true) : foldsStyle tk t = true := by
  have hname : (tk.token t).data = "style".toList := beq_iff_eq.mp h
  unfold foldsStyle
  rw [hname]
  decide

theorem length_overwrite {bytes new : Bytes} (h : new.length ≤ bytes.length) :
    (overwrite bytes new).length = bytes.length := by
  unfold overwrite
  rw [List.length_append, List.length_drop]
  omega

theorem length_encode_cons (c : Char) (t : Text) :
    (Utf8.encode (c :: t)).length = (Utf8.encode [c]).length + (Utf8.encode t).length := by
  rw [← List.singleton_append, Utf8.encode_append, List.length_append]

theorem length_convertNewlines (t : Text) :
    (Utf8.encode (convertNewlines t)).length ≤ (Utf8.encode t).length := by
  induction t using convertNewlines.induct with
  | case1 => exact Nat.le_refl _
  | case2 rest ih =>
    rw [convertNewlines, length_encode_cons '\n' (convertNewlines rest), length_encode_cons '\r' ('\n' :: rest),
      length_encode_cons '\n' rest]
    omega
  | case3 c rest hne ih =>
    have hone : (Utf8.encode [if c = '\r' then '\n' else c]).length = (Utf8.encode [c]).length := by
      by_cases hc : c = '\r'
      · rw [if_pos hc, hc]
        rfl
      · rw [if_neg hc]
    rw [convertNewlines, length_encode_cons, length_encode_cons c, hone]
    · omega
    · exact hne

theorem length_toLower (t : Text) : (Utf8.encode (t.map Char.toLower)).length = (Utf8.encode t).length := by
  induction t with
  | nil => rfl
  | cons c t ih =>
    have hone : (Utf8.encode [c.toLower]).length = (Utf8.encode [c]).length := by
      rcases Text.toLower_cases c with heq | ⟨hlow, hhigh, heq⟩
      · rw [heq]
      · rw [Utf8.encode_ascii (by omega), Utf8.encode_ascii (by omega)]
        rfl
    rw [List.map_cons, length_encode_cons, length_encode_cons c, hone, ih]

/-- What is decoded in place takes no more and no less room. -/
theorem length_leftAttr (a : RawAttr) : (tk.leftAttr a).length = (Utf8.encode a.raw).length := by
  have hfirst := length_overwrite (length_convertNewlines a.val)
  have hsecond : (overwrite (overwrite (Utf8.encode a.val) (Utf8.encode (convertNewlines a.val)))
      (Utf8.encode (tk.unescape (convertNewlines a.val)))).length = (Utf8.encode a.val).length := by
    rw [length_overwrite, hfirst]
    rw [hfirst]
    exact Nat.le_trans (tk.unescape_le _) (length_convertNewlines a.val)
  unfold Tokenizer.leftAttr RawAttr.raw
  simp only [List.length_append, Utf8.encode_append, hsecond, length_toLower]

theorem length_left (t : StartTag) : (tk.left t).length = (Utf8.encode t.raw).length := by
  have hattrs (attrs : List RawAttr) :
      (attrs.flatMap tk.leftAttr).length = (Utf8.encode (attrs.flatMap RawAttr.raw)).length := by
    induction attrs with
    | nil => rfl
    | cons a rest ih =>
      rw [List.flatMap_cons, List.flatMap_cons, List.length_append, Utf8.encode_append, List.length_append, ih,
        length_leftAttr]
  unfold Tokenizer.left StartTag.raw
  simp only [List.length_append, Utf8.encode_append, hattrs, length_toLower]

/-- **One token**: what the code writes, and what is to come out. -/
theorem compare_token {mine its : Bool} (himp : its = true → mine = true) {token : Token} {a p : Bytes}
    {c c' : List Attachment} (ha : CitesToken tk tk.left (mine, token) a c) (hp : Copied tk (its, token) p c') :
    c'.length ≤ c.length ∧ (c = c' → a.length = p.length ∧
      (a = p → ∀ t, token = .startTag t → ¬ HoldsImage (tk.token t) → tk.left t = Utf8.encode t.raw) ∧
      (∀ raw, token = .text raw → mine = true → its = false → ¬ CSSImage raw)) := by
  cases token with
  | startTag t =>
    have hleft (hc : c = []) (hraw : p = Utf8.encode t.raw) : a.length = p.length ∧
        (a = p → ∀ t', Token.startTag t = .startTag t' → ¬ HoldsImage (tk.token t') →
          tk.left t' = Utf8.encode t'.raw) := by
      subst hc
      rw [ha.of_nil, hraw]
      refine ⟨length_left t, ?_⟩
      rintro heq t' ⟨⟩ -
      exact heq
    have hstyle : ∀ raw, Token.startTag t = .text raw → mine = true → its = false → ¬ CSSImage raw :=
      fun raw heq => by cases heq
    rcases hp with ⟨hraw, rfl⟩ | hp
    · refine ⟨Nat.zero_le _, fun hc => ?_⟩
      obtain ⟨hlen, heq⟩ := hleft hc hraw
      exact ⟨hlen, heq, hstyle⟩
    · obtain ⟨hlen, heq⟩ := determined_attr.apart ha hp
      refine ⟨hlen.ge, ?_⟩
      rintro rfl
      by_cases hc : c = []
      · obtain ⟨hlen, heq⟩ := hleft hc (by subst hc; exact hp.of_nil)
        exact ⟨hlen, heq, hstyle⟩
      · refine ⟨congrArg List.length (heq rfl hc), ?_, hstyle⟩
        rintro - t' ⟨⟩ hnone
        exact absurd (tells_attr.whole ha |>.mp hc) hnone
  | text raw =>
    have htag : a = p → ∀ t, Token.text raw = .startTag t → ¬ HoldsImage (tk.token t) →
        tk.left t = Utf8.encode t.raw := fun _ t heq => absurd heq Token.noConfusion
    cases its with
    | false =>
      have hpc : p = Utf8.encode raw ∧ c' = [] := by
        rcases hp with hp | hp
        · exact hp
        · exact hp
      obtain ⟨rfl, rfl⟩ := hpc
      cases mine with
      | false =>
        obtain ⟨rfl, rfl⟩ := ha
        exact ⟨Nat.le_refl _, fun _ => ⟨rfl, htag, fun _ _ hmine => absurd hmine Bool.false_ne_true⟩⟩
      | true =>
        obtain ⟨css, hcites, rfl⟩ := ha
        refine ⟨Nat.zero_le _, ?_⟩
        rintro rfl
        refine ⟨by rw [citesCSS_nil hcites], htag, ?_⟩
        rintro raw' ⟨⟩ - -
        exact fun himage => (tells_css hcites).mpr himage rfl
    | true =>
      rw [himp rfl] at ha
      obtain ⟨css, hcites, rfl⟩ := ha
      rcases hp with ⟨rfl, rfl⟩ | ⟨css', hcites', rfl⟩
      · refine ⟨Nat.zero_le _, ?_⟩
        rintro rfl
        exact ⟨by rw [citesCSS_nil hcites, Token.raw], htag, fun _ _ _ hits => absurd hits.symm Bool.false_ne_true⟩
      · obtain ⟨hlen, heq⟩ := determined_css hcites hcites'
        exact ⟨hlen.ge, fun hc => ⟨by rw [heq hc], htag, fun _ _ _ hits => absurd hits.symm Bool.false_ne_true⟩⟩
  | other raw =>
    have hac : a = Utf8.encode raw ∧ c = [] := by cases mine <;> exact ha
    have hpc : p = Utf8.encode raw ∧ c' = [] := by
      rcases hp with hp | hp
      · exact hp
      · cases its <;> exact hp
    obtain ⟨rfl, rfl⟩ := hac
    obtain ⟨rfl, rfl⟩ := hpc
    exact ⟨Nat.le_refl _, fun _ => ⟨rfl, fun _ t heq => absurd heq Token.noConfusion,
      fun raw' heq => absurd heq Token.noConfusion⟩⟩

theorem opensStyle_imp {token : Token} (h : opensStyle namesStyle token = true) :
    opensStyle (foldsStyle tk) token = true := by
  cases token with
  | startTag t => exact foldsStyle_of_namesStyle h
  | text raw => cases h
  | other raw => cases h

/-- The code cites all there is to be cited. -/
theorem cited_le (tokens : List Token) : ∀ {mine its : Bool} {outs outs' : List Bytes} {c c' : List Attachment},
    (its = true → mine = true) → CitesAll (CitesToken tk tk.left) (marked (foldsStyle tk) mine tokens) outs c →
    CitesAll (Copied tk) (marked namesStyle its tokens) outs' c' → c'.length ≤ c.length := by
  induction tokens with
  | nil =>
    intro mine its outs outs' c c' _ ha hp
    cases ha
    cases hp
    exact Nat.le_refl _
  | cons token rest ih =>
    intro mine its outs outs' c c' himp ha hp
    cases ha with
    | cons hone hrest =>
      cases hp with
      | cons hone' hrest' =>
        rw [List.length_append, List.length_append]
        exact Nat.add_le_add (compare_token himp hone hone').1 (ih opensStyle_imp hrest hrest')

/-- **All tokens**, where the same is cited: what is written has the same length, and where it is the same the
tags without images are copied, and no other text is taken for a style sheet. -/
theorem compare_tokens (tokens : List Token) : ∀ {mine its : Bool} {outs outs' : List Bytes}
    {c c' : List Attachment}, (its = true → mine = true) →
    CitesAll (CitesToken tk tk.left) (marked (foldsStyle tk) mine tokens) outs c →
    CitesAll (Copied tk) (marked namesStyle its tokens) outs' c' → c = c' →
    List.Forall₂ (fun a p => a.length = p.length) outs outs' ∧
      (outs = outs' → ∀ t, .startTag t ∈ tokens → ¬ HoldsImage (tk.token t) → tk.left t = Utf8.encode t.raw) ∧
      (∀ raw ∈ tokens.head?, ∀ css, raw = .text css → mine = true → its = false → ¬ CSSImage css) ∧
      tokens.IsChain (StylesAgree tk) := by
  induction tokens with
  | nil =>
    intro mine its outs outs' c c' _ ha hp _
    cases ha
    cases hp
    exact ⟨.nil, fun _ t ht => absurd ht List.not_mem_nil, fun raw hraw => absurd hraw (Option.not_mem_none raw), .nil⟩
  | cons token rest ih =>
    intro mine its outs outs' c c' himp ha hp hc
    cases ha with
    | cons hone hrest =>
      cases hp with
      | cons hone' hrest' =>
        obtain ⟨hle, hsame⟩ := compare_token himp hone hone'
        have hles := cited_le rest opensStyle_imp hrest hrest'
        have hlength := congrArg List.length hc
        rw [List.length_append, List.length_append] at hlength
        obtain ⟨hc, hcs⟩ := List.append_inj hc (by omega)
        obtain ⟨hlen, htag, hcss⟩ := hsame hc
        obtain ⟨hlens, htags, hhead, hchain⟩ := ih opensStyle_imp hrest hrest' hcs
        refine ⟨.cons hlen hlens, fun houts t ht hnone => ?_, ?_, ?_⟩
        · obtain ⟨hout, houts⟩ := List.cons.inj houts
          rcases List.mem_cons.mp ht with heq | ht
          · exact htag hout t heq.symm hnone
          · exact htags houts t ht hnone
        · intro raw hraw css heq
          obtain rfl := Option.some.inj hraw
          exact hcss css heq
        · cases rest with
          | nil => exact .singleton token
          | cons next rest =>
            refine .cons_cons ?_ hchain
            rintro t raw rfl rfl hmine hits
            exact hhead _ rfl raw rfl hmine hits

/-- Where tags without images are copied and no other text is taken for a style sheet, all is as it should be. -/
theorem copied_of_written (tokens : List Token) : ∀ {mine its : Bool} {outs : List Bytes} {c : List Attachment},
    (its = true → mine = true) →
    (∀ t, .startTag t ∈ tokens → ¬ HoldsImage (tk.token t) → tk.left t = Utf8.encode t.raw) →
    (∀ raw ∈ tokens.head?, ∀ css, raw = .text css → mine = true → its = false → ¬ CSSImage css) →
    tokens.IsChain (StylesAgree tk) →
    CitesAll (CitesToken tk tk.left) (marked (foldsStyle tk) mine tokens) outs c →
    CitesAll (Copied tk) (marked namesStyle its tokens) outs c := by
  induction tokens with
  | nil =>
    intro mine its outs c _ _ _ _ ha
    cases ha
    exact .nil
  | cons token rest ih =>
    intro mine its outs c himp htags hhead hchain ha
    cases ha with
    | @cons _ out cited _ _ _ hone hrest =>
      have hnext : ∀ raw ∈ rest.head?, ∀ css, raw = .text css → opensStyle (foldsStyle tk) token = true →
          opensStyle namesStyle token = false → ¬ CSSImage css := by
        rintro raw hraw css rfl hmine hits
        cases rest with
        | nil => exact absurd hraw (Option.not_mem_none _)
        | cons next rest =>
          obtain rfl := Option.some.inj hraw
          cases token with
          | startTag t => exact (List.isChain_cons_cons.mp hchain).1 t css rfl rfl hmine hits
          | text raw => cases hmine
          | other raw => cases hmine
      refine .cons ?_ (ih opensStyle_imp (fun t ht => htags t (List.mem_cons_of_mem _ ht)) hnext hchain.tail hrest)
      cases token with
      | startTag t =>
        by_cases hc : cited = []
        · subst hc
          left
          refine ⟨?_, rfl⟩
          rw [hone.of_nil]
          refine htags t List.mem_cons_self fun himage => ?_
          exact (tells_attr.whole hone).mpr himage rfl
        · right
          obtain ⟨attrs, hall, hout⟩ := hone
          refine ⟨attrs, hall, ?_⟩
          rw [if_neg hc] at hout ⊢
          exact hout
      | text raw =>
        cases its with
        | true =>
          rw [himp rfl] at hone
          exact .inr hone
        | false =>
          cases mine with
          | false => exact .inr hone
          | true =>
            obtain ⟨css, hcites, rfl⟩ := hone
            have hnone : cited = [] := not_not.mp fun hc => hhead _ rfl raw rfl rfl rfl ((tells_css hcites).mp hc)
            subst hnone
            left
            rw [citesCSS_nil hcites]
            exact ⟨rfl, rfl⟩
      | other raw =>
        left
        cases mine <;> exact hone

/-- What is copied token by token. -/
theorem copied_all (tokens : List Token) : ∀ its, CitesAll (Copied tk) (marked namesStyle its tokens)
    (tokens.map fun token => Utf8.encode token.raw) [] := by
  induction tokens with
  | nil => exact fun its => .nil
  | cons token rest ih => exact fun its => @CitesAll.cons _ _ _ _ _ [] _ _ [] (.inl ⟨rfl, rfl⟩) (ih _)

end compare

theorem eq_of_flatten {as ps : List Bytes} {r : Bytes} (h : List.Forall₂ (fun a p => a.length = p.length) as ps)
    (heq : as.flatten = ps.flatten ++ r) : as = ps ∧ r = [] := by
  induction h with
  | nil => exact ⟨rfl, heq.symm⟩
  | cons hlen hrest ih =>
    rw [List.flatten_cons, List.flatten_cons, List.append_assoc] at heq
    obtain ⟨rfl, htail⟩ := List.append_inj heq hlen
    obtain ⟨rfl, hr⟩ := ih htail
    exact ⟨rfl, hr⟩

theorem flatten_encode (tokens : List Token) :
    (tokens.map fun token => Utf8.encode token.raw).flatten = Utf8.encode (tokens.flatMap Token.raw) := by
  induction tokens with
  | nil => rfl
  | cons token rest ih => rw [List.map_cons, List.flatten_cons, List.flatMap_cons, Utf8.encode_append, ih]

theorem encode_eq_nil {t : Text} (h : Utf8.encode t = []) : t = [] := by
  cases t with
  | nil => rfl
  | cons c t =>
    obtain ⟨b, bs, hc, -⟩ := Utf8.encodeChar_cases c
    rw [Utf8.encode, List.flatMap_cons, hc] at h
    cases h

section whole

variable {tk : Tokenizer} {random : Nat → Bytes} {input : Text} {out : Bytes} {atts : List Attachment}

theorem nodup_of_numbered (hids : Function.Injective fun n => newContentID (random n)) (h : Numbered random atts) :
    (atts.map Attachment.contentID).Nodup := by
  rw [h]
  exact List.nodup_range.map hids

/-- What the code returns. -/
theorem inlineDataURIImages_ok (h : inlineDataURIImages tk random input = .ok (out, atts)) :
    (containsDataImage input = false ∧ out = Utf8.encode input ∧ atts = []) ∨
      (containsDataImage input = true ∧ ∃ outs,
        CitesAll (CitesToken tk tk.left) (marked (foldsStyle tk) false (tk.tokens input)) outs atts ∧
        out = outs.flatten ∧ Numbered random atts) := by
  unfold inlineDataURIImages at h
  cases hdata : containsDataImage input with
  | false =>
    rw [hdata, if_pos rfl] at h
    obtain ⟨rfl, rfl⟩ := Prod.mk.inj (Except.ok.inj h)
    exact .inl ⟨rfl, rfl, rfl⟩
  | true =>
    rw [hdata, if_neg Bool.noConfusion] at h
    right
    by_cases hlarge : maxInlineHTML < Text.byteLen input
    · rw [if_pos hlarge] at h
      cases h
    rw [if_neg hlarge] at h
    have hcites := @inlineTokens_cites tk random (tk.tokens input) false .init
    generalize inlineTokens tk random false (tk.tokens input) .init = r at h hcites
    obtain ⟨written, s⟩ := r
    dsimp only at h hcites
    cases herr : s.err with
    | some e =>
      rw [herr] at h
      cases h
    | none =>
      rw [herr] at h
      obtain ⟨rfl, rfl⟩ := Prod.mk.inj (Except.ok.inj h)
      obtain ⟨c, outs, hstep, hall, hflatten⟩ := hcites herr
      have hatts : s.atts = c := hstep.atts
      rw [hatts]
      exact ⟨rfl, outs, hall, hflatten, hatts ▸ hstep.numbered rfl⟩

/-- What a text with its images attached tells of the tags and the end. -/
theorem kept_of_inlined (hdata : containsDataImage input = true)
    (h : inlineDataURIImages tk random input = .ok (out, atts)) (hinlined : Inlined tk input out atts) :
    (∀ t, .startTag t ∈ tk.tokens input → ¬ HoldsImage (tk.token t) → tk.left t = Utf8.encode t.raw) ∧
      (tk.tokens input).IsChain (StylesAgree tk) ∧ tk.rest input = [] := by
  obtain ⟨⟨outs', hcopied, hout⟩, -⟩ := hinlined
  rcases inlineDataURIImages_ok h with ⟨hfalse, -⟩ | ⟨-, outs, hall, rfl, -⟩
  · rw [hdata] at hfalse
    cases hfalse
  · obtain ⟨hlen, htags, -, hchain⟩ := compare_tokens (tk.tokens input) id hall hcopied rfl
    obtain ⟨houts, hrest⟩ := eq_of_flatten hlen hout
    exact ⟨htags houts, hchain, encode_eq_nil hrest⟩

/-- **All but the images is as it was** just if there is no image at all or, in the bytes of each tag that has
none, decoding changes nothing, no other text is taken for a style sheet, and no tag lacks its end. -/
theorem inlined_iff (hids : Function.Injective fun n => newContentID (random n))
    (h : inlineDataURIImages tk random input = .ok (out, atts)) :
    Inlined tk input out atts ↔ containsDataImage input = false ∨
      ((∀ t, .startTag t ∈ tk.tokens input → ¬ HoldsImage (tk.token t) → tk.left t = Utf8.encode t.raw) ∧
        (tk.tokens input).IsChain (StylesAgree tk) ∧ tk.rest input = []) := by
  constructor
  · intro hinlined
    cases hdata : containsDataImage input with
    | false => exact .inl rfl
    | true => exact .inr (kept_of_inlined hdata h hinlined)
  rcases inlineDataURIImages_ok h with ⟨hdata, rfl, rfl⟩ | ⟨hdata, outs, hall, rfl, hnumbered⟩
  · refine fun _ => ⟨⟨_, copied_all _ false, ?_⟩, List.nodup_nil⟩
    rw [flatten_encode, ← Utf8.encode_append, tk.raw_append]
  · rintro (hfalse | ⟨htags, hchain, hrest⟩)
    · rw [hdata] at hfalse
      cases hfalse
    · have hnone : ∀ raw ∈ (tk.tokens input).head?, ∀ css, raw = .text css → false = true → false = false →
          ¬ CSSImage css := fun _ _ _ _ hfalse => absurd hfalse Bool.false_ne_true
      refine ⟨⟨outs, copied_of_written _ id htags hnone hchain hall, ?_⟩, nodup_of_numbered hids hnumbered⟩
      rw [hrest]
      exact (List.append_nil _).symm

end whole

/-! ### A page, taken apart -/

/-- The characters that are written as references. -/
def references : List (Char × Text) :=
  [('&', "amp;".toList), ('\'', "#39;".toList), ('<', "lt;".toList), ('>', "gt;".toList), ('"', "#34;".toList),
    ('\r', "#13;".toList)]

def reference (c : Char) : Option Text := (references.find? fun r => r.1 == c).map Prod.snd

def escapeReferences (t : Text) : Text := t.flatMap fun c => ((reference c).map ('&' :: ·)).getD [c]

/-- The references are decoded, the first `n` characters passed over. -/
def unescapeReferences : Nat → Text → Text
  | _, [] => []
  | n + 1, _ :: rest => unescapeReferences n rest
  | 0, c :: rest =>
      match (references.filter fun _ => c == '&').find? fun r => r.2.isPrefixOf rest with
      | some r => r.1 :: unescapeReferences r.2.length rest
      | none => c :: unescapeReferences 0 rest

theorem unescapeReferences_skip (x t : Text) : unescapeReferences x.length (x ++ t) = unescapeReferences 0 t := by
  induction x with
  | nil => rfl
  | cons c x ih => exact ih

/-- What is found behind an ampersand. -/
theorem unescapeReferences_reference {r : Char × Text} (h : r ∈ references) (t : Text) :
    unescapeReferences 0 ('&' :: (r.2 ++ t)) = r.1 :: unescapeReferences 0 t := by
  have hfind : ((references.filter fun _ => '&' == '&').find? fun r' => r'.2.isPrefixOf (r.2 ++ t)) = some r := by
    simp only [references, List.mem_cons, List.not_mem_nil, or_false] at h
    rcases h with rfl | rfl | rfl | rfl | rfl | rfl <;> rfl
  rw [unescapeReferences, hfind]
  exact congrArg _ (unescapeReferences_skip r.2 t)

theorem reference_eq_some {c : Char} {r : Text} (h : reference c = some r) : (c, r) ∈ references := by
  obtain ⟨r', hfind, rfl⟩ := Option.map_eq_some_iff.mp h
  have hc : r'.1 = c := by simpa using List.find?_some hfind
  exact hc ▸ List.mem_of_find?_eq_some hfind

theorem unescapeReferences_escape (t : Text) : unescapeReferences 0 (escapeReferences t) = t := by
  induction t with
  | nil => rfl
  | cons c t ih =>
    have hcons : escapeReferences (c :: t) = ((reference c).map ('&' :: ·)).getD [c] ++ escapeReferences t := rfl
    rw [hcons]
    cases hr : reference c with
    | none =>
      have hc : (c == '&') = false := by
        by_contra hc
        rw [Bool.not_eq_false, beq_iff_eq] at hc
        rw [hc] at hr
        cases hr
      have hfind : ((references.filter fun _ => c == '&').find? fun r => r.2.isPrefixOf (escapeReferences t)) = none := by
        rw [hc]
        rfl
      change unescapeReferences 0 (c :: escapeReferences t) = _
      rw [unescapeReferences, hfind, ih]
    | some r =>
      change unescapeReferences 0 ('&' :: (r ++ escapeReferences t)) = _
      rw [@unescapeReferences_reference (c, r) (reference_eq_some hr), ih]

theorem convertNewlines_of_notMem {t : Text} (h : '\r' ∉ t) : convertNewlines t = t := by
  induction t with
  | nil => rfl
  | cons c t ih =>
    have hc : c ≠ '\r' := fun hc => h (hc ▸ List.mem_cons_self)
    rw [convertNewlines, if_neg hc, ih fun hmem => h (List.mem_cons_of_mem _ hmem)]
    exact fun rest heq => absurd heq hc

theorem cr_notMem_escapeReferences (t : Text) : '\r' ∉ escapeReferences t := by
  intro hmem
  obtain ⟨c, -, hc⟩ := List.mem_flatMap.mp hmem
  cases hr : reference c with
  | none =>
    rw [hr] at hc
    rw [← List.mem_singleton.mp hc] at hr
    cases hr
  | some r =>
    rw [hr] at hc
    have hplain : ∀ r ∈ references, '\r' ∉ '&' :: r.2 := by decide
    exact hplain _ (reference_eq_some hr) hc

/-- A reference takes more room than its character. -/
theorem length_unescapeReferences (t : Text) : ∀ n,
    (Utf8.encode (unescapeReferences n t)).length ≤ (Utf8.encode t).length := by
  induction t with
  | nil =>
    intro n
    cases n <;> exact Nat.le_refl _
  | cons c t ih =>
    intro n
    cases n with
    | succ n =>
      rw [unescapeReferences, length_encode_cons c]
      exact Nat.le_trans (ih n) (Nat.le_add_left _ _)
    | zero =>
      rw [unescapeReferences, length_encode_cons c]
      cases hfind : (references.filter fun _ => c == '&').find? fun r => r.2.isPrefixOf t with
      | none =>
        dsimp only
        rw [length_encode_cons c]
        exact Nat.add_le_add_left (ih 0) _
      | some r =>
        obtain ⟨hmem, hc⟩ := List.mem_filter.mp (List.mem_of_find?_eq_some hfind)
        have hone : ∀ r ∈ references, (Utf8.encode [r.1]).length ≤ (Utf8.encode ['&']).length := by decide
        dsimp only
        rw [length_encode_cons r.1, beq_iff_eq.mp hc]
        exact Nat.add_le_add (hone r hmem) (ih _)

/-- A tokenizer that knows how one page is taken apart. -/
def pageTokenizer (page : List Token) : Tokenizer where
  tokens input := if input = page.flatMap Token.raw then page else [.text input]
  rest _ := []
  raw_append input := by
    by_cases h : input = page.flatMap Token.raw
    · rw [if_pos h, List.append_nil, h]
    · rw [if_neg h]
      simp [Token.raw]
  unescape := unescapeReferences 0
  escape := escapeReferences
  unescape_le t := length_unescapeReferences t 0
  unescape_escape t := by
    rw [convertNewlines_of_notMem (cr_notMem_escapeReferences t), unescapeReferences_escape]

/-- A paragraph with a title, and an image. -/
def titleAndImage (title : Text) : List Token :=
  [.startTag ⟨['<'], ['p'], [⟨[' '], "title".toList, "=\"".toList, title⟩], "\">".toList, false⟩,
    .startTag ⟨['<'], "img".toList, [⟨[' '], "src".toList, "=\"".toList, "data:image/png;base64,AAAA".toList⟩],
      "\">".toList, false⟩]

/-- Twelve bytes, and one more with each attachment. -/
def zeros (n : Nat) : Bytes := List.replicate (12 + n) 0

theorem injective_zeros : Function.Injective fun n => newContentID (zeros n) := by
  intro m n h
  have hlength : ∀ k, (newContentID (zeros k)).length = 3 + (12 + k) * 2 := by
    intro k
    have hii : "ii_".toList.length = 3 := rfl
    have hzero : (hexByte 0).length = 2 := rfl
    simp only [newContentID, zeros, List.length_append, List.length_flatMap, List.map_replicate, hii, hzero,
      List.sum_replicate_nat]
  have hcongr := congrArg List.length h
  dsimp only at hcongr
  rw [hlength, hlength] at hcongr
  omega

theorem tokens_pageTokenizer (page : List Token) : (pageTokenizer page).tokens (page.flatMap Token.raw) = page :=
  if_pos rfl

/-- The image in a page whose other tag has nothing to be decoded. -/
theorem inlined_plain : Inlined (pageTokenizer (titleAndImage "x".toList)) ((titleAndImage "x".toList).flatMap Token.raw)
    (Utf8.encode "<p title=\"x\"><img src=\"cid:ii_000000000000000000000000\">".toList)
    [imageAttachment "ii_000000000000000000000000".toList "png".toList [0, 0, 0]] := by
  refine (@inlined_iff _ zeros _ _ _ injective_zeros (by decide +kernel)).mpr (.inr ⟨?_, ?_, rfl⟩)
  · intro t ht _
    rw [tokens_pageTokenizer] at ht
    rcases List.mem_pair.mp ht with heq | heq
    · obtain rfl := Token.startTag.inj heq
      decide +kernel
    · obtain rfl := Token.startTag.inj heq
      decide +kernel
  · rw [tokens_pageTokenizer]
    exact .cons_cons (fun t raw _ heq => absurd heq Token.noConfusion) (.singleton _)

/-- A reference in a title is decoded where it stands, and what is behind it is shifted. -/
theorem title_damaged :
    inlineDataURIImages (pageTokenizer (titleAndImage "a &amp; b".toList)) zeros
        "<p title=\"a &amp; b\"><img src=\"data:image/png;base64,AAAA\">".toList =
      .ok (Utf8.encode "<p title=\"a & bp; b\"><img src=\"cid:ii_000000000000000000000000\">".toList,
        [imageAttachment "ii_000000000000000000000000".toList "png".toList [0, 0, 0]]) ∧
    ¬ Inlined (pageTokenizer (titleAndImage "a &amp; b".toList))
        "<p title=\"a &amp; b\"><img src=\"data:image/png;base64,AAAA\">".toList
        (Utf8.encode "<p title=\"a & bp; b\"><img src=\"cid:ii_000000000000000000000000\">".toList)
        [imageAttachment "ii_000000000000000000000000".toList "png".toList [0, 0, 0]] := by
  have hok : inlineDataURIImages (pageTokenizer (titleAndImage "a &amp; b".toList)) zeros
      "<p title=\"a &amp; b\"><img src=\"data:image/png;base64,AAAA\">".toList =
      .ok (Utf8.encode "<p title=\"a & bp; b\"><img src=\"cid:ii_000000000000000000000000\">".toList,
        [imageAttachment "ii_000000000000000000000000".toList "png".toList [0, 0, 0]]) := by
    decide +kernel
  have hinput : "<p title=\"a &amp; b\"><img src=\"data:image/png;base64,AAAA\">".toList =
      (titleAndImage "a &amp; b".toList).flatMap Token.raw := by
    decide +kernel
  refine ⟨hok, fun hinlined => ?_⟩
  have htags := (kept_of_inlined (by decide +kernel) hok hinlined).1
  rw [hinput, tokens_pageTokenizer] at htags
  refine absurd (htags _ List.mem_cons_self ?_) (by decide +kernel)
  rintro ⟨a, ha, himage⟩
  have hkey : lower "title".toList ∉ inlineURLAttrs ∧ lower "title".toList ≠ "srcset".toList ∧
      lower "title".toList ≠ "style".toList := by
    decide
  obtain rfl := List.mem_singleton.mp ha
  change ValueImage (lower "title".toList) _ at himage
  rw [ValueImage, if_neg hkey.1, if_neg hkey.2.1, if_neg hkey.2.2] at himage
  exact himage

end FlyMail.Send
