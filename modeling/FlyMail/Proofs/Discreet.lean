/-
What a channel learns of a mail it shows no more of than sender and subject.

Two runs are compared that agree in all such a channel may show, the `Face` of the mail, and
differ in anything else.  As long as the mail can be loaded and has a sender or a subject, the
channel is sent the same.  Otherwise its text is the one the notice was made with, and this has
the start of the mail's text in it; only a subject that leaves no room for it hides it then.
-/
import FlyMail.Notify.Service

namespace FlyMail.Notify

open Sync.Notify (Notice mailNotice mailBody oneLine)

/-! ### Two runs -/

/-- What the row of a mail shows. -/
structure Head where
  fromName : Text
  fromAddr : Text
  subject : Text
  date : Time
  deriving DecidableEq, Repr

/-- All a channel may be told of a mail at the lowest level. -/
structure Face where
  id : Nat
  accountID : Nat
  fromName : Text
  fromAddr : Text
  subject : Text
  /-- Where the mail lies when the notice is given. -/
  folderID : Option Nat
  /-- Its row when the notice is delivered, unless it is gone. -/
  row : Option Head
  deriving DecidableEq, Repr

/-- A notice of new mail on its way: the mail and its snippet, and what is stored when the
notice is given and when it is delivered. -/
structure View where
  mail : Message
  snippet : Text
  before : Rows
  after : Rows

def Head.of (r : Message) : Head := ⟨r.fromName, r.fromAddr, r.subject, r.date⟩

def View.face (v : View) : Face :=
  ⟨v.mail.id, v.mail.accountID, v.mail.fromName, v.mail.fromAddr, v.mail.subject,
    (v.before.byID v.mail.id).map Message.folderID, (v.after.byID v.mail.id).map Head.of⟩

/-- What is sent to the channels of the lowest level. -/
def basicRequests (sent : List (Channel × Request)) : List Request :=
  (sent.filter fun e => e.1.contentLevel == .basic).map Prod.snd

def View.event (base : Text) (v : View) : Event :=
  emit base v.before .mailNew (mailNotice v.mail.accountID (fun _ => v.snippet) v.mail)

def View.sent (env : Env) (base : Text) (stored : List Channel) (v : View) : List Request :=
  basicRequests (deliver env stored v.after (v.event base))

/-- Whatever else is in the mail, the channels of the lowest level are sent the same. -/
def Discreet (f : Face) : Prop :=
  ∀ env base stored (v w : View), v.face = f → w.face = f →
    v.sent env base stored = w.sent env base stored

namespace Face

/-- The subject as the notice has it. -/
def subjectLine (f : Face) : Text :=
  oneLine (if f.subject = [] then "（无主题）".toList else f.subject)

/-- The mail can be loaded, and has a sender or a subject. -/
def Loaded (f : Face) : Prop :=
  f.id ≠ 0 ∧ ∃ r, f.row = some r ∧
    (oneLine (if r.fromName = [] then r.fromAddr else r.fromName) ≠ [] ∨ oneLine r.subject ≠ [])

/-- The event with nothing in it but the subject. -/
def bare (f : Face) : Event :=
  ⟨.mailNew, f.accountID, f.id,
    "新邮件 · ".toList ++ oneLine (if f.fromName = [] then f.fromAddr else f.fromName),
    f.subjectLine, [], none⟩

/-- The subject alone is more than a webhook's text or a card has room for. -/
def Overlong (f : Face) : Prop :=
  webhookBodyRunes < f.subjectLine.length ∧
    ∀ env, feishuPayloadBudget < (feishuCard env f.bare .basic f.subjectLine.length).size

end Face

/-! ### Cutting a text -/

section Truncate

variable {s t : Text} {n : Nat}

theorem truncateRunes_of_le (hpos : 0 < n) (h : s.length ≤ n) : truncateRunes s n = s := by
  unfold truncateRunes
  rw [if_neg (Nat.ne_of_gt hpos), if_pos h]

/-- What lies behind the limit does not show. -/
theorem truncateRunes_append_of_lt (h : n < s.length) (t : Text) :
    truncateRunes (s ++ t) n = truncateRunes s n := by
  have hlong : ¬ s.length + t.length ≤ n := by omega
  unfold truncateRunes
  rw [List.length_append, if_neg (Nat.not_le.mpr h), if_neg hlong,
    List.take_append_of_le_length (Nat.le_of_lt h)]

/-- What lies before the limit shows. -/
theorem truncateRunes_append_of_le (hpos : 0 < n) (h : s.length ≤ n) (t : Text) :
    ∃ u, truncateRunes (s ++ t) n = s ++ u ∧ (t ≠ [] → u ≠ []) := by
  unfold truncateRunes
  rw [if_neg (Nat.ne_of_gt hpos)]
  split
  · exact ⟨t, rfl, id⟩
  · refine ⟨t.take (n - s.length) ++ ['…'], ?_, fun _ => by simp⟩
    rw [List.take_append, List.take_of_length_le h, List.append_assoc]

theorem length_truncateRunes (hpos : 0 < n) (h : n < s.length) :
    (truncateRunes s n).length = n + 1 := by
  unfold truncateRunes
  rw [if_neg (Nat.ne_of_gt hpos), if_neg (Nat.not_le.mpr h), List.length_append, List.length_take,
    Nat.min_eq_left (Nat.le_of_lt h), List.length_singleton]

end Truncate

/-! ### Events that show the same -/

/-- Date, sender and subject of the event's mail. -/
def Event.head (e : Event) : Option (Time × Text × Text) :=
  e.structured.map fun s => (s.1.date, s.2)

/-- The events differ in nothing a channel of the lowest level may show. -/
structure Alike (e e' : Event) : Prop where
  type : e.type = e'.type
  accountID : e.accountID = e'.accountID
  messageID : e.messageID = e'.messageID
  title : e.title = e'.title
  url : e.url = e'.url
  head : e.head = e'.head

section Alike

variable {env : Env} {e e' : Event}

/-- Two such events have either no mail to show, or mails with the same head. -/
theorem Alike.structured (h : Alike e e') :
    (e.structured = none ∧ e'.structured = none) ∨ ∃ m m' fields, e.structured = some (m, fields) ∧
      e'.structured = some (m', fields) ∧ m.date = m'.date := by
  have hhead := h.head
  unfold Event.head at hhead
  cases hs : e.structured with
  | none =>
      rw [hs] at hhead
      exact Or.inl ⟨rfl, Option.map_eq_none_iff.mp hhead.symm⟩
  | some s =>
      rw [hs] at hhead
      obtain ⟨s', hs', heq⟩ := Option.map_eq_some_iff.mp hhead.symm
      rw [Prod.mk.injEq] at heq
      exact Or.inr ⟨s.1, s'.1, s.2, rfl, by rw [hs', ← heq.2], heq.1.symm⟩

theorem bodyFor_basic (mail : MailData) (n : Nat) : bodyFor mail .basic n = [] := rfl

theorem linkElement_basic (e : Event) : linkElement e .basic = [] := by
  unfold linkElement
  split
  · rfl
  · exact if_neg fun h => Bool.false_ne_true h.1

/-- A webhook is sent the same, if the texts are cut to the same. -/
theorem webhook_of_alike (h : Alike e e')
    (hbody : e.structured = none →
      truncateRunes e.body webhookBodyRunes = truncateRunes e'.body webhookBodyRunes) :
    webhookPayload env e .basic = webhookPayload env e' .basic := by
  unfold webhookPayload plainBody
  rw [h.type, h.accountID, h.messageID, h.title, h.url]
  rcases h.structured with ⟨hnone, hnone'⟩ | ⟨m, m', fields, hs, hs', hdate⟩
  · rw [hnone, hnone', hbody hnone]
  · rw [hs, hs']
    simp only [mailField, bodyFor_basic, hdate]
    rfl

/-- A card looks the same, if the texts are cut to the same. -/
theorem card_of_alike (h : Alike e e') {n : Nat}
    (hbody : e.structured = none → truncateRunes e.body n = truncateRunes e'.body n) :
    feishuCard env e .basic n = feishuCard env e' .basic n := by
  unfold feishuCard buttonElement cardButtonLabel cardHeaderTitle fieldsElement cardBody
  rw [linkElement_basic, linkElement_basic, h.type, h.messageID, h.title, h.url]
  rcases h.structured with ⟨hnone, hnone'⟩ | ⟨m, m', fields, hs, hs', hdate⟩
  · rw [hnone, hnone', hbody hnone]
  · rw [hs, hs']
    simp only [bodyFor_basic, hdate]

theorem fit_stop {level : ContentLevel} {n : Nat}
    (h : (feishuCard env e level n).size ≤ feishuPayloadBudget ∨ n ≤ minFeishuBodyRunes) :
    fitFeishuCard env e level n = feishuCard env e level n := by
  rw [fitFeishuCard]
  by_cases hfits : (feishuCard env e level n).size ≤ feishuPayloadBudget
  · exact if_pos hfits
  · exact (if_neg hfits).trans (dif_neg (Nat.not_lt.mpr (h.resolve_left hfits)))

theorem fit_next {level : ContentLevel} {n : Nat}
    (hbig : feishuPayloadBudget < (feishuCard env e level n).size) (hmin : minFeishuBodyRunes < n) :
    fitFeishuCard env e level n = fitFeishuCard env e level (nextBodyRunes n) := by
  rw [fitFeishuCard]
  exact (if_neg (Nat.not_le.mpr hbig)).trans (dif_pos hmin)

/-- Two cards are cut down to the same if they look the same wherever one of them fits. -/
theorem fit_congr
    (h : ∀ n, feishuCard env e .basic n = feishuCard env e' .basic n ∨
      (minFeishuBodyRunes < n ∧ feishuPayloadBudget < (feishuCard env e .basic n).size ∧
        feishuPayloadBudget < (feishuCard env e' .basic n).size)) (n : Nat) :
    fitFeishuCard env e .basic n = fitFeishuCard env e' .basic n := by
  induction n using Nat.strongRecOn with
  | ind n ih =>
      by_cases hstop : (feishuCard env e .basic n).size ≤ feishuPayloadBudget ∨
          n ≤ minFeishuBodyRunes
      · have hsame : feishuCard env e .basic n = feishuCard env e' .basic n := by
          rcases h n with hsame | ⟨hmin, hbig, -⟩
          · exact hsame
          · omega
        rw [fit_stop hstop, hsame, fit_stop (hsame ▸ hstop)]
      · obtain ⟨hbig, hmin⟩ := not_or.mp hstop
        rw [Nat.not_le] at hbig hmin
        have hbig' : feishuPayloadBudget < (feishuCard env e' .basic n).size := by
          rcases h n with hsame | ⟨-, -, hbig'⟩
          · exact hsame ▸ hbig
          · exact hbig'
        rw [fit_next hbig hmin, fit_next hbig' hmin, ih _ (nextBodyRunes_lt hmin)]

end Alike

/-! ### A text that does not fit -/

section Size

open Json

/-- The card of an event with no mail to show. -/
def plainCard (type : EventType) (title body : Text) (button : List Json) : Json :=
  .obj [text "msg_type" "interactive".toList,
    ("card".toList, .obj [
      ("config".toList, .obj [("wide_screen_mode".toList, .bool true)]),
      ("header".toList, .obj [
        ("title".toList, plainText (cardHeaderTitle ⟨type, 0, 0, title, [], [], none⟩)),
        text "template" (cardHeaderTemplate type)]),
      ("elements".toList, .arr (bodyElement body ++ button))])]

theorem card_eq_plainCard (env : Env) {e : Event} (h : e.structured = none) (n : Nat) :
    feishuCard env e .basic n = plainCard e.type e.title (truncateRunes e.body n) (buttonElement e) := by
  have htitle : cardHeaderTitle e = cardHeaderTitle ⟨e.type, 0, 0, e.title, [], [], none⟩ := by
    unfold cardHeaderTitle
    rw [h]
    rfl
  unfold feishuCard plainCard fieldsElement cardBody
  rw [linkElement_basic, htitle, h]
  simp

variable {type : EventType} {title s t : Text} {button : List Json}

/-- More text and a button do not make a card smaller. -/
theorem size_plainCard_le (hpos : s ≠ []) :
    (plainCard type title s []).size ≤ (plainCard type title (s ++ t) button).size := by
  have hle := quotedSize_le_append s t
  have hmore : s ++ t ≠ [] := by simp [hpos]
  unfold plainCard bodyElement
  rw [if_neg hpos, if_neg hmore]
  simp only [size, sizeFields, sizeElems_append, sizeElems, text, plainText]
  omega

/-- A card shows its text. -/
theorem plainCard_inj (hs : s ≠ []) (ht : t ≠ [])
    (h : plainCard type title s button = plainCard type title t button) : s = t := by
  unfold plainCard bodyElement at h
  rw [if_neg hs, if_neg ht] at h
  simp only [Json.obj.injEq, Json.arr.injEq, Json.str.injEq, List.cons.injEq, Prod.mk.injEq,
    List.cons_append, List.nil_append, text, plainText] at h
  simp_all

end Size

/-! ### What a view's notice becomes -/

section View

variable {f : Face} {v w : View} {base : Text} {channels : List Channel}

/-- The event as it is rendered. -/
def View.loaded (base : Text) (channels : List Channel) (v : View) : Event :=
  { v.event base with mail := mailDataFor v.after (v.event base) channels }

/-- What is shown of the mail that is loaded. -/
def Face.head (f : Face) (channels : List Channel) : Option (Time × Text × Text) :=
  if f.id = 0 ∨ channels = [] then none
  else f.row.bind fun r =>
    (mailFields ⟨if r.fromName = [] then r.fromAddr else r.fromName, r.subject, r.date, [], [], []⟩).map
      fun fields => (r.date, fields)

theorem head_loaded (hv : v.face = f) (base : Text) (channels : List Channel) : (v.loaded base channels).head = f.head channels := by
  subst hv
  unfold Event.head Event.structured View.loaded mailDataFor Face.head
  dsimp only
  show Option.map _ (Option.bind (if v.mail.id = 0 ∨ channels = [] then none else _) _)
    = if v.mail.id = 0 ∨ channels = [] then none else _
  split
  · rfl
  · unfold mailProvider
    show Option.map _ (Option.bind (Option.map _ (v.after.byID v.mail.id)) _)
      = Option.bind (Option.map Head.of (v.after.byID v.mail.id)) _
    cases v.after.byID v.mail.id with
    | none => rfl
    | some r =>
        show Option.map _ (Option.map _ (mailFields _)) = Option.map _ (mailFields _)
        rw [Option.map_map]
        rfl

theorem alike_loaded (hv : v.face = f) (hw : w.face = f) :
    Alike (v.loaded base channels) (w.loaded base channels) := by
  have hface : v.face = w.face := hv.trans hw.symm
  unfold View.face at hface
  rw [Face.mk.injEq] at hface
  obtain ⟨hid, haccount, hname, haddr, -, hfolder, -⟩ := hface
  refine ⟨rfl, haccount, hid, ?_, ?_, (head_loaded hv _ _).trans (head_loaded hw _ _).symm⟩
  · show "新邮件 · ".toList ++ oneLine _ = "新邮件 · ".toList ++ oneLine _
    rw [hname, haddr]
  · show buildLink base v.before v.mail.accountID v.mail.id
      = buildLink base w.before w.mail.accountID w.mail.id
    unfold buildLink
    rw [hid] at hfolder
    rw [hid, haccount, hfolder]

/-- The notice's text: the subject, and behind it what there is of the snippet. -/
theorem body_loaded (hv : v.face = f) (base : Text) (channels : List Channel) :
    ∃ t, (v.loaded base channels).body = f.subjectLine ++ t ∧
      (oneLine v.snippet ≠ [] → t ≠ []) ∧ (oneLine v.snippet = [] → t = []) := by
  subst hv
  show ∃ t, mailBody _ v.snippet = oneLine _ ++ t ∧ _
  unfold mailBody
  dsimp only
  split
  · rename_i hblank
    exact ⟨[], (List.append_nil _).symm, fun h => absurd hblank h, fun _ => rfl⟩
  · rename_i hsnippet
    exact ⟨_, rfl, fun _ => List.cons_ne_nil _ _, fun h => absurd h hsnippet⟩

theorem mailFields_eq_none (mail : MailData) :
    mailFields mail = none ↔ oneLine mail.sender = [] ∧ oneLine mail.subject = [] := by
  unfold mailFields
  dsimp only
  split
  · rename_i hblank
    exact ⟨fun _ => hblank, fun _ => rfl⟩
  · rename_i hshown
    exact ⟨nofun, fun hblank => absurd hblank hshown⟩

theorem head_eq_none : f.head channels = none ↔ channels = [] ∨ ¬ f.Loaded := by
  unfold Face.head Face.Loaded
  by_cases hid : f.id = 0
  · simp [hid]
  by_cases hchannels : channels = []
  · simp [hchannels]
  rw [if_neg (not_or.mpr ⟨hid, hchannels⟩)]
  cases hrow : f.row with
  | none => simp
  | some r =>
      rw [Option.bind_some, Option.map_eq_none_iff, mailFields_eq_none]
      simp [hid, hchannels]

theorem structured_eq_none (hv : v.face = f) (base : Text) (channels : List Channel) :
    (v.loaded base channels).structured = none ↔ channels = [] ∨ ¬ f.Loaded := by
  rw [← head_eq_none, ← head_loaded hv base, Event.head, Option.map_eq_none_iff]

end View

/-! ### What basic channels are sent -/

theorem sent_eq (env : Env) (base : Text) (stored : List Channel) (v : View) :
    v.sent env base stored =
      ((enabledChannelsFor stored .mailNew).filter fun c => c.contentLevel == .basic).map fun c =>
        dispatch env c (v.loaded base (enabledChannelsFor stored .mailNew)) := by
  unfold View.sent basicRequests deliver
  rw [List.filter_map, List.map_map]
  rfl

section Discreet

variable {f : Face} {v w : View} {base : Text} {channels : List Channel} {env : Env}

/-- An overlong subject hides what follows, wherever the text is cut. -/
theorem fit_of_overlong (hlong : f.Overlong) (hv : v.face = f) (hw : w.face = f)
    (hplain : channels = [] ∨ ¬ f.Loaded) (n : Nat) :
    fitFeishuCard env (v.loaded base channels) .basic n
      = fitFeishuCard env (w.loaded base channels) .basic n := by
  obtain ⟨hlength, hbig⟩ := hlong
  have hmin : minFeishuBodyRunes < webhookBodyRunes := by decide
  have hgrows : ∀ (u : View) n, u.face = f → f.subjectLine.length ≤ n →
      feishuPayloadBudget < (feishuCard env (u.loaded base channels) .basic n).size := by
    intro u n hu hle
    obtain ⟨t, hbody, -⟩ := body_loaded hu base channels
    obtain ⟨s, hs, -⟩ := truncateRunes_append_of_le (n := n) (by omega) hle t
    have hbare := hbig env
    rw [card_eq_plainCard env rfl] at hbare
    have hwhole : truncateRunes f.bare.body f.subjectLine.length = f.subjectLine :=
      truncateRunes_of_le (by omega) (Nat.le_refl _)
    have hle : (plainCard .mailNew f.bare.title f.subjectLine []).size
        ≤ (plainCard .mailNew f.bare.title (f.subjectLine ++ s)
            (buttonElement (u.loaded base channels))).size :=
      size_plainCard_le (List.ne_nil_of_length_pos (by omega))
    have htitle : (u.loaded base channels).title = f.bare.title := by
      subst hu
      rfl
    rw [card_eq_plainCard env ((structured_eq_none hu base channels).mpr hplain), hbody, hs, htitle]
    rw [hwhole] at hbare
    exact Nat.lt_of_lt_of_le hbare hle
  refine fit_congr (fun n => ?_) n
  by_cases hcut : n < f.subjectLine.length
  · refine Or.inl (card_of_alike (alike_loaded hv hw) fun _ => ?_)
    obtain ⟨t, hbody, -⟩ := body_loaded hv base channels
    obtain ⟨t', hbody', -⟩ := body_loaded hw base channels
    rw [hbody, hbody', truncateRunes_append_of_lt hcut, truncateRunes_append_of_lt hcut]
  · rw [Nat.not_lt] at hcut
    exact Or.inr ⟨by omega, hgrows v n hv hcut, hgrows w n hw hcut⟩

/-- The mail is known, or hidden behind its subject. -/
theorem dispatch_basic (h : f.Loaded ∨ f.Overlong) (hv : v.face = f) (hw : w.face = f)
    (hne : channels ≠ []) {c : Channel} (hbasic : c.contentLevel = .basic) :
    dispatch env c (v.loaded base channels) = dispatch env c (w.loaded base channels) := by
  have halike : Alike (v.loaded base channels) (w.loaded base channels) := alike_loaded hv hw
  have hplain : (v.loaded base channels).structured = none → f.Overlong := by
    intro hnone
    rcases (structured_eq_none hv base channels).mp hnone with hempty | hnot
    · exact absurd hempty hne
    · exact h.resolve_left hnot
  unfold dispatch
  cases c.channelKind with
  | webhook =>
      have hsame : webhookPayload env (v.loaded base channels) .basic
          = webhookPayload env (w.loaded base channels) .basic := by
        refine webhook_of_alike halike fun hnone => ?_
        obtain ⟨t, hbody, -⟩ := body_loaded hv base channels
        obtain ⟨t', hbody', -⟩ := body_loaded hw base channels
        have hlength := (hplain hnone).1
        rw [hbody, hbody', truncateRunes_append_of_lt hlength, truncateRunes_append_of_lt hlength]
      show Request.mk _ _ (webhookPayload _ _ c.contentLevel) = Request.mk _ _ (webhookPayload _ _ c.contentLevel)
      rw [hbasic, hsame]
  | feishu =>
      have hsame : ∀ n, fitFeishuCard env (v.loaded base channels) .basic n
          = fitFeishuCard env (w.loaded base channels) .basic n := by
        intro n
        cases hs : (v.loaded base channels).structured with
        | none =>
            exact fit_of_overlong (hplain hs) hv hw ((structured_eq_none hv base channels).mp hs) n
        | some s =>
            refine fit_congr (fun n => Or.inl (card_of_alike halike fun hnone => ?_)) n
            rw [hs] at hnone
            cases hnone
      show Request.mk _ _ (sign _ _ (fitFeishuCard _ _ c.contentLevel _))
        = Request.mk _ _ (sign _ _ (fitFeishuCard _ _ c.contentLevel _))
      rw [hbasic, hsame]

/-! ### Views of a face -/

/-- A row with this head. -/
def Head.row (h : Head) (id accountID folderID : Nat) : Message :=
  { Message.bare id accountID folderID (.numbered 1) with
    fromName := h.fromName, fromAddr := h.fromAddr, subject := h.subject, date := h.date }

/-- A mail with this face and snippet, of which nothing else is known. -/
def Face.view (f : Face) (snippet : Text) : View where
  mail := Head.row ⟨f.fromName, f.fromAddr, f.subject, 0⟩ f.id f.accountID 0
  snippet := snippet
  before := ⟨fun _ => f.folderID.map fun k => Message.bare f.id f.accountID k (.numbered 1), fun _ => none⟩
  after := ⟨fun _ => f.row.map fun r => r.row f.id f.accountID 0, fun _ => none⟩

theorem face_view (f : Face) (snippet : Text) : (f.view snippet).face = f := by
  obtain ⟨id, accountID, fromName, fromAddr, subject, folderID, row⟩ := f
  cases folderID <;> cases row <;> rfl

private def basicChannel (kind : String) : Channel :=
  ⟨1, kind.toList, "https://hooks.example".toList, [], "mail_new".toList, true, "basic".toList⟩

private def noEnv : Env := ⟨0, fun _ => [], fun _ => [], fun _ _ => [], none⟩

theorem sent_basicChannel (kind : String) (v : View) :
    v.sent env base [basicChannel kind]
      = [dispatch env (basicChannel kind) (v.loaded base [basicChannel kind])] := by
  have hwants : enabledChannelsFor [basicChannel kind] .mailNew = [basicChannel kind] := rfl
  have hlevel : [basicChannel kind].filter (fun c => c.contentLevel == .basic) = [basicChannel kind] :=
    rfl
  rw [sent_eq, hwants, hlevel]
  rfl

/-- What of the subject and the texts behind it is shown where the mail is not loaded. -/
theorem webhook_body {e e' : Event} {level : ContentLevel}
    (h : webhookPayload env e level = webhookPayload env e' level) :
    plainBody e level webhookBodyRunes = plainBody e' level webhookBodyRunes :=
  Json.str.inj (Option.some.inj (congrArg (Json.get? "body".toList) h))

theorem plainBody_of_none {e : Event} (h : e.structured = none) (level : ContentLevel) (n : Nat) :
    plainBody e level n = truncateRunes e.body n := by
  unfold plainBody
  rw [h]

/-- What a webhook is sent of a mail that is not loaded is the text of the notice. -/
theorem webhook_text (hv : v.face = f) (hw : w.face = f) (hplain : ¬ f.Loaded)
    (hsent : v.sent env base [basicChannel "webhook"] = w.sent env base [basicChannel "webhook"]) :
    truncateRunes (v.loaded base [basicChannel "webhook"]).body webhookBodyRunes
      = truncateRunes (w.loaded base [basicChannel "webhook"]).body webhookBodyRunes := by
  rw [sent_basicChannel, sent_basicChannel] at hsent
  have hpayload := congrArg Request.payload (List.cons.inj hsent).1
  have hbody := webhook_body hpayload
  rwa [plainBody_of_none ((structured_eq_none hv _ _).mpr (Or.inr hplain)),
    plainBody_of_none ((structured_eq_none hw _ _).mpr (Or.inr hplain))] at hbody

/-- A webhook shows the snippet of a mail that is not loaded. -/
theorem webhook_shows (hplain : ¬ f.Loaded) (hshort : f.subjectLine.length ≤ webhookBodyRunes) :
    ¬ Discreet f := by
  intro hdiscreet
  have hbody := webhook_text (face_view f _) (face_view f _) hplain
    (hdiscreet noEnv [] [basicChannel "webhook"] (f.view []) (f.view ['x']) (face_view f _)
      (face_view f _))
  obtain ⟨t, ht, -, hempty⟩ := body_loaded (face_view f []) [] [basicChannel "webhook"]
  obtain ⟨t', ht', hshown, -⟩ := body_loaded (face_view f ['x']) [] [basicChannel "webhook"]
  have hpos : 0 < webhookBodyRunes := by decide
  obtain ⟨u, hu, hne⟩ := truncateRunes_append_of_le hpos hshort t'
  have hblank : oneLine [] = [] := by decide
  have hletter : oneLine ['x'] ≠ [] := by decide
  rw [ht, ht', hempty hblank, List.append_nil, truncateRunes_of_le hpos hshort, hu] at hbody
  exact hne (hshown hletter) (List.self_eq_append_right.mp hbody)

/-- Where a card that is cut down ends. -/
theorem fit_ends (env : Env) (e : Event) (level : ContentLevel) (n : Nat) :
    ∃ k, fitFeishuCard env e level n = feishuCard env e level k ∧
      (k = n ∨ (minFeishuBodyRunes ≤ k ∧ k ≤ max (n * 7 / 10) minFeishuBodyRunes)) := by
  induction n using Nat.strongRecOn with
  | ind n ih =>
      by_cases hstop : (feishuCard env e level n).size ≤ feishuPayloadBudget ∨
          n ≤ minFeishuBodyRunes
      · exact ⟨n, fit_stop hstop, Or.inl rfl⟩
      · obtain ⟨hbig, hmin⟩ := not_or.mp hstop
        rw [Nat.not_le] at hbig hmin
        obtain ⟨k, hk, hle⟩ := ih _ (nextBodyRunes_lt hmin)
        refine ⟨k, (fit_next hbig hmin).trans hk, Or.inr ?_⟩
        have hlt := nextBodyRunes_lt hmin
        have hnext := nextBodyRunes_le n
        have hfloor : minFeishuBodyRunes ≤ nextBodyRunes n := Nat.le_max_right _ _
        omega

theorem sign_nil (env : Env) (card : Json) : sign env [] card = card := by
  cases card <;> rfl

/-- The card of a view whose mail is not loaded, where there is no link. -/
theorem card_view (hplain : ¬ f.Loaded) (env : Env) (snippet : Text) (n : Nat) :
    feishuCard env ((f.view snippet).loaded [] channels) .basic n
      = plainCard .mailNew f.bare.title
          (truncateRunes ((f.view snippet).loaded [] channels).body n) [] := by
  have hnone := (structured_eq_none (face_view f snippet) [] channels).mpr (Or.inr hplain)
  rw [card_eq_plainCard env hnone]
  rfl

/-- A card shows the snippet of a mail that is not loaded. -/
theorem card_shows (hplain : ¬ f.Loaded) (hlong : webhookBodyRunes < f.subjectLine.length)
    (hfits : (feishuCard env f.bare .basic f.subjectLine.length).size ≤ feishuPayloadBudget) :
    ¬ Discreet f := by
  intro hdiscreet
  have hpos : 0 < f.subjectLine.length := by omega
  have hmin : minFeishuBodyRunes < webhookBodyRunes := by decide
  have hsent := hdiscreet { env with bodyRunes := some f.subjectLine.length } []
    [basicChannel "feishu"] (f.view []) (f.view ['x']) (face_view f _) (face_view f _)
  rw [sent_basicChannel, sent_basicChannel] at hsent
  have hcard := congrArg Request.payload (List.cons.inj hsent).1
  have hrunes : configuredBodyRunes { env with bodyRunes := some f.subjectLine.length }
      = f.subjectLine.length := by
    show (if (0 : Int) < (f.subjectLine.length : Int) then _ else _) = _
    rw [if_pos (by omega)]
    rfl
  change sign _ [] (fitFeishuCard _ _ .basic (configuredBodyRunes _))
    = sign _ [] (fitFeishuCard _ _ .basic (configuredBodyRunes _)) at hcard
  rw [sign_nil, sign_nil, hrunes] at hcard
  obtain ⟨t, ht, -, hempty⟩ := body_loaded (face_view f []) [] [basicChannel "feishu"]
  obtain ⟨t', ht', hshown, -⟩ := body_loaded (face_view f ['x']) [] [basicChannel "feishu"]
  have hblank : oneLine [] = [] := by decide
  have hletter : oneLine ['x'] ≠ [] := by decide
  rw [hempty hblank, List.append_nil] at ht
  have hwhole := truncateRunes_of_le hpos (Nat.le_refl f.subjectLine.length)
  have hfirst : feishuCard { env with bodyRunes := some f.subjectLine.length }
      ((f.view []).loaded [] [basicChannel "feishu"]) .basic f.subjectLine.length
        = plainCard .mailNew f.bare.title f.subjectLine [] := by
    rw [card_view hplain, ht, hwhole]
  rw [card_eq_plainCard env rfl, show f.bare.body = f.subjectLine from rfl, hwhole] at hfits
  rw [fit_stop (Or.inl (hfirst ▸ hfits)), hfirst] at hcard
  obtain ⟨k, hk, hlimit⟩ := fit_ends { env with bodyRunes := some f.subjectLine.length }
    ((f.view ['x']).loaded [] [basicChannel "feishu"]) .basic f.subjectLine.length
  rw [hk, card_view hplain, ht'] at hcard
  have hsubject : f.subjectLine ≠ [] := List.ne_nil_of_length_pos hpos
  rcases hlimit with rfl | ⟨hleast, hless⟩
  · obtain ⟨u, hu, hne⟩ := truncateRunes_append_of_le hpos (Nat.le_refl _) t'
    rw [hu] at hcard
    have hsame := plainCard_inj hsubject (by simp [hsubject]) hcard
    exact hne (hshown hletter) (List.self_eq_append_right.mp hsame)
  · unfold minFeishuBodyRunes webhookBodyRunes at *
    have hcut : (truncateRunes (f.subjectLine ++ t') k).length = k + 1 :=
      length_truncateRunes (by omega) (by rw [List.length_append]; omega)
    have hsame := plainCard_inj hsubject (List.ne_nil_of_length_pos (by omega)) hcard
    have hlength := congrArg List.length hsame
    omega

/-- **Basic channels are told no more than sender and subject** exactly if the mail can be loaded
and has one of them, or its subject leaves no room for more. -/
theorem discreet_iff (f : Face) : Discreet f ↔ f.Loaded ∨ f.Overlong := by
  constructor
  · intro hdiscreet
    by_contra hnot
    obtain ⟨hplain, hshort⟩ := not_or.mp hnot
    refine hshort ⟨?_, fun env => ?_⟩
    · by_contra hle
      exact webhook_shows hplain (Nat.not_lt.mp hle) hdiscreet
    · by_contra hle
      refine card_shows hplain ?_ (Nat.not_lt.mp hle) hdiscreet
      by_contra hle
      exact webhook_shows hplain (Nat.not_lt.mp hle) hdiscreet
  · intro h env base stored v w hv hw
    rw [sent_eq, sent_eq]
    refine List.map_congr_left fun c hc => ?_
    obtain ⟨hmem, hbasic⟩ := List.mem_filter.mp hc
    exact dispatch_basic h hv hw (List.ne_nil_of_mem hmem) (beq_iff_eq.mp hbasic)

/-- A mail that is gone when its notice is delivered. -/
private def resetMail : Face := ⟨7, 1, "Shop".toList, "no-reply@shop.example".toList, "登录".toList, some 1, none⟩

/-- **A code in the chat**: the text a webhook is sent has the snippet in it. -/
theorem code_in_chat :
    (resetMail.view "验证码 123456".toList).face = (resetMail.view "验证码 654321".toList).face ∧
      (resetMail.view "验证码 123456".toList).sent noEnv [] [basicChannel "webhook"]
        ≠ (resetMail.view "验证码 654321".toList).sent noEnv [] [basicChannel "webhook"] := by
  refine ⟨(face_view resetMail _).trans (face_view resetMail _).symm, fun hsent => ?_⟩
  have hgone : ¬ resetMail.Loaded := fun ⟨_, r, hr, _⟩ => by cases hr
  have hbody := webhook_text (face_view resetMail _) (face_view resetMail _) hgone hsent
  revert hbody
  decide

end Discreet

end FlyMail.Notify
