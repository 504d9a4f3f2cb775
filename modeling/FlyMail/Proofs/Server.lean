/-
What commands leave of the mails that were there.

A mail under an old UID, one below `uidNext`, was there before.  It is the mail it was,
and of its flags only those may have changed that a `STORE` of the exchange names, and
only to what the `STORE` says.  Nothing is said here of the mails that came in: they
have new UIDs, and no row knows these.
-/
import FlyMail.Sync.System
import Mathlib.Data.List.Nodup

namespace FlyMail.Imap

@[simp] theorem Mail.set_uid (m : Mail) (flag : Flag) (on : Bool) : (m.set flag on).uid = m.uid := by
  cases flag <;> rfl

@[simp] theorem Mail.set_serial (m : Mail) (flag : Flag) (on : Bool) :
    (m.set flag on).serial = m.serial := by
  cases flag <;> rfl

@[simp] theorem Mail.has_set_self (m : Mail) (flag : Flag) (on : Bool) :
    (m.set flag on).has flag = on := by
  cases flag <;> rfl

theorem Mail.has_set_of_ne (m : Mail) {flag flag' : Flag} (on : Bool) (h : flag' ≠ flag) :
    (m.set flag on).has flag' = m.has flag' := by
  cases flag <;> cases flag' <;> first | rfl | exact absurd rfl h

/-- Mails coming in have new UIDs. -/
theorem le_uid_of_mem_renumber {m : Mail} :
    ∀ {ms : List Mail} {next : Nat}, m ∈ renumber next ms → next ≤ m.uid := by
  intro ms
  induction ms with
  | nil => intro next h; simp [renumber] at h
  | cons a rest ih =>
      intro next h
      rcases List.mem_cons.mp h with rfl | h
      · exact Nat.le_refl next
      · exact Nat.le_of_succ_le (ih h)

theorem mem_of_mem_append {b : Mailbox} {ms : List Mail} {m : Mail}
    (h : m ∈ (b.append ms).mails) (hold : m.uid < b.uidNext) : m ∈ b.mails := by
  rcases List.mem_append.mp h with h | h
  · exact h
  · have := le_uid_of_mem_renumber h
    omega

/-- `m` is the mail `m₀`, changed by nothing but the `STORE`s among `cmds`. -/
structure FromOld (cmds : List Command) (here : Prop) (m₀ m : Mail) : Prop where
  uid : m₀.uid = m.uid
  serial : m₀.serial = m.serial
  flags : ∀ flag, m.has flag = m₀.has flag ∨
    ∃ on uids, Command.store flag on uids ∈ cmds ∧ here ∧ m₀.uid ∈ uids ∧ m.has flag = on

theorem FromOld.refl (cmds : List Command) (here : Prop) (m : Mail) : FromOld cmds here m m :=
  ⟨rfl, rfl, fun _ => Or.inl rfl⟩

theorem uidNext_le_run (path : Text) (hit : Nat → Bool) (boxes : Boxes) (c : Command) (p : Text) :
    (boxes p).uidNext ≤ (c.run path hit boxes p).uidNext := by
  have hupdate : ∀ {bs : Boxes} {q : Text} {b : Mailbox}, (bs q).uidNext ≤ b.uidNext →
      (bs p).uidNext ≤ (Function.update bs q b p).uidNext := by
    intro bs q b h
    by_cases hpq : p = q
    · subst hpq
      rw [Function.update_self]
      exact h
    · rw [Function.update_of_ne hpq]
  have happend : ∀ (b : Mailbox) (ms : List Mail), b.uidNext ≤ (b.append ms).uidNext :=
    fun b ms => Nat.le_add_right _ _
  cases c with
  | store flag on uids => exact hupdate (Nat.le_refl _)
  | expunge => exact hupdate (Nat.le_refl _)
  | copy target uids => exact hupdate (happend _ _)
  | move target uids =>
      have hgone : (boxes p).uidNext ≤ (Function.update boxes path
          { boxes path with
            mails := (boxes path).mails.filter fun m => !(uids.contains m.uid && hit m.uid) }
          p).uidNext := hupdate (Nat.le_refl _)
      exact Nat.le_trans hgone (hupdate (happend _ _))

theorem fromOld_of_mem_run {path : Text} {hit : Nat → Bool} {boxes : Boxes} {c : Command}
    {p : Text} {m : Mail} (h : m ∈ (c.run path hit boxes p).mails)
    (hold : m.uid < (boxes p).uidNext) :
    ∃ m₀ ∈ (boxes p).mails, FromOld [c] (p = path) m₀ m := by
  cases c with
  | store flag on uids =>
      simp only [Command.run] at h
      by_cases hp : p = path
      · subst hp
        rw [Function.update_self] at h
        obtain ⟨m₀, hm₀, rfl⟩ := List.mem_map.mp h
        refine ⟨m₀, hm₀, ?_⟩
        by_cases hc : (uids.contains m₀.uid && hit m₀.uid) = true
        · rw [if_pos hc]
          refine ⟨by simp, by simp, fun flag' => ?_⟩
          by_cases hflag : flag' = flag
          · subst hflag
            refine Or.inr ⟨on, uids, by simp, rfl, ?_, by simp⟩
            simpa using (Bool.and_eq_true_iff.mp hc).1
          · exact Or.inl (m₀.has_set_of_ne on hflag)
        · rw [if_neg hc]
          exact .refl _ _ _
      · rw [Function.update_of_ne hp] at h
        exact ⟨m, h, .refl _ _ _⟩
  | expunge =>
      simp only [Command.run] at h
      by_cases hp : p = path
      · subst hp
        rw [Function.update_self] at h
        exact ⟨m, List.mem_of_mem_filter h, .refl _ _ _⟩
      · rw [Function.update_of_ne hp] at h
        exact ⟨m, h, .refl _ _ _⟩
  | copy target uids =>
      simp only [Command.run] at h
      by_cases hp : p = target
      · subst hp
        rw [Function.update_self] at h
        exact ⟨m, mem_of_mem_append h hold, .refl _ _ _⟩
      · rw [Function.update_of_ne hp] at h
        exact ⟨m, h, .refl _ _ _⟩
  | move target uids =>
      simp only [Command.run] at h
      have hrest : ∀ {m : Mail} {b : Mailbox},
          b = { boxes path with
            mails := (boxes path).mails.filter fun m => !(uids.contains m.uid && hit m.uid) } →
          m ∈ (Function.update boxes path b p).mails → m ∈ (boxes p).mails := by
        intro m b hb hm
        by_cases hp : p = path
        · subst hp
          rw [Function.update_self, hb] at hm
          exact List.mem_of_mem_filter hm
        · rw [Function.update_of_ne hp] at hm
          exact hm
      by_cases hp : p = target
      · subst hp
        rw [Function.update_self] at h
        refine ⟨m, hrest rfl (mem_of_mem_append h ?_), .refl _ _ _⟩
        by_cases hpath : p = path
        · subst hpath
          rw [Function.update_self]
          exact hold
        · rw [Function.update_of_ne hpath]
          exact hold
      · rw [Function.update_of_ne hp] at h
        exact ⟨m, hrest rfl h, .refl _ _ _⟩

theorem FromOld.trans {c : Command} {cmds : List Command} {here : Prop} {m₀ m₁ m₂ : Mail}
    (h : FromOld [c] here m₀ m₁) (h' : FromOld cmds here m₁ m₂) :
    FromOld (c :: cmds) here m₀ m₂ := by
  refine ⟨h.uid.trans h'.uid, h.serial.trans h'.serial, fun flag => ?_⟩
  rcases h'.flags flag with heq | ⟨on, uids, hmem, hhere, huid, hon⟩
  · rcases h.flags flag with heq' | ⟨on, uids, hmem, hhere, huid, hon⟩
    · exact Or.inl (heq.trans heq')
    · refine Or.inr ⟨on, uids, ?_, hhere, huid, heq.trans hon⟩
      rw [List.mem_singleton.mp hmem]
      exact List.mem_cons_self
  · exact Or.inr ⟨on, uids, List.mem_cons_of_mem _ hmem, hhere, h.uid ▸ huid, hon⟩

theorem FromOld.mono {cmds cmds' : List Command} {here : Prop} {m₀ m : Mail}
    (h : FromOld cmds here m₀ m) (hsub : ∀ c ∈ cmds, c ∈ cmds') : FromOld cmds' here m₀ m := by
  refine ⟨h.uid, h.serial, fun flag => ?_⟩
  rcases h.flags flag with heq | ⟨on, uids, hmem, hrest⟩
  · exact Or.inl heq
  · exact Or.inr ⟨on, uids, hsub _ hmem, hrest⟩

variable {path : Text}

/-- No UID is handed out twice. -/
theorem uidNext_le_runCommands (p : Text) : ∀ (cmds : List Command) (x : Exchange) (boxes : Boxes),
    (boxes p).uidNext ≤ (runCommands path cmds x boxes p).uidNext := by
  intro cmds
  induction cmds with
  | nil => intro x boxes; exact Nat.le_refl _
  | cons c rest ih =>
      intro x boxes
      cases x with
      | ok => exact Nat.le_trans (uidNext_le_run path _ boxes c p) (ih .ok _)
      | broke done hit =>
          cases done with
          | zero => exact uidNext_le_run path hit boxes c p
          | succ k => exact Nat.le_trans (uidNext_le_run path _ boxes c p) (ih (.broke k hit) _)

/-- **A mail under an old UID is the mail it was**, up to what the exchange's `STORE`s do. -/
theorem fromOld_of_mem_runCommands {p : Text} {m : Mail} :
    ∀ {cmds : List Command} {x : Exchange} {boxes : Boxes},
      m ∈ (runCommands path cmds x boxes p).mails → m.uid < (boxes p).uidNext →
      ∃ m₀ ∈ (boxes p).mails, FromOld cmds (p = path) m₀ m := by
  intro cmds
  induction cmds with
  | nil => intro x boxes h _; exact ⟨m, h, .refl _ _ _⟩
  | cons c rest ih =>
      intro x boxes h hold
      have htail : ∀ x', m ∈ (runCommands path rest x'
          (c.run path (fun _ => true) boxes) p).mails →
          ∃ m₀ ∈ (boxes p).mails, FromOld (c :: rest) (p = path) m₀ m := by
        intro x' h'
        obtain ⟨m₁, hm₁, h₁⟩ := ih h'
          (Nat.lt_of_lt_of_le hold (uidNext_le_run path _ boxes c p))
        obtain ⟨m₀, hm₀, h₀⟩ := fromOld_of_mem_run hm₁ (by rw [h₁.uid]; exact hold)
        exact ⟨m₀, hm₀, h₀.trans h₁⟩
      cases x with
      | ok => exact htail .ok h
      | broke done hit =>
          cases done with
          | zero =>
              obtain ⟨m₀, hm₀, h₀⟩ := fromOld_of_mem_run h hold
              exact ⟨m₀, hm₀, h₀.mono (by simp)⟩
          | succ k => exact htail (.broke k hit) h

/-! ### Every mail is in one place -/

/-- No UID names two mails of a mailbox, none has still to be handed out, and no mail is
in two places. -/
structure Sound (boxes : Boxes) : Prop where
  old : ∀ p, ∀ m ∈ (boxes p).mails, m.uid < (boxes p).uidNext
  uids : ∀ p, ((boxes p).mails.map Mail.uid).Nodup
  serials : ∀ p q, ∀ m ∈ (boxes p).mails, ∀ m' ∈ (boxes q).mails, m.serial = m'.serial →
    p = q ∧ m.uid = m'.uid

theorem eq_of_nodup_map {α β : Type} {f : α → β} {l : List α} (h : (l.map f).Nodup) {a b : α}
    (ha : a ∈ l) (hb : b ∈ l) (heq : f a = f b) : a = b :=
  List.inj_on_of_nodup_map h ha hb heq

theorem Sound.eq_of_uid {boxes : Boxes} (h : Sound boxes) {p : Text} {m m' : Mail}
    (hm : m ∈ (boxes p).mails) (hm' : m' ∈ (boxes p).mails) (huid : m.uid = m'.uid) : m = m' :=
  eq_of_nodup_map (h.uids p) hm hm' huid

theorem Sound.nodup_serials {boxes : Boxes} (h : Sound boxes) (p : Text) :
    ((boxes p).mails.map Mail.serial).Nodup := by
  have huids := h.uids p
  rw [List.Nodup, List.pairwise_map] at huids ⊢
  refine huids.imp_of_mem fun {m m'} hm hm' hne hserial => hne ?_
  exact (h.serials p p m hm m' hm' hserial).2

/-- The commands that change a mailbox in place leave no mail there that was not. -/
theorem Sound.of_inPlace {boxes boxes' : Boxes} (h : Sound boxes)
    (hnext : ∀ p, (boxes p).uidNext ≤ (boxes' p).uidNext)
    (hkeys : ∀ p, ((boxes' p).mails.map fun m => (m.uid, m.serial)).Sublist
      ((boxes p).mails.map fun m => (m.uid, m.serial))) : Sound boxes' := by
  have hold : ∀ p, ∀ m ∈ (boxes' p).mails, ∃ m₀ ∈ (boxes p).mails,
      m₀.uid = m.uid ∧ m₀.serial = m.serial := by
    intro p m hm
    have hmem : (m.uid, m.serial) ∈ (boxes p).mails.map fun m => (m.uid, m.serial) :=
      (hkeys p).subset (List.mem_map.mpr ⟨m, hm, rfl⟩)
    obtain ⟨m₀, hm₀, heq⟩ := List.mem_map.mp hmem
    obtain ⟨huid, hserial⟩ := Prod.mk.inj heq
    exact ⟨m₀, hm₀, huid, hserial⟩
  refine ⟨fun p m hm => ?_, fun p => ?_, fun p q m hm m' hm' hserial => ?_⟩
  · obtain ⟨m₀, hm₀, huid, -⟩ := hold p m hm
    have := h.old p m₀ hm₀
    have := hnext p
    omega
  · have hsub := (hkeys p).map Prod.fst
    rw [List.map_map, List.map_map] at hsub
    exact hsub.nodup (h.uids p)
  · obtain ⟨m₀, hm₀, huid, hser⟩ := hold p m hm
    obtain ⟨m₀', hm₀', huid', hser'⟩ := hold q m' hm'
    obtain ⟨hpq, hsame⟩ := h.serials p q m₀ hm₀ m₀' hm₀' (by rw [hser, hser', hserial])
    exact ⟨hpq, by rw [← huid, ← huid', hsame]⟩

theorem keys_update {boxes : Boxes} {path : Text} {mails : List Mail} {next : Nat}
    (h : (mails.map fun m => (m.uid, m.serial)).Sublist
      ((boxes path).mails.map fun m => (m.uid, m.serial))) (p : Text) :
    ((Function.update boxes path ⟨mails, next⟩ p).mails.map fun m => (m.uid, m.serial)).Sublist
      ((boxes p).mails.map fun m => (m.uid, m.serial)) := by
  by_cases hp : p = path
  · subst hp
    rw [Function.update_self]
    exact h
  · rw [Function.update_of_ne hp]

theorem sound_store {boxes : Boxes} (h : Sound boxes) (hit : Nat → Bool) (flag : Flag) (on : Bool)
    (uids : List Nat) : Sound ((Command.store flag on uids).run path hit boxes) := by
  refine h.of_inPlace (uidNext_le_run path hit boxes _) (keys_update ?_)
  rw [List.map_map]
  have hsame : ∀ m : Mail, ((fun m : Mail => (m.uid, m.serial)) ∘ fun m =>
      if (uids.contains m.uid && hit m.uid) = true then m.set flag on else m) m
        = (m.uid, m.serial) := by
    intro m
    by_cases hc : (uids.contains m.uid && hit m.uid) = true
    · simp only [Function.comp, if_pos hc, Mail.set_uid, Mail.set_serial]
    · simp only [Function.comp, if_neg hc]
  rw [List.map_congr_left fun m _ => hsame m]

theorem sound_expunge {boxes : Boxes} (h : Sound boxes) (hit : Nat → Bool) :
    Sound (Command.expunge.run path hit boxes) :=
  h.of_inPlace (uidNext_le_run path hit boxes _)
    (keys_update (List.Sublist.map _ List.filter_sublist))

theorem map_uid_renumber : ∀ (ms : List Mail) (next : Nat),
    (renumber next ms).map Mail.uid = List.range' next ms.length := by
  intro ms
  induction ms with
  | nil => intro next; rfl
  | cons m rest ih =>
      intro next
      show next :: (renumber (next + 1) rest).map Mail.uid = _
      rw [ih, List.length_cons, List.range'_succ]

theorem map_serial_renumber : ∀ (ms : List Mail) (next : Nat),
    (renumber next ms).map Mail.serial = ms.map Mail.serial := by
  intro ms
  induction ms with
  | nil => intro next; rfl
  | cons m rest ih =>
      intro next
      show m.serial :: (renumber (next + 1) rest).map Mail.serial = _
      rw [ih, List.map_cons]

/-- A mail that comes in is one of those sent in, under its new UID. -/
theorem exists_of_mem_renumber {m' : Mail} : ∀ {ms : List Mail} {next : Nat},
    m' ∈ renumber next ms → ∃ m ∈ ms, m' = { m with uid := m'.uid } := by
  intro ms
  induction ms with
  | nil => intro next h; simp [renumber] at h
  | cons m rest ih =>
      intro next h
      rcases List.mem_cons.mp h with rfl | h
      · exact ⟨m, List.mem_cons_self, rfl⟩
      · obtain ⟨m₀, hm₀, heq⟩ := ih h
        exact ⟨m₀, List.mem_cons_of_mem _ hm₀, heq⟩

theorem exists_mem_renumber {m : Mail} : ∀ {ms : List Mail} {n : Nat}, m ∈ ms →
    ∃ m' ∈ renumber n ms, m' = { m with uid := m'.uid } := by
  intro ms
  induction ms with
  | nil => intro n h; simp at h
  | cons a rest ih =>
      intro n h
      rcases List.mem_cons.mp h with rfl | h
      · exact ⟨_, List.mem_cons_self, rfl⟩
      · obtain ⟨m', hm', heq⟩ := ih (n := n + 1) h
        exact ⟨m', List.mem_cons_of_mem _ hm', heq⟩

theorem uids_append {b : Mailbox} (hold : ∀ m ∈ b.mails, m.uid < b.uidNext)
    (h : (b.mails.map Mail.uid).Nodup) (ms : List Mail) :
    (∀ m ∈ (b.append ms).mails, m.uid < (b.append ms).uidNext) ∧
      ((b.append ms).mails.map Mail.uid).Nodup := by
  have hmaps : (b.append ms).mails.map Mail.uid
      = b.mails.map Mail.uid ++ List.range' b.uidNext ms.length := by
    show (b.mails ++ renumber _ _).map Mail.uid = _
    rw [List.map_append, map_uid_renumber]
  refine ⟨fun m hm => ?_, ?_⟩
  · show m.uid < b.uidNext + ms.length
    have hmem : m.uid ∈ (b.append ms).mails.map Mail.uid := List.mem_map.mpr ⟨m, hm, rfl⟩
    rw [hmaps] at hmem
    rcases List.mem_append.mp hmem with hmem | hmem
    · obtain ⟨m₀, hm₀, heq⟩ := List.mem_map.mp hmem
      have := hold m₀ hm₀
      omega
    · exact (List.mem_range'_1.mp hmem).2
  · rw [hmaps, List.nodup_append]
    refine ⟨h, List.nodup_range', fun a ha b hb => ?_⟩
    obtain ⟨m, hm, rfl⟩ := List.mem_map.mp ha
    have := hold m hm
    have := (List.mem_range'_1.mp hb).1
    omega

section Move

variable {boxes : Boxes} {target : Text} {uids : List Nat} {hit : Nat → Bool}

/-- The mails a `MOVE` or `COPY` takes. -/
def taken (uids : List Nat) (hit : Nat → Bool) (b : Mailbox) : List Mail :=
  b.mails.filter fun m => uids.contains m.uid && hit m.uid

theorem mem_taken {b : Mailbox} {m : Mail} :
    m ∈ taken uids hit b ↔ m ∈ b.mails ∧ m.uid ∈ uids ∧ hit m.uid = true := by
  unfold taken
  rw [List.mem_filter, Bool.and_eq_true, List.contains_iff_mem]

theorem move_target (hne : target ≠ path) : (Command.move target uids).run path hit boxes target
    = (boxes target).append (taken uids hit (boxes path)) := by
  simp only [Command.run, Function.update_self, Function.update_of_ne hne]
  rfl

theorem mem_move_of_ne {p : Text} (hp : p ≠ target) {m : Mail} :
    m ∈ ((Command.move target uids).run path hit boxes p).mails ↔
      m ∈ (boxes p).mails ∧ (p = path → m ∉ taken uids hit (boxes path)) := by
  simp only [Command.run, Function.update_of_ne hp]
  by_cases hpath : p = path
  · subst hpath
    rw [Function.update_self, mem_taken]
    show m ∈ List.filter _ _ ↔ _
    rw [List.mem_filter]
    refine and_congr_right fun hm => ?_
    simp [hm, imp_iff_not_or]
  · rw [Function.update_of_ne hpath]
    exact ⟨fun hm => ⟨hm, fun hc => absurd hc hpath⟩, fun hm => hm.1⟩

/-- Where a mail was before a `MOVE`. -/
theorem exists_origin (hne : target ≠ path) {p : Text} {m : Mail}
    (h : m ∈ ((Command.move target uids).run path hit boxes p).mails) :
    (m ∈ (boxes p).mails ∧ (p = path → m ∉ taken uids hit (boxes path))) ∨
      (p = target ∧ m ∈ renumber (boxes target).uidNext (taken uids hit (boxes path)) ∧
        ∃ m₀ ∈ taken uids hit (boxes path), m = { m₀ with uid := m.uid }) := by
  by_cases hp : p = target
  · subst hp
    rw [move_target hne] at h
    rcases List.mem_append.mp h with h | h
    · exact Or.inl ⟨h, fun hc => absurd hc hne⟩
    · exact Or.inr ⟨rfl, h, exists_of_mem_renumber h⟩
  · exact Or.inl ((mem_move_of_ne hp).mp h)

/-- **A `MOVE` to another mailbox leaves every mail in one place.** -/
theorem sound_move (h : Sound boxes) (hne : target ≠ path) :
    Sound ((Command.move target uids).run path hit boxes) := by
  have huids : ∀ p, (∀ m ∈ ((Command.move target uids).run path hit boxes p).mails,
      m.uid < ((Command.move target uids).run path hit boxes p).uidNext) ∧
      (((Command.move target uids).run path hit boxes p).mails.map Mail.uid).Nodup := by
    intro p
    by_cases hp : p = target
    · subst hp
      rw [move_target hne]
      exact uids_append (h.old p) (h.uids p) _
    · refine ⟨fun m hm => ?_, ?_⟩
      · exact Nat.lt_of_lt_of_le (h.old p m ((mem_move_of_ne hp).mp hm).1)
          (uidNext_le_run path hit boxes _ p)
      · simp only [Command.run, Function.update_of_ne hp]
        by_cases hpath : p = path
        · subst hpath
          rw [Function.update_self]
          exact (List.Sublist.map Mail.uid List.filter_sublist).nodup (h.uids p)
        · rw [Function.update_of_ne hpath]
          exact h.uids p
  -- A mail that came in was in the source, and is no longer.
  have hclash : ∀ {p : Text} {m m' : Mail}, m ∈ (boxes p).mails →
      (p = path → m ∉ taken uids hit (boxes path)) →
      (∃ m₀ ∈ taken uids hit (boxes path), m' = { m₀ with uid := m'.uid }) →
      m.serial = m'.serial → False := by
    intro p m m' hm hstay hfrom hserial
    obtain ⟨m₀, hm₀, heq⟩ := hfrom
    have hmem := (mem_taken.mp hm₀).1
    have hser : m.serial = m₀.serial := by
      rw [hserial, heq]
    obtain ⟨hpath, huid⟩ := h.serials p path m hm m₀ hmem hser
    subst hpath
    rw [← h.eq_of_uid hm hmem huid] at hm₀
    exact hstay rfl hm₀
  refine ⟨fun p => (huids p).1, fun p => (huids p).2, fun p q m hm m' hm' hserial => ?_⟩
  rcases exists_origin hne hm with ⟨hmem, hstay⟩ | ⟨hp, hnew, hfrom⟩
  · rcases exists_origin hne hm' with ⟨hmem', -⟩ | ⟨-, -, hfrom'⟩
    · exact h.serials p q m hmem m' hmem' hserial
    · exact (hclash hmem hstay hfrom' hserial).elim
  · rcases exists_origin hne hm' with ⟨hmem', hstay'⟩ | ⟨hq, hnew', -⟩
    · exact (hclash hmem' hstay' hfrom hserial.symm).elim
    · have hnodup : ((renumber (boxes target).uidNext (taken uids hit (boxes path))).map
          Mail.serial).Nodup := by
        rw [map_serial_renumber]
        exact (List.Sublist.map Mail.serial List.filter_sublist).nodup (h.nodup_serials path)
      rw [eq_of_nodup_map hnodup hnew hnew' hserial]
      exact ⟨hp.trans hq.symm, rfl⟩

end Move

/-! ### `MOVE`, and what stands for it where there is none -/

/-- The first command of the exchange took effect on the mail. -/
def Exchange.reached (x : Exchange) (uid : Nat) : Bool :=
  match x with
  | .ok => true
  | .broke 0 hit => hit uid
  | .broke (_ + 1) _ => true

/-- The third command took effect on the mail. -/
def Exchange.cleared (x : Exchange) (uid : Nat) : Bool :=
  match x with
  | .ok => true
  | .broke 0 _ => false
  | .broke 1 _ => false
  | .broke 2 hit => hit uid
  | .broke (_ + 3) _ => true

/-- The exchange leaves no mail both where it was and where it was to go. -/
def Exchange.leavesOne (x : Exchange) (canMove : Bool) (uid : Nat) : Bool :=
  canMove || !x.reached uid || x.cleared uid

section Moving

variable {boxes : Boxes} {target : Text} {uids : List Nat} {x : Exchange} {canMove : Bool}

theorem run_move_eq (hnil : uids ≠ []) : runCommands path (move true target uids) x boxes
    = (Command.move target uids).run path x.reached boxes := by
  unfold move
  rw [if_neg hnil, if_pos rfl]
  cases x with
  | ok => rfl
  | broke done hit =>
      cases done with
      | zero => rfl
      | succ k => rfl

/-- Nothing copied, nothing changed. -/
theorem copy_eq_self {hit : Nat → Bool} (h : taken uids hit (boxes path) = []) :
    (Command.copy target uids).run path hit boxes = boxes := by
  show Function.update boxes target ((boxes target).append (taken uids hit (boxes path))) = boxes
  rw [h]
  have hsame : (boxes target).append [] = boxes target := by
    unfold Mailbox.append
    simp [renumber]
  rw [hsame, Function.update_eq_self]

/-- What is marked is what the `EXPUNGE` takes first of all. -/
theorem filter_marked {hit : Nat → Bool} : ∀ {ms : List Mail},
    (∀ m ∈ ms, m.uid ∈ uids → hit m.uid = true) →
      (ms.map fun m => if (uids.contains m.uid && true) = true then m.set .deleted true
          else m).filter (fun m => !(m.deleted && hit m.uid))
        = (ms.filter fun m => !(uids.contains m.uid && true)).filter
            fun m => !(m.deleted && hit m.uid) := by
  intro ms
  induction ms with
  | nil => intro _; rfl
  | cons m rest ih =>
      intro h
      have hrest := ih fun m' hm' => h m' (List.mem_cons_of_mem _ hm')
      rw [List.map_cons, List.filter_cons, List.filter_cons, hrest]
      by_cases hc : (uids.contains m.uid && true) = true
      · have hhit := h m List.mem_cons_self (by simpa using hc)
        rw [if_pos hc, hc]
        simp [Mail.set, hhit]
      · rw [if_neg hc]
        rw [Bool.not_eq_true] at hc
        rw [hc, Bool.not_false, if_pos rfl, List.filter_cons]

/-- Marking what was copied and expunging comes to a `MOVE` and an `EXPUNGE`. -/
theorem copy_delete_eq (hne : target ≠ path) {hit : Nat → Bool}
    (hclear : ∀ m ∈ (boxes path).mails, m.uid ∈ uids → hit m.uid = true) :
    Command.expunge.run path hit ((Command.store .deleted true uids).run path (fun _ => true)
        ((Command.copy target uids).run path (fun _ => true) boxes))
      = Command.expunge.run path hit
          ((Command.move target uids).run path (fun _ => true) boxes) := by
  funext p
  by_cases hp : p = path
  · subst hp
    simp only [Command.run, Function.update_self, Function.update_of_ne hne.symm]
    rw [filter_marked hclear]
  · simp only [Command.run, Function.update_of_ne hp]
    by_cases htarget : p = target
    · subst htarget
      rw [Function.update_self, Function.update_self]
      rw [Function.update_of_ne hne]
    · rw [Function.update_of_ne htarget, Function.update_of_ne htarget, Function.update_of_ne hp]

/-- **A move.** Every mail stays in one place, and each mail of the group is where it is to
go as soon as the first command took effect on it. -/
theorem move_spec (h : Sound boxes) (hne : target ≠ path) (hnil : uids ≠ [])
    (hone : ∀ m ∈ (boxes path).mails, m.uid ∈ uids → x.leavesOne canMove m.uid = true) :
    Sound (runCommands path (move canMove target uids) x boxes) ∧
      ∀ m ∈ (boxes path).mails, m.uid ∈ uids →
        if x.reached m.uid then
          ∃ m' ∈ (runCommands path (move canMove target uids) x boxes target).mails,
            (boxes target).uidNext ≤ m'.uid ∧ m' = { m with uid := m'.uid }
        else m ∈ (runCommands path (move canMove target uids) x boxes path).mails := by
  have harrives : ∀ hit : Nat → Bool, ∀ m ∈ (boxes path).mails, m.uid ∈ uids → hit m.uid = true →
      ∃ m' ∈ ((Command.move target uids).run path hit boxes target).mails,
        (boxes target).uidNext ≤ m'.uid ∧ m' = { m with uid := m'.uid } := by
    intro hit m hm huid hhit
    rw [move_target hne]
    obtain ⟨m', hm', heq⟩ := exists_mem_renumber (n := (boxes target).uidNext)
      (mem_taken.mpr ⟨hm, huid, hhit⟩)
    exact ⟨m', List.mem_append.mpr (Or.inr hm'), le_uid_of_mem_renumber hm', heq⟩
  by_cases hmove : canMove = true
  · subst hmove
    rw [run_move_eq hnil]
    refine ⟨sound_move h hne, fun m hm huid => ?_⟩
    by_cases hreached : x.reached m.uid = true
    · rw [if_pos hreached]
      exact harrives x.reached m hm huid hreached
    · rw [if_neg hreached]
      refine (mem_move_of_ne hne.symm).mpr ⟨hm, fun _ htaken => hreached ?_⟩
      exact (mem_taken.mp htaken).2.2
  · have hcmds : move canMove target uids
        = [.copy target uids, .store .deleted true uids, .expunge] := by
      unfold move delete storeFlags
      rw [if_neg hnil, if_neg hmove, if_neg hnil]
      rfl
    rw [hcmds]
    rw [Bool.not_eq_true] at hmove
    -- The copies were all cleared away.
    have hcleared : ∀ hit : Nat → Bool, (∀ m ∈ (boxes path).mails, m.uid ∈ uids →
        hit m.uid = true) → (∀ uid, x.reached uid = true) →
        runCommands path [.copy target uids, .store .deleted true uids, .expunge] x boxes
          = Command.expunge.run path hit ((Command.store .deleted true uids).run path
            (fun _ => true) ((Command.copy target uids).run path (fun _ => true) boxes)) →
        Sound (runCommands path [.copy target uids, .store .deleted true uids, .expunge] x boxes) ∧
          ∀ m ∈ (boxes path).mails, m.uid ∈ uids → if x.reached m.uid then
            ∃ m' ∈ (runCommands path [.copy target uids, .store .deleted true uids, .expunge] x
                boxes target).mails, (boxes target).uidNext ≤ m'.uid ∧ m' = { m with uid := m'.uid }
            else m ∈ (runCommands path [.copy target uids, .store .deleted true uids, .expunge] x
              boxes path).mails := by
      intro hit hall hreached hrun
      rw [hrun, copy_delete_eq hne hall]
      refine ⟨sound_expunge (sound_move h hne) hit, fun m hm huid => ?_⟩
      rw [if_pos (hreached m.uid)]
      obtain ⟨m', hm', hrest⟩ := harrives (fun _ => true) m hm huid rfl
      refine ⟨m', ?_, hrest⟩
      simp only [Command.run, Function.update_of_ne hne] at hm' ⊢
      exact hm'
    cases x with
    | ok => exact hcleared (fun _ => true) (fun _ _ _ => rfl) (fun _ => rfl) rfl
    | broke done hit =>
        match done with
        | 0 =>
            have hmiss : ∀ m ∈ (boxes path).mails, m.uid ∈ uids → hit m.uid = false := by
              intro m hm huid
              have := hone m hm huid
              simpa [Exchange.leavesOne, Exchange.reached, Exchange.cleared, hmove] using this
            have hsame : (Command.copy target uids).run path hit boxes = boxes := by
              refine copy_eq_self (List.filter_eq_nil_iff.mpr fun m hm hc => ?_)
              obtain ⟨huid, hhit⟩ := Bool.and_eq_true_iff.mp hc
              rw [hmiss m hm (by simpa using huid)] at hhit
              cases hhit
            have hrun : runCommands path [.copy target uids, .store .deleted true uids, .expunge]
                (.broke 0 hit) boxes = boxes := hsame
            rw [hrun]
            refine ⟨h, fun m hm huid => ?_⟩
            have hreached : ¬ (Exchange.broke 0 hit).reached m.uid = true := by
              simp [Exchange.reached, hmiss m hm huid]
            rw [if_neg hreached]
            exact hm
        | 1 =>
            have hnone : ∀ m ∈ (boxes path).mails, m.uid ∉ uids := by
              intro m hm huid
              have := hone m hm huid
              simp [Exchange.leavesOne, Exchange.reached, Exchange.cleared, hmove] at this
            have hsame : (Command.copy target uids).run path (fun _ => true) boxes = boxes := by
              refine copy_eq_self (List.filter_eq_nil_iff.mpr fun m hm hc => ?_)
              exact hnone m hm (by simpa using hc)
            refine ⟨?_, fun m hm huid => absurd huid (hnone m hm)⟩
            show Sound ((Command.store .deleted true uids).run path hit
              ((Command.copy target uids).run path (fun _ => true) boxes))
            rw [hsame]
            exact sound_store h hit _ _ _
        | 2 =>
            refine hcleared hit (fun m hm huid => ?_) (fun _ => rfl) rfl
            have := hone m hm huid
            simpa [Exchange.leavesOne, Exchange.reached, Exchange.cleared, hmove] using this
        | k + 3 => exact hcleared (fun _ => true) (fun _ _ _ => rfl) (fun _ => rfl) rfl

end Moving

/-! ### What a command leaves alone -/

/-- The command neither takes the mail under `uid` away from `p` nor marks it for that. -/
def Command.spares (path p : Text) (uid : Nat) : Command → Prop
  | .store .deleted _ uids => p = path → uid ∉ uids
  | .move _ uids => p = path → uid ∉ uids
  | _ => True

theorem exists_mem_run {hit : Nat → Bool} {boxes : Boxes} {c : Command} {p : Text} {m : Mail}
    (h : m ∈ (boxes p).mails) (hdeleted : m.deleted = false) (hc : c.spares path p m.uid) :
    ∃ m' ∈ (c.run path hit boxes p).mails,
      m'.uid = m.uid ∧ m'.serial = m.serial ∧ m'.deleted = false := by
  have happend : ∀ {bs : Boxes} {q : Text} {ms : List Mail}, m ∈ (bs p).mails →
      m ∈ (Function.update bs q ((bs q).append ms) p).mails := by
    intro bs q ms hm
    by_cases hp : p = q
    · subst hp
      rw [Function.update_self]
      exact List.mem_append.mpr (Or.inl hm)
    · rw [Function.update_of_ne hp]
      exact hm
  cases c with
  | store flag on uids =>
      simp only [Command.run]
      by_cases hp : p = path
      · subst hp
        rw [Function.update_self]
        refine ⟨_, List.mem_map.mpr ⟨m, h, rfl⟩, ?_⟩
        by_cases hmem : (uids.contains m.uid && hit m.uid) = true
        · have huid : m.uid ∈ uids := by simpa using (Bool.and_eq_true_iff.mp hmem).1
          rw [if_pos hmem]
          refine ⟨by simp, by simp, ?_⟩
          cases flag with
          | seen => exact hdeleted
          | flagged => exact hdeleted
          | deleted => exact absurd huid (hc rfl)
        · rw [if_neg hmem]
          exact ⟨rfl, rfl, hdeleted⟩
      · rw [Function.update_of_ne hp]
        exact ⟨m, h, rfl, rfl, hdeleted⟩
  | expunge =>
      simp only [Command.run]
      by_cases hp : p = path
      · subst hp
        rw [Function.update_self]
        exact ⟨m, List.mem_filter.mpr ⟨h, by simp [hdeleted]⟩, rfl, rfl, hdeleted⟩
      · rw [Function.update_of_ne hp]
        exact ⟨m, h, rfl, rfl, hdeleted⟩
  | copy target uids => exact ⟨m, happend h, rfl, rfl, hdeleted⟩
  | move target uids =>
      refine ⟨m, happend ?_, rfl, rfl, hdeleted⟩
      by_cases hp : p = path
      · subst hp
        have huid := hc rfl
        rw [Function.update_self]
        exact List.mem_filter.mpr ⟨h, by simp [huid]⟩
      · rw [Function.update_of_ne hp]
        exact h

/-- **A mail the exchange is not about stays where it is.** -/
theorem exists_mem_runCommands {p : Text} : ∀ {cmds : List Command} {x : Exchange} {boxes : Boxes}
    {m : Mail}, m ∈ (boxes p).mails → m.deleted = false →
      (∀ c ∈ cmds, c.spares path p m.uid) →
      ∃ m' ∈ (runCommands path cmds x boxes p).mails,
        m'.uid = m.uid ∧ m'.serial = m.serial ∧ m'.deleted = false := by
  intro cmds
  induction cmds with
  | nil => intro x boxes m h hdeleted _; exact ⟨m, h, rfl, rfl, hdeleted⟩
  | cons c rest ih =>
      intro x boxes m h hdeleted hspare
      have hfirst : ∀ hit, ∃ m' ∈ (c.run path hit boxes p).mails,
          m'.uid = m.uid ∧ m'.serial = m.serial ∧ m'.deleted = false := fun hit =>
        exists_mem_run h hdeleted (hspare c List.mem_cons_self)
      have hthen : ∀ x', ∃ m' ∈ (runCommands path rest x' (c.run path (fun _ => true) boxes)
          p).mails, m'.uid = m.uid ∧ m'.serial = m.serial ∧ m'.deleted = false := by
        intro x'
        obtain ⟨m₁, hm₁, huid, hserial, hdeleted₁⟩ := hfirst fun _ => true
        obtain ⟨m', hm', huid', hserial', hdeleted'⟩ := ih (x := x') hm₁ hdeleted₁ fun c' hc' => by
          rw [huid]
          exact hspare c' (List.mem_cons_of_mem _ hc')
        exact ⟨m', hm', huid'.trans huid, hserial'.trans hserial, hdeleted'⟩
      cases x with
      | ok => exact hthen .ok
      | broke done hit =>
          cases done with
          | zero => exact hfirst hit
          | succ k => exact hthen (.broke k hit)

/-- The command changes mails where they are. -/
def Command.inPlace : Command → Bool
  | .store _ _ _ => true
  | .expunge => true
  | _ => false

theorem sound_runCommands : ∀ {cmds : List Command} {x : Exchange} {boxes : Boxes},
    (∀ c ∈ cmds, c.inPlace = true) → Sound boxes → Sound (runCommands path cmds x boxes) := by
  intro cmds
  induction cmds with
  | nil => intro x boxes _ h; exact h
  | cons c rest ih =>
      intro x boxes hin h
      have hfirst : ∀ hit, Sound (c.run path hit boxes) := by
        intro hit
        have hc := hin c List.mem_cons_self
        cases c with
        | store flag on uids => exact sound_store h hit flag on uids
        | expunge => exact sound_expunge h hit
        | copy target uids => cases hc
        | move target uids => cases hc
      have hrest : ∀ c' ∈ rest, c'.inPlace = true := fun c' hc' =>
        hin c' (List.mem_cons_of_mem _ hc')
      cases x with
      | ok => exact ih hrest (hfirst _)
      | broke done hit =>
          cases done with
          | zero => exact hfirst hit
          | succ k => exact ih hrest (hfirst _)

end FlyMail.Imap
