/-
Who may be written as the sender.

The list of aliases is kept in order by what stores into it: every address in it is plain and in the form
comparisons use, and storing one clears the mark of the others.  So whatever runs at the same time, an account
sends from its own address or from one in its list, and the list never has an address twice nor two defaults
(`identities_of_run`).
-/
import FlyMail.Account.Identity

namespace FlyMail.Account.Identity

/-! ### Addresses -/

/-- An address that can be written into a header as it is. -/
structure Plain (s : Text) : Prop where
  parts : ∃ before domain, s = before ++ '@' :: domain ∧ before ≠ [] ∧ domain ≠ [] ∧ '@' ∉ before ∧ '@' ∉ domain
  chars : ∀ c ∈ s, 0x20 < c.toNat ∧ c.toNat ≤ 0x7e ∧ c ∉ addrSpecForbidden
  short : Text.byteLen s ≤ 254

theorem not_mem_of_cut {t a b : Text} {sep : Char} (h : Text.cut t sep = some (a, b)) : sep ∉ a := by
  unfold Text.cut at h
  split at h
  · cases h
  · obtain ⟨rfl, -⟩ := Prod.mk.inj (Option.some.inj h)
    intro hm
    simpa using List.mem_takeWhile_imp hm

theorem plain_of_plainAddrSpec {s : Text} (h : plainAddrSpec s = true) : Plain s := by
  unfold plainAddrSpec at h
  split at h
  · cases h
  next hlen =>
  split at h
  · cases h
  next before domain hcut =>
  split at h
  · cases h
  next hparts =>
  split at h
  · cases h
  split at h
  · cases h
  next hrange =>
  simp only [not_or, Nat.not_lt] at hlen hparts
  refine ⟨⟨before, domain, Text.eq_of_cut hcut, hparts.1, hparts.2.2, not_mem_of_cut hcut, hparts.2.1⟩,
    fun c hc => ?_, hlen.2⟩
  have hr : ∀ c ∈ s, 0x20 < c.toNat ∧ c.toNat ≤ 0x7e := by simpa using hrange
  have hf : ∀ c ∈ s, c ∉ addrSpecForbidden := by simpa using h
  exact ⟨(hr c hc).1, (hr c hc).2, hf c hc⟩

section

variable {toLower : Char → Char} {parseAddress : Text → Option (Text × Text)}

/-- The form in which addresses are compared is one. -/
theorem normalizeEmail_eq_self (hlower : ∀ c, toLower (toLower c) = toLower c) {t : Text}
    (h : Plain (normalizeEmail toLower t)) :
    normalizeEmail toLower (normalizeEmail toLower t) = normalizeEmail toLower t := by
  have htrim : Text.trimSpace (normalizeEmail toLower t) = normalizeEmail toLower t := by
    refine Text.trimSpace_eq_self fun c hc => ?_
    obtain ⟨hlo, hhi, -⟩ := h.chars c hc
    simp only [Text.isSpace, Bool.or_eq_false_iff, Bool.and_eq_false_iff, beq_eq_false_iff_ne, decide_eq_false_iff_not]
    omega
  rw [normalizeEmail, htrim, normalizeEmail, List.map_map]
  exact List.map_congr_left fun c _ => hlower c

theorem parseAddrSpec_eq_some (hlower : ∀ c, toLower (toLower c) = toLower c) {input email : Text}
    (h : parseAddrSpec toLower parseAddress input = some email) :
    Plain email ∧ normalizeEmail toLower email = email := by
  unfold parseAddrSpec at h
  split at h
  · cases h
  split at h
  · cases h
  dsimp only at h
  split at h
  · next hplain =>
    have hp := plain_of_plainAddrSpec hplain
    obtain rfl := Option.some.inj h
    exact ⟨hp, normalizeEmail_eq_self hlower hp⟩
  · cases h

/-! ### The list -/

variable (toLower) in
/-- What the application keeps of the list. -/
structure Kept (t : Aliases) : Prop where
  plain : ∀ r ∈ t.rows, Plain r.email
  normal : ∀ r ∈ t.rows, normalizeEmail toLower r.email = r.email
  one : ∀ a ∈ t.rows, ∀ b ∈ t.rows, a.isDefault = true → b.isDefault = true → a.accountID = b.accountID → a = b

theorem Kept.keep {t : Aliases} (h : Kept toLower t) (p : Alias → Bool) : Kept toLower (t.keep p) where
  plain r hr := h.plain r (List.mem_filter.mp hr).1
  normal r hr := h.normal r (List.mem_filter.mp hr).1
  one a ha b hb := h.one a (List.mem_filter.mp ha).1 b (List.mem_filter.mp hb).1

theorem put_ok {t t' : Aliases} {a a' : Alias} (h : t.put a = .ok (t', a')) :
    a' = a ∧ t'.rows = t.rows.filter (fun r => r.id != a'.id) ++ [a'] := by
  unfold Aliases.put at h
  split at h
  · obtain ⟨rfl, rfl⟩ := Prod.mk.inj (Except.ok.inj h)
    exact ⟨rfl, rfl⟩
  · cases h

theorem save_ok {t t' : Aliases} {a a' : Alias} (h : t.save a = .ok (t', a')) :
    a'.accountID = a.accountID ∧ a'.email = a.email ∧ a'.isDefault = a.isDefault ∧
      t'.rows = t.rows.filter (fun r => r.id != a'.id) ++ [a'] := by
  obtain ⟨he, hrows⟩ := put_ok h
  refine ⟨?_, ?_, ?_, hrows⟩ <;> rw [he] <;> split <;> rfl

/-- **What storing an alias leaves**: the alias, and of the other rows those with another id, without the mark if
they are of the same account and the alias has it. -/
theorem mem_saveAlias {t t' : Aliases} {a a' : Alias} (h : t.saveAlias a = .ok (t', a')) :
    a'.accountID = a.accountID ∧ a'.email = a.email ∧ a'.isDefault = a.isDefault ∧ a' ∈ t'.rows ∧
      ∀ r ∈ t'.rows, r = a' ∨ ∃ b ∈ t.rows, r.id ≠ a'.id ∧ r.email = b.email ∧
        (r.isDefault = true → r = b ∧ (a.isDefault = true → r.accountID ≠ a.accountID)) := by
  obtain ⟨⟨u, b⟩, hsave, hret⟩ : ∃ p, t.save a = .ok p ∧
      (t', a') = (if p.2.isDefault then p.1.onlyDefault p.2 else p.1, p.2) := by
    unfold Aliases.saveAlias at h
    cases hs : t.save a with
    | error e =>
        rw [hs] at h
        cases h
    | ok p =>
        rw [hs] at h
        exact ⟨p, rfl, (Except.ok.inj h).symm⟩
  obtain ⟨ht, rfl⟩ := Prod.mk.inj hret
  obtain ⟨hacc, hemail, hdef, hrows⟩ := save_ok hsave
  dsimp only at ht hacc hemail hdef hrows ⊢
  have hu : ∀ r ∈ u.rows, r = a' ∨ r ∈ t.rows ∧ r.id ≠ a'.id := by
    intro r hr
    rw [hrows] at hr
    rcases List.mem_append.mp hr with hold | hnew
    · exact .inr ⟨(List.mem_filter.mp hold).1, by simpa using (List.mem_filter.mp hold).2⟩
    · exact .inl (List.mem_singleton.mp hnew)
  have hb : a' ∈ u.rows := by simp [hrows]
  refine ⟨hacc, hemail, hdef, ?_, fun r hr => ?_⟩
  · rw [ht]
    split
    · exact List.mem_map.mpr ⟨a', hb, by simp⟩
    · exact hb
  · by_cases hd : a'.isDefault = true
    · rw [ht, if_pos hd] at hr
      obtain ⟨c, hc, hcr⟩ := List.mem_map.mp hr
      rcases hu c hc with rfl | ⟨hct, hne⟩
      · exact .inl (by simpa using hcr.symm)
      refine .inr ⟨c, hct, ?_⟩
      by_cases hsame : c.accountID = a'.accountID
      · rw [if_pos ⟨hsame, hne⟩] at hcr
        subst hcr
        exact ⟨hne, rfl, fun hf => by cases hf⟩
      · rw [if_neg fun hand => hsame hand.1] at hcr
        subst hcr
        exact ⟨hne, rfl, fun _ => ⟨rfl, fun _ => hacc ▸ hsame⟩⟩
    · rw [ht, if_neg hd] at hr
      rcases hu r hr with rfl | ⟨hrt, hne⟩
      · exact .inl rfl
      · exact .inr ⟨r, hrt, hne, rfl, fun _ => ⟨rfl, fun ha => absurd (hdef.trans ha) hd⟩⟩

theorem Kept.saveAlias {t t' : Aliases} {a a' : Alias} (hk : Kept toLower t) (hp : Plain a.email)
    (hn : normalizeEmail toLower a.email = a.email) (h : t.saveAlias a = .ok (t', a')) : Kept toLower t' := by
  obtain ⟨hacc, hemail, hdef, ha', hmem⟩ := mem_saveAlias h
  refine ⟨fun r hr => ?_, fun r hr => ?_, fun b hb c hc hbd hcd hbc => ?_⟩
  · rcases hmem r hr with rfl | ⟨s, hs, -, he, -⟩
    · exact hemail ▸ hp
    · exact he ▸ hk.plain s hs
  · rcases hmem r hr with rfl | ⟨s, hs, -, he, -⟩
    · rw [hemail]
      exact hn
    · rw [he]
      exact hk.normal s hs
  · rcases hmem b hb with rfl | ⟨s, hs, hne, -, hsd⟩ <;> rcases hmem c hc with rfl | ⟨u, hu, hne', -, hud⟩
    · rfl
    · exact absurd (hbc.symm.trans hacc) ((hud hcd).2 (hdef ▸ hbd))
    · exact absurd (hbc.trans hacc) ((hsd hbd).2 (hdef ▸ hcd))
    · obtain ⟨rfl, -⟩ := hsd hbd
      obtain ⟨rfl, -⟩ := hud hcd
      exact hk.one b hs c hu hbd hcd hbc

/-- An account has an address in its list once. -/
theorem Kept.eq_of_normal {t : Aliases} (hk : Kept toLower t) {a b : Alias} (ha : a ∈ t.rows) (hb : b ∈ t.rows)
    (hacc : a.accountID = b.accountID) (he : normalizeEmail toLower a.email = normalizeEmail toLower b.email) :
    a = b := by
  refine List.inj_on_of_nodup_map t.keys ha hb ?_
  rw [Alias.key, Alias.key, hacc, ← hk.normal a ha, he, hk.normal b hb]

theorem mem_listAliases {t : Aliases} {accountID : Nat} {r : Alias} :
    r ∈ t.listAliases accountID ↔ r ∈ t.rows ∧ r.accountID = accountID := by
  simp [Aliases.listAliases, List.mem_insertionSort]

/-! ### The calls -/

variable (toLower) in
/-- What a call knows of the address it is about to store. -/
def Right : Frame → Prop
  | .listAliases _ _ _ email => Plain email ∧ normalizeEmail toLower email = email
  | .saveAlias a => Plain a.email ∧ normalizeEmail toLower a.email = a.email
  | _ => True

theorem kept_proceed (hlower : ∀ c, toLower (toLower c) = toLower c) {f : Frame} {s : Store}
    (hk : Kept toLower s.aliases) (hf : Right toLower f) :
    Kept toLower (proceed toLower parseAddress f s).1.aliases ∧
      Right toLower (proceed toLower parseAddress f s).2 := by
  cases f with
  | getAlias accountID aliasID req =>
      simp only [proceed]
      split <;> exact ⟨hk, trivial⟩
  | getAccount accountID existing req =>
      simp only [proceed]
      split
      · exact ⟨hk, trivial⟩
      split
      · exact ⟨hk, trivial⟩
      next email hemail =>
      split
      · exact ⟨hk, trivial⟩
      · exact ⟨hk, parseAddrSpec_eq_some hlower hemail⟩
  | listAliases accountID existing req email =>
      simp only [proceed]
      split
      · exact ⟨hk, trivial⟩
      · exact ⟨hk, hf⟩
  | saveAlias a =>
      simp only [proceed]
      split
      · exact ⟨hk, trivial⟩
      · next hsave => exact ⟨hk.saveAlias hf.1 hf.2 hsave, trivial⟩
  | deleteAlias accountID aliasID =>
      simp only [proceed]
      split
      · exact ⟨hk, trivial⟩
      · exact ⟨hk.keep _, trivial⟩
  | resolveAccount accountID alias_ =>
      simp only [proceed]
      split
      · exact ⟨hk, trivial⟩
      · split <;> exact ⟨hk, trivial⟩
  | resolveAliases accountID alias_ =>
      simp only [proceed]
      split <;> exact ⟨hk, trivial⟩
  | _ => exact ⟨hk, hf⟩

/-- **What a step of a call keeps.** -/
theorem kept_next (hlower : ∀ c, toLower (toLower c) = toLower c) {down : Bool} {f f' : Frame} {s s' : Store}
    (hk : Kept toLower s.aliases) (hf : Right toLower f) (h : next toLower parseAddress down f s = some (s', f')) :
    Kept toLower s'.aliases ∧ Right toLower f' := by
  unfold next at h
  split at h
  · cases h
  split at h
  · obtain ⟨rfl, rfl⟩ := Prod.mk.inj (Option.some.inj h)
    exact ⟨hk, trivial⟩
  · have hp := @kept_proceed toLower parseAddress hlower f s hk hf
    rw [Option.some.inj h] at hp
    exact hp

/-- **What a call returns as the sender**: the account's own address, or one in its list, and there is no other
in the list that is taken for the same. -/
theorem resolved_next {down : Bool} {f : Frame} {s s' : Store} {accountID : Nat} {addr display : Text}
    (hk : Kept toLower s.aliases) (h : next toLower parseAddress down f s = some (s', .resolved accountID addr display)) :
    (∃ a ∈ s.accounts, a.id = accountID ∧ addr = a.email ∧ display = a.name) ∨
      ∃ r ∈ s.aliases.rows, r.accountID = accountID ∧ addr = r.email ∧ display = r.displayName ∧ Plain addr ∧
        ∀ b ∈ s.aliases.rows, b.accountID = accountID →
          normalizeEmail toLower b.email = normalizeEmail toLower addr → b = r := by
  unfold next at h
  split at h
  · cases h
  next hret =>
  split at h
  · cases h
  have hp := Option.some.inj h
  cases f with
  | resolveAccount id alias_ =>
      simp only [proceed] at hp
      split at hp
      · cases hp
      next acct hget =>
      split at hp
      · cases hp
        have hfind := List.find?_some hget
        exact .inl ⟨acct, List.mem_of_find?_eq_some hget, by simpa using hfind, rfl, rfl⟩
      · cases hp
  | resolveAliases id alias_ =>
      simp only [proceed] at hp
      split at hp
      · cases hp
      · next r hfind =>
        cases hp
        obtain ⟨hr, hacc⟩ := mem_listAliases.mp (List.mem_of_find?_eq_some hfind)
        exact .inr ⟨r, hr, hacc, rfl, rfl, hk.plain r hr, fun b hb hba he =>
          hk.eq_of_normal hb hr (hba.trans hacc.symm) he⟩
  | getAlias | getAccount | listAliases | saveAlias | deleteAlias =>
      simp only [proceed] at hp
      repeat' split at hp
      all_goals cases hp
  | saved | deleted | resolved | failed => simp [Frame.returned] at hret

/-- **Who may be written as the sender.**  Aliases are added, changed and deleted, accounts come and go, and mail
is sent, all at the same time.  Every address in a list can be written into a header as it is, no list has an
address twice, and it has one default at most.  An address that a call returns is the account's own, or one in its
list, at that moment, and then there is no other it could be taken for. -/
theorem identities_of_run (hlower : ∀ c, toLower (toLower c) = toLower c) {s₀ : Store} (h₀ : Kept toLower s₀.aliases)
    {p : Pool Frame Store} (h : Run (Pool.step (service toLower parseAddress)) (fun _ _ => True) ⟨s₀, []⟩ p) :
    Kept toLower p.store.aliases ∧
      (∀ a ∈ p.store.aliases.rows, ∀ b ∈ p.store.aliases.rows, a.accountID = b.accountID →
        normalizeEmail toLower a.email = normalizeEmail toLower b.email → a = b) ∧
      ∀ (i : Nat) (down : Bool) (q : Pool Frame Store) (accountID : Nat) (addr display : Text),
        p.step (service toLower parseAddress) (.go i down) = some q →
        q.calls[i]? = some (.resolved accountID addr display) →
          (∃ a ∈ p.store.accounts, a.id = accountID ∧ addr = a.email ∧ display = a.name) ∨
            ∃ r ∈ p.store.aliases.rows, r.accountID = accountID ∧ addr = r.email ∧ display = r.displayName ∧
              Plain addr ∧ ∀ b ∈ p.store.aliases.rows, b.accountID = accountID →
                normalizeEmail toLower b.email = normalizeEmail toLower addr → b = r := by
  have hp : Pool.Holds (fun s => Kept toLower s.aliases) (fun f _ => Right toLower f) p := by
    refine Pool.invariant (fun c _ _ => ?_) (fun p i down f s f' hp _ hf hnext => ?_) (fun p e hp _ => ?_) h
      (Pool.holds_of_no_calls h₀)
    · cases c <;> trivial
    · obtain ⟨hk, hr⟩ := kept_next hlower hp.store (hp.calls i f hf) hnext
      exact ⟨hk, hr, fun j g _ hg => hp.calls j g hg⟩
    · refine ⟨?_, fun j g hg => hp.calls j g hg⟩
      cases e with
      | store a => exact hp.store
      | delete accountID => exact hp.store.keep _
  refine ⟨hp.store, fun a ha b hb hacc he => hp.store.eq_of_normal ha hb hacc he,
    fun i down q accountID addr display hstep hres => ?_⟩
  obtain ⟨f, s, f', hf, hnext, rfl⟩ := Pool.step_go hstep
  rw [Pool.getElem?_goOn_self hf] at hres
  rw [Option.some.inj hres] at hnext
  exact resolved_next hp.store hnext

end

def me : Account :=
  ⟨1, "Me".toList, "me@e.com".toList, .password, [], [], [], [], none, ⟨[], 0, []⟩, ⟨[], 0, []⟩, .none, true, .ok, none, 0⟩

/-- An address as it is, without a name. -/
def bareAddress (t : Text) : Option (Text × Text) := if t.contains '<' then none else some ([], t)

/-- An alias is added in capitals and found in small letters. -/
def sending : List (Turn Request Bool Event) :=
  [.start (.createAlias 1 ⟨" Sales@E.com".toList, "Sales".toList, true⟩), .go 0 false, .go 0 false, .go 0 false,
    .start (.resolveFrom 1 "sales@e.com".toList), .go 1 false]

theorem identities_of_run_sending : ∃ p q : Pool Frame Store,
    exec (Pool.step (service Char.toLower bareAddress)) (fun _ _ => true) ⟨⟨[me], .empty⟩, []⟩ sending = some p ∧
      p.step (service Char.toLower bareAddress) (.go 1 false) = some q ∧
      q.calls[1]? = some (.resolved 1 "sales@e.com".toList "Sales".toList) ∧
      ∃ r ∈ p.store.aliases.rows, r.accountID = 1 ∧ r.email = "sales@e.com".toList ∧ Plain r.email := by
  have hexec : ∃ p q : Pool Frame Store,
      exec (Pool.step (service Char.toLower bareAddress)) (fun _ _ => true) ⟨⟨[me], .empty⟩, []⟩ sending = some p ∧
        p.step (service Char.toLower bareAddress) (.go 1 false) = some q ∧
        q.calls[1]? = some (.resolved 1 "sales@e.com".toList "Sales".toList) ∧
        ∀ a ∈ p.store.accounts, a.email ≠ "sales@e.com".toList := ⟨_, _, rfl, rfl, rfl, by decide⟩
  obtain ⟨p, q, hp, hq, hres, hown⟩ := hexec
  have hlower : ∀ c : Char, c.toLower.toLower = c.toLower := fun c => by
    unfold Char.toLower
    grind
  have hrun := (Run.ofExec sending hp).mono fun _ _ _ => trivial
  have h := identities_of_run hlower ⟨by simp [Aliases.empty], by simp [Aliases.empty], by simp [Aliases.empty]⟩ hrun
  refine ⟨p, q, hp, hq, hres, ?_⟩
  rcases h.2.2 1 false q _ _ _ hq hres with ⟨a, ha, -, he, -⟩ | ⟨r, hr, hacc, he, -, hplain, -⟩
  · exact absurd he.symm (hown a ha)
  · exact ⟨r, hr, hacc, he.symm, he ▸ hplain⟩

end FlyMail.Account.Identity
