/-
Accounts through a file and back.

A bundle that was exported with its passwords is imported into an empty table account by account:
each is created, valid and with passwords that can be encrypted, or left out (`importAll_fresh`).
What is created is not always what was exported, for the insert leaves a switch that is off to the
column's default, which is on.

Two accounts come to have one address because the addresses that are there are looked at once, before
the bundle is gone through, and without trimming them.
-/
import FlyMail.Account.Portable
import FlyMail.Lib.Index
import FlyMail.Lib.Run
import FlyMail.Lib.Until

namespace FlyMail.Account.Portable

open Flow (Accounts)

variable {C : Codec} {lower : Text → Text}

def emails (accounts : Accounts) : List Text := accounts.rows.map Account.email

theorem nodup_emails (accounts : Accounts) : (emails accounts).Nodup := List.pairwise_map.mpr accounts.uniq

theorem mem_list {accounts : Accounts} {a : Account} : a ∈ Repository.list accounts ↔ a ∈ accounts.rows :=
  (List.perm_insertionSort _ _).mem_iff

/-! ### What a row says -/

/-- A stored password in clear. -/
def clear (C : Codec) (stored : Text) : Option Text := if stored = [] then some [] else C.decrypt stored

/-- All that is exported of an account, with its passwords in clear. -/
def settings (C : Codec) (a : Account) : PortableAccount where
  name := a.name
  email := a.email
  username := a.username
  password := clear C a.passwordEnc
  authType := a.authType
  imap := a.imap
  smtp := a.smtp
  proxyType := a.proxy.type
  proxyHost := a.proxy.host
  proxyPort := a.proxy.port
  proxyUsername := a.proxy.username
  proxyPassword := clear C a.proxy.passwordEnc
  enabled := a.enabled

/-- No password is an empty one. -/
def filled (pa : PortableAccount) : PortableAccount :=
  { pa with
    password := some (pa.password.getD [])
    proxyPassword := some (pa.proxyPassword.getD []) }

theorem clear_of_exportPassword {stored : Text} {e : Err} {password : Option Text}
    (h : exportPassword C true stored e = .ok password) : some (password.getD []) = clear C stored := by
  unfold exportPassword at h
  unfold clear
  simp only [Bool.true_eq_false, false_or] at h
  split at h
  · rename_i hnone
    obtain rfl := Except.ok.inj h
    rw [if_pos hnone]
    rfl
  · rename_i hsome
    rw [if_neg hsome]
    cases hclear : C.decrypt stored with
    | none =>
        rw [hclear] at h
        exact absurd h (by simp)
    | some t =>
        rw [hclear] at h
        obtain rfl := Except.ok.inj h
        rfl

theorem bind_ok {ε α β : Type} {x : Except ε α} {f : α → Except ε β} {b : β} (h : x.bind f = .ok b) :
    ∃ a, x = .ok a ∧ f a = .ok b := by
  cases x with
  | error e => exact absurd h (by simp [Except.bind])
  | ok a => exact ⟨a, rfl, h⟩

/-- **What is exported.** -/
theorem filled_exportAccount {a : Account} {pa : PortableAccount} (h : exportAccount C true a = .ok pa) :
    pa.email = a.email ∧ (a.authType = .password → filled pa = settings C a) := by
  unfold exportAccount at h
  obtain ⟨password, hpassword, h⟩ := bind_ok h
  obtain ⟨proxyPassword, hproxy, h⟩ := bind_ok h
  obtain rfl := Except.ok.inj h
  refine ⟨rfl, fun hauth => ?_⟩
  rw [hauth] at hpassword
  unfold filled settings
  rw [← clear_of_exportPassword hpassword, ← clear_of_exportPassword hproxy]

theorem forall₂_of_mapM {ε α β : Type} {f : α → Except ε β} (l : List α) :
    ∀ {out : List β}, l.mapM f = .ok out → List.Forall₂ (fun a b => f a = .ok b) l out := by
  induction l with
  | nil =>
      intro out h
      obtain rfl := Except.ok.inj h
      exact .nil
  | cons a l ih =>
      intro out h
      rw [List.mapM_cons] at h
      obtain ⟨b, hb, h⟩ := bind_ok h
      obtain ⟨bs, hbs, h⟩ := bind_ok h
      obtain rfl := Except.ok.inj h
      exact .cons hb (ih hbs)

theorem accounts_of_export {source : Accounts} {now : Time} {b : PortableBundle}
    (h : exportAccounts C source [] true now = .ok b) :
    b.version = portableVersion ∧ b.encrypted = false ∧
      List.Forall₂ (fun a pa => exportAccount C true a = .ok pa) (Repository.list source) b.accounts := by
  unfold exportAccounts at h
  obtain ⟨out, hout, h⟩ := bind_ok h
  obtain rfl := Except.ok.inj h
  refine ⟨rfl, rfl, forall₂_of_mapM _ ?_⟩
  simpa using hout

/-! ### What is created -/

/-- The checks before the import. -/
structure Valid (pa : PortableAccount) : Prop where
  email : Text.trimSpace pa.email ≠ []
  imap : Text.trimSpace pa.imap.host ≠ [] ∧ 0 < pa.imap.port
  smtp : Text.trimSpace pa.smtp.host ≠ [] ∧ 0 < pa.smtp.port

theorem validPortable_iff {pa : PortableAccount} : validPortable pa = .ok () ↔ Valid pa := by
  unfold validPortable
  split
  · rename_i h
    exact ⟨fun hok => absurd hok (by simp), fun hv => absurd h hv.email⟩
  · rename_i hemail
    split
    · rename_i h
      refine ⟨fun hok => absurd hok (by simp), fun hv => ?_⟩
      rcases h with h | h
      · exact absurd h hv.imap.1
      · exact absurd hv.imap.2 (Int.not_lt.mpr h)
    · rename_i himap
      split
      · rename_i h
        refine ⟨fun hok => absurd hok (by simp), fun hv => ?_⟩
        rcases h with h | h
        · exact absurd h hv.smtp.1
        · exact absurd hv.smtp.2 (Int.not_lt.mpr h)
      · rename_i hsmtp
        rw [not_or, Int.not_le] at himap hsmtp
        exact ⟨fun _ => ⟨hemail, himap, hsmtp⟩, fun _ => rfl⟩

/-- The passwords can be encrypted. -/
def sealable (C : Codec) (n : Nonces) (pa : PortableAccount) : Bool :=
  pa.password.all (fun t => (C.encrypt n.password t).isSome) &&
    pa.proxyPassword.all fun t => (C.encrypt n.proxy t).isSome

/-- What becomes of an account that is created. -/
def asCreated (pa : PortableAccount) : PortableAccount :=
  { filled pa with
    name := if Text.trimSpace pa.name = [] then pa.email else pa.name
    authType := .password
    enabled := true }

theorem clear_encrypt {n : Nat} {t enc : Text} (h : C.encrypt n t = some enc) : clear C enc = some t := by
  unfold clear
  split
  · rename_i hnil
    by_cases ht : t = []
    · rw [ht]
    · exact absurd hnil (C.encrypt_ne_nil n t enc ht h)
  · exact C.decrypt_encrypt n t enc h

theorem applyPassword_ok {n : Nonces} {a b : Account} {pa : PortableAccount} (h : applyPassword C n a pa = .ok b) :
    pa.password.all (fun t => (C.encrypt n.password t).isSome) = true ∧
      ∃ enc, b = { a with passwordEnc := enc } ∧
        (a.passwordEnc = [] → clear C enc = some (pa.password.getD [])) := by
  unfold applyPassword at h
  cases hp : pa.password with
  | none =>
      rw [hp] at h
      obtain rfl := Except.ok.inj h
      exact ⟨rfl, a.passwordEnc, rfl, fun hnil => by rw [hnil]; rfl⟩
  | some t =>
      rw [hp] at h
      simp only at h
      cases henc : C.encrypt n.password t with
      | none =>
          rw [henc] at h
          exact absurd h (by simp)
      | some enc =>
          rw [henc] at h
          obtain rfl := Except.ok.inj h
          exact ⟨by simp [henc], enc, rfl, fun _ => clear_encrypt henc⟩

theorem applyPortableProxy_ok {n : Nonces} {a b : Account} {pa : PortableAccount}
    (h : applyPortableProxy C n a pa = .ok b) :
    pa.proxyPassword.all (fun t => (C.encrypt n.proxy t).isSome) = true ∧
      ∃ enc, b = { withProxy a pa with proxy := { (withProxy a pa).proxy with passwordEnc := enc } } ∧
        (a.proxy.passwordEnc = [] → clear C enc = some (pa.proxyPassword.getD [])) := by
  unfold applyPortableProxy at h
  cases hp : pa.proxyPassword with
  | none =>
      rw [hp] at h
      obtain rfl := Except.ok.inj h
      exact ⟨rfl, a.proxy.passwordEnc, rfl, fun hnil => by rw [hnil]; rfl⟩
  | some t =>
      rw [hp] at h
      simp only at h
      cases henc : C.encrypt n.proxy t with
      | none =>
          rw [henc] at h
          exact absurd h (by simp)
      | some enc =>
          rw [henc] at h
          obtain rfl := Except.ok.inj h
          exact ⟨by simp [henc], enc, rfl, fun _ => clear_encrypt henc⟩

theorem create_ok {accounts t : Accounts} {a : Account} (h : Repository.create accounts a = .ok t) :
    a.email ∉ emails accounts ∧
      ∃ id sortOrder, t.rows = accounts.rows ++ [{ a with enabled := true, id := id, sortOrder := sortOrder }] := by
  have henabled : Repository.orDefault false true a.enabled = true := by
    cases a.enabled with
    | true => rfl
    | false => rfl
  unfold Repository.create Flow.Repository.create at h
  by_cases htaken : ∃ r ∈ accounts.rows, r.email = (Repository.withDefaults a).email
  · simp only [dif_pos htaken] at h
    exact absurd h (by simp)
  · simp only [dif_neg htaken] at h
    obtain rfl := Except.ok.inj h
    refine ⟨fun hmem => htaken ?_, accounts.last + 1,
      if a.sortOrder = 0 then Flow.Repository.nextSortOrder accounts else a.sortOrder, ?_⟩
    · obtain ⟨r, hr, hemail⟩ := List.mem_map.mp hmem
      exact ⟨r, hr, hemail⟩
    · rw [Table.insert_rows]
      unfold Repository.withDefaults
      rw [henabled]

theorem exists_create {accounts : Accounts} {a : Account} (h : a.email ∉ emails accounts) :
    ∃ t, Repository.create accounts a = .ok t := by
  have hfree : ¬ ∃ r ∈ accounts.rows, r.email = (Repository.withDefaults a).email := by
    rintro ⟨r, hr, hemail⟩
    exact h (List.mem_map.mpr ⟨r, hr, hemail⟩)
  unfold Repository.create Flow.Repository.create
  simp only [dif_neg hfree]
  exact ⟨_, rfl⟩

/-- **What is created**: one row, which says what the bundle does but for a blank name, the way to log
in and the switch. -/
theorem createFromPortable_ok {n : Nonces} {accounts t : Accounts} {pa : PortableAccount}
    (h : createFromPortable C n accounts pa = .ok t) :
    Valid pa ∧ sealable C n pa = true ∧ pa.email ∉ emails accounts ∧
      ∃ a, t.rows = accounts.rows ++ [a] ∧ settings C a = asCreated pa := by
  unfold createFromPortable at h
  obtain ⟨⟨⟩, hvalid, h⟩ := bind_ok h
  obtain ⟨b, hb, h⟩ := bind_ok h
  obtain ⟨c, hc, h⟩ := bind_ok h
  obtain ⟨hseal, enc, rfl, hclear⟩ := applyPassword_ok hb
  obtain ⟨hsealProxy, encProxy, rfl, hclearProxy⟩ := applyPortableProxy_ok hc
  obtain ⟨hfree, id, sortOrder, hrows⟩ := create_ok h
  refine ⟨validPortable_iff.mp hvalid, ?_, hfree, _, hrows, ?_⟩
  · unfold sealable
    rw [hseal, hsealProxy]
    rfl
  · unfold settings asCreated filled
    rw [← hclear rfl, ← hclearProxy rfl]
    rfl

theorem exists_createFromPortable {n : Nonces} {accounts : Accounts} {pa : PortableAccount} (hvalid : Valid pa)
    (hseal : sealable C n pa = true) (hfree : pa.email ∉ emails accounts) :
    ∃ t, createFromPortable C n accounts pa = .ok t := by
  unfold sealable at hseal
  rw [Bool.and_eq_true] at hseal
  have hpassword : ∃ enc, applyPassword C n (draft pa) pa = .ok { draft pa with passwordEnc := enc } := by
    unfold applyPassword
    cases hp : pa.password with
    | none => exact ⟨(draft pa).passwordEnc, rfl⟩
    | some t =>
        rw [hp] at hseal
        obtain ⟨enc, henc⟩ := Option.isSome_iff_exists.mp hseal.1
        exact ⟨enc, by simp only [henc]⟩
  have hproxy (a : Account) : ∃ b, applyPortableProxy C n a pa = .ok b ∧ b.email = a.email := by
    unfold applyPortableProxy
    cases hp : pa.proxyPassword with
    | none => exact ⟨_, rfl, rfl⟩
    | some t =>
        rw [hp] at hseal
        obtain ⟨enc, henc⟩ := Option.isSome_iff_exists.mp hseal.2
        simp only [henc]
        exact ⟨_, rfl, rfl⟩
  obtain ⟨enc, hpassword⟩ := hpassword
  obtain ⟨b, hb, hemail⟩ := hproxy { draft pa with passwordEnc := enc }
  have hfree' : b.email ∉ emails accounts := by
    rw [hemail]
    exact hfree
  obtain ⟨t, ht⟩ := exists_create hfree'
  refine ⟨t, ?_⟩
  unfold createFromPortable
  rw [validPortable_iff.mpr hvalid, hpassword]
  show (applyPortableProxy C n _ pa).bind _ = _
  rw [hb]
  exact ht

/-! ### One account of a bundle -/

section Step

variable {mode : ImportMode} {only : List Text} {n : Nonces} {st : ImportState} {pa : PortableAccount}

theorem importAccount_created {t : Accounts} (hpicked : picked lower only pa = true)
    (hnew : st.byEmail (key lower pa.email) = none) (h : createFromPortable C n st.accounts pa = .ok t) :
    importAccount lower C mode only n st pa
      = { st with accounts := t, result := st.result.add ⟨pa.email, .created, none⟩ } := by
  unfold importAccount
  simp only [hpicked, hnew, h, Bool.not_true, Bool.false_eq_true, if_false]

theorem importAccount_failed {e : Err} (hpicked : picked lower only pa = true)
    (hnew : st.byEmail (key lower pa.email) = none) (h : createFromPortable C n st.accounts pa = .error e) :
    importAccount lower C mode only n st pa = { st with result := st.result.add ⟨pa.email, .failed, some e⟩ } := by
  unfold importAccount
  simp only [hpicked, hnew, h, Bool.not_true, Bool.false_eq_true, if_false]

theorem importAccount_skipped {cur : Account} (hpicked : picked lower only pa = true)
    (hknown : st.byEmail (key lower pa.email) = some cur) :
    importAccount lower C .skip only n st pa = { st with result := st.result.add ⟨pa.email, .skipped, none⟩ } := by
  unfold importAccount
  simp only [hpicked, hknown, Bool.not_true, Bool.false_eq_true, if_false]

theorem emails_update (accounts : Accounts) (a : Account) : emails (Repository.update accounts a) = emails accounts := by
  unfold emails Repository.update
  rw [Table.modify_rows, List.map_map]
  refine List.map_congr_left fun r _ => ?_
  simp only [Function.comp_def]
  split
  · rfl
  · rfl

theorem emails_applyPortable {accounts t : Accounts} {cur : Account}
    (h : (applyPortable C n accounts cur pa).2 = .ok t) : emails t = emails accounts := by
  unfold applyPortable at h
  split at h
  · exact absurd h (by simp)
  · simp only at h
    split at h
    · exact absurd h (by simp)
    · split at h
      · exact absurd h (by simp)
      · obtain rfl := Except.ok.inj h
        exact emails_update _ _

/-- **What one account of a bundle can do**: change no address, and no address is known that was not
before; or it is new, and a row with its address is there in the end. -/
theorem importAccount_cases :
    (emails (importAccount lower C mode only n st pa).accounts = emails st.accounts ∧
        ∀ k, (importAccount lower C mode only n st pa).byEmail k = none ↔ st.byEmail k = none) ∨
      (picked lower only pa = true ∧ st.byEmail (key lower pa.email) = none ∧ Valid pa ∧
        pa.email ∉ emails st.accounts ∧
        emails (importAccount lower C mode only n st pa).accounts = emails st.accounts ++ [pa.email] ∧
        (importAccount lower C mode only n st pa).byEmail = st.byEmail) := by
  cases hpicked : picked lower only pa with
  | false =>
      refine Or.inl ?_
      unfold importAccount
      simp [hpicked]
  | true =>
      cases hknown : st.byEmail (key lower pa.email) with
      | none =>
          cases hcreate : createFromPortable C n st.accounts pa with
          | error e =>
              rw [importAccount_failed hpicked hknown hcreate]
              exact Or.inl ⟨rfl, fun _ => Iff.rfl⟩
          | ok t =>
              rw [importAccount_created hpicked hknown hcreate]
              obtain ⟨hvalid, -, hfree, a, hrows, hsettings⟩ := createFromPortable_ok hcreate
              have hemail : a.email = pa.email := congrArg PortableAccount.email hsettings
              refine Or.inr ⟨rfl, rfl, hvalid, hfree, ?_, rfl⟩
              unfold emails
              rw [hrows, List.map_append, List.map_singleton, hemail]
      | some cur =>
          refine Or.inl ?_
          cases mode with
          | skip =>
              rw [importAccount_skipped hpicked hknown]
              exact ⟨rfl, fun _ => Iff.rfl⟩
          | overwrite =>
              have hupdate (a : Account) (k : Text) :
                  Function.update st.byEmail (key lower pa.email) (some a) k = none ↔ st.byEmail k = none := by
                by_cases hk : k = key lower pa.email
                · rw [hk, Function.update_self, hknown]
                  simp
                · rw [Function.update_of_ne hk]
              unfold importAccount
              simp only [hpicked, hknown, Bool.not_true, Bool.false_eq_true, if_false]
              cases hsaved : (applyPortable C n st.accounts cur pa).2 with
              | error e => exact ⟨rfl, hupdate _⟩
              | ok t => exact ⟨emails_applyPortable hsaved, hupdate _⟩

end Step

/-! ### A bundle into an empty table -/

section Fresh

variable {mode : ImportMode}

/-- What comes of an import in which no address is known: the rows of the accounts that are valid and
can be encrypted. -/
theorem mem_importAll_fresh (entries : List (PortableAccount × Nonces)) :
    ∀ st : ImportState, (∀ k, st.byEmail k = none) →
      ∀ a ∈ (importAll lower C mode [] entries st).accounts.rows, a ∈ st.accounts.rows ∨
        ∃ p ∈ entries, Valid p.1 ∧ sealable C p.2 p.1 = true ∧ settings C a = asCreated p.1 := by
  induction entries with
  | nil => exact fun st _ a ha => Or.inl ha
  | cons p entries ih =>
      intro st hnone a ha
      have hlater {st' : ImportState} (ha : a ∈ (importAll lower C mode [] entries st').accounts.rows)
          (hnone' : ∀ k, st'.byEmail k = none) :
          a ∈ st'.accounts.rows ∨
            ∃ q ∈ p :: entries, Valid q.1 ∧ sealable C q.2 q.1 = true ∧ settings C a = asCreated q.1 := by
        rcases ih st' hnone' a ha with hold | ⟨q, hq, hrest⟩
        · exact Or.inl hold
        · exact Or.inr ⟨q, List.mem_cons_of_mem _ hq, hrest⟩
      rw [importAll] at ha
      cases hcreate : createFromPortable C p.2 st.accounts p.1 with
      | error e =>
          rw [importAccount_failed rfl (hnone _) hcreate] at ha
          have hcase := hlater ha hnone
          exact hcase
      | ok t =>
          rw [importAccount_created rfl (hnone _) hcreate] at ha
          obtain ⟨hvalid, hseal, -, b, hrows, hsettings⟩ := createFromPortable_ok hcreate
          rcases hlater ha hnone with hold | hnew
          · rw [hrows] at hold
            rcases List.mem_append.mp hold with hold | hold
            · exact Or.inl hold
            · rw [List.mem_singleton.mp hold]
              exact Or.inr ⟨p, List.mem_cons_self, hvalid, hseal, hsettings⟩
          · exact Or.inr hnew

/-- If all of them are, all are created, in order. -/
theorem importAll_fresh (entries : List (PortableAccount × Nonces)) :
    ∀ st : ImportState, (∀ k, st.byEmail k = none) →
      (∀ p ∈ entries, Valid p.1 ∧ sealable C p.2 p.1 = true) →
      (emails st.accounts ++ entries.map fun p => p.1.email).Nodup →
      (importAll lower C mode [] entries st).accounts.rows.map (settings C)
        = st.accounts.rows.map (settings C) ++ entries.map fun p => asCreated p.1 := by
  induction entries with
  | nil => exact fun st _ _ _ => (List.append_nil _).symm
  | cons p entries ih =>
      intro st hnone hall hnodup
      obtain ⟨hvalid, hseal⟩ := hall p List.mem_cons_self
      have hfree : p.1.email ∉ emails st.accounts := fun h =>
        (List.nodup_append.mp hnodup).2.2 _ h _ (List.mem_map_of_mem List.mem_cons_self) rfl
      obtain ⟨t, hcreate⟩ := exists_createFromPortable hvalid hseal hfree
      obtain ⟨-, -, -, a, hrows, hsettings⟩ := createFromPortable_ok hcreate
      have hemails : emails t = emails st.accounts ++ [p.1.email] := by
        have hemail : a.email = p.1.email := congrArg PortableAccount.email hsettings
        unfold emails
        rw [hrows, List.map_append, List.map_singleton, hemail]
      have hnodup' : (emails t ++ entries.map fun p => p.1.email).Nodup := by
        rw [hemails, List.append_assoc]
        exact hnodup
      rw [importAll, importAccount_created rfl (hnone _) hcreate,
        ih { st with accounts := t, result := st.result.add ⟨p.1.email, .created, none⟩ } hnone
          (fun q hq => hall q (List.mem_cons_of_mem _ hq)) hnodup', hrows, List.map_append,
        List.map_singleton, hsettings, List.append_assoc]
      rfl

end Fresh

/-- **Importing what is there changes nothing.** -/
theorem importAll_known {only : List Text} (entries : List (PortableAccount × Nonces)) :
    ∀ st : ImportState, (∀ p ∈ entries, p.1.email ∈ emails st.accounts) →
      (importAll lower C .skip only entries st).accounts = st.accounts ∧
        (importAll lower C .skip only entries st).result.created = st.result.created ∧
        (importAll lower C .skip only entries st).result.updated = st.result.updated := by
  induction entries with
  | nil => exact fun st _ => ⟨rfl, rfl, rfl⟩
  | cons p entries ih =>
      intro st hknown
      have hstep : ∃ res : ImportResult, importAccount lower C .skip only p.2 st p.1 = { st with result := res } ∧
          res.created = st.result.created ∧ res.updated = st.result.updated := by
        cases hpicked : picked lower only p.1 with
        | false =>
            refine ⟨st.result, ?_, rfl, rfl⟩
            unfold importAccount
            simp [hpicked]
        | true =>
            cases hfound : st.byEmail (key lower p.1.email) with
            | some cur => exact ⟨_, importAccount_skipped hpicked hfound, rfl, rfl⟩
            | none =>
                cases hcreate : createFromPortable C p.2 st.accounts p.1 with
                | error e => exact ⟨_, importAccount_failed hpicked hfound hcreate, rfl, rfl⟩
                | ok t =>
                    obtain ⟨-, -, hfree, -⟩ := createFromPortable_ok hcreate
                    exact absurd (hknown p List.mem_cons_self) hfree
      obtain ⟨res, hres, hcreated, hupdated⟩ := hstep
      obtain ⟨haccounts, hcreated', hupdated'⟩ :=
        ih { st with result := res } fun q hq => hknown q (List.mem_cons_of_mem _ hq)
      rw [importAll, hres]
      exact ⟨haccounts, hcreated'.trans hcreated, hupdated'.trans hupdated⟩

/-! ### There and back -/

theorem map_fst_drawing (nonces : Nat → Nonces) (b : PortableBundle) : (drawing nonces b).map Prod.fst = b.accounts := by
  unfold drawing
  rw [List.map_map]
  exact List.zipIdx_map_fst 0 b.accounts

theorem emails_drawing (nonces : Nat → Nonces) (b : PortableBundle) :
    (drawing nonces b).map (fun p => p.1.email) = b.accounts.map PortableAccount.email := by
  rw [← map_fst_drawing nonces b, List.map_map]
  rfl

theorem fst_mem_of_mem_drawing {nonces : Nat → Nonces} {b : PortableBundle} {p : PortableAccount × Nonces}
    (h : p ∈ drawing nonces b) : p.1 ∈ b.accounts := map_fst_drawing nonces b ▸ List.mem_map_of_mem h

/-- Where an import begins. -/
def initial (lower : Text → Text) (accounts : Accounts) : ImportState :=
  ⟨accounts, byEmail lower (Repository.list accounts), ⟨0, 0, 0, 0, []⟩⟩

theorem importBundle_export {C' : Codec} {source accounts : Accounts} {now : Time} {b : PortableBundle}
    (h : exportAccounts C source [] true now = .ok b) (nonces : Nat → Nonces) (mode : ImportMode) :
    importBundle lower C' nonces accounts b mode []
      = .ok ((importAll lower C' mode [] (drawing nonces b) (initial lower accounts)).accounts,
          (importAll lower C' mode [] (drawing nonces b) (initial lower accounts)).result) := by
  obtain ⟨hversion, hencrypted, -⟩ := accounts_of_export h
  unfold importBundle
  rw [hversion, hencrypted, if_neg (Int.lt_irrefl _)]
  rfl

/-- What the file and the column's default leave of an account is all of it. -/
structure Restorable (a : Account) : Prop where
  authType : a.authType = .password
  enabled : a.enabled = true
  name : Text.trimSpace a.name ≠ []
  email : Text.trimSpace a.email ≠ []
  imap : Text.trimSpace a.imap.host ≠ [] ∧ 0 < a.imap.port
  smtp : Text.trimSpace a.smtp.host ≠ [] ∧ 0 < a.smtp.port

theorem asCreated_of_restorable {a : Account} {pa : PortableAccount} (h : exportAccount C true a = .ok pa)
    (ha : Restorable a) : Valid pa ∧ asCreated pa = settings C a := by
  have hfilled := (filled_exportAccount h).2 ha.authType
  have hname : pa.name = a.name := congrArg PortableAccount.name hfilled
  have hemail : pa.email = a.email := congrArg PortableAccount.email hfilled
  have himap : pa.imap = a.imap := congrArg PortableAccount.imap hfilled
  have hsmtp : pa.smtp = a.smtp := congrArg PortableAccount.smtp hfilled
  refine ⟨⟨hemail ▸ ha.email, himap ▸ ha.imap, hsmtp ▸ ha.smtp⟩, ?_⟩
  unfold asCreated
  rw [hfilled, hname, if_neg ha.name, ← ha.authType, ← ha.enabled]
  rfl

theorem restorable_of_asCreated {a : Account} {pa : PortableAccount} (hvalid : Valid pa)
    (h : asCreated pa = settings C a) : Restorable a := by
  have hname : (if Text.trimSpace pa.name = [] then pa.email else pa.name) = a.name := congrArg PortableAccount.name h
  have hemail : pa.email = a.email := congrArg PortableAccount.email h
  have himap : pa.imap = a.imap := congrArg PortableAccount.imap h
  have hsmtp : pa.smtp = a.smtp := congrArg PortableAccount.smtp h
  refine ⟨(congrArg PortableAccount.authType h).symm, (congrArg PortableAccount.enabled h).symm, ?_,
    hemail ▸ hvalid.email, himap ▸ hvalid.imap, hsmtp ▸ hvalid.smtp⟩
  rw [← hname]
  split
  · exact hvalid.email
  · assumption

/-- The accounts, with what can be read of them. -/
def Recreates (C C' : Codec) (source accounts : Accounts) : Prop :=
  (accounts.rows.map (settings C')).Perm (source.rows.map (settings C))

/-- The file is imported into an empty table, which then has the accounts it was made of, and
importing it once more creates and changes nothing. -/
def RoundTrips (lower : Text → Text) (C C' : Codec) (source : Accounts) (b : PortableBundle) (nonces : Nat → Nonces)
    (mode : ImportMode) : Prop :=
  ∃ accounts res, importBundle lower C' nonces Table.empty b mode [] = .ok (accounts, res) ∧
    Recreates C C' source accounts ∧
    ∀ nonces', ∃ res', importBundle lower C' nonces' accounts b .skip [] = .ok (accounts, res') ∧
      res'.created = 0 ∧ res'.updated = 0

section RoundTrip

variable {C' : Codec} {source : Accounts} {now : Time} {b : PortableBundle}

/-- The bundle lists each account of the table once. -/
theorem emails_bundle (h : exportAccounts C source [] true now = .ok b) :
    (b.accounts.map PortableAccount.email).Perm (emails source) ∧ (b.accounts.map PortableAccount.email).Nodup := by
  have heq : b.accounts.map PortableAccount.email = (Repository.list source).map Account.email :=
    map_eq_of_forall₂ (accounts_of_export h).2.2 fun a _ pa hexport => (filled_exportAccount hexport).1
  have hperm : (b.accounts.map PortableAccount.email).Perm (emails source) := by
    rw [heq]
    exact (List.perm_insertionSort _ _).map _
  exact ⟨hperm, hperm.nodup_iff.mpr (nodup_emails source)⟩

/-- The account an entry of the bundle was made of. -/
theorem exists_exported (h : exportAccounts C source [] true now = .ok b) {pa : PortableAccount}
    (hpa : pa ∈ b.accounts) : ∃ a ∈ source.rows, exportAccount C true a = .ok pa := by
  have hall := (accounts_of_export h).2.2
  obtain ⟨i, hi, rfl⟩ := List.getElem_of_mem hpa
  have hlen := hall.length_eq
  exact ⟨(Repository.list source)[i], mem_list.mp (List.getElem_mem _), hall.get (hlen ▸ hi) hi⟩

theorem roundTrips_of_restorable (h : exportAccounts C source [] true now = .ok b) {nonces : Nat → Nonces}
    {mode : ImportMode} (hall : ∀ a ∈ source.rows, Restorable a)
    (hseal : ∀ p ∈ drawing nonces b, sealable C' p.2 p.1 = true) : RoundTrips lower C C' source b nonces mode := by
  have hvalid : ∀ p ∈ drawing nonces b, Valid p.1 ∧ sealable C' p.2 p.1 = true := by
    intro p hp
    obtain ⟨a, ha, hexport⟩ := exists_exported h (fst_mem_of_mem_drawing hp)
    exact ⟨(asCreated_of_restorable hexport (hall a ha)).1, hseal p hp⟩
  have hnodup : (emails (initial lower Table.empty).accounts ++ (drawing nonces b).map fun p => p.1.email).Nodup := by
    rw [emails_drawing]
    exact (emails_bundle h).2
  have hcreated : (drawing nonces b).map (fun p => asCreated p.1) = (Repository.list source).map (settings C) := by
    rw [← map_eq_of_forall₂ (accounts_of_export h).2.2 fun a ha pa hexport =>
      (asCreated_of_restorable hexport (hall a (mem_list.mp ha))).2, ← map_fst_drawing nonces b, List.map_map]
    rfl
  have hrows : (importAll lower C' mode [] (drawing nonces b) (initial lower Table.empty)).accounts.rows.map (settings C')
      = (Repository.list source).map (settings C) :=
    (importAll_fresh _ _ (fun _ => rfl) hvalid hnodup).trans hcreated
  have hperm := (List.perm_insertionSort (fun a b : Account => a.sortOrder < b.sortOrder ∨
    (a.sortOrder = b.sortOrder ∧ a.id ≤ b.id)) source.rows).map (settings C)
  refine ⟨_, _, importBundle_export h nonces mode, ?_, fun nonces' => ?_⟩
  · unfold Recreates
    rw [hrows]
    exact hperm
  · have hknown : ∀ p ∈ drawing nonces' b, p.1.email ∈
        emails (importAll lower C' mode [] (drawing nonces b) (initial lower Table.empty)).accounts := by
      intro p hp
      obtain ⟨a, ha, hexport⟩ := exists_exported h (fst_mem_of_mem_drawing hp)
      obtain ⟨a', ha', hsettings⟩ := List.mem_map.mp (hrows ▸ List.mem_map_of_mem (mem_list.mpr ha))
      rw [(filled_exportAccount hexport).1]
      exact List.mem_map.mpr ⟨a', ha', congrArg PortableAccount.email hsettings⟩
    obtain ⟨haccounts, hcreated', hupdated⟩ := importAll_known (C := C') (drawing nonces' b) (initial lower _) hknown
    refine ⟨_, ?_, hcreated', hupdated⟩
    rw [importBundle_export h nonces' .skip]
    exact congrArg (fun t => Except.ok (t, _)) haccounts

/-- What comes back as it was is restorable, and was created. -/
theorem restorable_of_roundTrips (h : exportAccounts C source [] true now = .ok b) {nonces : Nat → Nonces}
    {mode : ImportMode} (hround : RoundTrips lower C C' source b nonces mode) :
    (∀ a ∈ source.rows, Restorable a) ∧ ∀ p ∈ drawing nonces b, sealable C' p.2 p.1 = true := by
  obtain ⟨accounts, res, hok, hrecreates, -⟩ := hround
  rw [importBundle_export h nonces mode] at hok
  obtain ⟨rfl, -⟩ := Prod.mk.inj (Except.ok.inj hok)
  -- the entry that the row came from which says what `a` says
  have hentry : ∀ a ∈ source.rows, ∃ p ∈ drawing nonces b,
      Valid p.1 ∧ sealable C' p.2 p.1 = true ∧ asCreated p.1 = settings C a := by
    intro a ha
    obtain ⟨a', ha', hsettings⟩ := List.mem_map.mp (hrecreates.mem_iff.mpr (List.mem_map_of_mem ha))
    rcases mem_importAll_fresh (drawing nonces b) _ (fun _ => rfl) a' ha' with hold | ⟨p, hp, hvalid, hseal, hp'⟩
    · exact absurd hold List.not_mem_nil
    · exact ⟨p, hp, hvalid, hseal, hp'.symm.trans hsettings⟩
  refine ⟨fun a ha => ?_, fun p hp => ?_⟩
  · obtain ⟨p, -, hvalid, -, heq⟩ := hentry a ha
    exact restorable_of_asCreated hvalid heq
  · obtain ⟨a, ha, hexport⟩ := exists_exported h (fst_mem_of_mem_drawing hp)
    obtain ⟨q, hq, -, hseal, heq⟩ := hentry a ha
    have hemail : q.1.email = p.1.email :=
      (congrArg PortableAccount.email heq).trans (filled_exportAccount hexport).1.symm
    have hnodup : ((drawing nonces b).map fun p => p.1.email).Nodup := by
      rw [emails_drawing]
      exact (emails_bundle h).2
    rw [← List.inj_on_of_nodup_map hnodup hq hp hemail]
    exact hseal

end RoundTrip

/-! ### Addresses over many imports -/

/-- No two accounts have one address, trimmed and in lower case. -/
def Distinct (lower : Text → Text) (accounts : Accounts) : Prop := ((emails accounts).map (key lower)).Nodup

structure ImportCall where
  nonces : Nat → Nonces
  bundle : PortableBundle
  mode : ImportMode
  only : List Text

/-- The accounts of the bundle that are asked for. -/
def listed (lower : Text → Text) (c : ImportCall) : List PortableAccount :=
  c.bundle.accounts.filter (picked lower c.only)

/-- An import that fails changes nothing. -/
def step (lower : Text → Text) (C : Codec) (accounts : Accounts) (c : ImportCall) : Option Accounts :=
  match importBundle lower C c.nonces accounts c.bundle c.mode c.only with
  | .ok (accounts, _) => some accounts
  | .error _ => some accounts

/-- Of the valid accounts asked for, each that shares its address with a row is found by it or has the
very same text, and so do those that share it with one another. -/
structure Clean (lower : Text → Text) (accounts : Accounts) (c : ImportCall) : Prop where
  rows : ∀ pa ∈ listed lower c, Valid pa → ∀ a ∈ accounts.rows, key lower a.email = key lower pa.email →
    lower a.email = key lower pa.email ∨ a.email = pa.email
  entries : ∀ pa ∈ listed lower c, Valid pa → ∀ qa ∈ listed lower c, Valid qa →
    key lower qa.email = key lower pa.email →
      qa.email = pa.email ∨ ∃ a ∈ accounts.rows, lower a.email = key lower pa.email

theorem byEmail_eq_none (rows : List Account) (k : Text) :
    byEmail lower rows k = none ↔ ∀ a ∈ rows, lower a.email ≠ k :=
  byKey_eq_none

/-- What an import from `accounts` has come to. -/
structure Keeps (lower : Text → Text) (accounts : Accounts) (c : ImportCall) (st : ImportState) : Prop where
  unknown : ∀ k, st.byEmail k = none → ∀ a ∈ accounts.rows, lower a.email ≠ k
  origin : ∀ e ∈ emails st.accounts, e ∈ emails accounts ∨ ∃ pa ∈ listed lower c, Valid pa ∧ pa.email = e
  distinct : Distinct lower st.accounts

theorem Keeps.importAccount {accounts : Accounts} {c : ImportCall} {st : ImportState} {pa : PortableAccount}
    {n : Nonces} (h : Keeps lower accounts c st) (hclean : Clean lower accounts c) (hpa : pa ∈ c.bundle.accounts) :
    Keeps lower accounts c (importAccount lower C c.mode c.only n st pa) := by
  rcases @importAccount_cases C lower c.mode c.only n st pa with
    ⟨hemails, hknown⟩ | ⟨hpicked, hnone, hvalid, hfree, hemails, hbyEmail⟩
  · refine ⟨fun k hk => h.unknown k ((hknown k).mp hk), ?_, ?_⟩
    · rw [hemails]
      exact h.origin
    · unfold Distinct
      rw [hemails]
      exact h.distinct
  · have hlisted : pa ∈ listed lower c := List.mem_filter.mpr ⟨hpa, hpicked⟩
    refine ⟨fun k hk => h.unknown k (hbyEmail ▸ hk), fun e he => ?_, ?_⟩
    · rw [hemails] at he
      rcases List.mem_append.mp he with he | he
      · exact h.origin e he
      · rw [List.mem_singleton.mp he]
        exact Or.inr ⟨pa, hlisted, hvalid, rfl⟩
    · have hnew : key lower pa.email ∉ (emails st.accounts).map (key lower) := by
        intro hmem
        obtain ⟨e, he, hkey⟩ := List.mem_map.mp hmem
        rcases h.origin e he with hold | ⟨qa, hqa, hvalid', rfl⟩
        · obtain ⟨a, ha, rfl⟩ := List.mem_map.mp hold
          rcases hclean.rows pa hlisted hvalid a ha hkey with hfound | hsame
          · exact h.unknown _ hnone a ha hfound
          · exact hfree (hsame ▸ he)
        · rcases hclean.entries pa hlisted hvalid qa hqa hvalid' hkey with hsame | ⟨a, ha, hfound⟩
          · exact hfree (hsame ▸ he)
          · exact h.unknown _ hnone a ha hfound
      unfold Distinct
      rw [hemails, List.map_append, List.map_singleton, List.nodup_append]
      refine ⟨h.distinct, List.nodup_singleton _, fun k hk k' hk' heq => hnew ?_⟩
      rw [← List.mem_singleton.mp hk', ← heq]
      exact hk

theorem Keeps.importAll {accounts : Accounts} {c : ImportCall} (hclean : Clean lower accounts c)
    (entries : List (PortableAccount × Nonces)) :
    ∀ st, Keeps lower accounts c st → (∀ p ∈ entries, p.1 ∈ c.bundle.accounts) →
      Keeps lower accounts c (importAll lower C c.mode c.only entries st) := by
  induction entries with
  | nil => exact fun st h _ => h
  | cons p entries ih =>
      intro st h hall
      exact ih _ (h.importAccount hclean (hall p List.mem_cons_self)) fun q hq => hall q (List.mem_cons_of_mem _ hq)

theorem distinct_step {s t : Accounts} {c : ImportCall} (hs : Distinct lower s) (hclean : Clean lower s c)
    (h : step lower C s c = some t) : Distinct lower t := by
  unfold step importBundle at h
  split at h
  · rename_i heq
    obtain rfl := Option.some.inj h
    split at heq
    · exact absurd heq (by simp)
    · split at heq
      · exact absurd heq (by simp)
      · obtain ⟨rfl, -⟩ := Prod.mk.inj (Except.ok.inj heq)
        have hstart : Keeps lower s c (initial lower s) := by
          refine ⟨fun k hk a ha => ?_, fun e he => Or.inl he, hs⟩
          exact (byEmail_eq_none _ k).mp hk a (mem_list.mpr ha)
        exact (Keeps.importAll hclean _ _ hstart fun p hp => fst_mem_of_mem_drawing hp).distinct
  · obtain rfl := Option.some.inj h
    exact hs

/-- **A bundle with passwords, imported into an empty table, gives the accounts it was made of, and
nothing more when it is imported again, just if all are restorable and their passwords can be
encrypted; and no two accounts come to have one address over imports that are clean.** -/
theorem portable_exact (lower : Text → Text) (C C' : Codec) :
    (∀ source now b nonces mode, exportAccounts C source [] true now = .ok b →
      (RoundTrips lower C C' source b nonces mode ↔
        (∀ a ∈ source.rows, Restorable a) ∧ ∀ p ∈ drawing nonces b, sealable C' p.2 p.1 = true)) ∧
      ∀ s t, Distinct lower s → Run (step lower C') (Clean lower) s t → Distinct lower t := by
  refine ⟨fun source now b nonces mode h => ⟨restorable_of_roundTrips h, fun hall => ?_⟩, fun s t hs hrun => ?_⟩
  · exact roundTrips_of_restorable h hall.1 hall.2
  · exact hrun.invariant (fun s c t hs hclean hstep => distinct_step hs hclean hstep) hs

private def lowered (t : Text) : Text := t.map Char.toLower

private def drawn (i : Nat) : Nonces := ⟨2 * i, 2 * i + 1⟩

private def carol (enabled : Bool) : Account where
  id := 1
  name := "Carol".toList
  email := "carol@a.b".toList
  authType := .password
  username := []
  passwordEnc := "secret".toList
  oauthProvider := []
  oauthTokenEnc := []
  oauthExpiresAt := none
  imap := ⟨"imap.a.b".toList, 993, "ssl".toList⟩
  smtp := ⟨"smtp.a.b".toList, 465, "ssl".toList⟩
  proxy := .none
  enabled := enabled
  status := .ok
  lastSyncAt := none
  sortOrder := 1

/-- What Carol's file says under an address. -/
private def entryOf (email : String) : PortableAccount where
  name := "Carol".toList
  email := email.toList
  username := []
  password := some "secret".toList
  authType := .password
  imap := ⟨"imap.a.b".toList, 993, "ssl".toList⟩
  smtp := ⟨"smtp.a.b".toList, 465, "ssl".toList⟩
  proxyType := []
  proxyHost := []
  proxyPort := 0
  proxyUsername := []
  proxyPassword := none
  enabled := true

theorem portable_exact_carol :
    RoundTrips lowered .plain .plain (Table.single (carol true)) ⟨1, false, 0, [entryOf "carol@a.b"]⟩ drawn .skip ∧
      ∃ t : Accounts, t.rows.length = 1 ∧ Distinct lowered t := by
  refine ⟨((portable_exact lowered .plain .plain).1 _ 0 _ drawn .skip rfl).mpr ⟨?_, by decide⟩, _, ?_,
    (portable_exact lowered .plain .plain).2 Table.empty _ List.nodup_nil
      (.tail (a := ⟨drawn, ⟨1, false, 0, [entryOf "carol@a.b"]⟩, .skip, []⟩) .refl ⟨?_, ?_⟩ rfl)⟩
  · intro a ha
    rw [List.mem_singleton.mp ha]
    exact ⟨rfl, rfl, by decide, by decide, ⟨by decide, by decide⟩, ⟨by decide, by decide⟩⟩
  · rfl
  · exact fun pa _ _ a ha => absurd ha List.not_mem_nil
  · intro pa hpa _ qa hqa _ _
    rw [List.mem_singleton.mp (List.mem_filter.mp hpa).1, List.mem_singleton.mp (List.mem_filter.mp hqa).1]
    exact Or.inl rfl

/-- The settings of the accounts that an exported table gives. -/
private def restored (source : Accounts) : Option (List PortableAccount) :=
  (exportAccounts .plain source [] true 0).toOption.bind fun b =>
    (importBundle lowered .plain drawn Table.empty b .skip []).toOption.map fun r =>
      r.1.rows.map (settings .plain)

/-- An account that is switched off comes back switched on, and a bundle with an address in two
writings gives two accounts. -/
theorem disabled_comes_back_enabled :
    (restored (Table.single (carol false)) = some [settings .plain (carol true)] ∧
        settings .plain (carol true) ≠ settings .plain (carol false)) ∧
      (step lowered .plain Table.empty ⟨drawn, ⟨1, false, 0, [entryOf "carol@a.b", entryOf " Carol@a.b"]⟩, .skip, []⟩).map
          emails = some ["carol@a.b".toList, " Carol@a.b".toList] ∧
        key lowered "carol@a.b".toList = key lowered " Carol@a.b".toList := by
  decide +kernel

end FlyMail.Account.Portable
