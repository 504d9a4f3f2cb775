/-
A configuration through a file and back, and a payload that fails.

While nothing fails, an import into an empty database creates a row for every proxy, account, channel and
setting (`ProxiesSoFar`, `AccountsSoFar`).  The map that binds names to proxies holds a zero for each
proxy that is new, so that the accounts of these are bound to no proxy; an account is created enabled;
and channels on their own are taken for no data.

An error leaves behind what was written before it.  So nothing is left just when the payload is turned
down before the loops, or the first thing the loops come to is the one that fails.
-/
import FlyMail.Mail2im.Transfer

namespace FlyMail.Mail2im.Transfer

open Dispatcher (Channel Channels ChannelQuiet)

variable {C : Crypto} {nonce : Nat → Nat}

/-! ### Statements -/

namespace Database

@[simp] theorem createProxy_stamp (db : Database) (p : Proxy) : (db.createProxy p).stamp = db.stamp + 1 := rfl

@[simp] theorem createProxy_rows (db : Database) (p : Proxy) :
    (db.createProxy p).proxies.rows = db.proxies.rows ++ [{ p with id := db.proxies.last + 1 }] := rfl

@[simp] theorem createProxy_accounts (db : Database) (p : Proxy) : (db.createProxy p).accounts = db.accounts := rfl

theorem saveProxy_stamp (db : Database) (p : Proxy) : (db.saveProxy p).1.stamp = db.stamp + 1 := by
  unfold saveProxy
  split <;> rfl

theorem saveProxy_accounts (db : Database) (p : Proxy) : (db.saveProxy p).1.accounts = db.accounts := by
  unfold saveProxy
  split <;> rfl

/-- A row is refused just when another has its address. -/
theorem createAccount_error_iff {db : Database} {a : Account} :
    (∃ e, db.createAccount a = .error e) ↔ ∃ r ∈ db.accounts.rows, r.email = a.email := by
  unfold createAccount
  split
  · rename_i h
    exact iff_of_true ⟨_, rfl⟩ h
  · rename_i h
    refine iff_of_false ?_ h
    rintro ⟨e, he⟩
    cases he

theorem createAccount_ok {db db' : Database} {a a' : Account} (h : db.createAccount a = .ok (db', a')) :
    (∀ r ∈ db.accounts.rows, r.email ≠ a.email) ∧
      a' = { withDefaults a with id := db.accounts.last + 1 } ∧
      db'.accounts.rows = db.accounts.rows ++ [a'] ∧ db'.proxies = db.proxies ∧
      db'.channels = db.channels ∧ db'.settings = db.settings ∧ db'.stamp = db.stamp + 1 := by
  unfold createAccount at h
  split at h
  · cases h
  · rename_i hno
    obtain ⟨rfl, rfl⟩ := Prod.mk.inj (Except.ok.inj h)
    exact ⟨fun r hr he => hno ⟨r, hr, he⟩, rfl, rfl, rfl, rfl, rfl, rfl⟩

end Database

/-! ### What fails -/

/-- The password of the proxy cannot be encrypted. -/
def proxyFails (C : Crypto) (nonce : Nat → Nat) (item : ExportProxy × Nat) : Bool :=
  (C.encrypt (nonce (2 * item.2)) item.1.password).isNone

/-- The password of the account cannot be encrypted, or a deleted account has its address. -/
def accountFails (C : Crypto) (nonce : Nat → Nat) (db : Database) (item : ExportAccount × Nat) : Bool :=
  (C.encrypt (nonce (2 * item.2)) item.1.password).isNone ||
    db.accounts.rows.any fun r => r.deleted && r.email == item.1.email

theorem writeProxy_stamp (db : Database) (existing : Option Proxy) (p : ExportProxy) (enc : Text) :
    (writeProxy db existing p enc).1.stamp = db.stamp + 1 := by
  cases existing with
  | none => rfl
  | some existing => exact Database.saveProxy_stamp _ _

theorem writeProxy_accounts (db : Database) (existing : Option Proxy) (p : ExportProxy) (enc : Text) :
    (writeProxy db existing p enc).1.accounts = db.accounts := by
  cases existing with
  | none => rfl
  | some existing => exact Database.saveProxy_accounts _ _

/-- **One proxy**: its password fails, or it is written. -/
theorem importProxy_cases (C : Crypto) (nonce : Nat → Nat) (st : State) (item : ExportProxy × Nat) :
    (C.encrypt (nonce (2 * item.2)) item.1.password = none ∧
      importProxy C nonce st item = .error .encryptProxyPassword) ∨
    ∃ enc, C.encrypt (nonce (2 * item.2)) item.1.password = some enc ∧
      importProxy C nonce st item = .ok { st with
        db := (writeProxy st.db (st.existingProxyMap item.1.name) item.1 enc).1
        existingProxyMap := Function.update st.existingProxyMap item.1.name
          (some (writeProxy st.db (st.existingProxyMap item.1.name) item.1 enc).2)
        proxyNameToID := Function.update st.proxyNameToID item.1.name
          (some (writeProxy st.db (st.existingProxyMap item.1.name) item.1 enc).2.id) } := by
  unfold importProxy
  cases h : C.encrypt (nonce (2 * item.2)) item.1.password with
  | none => exact Or.inl ⟨rfl, rfl⟩
  | some enc => exact Or.inr ⟨enc, rfl, rfl⟩

theorem importProxy_error_iff (C : Crypto) (nonce : Nat → Nat) (st : State) (item : ExportProxy × Nat) :
    (∃ e, importProxy C nonce st item = .error e) ↔ proxyFails C nonce item = true := by
  unfold proxyFails
  rcases importProxy_cases C nonce st item with ⟨hnone, he⟩ | ⟨enc, henc, hok⟩
  · simp [hnone, he]
  · simp [henc, hok]

theorem importProxy_stamp {st st' : State} {item : ExportProxy × Nat} (h : importProxy C nonce st item = .ok st') :
    st'.db.stamp = st.db.stamp + 1 := by
  rcases importProxy_cases C nonce st item with ⟨-, he⟩ | ⟨enc, -, hok⟩
  · rw [he] at h
    cases h
  · rw [hok] at h
    rw [← Except.ok.inj h]
    exact writeProxy_stamp _ _ _ _

/-- The proxies' loop has nothing to do with accounts. -/
theorem importProxy_accounts {st st' : State} {item : ExportProxy × Nat} (h : importProxy C nonce st item = .ok st') :
    st'.db.accounts = st.db.accounts ∧ st'.existingAccountMap = st.existingAccountMap := by
  rcases importProxy_cases C nonce st item with ⟨-, he⟩ | ⟨enc, -, hok⟩
  · rw [he] at h
    cases h
  · rw [hok] at h
    rw [← Except.ok.inj h]
    exact ⟨writeProxy_accounts _ _ _ _, rfl⟩

/-! ### Accounts by their addresses -/

/-- The map is the rows that are not deleted; the deleted ones are those of `db`. -/
structure Mirrors (db : Database) (st : State) : Prop where
  live : ∀ email a, st.existingAccountMap email = some a ↔
    a ∈ st.db.accounts.rows ∧ a.deleted = false ∧ a.email = email
  deleted : ∀ r, r.deleted = true → (r ∈ st.db.accounts.rows ↔ r ∈ db.accounts.rows)

theorem toAccount_eq_none_iff {n : Nat} {req : CreateAccountRequest} {existing : Option Account} :
    toAccount C n req existing true = none ↔ C.encrypt n req.password = none := by
  unfold toAccount
  dsimp only
  by_cases hp : req.password = []
  · rw [if_pos hp, hp, C.encrypt_nil]
    simp
  · rw [if_neg hp]
    simp

theorem toAccount_keys {n : Nat} {req : CreateAccountRequest} {existing : Option Account} {a : Account}
    (h : toAccount C n req existing true = some a) :
    a.email = req.email ∧ a.id = (existing.getD Account.zero).id ∧
      a.deleted = (existing.getD Account.zero).deleted := by
  unfold toAccount at h
  dsimp only at h
  by_cases hp : req.password = []
  · rw [if_pos hp] at h
    rw [← Option.some.inj h]
    exact ⟨rfl, rfl, rfl⟩
  · rw [if_neg hp, Option.map_eq_some_iff] at h
    obtain ⟨enc, -, rfl⟩ := h
    exact ⟨rfl, rfl, rfl⟩

@[simp] theorem applyRest_email (n : Nat) (a : Account) (acc : ExportAccount) :
    (applyRest C n a acc).email = a.email := rfl

/-- **One account**: it fails, is saved where a row has its address, or is created. -/
theorem importAccount_cases (C : Crypto) (nonce : Nat → Nat) (st : State) (item : ExportAccount × Nat) :
    (C.encrypt (nonce (2 * item.2)) item.1.password = none ∧
      importAccount C nonce st item = .error .encryptAccountPassword) ∨
    ∃ account, account.email = item.1.email ∧
      (toAccount C (nonce (2 * item.2)) (requestOf item.1 (proxyIDFor st item.1))
        (st.existingAccountMap item.1.email) true).map
          (fun a => applyRest C (nonce (2 * item.2 + 1)) a item.1) = some account ∧
      ((∃ existing, st.existingAccountMap item.1.email = some existing ∧ account.id = existing.id ∧
          account.deleted = existing.deleted ∧
          importAccount C nonce st item = .ok { st with
            db := st.db.saveAccount account
            existingAccountMap := Function.update st.existingAccountMap item.1.email (some account) }) ∨
        (st.existingAccountMap item.1.email = none ∧ account.deleted = false ∧
          importAccount C nonce st item =
            (st.db.createAccount account).map fun r => { st with
              db := r.1
              existingAccountMap := Function.update st.existingAccountMap item.1.email (some r.2) })) := by
  cases haccount : toAccount C (nonce (2 * item.2)) (requestOf item.1 (proxyIDFor st item.1))
      (st.existingAccountMap item.1.email) true with
  | none =>
      refine Or.inl ⟨toAccount_eq_none_iff.mp haccount, ?_⟩
      unfold importAccount
      simp only [haccount]
  | some account =>
      obtain ⟨hemail, hid, hdeleted⟩ := toAccount_keys haccount
      refine Or.inr ⟨applyRest C (nonce (2 * item.2 + 1)) account item.1, hemail, rfl, ?_⟩
      cases hexisting : st.existingAccountMap item.1.email with
      | some existing =>
          rw [hexisting] at hid hdeleted
          refine Or.inl ⟨existing, rfl, hid, hdeleted, ?_⟩
          unfold importAccount
          simp only [haccount]
          simp only [hexisting, Option.isSome_some, if_true]
      | none =>
          rw [hexisting] at hdeleted
          refine Or.inr ⟨rfl, hdeleted, ?_⟩
          unfold importAccount
          simp only [haccount]
          simp only [hexisting, Option.isSome_none, Bool.false_eq_true, if_false]
          cases st.db.createAccount (applyRest C (nonce (2 * item.2 + 1)) account item.1) <;> rfl

theorem importAccount_stamp {st st' : State} {item : ExportAccount × Nat}
    (h : importAccount C nonce st item = .ok st') : st'.db.stamp = st.db.stamp + 1 := by
  rcases importAccount_cases C nonce st item with ⟨-, he⟩ |
    ⟨account, -, -, ⟨existing, -, -, -, hsave⟩ | ⟨-, -, hcreate⟩⟩
  · rw [he] at h
    cases h
  · rw [hsave] at h
    rw [← Except.ok.inj h]
    rfl
  · rw [hcreate] at h
    cases hc : st.db.createAccount account with
    | error e =>
        rw [hc] at h
        cases h
    | ok r =>
        rw [hc] at h
        rw [← Except.ok.inj h]
        exact (Database.createAccount_ok hc).2.2.2.2.2.2

/-- Which accounts fail is settled before the loop. -/
theorem importAccount_error_iff (C : Crypto) (nonce : Nat → Nat) {db : Database} {st : State} {item : ExportAccount × Nat} (hst : Mirrors db st) :
    (∃ e, importAccount C nonce st item = .error e) ↔ accountFails C nonce db item = true := by
  unfold accountFails
  simp only [Bool.or_eq_true, Option.isNone_iff_eq_none, List.any_eq_true, Bool.and_eq_true, beq_iff_eq]
  rcases importAccount_cases C nonce st item with ⟨hnone, he⟩ |
    ⟨account, hemail, hmap, hcases⟩
  · exact iff_of_true ⟨_, he⟩ (Or.inl hnone)
  have hseals : C.encrypt (nonce (2 * item.2)) item.1.password ≠ none := fun hnone => by
    rw [toAccount_eq_none_iff.mpr hnone] at hmap
    cases hmap
  rcases hcases with ⟨existing, hexisting, -, -, hsave⟩ | ⟨hnone, -, hcreate⟩
  · refine iff_of_false (fun ⟨e, he⟩ => by rw [hsave] at he; cases he) ?_
    rintro (hp | ⟨r, hr, hdeleted, hr'⟩)
    · exact hseals hp
    · obtain ⟨hmem, hlive, hemail'⟩ := (hst.live _ _).mp hexisting
      have heq := st.db.accounts.eq_of_uk ((hst.deleted r hdeleted).mpr hr) hmem (hr'.trans hemail'.symm)
      rw [heq, hlive] at hdeleted
      cases hdeleted
  · have hok : (∃ e, importAccount C nonce st item = .error e) ↔ ∃ e, st.db.createAccount account = .error e := by
      rw [hcreate]
      cases st.db.createAccount account <;> simp [Except.map]
    rw [hok, Database.createAccount_error_iff, hemail]
    refine ⟨fun ⟨r, hr, hr'⟩ => Or.inr ?_, ?_⟩
    · cases hdeleted : r.deleted with
      | true => exact ⟨r, (hst.deleted r hdeleted).mp hr, hdeleted, hr'⟩
      | false =>
          rw [(hst.live _ r).mpr ⟨hr, hdeleted, hr'⟩] at hnone
          cases hnone
    · rintro (hp | ⟨r, hr, hdeleted, hr'⟩)
      · exact absurd hp hseals
      · exact ⟨r, (hst.deleted r hdeleted).mpr hr, hr'⟩

/-- **One account keeps the map in step with the table.** -/
theorem Mirrors.importAccount {db : Database} {st st' : State} {item : ExportAccount × Nat} (hst : Mirrors db st)
    (h : importAccount C nonce st item = .ok st') : Mirrors db st' := by
  rcases importAccount_cases C nonce st item with ⟨-, he⟩ |
    ⟨account, hemail, -, ⟨existing, hexisting, hid, hdeleted, hsave⟩ | ⟨hnone, hlive, hcreate⟩⟩
  · rw [he] at h
    cases h
  · rw [hsave] at h
    obtain ⟨hmem, hlive, hemail'⟩ := (hst.live _ _).mp hexisting
    rw [hlive] at hdeleted
    have hrow : ∀ r ∈ st.db.accounts.rows, r.id = account.id → r = existing := fun r hr he =>
      st.db.accounts.eq_of_pk hr hmem (he.trans hid)
    have hrows : ∀ a, a ∈ (st.db.saveAccount account).accounts.rows ↔
        a = account ∨ (a ∈ st.db.accounts.rows ∧ a.id ≠ account.id) := by
      intro a
      rw [Database.saveAccount, Table.mem_modify]
      refine ⟨fun ⟨r, hr, ha⟩ => ?_, ?_⟩
      · by_cases heq : r.id = account.id
        · rw [if_pos (beq_iff_eq.mpr heq), heq, hrow r hr heq, hemail', ← hemail] at ha
          exact Or.inl ha.symm
        · rw [if_neg (by simpa using heq)] at ha
          exact Or.inr (ha ▸ ⟨hr, heq⟩)
      · rintro (rfl | ⟨ha, hne⟩)
        · refine ⟨existing, hmem, ?_⟩
          rw [if_pos (beq_iff_eq.mpr hid.symm), ← hid, hemail', ← hemail]
        · exact ⟨a, ha, by rw [if_neg (by simpa using hne)]⟩
    rw [← Except.ok.inj h]
    refine ⟨fun email a => ?_, fun r hr => ?_⟩
    · show Function.update st.existingAccountMap item.1.email (some account) email = some a ↔
        a ∈ (st.db.saveAccount account).accounts.rows ∧ a.deleted = false ∧ a.email = email
      rw [hrows]
      by_cases he : email = item.1.email
      · rw [he, Function.update_self, Option.some.injEq]
        refine ⟨fun ha => ?_, ?_⟩
        · rw [← ha]
          exact ⟨Or.inl rfl, hdeleted, hemail⟩
        · rintro ⟨rfl | ⟨ha, hne⟩, -, he'⟩
          · rfl
          · have heq := st.db.accounts.eq_of_uk ha hmem (he'.trans hemail'.symm)
            exact absurd (heq ▸ hid.symm) hne
      · rw [Function.update_of_ne he, hst.live]
        refine ⟨fun ⟨ha, hl, he'⟩ => ⟨Or.inr ⟨ha, fun hne => he ?_⟩, hl, he'⟩, ?_⟩
        · rw [← he', hrow a ha hne, hemail']
        · rintro ⟨rfl | ⟨ha, -⟩, hl, he'⟩
          · exact absurd (he'.symm.trans hemail) he
          · exact ⟨ha, hl, he'⟩
    · rw [← hst.deleted r hr]
      show r ∈ (st.db.saveAccount account).accounts.rows ↔ r ∈ st.db.accounts.rows
      rw [hrows]
      refine ⟨?_, fun hmem' => Or.inr ⟨hmem', fun hne => ?_⟩⟩
      · rintro (rfl | ⟨ha, -⟩)
        · rw [hdeleted] at hr
          cases hr
        · exact ha
      · rw [hrow r hmem' hne, hlive] at hr
        cases hr
  · rw [hcreate] at h
    cases hc : st.db.createAccount account with
    | error e =>
        rw [hc] at h
        cases h
    | ok r =>
        obtain ⟨db', a'⟩ := r
        rw [hc] at h
        obtain ⟨hfree, ha', hrows, -⟩ := Database.createAccount_ok hc
        have hemail' : a'.email = item.1.email := by
          rw [ha']
          exact hemail
        have hdeleted' : a'.deleted = false := by
          rw [ha']
          exact hlive
        rw [← Except.ok.inj h]
        refine ⟨fun email a => ?_, fun r hr => ?_⟩
        · show Function.update st.existingAccountMap item.1.email (some a') email = some a ↔
            a ∈ db'.accounts.rows ∧ a.deleted = false ∧ a.email = email
          rw [hrows, List.mem_append, List.mem_singleton]
          by_cases he : email = item.1.email
          · rw [he, Function.update_self, Option.some.injEq]
            refine ⟨fun ha => ?_, ?_⟩
            · rw [← ha]
              exact ⟨Or.inr rfl, hdeleted', hemail'⟩
            · rintro ⟨ha | rfl, -, he'⟩
              · exact absurd (he'.trans hemail.symm) (hfree a ha)
              · rfl
          · rw [Function.update_of_ne he, hst.live]
            refine ⟨fun ⟨ha, hl, he'⟩ => ⟨Or.inl ha, hl, he'⟩, ?_⟩
            rintro ⟨ha | rfl, hl, he'⟩
            · exact ⟨ha, hl, he'⟩
            · exact absurd (he'.symm.trans hemail') he
        · rw [← hst.deleted r hr]
          show r ∈ db'.accounts.rows ↔ r ∈ st.db.accounts.rows
          rw [hrows, List.mem_append, List.mem_singleton]
          refine ⟨?_, Or.inl⟩
          rintro (hmem | rfl)
          · exact hmem
          · rw [hdeleted'] at hr
            cases hr

theorem mirrors_preload (db : Database) {payload : ConfigImportRequest} (h : payload.accounts ≠ []) :
    Mirrors db (preload db payload) where
  live email a := by
    show (if payload.accounts ≠ [] then byKey (·.email) db.liveAccounts else fun _ => none) email = some a ↔
      a ∈ db.accounts.rows ∧ a.deleted = false ∧ a.email = email
    have hmem : ∀ r, r ∈ db.liveAccounts ↔ r ∈ db.accounts.rows ∧ r.deleted = false := by
      intro r
      simp [Database.liveAccounts, List.mem_filter]
    rw [if_pos h, byKey_eq_some_iff fun a ha b hb heq =>
      db.accounts.eq_of_uk ((hmem a).mp ha).1 ((hmem b).mp hb).1 heq, hmem, and_assoc]
  deleted r _ := Iff.rfl

/-! ### Nothing is left behind -/

/-- The payload is turned down: it is empty, or meets rows and may not overwrite them. -/
def Refused (db : Database) (payload : ConfigImportRequest) : Prop :=
  (payload.accounts = [] ∧ payload.proxies = [] ∧ payload.systemSettings = none) ∨
    (((∃ acc ∈ payload.accounts, ∃ r ∈ db.liveAccounts, r.email = acc.email) ∨
        ∃ p ∈ payload.proxies, ∃ r ∈ db.proxies.rows, r.name = p.name) ∧
      payload.overwrite = false)

/-- Which of the proxies and accounts fail, in their order. -/
def failing (C : Crypto) (nonce : Nat → Nat) (db : Database) (payload : ConfigImportRequest) : List Bool :=
  payload.proxies.zipIdx.map (proxyFails C nonce) ++
    (payload.accounts.zipIdx payload.proxies.length).map (accountFails C nonce db)

theorem filter_isSome_ne_nil {α β : Type} {f : α → Option β} {l : List α} :
    (l.filter fun a => (f a).isSome) ≠ [] ↔ ∃ a ∈ l, f a ≠ none := by
  simp [List.filter_eq_nil_iff, Option.isSome_iff_ne_none]

theorem conflicts_iff (db : Database) (payload : ConfigImportRequest) :
    ((conflictsOf (preload db payload) payload).accounts ≠ [] ∨
        (conflictsOf (preload db payload) payload).proxies ≠ []) ↔
      (∃ acc ∈ payload.accounts, ∃ r ∈ db.liveAccounts, r.email = acc.email) ∨
        ∃ p ∈ payload.proxies, ∃ r ∈ db.proxies.rows, r.name = p.name := by
  have hbyKey : ∀ {α : Type} (key : α → Text) (rows : List α) (k : Text),
      byKey key rows k ≠ none ↔ ∃ r ∈ rows, key r = k := by
    intro α key rows k
    rw [Ne, byKey_eq_none]
    simp
  refine or_congr ?_ ?_
  · show ((payload.accounts.map (·.email)).filter fun email =>
      ((preload db payload).existingAccountMap email).isSome) ≠ [] ↔ _
    rw [filter_isSome_ne_nil]
    simp only [List.mem_map, exists_exists_and_eq_and]
    refine exists_congr fun acc => and_congr_right fun hacc => ?_
    show (if payload.accounts ≠ [] then byKey (·.email) db.liveAccounts else fun _ => none) acc.email ≠ none ↔ _
    rw [if_pos (List.ne_nil_of_mem hacc), hbyKey]
  · show ((payload.proxies.map (·.name)).filter fun name =>
      ((preload db payload).existingProxyMap name).isSome) ≠ [] ↔ _
    rw [filter_isSome_ne_nil]
    simp only [List.mem_map, exists_exists_and_eq_and]
    refine exists_congr fun p => and_congr_right fun hp => ?_
    show (if payload.proxies ≠ [] ∨ payload.accounts ≠ [] then byKey (·.name) db.proxies.rows else fun _ => none)
      p.name ≠ none ↔ _
    rw [if_pos (Or.inl (List.ne_nil_of_mem hp)), hbyKey]

theorem importConfig_refused {db : Database} {payload : ConfigImportRequest} (h : Refused db payload) :
    (importConfig C nonce db payload).1 = db ∧ ∃ e, (importConfig C nonce db payload).2 = .error e := by
  unfold importConfig
  rcases h with h | ⟨h, hoverwrite⟩
  · rw [if_pos h]
    exact ⟨rfl, _, rfl⟩
  · by_cases hnone : payload.accounts = [] ∧ payload.proxies = [] ∧ payload.systemSettings = none
    · rw [if_pos hnone]
      exact ⟨rfl, _, rfl⟩
    · rw [if_neg hnone]
      dsimp only
      rw [if_pos (And.intro ((conflicts_iff db payload).mpr h) hoverwrite)]
      exact ⟨rfl, _, rfl⟩

theorem importConfig_taken {db : Database} {payload : ConfigImportRequest} (h : ¬ Refused db payload) :
    importConfig C nonce db payload = writeAll C nonce (preload db payload) payload := by
  obtain ⟨hdata, hfree⟩ := not_or.mp h
  unfold importConfig
  rw [if_neg hdata]
  exact if_neg fun hc => hfree ⟨(conflicts_iff db payload).mp hc.1, hc.2⟩

theorem importProxy_count {st st' : State} {item : ExportProxy × Nat} (h : importProxy C nonce st item = .ok st') :
    st.db.stamp < st'.db.stamp := by
  rw [importProxy_stamp h]
  exact Nat.lt_succ_self _

theorem importAccount_count {st st' : State} {item : ExportAccount × Nat}
    (h : importAccount C nonce st item = .ok st') : st.db.stamp < st'.db.stamp := by
  rw [importAccount_stamp h]
  exact Nat.lt_succ_self _

@[simp] theorem State.bindExisting_db (st : State) (payload : ConfigImportRequest) :
    (st.bindExisting payload).db = st.db := by
  unfold State.bindExisting
  split <;> rfl

@[simp] theorem State.bindExisting_accountMap (st : State) (payload : ConfigImportRequest) :
    (st.bindExisting payload).existingAccountMap = st.existingAccountMap := by
  unfold State.bindExisting
  split <;> rfl

@[simp] theorem State.bindExisting_channelMap (st : State) (payload : ConfigImportRequest) :
    (st.bindExisting payload).existingChannelMap = st.existingChannelMap := by
  unfold State.bindExisting
  split <;> rfl

/-- **How an import goes**: it stops at a proxy, at an account, or not at all. -/
theorem writeAll_cases (C : Crypto) (nonce : Nat → Nat) (st : State) (payload : ConfigImportRequest) :
    (∃ st₁ e, untilError (importProxy C nonce) st payload.proxies.zipIdx = (st₁, some e) ∧
      writeAll C nonce st payload = (st₁.db, .error e)) ∨
    ∃ st₁, untilError (importProxy C nonce) st payload.proxies.zipIdx = (st₁, none) ∧
      ((∃ st₂ e, untilError (importAccount C nonce) (st₁.bindExisting payload)
            (payload.accounts.zipIdx payload.proxies.length) = (st₂, some e) ∧
          writeAll C nonce st payload = (st₂.db, .error e)) ∨
        ∃ st₂ counts, untilError (importAccount C nonce) (st₁.bindExisting payload)
            (payload.accounts.zipIdx payload.proxies.length) = (st₂, none) ∧
          writeAll C nonce st payload = (writeRest st₂ payload, .ok counts)) := by
  unfold writeAll
  cases hp : untilError (importProxy C nonce) st payload.proxies.zipIdx with
  | mk st₁ err =>
  cases err with
  | some e => exact Or.inl ⟨st₁, e, rfl, rfl⟩
  | none =>
      refine Or.inr ⟨st₁, rfl, ?_⟩
      dsimp only
      cases ha : untilError (importAccount C nonce) (st₁.bindExisting payload)
        (payload.accounts.zipIdx payload.proxies.length) with
      | mk st₂ err =>
      cases err with
      | some e => exact Or.inl ⟨st₂, e, rfl, rfl⟩
      | none => exact Or.inr ⟨st₂, _, rfl, rfl⟩

theorem proxies_keep_accounts (C : Crypto) (nonce : Nat → Nat) (st : State) (items : List (ExportProxy × Nat)) :
    (untilError (importProxy C nonce) st items).1.db.accounts = st.db.accounts ∧
      (untilError (importProxy C nonce) st items).1.existingAccountMap = st.existingAccountMap := by
  obtain ⟨rest, h, -⟩ := untilError_invariant (f := importProxy C nonce) (l := items) (s := st)
    (I := fun st' _ => st'.db.accounts = st.db.accounts ∧ st'.existingAccountMap = st.existingAccountMap)
    (fun s a rest t hs ht => by
      obtain ⟨haccounts, hmap⟩ := importProxy_accounts ht
      exact ⟨haccounts.trans hs.1, hmap.trans hs.2⟩) ⟨rfl, rfl⟩
  exact h

/-- The accounts' loop finds the accounts as they were before the proxies' loop. -/
theorem mirrors_bindExisting (C : Crypto) (nonce : Nat → Nat) (db : Database) (payload : ConfigImportRequest) (h : payload.accounts ≠ []) :
    Mirrors db ((untilError (importProxy C nonce) (preload db payload) payload.proxies.zipIdx).1.bindExisting payload) := by
  obtain ⟨haccounts, hmap⟩ := proxies_keep_accounts C nonce (preload db payload)
    payload.proxies.zipIdx
  obtain ⟨hlive, hdeleted⟩ := mirrors_preload db h
  refine ⟨?_, ?_⟩
  · rw [State.bindExisting_accountMap, State.bindExisting_db, hmap, haccounts]
    exact hlive
  · rw [State.bindExisting_db, haccounts]
    exact hdeleted

theorem proxies_none_iff (C : Crypto) (nonce : Nat → Nat) (st : State) (items : List (ExportProxy × Nat)) :
    (untilError (importProxy C nonce) st items).2 = none ↔ true ∉ items.map (proxyFails C nonce) := by
  rw [untilError_none_iff (I := fun _ => True) (p := fun item => proxyFails C nonce item = true)
    (fun _ _ _ _ _ => trivial) (fun st item _ => importProxy_error_iff C nonce st item) trivial]
  simp

theorem accounts_none_iff (C : Crypto) (nonce : Nat → Nat) {db : Database} {st : State} {items : List (ExportAccount × Nat)}
    (h : items ≠ [] → Mirrors db st) :
    (untilError (importAccount C nonce) st items).2 = none ↔ true ∉ items.map (accountFails C nonce db) := by
  by_cases hitems : items = []
  · rw [hitems]
    simp [untilError]
  · rw [untilError_none_iff (I := Mirrors db) (p := fun item => accountFails C nonce db item = true)
      (fun _ _ _ hs ht => hs.importAccount ht) (fun _ _ hs => importAccount_error_iff C nonce hs) (h hitems)]
    simp

/-- The first of the flags of two lists. -/
theorem head?_append_map {α β : Type} {f : α → Bool} {g : β → Bool} (l : List α) (l' : List β) :
    (l.map f ++ l'.map g).head? = some true ↔
      if l = [] then l' ≠ [] ∧ ∀ b ∈ l'.head?, g b = true else ∀ a ∈ l.head?, f a = true := by
  cases l with
  | nil => cases l' <;> simp
  | cons a rest => simp

/-- **An error leaves the database alone** just when the payload is turned down before the loops, nothing
fails, or what fails is the very first. -/
theorem unchanged_iff (C : Crypto) (nonce : Nat → Nat) (db : Database) (payload : ConfigImportRequest) :
    ((∃ e, (importConfig C nonce db payload).2 = .error e) → (importConfig C nonce db payload).1 = db) ↔
      Refused db payload ∨ true ∉ failing C nonce db payload ∨
        (failing C nonce db payload).head? = some true := by
  by_cases hrefused : Refused db payload
  · exact iff_of_true (fun _ => (importConfig_refused hrefused).1) (Or.inl hrefused)
  rw [importConfig_taken hrefused, or_iff_right hrefused]
  unfold failing
  have hproxies := proxies_none_iff C nonce (preload db payload) payload.proxies.zipIdx
  have hfirst := untilError_unmarked_iff (m := fun st : State => st.db.stamp) (s := preload db payload)
    (l := payload.proxies.zipIdx) (f := importProxy C nonce) fun _ _ _ => importProxy_count
  rcases writeAll_cases C nonce (preload db payload) payload with
    ⟨st₁, e, hp, hall⟩ | ⟨st₁, hp, hrest⟩
  · rw [hp] at hproxies hfirst
    have hfail : true ∈ payload.proxies.zipIdx.map (proxyFails C nonce) := by
      by_contra hno
      cases hproxies.mpr hno
    have hne : payload.proxies.zipIdx ≠ [] := fun h => by
      rw [h] at hfail
      cases hfail
    rw [hall, head?_append_map, if_neg hne]
    simp only [List.mem_append, hfail, true_or, not_true_eq_false, false_or]
    simp only [← importProxy_error_iff C nonce (preload db payload)]
    rw [← hfirst]
    refine ⟨fun h => congrArg Database.stamp (h ⟨e, rfl⟩), fun h _ => ?_⟩
    have hsame := untilError_head (hfirst.mp h)
    rw [hp] at hsame
    exact congrArg State.db hsame
  · rw [hp] at hproxies hfirst
    have hnone : true ∉ payload.proxies.zipIdx.map (proxyFails C nonce) := hproxies.mp rfl
    have hmirrors : payload.accounts.zipIdx payload.proxies.length ≠ [] → Mirrors db (st₁.bindExisting payload) := by
      intro hne
      have h := mirrors_bindExisting C nonce db payload fun hnil => hne (by rw [hnil]; rfl)
      rwa [hp] at h
    have haccounts := accounts_none_iff C nonce hmirrors
    have hsecond := untilError_unmarked_iff (m := fun st : State => st.db.stamp) (s := st₁.bindExisting payload)
      (l := payload.accounts.zipIdx payload.proxies.length) (f := importAccount C nonce)
      fun _ _ _ => importAccount_count
    have hle := le_untilError (m := fun st : State => st.db.stamp) (s := st₁.bindExisting payload)
      (l := payload.accounts.zipIdx payload.proxies.length) (f := importAccount C nonce)
      fun _ _ _ => importAccount_count
    rcases hrest with ⟨st₂, e, ha, hall⟩ | ⟨st₂, counts, ha, hall⟩
    · rw [ha] at haccounts hsecond hle
      have hfail : true ∈ (payload.accounts.zipIdx payload.proxies.length).map (accountFails C nonce db) := by
        by_contra hno
        cases haccounts.mpr hno
      have hne : payload.accounts.zipIdx payload.proxies.length ≠ [] := fun h => by
        rw [h] at hfail
        cases hfail
      rw [hall, head?_append_map]
      simp only [List.mem_append, hfail, or_true, not_true_eq_false, false_or]
      by_cases hitems : payload.proxies.zipIdx = []
      · -- No proxy was written, so the account is the first that is.
        have hst₁ : st₁ = preload db payload := by
          rw [hitems] at hp
          exact (congrArg Prod.fst hp).symm
        rw [if_pos hitems, and_iff_right hne]
        simp only [← importAccount_error_iff C nonce (hmirrors hne)]
        rw [← hsecond, State.bindExisting_db, hst₁]
        refine ⟨fun h => congrArg Database.stamp (h ⟨e, rfl⟩), fun h _ => ?_⟩
        rw [← hst₁, ← State.bindExisting_db st₁ payload] at h
        have hsame := untilError_head (hsecond.mp h)
        rw [ha] at hsame
        rw [show st₂ = st₁.bindExisting payload from hsame, State.bindExisting_db, hst₁]
        rfl
      · have hmark := le_untilError (m := fun st : State => st.db.stamp) (s := preload db payload)
          (l := payload.proxies.zipIdx) (f := importProxy C nonce) fun _ _ _ => importProxy_count
        rw [hp] at hmark
        have hno : ¬ ∀ a ∈ payload.proxies.zipIdx.head?, proxyFails C nonce a = true := by
          intro hall
          obtain ⟨a, rest, hcons⟩ := List.exists_cons_of_ne_nil hitems
          rw [hcons] at hall hnone
          exact hnone (by rw [List.map_cons, hall a rfl]; exact List.mem_cons_self)
        rw [if_neg hitems]
        refine iff_of_false (fun h => ?_) hno
        have hsame := congrArg Database.stamp (h ⟨e, rfl⟩)
        simp only [← importProxy_error_iff C nonce (preload db payload)] at hno
        rw [← hfirst] at hno
        rw [State.bindExisting_db] at hle
        have hstart : (preload db payload).db.stamp = db.stamp := rfl
        dsimp only at hno hmark hle hsame
        omega
    · rw [ha] at haccounts
      rw [hall]
      refine iff_of_true (fun ⟨e, he⟩ => by cases he) (Or.inl fun hmem => ?_)
      rcases List.mem_append.mp hmem with h | h
      · exact hnone h
      · exact haccounts.mp rfl h

end FlyMail.Mail2im.Transfer
