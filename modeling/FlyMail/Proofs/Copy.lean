/-
A configuration through a file and into an empty database.

While nothing fails, the loops create a row for every proxy and every account (`ProxiesSoFar`,
`AccountsSoFar`).  The map that binds names to proxies holds a zero for each proxy that is new, so the
accounts of these come to be bound to no proxy; an account is created enabled, whatever it was; and
channels on their own are taken for no data.
-/
import FlyMail.Proofs.Transfer
import Mathlib.Data.List.Forall2

namespace FlyMail.Mail2im.Transfer

open Dispatcher (Channel Channels ChannelQuiet)

variable {C : Crypto} {nonce : Nat → Nat}

/-! ### What is copied -/

/-- A database as the service leaves it: names tell proxies and channels apart, and the columns of an
account that have no empty value are filled. -/
structure Configuration extends Database where
  proxyNames : (proxies.rows.map (·.name)).Nodup
  channelNames : (channels.rows.map (·.name)).Nodup
  login : ∀ a ∈ toDatabase.liveAccounts, a.login ≠ []
  status : ∀ a ∈ toDatabase.liveAccounts, a.status ≠ []
  sslMode : ∀ a ∈ toDatabase.liveAccounts, a.sslMode ≠ []

structure Database.Empty (db : Database) : Prop where
  proxies : db.proxies.rows = []
  accounts : db.accounts.rows = []
  channels : db.channels.rows = []
  settings : db.settings.rows = []

def everything : Sections := ⟨true, true, true, true⟩

/-- What was exported, as a payload.  The settings come in some order. -/
def payloadOf (C : Crypto) (cfg : Database) (order : List (Text × Text)) (overwrite : Bool) : ConfigImportRequest :=
  let exported := exportConfig C everything cfg
  ⟨exported.accounts, exported.proxies, exported.channels, exported.systemSettings.map fun _ => order, overwrite⟩

/-- The proxy that an account refers to. -/
def proxyOf (db : Database) (a : Account) : Option Proxy := a.proxyID.bind db.proxies.get?

/-- `db` is `cfg` in every field that is exported, and its accounts refer to the proxies of the same
names. -/
structure Restored (C : Crypto) (cfg db : Database) : Prop where
  proxies : db.proxies.rows.map (exportProxy C) = cfg.proxies.rows.map (exportProxy C)
  accounts : db.liveAccounts.map (exportAccount C db) = cfg.liveAccounts.map (exportAccount C cfg)
  references : db.liveAccounts.map (fun a => (proxyOf db a).map (·.name)) =
    cfg.liveAccounts.map fun a => (proxyOf cfg a).map (·.name)
  channels : db.channels.rows.map exportChannel = cfg.channels.rows.map exportChannel
  settings : (db.settings.rows.map exportSetting).Perm (cfg.settings.rows.map exportSetting)

/-- The token comes out of the file again: it can be encrypted, or is not taken for an encrypted one. -/
def TokenKept (C : Crypto) (nonce : Nat → Nat) (item : ExportAccount × Nat) : Prop :=
  (C.encrypt (nonce (2 * item.2 + 1)) item.1.oauthToken).isSome ∨
    decryptOrKeep C item.1.oauthToken = item.1.oauthToken

/-- What a configuration must be like to come through. -/
structure Portable (C : Crypto) (nonce : Nat → Nat) (cfg target : Database) (payload : ConfigImportRequest)
    (order : List (Text × Text)) : Prop where
  seals : true ∉ failing C nonce target payload
  tokens : ∀ item ∈ payload.accounts.zipIdx payload.proxies.length, TokenKept C nonce item
  enabled : ∀ a ∈ cfg.liveAccounts, a.enabled = true
  direct : ∀ a ∈ cfg.liveAccounts, proxyOf cfg a = none
  data : cfg.channels.rows = [] ∨ cfg.liveAccounts ≠ [] ∨ cfg.proxies.rows ≠ [] ∨ cfg.settings.rows ≠ []
  keys : ∀ kv ∈ order.tail, kv.1 ≠ []

theorem decryptOrKeep_encrypt {n : Nat} {t enc : Text} (h : C.encrypt n t = some enc) :
    decryptOrKeep C enc = t := by
  have hdecrypt := C.decrypt_encrypt n t enc h
  unfold decryptOrKeep
  by_cases henc : enc = []
  · rw [henc, C.decrypt_nil] at hdecrypt
    rw [if_pos henc]
    exact Option.some.inj hdecrypt
  · rw [if_neg henc, hdecrypt]
    by_cases ht : t = []
    · rw [ht, C.encrypt_nil] at h
      exact absurd (Option.some.inj h).symm henc
    · simp [ht]

/-! ### The proxies -/

/-- The proxies are written as far as `done`, where none was there before. -/
structure ProxiesSoFar (C : Crypto) (st₀ st : State) (done : List (ExportProxy × Nat)) : Prop where
  rows : st.db.proxies.rows.map (exportProxy C) = done.map (·.1)
  ids : ∀ r ∈ st.db.proxies.rows, r.id ≠ 0
  known : ∀ name, st.existingProxyMap name = if name ∈ done.map (·.1.name) then some Proxy.zero else none
  named : ∀ name, st.proxyNameToID name = if name ∈ done.map (·.1.name) then some 0 else none
  accounts : st.db.accounts = st₀.db.accounts
  channels : st.db.channels = st₀.db.channels
  settings : st.db.settings = st₀.db.settings
  accountMap : st.existingAccountMap = st₀.existingAccountMap
  channelMap : st.existingChannelMap = st₀.existingChannelMap

theorem ProxiesSoFar.step {st₀ st st' : State} {done : List (ExportProxy × Nat)} {item : ExportProxy × Nat}
    (h : ProxiesSoFar C st₀ st done) (hnew : item.1.name ∉ done.map (·.1.name))
    (hstep : importProxy C nonce st item = .ok st') : ProxiesSoFar C st₀ st' (done ++ [item]) := by
  have hnone : st.existingProxyMap item.1.name = none := by rw [h.known, if_neg hnew]
  rcases importProxy_cases C nonce st item with ⟨-, he⟩ | ⟨enc, henc, hok⟩
  · rw [he] at hstep
    cases hstep
  rw [hok, hnone] at hstep
  rw [← Except.ok.inj hstep]
  have hmem : ∀ name, name ∈ (done ++ [item]).map (·.1.name) ↔ name ∈ done.map (·.1.name) ∨ name = item.1.name := by
    intro name
    simp only [List.map_append, List.map_singleton, List.mem_append, List.mem_singleton]
  refine ⟨?_, fun r hr => ?_, fun name => ?_, fun name => ?_, h.accounts, h.channels, h.settings, h.accountMap,
    h.channelMap⟩
  · show (st.db.proxies.rows ++ [_]).map (exportProxy C) = _
    rw [List.map_append, h.rows, List.map_append, List.map_singleton, List.map_singleton]
    simp only [exportProxy, decryptOrKeep_encrypt henc]
  · rcases List.mem_append.mp hr with hr | hr
    · exact h.ids r hr
    · rw [List.mem_singleton.mp hr]
      exact Nat.succ_ne_zero _
  · show Function.update st.existingProxyMap item.1.name (some Proxy.zero) name = _
    by_cases hname : name = item.1.name
    · rw [hname, Function.update_self, if_pos ((hmem _).mpr (Or.inr rfl))]
    · rw [Function.update_of_ne hname, h.known]
      simp only [hmem, hname, or_false]
  · show Function.update st.proxyNameToID item.1.name (some 0) name = _
    by_cases hname : name = item.1.name
    · rw [hname, Function.update_self, if_pos ((hmem _).mpr (Or.inr rfl))]
    · rw [Function.update_of_ne hname, h.named]
      simp only [hmem, hname, or_false]

/-- **The proxies' loop** has written those before the one it stops at. -/
theorem proxies_sofar (nonce : Nat → Nat) {st₀ : State} {items : List (ExportProxy × Nat)} (h : ProxiesSoFar C st₀ st₀ [])
    (hnodup : (items.map (·.1.name)).Nodup) :
    ∃ done rest, items = done ++ rest ∧ ProxiesSoFar C st₀ (untilError (importProxy C nonce) st₀ items).1 done ∧
      ((untilError (importProxy C nonce) st₀ items).2 = none ↔ rest = []) := by
  obtain ⟨rest, ⟨done, hitems, hsofar⟩, hend⟩ := untilError_invariant (f := importProxy C nonce) (s := st₀)
    (l := items) (I := fun st rest => ∃ done, items = done ++ rest ∧ ProxiesSoFar C st₀ st done)
    (fun st item rest st' hst hstep => by
      obtain ⟨done, hitems, hsofar⟩ := hst
      refine ⟨done ++ [item], by rw [hitems, List.append_assoc, List.singleton_append],
        hsofar.step (fun hmem => ?_) hstep⟩
      rw [hitems, List.map_append, List.map_cons, List.nodup_append] at hnodup
      exact hnodup.2.2 _ hmem _ List.mem_cons_self rfl) ⟨[], rfl, h⟩
  exact ⟨done, rest, hitems, hsofar, hend⟩

/-! ### The accounts -/

/-- The proxy that the name stands for. -/
def boundTo (st : State) (acc : ExportAccount) : Option Nat :=
  if acc.proxyName ≠ [] then st.proxyNameToID acc.proxyName else none

/-- The row is what comes of the account. -/
def Arrived (C : Crypto) (nonce : Nat → Nat) (st : State) (item : ExportAccount × Nat) (row : Account) : Prop :=
  ∃ account id, toAccount C (nonce (2 * item.2)) (requestOf item.1 (boundTo st item.1)) none true = some account ∧
    row = { Database.withDefaults (applyRest C (nonce (2 * item.2 + 1)) account item.1) with id := id }

/-- The accounts are written as far as `done`, where none was there before. -/
structure AccountsSoFar (C : Crypto) (nonce : Nat → Nat) (st₁ st : State) (done : List (ExportAccount × Nat)) :
    Prop where
  rows : List.Forall₂ (Arrived C nonce st₁) done st.db.accounts.rows
  known : ∀ email, email ∉ done.map (·.1.email) → st.existingAccountMap email = none
  named : st.proxyNameToID = st₁.proxyNameToID
  proxies : st.db.proxies = st₁.db.proxies
  channels : st.db.channels = st₁.db.channels
  settings : st.db.settings = st₁.db.settings
  channelMap : st.existingChannelMap = st₁.existingChannelMap

theorem AccountsSoFar.step {st₁ st st' : State} {done : List (ExportAccount × Nat)} {item : ExportAccount × Nat}
    (h : AccountsSoFar C nonce st₁ st done) (hnew : item.1.email ∉ done.map (·.1.email))
    (hstep : importAccount C nonce st item = .ok st') : AccountsSoFar C nonce st₁ st' (done ++ [item]) := by
  have hnone := h.known _ hnew
  have hbound : proxyIDFor st item.1 = boundTo st₁ item.1 := by
    unfold proxyIDFor boundTo
    rw [hnone, h.named]
    rfl
  rcases importAccount_cases C nonce st item with ⟨-, he⟩ |
    ⟨account, hemail, hmap, ⟨existing, hexisting, -⟩ | ⟨-, -, hcreate⟩⟩
  · rw [he] at hstep
    cases hstep
  · rw [hnone] at hexisting
    cases hexisting
  rw [hnone, hbound] at hmap
  obtain ⟨a, ha, haccount⟩ := Option.map_eq_some_iff.mp hmap
  rw [hcreate] at hstep
  cases hc : st.db.createAccount account with
  | error e =>
      rw [hc] at hstep
      cases hstep
  | ok r =>
      obtain ⟨db', row⟩ := r
      rw [hc] at hstep
      obtain ⟨-, hrow, hrows, hproxies, hchannels, hsettings, -⟩ := Database.createAccount_ok hc
      rw [← Except.ok.inj hstep]
      refine ⟨?_, fun email he => ?_, h.named, hproxies.trans h.proxies, hchannels.trans h.channels,
        hsettings.trans h.settings, h.channelMap⟩
      · show List.Forall₂ _ _ db'.accounts.rows
        rw [hrows]
        refine List.rel_append h.rows (.cons ⟨a, st.db.accounts.last + 1, ha, ?_⟩ .nil)
        rw [hrow, ← haccount]
      · show Function.update st.existingAccountMap item.1.email (some row) email = none
        simp only [List.map_append, List.map_singleton, List.mem_append, List.mem_singleton, not_or] at he
        rw [Function.update_of_ne he.2]
        exact h.known email he.1

theorem accounts_sofar {st₁ : State} {items : List (ExportAccount × Nat)} (h : AccountsSoFar C nonce st₁ st₁ [])
    (hnodup : (items.map (·.1.email)).Nodup) :
    ∃ done rest, items = done ++ rest ∧
      AccountsSoFar C nonce st₁ (untilError (importAccount C nonce) st₁ items).1 done ∧
      ((untilError (importAccount C nonce) st₁ items).2 = none ↔ rest = []) := by
  obtain ⟨rest, ⟨done, hitems, hsofar⟩, hend⟩ := untilError_invariant (f := importAccount C nonce) (s := st₁)
    (l := items) (I := fun st rest => ∃ done, items = done ++ rest ∧ AccountsSoFar C nonce st₁ st done)
    (fun st item rest st' hst hstep => by
      obtain ⟨done, hitems, hsofar⟩ := hst
      refine ⟨done ++ [item], by rw [hitems, List.append_assoc, List.singleton_append],
        hsofar.step (fun hmem => ?_) hstep⟩
      rw [hitems, List.map_append, List.map_cons, List.nodup_append] at hnodup
      exact hnodup.2.2 _ hmem _ List.mem_cons_self rfl) ⟨[], rfl, h⟩
  exact ⟨done, rest, hitems, hsofar, hend⟩

/-- The token as it is stored. -/
def tokenStored (C : Crypto) (nonce : Nat → Nat) (item : ExportAccount × Nat) : Text :=
  if item.1.oauthToken ≠ [] then (C.encrypt (nonce (2 * item.2 + 1)) item.1.oauthToken).getD item.1.oauthToken
  else []

theorem tokenKept_iff {item : ExportAccount × Nat} :
    decryptOrKeep C (tokenStored C nonce item) = item.1.oauthToken ↔ TokenKept C nonce item := by
  unfold tokenStored TokenKept
  by_cases ht : item.1.oauthToken = []
  · rw [if_neg (not_not.mpr ht), ht, C.encrypt_nil]
    exact iff_of_true rfl (Or.inl rfl)
  · rw [if_pos ht]
    cases henc : C.encrypt (nonce (2 * item.2 + 1)) item.1.oauthToken with
    | none => simp
    | some enc => simp [decryptOrKeep_encrypt henc]

/-- A new account, from a request that leaves nothing to be filled in. -/
theorem toAccount_new {n : Nat} {req : CreateAccountRequest} {a : Account} {e : Bool}
    (h : toAccount C n req none true = some a) (hlogin : req.login ≠ []) (henabled : req.enabled = some e) :
    ∃ enc, C.encrypt n req.password = some enc ∧
      a = { Account.zero with
        email := req.email
        displayName := req.displayName
        login := req.login
        authType := req.authType
        password := enc
        enabled := e
        proxyID := req.proxyID
        provider := req.provider
        imapServer := req.imapServer
        imapPort := req.imapPort
        useSSL := decide (sslModeOf req.sslMode req.useSSL = "ssl".toList)
        sslMode := sslModeOf req.sslMode req.useSSL
        useIDLE := req.useIDLE
        pollIntervalDay := req.pollIntervalDay
        pollIntervalNight := req.pollIntervalNight
        timezone := req.timezone
        status := "Active".toList } := by
  unfold toAccount at h
  dsimp only at h
  by_cases hp : req.password = []
  · rw [if_pos hp, if_neg hlogin, henabled] at h
    exact ⟨[], by rw [hp]; exact C.encrypt_nil n, (Option.some.inj h).symm⟩
  · rw [if_neg hp, if_neg hlogin, henabled, Option.map_eq_some_iff] at h
    obtain ⟨enc, henc, h⟩ := h
    exact ⟨enc, henc, h.symm⟩

/-- **What arrives of an account** is what was in the file, but for the switch, the token and the proxy. -/
theorem arrived_row {st : State} {item : ExportAccount × Nat} {row : Account} (h : Arrived C nonce st item row)
    (hlogin : item.1.login ≠ []) (hmode : item.1.sslMode ≠ []) (hstatus : item.1.status ≠ []) :
    row.deleted = false ∧ row.proxyID = boundTo st item.1 ∧
      ∀ db, exportAccount C db row =
        { item.1 with
          proxyName := (exportAccount C db row).proxyName
          oauthToken := decryptOrKeep C (tokenStored C nonce item)
          enabled := true } := by
  obtain ⟨account, id, haccount, rfl⟩ := h
  obtain ⟨enc, henc, rfl⟩ := toAccount_new (e := item.1.enabled) haccount hlogin rfl
  refine ⟨rfl, rfl, fun db => ?_⟩
  have hmode' : ∀ useSSL, sslModeOf item.1.sslMode useSSL = item.1.sslMode := fun _ => if_neg hmode
  have hpassword : decryptOrKeep C enc = item.1.password := decryptOrKeep_encrypt henc
  have henabled : (if item.1.enabled = false then true else item.1.enabled) = true := by
    cases item.1.enabled <;> rfl
  simp only [exportAccount, Database.withDefaults, applyRest, requestOf, if_pos hstatus, hmode', hpassword, henabled]
  rfl

/-! ### Channels and settings -/

/-- Nothing but channels has changed. -/
structure SameButChannels (db db' : Database) : Prop where
  proxies : db'.proxies = db.proxies
  accounts : db'.accounts = db.accounts
  settings : db'.settings = db.settings

/-- **The channels' loop** creates each channel whose name is new. -/
theorem importChannels (chans : List ExportChannel) (st : State) (hnodup : (chans.map (·.name)).Nodup)
    (hnew : ∀ ch ∈ chans, st.existingChannelMap ch.name = none) :
    (chans.foldl importChannel st).db.channels.rows.map exportChannel =
        st.db.channels.rows.map exportChannel ++ chans ∧
      SameButChannels st.db (chans.foldl importChannel st).db := by
  induction chans generalizing st with
  | nil => exact ⟨(List.append_nil _).symm, rfl, rfl, rfl⟩
  | cons ch rest ih =>
      rw [List.map_cons, List.nodup_cons] at hnodup
      have hnone := hnew ch List.mem_cons_self
      rw [List.foldl_cons]
      let new : Channel := ⟨0, ch.name, ch.type, ch.config, ch.status, ch.minPriority, [], ch.quiet⟩
      have hstep : importChannel st ch = { st with
          db := (st.db.createChannel new).1
          existingChannelMap := Function.update st.existingChannelMap ch.name (some (st.db.createChannel new).2) } := by
        unfold importChannel
        rw [hnone]
      have hrest := ih (importChannel st ch) hnodup.2 fun c hc => by
        rw [hstep]
        show Function.update st.existingChannelMap ch.name _ c.name = none
        rw [Function.update_of_ne fun he => hnodup.1 (List.mem_map.mpr ⟨c, hc, he⟩)]
        exact hnew c (List.mem_cons_of_mem _ hc)
      obtain ⟨hrows, hproxies, haccounts, hsettings⟩ := hrest
      rw [hstep] at hrows hproxies haccounts hsettings ⊢
      refine ⟨?_, hproxies, haccounts, hsettings⟩
      rw [hrows]
      show (st.db.channels.rows ++ [_]).map exportChannel ++ rest = _
      rw [List.map_append, List.map_singleton, List.append_assoc, List.singleton_append]
      rfl

/-- Nothing but settings has changed. -/
structure SameButSettings (db db' : Database) : Prop where
  proxies : db'.proxies = db.proxies
  accounts : db'.accounts = db.accounts
  channels : db'.channels = db.channels

/-- **One setting**: a row is created where none meets the condition, and no row comes where one does. -/
theorem setSystemSetting_cases (db : Database) (key value : Text) :
    SameButSettings db (db.setSystemSetting key value) ∧
      (((∀ r ∈ db.settings.rows, key ≠ [] ∧ r.key ≠ key) ∧
          (db.setSystemSetting key value).settings.rows =
            db.settings.rows ++ [⟨db.settings.last + 1, key, value⟩]) ∨
        ((∃ r ∈ db.settings.rows, key = [] ∨ r.key = key) ∧
          (db.setSystemSetting key value).settings.rows.length = db.settings.rows.length)) := by
  unfold Database.setSystemSetting
  split
  · rename_i s h
    refine ⟨⟨rfl, rfl, rfl⟩, Or.inr ⟨⟨s, List.mem_of_find?_eq_some h, ?_⟩, ?_⟩⟩
    · simpa using List.find?_some h
    · show (db.settings.rows.map _).length = _
      exact List.length_map _
  · rename_i h
    refine ⟨⟨rfl, rfl, rfl⟩, Or.inl ⟨fun r hr => ?_, rfl⟩⟩
    simpa using List.find?_eq_none.mp h r hr

theorem importSettings_same (settings : List (Text × Text)) :
    ∀ db, SameButSettings db (importSettings db settings) := by
  induction settings with
  | nil => exact fun db => ⟨rfl, rfl, rfl⟩
  | cons kv rest ih =>
      intro db
      obtain ⟨hproxies, haccounts, hchannels⟩ := (setSystemSetting_cases db kv.1 kv.2).1
      obtain ⟨hproxies', haccounts', hchannels'⟩ := ih (db.setSystemSetting kv.1 kv.2)
      exact ⟨hproxies'.trans hproxies, haccounts'.trans haccounts, hchannels'.trans hchannels⟩

/-- Settings with keys of their own are created one after another. -/
theorem importSettings_new {settings : List (Text × Text)} :
    ∀ {db : Database}, (∀ r ∈ db.settings.rows, r.key ∉ settings.map (·.1)) → (settings.map (·.1)).Nodup →
      (∀ kv ∈ settings.tail, kv.1 ≠ []) → (db.settings.rows ≠ [] → ∀ kv ∈ settings.head?, kv.1 ≠ []) →
      (importSettings db settings).settings.rows.map exportSetting = db.settings.rows.map exportSetting ++ settings := by
  induction settings with
  | nil => exact fun _ _ _ _ => (List.append_nil _).symm
  | cons kv rest ih =>
      intro db hfresh hnodup htail hhead
      rw [List.map_cons, List.nodup_cons] at hnodup
      rcases (setSystemSetting_cases db kv.1 kv.2).2 with ⟨-, hrows⟩ | ⟨⟨r, hr, hkey⟩, -⟩
      · have hrest := @ih (db.setSystemSetting kv.1 kv.2) (fun r hr => ?_) hnodup.2
          (fun x hx => htail x (List.mem_of_mem_tail hx)) fun _ x hx => htail x (List.mem_of_mem_head? hx)
        · show (importSettings (db.setSystemSetting kv.1 kv.2) rest).settings.rows.map exportSetting = _
          rw [hrest, hrows, List.map_append, List.append_assoc]
          rfl
        · rw [hrows] at hr
          rcases List.mem_append.mp hr with hr | hr
          · exact fun hmem => hfresh r hr (List.mem_cons_of_mem _ hmem)
          · rw [List.mem_singleton.mp hr]
            exact hnodup.1
      · exfalso
        rcases hkey with hkey | hkey
        · exact hhead (List.ne_nil_of_mem hr) kv rfl hkey
        · exact hfresh r hr (hkey ▸ List.mem_cons_self)

/-- A setting adds at most one row, and one without a key adds none where there are rows. -/
theorem importSettings_length (settings : List (Text × Text)) :
    ∀ db : Database, (importSettings db settings).settings.rows.length ≤
        db.settings.rows.length + settings.length ∧
      (db.settings.rows ≠ [] → (∃ kv ∈ settings, kv.1 = []) →
        (importSettings db settings).settings.rows.length < db.settings.rows.length + settings.length) := by
  induction settings with
  | nil => exact fun db => ⟨Nat.le_refl _, fun _ ⟨kv, hkv, _⟩ => by cases hkv⟩
  | cons kv rest ih =>
      intro db
      obtain ⟨hle, hlt⟩ := ih (db.setSystemSetting kv.1 kv.2)
      show (importSettings (db.setSystemSetting kv.1 kv.2) rest).settings.rows.length ≤ _ ∧
        (_ → _ → (importSettings (db.setSystemSetting kv.1 kv.2) rest).settings.rows.length < _)
      rw [List.length_cons]
      rcases (setSystemSetting_cases db kv.1 kv.2).2 with ⟨hnone, hrows⟩ | ⟨⟨r, hr, -⟩, hlen⟩
      · have hlen : (db.setSystemSetting kv.1 kv.2).settings.rows.length = db.settings.rows.length + 1 := by
          rw [hrows, List.length_append, List.length_singleton]
        refine ⟨by omega, fun hne ⟨x, hx, hkey⟩ => ?_⟩
        have hxrest : x ∈ rest := by
          rcases List.mem_cons.mp hx with rfl | hx
          · obtain ⟨r, hr⟩ := List.exists_mem_of_ne_nil _ hne
            exact absurd hkey (hnone r hr).1
          · exact hx
        have := hlt (by rw [hrows]; simp) ⟨x, hxrest, hkey⟩
        omega
      · exact ⟨by omega, fun _ _ => by omega⟩

theorem writeRest_proxies (st : State) (payload : ConfigImportRequest) (hchannels : SameButChannels st.db
    (payload.channels.foldl importChannel st).db) :
    (writeRest st payload).proxies = st.db.proxies ∧ (writeRest st payload).accounts = st.db.accounts := by
  obtain ⟨hproxies, haccounts, -⟩ := importSettings_same (payload.systemSettings.getD [])
    (payload.channels.foldl importChannel st).db
  exact ⟨hproxies.trans hchannels.proxies, haccounts.trans hchannels.accounts⟩

/-! ### The copy -/

section

variable {cfg : Configuration} {target : Database} {order : List (Text × Text)} {overwrite : Bool}

/-- The settings of an empty database after the import are those of the file, unless one without a key
comes after another. -/
theorem settings_restored_iff (cfg : Configuration) {db : Database} (hempty : db.settings.rows = [])
    (horder : order.Perm (cfg.settings.rows.map exportSetting)) :
    ((importSettings db order).settings.rows.map exportSetting).Perm (cfg.settings.rows.map exportSetting) ↔
      ∀ kv ∈ order.tail, kv.1 ≠ [] := by
  have hnodup : (order.map (·.1)).Nodup := by
    refine (horder.map (·.1)).nodup_iff.mpr ?_
    rw [List.map_map]
    exact List.pairwise_map.mpr cfg.settings.uniq
  refine ⟨fun hperm => ?_, fun hkeys => ?_⟩
  · cases order with
    | nil => simp
    | cons kv rest =>
        intro x hx hkey
        rcases (setSystemSetting_cases db kv.1 kv.2).2 with ⟨-, hrows⟩ | ⟨⟨r, hr, -⟩, -⟩
        · have hlt := (importSettings_length rest (db.setSystemSetting kv.1 kv.2)).2
            (by rw [hrows]; simp) ⟨x, hx, hkey⟩
          have hlen := (hperm.trans horder.symm).length_eq
          have hone : (db.setSystemSetting kv.1 kv.2).settings.rows.length = 1 := by
            rw [hrows, hempty]
            rfl
          rw [List.length_map, List.length_cons] at hlen
          change (importSettings (db.setSystemSetting kv.1 kv.2) rest).settings.rows.length = _ at hlen
          omega
        · rw [hempty] at hr
          cases hr
  · rw [importSettings_new (by rw [hempty]; simp) hnodup hkeys fun hne => absurd hempty hne, hempty]
    exact horder

theorem payloadOf_settings (C : Crypto) (overwrite : Bool) (horder : order.Perm (cfg.settings.rows.map exportSetting)) :
    (payloadOf C cfg.toDatabase order overwrite).systemSettings.getD [] = order := by
  show ((if everything.settings ∧ cfg.settings.rows ≠ [] then some (cfg.settings.rows.map exportSetting) else none).map
    fun _ => order).getD [] = order
  by_cases h : cfg.settings.rows = []
  · rw [h] at horder
    rw [if_neg (fun hc => hc.2 h), horder.eq_nil]
    rfl
  · rw [if_pos ⟨rfl, h⟩]
    rfl

theorem payloadOf_settings_none :
    (payloadOf C cfg.toDatabase order overwrite).systemSettings = none ↔ cfg.settings.rows = [] := by
  show ((if everything.settings ∧ cfg.settings.rows ≠ [] then some (cfg.settings.rows.map exportSetting) else none).map
    fun _ => order) = none ↔ _
  by_cases h : cfg.settings.rows = []
  · rw [if_neg (fun hc => hc.2 h)]
    exact iff_of_true rfl h
  · rw [if_pos ⟨rfl, h⟩]
    exact iff_of_false (fun hc => by cases hc) h

/-- An empty database turns down what has neither accounts nor proxies nor settings. -/
theorem refused_empty_iff (hempty : target.Empty) :
    Refused target (payloadOf C cfg.toDatabase order overwrite) ↔
      cfg.liveAccounts = [] ∧ cfg.proxies.rows = [] ∧ cfg.settings.rows = [] := by
  have hlive : target.liveAccounts = [] := by
    unfold Database.liveAccounts
    rw [hempty.accounts]
    rfl
  unfold Refused
  rw [payloadOf_settings_none, hlive, hempty.proxies]
  simp [payloadOf, exportConfig, everything]

/-- Nothing is lost where there was nothing but, maybe, channels. -/
theorem restored_refused_iff (hempty : target.Empty) (horder : order.Perm (cfg.settings.rows.map exportSetting))
    (haccounts : cfg.liveAccounts = []) (hproxies : cfg.proxies.rows = []) (hsettings : cfg.settings.rows = []) :
    Restored C cfg.toDatabase target ↔
      Portable C nonce cfg.toDatabase target (payloadOf C cfg.toDatabase order overwrite) order := by
  have hlive : target.liveAccounts = [] := by
    unfold Database.liveAccounts
    rw [hempty.accounts]
    rfl
  rw [hsettings] at horder
  refine ⟨fun h => ?_, fun h => ?_⟩
  · have hchannels := h.channels
    rw [hempty.channels, List.map_nil, eq_comm, List.map_eq_nil_iff] at hchannels
    refine ⟨?_, ?_, ?_, ?_, Or.inl hchannels, ?_⟩
    · simp [failing, payloadOf, exportConfig, haccounts, hproxies]
    · simp [payloadOf, exportConfig, haccounts]
    · simp [haccounts]
    · simp [haccounts]
    · rw [horder.eq_nil]
      simp
  · have hchannels : cfg.channels.rows = [] := by
      rcases h.data with hc | hc | hc | hc
      · exact hc
      · exact absurd haccounts hc
      · exact absurd hproxies hc
      · exact absurd hsettings hc
    refine ⟨?_, ?_, ?_, ?_, ?_⟩
    · rw [hempty.proxies, hproxies]
    · rw [hlive, haccounts]
      rfl
    · rw [hlive, haccounts]
      rfl
    · rw [hempty.channels, hchannels]
    · rw [hempty.settings, hsettings]

theorem start_proxies (hempty : target.Empty) (payload : ConfigImportRequest) :
    ProxiesSoFar C (preload target payload) (preload target payload) [] := by
  refine ⟨?_, fun r hr => ?_, fun name => ?_, fun _ => rfl, rfl, rfl, rfl, rfl, rfl⟩
  · show target.proxies.rows.map _ = []
    rw [hempty.proxies]
    rfl
  · change r ∈ target.proxies.rows at hr
    rw [hempty.proxies] at hr
    cases hr
  · show (if payload.proxies ≠ [] ∨ payload.accounts ≠ [] then byKey (·.name) target.proxies.rows else fun _ => none)
      name = none
    rw [hempty.proxies]
    split <;> rfl

theorem start_accounts (nonce : Nat → Nat) (hempty : target.Empty) {payload : ConfigImportRequest} {st : State}
    {done : List (ExportProxy × Nat)} (h : ProxiesSoFar C (preload target payload) st done) :
    AccountsSoFar C nonce (st.bindExisting payload) (st.bindExisting payload) [] := by
  refine ⟨?_, fun email _ => ?_, rfl, rfl, rfl, rfl, rfl⟩
  · rw [State.bindExisting_db, h.accounts]
    show List.Forall₂ _ [] target.accounts.rows
    rw [hempty.accounts]
    exact .nil
  · rw [State.bindExisting_accountMap, h.accountMap]
    show (if payload.accounts ≠ [] then byKey (·.email) target.liveAccounts else fun _ => none) email = none
    have hlive : target.liveAccounts = [] := by
      unfold Database.liveAccounts
      rw [hempty.accounts]
      rfl
    rw [hlive]
    split <;> rfl

/-- Every new proxy is bound to zero. -/
theorem bound_zero {st₀ st : State} {done : List (ExportProxy × Nat)} (h : ProxiesSoFar C st₀ st done)
    (payload : ConfigImportRequest) {acc : ExportAccount} {id : Nat}
    (hbound : boundTo (st.bindExisting payload) acc = some id) : id = 0 := by
  have hzero : ∀ name id, (st.bindExisting payload).proxyNameToID name = some id → id = 0 := by
    intro name id hid
    unfold State.bindExisting at hid
    split at hid
    · rw [h.named] at hid
      split at hid
      · exact (Option.some.inj hid).symm
      · cases hid
    · dsimp only at hid
      rw [h.named, h.known] at hid
      split at hid
      · exact (Option.some.inj hid).symm
      · cases hid
  unfold boundTo at hbound
  split at hbound
  · exact hzero _ _ hbound
  · cases hbound

/-- An account without a proxy has no name of one in the file. -/
theorem proxyName_of_none {db : Database} {a : Account} (h : proxyOf db a = none) :
    (exportAccount C db a).proxyName = [] := by
  unfold proxyOf at h
  unfold exportAccount
  cases hid : a.proxyID with
  | none => rfl
  | some id =>
      rw [hid] at h
      show proxyNameByID db id = []
      unfold proxyNameByID
      rw [show db.proxies.get? id = none from h]

/-- **The accounts come through** when each keeps its token, was enabled, and had no proxy. -/
theorem accounts_restored_iff (cfg : Configuration) (st : State) (db : Database) (n : Nat)
    (hrows : List.Forall₂ (Arrived C nonce st) ((cfg.liveAccounts.map (exportAccount C cfg.toDatabase)).zipIdx n)
      db.accounts.rows)
    (hbound : ∀ acc id, boundTo st acc = some id → id = 0) (hids : ∀ r ∈ db.proxies.rows, r.id ≠ 0) :
    (db.liveAccounts.map (exportAccount C db) = cfg.liveAccounts.map (exportAccount C cfg.toDatabase) ∧
        db.liveAccounts.map (fun a => (proxyOf db a).map (·.name)) =
          cfg.liveAccounts.map fun a => (proxyOf cfg.toDatabase a).map (·.name)) ↔
      (∀ item ∈ (cfg.liveAccounts.map (exportAccount C cfg.toDatabase)).zipIdx n, TokenKept C nonce item) ∧
        (∀ a ∈ cfg.liveAccounts, a.enabled = true) ∧ ∀ a ∈ cfg.liveAccounts, proxyOf cfg.toDatabase a = none := by
  have hfilled : ∀ item ∈ (cfg.liveAccounts.map (exportAccount C cfg.toDatabase)).zipIdx n,
      item.1.login ≠ [] ∧ item.1.sslMode ≠ [] ∧ item.1.status ≠ [] := by
    intro item hmem
    obtain ⟨a, ha, heq⟩ := List.mem_map.mp (List.fst_mem_of_mem_zipIdx hmem)
    rw [← heq]
    refine ⟨cfg.login a ha, ?_, cfg.status a ha⟩
    show sslModeOf a.sslMode a.useSSL ≠ []
    rw [sslModeOf, if_neg (cfg.sslMode a ha)]
    exact cfg.sslMode a ha
  have harrived := fun item hmem row (h : Arrived C nonce st item row) =>
    arrived_row h (hfilled item hmem).1 (hfilled item hmem).2.1 (hfilled item hmem).2.2
  have hnoproxy : ∀ item ∈ (cfg.liveAccounts.map (exportAccount C cfg.toDatabase)).zipIdx n, ∀ row,
      Arrived C nonce st item row → proxyOf db row = none := by
    intro item hmem row h
    unfold proxyOf
    rw [(harrived item hmem row h).2.1]
    cases hb : boundTo st item.1 with
    | none => rfl
    | some id =>
        rw [hbound _ _ hb]
        exact Table.get?_eq_none.mpr hids
  have hlive : db.liveAccounts = db.accounts.rows := by
    have hflags := map_eq_of_forall₂ (g := Account.deleted) (f := fun _ => false) hrows fun item hmem row h =>
      (harrived item hmem row h).1
    refine List.filter_eq_self.mpr fun row hrow => ?_
    obtain ⟨item, -, hflag⟩ := List.mem_map.mp (hflags ▸ List.mem_map_of_mem hrow)
    rw [← hflag]
    rfl
  have hfields : db.liveAccounts.map (exportAccount C db) =
      ((cfg.liveAccounts.map (exportAccount C cfg.toDatabase)).zipIdx n).map fun item =>
        { item.1 with proxyName := [], oauthToken := decryptOrKeep C (tokenStored C nonce item), enabled := true } := by
    rw [hlive]
    refine map_eq_of_forall₂ hrows fun item hmem row h => ?_
    rw [(harrived item hmem row h).2.2 db, proxyName_of_none (hnoproxy item hmem row h)]
  have hnames : db.liveAccounts.map (fun a => (proxyOf db a).map (·.name)) = cfg.liveAccounts.map fun _ => none := by
    have hitems : db.accounts.rows.map (fun a => (proxyOf db a).map (·.name)) =
        ((cfg.liveAccounts.map (exportAccount C cfg.toDatabase)).zipIdx n).map fun _ => none :=
      map_eq_of_forall₂ hrows fun item hmem row h => by rw [hnoproxy item hmem row h]; rfl
    rw [hlive, hitems, map_zipIdx (fun _ => none) _ n, List.map_map]
    rfl
  have hfile : cfg.liveAccounts.map (exportAccount C cfg.toDatabase) =
      ((cfg.liveAccounts.map (exportAccount C cfg.toDatabase)).zipIdx n).map fun item => item.1 :=
    (List.zipIdx_map_fst n _).symm
  rw [hfields, hnames]
  conv_lhs => enter [1, 2]; rw [hfile]
  rw [List.map_inj_left, List.map_inj_left]
  refine ⟨fun ⟨hf, hn⟩ => ⟨fun item hmem => ?_, fun a ha => ?_, fun a ha => ?_⟩,
    fun ⟨htokens, henabled, hdirect⟩ => ⟨fun item hmem => ?_, fun a ha => ?_⟩⟩
  · exact tokenKept_iff.mp (congrArg ExportAccount.oauthToken (hf item hmem))
  · obtain ⟨item, hmem, heq⟩ := List.mem_map.mp (hfile ▸ List.mem_map_of_mem ha)
    have henabled := congrArg ExportAccount.enabled (hf item hmem)
    rw [heq] at henabled
    exact henabled.symm
  · exact Option.map_eq_none_iff.mp (hn a ha).symm
  · obtain ⟨a, ha, heq⟩ := List.mem_map.mp (List.fst_mem_of_mem_zipIdx hmem)
    rw [tokenKept_iff.mpr (htokens item hmem), ← heq, ← proxyName_of_none (C := C) (hdirect a ha),
      ← henabled a ha]
    rfl
  · rw [hdirect a ha]
    rfl

/-- Where a loop stops early the rows are too few. -/
theorem rest_eq_nil {α β γ : Type} {l : List α} {f : β → γ} {rows : List β} {done rest : List (α × Nat)} {n : Nat}
    {whole : List γ} (hitems : l.zipIdx n = done ++ rest) (hwhole : whole.length = l.length)
    (hle : rows.length ≤ done.length) (h : rows.map f = whole) : rest = [] := by
  have hlen := congrArg List.length hitems
  rw [List.length_zipIdx, List.length_append] at hlen
  have heq := congrArg List.length h
  rw [List.length_map] at heq
  exact List.length_eq_zero_iff.mp (by omega)

theorem writeAll_restored_iff (hempty : target.Empty) (horder : order.Perm (cfg.settings.rows.map exportSetting))
    (hdata : ¬ (cfg.liveAccounts = [] ∧ cfg.proxies.rows = [] ∧ cfg.settings.rows = [])) :
    Restored C cfg.toDatabase (writeAll C nonce (preload target (payloadOf C cfg.toDatabase order overwrite))
        (payloadOf C cfg.toDatabase order overwrite)).1 ↔
      Portable C nonce cfg.toDatabase target (payloadOf C cfg.toDatabase order overwrite) order := by
  have hproxyItems : (payloadOf C cfg.toDatabase order overwrite).proxies = cfg.proxies.rows.map (exportProxy C) := rfl
  have haccountItems : (payloadOf C cfg.toDatabase order overwrite).accounts =
      cfg.liveAccounts.map (exportAccount C cfg.toDatabase) := rfl
  have hchannelItems : (payloadOf C cfg.toDatabase order overwrite).channels =
      cfg.channels.rows.map exportChannel := rfl
  have hsettingItems := payloadOf_settings C overwrite horder
  generalize payloadOf C cfg.toDatabase order overwrite = payload at *
  have hproxies := proxies_none_iff C nonce (preload target payload) payload.proxies.zipIdx
  have hnames : (payload.proxies.zipIdx.map (·.1.name)).Nodup := by
    rw [map_zipIdx (fun p : ExportProxy => p.name), hproxyItems, List.map_map]
    exact cfg.proxyNames
  have hemails : ((payload.accounts.zipIdx payload.proxies.length).map (·.1.email)).Nodup := by
    rw [map_zipIdx (fun a : ExportAccount => a.email), haccountItems, List.map_map]
    exact List.pairwise_map.mpr (cfg.accounts.uniq.filter _)
  obtain ⟨done, rest, hitems, hsofar, hend⟩ := proxies_sofar nonce
    (start_proxies (C := C) hempty payload) hnames
  rcases writeAll_cases C nonce (preload target payload) payload with
    ⟨st₁, e, hp, hall⟩ | ⟨st₁, hp, hrest⟩
  · rw [hp] at hproxies hsofar hend
    refine iff_of_false (fun h => ?_) fun h => ?_
    · have hrows : st₁.db.proxies.rows.length = done.length := by
        simpa using congrArg List.length hsofar.rows
      have hwhole := h.proxies
      rw [hall, ← hproxyItems] at hwhole
      cases hend.mpr (rest_eq_nil hitems rfl (Nat.le_of_eq hrows) hwhole)
    · cases hproxies.mpr fun hmem => h.seals (List.mem_append_left _ hmem)
  · rw [hp] at hproxies hsofar hend
    have hmirrors : payload.accounts.zipIdx payload.proxies.length ≠ [] →
        Mirrors target (st₁.bindExisting payload) := by
      intro hne
      have h := mirrors_bindExisting C nonce target payload fun hnil => hne (by rw [hnil]; rfl)
      rwa [hp] at h
    have haccounts := accounts_none_iff C nonce hmirrors
    obtain ⟨done', rest', hitems', hsofar', hend'⟩ := accounts_sofar (start_accounts nonce hempty hsofar)
      hemails
    rcases hrest with ⟨st₂, e, ha, hall⟩ | ⟨st₂, counts, ha, hall⟩
    · rw [ha] at haccounts hsofar' hend'
      refine iff_of_false (fun h => ?_) fun h => ?_
      · have hrows : st₂.db.liveAccounts.length ≤ done'.length := by
          rw [hsofar'.rows.length_eq]
          exact List.length_filter_le _ _
        have hwhole := h.accounts
        rw [hall, ← haccountItems] at hwhole
        cases hend'.mpr (rest_eq_nil hitems' rfl hrows hwhole)
      · cases haccounts.mpr fun hmem => h.seals (List.mem_append_right _ hmem)
    · rw [ha] at haccounts hsofar' hend'
      rw [hend.mp rfl, List.append_nil] at hitems
      rw [hend'.mp rfl, List.append_nil] at hitems'
      have hchannelMap : st₂.existingChannelMap = fun _ => none := by
        rw [hsofar'.channelMap, State.bindExisting_channelMap, hsofar.channelMap]
        show (if payload.channels ≠ [] then byKey (·.name) target.channels.rows else fun _ => none) = _
        rw [hempty.channels]
        split <;> rfl
      obtain ⟨hchannels, hsame⟩ := importChannels payload.channels st₂
        (by rw [hchannelItems, List.map_map]; exact cfg.channelNames) fun ch _ => by rw [hchannelMap]
      obtain ⟨hdbproxies, hdbaccounts⟩ := writeRest_proxies st₂ payload hsame
      rw [hsofar'.proxies, State.bindExisting_db] at hdbproxies
      rw [hsofar'.channels, State.bindExisting_db, hsofar.channels] at hchannels
      have hdbsettings : (payload.channels.foldl importChannel st₂).db.settings.rows = [] := by
        rw [hsame.settings, hsofar'.settings, State.bindExisting_db, hsofar.settings]
        exact hempty.settings
      have haccountsIff := accounts_restored_iff cfg (st₁.bindExisting payload)
        (writeRest st₂ payload) payload.proxies.length
        (by rw [hdbaccounts, ← haccountItems, hitems']; exact hsofar'.rows)
        (fun acc id => bound_zero hsofar payload) (by rw [hdbproxies]; exact hsofar.ids)
      have hsettingsIff := settings_restored_iff cfg hdbsettings horder
      have hdbsettings' : (writeRest st₂ payload).settings =
          (importSettings (payload.channels.foldl importChannel st₂).db order).settings := by
        unfold writeRest
        rw [hsettingItems]
      rw [← hdbsettings'] at hsettingsIff
      rw [← haccountItems] at haccountsIff
      rw [hall]
      refine ⟨fun h => ?_, fun h => ?_⟩
      · obtain ⟨htokens, henabled, hdirect⟩ := haccountsIff.mp ⟨haccountItems ▸ h.accounts, h.references⟩
        refine ⟨fun hmem => ?_, htokens, henabled, hdirect, ?_, hsettingsIff.mp h.settings⟩
        · rcases List.mem_append.mp hmem with hmem | hmem
          · exact hproxies.mp rfl hmem
          · exact haccounts.mp rfl hmem
        · by_contra hno
          simp only [not_or, not_not] at hno
          exact hdata ⟨hno.2.1, hno.2.2.1, hno.2.2.2⟩
      · obtain ⟨haccountRows, hreferences⟩ := haccountsIff.mpr ⟨h.tokens, h.enabled, h.direct⟩
        refine ⟨?_, haccountItems ▸ haccountRows, hreferences, ?_, hsettingsIff.mpr h.keys⟩
        · show (writeRest st₂ payload).proxies.rows.map _ = _
          rw [hdbproxies, hsofar.rows, ← hitems, ← hproxyItems]
          exact List.zipIdx_map_fst 0 _
        · obtain ⟨-, -, hsettings⟩ := importSettings_same (payload.systemSettings.getD [])
            (payload.channels.foldl importChannel st₂).db
          show (writeRest st₂ payload).channels.rows.map _ = _
          rw [show (writeRest st₂ payload).channels = _ from hsettings, hchannels, hchannelItems]
          show target.channels.rows.map _ ++ _ = _
          rw [hempty.channels, List.map_nil, List.nil_append]

/-- **A configuration comes through a file** just when nothing fails and it asks for nothing that gets lost. -/
theorem restored_iff (hempty : target.Empty) (horder : order.Perm (cfg.settings.rows.map exportSetting)) :
    Restored C cfg.toDatabase (importConfig C nonce target (payloadOf C cfg.toDatabase order overwrite)).1 ↔
      Portable C nonce cfg.toDatabase target (payloadOf C cfg.toDatabase order overwrite) order := by
  by_cases hdata : cfg.liveAccounts = [] ∧ cfg.proxies.rows = [] ∧ cfg.settings.rows = []
  · rw [(importConfig_refused ((refused_empty_iff hempty).mpr hdata)).1]
    exact restored_refused_iff hempty horder hdata.1 hdata.2.1 hdata.2.2
  · rw [importConfig_taken fun h => hdata ((refused_empty_iff hempty).mp h)]
    exact writeAll_restored_iff hempty horder hdata

end

/-! ### The file -/

/-- **What a file does to a configuration.**  It comes through just when nothing fails, its accounts are
enabled and without a proxy, its channels are not alone, and no setting without a key comes after another;
and an error leaves the database as it was just when nothing was written before it. -/
theorem transfer_iff (C : Crypto) (nonce : Nat → Nat) (cfg : Configuration) (target : Database)
    (hempty : target.Empty) (order : List (Text × Text))
    (horder : order.Perm (cfg.settings.rows.map exportSetting)) (overwrite : Bool) (db : Database)
    (payload : ConfigImportRequest) :
    (Restored C cfg.toDatabase (importConfig C nonce target (payloadOf C cfg.toDatabase order overwrite)).1 ↔
        Portable C nonce cfg.toDatabase target (payloadOf C cfg.toDatabase order overwrite) order) ∧
      (((∃ e, (importConfig C nonce db payload).2 = .error e) → (importConfig C nonce db payload).1 = db) ↔
        Refused db payload ∨ true ∉ failing C nonce db payload ∨
          (failing C nonce db payload).head? = some true) :=
  ⟨restored_iff hempty horder, unchanged_iff C nonce db payload⟩

section Example

def blank : Database := ⟨.empty, .empty, .empty, .empty, 0⟩

private def relay : Proxy := ⟨1, "relay".toList, "socks5".toList, "10.0.0.1".toList, 1080, [], []⟩

private def jane : Account :=
  { Account.zero with
    id := 1
    email := "jane@example.org".toList
    login := "jane".toList
    sslMode := "ssl".toList
    enabled := true
    proxyID := some 1
    status := "Active".toList }

/-- One account behind one proxy. -/
def office : Configuration where
  proxies := .single relay
  accounts := .single jane
  channels := .empty
  settings := .empty
  stamp := 0
  proxyNames := by decide
  channelNames := by decide
  login := by decide
  status := by decide
  sslMode := by decide

/-- The account has been deleted, and the proxy too. -/
def vacated : Database := ⟨.empty, .single { jane with deleted := true }, .empty, .empty, 0⟩

/-- The account is there again in the copy, but it goes past the proxy; and where it cannot be created for
the deleted one, the proxy is created all the same. -/
theorem transfer_loses_proxy :
    ¬ Restored Crypto.plain office.toDatabase
        (importConfig Crypto.plain id blank (payloadOf Crypto.plain office.toDatabase [] false)).1 ∧
      (importConfig Crypto.plain id vacated (payloadOf Crypto.plain office.toDatabase [] false)).2 =
          .error .duplicateEmail ∧
        (importConfig Crypto.plain id vacated (payloadOf Crypto.plain office.toDatabase [] false)).1 ≠ vacated := by
  refine ⟨fun h => ?_, by decide +kernel, fun h => ?_⟩
  · have href := h.references
    revert href
    decide +kernel
  · have hstamp := congrArg Database.stamp h
    revert hstamp
    decide +kernel

theorem transfer_iff_office :
    (Restored Crypto.plain office.toDatabase
          (importConfig Crypto.plain id blank (payloadOf Crypto.plain office.toDatabase [] false)).1 ↔
        Portable Crypto.plain id office.toDatabase blank (payloadOf Crypto.plain office.toDatabase [] false) []) ∧
      (((∃ e, (importConfig Crypto.plain id vacated (payloadOf Crypto.plain office.toDatabase [] false)).2 = .error e) →
          (importConfig Crypto.plain id vacated (payloadOf Crypto.plain office.toDatabase [] false)).1 = vacated) ↔
        Refused vacated (payloadOf Crypto.plain office.toDatabase [] false) ∨
          true ∉ failing Crypto.plain id vacated (payloadOf Crypto.plain office.toDatabase [] false) ∨
            (failing Crypto.plain id vacated (payloadOf Crypto.plain office.toDatabase [] false)).head? = some true) :=
  transfer_iff Crypto.plain id office blank ⟨rfl, rfl, rfl, rfl⟩ [] (.refl _) false vacated
    (payloadOf Crypto.plain office.toDatabase [] false)

end Example

end FlyMail.Mail2im.Transfer
