/-
A changed password stays changed.

All that an operation does to the store is said once, in `Advance`: rows stay, and only a
change of its password gives a row another hash.  That is true of a save by `Login` or
`UpdateProfile` only if the copy it writes back is as old as the last change of the
password, and `Fits` carries what is known of a copy from the moment it was loaded.

Where a change comes in between, the save takes the change back, and the old password
opens the account again (`login_restores_old_password`).
-/
import FlyMail.Auth.Service

namespace FlyMail.Auth

variable {H : Hasher}

/-! ### The repository -/

theorem getByUsername_eq_ok {users : AdminUsers} {username : Text} {u : AdminUser} :
    Repository.getByUsername users username = .ok u ↔ u ∈ users.rows ∧ u.username = username := by
  unfold Repository.getByUsername
  refine ⟨fun h => ?_, fun h => ?_⟩
  · split at h
    · rename_i u' hfind
      obtain rfl := Except.ok.inj h
      exact ⟨List.mem_of_find?_eq_some hfind, by simpa using List.find?_some hfind⟩
    · cases h
  · obtain ⟨hu, rfl⟩ := h
    split
    · rename_i u' hfind
      have hmem := List.mem_of_find?_eq_some hfind
      have hname : u'.username = u.username := by simpa using List.find?_some hfind
      rw [users.eq_of_uk hmem hu hname]
    · rename_i hnone
      simpa using List.find?_eq_none.mp hnone u hu

theorem mem_of_authenticate {users : AdminUsers} {username password : Text} {u : AdminUser}
    (h : authenticate H users username password = .ok u) :
    u ∈ users.rows ∧ u.username = username := by
  unfold authenticate at h
  split at h
  · cases h
  · cases h
  · rename_i u' hget
    split at h
    · obtain rfl := Except.ok.inj h
      exact getByUsername_eq_ok.mp hget
    · cases h

theorem mem_of_lookUp {users : AdminUsers} {username : Text} {u : AdminUser}
    (h : lookUp users username = .ok (some u)) : u ∈ users.rows ∧ u.username = username := by
  unfold lookUp at h
  split at h
  · cases h
  · cases h
  · rename_i u' hget
    obtain rfl := Option.some.inj (Except.ok.inj h)
    exact getByUsername_eq_ok.mp hget

/-- The row a save leaves in the place of `r`. -/
def saved (u r : AdminUser) : AdminUser :=
  if r.id == u.id then { u with id := r.id, username := r.username } else r

@[simp] theorem saved_id (u r : AdminUser) : (saved u r).id = r.id := by
  unfold saved
  split <;> rfl

@[simp] theorem saved_username (u r : AdminUser) : (saved u r).username = r.username := by
  unfold saved
  split <;> rfl

theorem saved_passwordHash {u r : AdminUser} (h : r.id = u.id → r.passwordHash = u.passwordHash) :
    (saved u r).passwordHash = r.passwordHash := by
  unfold saved
  by_cases hid : r.id = u.id
  · rw [if_pos (by simpa using hid)]
    exact (h hid).symm
  · rw [if_neg (by simpa using hid)]

theorem mem_save {users : AdminUsers} {u r : AdminUser} (hr : r ∈ users.rows) :
    saved u r ∈ (Repository.save users u).rows :=
  Table.exists_mem_modify hr

/-! ### What an operation does to the store -/

/-- The store `s'` comes from `s` by an operation that changes the passwords in `cs`. -/
structure Advance (H : Hasher) (cs : List Change) (s s' : Store) : Prop where
  changed : s'.changed = s.changed ++ cs
  kept : ∀ r ∈ s.users.rows, ∃ r' ∈ s'.users.rows, r'.id = r.id ∧ r'.username = r.username ∧
    ((∀ c ∈ cs, c.username ≠ r.username) → r'.passwordHash = r.passwordHash)
  set : ∀ c ∈ cs, ∃ r ∈ s'.users.rows, r.username = c.username ∧
    H.hashPassword c.salt c.password = some r.passwordHash

theorem Advance.none (H : Hasher) (s : Store) : Advance H [] s s where
  changed := by simp
  kept r hr := ⟨r, hr, rfl, rfl, fun _ => rfl⟩
  set c hc := by cases hc

/-- Every change in the journal is still in force, if it is the user's last. -/
def InForce (H : Hasher) (s : Store) : Prop :=
  ∀ username c, s.lastChange username = some c →
    ∃ r ∈ s.users.rows, r.username = username ∧
      H.hashPassword c.salt c.password = some r.passwordHash

/-- What is known of a row loaded when `seen` changes had been made. -/
def Loaded (u : AdminUser) (seen : Nat) (s : Store) : Prop :=
  seen ≤ s.changed.length ∧ ∃ r ∈ s.users.rows, r.id = u.id ∧ r.username = u.username ∧
    (s.unchangedSince u.username seen = true → r.passwordHash = u.passwordHash)

/-- What is known of the copy a call holds. -/
def Fits (H : Hasher) : Frame → Store → Prop
  | .loggingIn u seen, s => Loaded u seen s
  | .updatingProfile u seen, s => Loaded u seen s
  | .settingPassword existing passwordHash c, s =>
      H.hashPassword c.salt c.password = some passwordHash ∧
        ∀ u, existing = some u → ∃ r ∈ s.users.rows, r.id = u.id ∧ r.username = c.username
  | _, _ => True

theorem loaded_of_mem {u r : AdminUser} {s : Store} (hr : r ∈ s.users.rows) (hid : r.id = u.id)
    (hname : r.username = u.username) (hhash : r.passwordHash = u.passwordHash) :
    Loaded u s.changed.length s :=
  ⟨Nat.le_refl _, r, hr, hid, hname, fun _ => hhash⟩

theorem unchangedSince_append {s s' : Store} {cs : List Change} {username : Text} {seen : Nat}
    (hseen : seen ≤ s.changed.length) (h : s'.changed = s.changed ++ cs) :
    s'.unchangedSince username seen = true ↔
      s.unchangedSince username seen = true ∧ ∀ c ∈ cs, c.username ≠ username := by
  unfold Store.unchangedSince
  rw [h, List.drop_append_of_le_length hseen, List.all_append]
  simp

theorem Loaded.advance {u : AdminUser} {seen : Nat} {s s' : Store} {cs : List Change}
    (h : Loaded u seen s) (hstep : Advance H cs s s') : Loaded u seen s' := by
  obtain ⟨hseen, r, hr, hid, hname, hhash⟩ := h
  obtain ⟨r', hr', hid', hname', hhash'⟩ := hstep.kept r hr
  refine ⟨?_, r', hr', hid'.trans hid, hname'.trans hname, fun hfresh => ?_⟩
  · rw [hstep.changed, List.length_append]
    omega
  · obtain ⟨hold, hnew⟩ := (unchangedSince_append hseen hstep.changed).mp hfresh
    rw [hhash' (by rw [hname]; exact hnew), hhash hold]

/-- **What is known of a copy outlives what the others do.** -/
theorem Fits.advance {f : Frame} {s s' : Store} {cs : List Change} (h : Fits H f s)
    (hstep : Advance H cs s s') : Fits H f s' := by
  cases f with
  | loggingIn u seen => exact Loaded.advance h hstep
  | updatingProfile u seen => exact Loaded.advance h hstep
  | settingPassword existing passwordHash c =>
      refine ⟨h.1, fun u hu => ?_⟩
      obtain ⟨r, hr, hid, hname⟩ := h.2 u hu
      obtain ⟨r', hr', hid', hname', -⟩ := hstep.kept r hr
      exact ⟨r', hr', hid'.trans hid, hname'.trans hname⟩
  | _ => trivial

theorem lastChange_append {s s' : Store} {cs : List Change} {username : Text} {c : Change}
    (h : s'.changed = s.changed ++ cs) (hc : s'.lastChange username = some c) :
    (c ∈ cs ∧ c.username = username) ∨
      (s.lastChange username = some c ∧ ∀ d ∈ cs, d.username ≠ username) := by
  unfold Store.lastChange at hc ⊢
  rw [h, List.filter_append, List.getLast?_append] at hc
  cases hlast : (cs.filter fun c => c.username == username).getLast? with
  | none =>
      rw [hlast] at hc
      refine Or.inr ⟨hc, fun d hd => ?_⟩
      have hnil := List.getLast?_eq_none_iff.mp hlast
      simpa using List.filter_eq_nil_iff.mp hnil d hd
  | some d =>
      rw [hlast] at hc
      obtain rfl : d = c := by simpa using hc
      have hd := List.mem_filter.mp (List.mem_of_getLast? hlast)
      exact Or.inl ⟨hd.1, by simpa using hd.2⟩

theorem InForce.advance {s s' : Store} {cs : List Change} (h : InForce H s)
    (hstep : Advance H cs s s') : InForce H s' := by
  intro username c hc
  rcases lastChange_append hstep.changed hc with ⟨hmem, hname⟩ | ⟨hold, hnew⟩
  · obtain ⟨r, hr, hrname, hhash⟩ := hstep.set c hmem
    exact ⟨r, hr, hrname.trans hname, hhash⟩
  · obtain ⟨r, hr, hrname, hhash⟩ := h username c hold
    obtain ⟨r', hr', -, hname', hhash'⟩ := hstep.kept r hr
    refine ⟨r', hr', hname'.trans hrname, ?_⟩
    rw [hhash' (by rw [hrname]; exact hnew), hhash]

/-! ### The operations, one by one -/

/-- Saving a copy that is as old as the last change of the password changes no password. -/
theorem advance_save {u : AdminUser} {seen : Nat} {s : Store} (hfits : Loaded u seen s)
    (hfresh : s.unchangedSince u.username seen = true) :
    Advance H [] s { s with users := Repository.save s.users u } where
  changed := by simp
  kept r hr := by
    refine ⟨saved u r, mem_save hr, by simp, by simp, fun _ => saved_passwordHash fun hid => ?_⟩
    obtain ⟨-, r₀, hr₀, hid₀, -, hhash⟩ := hfits
    rw [s.users.eq_of_pk hr hr₀ (hid.trans hid₀.symm)]
    exact hhash hfresh
  set c hc := by cases hc

/-- Saving the new hash changes the user's password and no other. -/
theorem advance_upsert {existing : Option AdminUser} {passwordHash : Text} {c : Change}
    {s : Store} {users : AdminUsers} (hfits : Fits H (.settingPassword existing passwordHash c) s)
    (h : Repository.upsert s.users existing c.username passwordHash = .ok users) :
    Advance H [c] s ⟨users, s.changed ++ [c]⟩ := by
  obtain ⟨hhash, hexisting⟩ := hfits
  cases existing with
  | none =>
      simp only [Repository.upsert, Repository.create] at h
      split at h
      · cases h
      · obtain rfl := Except.ok.inj h
        refine ⟨rfl, fun r hr => ?_, fun d hd => ?_⟩
        · exact ⟨r, Table.mem_insert.mpr (Or.inl hr), rfl, rfl, fun _ => rfl⟩
        · obtain rfl := List.mem_singleton.mp hd
          exact ⟨_, Table.mem_insert.mpr (Or.inr rfl), rfl, hhash⟩
  | some u =>
      obtain rfl := Except.ok.inj h
      obtain ⟨r₀, hr₀, hid₀, hname₀⟩ := hexisting u rfl
      refine ⟨rfl, fun r hr => ?_, fun d hd => ?_⟩
      · refine ⟨_, mem_save hr, by simp, by simp, fun hother => ?_⟩
        have hne : r.username ≠ c.username := fun he => hother c (by simp) he.symm
        refine saved_passwordHash fun hid => ?_
        rw [s.users.eq_of_pk hr hr₀ (hid.trans hid₀.symm)] at hne
        exact absurd hname₀ hne
      · obtain rfl := List.mem_singleton.mp hd
        refine ⟨_, mem_save hr₀, by simpa using hname₀, ?_⟩
        rw [hhash]
        unfold saved
        rw [if_pos (by simpa using hid₀)]

/-- A call that ends without having written. -/
theorem advance_of_done {s s' : Store} {f' : Frame} {r : Except Err Answer}
    (h : some (s, Frame.done r) = some (s', f')) : ∃ cs, Advance H cs s s' ∧ Fits H f' s' := by
  obtain ⟨rfl, rfl⟩ := Prod.mk.inj (Option.some.inj h)
  exact ⟨[], .none H _, trivial⟩

/-- **What an operation of a call does.** -/
theorem next_advance {p : Pool Frame Store} {i : Nat} {x : Luck} {f f' : Frame} {s : Store}
    (hfits : Fits H f p.store) (hok : savesFresh p (.go i x) = true) (hf : p.calls[i]? = some f)
    (h : next H x f p.store = some (s, f')) :
    ∃ cs, Advance H cs p.store s ∧ Fits H f' s := by
  cases f with
  | login username password =>
      simp only [next] at h
      split at h
      · exact advance_of_done h
      · split at h
        · exact advance_of_done h
        · rename_i u hauth
          obtain ⟨rfl, rfl⟩ := Prod.mk.inj (Option.some.inj h)
          exact ⟨[], .none H _, loaded_of_mem (mem_of_authenticate hauth).1 rfl rfl rfl⟩
  | loggingIn u seen =>
      obtain ⟨rfl, rfl⟩ := Prod.mk.inj (Option.some.inj h)
      refine ⟨[], ?_, trivial⟩
      by_cases hfailed : x.failed = true
      · rw [if_pos hfailed]
        exact .none H _
      · rw [if_neg hfailed]
        simp only [savesFresh, hf, Bool.or_eq_true] at hok
        exact advance_save hfits (hok.resolve_left hfailed)
  | updateProfile username displayName email =>
      simp only [next] at h
      split at h
      · exact advance_of_done h
      · split at h
        · exact advance_of_done h
        · rename_i u hget
          obtain ⟨rfl, rfl⟩ := Prod.mk.inj (Option.some.inj h)
          exact ⟨[], .none H _, loaded_of_mem (getByUsername_eq_ok.mp hget).1 rfl rfl rfl⟩
  | updatingProfile u seen =>
      simp only [next] at h
      by_cases hfailed : x.failed = true
      · rw [if_pos hfailed] at h
        exact advance_of_done h
      · rw [if_neg hfailed] at h
        obtain ⟨rfl, rfl⟩ := Prod.mk.inj (Option.some.inj h)
        simp only [savesFresh, hf, Bool.or_eq_true] at hok
        exact ⟨[], advance_save hfits (hok.resolve_left hfailed), trivial⟩
  | changePassword username oldPassword newPassword =>
      simp only [next] at h
      split at h
      · exact advance_of_done h
      · split at h
        · exact advance_of_done h
        · obtain ⟨rfl, rfl⟩ := Prod.mk.inj (Option.some.inj h)
          exact ⟨[], .none H _, trivial⟩
  | setAdminPassword username password =>
      simp only [next] at h
      split at h
      · exact advance_of_done h
      · rename_i passwordHash hhash
        split at h
        · exact advance_of_done h
        · split at h
          · exact advance_of_done h
          · rename_i existing hlook
            obtain ⟨rfl, rfl⟩ := Prod.mk.inj (Option.some.inj h)
            refine ⟨[], .none H _, hhash, fun u hu => ?_⟩
            obtain ⟨hmem, hname⟩ := mem_of_lookUp (hu ▸ hlook)
            exact ⟨u, hmem, rfl, hname⟩
  | settingPassword existing passwordHash c =>
      simp only [next] at h
      split at h
      · exact advance_of_done h
      · split at h
        · exact advance_of_done h
        · rename_i users hupsert
          obtain ⟨rfl, rfl⟩ := Prod.mk.inj (Option.some.inj h)
          exact ⟨[c], advance_upsert hfits hupsert, trivial⟩
  | done r => cases h

/-- **Every change of password is in force in every state of a run.** -/
theorem inForce_of_run {users : AdminUsers} {p : Pool Frame Store}
    (h : Run (Pool.step (service H)) (fun p turn => savesFresh p turn = true) ⟨⟨users, []⟩, []⟩ p) :
    InForce H p.store := by
  refine (Pool.invariant (I := InForce H) (J := Fits H) ?_ ?_ ?_ h ?_).store
  · intro c s _
    cases c <;> trivial
  · intro p i x f s f' hp hok hf hnext
    obtain ⟨cs, hstep, hfits⟩ := next_advance (hp.calls i f hf) hok hf hnext
    exact ⟨hp.store.advance hstep, hfits, fun j g _ hg => (hp.calls j g hg).advance hstep⟩
  · intro p e
    cases e
  · refine Pool.holds_of_no_calls fun username c hc => ?_
    simp [Store.lastChange] at hc

/-- The user's row holds the hash of the password set last, and whatever password that hash
does not accept is refused. -/
def LastPasswordCounts (H : Hasher) (s : Store) : Prop :=
  ∀ username c, s.lastChange username = some c →
    ∃ u, Repository.getByUsername s.users username = .ok u ∧
      H.hashPassword c.salt c.password = some u.passwordHash ∧
      ∀ oldPassword, H.verifyPassword u.passwordHash oldPassword = false →
        authenticate H s.users username oldPassword = .error .invalidCredentials

/-- **A changed password stays changed**, in every run in which no login and no change of
the profile saves a row that it loaded before a change of its password. -/
theorem changed_password_stays (H : Hasher) {users : AdminUsers} {p : Pool Frame Store}
    (h : Run (Pool.step (service H)) (fun p turn => savesFresh p turn = true)
      ⟨⟨users, []⟩, []⟩ p) :
    LastPasswordCounts H p.store := by
  intro username c hc
  obtain ⟨u, hu, hname, hhash⟩ := inForce_of_run h username c hc
  have hget := getByUsername_eq_ok.mpr ⟨hu, hname⟩
  refine ⟨u, hget, hhash, fun oldPassword hverify => ?_⟩
  simp [authenticate, hget, hverify]

/-! ### One administrator

A login that is over before the password is changed does no harm.  One that has loaded the
row before and saves it after brings the old password back.
-/

/-- A hasher that puts the salt in front of the password. -/
def saltedHasher : Hasher where
  hashPassword salt password := some (Char.ofNat (48 + salt) :: password)
  verifyPassword passwordHash password := passwordHash.tail == password

private def oneAdmin : AdminUsers :=
  ⟨[⟨1, ['a'], ['0', 'o', 'l', 'd'], [], [], none⟩], 1, by simp, by simp, by simp⟩

private def calmAt (now : Time) : Luck := ⟨false, now, 1⟩

private def newPassword : Change := ⟨['a'], ['n', 'e', 'w'], 1⟩

theorem changed_password_stays_oneAdmin : ∃ p : Pool Frame Store,
    exec (Pool.step (service saltedHasher)) savesFresh ⟨⟨oneAdmin, []⟩, []⟩
      [.start (.login ['a'] ['o', 'l', 'd']), .go 0 (calmAt 1), .go 0 (calmAt 2),
        .start (.changePassword ['a'] ['o', 'l', 'd'] ['n', 'e', 'w']),
        .go 1 (calmAt 3), .go 1 (calmAt 4), .go 1 (calmAt 5)] = some p ∧
      p.store.lastChange ['a'] = some newPassword ∧ LastPasswordCounts saltedHasher p.store := by
  have hview : (exec (Pool.step (service saltedHasher)) savesFresh ⟨⟨oneAdmin, []⟩, []⟩
      [.start (.login ['a'] ['o', 'l', 'd']), .go 0 (calmAt 1), .go 0 (calmAt 2),
        .start (.changePassword ['a'] ['o', 'l', 'd'] ['n', 'e', 'w']),
        .go 1 (calmAt 3), .go 1 (calmAt 4), .go 1 (calmAt 5)]).map
        (fun p => p.store.lastChange ['a']) = some (some newPassword) := rfl
  obtain ⟨p, hp, hlast⟩ := Option.map_eq_some_iff.mp hview
  exact ⟨p, hp, hlast, changed_password_stays saltedHasher (Run.ofExec _ hp)⟩

/-- **A login across the change brings the old password back.** -/
theorem login_restores_old_password : ¬ ∀ (H : Hasher) (users : AdminUsers)
    (p : Pool Frame Store),
    Run (Pool.step (service H)) (fun _ _ => true = true) ⟨⟨users, []⟩, []⟩ p →
      LastPasswordCounts H p.store := by
  intro h
  have hview : (exec (Pool.step (service saltedHasher)) (fun _ _ => true) ⟨⟨oneAdmin, []⟩, []⟩
      [.start (.login ['a'] ['o', 'l', 'd']), .go 0 (calmAt 1),
        .start (.changePassword ['a'] ['o', 'l', 'd'] ['n', 'e', 'w']),
        .go 1 (calmAt 2), .go 1 (calmAt 3), .go 1 (calmAt 4), .go 0 (calmAt 5)]).map
        (fun p => (p.store.lastChange ['a'],
          (authenticate saltedHasher p.store.users ['a'] ['o', 'l', 'd']).toOption.isSome))
      = some (some newPassword, true) := rfl
  obtain ⟨p, hp, heq⟩ := Option.map_eq_some_iff.mp hview
  obtain ⟨hlast, hold⟩ := Prod.mk.inj heq
  obtain ⟨u, -, hhash, hrefused⟩ := h saltedHasher oneAdmin p (Run.ofExec _ hp) ['a'] _ hlast
  have hrow : u.passwordHash = ['1', 'n', 'e', 'w'] := (Option.some.inj hhash).symm
  rw [hrefused ['o', 'l', 'd'] (by rw [hrow]; rfl)] at hold
  cases hold

end FlyMail.Auth
