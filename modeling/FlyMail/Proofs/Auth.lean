/-
What revoking a refresh token ends.

A row once revoked stays so, and a token is exchanged by a request that has revoked it and has not issued
the new pair yet.  If no request revokes a token that is revoked already, there is only one such request for
a token, and if the tokens of a user are not all revoked while there is one, none is overtaken.

Nothing but its end keeps a refresh token from being accepted as an access token.
-/
import FlyMail.Account.Model
import FlyMail.Mail2im.Auth
import Mathlib.Data.List.Nodup

namespace FlyMail.Mail2im.Auth

variable {S : Signer}

/-! ### Refresh tokens as access tokens -/

/-- **A refresh token is accepted as an access token exactly until it expires.** -/
theorem validateAccessToken_refresh {userID : Nat} (huser : userID < 2 ^ 64) (issuedAt now : Nat) :
    validateAccessToken S (generateRefreshToken S userID issuedAt) now =
      if now < (refreshClaims userID issuedAt).expiresAt * second then some userID else none := by
  unfold validateAccessToken parseWithClaims generateRefreshToken
  rw [S.verify_sign, Option.filter_some]
  simp only [decide_eq_true_eq]
  split
  · have hsubject : (refreshClaims userID issuedAt).subject ≠ [] := Nat.toDigits_ne_nil
    rw [Option.bind_some, if_neg hsubject]
    exact Text.parseUint_formatUint huser
  · rfl

/-! ### What is known of a token -/

/-- There is a row of the token, and it is the user's. -/
def Known (S : Signer) (s : State) (raw : Text) (userID : Nat) : Prop :=
  ∃ r ∈ s.tokens, r.tokenHash = S.hashToken raw ∧ r.userID = userID

def Revoked (S : Signer) (s : State) (raw : Text) : Prop :=
  ∃ r ∈ s.tokens, r.tokenHash = S.hashToken raw ∧ r.revoked = true

/-- The token that the request is about to exchange. -/
def Frame.exchanges : Frame → Option Text
  | .issuing _ raw => raw
  | _ => none

/-- What a request knows. -/
def Knows (S : Signer) : Frame → State → Prop
  | .validated raw userID, s => Known S s raw userID
  | .found raw userID, s => Known S s raw userID
  | .issuing userID (some raw), s =>
      Known S s raw userID ∧ Revoked S s raw ∧ raw ∉ s.exchanged.map Prod.fst ∧ raw ∉ s.overtaken
  | _, _ => True

/-- What the journals and the rows have to do with each other. -/
structure Sound (S : Signer) (s : State) : Prop where
  rows : (s.tokens.map RefreshToken.tokenHash).Nodup
  issued : ∀ t ∈ s.issued, Known S s t.2 t.1
  overtaken : ∀ raw ∈ s.overtaken, Revoked S s raw
  spent : ∀ e ∈ s.exchanged, Revoked S s e.1
  once : (s.exchanged.map Prod.fst).Nodup
  before : ∀ e ∈ s.exchanged, e.2 = false
  accepted : ∀ e ∈ s.accepted, e.2 = false

/-- No row goes, and none that is revoked is revived. -/
def Later (s s' : State) : Prop :=
  ∀ r ∈ s.tokens, ∃ r' ∈ s'.tokens, r'.tokenHash = r.tokenHash ∧ r'.userID = r.userID ∧ (r.revoked = true → r'.revoked = true)

variable {s s' : State}

theorem Known.later {raw : Text} {userID : Nat} (h : Known S s raw userID) (hlater : Later s s') :
    Known S s' raw userID := by
  obtain ⟨r, hr, hhash, huser⟩ := h
  obtain ⟨r', hr', hhash', huser', -⟩ := hlater r hr
  exact ⟨r', hr', hhash'.trans hhash, huser'.trans huser⟩

theorem Revoked.later {raw : Text} (h : Revoked S s raw) (hlater : Later s s') : Revoked S s' raw := by
  obtain ⟨r, hr, hhash, hrevoked⟩ := h
  obtain ⟨r', hr', hhash', -, hkeep⟩ := hlater r hr
  exact ⟨r', hr', hhash'.trans hhash, hkeep hrevoked⟩

/-- A token belongs to one user. -/
theorem Known.unique {raw : Text} {u v : Nat} (hrows : (s.tokens.map RefreshToken.tokenHash).Nodup) (hu : Known S s raw u)
    (hv : Known S s raw v) : u = v := by
  obtain ⟨a, ha, hahash, rfl⟩ := hu
  obtain ⟨b, hb, hbhash, rfl⟩ := hv
  rw [List.inj_on_of_nodup_map hrows ha hb (hahash.trans hbhash.symm)]

theorem sound_noTokens (users : List Nat) : Sound S (noTokens users) where
  rows := List.nodup_nil
  issued _ h := absurd h List.not_mem_nil
  overtaken _ h := absurd h List.not_mem_nil
  spent _ h := absurd h List.not_mem_nil
  once := List.nodup_nil
  before _ h := absurd h List.not_mem_nil
  accepted _ h := absurd h List.not_mem_nil

/-! ### The operations -/

theorem later_revoke (raw : Text) : Later s (revokeRefreshToken S s raw) := by
  intro r hr
  refine ⟨_, List.mem_map.mpr ⟨r, hr, rfl⟩, ?_⟩
  split
  · exact ⟨rfl, rfl, fun _ => rfl⟩
  · exact ⟨rfl, rfl, id⟩

theorem later_revokeAll (userID : Nat) : Later s (revokeAllRefreshTokensForUser s userID) := by
  intro r hr
  refine ⟨_, List.mem_map.mpr ⟨r, hr, rfl⟩, ?_⟩
  split
  · exact ⟨rfl, rfl, fun _ => rfl⟩
  · exact ⟨rfl, rfl, id⟩

/-- Changing rows but not their hashes. -/
theorem Sound.rows_map (h : Sound S s) {f : RefreshToken → RefreshToken} (hf : ∀ r, (f r).tokenHash = r.tokenHash) :
    ((s.tokens.map f).map RefreshToken.tokenHash).Nodup := by
  rw [List.map_map]
  have hsame : RefreshToken.tokenHash ∘ f = RefreshToken.tokenHash := funext hf
  rw [hsame]
  exact h.rows

theorem Sound.revoke (h : Sound S s) (raw : Text) : Sound S (revokeRefreshToken S s raw) where
  rows := h.rows_map fun r => by split <;> rfl
  issued t ht := (h.issued t ht).later (later_revoke raw)
  overtaken t ht := (h.overtaken t ht).later (later_revoke raw)
  spent e he := (h.spent e he).later (later_revoke raw)
  once := h.once
  before := h.before
  accepted := h.accepted

/-- The token that is revoked. -/
theorem revoked_revoke {raw : Text} {userID : Nat} (h : Known S s raw userID) :
    Revoked S (revokeRefreshToken S s raw) raw := by
  obtain ⟨r, hr, hhash, -⟩ := h
  refine ⟨_, List.mem_map.mpr ⟨r, hr, rfl⟩, ?_⟩
  rw [if_pos hhash]
  exact ⟨hhash, rfl⟩

theorem Sound.revokeAll (h : Sound S s) (userID : Nat) : Sound S (revokeAllRefreshTokensForUser s userID) where
  rows := h.rows_map fun r => by split <;> rfl
  issued t ht := (h.issued t ht).later (later_revokeAll userID)
  overtaken t ht := by
    rcases List.mem_append.mp ht with hold | hnew
    · exact (h.overtaken t hold).later (later_revokeAll userID)
    · obtain ⟨⟨u, raw⟩, hissued, rfl⟩ := List.mem_map.mp hnew
      obtain ⟨hissued, hu⟩ := List.mem_filter.mp hissued
      obtain ⟨r, hr, hhash, huser⟩ := h.issued _ hissued
      refine ⟨_, List.mem_map.mpr ⟨r, hr, rfl⟩, ?_⟩
      rw [if_pos (huser.trans (beq_iff_eq.mp hu))]
      exact ⟨hhash, rfl⟩
  spent e he := (h.spent e he).later (later_revokeAll userID)
  once := h.once
  before := h.before
  accepted := h.accepted

/-- What issuing a pair does: nothing, or a new row and, if it was an exchange, an entry for it. -/
structure Issues (S : Signer) (s s' : State) (raw : Option Text) : Prop where
  later : Later s s'
  overtaken : s'.overtaken = s.overtaken
  exchanged : s'.exchanged = s.exchanged ∨
    ∃ r, raw = some r ∧ s'.exchanged = s.exchanged ++ [(r, s.overtaken.contains r)]

theorem saveRefreshToken_some {userID expiresAt : Nat} {token : Text}
    (h : saveRefreshToken S s userID token expiresAt = some s') :
    (∀ r ∈ s.tokens, r.tokenHash ≠ S.hashToken token) ∧
      s' = { s with
        tokens := s.tokens ++ [⟨userID, S.hashToken token, expiresAt, false⟩]
        issued := s.issued ++ [(userID, token)] } := by
  unfold saveRefreshToken at h
  split at h
  · exact absurd h.symm (Option.some_ne_none _)
  · rename_i hnew
    refine ⟨fun r hr heq => hnew (List.any_eq_true.mpr ⟨r, hr, ?_⟩), (Option.some.inj h).symm⟩
    exact beq_iff_eq.mpr heq

theorem issueTokenPair_issues (s : State) (userID : Nat) (raw : Option Text) (now : Nat) :
    Issues S s (issueTokenPair S s userID raw now) raw := by
  unfold issueTokenPair
  cases hsave : saveRefreshToken S s userID (generateRefreshToken S userID now) (now + refreshTokenTTL) with
  | none => exact ⟨fun r hr => ⟨r, hr, rfl, rfl, id⟩, rfl, Or.inl rfl⟩
  | some s₁ =>
      obtain ⟨-, rfl⟩ := saveRefreshToken_some hsave
      have hlater (r : RefreshToken) (hr : r ∈ s.tokens) (more : List RefreshToken) :
          ∃ r' ∈ s.tokens ++ more, r'.tokenHash = r.tokenHash ∧ r'.userID = r.userID ∧ (r.revoked = true → r'.revoked = true) :=
        ⟨r, List.mem_append_left _ hr, rfl, rfl, id⟩
      cases raw with
      | none => exact ⟨fun r hr => hlater r hr _, rfl, Or.inl rfl⟩
      | some raw => exact ⟨fun r hr => hlater r hr _, rfl, Or.inr ⟨raw, rfl, rfl⟩⟩

/-- The rows and the entries of issued tokens stay sound. -/
theorem issueTokenPair_rows (h : Sound S s) (userID : Nat) (raw : Option Text) (now : Nat) :
    ((issueTokenPair S s userID raw now).tokens.map RefreshToken.tokenHash).Nodup ∧
      (∀ t ∈ (issueTokenPair S s userID raw now).issued, Known S (issueTokenPair S s userID raw now) t.2 t.1) ∧
      (issueTokenPair S s userID raw now).accepted = s.accepted := by
  unfold issueTokenPair
  cases hsave : saveRefreshToken S s userID (generateRefreshToken S userID now) (now + refreshTokenTTL) with
  | none => exact ⟨h.rows, h.issued, rfl⟩
  | some s₁ =>
      obtain ⟨hnew, rfl⟩ := saveRefreshToken_some hsave
      have hrows : ((s.tokens ++ [(⟨userID, S.hashToken (generateRefreshToken S userID now), now + refreshTokenTTL,
          false⟩ : RefreshToken)]).map RefreshToken.tokenHash).Nodup := by
        rw [List.map_append]
        refine List.nodup_append.mpr ⟨h.rows, List.nodup_singleton _, fun a ha b hb => ?_⟩
        obtain ⟨r, hr, rfl⟩ := List.mem_map.mp ha
        rw [List.mem_singleton.mp hb]
        exact hnew r hr
      have hissued : ∀ t ∈ s.issued ++ [(userID, generateRefreshToken S userID now)],
          ∃ r ∈ s.tokens ++ [(⟨userID, S.hashToken (generateRefreshToken S userID now), now + refreshTokenTTL,
            false⟩ : RefreshToken)], r.tokenHash = S.hashToken t.2 ∧ r.userID = t.1 := by
        intro t ht
        rcases List.mem_append.mp ht with hold | hone
        · obtain ⟨r, hr, hkey⟩ := h.issued t hold
          exact ⟨r, List.mem_append_left _ hr, hkey⟩
        · rw [List.mem_singleton.mp hone]
          exact ⟨_, List.mem_append_right _ (List.mem_singleton.mpr rfl), rfl, rfl⟩
      cases raw with
      | none => exact ⟨hrows, hissued, rfl⟩
      | some raw => exact ⟨hrows, hissued, rfl⟩

theorem Sound.issue (h : Sound S s) (userID : Nat) {raw : Option Text} (now : Nat)
    (hknows : Knows S (.issuing userID raw) s) : Sound S (issueTokenPair S s userID raw now) := by
  obtain ⟨hlater, hovertaken, hexchanged⟩ := issueTokenPair_issues (S := S) s userID raw now
  obtain ⟨hrows, hissued, haccepted⟩ := issueTokenPair_rows h userID raw now
  refine ⟨hrows, hissued, fun t ht => ?_, ?_, ?_, ?_, fun e he => h.accepted e (haccepted ▸ he)⟩
  · rw [hovertaken] at ht
    exact (h.overtaken t ht).later hlater
  · intro e he
    rcases hexchanged with hsame | ⟨r, rfl, hone⟩
    · exact (h.spent e (hsame ▸ he)).later hlater
    · rw [hone] at he
      rcases List.mem_append.mp he with hold | hnew
      · exact (h.spent e hold).later hlater
      · rw [List.mem_singleton.mp hnew]
        exact hknows.2.1.later hlater
  · rcases hexchanged with hsame | ⟨r, rfl, hone⟩
    · rw [hsame]
      exact h.once
    · rw [hone, List.map_append]
      refine List.nodup_append.mpr ⟨h.once, List.nodup_singleton _, fun a ha b hb heq => ?_⟩
      rw [heq, List.mem_singleton.mp hb] at ha
      exact hknows.2.2.1 ha
  · intro e he
    rcases hexchanged with hsame | ⟨r, rfl, hone⟩
    · exact h.before e (hsame ▸ he)
    · rw [hone] at he
      rcases List.mem_append.mp he with hold | hnew
      · exact h.before e hold
      · rw [List.mem_singleton.mp hnew]
        exact Bool.eq_false_iff.mpr fun htrue => hknows.2.2.2 (List.contains_iff_mem.mp htrue)

/-! ### Requests under way -/

/-- The requests know what they act on, and no two of them exchange one token. -/
structure Inv (S : Signer) (p : Pool Frame State) : Prop where
  sound : Sound S p.store
  knows : ∀ (i : Nat) f, p.calls[i]? = some f → Knows S f p.store
  alone : ∀ (i j : Nat) f g raw, p.calls[i]? = some f → p.calls[j]? = some g → f.exchanges = some raw →
    g.exchanges = some raw → i = j

variable {p q : Pool Frame State}

/-- A request goes on, and what it needs is known. -/
theorem Inv.goOn (hp : Inv S p) {i : Nat} {f' : Frame} (hsound : Sound S s') (hknows : Knows S f' s')
    (hothers : ∀ (j : Nat) g, j ≠ i → p.calls[j]? = some g → Knows S g s')
    (halone : ∀ raw, f'.exchanges = some raw → ∀ (j : Nat) g, j ≠ i → p.calls[j]? = some g → g.exchanges ≠ some raw) :
    Inv S (p.goOn i s' f') where
  sound := hsound
  knows j g hg := by
    rcases Pool.getElem?_goOn hg with ⟨-, rfl⟩ | ⟨hj, hold⟩
    · exact hknows
    · exact hothers j g hj hold
  alone j k g g' raw hg hg' hraw hraw' := by
    rcases Pool.getElem?_goOn hg with ⟨rfl, rfl⟩ | ⟨hj, hold⟩
    · rcases Pool.getElem?_goOn hg' with ⟨rfl, -⟩ | ⟨hk, hold'⟩
      · rfl
      · exact absurd hraw' (halone raw hraw k g' hk hold')
    · rcases Pool.getElem?_goOn hg' with ⟨rfl, rfl⟩ | ⟨-, hold'⟩
      · exact absurd hraw (halone raw hraw' j g hj hold)
      · exact hp.alone j k g g' raw hold hold' hraw hraw'

/-- A request goes on without touching the tokens. -/
theorem Inv.goOn_same (hp : Inv S p) {i : Nat} {f' : Frame} (hknows : Knows S f' p.store) (hnone : f'.exchanges = none) :
    Inv S (p.goOn i p.store f') :=
  hp.goOn hp.sound hknows (fun j g _ hg => hp.knows j g hg) fun raw hraw =>
    absurd (hnone.symm.trans hraw).symm (Option.some_ne_none raw)

/-- What a request knows lasts as long as its token is not exchanged by another and not overtaken. -/
theorem Knows.later {f : Frame} (h : Knows S f s) (hlater : Later s s')
    (hexchanged : ∀ raw, f.exchanges = some raw → raw ∉ s.exchanged.map Prod.fst → raw ∉ s'.exchanged.map Prod.fst)
    (hovertaken : ∀ raw userID, f = .issuing userID (some raw) → raw ∉ s.overtaken → raw ∉ s'.overtaken) :
    Knows S f s' := by
  cases f with
  | validated raw userID => exact Known.later h hlater
  | found raw userID => exact Known.later h hlater
  | issuing userID raw =>
      cases raw with
      | none => trivial
      | some raw =>
          exact ⟨h.1.later hlater, h.2.1.later hlater, hexchanged raw rfl h.2.2.1, hovertaken raw userID rfl h.2.2.2⟩
  | login userID => trivial
  | refreshToken raw => trivial
  | updating userID thenIssue => trivial
  | revokingAll userID thenIssue => trivial
  | authMiddleware raw => trivial
  | done => trivial

/-- No token is revoked that has been revoked since it was found valid, the tokens of a user are not all revoked
while one of them is being exchanged, and a refresh token is tried as an access token only when it has expired. -/
def InTime (S : Signer) (p : Pool Frame State) : Turn Request Luck Empty → Prop
  | .go i luck => ∀ f, p.calls[i]? = some f →
      (∀ raw userID, f = .found raw userID → ∀ r ∈ p.store.tokens, r.tokenHash = S.hashToken raw → r.revoked = false) ∧
      (∀ userID thenIssue, f = .revokingAll userID thenIssue → ∀ raw, .issuing userID (some raw) ∉ p.calls) ∧
      (∀ raw, f = .authMiddleware raw → raw ∈ p.store.issued.map Prod.snd → ∀ c, S.verify raw = some c →
        c.expiresAt * second ≤ luck.now)
  | _ => True

theorem validateRefreshToken_known {raw : Text} {now : Nat} {r : RefreshToken}
    (h : validateRefreshToken S s raw now = some r) : Known S s raw r.userID := by
  unfold validateRefreshToken at h
  cases hfind : s.tokens.find? fun r => r.tokenHash == S.hashToken raw with
  | none =>
      rw [hfind] at h
      exact absurd h.symm (Option.some_ne_none r)
  | some token =>
      rw [hfind] at h
      simp only at h
      split at h
      · exact absurd h.symm (Option.some_ne_none r)
      split at h
      · exact absurd h.symm (Option.some_ne_none r)
      split at h
      · exact absurd h.symm (Option.some_ne_none r)
      split at h
      · obtain rfl := Option.some.inj h
        have hhash := List.find?_some hfind
        exact ⟨_, List.mem_of_find?_eq_some hfind, beq_iff_eq.mp hhash, rfl⟩
      · exact absurd h.symm (Option.some_ne_none r)

/-- The request revokes its token; it is the only one to do so. -/
theorem Inv.revoke (hp : Inv S p) {i : Nat} {raw : Text} {userID : Nat} (hi : p.calls[i]? = some (.found raw userID))
    (hok : ∀ r ∈ p.store.tokens, r.tokenHash = S.hashToken raw → r.revoked = false) :
    Inv S (p.goOn i (revokeRefreshToken S p.store raw) (.issuing userID (some raw))) := by
  have hknown : Known S p.store raw userID := hp.knows i _ hi
  have hlive : ¬ Revoked S p.store raw := by
    rintro ⟨r, hr, hhash, hrevoked⟩
    exact Bool.eq_false_iff.mp (hok r hr hhash) hrevoked
  refine hp.goOn (hp.sound.revoke raw) ?_ (fun j g _ hg => ?_) fun raw' hraw' j g _ hg hg' => ?_
  · refine ⟨hknown.later (later_revoke raw), revoked_revoke hknown, fun hspent => ?_, fun hovertaken => ?_⟩
    · obtain ⟨e, he, rfl⟩ := List.mem_map.mp hspent
      exact hlive (hp.sound.spent e he)
    · exact hlive (hp.sound.overtaken raw hovertaken)
  · exact (hp.knows j g hg).later (later_revoke raw) (fun _ _ h => h) fun _ _ _ h => h
  · obtain rfl := Option.some.inj hraw'
    cases g with
    | issuing v r =>
        obtain rfl : r = some raw := hg'
        exact hlive (hp.knows j _ hg).2.1
    | _ => exact absurd hg'.symm (Option.some_ne_none raw)

theorem Inv.revokeAll (hp : Inv S p) {i : Nat} {userID : Nat} {f' : Frame} (hf' : f'.exchanges = none)
    (hknows : Knows S f' (revokeAllRefreshTokensForUser p.store userID))
    (hok : ∀ raw, .issuing userID (some raw) ∉ p.calls) :
    Inv S (p.goOn i (revokeAllRefreshTokensForUser p.store userID) f') := by
  refine hp.goOn (hp.sound.revokeAll userID) hknows (fun j g _ hg => ?_) fun raw hraw =>
    absurd (hf'.symm.trans hraw).symm (Option.some_ne_none raw)
  refine (hp.knows j g hg).later (later_revokeAll userID) (fun _ _ h => h) fun raw v hg' hold hnew => ?_
  rcases List.mem_append.mp hnew with hthere | hlisted
  · exact hold hthere
  · obtain ⟨⟨u, raw'⟩, hfiltered, rfl⟩ := List.mem_map.mp hlisted
    obtain ⟨hissued, hu⟩ := List.mem_filter.mp hfiltered
    obtain rfl : u = userID := beq_iff_eq.mp hu
    subst hg'
    have hv : Known S p.store raw' v := (hp.knows j _ hg).1
    obtain rfl := Known.unique hp.sound.rows (hp.sound.issued _ hissued) hv
    exact hok raw' (List.mem_of_getElem? hg)

theorem Inv.issue (hp : Inv S p) {i : Nat} {userID : Nat} {raw : Option Text} (hi : p.calls[i]? = some (.issuing userID raw))
    (now : Nat) : Inv S (p.goOn i (issueTokenPair S p.store userID raw now) .done) := by
  obtain ⟨hlater, hovertaken, hexchanged⟩ := issueTokenPair_issues (S := S) p.store userID raw now
  refine hp.goOn (hp.sound.issue userID now (hp.knows i _ hi)) trivial (fun j g hj hg => ?_) fun raw hraw =>
    absurd hraw.symm (Option.some_ne_none raw)
  refine (hp.knows j g hg).later hlater (fun raw' hraw' hfresh => ?_) fun raw' v _ hfresh => hovertaken ▸ hfresh
  rcases hexchanged with hsame | ⟨r, rfl, hone⟩
  · rw [hsame]
    exact hfresh
  · rw [hone, List.map_append]
    intro hmem
    rcases List.mem_append.mp hmem with hold | hnew
    · exact hfresh hold
    · obtain rfl : raw' = r := List.mem_singleton.mp hnew
      exact hj (hp.alone j i g _ raw' hg hi hraw' rfl)

/-- An accepted access token, that is no refresh token unless it has expired. -/
theorem Sound.accept (h : Sound S s) {raw : Text} {now userID : Nat} (haccepted : validateAccessToken S raw now = some userID)
    (hok : raw ∈ s.issued.map Prod.snd → ∀ c, S.verify raw = some c → c.expiresAt * second ≤ now) :
    Sound S { s with accepted := s.accepted ++ [(raw, (s.issued.map Prod.snd).contains raw)] } where
  rows := h.rows
  issued := h.issued
  overtaken := h.overtaken
  spent := h.spent
  once := h.once
  before := h.before
  accepted e he := by
    rcases List.mem_append.mp he with hold | hnew
    · exact h.accepted e hold
    · rw [List.mem_singleton.mp hnew]
      refine Bool.eq_false_iff.mpr fun hissued => ?_
      obtain ⟨claims, hclaims, -⟩ := Option.bind_eq_some_iff.mp haccepted
      obtain ⟨hverify, hlive⟩ := Option.filter_eq_some_iff.mp hclaims
      have hexpired := hok (List.contains_iff_mem.mp hissued) claims hverify
      exact Nat.not_lt.mpr hexpired (of_decide_eq_true hlive)

theorem Inv.next {i : Nat} {luck : Luck} {f f' : Frame} {s' : State} (hp : Inv S p) (hok : InTime S p (.go i luck))
    (hi : p.calls[i]? = some f) (hnext : next S luck f p.store = some (s', f')) : Inv S (p.goOn i s' f') := by
  obtain ⟨hrevoke, hrevokeAll, haccess⟩ := hok f hi
  cases f with
  | login userID =>
      obtain ⟨rfl, rfl⟩ := Prod.mk.inj (Option.some.inj hnext)
      split
      · exact hp.goOn_same trivial rfl
      · exact hp.goOn_same trivial rfl
  | refreshToken raw =>
      simp only [Auth.next] at hnext
      split at hnext
      · obtain ⟨rfl, rfl⟩ := Prod.mk.inj (Option.some.inj hnext)
        exact hp.goOn_same trivial rfl
      · rename_i r hvalid
        obtain ⟨rfl, rfl⟩ := Prod.mk.inj (Option.some.inj hnext)
        split at hvalid
        · exact hp.goOn_same (validateRefreshToken_known hvalid) rfl
        · exact absurd hvalid.symm (Option.some_ne_none r)
  | validated raw userID =>
      obtain ⟨rfl, rfl⟩ := Prod.mk.inj (Option.some.inj hnext)
      have hknown : Known S p.store raw userID := hp.knows i _ hi
      split
      · exact hp.goOn_same hknown rfl
      · exact hp.goOn_same trivial rfl
  | found raw userID =>
      simp only [Auth.next] at hnext
      split at hnext
      · obtain ⟨rfl, rfl⟩ := Prod.mk.inj (Option.some.inj hnext)
        exact hp.revoke hi (hrevoke raw userID rfl)
      · obtain ⟨rfl, rfl⟩ := Prod.mk.inj (Option.some.inj hnext)
        exact hp.goOn_same trivial rfl
  | issuing userID raw =>
      obtain ⟨rfl, rfl⟩ := Prod.mk.inj (Option.some.inj hnext)
      split
      · exact hp.issue hi luck.now
      · exact hp.goOn_same trivial rfl
  | updating userID thenIssue =>
      obtain ⟨rfl, rfl⟩ := Prod.mk.inj (Option.some.inj hnext)
      split
      · exact hp.goOn_same trivial rfl
      · exact hp.goOn_same trivial rfl
  | revokingAll userID thenIssue =>
      simp only [Auth.next] at hnext
      split at hnext
      · obtain ⟨rfl, rfl⟩ := Prod.mk.inj (Option.some.inj hnext)
        split
        · exact hp.revokeAll rfl trivial (hrevokeAll userID thenIssue rfl)
        · exact hp.revokeAll rfl trivial (hrevokeAll userID thenIssue rfl)
      · obtain ⟨rfl, rfl⟩ := Prod.mk.inj (Option.some.inj hnext)
        exact hp.goOn_same trivial rfl
  | authMiddleware raw =>
      simp only [Auth.next] at hnext
      split at hnext
      · obtain ⟨rfl, rfl⟩ := Prod.mk.inj (Option.some.inj hnext)
        exact hp.goOn_same trivial rfl
      · rename_i userID haccepted
        obtain ⟨rfl, rfl⟩ := Prod.mk.inj (Option.some.inj hnext)
        refine hp.goOn (hp.sound.accept haccepted (haccess raw rfl)) trivial (fun j g _ hg => ?_) fun raw' hraw' =>
          absurd hraw'.symm (Option.some_ne_none raw')
        exact (hp.knows j g hg).later (fun r hr => ⟨r, hr, rfl, rfl, id⟩) (fun _ _ h => h) fun _ _ _ h => h
  | done => exact absurd hnext.symm (Option.some_ne_none _)

theorem Inv.step {turn : Turn Request Luck Empty} (hp : Inv S p) (hok : InTime S p turn)
    (hstep : p.step (service S) turn = some q) : Inv S q := by
  cases turn with
  | start r =>
      obtain rfl := Option.some.inj hstep
      have hnew : Knows S (enter r) p.store ∧ (enter r).exchanges = none := by
        cases r with
        | login userID => exact ⟨trivial, rfl⟩
        | refreshToken raw => exact ⟨trivial, rfl⟩
        | updateProfile userID => exact ⟨trivial, rfl⟩
        | resetDefaultUserPassword userID => exact ⟨trivial, rfl⟩
        | authMiddleware raw => exact ⟨trivial, rfl⟩
      have hcalls {j : Nat} {g : Frame} (hg : (p.calls ++ [enter r])[j]? = some g) :
          p.calls[j]? = some g ∨ g = enter r := by
        rcases Nat.lt_or_ge j p.calls.length with hlt | hge
        · rw [List.getElem?_append_left hlt] at hg
          exact Or.inl hg
        · rw [List.getElem?_append_right hge] at hg
          exact Or.inr (List.mem_singleton.mp (List.mem_of_getElem? hg))
      have hone {raw : Text} : (enter r).exchanges ≠ some raw := by
        rw [hnew.2]
        exact fun h => Option.some_ne_none raw h.symm
      refine ⟨hp.sound, fun j g hg => ?_, fun j k g g' raw hg hg' hraw hraw' => ?_⟩
      · rcases hcalls hg with hold | rfl
        · exact hp.knows j g hold
        · exact hnew.1
      · rcases hcalls hg with hold | rfl
        · rcases hcalls hg' with hold' | rfl
          · exact hp.alone j k g g' raw hold hold' hraw hraw'
          · exact absurd hraw' hone
        · exact absurd hraw hone
  | go i luck =>
      obtain ⟨f, s', f', hi, hnext, rfl⟩ := Pool.step_go hstep
      exact hp.next hok hi hnext
  | outside e => exact nomatch e

/-- Every refresh token is exchanged at most once, none after it was overtaken, and none is accepted as an access
token. -/
structure Rotates (s : State) : Prop where
  once : (s.exchanged.map Prod.fst).Nodup
  before : ∀ e ∈ s.exchanged, e.2 = false
  accepted : ∀ e ∈ s.accepted, e.2 = false

/-- **Refresh tokens rotate**, over runs in time. -/
theorem refresh_tokens_rotate {users : List Nat}
    (h : Run (Pool.step (service S)) (InTime S) ⟨noTokens users, []⟩ q) : Rotates q.store := by
  have hinv : Inv S q := by
    refine h.invariant (fun p turn q hp hok hstep => hp.step hok hstep) ⟨sound_noTokens users, ?_, ?_⟩
    · exact fun i f hf => absurd (List.mem_of_getElem? hf) List.not_mem_nil
    · exact fun i j f g raw hf => absurd (List.mem_of_getElem? hf) List.not_mem_nil
  exact ⟨hinv.sound.once, hinv.sound.before, hinv.sound.accepted⟩

section Example

open FlyMail.Account (pack unpack unpack_pack)

private def read (t : Text) : Nat := Nat.ofDigitChars 10 t 0

private theorem read_formatUint (n : Nat) : read (Text.formatUint n) = n := Nat.ofDigitChars_ten_toDigits

/-- The claims one after another. -/
private def unsigned : Signer where
  sign c := pack c.subject ++ (pack (Text.formatUint c.expiresAt) ++ (pack (Text.formatUint c.issuedAt) ++ pack c.id))
  verify raw := do
    let (subject, raw) ← unpack raw
    let (expiresAt, raw) ← unpack raw
    let (issuedAt, raw) ← unpack raw
    let (id, _) ← unpack raw
    return ⟨subject, read expiresAt, read issuedAt, id⟩
  verify_sign c := by
    have hlast : unpack (pack c.id) = some (c.id, []) := by
      simpa using unpack_pack c.id []
    simp [unpack_pack, hlast, read_formatUint]
  hashToken := id

private def given : Text := generateRefreshToken unsigned 1 0

/-- Two requests with one token, which both find it valid. -/
theorem refresh_token_exchanged_twice :
    ∃ q, exec (Pool.step (service unsigned)) (fun _ _ => true) ⟨noTokens [1], []⟩
        ([.start (.login 1), .go 0 ⟨0, true⟩, .go 0 ⟨0, true⟩, .start (.refreshToken given), .start (.refreshToken given)] ++
          [.go 1 ⟨5, true⟩, .go 2 ⟨5, true⟩, .go 1 ⟨5, true⟩, .go 2 ⟨5, true⟩, .go 1 ⟨5, true⟩, .go 2 ⟨5, true⟩] ++
          [.go 1 ⟨6, true⟩, .go 2 ⟨7, true⟩]) = some q ∧ ¬ Rotates q.store := by
  have hrun : (exec (Pool.step (service unsigned)) (fun _ _ => true) ⟨noTokens [1], []⟩
      ([.start (.login 1), .go 0 ⟨0, true⟩, .go 0 ⟨0, true⟩, .start (.refreshToken given), .start (.refreshToken given)] ++
        [.go 1 ⟨5, true⟩, .go 2 ⟨5, true⟩, .go 1 ⟨5, true⟩, .go 2 ⟨5, true⟩, .go 1 ⟨5, true⟩, .go 2 ⟨5, true⟩] ++
        [.go 1 ⟨6, true⟩, .go 2 ⟨7, true⟩])).map (fun q => q.store.exchanged) = some [(given, false), (given, false)] := by
    decide +kernel
  obtain ⟨q, hq, hexchanged⟩ := Option.map_eq_some_iff.mp hrun
  refine ⟨q, hq, fun h => ?_⟩
  have honce := h.once
  rw [hexchanged] at honce
  exact (List.nodup_cons.mp honce).1 (List.mem_singleton.mpr rfl)

private def rowOf (revoked : Bool) : RefreshToken := ⟨1, given, refreshTokenTTL, revoked⟩

/-- Somebody has logged in; perhaps the token is being exchanged already. -/
private def loggedIn (revoked : Bool) : State := ⟨[1], [rowOf revoked], [(1, given)], [], [], []⟩

private theorem inTime_of {p : Pool Frame State} {i : Nat} {luck : Luck} {f : Frame} (hf : p.calls[i]? = some f)
    (hrevoke : ∀ raw userID, f = .found raw userID → ∀ r ∈ p.store.tokens, r.tokenHash = raw → r.revoked = false)
    (hrevokeAll : ∀ userID thenIssue, f ≠ .revokingAll userID thenIssue) (haccess : ∀ raw, f ≠ .authMiddleware raw) :
    InTime unsigned p (.go i luck) := by
  intro g hg
  obtain rfl := Option.some.inj (hf.symm.trans hg)
  exact ⟨hrevoke, fun u b h => absurd h (hrevokeAll u b), fun raw h => absurd h (haccess raw)⟩

private theorem inTime_of_not {p : Pool Frame State} {i : Nat} {luck : Luck} {f : Frame} (hf : p.calls[i]? = some f)
    (hrevoke : ∀ raw userID, f ≠ .found raw userID) (hrevokeAll : ∀ userID thenIssue, f ≠ .revokingAll userID thenIssue)
    (haccess : ∀ raw, f ≠ .authMiddleware raw) : InTime unsigned p (.go i luck) :=
  inTime_of hf (fun raw u h => absurd h (hrevoke raw u)) hrevokeAll haccess

theorem refresh_tokens_rotate_once :
    ∃ q, Rotates q ∧ q.exchanged = [(given, false)] ∧ q.tokens.map RefreshToken.revoked = [true, false] := by
  have hlogin : Run (Pool.step (service unsigned)) (InTime unsigned) ⟨noTokens [1], []⟩ ⟨loggedIn false, [.done]⟩ := by
    refine .tail (.tail (.tail .refl (a := .start (.login 1)) trivial rfl) (a := .go 0 ⟨0, true⟩) ?_ rfl)
      (a := .go 0 ⟨0, true⟩) ?_ rfl
    · exact inTime_of_not rfl (fun _ _ => Frame.noConfusion) (fun _ _ => Frame.noConfusion) fun _ => Frame.noConfusion
    · exact inTime_of_not rfl (fun _ _ => Frame.noConfusion) (fun _ _ => Frame.noConfusion) fun _ => Frame.noConfusion
  have hfound : Run (Pool.step (service unsigned)) (InTime unsigned) ⟨noTokens [1], []⟩
      ⟨loggedIn false, [.done, .found given 1]⟩ := by
    refine .tail (.tail (.tail hlogin (a := .start (.refreshToken given)) trivial rfl) (a := .go 1 ⟨5, true⟩)
      (u := ⟨loggedIn false, [.done, .validated given 1]⟩) ?_ ?_) (a := .go 1 ⟨5, true⟩) ?_ rfl
    · exact inTime_of_not rfl (fun _ _ => Frame.noConfusion) (fun _ _ => Frame.noConfusion) fun _ => Frame.noConfusion
    · decide +kernel
    · exact inTime_of_not rfl (fun _ _ => Frame.noConfusion) (fun _ _ => Frame.noConfusion) fun _ => Frame.noConfusion
  have hrevoked : Run (Pool.step (service unsigned)) (InTime unsigned) ⟨noTokens [1], []⟩
      ⟨loggedIn true, [.done, .issuing 1 (some given)]⟩ := by
    refine .tail hfound (a := .go 1 ⟨5, true⟩) ?_ (by decide +kernel)
    refine inTime_of rfl (fun raw u _ r hr _ => ?_) (fun _ _ => Frame.noConfusion) fun _ => Frame.noConfusion
    rw [List.mem_singleton.mp hr]
    rfl
  have hlast : InTime unsigned ⟨loggedIn true, [.done, .issuing 1 (some given)]⟩ (.go 1 ⟨second, true⟩) :=
    inTime_of_not rfl (fun _ _ => Frame.noConfusion) (fun _ _ => Frame.noConfusion) fun _ => Frame.noConfusion
  exact ⟨issueTokenPair unsigned (loggedIn true) 1 (some given) second, refresh_tokens_rotate (hrevoked.tail hlast rfl),
    by decide +kernel, by decide +kernel⟩

end Example

end FlyMail.Mail2im.Auth
