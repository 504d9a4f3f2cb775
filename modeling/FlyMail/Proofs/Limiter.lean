/-
How many passwords an address can try.

A failure is verified first and counted later.  What is kept along a run is the account
of both (`Counted`): the failures counted in the open window, the ones verified and still
to be counted, and the requests that may yet fail.  Within a window the passwords that
failed are the counted ones and the ones still to be counted, so it is enough that these,
and the requests still being verified, are never more than `loginMaxFailures`.

The check does not see the requests on their way.  Eleven of them that ask before the
first failure is counted all pass (`eleven_at_once`).
-/
import FlyMail.Auth.Limiter

namespace FlyMail.Auth.Limiter

/-! ### The account of one address -/

/-- When the row's window is over. -/
def closes (row : Option LoginAttempt) : Nat :=
  match row with
  | none => 0
  | some a => a.windowStart + loginWindow

/-- How many of the times are `t` or later. -/
def since (times : List Nat) (t : Nat) : Nat := times.countP fun e => decide (t ≤ e)

/-- How many of the times lie in the window opened at `t`. -/
def within (times : List Nat) (t : Nat) : Nat :=
  times.countP fun e => decide (t ≤ e) && decide (e < t + loginWindow)

theorem within_le_since (times : List Nat) (t : Nat) : within times t ≤ since times t := by
  refine List.countP_mono_left fun e _ h => ?_
  simp only [Bool.and_eq_true] at h
  exact h.1

theorem since_anti {times : List Nat} {t u : Nat} (h : t ≤ u) :
    since times u ≤ since times t := by
  refine List.countP_mono_left fun e _ he => ?_
  simp only [decide_eq_true_eq] at he ⊢
  omega

theorem since_concat (times : List Nat) (e t : Nat) :
    since (times ++ [e]) t = since times t + if t ≤ e then 1 else 0 := by
  simp [since, List.countP_append, List.countP_cons]

theorem within_concat (times : List Nat) (e t : Nat) :
    within (times ++ [e]) t
      = within times t + if t ≤ e ∧ e < t + loginWindow then 1 else 0 := by
  simp [within, List.countP_append, List.countP_cons]

/-- Nothing that has happened lies in the future. -/
theorem since_eq_zero {times : List Nat} {t : Nat} (h : ∀ e ∈ times, e < t) :
    since times t = 0 := by
  refine List.countP_eq_zero.mpr fun e he => ?_
  have hlt := h e he
  simp only [decide_eq_true_eq]
  omega

/-- The account of an address: `n` of its requests are past the check without a failure
counted, `u` of these have failed. -/
structure Counted (row : Option LoginAttempt) (now : Nat) (times starts : List Nat)
    (n u : Nat) : Prop where
  uncounted : u ≤ n
  past : ∀ e ∈ times, e ≤ now
  opened : ∀ a, row = some a → a.windowStart ≤ now
  admitted : running row now + n ≤ loginMaxFailures
  counted : ∀ a, row = some a → since times a.windowStart ≤ a.failures + u
  later : since times (closes row) ≤ u
  old : ∀ t ∈ starts, t + loginWindow ≤ now ∨ ∃ a, row = some a ∧ a.windowStart = t
  bounded : ∀ t ∈ starts, within times t ≤ loginMaxFailures

namespace Counted

variable {row : Option LoginAttempt} {now : Nat} {times starts : List Nat} {n u : Nat}

theorem fresh (now : Nat) : Counted none now [] [] 0 0 where
  uncounted := Nat.le_refl 0
  past e he := by cases he
  opened a ha := by cases ha
  admitted := by simp [running]
  counted a ha := by cases ha
  later := Nat.le_refl 0
  old t ht := by cases ht
  bounded t ht := by cases ht

/-- A window that closes takes its failures with it. -/
theorem running_anti {d : Nat} : running row (now + d) ≤ running row now := by
  unfold running
  split
  · exact Nat.le_refl 0
  · split <;> split <;> omega

theorem tick (h : Counted row now times starts n u) (d : Nat) :
    Counted row (now + d) times starts n u where
  uncounted := h.uncounted
  past e he := by
    have := h.past e he
    omega
  opened a ha := by
    have := h.opened a ha
    omega
  admitted := by
    have hrun : running row (now + d) ≤ running row now := running_anti
    have := h.admitted
    omega
  counted := h.counted
  later := h.later
  old t ht := by
    rcases h.old t ht with hold | hcur
    · exact Or.inl (by omega)
    · exact Or.inr hcur
  bounded := h.bounded

/-- A request passes the check. -/
theorem pass (h : Counted row now times starts n u)
    (hroom : running row now + n < loginMaxFailures) :
    Counted row now times starts (n + 1) u :=
  { h with
    uncounted := by
      have := h.uncounted
      omega
    admitted := by omega }

/-- A request ends without a verdict. -/
theorem giveUp (h : Counted row now times starts (n + 1) u) (hu : u ≤ n) :
    Counted row now times starts n u :=
  { h with
    uncounted := hu
    admitted := by
      have := h.admitted
      omega }

/-- **A password is wrong.** -/
theorem wrong (h : Counted row now times starts n u) (hu : u < n) :
    Counted row now (times ++ [now]) starts n (u + 1) where
  uncounted := hu
  past e he := by
    rcases List.mem_append.mp he with hold | hnew
    · exact h.past e hold
    · exact Nat.le_of_eq (List.mem_singleton.mp hnew)
  opened := h.opened
  admitted := h.admitted
  counted a ha := by
    have hold := h.counted a ha
    rw [since_concat]
    split <;> omega
  later := by
    have hold := h.later
    rw [since_concat]
    split <;> omega
  old := h.old
  bounded t ht := by
    have hold := h.bounded t ht
    rw [within_concat]
    by_cases hin : t ≤ now ∧ now < t + loginWindow
    · -- only the window that is open can get another failure
      rw [if_pos hin]
      rcases h.old t ht with hover | ⟨a, ha, rfl⟩
      · omega
      · have hcounted := h.counted a ha
        have hwithin := within_le_since times a.windowStart
        have hadmitted := h.admitted
        rw [ha] at hadmitted
        simp only [running, if_pos hin.2] at hadmitted
        omega
    · rw [if_neg hin]
      exact hold

/-- **A failure is counted**, in the open window or as the first of a new one. -/
theorem count (h : Counted row now times starts (n + 1) (u + 1)) :
    Counted (some (fail row now)) now times (starts ++ [(fail row now).windowStart]) n u := by
  have hu := h.uncounted
  have hadmitted := h.admitted
  have hlater := h.later
  have hnone : ∀ a : LoginAttempt, now < a.windowStart + loginWindow →
      since times (a.windowStart + loginWindow) = 0 := fun a ha =>
    since_eq_zero fun e he => Nat.lt_of_le_of_lt (h.past e he) ha
  by_cases hopen : ∃ a, row = some a ∧ now < a.windowStart + loginWindow
  · obtain ⟨a, rfl, hnow⟩ := hopen
    have hfail : fail (some a) now = ⟨a.failures + 1, a.windowStart⟩ := if_neg (by omega)
    simp only [running, if_pos hnow] at hadmitted
    rw [hfail]
    refine ⟨by omega, h.past, ?_, ?_, ?_, ?_, ?_, ?_⟩
    · intro b hb
      obtain rfl := Option.some.inj hb
      exact h.opened a rfl
    · simp only [running, if_pos hnow]
      omega
    · intro b hb
      obtain rfl := Option.some.inj hb
      have hold := h.counted a rfl
      show since times a.windowStart ≤ a.failures + 1 + u
      omega
    · have hzero := hnone a hnow
      show since times (a.windowStart + loginWindow) ≤ u
      omega
    · intro t ht
      rcases List.mem_append.mp ht with hold | hnew
      · rcases h.old t hold with hover | ⟨b, hb, rfl⟩
        · exact Or.inl hover
        · obtain rfl := Option.some.inj hb
          exact Or.inr ⟨_, rfl, rfl⟩
      · exact Or.inr ⟨_, rfl, (List.mem_singleton.mp hnew).symm⟩
    · intro t ht
      rcases List.mem_append.mp ht with hold | hnew
      · exact h.bounded t hold
      · rw [List.mem_singleton.mp hnew]
        have hcounted := h.counted a rfl
        have hwithin := within_le_since times a.windowStart
        show within times a.windowStart ≤ loginMaxFailures
        omega
  · have hclosed : closes row ≤ now := by
      cases row with
      | none => exact Nat.zero_le now
      | some a => exact Nat.le_of_not_lt fun hlt => hopen ⟨a, rfl, hlt⟩
    have hfail : fail row now = ⟨1, now⟩ := by
      cases row with
      | none => rfl
      | some a => exact if_pos hclosed
    have hwindow : 0 < loginWindow := by decide
    have hsince : since times now ≤ u + 1 := Nat.le_trans (since_anti hclosed) hlater
    rw [hfail]
    refine ⟨by omega, h.past, ?_, ?_, ?_, ?_, ?_, ?_⟩
    · intro b hb
      obtain rfl := Option.some.inj hb
      exact Nat.le_refl now
    · have hlt : now < now + loginWindow := by omega
      simp only [running, if_pos hlt]
      omega
    · intro b hb
      obtain rfl := Option.some.inj hb
      show since times now ≤ 1 + u
      omega
    · have hzero : since times (now + loginWindow) = 0 :=
        hnone ⟨1, now⟩ (by show now < now + loginWindow; omega)
      show since times (now + loginWindow) ≤ u
      omega
    · intro t ht
      rcases List.mem_append.mp ht with hold | hnew
      · rcases h.old t hold with hover | ⟨b, rfl, rfl⟩
        · exact Or.inl hover
        · exact Or.inl hclosed
      · exact Or.inr ⟨_, rfl, (List.mem_singleton.mp hnew).symm⟩
    · intro t ht
      rcases List.mem_append.mp ht with hold | hnew
      · exact h.bounded t hold
      · rw [List.mem_singleton.mp hnew]
        have hwithin := within_le_since times now
        show within times now ≤ loginMaxFailures
        omega

end Counted

/-! ### The account along a run -/

/-- What the journal says about one address. -/
def ofAddress (ip : Text) (l : List (Text × Nat)) : List Nat :=
  (l.filter fun e => e.1 == ip).map Prod.snd

theorem ofAddress_concat_self (ip : Text) (l : List (Text × Nat)) (t : Nat) :
    ofAddress ip (l ++ [(ip, t)]) = ofAddress ip l ++ [t] := by
  simp [ofAddress, List.filter_append]

theorem ofAddress_concat_of_ne {ip ip' : Text} (h : ip' ≠ ip) (l : List (Text × Nat)) (t : Nat) :
    ofAddress ip (l ++ [(ip', t)]) = ofAddress ip l := by
  simp [ofAddress, List.filter_append, h]

theorem mem_ofAddress {ip : Text} {l : List (Text × Nat)} {t : Nat} :
    t ∈ ofAddress ip l ↔ (ip, t) ∈ l := by
  unfold ofAddress
  simp only [List.mem_map, List.mem_filter, beq_iff_eq, Prod.exists, exists_eq_right]

theorem failedIn_eq (s : Store) (ip : Text) (start : Nat) :
    s.failedIn ip start = within (ofAddress ip s.verified) start := by
  unfold Store.failedIn within ofAddress
  rw [List.countP_map, List.countP_filter]
  refine List.countP_congr fun e _ => ?_
  simp only [Function.comp, Bool.and_eq_true, beq_iff_eq]
  refine ⟨fun h => ⟨⟨h.1.2, h.2⟩, h.1.1⟩, fun h => ⟨⟨h.2, h.1.1⟩, h.1.2⟩⟩

/-- The account of the address `ip` in the pool. -/
def Kept (ip : Text) (p : Pool Frame Store) : Prop :=
  Counted (p.store.attempts ip) p.store.now (ofAddress ip p.store.verified)
    (ofAddress ip p.store.windows) (p.calls.countP (Frame.inFlight ip))
    (p.calls.countP (Frame.uncounted ip))

/-- The address a request comes from, while it goes on. -/
def Frame.address : Frame → Option Text
  | .check ip => some ip
  | .verify ip => some ip
  | .fail ip => some ip
  | .reset ip => some ip
  | .done _ => none

theorem inFlight_of_address_ne {ip : Text} {f : Frame} (h : f.address ≠ some ip) :
    f.inFlight ip = false ∧ f.uncounted ip = false := by
  cases f <;> simp_all [Frame.address, Frame.inFlight, Frame.uncounted]

/-- The request's password is being verified. -/
def Frame.verifying (ip : Text) : Frame → Bool
  | .verify ip' => ip' == ip
  | _ => false

theorem countP_inFlight (ip : Text) (calls : List Frame) :
    calls.countP (Frame.inFlight ip)
      = calls.countP (Frame.verifying ip) + calls.countP (Frame.uncounted ip) := by
  induction calls with
  | nil => rfl
  | cons f rest ih =>
      simp only [List.countP_cons, ih]
      cases f <;> simp [Frame.inFlight, Frame.verifying, Frame.uncounted] <;> omega

theorem uncounted_lt_inFlight {ip : Text} {calls : List Frame} (h : Frame.verify ip ∈ calls) :
    calls.countP (Frame.uncounted ip) < calls.countP (Frame.inFlight ip) := by
  have hpos : 0 < calls.countP (Frame.verifying ip) :=
    List.countP_pos_iff.mpr ⟨_, h, by simp [Frame.verifying]⟩
  rw [countP_inFlight]
  omega

/-- A request touches nothing of another address. -/
theorem next_other {ip : Text} {x : Luck} {f f' : Frame} {s s' : Store}
    (hf : f.address ≠ some ip) (h : next x f s = some (s', f')) :
    f'.address ≠ some ip ∧ s'.attempts ip = s.attempts ip ∧ s'.now = s.now ∧
      ofAddress ip s'.verified = ofAddress ip s.verified ∧
      ofAddress ip s'.windows = ofAddress ip s.windows := by
  cases f with
  | check ip' =>
      simp only [next] at h
      split at h
      · obtain ⟨rfl, rfl⟩ := Prod.mk.inj (Option.some.inj h)
        exact ⟨hf, rfl, rfl, rfl, rfl⟩
      · split at h
        · obtain ⟨rfl, rfl⟩ := Prod.mk.inj (Option.some.inj h)
          exact ⟨by simp [Frame.address], rfl, rfl, rfl, rfl⟩
        · obtain ⟨rfl, rfl⟩ := Prod.mk.inj (Option.some.inj h)
          exact ⟨hf, rfl, rfl, rfl, rfl⟩
  | verify ip' =>
      have hip : ip' ≠ ip := fun he => hf (by rw [he]; rfl)
      simp only [next] at h
      split at h
      · obtain ⟨rfl, rfl⟩ := Prod.mk.inj (Option.some.inj h)
        exact ⟨hf, rfl, rfl, ofAddress_concat_of_ne hip _ _, rfl⟩
      · obtain ⟨rfl, rfl⟩ := Prod.mk.inj (Option.some.inj h)
        exact ⟨hf, rfl, rfl, rfl, rfl⟩
      · obtain ⟨rfl, rfl⟩ := Prod.mk.inj (Option.some.inj h)
        exact ⟨by simp [Frame.address], rfl, rfl, rfl, rfl⟩
  | fail ip' =>
      have hip : ip' ≠ ip := fun he => hf (by rw [he]; rfl)
      simp only [next] at h
      split at h
      · obtain ⟨rfl, rfl⟩ := Prod.mk.inj (Option.some.inj h)
        exact ⟨by simp [Frame.address], rfl, rfl, rfl, rfl⟩
      · obtain ⟨rfl, rfl⟩ := Prod.mk.inj (Option.some.inj h)
        exact ⟨by simp [Frame.address], Function.update_of_ne (fun he => hip he.symm) _ _, rfl, rfl,
          ofAddress_concat_of_ne hip _ _⟩
  | reset ip' =>
      have hip : ip' ≠ ip := fun he => hf (by rw [he]; rfl)
      simp only [next] at h
      split at h
      · obtain ⟨rfl, rfl⟩ := Prod.mk.inj (Option.some.inj h)
        exact ⟨by simp [Frame.address], rfl, rfl, rfl, rfl⟩
      · obtain ⟨rfl, rfl⟩ := Prod.mk.inj (Option.some.inj h)
        exact ⟨by simp [Frame.address], Function.update_of_ne (fun he => hip he.symm) _ _, rfl, rfl,
          rfl⟩
  | done r => cases h

section Turn

variable {ip : Text} {p : Pool Frame Store} {i : Nat} {x : Luck} {f f' : Frame} {s : Store}

theorem kept_other (h : Kept ip p) (hf : p.calls[i]? = some f) (hother : f.address ≠ some ip)
    (hnext : next x f p.store = some (s, f')) : Kept ip (p.goOn i s f') := by
  obtain ⟨hother', hrow, hnow, htimes, hstarts⟩ := next_other hother hnext
  obtain ⟨hflight, huncounted⟩ := inFlight_of_address_ne hother
  obtain ⟨hflight', huncounted'⟩ := inFlight_of_address_ne hother'
  have hn := Pool.countP_goOn (s := s) (g := f') (Frame.inFlight ip) hf
  have hu := Pool.countP_goOn (s := s) (g := f') (Frame.uncounted ip) hf
  simp only [hflight, hflight', huncounted, huncounted', Bool.false_eq_true, if_false,
    Nat.add_zero] at hn hu
  unfold Kept
  rw [hn, hu]
  show Counted (s.attempts ip) s.now (ofAddress ip s.verified) (ofAddress ip s.windows) _ _
  rw [hrow, hnow, htimes, hstarts]
  exact h

theorem kept_check (h : Kept ip p) (hquiet : noSuccess p (.go i x) = true)
    (hroom : checksInTime p (.go i x) = true) (hf : p.calls[i]? = some (.check ip))
    (hnext : next x (.check ip) p.store = some (s, f')) : Kept ip (p.goOn i s f') := by
  have hn := Pool.countP_goOn (s := s) (g := f') (Frame.inFlight ip) hf
  have hu := Pool.countP_goOn (s := s) (g := f') (Frame.uncounted ip) hf
  simp only [noSuccess, hf, Bool.not_eq_true'] at hquiet
  simp only [next, hquiet, Bool.false_eq_true, if_false] at hnext
  split at hnext
  · obtain ⟨rfl, rfl⟩ := Prod.mk.inj (Option.some.inj hnext)
    simp only [Frame.inFlight, Frame.uncounted, Bool.false_eq_true, if_false,
      Nat.add_zero] at hn hu
    unfold Kept
    rw [hn, hu]
    exact h
  · rename_i hcheck
    obtain ⟨rfl, rfl⟩ := Prod.mk.inj (Option.some.inj hnext)
    simp only [Frame.inFlight, Frame.uncounted, beq_self_eq_true, if_true, Bool.false_eq_true,
      if_false, Nat.add_zero] at hn hu
    simp only [checksInTime, hf, hcheck, Option.isSome_none, Bool.false_or,
      decide_eq_true_eq] at hroom
    unfold Kept
    rw [hn, hu]
    exact h.pass hroom

theorem kept_verify (h : Kept ip p) (hquiet : noSuccess p (.go i x) = true)
    (hf : p.calls[i]? = some (.verify ip))
    (hnext : next x (.verify ip) p.store = some (s, f')) : Kept ip (p.goOn i s f') := by
  have hn := Pool.countP_goOn (s := s) (g := f') (Frame.inFlight ip) hf
  have hu := Pool.countP_goOn (s := s) (g := f') (Frame.uncounted ip) hf
  have hlt := uncounted_lt_inFlight (List.mem_of_getElem? hf)
  simp only [noSuccess, hf, bne_iff_ne, ne_eq] at hquiet
  unfold Kept
  simp only [next] at hnext
  split at hnext
  · obtain ⟨rfl, rfl⟩ := Prod.mk.inj (Option.some.inj hnext)
    simp only [Frame.inFlight, Frame.uncounted, beq_self_eq_true, if_true, Bool.false_eq_true,
      if_false, Nat.add_zero, Nat.add_right_cancel_iff] at hn hu
    rw [hn, hu]
    show Counted _ _ (ofAddress ip (p.store.verified ++ [(ip, p.store.now)])) _ _ _
    rw [ofAddress_concat_self]
    exact h.wrong hlt
  · rename_i hright
    exact absurd hright hquiet
  · obtain ⟨rfl, rfl⟩ := Prod.mk.inj (Option.some.inj hnext)
    simp only [Frame.inFlight, Frame.uncounted, beq_self_eq_true, if_true, Bool.false_eq_true,
      if_false, Nat.add_zero] at hn hu
    unfold Kept at h
    rw [← hn] at h hlt
    rw [hu]
    exact h.giveUp (by omega)

theorem kept_fail (h : Kept ip p) (hquiet : noSuccess p (.go i x) = true)
    (hf : p.calls[i]? = some (.fail ip))
    (hnext : next x (.fail ip) p.store = some (s, f')) : Kept ip (p.goOn i s f') := by
  have hn := Pool.countP_goOn (s := s) (g := f') (Frame.inFlight ip) hf
  have hu := Pool.countP_goOn (s := s) (g := f') (Frame.uncounted ip) hf
  simp only [noSuccess, hf, Bool.not_eq_true'] at hquiet
  simp only [next, hquiet, Bool.false_eq_true, if_false] at hnext
  obtain ⟨rfl, rfl⟩ := Prod.mk.inj (Option.some.inj hnext)
  simp only [Frame.inFlight, Frame.uncounted, beq_self_eq_true, if_true, Bool.false_eq_true,
    if_false, Nat.add_zero] at hn hu
  unfold Kept at h ⊢
  rw [← hn, ← hu] at h
  show Counted (Function.update p.store.attempts ip _ ip) _ _ (ofAddress ip (_ ++ [(ip, _)])) _ _
  rw [Function.update_self, ofAddress_concat_self]
  exact h.count

end Turn

/-- **What a turn does to the account of an address.** -/
theorem kept_step {ip : Text} {p q : Pool Frame Store} {turn : Turn Text Luck Nat} (h : Kept ip p)
    (hquiet : noSuccess p turn = true) (hroom : checksInTime p turn = true)
    (hstep : p.step service turn = some q) : Kept ip q := by
  cases turn with
  | start ip' =>
      obtain rfl := Option.some.inj hstep
      unfold Kept at h ⊢
      simpa [service, List.countP_append, Frame.inFlight, Frame.uncounted] using h
  | go i x =>
      obtain ⟨f, s, f', hf, hnext, rfl⟩ := Pool.step_go hstep
      by_cases hip : f.address = some ip
      · cases f with
        | check ip' =>
            obtain rfl := Option.some.inj hip
            exact kept_check h hquiet hroom hf hnext
        | verify ip' =>
            obtain rfl := Option.some.inj hip
            exact kept_verify h hquiet hf hnext
        | fail ip' =>
            obtain rfl := Option.some.inj hip
            exact kept_fail h hquiet hf hnext
        | reset ip' =>
            simp only [noSuccess, hf] at hquiet
            cases hquiet
        | done r => cases hip
      · exact kept_other h hf hip hnext
  | outside d =>
      obtain rfl := Option.some.inj hstep
      exact h.tick d

/-- **In no window are more than `loginMaxFailures` passwords of one address verified that
are wrong**, in every run without a successful login in which each request that passes the
check finds room for it. -/
theorem failures_within_limit {now : Nat} {p : Pool Frame Store}
    (h : Run (Pool.step service)
      (fun p turn => (noSuccess p turn && checksInTime p turn) = true) ⟨.fresh now, []⟩ p)
    {ip : Text} {start : Nat} (hstart : (ip, start) ∈ p.store.windows) :
    p.store.failedIn ip start ≤ loginMaxFailures := by
  have hkept : Kept ip p := by
    refine Run.invariant (fun p turn q hp hok hstep => ?_) h (Counted.fresh now)
    obtain ⟨hquiet, hroom⟩ := (Bool.and_eq_true _ _).mp hok
    exact kept_step hp hquiet hroom hstep
  rw [failedIn_eq]
  exact hkept.bounded start (mem_ofAddress.mpr hstart)

/-! ### One address

Requests that come one after another are counted one after another.  Eleven that ask the
limiter before the first of them has failed are all let through, and all in one window.
-/

private def home : Text := ['h']

private def wrongPassword : Luck := ⟨false, .wrong⟩

/-- The next `n` operations of the `i`th request. -/
private def operations (n i : Nat) : List (Turn Text Luck Nat) :=
  List.replicate n (.go i wrongPassword)

theorem failures_within_limit_home : ∃ p : Pool Frame Store,
    exec (Pool.step service) (fun p turn => noSuccess p turn && checksInTime p turn)
      ⟨.fresh 0, []⟩
      (.start home :: operations 3 0 ++ .outside second :: .start home :: operations 3 1) = some p ∧
      p.store.verified.length = 2 ∧ p.store.failedIn home 0 ≤ loginMaxFailures := by
  have hview : (exec (Pool.step service) (fun p turn => noSuccess p turn && checksInTime p turn)
      ⟨.fresh 0, []⟩
      (.start home :: operations 3 0 ++ .outside second :: .start home :: operations 3 1)).map
        (fun p => (p.store.verified.length, p.store.windows)) = some (2, [(home, 0), (home, 0)]) := rfl
  obtain ⟨p, hp, heq⟩ := Option.map_eq_some_iff.mp hview
  obtain ⟨hlength, hwindows⟩ := Prod.mk.inj heq
  refine ⟨p, hp, hlength, failures_within_limit (Run.ofExec _ hp) ?_⟩
  rw [hwindows]
  exact List.mem_cons_self

/-- **Eleven requests at once all have their password verified.** -/
theorem eleven_at_once : ¬ ∀ (now : Nat) (p : Pool Frame Store),
    Run (Pool.step service) (fun p turn => noSuccess p turn = true) ⟨.fresh now, []⟩ p →
      ∀ ip start, (ip, start) ∈ p.store.windows → p.store.failedIn ip start ≤ loginMaxFailures := by
  intro h
  have hview : (exec (Pool.step service) noSuccess ⟨.fresh 0, []⟩
      (List.replicate 11 (.start home) ++ (List.range 11).flatMap (operations 1) ++
        (List.range 11).flatMap (operations 2))).map
        (fun p => (p.store.windows.head?, p.store.failedIn home 0)) = some (some (home, 0), 11) := rfl
  obtain ⟨p, hp, heq⟩ := Option.map_eq_some_iff.mp hview
  obtain ⟨hwindows, hfailed⟩ := Prod.mk.inj heq
  have hle := h 0 p (Run.ofExec _ hp) home 0 (List.mem_of_mem_head? hwindows)
  rw [hfailed] at hle
  exact absurd hle (by decide)

end FlyMail.Auth.Limiter
