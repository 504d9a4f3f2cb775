/-
Login leads back, and nowhere else.

The query gives the value of the parameter decoded, and `safeNext` decodes it once more.  So a place is
led back to as it was if it has no percent sign and is one that `safeNext` accepts.  Whatever the
parameter is, what is accepted begins with one slash, and a browser does not leave the site for it.
-/
import FlyMail.Lib.WebUrl
import FlyMail.Ui.NextPath

namespace FlyMail.Ui.NextPath

open Percent

/-! ### What is accepted -/

/-- A place in the application, other than the login page. -/
structure InApp (v : Text) : Prop where
  slash : v.head? = some '/'
  one : ¬ ['/', '/'] <+: v ∧ ¬ ['/', '\\'] <+: v
  control : ∀ c ∈ v, 0x20 ≤ c.toNat ∧ c.toNat ≠ 0x7f
  login : v ≠ "/login".toList ∧ ¬ "/login?".toList <+: v

theorem safeNext_eq_some {raw v : Text} :
    safeNext (some raw) = some v ↔ raw ≠ [] ∧ decodeURIComponent raw = some v ∧ InApp v := by
  unfold safeNext
  dsimp only
  by_cases hnil : raw = []
  · simp [hnil]
  rw [if_neg hnil]
  cases hdecode : decodeURIComponent raw with
  | none => simp
  | some w =>
    dsimp only
    have hno (h : ¬ InApp w) : none = some v ↔ raw ≠ [] ∧ some w = some v ∧ InApp v :=
      ⟨fun hv => (nomatch hv), fun hv => absurd (Option.some.inj hv.2.1 ▸ hv.2.2) h⟩
    by_cases hslash : w.head? ≠ some '/'
    · rw [if_pos hslash]
      exact hno fun h => hslash h.slash
    rw [if_neg hslash]
    by_cases htwo : (['/', '/'].isPrefixOf w || ['/', '\\'].isPrefixOf w) = true
    · rw [if_pos htwo]
      refine hno fun h => ?_
      rcases Bool.or_eq_true_iff.mp htwo with htwo | htwo
      · exact h.one.1 (List.isPrefixOf_iff_prefix.mp htwo)
      · exact h.one.2 (List.isPrefixOf_iff_prefix.mp htwo)
    rw [if_neg htwo]
    by_cases hcontrol : (w.any fun c => c.toNat < 0x20 || c.toNat == 0x7f) = true
    · rw [if_pos hcontrol]
      refine hno fun h => ?_
      obtain ⟨c, hc, hbad⟩ := List.any_eq_true.mp hcontrol
      obtain ⟨hlow, hdel⟩ := h.control c hc
      rcases Bool.or_eq_true_iff.mp hbad with hbad | hbad
      · exact absurd (of_decide_eq_true hbad) (Nat.not_lt.mpr hlow)
      · exact hdel (beq_iff_eq.mp hbad)
    rw [if_neg hcontrol]
    by_cases hlogin : w = "/login".toList ∨ "/login?".toList.isPrefixOf w = true
    · rw [if_pos hlogin]
      refine hno fun h => ?_
      rcases hlogin with hlogin | hlogin
      · exact h.login.1 hlogin
      · exact h.login.2 (List.isPrefixOf_iff_prefix.mp hlogin)
    rw [if_neg hlogin]
    obtain ⟨hlogin, hlogin'⟩ := not_or.mp hlogin
    have hw : InApp w := by
      refine ⟨not_not.mp hslash, ⟨fun h => htwo ?_, fun h => htwo ?_⟩, fun c hc => ?_, hlogin, fun h => hlogin' ?_⟩
      · exact Bool.or_eq_true_iff.mpr (.inl (List.isPrefixOf_iff_prefix.mpr h))
      · exact Bool.or_eq_true_iff.mpr (.inr (List.isPrefixOf_iff_prefix.mpr h))
      · have hall : ∀ x ∈ w, 32 ≤ x.toNat ∧ ¬ x.toNat = 127 := by simpa using hcontrol
        exact hall c hc
      · exact List.isPrefixOf_iff_prefix.mpr h
    exact ⟨fun h => ⟨hnil, h, Option.some.inj h ▸ hw⟩, fun h => h.2.1⟩

/-- **What is accepted is on the page's site**, however a browser reads hosts. -/
theorem resolve_safeNext {page : WebUrl.Origin} {absolute : Text → Text → Option WebUrl.Origin}
    {authority : Text → Option WebUrl.Origin} {raw v : Text} (h : safeNext (some raw) = some v) :
    WebUrl.resolve page absolute authority v = some page := by
  obtain ⟨-, -, hv⟩ := safeNext_eq_some.mp h
  refine WebUrl.resolve_of_slash hv.slash (fun c hc => ?_) fun c hc => ?_
  · obtain ⟨rest, rfl⟩ := List.head?_eq_some_iff.mp hv.slash
    cases rest with
    | nil => cases hc
    | cons d rest =>
      obtain rfl := Option.some.inj hc
      have hslash : d ≠ '/' := fun hd => hv.one.1 ⟨rest, by rw [hd]; rfl⟩
      have hback : d ≠ '\\' := fun hd => hv.one.2 ⟨rest, by rw [hd]; rfl⟩
      simp [WebUrl.isSlash, hslash, hback]
  · have hlow := (hv.control c hc).1
    have hne (d : Char) (hd : d.toNat < 0x20) : c ≠ d := by
      rintro rfl
      omega
    have htab := hne '\t' (by decide)
    have hlf := hne '\n' (by decide)
    have hcr := hne '\r' (by decide)
    simp [WebUrl.isTabOrNewline, htab, hlf, hcr]

/-! ### What is led back to -/

theorem splitOn_of_notMem {sep : Char} {t : Text} (h : sep ∉ t) : t.splitOn sep = [t] := by
  have hall : ∀ l ∈ [t], sep ∉ l := by simpa using h
  have hsplit := List.splitOn_intercalate sep hall (List.cons_ne_nil t [])
  rwa [List.intercalate_singleton] at hsplit

/-- The login page finds the place in its query. -/
theorem getParam_requireAuth (lossy : Bytes → Text) (pathname search : Text) :
    getParam lossy "next".toList (parsePath (requireAuth pathname search)).search
      = some (pathname ++ search) := by
  have hplain := plain_encodeURIComponent (pathname ++ search)
  have hhash : '#' ∉ requireAuth pathname search := by
    intro hmem
    rcases List.mem_append.mp hmem with hmem | hmem
    · exact absurd hmem (by decide)
    · exact (hplain _ hmem).2.2.2.1 rfl
  have hpath : partAt '#' (requireAuth pathname search) = (requireAuth pathname search, []) := by
    have hall : ∀ c ∈ requireAuth pathname search, (c != '#') = true := by
      intro c hc
      have hne : c ≠ '#' := fun h => hhash (h ▸ hc)
      simpa using hne
    unfold partAt
    rw [List.takeWhile_eq_self_iff.mpr hall, List.dropWhile_eq_nil_iff.mpr hall]
  have hsearch : (parsePath (requireAuth pathname search)).search
      = '?' :: ("next=".toList ++ encodeURIComponent (pathname ++ search)) := by
    unfold parsePath
    rw [hpath]
    rfl
  have hnoAmp : '&' ∉ "next=".toList ++ encodeURIComponent (pathname ++ search) := by
    intro hmem
    rcases List.mem_append.mp hmem with hmem | hmem
    · exact absurd hmem (by decide)
    · exact (hplain _ hmem).1 rfl
  have hcut : Text.cut ("next=".toList ++ encodeURIComponent (pathname ++ search)) '='
      = some ("next".toList, encodeURIComponent (pathname ++ search)) :=
    @Text.cut_append '=' "next".toList (by decide) _
  have hname : formDecode lossy "next".toList = "next".toList := by
    have hself : encodeURIComponent "next".toList = "next".toList := by decide
    exact hself ▸ formDecode_encode lossy "next".toList
  have hparse : formParse lossy ("next=".toList ++ encodeURIComponent (pathname ++ search))
      = [("next".toList, pathname ++ search)] := by
    unfold formParse
    rw [splitOn_of_notMem hnoAmp]
    rw [List.filter_cons_of_pos (by simp), List.filter_nil, List.map_singleton, hcut]
    dsimp only
    rw [hname, formDecode_encode]
  unfold getParam
  rw [hsearch]
  dsimp only
  rw [if_pos (by rfl), List.tail_cons, hparse]
  rfl

/-- **Where the user is led** after the login: to the place, if it is accepted when it is decoded. -/
theorem afterLogin_eq (lossy : Bytes → Text) (pathname search : Text) :
    afterLogin lossy pathname search = (safeNext (some (pathname ++ search))).getD ['/'] := by
  unfold afterLogin loginPage
  rw [getParam_requireAuth]

/-- **Login leads back, and nowhere else**, just if the place has no percent sign and is one in the
application. -/
theorem login_returns_iff (lossy : Bytes → Text) (page : WebUrl.Origin)
    (absolute : Text → Text → Option WebUrl.Origin) (authority : Text → Option WebUrl.Origin)
    (pathname search raw : Text) :
    (afterLogin lossy pathname search = pathname ++ search ∧
        ∀ v, safeNext (some raw) = some v → WebUrl.resolve page absolute authority v = some page) ↔
      '%' ∉ pathname ++ search ∧ InApp (pathname ++ search) := by
  rw [and_iff_left fun v hv => resolve_safeNext hv, afterLogin_eq]
  generalize pathname ++ search = v
  have haccept : safeNext (some v) = some v ↔ '%' ∉ v ∧ InApp v := by
    rw [safeNext_eq_some, decode_eq_self_iff]
    refine ⟨fun h => h.2, fun h => ⟨?_, h⟩⟩
    rintro rfl
    exact absurd h.2.slash (by decide)
  rw [← haccept]
  cases hnext : safeNext (some v) with
  | some w => simp
  | none =>
    rw [Option.getD_none]
    constructor
    · rintro rfl
      exact absurd hnext (by decide)
    · intro h
      cases h

/-- An escape in the place is decoded, and a percent sign that begins none leads to the start. -/
theorem decoded_twice :
    afterLogin Utf8.runes ['/'] "?q=100%25".toList = "/?q=100%".toList ∧
      afterLogin Utf8.runes ['/'] "?q=%".toList = ['/'] ∧
      afterLogin Utf8.runes ['/'] "?q=100%25".toList ≠ ['/'] ++ "?q=100%25".toList := by
  decide +kernel

end FlyMail.Ui.NextPath
