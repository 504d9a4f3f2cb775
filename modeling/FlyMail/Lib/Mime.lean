/-
Mails with parts.

A mail is a header and what is behind it: content, or parts between delimiter lines, each of them a
mail again.  A header's fields may be values with parameters, which are tokens, quoted strings, or
bytes written with `%`.

`read` finds the parts that have none themselves.  It reads no more than what all readers agree on: what
they make of a line end that is not CR LF, of a needless backslash, of a value in numbered sections or of
a line that only begins as a delimiter does is their own.

Mails are read line by line, so what a writer has to show of its parts is which lines they are (`Lined`);
`readParts_parts` then finds the parts of a container, provided none of their lines begins as its
delimiter does.  The decoder of base64 is a parameter.
-/
import FlyMail.Lib.Fields
import FlyMail.Lib.Percent
import Mathlib.Data.List.DropRight

namespace FlyMail.Mime

open Fields (isWSP isBreak crlf NoBreaks folded unfolded addLine Writable)

/-! ### Values with parameters -/

/-- The characters of a token. -/
def isToken (c : Char) : Bool :=
  0x21 ≤ c.toNat && c.toNat ≤ 0x7e && !"()<>@,;:\\\"/[]?=".toList.contains c

/-- Outside of quotes, between them, or behind a backslash between them. -/
inductive Quote
  | outside
  | inside
  | escaped
  deriving DecidableEq, Repr

def Quote.step : Quote → Char → Quote
  | .outside, c => if c = '"' then .inside else .outside
  | .inside, c => if c = '"' then .outside else if c = '\\' then .escaped else .inside
  | .escaped, _ => .inside

/-- The text cut at its semicolons, but not at those between quotes. -/
def pieces : Quote → Text → List Text
  | _, [] => [[]]
  | q, c :: t =>
      if q = .outside ∧ c = ';' then [] :: pieces .outside t else Text.consFirst c (pieces (q.step c) t)

/-- Without the blanks at its ends. -/
def trim (t : Text) : Text := (t.dropWhile isWSP).rdropWhile isWSP

def lower (t : Text) : Text := t.map Char.toLower

/-- What is quoted, from behind the first quote. -/
def unquote : Text → Option Text
  | [] => none
  | ['"'] => some []
  | '"' :: _ :: _ => none
  | ['\\'] => none
  | '\\' :: c :: t => if isToken c then none else (unquote t).map (c :: ·)
  | c :: t => (unquote t).map (c :: ·)

/-- A token or a quoted string. -/
def word : Text → Option Text
  | '"' :: t => unquote t
  | t => if t ≠ [] ∧ t.all isToken = true then some t else none

/-- Bytes as they are, and bytes written with `%`. -/
def octets : Text → Option Bytes
  | [] => some []
  | '%' :: h :: l :: t => (Percent.byte h l).bind fun b => (octets t).map (b :: ·)
  | c :: t => if isToken c ∧ c ≠ '%' then (octets t).map (Utf8.encode [c] ++ ·) else none

/-- Bytes behind a charset and a language. -/
def extended (t : Text) : Option Bytes :=
  (Text.cut t '\'').bind fun (charset, t) => (Text.cut t '\'').bind fun (_, t) =>
    if lower charset ∈ ["utf-8".toList, "us-ascii".toList] then octets t else none

/-- A parameter: its name, and its value in bytes. -/
def param (t : Text) : Option (Text × Bytes) :=
  (Text.cut (trim t) '=').bind fun (name, v) =>
    if name = [] ∨ name.all isToken = false then none
    else if name.getLast? = some '*' then (extended v).map (lower name.dropLast, ·)
    else (word v).map fun v => (lower name, Utf8.encode v)

/-- What is in front of the parameters. -/
def kindOf (t : Text) : Text := lower (trim (t.takeWhile (· != ';')))

/-- A token, or two with a slash between them. -/
def isKind (t : Text) : Bool :=
  match Text.cut t '/' with
  | none => t != [] && t.all isToken
  | some (a, b) => a != [] && a.all isToken && b != [] && b.all isToken

/-- The parameters of a value, if it is well formed and no quote is left open. -/
def params (t : Text) : Option (List (Text × Bytes)) :=
  if isKind (kindOf t) = true ∧ t.foldl Quote.step .outside = .outside then
    ((pieces .outside t).tail.mapM param).bind fun ps => if (ps.map Prod.fst).Nodup then some ps else none
  else none

/-- The charsets a value names. -/
def charsets (t : Text) : List Text :=
  ((pieces .outside t).tail.filterMap param).filterMap fun x =>
    if x.1 = "charset".toList then some (lower (Utf8.runes x.2)) else none

/-- What a value is the type of is no text, or one that is not decoded. -/
def isUtf8 (t : Text) : Bool :=
  !"text/".toList.isPrefixOf (kindOf t) ||
    (charsets t).all fun charset => charset == "utf-8".toList || charset == "us-ascii".toList

/-! ### Headers -/

/-- A field, or its first line: there is a name in front of a colon. -/
def isField (l : Text) : Bool :=
  match Text.cut l ':' with
  | some (name, _) => name != [] && name.all isToken
  | none => false

/-- The fields of a header and the lines behind the empty line. -/
def header : List Text → List Text → Option (List Text × List Text)
  | _, [] => none
  | fs, l :: ls =>
      if l = [] then some (fs, ls)
      else if isField l = true ∨ (fs ≠ [] ∧ l.head?.any isWSP = true) then (addLine fs l).bind fun fs => header fs ls
      else none

/-- The value of the first field with a name. -/
def get (fields : List Text) (name : Text) : Option Text :=
  fields.findSome? fun f => (Text.cut f ':').bind fun (n, v) => if lower n = name then some (trim v) else none

def contentType (fields : List Text) : Text := (get fields "content-type".toList).getD "text/plain".toList

/-! ### Parts -/

/-- The line is these characters, and blanks behind them. -/
def isLine (d l : Text) : Bool := l.rdropWhile isWSP == d

/-- The parts between delimiter lines, up to the one that closes the container; `cur` is what the
current part has so far. -/
def readParts (d : Text) : Option (List Text) → List Text → Option (List (List Text))
  | _, [] => none
  | cur, l :: ls =>
      if isLine (d ++ "--".toList) l then some cur.toList
      else if isLine d l then (readParts d (some []) ls).map (cur.toList ++ ·)
      else if d.isPrefixOf l then none
      else readParts d (cur.map (· ++ [l])) ls

/-- Content, as it was encoded. -/
def decode (base64 : Text → Option Bytes) (fields body : List Text) : Option Bytes :=
  match (get fields "content-transfer-encoding".toList).map lower with
  | none => some (Utf8.encode (Text.join body crlf))
  | some encoding =>
      if encoding = "base64".toList then base64 body.flatten
      else if encoding ∈ ["7bit".toList, "8bit".toList, "binary".toList] then some (Utf8.encode (Text.join body crlf))
      else none

/-- A part that has no parts. -/
structure Leaf where
  fields : List Text
  content : Bytes
  deriving DecidableEq, Repr

/-- How the parts of a container are told apart. -/
def delimiterOf (fields : List Text) : Option Text :=
  (params (contentType fields)).bind fun ps => (ps.lookup "boundary".toList).bind fun b =>
    if b ≠ [] ∧ (Utf8.runes b).all isToken = true then some ('-' :: '-' :: Utf8.runes b) else none

/-- The header is that of a container. -/
def isContainer (fields : List Text) : Bool := "multipart/".toList.isPrefixOf (kindOf (contentType fields))

/-- The parts without parts of a mail that is no deeper than this. -/
def leaves (base64 : Text → Option Bytes) : Nat → List Text → Option (List Leaf)
  | 0, _ => none
  | depth + 1, ls => (header [] ls).bind fun (fields, body) =>
      if isContainer fields then
        (delimiterOf fields).bind fun d => (readParts d none body).bind fun parts =>
          (parts.mapM (leaves base64 depth)).map List.flatten
      else (decode base64 fields body).map fun content => [⟨fields, content⟩]

/-- The parts of a mail that have none themselves, in their order. -/
def read (base64 : Text → Option Bytes) (t : Text) : Option (List Leaf) :=
  let ls := Fields.lines t
  if ls.all fun l => !l.any isBreak then leaves base64 (ls.length + 1) ls else none

/-! ### Values -/

theorem exists_pieces (q : Quote) (t : Text) : ∃ p ps, pieces q t = p :: ps := by
  cases t with
  | nil => exact ⟨_, _, rfl⟩
  | cons c t =>
      unfold pieces
      split
      · exact ⟨_, _, rfl⟩
      · unfold Text.consFirst
        split
        · exact ⟨_, _, rfl⟩
        · exact ⟨_, _, rfl⟩

/-- **A semicolon outside of quotes cuts.** -/
theorem pieces_append (s t : Text) : ∀ q : Quote, s.foldl Quote.step q = .outside →
    pieces q (s ++ ';' :: t) = pieces q s ++ pieces .outside t := by
  induction s with
  | nil =>
      intro q hq
      have hq : q = .outside := hq
      rw [hq]
      rfl
  | cons c s ih =>
      intro q hq
      rw [List.cons_append, pieces, pieces]
      split
      · rename_i hcut
        have hstep : q.step c = .outside := by
          rw [hcut.1, hcut.2]
          rfl
        rw [List.foldl_cons, hstep] at hq
        rw [ih _ hq]
        rfl
      · rw [ih _ hq]
        obtain ⟨p, ps, hp⟩ := exists_pieces (q.step c) s
        rw [hp]
        rfl

/-- Characters that are neither quotes nor semicolons belong to the first piece. -/
theorem pieces_plain {s t u : Text} {us : List Text} (h : ∀ c ∈ s, c ≠ ';' ∧ c ≠ '"') (ht : pieces .outside t = u :: us) :
    pieces .outside (s ++ t) = (s ++ u) :: us := by
  induction s with
  | nil => exact ht
  | cons c s ih =>
      obtain ⟨hsemicolon, hquote⟩ := h c List.mem_cons_self
      have hstep : Quote.step .outside c = .outside := if_neg hquote
      rw [List.cons_append, pieces, if_neg fun hc => hsemicolon hc.2, hstep, ih fun d hd => h d (List.mem_cons_of_mem _ hd)]
      rfl

theorem foldl_plain {s : Text} (h : ∀ c ∈ s, c ≠ '"') : s.foldl Quote.step .outside = .outside := by
  induction s with
  | nil => rfl
  | cons c s ih =>
      rw [List.foldl_cons]
      have hstep : Quote.step .outside c = .outside := if_neg (h c List.mem_cons_self)
      rw [hstep]
      exact ih fun d hd => h d (List.mem_cons_of_mem _ hd)

/-- The text stays as it is between quotes. -/
def Quotable (s : Text) : Prop := ∀ c ∈ s, c ≠ '"' ∧ c ≠ '\\'

theorem pieces_quoted {s : Text} (h : Quotable s) : pieces .inside (s ++ ['"']) = [s ++ ['"']] := by
  induction s with
  | nil => rfl
  | cons c s ih =>
      obtain ⟨hquote, hslash⟩ := h c List.mem_cons_self
      have hstep : Quote.step .inside c = .inside := by
        rw [Quote.step, if_neg hquote, if_neg hslash]
      rw [List.cons_append, pieces, if_neg (by simp), hstep, ih fun d hd => h d (List.mem_cons_of_mem _ hd)]
      rfl

theorem foldl_quoted {s : Text} (h : Quotable s) : (s ++ ['"']).foldl Quote.step .inside = .outside := by
  induction s with
  | nil => rfl
  | cons c s ih =>
      obtain ⟨hquote, hslash⟩ := h c List.mem_cons_self
      have hstep : Quote.step .inside c = .inside := by
        rw [Quote.step, if_neg hquote, if_neg hslash]
      rw [List.cons_append, List.foldl_cons, hstep]
      exact ih fun d hd => h d (List.mem_cons_of_mem _ hd)

theorem unquote_quoted {s : Text} (h : Quotable s) : unquote (s ++ ['"']) = some s := by
  induction s with
  | nil => rfl
  | cons c s ih =>
      obtain ⟨hquote, hslash⟩ := h c List.mem_cons_self
      rw [List.cons_append, unquote.eq_6 c _ (fun hc => absurd hc hquote) (fun _ _ hc => absurd hc hquote)
        (fun hc => absurd hc hslash) fun _ _ hc => absurd hc hslash, ih fun d hd => h d (List.mem_cons_of_mem _ hd)]
      rfl

theorem kindOf_append (s t : Text) : kindOf (s ++ ';' :: t) = kindOf s := by
  unfold kindOf
  congr 2
  induction s with
  | nil => rfl
  | cons c s ih =>
      rw [List.cons_append, List.takeWhile_cons, List.takeWhile_cons, ih]

/-- The parameters of all pieces. -/
theorem mapM_append_singleton {ps : List Text} {p : Text} {xs : List (Text × Bytes)} {x : Text × Bytes}
    (hps : ps.mapM param = some xs) (hp : param p = some x) : (ps ++ [p]).mapM param = some (xs ++ [x]) := by
  rw [List.mapM_append, hps]
  simp [hp]

/-- **A parameter behind a well-formed value**; a name is not given twice. -/
theorem params_append {v p : Text} {ps : List (Text × Bytes)} {x : Text × Bytes} (hv : params v = some ps)
    (hpieces : pieces .outside p = [p]) (hends : p.foldl Quote.step .outside = .outside) (hp : param p = some x) :
    params (v ++ ';' :: p) = if x.1 ∈ ps.map Prod.fst then none else some (ps ++ [x]) := by
  unfold params at hv ⊢
  rw [kindOf_append]
  split at hv
  · rename_i hkind
    obtain ⟨xs, hxs, hnodup⟩ := Option.bind_eq_some_iff.mp hv
    have hopen : (v ++ ';' :: p).foldl Quote.step .outside = .outside := by
      rw [List.foldl_append, hkind.2]
      exact hends
    obtain ⟨k, ks, hk⟩ := exists_pieces .outside v
    have hxs : ks.mapM param = some xs := by
      rw [hk] at hxs
      exact hxs
    rw [if_pos ⟨hkind.1, hopen⟩, pieces_append v p .outside hkind.2, hpieces, hk]
    show ((ks ++ [p]).mapM param).bind _ = _
    rw [mapM_append_singleton hxs hp, Option.bind_some]
    split at hnodup
    · rename_i hdistinct
      obtain rfl := Option.some.inj hnodup
      rw [List.map_append]
      by_cases hmem : x.1 ∈ xs.map Prod.fst
      · rw [if_pos hmem, if_neg]
        intro hboth
        exact (List.nodup_append.mp hboth).2.2 _ hmem _ (List.mem_singleton_self _) rfl
      · rw [if_neg hmem, if_pos]
        refine List.nodup_append.mpr ⟨hdistinct, by simp, ?_⟩
        rintro a ha b hb rfl
        rw [List.map_singleton, List.mem_singleton] at hb
        exact hmem (hb ▸ ha)
    · cases hnodup
  · cases hv

/-- What holds of a character that may be there is decided for that one. -/
instance (priority := 1100) decidableForallOption {p : Char → Prop} [DecidablePred p] (o : Option Char) :
    Decidable (∀ c ∈ o, p c) :=
  match o with
  | none => .isTrue fun _ hc => absurd hc (Option.not_mem_none _)
  | some d => decidable_of_iff (p d) ⟨fun hd c hc => Option.some.inj hc ▸ hd, fun h => h d rfl⟩

/-- The text begins and ends with something. -/
structure Tight (t : Text) : Prop where
  ne : t ≠ []
  head : ∀ c ∈ t.head?, isWSP c = false
  last : ∀ c ∈ t.getLast?, isWSP c = false

theorem rdropWhile_append {s : Text} (hne : s ≠ []) (hlast : ∀ c ∈ s.getLast?, isWSP c = false) (t : Text) :
    (s ++ t).rdropWhile isWSP = s ++ t.rdropWhile isWSP := by
  have hs : s.reverse.dropWhile isWSP = s.reverse := by
    obtain ⟨c, r, hr⟩ := List.exists_cons_of_ne_nil (List.reverse_ne_nil_iff.mpr hne)
    have hc : isWSP c = false := hlast c (by rw [List.getLast?_eq_head?_reverse, hr]; rfl)
    rw [hr, List.dropWhile_cons_of_neg (by rw [hc]; decide)]
  unfold List.rdropWhile
  rw [List.reverse_append, List.dropWhile_append, hs]
  split
  · rename_i hempty
    rw [List.isEmpty_iff.mp hempty, List.reverse_reverse, List.reverse_nil, List.append_nil]
  · rw [List.reverse_append, List.reverse_reverse]

theorem trim_append {s : Text} (h : Tight s) (t : Text) : trim (s ++ t) = s ++ t.rdropWhile isWSP := by
  obtain ⟨c, r, rfl⟩ := List.exists_cons_of_ne_nil h.ne
  have hc : isWSP c = false := h.head c rfl
  unfold trim
  rw [List.cons_append, List.dropWhile_cons_of_neg (by rw [hc]; decide)]
  exact rdropWhile_append h.ne h.last t

theorem trim_tight {t : Text} (h : Tight t) : trim t = t := by
  have htrim := trim_append h []
  rwa [List.append_nil, List.rdropWhile_nil, List.append_nil] at htrim

theorem trim_blank {c : Char} (hc : isWSP c = true) (t : Text) : trim (c :: t) = trim t := by
  unfold trim
  rw [List.dropWhile_cons_of_pos hc]

/-- What a value begins with in lower case, its type begins with. -/
theorem prefix_kindOf {p v : Text} (hp : Tight p) (hsemicolon : ';' ∉ p) (hlower : lower p = p) (h : p <+: v) :
    p <+: kindOf v := by
  obtain ⟨r, rfl⟩ := h
  have hall : ∀ c ∈ p, (c != ';') = true := by
    intro c hc
    rw [bne_iff_ne]
    rintro rfl
    exact hsemicolon hc
  unfold kindOf
  rw [List.takeWhile_append_of_pos hall, trim_append hp]
  unfold lower at hlower ⊢
  rw [List.map_append, hlower]
  exact List.prefix_append _ _

theorem isWSP_of_isToken {c : Char} (h : isToken c = true) : isWSP c = false := by
  cases hw : isWSP c with
  | false => rfl
  | true =>
      unfold isWSP at hw
      rw [Bool.or_eq_true, beq_iff_eq, beq_iff_eq] at hw
      rcases hw with rfl | rfl
      · exact absurd h (by decide)
      · exact absurd h (by decide)

/-- The name of a parameter, without an asterisk behind it. -/
structure IsName (name : Text) : Prop where
  ne : name ≠ []
  token : name.all isToken = true
  last : name.getLast? ≠ some '*'

theorem head_of_token {name : Text} (h : name.all isToken = true) (t : Text) (hne : name ≠ []) :
    ∀ c ∈ (name ++ t).head?, isWSP c = false := by
  obtain ⟨d, r, rfl⟩ := List.exists_cons_of_ne_nil hne
  intro c hc
  obtain rfl := Option.some.inj hc
  exact isWSP_of_isToken (List.all_eq_true.mp h d List.mem_cons_self)

theorem not_mem_of_token {name : Text} {c : Char} (h : name.all isToken = true) (hc : isToken c = false) : c ∉ name := by
  intro hmem
  rw [List.all_eq_true.mp h c hmem] at hc
  cases hc

/-- **A parameter that is quoted.** -/
theorem param_quoted {name s : Text} (hname : IsName name) (hs : Quotable s) :
    param (' ' :: (name ++ '=' :: '"' :: (s ++ ['"']))) = some (lower name, Utf8.encode s) := by
  have htight : Tight (name ++ '=' :: '"' :: (s ++ ['"'])) := by
    refine ⟨by simp, head_of_token hname.token _ hname.ne, fun c hc => ?_⟩
    rw [show name ++ '=' :: '"' :: (s ++ ['"']) = name ++ '=' :: '"' :: s ++ ['"'] by simp, List.getLast?_concat] at hc
    rw [← Option.some.inj hc]
    decide
  unfold param
  rw [trim_blank (by decide), trim_tight htight, Text.cut_append (not_mem_of_token hname.token (by decide)),
    Option.bind_some]
  dsimp only
  rw [if_neg (by simp [hname.ne, hname.token]), if_neg hname.last]
  show (unquote (s ++ ['"'])).map _ = _
  rw [unquote_quoted hs]
  rfl

/-- A byte that is written with `%`. -/
theorem octets_escape (b : UInt8) (t : Text) : octets (Percent.escape b ++ t) = (octets t).map (b :: ·) := by
  show octets ('%' :: Percent.digit (b.toNat / 16) :: Percent.digit (b.toNat % 16) :: t) = _
  rw [octets, Percent.byte_digits]
  rfl

/-- A byte that is written as it is. -/
theorem octets_plain {c : Char} (hc : isToken c = true) (hpercent : c ≠ '%') (t : Text) :
    octets (c :: t) = (octets t).map (Utf8.encode [c] ++ ·) := by
  rw [octets.eq_3 c t fun _ _ _ heq _ => hpercent heq, if_pos ⟨hc, hpercent⟩]

/-- **A parameter in bytes.** -/
theorem param_extended {name s : Text} {bs : Bytes} (hname : name.all isToken = true)
    (hlast : ∀ c ∈ s.getLast?, isWSP c = false) (hs : octets s = some bs) :
    param (' ' :: (name ++ '*' :: '=' :: ("UTF-8''".toList ++ s))) = some (lower name, bs) := by
  have hstar : (name ++ ['*']).all isToken = true := by
    rw [List.all_append, hname]
    decide
  have htight : Tight (name ++ ['*'] ++ '=' :: ("UTF-8''".toList ++ s)) := by
    refine ⟨by simp, head_of_token hstar _ (by simp), fun c hc => ?_⟩
    rcases List.eq_nil_or_concat' s with rfl | ⟨r, d, rfl⟩
    · have hc : c = '\'' := by simpa using hc.symm
      rw [hc]
      decide
    · rw [show name ++ ['*'] ++ '=' :: ("UTF-8''".toList ++ (r ++ [d])) = name ++ ['*'] ++ '=' :: ("UTF-8''".toList ++ r)
        ++ [d] by simp, List.getLast?_concat] at hc
      rw [← Option.some.inj hc]
      exact hlast d (by rw [List.getLast?_concat]; rfl)
  have hsplit : name ++ '*' :: '=' :: ("UTF-8''".toList ++ s) = name ++ ['*'] ++ '=' :: ("UTF-8''".toList ++ s) := by simp
  unfold param
  rw [hsplit, trim_blank (by decide), trim_tight htight, Text.cut_append (not_mem_of_token hstar (by decide)),
    Option.bind_some]
  dsimp only
  rw [if_neg (by simp [hstar]), if_pos (by simp), List.dropLast_concat]
  have hext : extended ("UTF-8''".toList ++ s) = some bs := by
    unfold extended
    rw [show "UTF-8''".toList ++ s = "UTF-8".toList ++ '\'' :: ('\'' :: s) from rfl,
      Text.cut_append (by decide), Option.bind_some]
    dsimp only
    show ((Text.cut ([] ++ '\'' :: s) '\'').bind _) = _
    rw [Text.cut_append List.not_mem_nil, Option.bind_some]
    exact (if_pos (by decide)).trans hs
  rw [hext]
  rfl

theorem Tight.append {s t : Text} (h : Tight s) (ht : ∀ c ∈ t.getLast?, isWSP c = false) : Tight (s ++ t) := by
  refine ⟨List.append_ne_nil_of_left_ne_nil h.ne t, fun c hc => h.head c ?_, fun c hc => ?_⟩
  · rwa [List.head?_append_of_ne_nil _ h.ne] at hc
  · rw [List.getLast?_append] at hc
    cases hlast : t.getLast? with
    | none =>
        rw [hlast] at hc
        exact h.last c hc
    | some d =>
        rw [hlast] at hc
        exact ht c (hlast.trans hc)

/-- A quoted parameter is one piece, and the quotes are closed behind it. -/
theorem piece_quoted {name s : Text} (hname : name.all isToken = true) (hs : Quotable s) :
    pieces .outside (' ' :: (name ++ '=' :: '"' :: (s ++ ['"']))) = [' ' :: (name ++ '=' :: '"' :: (s ++ ['"']))] ∧
      (' ' :: (name ++ '=' :: '"' :: (s ++ ['"']))).foldl Quote.step .outside = .outside := by
  have hplain : ∀ c ∈ ' ' :: (name ++ ['=']), c ≠ ';' ∧ c ≠ '"' := by
    intro c hc
    rcases List.mem_cons.mp hc with rfl | hc
    · decide
    · rcases List.mem_append.mp hc with hc | hc
      · have htoken := List.all_eq_true.mp hname c hc
        refine ⟨?_, ?_⟩
        · rintro rfl
          cases htoken
        · rintro rfl
          cases htoken
      · rw [List.mem_singleton.mp hc]
        decide
  have hsplit : ' ' :: (name ++ '=' :: '"' :: (s ++ ['"'])) = ' ' :: (name ++ ['=']) ++ '"' :: (s ++ ['"']) := by simp
  have hquote : pieces .outside ('"' :: (s ++ ['"'])) = ['"' :: (s ++ ['"'])] := by
    rw [pieces, if_neg (by simp), show Quote.step .outside '"' = .inside from rfl, pieces_quoted hs]
    rfl
  refine ⟨?_, ?_⟩
  · rw [hsplit, pieces_plain hplain hquote]
  · rw [hsplit, List.foldl_append, foldl_plain fun c hc => (hplain c hc).2]
    exact foldl_quoted hs

/-- **A quoted parameter behind a value** that has none of its name. -/
theorem params_quoted {v name s : Text} {ps : List (Text × Bytes)} (hv : params v = some ps) (hname : IsName name)
    (hs : Quotable s) (hnew : lower name ∉ ps.map Prod.fst) :
    params (v ++ ';' :: ' ' :: (name ++ '=' :: '"' :: (s ++ ['"']))) = some (ps ++ [(lower name, Utf8.encode s)]) := by
  obtain ⟨hpieces, hends⟩ := piece_quoted hname.token hs
  rw [params_append hv hpieces hends (param_quoted hname hs), if_neg hnew]

/-- The same in bytes. -/
theorem params_extended {v name s : Text} {ps : List (Text × Bytes)} {bs : Bytes} (hv : params v = some ps)
    (hname : name.all isToken = true) (hs : octets s = some bs)
    (hplain : ∀ c ∈ s, isWSP c = false ∧ c ≠ ';' ∧ c ≠ '"') (hnew : lower name ∉ ps.map Prod.fst) :
    params (v ++ ';' :: ' ' :: (name ++ '*' :: '=' :: ("UTF-8''".toList ++ s))) = some (ps ++ [(lower name, bs)]) := by
  have hall : ∀ c ∈ ' ' :: (name ++ '*' :: '=' :: ("UTF-8''".toList ++ s)), c ≠ ';' ∧ c ≠ '"' := by
    intro c hc
    rcases List.mem_cons.mp hc with rfl | hc
    · decide
    · rcases List.mem_append.mp hc with hc | hc
      · have htoken := List.all_eq_true.mp hname c hc
        refine ⟨?_, ?_⟩
        · rintro rfl
          cases htoken
        · rintro rfl
          cases htoken
      · rcases List.mem_append.mp (show c ∈ "*=UTF-8''".toList ++ s from hc) with hc | hc
        · exact (show ∀ c ∈ "*=UTF-8''".toList, c ≠ ';' ∧ c ≠ '"' by decide) c hc
        · exact (hplain c hc).2
  have hpieces := pieces_plain hall (show pieces .outside [] = [] :: [] from rfl)
  rw [List.append_nil] at hpieces
  rw [params_append hv hpieces (foldl_plain fun c hc => (hall c hc).2)
    (param_extended hname (fun c hc => (hplain c (List.mem_of_getLast? hc)).1) hs), if_neg hnew]

/-- A parameter has the name in front of its first equals sign. -/
theorem param_name {name t : Text} {x : Text × Bytes} (hname : IsName name)
    (h : param (' ' :: (name ++ '=' :: t)) = some x) : x.1 = lower name := by
  have htight : Tight (name ++ ['=']) := by
    refine ⟨by simp, head_of_token hname.token _ hname.ne, fun c hc => ?_⟩
    rw [List.getLast?_concat] at hc
    rw [← Option.some.inj hc]
    decide
  unfold param at h
  rw [List.append_cons, trim_blank (by decide), trim_append htight, ← List.append_cons,
    Text.cut_append (not_mem_of_token hname.token (by decide)), Option.bind_some] at h
  dsimp only at h
  rw [if_neg (by simp [hname.ne, hname.token]), if_neg hname.last] at h
  obtain ⟨v, -, rfl⟩ := Option.map_eq_some_iff.mp h
  rfl

theorem closed_of_params {v : Text} {ps : List (Text × Bytes)} (h : params v = some ps) :
    v.foldl Quote.step .outside = .outside := by
  unfold params at h
  split at h
  · rename_i hkind
    exact hkind.2
  · cases h

/-- A parameter that is no charset does not change how the content is read. -/
theorem isUtf8_append {v p : Text} {ps : List (Text × Bytes)} (hv : params v = some ps)
    (hpieces : pieces .outside p = [p]) (hp : ∀ x, param p = some x → x.1 ≠ "charset".toList) :
    isUtf8 (v ++ ';' :: p) = isUtf8 v := by
  have hcharsets : charsets (v ++ ';' :: p) = charsets v := by
    obtain ⟨k, ks, hk⟩ := exists_pieces .outside v
    unfold charsets
    rw [pieces_append v p .outside (closed_of_params hv), hpieces, hk]
    show ((ks ++ [p]).filterMap param).filterMap _ = (ks.filterMap param).filterMap _
    rw [List.filterMap_append, List.filterMap_append]
    have hnone : ([p].filterMap param).filterMap (fun x =>
        if x.1 = "charset".toList then some (lower (Utf8.runes x.2)) else none) = [] := by
      rw [List.filterMap_eq_nil_iff]
      intro x hx
      obtain ⟨q, hq, hparam⟩ := List.mem_filterMap.mp hx
      rw [List.mem_singleton.mp hq] at hparam
      exact if_neg (hp x hparam)
    rw [hnone, List.append_nil]
  unfold isUtf8
  rw [kindOf_append, hcharsets]

/-! ### Headers -/

/-- The lines a text adds in front of what follows it; no line end in them is left. -/
structure Lined (p : Text) (ls : List Text) : Prop where
  lines : ∀ t, Fields.lines (p ++ t) = ls ++ Fields.lines t
  clean : ∀ l ∈ ls, NoBreaks l

theorem lined_nil : Lined [] [] := ⟨fun _ => rfl, fun _ hl => absurd hl List.not_mem_nil⟩

theorem Lined.append {p q : Text} {ls ks : List Text} (hp : Lined p ls) (hq : Lined q ks) :
    Lined (p ++ q) (ls ++ ks) := by
  refine ⟨fun t => ?_, List.forall_mem_append.mpr ⟨hp.clean, hq.clean⟩⟩
  rw [List.append_assoc, hp.lines, hq.lines, List.append_assoc]

theorem lined_line {l : Text} (h : NoBreaks l) : Lined (l ++ crlf) [l] := by
  refine ⟨fun t => ?_, List.forall_mem_singleton.mpr h⟩
  rw [Fields.lines_append_crlf, Fields.lines_of_noBreaks h]

theorem lined_flatMap {α : Type} {f : α → Text} {g : α → List Text} (l : List α) (h : ∀ a ∈ l, Lined (f a) (g a)) :
    Lined (l.flatMap f) (l.flatMap g) := by
  induction l with
  | nil => exact lined_nil
  | cons a l ih =>
      rw [List.flatMap_cons, List.flatMap_cons]
      exact (h a List.mem_cons_self).append (ih fun b hb => h b (List.mem_cons_of_mem _ hb))

/-- A field as it is written, possibly in several lines. -/
structure IsField (f : Text) : Prop where
  folded : folded f = true
  named : ∃ n v, f = n ++ ':' :: v ∧ n ≠ [] ∧ n.all isToken = true

/-- A line that others go on with. -/
def GoesOn (x : Text) : Prop := NoBreaks x ∧ ∃ w x', x = w :: x' ∧ isWSP w = true

/-- The lines of a field: the first begins as the field does, the others with blanks. -/
structure FieldLines (f l : Text) (ls : List Text) : Prop where
  lines : Fields.lines f = l :: ls
  first : NoBreaks l
  isField : isField l = true
  head : l.head? = f.head?
  others : ∀ x ∈ ls, GoesOn x
  unfolded : unfolded f = l ++ ls.flatten

theorem solid_of_isToken {c : Char} (h : isToken c = true) : Fields.Solid c :=
  ⟨isWSP_of_isToken h, Fields.isBreak_eq_false (by decide) (by decide) h⟩

theorem lines_append {s t k : Text} {ks : List Text} (hs : NoBreaks s) (ht : Fields.lines t = k :: ks) :
    Fields.lines (s ++ t) = (s ++ k) :: ks := by
  induction s with
  | nil => exact ht
  | cons c s ih =>
      refine Fields.lines_cons (fun t' hcr _ => ?_) (ih fun d hd => hs d (List.mem_cons_of_mem _ hd))
      have hbreak := hs c List.mem_cons_self
      rw [hcr] at hbreak
      cases hbreak

theorem exists_fieldLines {f : Text} (h : IsField f) : ∃ l ls, FieldLines f l ls := by
  obtain ⟨hfolded, n, v, rfl, hne, htoken⟩ := h
  have hbreaks : NoBreaks (n ++ [':']) := by
    refine Fields.noBreaks_append_iff.mpr ⟨fun c hc => ?_, Fields.noBreaks_singleton (by decide)⟩
    exact (solid_of_isToken (List.all_eq_true.mp htoken c hc)).2
  obtain ⟨l, ls, hl⟩ := Fields.foldedLines _ hfolded
  obtain ⟨k, ks, hk⟩ := Fields.exists_lines v
  have hlines := lines_append hbreaks hk
  rw [List.append_assoc, List.append_assoc] at hlines
  obtain ⟨rfl, rfl⟩ := List.cons.inj (hl.lines.symm.trans hlines)
  refine ⟨_, _, hl.lines, hl.first, ?_, ?_, hl.others, hl.unfolded⟩
  · unfold isField
    rw [List.singleton_append, Text.cut_append (not_mem_of_token htoken (by decide))]
    simp [hne, htoken]
  · obtain ⟨c, t, rfl⟩ := List.exists_cons_of_ne_nil hne
    rfl

theorem lined_field {f l : Text} {ls : List Text} (h : FieldLines f l ls) : Lined (f ++ crlf) (l :: ls) := by
  refine ⟨fun t => ?_, List.forall_mem_cons.mpr ⟨h.first, fun x hx => (h.others x hx).1⟩⟩
  rw [Fields.lines_append_crlf, h.lines]

theorem lined_write {fields : List Text} (h : ∀ f ∈ fields, IsField f) :
    Lined (Fields.write fields) (fields.flatMap Fields.lines) := by
  refine lined_flatMap fields fun f hf => ?_
  obtain ⟨l, ls, hl⟩ := exists_fieldLines (h f hf)
  rw [hl.lines]
  exact lined_field hl

/-- Lines that go on with a field. -/
theorem header_others (others ls : List Text) (fs : List Text) :
    ∀ f : Text, (∀ x ∈ others, GoesOn x) →
      header (fs ++ [f]) (others ++ ls) = header (fs ++ [f ++ others.flatten]) ls := by
  induction others with
  | nil =>
      intro f _
      rw [List.flatten_nil, List.append_nil, List.nil_append]
  | cons x others ih =>
      intro f h
      obtain ⟨hbreaks, w, x', rfl, hw⟩ := h x List.mem_cons_self
      have hadd : addLine (fs ++ [f]) (w :: x') = some (fs ++ [f ++ w :: x']) := by
        unfold addLine
        rw [if_neg (by rw [Fields.any_isBreak_iff.mpr hbreaks]; decide), if_pos (by simp [hw]), Fields.goOn_concat]
      rw [List.cons_append, header, if_neg (List.cons_ne_nil _ _), if_pos (.inr ⟨by simp, by simp [hw]⟩), hadd,
        Option.bind_some, ih _ fun y hy => h y (List.mem_cons_of_mem _ hy), List.flatten_cons, List.append_assoc]

theorem ne_nil_of_isField {l : Text} (h : isField l = true) : l ≠ [] := by
  rintro rfl
  cases h

/-- A line with a name in front does not go on with the field before. -/
theorem head_of_isField {l : Text} (h : isField l = true) : l.head?.any isWSP = false := by
  unfold isField at h
  cases hcut : Text.cut l ':' with
  | none =>
      rw [hcut] at h
      cases h
  | some p =>
      obtain ⟨n, v⟩ := p
      rw [hcut] at h
      simp only [Bool.and_eq_true, bne_iff_ne, ne_eq] at h
      rw [Text.eq_of_cut hcut]
      obtain ⟨c, t, rfl⟩ := List.exists_cons_of_ne_nil h.1
      exact isWSP_of_isToken (List.all_eq_true.mp h.2 c List.mem_cons_self)

/-- **The fields of a header are read back**, unfolded. -/
theorem header_write (fields ls : List Text) : ∀ fs, (∀ f ∈ fields, IsField f) →
    header fs (fields.flatMap Fields.lines ++ [] :: ls) = some (fs ++ fields.map unfolded, ls) := by
  induction fields with
  | nil =>
      intro fs _
      rw [List.map_nil, List.append_nil]
      exact if_pos rfl
  | cons f fields ih =>
      intro fs h
      obtain ⟨l, others, hl⟩ := exists_fieldLines (h f List.mem_cons_self)
      have hadd : addLine fs l = some (fs ++ [l]) := by
        unfold addLine
        rw [if_neg (by rw [Fields.any_isBreak_iff.mpr hl.first]; decide),
          if_neg (by rw [head_of_isField hl.isField]; decide)]
      rw [List.flatMap_cons, hl.lines, List.cons_append, List.cons_append, List.append_assoc, header,
        if_neg (ne_nil_of_isField hl.isField), if_pos (.inl hl.isField), hadd, Option.bind_some,
        header_others _ _ _ _ hl.others, ← hl.unfolded, ih _ fun g hg => h g (List.mem_cons_of_mem _ hg), List.map_cons,
        List.append_assoc]
      rfl

/-- A text without line ends is not unfolded. -/
theorem unfolded_append {s : Text} (h : NoBreaks s) (t : Text) : unfolded (s ++ t) = s ++ unfolded t := by
  induction s with
  | nil => rfl
  | cons c s ih =>
      have hc : c ≠ '\r' := by
        intro heq
        have hbreak := h c List.mem_cons_self
        rw [heq] at hbreak
        cases hbreak
      rw [List.cons_append, FlyMail.Fields.unfolded.eq_3 c _ fun _ _ heq _ => hc heq, ih fun d hd => h d (List.mem_cons_of_mem _ hd)]
      rfl

theorem unfolded_of_noBreaks {t : Text} (h : NoBreaks t) : unfolded t = t := by
  have happend := unfolded_append h []
  rwa [List.append_nil, show unfolded [] = [] from rfl, List.append_nil] at happend

theorem mem_of_mem_unfolded {t : Text} {c : Char} (h : c ∈ unfolded t) : c ∈ t := by
  induction t using FlyMail.Fields.unfolded.induct with
  | case1 => exact h
  | case2 w t hw ih =>
      rw [unfolded, if_pos hw] at h
      rcases List.mem_cons.mp h with rfl | h
      · simp
      · simp [ih h]
  | case3 w t hw ih =>
      rw [unfolded, if_neg hw] at h
      rcases List.mem_cons.mp h with rfl | h
      · simp
      · rcases List.mem_cons.mp h with rfl | h
        · simp
        · exact List.mem_cons_of_mem _ (List.mem_cons_of_mem _ (ih h))
  | case4 d t hd ih =>
      rw [FlyMail.Fields.unfolded.eq_3 d t hd] at h
      rcases List.mem_cons.mp h with rfl | h
      · simp
      · exact List.mem_cons_of_mem _ (ih h)

/-- **The first field with the name counts.** -/
theorem get_cons {n v : Text} {fs : List Text} {name : Text} (hn : ':' ∉ n) :
    get ((n ++ ':' :: v) :: fs) name = if lower n = name then some (trim v) else get fs name := by
  unfold get
  rw [List.findSome?_cons, Text.cut_append hn, Option.bind_some]
  dsimp only
  by_cases h : lower n = name
  · rw [if_pos h, if_pos h]
  · rw [if_neg h, if_neg h]

theorem get_nil (name : Text) : get [] name = none := rfl

/-! ### Parts -/

section Parts

variable {d : Text} (hd : ∀ c ∈ d.getLast?, isWSP c = false) (hne : d ≠ [])

include hd hne

theorem isLine_self : isLine d d = true := by
  have happend := rdropWhile_append hne hd []
  rw [List.append_nil, List.rdropWhile_nil, List.append_nil] at happend
  unfold isLine
  rw [happend]
  exact beq_self_eq_true d

/-- The line that closes a container is not one between its parts. -/
theorem isLine_close : isLine d (d ++ "--".toList) = false := by
  have happend := rdropWhile_append hne hd "--".toList
  have hclose : "--".toList.rdropWhile isWSP = "--".toList := by decide
  unfold isLine
  rw [happend, hclose, beq_eq_false_iff_ne]
  exact fun heq => absurd (List.self_eq_append_right.mp heq.symm) (by decide)

omit hd hne in
theorem isLine_close_self : isLine (d ++ "--".toList) (d ++ "--".toList) = true :=
  isLine_self (fun c hc => by
    rw [List.getLast?_append_of_ne_nil _ (by decide)] at hc
    rw [← Option.some.inj hc]
    decide) (by simp)

omit hd hne in
/-- A line is only taken for a delimiter if it begins like one. -/
theorem isLine_of_not_prefix {d' l : Text} (hd' : d <+: d') (h : d.isPrefixOf l = false) : isLine d' l = false := by
  unfold isLine
  rw [beq_eq_false_iff_ne]
  intro heq
  have hprefix : d <+: l := hd'.trans (heq ▸ List.rdropWhile_prefix isWSP l)
  rw [List.isPrefixOf_iff_prefix.mpr hprefix] at h
  cases h

/-- **The parts of a container**, none of whose lines begins as its delimiter does. -/
theorem readParts_parts (parts : List (List Text)) (h : ∀ p ∈ parts, ∀ l ∈ p, d.isPrefixOf l = false)
    (rest : List Text) :
    readParts d none (parts.flatMap (d :: ·) ++ (d ++ "--".toList) :: rest) = some parts := by
  have hself := isLine_self hd hne
  have hopen : isLine (d ++ "--".toList) d = false := by
    have happend := rdropWhile_append hne hd []
    rw [List.append_nil, List.rdropWhile_nil, List.append_nil] at happend
    unfold isLine
    rw [happend, beq_eq_false_iff_ne]
    exact fun heq => absurd (List.self_eq_append_right.mp heq) (by decide)
  have hskip : ∀ (p ls cur : List Text), (∀ l ∈ p, d.isPrefixOf l = false) →
      readParts d (some cur) (p ++ ls) = readParts d (some (cur ++ p)) ls := by
    intro p
    induction p with
    | nil =>
        intro ls cur _
        rw [List.append_nil, List.nil_append]
    | cons l p ih =>
        intro ls cur hp
        have hnot := hp l List.mem_cons_self
        have hline : isLine d l = false := isLine_of_not_prefix (List.prefix_refl d) hnot
        have hclose : isLine (d ++ "--".toList) l = false := isLine_of_not_prefix (List.prefix_append _ _) hnot
        rw [List.cons_append, readParts, hline, hclose, hnot, if_neg Bool.false_ne_true, if_neg Bool.false_ne_true,
          if_neg Bool.false_ne_true]
        show readParts d (some (cur ++ [l])) (p ++ ls) = _
        rw [ih ls _ fun k hk => hp k (List.mem_cons_of_mem _ hk), List.append_assoc]
        rfl
  have hfrom : ∀ cur : Option (List Text), readParts d cur (parts.flatMap (d :: ·) ++ (d ++ "--".toList) :: rest)
      = some (cur.toList ++ parts) := by
    induction parts with
    | nil =>
        intro cur
        rw [List.flatMap_nil, List.nil_append, List.append_nil, readParts, isLine_close_self, if_pos rfl]
    | cons p parts ih =>
        intro cur
        rw [List.flatMap_cons, List.append_assoc, List.cons_append, readParts, hopen, hself,
          if_neg Bool.false_ne_true, if_pos rfl, hskip p _ [] (h p List.mem_cons_self),
          ih (fun q hq => h q (List.mem_cons_of_mem _ hq))]
        rfl
  exact hfrom none

end Parts

/-! ### Mails -/

variable {base64 : Text → Option Bytes} {fields : List Text} {body : List Text} {depth : Nat}

/-- A mail without parts. -/
theorem leaves_leaf {content : Bytes} (hfields : ∀ f ∈ fields, IsField f)
    (hleaf : isContainer (fields.map unfolded) = false) (hcontent : decode base64 (fields.map unfolded) body = some content) :
    leaves base64 (depth + 1) (fields.flatMap Fields.lines ++ [] :: body) = some [⟨fields.map unfolded, content⟩] := by
  rw [leaves, header_write fields body [] hfields, Option.bind_some]
  dsimp only
  rw [List.nil_append, hleaf, if_neg Bool.false_ne_true, hcontent]
  rfl

/-- **A container has the leaves of its parts.** -/
theorem leaves_container {d : Text} {parts : List (List Text)} {found : List (List Leaf)} {rest : List Text}
    (hfields : ∀ f ∈ fields, IsField f) (hcontainer : isContainer (fields.map unfolded) = true)
    (hd : delimiterOf (fields.map unfolded) = some d) (hlast : ∀ c ∈ d.getLast?, isWSP c = false) (hne : d ≠ [])
    (hparts : ∀ p ∈ parts, ∀ l ∈ p, d.isPrefixOf l = false) (hfound : parts.mapM (leaves base64 depth) = some found) :
    leaves base64 (depth + 1)
      (fields.flatMap Fields.lines ++ [] :: (parts.flatMap (d :: ·) ++ (d ++ "--".toList) :: rest))
        = some found.flatten := by
  rw [leaves, header_write fields _ [] hfields, Option.bind_some]
  dsimp only
  rw [List.nil_append, hcontainer, if_pos rfl, hd, Option.bind_some, readParts_parts hlast hne parts hparts,
    Option.bind_some, hfound]
  rfl

/-- **A mail is read by its lines.** -/
theorem read_lined {t : Text} {ls : List Text} {found : List Leaf} (h : Lined t ls)
    (hfound : leaves base64 (ls.length + 2) (ls ++ [[]]) = some found) : read base64 t = some found := by
  have hlines : Fields.lines t = ls ++ [[]] := by
    have hall := h.lines []
    rwa [List.append_nil] at hall
  have hclean : (ls ++ [[]]).all (fun l => !l.any isBreak) = true := by
    rw [List.all_eq_true]
    intro l hl
    rcases List.mem_append.mp hl with hl | hl
    · rw [Fields.any_isBreak_iff.mpr (h.clean l hl)]
      rfl
    · rw [List.mem_singleton.mp hl]
      rfl
  unfold read
  dsimp only
  rw [hlines, if_pos hclean, List.length_append]
  exact hfound

end FlyMail.Mime
