/-
The candidates of a `srcset`.

`parse` is what a browser does: it reads one character after another, and where a comma stands decides
what it is.  Behind an address without a blank it belongs to the address, unless the address ends with
it; behind a descriptor it ends the candidate, unless it is in brackets.  `Item` is what an author may
write.  What is written so is read as it was meant (`parse_render`).
-/
import FlyMail.Lib.Text
import Mathlib.Data.List.Chain
import Mathlib.Data.List.DropRight

namespace FlyMail.Srcset

/-- An address, and the descriptors behind it. -/
structure Candidate where
  url : Text
  descriptors : List Text
  deriving DecidableEq, Repr

def isBlank (c : Char) : Bool := c == ' ' || c == '\t' || c == '\n' || c.toNat == 12 || c == '\r'

/-! ### Reading -/

/-- Where the reader is, with what it has of the candidate. -/
inductive Mode
  | start
  | url (u : Text)
  | descriptor (u : Text) (ds : List Text) (cur : Text)
  | parens (u : Text) (ds : List Text) (cur : Text)
  | after (u : Text) (ds : List Text)
  deriving DecidableEq, Repr

def addCur (ds : List Text) (cur : Text) : List Text := if cur = [] then ds else ds ++ [cur]

/-- The address without the commas at its end. -/
def trimCommas (u : Text) : Text := u.rdropWhile (· == ',')

/-- A character of a descriptor, `cur` what there is of it. -/
def stepDescriptor (u : Text) (ds : List Text) (cur : Text) (c : Char) : List Candidate × Mode :=
  if isBlank c then ([], .after u (addCur ds cur))
  else if c = ',' then ([⟨u, addCur ds cur⟩], .start)
  else if c = '(' then ([], .parens u ds (cur ++ [c]))
  else ([], .descriptor u ds (cur ++ [c]))

def step : Mode → Char → List Candidate × Mode
  | .start, c => if isBlank c || c == ',' then ([], .start) else ([], .url [c])
  | .url u, c =>
      if isBlank c then
        if u.getLast? = some ',' then ([⟨trimCommas u, []⟩], .start) else ([], .descriptor u [] [])
      else ([], .url (u ++ [c]))
  | .descriptor u ds cur, c => stepDescriptor u ds cur c
  | .parens u ds cur, c =>
      if c = ')' then ([], .descriptor u ds (cur ++ [c])) else ([], .parens u ds (cur ++ [c]))
  | .after u ds, c => if isBlank c then ([], .after u ds) else stepDescriptor u ds [] c

def run : Mode → Text → List Candidate × Mode
  | m, [] => ([], m)
  | m, c :: t => ((step m c).1 ++ (run (step m c).2 t).1, (run (step m c).2 t).2)

def finish : Mode → List Candidate
  | .start => []
  | .url u => [⟨trimCommas u, []⟩]
  | .descriptor u ds cur | .parens u ds cur => [⟨u, addCur ds cur⟩]
  | .after u ds => [⟨u, ds⟩]

def parse (t : Text) : List Candidate := (run .start t).1 ++ finish (run .start t).2

theorem run_append (t u : Text) : ∀ m, run m (t ++ u) =
    ((run m t).1 ++ (run (run m t).2 u).1, (run (run m t).2 u).2) := by
  induction t with
  | nil => exact fun m => rfl
  | cons c t ih =>
    intro m
    rw [List.cons_append, run, run, ih]
    simp only [List.append_assoc]

/-! ### Writing -/

/-- A candidate as an author writes it: an address, a descriptor or none, and blanks. -/
structure Item where
  lead : Text
  url : Text
  gap : Text
  descriptor : Text
  trail : Text
  deriving DecidableEq, Repr

/-- What a descriptor is made of. -/
def isDescriptorChar (c : Char) : Bool :=
  ('0' ≤ c && c ≤ '9') || ('a' ≤ c && c ≤ 'z') || c == 'E' || c == '+' || c == '-' || c == '.'

/-- The item is as it should be. Besides the blanks, a vertical tab is in no address. -/
structure Item.Valid (it : Item) : Prop where
  lead : ∀ c ∈ it.lead, isBlank c = true
  url_ne_nil : it.url ≠ []
  url : ∀ c ∈ it.url, isBlank c = false ∧ c.toNat ≠ 11
  url_head : it.url.head? ≠ some ','
  url_last : it.url.getLast? ≠ some ','
  gap : ∀ c ∈ it.gap, isBlank c = true
  descriptor : ∀ c ∈ it.descriptor, isDescriptorChar c = true
  gap_ne_nil : it.descriptor ≠ [] → it.gap ≠ []
  trail : ∀ c ∈ it.trail, isBlank c = true
  trail_nil : it.descriptor = [] → it.trail = []

def Item.text (it : Item) : Text := it.lead ++ it.url ++ it.gap ++ it.descriptor ++ it.trail

/-- There is nothing behind the address. -/
def Item.Bare (it : Item) : Prop := it.gap = []

def Item.candidate (it : Item) : Candidate := ⟨it.url, addCur [] it.descriptor⟩

/-- What may stand side by side: behind an address alone there is a blank. -/
def Follows (a b : Item) : Prop := a.Bare → b.lead ≠ []

def render (items : List Item) : Text := Text.join (items.map Item.text) [',']

/-- One candidate or more, side by side as they may stand. -/
structure Authored (items : List Item) : Prop where
  ne_nil : items ≠ []
  valid : ∀ it ∈ items, it.Valid
  follows : items.IsChain Follows

/-! ### What is written is read -/

/-- Where the reader is behind a candidate that a comma and a blank would end. -/
def Pending (m : Mode) (c : Candidate) : Prop :=
  finish m = [c] ∧ ∀ b, isBlank b = true → run m [',', b] = ([c], .start)

theorem run_start_blank {t : Text} (h : ∀ c ∈ t, isBlank c = true) : run .start t = ([], .start) := by
  induction t with
  | nil => rfl
  | cons c t ih =>
    rw [run, step, if_pos (by simp [h c List.mem_cons_self]), ih fun d hd => h d (List.mem_cons_of_mem _ hd)]
    rfl

theorem run_url {t : Text} (h : ∀ c ∈ t, isBlank c = false) : ∀ u, run (.url u) t = ([], .url (u ++ t)) := by
  induction t with
  | nil => exact fun u => by rw [List.append_nil]; rfl
  | cons c t ih =>
    intro u
    rw [run, step, if_neg (by simp [h c List.mem_cons_self]), ih fun d hd => h d (List.mem_cons_of_mem _ hd),
      List.append_assoc]
    rfl

/-- The reader takes the address whole. -/
theorem run_start_url {u : Text} (hne : u ≠ []) (h : ∀ c ∈ u, isBlank c = false) (hhead : u.head? ≠ some ',') :
    run .start u = ([], .url u) := by
  obtain ⟨c, u, rfl⟩ := List.exists_cons_of_ne_nil hne
  have hc : c ≠ ',' := fun hc => hhead (by rw [hc]; rfl)
  have hblank := h c List.mem_cons_self
  rw [run, step, if_neg (by simp [hblank, hc]), run_url fun d hd => h d (List.mem_cons_of_mem _ hd)]
  rfl

theorem trimCommas_of_last {u : Text} (h : u.getLast? ≠ some ',') : trimCommas u = u := by
  unfold trimCommas
  refine List.rdropWhile_eq_self_iff.mpr fun hne hlast => h ?_
  rw [List.getLast?_eq_some_getLast hne]
  exact congrArg some (by simpa using hlast)

theorem trimCommas_concat (u : Text) : trimCommas (u ++ [',']) = trimCommas u :=
  List.rdropWhile_concat_pos _ _ _ (by rfl)

theorem pending_url {u : Text} (h : u.getLast? ≠ some ',') : Pending (.url u) ⟨u, []⟩ := by
  refine ⟨?_, fun b hb => ?_⟩
  · rw [finish, trimCommas_of_last h]
  · have hlast : (u ++ [',']).getLast? = some ',' := List.getLast?_concat
    rw [run, step, if_neg (by decide), run, step, if_pos hb, if_pos hlast, trimCommas_concat, trimCommas_of_last h]
    rfl

/-- Where the reader is behind a candidate that a comma ends. -/
def Closed (m : Mode) (c : Candidate) : Prop := finish m = [c] ∧ run m [','] = ([c], .start)

theorem Closed.pending {m : Mode} {c : Candidate} (h : Closed m c) : Pending m c := by
  refine ⟨h.1, fun b hb => ?_⟩
  have htwo : run m ([','] ++ [b]) = _ := run_append [','] [b] m
  rw [h.2, run_start_blank fun d hd => by rwa [List.mem_singleton.mp hd]] at htwo
  exact htwo

theorem closed_descriptor (u : Text) (ds : List Text) (cur : Text) :
    Closed (.descriptor u ds cur) ⟨u, addCur ds cur⟩ := ⟨rfl, rfl⟩

theorem closed_after (u : Text) (ds : List Text) : Closed (.after u ds) ⟨u, ds⟩ := ⟨rfl, rfl⟩

theorem run_after_blank {u : Text} {ds : List Text} {t : Text} (h : ∀ c ∈ t, isBlank c = true) :
    run (.after u ds) t = ([], .after u ds) := by
  induction t with
  | nil => rfl
  | cons c t ih =>
    rw [run, step, if_pos (h c List.mem_cons_self), ih fun d hd => h d (List.mem_cons_of_mem _ hd)]
    rfl

theorem plain_descriptor {c : Char} (h : isDescriptorChar c = true) : isBlank c = false ∧ c ≠ ',' ∧ c ≠ '(' := by
  have hno (d : Char) (hd : isDescriptorChar d = false) : c ≠ d := by
    rintro rfl
    rw [h] at hd
    cases hd
  have hspace := hno ' ' (by decide)
  have htab := hno '\t' (by decide)
  have hlf := hno '\n' (by decide)
  have hcr := hno '\r' (by decide)
  have hff : c.toNat ≠ 12 := by
    intro hc
    have hchar : c = Char.ofNat 12 := by rw [← hc, Char.ofNat_toNat]
    exact hno _ (by decide) hchar
  exact ⟨by simp [isBlank, hspace, htab, hlf, hcr, hff], hno ',' (by decide), hno '(' (by decide)⟩

theorem run_descriptor {u : Text} {ds : List Text} {t : Text} (h : ∀ c ∈ t, isDescriptorChar c = true) :
    ∀ cur, run (.descriptor u ds cur) t = ([], .descriptor u ds (cur ++ t)) := by
  induction t with
  | nil => exact fun cur => by rw [List.append_nil]; rfl
  | cons c t ih =>
    intro cur
    obtain ⟨hblank, hcomma, hopen⟩ := plain_descriptor (h c List.mem_cons_self)
    have hstep : step (.descriptor u ds cur) c = ([], .descriptor u ds (cur ++ [c])) := by
      simp [step, stepDescriptor, hblank, hcomma, hopen]
    rw [run, hstep, ih fun d hd => h d (List.mem_cons_of_mem _ hd), List.append_assoc]
    rfl

/-- The blanks behind an address lead to its descriptors. -/
theorem run_gap {u g : Text} (hlast : u.getLast? ≠ some ',') (hne : g ≠ []) (hg : ∀ c ∈ g, isBlank c = true) :
    run (.url u) g = ([], .descriptor u [] []) ∨ run (.url u) g = ([], .after u []) := by
  obtain ⟨b, g, rfl⟩ := List.exists_cons_of_ne_nil hne
  have hstep : step (.url u) b = ([], .descriptor u [] []) := by
    rw [step, if_pos (hg b List.mem_cons_self), if_neg hlast]
  cases g with
  | nil =>
    left
    rw [run, hstep]
    rfl
  | cons b' g =>
    right
    have hblank := hg b' (List.mem_cons_of_mem _ List.mem_cons_self)
    have hstep' : step (.descriptor u [] []) b' = ([], .after u []) := by
      rw [step, stepDescriptor, if_pos hblank]
      rfl
    rw [run, hstep, run, hstep',
      run_after_blank fun c hc => hg c (List.mem_cons_of_mem _ (List.mem_cons_of_mem _ hc))]
    rfl

/-- A descriptor behind the blanks. -/
theorem run_first_descriptor {u d : Text} (hd : ∀ c ∈ d, isDescriptorChar c = true) (hne : d ≠ []) {m : Mode}
    (hm : m = .descriptor u [] [] ∨ m = .after u []) : run m d = ([], .descriptor u [] d) := by
  rcases hm with rfl | rfl
  · exact run_descriptor hd []
  · obtain ⟨c, d, rfl⟩ := List.exists_cons_of_ne_nil hne
    obtain ⟨hblank, hcomma, hopen⟩ := plain_descriptor (hd c List.mem_cons_self)
    have hfirst : step (.after u []) c = ([], .descriptor u [] [c]) := by
      simp [step, stepDescriptor, hblank, hcomma, hopen]
    rw [run, hfirst, run_descriptor fun x hx => hd x (List.mem_cons_of_mem _ hx)]
    rfl

/-- The reader has an item's candidate behind it. -/
theorem run_item {it : Item} (h : it.Valid) : ∃ m, run .start it.text = ([], m) ∧ Pending m it.candidate ∧
    (¬ it.Bare → Closed m it.candidate) := by
  have hurl : run .start (it.lead ++ it.url) = ([], .url it.url) := by
    rw [run_append, run_start_blank h.lead, run_start_url h.url_ne_nil (fun c hc => (h.url c hc).1) h.url_head]
    rfl
  unfold Item.text
  rw [List.append_assoc, List.append_assoc, run_append, hurl]
  by_cases hgap : it.gap = []
  · have hdescriptor : it.descriptor = [] := by_contra fun hne => h.gap_ne_nil hne hgap
    have htrail := h.trail_nil hdescriptor
    refine ⟨.url it.url, ?_, ?_, fun hbare => absurd hgap hbare⟩
    · rw [hgap, hdescriptor, htrail]
      rfl
    · unfold Item.candidate
      rw [hdescriptor]
      exact pending_url h.url_last
  · obtain ⟨m, hm, hmode⟩ : ∃ m, run (.url it.url) it.gap = ([], m) ∧
        (m = .descriptor it.url [] [] ∨ m = .after it.url []) := by
      rcases run_gap h.url_last hgap h.gap with hg | hg
      · exact ⟨_, hg, .inl rfl⟩
      · exact ⟨_, hg, .inr rfl⟩
    by_cases hdescriptor : it.descriptor = []
    · have htrail := h.trail_nil hdescriptor
      have hclosed : Closed m it.candidate := by
        unfold Item.candidate
        rw [hdescriptor]
        rcases hmode with rfl | rfl
        · exact closed_descriptor it.url [] []
        · exact closed_after it.url []
      refine ⟨m, ?_, hclosed.pending, fun _ => hclosed⟩
      dsimp only
      rw [hdescriptor, htrail, List.append_nil, List.append_nil, hm]
      rfl
    · have hfirst := run_first_descriptor h.descriptor hdescriptor hmode
      have hcandidate : it.candidate = ⟨it.url, [it.descriptor]⟩ := by
        unfold Item.candidate addCur
        rw [if_neg hdescriptor]
        rfl
      have hrun : run (.url it.url) (it.gap ++ (it.descriptor ++ it.trail))
          = ([], (run (.descriptor it.url [] it.descriptor) it.trail).2) ∧
            Closed (run (.descriptor it.url [] it.descriptor) it.trail).2 it.candidate := by
        rw [run_append, hm, run_append, hfirst]
        cases htrail : it.trail with
        | nil =>
          refine ⟨rfl, ?_⟩
          rw [hcandidate]
          have hclosed := closed_descriptor it.url [] it.descriptor
          rwa [addCur, if_neg hdescriptor] at hclosed
        | cons b t =>
          have hblank := h.trail b (htrail ▸ List.mem_cons_self)
          have hstep : step (.descriptor it.url [] it.descriptor) b = ([], .after it.url [it.descriptor]) := by
            rw [step, stepDescriptor, if_pos hblank, addCur, if_neg hdescriptor]
            rfl
          rw [run, hstep, run_after_blank fun c hc => h.trail c (htrail ▸ List.mem_cons_of_mem _ hc), hcandidate]
          exact ⟨rfl, closed_after _ _⟩
      refine ⟨_, ?_, hrun.2.pending, fun _ => hrun.2⟩
      rw [hrun.1]
      rfl

/-! ### Pieces behind one another -/

/-- What a text is read as between two candidates, and what is left pending at its end. -/
structure Reads (t : Text) (cs : List Candidate) (last : Candidate) (m : Mode) : Prop where
  run : run .start t = (cs, m)
  pending : Pending m last

theorem Reads.parse {t : Text} {cs : List Candidate} {last : Candidate} {m : Mode} (h : Reads t cs last m) :
    parse t = cs ++ [last] := by
  unfold Srcset.parse
  rw [h.run, h.pending.1]

theorem parse_blank {b : Char} (hb : isBlank b = true) (t : Text) : parse (b :: t) = parse t := by
  have hstep : step .start b = ([], .start) := by
    rw [step, if_pos (by simp [hb])]
  unfold Srcset.parse
  rw [Srcset.run, hstep]
  rfl

/-- A comma and a blank end it. -/
theorem Reads.append {t : Text} {cs : List Candidate} {last : Candidate} {m : Mode} (h : Reads t cs last m)
    {b : Char} (hb : isBlank b = true) (u : Text) :
    Srcset.parse (t ++ ',' :: b :: u) = Srcset.parse t ++ Srcset.parse u := by
  have htwo : ',' :: b :: u = [',', b] ++ u := rfl
  rw [h.parse]
  unfold Srcset.parse
  rw [htwo, run_append, h.run, run_append, h.pending.2 b hb]
  simp

theorem render_cons (it next : Item) (items : List Item) :
    render (it :: next :: items) = it.text ++ ',' :: render (next :: items) := by
  simp [render, Text.join, List.intercalate_cons_cons]

theorem render_singleton (it : Item) : render [it] = it.text := by
  simp [render, Text.join]

theorem exists_reads {it : Item} (h : it.Valid) :
    ∃ m, Reads it.text [] it.candidate m ∧ (¬ it.Bare → Closed m it.candidate) := by
  obtain ⟨m, hrun, hpending, hclosed⟩ := run_item h
  exact ⟨m, ⟨hrun, hpending⟩, hclosed⟩

/-- Behind an item the reader begins anew. -/
theorem run_item_append {it : Item} (h : it.Valid) {t : Text}
    (ht : it.Bare → ∃ b u, isBlank b = true ∧ t = b :: u) :
    run .start (it.text ++ ',' :: t) = (it.candidate :: (run .start t).1, (run .start t).2) := by
  obtain ⟨m, hreads, hclosed⟩ := exists_reads h
  by_cases hbare : it.Bare
  · obtain ⟨b, u, hb, rfl⟩ := ht hbare
    have htwo : ',' :: b :: u = [',', b] ++ u := rfl
    have hone : b :: u = [b] ++ u := rfl
    have hblank : run .start [b] = ([], .start) := run_start_blank fun d hd => by rwa [List.mem_singleton.mp hd]
    rw [htwo, run_append, hreads.run, run_append, hreads.pending.2 b hb, hone, run_append, hblank]
    rfl
  · have hone : ',' :: t = [','] ++ t := rfl
    rw [hone, run_append, hreads.run, run_append, (hclosed hbare).2]
    rfl

theorem parse_item_append {it : Item} (h : it.Valid) {t : Text}
    (ht : it.Bare → ∃ b u, isBlank b = true ∧ t = b :: u) :
    parse (it.text ++ ',' :: t) = it.candidate :: parse t := by
  unfold parse
  rw [run_item_append h ht]
  rfl

/-- Blanks in front of an item stand in front of all that follows. -/
theorem exists_blank {it : Item} (h : it.Valid) (hlead : it.lead ≠ []) (t : Text) :
    ∃ b u, isBlank b = true ∧ it.text ++ t = b :: u := by
  obtain ⟨b, lead, hcons⟩ := List.exists_cons_of_ne_nil hlead
  refine ⟨b, lead ++ it.url ++ it.gap ++ it.descriptor ++ it.trail ++ t,
    h.lead b (hcons ▸ List.mem_cons_self), ?_⟩
  unfold Item.text
  rw [hcons]
  rfl

/-- Where blanks are asked for, what follows begins with one. -/
theorem exists_blank_render {it next : Item} {items : List Item} (hnext : next.Valid) (hfollow : Follows it next) :
    it.Bare → ∃ b u, isBlank b = true ∧ render (next :: items) = b :: u := by
  intro hbare
  cases items with
  | nil =>
    rw [render_singleton, ← List.append_nil next.text]
    exact exists_blank hnext (hfollow hbare) []
  | cons third items =>
    rw [render_cons]
    exact exists_blank hnext (hfollow hbare) _

theorem Authored.tail {it next : Item} {items : List Item} (h : Authored (it :: next :: items)) :
    Authored (next :: items) where
  ne_nil := List.cons_ne_nil _ _
  valid x hx := h.valid x (List.mem_cons_of_mem _ hx)
  follows := h.follows.tail

/-- **What is written is read** as it was meant. -/
theorem parse_render {items : List Item} (h : Authored items) :
    parse (render items) = items.map Item.candidate := by
  induction items with
  | nil => rfl
  | cons it items ih =>
    have hit := h.valid it List.mem_cons_self
    cases items with
    | nil =>
      obtain ⟨m, hreads, -⟩ := exists_reads hit
      rw [render_singleton, hreads.parse]
      rfl
    | cons next items =>
      have hnext := h.valid next (List.mem_cons_of_mem _ List.mem_cons_self)
      have hfollow := (List.isChain_cons_cons.mp h.follows).1
      rw [render_cons, parse_item_append hit (exists_blank_render hnext hfollow), ih h.tail]
      rfl

/-- The last of the candidates is pending. -/
theorem exists_reads_render {items : List Item} (h : Authored items) :
    ∃ cs last m, Reads (render items) cs last m := by
  induction items with
  | nil => exact absurd rfl h.ne_nil
  | cons it items ih =>
    have hit := h.valid it List.mem_cons_self
    cases items with
    | nil =>
      obtain ⟨m, hreads, -⟩ := exists_reads hit
      exact ⟨[], it.candidate, m, by rwa [render_singleton]⟩
    | cons next items =>
      obtain ⟨cs, last, m, hreads⟩ := ih h.tail
      have hnext := h.valid next (List.mem_cons_of_mem _ List.mem_cons_self)
      have hfollow := (List.isChain_cons_cons.mp h.follows).1
      refine ⟨it.candidate :: cs, last, m, ?_, hreads.pending⟩
      rw [render_cons, run_item_append hit (exists_blank_render hnext hfollow), hreads.run]

/-- **Pieces with commas and blanks between** are read one by one. -/
theorem parse_join {ts : List Text} (h : ∀ t ∈ ts, ∃ cs last m, Reads t cs last m) :
    parse (Text.join ts [',', ' ']) = ts.flatMap parse := by
  induction ts with
  | nil => rfl
  | cons t ts ih =>
    have hrest := ih fun u hu => h u (List.mem_cons_of_mem _ hu)
    cases ts with
    | nil => simp [Text.join]
    | cons u ts =>
      obtain ⟨cs, last, m, hreads⟩ := h t List.mem_cons_self
      have hjoin : Text.join (t :: u :: ts) [',', ' '] = t ++ ',' :: ' ' :: Text.join (u :: ts) [',', ' '] := by
        simp [Text.join, List.intercalate_cons_cons]
      rw [hjoin, hreads.append (by rfl), hrest]
      rfl

end FlyMail.Srcset
