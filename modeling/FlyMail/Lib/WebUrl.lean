/-
Where a reference in a page leads.

The parser of browsers takes a reference and the address of the page.  Blanks at the ends and line
breaks anywhere are passed over, and a backslash counts as a slash.  A reference with a scheme or with
two slashes in front brings its own origin; how this one is read is a parameter.  Any other is one on
the page's site, whatever is in it.
-/
import FlyMail.Lib.Text
import Mathlib.Data.List.DropRight

namespace FlyMail.WebUrl

structure Origin where
  scheme : Text
  host : Text
  port : Option Nat
  deriving DecidableEq, Repr

/-- What is passed over at the ends: control characters and the blank. -/
def isC0OrSpace (c : Char) : Bool := c.toNat ≤ 0x20

def isTabOrNewline (c : Char) : Bool := c == '\t' || c == '\n' || c == '\r'

/-- What is read of the reference. -/
def strip (t : Text) : Text :=
  ((t.dropWhile isC0OrSpace).rdropWhile isC0OrSpace).filter fun c => !isTabOrNewline c

def isSlash (c : Char) : Bool := c == '/' || c == '\\'

def isSchemeChar (c : Char) : Bool := c.isAlphanum || c == '+' || c == '-' || c == '.'

/-- The scheme in front of a colon, and what is behind it. -/
def scheme? (t : Text) : Option (Text × Text) :=
  if (t.head?.map Char.isAlpha).getD false then
    if (t.dropWhile isSchemeChar).head? = some ':' then
      some (t.takeWhile isSchemeChar, (t.dropWhile isSchemeChar).tail)
    else none
  else none

/-- The origin of what the reference leads to on a page of a web server, unless it is none: `absolute`
reads what has a scheme, `authority` what begins with a host. -/
def resolve (page : Origin) (absolute : Text → Text → Option Origin) (authority : Text → Option Origin)
    (reference : Text) : Option Origin :=
  let t := strip reference
  match scheme? t with
  | some (scheme, rest) => absolute scheme rest
  | none =>
      if (t.take 2).all isSlash ∧ t.length ≥ 2 then authority (t.dropWhile isSlash) else some page

/-- **A reference with one slash in front** leads to the page's site. -/
theorem resolve_of_slash {page : Origin} {absolute : Text → Text → Option Origin}
    {authority : Text → Option Origin} {t : Text} (hslash : t.head? = some '/')
    (hsecond : ∀ c, t[1]? = some c → isSlash c = false) (hline : ∀ c ∈ t, isTabOrNewline c = false) :
    resolve page absolute authority t = some page := by
  obtain ⟨rest, rfl⟩ := List.head?_eq_some_iff.mp hslash
  have hfront : ('/' :: rest).dropWhile isC0OrSpace = '/' :: rest := rfl
  obtain ⟨u, hu⟩ : ∃ u, strip ('/' :: rest) = '/' :: u ∧ u <+: rest := by
    have hpre := List.rdropWhile_prefix isC0OrSpace (l := '/' :: rest)
    have hne : ('/' :: rest).rdropWhile isC0OrSpace ≠ [] := by
      intro hnil
      exact absurd (List.rdropWhile_eq_nil_iff.mp hnil '/' List.mem_cons_self) (by decide)
    obtain ⟨c, u, hcut⟩ := List.exists_cons_of_ne_nil hne
    rw [hcut] at hpre
    obtain ⟨rfl, hu⟩ := List.cons_prefix_cons.mp hpre
    refine ⟨u, ?_, hu⟩
    have hkeep : ('/' :: u).filter (fun c => !isTabOrNewline c) = '/' :: u := by
      refine List.filter_eq_self.mpr fun c hc => ?_
      rw [hline c (hpre.subset hc)]
      rfl
    unfold strip
    rw [hfront, hcut, hkeep]
  obtain ⟨hstrip, hu⟩ := hu
  have hone : ¬ ((('/' :: u).take 2).all isSlash = true ∧ ('/' :: u).length ≥ 2) := by
    rintro ⟨hall, hlen⟩
    cases u with
    | nil => simp at hlen
    | cons c u =>
      have hc : isSlash c = true := by simpa [isSlash] using hall
      obtain ⟨v, rfl⟩ := hu
      rw [hsecond c rfl] at hc
      cases hc
  unfold resolve
  rw [hstrip]
  exact if_neg hone

end FlyMail.WebUrl
