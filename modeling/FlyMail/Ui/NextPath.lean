/-
Where the user is led after the login.

Who is not logged in is sent to the login page, with the place in a parameter of its address.  After the
login the page goes to what the parameter says, if it is a place in the application.
-/
import FlyMail.Lib.Percent

namespace FlyMail.Ui.NextPath

open Percent

/-- The place as the value of the parameter. -/
def encodeNext (pathname search : Text) : Text := encodeURIComponent (pathname ++ search)

/-- The value of the parameter as a place, unless it cannot be trusted. -/
def safeNext (raw : Option Text) : Option Text :=
  match raw with
  | none => none
  | some raw =>
      if raw = [] then none
      else match decodeURIComponent raw with
        | none => none
        | some v =>
            if v.head? ≠ some '/' then none
            else if ['/', '/'].isPrefixOf v || ['/', '\\'].isPrefixOf v then none
            else if v.any fun c => c.toNat < 0x20 || c.toNat == 0x7f then none
            else if v = "/login".toList ∨ "/login?".toList.isPrefixOf v then none
            else some v

/-- An address of the application, as the router takes it apart. -/
structure Path where
  pathname : Text
  search : Text
  hash : Text
  deriving DecidableEq, Repr

/-- The text up to the first such character, and from there on. -/
def partAt (c : Char) (t : Text) : Text × Text := (t.takeWhile (· != c), t.dropWhile (· != c))

def parsePath (path : Text) : Path :=
  let (path, hash) := partAt '#' path
  let (pathname, search) := partAt '?' path
  ⟨pathname, search, hash⟩

/-- `URLSearchParams.get`, of a query with or without its question mark. -/
def getParam (lossy : Bytes → Text) (name search : Text) : Option Text :=
  let query := if search.head? = some '?' then search.tail else search
  ((formParse lossy query).find? fun p => p.1 == name).map Prod.snd

/-- Where the guard of the routes sends who is not logged in. -/
def requireAuth (pathname search : Text) : Text := "/login?next=".toList ++ encodeNext pathname search

/-- Where the login page leads, of which this is the query. -/
def loginPage (lossy : Bytes → Text) (search : Text) : Text :=
  (safeNext (getParam lossy "next".toList search)).getD ['/']

/-- Where the user is led who came from this place. -/
def afterLogin (lossy : Bytes → Text) (pathname search : Text) : Text :=
  loginPage lossy (parsePath (requireAuth pathname search)).search

end FlyMail.Ui.NextPath
