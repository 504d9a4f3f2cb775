/-
Under whose name mail is sent.

Besides its own address an account may send from aliases, which the user keeps in a list.  An address is taken
into the list in the form all comparisons use, and only if it can stand in a header as it is.  Whether it is there
already is looked up before it is stored, but what keeps it from being there twice is an index.

Calls run at the same time; one access to the database is one step, and storing an alias is one transaction.  A
call that changes an alias holds a copy of it, and the alias may be deleted in between: storing the copy brings it
back.  Accounts come and go, and change their addresses, besides.
-/
import FlyMail.Account.Model
import FlyMail.Lib.Calls
import FlyMail.Lib.Text
import Mathlib.Data.List.Sort

namespace FlyMail.Account.Identity

/-- A row of `account_aliases`. -/
structure Alias where
  id : Nat
  accountID : Nat
  email : Text
  displayName : Text
  isDefault : Bool
  deriving DecidableEq, Repr

/-- The columns of the index `idx_alias_account_email`. -/
def Alias.key (a : Alias) : Nat × Text := (a.accountID, a.email)

structure AliasRequest where
  email : Text
  displayName : Text
  isDefault : Bool
  deriving DecidableEq, Repr

inductive Err
  /-- The database refused a statement. -/
  | db
  | accountNotFound
  | aliasNotFound
  | aliasDuplicate
  | aliasIsPrimary
  | invalidEmail
  deriving DecidableEq, Repr

/-! ### Addresses -/

def addrSpecForbidden : Text := "\"'()<>[],;:\\".toList

/-- An address that can be written into a header as it is. -/
def plainAddrSpec (s : Text) : Bool :=
  if s = [] ∨ 254 < Text.byteLen s then false
  else
    match Text.cut s '@' with
    | none => false
    | some (before, domain) =>
        if before = [] ∨ '@' ∈ domain ∨ domain = [] then false
        else if domain.head? = some '[' then false
        else if s.any fun c => decide (c.toNat ≤ 0x20) || decide (0x7e < c.toNat) then false
        else !s.any addrSpecForbidden.contains

section Service

variable (toLower : Char → Char) (parseAddress : Text → Option (Text × Text))

def normalizeEmail (s : Text) : Text := (Text.trimSpace s).map toLower

def parseAddrSpec (input : Text) : Option Text :=
  match parseAddress (Text.trimSpace input) with
  | none => none
  | some (name, address) =>
      if name ≠ [] then none
      else
        let addr := normalizeEmail toLower address
        if plainAddrSpec addr then some addr else none

/-! ### The list -/

/-- The table, with what the database keeps of it. -/
structure Aliases where
  rows : List Alias
  /-- The last id handed out. -/
  last : Nat
  below : ∀ r ∈ rows, r.id ≤ last
  ids : (rows.map Alias.id).Nodup
  keys : (rows.map Alias.key).Nodup

namespace Aliases

def empty : Aliases := ⟨[], 0, by simp, by simp, by simp⟩

def listAliases (t : Aliases) (accountID : Nat) : List Alias :=
  (t.rows.filter fun r => r.accountID == accountID).insertionSort fun a b => a.id ≤ b.id

def getAlias (t : Aliases) (accountID aliasID : Nat) : Option Alias :=
  t.rows.find? fun r => r.id == aliasID && r.accountID == accountID

/-- Keep some rows. -/
def keep (t : Aliases) (p : Alias → Bool) : Aliases where
  rows := t.rows.filter p
  last := t.last
  below r hr := t.below r (List.mem_filter.mp hr).1
  ids := t.ids.sublist (List.filter_sublist.map _)
  keys := t.keys.sublist (List.filter_sublist.map _)

/-- Write over the row with the id; where there is none, insert the row. -/
def put (t : Aliases) (a : Alias) : Except Err (Aliases × Alias) :=
  if h : ∀ r ∈ t.rows, r.id ≠ a.id → r.key ≠ a.key then
    .ok ({ rows := (t.keep fun r => r.id != a.id).rows ++ [a]
           last := max t.last a.id
           below := by
            intro r hr
            rcases List.mem_append.mp hr with hold | hnew
            · exact Nat.le_trans ((t.keep _).below r hold) (Nat.le_max_left _ _)
            · rw [List.mem_singleton.mp hnew]
              exact Nat.le_max_right _ _
           ids := by
            rw [List.map_append, List.nodup_append]
            refine ⟨(t.keep _).ids, List.nodup_singleton _, fun i hi j hj => ?_⟩
            obtain ⟨r, hr, rfl⟩ := List.mem_map.mp hi
            rw [List.mem_singleton.mp hj]
            simpa using (List.mem_filter.mp hr).2
           keys := by
            rw [List.map_append, List.nodup_append]
            refine ⟨(t.keep _).keys, List.nodup_singleton _, fun i hi j hj => ?_⟩
            obtain ⟨r, hr, rfl⟩ := List.mem_map.mp hi
            rw [List.mem_singleton.mp hj]
            exact h r (List.mem_filter.mp hr).1 (by simpa using (List.mem_filter.mp hr).2) }, a)
  else .error .aliasDuplicate

/-- `Save`, which hands out an id where there is none. -/
def save (t : Aliases) (a : Alias) : Except Err (Aliases × Alias) :=
  t.put (if a.id = 0 then { a with id := t.last + 1 } else a)

/-- Clear the mark of the account's other rows. -/
def onlyDefault (t : Aliases) (a : Alias) : Aliases where
  rows := t.rows.map fun r => if r.accountID = a.accountID ∧ r.id ≠ a.id then { r with isDefault := false } else r
  last := t.last
  below r hr := by
    obtain ⟨b, hb, rfl⟩ := List.mem_map.mp hr
    split <;> exact t.below b hb
  ids := by
    rw [List.map_map]
    convert t.ids using 2
    funext r
    simp only [Function.comp_apply]
    split <;> rfl
  keys := by
    rw [List.map_map]
    convert t.keys using 2
    funext r
    simp only [Function.comp_apply]
    split <;> rfl

def saveAlias (t : Aliases) (a : Alias) : Except Err (Aliases × Alias) := do
  let (t, a) ← t.save a
  return (if a.isDefault then t.onlyDefault a else t, a)

end Aliases

/-! ### The calls -/

inductive Request
  | createAlias (accountID : Nat) (req : AliasRequest)
  | updateAlias (accountID aliasID : Nat) (req : AliasRequest)
  | deleteAlias (accountID aliasID : Nat)
  | resolveFrom (accountID : Nat) (alias_ : Text)

/-- The point a call has come to. -/
inductive Frame
  | getAlias (accountID aliasID : Nat) (req : AliasRequest)
  | getAccount (accountID : Nat) (existing : Option Alias) (req : AliasRequest)
  | listAliases (accountID : Nat) (existing : Option Alias) (req : AliasRequest) (email : Text)
  | saveAlias (a : Alias)
  | saved (a : Alias)
  | deleteAlias (accountID aliasID : Nat)
  | deleted
  | resolveAccount (accountID : Nat) (alias_ : Text)
  | resolveAliases (accountID : Nat) (alias_ : Text)
  /-- The address and the name a mail is sent from. -/
  | resolved (accountID : Nat) (addr display : Text)
  | failed (e : Err)
  deriving DecidableEq, Repr

structure Store where
  accounts : List Account
  aliases : Aliases

def Store.getByID (s : Store) (accountID : Nat) : Option Account := s.accounts.find? fun a => a.id == accountID

def enter : Request → Frame
  | .createAlias accountID req => .getAccount accountID none req
  | .updateAlias accountID aliasID req => .getAlias accountID aliasID req
  | .deleteAlias accountID aliasID => .deleteAlias accountID aliasID
  | .resolveFrom accountID alias_ => .resolveAccount accountID alias_

def Frame.returned : Frame → Bool
  | .saved _ | .deleted | .resolved _ _ _ | .failed _ => true
  | _ => false

/-- What a call does next. -/
def proceed : Frame → Store → Store × Frame
  | .getAlias accountID aliasID req, s =>
      match s.aliases.getAlias accountID aliasID with
      | none => (s, .failed .aliasNotFound)
      | some a => (s, .getAccount accountID (some a) req)
  | .getAccount accountID existing req, s =>
      match s.getByID accountID with
      | none => (s, .failed .accountNotFound)
      | some acct =>
          match parseAddrSpec toLower parseAddress req.email with
          | none => (s, .failed .invalidEmail)
          | some email =>
              if email = normalizeEmail toLower acct.email then (s, .failed .aliasIsPrimary)
              else (s, .listAliases accountID existing req email)
  | .listAliases accountID existing req email, s =>
      let aliasID := (existing.map Alias.id).getD 0
      let duplicate := (s.aliases.listAliases accountID).any fun r =>
        r.id != aliasID && normalizeEmail toLower r.email == email
      let a := existing.getD ⟨0, accountID, [], [], false⟩
      if duplicate then (s, .failed .aliasDuplicate)
      else
        (s, .saveAlias
          { a with email := email, displayName := Text.trimSpace req.displayName, isDefault := req.isDefault })
  | .saveAlias a, s =>
      match s.aliases.saveAlias a with
      | .error e => (s, .failed e)
      | .ok (t, a) => ({ s with aliases := t }, .saved a)
  | .deleteAlias accountID aliasID, s =>
      match s.aliases.getAlias accountID aliasID with
      | none => (s, .failed .aliasNotFound)
      | some _ =>
          ({ s with aliases := s.aliases.keep fun r => !(r.id == aliasID && r.accountID == accountID) }, .deleted)
  | .resolveAccount accountID alias_, s =>
      match s.getByID accountID with
      | none => (s, .failed .accountNotFound)
      | some acct =>
          let alias_ := normalizeEmail toLower alias_
          if alias_ = [] ∨ alias_ = normalizeEmail toLower acct.email then
            (s, .resolved accountID acct.email acct.name)
          else (s, .resolveAliases accountID alias_)
  | .resolveAliases accountID alias_, s =>
      match (s.aliases.listAliases accountID).find? fun r => normalizeEmail toLower r.email == alias_ with
      | none => (s, .failed .aliasNotFound)
      | some r => (s, .resolved accountID r.email r.displayName)
  | f, s => (s, f)

/-- The next step of a call; `down` is that the database refuses it. -/
def next (down : Bool) (f : Frame) (s : Store) : Option (Store × Frame) :=
  if f.returned then none
  else if down then some (s, .failed .db)
  else some (proceed toLower parseAddress f s)

/-- What else happens to the tables. -/
inductive Event
  /-- An account is stored. -/
  | store (a : Account)
  /-- An account is deleted, with its aliases. -/
  | delete (accountID : Nat)

def outside : Event → Store → Store
  | .store a, s => { s with accounts := s.accounts.filter (fun b => b.id != a.id) ++ [a] }
  | .delete accountID, s =>
      { accounts := s.accounts.filter fun a => a.id != accountID
        aliases := s.aliases.keep fun r => r.accountID != accountID }

def service : FlyMail.Service Request Bool Event Frame Store where
  enter := enter
  next := next toLower parseAddress
  outside := outside

end Service

end FlyMail.Account.Identity
