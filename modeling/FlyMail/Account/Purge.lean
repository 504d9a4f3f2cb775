/-
What goes when an account or a folder goes.

Rows of nine tables belong to an account, and rows of three more to a mail.  An account that is deleted takes its
rows with it, the rows of its mails first, as these are found through the mails; and so does a folder that the
server no longer lists.  Each of the two is one transaction.  Accounts were not always deleted that way, so that
at every start what is left of accounts that are gone is searched for and deleted, statement by statement.

A row is known here by the columns the statements read, and a table that was not migrated is passed over.
-/
import FlyMail.Lib.Run
import FlyMail.Lib.Sweep
import FlyMail.Lib.Text
import Mathlib.Data.List.Nodup

namespace FlyMail.Account.Purge

/-! ### Tables -/

inductive Name
  | accounts
  | messages
  | folders
  | drafts
  | inboxRules
  | ruleRuns
  | writebackOps
  | notifications
  | accountAliases
  | accountSignatures
  | attachments
  | messageBodies
  | messageTranslations
  deriving DecidableEq, Repr

/-- The columns that are read; one a table does not have is `0`. -/
structure Row where
  id : Nat
  accountID : Nat
  folderID : Nat
  messageID : Nat
  path : Text
  deriving DecidableEq, Repr

abbrev Rows := Name → List Row

/-- The primary key. -/
def key : Name → Row → Nat
  | .accountSignatures, r => r.accountID
  | _, r => r.id

def accountOwnedTables : List Name :=
  [.messages, .folders, .drafts, .inboxRules, .ruleRuns, .writebackOps, .notifications, .accountAliases,
    .accountSignatures]

def messageOwnedTables : List Name := [.attachments, .messageBodies, .messageTranslations]

/-! ### Statements -/

/-- The conditions a row is deleted under. -/
inductive Cond
  /-- `message_id IN (SELECT id FROM messages WHERE account_id = ?)` -/
  | messageOf (accountID : Nat)
  /-- `message_id IN (SELECT id FROM messages WHERE account_id NOT IN (SELECT id FROM accounts))` -/
  | messageOfNobody
  /-- `message_id NOT IN (SELECT id FROM messages)` -/
  | noMessage
  /-- `message_id IN (SELECT id FROM messages WHERE folder_id IN (?))` -/
  | messageIn (folderIDs : List Nat)
  /-- `account_id = ?` -/
  | account (accountID : Nat)
  /-- `account_id NOT IN (SELECT id FROM accounts)` -/
  | noAccount
  /-- `folder_id IN (?)` -/
  | folder (folderIDs : List Nat)
  /-- `id IN (?)` -/
  | id (ids : List Nat)
  deriving DecidableEq, Repr

def hasAccount (db : Rows) (accountID : Nat) : Bool := (db .accounts).any fun a => a.id == accountID

def Cond.holds (db : Rows) : Cond → Row → Bool
  | .messageOf accountID, r => (db .messages).any fun m => m.id == r.messageID && m.accountID == accountID
  | .messageOfNobody, r => (db .messages).any fun m => m.id == r.messageID && !hasAccount db m.accountID
  | .noMessage, r => !(db .messages).any fun m => m.id == r.messageID
  | .messageIn folderIDs, r => (db .messages).any fun m => m.id == r.messageID && folderIDs.contains m.folderID
  | .account accountID, r => r.accountID == accountID
  | .noAccount, r => !hasAccount db r.accountID
  | .folder folderIDs, r => folderIDs.contains r.folderID
  | .id ids, r => ids.contains r.id

/-- The tables a condition selects from. -/
def Cond.reads : Cond → List Name
  | .messageOfNobody => [.messages, .accounts]
  | .messageOf _ | .noMessage | .messageIn _ => [.messages]
  | .noAccount => [.accounts]
  | .account _ | .folder _ | .id _ => []

structure Stmt where
  table : Name
  where_ : Cond
  deriving DecidableEq, Repr

def Stmt.deletion (s : Stmt) : Deletion Name Row := ⟨s.table, fun db r => s.where_.holds db r⟩

inductive Err
  | accountNotFound
  | sql
  deriving DecidableEq, Repr

/-- What the database makes of the statements that are sent to it. -/
structure Luck where
  fails : Stmt → Bool
  failsUpsert : Text → Bool
  failsFind : Bool
  failsCommit : Bool
  /-- How many keys there were above those still there. -/
  skipped : Nat

section Purge

variable (has : Name → Bool)

/-- Why a statement fails, if it does. -/
def fault (x : Luck) (s : Stmt) : Option Err :=
  if x.fails s || !has s.table || s.where_.reads.any (fun t => !has t) then some .sql else none

def run (x : Luck) (db : Rows) (l : List Stmt) : Rows × Option Err :=
  sweep Stmt.deletion (fun _ s => fault has x s) db l

def purgeMessageChildren (x : Luck) (where_ : Cond) (db : Rows) : Rows × Option Err :=
  run has x db ((messageOwnedTables.filter has).map fun t => ⟨t, where_⟩)

def purgeAccountData (x : Luck) (accountID : Nat) (db : Rows) : Rows × Option Err :=
  goOn (purgeMessageChildren has x (.messageOf accountID) db) fun db =>
    run has x db ((accountOwnedTables.filter has).map fun t => ⟨t, .account accountID⟩)

/-- Delete what is left of accounts that are gone. -/
def purgeOrphans (x : Luck) (db : Rows) : Rows × Option Err :=
  goOn (purgeMessageChildren has x .messageOfNobody db) fun db =>
    goOn (run has x db ((accountOwnedTables.filter has).map fun t => ⟨t, .noAccount⟩)) fun db =>
      purgeMessageChildren has x .noMessage db

/-- A transaction: nothing is done unless all is. -/
def transaction (x : Luck) (db : Rows) (o : Rows × Option Err) : Rows × Option Err :=
  match o.2 with
  | some e => (db, some e)
  | none => if x.failsCommit then (db, some .sql) else o

/-- Delete the account and all it owns. -/
def delete (x : Luck) (id : Nat) (db : Rows) : Rows × Option Err :=
  transaction x db <|
    goOn (run has x db [⟨.accounts, .id [id]⟩]) fun tx =>
      if hasAccount db id then purgeAccountData has x id tx else (tx, some .accountNotFound)

/-- Delete the account's folders that are not in `keep`, and their mails. -/
def pruneMissing (x : Luck) (accountID : Nat) (keep : List Text) (db : Rows) : Rows × Option Err :=
  if x.failsFind then (db, some .sql)
  else
    let stale := (db .folders).filter fun f => f.accountID == accountID
    let ids := (stale.filter fun f => !keep.contains f.path).map Row.id
    if ids = [] then (db, none)
    else
      transaction x db <|
        goOn (purgeMessageChildren has x (.messageIn ids) db) fun tx =>
          goOn (if has .messages then run has x tx [⟨.messages, .folder ids⟩] else (tx, none)) fun tx =>
            run has x tx [⟨.folders, .id ids⟩]

/-! ### The listing of the folders -/

/-- A key above all that were handed out. -/
def nextKey (x : Luck) (db : Rows) (t : Name) : Nat := ((db t).map (key t)).max?.getD 0 + x.skipped + 1

def upsertByPath (x : Luck) (accountID : Nat) (db : Rows) (path : Text) : Except Err Rows :=
  if x.failsUpsert path || !has .folders then .error .sql
  else if (db .folders).any fun f => f.accountID == accountID && f.path == path then .ok db
  else .ok (Function.update db .folders (db .folders ++ [⟨nextKey x db .folders, accountID, 0, 0, path⟩]))

/-- Take over the list of an account's folders, as the server sent it. -/
def syncFolders (x : Luck) (accountID : Nat) (paths : List Text) (db : Rows) : Rows × Option Err :=
  if paths = [] then (db, none)
  else goOn (untilError (upsertByPath has x accountID) db paths) (pruneMissing has x accountID paths)

/-! ### What the database keeps -/

structure Sound (db : Rows) : Prop where
  /-- The primary keys. -/
  unique : ∀ t, ((db t).map (key t)).Nodup
  /-- A table that was not migrated has no rows. -/
  absent : ∀ t, has t = false → db t = []

variable {has} {x : Luck} {db tx : Rows}

theorem Sound.thinned (h : Sound has db) (ht : Thinned tx db) : Sound has tx where
  unique t := (h.unique t).sublist ((ht.sublist t).map _)
  absent t hn := List.sublist_nil.mp (h.absent t hn ▸ ht.sublist t)

theorem thinned_run (l : List Stmt) : Thinned (run has x db l).1 db := thinned_sweep db l

theorem thinned_purgeMessageChildren (where_ : Cond) : Thinned (purgeMessageChildren has x where_ db).1 db :=
  thinned_run _

theorem thinned_purgeAccountData (accountID : Nat) : Thinned (purgeAccountData has x accountID db).1 db :=
  (thinned_purgeMessageChildren _).goOn (thinned_run _)

theorem thinned_purgeOrphans : Thinned (purgeOrphans has x db).1 db :=
  (thinned_purgeMessageChildren _).goOn ((thinned_run _).goOn (thinned_purgeMessageChildren _))

theorem thinned_transaction {o : Rows × Option Err} (h : Thinned o.1 db) : Thinned (transaction x db o).1 db := by
  unfold transaction
  split
  · exact Thinned.refl db
  · split
    · exact Thinned.refl db
    · exact h

theorem thinned_delete (id : Nat) : Thinned (delete has x id db).1 db := by
  refine thinned_transaction ((thinned_run _).goOn ?_)
  split
  · exact thinned_purgeAccountData id
  · exact Thinned.refl _

theorem thinned_pruneMissing (accountID : Nat) (keep : List Text) :
    Thinned (pruneMissing has x accountID keep db).1 db := by
  unfold pruneMissing
  split
  · exact Thinned.refl db
  · dsimp only
    split
    · exact Thinned.refl db
    · refine thinned_transaction ((thinned_purgeMessageChildren _).goOn (Thinned.goOn ?_ (thinned_run _)))
      split
      · exact thinned_run _
      · exact Thinned.refl _

theorem lt_nextKey {t : Name} {r : Row} (h : r ∈ db t) : key t r < nextKey x db t := by
  have hle := List.le_max?_getD_of_mem (k := 0) (List.mem_map_of_mem (f := key t) h)
  unfold nextKey
  omega

/-- A row with a key of its own may be added to a table that is there. -/
theorem Sound.add {t : Name} {r : Row} (h : Sound has db) (ht : has t = true)
    (hr : ∀ a ∈ db t, key t a ≠ key t r) : Sound has (Function.update db t (db t ++ [r])) where
  unique u := by
    by_cases hu : u = t
    · subst hu
      simp only [Function.update_self, List.map_append, List.map_cons, List.map_nil]
      refine List.nodup_append.mpr ⟨h.unique u, List.nodup_singleton _, fun a ha b hb => ?_⟩
      obtain ⟨c, hc, rfl⟩ := List.mem_map.mp ha
      rw [List.mem_singleton.mp hb]
      exact hr c hc
    · simpa [hu] using h.unique u
  absent u hu := by
    have hne : u ≠ t := fun he => by simp [he, ht] at hu
    simpa [hne] using h.absent u hu

/-- **What listing a folder leaves**: the tables as they were, or one more folder with the path. -/
theorem upsertByPath_cases {accountID : Nat} {path : Text} (h : upsertByPath has x accountID db path = .ok tx) :
    tx = db ∨ has .folders = true ∧
      tx = Function.update db .folders (db .folders ++ [⟨nextKey x db .folders, accountID, 0, 0, path⟩]) := by
  unfold upsertByPath at h
  split at h
  · cases h
  · next hf =>
    split at h
    · exact .inl (Except.ok.inj h).symm
    · have hfolders : x.failsUpsert path = false ∧ has .folders = true := by simpa using hf
      exact .inr ⟨hfolders.2, (Except.ok.inj h).symm⟩

theorem Sound.upsertByPath {accountID : Nat} {path : Text} (h : Sound has db)
    (hu : upsertByPath has x accountID db path = .ok tx) : Sound has tx := by
  rcases upsertByPath_cases hu with he | ⟨hf, he⟩
  · exact he ▸ h
  · rw [he]
    exact h.add hf fun a ha => Nat.ne_of_lt (lt_nextKey ha)

theorem Sound.syncFolders {accountID : Nat} {paths : List Text} (h : Sound has db) :
    Sound has (syncFolders has x accountID paths db).1 := by
  unfold Purge.syncFolders
  split
  · exact h
  · have hup : Sound has (untilError (Purge.upsertByPath has x accountID) db paths).1 := by
      obtain ⟨_, hs, -⟩ := untilError_invariant (I := fun tx _ => Sound has tx)
        (fun tx path rest tx' htx hu => htx.upsertByPath hu) h
      exact hs
    unfold goOn
    split
    · exact hup
    · exact hup.thinned (thinned_pruneMissing accountID paths)

/-! ### Runs -/

variable (has)

structure DB where
  rows : Rows
  sound : Sound has rows

/-- What happens to the database. -/
inductive Op
  /-- The program starts. -/
  | start (x : Luck)
  | delete (x : Luck) (id : Nat)
  | syncFolders (x : Luck) (accountID : Nat) (paths : List Text)
  /-- A row is stored, by whatever part of the program. -/
  | insert (t : Name) (r : Row)

def step (db : DB has) : Op → Option (DB has)
  | .start x => some ⟨(purgeOrphans has x db.rows).1, db.sound.thinned thinned_purgeOrphans⟩
  | .delete x id => some ⟨(Purge.delete has x id db.rows).1, db.sound.thinned (thinned_delete id)⟩
  | .syncFolders x accountID paths => some ⟨(Purge.syncFolders has x accountID paths db.rows).1, db.sound.syncFolders⟩
  | .insert t r =>
      if h : has t = true ∧ ∀ a ∈ db.rows t, key t a ≠ key t r then
        some ⟨Function.update db.rows t (db.rows t ++ [r]), db.sound.add h.1 h.2⟩
      else none

end Purge

end FlyMail.Account.Purge
