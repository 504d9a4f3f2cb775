/-
Which folders an account has.

The folders are listed by the server at the beginning of every full round.  Those listed are
stored by their path, and a row that is there keeps how far it was synchronised; those no
longer listed go, and their mails with them.  An empty list is taken for a fault of the
server's and changes nothing.
-/
import FlyMail.Lib.Pattern
import FlyMail.Message.Service

namespace FlyMail.Folder

open Proc Message

/-- Where a folder stands in the list. -/
def sortOrderForType : FolderType → Nat
  | .inbox => 1
  | .sent => 10
  | .drafts => 11
  | .trash => 12
  | .junk => 13
  | .archive => 14
  | _ => 100

/-- `strings.EqualFold`, where the second text is lower-case ASCII. -/
def equalFold : Text → Text → Bool
  | [], [] => true
  | x :: xs, c :: cs => Pattern.sameFold c x && equalFold xs cs
  | _, _ => false

/-- The server does not let the folder be selected. -/
def noselect (attributes : List Text) : Bool :=
  attributes.any fun a => equalFold a "\\noselect".toList

/-- The row of a listed folder. -/
def ofInfo (classifyFolder : Text → Text → List Text → FolderType) (accountID : Nat)
    (info : FolderInfo) : Folder where
  id := 0
  accountID := accountID
  path := info.path
  displayName := info.name
  delimiter := info.delimiter
  type := classifyFolder info.name info.path info.attributes
  attributes := info.attributes
  selectable := !noselect info.attributes
  uidValidity := 0
  uidNext := 0
  lastSyncedAt := 0
  totalCount := 0
  unreadCount := 0
  sortOrder := sortOrderForType (classifyFolder info.name info.path info.attributes)

/-- The statements of listing the folders. -/
inductive ListStmt
  | listFolders
  | upsert (path : Text)
  | pruneMissing
  | list
  deriving DecidableEq, Repr

variable {ι σ : Type} [HasDB σ]

def syncFolders (classifyFolder : Text → Text → List Text → FolderType) (at_ : ListStmt → ι)
    (accountID : Nat) (c : Session) : Proc ι Err σ Unit := do
  let infos ← ask (at_ .listFolders) c.listFolders
  if infos = [] then pure ()
  else do
    each (fun info => updateDB (at_ (.upsert info.path)) .db
      (Repository.upsertByPath (ofInfo classifyFolder accountID info))) infos
    updateDB (at_ .pruneMissing) .db
      (Repository.pruneMissing accountID (infos.map FolderInfo.path))

def list (at_ : ListStmt → ι) (accountID : Nat) : Proc ι Err σ (List Folder) :=
  queryDB (at_ .list) .db fun db => Repository.listByAccount db accountID

end FlyMail.Folder
