/-
What fetching keeps.

Whatever is fetched ends up in rows by one statement, the upsert of a mail.  The others that
a batch takes find threads, and the ones that store a body fill in what comes with it: they
leave every row where it is and its flags alone, and that is `SameMails`.  So a property of
the rows that `SameMails` does not see survives a batch if it survives the upserts of its
mails, in whatever way the batch ends.

For the converse, that a batch can leave what its upserts leave, a batch returns when
nothing fails, and uses no sites but its own.
-/
import FlyMail.Lib.Ends
import FlyMail.Message.Body

namespace FlyMail

/-- A row without what finding its thread and storing its body change. -/
def Message.core (m : Message) : Message :=
  { m with
    threadID := []
    inReplyTo := []
    references := []
    hasAttachment := false
    snippet := []
    bodySynced := false }

/-- The same mails, with the same flags, in the same folders. -/
structure SameMails (d d' : DB) : Prop where
  rows : d'.messages.rows.map Message.core = d.messages.rows.map Message.core
  last : d'.messages.last = d.messages.last
  folders : d'.folders = d.folders
  ops : d'.ops = d.ops

namespace SameMails

theorem modify {d : DB} {p : Message → Bool} {f : Message → Message} {hpk huk}
    (hf : ∀ m, (f m).core = m.core) :
    SameMails d { d with messages := d.messages.modify p f hpk huk } := by
  refine ⟨?_, rfl, rfl, rfl⟩
  show (d.messages.rows.map _).map Message.core = _
  rw [List.map_map]
  refine List.map_congr_left fun m _ => ?_
  show Message.core (if p m then f m else m) = m.core
  split
  · exact hf m
  · rfl

theorem exists_core {d d' : DB} (h : SameMails d d') {m' : Message}
    (hm : m' ∈ d'.messages.rows) : ∃ m ∈ d.messages.rows, m.core = m'.core := by
  have hin : m'.core ∈ d'.messages.rows.map Message.core := List.mem_map_of_mem hm
  rw [h.rows] at hin
  exact List.mem_map.mp hin

theorem symm {d d' : DB} (h : SameMails d d') : SameMails d' d :=
  ⟨h.rows.symm, h.last.symm, h.folders.symm, h.ops.symm⟩

end SameMails

/-- The property does not see what `SameMails` does not see. -/
def Coarse (I : DB → Prop) : Prop := ∀ d d', SameMails d d' → I d → I d'

namespace Message

open Proc

variable {ι σ : Type} [HasDB σ] {I : DB → Prop} {J : σ → Prop}

/-- Of the database the property does not see what `SameMails` does not see. -/
def CoarseOn (J : σ → Prop) : Prop := ∀ s d, SameMails (db s) d → J s → J (setDB s d)

theorem coarseOn_db (hI : Coarse I) : CoarseOn fun s : σ => I (db s) := by
  intro s d hsame hs
  show I (db (setDB s d))
  rw [db_setDB]
  exact hI _ _ hsame hs

/-- A change of the database that keeps a property of it. -/
theorem on_db {f : DB → DB} (h : ∀ d, I d → I (f d)) (s : σ) (hs : I (db s)) :
    I (db (setDB s (f (db s)))) := by
  rw [db_setDB]
  exact h _ hs

theorem keeps_queryDB {α : Type} (i : ι) (e : Err) (f : DB → α) : Keeps J (queryDB i e f) :=
  keeps_query i e _

theorem queryDB_calm {α : Type} (i : ι) (e : Err) (f : DB → α) (s : σ) :
    (queryDB i e f : Proc ι Err σ α) .calm s = (.ok (f (db s)), s) := query_calm rfl

theorem getRow_calm {i : ι} {f : DB → Option Message} {s : σ} {m : Message}
    (h : f (db s) = some m) : (getRow i f : Proc ι Err σ Message) .calm s = (.ok m, s) := by
  refine query_calm ?_
  simp only [h]

theorem keeps_updateDB {i : ι} {e : Err} {f : DB → DB} (h : ∀ s, J s → J (setDB s (f (db s)))) :
    Keeps J (updateDB i e f : Proc ι Err σ Unit) := keeps_update h

/-! ### Finding threads -/

section Threads

variable (digest : Text → Text) (at_ : ThreadStmt → ι)

private theorem joinThreads_eq (m : Message) (merge : List Text) (target : Text) :
    (joinThreads at_ m merge target : Proc ι Err σ Unit)
      = (if merge = [] then pure ()
        else updateDB (at_ (.merge m.id)) .db (Repository.mergeThreads m.accountID merge target))
        >>= fun _ =>
          if m.threadID = target then pure ()
          else updateDB (at_ (.setOwn m.id)) .db (Repository.setThread m.id target) := by
  unfold joinThreads
  by_cases h : merge = []
  · rw [if_pos h]
    dsimp only
    rw [if_pos h]
    rfl
  · rw [if_neg h]
    dsimp only
    rw [if_neg h]

/-- The property does not see which thread a row is in. -/
def ThreadBlind (J : σ → Prop) : Prop :=
  ∀ s p f hpk huk, (∀ m : Message, ∃ t, f m = { m with threadID := t }) → J s →
    J (setDB s { db s with messages := (db s).messages.modify p f hpk huk })

theorem CoarseOn.threadBlind (hJ : CoarseOn J) : ThreadBlind J := by
  intro s p f hpk huk hf hs
  refine hJ s _ (SameMails.modify fun m => ?_) hs
  obtain ⟨t, ht⟩ := hf m
  rw [ht]
  rfl

theorem keeps_setThreads (hJ : ThreadBlind J) {i : ι} {e : Err} {p : Message → Bool}
    {t : Text} : Keeps J (updateDB i e fun d => { d with
      messages := d.messages.modify p (fun m => { m with threadID := t }) (fun _ => rfl) fun _ => rfl } :
        Proc ι Err σ Unit) :=
  keeps_update fun s hs => hJ s _ _ _ _ (fun _ => ⟨t, rfl⟩) hs

/-- **Finding a thread** keeps what does not see the threads. -/
theorem keeps_assignThread (hJ : ThreadBlind J) (m : Message) :
    Keeps J (assignThread digest at_ m) := by
  unfold assignThread forwardThreads backwardThreads
  refine keeps_bind ?_ fun forward => keeps_bind ?_ fun backward => keeps_bind ?_ fun target => ?_
  · split
    · exact keeps_pure _
    · exact keeps_query _ _ _
  · split
    · exact keeps_pure _
    · exact keeps_query _ _ _
  · unfold chooseThread
    split
    · exact keeps_pure _
    · exact keeps_pure _
    · exact keeps_bind (keeps_query _ _ _) fun _ => keeps_pure _
  · rw [joinThreads_eq]
    refine keeps_bind ?_ fun _ => ?_
    · split
      · exact keeps_pure _
      · exact keeps_setThreads hJ
    · split
      · exact keeps_pure _
      · exact keeps_setThreads hJ

theorem keeps_assignThreads (hJ : ThreadBlind J) (rows : List Message) :
    Keeps J (assignThreads digest at_ rows) :=
  keeps_each rows fun m _ => keeps_assignThread digest at_ hJ m

theorem returnsIn_assignThreads {env : Env ι σ} (henv : ∀ s, env.fault (at_ s) = .none) (rows : List Message) :
    ReturnsIn env (assignThreads digest at_ rows : Proc ι Err σ Unit) := by
  refine returnsIn_each rows fun m _ => ?_
  unfold assignThread forwardThreads backwardThreads
  refine returnsIn_bind ?_ fun forward => returnsIn_bind ?_ fun backward =>
    returnsIn_bind ?_ fun target => ?_
  · split
    · exact returnsIn_pure _
    · exact returnsIn_query (henv _) _ _
  · split
    · exact returnsIn_pure _
    · exact returnsIn_query (henv _) _ _
  · unfold chooseThread
    split
    · exact returnsIn_pure _
    · exact returnsIn_pure _
    · exact returnsIn_bind (returnsIn_query (henv _) _ _) fun _ => returnsIn_pure _
  · rw [joinThreads_eq]
    refine returnsIn_bind ?_ fun _ => ?_
    · split
      · exact returnsIn_pure _
      · exact returnsIn_update (henv _) _ _
    · split
      · exact returnsIn_pure _
      · exact returnsIn_update (henv _) _ _

theorem returns_assignThreads (rows : List Message) :
    Returns (assignThreads digest at_ rows : Proc ι Err σ Unit) :=
  returnsIn_assignThreads digest at_ (fun _ => rfl) rows

theorem uses_assignThreads {S : ι → Prop} (hS : ∀ s, S (at_ s)) (rows : List Message) :
    Uses S (assignThreads digest at_ rows : Proc ι Err σ Unit) := by
  refine uses_each rows fun m _ => ?_
  unfold assignThread forwardThreads backwardThreads
  refine uses_bind ?_ fun forward => uses_bind ?_ fun backward => uses_bind ?_ fun target => ?_
  · split
    · exact uses_pure _
    · exact uses_query (hS _) _ _
  · split
    · exact uses_pure _
    · exact uses_query (hS _) _ _
  · unfold chooseThread
    split
    · exact uses_pure _
    · exact uses_pure _
    · exact uses_bind (uses_query (hS _) _ _) fun _ => uses_pure _
  · rw [joinThreads_eq]
    refine uses_bind ?_ fun _ => ?_
    · split
      · exact uses_pure _
      · exact uses_update (hS _) _ _
    · split
      · exact uses_pure _
      · exact uses_update (hS _) _ _

end Threads

/-! ### Storing a batch -/

section Batch

variable (digest : Text → Text) (at_ : BatchStmt → ι) (accountID folderID : Nat)

/-- Storing the mail keeps the property. -/
def KeepsUpsert (J : σ → Prop) (accountID folderID : Nat) (e : ParsedEmail) : Prop :=
  ∀ s, J s → J (setDB s (Repository.upsert (toMessage accountID folderID e) (db s)))

theorem keeps_upsertAll {emails : List ParsedEmail}
    (h : ∀ e ∈ emails, KeepsUpsert J accountID folderID e) :
    ∀ n, Keeps J (upsertAll at_ accountID folderID n emails) := by
  induction emails with
  | nil => exact fun n => keeps_pure ()
  | cons e rest ih =>
      intro n
      refine keeps_bind (keeps_updateDB (h e List.mem_cons_self)) fun _ => ?_
      exact ih (fun e' he' => h e' (List.mem_cons_of_mem e he')) (n + 1)

theorem keeps_loadChunks (chunks : List (List UID)) :
    ∀ n, Keeps J (loadChunks at_ folderID n chunks) := by
  induction chunks with
  | nil => exact fun n => keeps_pure []
  | cons c rest ih =>
      intro n
      exact keeps_bind (keeps_queryDB _ _ _) fun _ => keeps_bind (ih (n + 1)) fun _ => keeps_pure _

/-- **What the upserts of its mails keep, a batch keeps.** -/
theorem keeps_upsertBatch (hJ : CoarseOn J) {emails : List ParsedEmail}
    (h : ∀ e ∈ emails, KeepsUpsert J accountID folderID e) :
    Keeps J (upsertBatch digest at_ accountID folderID emails) := by
  unfold upsertBatch
  split
  · exact keeps_pure ()
  · refine keeps_bind (keeps_upsertAll at_ accountID folderID h 0) fun _ => ?_
    exact keeps_bind (keeps_loadChunks at_ folderID _ 0) fun rows =>
      keeps_assignThreads digest _ hJ.threadBlind rows

section Returns

variable {at_} {env : Env ι σ} (henv : ∀ s, env.fault (at_ s) = .none)

include henv

theorem returnsIn_upsertAll (emails : List ParsedEmail) :
    ∀ n, ReturnsIn env (upsertAll at_ accountID folderID n emails : Proc ι Err σ Unit) := by
  induction emails with
  | nil => exact fun n => returnsIn_pure ()
  | cons e rest ih => exact fun n => returnsIn_bind (returnsIn_update (henv _) _ _) fun _ => ih (n + 1)

theorem returnsIn_loadChunks (chunks : List (List UID)) :
    ∀ n, ReturnsIn env (loadChunks at_ folderID n chunks : Proc ι Err σ (List Message)) := by
  induction chunks with
  | nil => exact fun n => returnsIn_pure []
  | cons c rest ih =>
      intro n
      exact returnsIn_bind (returnsIn_query (henv _) _ _) fun _ => returnsIn_bind (ih (n + 1)) fun _ =>
        returnsIn_pure _

theorem returnsIn_upsertBatch (emails : List ParsedEmail) :
    ReturnsIn env (upsertBatch digest at_ accountID folderID emails : Proc ι Err σ Unit) := by
  unfold upsertBatch
  split
  · exact returnsIn_pure ()
  · exact returnsIn_bind (returnsIn_upsertAll accountID folderID henv emails 0) fun _ =>
      returnsIn_bind (returnsIn_loadChunks folderID henv _ 0) fun rows =>
        returnsIn_assignThreads digest _ (fun s => henv _) rows

end Returns

theorem returns_upsertAll (emails : List ParsedEmail) (n : Nat) :
    Returns (upsertAll at_ accountID folderID n emails : Proc ι Err σ Unit) :=
  returnsIn_upsertAll accountID folderID (fun _ => rfl) emails n

theorem returns_loadChunks (chunks : List (List UID)) (n : Nat) :
    Returns (loadChunks at_ folderID n chunks : Proc ι Err σ (List Message)) :=
  returnsIn_loadChunks folderID (fun _ => rfl) chunks n

theorem returns_upsertBatch (emails : List ParsedEmail) :
    Returns (upsertBatch digest at_ accountID folderID emails : Proc ι Err σ Unit) :=
  returnsIn_upsertBatch digest accountID folderID (fun _ => rfl) emails

variable {S : ι → Prop} {at_}

theorem uses_upsertAll (emails : List ParsedEmail) :
    ∀ n, (∀ k, n ≤ k → k < n + emails.length → S (at_ (.upsert k))) →
      Uses S (upsertAll at_ accountID folderID n emails : Proc ι Err σ Unit) := by
  induction emails with
  | nil => exact fun n _ => uses_pure ()
  | cons e rest ih =>
      intro n hS
      rw [List.length_cons] at hS
      refine uses_bind (uses_update (hS n (Nat.le_refl n) (by omega)) _ _) fun _ => ?_
      exact ih (n + 1) fun k hlo hhi => hS k (by omega) (by omega)

theorem uses_loadChunks (hS : ∀ s, S (at_ s)) (chunks : List (List UID)) :
    ∀ n, Uses S (loadChunks at_ folderID n chunks : Proc ι Err σ (List Message)) := by
  induction chunks with
  | nil => exact fun n => uses_pure []
  | cons c rest ih =>
      intro n
      exact uses_bind (uses_query (hS _) _ _) fun _ => uses_bind (ih (n + 1)) fun _ => uses_pure _

theorem uses_upsertBatch (hS : ∀ s, S (at_ s)) (emails : List ParsedEmail) :
    Uses S (upsertBatch digest at_ accountID folderID emails : Proc ι Err σ Unit) := by
  unfold upsertBatch
  split
  · exact uses_pure ()
  · exact uses_bind (uses_upsertAll accountID folderID emails 0 fun _ _ _ => hS _) fun _ =>
      uses_bind (uses_loadChunks folderID hS _ 0) fun rows =>
        uses_assignThreads digest _ (fun s => hS _) rows

end Batch

/-! ### Fetching -/

section Fetch

variable {digest : Text → Text} {at_ : SyncStmt → ι} {accountID folderID : Nat}

omit [HasDB σ] in
theorem keeps_ask_bind {α β : Type} {i : ι} {answer : α} {f : α → Proc ι Err σ β}
    {J : σ → Prop} (h : Keeps J (f answer)) : Keeps J (ask i answer >>= f) := by
  intro env henv s hs
  have hmeddled := henv i s hs
  rw [bind_apply]
  unfold ask
  cases hf : env.fault i with
  | none => rw [query_none hf]; exact h env henv _ hmeddled
  | fail => rw [query_fail hf]; exact hmeddled
  | crash => rw [query_crash hf]; exact hmeddled

omit [HasDB σ] in
theorem keeps_reported (i : ι) (selected : Nat) (status : Option Nat) {J : σ → Prop} :
    Keeps J (reported i selected status) := by
  unfold reported
  split
  · exact keeps_withDefault (keeps_query _ _ _) 0
  · exact keeps_pure _

/-- **What the upserts of the mails it is sent keep, a range keeps.** -/
theorem keeps_fetchBatched (hJ : CoarseOn J) {fetch : Nat → Nat → List ParsedEmail}
    {start last : Nat}
    (h : ∀ b ∈ batches (last + 1 - start) start last, ∀ e ∈ fetch b.1 b.2,
      KeepsUpsert J accountID folderID e) :
    Keeps J (fetchBatched digest at_ accountID folderID fetch start last) := by
  refine keeps_each _ fun b hb => ?_
  exact keeps_ask_bind (keeps_upsertBatch digest _ accountID folderID hJ (h b hb))

theorem keeps_folderState (folderID uidValidity uidNext total unread : Nat) :
    Keeps J (folderState at_ folderID uidValidity uidNext total unread) := by
  unfold folderState
  split
  · exact keeps_bind (keeps_withDefault (keeps_queryDB _ _ _) 0) fun _ => keeps_pure _
  · exact keeps_pure _

theorem keeps_newMail (folderID prevUIDNext before afterID total : Nat) :
    Keeps J (newMail at_ folderID prevUIDNext before afterID total) := by
  unfold newMail
  dsimp only
  split
  · exact keeps_pure _
  · refine keeps_bind (keeps_withDefault (keeps_queryDB _ _ _) 0) fun _ => ?_
    split
    · exact keeps_pure _
    · exact keeps_bind (keeps_withDefault (keeps_queryDB _ _ _) []) fun _ => keeps_pure _

section Anything

/-- The server sends the mail when it is asked for the folder's. -/
def Sends (c : Session) (path : Text) (e : ParsedEmail) : Prop :=
  ∃ start last, e ∈ c.fetchByUIDRange path start last ∨ e ∈ c.fetchBySeqRange path start last

variable {c : Session} {path : Text} (hJ : CoarseOn J)
  (hup : ∀ e, Sends c path e → KeepsUpsert J accountID folderID e)

include hJ hup

theorem keeps_importRecent (syncDepth numMessages uidNext : Nat) :
    Keeps J
      (importRecent digest syncDepth at_ c accountID folderID path numMessages uidNext) := by
  unfold importRecent fetchRangeBatched fetchSeqRangeBatched
  split
  · exact keeps_pure ()
  · split
    · exact keeps_fetchBatched hJ fun b _ e he => hup e ⟨b.1, b.2, .inl he⟩
    · exact keeps_fetchBatched hJ fun b _ e he => hup e ⟨b.1, b.2, .inr he⟩

theorem keeps_fetchNew (syncDepth prevUIDNext numMessages uidNext : Nat) :
    Keeps J
      (fetchNew digest syncDepth at_ c accountID folderID path prevUIDNext numMessages
        uidNext) := by
  unfold fetchNew anchorFor
  split
  · refine keeps_bind ?_ fun anchor => ?_
    · split
      · exact keeps_bind (keeps_withDefault (keeps_queryDB _ _ _) 0) fun _ => keeps_pure _
      · exact keeps_pure _
    · split
      · exact keeps_fetchBatched hJ fun b _ e he => hup e ⟨b.1, b.2, .inl he⟩
      · exact keeps_pure ()
  · refine keeps_bind (keeps_withDefault (keeps_queryDB _ _ _) 0) fun maxUID => ?_
    split
    · exact keeps_ask_bind
        (keeps_upsertBatch digest _ accountID folderID hJ fun e he => hup e ⟨_, _, .inl he⟩)
    · exact keeps_importRecent hJ hup syncDepth numMessages 0

variable (hdelete : ∀ s, J s → J (setDB s (Repository.deleteByFolder folderID (db s))))

include hdelete

theorem keeps_syncFolderMessages (syncDepth prevUIDValidity : Nat) :
    Keeps J
      (syncFolderMessages digest syncDepth at_ c accountID folderID path prevUIDValidity) := by
  unfold syncFolderMessages
  refine keeps_ask_bind (keeps_bind (keeps_reported _ _ _) fun uidValidity => ?_)
  dsimp only
  split
  case' isTrue => refine keeps_bind (keeps_updateDB hdelete) fun _ => ?_
  all_goals
    refine keeps_bind (keeps_reported _ _ _) fun uidNext => ?_
    refine keeps_bind (keeps_importRecent hJ hup syncDepth _ uidNext) fun _ => ?_
    refine keeps_bind (keeps_withDefault (keeps_queryDB _ _ _) 0) fun total => ?_
    refine keeps_bind (keeps_withDefault (keeps_queryDB _ _ _) 0) fun unread => ?_
    exact keeps_bind (keeps_folderState folderID _ _ _ _) fun _ => keeps_pure _

/-- **What the upserts of what it is sent and the emptying of the folder keep, a round keeps.** -/
theorem keeps_incrementalSync (syncDepth prevUIDValidity prevUIDNext : Nat) :
    Keeps J
      (incrementalSync digest syncDepth at_ c accountID folderID path prevUIDValidity
        prevUIDNext) := by
  unfold incrementalSync
  refine keeps_ask_bind (keeps_bind (keeps_reported _ _ _) fun uidValidity => ?_)
  split
  · refine keeps_bind ?_ fun _ => keeps_bind ?_ fun _ => keeps_pure _
    · exact keeps_updateDB hdelete
    · exact keeps_syncFolderMessages hJ hup hdelete syncDepth 0
  · refine keeps_bind (keeps_withDefault (keeps_queryDB _ _ _) 0) fun before => ?_
    refine keeps_bind (keeps_withDefault (keeps_queryDB _ _ _) 0) fun afterID => ?_
    refine keeps_bind (keeps_reported _ _ _) fun uidNext => ?_
    refine keeps_bind (keeps_fetchNew hJ hup syncDepth prevUIDNext _ uidNext) fun _ => ?_
    refine keeps_bind (keeps_withDefault (keeps_queryDB _ _ _) 0) fun total => ?_
    refine keeps_bind (keeps_withDefault (keeps_queryDB _ _ _) 0) fun unread => ?_
    refine keeps_bind (keeps_newMail folderID _ _ _ _) fun nm => ?_
    exact keeps_bind (keeps_folderState folderID _ _ _ _) fun _ => keeps_pure _

end Anything

end Fetch

/-! ### Storing what a search found -/

section Search

variable {ι σ : Type} [HasBodies σ] {I : DB → Prop} {J : σ → Prop} (digest : Text → Text)

/-- The property does not see the bodies. -/
def BodyBlind (J : σ → Prop) : Prop := ∀ s b, J s → J (setBodies s b)

omit digest in
theorem bodyBlind_db : BodyBlind fun s : σ => I (db s) := by
  intro s b hs
  show I (db (setBodies s b))
  rw [db_setBodies]
  exact hs

theorem keeps_storeParsedBody (at_ : BodyStmt → ι) (hJ : CoarseOn J) (hblind : BodyBlind J)
    (id : Nat) (e : FetchedEmail) : Keeps J (storeParsedBody digest at_ id e) := by
  unfold storeParsedBody backfillHeaders
  refine keeps_bind ?_ fun _ => keeps_bind (keeps_update fun s => hblind s _) fun _ =>
    keeps_bind (keeps_update fun s => hblind s _) fun _ => ?_
  · split
    · refine keeps_bind (keeps_query _ _ _) fun m => ?_
      dsimp only
      split
      · refine keeps_bind ?_ fun _ => keeps_assignThreads digest _ hJ.threadBlind _
        exact keeps_updateDB fun s => hJ s _ (SameMails.modify fun _ => rfl)
      · exact keeps_pure ()
    · exact keeps_pure ()
  · exact keeps_updateDB fun s => hJ s _ (SameMails.modify fun _ => rfl)

theorem keeps_storeFetched (at_ : BatchStmt → ι) (accountID folderID : Nat) (hJ : CoarseOn J)
    {e : ParsedEmail} (h : KeepsUpsert J accountID folderID e) :
    Keeps J (storeFetched digest at_ accountID folderID e) := by
  unfold storeFetched
  refine keeps_bind ?_ fun _ => keeps_bind (keeps_query _ _ _) fun m => ?_
  · exact keeps_updateDB h
  · exact keeps_bind (keeps_assignThreads digest _ hJ.threadBlind [m]) fun _ => keeps_pure m

/-- **What the upserts of its results keep, a search keeps.** -/
theorem keeps_storeResults (at_ : Nat → SearchStmt → ι) (accountID folderID : Nat) (hJ : CoarseOn J)
    (hblind : BodyBlind J) (results : List FetchedEmail)
    (h : ∀ e ∈ results, KeepsUpsert J accountID folderID e.toParsedEmail) :
    ∀ n, Keeps J (storeResults digest at_ accountID folderID n results) := by
  induction results with
  | nil => exact fun n => keeps_pure ()
  | cons e rest ih =>
      intro n
      refine keeps_bind (keeps_storeFetched digest _ _ _ hJ (h e List.mem_cons_self)) fun m => ?_
      refine keeps_bind (keeps_storeParsedBody digest _ hJ hblind m.id e) fun _ => ?_
      exact ih (fun e' he' => h e' (List.mem_cons_of_mem e he')) (n + 1)

theorem uses_storeFetched {S : ι → Prop} {at_ : BatchStmt → ι} (hS : ∀ s, S (at_ s))
    (accountID folderID : Nat) (e : ParsedEmail) :
    Uses S (storeFetched digest at_ accountID folderID e : Proc ι Err σ Message) := by
  unfold storeFetched
  refine uses_bind (uses_update (hS _) _ _) fun _ => uses_bind (uses_query (hS _) _ _) fun m => ?_
  exact uses_bind (uses_assignThreads digest _ (fun s => hS _) [m]) fun _ => uses_pure m

theorem uses_storeParsedBody {S : ι → Prop} {at_ : BodyStmt → ι} (hS : ∀ s, S (at_ s))
    (id : Nat) (e : FetchedEmail) :
    Uses S (storeParsedBody digest at_ id e : Proc ι Err σ Unit) := by
  unfold storeParsedBody backfillHeaders
  refine uses_bind ?_ fun _ => uses_bind (uses_update (hS _) _ _) fun _ =>
    uses_bind (uses_update (hS _) _ _) fun _ => uses_update (hS _) _ _
  split
  · refine uses_bind (uses_query (hS _) _ _) fun m => ?_
    dsimp only
    split
    · exact uses_bind (uses_update (hS _) _ _) fun _ =>
        uses_assignThreads digest _ (fun s => hS _) _
    · exact uses_pure ()
  · exact uses_pure ()

/-- A row that is there has a body stored for it. -/
theorem returns_storeParsedBody (at_ : BodyStmt → ι) {id : Nat} (e : FetchedEmail) {s : σ}
    (h : ∃ r ∈ (db s).messages.rows, r.id = id) :
    ∃ t, storeParsedBody digest at_ id e .calm s = (.ok (), t) := by
  obtain ⟨r, hr, hid⟩ := h
  obtain ⟨t, ht⟩ : ∃ t, backfillHeaders digest at_ id e .calm s = (.ok (), t) := by
    unfold backfillHeaders
    split
    · have hget : Repository.getByID (db s) id = some r := Table.get?_eq_some.mpr ⟨hr, hid⟩
      rw [bind_ok (getRow_calm hget)]
      split
      · have hthreads : Returns (assignThreads digest (fun s => at_ (.thread s))
            [fillHeaders r e] : Proc ι Err σ Unit) := returns_assignThreads _ _ _
        obtain ⟨_, t, ht⟩ := hthreads _
        exact ⟨t, (bind_ok (updateDB_calm _ _ _ _)).trans ht⟩
      · exact ⟨s, rfl⟩
    · exact ⟨s, rfl⟩
  exact ⟨_, bind_ok ht⟩

/-- The upserted mail has a row. -/
theorem exists_row_upsert (accountID folderID : Nat) (e : ParsedEmail) (d : DB) :
    ∃ m ∈ (Repository.upsert (toMessage accountID folderID e) d).messages.rows,
      Repository.getByFolderUID (Repository.upsert (toMessage accountID folderID e) d) folderID
        e.uid = some m := by
  obtain ⟨r, hr, hkey⟩ : ∃ r ∈ (Repository.upsert (toMessage accountID folderID e) d).messages.rows,
      r.key = (folderID, e.uid) := by
    by_cases hold : ∃ a ∈ d.messages.rows, a.key = (folderID, e.uid)
    · obtain ⟨a, ha, hkey⟩ := hold
      exact ⟨_, Repository.mem_upsert.mpr (Or.inr (Or.inl ⟨a, ha, hkey, rfl⟩)), hkey⟩
    · exact ⟨_, Repository.mem_upsert.mpr (Or.inr (Or.inr ⟨fun a ha hk => hold ⟨a, ha, hk⟩, rfl⟩)),
        rfl⟩
  unfold Repository.getByFolderUID
  cases hfind : (Repository.upsert (toMessage accountID folderID e) d).messages.rows.find?
      fun m => m.folderID == folderID && m.uid == e.uid with
  | some m => exact ⟨m, List.mem_of_find?_eq_some hfind, rfl⟩
  | none =>
      have hnot := List.find?_eq_none.mp hfind r hr
      rw [Message.key, Prod.mk.injEq] at hkey
      simp [hkey.1, hkey.2] at hnot

/-- A result is stored, and its row is there afterwards. -/
theorem returns_storeFetched (at_ : BatchStmt → ι) (accountID folderID : Nat) (e : ParsedEmail)
    (s : σ) :
    ∃ m t, storeFetched digest at_ accountID folderID e .calm s = (.ok m, t) ∧
      ∃ r ∈ (db t).messages.rows, r.id = m.id := by
  let s₁ := setDB s (Repository.upsert (toMessage accountID folderID e) (db s))
  have hs₁ : db s₁ = Repository.upsert (toMessage accountID folderID e) (db s) := db_setDB _ _
  obtain ⟨m, hm, hget⟩ := exists_row_upsert accountID folderID e (db s)
  rw [← hs₁] at hm hget
  have hthreads : Returns (assignThreads digest (fun s => at_ (.thread s)) [m] :
      Proc ι Err σ Unit) := returns_assignThreads _ _ _
  obtain ⟨_, t, ht⟩ := hthreads s₁
  have hcoarse : Coarse fun d => ∃ r ∈ d.messages.rows, r.id = m.id := by
    rintro d d' hsame ⟨r, hr, hid⟩
    obtain ⟨r', hr', hcore⟩ := hsame.symm.exists_core hr
    exact ⟨r', hr', (congrArg Message.id hcore).trans hid⟩
  have hleft := keeps_assignThreads digest (fun s => at_ (.thread s)) (coarseOn_db hcoarse).threadBlind [m] .calm
    (fun _ _ h => h) s₁ ⟨m, hm, rfl⟩
  rw [ht] at hleft
  exact ⟨m, t, (bind_ok (updateDB_calm _ _ _ _)).trans ((bind_ok (getRow_calm hget)).trans
    (bind_ok ht)), hleft⟩

end Search

end Message

end FlyMail
