/-
What the migration of subscribed types does to routing.

A type that some channel lists, spelled as its key, names these channels afterwards and no others.  So the
channels that took the type for another reason, because they list nothing, or `all`, or the type in another
letter case, are the ones an event of the type no longer reaches.
-/
import FlyMail.Mail2im.Dispatcher

namespace FlyMail.Mail2im.Dispatcher

variable {S : Setup} {channels : Channels} {types : List MailType} {e : Event}

/-! ### The migrated types -/

/-- A type after the migration. -/
def migrated (S : Setup) (channels : Channels) (mt : MailType) : MailType :=
  if idsOf S channels.rows mt.key = [] then mt
  else { mt with channelIDs := S.marshalIDs (idsOf S channels.rows mt.key) }

theorem key_migrated (mt : MailType) : (migrated S channels mt).key = mt.key := by
  unfold migrated
  split
  · rfl
  · rfl

theorem migrate_of_hasChannels (h : types.any MailType.hasChannels = true) :
    migrateSubscribedTypes S channels types = types := if_pos h

theorem migrate_of_not (h : ¬ types.any MailType.hasChannels = true) :
    migrateSubscribedTypes S channels types = types.map (migrated S channels) := if_neg h

theorem hasChannels_migrated {mt : MailType} (h : idsOf S channels.rows mt.key ≠ []) :
    (migrated S channels mt).hasChannels = true := by
  obtain ⟨hnil, hempty⟩ := S.marshal_ne _ h
  unfold migrated MailType.hasChannels
  rw [if_neg h]
  simp only [decide_eq_true hnil, decide_eq_true hempty, Bool.and_self]

/-- **Another migration changes nothing.** -/
theorem migrate_migrate :
    migrateSubscribedTypes S channels (migrateSubscribedTypes S channels types) =
      migrateSubscribedTypes S channels types := by
  by_cases h : types.any MailType.hasChannels = true
  · rw [migrate_of_hasChannels h, migrate_of_hasChannels h]
  rw [migrate_of_not h]
  by_cases hids : ∀ mt ∈ types, idsOf S channels.rows mt.key = []
  · have hsame : types.map (migrated S channels) = types := by
      refine (List.map_congr_left fun mt hmt => ?_).trans (List.map_id types)
      exact if_pos (hids mt hmt)
    rw [hsame, migrate_of_not h, hsame]
  · refine migrate_of_hasChannels (List.any_eq_true.mpr ?_)
    obtain ⟨mt, hmt, hne⟩ : ∃ mt ∈ types, idsOf S channels.rows mt.key ≠ [] := by
      simpa only [not_forall, exists_prop] using hids
    exact ⟨_, List.mem_map_of_mem hmt, hasChannels_migrated hne⟩

/-! ### Routes before and after -/

/-- The migration gives the event's type channels: it is the type of a mail that is sent on, no type has any
channels yet, and some channel lists the type. -/
def Rerouted (S : Setup) (channels : Channels) (types : List MailType) (e : Event) : Prop :=
  types.any MailType.hasChannels = false ∧ e.type = .emailReceived ∧ e.mailType ≠ [] ∧
    (∃ mt, (types.find? fun mt => mt.key == e.mailType) = some mt ∧ routeTo S mt ≠ .suppressed) ∧
    idsOf S channels.rows e.mailType ≠ []

theorem find?_migrated (key : Text) :
    ((types.map (migrated S channels)).find? fun mt => mt.key == key) =
      (types.find? fun mt => mt.key == key).map (migrated S channels) := by
  rw [List.find?_map]
  congr 1
  refine congrArg (List.find? · types) (funext fun mt => ?_)
  rw [Function.comp_apply, key_migrated]

theorem routeTo_of_no_channels {mt : MailType} (h : mt.hasChannels = false) :
    routeTo S mt = .suppressed ∨ routeTo S mt = .all := by
  unfold routeTo
  split
  · exact Or.inl rfl
  · rw [h]
    exact Or.inr rfl

theorem suppresses_migrated (mt : MailType) : (migrated S channels mt).suppresses = mt.suppresses := by
  unfold migrated
  split
  · rfl
  · rfl

theorem routeTo_migrated {mt : MailType} (hmt : mt.hasChannels = false) :
    routeTo S (migrated S channels mt) =
      if routeTo S mt = .suppressed ∨ idsOf S channels.rows mt.key = [] then routeTo S mt
      else .only (idsOf S channels.rows mt.key) := by
  by_cases hids : idsOf S channels.rows mt.key = []
  · rw [if_pos (Or.inr hids)]
    unfold migrated
    rw [if_pos hids]
  · have hlist : (migrated S channels mt).channelIDs = S.marshalIDs (idsOf S channels.rows mt.key) := by
      unfold migrated
      rw [if_neg hids]
    unfold routeTo
    rw [suppresses_migrated, hlist, hasChannels_migrated hids, S.unmarshal_marshal, hmt]
    cases mt.suppresses with
    | true => simp
    | false => simp [hids]

/-- An event that is not rerouted goes the way it went. -/
theorem route_of_not (h : ¬ Rerouted S channels types e) :
    route S (migrateSubscribedTypes S channels types) e = route S types e := by
  by_cases hany : types.any MailType.hasChannels = true
  · rw [migrate_of_hasChannels hany]
  rw [migrate_of_not hany]
  unfold route
  by_cases hmail : e.type = .emailReceived ∧ e.mailType ≠ []
  · rw [if_pos hmail, if_pos hmail, find?_migrated]
    cases hfind : types.find? fun mt => mt.key == e.mailType with
    | none => rfl
    | some mt =>
        have hkey : mt.key = e.mailType := by
          have hbeq := List.find?_some hfind
          exact beq_iff_eq.mp hbeq
        have hnone : mt.hasChannels = false := by
          refine Bool.eq_false_iff.mpr fun htrue => hany (List.any_eq_true.mpr ⟨mt, ?_, htrue⟩)
          exact List.mem_of_find?_eq_some hfind
        show routeTo S (migrated S channels mt) = routeTo S mt
        rw [routeTo_migrated hnone]
        refine if_pos (Classical.byContradiction fun hno => h ?_)
        obtain ⟨hsent, hids⟩ := not_or.mp hno
        exact ⟨Bool.eq_false_iff.mpr hany, hmail.1, hmail.2, ⟨mt, hfind, hsent⟩, hkey ▸ hids⟩
  · rw [if_neg hmail, if_neg hmail]

/-- One that is rerouted went to all channels, and goes to those that list its type. -/
theorem route_of_rerouted (h : Rerouted S channels types e) :
    route S types e = .all ∧
      route S (migrateSubscribedTypes S channels types) e = .only (idsOf S channels.rows e.mailType) := by
  obtain ⟨hnone, htype, hmail, ⟨mt, hfind, hsent⟩, hids⟩ := h
  have hkey : mt.key = e.mailType := by
    have hbeq := List.find?_some hfind
    exact beq_iff_eq.mp hbeq
  have hmt : mt.hasChannels = false := by
    refine Bool.eq_false_iff.mpr fun htrue => Bool.eq_false_iff.mp hnone (List.any_eq_true.mpr ⟨mt, ?_, htrue⟩)
    exact List.mem_of_find?_eq_some hfind
  have hall : routeTo S mt = .all := (routeTo_of_no_channels hmt).resolve_left hsent
  rw [migrate_of_not (Bool.eq_false_iff.mp hnone)]
  unfold route
  rw [if_pos ⟨htype, hmail⟩, if_pos ⟨htype, hmail⟩, find?_migrated, hfind]
  refine ⟨hall, ?_⟩
  show routeTo S (migrated S channels mt) = _
  rw [routeTo_migrated hmt, hkey, if_neg (not_or.mpr ⟨hsent, hids⟩)]

/-! ### The channels an event is sent to -/

theorem mem_idsOf {rows : List Channel} {key : Text} {id : Nat} (h : id ∈ idsOf S rows key) :
    ∃ ch ∈ rows, ch.id = id ∧ key ∈ migratedTypes S ch := by
  obtain ⟨ch, hch, hid⟩ := List.mem_flatMap.mp h
  obtain ⟨s, hs, rfl⟩ := List.mem_map.mp hid
  obtain ⟨hread, hkey⟩ := List.mem_filter.mp hs
  exact ⟨ch, hch, rfl, beq_iff_eq.mp hkey ▸ hread⟩

/-- What the migration reads of a channel the dispatcher reads too. -/
theorem mem_subscribedTypes {ch : Channel} {key : Text} (h : key ∈ migratedTypes S ch) : key ∈ subscribedTypes S ch := by
  unfold migratedTypes at h
  unfold subscribedTypes
  split at h
  · exact absurd h List.not_mem_nil
  · rename_i hne
    rw [if_neg fun hnil => hne (Or.inl hnil)]
    split at h
    · rename_i subs hread
      rw [hread]
      exact h
    · exact absurd h List.not_mem_nil

/-- A channel that lists the type has always taken it. -/
theorem subscribed_of_listed {entry : ChannelEntry} (hentry : entry ∈ reloadChannels S channels) {id : Nat}
    (hid : entry.id = some id) (hlisted : id ∈ idsOf S channels.rows e.mailType) : subscribed S entry e = true := by
  rcases List.mem_cons.mp hentry with rfl | hrow
  · exact absurd hid.symm (Option.some_ne_none id)
  obtain ⟨ch, hch, hsome⟩ := List.mem_filterMap.mp hrow
  unfold entryOf at hsome
  split at hsome
  · obtain rfl := Option.some.inj hsome
    obtain ⟨ch', hch', hid', hkey⟩ := mem_idsOf hlisted
    have hsame : ch' = ch := channels.eq_of_pk hch' hch (hid'.trans (Option.some.inj hid).symm)
    unfold subscribed
    have hany : (subscribedTypes S ch).any (fun t => S.equalFold t e.mailType || S.equalFold t "all".toList) = true := by
      refine List.any_eq_true.mpr ⟨e.mailType, mem_subscribedTypes (hsame ▸ hkey), ?_⟩
      rw [S.equalFold_refl]
      rfl
    simp only [hany, Bool.or_true]
  · exact absurd hsome.symm (Option.some_ne_none _)

/-- Every channel that takes the event lists its type, spelled as the type's key. -/
def Covered (S : Setup) (channels : Channels) (types : List MailType) (e : Event) : Prop :=
  S.shouldSend e = true → Rerouted S channels types e →
    ∀ entry ∈ reloadChannels S channels, awake S entry e = true → subscribed S entry e = true →
      ∀ id, entry.id = some id → id ∈ idsOf S channels.rows e.mailType

theorem admits_iff {entry : ChannelEntry} (hentry : entry ∈ reloadChannels S channels) :
    (admits S (.only (idsOf S channels.rows e.mailType)) e entry = admits S .all e entry) ↔
      (awake S entry e = true → subscribed S entry e = true → ∀ id, entry.id = some id →
        id ∈ idsOf S channels.rows e.mailType) := by
  unfold admits
  cases hawake : awake S entry e with
  | false => exact ⟨fun _ h => absurd h Bool.false_ne_true, fun _ => rfl⟩
  | true =>
      cases hid : entry.id with
      | none =>
          rcases List.mem_cons.mp hentry with rfl | hrow
          · exact ⟨fun _ _ _ id h => absurd h.symm (Option.some_ne_none id), fun _ => rfl⟩
          · obtain ⟨ch, -, hsome⟩ := List.mem_filterMap.mp hrow
            unfold entryOf at hsome
            split at hsome
            · obtain rfl := Option.some.inj hsome
              exact absurd hid (Option.some_ne_none _)
            · exact absurd hsome.symm (Option.some_ne_none _)
      | some id =>
          simp only [Bool.true_and]
          constructor
          · intro h _ hsubscribed id' hid'
            rw [hsubscribed] at h
            exact Option.some.inj hid' ▸ List.contains_iff_mem.mp h
          · intro h
            cases hsubscribed : subscribed S entry e with
            | true => exact List.contains_iff_mem.mpr (h trivial hsubscribed id rfl)
            | false =>
                refine Bool.eq_false_iff.mpr fun hlisted => Bool.eq_false_iff.mp hsubscribed ?_
                exact subscribed_of_listed hentry hid (List.contains_iff_mem.mp hlisted)

/-- **The migration keeps an event's channels exactly when it is covered**, and doing it again changes nothing. -/
theorem migration_keeps_iff (S : Setup) (channels : Channels) (types : List MailType) :
    (∀ e, (∀ entry, entry ∈ handleEvent S (migrateSubscribedTypes S channels types) (reloadChannels S channels) e ↔
        entry ∈ handleEvent S types (reloadChannels S channels) e) ↔ Covered S channels types e) ∧
      migrateSubscribedTypes S channels (migrateSubscribedTypes S channels types) =
        migrateSubscribedTypes S channels types := by
  refine ⟨fun e => ?_, migrate_migrate⟩
  unfold Covered handleEvent
  cases hsend : S.shouldSend e with
  | false => exact ⟨fun _ h => absurd h Bool.false_ne_true, fun _ _ => Iff.rfl⟩
  | true =>
      by_cases hrerouted : Rerouted S channels types e
      · obtain ⟨hbefore, hafter⟩ := route_of_rerouted hrerouted
        rw [if_pos rfl, if_pos rfl, hbefore, hafter]
        constructor
        · intro h _ _ entry hentry
          refine (admits_iff hentry).mp (Bool.eq_iff_iff.mpr ?_)
          have hsame := h entry
          simpa only [List.mem_filter, hentry, true_and] using hsame
        · intro h entry
          rw [List.mem_filter, List.mem_filter]
          refine and_congr_right fun hentry => ?_
          rw [(admits_iff hentry).mpr (h rfl hrerouted entry hentry)]
      · rw [route_of_not hrerouted]
        exact ⟨fun _ _ h => absurd h hrerouted, fun _ _ => Iff.rfl⟩

section Example

private def marshal (ids : List Nat) : Text := '[' :: (Text.commaJoin (ids.map Text.formatUint) ++ [']'])

private def unmarshal : Text → Option (List Nat)
  | '[' :: rest =>
      if rest.dropLast = [] then some []
      else some ((Text.commaSplit rest.dropLast).map fun t => Nat.ofDigitChars 10 t 0)
  | _ => none

private theorem unmarshal_marshal (ids : List Nat) : unmarshal (marshal ids) = some ids := by
  unfold marshal unmarshal
  simp only [List.dropLast_concat]
  cases ids with
  | nil => rfl
  | cons n rest =>
      rw [if_neg Text.commaJoin_ne_nil, Text.commaSplit_commaJoin (by simp), List.map_map]
      · have hread : (fun t => Nat.ofDigitChars 10 t 0) ∘ Text.formatUint = id :=
          funext fun n => Nat.ofDigitChars_ten_toDigits
        rw [hread, List.map_id]
      · intro t ht
        obtain ⟨n, -, rfl⟩ := List.mem_map.mp ht
        exact Text.comma_notMem_formatUint n

private theorem marshal_ne (ids : List Nat) (h : ids ≠ []) : marshal ids ≠ [] ∧ marshal ids ≠ emptyList := by
  refine ⟨List.cons_ne_nil _ _, fun heq => h ?_⟩
  have hread := unmarshal_marshal ids
  rw [heq] at hread
  exact (Option.some.inj hread).symm

/-- Lists hold one type at most. -/
private def plain : Setup where
  marshalIDs := marshal
  unmarshalIDs := unmarshal
  unmarshalTypes t := if t = "[\"bill\"]".toList then (["bill".toList], true) else ([], true)
  configured _ _ := true
  equalFold a b := a == b
  shouldSend _ := true
  isQuiet _ := false
  unmarshal_marshal := unmarshal_marshal
  marshal_ne := marshal_ne
  equalFold_refl t := beq_self_eq_true t

private def telegram (id : Nat) (subscribedTypes : Text) : Channel :=
  ⟨id, ['c'], "telegram".toList, [], "enabled".toList, 0, subscribedTypes, ⟨[], false, [], []⟩⟩

/-- One channel takes bills, and the other everything. -/
private def billsAndAll : Channels :=
  ⟨[telegram 1 "[\"bill\"]".toList, telegram 2 []], 2, by decide, by decide, by decide⟩

private def bill : MailType := ⟨"bill".toList, "notify".toList, emptyList⟩

private def newBill : Event := ⟨.emailReceived, 10, "bill".toList⟩

/-- The channel that takes everything is not told of bills any more. -/
theorem migration_drops_channel :
    ¬ ∀ entry,
      entry ∈ handleEvent plain (migrateSubscribedTypes plain billsAndAll [bill]) (reloadChannels plain billsAndAll) newBill ↔
        entry ∈ handleEvent plain [bill] (reloadChannels plain billsAndAll) newBill := by
  intro h
  have hafter := (h ⟨some 2, ['c'], "telegram".toList, 0, ⟨[], false, [], []⟩, []⟩).mpr (by decide +kernel)
  exact absurd hafter (by decide +kernel)

end Example

end FlyMail.Mail2im.Dispatcher
