import ChronoShare.ActionLog.Convergence

/-!
# Parents are one version back

An action names as its parent the update that was the latest on its file where
the action was created.  Rows reach other devices in any order, and their
parents may never arrive; but a parent that is there is the update the author
saw, one version below.
-/

namespace ChronoShare

def ActionItem.parent (item : ActionItem) : Option (Bytes × Int64) :=
  item.parentDeviceName.map fun name =>
    (name, (item.parentSeqNo.getD 0).toInt64)

def ActionRow.parent (row : ActionRow) : Option (Bytes × Int64) :=
  row.parentDeviceName.bind fun name =>
    row.parentSeqNo.map fun seqNo => (name, seqNo)

/-- Following parents from row to row of a table. -/
inductive Follows (actions : List ActionRow) :
    ActionRow → Nat → ActionRow → Prop where
  | stop {row : ActionRow} : row ∈ actions → Follows actions row 0 row
  | step {row parent last : ActionRow} {steps : Nat} :
      row ∈ actions → parent ∈ actions →
      row.parent = some (parent.deviceName, parent.seqNo) →
      Follows actions parent steps last →
      Follows actions row (steps + 1) last

namespace Network

variable {Name : Type} [DecidableEq Name] (platform : ActionPlatform Name)

/-- Devices that create actions of any kind and exchange them in any order; an
action may also come back to its author.  A call that would increment the
greatest number has no defined behaviour. -/
def exchange (network : Network Name) :
    NetworkEvent Name → Option (Network Name)
  | .addLocalActionUpdate device choice actionTime filename hash wtime mode
      segNum =>
      let log := network.log device
      match log.syncLog.getNextLocalSeqNo, log.addLocalActionUpdate platform
          choice actionTime filename hash wtime mode segNum with
      | some (seqNo, _), some (item, after) =>
          if seqNo ≠ Int64.minValue ∧ item.version.toInt64 ≠ Int64.minValue then
            some (network.create after ⟨device, seqNo, item, wtime⟩)
          else
            none
      | _, _ => none
  | .addLocalActionDelete device choice actionTime memory filename =>
      let log := network.log device
      match log.syncLog.getNextLocalSeqNo, log.addLocalActionDelete platform
          choice actionTime memory filename with
      | some (seqNo, _), some (some item, after) =>
          if seqNo ≠ Int64.minValue ∧ item.version.toInt64 ≠ Int64.minValue then
            some (network.create after ⟨device, seqNo, item, 0⟩)
          else
            none
      | _, some (none, after) => some (network.setLog device after)
      | _, _ => none
  | .deliver device action actionPco =>
      if action ∈ network.created ∧
          platform.parse actionPco.content = some action.item then
        let after := (network.log device).addRemoteAction platform
          action.author action.seqNo (some actionPco)
        some ((network.setLog device after.2).receive device action)
      else
        none
  | .syncLogChanged device syncLog =>
      if (network.log device).syncLog.Advances syncLog then
        some (network.setLog device
          { network.log device with syncLog := syncLog })
      else
        none

abbrev Exchanges (start : Network Name) :
    List (Network Name × NetworkEvent Name) → Network Name → Prop :=
  Run (fun source label target => exchange platform source label = some target)
    start

theorem exchange_of_step {network target : Network Name}
    {label : NetworkEvent Name}
    (taken : network.step platform label = some target) :
    network.exchange platform label = some target := by
  cases label with
  | addLocalActionUpdate device choice actionTime filename hash wtime mode
      segNum =>
      simp only [step, exchange] at taken ⊢
      cases numbered : (network.log device).syncLog.getNextLocalSeqNo with
      | none => simp [numbered] at taken
      | some next =>
          cases added : (network.log device).addLocalActionUpdate platform
              choice actionTime filename hash wtime mode segNum with
          | none => simp [numbered, added] at taken
          | some result =>
              simp only [numbered, added] at taken ⊢
              split_ifs at taken with guards
              rw [if_pos guards.2.2]
              exact taken
  | addLocalActionDelete device choice actionTime memory filename =>
      simp only [step, exchange] at taken ⊢
      cases added : (network.log device).addLocalActionDelete platform choice
          actionTime memory filename with
      | none =>
          cases numbered : (network.log device).syncLog.getNextLocalSeqNo <;>
            simp [numbered, added] at taken
      | some result =>
          obtain ⟨returned, after⟩ := result
          cases numbered : (network.log device).syncLog.getNextLocalSeqNo with
          | none =>
              cases returned with
              | none =>
                  simp only [numbered, added] at taken ⊢
                  exact taken
              | some item => simp [numbered, added] at taken
          | some next =>
              cases returned with
              | none =>
                  simp only [numbered, added] at taken ⊢
                  exact taken
              | some item =>
                  simp only [numbered, added] at taken ⊢
                  split_ifs at taken with guards
                  rw [if_pos guards.2]
                  exact taken
  | deliver device action actionPco =>
      simp only [step, exchange] at taken ⊢
      split_ifs at taken with guards
      rw [if_pos ⟨guards.1, guards.2.2⟩]
      exact taken
  | syncLogChanged device syncLog => exact taken

end Network

open ActionLog

variable {Name : Type} [DecidableEq Name] {platform : ActionPlatform Name}

/-- The row tells of the action; a deletion may be stored under the wire form
of its author. -/
structure TellsOf (platform : ActionPlatform Name) (sent : Created Name)
    (row : ActionRow) : Prop where
  deviceName : row.deviceName = platform.ndn.value sent.author ∨
    row.action = .delete ∧ row.deviceName = platform.ndn.wire sent.author
  seqNo : row.seqNo = sent.seqNo
  action : row.action = sent.item.action
  filename : row.filename = sent.item.filename
  version : row.version = sent.item.version.toInt64
  parent : row.parent = sent.item.parent

omit [DecidableEq Name] in
theorem tellsOf_updateRow (device : Name) (seqNo : Int64)
    (filename hash : Bytes) (version actionTime wtime : Int64)
    (mode segNum : Int32) (parent : Option (Bytes × Int64)) :
    TellsOf platform
      ⟨device, seqNo, updateItem filename hash version actionTime wtime mode
        segNum parent, wtime⟩
      (updateRow platform device seqNo filename hash version actionTime wtime
        mode segNum parent) where
  deviceName := Or.inl rfl
  seqNo := rfl
  action := rfl
  filename := rfl
  version := by simp [updateRow, updateItem]
  parent := by
    cases parent <;>
      simp [updateRow, updateItem, ActionRow.parent, ActionItem.parent]

omit [DecidableEq Name] in
theorem tellsOf_deleteRow (device : Name) (seqNo : Int64)
    (memory : Nat → UInt8) (filename : Bytes) (version actionTime : Int64)
    (parentDeviceName : Bytes) (parentSeqNo : Int64) :
    TellsOf platform
      ⟨device, seqNo, deleteItem filename version actionTime parentDeviceName
        parentSeqNo, 0⟩
      (deleteRow platform device seqNo memory filename version actionTime
        parentDeviceName parentSeqNo) where
  deviceName := Or.inr ⟨rfl, rfl⟩
  seqNo := rfl
  action := rfl
  filename := rfl
  version := by simp [deleteRow, deleteItem]
  parent := by
    simp [deleteRow, deleteItem, ActionRow.parent, ActionItem.parent]

omit [DecidableEq Name] in
theorem tellsOf_remoteRow (sent : Created Name) (content : Bytes) :
    TellsOf platform sent
      (remoteRow platform sent.author sent.seqNo sent.item content) where
  deviceName := Or.inl rfl
  seqNo := rfl
  action := rfl
  filename := rfl
  version := rfl
  parent := by
    cases named : sent.item.parentDeviceName <;>
      simp [remoteRow, ActionRow.parent, ActionItem.parent, named]

theorem latestRow_mem {actions : List ActionRow} {filename : Bytes}
    {choice : Nat} {row : ActionRow}
    (latest : latestRow actions filename choice = some row) :
    row ∈ actions ∧ row.filename = filename := by
  have member := List.mem_of_getElem? latest
  simpa using (List.mem_filter.mp (List.mem_filter.mp member).1)

/-- The device and the number returned with a version are those of an update of
that version. -/
theorem update_of_getLatest {actions : List ActionRow} {filename name : Bytes}
    {choice : Nat} {version seqNo : Int64}
    (latest : getLatestActionForFile actions filename choice =
      (version, some name, seqNo)) :
    ∃ row ∈ actions, row.action = .update ∧ row.filename = filename ∧
      row.version = version ∧ row.deviceName = name ∧ row.seqNo = seqNo := by
  cases found : latestRow actions filename choice with
  | none => simp [getLatestActionForFile, found] at latest
  | some row =>
      obtain ⟨rowIn, named⟩ := latestRow_mem found
      cases kind : row.action with
      | delete => simp [getLatestActionForFile, found, kind] at latest
      | update =>
          simp only [getLatestActionForFile, found, kind, Prod.mk.injEq,
            Option.some.injEq] at latest
          exact ⟨row, rowIn, kind, named, latest.1, latest.2.1, latest.2.2⟩

theorem nonneg_of_getLatest {actions : List ActionRow}
    (versions : ∀ row ∈ actions, (0 : Int64) ≤ row.version) (filename : Bytes)
    (choice : Nat)
    (defined : (getLatestActionForFile actions filename choice).1 + 1 ≠
      Int64.minValue) :
    0 ≤ (getLatestActionForFile actions filename choice).1 + 1 := by
  cases found : latestRow actions filename choice with
  | none => simp [getLatestActionForFile, found]
  | some row =>
      obtain ⟨rowIn, -⟩ := latestRow_mem found
      have sameVersion : (getLatestActionForFile actions filename choice).1 =
          row.version := by
        cases kind : row.action <;> simp [getLatestActionForFile, found, kind]
      have increased := int64_lt_succ defined
      rw [sameVersion] at increased ⊢
      exact (versions row rowIn).trans increased.le

/-- The parent of a new action is an update on the file, of the version before
its own. -/
def ParentIn (actions : List ActionRow) (item : ActionItem) : Prop :=
  ∀ parent, item.parent = some parent → ∃ row ∈ actions,
    row.action = .update ∧ row.filename = item.filename ∧
      (row.deviceName, row.seqNo) = parent ∧
      item.version.toInt64 = row.version + 1

omit [DecidableEq Name] in
theorem parentIn_addLocalActionUpdate {log target : ActionLog Name}
    {choice : Nat} {actionTime wtime : Int64} {filename hash : Bytes}
    {mode segNum : Int32} {item : ActionItem}
    (added : log.addLocalActionUpdate platform choice actionTime filename hash
      wtime mode segNum = some (item, target)) :
    ParentIn log.actions item := by
  rcases found : getLatestActionForFile log.actions filename choice with
    ⟨latest, parentDeviceName, parentSeqNo⟩
  cases numbered : log.syncLog.getNextLocalSeqNo with
  | none => simp [addLocalActionUpdate, numbered] at added
  | some next =>
      simp only [addLocalActionUpdate, numbered, found, Option.some.injEq,
        Prod.mk.injEq] at added
      obtain ⟨rfl, -⟩ := added
      intro parent named
      by_cases positive : 0 < parentSeqNo
      · cases parentDeviceName with
        | none => simp [ActionItem.parent, updateItem] at named
        | some name =>
            obtain ⟨row, rowIn, kind, file, version, rfl, rfl⟩ :=
              update_of_getLatest found
            refine ⟨row, rowIn, kind, file, ?_, ?_⟩
            · simpa [ActionItem.parent, updateItem, positive] using named
            · simp [updateItem, version]
      · simp [ActionItem.parent, updateItem, positive] at named

omit [DecidableEq Name] in
theorem parentIn_addLocalActionDelete {log target : ActionLog Name}
    {choice : Nat} {actionTime : Int64} {memory : Nat → UInt8}
    {filename : Bytes} {item : ActionItem}
    (added : log.addLocalActionDelete platform choice actionTime memory
      filename = some (some item, target)) :
    ParentIn log.actions item := by
  rcases found : getLatestActionForFile log.actions filename choice with
    ⟨latest, parentDeviceName, parentSeqNo⟩
  cases parentDeviceName with
  | none => simp [addLocalActionDelete, found] at added
  | some name =>
      cases numbered : log.syncLog.getNextLocalSeqNo with
      | none => simp [addLocalActionDelete, found, numbered] at added
      | some next =>
          simp only [addLocalActionDelete, found, numbered, Option.some.injEq,
            Prod.mk.injEq] at added
          obtain ⟨rfl, -⟩ := added
          intro parent named
          obtain ⟨row, rowIn, kind, file, version, rfl, rfl⟩ :=
            update_of_getLatest found
          refine ⟨row, rowIn, kind, file, ?_, ?_⟩
          · simpa [ActionItem.parent, deleteItem] using named
          · simp [deleteItem, version]

/-- Every row tells of a created action, authors number their actions apart,
and the parent of an action is a created update on its file, one version
below. -/
structure Ancestral (platform : ActionPlatform Name) (network : Network Name) :
    Prop where
  localName : ∀ device, (network.log device).syncLog.localName = device
  numbers : ∀ left ∈ network.created, ∀ right ∈ network.created,
    left.author = right.author → left.seqNo = right.seqNo → left = right
  numbered : ∀ sent ∈ network.created,
    (sent.seqNo : WithBot Int64) ≤
      (network.log sent.author).syncLog.localNumber
  told : ∀ device, ∀ row ∈ (network.log device).actions,
    ∃ sent ∈ network.created, TellsOf platform sent row
  versions : ∀ sent ∈ network.created, 0 ≤ sent.item.version.toInt64
  parents : ∀ sent ∈ network.created, ∀ parent,
    sent.item.parent = some parent → ∃ earlier ∈ network.created,
      earlier.item.action = .update ∧
        earlier.item.filename = sent.item.filename ∧
        (platform.ndn.value earlier.author, earlier.seqNo) = parent ∧
        sent.item.version.toInt64.toInt =
          earlier.item.version.toInt64.toInt + 1

namespace Ancestral

variable {network : Network Name}

theorem receive (ancestral : Ancestral platform network) (device : Name)
    (sent : Created Name) :
    Ancestral platform (network.receive device sent) := by
  constructor
  · simpa using ancestral.localName
  · simpa using ancestral.numbers
  · simpa using ancestral.numbered
  · simpa using ancestral.told
  · simpa using ancestral.versions
  · simpa using ancestral.parents

theorem setLog (ancestral : Ancestral platform network) {device : Name}
    {after : ActionLog Name}
    (advances : (network.log device).syncLog.Advances after.syncLog)
    (told : ∀ row ∈ after.actions, row ∈ (network.log device).actions ∨
      ∃ sent ∈ network.created, TellsOf platform sent row) :
    Ancestral platform (network.setLog device after) := by
  refine ⟨?_, ancestral.numbers, numbered_update ancestral.numbered advances,
    ?_, ancestral.versions, ancestral.parents⟩
  · intro other
    by_cases here : other = device
    · rw [here, Network.setLog_log, Function.update_self, advances.localName]
      exact ancestral.localName device
    · rw [Network.setLog_log, Function.update_of_ne here]
      exact ancestral.localName other
  · intro other row
    by_cases here : other = device
    · rw [here, Network.setLog_log, Function.update_self]
      intro rowIn
      rcases told row rowIn with earlier | known
      · exact ancestral.told device row earlier
      · exact known
    · rw [Network.setLog_log, Function.update_of_ne here]
      exact ancestral.told other row

omit [DecidableEq Name] in
theorem parent_created (ancestral : Ancestral platform network)
    {device : Name} {item : ActionItem}
    (parentIn : ParentIn (network.log device).actions item)
    (defined : item.version.toInt64 ≠ Int64.minValue)
    {parent : Bytes × Int64} (named : item.parent = some parent) :
    ∃ earlier ∈ network.created, earlier.item.action = .update ∧
      earlier.item.filename = item.filename ∧
      (platform.ndn.value earlier.author, earlier.seqNo) = parent ∧
      item.version.toInt64.toInt =
        earlier.item.version.toInt64.toInt + 1 := by
  obtain ⟨row, rowIn, kind, file, sameParent, version⟩ :=
    parentIn parent named
  obtain ⟨earlier, earlierIn, tells⟩ := ancestral.told device row rowIn
  have asValue : row.deviceName = platform.ndn.value earlier.author := by
    rcases tells.deviceName with here | ⟨deletion, -⟩
    · exact here
    · rw [kind] at deletion
      exact ActionType.noConfusion deletion
  refine ⟨earlier, earlierIn, ?_, ?_, ?_, ?_⟩
  · rw [← tells.action, kind]
  · rw [← tells.filename, file]
  · rw [← asValue, ← tells.seqNo, sameParent]
  · rw [version] at defined
    rw [version, ← tells.version]
    exact int64_toInt_succ (int64_lt_succ defined)

theorem create (ancestral : Ancestral platform network) {sent : Created Name}
    {row : ActionRow} {next : SyncLog Name} {after : ActionLog Name}
    (advances : (network.log sent.author).syncLog.Advances next)
    (above : (network.log sent.author).syncLog.localNumber < sent.seqNo)
    (reached : sent.seqNo ≤ next.localNumber)
    (parentIn : ParentIn (network.log sent.author).actions sent.item)
    (nonneg : 0 ≤ sent.item.version.toInt64)
    (defined : sent.item.version.toInt64 ≠ Int64.minValue)
    (tells : TellsOf platform sent row)
    (sameSyncLog : after.syncLog = next)
    (rows : ∀ other ∈ after.actions,
      other ∈ (network.log sent.author).actions ∨ other = row) :
    Ancestral platform (network.create after sent) := by
  subst sameSyncLog
  have grown : ∀ other ∈ network.created,
      other ∈ network.created ++ [sent] :=
    fun other member => List.mem_append_left _ member
  apply Ancestral.receive
  constructor
  · intro other
    by_cases here : other = sent.author
    · rw [here, Network.setLog_log, Function.update_self, advances.localName]
      exact ancestral.localName sent.author
    · rw [Network.setLog_log, Function.update_of_ne here]
      exact ancestral.localName other
  · exact numbers_append ancestral.numbers
      (number_fresh ancestral.numbered above)
  · exact numbered_create ancestral.numbered advances reached
  · intro other entry
    rw [Network.setLog_log]
    by_cases here : other = sent.author
    · rw [here, Function.update_self]
      intro entryIn
      rcases rows entry entryIn with earlier | rfl
      · obtain ⟨source, sourceIn, known⟩ :=
          ancestral.told sent.author entry earlier
        exact ⟨source, grown source sourceIn, known⟩
      · exact ⟨sent, by simp [Network.setLog], tells⟩
    · rw [Function.update_of_ne here]
      intro entryIn
      obtain ⟨source, sourceIn, known⟩ := ancestral.told other entry entryIn
      exact ⟨source, grown source sourceIn, known⟩
  · intro other member
    rcases List.mem_append.mp member with old | new
    · exact ancestral.versions other old
    · rw [List.mem_singleton.mp new]
      exact nonneg
  · intro other member parent named
    have known : ∃ earlier ∈ network.created,
        earlier.item.action = .update ∧
          earlier.item.filename = other.item.filename ∧
          (platform.ndn.value earlier.author, earlier.seqNo) = parent ∧
          other.item.version.toInt64.toInt =
            earlier.item.version.toInt64.toInt + 1 := by
      rcases List.mem_append.mp member with old | new
      · exact ancestral.parents other old parent named
      · rw [List.mem_singleton.mp new] at named ⊢
        exact ancestral.parent_created parentIn defined named
    obtain ⟨earlier, earlierIn, facts⟩ := known
    exact ⟨earlier, grown earlier earlierIn, facts⟩

omit [DecidableEq Name] in
theorem row_version (ancestral : Ancestral platform network) (device : Name) :
    ∀ row ∈ (network.log device).actions, (0 : Int64) ≤ row.version := by
  intro row rowIn
  obtain ⟨sent, sentIn, tells⟩ := ancestral.told device row rowIn
  rw [tells.version]
  exact ancestral.versions sent sentIn

theorem addLocalActionUpdate (ancestral : Ancestral platform network)
    {device : Name} {choice : Nat} {actionTime wtime seqNo : Int64}
    {filename hash : Bytes} {mode segNum : Int32} {item : ActionItem}
    {after : ActionLog Name} {next : SyncLog Name}
    (numbered : (network.log device).syncLog.getNextLocalSeqNo =
      some (seqNo, next))
    (added : (network.log device).addLocalActionUpdate platform choice
      actionTime filename hash wtime mode segNum = some (item, after))
    (defined : seqNo ≠ Int64.minValue)
    (definedVersion : item.version.toInt64 ≠ Int64.minValue) :
    Ancestral platform (network.create after ⟨device, seqNo, item, wtime⟩) := by
  have parentIn := parentIn_addLocalActionUpdate added
  obtain ⟨parent, rfl, rfl⟩ := addLocalActionUpdate_numbered numbered added
  obtain ⟨advances, above, reached⟩ :=
    SyncLog.getNextLocalSeqNo_advances numbered defined
  have increment : (getLatestActionForFile (network.log device).actions
      filename choice).1 + 1 ≠ Int64.minValue := by
    simpa [updateItem] using definedVersion
  apply ancestral.create advances above reached parentIn _ definedVersion
    (tellsOf_updateRow device seqNo filename hash _ actionTime wtime mode
      segNum parent)
  · simp
  · intro other otherIn
    have inserted := mem_insertAction otherIn
    rwa [ancestral.localName] at inserted
  · simpa [updateItem] using
      nonneg_of_getLatest (ancestral.row_version device) filename choice
        increment

theorem addLocalActionDelete (ancestral : Ancestral platform network)
    {device : Name} {choice : Nat} {actionTime seqNo : Int64}
    {memory : Nat → UInt8} {filename : Bytes} {item : ActionItem}
    {after : ActionLog Name} {next : SyncLog Name}
    (numbered : (network.log device).syncLog.getNextLocalSeqNo =
      some (seqNo, next))
    (added : (network.log device).addLocalActionDelete platform choice
      actionTime memory filename = some (some item, after))
    (defined : seqNo ≠ Int64.minValue)
    (definedVersion : item.version.toInt64 ≠ Int64.minValue) :
    Ancestral platform (network.create after ⟨device, seqNo, item, 0⟩) := by
  have parentIn := parentIn_addLocalActionDelete added
  obtain ⟨parentDeviceName, parentSeqNo, rfl, rfl⟩ :=
    addLocalActionDelete_numbered numbered added
  obtain ⟨advances, above, reached⟩ :=
    SyncLog.getNextLocalSeqNo_advances numbered defined
  have increment : (getLatestActionForFile (network.log device).actions
      filename choice).1 + 1 ≠ Int64.minValue := by
    simpa [deleteItem] using definedVersion
  apply ancestral.create advances above reached parentIn _ definedVersion
    (tellsOf_deleteRow device seqNo memory filename _ actionTime
      parentDeviceName parentSeqNo)
  · simp
  · intro other otherIn
    have inserted := mem_insertAction otherIn
    rwa [ancestral.localName] at inserted
  · simpa [deleteItem] using
      nonneg_of_getLatest (ancestral.row_version device) filename choice
        increment

theorem deliver (ancestral : Ancestral platform network) (device : Name)
    {sent : Created Name} (member : sent ∈ network.created)
    (actionPco : Data Name)
    (intact : platform.parse actionPco.content = some sent.item) :
    Ancestral platform ((network.setLog device
      ((network.log device).addRemoteAction platform sent.author sent.seqNo
        (some actionPco)).2).receive device sent) := by
  have inserted : ((network.log device).addRemoteAction platform sent.author
      sent.seqNo (some actionPco)).2 =
      (network.log device).insertAction (remoteRow platform sent.author
        sent.seqNo sent.item actionPco.content) := by
    simp [addRemoteAction, intact]
  rw [inserted]
  apply Ancestral.receive
  apply ancestral.setLog
  · rw [insertAction_syncLog]
    exact ⟨rfl, le_rfl⟩
  · intro row rowIn
    rcases mem_insertAction rowIn with earlier | rfl
    · exact Or.inl earlier
    · exact Or.inr ⟨sent, member, tellsOf_remoteRow sent actionPco.content⟩

theorem exchange (ancestral : Ancestral platform network)
    {target : Network Name} {label : NetworkEvent Name}
    (taken : network.exchange platform label = some target) :
    Ancestral platform target := by
  cases label with
  | addLocalActionUpdate device choice actionTime filename hash wtime mode
      segNum =>
      simp only [Network.exchange] at taken
      split at taken
      · rename_i seqNo next item after numbered added
        split_ifs at taken with guards
        obtain rfl := Option.some.inj taken
        exact ancestral.addLocalActionUpdate numbered added guards.1 guards.2
      · exact absurd taken (by simp)
  | addLocalActionDelete device choice actionTime memory filename =>
      simp only [Network.exchange] at taken
      split at taken
      · rename_i seqNo next item after numbered added
        split_ifs at taken with guards
        obtain rfl := Option.some.inj taken
        exact ancestral.addLocalActionDelete numbered added guards.1 guards.2
      · rename_i after added
        obtain rfl := Option.some.inj taken
        rcases addLocalActionDelete_cases added with
          ⟨-, rfl⟩ | ⟨_, _, _, _, -, returned, -⟩
        · apply ancestral.setLog ⟨rfl, le_rfl⟩
          exact fun row rowIn => Or.inl rowIn
        · exact absurd returned (by simp)
      · exact absurd taken (by simp)
  | deliver device action actionPco =>
      simp only [Network.exchange] at taken
      split_ifs at taken with guards
      obtain rfl := Option.some.inj taken
      exact ancestral.deliver device guards.1 actionPco guards.2
  | syncLogChanged device syncLog =>
      simp only [Network.exchange] at taken
      split_ifs at taken with advances
      obtain rfl := Option.some.inj taken
      apply ancestral.setLog advances
      exact fun row rowIn => Or.inl rowIn

omit [DecidableEq Name] in
theorem start {syncLogs : Name → SyncLog Name}
    (named : ∀ device, (syncLogs device).localName = device) :
    Ancestral platform (Network.start syncLogs) := by
  constructor
  · exact named
  all_goals simp [Network.start, opened]

omit [DecidableEq Name] in
theorem parent_row (blobs : platform.ndn.DistinctBlobs)
    (ancestral : Ancestral platform network) {device : Name}
    {row parent : ActionRow} (rowIn : row ∈ (network.log device).actions)
    (parentRowIn : parent ∈ (network.log device).actions)
    (names : row.parent = some (parent.deviceName, parent.seqNo)) :
    parent.action = .update ∧ parent.filename = row.filename ∧
      row.version.toInt = parent.version.toInt + 1 := by
  obtain ⟨sent, sentIn, tells⟩ := ancestral.told device row rowIn
  obtain ⟨origin, originIn, originTells⟩ :=
    ancestral.told device parent parentRowIn
  rw [tells.parent] at names
  obtain ⟨earlier, earlierIn, kind, file, sameParent, version⟩ :=
    ancestral.parents sent sentIn _ names
  obtain ⟨sameName, sameNumber⟩ := Prod.mk.inj sameParent
  have sameAuthor : earlier.author = origin.author := by
    rcases originTells.deviceName with asValue | ⟨-, asWire⟩
    · exact blobs.valueInjective (sameName.trans asValue)
    · rw [asWire] at sameName
      exact absurd sameName.symm (blobs.wire_lt_value _ _).ne
  have same : earlier = origin :=
    ancestral.numbers earlier earlierIn origin originIn sameAuthor
      (sameNumber.trans originTells.seqNo)
  subst same
  refine ⟨?_, ?_, ?_⟩
  · rw [originTells.action, kind]
  · rw [originTells.filename, tells.filename, file]
  · rw [tells.version, originTells.version, version]

omit [DecidableEq Name] in
theorem follows_version (blobs : platform.ndn.DistinctBlobs)
    (ancestral : Ancestral platform network) {device : Name}
    {row last : ActionRow} {steps : Nat}
    (follows : Follows (network.log device).actions row steps last) :
    row.version.toInt = last.version.toInt + steps ∧
      0 ≤ last.version.toInt := by
  induction follows with
  | @stop row rowIn =>
      have nonneg := ancestral.row_version device row rowIn
      rw [Int64.le_iff_toInt_le] at nonneg
      exact ⟨by simp, nonneg⟩
  | @step row parent last steps rowIn parentIn names _ induction =>
      obtain ⟨-, -, version⟩ :=
        ancestral.parent_row blobs rowIn parentIn names
      obtain ⟨further, nonneg⟩ := induction
      refine ⟨?_, nonneg⟩
      rw [version, further]
      push_cast
      omega

end Ancestral

/-- In every log of any run, a parent that is there is an update on the same
file, one version below; following parents ends within as many steps as the
version says, and never returns. -/
theorem parents_one_version_back (blobs : platform.ndn.DistinctBlobs)
    {syncLogs : Name → SyncLog Name}
    (named : ∀ device, (syncLogs device).localName = device)
    {trace : List (Network Name × NetworkEvent Name)} {final : Network Name}
    (run : Network.Exchanges platform (Network.start syncLogs) trace final)
    (device : Name) :
    (∀ row ∈ (final.log device).actions,
      ∀ parent ∈ (final.log device).actions,
        row.parent = some (parent.deviceName, parent.seqNo) →
        parent.action = .update ∧ parent.filename = row.filename ∧
          row.version.toInt = parent.version.toInt + 1) ∧
    ∀ row last steps, Follows (final.log device).actions row steps last →
      steps ≤ row.version.toInt ∧ (0 < steps → last ≠ row) := by
  have ancestral : Ancestral platform final := by
    apply run.invariant (.start named)
    intro source label target taken before
    exact before.exchange taken
  constructor
  · intro row rowIn parent parentIn names
    exact ancestral.parent_row blobs rowIn parentIn names
  · intro row last steps follows
    obtain ⟨version, nonneg⟩ := ancestral.follows_version blobs follows
    refine ⟨by omega, ?_⟩
    rintro positive rfl
    omega

/-- After `removeAndChange` a row of each device names the first update, which
both have. -/
theorem parents_one_version_back_removed :
    DeviceName.ops.DistinctBlobs ∧
    (∀ device, (SyncLog.opened DeviceName.ops device).localName = device) ∧
    ∃ trace final, Network.Exchanges devicePlatform freshNetwork trace final ∧
      ∃ row ∈ (final.log DeviceName.alex).actions,
      ∃ parent ∈ (final.log DeviceName.alex).actions,
        row.parent = some (parent.deviceName, parent.seqNo) ∧
        parent.action = .update ∧ parent.filename = row.filename ∧
        row.version.toInt = parent.version.toInt + 1 := by
  have executed : (execute (Network.exchange devicePlatform) freshNetwork
      removeAndChange).any (fun result =>
        ∃ row ∈ (result.2.log DeviceName.alex).actions,
        ∃ parent ∈ (result.2.log DeviceName.alex).actions,
          row.parent = some (parent.deviceName, parent.seqNo)) = true := by
    decide +kernel
  obtain ⟨⟨trace, final⟩, ran, holds⟩ := (Option.any_eq_true _ _).mp executed
  obtain ⟨row, rowIn, parent, parentIn, names⟩ := of_decide_eq_true holds
  have run := execute_run ran
  obtain ⟨kind, file, version⟩ :=
    (@parents_one_version_back _ _ devicePlatform
      DeviceName.ops_distinctBlobs _ freshNetwork_names _ _ run
      DeviceName.alex).1 row rowIn parent parentIn names
  exact ⟨DeviceName.ops_distinctBlobs, freshNetwork_names, trace, final, run,
    row, rowIn, parent, parentIn, names, kind, file, version⟩

end ChronoShare
