import ChronoShare.ActionLog.Network
import ChronoShare.Support.Paired

/-!
# The logs of a network hold what the devices have received

The invariant relates the log of a device to the actions it has received, row
by row, and keeps the actions of one author apart.  Every event of the network
preserves it.
-/

namespace ChronoShare

/-- The items the calls of a device create. -/
structure PlainItem (item : ActionItem) : Prop where
  filename : 0 ∉ item.filename
  hash : item.action = .update → item.fileHash.getD [] ≠ []
  bare : item.action = .delete → item.fileHash = none

/-- No author uses a number twice, nor a version twice for one file. -/
structure Distinguished {Name : Type} (created : List (Created Name)) :
    Prop where
  numbers : ∀ left ∈ created, ∀ right ∈ created, left.author = right.author →
    left.seqNo = right.seqNo → left = right
  versions : ∀ left ∈ created, ∀ right ∈ created,
    left.author = right.author → left.item.filename = right.item.filename →
      left.item.version = right.item.version → left = right

theorem Distinguished.mono {Name : Type} {created others : List (Created Name)}
    (distinguished : Distinguished created)
    (included : ∀ sent ∈ others, sent ∈ created) : Distinguished others where
  numbers left leftIn right rightIn :=
    distinguished.numbers left (included left leftIn) right
      (included right rightIn)
  versions left leftIn right rightIn :=
    distinguished.versions left (included left leftIn) right
      (included right rightIn)

/-- The tables of a device hold what it has received. -/
structure Holds {Name : Type} [DecidableEq Name]
    (platform : ActionPlatform Name) (device : Name)
    (received : List (Created Name)) (log : ActionLog Name) : Prop where
  localName : log.syncLog.localName = device
  unique : received.Nodup
  stored : List.Forall₂ (Stored platform device) received log.actions
  current : Current log.actions log.fileState

structure Coherent {Name : Type} [DecidableEq Name]
    (platform : ActionPlatform Name) (network : Network Name) : Prop where
  distinguished : Distinguished network.created
  plain : ∀ sent ∈ network.created, PlainItem sent.item
  numbered : ∀ sent ∈ network.created,
    (sent.seqNo : WithBot Int64) ≤
      (network.log sent.author).syncLog.localNumber
  own : ∀ sent ∈ network.created, sent ∈ network.received sent.author
  known : ∀ device, ∀ sent ∈ network.received device, sent ∈ network.created
  holds : ∀ device,
    Holds platform device (network.received device) (network.log device)

section Holds

variable {Name : Type} [DecidableEq Name] {platform : ActionPlatform Name}
  {device : Name} {received : List (Created Name)} {log : ActionLog Name}

theorem ordinary_of_stored (blobs : platform.ndn.DistinctBlobs)
    {rows : List ActionRow}
    (stored : List.Forall₂ (Stored platform device) received rows)
    (unique : received.Nodup) (distinguished : Distinguished received)
    (plain : ∀ sent ∈ received, PlainItem sent.item) :
    OrdinaryActions rows where
  distinct := by
    apply pairwise_of_paired stored unique
    intro left leftIn right rightIn row other leftStored rightStored different
      same
    simp only [Prod.mk.injEq] at same
    obtain ⟨sameFile, sameVersion, sameName⟩ := same
    apply different
    apply distinguished.versions left leftIn right rightIn
    · rw [leftStored.deviceName, rightStored.deviceName] at sameName
      exact storedName_author blobs sameName
    · rw [← leftStored.filename, ← rightStored.filename, sameFile]
    · rw [leftStored.version, rightStored.version] at sameVersion
      simpa using congrArg Int64.toUInt64 sameVersion
  hashes := by
    intro row member isUpdate
    obtain ⟨sent, sentIn, rowStored⟩ := exists_of_mem_right stored member
    rw [rowStored.fileHash]
    rw [rowStored.action] at isUpdate
    exact (plain sent sentIn).hash isUpdate
  names := by
    intro row member
    obtain ⟨sent, sentIn, rowStored⟩ := exists_of_mem_right stored member
    rw [rowStored.filename]
    exact (plain sent sentIn).filename

theorem recorded_iff (blobs : platform.ndn.DistinctBlobs)
    (stored : List.Forall₂ (Stored platform device) received log.actions)
    {sent : Created Name} {row : ActionRow}
    (distinguished : ∀ earlier ∈ received, earlier.author = sent.author →
      earlier.seqNo = sent.seqNo → earlier = sent)
    (rowStored : Stored platform device sent row) :
    ActionLog.Recorded log.actions row ↔ sent ∈ received := by
  constructor
  · intro recorded
    obtain ⟨other, member, sameName, sameNumber⟩ := recorded
    obtain ⟨earlier, earlierIn, otherStored⟩ :=
      exists_of_mem_right stored member
    rw [otherStored.deviceName, rowStored.deviceName] at sameName
    rw [otherStored.seqNo, rowStored.seqNo] at sameNumber
    rw [← distinguished earlier earlierIn (storedName_author blobs sameName)
      sameNumber]
    exact earlierIn
  · intro member
    obtain ⟨other, otherIn, otherStored⟩ := exists_of_mem_left stored member
    exact ⟨other, otherIn, by rw [otherStored.deviceName, rowStored.deviceName],
      by rw [otherStored.seqNo, rowStored.seqNo]⟩

theorem Holds.insertAction (blobs : platform.ndn.DistinctBlobs)
    (holds : Holds platform device received log) {sent : Created Name}
    {row : ActionRow} (fresh : sent ∉ received)
    (distinguished : Distinguished (received ++ [sent]))
    (plain : ∀ other ∈ received ++ [sent], PlainItem other.item)
    (rowStored : Stored platform device sent row) :
    Holds platform device (received ++ [sent]) (log.insertAction row) := by
  have new : ¬ ActionLog.Recorded log.actions row := by
    rw [recorded_iff blobs holds.stored _ rowStored]
    · exact fresh
    · intro earlier member sameAuthor sameNumber
      exact distinguished.numbers earlier (List.mem_append_left _ member) sent
        (by simp) sameAuthor sameNumber
  have unique : (received ++ [sent]).Nodup := by
    rw [List.nodup_append]
    refine ⟨holds.unique, List.nodup_singleton _, ?_⟩
    intro earlier member other last
    rw [List.mem_singleton.mp last]
    exact fun same => fresh (same ▸ member)
  have actions : (log.insertAction row).actions = log.actions ++ [row] := by
    rw [ActionLog.insertAction_of_not_recorded new]
  have stored : List.Forall₂ (Stored platform device) (received ++ [sent])
      (log.insertAction row).actions := by
    rw [actions]
    exact paired_append holds.stored rowStored
  have ordinary : OrdinaryActions (log.insertAction row).actions :=
    ordinary_of_stored blobs stored unique distinguished plain
  refine ⟨?_, unique, stored, ActionLog.current_insertAction ordinary
    holds.current⟩
  rw [ActionLog.insertAction_of_not_recorded new]
  exact holds.localName

theorem Holds.changeSyncLog (holds : Holds platform device received log)
    {next : SyncLog Name} (sameName : next.localName = log.syncLog.localName) :
    Holds platform device received { log with syncLog := next } :=
  ⟨sameName.trans holds.localName, holds.unique, holds.stored, holds.current⟩

theorem Holds.setFileComplete (holds : Holds platform device received log)
    (filename : Bytes) :
    Holds platform device received
      { log with
        fileState := FileState.setFileComplete log.fileState filename } :=
  ⟨holds.localName, holds.unique, holds.stored,
    holds.current.setFileComplete filename⟩

end Holds

/-- No action on the file has a version above the one a new action builds
on. -/
theorem version_le_latest {actions : List ActionRow} {row : ActionRow}
    (member : row ∈ actions) (choice : Nat) :
    row.version ≤
      (ActionLog.getLatestActionForFile actions row.filename choice).1 := by
  let rows := actions.filter fun other => other.filename = row.filename
  let latest := rows.filter fun other =>
    rows.all fun another => another.version ≤ other.version
  have rowIn : row ∈ rows := by simpa [rows] using member
  obtain ⟨top, topIn, topGreatest⟩ : ∃ top, Latest ActionRow.version rows top :=
    exists_latest (List.ne_nil_of_mem rowIn)
  have topLatest : top ∈ latest := by
    simpa [latest] using ⟨topIn, topGreatest⟩
  have bounded : choice % latest.length < latest.length :=
    Nat.mod_lt _ (List.length_pos_of_mem topLatest)
  have chosen : ActionLog.latestRow actions row.filename choice =
      some latest[choice % latest.length] :=
    List.getElem?_eq_getElem bounded
  have greatest : row.version ≤ latest[choice % latest.length].version := by
    have inLatest : latest[choice % latest.length] ∈ latest :=
      List.getElem_mem bounded
    have all := (List.mem_filter.mp inLatest).2
    simpa using List.all_eq_true.mp all row rowIn
  rw [ActionLog.getLatestActionForFile, chosen]
  simp only
  split <;> exact greatest

theorem version_lt_next {actions : List ActionRow} {row : ActionRow}
    {filename : Bytes} {choice : Nat} (member : row ∈ actions)
    (sameFile : row.filename = filename)
    (increment : (ActionLog.getLatestActionForFile actions filename choice).1 +
      1 ≠ Int64.minValue) :
    row.version <
      (ActionLog.getLatestActionForFile actions filename choice).1 + 1 := by
  subst sameFile
  exact (version_le_latest member choice).trans_lt (int64_lt_succ increment)

namespace Network

variable {Name : Type} [DecidableEq Name]

@[simp] theorem receive_log (network : Network Name) (device : Name)
    (sent : Created Name) :
    (network.receive device sent).log = network.log := by
  unfold receive
  split_ifs <;> rfl

@[simp] theorem receive_created (network : Network Name) (device : Name)
    (sent : Created Name) :
    (network.receive device sent).created = network.created := by
  unfold receive
  split_ifs <;> rfl

@[simp] theorem setLog_log (network : Network Name) (device : Name)
    (log : ActionLog Name) :
    (network.setLog device log).log =
      Function.update network.log device log :=
  rfl

@[simp] theorem setLog_created (network : Network Name) (device : Name)
    (log : ActionLog Name) :
    (network.setLog device log).created = network.created :=
  rfl

@[simp] theorem setLog_received (network : Network Name) (device : Name)
    (log : ActionLog Name) :
    (network.setLog device log).received = network.received :=
  rfl

theorem receive_received_of_fresh {network : Network Name} {device : Name}
    {sent : Created Name} (fresh : sent ∉ network.received device) :
    (network.receive device sent).received =
      Function.update network.received device
        (network.received device ++ [sent]) := by
  rw [receive, if_neg fresh]

theorem mem_received_update {received : Name → List (Created Name)}
    {device other : Name} {sent entry : Created Name} :
    entry ∈ Function.update received device (received device ++ [sent]) other ↔
      entry ∈ received other ∨ other = device ∧ entry = sent := by
  by_cases here : other = device
  · rw [here, Function.update_self, List.mem_append, List.mem_singleton]
    simp
  · rw [Function.update_of_ne here]
    simp [here]

end Network

section Steps

open ActionLog

variable {Name : Type} [DecidableEq Name] {platform : ActionPlatform Name}
  {network : Network Name}

private theorem eq_of_related_append {α : Type} (related : α → α → Prop)
    {entries : List α} {new : α}
    (symmetric : ∀ left right, related left right → related right left)
    (old : ∀ left ∈ entries, ∀ right ∈ entries, related left right →
      left = right)
    (apart : ∀ left ∈ entries, ¬ related left new) {left right : α}
    (leftIn : left ∈ entries ++ [new]) (rightIn : right ∈ entries ++ [new])
    (same : related left right) : left = right := by
  rcases List.mem_append.mp leftIn with leftOld | leftNew
  · rcases List.mem_append.mp rightIn with rightOld | rightNew
    · exact old left leftOld right rightOld same
    · rw [List.mem_singleton.mp rightNew] at same
      exact absurd same (apart left leftOld)
  · rw [List.mem_singleton.mp leftNew] at same ⊢
    rcases List.mem_append.mp rightIn with rightOld | rightNew
    · exact absurd (symmetric _ _ same) (apart right rightOld)
    · exact (List.mem_singleton.mp rightNew).symm

omit [DecidableEq Name] in
theorem number_fresh
    (numbered : ∀ sent ∈ network.created, (sent.seqNo : WithBot Int64) ≤
      (network.log sent.author).syncLog.localNumber) {sent : Created Name}
    (above : (network.log sent.author).syncLog.localNumber < sent.seqNo) :
    ∀ earlier ∈ network.created, earlier.author = sent.author →
      earlier.seqNo ≠ sent.seqNo := by
  intro earlier member sameAuthor sameNumber
  have bounded := numbered earlier member
  rw [sameAuthor, sameNumber] at bounded
  exact absurd above (not_lt.mpr bounded)

omit [DecidableEq Name] in
theorem numbers_append {created : List (Created Name)} {sent : Created Name}
    (numbers : ∀ left ∈ created, ∀ right ∈ created,
      left.author = right.author → left.seqNo = right.seqNo → left = right)
    (fresh : ∀ earlier ∈ created, earlier.author = sent.author →
      earlier.seqNo ≠ sent.seqNo) :
    ∀ left ∈ created ++ [sent], ∀ right ∈ created ++ [sent],
      left.author = right.author → left.seqNo = right.seqNo →
        left = right := by
  intro left leftIn right rightIn sameAuthor sameNumber
  refine eq_of_related_append (fun left right : Created Name =>
    left.author = right.author ∧ left.seqNo = right.seqNo) ?_ ?_ ?_
    leftIn rightIn ⟨sameAuthor, sameNumber⟩
  · exact fun _ _ same => ⟨same.1.symm, same.2.symm⟩
  · exact fun left leftOld right rightOld same =>
      numbers left leftOld right rightOld same.1 same.2
  · exact fun left leftOld same => fresh left leftOld same.1 same.2

theorem numbered_update
    (numbered : ∀ sent ∈ network.created, (sent.seqNo : WithBot Int64) ≤
      (network.log sent.author).syncLog.localNumber) {device : Name}
    {after : ActionLog Name}
    (advances : (network.log device).syncLog.Advances after.syncLog) :
    ∀ sent ∈ network.created, (sent.seqNo : WithBot Int64) ≤
      (Function.update network.log device after
        sent.author).syncLog.localNumber := by
  intro sent member
  have bounded := numbered sent member
  by_cases here : sent.author = device
  · rw [here] at bounded ⊢
    rw [Function.update_self]
    exact bounded.trans advances.localNumber
  · rw [Function.update_of_ne here]
    exact bounded

theorem numbered_create
    (numbered : ∀ sent ∈ network.created, (sent.seqNo : WithBot Int64) ≤
      (network.log sent.author).syncLog.localNumber) {sent : Created Name}
    {after : ActionLog Name}
    (advances : (network.log sent.author).syncLog.Advances after.syncLog)
    (reached : sent.seqNo ≤ after.syncLog.localNumber) :
    ∀ other ∈ network.created ++ [sent], (other.seqNo : WithBot Int64) ≤
      (Function.update network.log sent.author after
        other.author).syncLog.localNumber := by
  rw [List.forall_mem_append, List.forall_mem_singleton, Function.update_self]
  exact ⟨numbered_update numbered advances, reached⟩

theorem Coherent.distinguished_append (coherent : Coherent platform network)
    {sent : Created Name}
    (above : (network.log sent.author).syncLog.localNumber < sent.seqNo)
    (newest : ∀ row ∈ (network.log sent.author).actions,
      row.filename = sent.item.filename →
        row.version < sent.item.version.toInt64) :
    Distinguished (network.created ++ [sent]) := by
  have otherVersion : ∀ earlier ∈ network.created,
      earlier.author = sent.author →
        earlier.item.filename = sent.item.filename →
          earlier.item.version ≠ sent.item.version := by
    intro earlier member sameAuthor sameFile sameVersion
    have received := coherent.own earlier member
    rw [sameAuthor] at received
    obtain ⟨row, rowIn, stored⟩ :=
      exists_of_mem_left (coherent.holds sent.author).stored received
    have below := newest row rowIn (stored.filename.trans sameFile)
    rw [stored.version, sameVersion] at below
    exact absurd below (lt_irrefl _)
  constructor
  · exact numbers_append coherent.distinguished.numbers
      (number_fresh coherent.numbered above)
  · intro left leftIn right rightIn sameAuthor sameFile sameVersion
    refine eq_of_related_append (fun left right : Created Name =>
      left.author = right.author ∧
        left.item.filename = right.item.filename ∧
          left.item.version = right.item.version) ?_ ?_ ?_
      leftIn rightIn ⟨sameAuthor, sameFile, sameVersion⟩
    · exact fun _ _ same => ⟨same.1.symm, same.2.1.symm, same.2.2.symm⟩
    · exact fun left leftOld right rightOld same =>
        coherent.distinguished.versions left leftOld right rightOld same.1
          same.2.1 same.2.2
    · exact fun left leftOld same =>
        otherVersion left leftOld same.1 same.2.1 same.2.2

theorem Coherent.create (blobs : platform.ndn.DistinctBlobs)
    (coherent : Coherent platform network) {sent : Created Name}
    {row : ActionRow} {next : SyncLog Name} {after : ActionLog Name}
    (advances : (network.log sent.author).syncLog.Advances next)
    (above : (network.log sent.author).syncLog.localNumber < sent.seqNo)
    (reached : sent.seqNo ≤ next.localNumber)
    (newest : ∀ row ∈ (network.log sent.author).actions,
      row.filename = sent.item.filename →
        row.version < sent.item.version.toInt64)
    (plain : PlainItem sent.item)
    (stored : Stored platform sent.author sent row)
    (sameSyncLog : after.syncLog = next)
    (inserted : ∀ received, Holds platform sent.author received
      (({ network.log sent.author with syncLog := next } :
        ActionLog Name).insertAction row) →
      Holds platform sent.author received after) :
    Coherent platform (network.create after sent) := by
  subst sameSyncLog
  have distinguished := coherent.distinguished_append above newest
  have fresh : sent ∉ network.received sent.author := by
    intro member
    have bounded := coherent.numbered sent
      (coherent.known sent.author sent member)
    exact absurd above (not_lt.mpr bounded)
  have created : (network.create after sent).created =
      network.created ++ [sent] := by
    simp [Network.create, Network.setLog]
  have logs : (network.create after sent).log =
      Function.update network.log sent.author after := by
    simp [Network.create, Network.setLog]
  have received : (network.create after sent).received =
      Function.update network.received sent.author
        (network.received sent.author ++ [sent]) :=
    Network.receive_received_of_fresh fresh
  have allPlain : ∀ other ∈ network.created ++ [sent],
      PlainItem other.item := by
    intro other member
    rcases List.mem_append.mp member with old | new
    · exact coherent.plain other old
    · rw [List.mem_singleton.mp new]
      exact plain
  have receivedCreated : ∀ other ∈ network.received sent.author ++ [sent],
      other ∈ network.created ++ [sent] := by
    intro other member
    rcases List.mem_append.mp member with old | new
    · exact List.mem_append_left _ (coherent.known sent.author other old)
    · exact List.mem_append_right _ new
  refine ⟨?_, ?_, ?_, ?_, ?_, ?_⟩
  · rwa [created]
  · rwa [created]
  · rw [created, logs]
    exact numbered_create coherent.numbered advances reached
  · rw [created, received]
    intro other member
    apply Network.mem_received_update.mpr
    rcases List.mem_append.mp member with old | new
    · exact .inl (coherent.own other old)
    · have same := List.mem_singleton.mp new
      exact .inr ⟨congrArg Created.author same, same⟩
  · rw [created, received]
    intro device other member
    rcases Network.mem_received_update.mp member with old | ⟨_, rfl⟩
    · exact List.mem_append_left _ (coherent.known device other old)
    · exact List.mem_append_right _ (List.mem_singleton.mpr rfl)
  · rw [received, logs]
    intro device
    by_cases here : device = sent.author
    · rw [here, Function.update_self, Function.update_self]
      apply inserted
      have before := (coherent.holds sent.author).changeSyncLog
        advances.localName
      apply before.insertAction blobs fresh _ _ stored
      · exact distinguished.mono receivedCreated
      · exact fun other member => allPlain other (receivedCreated other member)
    · rw [Function.update_of_ne here, Function.update_of_ne here]
      exact coherent.holds device

theorem Coherent.setLog (coherent : Coherent platform network) {device : Name}
    {after : ActionLog Name}
    (advances : (network.log device).syncLog.Advances after.syncLog)
    (kept : Holds platform device (network.received device) after) :
    Coherent platform (network.setLog device after) := by
  refine ⟨coherent.distinguished, coherent.plain,
    numbered_update coherent.numbered advances, coherent.own, coherent.known,
    ?_⟩
  intro other
  by_cases here : other = device
  · rw [here]
    simpa using kept
  · simpa [here] using coherent.holds other

section Deliver

variable {device : Name} {sent : Created Name}
  (blobs : platform.ndn.DistinctBlobs) (coherent : Coherent platform network)
  (member : sent ∈ network.created) (foreign : sent.author ≠ device)
  (content : Bytes)

include blobs coherent member foreign

theorem Coherent.deliver_again (before : sent ∈ network.received device) :
    (network.setLog device ((network.log device).insertAction
      (remoteRow platform sent.author sent.seqNo sent.item content))).receive
        device sent = network := by
  have rowStored : Stored platform device sent
      (remoteRow platform sent.author sent.seqNo sent.item content) :=
    stored_remoteRow foreign (coherent.plain sent member).bare content
  have recorded : ActionLog.Recorded (network.log device).actions
      (remoteRow platform sent.author sent.seqNo sent.item content) := by
    rw [recorded_iff blobs (coherent.holds device).stored _ rowStored]
    · exact before
    · intro earlier received sameAuthor sameNumber
      exact coherent.distinguished.numbers earlier
        (coherent.known device earlier received) sent member sameAuthor
        sameNumber
  have unchanged : network.setLog device (network.log device) = network := by
    simp [Network.setLog]
  rw [ActionLog.insertAction_of_recorded recorded, unchanged,
    Network.receive, if_pos before]

theorem Coherent.holds_deliver (before : sent ∉ network.received device) :
    Holds platform device (network.received device ++ [sent])
      ((network.log device).insertAction
        (remoteRow platform sent.author sent.seqNo sent.item content)) := by
  have known : ∀ other ∈ network.received device ++ [sent],
      other ∈ network.created := by
    intro other received
    rcases List.mem_append.mp received with old | new
    · exact coherent.known device other old
    · rw [List.mem_singleton.mp new]
      exact member
  have rowStored : Stored platform device sent
      (remoteRow platform sent.author sent.seqNo sent.item content) :=
    stored_remoteRow foreign (coherent.plain sent member).bare content
  apply (coherent.holds device).insertAction blobs before _ _ rowStored
  · exact coherent.distinguished.mono known
  · exact fun other received => coherent.plain other (known other received)

theorem Coherent.deliver :
    Coherent platform
      ((network.setLog device ((network.log device).insertAction
        (remoteRow platform sent.author sent.seqNo sent.item content))).receive
          device sent) := by
  by_cases before : sent ∈ network.received device
  · rw [coherent.deliver_again blobs member foreign content before]
    exact coherent
  · let row := remoteRow platform sent.author sent.seqNo sent.item content
    have syncLog : ((network.log device).insertAction row).syncLog =
        (network.log device).syncLog := by
      rw [ActionLog.insertAction_syncLog]
    have received : ((network.setLog device
        ((network.log device).insertAction row)).receive device sent).received =
        Function.update network.received device
          (network.received device ++ [sent]) :=
      Network.receive_received_of_fresh before
    refine ⟨?_, ?_, ?_, ?_, ?_, ?_⟩
    · simpa using coherent.distinguished
    · simpa using coherent.plain
    · have advances : (network.log device).syncLog.Advances
          ((network.log device).insertAction row).syncLog := by
        rw [syncLog]
        exact ⟨rfl, le_rfl⟩
      simpa using numbered_update coherent.numbered advances
    · intro other created
      have own := coherent.own other (by simpa using created)
      rw [received]
      exact Network.mem_received_update.mpr (.inl own)
    · intro other entry delivered
      rw [received] at delivered
      rcases Network.mem_received_update.mp delivered with old | ⟨_, rfl⟩
      · simpa using coherent.known other entry old
      · simpa using member
    · intro other
      rw [received]
      by_cases here : other = device
      · rw [here, Function.update_self]
        simpa using
          coherent.holds_deliver blobs member foreign content before
      · rw [Function.update_of_ne here]
        simpa [here] using coherent.holds other

end Deliver

theorem Coherent.addLocalActionUpdate (blobs : platform.ndn.DistinctBlobs)
    (coherent : Coherent platform network) {device : Name} {choice : Nat}
    {actionTime wtime seqNo : Int64} {filename hash : Bytes}
    {mode segNum : Int32} {item : ActionItem} {after : ActionLog Name}
    {next : SyncLog Name}
    (numbered : (network.log device).syncLog.getNextLocalSeqNo =
      some (seqNo, next))
    (added : (network.log device).addLocalActionUpdate platform choice
      actionTime filename hash wtime mode segNum = some (item, after))
    (nonempty : hash ≠ []) (plain : 0 ∉ filename)
    (defined : seqNo ≠ Int64.minValue)
    (definedVersion : item.version.toInt64 ≠ Int64.minValue) :
    Coherent platform (network.create after ⟨device, seqNo, item, wtime⟩) := by
  obtain ⟨parent, rfl, rfl⟩ := addLocalActionUpdate_numbered numbered added
  have named : (network.log device).syncLog.localName = device :=
    (coherent.holds device).localName
  obtain ⟨advances, above, reached⟩ :=
    SyncLog.getNextLocalSeqNo_advances numbered defined
  apply coherent.create blobs advances above reached
  · intro row member sameFile
    have increment : (getLatestActionForFile (network.log device).actions
        filename choice).1 + 1 ≠ Int64.minValue := by
      simpa [updateItem] using definedVersion
    simpa [updateItem] using version_lt_next member sameFile increment
  · exact ⟨plain, fun _ => nonempty, fun isDelete => by
      simp [updateItem] at isDelete⟩
  · exact stored_updateRow device seqNo filename nonempty _ actionTime wtime
      mode segNum parent
  · simp
  · intro received holds
    rw [named]
    exact holds.setFileComplete filename

theorem Coherent.addLocalActionDelete (blobs : platform.ndn.DistinctBlobs)
    (coherent : Coherent platform network) {device : Name} {choice : Nat}
    {actionTime seqNo : Int64} {memory : Nat → UInt8} {filename : Bytes}
    {item : ActionItem} {after : ActionLog Name} {next : SyncLog Name}
    (numbered : (network.log device).syncLog.getNextLocalSeqNo =
      some (seqNo, next))
    (added : (network.log device).addLocalActionDelete platform choice
      actionTime memory filename = some (some item, after))
    (plain : 0 ∉ filename) (defined : seqNo ≠ Int64.minValue)
    (definedVersion : item.version.toInt64 ≠ Int64.minValue) :
    Coherent platform (network.create after ⟨device, seqNo, item, 0⟩) := by
  obtain ⟨parentDeviceName, parentSeqNo, rfl, rfl⟩ :=
    addLocalActionDelete_numbered numbered added
  have named : (network.log device).syncLog.localName = device :=
    (coherent.holds device).localName
  obtain ⟨advances, above, reached⟩ :=
    SyncLog.getNextLocalSeqNo_advances numbered defined
  apply coherent.create blobs advances above reached
  · intro row member sameFile
    have increment : (getLatestActionForFile (network.log device).actions
        filename choice).1 + 1 ≠ Int64.minValue := by
      simpa [deleteItem] using definedVersion
    simpa [deleteItem] using version_lt_next member sameFile increment
  · exact ⟨plain, fun isUpdate => by simp [deleteItem] at isUpdate,
      fun _ => rfl⟩
  · exact stored_deleteRow device seqNo memory filename _ actionTime
      parentDeviceName parentSeqNo
  · simp
  · intro received holds
    rw [named]
    exact holds

theorem step_coherent (blobs : platform.ndn.DistinctBlobs)
    {target : Network Name} {event : NetworkEvent Name}
    (taken : network.step platform event = some target)
    (coherent : Coherent platform network) : Coherent platform target := by
  cases event with
  | addLocalActionUpdate device choice actionTime filename hash wtime mode
      segNum =>
      simp only [Network.step] at taken
      split at taken
      · rename_i seqNo next item after numbered added
        split_ifs at taken with conditions
        obtain ⟨nonempty, plain, defined, definedVersion⟩ := conditions
        rw [← Option.some.inj taken]
        exact coherent.addLocalActionUpdate blobs numbered added nonempty
          plain defined definedVersion
      · simp at taken
  | addLocalActionDelete device choice actionTime memory filename =>
      simp only [Network.step] at taken
      split at taken
      · rename_i seqNo next item after numbered added
        split_ifs at taken with conditions
        obtain ⟨plain, defined, definedVersion⟩ := conditions
        rw [← Option.some.inj taken]
        exact coherent.addLocalActionDelete blobs numbered added plain defined
          definedVersion
      · rename_i after added
        rcases addLocalActionDelete_cases added with
          ⟨_, rfl⟩ | ⟨_, _, _, _, _, returned, _⟩
        · rw [← Option.some.inj taken]
          exact coherent.setLog ⟨rfl, le_rfl⟩ (coherent.holds device)
        · simp at returned
      · simp at taken
  | deliver device sent actionPco =>
      simp only [Network.step] at taken
      split_ifs at taken with conditions
      obtain ⟨member, foreign, parsed⟩ := conditions
      rw [← Option.some.inj taken]
      simpa [addRemoteAction, parsed] using
        coherent.deliver blobs member foreign actionPco.content
  | syncLogChanged device syncLog =>
      simp only [Network.step] at taken
      split_ifs at taken with advances
      rw [← Option.some.inj taken]
      exact coherent.setLog advances
        ((coherent.holds device).changeSyncLog advances.localName)

theorem start_coherent {syncLogs : Name → SyncLog Name}
    (names : ∀ device, (syncLogs device).localName = device) :
    Coherent platform (Network.start syncLogs) where
  distinguished := ⟨by simp [Network.start], by simp [Network.start]⟩
  plain := by simp [Network.start]
  numbered := by simp [Network.start]
  own := by simp [Network.start]
  known := by simp [Network.start]
  holds device := ⟨names device, List.nodup_nil, .nil,
    ⟨List.nodup_nil, fun _ => settled_nil⟩⟩

theorem steps_coherent (blobs : platform.ndn.DistinctBlobs)
    {syncLogs : Name → SyncLog Name}
    (names : ∀ device, (syncLogs device).localName = device)
    {trace : List (Network Name × NetworkEvent Name)} {final : Network Name}
    (steps : Network.Steps platform (Network.start syncLogs) trace final) :
    Coherent platform final := by
  apply steps.invariant (start_coherent names)
  intro source event target taken coherent
  exact step_coherent blobs taken coherent

end Steps

end ChronoShare
