import ChronoShare.SyncLog.Operations

/-!
# What the difference query returns

The query joins the rows of two remembered states in both directions.  On a
well-formed database it has an entry for exactly the devices at which the two
snapshots differ.
-/

namespace ChronoShare

/-- What a receiver records from a message: names and numbers of the updates,
with an absent number read as zero. -/
def updatesOf (msg : SyncStateMsg) : List (Bytes × Int64) :=
  msg.filterMap fun state =>
    match state.type with
    | .update => some (state.name, (state.seq.getD 0).toInt64)
    | .delete => none

namespace SyncDb

variable {Name : Type} {ndn : NameOps Name} {sha256 : Bytes → Bytes}
  {db : SyncDb}

/-- A known number as a column value, with `NULL` for an unknown one. -/
def columnOf : WithBot Int64 → Option Int64 :=
  WithBot.recBotCoe none some

@[simp] theorem columnOf_bot : columnOf ⊥ = none :=
  rfl

@[simp] theorem columnOf_coe (seqNo : Int64) : columnOf seqNo = some seqNo :=
  rfl

theorem eq_coe_of_columnOf {known : WithBot Int64} {seqNo : Int64}
    (column : columnOf known = some seqNo) : known = seqNo := by
  cases known with
  | bot => simp at column
  | coe value => simpa using column

theorem snapshot_of_node (unique : (db.syncNodes.map (·.deviceName)).Nodup)
    {node : SyncNode} (member : node ∈ db.syncNodes) (stateHash : Hash) :
    db.snapshot stateHash node.deviceName =
      Table.column (·.deviceId) (·.seqNo) (db.stateRows stateHash)
        node.deviceId := by
  have found : db.syncNodes.find?
      (fun other => other.deviceName = node.deviceName) = some node :=
    (Table.find?_eq_some_iff SyncNode.deviceName unique).mpr
      ⟨member, rfl⟩
  simp only [snapshot, found]

theorem exists_stateRow (unique : (db.syncNodes.map (·.deviceName)).Nodup)
    {node : SyncNode} (member : node ∈ db.syncNodes) {stateHash : Hash}
    {seqNo : Int64} (known : db.snapshot stateHash node.deviceName = seqNo) :
    ∃ row ∈ db.stateRows stateHash,
      row.deviceId = node.deviceId ∧ row.seqNo = seqNo := by
  rw [snapshot_of_node unique member] at known
  exact Table.mem_of_column_eq known

theorem logged_of_stateRow (wellFormed : WellFormed ndn sha256 db)
    {stateHash : Hash} {row : SyncStateNode}
    (member : row ∈ db.stateRows stateHash) :
    ∃ entry ∈ db.syncLog, entry.stateHash = stateHash ∧
      ∃ rows, Snapshot ndn sha256 db entry rows := by
  by_cases logged : db.Logged stateHash
  · obtain ⟨entry, entryIn, sameHash⟩ := logged
    exact ⟨entry, entryIn, sameHash, wellFormed.snapshots entry entryIn⟩
  · simp [stateRows, stateIdOf_eq_none logged] at member

/-- Every row of a state belongs to a known device and carries the number the
snapshot has for it. -/
theorem snapshot_of_stateRow (wellFormed : WellFormed ndn sha256 db)
    {stateHash : Hash} {row : SyncStateNode}
    (member : row ∈ db.stateRows stateHash) :
    ∃ node ∈ db.syncNodes, node.deviceId = row.deviceId ∧
      db.snapshot stateHash node.deviceName = row.seqNo := by
  obtain ⟨entry, entryIn, rfl, rows, snapshot⟩ :=
    logged_of_stateRow wellFormed member
  obtain ⟨-, source, sourceIn, sourceId, sourceSeq⟩ :=
    (snapshot.mem_stateRows wellFormed.hashesUnique entryIn).mp member
  obtain ⟨node, nodeIn, nodeId, -, -⟩ := snapshot.known source sourceIn
  refine ⟨node, nodeIn, nodeId.trans sourceId, ?_⟩
  rw [snapshot_of_node wellFormed.named.unique nodeIn]
  apply (snapshot.column_eq_coe_iff wellFormed entryIn).mpr
  exact ⟨source, sourceIn, nodeId.symm, sourceSeq⟩

theorem snapshot_of_stateRow_node (wellFormed : WellFormed ndn sha256 db)
    {stateHash : Hash} {row : SyncStateNode}
    (member : row ∈ db.stateRows stateHash) {node : SyncNode}
    (nodeIn : node ∈ db.syncNodes) (sameId : row.deviceId = node.deviceId) :
    db.snapshot stateHash node.deviceName = row.seqNo := by
  obtain ⟨other, otherIn, otherId, known⟩ :=
    snapshot_of_stateRow wellFormed member
  have same : other = node :=
    Table.row_unique SyncNode.deviceId wellFormed.idsUnique otherIn
      nodeIn (otherId.trans sameId)
  rw [← same, known]

theorem snapshot_eq_bot (unique : (db.syncNodes.map (·.deviceName)).Nodup)
    {node : SyncNode} (member : node ∈ db.syncNodes) {stateHash : Hash}
    (unmatched : ∀ row ∈ db.stateRows stateHash,
      row.deviceId ≠ node.deviceId) :
    db.snapshot stateHash node.deviceName = ⊥ := by
  rw [snapshot_of_node unique member]
  exact Table.column_eq_bot_iff.mpr unmatched

theorem no_stateRow (wellFormed : WellFormed ndn sha256 db)
    {node : SyncNode} (member : node ∈ db.syncNodes) {stateHash : Hash}
    (unknown : db.snapshot stateHash node.deviceName = ⊥) :
    ∀ row ∈ db.stateRows stateHash, row.deviceId ≠ node.deviceId := by
  rw [snapshot_of_node wellFormed.named.unique member] at unknown
  exact Table.column_eq_bot_iff.mp unknown

/-- The entry reported for a device whose numbers in the two states differ. -/
def DiffersAt (db : SyncDb) (oldHash newHash : Hash) (includeOldSeq : Bool)
    (node : SyncNode) (state : SyncState) : Prop :=
  db.snapshot oldHash node.deviceName ≠ db.snapshot newHash node.deviceName ∧
    state = differenceEntry includeOldSeq node
      (columnOf (db.snapshot oldHash node.deviceName))
      (columnOf (db.snapshot newHash node.deviceName))

private theorem leaving_sound (wellFormed : WellFormed ndn sha256 db)
    {oldHash newHash : Hash} {includeOldSeq : Bool} {old : SyncStateNode}
    {new : Option SyncStateNode} {node : SyncNode}
    (oldIn : old ∈ db.stateRows oldHash)
    (joined : (old, new) ∈ Table.leftJoin
      (fun old new : SyncStateNode => old.deviceId = new.deviceId)
      (db.stateRows oldHash) (db.stateRows newHash))
    (nodeIn : node ∈ db.syncNodes) (sameId : old.deviceId = node.deviceId)
    (changed : ∀ row, new = some row → old.seqNo ≠ row.seqNo) :
    DiffersAt db oldHash newHash includeOldSeq node
      (differenceEntry includeOldSeq node (some old.seqNo)
        (new.map (·.seqNo))) := by
  have oldKnown := snapshot_of_stateRow_node wellFormed oldIn nodeIn sameId
  cases new with
  | none =>
      have unmatched := (Table.mem_leftJoin_none.mp joined).2
      have newUnknown : db.snapshot newHash node.deviceName = ⊥ := by
        apply snapshot_eq_bot wellFormed.named.unique nodeIn
        intro row rowIn rowId
        have different := unmatched row rowIn
        simp [sameId, rowId] at different
      unfold DiffersAt
      rw [oldKnown, newUnknown]
      exact ⟨WithBot.coe_ne_bot, rfl⟩
  | some new =>
      obtain ⟨-, newIn, newId⟩ := Table.mem_leftJoin_some.mp joined
      have newKnown := snapshot_of_stateRow_node wellFormed newIn nodeIn
        ((of_decide_eq_true newId).symm.trans sameId)
      unfold DiffersAt
      rw [oldKnown, newKnown]
      exact ⟨fun same => changed new rfl (WithBot.coe_inj.mp same), rfl⟩

private theorem entering_sound (wellFormed : WellFormed ndn sha256 db)
    {oldHash newHash : Hash} {includeOldSeq : Bool} {new : SyncStateNode}
    {node : SyncNode} (newIn : new ∈ db.stateRows newHash)
    (unmatched : ∀ old ∈ db.stateRows oldHash,
      old.deviceId ≠ new.deviceId)
    (nodeIn : node ∈ db.syncNodes) (sameId : new.deviceId = node.deviceId) :
    DiffersAt db oldHash newHash includeOldSeq node
      (differenceEntry includeOldSeq node none (some new.seqNo)) := by
  have newKnown := snapshot_of_stateRow_node wellFormed newIn nodeIn sameId
  have oldUnknown : db.snapshot oldHash node.deviceName = ⊥ := by
    apply snapshot_eq_bot wellFormed.named.unique nodeIn
    intro row rowIn rowId
    exact unmatched row rowIn (rowId.trans sameId.symm)
  unfold DiffersAt
  rw [newKnown, oldUnknown]
  exact ⟨WithBot.bot_ne_coe, rfl⟩

private theorem mem_query_iff {oldHash newHash : Hash}
    {includeOldSeq : Bool} {state : SyncState} :
    state ∈ db.findStateDifferences oldHash newHash includeOldSeq ↔
      (∃ old new node, (old, new) ∈ Table.leftJoin
          (fun old new : SyncStateNode => old.deviceId = new.deviceId)
          (db.stateRows oldHash) (db.stateRows newHash) ∧
        node ∈ db.syncNodes ∧ old.deviceId = node.deviceId ∧
        (∀ row, new = some row → old.seqNo ≠ row.seqNo) ∧
        differenceEntry includeOldSeq node (some old.seqNo)
          (new.map (·.seqNo)) = state) ∨
      (∃ new node, (new, none) ∈ Table.leftJoin
          (fun new old : SyncStateNode => old.deviceId = new.deviceId)
          (db.stateRows newHash) (db.stateRows oldHash) ∧
        node ∈ db.syncNodes ∧ new.deviceId = node.deviceId ∧
        differenceEntry includeOldSeq node none (some new.seqNo) = state) := by
  simp only [findStateDifferences, List.mem_append, List.mem_map,
    List.mem_filter, Prod.exists, Table.mem_innerJoin, decide_eq_true_eq]
  apply or_congr
  · constructor
    · rintro ⟨old, new, node, ⟨⟨joined, nodeIn, sameId⟩, changed⟩, rfl⟩
      refine ⟨old, new, node, joined, nodeIn, sameId, ?_, rfl⟩
      intro row isNew
      subst isNew
      simpa using changed
    · rintro ⟨old, new, node, joined, nodeIn, sameId, changed, rfl⟩
      refine ⟨old, new, node, ⟨⟨joined, nodeIn, sameId⟩, ?_⟩, rfl⟩
      cases new with
      | none => rfl
      | some new => simpa using changed new rfl
  · constructor
    · rintro ⟨new, old, node, ⟨⟨joined, nodeIn, sameId⟩, missing⟩, rfl⟩
      obtain rfl : old = none := by simpa using missing
      exact ⟨new, node, joined, nodeIn, sameId, rfl⟩
    · rintro ⟨new, node, joined, nodeIn, sameId, rfl⟩
      exact ⟨new, none, node, ⟨⟨joined, nodeIn, sameId⟩, rfl⟩, rfl⟩

theorem mem_findStateDifferences (wellFormed : WellFormed ndn sha256 db)
    {oldHash newHash : Hash} {includeOldSeq : Bool} {state : SyncState} :
    state ∈ db.findStateDifferences oldHash newHash includeOldSeq ↔
      ∃ node ∈ db.syncNodes,
        DiffersAt db oldHash newHash includeOldSeq node state := by
  rw [mem_query_iff]
  constructor
  · rintro (⟨old, new, node, joined, nodeIn, sameId, changed, rfl⟩ |
      ⟨new, node, joined, nodeIn, sameId, rfl⟩)
    · have oldIn : old ∈ db.stateRows oldHash := by
        cases new with
        | none => exact (Table.mem_leftJoin_none.mp joined).1
        | some new => exact (Table.mem_leftJoin_some.mp joined).1
      exact ⟨node, nodeIn,
        leaving_sound wellFormed oldIn joined nodeIn sameId changed⟩
    · obtain ⟨newIn, unmatched⟩ := Table.mem_leftJoin_none.mp joined
      refine ⟨node, nodeIn, entering_sound wellFormed newIn ?_ nodeIn sameId⟩
      intro old oldIn sameOld
      have different := unmatched old oldIn
      simp [sameOld] at different
  · rintro ⟨node, nodeIn, changed, rfl⟩
    have unique := wellFormed.named.unique
    cases oldKnown : db.snapshot oldHash node.deviceName with
    | coe oldSeq =>
        left
        obtain ⟨old, oldIn, oldId, rfl⟩ := exists_stateRow unique nodeIn oldKnown
        cases newKnown : db.snapshot newHash node.deviceName with
        | bot =>
            refine ⟨old, none, node, ?_, nodeIn, oldId, by simp, rfl⟩
            apply Table.mem_leftJoin_none.mpr
            refine ⟨oldIn, ?_⟩
            intro new newIn
            have different := no_stateRow wellFormed nodeIn newKnown new newIn
            simp [oldId, different.symm]
        | coe newSeq =>
            obtain ⟨new, newIn, newId, rfl⟩ :=
              exists_stateRow unique nodeIn newKnown
            refine ⟨old, some new, node, ?_, nodeIn, oldId, ?_, rfl⟩
            · apply Table.mem_leftJoin_some.mpr
              exact ⟨oldIn, newIn, by simp [oldId, newId]⟩
            · rintro row ⟨⟩ same
              exact changed (by rw [oldKnown, newKnown, same])
    | bot =>
        right
        cases newKnown : db.snapshot newHash node.deviceName with
        | bot => exact (changed (by rw [oldKnown, newKnown])).elim
        | coe newSeq =>
            obtain ⟨new, newIn, newId, rfl⟩ :=
              exists_stateRow unique nodeIn newKnown
            refine ⟨new, node, ?_, nodeIn, newId, rfl⟩
            apply Table.mem_leftJoin_none.mpr
            refine ⟨newIn, ?_⟩
            intro old oldIn
            have different := no_stateRow wellFormed nodeIn oldKnown old oldIn
            simp [newId, different]

theorem stateRows_nodup (wellFormed : WellFormed ndn sha256 db)
    (stateHash : Hash) : (db.stateRows stateHash).Nodup := by
  unfold stateRows
  cases db.stateIdOf stateHash with
  | none => exact List.nodup_nil
  | some stateId => exact wellFormed.stateRowsUnique.filter _

theorem stateRow_unique (wellFormed : WellFormed ndn sha256 db)
    {stateHash : Hash} {left right : SyncStateNode}
    (leftIn : left ∈ db.stateRows stateHash)
    (rightIn : right ∈ db.stateRows stateHash)
    (same : left.deviceId = right.deviceId) : left = right := by
  obtain ⟨entry, entryIn, rfl, rows, snapshot⟩ :=
    logged_of_stateRow wellFormed leftIn
  have unique := wellFormed.hashesUnique
  obtain ⟨leftState, leftRow, leftRowIn, leftId, leftSeq⟩ :=
    (snapshot.mem_stateRows unique entryIn).mp leftIn
  obtain ⟨rightState, rightRow, rightRowIn, rightId, rightSeq⟩ :=
    (snapshot.mem_stateRows unique entryIn).mp rightIn
  have sameRow : leftRow = rightRow :=
    snapshot.row_eq_of_deviceId wellFormed.idsUnique leftRowIn rightRowIn
      (by rw [leftId, rightId, same])
  obtain ⟨leftStateId, leftDeviceId, leftSeqNo⟩ := left
  obtain ⟨rightStateId, rightDeviceId, rightSeqNo⟩ := right
  subst sameRow
  simp only at leftState rightState leftSeq rightSeq same
  rw [leftState, rightState, ← leftSeq, ← rightSeq, same]

private theorem joined_unique (wellFormed : WellFormed ndn sha256 db)
    {leftHash rightHash : Hash} {on : SyncStateNode → SyncStateNode → Bool}
    (onDevice : ∀ row other, on row other = true →
      row.deviceId = other.deviceId)
    {first second : (SyncStateNode × Option SyncStateNode) × SyncNode}
    (firstIn : first ∈ Table.innerJoin
      (fun pair node => pair.1.deviceId = node.deviceId)
      (Table.leftJoin on (db.stateRows leftHash) (db.stateRows rightHash))
      db.syncNodes)
    (secondIn : second ∈ Table.innerJoin
      (fun pair node => pair.1.deviceId = node.deviceId)
      (Table.leftJoin on (db.stateRows leftHash) (db.stateRows rightHash))
      db.syncNodes)
    (same : first.2.deviceName = second.2.deviceName) : first = second := by
  obtain ⟨⟨row, partner⟩, node⟩ := first
  obtain ⟨⟨otherRow, otherPartner⟩, otherNode⟩ := second
  obtain ⟨joined, nodeIn, rowId⟩ := Table.mem_innerJoin.mp firstIn
  obtain ⟨otherJoined, otherNodeIn, otherId⟩ :=
    Table.mem_innerJoin.mp secondIn
  simp only [decide_eq_true_eq] at rowId otherId
  have sameNode : node = otherNode :=
    Table.row_unique SyncNode.deviceName wellFormed.named.unique nodeIn
      otherNodeIn same
  subst sameNode
  have rowIn := (Table.mem_leftJoin joined).1
  have otherIn := (Table.mem_leftJoin otherJoined).1
  have sameRow : row = otherRow :=
    stateRow_unique wellFormed rowIn otherIn (rowId.trans otherId.symm)
  subst sameRow
  have samePartner : partner = otherPartner := by
    cases partner with
    | none =>
        cases otherPartner with
        | none => rfl
        | some other =>
            obtain ⟨-, presentIn, present⟩ :=
              Table.mem_leftJoin_some.mp otherJoined
            have absent := (Table.mem_leftJoin_none.mp joined).2 other presentIn
            rw [present] at absent
            exact Bool.noConfusion absent
    | some one =>
        obtain ⟨-, oneIn, oneOn⟩ := Table.mem_leftJoin_some.mp joined
        cases otherPartner with
        | none =>
            have absent := (Table.mem_leftJoin_none.mp otherJoined).2 one oneIn
            rw [oneOn] at absent
            exact Bool.noConfusion absent
        | some other =>
            obtain ⟨-, otherPartnerIn, otherOn⟩ :=
              Table.mem_leftJoin_some.mp otherJoined
            have sameId : one.deviceId = other.deviceId :=
              (onDevice row one oneOn).symm.trans (onDevice row other otherOn)
            rw [stateRow_unique wellFormed oneIn otherPartnerIn sameId]
  rw [samePartner]

private theorem names_joined_nodup (wellFormed : WellFormed ndn sha256 db)
    {leftHash rightHash : Hash} {on : SyncStateNode → SyncStateNode → Bool}
    (onDevice : ∀ row other, on row other = true →
      row.deviceId = other.deviceId)
    (keep : (SyncStateNode × Option SyncStateNode) × SyncNode → Bool) :
    (((Table.innerJoin (fun pair node => pair.1.deviceId = node.deviceId)
      (Table.leftJoin on (db.stateRows leftHash) (db.stateRows rightHash))
      db.syncNodes).filter keep).map (·.2.deviceName)).Nodup := by
  apply List.Nodup.map_on
  · intro first firstIn second secondIn same
    exact joined_unique wellFormed onDevice (List.mem_filter.mp firstIn).1
      (List.mem_filter.mp secondIn).1 same
  · apply List.Nodup.filter
    apply Table.innerJoin_nodup
    · exact Table.leftJoin_nodup (stateRows_nodup wellFormed _)
        (stateRows_nodup wellFormed _)
    · exact List.Nodup.of_map _ wellFormed.idsUnique

theorem names_findStateDifferences_nodup
    (wellFormed : WellFormed ndn sha256 db) (oldHash newHash : Hash)
    (includeOldSeq : Bool) :
    ((db.findStateDifferences oldHash newHash includeOldSeq).map
      (·.name)).Nodup := by
  unfold findStateDifferences
  simp only [List.map_append, List.map_map]
  apply List.nodup_append.mpr
  refine ⟨?_, ?_, ?_⟩
  · apply names_joined_nodup wellFormed
    intro row other joined
    exact of_decide_eq_true joined
  · apply names_joined_nodup wellFormed
    intro row other joined
    exact (of_decide_eq_true joined).symm
  · -- a leaving device has a row in the older state, an entering one has not
    intro leavingName leavingIn enteringName enteringIn same
    obtain ⟨⟨⟨old, new⟩, node⟩, leaving, rfl⟩ := List.mem_map.mp leavingIn
    obtain ⟨⟨⟨row, partner⟩, other⟩, entering, rfl⟩ :=
      List.mem_map.mp enteringIn
    obtain ⟨joined, nodeIn, oldId⟩ :=
      Table.mem_innerJoin.mp (List.mem_filter.mp leaving).1
    obtain ⟨entered, missing⟩ := List.mem_filter.mp entering
    obtain ⟨otherJoined, otherIn, rowId⟩ := Table.mem_innerJoin.mp entered
    obtain rfl : partner = none := by simpa using missing
    have sameNode : node = other :=
      Table.row_unique SyncNode.deviceName wellFormed.named.unique nodeIn
        otherIn same
    have unmatched := (Table.mem_leftJoin_none.mp otherJoined).2 old
      (Table.mem_leftJoin joined).1
    simp only [decide_eq_true_eq, decide_eq_false_iff_not]
      at oldId rowId unmatched
    apply unmatched
    rw [oldId, rowId, sameNode]

theorem node_of_snapshot {stateHash : Hash} {name : Bytes} {seqNo : Int64}
    (known : db.snapshot stateHash name = seqNo) :
    ∃ node ∈ db.syncNodes, node.deviceName = name := by
  unfold snapshot at known
  cases found : db.syncNodes.find? fun node => node.deviceName = name with
  | none => simp [found] at known
  | some node =>
      exact ⟨node, List.mem_of_find?_eq_some found,
        by simpa using List.find?_some found⟩

theorem mem_updatesOf {msg : SyncStateMsg} {entry : Bytes × Int64} :
    entry ∈ updatesOf msg ↔
      ∃ state ∈ msg, state.type = .update ∧ state.name = entry.1 ∧
        (state.seq.getD 0).toInt64 = entry.2 := by
  simp only [updatesOf, List.mem_filterMap]
  constructor
  · rintro ⟨state, stateIn, reported⟩
    cases type : state.type with
    | update =>
        simp only [type, Option.some.injEq] at reported
        subst reported
        exact ⟨state, stateIn, type, rfl, rfl⟩
    | delete => simp [type] at reported
  · rintro ⟨state, stateIn, type, sameName, sameSeq⟩
    refine ⟨state, stateIn, ?_⟩
    simp only [type, sameName, sameSeq]

theorem differences_findStateDifferences
    (wellFormed : WellFormed ndn sha256 db) (oldHash newHash : Hash)
    (includeOldSeq : Bool) :
    MaxMap.Differences (db.snapshot oldHash) (db.snapshot newHash)
      (updatesOf (db.findStateDifferences oldHash newHash includeOldSeq)) where
  sound := by
    intro entry member
    obtain ⟨state, stateIn, type, sameName, sameSeq⟩ :=
      mem_updatesOf.mp member
    obtain ⟨node, nodeIn, changed, rfl⟩ :=
      (mem_findStateDifferences wellFormed).mp stateIn
    rw [← sameName]
    refine ⟨?_, changed⟩
    cases newKnown : db.snapshot newHash node.deviceName with
    | bot => simp [differenceEntry, newKnown] at type
    | coe newSeq =>
        rw [← sameSeq]
        simp [differenceEntry, newKnown]
  complete := by
    intro name seqNo newKnown changed
    obtain ⟨node, nodeIn, rfl⟩ := node_of_snapshot newKnown
    apply mem_updatesOf.mpr
    refine ⟨_, (mem_findStateDifferences wellFormed).mpr ⟨node, nodeIn,
      newKnown ▸ changed, rfl⟩, ?_, rfl, ?_⟩
    · simp [differenceEntry, newKnown]
    · simp [differenceEntry, newKnown]

theorem type_eq_update (wellFormed : WellFormed ndn sha256 db)
    {oldHash newHash : Hash} {includeOldSeq : Bool}
    (grown : db.snapshot oldHash ≤ db.snapshot newHash)
    {state : SyncState}
    (member : state ∈
      db.findStateDifferences oldHash newHash includeOldSeq) :
    state.type = .update := by
  obtain ⟨node, -, changed, rfl⟩ :=
    (mem_findStateDifferences wellFormed).mp member
  cases newKnown : db.snapshot newHash node.deviceName with
  | bot =>
      have oldUnknown : db.snapshot oldHash node.deviceName = ⊥ := by
        apply le_bot_iff.mp
        rw [← newKnown]
        exact grown node.deviceName
      exact (changed (by rw [oldUnknown, newKnown])).elim
  | coe newSeq => simp [differenceEntry]

end SyncDb

end ChronoShare
