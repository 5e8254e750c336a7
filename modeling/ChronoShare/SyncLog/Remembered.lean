import ChronoShare.SyncLog.Calls

/-!
# The log against its history

A hash is in the log exactly if it was remembered, and the rows kept under it
are the devices as they were the last time it was.  The differences of two
hashes are therefore the differences of two remembered maps.
-/

namespace ChronoShare

namespace SyncDb

variable {Name : Type} {ndn : NameOps Name} {sha256 : Bytes → Bytes}
  {db : SyncDb}

/-- The rows of a state under the names of their devices. -/
def snapshotRows (db : SyncDb) (stateId : Nat) : List SyncNode :=
  (Table.innerJoin (fun row node => row.deviceId = node.deviceId)
    (db.syncStateNodes.filter fun row => row.stateId = stateId)
    db.syncNodes).map fun (row, node) => { node with seqNo := row.seqNo }

/-- The rows of an entry: one for each device of `map`, with its number, and
together with the digest under which they are logged. -/
structure Represents (sha256 : Bytes → Bytes) (db : SyncDb)
    (entry : SyncLogEntry) (map : MaxMap Bytes Int64) : Prop where
  known : ∀ row ∈ db.syncStateNodes, row.stateId = entry.stateId →
    ∃ node ∈ db.syncNodes, node.deviceId = row.deviceId
  unique : ((db.syncStateNodes.filter fun row =>
    row.stateId = entry.stateId).map (·.deviceId)).Nodup
  map : seqOf (db.snapshotRows entry.stateId) = map
  hash : digest sha256 (db.snapshotRows entry.stateId) = entry.stateHash

/-- Every row of a remembered state has an entry it belongs to. -/
def Rooted (db : SyncDb) : Prop :=
  ∀ row ∈ db.syncStateNodes, ∃ entry ∈ db.syncLog,
    entry.stateId = row.stateId

theorem NodesGrown.rooted {after : SyncDb} (grown : NodesGrown ndn db after)
    (rooted : db.Rooted) : after.Rooted := by
  unfold Rooted
  rw [grown.syncStateNodes, grown.syncLog]
  exact rooted

theorem rooted_remember (rooted : db.Rooted) :
    (db.rememberStateInStateLog sha256).2.Rooted := by
  intro row member
  rcases mem_syncStateNodes_remember.mp member with
    ⟨stored, unreplaced⟩ | ⟨here, -⟩
  · obtain ⟨entry, entryIn, sameId⟩ := rooted row stored
    have different : entry.stateHash ≠ digest sha256 db.syncNodes := by
      intro sameHash
      exact unreplaced entry entryIn sameHash sameId
    exact ⟨entry, mem_syncLog_remember.mpr (Or.inl ⟨entryIn, different⟩),
      sameId⟩
  · exact ⟨_, mem_syncLog_remember.mpr (Or.inr rfl), here.symm⟩

theorem stateRows_of_entry (wellFormed : WellFormed ndn sha256 db)
    {entry : SyncLogEntry} (member : entry ∈ db.syncLog) :
    db.stateRows entry.stateHash =
      db.syncStateNodes.filter fun row => row.stateId = entry.stateId := by
  simp [stateRows, stateIdOf_eq_some wellFormed.hashesUnique member]

theorem mem_snapshotRows {stateId : Nat} {node : SyncNode} :
    node ∈ db.snapshotRows stateId ↔
      ∃ row ∈ db.syncStateNodes, row.stateId = stateId ∧
        ∃ current ∈ db.syncNodes, row.deviceId = current.deviceId ∧
          node = { current with seqNo := row.seqNo } := by
  simp only [snapshotRows, List.mem_map, Prod.exists, Table.mem_innerJoin,
    List.mem_filter, decide_eq_true_eq]
  constructor
  · intro found
    obtain ⟨row, current, ⟨⟨rowIn, here⟩, currentIn, sameId⟩, rfl⟩ := found
    exact ⟨row, rowIn, here, current, currentIn, sameId, rfl⟩
  · intro found
    obtain ⟨row, rowIn, here, current, currentIn, sameId, rfl⟩ := found
    exact ⟨row, current, ⟨⟨rowIn, here⟩, currentIn, sameId⟩, rfl⟩

section Entry

variable {entry : SyncLogEntry}

private theorem deviceIds_nodup (wellFormed : WellFormed ndn sha256 db)
    (member : entry ∈ db.syncLog) :
    ((db.syncStateNodes.filter fun row =>
      row.stateId = entry.stateId).map (·.deviceId)).Nodup := by
  rw [← stateRows_of_entry wellFormed member]
  apply List.Nodup.map_on
  · intro left leftIn right rightIn same
    exact stateRow_unique wellFormed leftIn rightIn same
  · exact stateRows_nodup wellFormed entry.stateHash

private theorem snapshotRows_nodup (wellFormed : WellFormed ndn sha256 db)
    (member : entry ∈ db.syncLog) :
    ((db.snapshotRows entry.stateId).map (·.deviceName)).Nodup := by
  rw [snapshotRows, List.map_map, ← stateRows_of_entry wellFormed member]
  apply List.Nodup.map_on
  · rintro ⟨row, node⟩ joined ⟨otherRow, otherNode⟩ otherJoined sameName
    obtain ⟨rowIn, nodeIn, rowId⟩ := Table.mem_innerJoin.mp joined
    obtain ⟨otherIn, otherNodeIn, otherId⟩ :=
      Table.mem_innerJoin.mp otherJoined
    have sameNode : node = otherNode :=
      Table.row_unique SyncNode.deviceName wellFormed.named.unique nodeIn
        otherNodeIn sameName
    subst sameNode
    have sameRow : row = otherRow :=
      stateRow_unique wellFormed rowIn otherIn
        ((of_decide_eq_true rowId).trans (of_decide_eq_true otherId).symm)
    rw [sameRow]
  · apply Table.innerJoin_nodup (stateRows_nodup wellFormed entry.stateHash)
    exact List.Nodup.of_map _ wellFormed.idsUnique

private theorem seqOf_snapshotRows (wellFormed : WellFormed ndn sha256 db)
    (member : entry ∈ db.syncLog) :
    seqOf (db.snapshotRows entry.stateId) = db.snapshot entry.stateHash := by
  have unique := snapshotRows_nodup wellFormed member
  have sameRows := stateRows_of_entry wellFormed member
  have pointwise (name : Bytes) (seqNo : Int64) :
      seqOf (db.snapshotRows entry.stateId) name = seqNo ↔
        db.snapshot entry.stateHash name = seqNo := by
    rw [seqOf, Table.column_eq_coe_iff unique]
    constructor
    · intro found
      obtain ⟨node, nodeIn, rfl, rfl⟩ := found
      obtain ⟨row, rowIn, here, current, currentIn, sameId, rfl⟩ :=
        mem_snapshotRows.mp nodeIn
      apply snapshot_of_stateRow_node wellFormed _ currentIn sameId
      rw [sameRows, List.mem_filter]
      exact ⟨rowIn, decide_eq_true here⟩
    · intro known
      obtain ⟨current, currentIn, rfl⟩ := node_of_snapshot known
      obtain ⟨row, rowIn, sameId, rfl⟩ :=
        exists_stateRow wellFormed.named.unique currentIn known
      rw [sameRows, List.mem_filter] at rowIn
      refine ⟨{ current with seqNo := row.seqNo }, ?_, rfl, rfl⟩
      exact mem_snapshotRows.mpr ⟨row, rowIn.1, of_decide_eq_true rowIn.2,
        current, currentIn, sameId, rfl⟩
  funext name
  cases stored : db.snapshot entry.stateHash name with
  | bot =>
      cases other : seqOf (db.snapshotRows entry.stateId) name with
      | bot => rfl
      | coe seqNo =>
          rw [(pointwise name seqNo).mp other] at stored
          exact (WithBot.coe_ne_bot stored).elim
  | coe seqNo => exact (pointwise name seqNo).mpr stored

theorem represents (wellFormed : WellFormed ndn sha256 db)
    (member : entry ∈ db.syncLog) :
    db.Represents sha256 entry (db.snapshot entry.stateHash) where
  known := by
    intro row rowIn here
    have stored : row ∈ db.stateRows entry.stateHash := by
      rw [stateRows_of_entry wellFormed member, List.mem_filter]
      exact ⟨rowIn, decide_eq_true here⟩
    obtain ⟨node, nodeIn, sameId, -⟩ := snapshot_of_stateRow wellFormed stored
    exact ⟨node, nodeIn, sameId⟩
  unique := deviceIds_nodup wellFormed member
  map := seqOf_snapshotRows wellFormed member
  hash := by
    obtain ⟨rows, remembered⟩ := wellFormed.snapshots entry member
    rw [remembered.hash]
    apply digest_congr (snapshotRows_nodup wellFormed member)
      remembered.named.unique
    rw [seqOf_snapshotRows wellFormed member,
      remembered.snapshot_eq wellFormed member]

end Entry

end SyncDb

namespace SyncLog

open SyncDb

variable {Name : Type} {ndn : NameOps Name}
  {sha256 : Bytes → Bytes} {localName : Name} {trace : Trace Name}
  {source final : SyncLog Name} {call : Call Name}

section Remembered

variable [DecidableEq Name]

@[simp] theorem remembered_nil (stateHash : Hash) :
    remembered sha256 ([] : Trace Name) stateHash = ⊥ :=
  rfl

theorem remembered_of_remembers {stateHash : Hash}
    (here : Remembers sha256 stateHash (source, call)) :
    remembered sha256 (trace ++ [(source, call)]) stateHash =
      source.db.seqMap := by
  simp [remembered, here]

theorem remembered_of_not {stateHash : Hash}
    (elsewhere : ¬ Remembers sha256 stateHash (source, call)) :
    remembered sha256 (trace ++ [(source, call)]) stateHash =
      remembered sha256 trace stateHash := by
  simp [remembered, elsewhere]

theorem Served.snapshot_eq
    (served : Served ndn sha256 localName trace final) (stateHash : Hash) :
    final.db.snapshot stateHash = remembered sha256 trace stateHash := by
  refine served.induction ?_ ?_
  · intro start opened
    obtain ⟨sameDb, -⟩ := construct_cases opened
    rw [remembered_nil, sameDb]
    apply snapshot_of_unlogged
    intro found
    obtain ⟨entry, member, -⟩ := found
    simp [SyncDb.empty, insertSyncNode] at member
  · intro trace source call target earlier performed induction
    have wellFormed := earlier.wellFormed
    rcases perform_cases performed wellFormed with
      ⟨rfl, rfl⟩ | ⟨other, grown⟩
    · by_cases here : digest sha256 source.db.syncNodes = stateHash
      · have remembers : Remembers sha256 stateHash
            (source, .rememberStateInStateLog) := ⟨rfl, here⟩
        rw [remembered_of_remembers remembers, ← here]
        exact snapshot_remember_digest wellFormed.db
      · rw [remembered_of_not fun remembers => here remembers.2, ← induction]
        exact snapshot_remember_of_ne wellFormed.db (Ne.symm here)
    · rw [remembered_of_not fun remembers => other remembers.1, ← induction]
      exact grown.snapshot_eq wellFormed.db stateHash

end Remembered

theorem Served.logged_iff (served : Served ndn sha256 localName trace final)
    (stateHash : Hash) :
    final.db.Logged stateHash ↔
      ∃ taken ∈ trace, Remembers sha256 stateHash taken := by
  refine served.induction ?_ ?_
  · intro start opened
    obtain ⟨sameDb, -⟩ := construct_cases opened
    simp [sameDb, Logged, SyncDb.empty, insertSyncNode]
  · intro trace source call target earlier performed induction
    have wellFormed := earlier.wellFormed
    have split : (∃ taken ∈ trace ++ [(source, call)],
          Remembers sha256 stateHash taken) ↔
        source.db.Logged stateHash ∨
          Remembers sha256 stateHash (source, call) := by
      simp only [List.mem_append, List.mem_singleton, or_and_right,
        exists_or, exists_eq_left, induction]
    rw [split]
    rcases perform_cases performed wellFormed with
      ⟨rfl, rfl⟩ | ⟨other, grown⟩
    · have recorded : (source.rememberStateInStateLog sha256).2.db.Logged
            stateHash ↔ source.db.Logged stateHash ∨
              stateHash = digest sha256 source.db.syncNodes :=
        logged_remember_iff
      rw [recorded, Remembers, @eq_comm _ stateHash]
      simp
    · rw [grown.logged_iff, or_iff_left fun remembers => other remembers.1]

theorem Served.rooted (served : Served ndn sha256 localName trace final) :
    final.db.Rooted := by
  refine served.induction ?_ ?_
  · intro start opened
    obtain ⟨sameDb, -⟩ := construct_cases opened
    intro row member
    simp [sameDb, SyncDb.empty, insertSyncNode] at member
  · intro trace source call target earlier performed induction
    have wellFormed := earlier.wellFormed
    rcases perform_cases performed wellFormed with ⟨-, rfl⟩ | ⟨-, grown⟩
    · exact rooted_remember induction
    · exact grown.rooted induction

/-- Every entry is logged once, under the digest of its rows, and its rows are
the devices as they were when its hash was last remembered; no row outlives
its entry, and exactly the remembered hashes are found. -/
theorem log_remembers_states [DecidableEq Name]
    (served : Served ndn sha256 localName trace final) :
    (final.db.syncLog.map (·.stateHash)).Nodup ∧
    (∀ entry ∈ final.db.syncLog, final.db.Represents sha256 entry
      (remembered sha256 trace entry.stateHash)) ∧
    (∀ row ∈ final.db.syncStateNodes, ∃ entry ∈ final.db.syncLog,
      entry.stateId = row.stateId) ∧
    ∀ stateHash, 0 < final.db.lookupSyncLog stateHash ↔
      ∃ taken ∈ trace, Remembers sha256 stateHash taken := by
  have wellFormed := served.wellFormed.db
  refine ⟨wellFormed.hashesUnique, ?_, served.rooted, ?_⟩
  · intro entry member
    rw [← served.snapshot_eq]
    exact represents wellFormed member
  · intro stateHash
    rw [lookupSyncLog_pos_iff wellFormed, served.logged_iff]

/-- A state remembered twice in a row: the second entry replaces the first. -/
def rememberedTwice : List (Call DeviceName) :=
  [.rememberStateInStateLog, .updateDeviceSeqNo DeviceName.bob 1,
    .rememberStateInStateLog, .rememberStateInStateLog]

theorem log_remembers_states_rememberedTwice :
    ∃ (trace : Trace DeviceName) (final : SyncLog DeviceName),
      trace.map Prod.snd = rememberedTwice ∧
      (final.db.syncLog.map (·.stateId)) = [1, 3] ∧
      (∀ entry ∈ final.db.syncLog, final.db.Represents taggedDigest entry
        (remembered taggedDigest trace entry.stateHash)) ∧
      ∀ row ∈ final.db.syncStateNodes, ∃ entry ∈ final.db.syncLog,
        entry.stateId = row.stateId := by
  have executed : ∃ trace final, execute
      (perform DeviceName.ops taggedDigest)
      (opened DeviceName.ops DeviceName.alex) rememberedTwice =
        some (trace, final) ∧
      final.db.syncLog.map (·.stateId) = [1, 3] :=
    ⟨_, _, rfl, by decide +kernel⟩
  obtain ⟨trace, final, executed, stateIds⟩ := executed
  obtain ⟨-, entries, rooted, -⟩ :=
    log_remembers_states (served_of_execute executed)
  exact ⟨trace, final, execute_labels executed, stateIds, entries, rooted⟩

end SyncLog

end ChronoShare
