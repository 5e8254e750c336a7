import ChronoShare.SyncLog.Remembered
import Mathlib.Logic.Function.Basic

/-!
# The reported differences, replayed

What the difference query reports between two hashes is, device by device, the
difference of the maps that were remembered under them.  Replayed on the older
map it gives the newer one.
-/

namespace ChronoShare

/-- Replay one entry: an update sets the number of the device, a deletion
forgets the device. -/
def applyState (map : MaxMap Bytes Int64) (state : SyncState) :
    MaxMap Bytes Int64 :=
  match state.type with
  | .update => Function.update map state.name ((state.seq.getD 0).toInt64)
  | .delete => Function.update map state.name ⊥

def applyStates (map : MaxMap Bytes Int64) (msg : SyncStateMsg) :
    MaxMap Bytes Int64 :=
  msg.foldl applyState map

/-- An entry that tells the number of its device in the newer map, or that
there is none, and on request the number in the older one. -/
structure Reports (includeOldSeq : Bool) (old new : MaxMap Bytes Int64)
    (state : SyncState) : Prop where
  update : ∀ seqNo : Int64, new state.name = seqNo →
    state.type = .update ∧ state.seq = some seqNo.toUInt64
  delete : new state.name = ⊥ → state.type = .delete ∧ state.seq = none
  oldSeq : includeOldSeq = true → ∀ seqNo : Int64, old state.name = seqNo →
    state.oldSeq = some seqNo.toUInt64
  oldAbsent : includeOldSeq = true → old state.name = ⊥ →
    state.oldSeq = some 0
  oldOmitted : includeOldSeq = false → state.oldSeq = none

theorem applyState_other (map : MaxMap Bytes Int64) {state : SyncState}
    {name : Bytes} (different : state.name ≠ name) :
    applyState map state name = map name := by
  unfold applyState
  cases state.type with
  | update => exact Function.update_of_ne different.symm _ _
  | delete => exact Function.update_of_ne different.symm _ _

theorem applyState_self (map : MaxMap Bytes Int64) {state : SyncState}
    {includeOldSeq : Bool} {old new : MaxMap Bytes Int64}
    (reports : Reports includeOldSeq old new state) :
    applyState map state state.name = new state.name := by
  unfold applyState
  cases newKnown : new state.name with
  | bot =>
      rw [(reports.delete newKnown).1]
      exact Function.update_self _ _ _
  | coe seqNo =>
      obtain ⟨type, seq⟩ := reports.update seqNo newKnown
      simp [type, seq]

theorem applyStates_other (map : MaxMap Bytes Int64) {msg : SyncStateMsg}
    {name : Bytes} (absent : name ∉ msg.map (·.name)) :
    applyStates map msg name = map name := by
  induction msg generalizing map with
  | nil => rfl
  | cons state msg induction =>
      obtain ⟨different, others⟩ : name ≠ state.name ∧
          name ∉ msg.map (·.name) := by
        simpa using absent
      calc applyStates map (state :: msg) name
          = applyStates (applyState map state) msg name := rfl
        _ = applyState map state name := induction _ others
        _ = map name := applyState_other map different.symm

theorem applyStates_reported (map : MaxMap Bytes Int64) {msg : SyncStateMsg}
    {includeOldSeq : Bool} {old new : MaxMap Bytes Int64}
    (unique : (msg.map (·.name)).Nodup)
    (reports : ∀ state ∈ msg, Reports includeOldSeq old new state)
    {name : Bytes} (present : name ∈ msg.map (·.name)) :
    applyStates map msg name = new name := by
  induction msg generalizing map with
  | nil => exact (List.not_mem_nil present).elim
  | cons state msg induction =>
      obtain ⟨fresh, othersUnique⟩ := List.nodup_cons.mp unique
      have unfolded : applyStates map (state :: msg) =
          applyStates (applyState map state) msg := rfl
      rw [unfolded]
      by_cases later : name ∈ msg.map (·.name)
      · apply induction _ othersUnique _ later
        intro other member
        exact reports other (List.mem_cons_of_mem state member)
      · obtain rfl : name = state.name := by
          simpa [later] using present
        rw [applyStates_other _ later]
        exact applyState_self map (reports state List.mem_cons_self)

namespace SyncDb

variable {Name : Type} {ndn : NameOps Name} {sha256 : Bytes → Bytes}
  {db : SyncDb}

theorem reports_findStateDifferences (wellFormed : WellFormed ndn sha256 db)
    {oldHash newHash : Hash} {includeOldSeq : Bool} {state : SyncState}
    (member : state ∈
      db.findStateDifferences oldHash newHash includeOldSeq) :
    Reports includeOldSeq (db.snapshot oldHash) (db.snapshot newHash)
      state := by
  obtain ⟨node, -, -, rfl⟩ := (mem_findStateDifferences wellFormed).mp member
  constructor
  · intro seqNo known
    simp only [differenceEntry] at known ⊢
    simp [known]
  · intro unknown
    simp only [differenceEntry] at unknown ⊢
    simp [unknown]
  · intro included seqNo known
    simp only [differenceEntry] at known ⊢
    simp [included, known]
  · intro included unknown
    simp only [differenceEntry] at unknown ⊢
    simp only [included, if_true, unknown, columnOf_bot]
    rfl
  · intro omitted
    simp [differenceEntry, omitted]

theorem mem_names_findStateDifferences
    (wellFormed : WellFormed ndn sha256 db) {oldHash newHash : Hash}
    {includeOldSeq : Bool} {name : Bytes} :
    name ∈ (db.findStateDifferences oldHash newHash includeOldSeq).map
        (·.name) ↔
      db.snapshot oldHash name ≠ db.snapshot newHash name := by
  rw [List.mem_map]
  constructor
  · intro found
    obtain ⟨state, member, rfl⟩ := found
    obtain ⟨node, -, changed, rfl⟩ :=
      (mem_findStateDifferences wellFormed).mp member
    exact changed
  · intro changed
    have known : ∃ node ∈ db.syncNodes, node.deviceName = name := by
      cases newKnown : db.snapshot newHash name with
      | coe seqNo => exact node_of_snapshot newKnown
      | bot =>
          cases oldKnown : db.snapshot oldHash name with
          | coe seqNo => exact node_of_snapshot oldKnown
          | bot => exact (changed (oldKnown.trans newKnown.symm)).elim
    obtain ⟨node, nodeIn, rfl⟩ := known
    exact ⟨_, (mem_findStateDifferences wellFormed).mpr
      ⟨node, nodeIn, changed, rfl⟩, rfl⟩

theorem applyStates_findStateDifferences
    (wellFormed : WellFormed ndn sha256 db) (oldHash newHash : Hash)
    (includeOldSeq : Bool) :
    applyStates (db.snapshot oldHash)
        (db.findStateDifferences oldHash newHash includeOldSeq) =
      db.snapshot newHash := by
  funext name
  by_cases same : db.snapshot oldHash name = db.snapshot newHash name
  · rw [applyStates_other, same]
    intro reported
    exact (mem_names_findStateDifferences wellFormed).mp reported same
  · apply applyStates_reported
    · exact names_findStateDifferences_nodup wellFormed oldHash newHash _
    · intro state member
      exact reports_findStateDifferences wellFormed member
    · exact (mem_names_findStateDifferences wellFormed).mpr same

end SyncDb

namespace SyncLog

open SyncDb

variable {Name : Type} [DecidableEq Name] {ndn : NameOps Name}
  {sha256 : Bytes → Bytes} {localName : Name} {trace : Trace Name}
  {final : SyncLog Name}

theorem remembered_origin (served : Served ndn sha256 localName trace final)
    (apart : ∀ input, sha256 input ≠ Hash.origin) :
    remembered sha256 trace Hash.origin = ⊥ := by
  rw [← served.snapshot_eq]
  apply snapshot_of_unlogged
  intro found
  obtain ⟨entry, member, sameHash⟩ := found
  obtain ⟨rows, snapshot⟩ :=
    served.wellFormed.db.snapshots entry member
  apply apart (hashed rows)
  rw [← digest_of_ne_nil sha256 snapshot.nonempty, ← snapshot.hash, sameHash]

/-- For any two hashes, remembered or not: one entry for each device at which
the remembered maps differ, no other entry, each telling the two numbers, and
together they lead from the older map to the newer one. -/
theorem reports_remembered_differences
    (served : Served ndn sha256 localName trace final)
    (apart : ∀ input, sha256 input ≠ Hash.origin)
    (oldHash newHash : Hash) (includeOldSeq : Bool) :
    let old := remembered sha256 trace oldHash
    let new := remembered sha256 trace newHash
    let answer := final.db.findStateDifferences oldHash newHash includeOldSeq
    (∀ name, (answer.map (·.name)).count name =
      if old name = new name then 0 else 1) ∧
    (∀ state ∈ answer, Reports includeOldSeq old new state) ∧
    applyStates old answer = new ∧
    (∀ stateHash, (∀ taken ∈ trace, ¬ Remembers sha256 stateHash taken) →
      remembered sha256 trace stateHash = ⊥) ∧
    remembered sha256 trace Hash.origin = ⊥ := by
  intro old new answer
  have wellFormed := served.wellFormed.db
  have oldSnapshot : final.db.snapshot oldHash = old :=
    served.snapshot_eq oldHash
  have newSnapshot : final.db.snapshot newHash = new :=
    served.snapshot_eq newHash
  rw [← oldSnapshot, ← newSnapshot]
  refine ⟨?_, ?_, applyStates_findStateDifferences wellFormed _ _ _, ?_,
    remembered_origin served apart⟩
  · intro name
    have unique := names_findStateDifferences_nodup wellFormed oldHash
      newHash includeOldSeq
    split_ifs with same
    · apply List.count_eq_zero.mpr
      intro reported
      exact (mem_names_findStateDifferences wellFormed).mp reported same
    · apply List.count_eq_one_of_mem unique
      exact (mem_names_findStateDifferences wellFormed).mpr same
  · intro state member
    exact reports_findStateDifferences wellFormed member
  · intro stateHash never
    rw [← served.snapshot_eq]
    apply snapshot_of_unlogged
    rw [served.logged_iff]
    intro found
    obtain ⟨taken, member, remembers⟩ := found
    exact never taken member remembers

/-- The whole remembered map as differences from the hash that stands for the
state without devices. -/
theorem reports_remembered_differences_origin :
    ∃ (trace : Trace DeviceName) (final : SyncLog DeviceName),
      trace.map Prod.snd = rememberedTwice ∧
      let newHash := (final.rememberStateInStateLog taggedDigest).1
      let answer := final.db.findStateDifferences Hash.origin newHash true
      (answer.map (·.name)).Nodup ∧
      applyStates ⊥ answer = remembered taggedDigest trace newHash := by
  have executed : ∃ trace final, execute
      (perform DeviceName.ops taggedDigest)
      (opened DeviceName.ops DeviceName.alex) rememberedTwice =
        some (trace, final) := ⟨_, _, rfl⟩
  obtain ⟨trace, final, executed⟩ := executed
  refine ⟨trace, final, execute_labels executed, ?_⟩
  obtain ⟨counts, -, replayed, -, originEmpty⟩ :=
    reports_remembered_differences (served_of_execute executed)
      taggedDigest_collisionFree.notOrigin Hash.origin
      (final.rememberStateInStateLog taggedDigest).1 true
  rw [originEmpty] at counts replayed
  refine ⟨?_, replayed⟩
  apply List.nodup_iff_count_le_one.mpr
  intro name
  rw [counts]
  split_ifs
  · exact Nat.zero_le 1
  · exact le_rfl

end SyncLog

end ChronoShare
