import ChronoShare.SyncLog.Exchange
import Mathlib.Order.WithBot

/-!
# The number of the local device

The local device numbers its actions by its own row.  Whatever happens to the
log, that row stays and its number never falls, so a number that has been
taken is not taken again.
-/

namespace ChronoShare

namespace SyncLog

variable {Name : Type} {ndn : NameOps Name} {sha256 : Bytes → Bytes}

def localRow (log : SyncLog Name) : Option SyncNode :=
  log.db.syncNodes.find? fun row => row.deviceId = log.localDeviceId

/-- The number the local device has reached, `⊥` without a row. -/
def localNumber (log : SyncLog Name) : WithBot Int64 :=
  log.localRow.map (·.seqNo)

/-- The local device is the same and its number has not fallen. -/
structure Advances (before after : SyncLog Name) : Prop where
  localName : after.localName = before.localName
  localNumber : before.localNumber ≤ after.localNumber

instance [DecidableEq Name] (before after : SyncLog Name) :
    Decidable (Advances before after) :=
  decidable_of_iff (after.localName = before.localName ∧
      before.localNumber ≤ after.localNumber)
    ⟨fun parts => ⟨parts.1, parts.2⟩,
      fun advances => ⟨advances.1, advances.2⟩⟩

theorem WellFormed.localNumber_ne_bot {log : SyncLog Name}
    (wellFormed : WellFormed ndn sha256 log) : log.localNumber ≠ ⊥ := by
  obtain ⟨node, nodeIn, nodeId, -⟩ := wellFormed.localRow
  have found : log.localRow.isSome :=
    List.find?_isSome.mpr ⟨node, nodeIn, by simpa using nodeId⟩
  obtain ⟨row, present⟩ := Option.isSome_iff_exists.mp found
  rw [localNumber, present]
  exact WithBot.coe_ne_bot

theorem localRow_map {before after : SyncLog Name}
    {rewrite : SyncNode → SyncNode}
    (sameId : after.localDeviceId = before.localDeviceId)
    (rows : after.db.syncNodes = before.db.syncNodes.map rewrite)
    (keeps : ∀ row, (rewrite row).deviceId = row.deviceId) :
    after.localRow = before.localRow.map rewrite := by
  have sameRow : (fun row : SyncNode => decide (row.deviceId =
      before.localDeviceId)) ∘ rewrite =
        fun row => decide (row.deviceId = before.localDeviceId) := by
    funext row
    rw [Function.comp_apply, keeps]
  rw [localRow, localRow, rows, sameId, List.find?_map, sameRow]

theorem advances_map {before after : SyncLog Name}
    {rewrite : SyncNode → SyncNode}
    (sameName : after.localName = before.localName)
    (sameId : after.localDeviceId = before.localDeviceId)
    (rows : after.db.syncNodes = before.db.syncNodes.map rewrite)
    (keeps : ∀ row, (rewrite row).deviceId = row.deviceId)
    (raises : ∀ row, row.seqNo ≤ (rewrite row).seqNo) :
    Advances before after := by
  refine ⟨sameName, ?_⟩
  rw [localNumber, localNumber, localRow_map sameId rows keeps]
  cases before.localRow with
  | none => exact bot_le
  | some row => exact WithBot.coe_le_coe.mpr (raises row)

theorem advances_updateLocalSeqNo (log : SyncLog Name) (seqNo : Int64) :
    Advances log (log.updateLocalSeqNo seqNo) := by
  refine advances_map rfl rfl rfl ?_ ?_
  · intro row
    split_ifs <;> rfl
  · intro row
    split_ifs
    · exact le_max_left _ _
    · exact le_rfl

theorem localNumber_updateLocalSeqNo {log : SyncLog Name} {row : SyncNode}
    (found : log.localRow = some row) (seqNo : Int64) :
    (log.updateLocalSeqNo seqNo).localNumber =
      ((max row.seqNo seqNo : Int64) : WithBot Int64) := by
  have mapped : (log.updateLocalSeqNo seqNo).localRow =
      log.localRow.map fun row =>
        if row.deviceId = log.localDeviceId then
          { row with seqNo := max row.seqNo seqNo }
        else
          row := by
    refine localRow_map rfl rfl ?_
    intro row
    split_ifs <;> rfl
  have own : row.deviceId = log.localDeviceId := by
    simpa using List.find?_some found
  rw [localNumber, mapped, found, Option.map_some, if_pos own]
  rfl

/-- The number after the last one is no greater than any, and leaves the table
as it was. -/
theorem updateLocalSeqNo_of_overflow {seqNo : Int64}
    (overflow : ¬ seqNo < seqNo + 1) (log : SyncLog Name) :
    log.updateLocalSeqNo (seqNo + 1) = log := by
  have least : ∀ other : Int64, max other (seqNo + 1) = other := by
    intro other
    have wrapped : seqNo + 1 = Int64.minValue := by
      by_contra defined
      exact overflow (int64_lt_succ defined)
    rw [wrapped]
    exact max_eq_left (Int64.le_iff_toInt_le.mpr (Int64.minValue_le_toInt other))
  have same : (log.db.syncNodes.map fun row =>
      if row.deviceId = log.localDeviceId then
        { row with seqNo := max row.seqNo (seqNo + 1) }
      else
        row) = log.db.syncNodes := by
    simp [least]
  rw [updateLocalSeqNo, SyncDb.updateSyncNode, same]

theorem getNextLocalSeqNo_eq (log : SyncLog Name) :
    log.getNextLocalSeqNo = log.localRow.map fun row =>
      (row.seqNo + 1, log.updateLocalSeqNo (row.seqNo + 1)) := by
  rw [getNextLocalSeqNo, localRow]
  split <;> simp [*]

/-- The number handed out is above every number reached before, and has been
reached afterwards. -/
theorem getNextLocalSeqNo_advances {log next : SyncLog Name} {seqNo : Int64}
    (taken : log.getNextLocalSeqNo = some (seqNo, next))
    (defined : seqNo ≠ Int64.minValue) :
    Advances log next ∧ log.localNumber < seqNo ∧
      seqNo ≤ next.localNumber := by
  cases found : log.localRow with
  | none =>
      rw [localRow] at found
      simp [getNextLocalSeqNo, found] at taken
  | some row =>
      have number : seqNo = row.seqNo + 1 ∧
          next = log.updateLocalSeqNo (row.seqNo + 1) := by
        rw [localRow] at found
        simp only [getNextLocalSeqNo, found, Option.some.injEq,
          Prod.mk.injEq] at taken
        exact ⟨taken.1.symm, taken.2.symm⟩
      obtain ⟨rfl, rfl⟩ := number
      have above : row.seqNo < row.seqNo + 1 := int64_lt_succ defined
      have here : row.deviceId = log.localDeviceId := by
        rw [localRow] at found
        simpa using List.find?_some found
      have updated : (log.updateLocalSeqNo (row.seqNo + 1)).localRow =
          log.localRow.map fun other =>
            if other.deviceId = log.localDeviceId then
              { other with seqNo := max other.seqNo (row.seqNo + 1) }
            else
              other := by
        refine localRow_map rfl rfl ?_
        intro other
        split_ifs <;> rfl
      refine ⟨advances_updateLocalSeqNo log _, ?_, ?_⟩
      · rw [localNumber, found]
        exact WithBot.coe_lt_coe.mpr above
      · rw [localNumber, updated, found]
        apply WithBot.coe_le_coe.mpr
        simp [here]

end SyncLog

end ChronoShare
