import ChronoShare.ActionLog.Failures
import ChronoShare.ActionLog.MessageFormat
import ChronoShare.Ndn.Uri

/-!
# Numbers without actions

The number is raised in one database and the action is committed in another.
A call keeps the promise exactly if the number is not raised, or its action is
committed by the time at which the call ends or crashes.
-/

namespace ChronoShare

namespace FallibleCall

variable {Name : Type} {platform : ActionPlatform Name} {failures : Failures}

theorem run_beginTransaction (state : Databases Name) :
    (beginTransaction failures).run state =
      if failures .begin = .crashed then
        .error .crash state
      else
        .ok () { state with
          actionLog :=
            if failures .begin = .done then state.actionLog.begin
            else state.actionLog } := by
  rw [beginTransaction]
  cases failures .begin <;> rfl

theorem run_runStatement (statement : Statement)
    (effect : TransactionTable ActionRow → TransactionTable ActionRow)
    (state : Databases Name) :
    (runStatement failures statement effect).run state =
      if failures statement = .crashed then
        .error .crash state
      else
        .ok (failures statement) { state with
          actionLog :=
            state.actionLog.perform (failures statement) effect } := by
  rw [runStatement]
  cases failures statement <;> rfl

theorem run_getNextLocalSeqNo (state : Databases Name) :
    (getNextLocalSeqNo failures).run state =
      if failures .selectSeqNo = .crashed then
        .error .crash state
      else if failures .selectSeqNo ≠ .done then
        .error .exception state
      else
        match state.syncLog.getNextLocalSeqNo with
        | none => .error .exception state
        | some (seqNo, syncLog) =>
            if failures .updateSeqNo = .crashed then
              .error .crash state
            else if failures .updateSeqNo = .unprepared then
              .error .exception state
            else
              .ok seqNo { state with
                syncLog :=
                  if failures .updateSeqNo = .done then syncLog
                  else state.syncLog } := by
  rw [getNextLocalSeqNo]
  cases failures .selectSeqNo
  case done =>
    simp only [EStateM.run_bind, EStateM.run_get]
    cases state.syncLog.getNextLocalSeqNo with
    | none => rfl
    | some next => cases failures .updateSeqNo <;> rfl
  all_goals rfl

theorem run_getLatestActionForFile (filename : Bytes) (choice : Nat)
    (state : Databases Name) :
    (getLatestActionForFile failures filename choice).run state =
      if failures .selectLatest = .crashed then
        .error .crash state
      else if failures .selectLatest = .unprepared then
        .error .exception state
      else
        .ok
          (if failures .selectLatest = .done then
            ActionLog.getLatestActionForFile state.actionLog.view filename
              choice
          else
            (-1, none, -1))
          { state with
            actionLog :=
              state.actionLog.perform (failures .selectLatest) id } := by
  rw [getLatestActionForFile, EStateM.run_bind, run_runStatement]
  cases failures .selectLatest <;> rfl

theorem run_insertAction (new : ActionRow) (state : Databases Name) :
    (insertAction failures new).run state =
      if failures .insertAction = .crashed then
        .error .crash state
      else
        .ok (failures .insertAction) { state with
          actionLog := state.actionLog.perform (failures .insertAction)
            (·.insert new (state.actionLog.view.any fun row =>
              row.deviceName = new.deviceName ∧ row.seqNo = new.seqNo)) } := by
  rw [insertAction, EStateM.run_bind]
  exact run_runStatement _ _ _

theorem run_endTransaction (state : Databases Name) :
    (endTransaction failures).run state =
      let annotated : Databases Name := { state with
        actionLog := state.actionLog.perform (failures .updateDirectory) id }
      if failures .updateDirectory = .crashed then
        .error .crash state
      else if failures .end = .crashed then
        .error .crash annotated
      else
        .ok () { state with
          actionLog := annotated.actionLog.perform (failures .end)
            TransactionTable.commit } := by
  rw [endTransaction, EStateM.run_bind, run_runStatement]
  by_cases annotating : failures .updateDirectory = .crashed
  · simp only [annotating, if_true]
  · simp only [annotating, if_false, EStateM.run_bind, run_runStatement]
    by_cases ending : failures .end = .crashed
    · simp only [ending, if_true]
    · simp only [ending, if_false, EStateM.run_pure]

end FallibleCall

namespace Databases

variable {Name : Type} {platform : ActionPlatform Name}
  {start state : Databases Name}

theorem numbered_restart_iff :
    Numbered platform start state.restart ↔
      (start.syncLog.localNumber < state.syncLog.localNumber →
        ∃ row ∈ state.actionLog.committed,
          IsLast platform state.syncLog row) := by
  simp [Numbered, restart]

theorem Numbered.of_restart
    (numbered : Numbered platform start state.restart) :
    Numbered platform start state := by
  intro raised
  obtain ⟨row, stored, last⟩ := numbered_restart_iff.mp numbered raised
  exact ⟨row, TransactionTable.committed_subset_view stored, last⟩

theorem numbered_of_syncLog_eq (same : state.syncLog = start.syncLog) :
    Numbered platform start state := by
  intro raised
  rw [same] at raised
  exact absurd raised (lt_irrefl _)

theorem sound_crash_iff :
    Sound platform start (.error .crash state) ↔
      Numbered platform start state.restart :=
  Iff.rfl

theorem sound_some_iff {item : ActionItem} :
    Sound platform start (.ok (some item) state) ↔
      Numbered platform start state.restart :=
  ⟨fun sound => sound.2, fun numbered => ⟨numbered.of_restart, numbered⟩⟩

theorem sound_none_iff :
    Sound platform start (.ok none state) ↔ Unchanged start state := by
  refine ⟨fun sound => sound.2, fun unchanged => ⟨⟨?_, ?_⟩, unchanged⟩⟩
  · exact numbered_of_syncLog_eq unchanged.syncLog
  · exact numbered_of_syncLog_eq unchanged.syncLog

theorem sound_exception_iff :
    Sound platform start (.error .exception state) ↔ Unchanged start state :=
  sound_none_iff

end Databases

namespace FallibleCall

open Databases

variable {Name : Type} {platform : ActionPlatform Name} {failures : Failures}
  {start : Databases Name}

theorem sound_endTransaction_iff (item : ActionItem)
    (state : Databases Name) :
    Sound platform start ((do
        endTransaction failures
        return some item : FallibleCall Name (Option ActionItem)).run state) ↔
      (start.syncLog.localNumber < state.syncLog.localNumber →
        (∃ row ∈ state.actionLog.committed,
          IsLast platform state.syncLog row) ∨
        failures .end = .done ∧ failures .updateDirectory ≠ .crashed ∧
          failures .updateDirectory ≠ .rolledBack ∧
            ∃ row ∈ state.actionLog.view,
              IsLast platform state.syncLog row) := by
  rw [EStateM.run_bind, run_endTransaction]
  by_cases annotating : failures .updateDirectory = .crashed
  · simp only [annotating, if_true, sound_crash_iff, numbered_restart_iff]
    simp
  · by_cases ending : failures .end = .crashed
    · simp only [annotating, ending, if_true, if_false, sound_crash_iff,
        numbered_restart_iff, TransactionTable.committed_perform_id]
      simp
    · simp only [annotating, ending, if_false, EStateM.run_pure,
        sound_some_iff, numbered_restart_iff,
        TransactionTable.committed_perform_commit,
        TransactionTable.committed_perform_id,
        TransactionTable.view_perform_id]
      split_ifs with ended rolledBack
      · simp [rolledBack]
      · have grows : (∃ row ∈ state.actionLog.committed,
            IsLast platform state.syncLog row) →
              ∃ row ∈ state.actionLog.view,
                IsLast platform state.syncLog row := by
          rintro ⟨row, stored, last⟩
          exact ⟨row, TransactionTable.committed_subset_view stored, last⟩
        simp [ended, rolledBack, annotating, or_iff_right_of_imp grows]
      · simp [ended]

theorem isLast_of_conflict {syncLog : SyncLog Name} {new : ActionRow}
    {rows : List ActionRow} (last : IsLast platform syncLog new)
    (conflict : rows.any (fun row =>
      row.deviceName = new.deviceName ∧ row.seqNo = new.seqNo) = true) :
    ∃ row ∈ rows, IsLast platform syncLog row := by
  obtain ⟨row, stored, same⟩ := List.any_eq_true.mp conflict
  obtain ⟨device, number⟩ := of_decide_eq_true same
  refine ⟨row, stored, ?_⟩
  rw [IsLast, IsLocal, device, number]
  exact last

/-- After an insertion that does not throw, the action of the number is stored
for good if it was, or if the insertion is committed. -/
theorem sound_insertAction_iff (item : ActionItem) {new : ActionRow}
    {state : Databases Name}
    (last : start.syncLog.localNumber < state.syncLog.localNumber →
      IsLast platform state.syncLog new) :
    Sound platform start ((do
        let _ ← insertAction failures new
        endTransaction failures
        return some item : FallibleCall Name (Option ActionItem)).run state) ↔
      (start.syncLog.localNumber < state.syncLog.localNumber →
        (∃ row ∈ state.actionLog.committed,
          IsLast platform state.syncLog row) ∨
        Settles failures (state.actionLog.added = none)
          (∃ row ∈ state.actionLog.view,
            IsLast platform state.syncLog row)) := by
  rw [EStateM.run_bind, run_insertAction]
  by_cases inserting : failures .insertAction = .crashed
  · simp only [inserting, if_true, sound_crash_iff, numbered_restart_iff]
    simp [Settles, inserting]
  · simp only [inserting, if_false, sound_endTransaction_iff]
    apply imp_congr_right
    intro raised
    have conflicting := fun conflict =>
      @isLast_of_conflict _ _ _ _ state.actionLog.view (last raised) conflict
    rw [TransactionTable.exists_committed_insert (last raised) conflicting,
      TransactionTable.exists_view_insert (last raised) conflicting]
    have closed : state.actionLog.added = none →
        state.actionLog.view = state.actionLog.committed :=
      TransactionTable.view_of_closed
    by_cases opened : state.actionLog.added = none
    · rw [closed opened]
      simp only [Settles, opened]
      grind
    · simp only [Settles, opened]
      grind

theorem sound_insertOrThrow_iff (item : ActionItem) {new : ActionRow}
    {state : Databases Name}
    (last : start.syncLog.localNumber < state.syncLog.localNumber →
      IsLast platform state.syncLog new) :
    Sound platform start ((do
        match ← insertAction failures new with
        | .unprepared => throw .exception
        | _ =>
            endTransaction failures
            return some item : FallibleCall Name (Option ActionItem)).run
              state) ↔
      if failures .insertAction = .unprepared then
        Unchanged start state
      else
        start.syncLog.localNumber < state.syncLog.localNumber →
          (∃ row ∈ state.actionLog.committed,
            IsLast platform state.syncLog row) ∨
          Settles failures (state.actionLog.added = none)
            (∃ row ∈ state.actionLog.view,
              IsLast platform state.syncLog row) := by
  have inserted := @sound_insertAction_iff _ _ failures _ item _ _ last
  rw [EStateM.run_bind, run_insertAction] at inserted ⊢
  cases outcome : failures .insertAction
  case unprepared =>
    simp only [reduceCtorEq, if_true, if_false]
    exact sound_exception_iff
  all_goals
    simp only [outcome, reduceCtorEq, if_true, if_false] at inserted ⊢
    exact inserted

/-- After the first statement. -/
def begun (failures : Failures) (start : Databases Name) : Databases Name :=
  { start with
    actionLog :=
      if failures .begin = .done then start.actionLog.begin
      else start.actionLog }

theorem begun_unchanged : Unchanged start (begun failures start) where
  committed := by
    rw [begun]
    split_ifs <;> rfl
  view := by
    rw [begun]
    split_ifs <;> rfl
  syncLog := rfl

theorem added_begun :
    (begun failures start).actionLog.added = none ↔
      start.actionLog.added = none ∧ failures .begin ≠ .done := by
  rw [begun]
  split_ifs with opened
  · simp [TransactionTable.begin, opened]
  · simp [opened]

/-- The log of states after the statements on the number. -/
def numberedLog (failures : Failures) (syncLog : SyncLog Name)
    (node : SyncNode) : SyncLog Name :=
  if failures .updateSeqNo = .done then
    syncLog.updateLocalSeqNo (node.seqNo + 1)
  else
    syncLog

theorem run_getNextLocalSeqNo_of_localRow {state : Databases Name}
    {node : SyncNode} (found : state.syncLog.localRow = some node)
    (selected : failures .selectSeqNo = .done)
    (alive : failures .updateSeqNo ≠ .crashed)
    (prepared : failures .updateSeqNo ≠ .unprepared) :
    (getNextLocalSeqNo failures).run state =
      .ok (node.seqNo + 1) { state with
        syncLog := numberedLog failures state.syncLog node } := by
  rw [run_getNextLocalSeqNo, SyncLog.getNextLocalSeqNo_eq, found]
  simp only [selected, alive, prepared, Option.map_some, numberedLog,
    reduceCtorEq, ne_eq, not_true_eq_false, if_false]

theorem numberedLog_cases {syncLog : SyncLog Name} {node : SyncNode}
    (found : syncLog.localRow = some node) :
    (failures .updateSeqNo = .done ∧ node.seqNo < node.seqNo + 1) ∧
        syncLog.localNumber <
          (numberedLog failures syncLog node).localNumber ∧
        (∀ row, IsLast platform (numberedLog failures syncLog node) row ↔
          IsLocal platform syncLog.localName row ∧
            row.seqNo = node.seqNo + 1) ∨
      ¬ (failures .updateSeqNo = .done ∧ node.seqNo < node.seqNo + 1) ∧
        numberedLog failures syncLog node = syncLog := by
  by_cases updated : failures .updateSeqNo = .done
  · by_cases next : node.seqNo < node.seqNo + 1
    · refine .inl ⟨⟨updated, next⟩, ?_⟩
      have number : (numberedLog failures syncLog node).localNumber =
          ((node.seqNo + 1 : Int64) : WithBot Int64) := by
        rw [numberedLog, if_pos updated,
          SyncLog.localNumber_updateLocalSeqNo found, max_eq_right next.le]
      constructor
      · rw [number, SyncLog.localNumber, found]
        exact WithBot.coe_lt_coe.mpr next
      · intro row
        rw [IsLast, number, WithBot.coe_inj, numberedLog, if_pos updated]
        rfl
    · refine .inr ⟨fun raised => next raised.2, ?_⟩
      rw [numberedLog, if_pos updated,
        SyncLog.updateLocalSeqNo_of_overflow next]
  · exact .inr ⟨fun raised => updated raised.1, if_neg updated⟩

theorem run_getNextLocalSeqNo_interrupted {state : Databases Name}
    (interrupted : ¬ (failures .selectSeqNo = .done ∧
      state.syncLog.localRow ≠ none ∧ failures .updateSeqNo ≠ .crashed ∧
        failures .updateSeqNo ≠ .unprepared)) :
    ∃ interruption, (getNextLocalSeqNo failures).run state =
      .error interruption state := by
  rw [run_getNextLocalSeqNo, SyncLog.getNextLocalSeqNo_eq]
  by_cases crashed : failures .selectSeqNo = .crashed
  · exact ⟨_, if_pos crashed⟩
  by_cases selected : failures .selectSeqNo = .done
  · rw [if_neg crashed, if_neg (not_not.mpr selected)]
    cases found : state.syncLog.localRow with
    | none => exact ⟨_, rfl⟩
    | some node =>
        by_cases lost : failures .updateSeqNo = .crashed
        · exact ⟨_, if_pos lost⟩
        · by_cases unprepared : failures .updateSeqNo = .unprepared
          · exact ⟨_, (if_neg lost).trans (if_pos unprepared)⟩
          · exact absurd ⟨selected, by simp [found], lost, unprepared⟩
              interrupted
  · exact ⟨_, (if_neg crashed).trans (if_pos selected)⟩

/-- After the first statement, the statements on the number raise it, or let the
call go on with the databases as they were, or end it. -/
theorem run_getNextLocalSeqNo_begun (beginning : failures .begin ≠ .crashed) :
    (∃ node, start.syncLog.localRow = some node ∧ Raises failures start ∧
      start.syncLog.localNumber <
        (numberedLog failures start.syncLog node).localNumber ∧
      (∀ row, IsLast platform (numberedLog failures start.syncLog node) row ↔
        IsLocal platform start.syncLog.localName row ∧
          row.seqNo = node.seqNo + 1) ∧
      (getNextLocalSeqNo failures).run (begun failures start) =
        .ok (node.seqNo + 1) ⟨(begun failures start).actionLog,
          numberedLog failures start.syncLog node⟩) ∨
    ¬ Raises failures start ∧
      ((failures .selectSeqNo = .done ∧ start.syncLog.localRow ≠ none ∧
        failures .updateSeqNo ≠ .crashed ∧
        failures .updateSeqNo ≠ .unprepared) ∧
        (∃ seqNo, (getNextLocalSeqNo failures).run (begun failures start) =
          .ok seqNo (begun failures start)) ∨
      ¬ (failures .selectSeqNo = .done ∧ start.syncLog.localRow ≠ none ∧
        failures .updateSeqNo ≠ .crashed ∧
        failures .updateSeqNo ≠ .unprepared) ∧
        ∃ interruption, (getNextLocalSeqNo failures).run
          (begun failures start) =
            .error interruption (begun failures start)) := by
  by_cases reached : failures .selectSeqNo = .done ∧
      start.syncLog.localRow ≠ none ∧ failures .updateSeqNo ≠ .crashed ∧
        failures .updateSeqNo ≠ .unprepared
  · obtain ⟨selected, known, alive, prepared⟩ := reached
    obtain ⟨node, found⟩ := Option.ne_none_iff_exists'.mp known
    have begunRow : (begun failures start).syncLog.localRow = some node := found
    have raises : Raises failures start ↔
        failures .updateSeqNo = .done ∧ node.seqNo < node.seqNo + 1 := by
      simp [Raises, beginning, selected, found]
    have ran := run_getNextLocalSeqNo_of_localRow begunRow selected alive
      prepared
    rcases @numberedLog_cases _ platform failures _ _ found with
      ⟨raised, above, last⟩ | ⟨still, same⟩
    · exact .inl ⟨node, found, raises.mpr raised, above, last, ran⟩
    · refine .inr ⟨fun raised => still (raises.mp raised), .inl
        ⟨⟨selected, known, alive, prepared⟩, node.seqNo + 1, ?_⟩⟩
      have unnumbered : numberedLog failures (begun failures start).syncLog
          node = (begun failures start).syncLog := same
      rw [ran, unnumbered]
  · refine .inr ⟨?_, .inr ⟨reached, ?_⟩⟩
    · rintro ⟨_, selected, updated, row, found, _⟩
      exact reached ⟨selected, by simp [Option.mem_def.mp found],
        by simp [updated], by simp [updated]⟩
    · exact run_getNextLocalSeqNo_interrupted reached

theorem sound_error_of_unchanged {interruption : Interruption}
    {state : Databases Name} (unchanged : Unchanged start state) :
    Sound platform start (.error interruption state) := by
  cases interruption with
  | exception => exact sound_exception_iff.mpr unchanged
  | crash =>
      apply sound_crash_iff.mpr
      exact numbered_of_syncLog_eq unchanged.syncLog

/-- The table of actions after the query for the latest action. -/
def queried (failures : Failures) (start : Databases Name) :
    TransactionTable ActionRow :=
  (begun failures start).actionLog.perform (failures .selectLatest) id

theorem committed_queried :
    (queried failures start).committed = start.actionLog.committed :=
  (TransactionTable.committed_perform_id _).trans begun_unchanged.committed

theorem view_queried :
    (queried failures start).view =
      if failures .selectLatest = .rolledBack then start.actionLog.committed
      else start.actionLog.view := by
  rw [queried, TransactionTable.view_perform_id, begun_unchanged.committed,
    begun_unchanged.view]

theorem added_queried :
    (queried failures start).added = none ↔
      start.actionLog.added = none ∧ failures .begin ≠ .done ∨
        failures .selectLatest = .rolledBack := by
  rw [← added_begun, queried]
  cases failures .selectLatest
  case rolledBack => simp [TransactionTable.perform, TransactionTable.rollback]
  all_goals simp [TransactionTable.perform]

theorem view_queried_eq_iff :
    (queried failures start).view = start.actionLog.view ↔
      ¬ (failures .selectLatest = .rolledBack ∧ Pending start) := by
  rw [view_queried, Pending]
  split_ifs with rolledBack
  · simp [rolledBack, TransactionTable.view]
  · simp [rolledBack]

theorem unchanged_queried_iff :
    Unchanged start ⟨queried failures start, start.syncLog⟩ ↔
      ¬ (failures .selectLatest = .rolledBack ∧ Pending start) := by
  rw [← view_queried_eq_iff]
  exact ⟨fun unchanged => unchanged.view,
    fun same => ⟨committed_queried, same, rfl⟩⟩

theorem Settles.congr {closed known other : Prop}
    (same : ¬ closed → (known ↔ other)) :
    Settles failures closed known ↔ Settles failures closed other := by
  rw [Settles, Settles]
  by_cases shut : closed
  · simp only [shut, not_true_eq_false, false_and]
  · rw [same shut]

theorem recorded_iff {node : SyncNode}
    (found : start.syncLog.localRow = some node)
    (alive : failures .selectLatest ≠ .crashed)
    (last : ∀ row, IsLast platform (numberedLog failures start.syncLog node)
      row ↔ IsLocal platform start.syncLog.localName row ∧
        row.seqNo = node.seqNo + 1) :
    ((∃ row ∈ (queried failures start).committed,
        IsLast platform (numberedLog failures start.syncLog node) row) ∨
      Settles failures ((queried failures start).added = none)
        (∃ row ∈ (queried failures start).view,
          IsLast platform (numberedLog failures start.syncLog node) row)) ↔
      Recorded platform failures start := by
  have next : ∀ rows, HasNext platform start rows ↔ ∃ row ∈ rows,
      IsLast platform (numberedLog failures start.syncLog node) row := by
    intro rows
    simp [HasNext, found, last]
  rw [Recorded, next, next, committed_queried, added_queried,
    and_iff_right alive]
  apply or_congr_right
  apply Settles.congr
  intro opened
  rw [view_queried, if_neg fun rolledBack => opened (.inr rolledBack)]

theorem not_unchanged_of_raised {node : SyncNode} {state : Databases Name}
    (above : start.syncLog.localNumber <
      (numberedLog failures start.syncLog node).localNumber)
    (same : state.syncLog = numberedLog failures start.syncLog node) :
    ¬ Unchanged start state := by
  intro unchanged
  rw [← same, unchanged.syncLog] at above
  exact lt_irrefl _ above

section Update

variable {choice : Nat} {actionTime wtime : Int64} {filename hash : Bytes}
  {mode segNum : Int32}

def updateNumbered (platform : ActionPlatform Name) (failures : Failures)
    (choice : Nat) (actionTime : Int64) (filename hash : Bytes)
    (wtime : Int64) (mode segNum : Int32) (localName : Name) (seqNo : Int64) :
    FallibleCall Name (Option ActionItem) := do
  let (latest, parentDeviceName, parentSeqNo) ←
    getLatestActionForFile failures filename choice
  let version := latest + 1
  let parent :=
    if 0 < parentSeqNo then
      parentDeviceName.map fun name => (name, parentSeqNo)
    else
      none
  match ← insertAction failures (ActionLog.updateRow platform localName seqNo
      filename hash version actionTime wtime mode segNum parent) with
  | .unprepared => throw .exception
  | _ =>
      endTransaction failures
      return some (ActionLog.updateItem filename hash version actionTime wtime
        mode segNum parent)

theorem addLocalActionUpdate_eq :
    addLocalActionUpdate platform failures choice actionTime filename hash
      wtime mode segNum = (do
        beginTransaction failures
        let localName := (← get).syncLog.localName
        let seqNo ← getNextLocalSeqNo failures
        updateNumbered platform failures choice actionTime filename hash wtime
          mode segNum localName seqNo) := rfl

theorem sound_updateNumbered_of_raised {node : SyncNode}
    (found : start.syncLog.localRow = some node)
    (above : start.syncLog.localNumber <
      (numberedLog failures start.syncLog node).localNumber)
    (last : ∀ row, IsLast platform (numberedLog failures start.syncLog node)
      row ↔ IsLocal platform start.syncLog.localName row ∧
        row.seqNo = node.seqNo + 1) :
    Sound platform start ((updateNumbered platform failures choice actionTime
        filename hash wtime mode segNum start.syncLog.localName
        (node.seqNo + 1)).run ⟨(begun failures start).actionLog,
          numberedLog failures start.syncLog node⟩) ↔
      failures .selectLatest ≠ .unprepared ∧
        (failures .selectLatest ≠ .crashed →
          failures .insertAction ≠ .unprepared) ∧
        Recorded platform failures start := by
  rw [updateNumbered, EStateM.run_bind, run_getLatestActionForFile]
  by_cases crashed : failures .selectLatest = .crashed
  · have recorded : Recorded platform failures start ↔
        ∃ row ∈ start.actionLog.committed, IsLast platform
          (numberedLog failures start.syncLog node) row := by
      simp [Recorded, crashed, HasNext, found, last]
    simp only [if_pos crashed, sound_crash_iff, numbered_restart_iff, recorded,
      begun_unchanged.committed]
    simp [above, crashed]
  · by_cases unprepared : failures .selectLatest = .unprepared
    · simp only [if_neg crashed, if_pos unprepared, sound_exception_iff]
      apply iff_of_false
      · exact not_unchanged_of_raised above rfl
      · exact fun kept => kept.1 unprepared
    · simp only [if_neg crashed, if_neg unprepared]
      refine (sound_insertOrThrow_iff _ ?_).trans ?_
      · exact fun _ => (last _).mpr ⟨.inl rfl, rfl⟩
      · have recorded := recorded_iff found crashed last
        by_cases inserting : failures .insertAction = .unprepared
        · rw [if_pos inserting]
          apply iff_of_false
          · exact not_unchanged_of_raised above rfl
          · exact fun kept => kept.2.1 crashed inserting
        · rw [if_neg inserting]
          constructor
          · intro stored
            exact ⟨unprepared, fun _ => inserting, recorded.mp (stored above)⟩
          · exact fun kept _ => recorded.mpr kept.2.2

theorem sound_updateNumbered_of_unraised {seqNo : Int64} :
    Sound platform start ((updateNumbered platform failures choice actionTime
        filename hash wtime mode segNum start.syncLog.localName seqNo).run
          (begun failures start)) ↔
      ¬ (failures .selectLatest = .rolledBack ∧
        failures .insertAction = .unprepared ∧ Pending start) := by
  rw [updateNumbered, EStateM.run_bind, run_getLatestActionForFile]
  by_cases crashed : failures .selectLatest = .crashed
  · simp only [if_pos crashed]
    apply iff_of_true
    · exact sound_error_of_unchanged begun_unchanged
    · simp [crashed]
  · by_cases unprepared : failures .selectLatest = .unprepared
    · simp only [if_neg crashed, if_pos unprepared]
      apply iff_of_true
      · exact sound_error_of_unchanged begun_unchanged
      · simp [unprepared]
    · simp only [if_neg crashed, if_neg unprepared]
      refine (sound_insertOrThrow_iff _ ?_).trans ?_
      · exact fun above => absurd above (lt_irrefl _)
      · by_cases inserting : failures .insertAction = .unprepared
        · rw [if_pos inserting, and_iff_right inserting]
          exact unchanged_queried_iff
        · rw [if_neg inserting]
          apply iff_of_true
          · exact fun above => absurd above (lt_irrefl _)
          · exact fun rolledBack => inserting rolledBack.2.1

theorem sound_addLocalActionUpdate_iff :
    Sound platform start ((addLocalActionUpdate platform failures choice
        actionTime filename hash wtime mode segNum).run start) ↔
      UpdateKept platform failures start := by
  rw [addLocalActionUpdate_eq, EStateM.run_bind, run_beginTransaction]
  by_cases beginning : failures .begin = .crashed
  · rw [if_pos beginning]
    apply iff_of_true
    · exact sound_error_of_unchanged ⟨rfl, rfl, rfl⟩
    · simp [UpdateKept, Raises, beginning]
  rw [if_neg beginning]
  change Sound platform start (EStateM.run _ (begun failures start)) ↔ _
  rw [EStateM.run_bind, EStateM.run_get]
  dsimp only
  rw [EStateM.run_bind]
  rcases @run_getNextLocalSeqNo_begun _ platform _ start beginning with
    ⟨node, found, raised, above, last, ran⟩ | ⟨still, going | ended⟩
  · rw [ran]
    refine (sound_updateNumbered_of_raised found above last).trans ?_
    constructor
    · intro kept
      refine ⟨fun _ => kept, ?_⟩
      rintro ⟨_, _, _, _, _, rolledBack, unprepared, _⟩
      exact kept.2.1 (by simp [rolledBack]) unprepared
    · exact fun kept => kept.1 raised
  · obtain ⟨⟨selected, known, alive, prepared⟩, seqNo, ran⟩ := going
    rw [ran]
    refine sound_updateNumbered_of_unraised.trans ?_
    simp [UpdateKept, still, beginning, selected, known, alive, prepared]
  · obtain ⟨unreached, interruption, ran⟩ := ended
    rw [ran]
    apply iff_of_true
    · exact sound_error_of_unchanged begun_unchanged
    · refine ⟨fun raised => absurd raised still, ?_⟩
      rintro ⟨_, selected, known, alive, prepared, _⟩
      exact unreached ⟨selected, known, alive, prepared⟩

end Update

section Delete

variable {choice : Nat} {actionTime : Int64} {memory : Nat → UInt8}
  {filename : Bytes}

theorem sound_nothing_iff :
    Sound platform start ((do
        let _ ← runStatement failures .end TransactionTable.commit
        return none : FallibleCall Name (Option ActionItem)).run
          ⟨queried failures start, start.syncLog⟩) ↔
      failures .end = .crashed ∨ ¬ Pending start ∨
        failures .selectLatest ≠ .rolledBack ∧ failures .end ≠ .done ∧
          failures .end ≠ .rolledBack := by
  rw [EStateM.run_bind, run_runStatement]
  have pending : start.actionLog.view = start.actionLog.committed ↔
      ¬ Pending start := by
    simp [Pending, TransactionTable.view]
  by_cases crashed : failures .end = .crashed
  · simp only [if_pos crashed]
    apply iff_of_true
    · apply sound_crash_iff.mpr
      exact numbered_of_syncLog_eq rfl
    · exact .inl crashed
  · simp only [if_neg crashed, EStateM.run_pure, sound_none_iff]
    have unchanged : Unchanged start ⟨(queried failures start).perform
        (failures .end) TransactionTable.commit, start.syncLog⟩ ↔
          ((queried failures start).perform (failures .end)
              TransactionTable.commit).committed =
            start.actionLog.committed ∧
          ((queried failures start).perform (failures .end)
              TransactionTable.commit).view = start.actionLog.view :=
      ⟨fun same => ⟨same.committed, same.view⟩,
        fun same => ⟨same.1, same.2, rfl⟩⟩
    rw [unchanged, ← pending]
    cases ending : failures .end
    case crashed => exact absurd ending crashed
    case done =>
      simp only [TransactionTable.perform, TransactionTable.committed_commit,
        TransactionTable.view_commit, view_queried]
      split_ifs <;> simp [eq_comm]
    case rolledBack =>
      simp [TransactionTable.perform, committed_queried, eq_comm]
    all_goals
      simp only [TransactionTable.perform, committed_queried, view_queried]
      split_ifs with rolledBack <;> simp [rolledBack, eq_comm]

/-- A deletion of an action that it has found. -/
def deleteFound (platform : ActionPlatform Name) (failures : Failures)
    (actionTime : Int64) (memory : Nat → UInt8) (filename : Bytes)
    (localName : Name) (latest : Int64) (parentDeviceName : Bytes)
    (parentSeqNo : Int64) : FallibleCall Name (Option ActionItem) := do
  let version := latest + 1
  let seqNo ← getNextLocalSeqNo failures
  let _ ← insertAction failures (ActionLog.deleteRow platform localName seqNo
    memory filename version actionTime parentDeviceName parentSeqNo)
  endTransaction failures
  return some (ActionLog.deleteItem filename version actionTime
    parentDeviceName parentSeqNo)

theorem addLocalActionDelete_eq :
    addLocalActionDelete platform failures choice actionTime memory
      filename = (do
        beginTransaction failures
        let localName := (← get).syncLog.localName
        match ← getLatestActionForFile failures filename choice with
        | (_, none, _) =>
            let _ ← runStatement failures .end TransactionTable.commit
            return none
        | (latest, some parentDeviceName, parentSeqNo) =>
            deleteFound platform failures actionTime memory filename localName
              latest parentDeviceName parentSeqNo) := rfl

theorem sound_deleteFound_iff {latest parentSeqNo : Int64}
    {parentDeviceName : Bytes} (beginning : failures .begin ≠ .crashed)
    (queriedLatest : failures .selectLatest = .done) :
    Sound platform start ((deleteFound platform failures actionTime memory
        filename start.syncLog.localName latest parentDeviceName
        parentSeqNo).run (begun failures start)) ↔
      (Raises failures start → Recorded platform failures start) := by
  rw [deleteFound, EStateM.run_bind]
  rcases @run_getNextLocalSeqNo_begun _ platform _ start beginning with
    ⟨node, found, raised, above, last, ran⟩ | ⟨still, ⟨_, seqNo, ran⟩ |
      ⟨_, interruption, ran⟩⟩
  · have table : queried failures start = (begun failures start).actionLog := by
      rw [queried, queriedLatest]
      rfl
    rw [ran]
    refine (sound_insertAction_iff _ ?_).trans ?_
    · exact fun _ => (last _).mpr ⟨.inr rfl, rfl⟩
    · have recorded := recorded_iff found (by simp [queriedLatest]) last
      rw [table] at recorded
      exact ⟨fun stored _ => recorded.mp (stored above),
        fun kept _ => recorded.mpr (kept raised)⟩
  · rw [ran]
    apply iff_of_true
    · apply (sound_insertAction_iff _ _).mpr
      all_goals exact fun above => absurd above (lt_irrefl _)
    · exact fun raised => absurd raised still
  · rw [ran]
    apply iff_of_true
    · exact sound_error_of_unchanged begun_unchanged
    · exact fun raised => absurd raised still

theorem sound_addLocalActionDelete_iff :
    Sound platform start ((addLocalActionDelete platform failures choice
        actionTime memory filename).run start) ↔
      DeleteKept platform failures start filename choice := by
  rw [addLocalActionDelete_eq, EStateM.run_bind, run_beginTransaction]
  by_cases beginning : failures .begin = .crashed
  · rw [if_pos beginning]
    apply iff_of_true
    · exact sound_error_of_unchanged ⟨rfl, rfl, rfl⟩
    · exact fun alive => absurd beginning alive
  rw [if_neg beginning]
  change Sound platform start (EStateM.run _ (begun failures start)) ↔ _
  rw [EStateM.run_bind, EStateM.run_get]
  dsimp only
  rw [EStateM.run_bind, run_getLatestActionForFile]
  by_cases crashed : failures .selectLatest = .crashed
  · simp only [if_pos crashed]
    apply iff_of_true
    · exact sound_error_of_unchanged begun_unchanged
    · exact fun _ alive => absurd crashed alive
  by_cases unprepared : failures .selectLatest = .unprepared
  · simp only [if_neg crashed, if_pos unprepared]
    apply iff_of_true
    · exact sound_error_of_unchanged begun_unchanged
    · exact fun _ _ prepared => absurd unprepared prepared
  simp only [if_neg crashed, if_neg unprepared]
  have kept : DeleteKept platform failures start filename choice ↔
      if failures .selectLatest = .done ∧
          (ActionLog.getLatestActionForFile start.actionLog.view filename
            choice).2.1 ≠ none then
        Raises failures start → Recorded platform failures start
      else
        failures .end = .crashed ∨ ¬ Pending start ∨
          failures .selectLatest ≠ .rolledBack ∧ failures .end ≠ .done ∧
            failures .end ≠ .rolledBack := by
    simp only [DeleteKept, ne_eq, beginning, crashed, unprepared,
      not_false_eq_true, true_imp_iff]
  rw [kept, begun_unchanged.view]
  by_cases done : failures .selectLatest = .done
  · rw [if_pos done]
    rcases ActionLog.getLatestActionForFile start.actionLog.view filename
      choice with ⟨latest, _ | parentDeviceName, parentSeqNo⟩
    · rw [if_neg (by simp)]
      exact sound_nothing_iff
    · rw [if_pos ⟨done, by simp⟩, done]
      exact sound_deleteFound_iff beginning done
  · rw [if_neg done, if_neg fun both => done both.1]
    exact sound_nothing_iff

end Delete

/-- The databases of a log without an open transaction. -/
def databases (log : ActionLog Name) : Databases Name :=
  ⟨⟨log.actions, none⟩, log.syncLog⟩

/-- The databases of a log whose transaction has added nothing yet. -/
def inTransaction (log : ActionLog Name) : Databases Name :=
  ⟨⟨log.actions, some []⟩, log.syncLog⟩

theorem view_inTransaction (log : ActionLog Name) :
    (inTransaction log).actionLog.view = log.actions :=
  List.append_nil _

theorem run_insertAction_done (log : ActionLog Name) (new : ActionRow) :
    (insertAction (fun _ => .done) new).run (inTransaction log) =
      .ok .done ⟨(inTransaction log).actionLog.insert new
        (log.actions.any fun row =>
          row.deviceName = new.deviceName ∧ row.seqNo = new.seqNo),
        log.syncLog⟩ := by
  rw [run_insertAction, if_neg (by decide), view_inTransaction]
  rfl

theorem run_endTransaction_done (log : ActionLog Name) (new : ActionRow) :
    (endTransaction (fun _ => .done)).run
        ⟨(inTransaction log).actionLog.insert new (log.actions.any fun row =>
          row.deviceName = new.deviceName ∧ row.seqNo = new.seqNo),
          log.syncLog⟩ =
      .ok () (databases (log.insertAction new)) := by
  rw [run_endTransaction, if_neg (by decide), if_neg (by decide)]
  rw [databases, ActionLog.insertAction, TransactionTable.insert]
  split_ifs
  · simp [TransactionTable.perform, TransactionTable.commit,
      TransactionTable.view, inTransaction]
  · simp [TransactionTable.perform, TransactionTable.commit,
      TransactionTable.view, inTransaction]

theorem run_addLocalActionUpdate_done {log : ActionLog Name} {choice : Nat}
    {actionTime wtime : Int64} {filename hash : Bytes} {mode segNum : Int32} :
    (addLocalActionUpdate platform (fun _ => .done) choice actionTime filename
        hash wtime mode segNum).run (databases log) =
      match log.addLocalActionUpdate platform choice actionTime filename hash
          wtime mode segNum with
      | none => .error .exception (inTransaction log)
      | some (item, after) => .ok (some item) (databases after) := by
  rw [addLocalActionUpdate_eq, EStateM.run_bind, run_beginTransaction,
    if_neg (by decide)]
  change EStateM.run _ (inTransaction log) = _
  rw [EStateM.run_bind, EStateM.run_get]
  dsimp only
  rw [EStateM.run_bind, run_getNextLocalSeqNo, if_neg (by decide),
    if_neg (by decide)]
  have numbers : (inTransaction log).syncLog = log.syncLog := rfl
  rw [numbers, ActionLog.addLocalActionUpdate]
  cases log.syncLog.getNextLocalSeqNo with
  | none => rfl
  | some next =>
      obtain ⟨seqNo, syncLog⟩ := next
      dsimp only
      rw [if_neg (by decide), if_neg (by decide), if_pos rfl]
      change EStateM.run _ (inTransaction { log with syncLog := syncLog }) = _
      rw [updateNumbered, EStateM.run_bind, run_getLatestActionForFile,
        if_neg (by decide), if_neg (by decide), if_pos rfl]
      change EStateM.run _ (inTransaction { log with syncLog := syncLog }) = _
      rw [view_inTransaction, EStateM.run_bind, run_insertAction_done]
      dsimp only
      rw [EStateM.run_bind, run_endTransaction_done]
      rfl

theorem run_addLocalActionDelete_done {log : ActionLog Name} {choice : Nat}
    {actionTime : Int64} {memory : Nat → UInt8} {filename : Bytes} :
    (addLocalActionDelete platform (fun _ => .done) choice actionTime memory
        filename).run (databases log) =
      match log.addLocalActionDelete platform choice actionTime memory
          filename with
      | none => .error .exception (inTransaction log)
      | some (item, after) => .ok item (databases after) := by
  rw [addLocalActionDelete_eq, EStateM.run_bind, run_beginTransaction,
    if_neg (by decide)]
  change EStateM.run _ (inTransaction log) = _
  rw [EStateM.run_bind, EStateM.run_get]
  dsimp only
  rw [EStateM.run_bind, run_getLatestActionForFile, if_neg (by decide),
    if_neg (by decide), if_pos rfl, view_inTransaction,
    ActionLog.addLocalActionDelete]
  dsimp only
  rcases ActionLog.getLatestActionForFile log.actions filename choice with
    ⟨latest, _ | parentDeviceName, parentSeqNo⟩
  · dsimp only
    rw [EStateM.run_bind, run_runStatement, if_neg (by decide)]
    simp [TransactionTable.perform, TransactionTable.commit,
      TransactionTable.view, inTransaction, databases]
  · change EStateM.run _ (inTransaction log) = _
    dsimp only
    have numbers : (inTransaction log).syncLog = log.syncLog := rfl
    rw [deleteFound, EStateM.run_bind, run_getNextLocalSeqNo,
      if_neg (by decide), if_neg (by decide), numbers]
    cases log.syncLog.getNextLocalSeqNo with
    | none => rfl
    | some next =>
        obtain ⟨seqNo, syncLog⟩ := next
        dsimp only
        rw [if_neg (by decide), if_neg (by decide), if_pos rfl]
        change EStateM.run _ (inTransaction { log with syncLog := syncLog }) = _
        rw [EStateM.run_bind, run_insertAction_done]
        dsimp only
        rw [EStateM.run_bind, run_endTransaction_done]
        rfl

/-- A call leaves what it should exactly if a number that it raises gets its
action for good and, where it throws or returns nothing, neither the number nor
the rows of an open transaction have been touched. -/
theorem sound_iff_kept (call : LocalCall) (choice : Nat) (actionTime : Int64)
    (start : Databases Name) :
    Sound platform start
        ((add platform failures choice actionTime call).run start) ↔
      Kept platform failures start choice call := by
  cases call with
  | update filename hash wtime mode segNum =>
      exact sound_addLocalActionUpdate_iff
  | delete memory filename => exact sound_addLocalActionDelete_iff

end FallibleCall

namespace FallibleCall

/-- The database is full: the insertion of the action fails, and its number is
taken. -/
theorem number_without_action :
    ¬ ∀ (start : Databases Name) (failures : Failures) (call : LocalCall)
        (choice : Nat) (actionTime : Int64),
      Databases.Sound (plainActionPlatform Name.uriOps) start
        ((add (plainActionPlatform Name.uriOps) failures choice actionTime
          call).run start) := by
  intro sound
  let failures : Failures := fun statement =>
    if statement = .insertAction then .failed else .done
  let start : Databases Name :=
    databases (ActionLog.opened (SyncLog.opened Name.uriOps Name.alex))
  have kept : UpdateKept (plainActionPlatform Name.uriOps) failures start :=
    sound_addLocalActionUpdate_iff.mp
      (sound start failures (.update [0x66] [1] 7 420 1) 0 7)
  have raised : Raises failures start := by
    refine ⟨by decide, rfl, rfl, _, rfl, ?_⟩
    decide
  rcases (kept.1 raised).2.2 with ⟨row, stored, _⟩ |
    ⟨_, _, ⟨_, inserted⟩ | ⟨_, _, _, _, inserted | ⟨_, row, stored, _⟩⟩⟩
  · exact List.not_mem_nil stored
  · exact absurd inserted (by decide)
  · exact absurd inserted (by decide)
  · exact List.not_mem_nil stored

end FallibleCall

end ChronoShare
