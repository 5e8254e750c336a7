import ChronoShare.ActionLog.Completeness
import ChronoShare.Dispatcher.Store

/-!
# What the insertion of an action leaves

An action that is inserted and fires the trigger leaves a row in the table of
files, or a job that removes the file.
-/

namespace ChronoShare

namespace ActionLog

variable {Name : Type}

/-- The action is inserted, and the trigger applies it. -/
def Fires (log : ActionLog Name) (new : ActionRow) : Prop :=
  ¬ Recorded log.actions new ∧ triggered (log.actions ++ [new]) new = true

instance (log : ActionLog Name) (new : ActionRow) : Decidable (Fires log new) :=
  inferInstanceAs (Decidable (¬ (∃ row ∈ log.actions, _) ∧ _))

theorem fileState_insertAction (log : ActionLog Name) (new : ActionRow) :
    (log.insertAction new).fileState =
      if Fires log new then applyAction log.fileState new
      else log.fileState := by
  by_cases recorded : Recorded log.actions new
  · rw [insertAction_of_recorded recorded, if_neg fun fires => fires.1 recorded]
  · rw [insertAction_of_not_recorded recorded]
    simp [Fires, recorded]

/-- A row after an action is the row before it, or the row that the update
leaves. -/
theorem mem_applyAction {files : List FileRow} {new : ActionRow}
    {row : FileRow} (member : row ∈ applyAction files new) :
    row ∈ files ∨ new.action = .update ∧
      row.filename = cString new.filename ∧
        row.fileHash = new.fileHash.getD [] := by
  rw [applyAction] at member
  split at member
  case h_1 isUpdate =>
    by_cases known : ∃ old ∈ files,
        old.filename = cString (cString new.filename)
    · rw [FileState.updateFile_of_known known] at member
      obtain ⟨old, stored, rfl⟩ := List.mem_map.mp member
      split_ifs
      · exact .inr ⟨isUpdate, MarkedLog.cString_cString _, rfl⟩
      · exact .inl stored
    · rw [FileState.updateFile_of_unknown (by simpa using known)] at member
      rcases List.mem_append.mp member with stored | inserted
      · exact .inl stored
      · rw [List.mem_singleton.mp inserted]
        exact .inr ⟨isUpdate, MarkedLog.cString_cString _, rfl⟩
  case h_2 => exact .inl (List.mem_filter.mp member).1

theorem mem_insertAction_fileState {log : ActionLog Name} {new : ActionRow}
    {row : FileRow} (member : row ∈ (log.insertAction new).fileState) :
    row ∈ log.fileState ∨ Fires log new ∧ new.action = .update ∧
      row.filename = cString new.filename ∧
        row.fileHash = new.fileHash.getD [] := by
  rw [fileState_insertAction] at member
  split_ifs at member with fires
  · rcases mem_applyAction member with stored | applied
    · exact .inl stored
    · exact .inr ⟨fires, applied⟩
  · exact .inl member

end ActionLog

@[simp] theorem DispatcherPlatform.pathOf_cString {Name : Type}
    (platform : DispatcherPlatform Name) (filename : Bytes) :
    platform.pathOf (cString filename) = platform.pathOf filename := by
  rw [pathOf, pathOf, MarkedLog.cString_cString]

namespace FileState

/-- The name of a file is its key, and a C string. -/
structure WellNamed (files : List FileRow) : Prop where
  unique : (files.map (·.filename)).Nodup
  plain : ∀ row ∈ files, cString row.filename = row.filename

theorem mem_setFileComplete {files : List FileRow} {filename : Bytes}
    {row : FileRow} (member : row ∈ setFileComplete files filename) :
    row.filename = cString filename ∧ (∃ old ∈ files,
        old.filename = row.filename ∧ old.fileHash = row.fileHash) ∨
      row.filename ≠ cString filename ∧ row ∈ files := by
  obtain ⟨old, stored, rfl⟩ := List.mem_map.mp member
  split_ifs with same
  · exact .inl ⟨same, old, stored, rfl, rfl⟩
  · exact .inr ⟨same, stored⟩

variable {files : List FileRow}

theorem WellNamed.eq (named : WellNamed files) {left right : FileRow}
    (leftIn : left ∈ files) (rightIn : right ∈ files)
    (same : left.filename = right.filename) : left = right :=
  List.inj_on_of_nodup_map named.unique leftIn rightIn same

end FileState

namespace Dispatcher

variable {Name : Type}

@[simp] theorem removals_self (log : ActionLog Name) :
    removals log log = [] := by
  simp [removals]

theorem eq_of_mem_removals {before after : ActionLog Name}
    {job : DispatcherJob Name} (member : job ∈ removals before after) :
    ∃ filename, job = .actionApplyDelete filename := by
  obtain ⟨new, -, among⟩ := List.mem_flatMap.mp member
  split_ifs at among
  · exact ⟨_, List.mem_singleton.mp among⟩
  · cases among

theorem mem_removals_insertAction {log : ActionLog Name} {new : ActionRow}
    {job : DispatcherJob Name}
    (member : job ∈ removals log (log.insertAction new)) :
    ActionLog.Fires log new ∧ new.action = .delete ∧
      job = .actionApplyDelete (cString new.filename) := by
  by_cases recorded : ActionLog.Recorded log.actions new
  · rw [ActionLog.insertAction_of_recorded recorded, removals_self] at member
    exact absurd member List.not_mem_nil
  · rw [ActionLog.insertAction_of_not_recorded recorded, removals] at member
    simp only [List.drop_left, List.flatMap_singleton] at member
    split_ifs at member with applied
    · exact ⟨⟨recorded, applied.2⟩, applied.1, List.mem_singleton.mp member⟩
    · exact absurd member List.not_mem_nil

variable {platform : DispatcherPlatform Name} {source target : Dispatcher Name}
  {surroundings : Surroundings} {relativeFilePath : Bytes}

def publishedRow (platform : DispatcherPlatform Name)
    (source : Dispatcher Name) (surroundings : Surroundings)
    (relativeFilePath : Bytes) (node : FileNode) (seqNo : Int64)
    (segNum : Nat) (parent : Option (Bytes × Int64)) : ActionRow :=
  ActionLog.updateRow platform.toActionPlatform source.log.syncLog.localName
    seqNo relativeFilePath (platform.sha256 node.bytes)
    ((ActionLog.getLatestActionForFile source.log.actions relativeFilePath
      surroundings.choice).1 + 1)
    surroundings.now node.mtime node.mode.toInt32 (Int32.ofNat segNum) parent

theorem didLocalFileAddOrModify_cases
    (ran : didLocalFileAddOrModify platform source surroundings
      relativeFilePath = some target) :
    target = source ∧ (∀ node,
      source.disk.lookup (platform.placeOf relativeFilePath) = some node →
        passedOver platform source relativeFilePath node = true) ∨
    ∃ node seqNo syncLog segNum parent tables,
      source.disk.lookup (platform.placeOf relativeFilePath) = some node ∧
        passedOver platform source relativeFilePath node = false ∧
        source.log.syncLog.getNextLocalSeqNo = some (seqNo, syncLog) ∧
        let inserted := { source.log with syncLog := syncLog }.insertAction
          (publishedRow platform source surroundings relativeFilePath node
            seqNo segNum parent)
        target = { source with
          log := { inserted with
            fileState := FileState.setFileComplete inserted.fileState
              relativeFilePath }
          tables := tables } := by
  rw [didLocalFileAddOrModify] at ran
  split at ran
  case h_1 absent =>
    exact .inl ⟨(Option.some.inj ran).symm, by simp [absent]⟩
  case h_2 node found =>
    split_ifs at ran with passed
    · refine .inl ⟨(Option.some.inj ran).symm, ?_⟩
      intro other same
      rwa [← Option.some.inj (found.symm.trans same)]
    · split at ran
      case h_1 => simp at ran
      case h_2 hash segNum storage stored =>
        have hashed : hash = platform.sha256 node.bytes := by
          simp only [ObjectManager.localFileToObjects, Option.map_eq_some_iff,
            Prod.mk.injEq] at stored
          obtain ⟨_, _, same, _⟩ := stored
          exact same.symm
        obtain ⟨⟨item, log⟩, added, rfl⟩ := Option.map_eq_some_iff.mp ran
        obtain ⟨seqNo, syncLog, parent, numbered, _, rfl⟩ :=
          ActionLog.addLocalActionUpdate_cases added
        subst hashed
        exact .inr ⟨node, seqNo, syncLog, segNum, parent, storage.tables,
          found, Bool.eq_false_iff.mpr passed, numbered, rfl⟩

def deletedRow (platform : DispatcherPlatform Name)
    (source : Dispatcher Name) (surroundings : Surroundings)
    (relativeFilePath : Bytes) (seqNo : Int64) (parentDeviceName : Bytes)
    (parentSeqNo : Int64) : ActionRow :=
  ActionLog.deleteRow platform.toActionPlatform source.log.syncLog.localName
    seqNo surroundings.message relativeFilePath
    ((ActionLog.getLatestActionForFile source.log.actions relativeFilePath
      surroundings.choice).1 + 1)
    surroundings.now parentDeviceName parentSeqNo

theorem didLocalFileDelete_cases
    (ran : didLocalFileDelete platform source surroundings relativeFilePath =
      some target) :
    target = source ∧
      ((source.disk.lookup (platform.placeOf relativeFilePath)).isSome ∨
        (ActionLog.getLatestActionForFile source.log.actions relativeFilePath
          surroundings.choice).2.1 = none) ∨
    ∃ seqNo syncLog parentDeviceName parentSeqNo,
      source.disk.lookup (platform.placeOf relativeFilePath) = none ∧
        source.log.syncLog.getNextLocalSeqNo = some (seqNo, syncLog) ∧
        let inserted := { source.log with syncLog := syncLog }.insertAction
          (deletedRow platform source surroundings relativeFilePath seqNo
            parentDeviceName parentSeqNo)
        target = { source with
          log := inserted
          jobs := source.jobs ++ removals source.log inserted } := by
  rw [didLocalFileDelete] at ran
  split_ifs at ran with present
  · exact .inl ⟨(Option.some.inj ran).symm, .inl present⟩
  · have absent := Option.not_isSome_iff_eq_none.mp present
    obtain ⟨⟨item, log⟩, added, rfl⟩ := Option.map_eq_some_iff.mp ran
    rcases ActionLog.addLocalActionDelete_cases added with
      ⟨noItem, rfl⟩ | ⟨seqNo, syncLog, parent, parentSeqNo, numbered, _, rfl⟩
    · refine .inl ⟨by simp, .inr ?_⟩
      rcases latest : ActionLog.getLatestActionForFile source.log.actions
          relativeFilePath surroundings.choice with
        ⟨version, _ | parent, parentSeqNo⟩
      · rfl
      · rw [ActionLog.addLocalActionDelete, latest] at added
        dsimp only at added
        split at added
        · simp at added
        · simp [noItem] at added
    · exact .inr ⟨seqNo, syncLog, parent, parentSeqNo, absent, numbered, rfl⟩

end Dispatcher

end ChronoShare
