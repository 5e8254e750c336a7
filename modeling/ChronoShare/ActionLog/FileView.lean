import ChronoShare.ActionLog.MessageFormat
import ChronoShare.Support.LastWriter
import ChronoShare.Support.Run
import Mathlib.Data.List.TakeWhile

/-!
# The file table shows the latest actions

Every call inserts at most one action, so an invariant of the two tables needs
one lemma about the insertion.  Per file the table of files is a
last-writer-wins register over the actions on that file, stamped with the
version and the stored device name.
-/

namespace ChronoShare

/-- A call on the log with what it reads from its surroundings; the last label
stands for a change of the shared log of states by other code. -/
inductive ActionCall (Name : Type) where
  | addLocalActionUpdate (choice : Nat) (actionTime : Int64)
      (filename hash : Bytes) (wtime : Int64) (mode segNum : Int32)
  | addLocalActionDelete (choice : Nat) (actionTime : Int64)
      (memory : Nat → UInt8) (filename : Bytes)
  | addRemoteAction (deviceName : Name) (seqNo : Int64)
      (actionPco : Option (Data Name))
  | syncLogChanged (syncLog : SyncLog Name)

/-- The columns of a row that come from the action it shows. -/
def FileRow.shared (row : FileRow) : FileRow :=
  { row with isComplete := false }

namespace FileState

/-- The row of a file, without the local mark of completeness. -/
def view (files : List FileRow) (filename : Bytes) : Option FileRow :=
  (files.find? fun row => row.filename = filename).map FileRow.shared

theorem view_map {rewrite : FileRow → FileRow}
    (keeps : ∀ row, (rewrite row).filename = row.filename)
    (files : List FileRow) (filename : Bytes) :
    view (files.map rewrite) filename =
      (files.find? fun row => row.filename = filename).map
        fun row => (rewrite row).shared := by
  simp [view, List.find?_map, Function.comp_def, keeps]

theorem view_setFileComplete (files : List FileRow) (filename other : Bytes) :
    view (setFileComplete files filename) other = view files other := by
  have keeps : ∀ row : FileRow,
      (if row.filename = cString filename then
        { row with isComplete := true } else row).filename = row.filename := by
    intro row
    split_ifs <;> rfl
  rw [setFileComplete, view_map keeps, view]
  congr 1
  funext row
  split_ifs <;> rfl

theorem names_setFileComplete (files : List FileRow) (filename : Bytes) :
    (setFileComplete files filename).map (·.filename) =
      files.map (·.filename) := by
  rw [setFileComplete, List.map_map]
  apply List.map_congr_left
  intro row _
  simp only [Function.comp_apply]
  split_ifs <;> rfl

theorem view_deleteFile (files : List FileRow) (filename other : Bytes) :
    view (deleteFile files filename) other =
      if other = cString filename then none else view files other := by
  rw [view, deleteFile, List.find?_filter]
  by_cases same : other = cString filename
  · rw [if_pos same, same]
    simp
  · rw [if_neg same, view]
    congr 2
    funext row
    by_cases named : row.filename = other
    · simp [named, same]
    · simp [named]

theorem names_deleteFile (files : List FileRow) (filename : Bytes) :
    ((deleteFile files filename).map (·.filename)).Sublist
      (files.map (·.filename)) :=
  List.filter_sublist.map _

section Update

variable {files : List FileRow} {filename hash deviceName : Bytes}
  {version seqNo mtime : Int64} {mode segNum : Int32}

theorem updateFile_of_known
    (known : ∃ row ∈ files, row.filename = cString filename) :
    updateFile files filename version hash deviceName seqNo mtime mode segNum =
      files.map fun row =>
        if row.filename = cString filename then
          ⟨cString filename, version, deviceName, seqNo, hash, datetime mtime,
            mode, segNum, row.isComplete⟩
        else
          row := by
  obtain ⟨found, member, named⟩ := known
  have present :
      (files.any fun row => row.filename = cString filename) = true :=
    List.any_eq_true.mpr ⟨found, member, by simpa using named⟩
  simp only [updateFile, present, if_true]
  apply List.map_congr_left
  intro row _
  split_ifs with same
  · rw [← same]
  · rfl

theorem updateFile_of_unknown
    (unknown : ∀ row ∈ files, row.filename ≠ cString filename) :
    updateFile files filename version hash deviceName seqNo mtime mode segNum =
      files ++ [⟨cString filename, version, deviceName, seqNo, hash,
        datetime mtime, mode, segNum, false⟩] := by
  have absent :
      (files.any fun row => row.filename = cString filename) = false := by
    simpa using unknown
  simp [updateFile, absent]

theorem view_updateFile (other : Bytes) :
    view (updateFile files filename version hash deviceName seqNo mtime mode
        segNum) other =
      if other = cString filename then
        some ⟨cString filename, version, deviceName, seqNo, hash,
          datetime mtime, mode, segNum, false⟩
      else
        view files other := by
  by_cases known : ∃ row ∈ files, row.filename = cString filename
  · rw [updateFile_of_known known, view_map (by grind)]
    by_cases same : other = cString filename
    · obtain ⟨row, member, named⟩ := known
      obtain ⟨found, present⟩ : ∃ found,
          files.find? (fun row => row.filename = other) = some found := by
        apply Option.isSome_iff_exists.mp
        exact List.find?_isSome.mpr ⟨row, member, by simp [named, same]⟩
      have foundNamed : found.filename = other := by
        simpa using List.find?_some present
      rw [present, Option.map_some, if_pos (foundNamed.trans same),
        if_pos same]
      rfl
    · rw [if_neg same, view]
      cases present : files.find? fun row => row.filename = other with
      | none => rfl
      | some found =>
          have foundNamed : found.filename = other := by
            simpa using List.find?_some present
          simp [foundNamed, same]
  · have unknown : ∀ row ∈ files, row.filename ≠ cString filename :=
      fun row member named => known ⟨row, member, named⟩
    rw [updateFile_of_unknown unknown, view, List.find?_append]
    by_cases same : other = cString filename
    · have missing :
          files.find? (fun row => row.filename = cString filename) = none := by
        simpa using unknown
      simp [same, missing, FileRow.shared]
    · simp [same, Ne.symm same, view]

theorem names_updateFile_nodup (unique : (files.map (·.filename)).Nodup) :
    ((updateFile files filename version hash deviceName seqNo mtime mode
      segNum).map (·.filename)).Nodup := by
  by_cases known : ∃ row ∈ files, row.filename = cString filename
  · rw [updateFile_of_known known, List.map_map]
    convert unique using 1
    apply List.map_congr_left
    intro row _
    simp only [Function.comp_apply]
    split_ifs with same
    · exact same.symm
    · rfl
  · have unknown : ∀ row ∈ files, row.filename ≠ cString filename :=
      fun row member named => known ⟨row, member, named⟩
    rw [updateFile_of_unknown unknown, List.map_append,
      List.nodup_append]
    refine ⟨unique, by simp, ?_⟩
    intro name member other last
    obtain ⟨row, rowIn, rfl⟩ := List.mem_map.mp member
    have here : other = cString filename := by simpa using last
    rw [here]
    exact unknown row rowIn

end Update

end FileState

namespace ActionRow

/-- Actions on a file are ranked by version, then by stored device name. -/
def stamp (row : ActionRow) : Int64 ×ₗ Bytes :=
  toLex (row.version, row.deviceName)

/-- What the action leaves in the table of files. -/
def effect (row : ActionRow) : Option FileRow :=
  match row.action with
  | .update => some ⟨row.filename, row.version, row.deviceName, row.seqNo,
      row.fileHash.getD [], datetime (readTime row.fileMtime),
      row.fileChmod.getD 0, row.fileSegNum.getD 0, false⟩
  | .delete => none

/-- The columns an update fills and a deletion leaves open. -/
def Filled (row : ActionRow) : Prop :=
  row.action = .update → row.fileChmod.isSome ∧ row.fileSegNum.isSome

theorem stamp_lt_iff {left right : ActionRow} :
    left.stamp < right.stamp ↔ left.version < right.version ∨
      left.version = right.version ∧ left.deviceName < right.deviceName :=
  Prod.Lex.toLex_lt_toLex

theorem update_of_effect {row : ActionRow} {file : FileRow}
    (leaves : row.effect = some file) : row.action = .update := by
  cases kind : row.action with
  | update => rfl
  | delete => simp [effect, kind] at leaves

end ActionRow

/-- No two actions share the file, the version and the device name, updates
carry a hash, and no file name contains a NUL. -/
structure OrdinaryActions (actions : List ActionRow) : Prop where
  distinct : actions.Pairwise fun left right =>
    (left.filename, left.version, left.deviceName) ≠
      (right.filename, right.version, right.deviceName)
  hashes : ∀ row ∈ actions, row.action = .update → row.fileHash.getD [] ≠ []
  names : ∀ row ∈ actions, 0 ∉ row.filename

instance (actions : List ActionRow) : Decidable (OrdinaryActions actions) :=
  decidable_of_iff
    ((actions.Pairwise fun left right =>
      (left.filename, left.version, left.deviceName) ≠
        (right.filename, right.version, right.deviceName)) ∧
      (∀ row ∈ actions, row.action = .update → row.fileHash.getD [] ≠ []) ∧
      ∀ row ∈ actions, 0 ∉ row.filename)
    ⟨fun parts => ⟨parts.1, parts.2.1, parts.2.2⟩,
      fun ordinary => ⟨ordinary.1, ordinary.2, ordinary.3⟩⟩

theorem OrdinaryActions.init {actions : List ActionRow} {new : ActionRow}
    (ordinary : OrdinaryActions (actions ++ [new])) :
    OrdinaryActions actions where
  distinct := (List.pairwise_append.mp ordinary.distinct).1
  hashes := fun row member =>
    ordinary.hashes row (List.mem_append_left _ member)
  names := fun row member =>
    ordinary.names row (List.mem_append_left _ member)

def actionsOn (actions : List ActionRow) (filename : Bytes) :
    List ActionRow :=
  actions.filter fun row => row.filename = filename

@[simp] theorem mem_actionsOn {actions : List ActionRow} {filename : Bytes}
    {row : ActionRow} :
    row ∈ actionsOn actions filename ↔
      row ∈ actions ∧ row.filename = filename := by
  simp [actionsOn]

theorem OrdinaryActions.distinctStamps {actions : List ActionRow}
    (ordinary : OrdinaryActions actions) (filename : Bytes) :
    DistinctStamps ActionRow.stamp (actionsOn actions filename) := by
  apply (ordinary.distinct.filter _).imp_of_mem
  intro left right leftIn rightIn different same
  have leftNamed : left.filename = filename := by
    simpa using (List.mem_filter.mp leftIn).2
  have rightNamed : right.filename = filename := by
    simpa using (List.mem_filter.mp rightIn).2
  have equal : (left.version, left.deviceName) =
      (right.version, right.deviceName) := same
  apply different
  rw [leftNamed, rightNamed, equal]

/-- One row per file, and it shows the latest action on the file. -/
structure Current (actions : List ActionRow) (files : List FileRow) : Prop where
  unique : (files.map (·.filename)).Nodup
  settled : ∀ filename, Settled ActionRow.stamp ActionRow.effect
    (actionsOn actions filename) (FileState.view files filename)

theorem Current.setFileComplete {actions : List ActionRow}
    {files : List FileRow} (current : Current actions files)
    (filename : Bytes) :
    Current actions (FileState.setFileComplete files filename) := by
  refine ⟨?_, ?_⟩
  · rw [FileState.names_setFileComplete]
    exact current.unique
  · intro other
    rw [FileState.view_setFileComplete]
    exact current.settled other

theorem cString_eq {text : Bytes} (plain : 0 ∉ text) : cString text = text := by
  apply List.takeWhile_eq_self_iff.mpr
  intro byte member
  have different : byte ≠ 0 := fun zero => plain (zero ▸ member)
  simpa using different

namespace ActionLog

variable {Name : Type}

theorem view_applyAction {files : List FileRow} {row : ActionRow}
    (plain : 0 ∉ row.filename) (filename : Bytes) :
    FileState.view (applyAction files row) filename =
      if filename = row.filename then row.effect
      else FileState.view files filename := by
  cases kind : row.action with
  | update =>
      simp only [applyAction, ActionRow.effect, kind]
      rw [FileState.view_updateFile, cString_eq plain,
        cString_eq plain]
  | delete =>
      simp only [applyAction, ActionRow.effect, kind]
      rw [FileState.view_deleteFile, cString_eq plain, cString_eq plain]

theorem names_applyAction_nodup {files : List FileRow}
    (unique : (files.map (·.filename)).Nodup) (row : ActionRow) :
    ((applyAction files row).map (·.filename)).Nodup := by
  cases kind : row.action with
  | update =>
      simp only [applyAction, kind]
      exact FileState.names_updateFile_nodup unique
  | delete =>
      simp only [applyAction, kind]
      exact (FileState.names_deleteFile files _).nodup unique

theorem triggered_iff {actions : List ActionRow} {new : ActionRow} :
    triggered (actions ++ [new]) new = true ↔
      ∀ row ∈ actionsOn actions new.filename, row.stamp ≤ new.stamp := by
  simp only [triggered, ← not_lt, ActionRow.stamp_lt_iff, mem_actionsOn]
  grind

/-- The device and the number of the action have a row already. -/
def Recorded (actions : List ActionRow) (new : ActionRow) : Prop :=
  ∃ row ∈ actions, row.deviceName = new.deviceName ∧ row.seqNo = new.seqNo

theorem insertAction_of_recorded {log : ActionLog Name} {new : ActionRow}
    (recorded : Recorded log.actions new) : log.insertAction new = log := by
  have present : (log.actions.any fun row =>
      row.deviceName = new.deviceName ∧ row.seqNo = new.seqNo) = true := by
    simpa [Recorded] using recorded
  rw [insertAction, if_pos present]

theorem insertAction_of_not_recorded {log : ActionLog Name} {new : ActionRow}
    (absent : ¬ Recorded log.actions new) :
    log.insertAction new =
      ⟨log.actions ++ [new],
        if triggered (log.actions ++ [new]) new then
          applyAction log.fileState new
        else
          log.fileState,
        log.syncLog⟩ := by
  have missing : ¬ (log.actions.any fun row =>
      row.deviceName = new.deviceName ∧ row.seqNo = new.seqNo) = true := by
    simpa [Recorded] using absent
  rw [insertAction, if_neg missing]

@[simp] theorem insertAction_syncLog (log : ActionLog Name)
    (new : ActionRow) : (log.insertAction new).syncLog = log.syncLog := by
  by_cases recorded : Recorded log.actions new
  · rw [insertAction_of_recorded recorded]
  · rw [insertAction_of_not_recorded recorded]

theorem mem_insertAction {log : ActionLog Name} {new row : ActionRow}
    (member : row ∈ (log.insertAction new).actions) :
    row ∈ log.actions ∨ row = new := by
  by_cases recorded : Recorded log.actions new
  · rw [insertAction_of_recorded recorded] at member
    exact .inl member
  · rw [insertAction_of_not_recorded recorded] at member
    simpa using member

theorem ordinary_of_insertAction {log : ActionLog Name} {new : ActionRow}
    (ordinary : OrdinaryActions (log.insertAction new).actions) :
    OrdinaryActions log.actions := by
  by_cases recorded : Recorded log.actions new
  · rwa [insertAction_of_recorded recorded] at ordinary
  · rw [insertAction_of_not_recorded recorded] at ordinary
    exact ordinary.init

theorem current_insertAction {log : ActionLog Name} {new : ActionRow}
    (ordinary : OrdinaryActions (log.insertAction new).actions)
    (current : Current log.actions log.fileState) :
    Current (log.insertAction new).actions
      (log.insertAction new).fileState := by
  by_cases recorded : Recorded log.actions new
  · rwa [insertAction_of_recorded recorded]
  rw [insertAction_of_not_recorded recorded] at ordinary ⊢
  by_cases fires : triggered (log.actions ++ [new]) new = true
  · rw [if_pos fires]
    have member : new ∈ log.actions ++ [new] := by simp
    refine ⟨names_applyAction_nodup current.unique new, ?_⟩
    intro filename
    have distinct := ordinary.distinctStamps filename
    rw [view_applyAction (ordinary.names new member)]
    simp only [actionsOn, List.filter_append] at distinct ⊢
    split_ifs with same
    · simp only [same, decide_true, List.filter_cons_of_pos,
        List.filter_nil] at distinct ⊢
      apply Settled.append_applied distinct
      intro earlier before
      exact triggered_iff.mp fires earlier before
    · simpa [actionsOn, Ne.symm same] using current.settled filename
  · rw [if_neg fires]
    refine ⟨current.unique, ?_⟩
    intro filename
    by_cases same : new.filename = filename
    · have exceeded : ∃ earlier ∈ actionsOn log.actions filename,
          new.stamp < earlier.stamp := by
        rw [triggered_iff] at fires
        push Not at fires
        rwa [same] at fires
      obtain ⟨earlier, member, exceeds⟩ := exceeded
      have appended : actionsOn (log.actions ++ [new]) filename =
          actionsOn log.actions filename ++ [new] := by
        simp [actionsOn, same]
      rw [appended]
      exact (current.settled filename).append_ignored member exceeds
    · simpa [actionsOn, same] using current.settled filename

variable {platform : ActionPlatform Name}

theorem addLocalActionUpdate_cases {log target : ActionLog Name} {choice : Nat}
    {actionTime wtime : Int64} {filename hash : Bytes} {mode segNum : Int32}
    {item : ActionItem}
    (added : log.addLocalActionUpdate platform choice actionTime filename hash
      wtime mode segNum = some (item, target)) :
    ∃ seqNo syncLog parent,
      let version :=
        (getLatestActionForFile log.actions filename choice).1 + 1
      let inserted := { log with syncLog := syncLog }.insertAction
        (updateRow platform log.syncLog.localName seqNo filename hash version
          actionTime wtime mode segNum parent)
      log.syncLog.getNextLocalSeqNo = some (seqNo, syncLog) ∧
        item = updateItem filename hash version actionTime wtime mode segNum
          parent ∧
        target = { inserted with
          fileState :=
            FileState.setFileComplete inserted.fileState filename } := by
  cases numbered : log.syncLog.getNextLocalSeqNo with
  | none => simp [addLocalActionUpdate, numbered] at added
  | some next =>
      obtain ⟨seqNo, syncLog⟩ := next
      simp only [addLocalActionUpdate, numbered, Option.some.injEq,
        Prod.mk.injEq] at added
      exact ⟨seqNo, syncLog, _, rfl, added.1.symm, added.2.symm⟩

theorem addLocalActionDelete_cases {log target : ActionLog Name} {choice : Nat}
    {actionTime : Int64} {memory : Nat → UInt8} {filename : Bytes}
    {result : Option ActionItem}
    (added : log.addLocalActionDelete platform choice actionTime memory
      filename = some (result, target)) :
    result = none ∧ target = log ∨
      ∃ seqNo syncLog parentDeviceName parentSeqNo,
        let version :=
          (getLatestActionForFile log.actions filename choice).1 + 1
        log.syncLog.getNextLocalSeqNo = some (seqNo, syncLog) ∧
          result = some (deleteItem filename version actionTime
            parentDeviceName parentSeqNo) ∧
          target = { log with syncLog := syncLog }.insertAction
            (deleteRow platform log.syncLog.localName seqNo memory filename
              version actionTime parentDeviceName parentSeqNo) := by
  rcases found : getLatestActionForFile log.actions filename choice with
    ⟨latest, parent, parentSeqNo⟩
  cases parent with
  | none =>
      simp only [addLocalActionDelete, found, Option.some.injEq,
        Prod.mk.injEq] at added
      exact .inl ⟨added.1.symm, added.2.symm⟩
  | some parentDeviceName =>
      cases numbered : log.syncLog.getNextLocalSeqNo with
      | none => simp [addLocalActionDelete, found, numbered] at added
      | some next =>
          obtain ⟨seqNo, syncLog⟩ := next
          simp only [addLocalActionDelete, found, numbered, Option.some.injEq,
            Prod.mk.injEq] at added
          exact .inr ⟨seqNo, syncLog, parentDeviceName, parentSeqNo, rfl,
            added.1.symm, added.2.symm⟩

theorem addLocalActionUpdate_numbered {log target : ActionLog Name}
    {choice : Nat} {actionTime wtime seqNo : Int64} {filename hash : Bytes}
    {mode segNum : Int32} {item : ActionItem} {next : SyncLog Name}
    (numbered : log.syncLog.getNextLocalSeqNo = some (seqNo, next))
    (added : log.addLocalActionUpdate platform choice actionTime filename hash
      wtime mode segNum = some (item, target)) :
    ∃ parent,
      let version :=
        (getLatestActionForFile log.actions filename choice).1 + 1
      let inserted := { log with syncLog := next }.insertAction
        (updateRow platform log.syncLog.localName seqNo filename hash version
          actionTime wtime mode segNum parent)
      item = updateItem filename hash version actionTime wtime mode segNum
          parent ∧
        target = { inserted with
          fileState :=
            FileState.setFileComplete inserted.fileState filename } := by
  obtain ⟨taken, changed, parent, again, returned, reached⟩ :=
    addLocalActionUpdate_cases added
  rw [numbered, Option.some.injEq, Prod.mk.injEq] at again
  obtain ⟨rfl, rfl⟩ := again
  exact ⟨parent, returned, reached⟩

theorem addLocalActionDelete_numbered {log target : ActionLog Name}
    {choice : Nat} {actionTime seqNo : Int64} {memory : Nat → UInt8}
    {filename : Bytes} {item : ActionItem} {next : SyncLog Name}
    (numbered : log.syncLog.getNextLocalSeqNo = some (seqNo, next))
    (added : log.addLocalActionDelete platform choice actionTime memory
      filename = some (some item, target)) :
    ∃ parentDeviceName parentSeqNo,
      let version :=
        (getLatestActionForFile log.actions filename choice).1 + 1
      item = deleteItem filename version actionTime parentDeviceName
          parentSeqNo ∧
        target = { log with syncLog := next }.insertAction
          (deleteRow platform log.syncLog.localName seqNo memory filename
            version actionTime parentDeviceName parentSeqNo) := by
  rcases addLocalActionDelete_cases added with
    ⟨nothing, -⟩ | ⟨taken, changed, parentDeviceName, parentSeqNo, again,
      returned, reached⟩
  · exact absurd nothing (by simp)
  · rw [numbered, Option.some.injEq, Prod.mk.injEq] at again
    obtain ⟨rfl, rfl⟩ := again
    exact ⟨parentDeviceName, parentSeqNo, Option.some.inj returned, reached⟩

theorem addRemoteAction_cases (platform : ActionPlatform Name)
    (log : ActionLog Name) (deviceName : Name)
    (seqNo : Int64) (actionPco : Option (Data Name)) :
    (log.addRemoteAction platform deviceName seqNo actionPco).2 = log ∨
      ∃ data item, actionPco = some data ∧
        platform.parse data.content = some item ∧
        (log.addRemoteAction platform deviceName seqNo actionPco).2 =
          log.insertAction
            (remoteRow platform deviceName seqNo item data.content) := by
  cases actionPco with
  | none => exact .inl rfl
  | some data =>
      cases parsed : platform.parse data.content with
      | none => simp [addRemoteAction, parsed]
      | some item => exact .inr ⟨data, item, rfl, parsed, by simp [addRemoteAction, parsed]⟩

/-- The rows that calls insert. -/
inductive Made (platform : ActionPlatform Name) : ActionRow → Prop where
  | update (deviceName : Name) (seqNo : Int64) (filename hash : Bytes)
      (version actionTime wtime : Int64) (mode segNum : Int32)
      (parent : Option (Bytes × Int64)) :
      Made platform (updateRow platform deviceName seqNo filename hash version
        actionTime wtime mode segNum parent)
  | delete (deviceName : Name) (seqNo : Int64) (memory : Nat → UInt8)
      (filename : Bytes) (version actionTime : Int64)
      (parentDeviceName : Bytes) (parentSeqNo : Int64) :
      Made platform (deleteRow platform deviceName seqNo memory filename
        version actionTime parentDeviceName parentSeqNo)
  | remote (deviceName : Name) (seqNo : Int64) (item : ActionItem)
      (content : Bytes) :
      Made platform (remoteRow platform deviceName seqNo item content)

theorem Made.filled {row : ActionRow} (made : Made platform row) :
    row.Filled := by
  intro isUpdate
  cases made with
  | update => exact ⟨rfl, rfl⟩
  | delete => simp [deleteRow] at isUpdate
  | remote deviceName seqNo item content =>
      have kind : item.action = .update := isUpdate
      simp [remoteRow, kind]

variable (platform)

/-- The log after a call, with the item a call that adds an action returns. -/
def call (log : ActionLog Name) :
    ActionCall Name → Option (Option ActionItem × ActionLog Name)
  | .addLocalActionUpdate choice actionTime filename hash wtime mode segNum =>
      (log.addLocalActionUpdate platform choice actionTime filename hash wtime
        mode segNum).map fun result => (some result.1, result.2)
  | .addLocalActionDelete choice actionTime memory filename =>
      log.addLocalActionDelete platform choice actionTime memory filename
  | .addRemoteAction deviceName seqNo actionPco =>
      some (log.addRemoteAction platform deviceName seqNo actionPco)
  | .syncLogChanged syncLog => some (none, { log with syncLog := syncLog })

def step (log : ActionLog Name) (label : ActionCall Name) :
    Option (ActionLog Name) :=
  (call platform log label).map (·.2)

abbrev Calls (start : ActionLog Name) :
    List (ActionLog Name × ActionCall Name) → ActionLog Name → Prop :=
  Run (fun source label target => step platform source label = some target)
    start

variable {platform}

/-- A call leaves both tables alone or inserts one action; what it marks
complete does not change what the table of files shows. -/
theorem step_cases {source target : ActionLog Name} {label : ActionCall Name}
    (taken : step platform source label = some target) :
    target.actions = source.actions ∧ target.fileState = source.fileState ∨
      ∃ new syncLog,
        let inserted : ActionLog Name :=
          { source with syncLog := syncLog }.insertAction new
        Made platform new ∧ target.actions = inserted.actions ∧
          (target.fileState = inserted.fileState ∨
            ∃ filename, target.fileState =
              FileState.setFileComplete inserted.fileState filename) := by
  cases label with
  | addLocalActionUpdate choice actionTime filename hash wtime mode segNum =>
      simp only [step, call, Option.map_map, Option.map_eq_some_iff,
        Function.comp_apply] at taken
      obtain ⟨⟨item, after⟩, added, rfl⟩ := taken
      obtain ⟨seqNo, syncLog, parent, _, _, rfl⟩ :=
        addLocalActionUpdate_cases added
      exact .inr ⟨_, syncLog, .update .., rfl, .inr ⟨filename, rfl⟩⟩
  | addLocalActionDelete choice actionTime memory filename =>
      simp only [step, call, Option.map_eq_some_iff] at taken
      obtain ⟨⟨result, after⟩, added, rfl⟩ := taken
      rcases addLocalActionDelete_cases added with
        ⟨_, rfl⟩ | ⟨seqNo, syncLog, parent, parentSeqNo, _, _, rfl⟩
      · exact .inl ⟨rfl, rfl⟩
      · exact .inr ⟨_, syncLog, .delete .., rfl, .inl rfl⟩
  | addRemoteAction deviceName seqNo actionPco =>
      simp only [step, call, Option.map_some, Option.some.injEq] at taken
      subst taken
      rcases addRemoteAction_cases platform source deviceName seqNo actionPco
        with same | ⟨data, item, _, _, inserted⟩
      · exact .inl ⟨by rw [same], by rw [same]⟩
      · exact .inr ⟨_, source.syncLog, .remote .., by rw [inserted],
          .inl (by rw [inserted])⟩
  | syncLogChanged syncLog =>
      simp only [step, call, Option.map_some, Option.some.injEq] at taken
      subst taken
      exact .inl ⟨rfl, rfl⟩

theorem step_current {source target : ActionLog Name} {label : ActionCall Name}
    (taken : step platform source label = some target)
    (earlier : OrdinaryActions source.actions →
      Current source.actions source.fileState)
    (ordinary : OrdinaryActions target.actions) :
    Current target.actions target.fileState := by
  rcases step_cases taken with
    ⟨sameActions, sameFiles⟩ | ⟨new, syncLog, _, actions, files⟩
  · rw [sameActions] at ordinary
    rw [sameActions, sameFiles]
    exact earlier ordinary
  · have inserted : Current
        ({ source with syncLog := syncLog }.insertAction new).actions
        ({ source with syncLog := syncLog }.insertAction new).fileState := by
      rw [actions] at ordinary
      have before : OrdinaryActions
          ({ source with syncLog := syncLog } : ActionLog Name).actions :=
        ordinary_of_insertAction ordinary
      exact current_insertAction ordinary (earlier before)
    rw [actions]
    rcases files with same | ⟨filename, completed⟩
    · rwa [same]
    · rw [completed]
      exact inserted.setFileComplete filename

theorem calls_current {syncLog : SyncLog Name}
    {trace : List (ActionLog Name × ActionCall Name)} {final : ActionLog Name}
    (calls : Calls platform (opened syncLog) trace final) :
    OrdinaryActions final.actions →
      Current final.actions final.fileState := by
  induction calls with
  | nil =>
      intro _
      exact ⟨List.nodup_nil, fun _ => settled_nil⟩
  | snoc _ taken induction => exact step_current taken induction

theorem calls_made {syncLog : SyncLog Name}
    {trace : List (ActionLog Name × ActionCall Name)} {final : ActionLog Name}
    (calls : Calls platform (opened syncLog) trace final) :
    ∀ row ∈ final.actions, Made platform row := by
  induction calls with
  | nil =>
      intro row member
      exact absurd member List.not_mem_nil
  | @snoc trace middle final label _ taken induction =>
      rcases step_cases taken with
        ⟨sameActions, _⟩ | ⟨new, syncLog, made, actions, _⟩
      · rwa [sameActions]
      · rw [actions]
        intro row member
        rcases mem_insertAction member with earlier | rfl
        · exact induction row earlier
        · exact made

end ActionLog

/-- The row repeats the action; times are compared as they are read. -/
structure FileRow.Shows (file : FileRow) (action : ActionRow) : Prop where
  version : file.version = action.version
  fileHash : action.fileHash = some file.fileHash
  deviceName : file.deviceName = action.deviceName
  seqNo : file.seqNo = action.seqNo
  mtime : readTime file.fileMtime = readTime action.fileMtime
  mode : action.fileChmod = some file.fileChmod
  segNum : action.fileSegNum = some file.fileSegNum

theorem readTime_datetime_readTime (time : Option TimeText) :
    readTime (datetime (readTime time)) = readTime time := by
  cases time with
  | none => decide
  | some time => simp [readTime, datetime, time.property]

theorem FileRow.shows_of_shared {file : FileRow} {action : ActionRow}
    (equality : action.effect = some file.shared)
    (nonempty : action.fileHash.getD [] ≠ []) (filled : action.Filled) :
    file.Shows action := by
  cases kind : action.action with
  | delete => simp [ActionRow.effect, kind] at equality
  | update =>
      obtain ⟨mode, segNum⟩ := filled kind
      obtain ⟨hash, hashed⟩ : ∃ hash, action.fileHash = some hash := by
        cases stored : action.fileHash with
        | none => simp [stored] at nonempty
        | some hash => exact ⟨hash, rfl⟩
      obtain ⟨chmod, chmodded⟩ := Option.isSome_iff_exists.mp mode
      obtain ⟨segments, segmented⟩ := Option.isSome_iff_exists.mp segNum
      simp only [ActionRow.effect, kind, hashed, chmodded, segmented,
        Option.getD_some, FileRow.shared, Option.some.injEq,
        FileRow.mk.injEq] at equality
      obtain ⟨_, version, device, seqNo, hash, mtime, mode, segNum, _⟩ :=
        equality
      refine ⟨version.symm, ?_, device.symm, seqNo.symm, ?_, ?_, ?_⟩
      · rw [hashed, hash]
      · rw [← mtime]
        exact readTime_datetime_readTime _
      · rw [chmodded, mode]
      · rw [segmented, segNum]

namespace ActionLog

/-- After any calls, a file has a row exactly if the latest action on it is an
update, and the row repeats that action. -/
theorem file_shows_latest_action {syncLog : SyncLog Name}
    {trace : List (ActionLog Name × ActionCall Name)} {final : ActionLog Name}
    (calls : Calls platform (opened syncLog) trace final)
    (ordinary : OrdinaryActions final.actions) (filename : Bytes) :
    ((∃ file ∈ final.fileState, file.filename = filename) ↔
      ∃ last, Latest ActionRow.stamp (actionsOn final.actions filename) last ∧
        last.action = .update) ∧
    ∀ file ∈ final.fileState, file.filename = filename →
      ∀ last, Latest ActionRow.stamp (actionsOn final.actions filename) last →
        file.Shows last := by
  have current := calls_current calls ordinary
  have settled := current.settled filename
  have shown : ∀ file ∈ final.fileState, file.filename = filename →
      FileState.view final.fileState filename = some file.shared := by
    intro file member named
    have found : final.fileState.find?
        (fun row => row.filename = filename) = some file :=
      (Table.find?_eq_some_iff (·.filename) current.unique).mpr
        ⟨member, named⟩
    rw [FileState.view, found]
    rfl
  refine ⟨⟨?_, ?_⟩, ?_⟩
  · intro present
    obtain ⟨file, member, named⟩ := present
    obtain ⟨last, latest, leaves⟩ :=
      settled.eq_some_iff.mp (shown file member named)
    exact ⟨last, latest, ActionRow.update_of_effect leaves⟩
  · intro found
    obtain ⟨last, latest, isUpdate⟩ := found
    have visible := settled.2 last latest
    simp only [ActionRow.effect, isUpdate] at visible
    obtain ⟨file, present, _⟩ := Option.map_eq_some_iff.mp visible
    exact ⟨file, List.mem_of_find?_eq_some present,
      by simpa using List.find?_some present⟩
  · intro file member named last latest
    have equality : last.effect = some file.shared :=
      (settled.2 last latest).symm.trans (shown file member named)
    have stored : last ∈ final.actions := (mem_actionsOn.mp latest.1).1
    exact FileRow.shows_of_shared equality
      (ordinary.hashes last stored (ActionRow.update_of_effect equality))
      (calls_made calls last stored).filled

/-- `/alex` adds a file, hears of a concurrent version of `/bob` twice, and
removes the file. -/
def shareAndRemove : List (ActionCall Name) :=
  let fromBob := writeItem (updateItem [0x66] [2] 0 9 7 420 1 none)
  let delivered := ActionCall.addRemoteAction Name.bob 1
    (some ⟨Name.bob, 60, fromBob⟩)
  [.addLocalActionUpdate 0 5 [0x66] [1] 6 420 1, delivered, delivered,
    .addLocalActionDelete 0 8 (fun _ => 0) [0x66]]

theorem file_shows_latest_action_removed :
    let start := opened (SyncLog.opened Name.uriOps Name.alex)
    ∃ trace final,
      Calls (plainActionPlatform Name.uriOps) start trace final ∧
        OrdinaryActions final.actions ∧ final.actions.length = 3 ∧
        ((∃ file ∈ final.fileState, file.filename = [0x66]) ↔
          ∃ last, Latest ActionRow.stamp (actionsOn final.actions [0x66])
            last ∧ last.action = .update) := by
  intro start
  have executed : (execute (step (plainActionPlatform Name.uriOps)) start
      shareAndRemove).any (fun result =>
        OrdinaryActions result.2.actions ∧ result.2.actions.length = 3) =
      true := by
    decide +kernel
  obtain ⟨⟨trace, final⟩, ran, holds⟩ := (Option.any_eq_true _ _).mp executed
  obtain ⟨ordinary, three⟩ := of_decide_eq_true holds
  have calls := execute_run ran
  exact ⟨trace, final, calls, ordinary, three,
    (file_shows_latest_action calls ordinary [0x66]).1⟩

end ActionLog

end ChronoShare
