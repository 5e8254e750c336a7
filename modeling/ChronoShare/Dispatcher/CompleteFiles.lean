import ChronoShare.ActionLog.Completeness
import ChronoShare.Dispatcher.Containment

/-!
# Complete rows and the files on the disk

The executor goes through a job statement by statement, and in between an action
may be added on the thread of its fetcher.  When the statements of each job
follow one another, the threads do what the dispatcher does.  In whatever order
they come, no row becomes complete, as the hash of a file names no database.
-/

namespace ChronoShare

namespace ActionLog

variable {Name : Type} (platform : ActionPlatform Name)

/-- What a local update has read before its row is inserted: the row, and the
log of states that gave it its number. -/
def readUpdate (log : ActionLog Name) (choice : Nat) (actionTime : Int64)
    (filename hash : Bytes) (wtime : Int64) (mode segNum : Int32) :
    Option (ActionRow × SyncLog Name) :=
  match log.syncLog.getNextLocalSeqNo with
  | none => none
  | some (seqNo, syncLog) =>
      let (latest, parentDeviceName, parentSeqNo) :=
        getLatestActionForFile log.actions filename choice
      let parent :=
        if 0 < parentSeqNo then
          parentDeviceName.map fun name => (name, parentSeqNo)
        else
          none
      some (updateRow platform log.syncLog.localName seqNo filename hash
        (latest + 1) actionTime wtime mode segNum parent, syncLog)

/-- What a local deletion has read, if there is something to delete. -/
def readDelete (log : ActionLog Name) (choice : Nat) (actionTime : Int64)
    (memory : Nat → UInt8) (filename : Bytes) :
    Option (Option (ActionRow × SyncLog Name)) :=
  match getLatestActionForFile log.actions filename choice with
  | (_, none, _) => some none
  | (latest, some parentDeviceName, parentSeqNo) =>
      match log.syncLog.getNextLocalSeqNo with
      | none => none
      | some (seqNo, syncLog) =>
          some (deleteRow platform log.syncLog.localName seqNo memory filename
            (latest + 1) actionTime parentDeviceName parentSeqNo, syncLog)

variable {platform} {log target : ActionLog Name} {choice : Nat}
  {actionTime : Int64} {filename : Bytes}

theorem readUpdate_of_addLocalActionUpdate {hash : Bytes} {wtime : Int64}
    {mode segNum : Int32} {item : ActionItem}
    (added : log.addLocalActionUpdate platform choice actionTime filename hash
      wtime mode segNum = some (item, target)) :
    ∃ row syncLog, row.action = .update ∧
      readUpdate platform log choice actionTime filename hash wtime mode
        segNum = some (row, syncLog) ∧
      let inserted := { log with syncLog := syncLog }.insertAction row
      target = { inserted with
        fileState :=
          FileState.setFileComplete inserted.fileState filename } := by
  cases numbered : log.syncLog.getNextLocalSeqNo with
  | none => simp [addLocalActionUpdate, numbered] at added
  | some next =>
      obtain ⟨seqNo, syncLog⟩ := next
      simp only [addLocalActionUpdate, numbered, Option.some.injEq,
        Prod.mk.injEq] at added
      obtain ⟨-, rfl⟩ := added
      refine ⟨_, syncLog, ?_, by rw [readUpdate, numbered], rfl⟩
      rfl

theorem readDelete_of_addLocalActionDelete {memory : Nat → UInt8}
    {item : Option ActionItem}
    (added : log.addLocalActionDelete platform choice actionTime memory
      filename = some (item, target)) :
    readDelete platform log choice actionTime memory filename = some none ∧
        target = log ∨
      ∃ row syncLog,
        readDelete platform log choice actionTime memory filename =
          some (some (row, syncLog)) ∧
        target = { log with syncLog := syncLog }.insertAction row := by
  rcases found : getLatestActionForFile log.actions filename choice with
    ⟨latest, _ | parentDeviceName, parentSeqNo⟩
  · simp only [addLocalActionDelete, found, Option.some.injEq,
      Prod.mk.injEq] at added
    exact .inl ⟨by rw [readDelete, found], added.2.symm⟩
  · cases numbered : log.syncLog.getNextLocalSeqNo with
    | none => simp [addLocalActionDelete, found, numbered] at added
    | some next =>
        obtain ⟨seqNo, syncLog⟩ := next
        simp only [addLocalActionDelete, found, numbered, Option.some.injEq,
          Prod.mk.injEq] at added
        exact .inr ⟨_, syncLog, by rw [readDelete, found]; simp [numbered],
          added.2.symm⟩

end ActionLog

/-- A statement of a job, with what the job has read before it. -/
inductive DispatcherStatement (Name : Type) where
  | addLocalActionUpdate (filename hash : Bytes) (wtime : Int64)
      (mode segNum : Int32)
  | addLocalActionDelete (filename : Bytes)
  | insertAction (row : ActionRow)
  | setFileComplete (filename : Bytes)
  | assembleFile (deviceName : Name) (hash : Bytes) (row : FileRow)

/-- The two threads of a dispatcher: the statements that are left of the job of
the executor, and the action that was added last, while its file has not been
requested.  `changed` lists the places that the user has changed since the last
notification about them. -/
structure DispatcherThreads (Name : Type) where
  dispatcher : Dispatcher Name
  statements : List (DispatcherStatement Name)
  added : Option (Name × ActionItem)
  changed : List Path

inductive DispatcherThreadEvent (Name : Type) where
  | dispatcher (label : DispatcherEvent Name)
  | statement (surroundings : Surroundings)
  | refusedAction (deviceName : Name) (seqNo : UInt64)
      (actionPco : Option (Data Name))
  | requestFile
  | restart (left : Dispatcher Name)

namespace Dispatcher

variable {Name : Type} (platform : DispatcherPlatform Name)

/-- The disk has the file of the row with the hash of the row. -/
def Present (disk : Disk) (row : FileRow) : Prop :=
  match disk.lookup (platform.placeOf row.filename) with
  | some (.file content _ _) => platform.sha256 content = row.fileHash
  | _ => False

/-- When the queue is empty, the files of complete rows are on the disk below
the root, unless the user has changed them since the last notification. -/
def Faithful (threads : DispatcherThreads Name) : Prop :=
  threads.dispatcher.jobs = [] →
    ∀ row ∈ threads.dispatcher.log.fileState, row.isComplete = true →
      InsideRoot platform row.filename ∧
          Present platform threads.dispatcher.disk row ∨
        platform.placeOf row.filename ∈ threads.changed

/-- The places that the user has changed since the last notification. -/
def changedAfter (changed : List Path) : DispatcherEvent Name → List Path
  | .userChange place _ => place :: changed
  | .localFileAddOrModify relativeFilePath =>
      changed.filter fun place => place ≠ platform.placeOf relativeFilePath
  | .localFileDelete relativeFilePath =>
      changed.filter fun place => place ≠ platform.placeOf relativeFilePath
  | _ => changed

/-- A job up to the first statement at which the log may have another action
than before.  A file is read at once. -/
def startJob (surroundings : Surroundings) (state : Dispatcher Name) :
    DispatcherJob Name →
      Option (Dispatcher Name × List (DispatcherStatement Name))
  | .localFileAddOrModify relativeFilePath =>
      match state.disk.lookup (platform.placeOf relativeFilePath) with
      | none => some (state, [])
      | some node =>
          if passedOver platform state relativeFilePath node then
            some (state, [])
          else
            (ObjectManager.localFileToObjects platform.objects
              ⟨state.tables, fun _ => none⟩ surroundings.memory node.bytes
              state.log.syncLog.localName).map fun (hash, segNum, storage) =>
                ({ state with tables := storage.tables },
                  [.addLocalActionUpdate relativeFilePath hash node.mtime
                    node.mode.toInt32 (Int32.ofNat segNum)])
  | .localFileDelete relativeFilePath =>
      if (state.disk.lookup (platform.placeOf relativeFilePath)).isSome then
        some (state, [])
      else
        some (state, [.addLocalActionDelete relativeFilePath])
  | .actionApplyDelete filename =>
      some (didActionLogActionApplyDelete platform state filename, [])
  | .fileSegmentFetch deviceName hash segment content =>
      some (didFetchManagerFileSegmentFetch platform state surroundings
        deviceName hash segment content, [])
  | .fileFetchComplete deviceName hash =>
      let filesToAssemble :=
        state.log.fileState.filter fun row => row.fileHash = hash
      some ({ state with
          objectDbMap := state.objectDbMap.filter fun other => other ≠ hash },
        filesToAssemble.map (.assembleFile deviceName hash))

/-- The state after a statement, and the statements that it leaves in its
place.  `none` is an exception that is not caught. -/
def runStatement (surroundings : Surroundings) (state : Dispatcher Name) :
    DispatcherStatement Name →
      Option (Dispatcher Name × List (DispatcherStatement Name))
  | .addLocalActionUpdate filename hash wtime mode segNum =>
      (state.log.readUpdate platform.toActionPlatform surroundings.choice
        surroundings.now filename hash wtime mode segNum).map
          fun (row, syncLog) =>
            ({ state with log := { state.log with syncLog := syncLog } },
              [.insertAction row, .setFileComplete filename])
  | .addLocalActionDelete filename =>
      (state.log.readDelete platform.toActionPlatform surroundings.choice
        surroundings.now surroundings.message filename).map fun
          | none => (state, [])
          | some (row, syncLog) =>
              ({ state with log := { state.log with syncLog := syncLog } },
                [.insertAction row])
  | .insertAction row =>
      let log := state.log.insertAction row
      some ({ state with
        log := log
        jobs := state.jobs ++ removals state.log log }, [])
  | .setFileComplete filename =>
      some ({ state with
        log := { state.log with
          fileState :=
            FileState.setFileComplete state.log.fileState filename } }, [])
  | .assembleFile deviceName hash row =>
      if upToDate platform state.disk row hash then
        some (state, [])
      else
        match assembledContent platform state.tables deviceName hash with
        | none => none
        | some none => some (state, [])
        | some (some content) =>
            (state.disk.writeFile (platform.pathOf row.filename) content
              row.itemMtime.toUInt64.toInt64 (row.itemMode &&& 0o7777)
              surroundings.now surroundings.directoryMode).map fun disk =>
                ({ state with disk := disk },
                  [.setFileComplete row.filename])

/-- The next job is taken when no statement is left, and the next action when
the file of the last one has been requested.  The table of files may refuse an
update without a hash.  A restart finds this table and the disk as they were,
while the other databases may be rolled back. -/
def threadStep [DecidableEq Name] (threads : DispatcherThreads Name) :
    DispatcherThreadEvent Name → Option (DispatcherThreads Name)
  | .dispatcher (.actionFetch deviceName seqNo actionPco) =>
      match threads.added with
      | some _ => none
      | none =>
          let state := threads.dispatcher
          let (action, log) := state.log.addRemoteAction
            platform.toActionPlatform deviceName
            seqNo.toUInt32.toUInt64.toInt64 actionPco
          some { threads with
            dispatcher := { state with
              log := log
              jobs := state.jobs ++ removals state.log log }
            added := action.map fun item => (deviceName, item) }
  | .refusedAction deviceName seqNo actionPco =>
      match threads.added with
      | some _ => none
      | none =>
          let state := threads.dispatcher
          let number := seqNo.toUInt32.toUInt64.toInt64
          let (action, log) := state.log.addRemoteAction
            platform.toActionPlatform deviceName number actionPco
          (MarkedLog.refusedFiles platform.toActionPlatform state.log
            (.addRemoteAction deviceName number actionPco)).map fun fileState =>
              { threads with
                dispatcher := { state with log := { log with fileState } }
                added := action.map fun item => (deviceName, item) }
  | .requestFile =>
      match threads.added with
      | none => none
      | some (deviceName, item) =>
          (requestFile platform threads.dispatcher deviceName item).map
            fun dispatcher =>
              { threads with dispatcher := dispatcher, added := none }
  | .dispatcher (.execute surroundings) =>
      match threads.statements, threads.dispatcher.jobs with
      | [], job :: jobs =>
          (startJob platform surroundings
            { threads.dispatcher with jobs := jobs } job).map
              fun (dispatcher, statements) =>
                { threads with
                  dispatcher := dispatcher, statements := statements }
      | _, _ => none
  | .statement surroundings =>
      match threads.statements with
      | [] => none
      | statement :: statements =>
          (runStatement platform surroundings threads.dispatcher
            statement).map fun (dispatcher, more) =>
              { threads with
                dispatcher := dispatcher, statements := more ++ statements }
  | .dispatcher label =>
      (step platform threads.dispatcher label).map fun dispatcher =>
        { threads with
          dispatcher := dispatcher
          changed := changedAfter platform threads.changed label }
  | .restart left =>
      let state := threads.dispatcher
      some { threads with
        dispatcher := { restarted { left.log with
            fileState := state.log.fileState } left.tables state.disk with
          fileFetches := left.fileFetches }
        statements := []
        added := none }

abbrev ThreadSteps [DecidableEq Name] (start : DispatcherThreads Name) :
    List (DispatcherThreads Name × DispatcherThreadEvent Name) →
      DispatcherThreads Name → Prop :=
  Run (fun source label target =>
    threadStep platform source label = some target) start

/-- Both threads of the dispatcher are between two jobs. -/
def betweenJobs (dispatcher : Dispatcher Name) (changed : List Path) :
    DispatcherThreads Name :=
  ⟨dispatcher, [], none, changed⟩

variable {platform} {source target : Dispatcher Name}
  {surroundings : Surroundings} {changed : List Path}

theorem removals_of_update {log : ActionLog Name} {new : ActionRow}
    (isUpdate : new.action = .update) :
    removals log (log.insertAction new) = [] := by
  apply List.eq_nil_iff_forall_not_mem.mpr
  intro job member
  have isDelete := (mem_removals_insertAction member).2.1
  rw [isUpdate] at isDelete
  cases isDelete

section Simulation

variable [DecidableEq Name]

/-- A run of the threads leads from one state to the other. -/
def Leads (platform : DispatcherPlatform Name)
    (source target : DispatcherThreads Name) : Prop :=
  ∃ trace, ThreadSteps platform source trace target

theorem Leads.refl (threads : DispatcherThreads Name) :
    Leads platform threads threads :=
  ⟨[], .nil⟩

theorem Leads.step {source middle target : DispatcherThreads Name}
    (label : DispatcherThreadEvent Name)
    (taken : threadStep platform source label = some middle)
    (later : Leads platform middle target) : Leads platform source target := by
  obtain ⟨trace, run⟩ := later
  have first : ThreadSteps platform source [(source, label)] middle :=
    .snoc .nil taken
  exact ⟨_, first.append run⟩

theorem Leads.trans {source middle target : DispatcherThreads Name}
    (first : Leads platform source middle)
    (second : Leads platform middle target) : Leads platform source target := by
  obtain ⟨trace, before⟩ := first
  obtain ⟨later, after⟩ := second
  exact ⟨_, before.append after⟩

theorem Leads.statement (surroundings : Surroundings)
    {statement : DispatcherStatement Name}
    {more statements : List (DispatcherStatement Name)}
    {added : Option (Name × ActionItem)} {final : DispatcherThreads Name}
    (ran : runStatement platform surroundings source statement =
      some (target, more))
    (later : Leads platform ⟨target, more ++ statements, added, changed⟩
      final) :
    Leads platform ⟨source, statement :: statements, added, changed⟩
      final := by
  apply Leads.step (.statement surroundings) _ later
  simp only [threadStep, ran, Option.map_some]

theorem leads_addLocalActionUpdate (source : Dispatcher Name)
    {filename hash : Bytes} {wtime : Int64} {mode segNum : Int32}
    {item : ActionItem} {log : ActionLog Name}
    (added : source.log.addLocalActionUpdate platform.toActionPlatform
      surroundings.choice surroundings.now filename hash wtime mode segNum =
        some (item, log)) :
    Leads platform
      ⟨source, [.addLocalActionUpdate filename hash wtime mode segNum], none,
        changed⟩
      (betweenJobs { source with log := log } changed) := by
  obtain ⟨row, syncLog, isUpdate, read, rfl⟩ :=
    ActionLog.readUpdate_of_addLocalActionUpdate added
  apply Leads.statement surroundings
  · rw [runStatement, read]
    rfl
  apply Leads.statement surroundings rfl
  apply Leads.statement surroundings rfl
  have quiet : removals { source.log with syncLog := syncLog }
      (ActionLog.insertAction { source.log with syncLog := syncLog } row) =
        [] := removals_of_update isUpdate
  simp only [quiet, List.append_nil]
  exact .refl _

theorem leads_addLocalActionDelete {filename : Bytes}
    {item : Option ActionItem} {log : ActionLog Name}
    (added : source.log.addLocalActionDelete platform.toActionPlatform
      surroundings.choice surroundings.now surroundings.message filename =
        some (item, log)) :
    Leads platform ⟨source, [.addLocalActionDelete filename], none, changed⟩
      (betweenJobs { source with
        log := log
        jobs := source.jobs ++ removals source.log log } changed) := by
  rcases ActionLog.readDelete_of_addLocalActionDelete added with
    ⟨read, rfl⟩ | ⟨row, syncLog, read, rfl⟩
  · apply Leads.statement surroundings
    · rw [runStatement, read]
      rfl
    simp only [removals_self, List.append_nil]
    exact .refl _
  · apply Leads.statement surroundings
    · rw [runStatement, read]
      rfl
    apply Leads.statement surroundings rfl
    exact .refl _

/-- The statement for a file and the one that it may leave, before the
statements for the other files. -/
theorem leads_assembleFile {deviceName : Name} {hash : Bytes} {row : FileRow}
    {statements : List (DispatcherStatement Name)}
    (assembled : assembleFile platform surroundings deviceName hash source row =
      some target) :
    Leads platform
      ⟨source, .assembleFile deviceName hash row :: statements, none, changed⟩
      ⟨target, statements, none, changed⟩ := by
  rw [assembleFile] at assembled
  split_ifs at assembled with current
  · rw [← Option.some.inj assembled]
    apply Leads.statement surroundings
    · rw [runStatement, if_pos current]
    exact .refl _
  · split at assembled
    · cases assembled
    · next content =>
        rw [← Option.some.inj assembled]
        apply Leads.statement surroundings
        · rw [runStatement, if_neg current, content]
        exact .refl _
    · next content =>
        obtain ⟨disk, written, rfl⟩ := Option.map_eq_some_iff.mp assembled
        apply Leads.statement surroundings
        · rw [runStatement, if_neg current, content]
          dsimp only
          rw [written]
          rfl
        apply Leads.statement surroundings rfl
        exact .refl _

theorem leads_assembleFiles {deviceName : Name} {hash : Bytes}
    {rows : List FileRow}
    (assembled : rows.foldlM
      (assembleFile platform surroundings deviceName hash) source =
        some target) :
    Leads platform
      ⟨source, rows.map (.assembleFile deviceName hash), none, changed⟩
      (betweenJobs target changed) := by
  induction rows generalizing source with
  | nil =>
      rw [← Option.some.inj assembled]
      exact .refl _
  | cons row rows induction =>
      rw [List.foldlM_cons] at assembled
      obtain ⟨middle, first, others⟩ := Option.bind_eq_some_iff.mp assembled
      exact (leads_assembleFile first).trans (induction others)

theorem leads_runJob {job : DispatcherJob Name}
    {jobs : List (DispatcherJob Name)} (queue : source.jobs = job :: jobs)
    (ran : runJob platform surroundings { source with jobs := jobs } job =
      some target) :
    Leads platform (betweenJobs source changed)
      (betweenJobs target changed) := by
  have start : ∀ {dispatcher : Dispatcher Name}
      {statements : List (DispatcherStatement Name)},
      startJob platform surroundings { source with jobs := jobs } job =
          some (dispatcher, statements) →
        Leads platform ⟨dispatcher, statements, none, changed⟩
          (betweenJobs target changed) →
        Leads platform (betweenJobs source changed)
          (betweenJobs target changed) := by
    intro dispatcher statements started later
    apply Leads.step (.dispatcher (.execute surroundings)) _ later
    simp only [threadStep, betweenJobs, queue, started, Option.map_some]
  cases job with
  | localFileAddOrModify relativeFilePath =>
      rw [runJob, didLocalFileAddOrModify] at ran
      split at ran
      · next absent =>
          rw [← Option.some.inj ran] at start ⊢
          apply start _ (.refl _)
          rw [startJob, absent]
      · next node found =>
          split_ifs at ran with passed
          · rw [← Option.some.inj ran] at start ⊢
            apply start _ (.refl _)
            rw [startJob, found]
            simp only [passed, if_true]
          · split at ran
            · cases ran
            · next hash segNum storage stored =>
                obtain ⟨⟨item, log⟩, added, rfl⟩ :=
                  Option.map_eq_some_iff.mp ran
                apply start _ (leads_addLocalActionUpdate
                  { source with tables := storage.tables, jobs := jobs } added)
                rw [startJob, found]
                simp only [passed, stored]
                rfl
  | localFileDelete relativeFilePath =>
      rw [runJob, didLocalFileDelete] at ran
      split_ifs at ran with present
      · rw [← Option.some.inj ran] at start ⊢
        apply start _ (.refl _)
        rw [startJob, if_pos present]
      · obtain ⟨⟨item, log⟩, added, rfl⟩ := Option.map_eq_some_iff.mp ran
        apply start _ (leads_addLocalActionDelete added)
        rw [startJob, if_neg present]
  | actionApplyDelete filename =>
      rw [← Option.some.inj ran] at start ⊢
      exact start rfl (.refl _)
  | fileSegmentFetch deviceName hash segment content =>
      rw [← Option.some.inj ran] at start ⊢
      exact start rfl (.refl _)
  | fileFetchComplete deviceName hash =>
      exact start rfl (leads_assembleFiles ran)

theorem leads_actionFetch {deviceName : Name} {seqNo : UInt64}
    {actionPco : Option (Data Name)}
    (fetched : didFetchManagerActionFetch platform source deviceName
      seqNo.toUInt32 actionPco = some target) :
    Leads platform (betweenJobs source changed)
      (betweenJobs target changed) := by
  rw [didFetchManagerActionFetch] at fetched
  rcases result : source.log.addRemoteAction platform.toActionPlatform
      deviceName seqNo.toUInt32.toUInt64.toInt64 actionPco with
    ⟨action, log⟩
  rw [result] at fetched
  cases action with
  | none =>
      rw [← Option.some.inj fetched]
      apply Leads.step (.dispatcher (.actionFetch deviceName seqNo actionPco))
        _ (.refl _)
      simp only [threadStep, betweenJobs, result, Option.map_none]
  | some item =>
      apply Leads.step (.dispatcher (.actionFetch deviceName seqNo actionPco))
      · simp only [threadStep, betweenJobs, result, Option.map_some]
        rfl
      apply Leads.step .requestFile _ (.refl _)
      simp only at fetched
      simp only [threadStep, fetched, Option.map_some]
      rfl

theorem leads_single {label : DispatcherEvent Name}
    (single : threadStep platform (betweenJobs source changed)
      (.dispatcher label) =
        (Dispatcher.step platform source label).map fun dispatcher =>
          betweenJobs dispatcher (changedAfter platform changed label))
    (taken : Dispatcher.step platform source label = some target) :
    Leads platform (betweenJobs source changed)
      (betweenJobs target (changedAfter platform changed label)) := by
  apply Leads.step (.dispatcher label) _ (.refl _)
  rw [single, taken, Option.map_some]

theorem leads_step {label : DispatcherEvent Name}
    (taken : Dispatcher.step platform source label = some target) :
    Leads platform (betweenJobs source changed)
      (betweenJobs target (changedAfter platform changed label)) := by
  cases label with
  | actionFetch deviceName seqNo actionPco => exact leads_actionFetch taken
  | execute surroundings =>
      rw [Dispatcher.step] at taken
      split at taken
      · cases taken
      · next job jobs queue => exact leads_runJob queue taken
  | _ => exact leads_single rfl taken

end Simulation

/-- A statement that marks a row, or leaves one that does. -/
def Completes : DispatcherStatement Name → Prop
  | .addLocalActionUpdate .. | .setFileComplete _ => True
  | _ => False

/-- No row is complete, and no statement is left that would make one so. -/
structure Incomplete (files : List FileRow)
    (statements : List (DispatcherStatement Name)) : Prop where
  rows : ∀ row ∈ files, row.isComplete = false
  statements : ∀ statement ∈ statements, ¬ Completes statement

theorem incomplete_insertAction {log : ActionLog Name} {new : ActionRow}
    (rows : ∀ row ∈ log.fileState, row.isComplete = false) :
    ∀ row ∈ (log.insertAction new).fileState, row.isComplete = false := by
  intro row member
  by_contra complete
  obtain ⟨old, stored, -, marked⟩ := MarkedLog.complete_of_insertAction member
    (Bool.not_eq_false _ ▸ complete)
  rw [rows old stored] at marked
  cases marked

theorem assembledContent_of_printed
    (printed : platform.hashText = Hash.printed)
    (tables : Bytes → ObjectTable) (deviceName : Name) (hash : Bytes) :
    assembledContent platform tables deviceName hash = none := by
  simp [assembledContent, ObjectManager.objectsToLocalFile,
    DispatcherPlatform.objects, printed]

/-- A job that would store a file fails before it has read anything of the
log. -/
theorem Incomplete.startJob (printed : platform.hashText = Hash.printed)
    {job : DispatcherJob Name} {statements : List (DispatcherStatement Name)}
    (incomplete : Incomplete source.log.fileState
      ([] : List (DispatcherStatement Name)))
    (started : startJob platform surroundings source job =
      some (target, statements)) :
    Incomplete target.log.fileState statements := by
  cases job with
  | localFileAddOrModify relativeFilePath =>
      rw [Dispatcher.startJob] at started
      split at started
      · obtain ⟨rfl, rfl⟩ := Option.some.inj started
        exact incomplete
      · split_ifs at started
        · obtain ⟨rfl, rfl⟩ := Option.some.inj started
          exact incomplete
        · simp [ObjectManager.localFileToObjects, DispatcherPlatform.objects,
            printed] at started
  | localFileDelete relativeFilePath =>
      rw [Dispatcher.startJob] at started
      split_ifs at started
      · obtain ⟨rfl, rfl⟩ := Option.some.inj started
        exact incomplete
      · obtain ⟨rfl, rfl⟩ := Option.some.inj started
        exact ⟨incomplete.rows, by simp [Completes]⟩
  | actionApplyDelete filename =>
      obtain ⟨rfl, rfl⟩ := Option.some.inj started
      exact incomplete
  | fileSegmentFetch deviceName hash segment content =>
      obtain ⟨rfl, rfl⟩ := Option.some.inj started
      rw [didFetchManagerFileSegmentFetch]
      split_ifs
      · exact incomplete
      · exact incomplete
  | fileFetchComplete deviceName hash =>
      obtain ⟨rfl, rfl⟩ := Option.some.inj started
      refine ⟨incomplete.rows, ?_⟩
      intro statement member
      obtain ⟨row, -, rfl⟩ := List.mem_map.mp member
      exact id

theorem Incomplete.runStatement (printed : platform.hashText = Hash.printed)
    {statement : DispatcherStatement Name}
    {more : List (DispatcherStatement Name)}
    (incomplete : Incomplete source.log.fileState [statement])
    (ran : runStatement platform surroundings source statement =
      some (target, more)) :
    Incomplete target.log.fileState more := by
  have quiet := incomplete.statements statement List.mem_cons_self
  cases statement with
  | addLocalActionUpdate filename hash wtime mode segNum =>
      exact absurd trivial quiet
  | addLocalActionDelete filename =>
      obtain ⟨read, -, result⟩ := Option.map_eq_some_iff.mp ran
      split at result
      · cases result
        exact ⟨incomplete.rows, by simp⟩
      · cases result
        exact ⟨incomplete.rows, by simp [Completes]⟩
  | insertAction row =>
      obtain ⟨rfl, rfl⟩ := Option.some.inj ran
      exact ⟨incomplete_insertAction incomplete.rows, by simp⟩
  | setFileComplete filename => exact absurd trivial quiet
  | assembleFile deviceName hash row =>
      rw [Dispatcher.runStatement] at ran
      split_ifs at ran
      · obtain ⟨rfl, rfl⟩ := Option.some.inj ran
        exact ⟨incomplete.rows, by simp⟩
      · rw [assembledContent_of_printed printed] at ran
        cases ran

theorem Incomplete.append {files : List FileRow}
    {first second : List (DispatcherStatement Name)}
    (before : Incomplete files first)
    (after : ∀ statement ∈ second, ¬ Completes statement) :
    Incomplete files (first ++ second) :=
  ⟨before.rows, List.forall_mem_append.mpr ⟨before.statements, after⟩⟩

theorem Incomplete.addRemoteAction {log : ActionLog Name} {deviceName : Name}
    {seqNo : Int64} {actionPco : Option (Data Name)}
    {statements : List (DispatcherStatement Name)}
    (incomplete : Incomplete log.fileState statements) :
    Incomplete (log.addRemoteAction platform.toActionPlatform deviceName seqNo
      actionPco).2.fileState statements := by
  rcases ActionLog.addRemoteAction_cases platform.toActionPlatform log
      deviceName seqNo actionPco with same | ⟨data, item, _, _, inserted⟩
  · rw [same]
    exact incomplete
  · rw [inserted]
    exact ⟨incomplete_insertAction incomplete.rows, incomplete.statements⟩

variable [DecidableEq Name] {threads after : DispatcherThreads Name}

theorem Incomplete.moved (label : DispatcherEvent Name)
    (incomplete : Incomplete threads.dispatcher.log.fileState
      threads.statements)
    (quiet : ∀ dispatcher,
      Dispatcher.step platform threads.dispatcher label = some dispatcher →
        dispatcher.log = threads.dispatcher.log)
    (taken : (Dispatcher.step platform threads.dispatcher label).map
      (fun dispatcher =>
        { threads with
          dispatcher := dispatcher
          changed := changedAfter platform threads.changed label }) =
        some after) :
    Incomplete after.dispatcher.log.fileState after.statements := by
  obtain ⟨dispatcher, moved, rfl⟩ := Option.map_eq_some_iff.mp taken
  rw [quiet dispatcher moved]
  exact incomplete

theorem Incomplete.threadStep (printed : platform.hashText = Hash.printed)
    {label : DispatcherThreadEvent Name}
    (incomplete : Incomplete threads.dispatcher.log.fileState
      threads.statements)
    (taken : threadStep platform threads label = some after) :
    Incomplete after.dispatcher.log.fileState after.statements := by
  cases label with
  | dispatcher label =>
      cases label with
      | actionFetch deviceName seqNo actionPco =>
          rw [Dispatcher.threadStep] at taken
          split at taken
          · cases taken
          · rw [← Option.some.inj taken]
            exact incomplete.addRemoteAction
      | execute surroundings =>
          rw [Dispatcher.threadStep] at taken
          split at taken
          · next job jobs idle queue =>
              obtain ⟨⟨dispatcher, statements⟩, started, rfl⟩ :=
                Option.map_eq_some_iff.mp taken
              have popped : Incomplete
                  ({ threads.dispatcher with
                    jobs := jobs } : Dispatcher Name).log.fileState
                  ([] : List (DispatcherStatement Name)) :=
                ⟨incomplete.rows, by simp⟩
              exact popped.startJob printed started
          · cases taken
      | userChange place node =>
          apply incomplete.moved (.userChange place node) _ taken
          intro dispatcher moved
          rw [← Option.some.inj moved]
      | localFileAddOrModify relativeFilePath =>
          apply incomplete.moved
            (.localFileAddOrModify relativeFilePath) _ taken
          intro dispatcher moved
          rw [← Option.some.inj moved, Dispatcher.post]
      | localFileDelete relativeFilePath =>
          apply incomplete.moved (.localFileDelete relativeFilePath) _ taken
          intro dispatcher moved
          rw [← Option.some.inj moved, Dispatcher.post]
      | fileSegmentFetch deviceName hash seqNo content =>
          apply incomplete.moved
            (.fileSegmentFetch deviceName hash seqNo content) _ taken
          intro dispatcher moved
          rw [Dispatcher.step] at moved
          split_ifs at moved
          rw [← Option.some.inj moved, Dispatcher.post]
      | fileFetchComplete deviceName hash =>
          apply incomplete.moved (.fileFetchComplete deviceName hash) _ taken
          intro dispatcher moved
          rw [Dispatcher.step] at moved
          split_ifs at moved
          rw [← Option.some.inj moved, Dispatcher.post]
  | statement surroundings =>
      rw [Dispatcher.threadStep] at taken
      split at taken
      · cases taken
      · next statement statements left =>
          obtain ⟨⟨dispatcher, more⟩, ran, rfl⟩ :=
            Option.map_eq_some_iff.mp taken
          have others := incomplete.statements
          rw [left, List.forall_mem_cons] at others
          have single : Incomplete threads.dispatcher.log.fileState
              [statement] := ⟨incomplete.rows, by simpa using others.1⟩
          exact (single.runStatement printed ran).append others.2
  | refusedAction deviceName seqNo actionPco =>
      rw [Dispatcher.threadStep] at taken
      split at taken
      · cases taken
      · obtain ⟨fileState, refused, rfl⟩ := Option.map_eq_some_iff.mp taken
        have unchanged := MarkedLog.refusedFiles_addRemoteAction refused
        subst unchanged
        exact incomplete
  | requestFile =>
      rw [Dispatcher.threadStep] at taken
      split at taken
      · cases taken
      · obtain ⟨dispatcher, requested, rfl⟩ :=
          Option.map_eq_some_iff.mp taken
        rw [requestFile_of_printed printed requested]
        exact incomplete
  | restart left =>
      rw [← Option.some.inj taken]
      exact ⟨incomplete.rows, by simp⟩

end Dispatcher

namespace Dispatcher

end Dispatcher

end ChronoShare
