import ChronoShare.Dispatcher.Kept
import ChronoShare.FsWatcher.Folder

/-!
# Changes that reach the log of actions

A report about a file that is raised waits with the scheduler, then in the queue
of the dispatcher, and is executed once.  A file that stays as it was noticed is
therefore published, unless its row says that there is nothing to publish yet.
-/

namespace ChronoShare

theorem TimerCall.report_injective {Name : Type} {call other : TimerCall}
    {job : DispatcherJob Name} (reports : call.report = some job)
    (same : other.report = some job) : other = call := by
  cases call <;> cases reports <;> cases other <;> cases same <;> rfl

theorem TimerCall.isReport {Name : Type} {call : TimerCall}
    {job : DispatcherJob Name} (reports : call.report = some job) :
    Dispatcher.IsReport job := by
  cases call <;> cases reports <;> trivial

namespace WatchedFolder

variable {Name : Type} {platform : DispatcherPlatform Name}
  {source middle final target : WatchedFolder Name} {call : TimerCall}
  {job : DispatcherJob Name} {label : FolderWatch Name}

/-- The report that a scan for removals makes in a step. -/
def scanned (folder : WatchedFolder Name) : FolderWatch Name → Option TimerCall
  | .notifyRemoval =>
      folder.listed.head?.bind fun file =>
        if folder.onDisk (FsWatcher.joinPath folder.watcher.dirPath file) then
          none
        else
          some (.delete file.toStdString)
  | _ => none

/-- The report is accepted by the scheduler, or made by a scan. -/
def Raises (folder : WatchedFolder Name) (label : FolderWatch Name)
    (call : TimerCall) : Prop :=
  call ∈ folder.calls label ∧ folder.tasks.Free call ∨
    folder.scanned label = some call

instance (folder : WatchedFolder Name) (label : FolderWatch Name)
    (call : TimerCall) : Decidable (folder.Raises label call) :=
  inferInstanceAs (Decidable (_ ∨ _))

def executed (folder : WatchedFolder Name) :
    FolderWatch Name → Option (DispatcherJob Name)
  | .dispatcher event => folder.dispatcher.executed event
  | _ => none

/-- What a step does to the tasks and to the dispatcher. -/
inductive Moves [DecidableEq Name] (platform : DispatcherPlatform Name)
    (source : WatchedFolder Name) :
    FolderWatch Name → WatchedFolder Name → Prop where
  | schedules {label : FolderWatch Name} {target : WatchedFolder Name} :
      source.scanned label = none → source.executed label = none →
      target.tasks =
        (source.calls label).foldl TimerTasks.schedule source.tasks →
      target.dispatcher = source.dispatcher → Moves platform source label target
  | runs {target : WatchedFolder Name} :
      source.tasks.step .run = some target.tasks →
      target.dispatcher = (target.tasks.calling.bind TimerCall.report).elim
        source.dispatcher source.dispatcher.post →
      Moves platform source (.timer .run) target
  | proceeds {label : SchedulerStep} {target : WatchedFolder Name} :
      label ≠ .run → source.tasks.step label = some target.tasks →
      target.dispatcher = source.dispatcher →
      Moves platform source (.timer label) target
  | reports {target : WatchedFolder Name} :
      target.tasks = source.tasks →
      target.dispatcher =
        ((source.scanned .notifyRemoval).bind TimerCall.report).elim
          source.dispatcher source.dispatcher.post →
      Moves platform source .notifyRemoval target
  | dispatches {event : DispatcherEvent Name} {target : WatchedFolder Name} :
      ¬ Dispatcher.Notified event →
      Dispatcher.step platform source.dispatcher event =
        some target.dispatcher →
      target.tasks = source.tasks →
      Moves platform source (.dispatcher event) target

variable [DecidableEq Name]

theorem step_moves (taken : step platform source label = some target) :
    Moves platform source label target := by
  cases label with
  | didDirectoryChanged dirPath =>
      rw [← Option.some.inj taken]
      exact .schedules rfl rfl rfl rfl
  | didFileChanged filePath =>
      rw [← Option.some.inj taken]
      exact .schedules rfl rfl rfl rfl
  | timer label =>
      cases label with
      | run =>
          obtain ⟨tasks, ran, rfl⟩ := Option.map_eq_some_iff.mp taken
          exact .runs ran rfl
      | callbackReturns =>
          rw [step] at taken
          split_ifs at taken
          obtain ⟨tasks, returned, rfl⟩ := Option.map_eq_some_iff.mp taken
          exact .proceeds (by simp) returned rfl
      | scheduleOneTimeTask | deleteTask | deleteMatching => cases taken
      | _ =>
          obtain ⟨tasks, moved, rfl⟩ := Option.map_eq_some_iff.mp taken
          exact .proceeds (by simp) moved rfl
  | notifyUpdate absFilePath isFile =>
      rw [step] at taken
      split_ifs at taken
      obtain ⟨⟨watcher, calls⟩, found, rfl⟩ := Option.map_eq_some_iff.mp taken
      have same : source.calls (.notifyUpdate absFilePath isFile) = calls := by
        rw [WatchedFolder.calls, found]
        rfl
      refine .schedules rfl rfl ?_ rfl
      rw [same]
      rfl
  | getFilesInDir dirPath =>
      rw [step] at taken
      split_ifs at taken
      rw [← Option.some.inj taken]
      exact .schedules rfl rfl rfl rfl
  | notifyRemoval =>
      rw [step] at taken
      split at taken
      · cases taken
      · rename_i file listed list
        simp only [FsWatcher.notifyRemoval] at taken
        split_ifs at taken with present
        · rw [← Option.some.inj taken]
          refine .reports rfl ?_
          rw [scanned, list, List.head?_cons, Option.bind_some, if_pos present]
          rfl
        · rw [← Option.some.inj taken]
          refine .reports rfl ?_
          rw [scanned, list, List.head?_cons, Option.bind_some, if_neg present]
          rfl
  | dispatcher event =>
      have unnotified : ¬ Dispatcher.Notified event := by
        cases event with
        | localFileAddOrModify | localFileDelete => cases taken
        | _ => exact id
      have moved : (Dispatcher.step platform source.dispatcher event).map
          (fun dispatcher => { source with dispatcher := dispatcher }) =
            some target := by
        cases event with
        | localFileAddOrModify | localFileDelete => cases taken
        | _ => exact taken
      obtain ⟨dispatcher, stepped, rfl⟩ := Option.map_eq_some_iff.mp moved
      exact .dispatches unnotified stepped rfl

theorem actions_step (taken : step platform source label = some target) :
    source.dispatcher.log.actions ⊆ target.dispatcher.log.actions := by
  have posted : ∀ report : Option (DispatcherJob Name),
      (report.elim source.dispatcher source.dispatcher.post).log =
        source.dispatcher.log := by
    intro report
    cases report with
    | none => rfl
    | some job => rfl
  cases step_moves taken with
  | schedules _ _ _ same =>
      rw [same]
      exact List.Subset.refl _
  | runs _ same =>
      rw [same, posted]
      exact List.Subset.refl _
  | proceeds _ _ same =>
      rw [same]
      exact List.Subset.refl _
  | reports _ same =>
      rw [same, posted]
      exact List.Subset.refl _
  | dispatches other stepped _ =>
      obtain ⟨jobs, -, keeps⟩ := Dispatcher.keeps_step other stepped
      exact keeps.actions

theorem actions_run {trace : List (WatchedFolder Name × FolderWatch Name)}
    (run : Steps platform middle trace final) :
    middle.dispatcher.log.actions ⊆ final.dispatcher.log.actions := by
  induction run with
  | nil => exact List.Subset.refl _
  | snoc _ taken induction =>
      exact List.Subset.trans induction (actions_step taken)

omit [DecidableEq Name] in
theorem calls_eq_singleton (reports : call.report = some job)
    (member : call ∈ source.calls label) : source.calls label = [call] := by
  have changed : ∀ {watcher : FsWatcher} {onDisk : Text → Bool}
      {filePath : Text}, call ∈ (watcher.fileChanged onDisk filePath).2 →
        (watcher.fileChanged onDisk filePath).2 = [call] := by
    intro watcher onDisk filePath scheduled
    simp only [FsWatcher.fileChanged, FsWatcher.didFileChanged] at scheduled ⊢
    split_ifs at scheduled ⊢
    · rw [List.mem_singleton.mp scheduled]
    · rw [List.mem_singleton.mp scheduled]
    · cases scheduled
  cases label with
  | didFileChanged filePath => exact changed member
  | didDirectoryChanged dirPath =>
      simp only [calls, FsWatcher.didDirectoryChanged] at member
      split_ifs at member
      all_goals
        simp only [List.mem_cons, List.not_mem_nil, or_false] at member
        rcases member with rfl | rfl | rfl <;> cases reports
  | notifyUpdate absFilePath isFile =>
      simp only [calls, FsWatcher.notifyUpdate] at member ⊢
      split_ifs at member ⊢
      · cases member
      · cases member
      · exact changed member
      · cases member
  | _ => cases member

/-- How often the report waits with the scheduler, or its job with the
dispatcher. -/
def outstanding (folder : WatchedFolder Name) (call : TimerCall)
    (job : DispatcherJob Name) : Nat :=
  folder.tasks.waits call + folder.dispatcher.jobs.count job

theorem count_elim_post (reports : call.report = some job)
    (dispatcher : Dispatcher Name) (other : Option TimerCall) :
    ((other.bind TimerCall.report).elim dispatcher
      dispatcher.post).jobs.count job =
        dispatcher.jobs.count job + if other = some call then 1 else 0 := by
  by_cases same : other = some call
  · rw [same, Option.bind_some, reports, if_pos rfl]
    simp [Dispatcher.post]
  · rw [if_neg same]
    cases found : other.bind TimerCall.report with
    | none => rfl
    | some first =>
        have apart : first ≠ job := by
          rintro rfl
          obtain ⟨made, rfl, makes⟩ := Option.bind_eq_some_iff.mp found
          exact same (congrArg some (TimerCall.report_injective reports makes))
        simp [Dispatcher.post, apart]

/-- The reports that are raised and executed account for those on their
way. -/
theorem outstanding_step (reports : call.report = some job)
    (taken : step platform source label = some target) :
    source.outstanding call job +
        (if source.Raises label call then 1 else 0) =
      target.outstanding call job +
        if source.executed label = some job then 1 else 0 := by
  cases step_moves taken with
  | schedules unscanned unexecuted tasks same =>
      rw [outstanding, outstanding, tasks, same, unexecuted,
        if_neg (Option.some_ne_none job).symm, Nat.add_zero]
      by_cases member : call ∈ source.calls label
      · have only := calls_eq_singleton reports member
        have raises : source.Raises label call ↔ source.tasks.Free call := by
          rw [Raises, unscanned, only]
          simp
        rw [only, List.foldl_cons, List.foldl_nil, TimerTasks.waits_schedule]
        simp only [raises, true_and]
        omega
      · have silent : ¬ source.Raises label call := by
          rw [Raises, unscanned]
          simp [member]
        rw [if_neg silent, TimerTasks.waits_foldl_schedule member,
          Nat.add_zero]
  | @runs target ran same =>
      have silent : ¬ source.Raises (.timer .run) call := by
        simp [Raises, calls, scanned]
      have idle : source.executed (.timer .run) = none := rfl
      have moved := TimerTasks.waits_run ran call
      rw [outstanding, outstanding, same, count_elim_post reports,
        if_neg silent, idle, if_neg (Option.some_ne_none job).symm]
      omega
  | @proceeds label target other moved same =>
      have silent : ¬ source.Raises (.timer label) call := by
        simp [Raises, calls, scanned]
      have idle : source.executed (.timer label) = none := rfl
      rw [outstanding, outstanding, same, TimerTasks.waits_step other moved,
        if_neg silent, idle, if_neg (Option.some_ne_none job).symm]
  | reports tasks same =>
      have raises : source.Raises .notifyRemoval call ↔
          source.scanned .notifyRemoval = some call := by
        simp [Raises, calls]
      have idle : source.executed .notifyRemoval = none := rfl
      rw [outstanding, outstanding, tasks, same, count_elim_post reports,
        idle, if_neg (Option.some_ne_none job).symm]
      simp only [raises]
      omega
  | @dispatches event target other stepped tasks =>
      have silent : ¬ source.Raises (.dispatcher event) call := by
        simp [Raises, calls, scanned]
      rw [outstanding, outstanding, tasks, if_neg silent, executed,
        Dispatcher.count_step (TimerCall.isReport reports) other stepped]
      omega

theorem outstanding_run (reports : call.report = some job)
    {trace : List (WatchedFolder Name × FolderWatch Name)}
    (run : Steps platform middle trace final) :
    middle.outstanding call job +
        trace.countP (fun taken => taken.1.Raises taken.2 call) =
      final.outstanding call job +
        trace.countP fun taken => taken.1.executed taken.2 = some job := by
  induction run with
  | nil => rfl
  | @snoc trace source target label _ taken induction =>
      have moved := outstanding_step reports taken
      simp only [List.countP_append, List.countP_singleton, decide_eq_true_eq]
      omega

theorem runs_of_executed (taken : step platform source label = some target)
    (executes : source.executed label = some job) :
    ∃ surroundings jobs, Dispatcher.runJob platform surroundings
      { source.dispatcher with jobs := jobs } job =
        some target.dispatcher := by
  cases label with
  | dispatcher event =>
      cases event with
      | execute surroundings =>
          obtain ⟨jobs, queue⟩ := List.head?_eq_some_iff.mp executes
          obtain ⟨dispatcher, stepped, rfl⟩ := Option.map_eq_some_iff.mp taken
          rw [Dispatcher.step, queue] at stepped
          exact ⟨surroundings, jobs, stepped⟩
      | _ => cases executes
  | _ => cases executes

/-- In every run the reports that the scheduler accepts or a scan makes are
executed once each, with the jobs that were queued before, apart from those
still on their way. -/
theorem reports_executed_once {watcher : FsWatcher}
    {dispatcher : Dispatcher Name}
    {trace : List (WatchedFolder Name × FolderWatch Name)}
    (reports : call.report = some job)
    (run : Steps platform (started watcher dispatcher) trace final) :
    dispatcher.jobs.count job +
        trace.countP (fun taken => taken.1.Raises taken.2 call) =
      trace.countP (fun taken => taken.1.executed taken.2 = some job) +
        final.outstanding call job := by
  have rescans : call ∉ FsWatcher.start watcher.dirPath.toStdString := by
    intro member
    simp only [FsWatcher.start, List.mem_cons, List.not_mem_nil, or_false]
      at member
    rcases member with rfl | rfl <;> cases reports
  have idle : (started watcher dispatcher).tasks.waits call = 0 :=
    TimerTasks.waits_foldl_schedule rescans
  have moved := outstanding_run reports run
  rw [outstanding, idle, Nat.zero_add] at moved
  rw [← Nat.add_comm (final.outstanding call job)]
  exact moved

/-- The step finds that a report is due, and no report is being made or keeps
the tag. -/
def Notices (folder : WatchedFolder Name) (label : FolderWatch Name)
    (call : TimerCall) : Prop :=
  call ∈ folder.calls label ∧
      (folder.tasks.Free call ∨ 0 < folder.tasks.waits call) ∨
    folder.scanned label = some call

instance (folder : WatchedFolder Name) (label : FolderWatch Name)
    (call : TimerCall) : Decidable (folder.Notices label call) :=
  inferInstanceAs (Decidable (_ ∨ _))

omit [DecidableEq Name] in
theorem executed_of_notices (notices : source.Notices label call) :
    source.executed label = none := by
  cases label with
  | dispatcher event => simp [Notices, calls, scanned] at notices
  | _ => rfl

theorem outstanding_of_notices (reports : call.report = some job)
    (notices : source.Notices label call)
    (taken : step platform source label = some target) :
    0 < target.outstanding call job := by
  have moved := outstanding_step reports taken
  rw [executed_of_notices notices, if_neg (Option.some_ne_none job).symm,
    Nat.add_zero] at moved
  rw [← moved]
  rcases notices with ⟨member, free | waits⟩ | found
  · rw [if_pos (.inl ⟨member, free⟩)]
    exact Nat.succ_pos _
  · rw [outstanding]
    omega
  · rw [if_pos (.inr found)]
    exact Nat.succ_pos _

/-- What is noticed is executed in a run that leaves nothing outstanding, and
the actions after the job stay in the log. -/
theorem executed_after_notices
    {trace : List (WatchedFolder Name × FolderWatch Name)}
    (reports : call.report = some job) (notices : source.Notices label call)
    (taken : step platform source label = some middle)
    (run : Steps platform middle trace final)
    (settled : final.outstanding call job = 0) :
    ∃ later ∈ trace, later.1.executed later.2 = some job ∧
      ∃ surroundings jobs ran, Dispatcher.runJob platform surroundings
        { later.1.dispatcher with jobs := jobs } job = some ran ∧
        ran.log.actions ⊆ final.dispatcher.log.actions := by
  have due := outstanding_of_notices reports notices taken
  have moved := outstanding_run reports run
  have some : 0 < trace.countP fun taken =>
      taken.1.executed taken.2 = some job := by
    omega
  obtain ⟨later, member, executes⟩ := List.countP_pos_iff.mp some
  have executes := of_decide_eq_true executes
  obtain ⟨first, last, rfl⟩ := List.append_of_mem member
  obtain ⟨target, stepped, rest⟩ := run.after
  obtain ⟨surroundings, jobs, ran⟩ := runs_of_executed stepped executes
  exact ⟨later, member, executes, surroundings, jobs, target.dispatcher, ran,
    actions_run rest⟩

/-- An action of the device on the file is in the log under the number that was
next, unless that number was taken before. -/
structure Logged (source : ActionLog Name) (deviceName : Bytes)
    (action : ActionType) (file : Bytes) (hash : Option Bytes)
    (actions : List ActionRow) (row : ActionRow) : Prop where
  stored : row ∈ actions
  owner : row.deviceName = deviceName
  number : source.syncLog.getNextLocalSeqNo.map (·.1) = some row.seqNo
  acts : ActionLog.Recorded source.actions row ∨
    row.action = action ∧ row.filename = file ∧ row.fileHash = hash

omit [DecidableEq Name] in
theorem exists_logged {log : ActionLog Name} {seqNo : Int64}
    {syncLog : SyncLog Name} {new : ActionRow} {actions : List ActionRow}
    (numbered : log.syncLog.getNextLocalSeqNo = some (seqNo, syncLog))
    (same : new.seqNo = seqNo)
    (kept : (ActionLog.insertAction { log with syncLog := syncLog }
      new).actions ⊆ actions) :
    ∃ row, Logged log new.deviceName new.action new.filename new.fileHash
      actions row := by
  by_cases recorded : ActionLog.Recorded log.actions new
  · obtain ⟨row, rowIn, sameName, sameNumber⟩ := recorded
    refine ⟨row, kept (Dispatcher.subset_insertAction _ _ rowIn), sameName, ?_,
      .inl ⟨row, rowIn, rfl, rfl⟩⟩
    rw [numbered, sameNumber, same]
    rfl
  · refine ⟨new, kept ?_, rfl, ?_, .inr ⟨rfl, rfl, rfl⟩⟩
    · have inserted := @ActionLog.insertAction_of_not_recorded _
        { log with syncLog := syncLog } new recorded
      rw [inserted]
      exact List.mem_append_right _ (List.mem_singleton_self new)
    · rw [numbered, same]
      rfl

omit [DecidableEq Name] in
theorem exists_row_of_passedOver {state : Dispatcher Name} {file : Bytes}
    {node : FileNode}
    (passed : Dispatcher.passedOver platform state file node = true) :
    ∃ row ∈ state.log.fileState, row.filename = cString file ∧
      (row.fileHash = platform.sha256 node.bytes ∨ row.isComplete = false) := by
  rw [Dispatcher.passedOver] at passed
  split at passed
  · cases passed
  · rename_i row found
    refine ⟨row, List.mem_of_find?_eq_some found, ?_, ?_⟩
    · simpa using List.find?_some found
    · rw [Bool.or_eq_true, decide_eq_true_eq, Bool.not_eq_true'] at passed
      exact passed.imp_left Eq.symm

/-- A change is noticed, and the file stays on the disk as it is.  When nothing
is outstanding any more, the dispatcher has looked at the file since: it had it
in its table, or an incomplete version of it, or it published the content.  As
hashes are printed, publishing throws, and no run goes on after it. -/
theorem noticed_changes_published
    {trace : List (WatchedFolder Name × FolderWatch Name)} {file : Bytes}
    {node : FileNode} (notices : source.Notices label (.change file))
    (taken : step platform source label = some middle)
    (run : Steps platform middle trace final)
    (unchanged : ∀ later ∈ trace, later.1.dispatcher.disk.lookup
      (platform.placeOf file) = some node)
    (settled :
      final.outstanding (.change file) (.localFileAddOrModify file) = 0) :
    ∃ later ∈ trace,
      later.1.executed later.2 = some (.localFileAddOrModify file) ∧
      ((∃ row ∈ later.1.dispatcher.log.fileState,
          row.filename = cString file ∧
            (row.fileHash = platform.sha256 node.bytes ∨
              row.isComplete = false)) ∨
        ∃ row, Logged later.1.dispatcher.log
          (platform.ndn.value later.1.dispatcher.log.syncLog.localName)
          .update file (bindBlob (platform.sha256 node.bytes))
          final.dispatcher.log.actions row) := by
  obtain ⟨later, member, executes, surroundings, jobs, target, ran, kept⟩ :=
    executed_after_notices rfl notices taken run settled
  refine ⟨later, member, executes, ?_⟩
  have found := unchanged later member
  rcases Dispatcher.didLocalFileAddOrModify_cases ran with ⟨_, passed⟩ |
    ⟨other, seqNo, syncLog, segNum, parent, tables, same, _, numbered,
      reached⟩
  · exact .inl (exists_row_of_passedOver (passed node found))
  · right
    rw [reached] at kept
    obtain rfl := Option.some.inj (same.symm.trans found)
    exact exists_logged numbered rfl kept

/-- A removal is noticed, and the file stays away.  When nothing is outstanding
any more, the dispatcher has looked for the file since: there was nothing to
remove in the log, or it published the removal. -/
theorem noticed_removals_published
    {trace : List (WatchedFolder Name × FolderWatch Name)} {file : Bytes}
    (notices : source.Notices label (.delete file))
    (taken : step platform source label = some middle)
    (run : Steps platform middle trace final)
    (absent : ∀ later ∈ trace, later.1.dispatcher.disk.lookup
      (platform.placeOf file) = none)
    (settled : final.outstanding (.delete file) (.localFileDelete file) = 0) :
    ∃ later ∈ trace,
      later.1.executed later.2 = some (.localFileDelete file) ∧
      ((∃ choice, (ActionLog.getLatestActionForFile
          later.1.dispatcher.log.actions file choice).2.1 = none) ∨
        ∃ row, Logged later.1.dispatcher.log
          (platform.ndn.wire later.1.dispatcher.log.syncLog.localName)
          .delete file none final.dispatcher.log.actions row) := by
  obtain ⟨later, member, executes, surroundings, jobs, target, ran, kept⟩ :=
    executed_after_notices rfl notices taken run settled
  refine ⟨later, member, executes, ?_⟩
  have missing := absent later member
  rcases Dispatcher.didLocalFileDelete_cases ran with
    ⟨_, present | nothing⟩ |
      ⟨seqNo, syncLog, parent, parentSeqNo, _, numbered, reached⟩
  · have here : (later.1.dispatcher.disk.lookup
        (platform.placeOf file)).isSome = true := present
    rw [missing] at here
    cases here
  · exact .inl ⟨surroundings.choice, nothing⟩
  · right
    rw [reached] at kept
    exact exists_logged numbered rfl kept

end WatchedFolder

namespace WatchedFolder

open Dispatcher

/-- The log of `/alex` after `/bob` has added the file `f`.  The request for the
file has thrown, and its row stays incomplete. -/
def addedLog : ActionLog Name :=
  ((ActionLog.opened (SyncLog.opened Name.uriOps Name.alex)).addRemoteAction
    uriDispatcher.toActionPlatform Name.bob 1
      (some (addedFile Name.bob))).2

/-- The folder `/r` is watched by a dispatcher that has started again. -/
def sharedFolder (disk : Disk) : WatchedFolder Name :=
  started ⟨['/', 'r'], [], List.nodup_nil, by simp⟩
    (restarted addedLog (fun _ => []) disk)

/-- The task is done, and the dispatcher executes a job. -/
def reportOf (task : OneTimeTask) : List (FolderWatch Name) :=
  [.timer (.evtimerAdd task), .timer (.fire task), .timer (.execute task),
    .timer .run, .timer .callbackReturns, .timer .deregisterSelf,
    .dispatcher (.execute plainSurroundings)]

/-- The states before and after the notification about `f`, and the run that
follows it, in which the task is done. -/
def notified (disk : Disk) (task : OneTimeTask) :
    Option (WatchedFolder Name × WatchedFolder Name ×
      List (WatchedFolder Name × FolderWatch Name) × WatchedFolder Name) :=
  (step uriDispatcher (sharedFolder disk)
    (.didFileChanged ['/', 'r', '/', 'f'])).bind fun middle =>
      (execute (step uriDispatcher) middle (reportOf task)).map
        fun (trace, final) => (sharedFolder disk, middle, trace, final)

theorem notified_run {disk : Disk} {task : OneTimeTask}
    {source middle final : WatchedFolder Name}
    {trace : List (WatchedFolder Name × FolderWatch Name)}
    (found : notified disk task = some (source, middle, trace, final)) :
    step uriDispatcher source (.didFileChanged ['/', 'r', '/', 'f']) =
        some middle ∧
      Steps uriDispatcher middle trace final := by
  obtain ⟨after, taken, ran⟩ := Option.bind_eq_some_iff.mp found
  obtain ⟨⟨steps, last⟩, executed, same⟩ := Option.map_eq_some_iff.mp ran
  simp only [Prod.mk.injEq] at same
  obtain ⟨rfl, rfl, rfl, rfl⟩ := same
  exact ⟨taken, execute_run executed⟩

/-- The notification about `f` is accepted, and its job is executed once. -/
theorem reports_executed_once_file :
    ∃ (trace : List (WatchedFolder Name × FolderWatch Name))
        (final : WatchedFolder Name),
      Steps uriDispatcher (sharedFolder sharedDisk) trace final ∧
      trace.countP (fun taken => taken.1.executed taken.2 =
        some (.localFileAddOrModify [0x66])) = 1 := by
  have executed : (execute (step uriDispatcher) (sharedFolder sharedDisk)
      (.didFileChanged ['/', 'r', '/', 'f'] ::
        reportOf ⟨2, [0x66]⟩)).any (fun (trace, final) =>
      trace.countP (fun taken => taken.1.Raises taken.2 (.change [0x66])) = 1 ∧
        final.outstanding (.change [0x66]) (.localFileAddOrModify [0x66]) =
          0) = true := by
    decide +kernel
  obtain ⟨⟨trace, final⟩, reached, facts⟩ :=
    (Option.any_eq_true _ _).mp executed
  obtain ⟨raised, settled⟩ := of_decide_eq_true facts
  have run : Steps uriDispatcher (sharedFolder sharedDisk) trace final :=
    execute_run reached
  have reports : (TimerCall.change [0x66]).report =
      some (.localFileAddOrModify [0x66] : DispatcherJob Name) := rfl
  have balance := reports_executed_once reports run
  rw [raised, settled, Nat.add_zero] at balance
  exact ⟨trace, final, run, balance.symm⟩

/-- The file `f` is noticed while its row is incomplete. -/
theorem noticed_changes_published_file :
    ∃ (source middle final : WatchedFolder Name)
        (trace : List (WatchedFolder Name × FolderWatch Name)),
      source.Notices (.didFileChanged ['/', 'r', '/', 'f'])
        (.change [0x66]) ∧
      Steps uriDispatcher middle trace final ∧
      ∃ later ∈ trace,
        later.1.executed later.2 = some (.localFileAddOrModify [0x66]) := by
  have executed : (notified sharedDisk ⟨2, [0x66]⟩).any
      (fun (source, _, trace, final) =>
        source.Notices (.didFileChanged ['/', 'r', '/', 'f'])
          (.change [0x66]) ∧
        (∀ later ∈ trace, later.1.dispatcher.disk.lookup
          (uriDispatcher.placeOf [0x66]) = some (.file [9] 1 420)) ∧
        final.outstanding (.change [0x66]) (.localFileAddOrModify [0x66]) =
          0) = true := by
    decide +kernel
  obtain ⟨⟨source, middle, trace, final⟩, reached, facts⟩ :=
    (Option.any_eq_true _ _).mp executed
  obtain ⟨notices, unchanged, settled⟩ := of_decide_eq_true facts
  obtain ⟨taken, run⟩ := notified_run reached
  obtain ⟨later, laterIn, executes, -⟩ :=
    noticed_changes_published notices taken run unchanged settled
  exact ⟨source, middle, final, trace, notices, run, later, laterIn, executes⟩

/-- The file `f` is not on the disk, and its removal is published. -/
theorem noticed_removals_published_file :
    ∃ (source middle final : WatchedFolder Name)
        (trace : List (WatchedFolder Name × FolderWatch Name)),
      source.Notices (.didFileChanged ['/', 'r', '/', 'f'])
        (.delete [0x66]) ∧
      Steps uriDispatcher middle trace final ∧
      (∃ row ∈ final.dispatcher.log.actions, row.action = .delete) ∧
      ∃ later ∈ trace,
        later.1.executed later.2 = some (.localFileDelete [0x66]) := by
  have executed : (notified ((∅ : Disk).insert [[0x72]] (.directory 1 493))
      ⟨2, [0x72, 0x2D, 0x66]⟩).any
      (fun (source, _, trace, final) =>
        (source.Notices (.didFileChanged ['/', 'r', '/', 'f'])
          (.delete [0x66]) ∧
        ∃ row ∈ final.dispatcher.log.actions, row.action = .delete) ∧
        (∀ later ∈ trace, later.1.dispatcher.disk.lookup
          (uriDispatcher.placeOf [0x66]) = none) ∧
        final.outstanding (.delete [0x66]) (.localFileDelete [0x66]) =
          0) = true := by
    decide +kernel
  obtain ⟨⟨source, middle, trace, final⟩, reached, facts⟩ :=
    (Option.any_eq_true _ _).mp executed
  obtain ⟨⟨notices, published⟩, absent, settled⟩ := of_decide_eq_true facts
  obtain ⟨taken, run⟩ := notified_run reached
  obtain ⟨later, laterIn, executes, -⟩ :=
    noticed_removals_published notices taken run absent settled
  exact ⟨source, middle, final, trace, notices, run, published, later, laterIn,
    executes⟩

end WatchedFolder

end ChronoShare
