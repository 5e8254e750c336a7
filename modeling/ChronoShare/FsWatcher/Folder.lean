import ChronoShare.Dispatcher.Store
import ChronoShare.FsWatcher.Removals
import ChronoShare.Scheduler.Callbacks

/-!
# The watcher and the dispatcher of a folder

What the watcher notices becomes tasks of its scheduler.  The one worker of the
scheduler scans directories, and hands reports about files to the dispatcher,
which queues them.  Notifications come on a thread of their own, in between, and
so do the timers.
-/

namespace ChronoShare

/-- The bytes of a `QString`, in UTF-8. -/
def Text.toStdString (text : Text) : Bytes :=
  text.flatMap String.utf8EncodeChar

namespace FsWatcher

/-- The names that the regular expression `exclude` matches. -/
def excluded (name : Text) : Bool :=
  name = ['.'] || name = ['.', '.'] || name = ".chronoshare".toList ||
    ['~'].isSuffixOf name || ".swp".toList.isSuffixOf name

/-- `QFileInfo::fileName`. -/
def fileName (path : Text) : Text :=
  path.rtakeWhile (· ≠ '/')

variable (watcher : FsWatcher) (onDisk : Text → Bool)

/-- `INSERT OR IGNORE INTO Files (filename) VALUES (?)`. -/
def addFile (filename : Text) (formed : Separated '/' filename) :
    FsWatcher :=
  if tracked : filename ∈ watcher.files then
    watcher
  else
    { dirPath := watcher.dirPath
      files := watcher.files ++ [filename]
      filesUnique := by
        apply watcher.filesUnique.append (List.nodup_singleton filename)
        simpa using tracked
      filesFormed := by
        intro file member
        rcases List.mem_append.mp member with known | added
        · exact watcher.filesFormed file known
        · rwa [List.mem_singleton.mp added] }

/-- The path from the monitored directory on. -/
def triggeredFile (filePath : Text) : Text :=
  Text.relativePath (filePath.drop watcher.dirPath.length)

/-- `DidFileChanged`, with the tasks it schedules. -/
def fileChanged (filePath : Text) : FsWatcher × List TimerCall :=
  (if watcher.dirPath.isPrefixOf filePath && !onDisk filePath then
      watcher.deleteFile (watcher.triggeredFile filePath)
    else watcher,
    didFileChanged watcher.dirPath.toStdString filePath.toStdString
      (onDisk filePath))

/-- One path of `ScanDirectory_NotifyUpdates_Execute`, with the tasks that are
scheduled.  The iterator gives paths that are in order. -/
def notifyUpdate (absFilePath : Text) (isFile : Bool) :
    Option (FsWatcher × List TimerCall) :=
  if excluded (fileName absFilePath) || !isFile then
    some (watcher, [])
  else if formed : Separated '/' (watcher.triggeredFile absFilePath) then
    if watcher.triggeredFile absFilePath ∈ watcher.files then
      some (watcher, [])
    else
      some ((watcher.addFile _ formed).fileChanged onDisk absFilePath)
  else
    none

end FsWatcher

/-- The job that a task leaves with the dispatcher. -/
def TimerCall.report {Name : Type} : TimerCall → Option (DispatcherJob Name)
  | .change file => some (.localFileAddOrModify file)
  | .delete file => some (.localFileDelete file)
  | _ => none

/-- A folder that is watched; the files that a scan for removals has still to
look at are listed. -/
structure WatchedFolder (Name : Type) where
  watcher : FsWatcher
  tasks : TimerTasks
  listed : List Text
  dispatcher : Dispatcher Name

/-- Notifications, the steps of the scheduler and of the scans it runs, and what
else happens to the dispatcher. -/
inductive FolderWatch (Name : Type) where
  | didDirectoryChanged (dirPath : Text)
  | didFileChanged (filePath : Text)
  | timer (label : SchedulerStep)
  | notifyUpdate (absFilePath : Text) (isFile : Bool)
  | getFilesInDir (dirPath : Text)
  | notifyRemoval
  | dispatcher (event : DispatcherEvent Name)

namespace WatchedFolder

variable {Name : Type}

/-- `filesystem::exists`. -/
def onDisk (folder : WatchedFolder Name) (path : Text) : Bool :=
  (folder.dispatcher.disk.lookup
    (Path.resolve (Path.elements (cString path.toStdString)))).isSome

def schedule (folder : WatchedFolder Name) (calls : List TimerCall) :
    WatchedFolder Name :=
  { folder with tasks := calls.foldl TimerTasks.schedule folder.tasks }

def calls (folder : WatchedFolder Name) : FolderWatch Name → List TimerCall
  | .didDirectoryChanged dirPath =>
      FsWatcher.didDirectoryChanged folder.watcher.dirPath.toStdString
        dirPath.toStdString (folder.onDisk dirPath)
  | .didFileChanged filePath =>
      (folder.watcher.fileChanged folder.onDisk filePath).2
  | .notifyUpdate absFilePath isFile =>
      ((folder.watcher.notifyUpdate folder.onDisk absFilePath isFile).map
        (·.2)).getD []
  | _ => []

def Updating (folder : WatchedFolder Name) : Prop :=
  ∃ call ∈ folder.tasks.calling,
    ∃ dirPath, call = .updates dirPath ∨ call = .rescanUpdates dirPath

/-- The worker scans the directory for removals. -/
def Removing (folder : WatchedFolder Name) (dirPath : Text) : Prop :=
  folder.tasks.calling = some (.removals dirPath.toStdString) ∨
    folder.tasks.calling = some (.rescanRemovals dirPath.toStdString)

instance (folder : WatchedFolder Name) : Decidable folder.Updating :=
  decidable_of_iff
    (folder.tasks.calling.any fun call =>
      match call with
      | .updates _ | .rescanUpdates _ => true
      | _ => false)
    (by
      cases calling : folder.tasks.calling with
      | none => simp [Updating, calling]
      | some call => cases call <;> simp [Updating, calling])

instance (folder : WatchedFolder Name) (dirPath : Text) :
    Decidable (folder.Removing dirPath) :=
  inferInstanceAs (Decidable (_ ∨ _))

/-- The dispatcher with the calls of `m_onDelete` by a scan in its queue. -/
def reported (dispatcher : Dispatcher Name) (removed : List Text) :
    Dispatcher Name :=
  removed.foldl (fun dispatcher filename =>
    dispatcher.post (.localFileDelete filename.toStdString)) dispatcher

variable (platform : DispatcherPlatform Name)

/-- The callback of a report only leaves a job; a scan goes on in steps of its
own, and is over when no listed file is left. -/
def step [DecidableEq Name] (folder : WatchedFolder Name) :
    FolderWatch Name → Option (WatchedFolder Name)
  | .didDirectoryChanged dirPath =>
      some (folder.schedule (folder.calls (.didDirectoryChanged dirPath)))
  | .didFileChanged filePath =>
      let (watcher, calls) := folder.watcher.fileChanged folder.onDisk filePath
      some { folder.schedule calls with watcher := watcher }
  | .timer .run =>
      (folder.tasks.step .run).map fun tasks =>
        { folder with
          tasks := tasks
          dispatcher := (tasks.calling.bind TimerCall.report).elim
            folder.dispatcher folder.dispatcher.post }
  | .timer .callbackReturns =>
      if folder.listed = [] then
        (folder.tasks.step .callbackReturns).map fun tasks =>
          { folder with tasks := tasks }
      else
        none
  | .timer label =>
      (folder.tasks.step label).map fun tasks =>
        { folder with tasks := tasks }
  | .notifyUpdate absFilePath isFile =>
      if folder.Updating then
        (folder.watcher.notifyUpdate folder.onDisk absFilePath isFile).map
          fun (watcher, calls) =>
            { folder.schedule calls with watcher := watcher }
      else
        none
  | .getFilesInDir dirPath =>
      if folder.Removing dirPath then
        some { folder with
          listed := folder.watcher.getFilesInDir
            (folder.watcher.triggeredFile dirPath) }
      else
        none
  | .notifyRemoval =>
      match folder.listed with
      | [] => none
      | file :: listed =>
          let (watcher, removed) :=
            FsWatcher.notifyRemoval folder.onDisk (folder.watcher, []) file
          some { folder with
            watcher := watcher
            listed := listed
            dispatcher := reported folder.dispatcher removed }
  | .dispatcher (.localFileAddOrModify _) => none
  | .dispatcher (.localFileDelete _) => none
  | .dispatcher event =>
      (Dispatcher.step platform folder.dispatcher event).map fun dispatcher =>
        { folder with dispatcher := dispatcher }

abbrev Steps [DecidableEq Name] (start : WatchedFolder Name) :
    List (WatchedFolder Name × FolderWatch Name) → WatchedFolder Name → Prop :=
  Run (fun source label target => step platform source label = some target)
    start

/-- A watcher that has just started on the directory. -/
def started (watcher : FsWatcher) (dispatcher : Dispatcher Name) :
    WatchedFolder Name :=
  (⟨watcher, .initial, [], dispatcher⟩ : WatchedFolder Name).schedule
    (FsWatcher.start watcher.dirPath.toStdString)

variable {platform} {onDisk : Text → Bool}

theorem notifyRemoval_eq (watcher : FsWatcher) (names : List Text)
    (file : Text) :
    FsWatcher.notifyRemoval onDisk (watcher, names) file =
      ((FsWatcher.notifyRemoval onDisk (watcher, []) file).1,
        names ++ (FsWatcher.notifyRemoval onDisk (watcher, []) file).2) := by
  simp only [FsWatcher.notifyRemoval]
  split_ifs
  · simp
  · simp

theorem foldl_notifyRemoval_eq (watcher : FsWatcher)
    (names listed : List Text) :
    listed.foldl (FsWatcher.notifyRemoval onDisk) (watcher, names) =
      ((listed.foldl (FsWatcher.notifyRemoval onDisk) (watcher, [])).1,
        names ++
          (listed.foldl (FsWatcher.notifyRemoval onDisk) (watcher, [])).2) := by
  induction listed generalizing watcher names with
  | nil => simp
  | cons file listed induction =>
      rw [List.foldl_cons, List.foldl_cons, notifyRemoval_eq watcher names,
        induction, induction _ (FsWatcher.notifyRemoval onDisk (watcher, [])
          file).2, List.append_assoc]

theorem disk_reported (dispatcher : Dispatcher Name) (removed : List Text) :
    (reported dispatcher removed).disk = dispatcher.disk := by
  induction removed generalizing dispatcher with
  | nil => rfl
  | cons _ _ induction => exact induction _

variable [DecidableEq Name]

theorem execute_notifyRemoval (listed : List Text)
    (folder : WatchedFolder Name) :
    let scanned := listed.foldl (FsWatcher.notifyRemoval folder.onDisk)
      (folder.watcher, [])
    ∃ trace, execute (step platform) { folder with listed := listed }
      (List.replicate listed.length .notifyRemoval) =
        some (trace,
          ⟨scanned.1, folder.tasks, [],
            reported folder.dispatcher scanned.2⟩) := by
  induction listed generalizing folder with
  | nil => exact ⟨[], rfl⟩
  | cons file listed induction =>
      let first := FsWatcher.notifyRemoval folder.onDisk
        (folder.watcher, []) file
      let next : WatchedFolder Name :=
        ⟨first.1, folder.tasks, listed, reported folder.dispatcher first.2⟩
      have sameDisk : next.onDisk = folder.onDisk := by
        funext path
        rw [onDisk, onDisk, disk_reported]
      obtain ⟨trace, executed⟩ := induction next
      rw [sameDisk] at executed
      have taken : step platform { folder with listed := file :: listed }
          .notifyRemoval = some next := rfl
      have split : (file :: listed).foldl
          (FsWatcher.notifyRemoval folder.onDisk) (folder.watcher, []) =
            ((listed.foldl (FsWatcher.notifyRemoval folder.onDisk)
              (first.1, [])).1,
              first.2 ++ (listed.foldl (FsWatcher.notifyRemoval folder.onDisk)
                (first.1, [])).2) := by
        rw [List.foldl_cons]
        exact foldl_notifyRemoval_eq first.1 first.2 listed
      refine ⟨({ folder with listed := file :: listed }, .notifyRemoval) ::
        trace, ?_⟩
      rw [split, List.length_cons, List.replicate_succ, execute, taken]
      simp only
      rw [executed, reported, reported, List.foldl_append]
      rfl

/-- The steps of a scan for removals, with nothing in between, come to what the
scan as a whole reports and forgets. -/
theorem execute_scan (folder : WatchedFolder Name) {dirPath : Text}
    (removing : folder.Removing dirPath) :
    let listed := folder.watcher.getFilesInDir
      (folder.watcher.triggeredFile dirPath)
    let scanned := folder.watcher.scanDirectory_NotifyRemovals_Execute
      folder.onDisk dirPath
    ∃ trace, execute (step platform) folder
      (.getFilesInDir dirPath ::
        List.replicate listed.length .notifyRemoval) =
        some (trace,
          ⟨scanned.1, folder.tasks, [],
            reported folder.dispatcher scanned.2⟩) := by
  intro listed scanned
  obtain ⟨trace, executed⟩ := @execute_notifyRemoval Name platform _ listed
    folder
  have taken : step platform folder (.getFilesInDir dirPath) =
      some { folder with listed := listed } := by
    rw [step, if_pos removing]
  refine ⟨(folder, .getFilesInDir dirPath) :: trace, ?_⟩
  rw [execute, taken]
  simp only
  rw [executed]
  rfl

end WatchedFolder

end ChronoShare
