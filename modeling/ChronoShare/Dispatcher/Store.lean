import ChronoShare.ActionLog.FileView
import ChronoShare.ObjectStore.Store
import ChronoShare.Support.Disk

/-!
# The dispatcher

The dispatcher connects the log of actions, the databases of segments and the
files under the root directory.  Notifications and callbacks become jobs of an
executor with one thread; an action that arrives is added on the thread of its
fetcher, whose trigger may leave a job for the removal of a file.
-/

namespace ChronoShare

/-- What the dispatcher takes from its libraries and from its constructor.  The
base name of a file is made from its hash, and `baseNameHash` is the hash that
the callbacks read back from it. -/
structure DispatcherPlatform (Name : Type) extends ActionPlatform Name where
  sha256 : Bytes → Bytes
  hashText : Bytes → Bytes
  baseNameHash : Bytes → Bytes
  rootDir : Path

namespace DispatcherPlatform

variable {Name : Type} (platform : DispatcherPlatform Name)

def objects : ObjectPlatform Name :=
  ⟨platform.ndn, platform.sha256, platform.hashText⟩

/-- `m_rootDir / filename`, which the system reads up to the first NUL. -/
def pathOf (filename : Bytes) : Path :=
  platform.rootDir ++ Path.elements (cString filename)

/-- The place on the disk that the path leads to. -/
def placeOf (filename : Bytes) : Path :=
  Path.resolve (platform.pathOf filename)

end DispatcherPlatform

/-- The functions that the executor runs. -/
inductive DispatcherJob (Name : Type) where
  | localFileAddOrModify (relativeFilePath : Bytes)
  | localFileDelete (relativeFilePath : Bytes)
  | actionApplyDelete (filename : Bytes)
  | fileSegmentFetch (deviceName : Name) (hash : Bytes) (segment : UInt32)
      (content : Bytes)
  | fileFetchComplete (deviceName : Name) (hash : Bytes)
  deriving DecidableEq

/-- A range of segments given to the fetcher of files. -/
structure FileFetch (Name : Type) where
  deviceName : Name
  hash : Bytes
  maxSeqNo : UInt64

structure Dispatcher (Name : Type) where
  log : ActionLog Name
  tables : Bytes → ObjectTable
  objectDbMap : List Bytes
  fileFetches : List (FileFetch Name)
  disk : Disk
  jobs : List (DispatcherJob Name)

/-- What a job meets besides the state: the clock, the order of equal rows, the
memory it reads, and the permissions of a new directory. -/
structure Surroundings where
  now : Int64
  choice : Nat
  memory : ObjectManager.Memory
  message : Nat → UInt8
  beyond : Bytes
  directoryMode : UInt32

inductive DispatcherEvent (Name : Type) where
  | userChange (place : Path) (node : Option FileNode)
  | localFileAddOrModify (relativeFilePath : Bytes)
  | localFileDelete (relativeFilePath : Bytes)
  | actionFetch (deviceName : Name) (seqNo : UInt64)
      (actionPco : Option (Data Name))
  | fileSegmentFetch (deviceName : Name) (hash : Bytes) (seqNo : UInt64)
      (content : Bytes)
  | fileFetchComplete (deviceName : Name) (hash : Bytes)
  | execute (surroundings : Surroundings)

namespace FileRow

/-- The time as the field of a message, whose type is narrower. -/
def itemMtime (row : FileRow) : UInt32 :=
  (readTime row.fileMtime).toUInt64.toUInt32

def itemMode (row : FileRow) : UInt32 :=
  row.fileChmod.toUInt32

end FileRow

namespace Disk

/-- The empty directories above a removed file, up to the root.  The path is
given from its last element on, and the paths that are removed are listed. -/
def removeParents (root : Path) : Disk → List Bytes → Disk × List Path
  | disk, [] => (disk, [])
  | disk, element :: parents =>
      let parentPath := (element :: parents).reverse
      if root < parentPath then
        if disk.isEmpty (Path.resolve parentPath) then
          let (cleaned, removed) := removeParents root
            (disk.erase (Path.resolve parentPath)) parents
          (cleaned, parentPath :: removed)
        else
          (disk, [])
      else
        (disk, [])

/-- An error while removing ends the removal. -/
def removeFile (disk : Disk) (root absolutePath : Path) : Disk × List Path :=
  if (disk.lookup (Path.resolve absolutePath)).isSome then
    match disk.remove (Path.resolve absolutePath) with
    | none => (disk, [])
    | some after =>
        let (cleaned, removed) :=
          after.removeParents root absolutePath.dropLast.reverse
        (cleaned, absolutePath :: removed)
  else
    (disk, [])

end Disk

namespace Dispatcher

variable {Name : Type} (platform : DispatcherPlatform Name)

/-- The trigger of the log calls back for every deletion it applies, among the
actions that a call has added. -/
def removals (before after : ActionLog Name) : List (DispatcherJob Name) :=
  (after.actions.drop before.actions.length).flatMap fun new =>
    if new.action = .delete ∧ ActionLog.triggered after.actions new then
      [.actionApplyDelete (cString new.filename)]
    else
      []

/-- The file of an update that was added is looked up in its database, and
fetched if it is not there.  `none` is the exception for a hash whose text names
no database. -/
def requestFile (state : Dispatcher Name) (deviceName : Name)
    (item : ActionItem) : Option (Dispatcher Name) :=
  match item.action with
  | .delete => some state
  | .update =>
      let hash := item.fileHash.getD []
      let text := platform.hashText hash
      (ObjectDb.location text).map fun _ =>
        if ObjectDb.doesExist platform.ndn (state.tables text) deviceName then
          { state with
            jobs := state.jobs ++ [.fileFetchComplete deviceName
              (platform.baseNameHash hash)] }
        else
          { state with
            objectDbMap :=
              if hash ∈ state.objectDbMap then state.objectDbMap
              else hash :: state.objectDbMap
            fileFetches := state.fileFetches ++
              [⟨deviceName, hash, item.segNum.getD 0 - 1⟩] }

def didFetchManagerActionFetch (state : Dispatcher Name) (deviceName : Name)
    (seqNo : UInt32) (actionPco : Option (Data Name)) :
    Option (Dispatcher Name) :=
  let (action, log) := state.log.addRemoteAction platform.toActionPlatform
    deviceName seqNo.toUInt64.toInt64 actionPco
  let state := { state with
    log := log
    jobs := state.jobs ++ removals state.log log }
  match action with
  | none => some state
  | some item => requestFile platform state deviceName item

/-- A notification is passed over when the file is the one of its row, or when
its row is not complete. -/
def passedOver (state : Dispatcher Name) (relativeFilePath : Bytes)
    (node : FileNode) : Bool :=
  match state.log.fileState.find? fun row =>
      row.filename = cString relativeFilePath with
  | none => false
  | some row =>
      platform.sha256 node.bytes = row.fileHash || !row.isComplete

def didLocalFileAddOrModify (state : Dispatcher Name)
    (surroundings : Surroundings) (relativeFilePath : Bytes) :
    Option (Dispatcher Name) :=
  match state.disk.lookup (platform.placeOf relativeFilePath) with
  | none => some state
  | some node =>
      if passedOver platform state relativeFilePath node then
        some state
      else
        match ObjectManager.localFileToObjects platform.objects
            ⟨state.tables, fun _ => none⟩ surroundings.memory node.bytes
            state.log.syncLog.localName with
        | none => none
        | some (hash, segNum, storage) =>
            (state.log.addLocalActionUpdate platform.toActionPlatform
              surroundings.choice surroundings.now relativeFilePath hash
              node.mtime node.mode.toInt32 (Int32.ofNat segNum)).map
                fun added =>
                  { state with log := added.2, tables := storage.tables }

def didLocalFileDelete (state : Dispatcher Name)
    (surroundings : Surroundings) (relativeFilePath : Bytes) :
    Option (Dispatcher Name) :=
  if (state.disk.lookup (platform.placeOf relativeFilePath)).isSome then
    some state
  else
    (state.log.addLocalActionDelete platform.toActionPlatform
      surroundings.choice surroundings.now surroundings.message
      relativeFilePath).map fun added =>
        { state with
          log := added.2
          jobs := state.jobs ++ removals state.log added.2 }

def didActionLogActionApplyDelete (state : Dispatcher Name)
    (filename : Bytes) : Dispatcher Name :=
  { state with
    disk := (state.disk.removeFile platform.rootDir
      (platform.pathOf filename)).1 }

def didFetchManagerFileSegmentFetch (state : Dispatcher Name)
    (surroundings : Surroundings) (deviceName : Name) (hash : Bytes)
    (segment : UInt32) (content : Bytes) : Dispatcher Name :=
  if hash ∈ state.objectDbMap then
    let text := platform.hashText hash
    { state with
      tables := Function.update state.tables text
        (ObjectDb.saveContentObject platform.ndn (state.tables text)
          deviceName segment.toNat
          (boundContent content surroundings.beyond)) }
  else
    state

/-- The content that the segments of a device assemble to.  The outer `none` is
an exception, the inner one a database without the segments. -/
def assembledContent (tables : Bytes → ObjectTable) (deviceName : Name)
    (hash : Bytes) : Option (Option Bytes) :=
  (ObjectManager.objectsToLocalFile platform.objects
    ⟨tables, fun _ => none⟩ deviceName hash []).map fun result =>
      result.2.files []

/-- The file of a row exists on the disk with its time, permissions and
hash. -/
def upToDate (disk : Disk) (row : FileRow) (hash : Bytes) : Bool :=
  match disk.lookup (platform.placeOf row.filename) with
  | none => false
  | some node =>
      node.mtime = row.itemMtime.toUInt64.toInt64 ∧
        node.mode = row.itemMode ∧ platform.sha256 node.bytes = hash

/-- `none` is an exception that is not caught. -/
def assembleFile (surroundings : Surroundings) (deviceName : Name)
    (hash : Bytes) (state : Dispatcher Name) (row : FileRow) :
    Option (Dispatcher Name) :=
  if upToDate platform state.disk row hash then
    some state
  else
    match assembledContent platform state.tables deviceName hash with
    | none => none
    | some none => some state
    | some (some content) =>
        (state.disk.writeFile (platform.pathOf row.filename) content
          row.itemMtime.toUInt64.toInt64 (row.itemMode &&& 0o7777)
          surroundings.now surroundings.directoryMode).map fun disk =>
            { state with
              disk := disk
              log := { state.log with
                fileState := FileState.setFileComplete state.log.fileState
                  row.filename } }

/-- The handle of the database is closed first. -/
def didFetchManagerFileFetchComplete (state : Dispatcher Name)
    (surroundings : Surroundings) (deviceName : Name) (hash : Bytes) :
    Option (Dispatcher Name) :=
  let filesToAssemble :=
    state.log.fileState.filter fun row => row.fileHash = hash
  filesToAssemble.foldlM (assembleFile platform surroundings deviceName hash)
    { state with
      objectDbMap := state.objectDbMap.filter fun other => other ≠ hash }

def runJob (surroundings : Surroundings) (state : Dispatcher Name) :
    DispatcherJob Name → Option (Dispatcher Name)
  | .localFileAddOrModify relativeFilePath =>
      didLocalFileAddOrModify platform state surroundings relativeFilePath
  | .localFileDelete relativeFilePath =>
      didLocalFileDelete platform state surroundings relativeFilePath
  | .actionApplyDelete filename =>
      some (didActionLogActionApplyDelete platform state filename)
  | .fileSegmentFetch deviceName hash segment content =>
      some (didFetchManagerFileSegmentFetch platform state surroundings
        deviceName hash segment content)
  | .fileFetchComplete deviceName hash =>
      didFetchManagerFileFetchComplete platform state surroundings deviceName
        hash

def post (state : Dispatcher Name) (job : DispatcherJob Name) : Dispatcher Name :=
  { state with jobs := state.jobs ++ [job] }

/-- The numbers of actions and segments are cut to 32 bits by the callbacks.
The fetcher of files delivers segments of the ranges it was given. -/
def step [DecidableEq Name] (state : Dispatcher Name) :
    DispatcherEvent Name → Option (Dispatcher Name)
  | .userChange place node =>
      some { state with
        disk := match node with
          | none => state.disk.erase place
          | some node => state.disk.insert place node }
  | .localFileAddOrModify relativeFilePath =>
      some (state.post (.localFileAddOrModify relativeFilePath))
  | .localFileDelete relativeFilePath =>
      some (state.post (.localFileDelete relativeFilePath))
  | .actionFetch deviceName seqNo actionPco =>
      didFetchManagerActionFetch platform state deviceName seqNo.toUInt32
        actionPco
  | .fileSegmentFetch deviceName hash seqNo content =>
      if ∃ fetch ∈ state.fileFetches, fetch.deviceName = deviceName ∧
          fetch.hash = hash ∧ seqNo ≤ fetch.maxSeqNo then
        some (state.post (.fileSegmentFetch deviceName
          (platform.baseNameHash hash) seqNo.toUInt32 content))
      else
        none
  | .fileFetchComplete deviceName hash =>
      if ∃ fetch ∈ state.fileFetches, fetch.deviceName = deviceName ∧
          fetch.hash = hash then
        some (state.post
          (.fileFetchComplete deviceName (platform.baseNameHash hash)))
      else
        none
  | .execute surroundings =>
      match state.jobs with
      | [] => none
      | job :: jobs =>
          runJob platform surroundings { state with jobs := jobs } job

abbrev Steps [DecidableEq Name] (start : Dispatcher Name) :
    List (Dispatcher Name × DispatcherEvent Name) → Dispatcher Name → Prop :=
  Run (fun source label target => step platform source label = some target)
    start

/-- A dispatcher that has just started on a disk. -/
def opened (syncLog : SyncLog Name) (disk : Disk) : Dispatcher Name :=
  ⟨ActionLog.opened syncLog, fun _ => [], [], [], disk, []⟩

/-- A dispatcher that has started on the databases and the files of an earlier
one. -/
def restarted (log : ActionLog Name) (tables : Bytes → ObjectTable)
    (disk : Disk) : Dispatcher Name :=
  ⟨log, tables, [], [], disk, []⟩

/-- What the arrival of an action changes: the log, the jobs, and what the
fetcher of files is to do. -/
structure Arrives (deviceName : Name) (seqNo : UInt32)
    (actionPco : Option (Data Name)) (source target : Dispatcher Name) :
    Prop where
  log : target.log = (source.log.addRemoteAction platform.toActionPlatform
    deviceName seqNo.toUInt64.toInt64 actionPco).2
  tables : target.tables = source.tables
  disk : target.disk = source.disk
  jobs : ∃ completions : List (DispatcherJob Name),
    target.jobs = source.jobs ++ removals source.log target.log ++
      completions ∧
      ∀ job ∈ completions, ∃ hash, job = .fileFetchComplete deviceName hash

theorem arrives_of_actionFetch {platform : DispatcherPlatform Name}
    {deviceName : Name} {seqNo : UInt32} {actionPco : Option (Data Name)}
    {source target : Dispatcher Name}
    (fetched : didFetchManagerActionFetch platform source deviceName seqNo
      actionPco = some target) :
    Arrives platform deviceName seqNo actionPco source target := by
  rw [didFetchManagerActionFetch] at fetched
  dsimp only at fetched
  split at fetched
  · rw [← Option.some.inj fetched]
    exact ⟨rfl, rfl, rfl, [], by simp⟩
  · next item _ =>
      rw [requestFile] at fetched
      split at fetched
      · rw [← Option.some.inj fetched]
        exact ⟨rfl, rfl, rfl, [], by simp⟩
      · obtain ⟨location, _, rfl⟩ := Option.map_eq_some_iff.mp fetched
        split
        · exact ⟨rfl, rfl, rfl,
            [.fileFetchComplete deviceName
              (platform.baseNameHash (item.fileHash.getD []))],
            rfl, by simp⟩
        · exact ⟨rfl, rfl, rfl, [], by simp⟩

end Dispatcher

end ChronoShare
