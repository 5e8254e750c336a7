import ChronoShare.Dispatcher.Segments
import ChronoShare.Dispatcher.Trigger
import ChronoShare.StateServer.Restore
import ChronoShare.Support.Run

/-!
# The root directory as a boundary

The names of files come from other devices, and are appended to the root
directory as they are.  What is removed and written stays below the root as
long as the names of the actions that are applied lead there, and the removal
of empty parents does not empty the root itself.
-/

namespace ChronoShare

/-- What happens to the shared folder: an event of the dispatcher, or the
command to restore a file. -/
inductive FolderEvent (Name : Type) where
  | dispatcher (label : DispatcherEvent Name)
  | restore (surroundings : Surroundings) (component : Bytes)
      (version : UInt64) (filehash : Bytes)

/-- The names never lead back to the root or above it. -/
def Path.Confined (root names : Path) : Prop :=
  ∀ shorter ∈ names.inits, shorter ≠ [] → Path.Inside root (root ++ shorter)

instance (root names : Path) : Decidable (Path.Confined root names) :=
  inferInstanceAs (Decidable (∀ shorter ∈ names.inits, _ → _))

/-- The root has an entry that the path does not lead through. -/
def Disk.Anchored (disk : Disk) (root path : Path) : Prop :=
  ∃ entry ∈ disk.keys, entry ≠ [] ∧ entry.dropLast = Path.resolve root ∧
    ∀ shorter ∈ path.inits, Path.resolve shorter ≠ entry

instance (disk : Disk) (root path : Path) :
    Decidable (disk.Anchored root path) :=
  inferInstanceAs (Decidable (∃ entry ∈ disk.keys, _ ∧ _ ∧ ∀ shorter ∈ _, _))

namespace Disk

variable {disk after : Disk} {root : Path}

theorem Anchored.parent {path : Path} {element : Bytes}
    (anchored : disk.Anchored root (path ++ [element])) :
    disk.Anchored root path := by
  obtain ⟨entry, stored, nonempty, below, apart⟩ := anchored
  refine ⟨entry, stored, nonempty, below, ?_⟩
  intro shorter member
  apply apart
  rw [List.mem_inits] at member ⊢
  exact member.trans (List.prefix_append _ _)

theorem Anchored.erase {path place : Path} (anchored : disk.Anchored root path)
    (onPath : ∃ shorter ∈ path.inits, Path.resolve shorter = place)
    (kept : ∀ other, other ≠ place → other ∈ disk → other ∈ after) :
    after.Anchored root path := by
  obtain ⟨entry, stored, nonempty, below, apart⟩ := anchored
  obtain ⟨shorter, member, leads⟩ := onPath
  refine ⟨entry, ?_, nonempty, below, apart⟩
  apply AList.mem_keys.mp
  apply kept entry
  · intro same
    exact apart shorter member (leads.trans same.symm)
  · exact AList.mem_keys.mpr stored

theorem Anchored.isEmpty {path : Path} (anchored : disk.Anchored root path) :
    disk.isEmpty (Path.resolve root) = false := by
  obtain ⟨entry, stored, nonempty, below, _⟩ := anchored
  exact isEmpty_of_mem (AList.mem_keys.mpr stored) nonempty below

theorem inside_of_removeParents {parents : List Bytes}
    (inside : Path.Inside root parents.reverse ∨
      Path.resolve parents.reverse = Path.resolve root)
    (anchored : disk.Anchored root parents.reverse) :
    ∀ path ∈ (disk.removeParents root parents).2, Path.Inside root path := by
  induction parents generalizing disk with
  | nil => simp [removeParents]
  | cons element parents induction =>
      rw [removeParents]
      split_ifs with deeper empty
      · rcases inside with within | leads
        · intro path member
          rcases List.mem_cons.mp member with same | above
          · rw [same]
            exact within
          · have stays : Disk.Anchored
                (disk.erase (Path.resolve (element :: parents).reverse)) root
                (element :: parents).reverse := by
              apply anchored.erase
              · exact ⟨_, (List.mem_inits _ _).mpr (List.prefix_refl _), rfl⟩
              · intro other apart stored
                exact AList.mem_erase.mpr ⟨apart, stored⟩
            rw [List.reverse_cons] at within stays above
            exact induction within.parent stays.parent path above
        · rw [leads, anchored.isEmpty] at empty
          exact absurd empty Bool.false_ne_true
      · simp
      · simp

theorem inside_of_removeParents_confined {names : Path}
    (confined : Path.Confined root names) :
    ∀ path ∈ (disk.removeParents root (root ++ names).reverse).2,
      Path.Inside root path := by
  induction names using List.reverseRecOn generalizing disk with
  | nil =>
      rw [List.append_nil]
      cases parents : root.reverse with
      | nil => simp [removeParents]
      | cons element parents' =>
          have same : (element :: parents').reverse = root := by
            rw [← parents, List.reverse_reverse]
          rw [removeParents, same, if_neg (List.lt_irrefl root)]
          simp
  | append_singleton names name induction =>
      have earlier : Path.Confined root names := by
        intro shorter member
        apply confined
        rw [List.mem_inits] at member ⊢
        exact member.trans (List.prefix_append _ _)
      rw [← List.append_assoc, List.reverse_append, List.reverse_singleton,
        List.singleton_append, removeParents]
      split_ifs
      · intro path member
        rcases List.mem_cons.mp member with same | above
        · rw [same, List.reverse_cons, List.reverse_reverse, List.append_assoc]
          apply confined
          · exact (List.mem_inits _ _).mpr (List.prefix_refl _)
          · simp
        · exact induction earlier path above
      · simp
      · simp

theorem inside_of_removeFile {names : Path}
    (inside : Path.Inside root (root ++ names))
    (bounded : Path.Confined root names ∨ disk.Anchored root (root ++ names)) :
    ∀ path ∈ (disk.removeFile root (root ++ names)).2,
      Path.Inside root path := by
  rw [removeFile]
  split_ifs
  · split
    · simp
    · next after removed =>
        intro path member
        rcases List.mem_cons.mp member with same | above
        · rw [same]
          exact inside
        · rcases List.eq_nil_or_concat names with none | ⟨shorter, name, split⟩
          · rw [none, List.append_nil] at inside
            exact absurd rfl inside.2
          · rw [List.concat_eq_append] at split
            subst split
            rw [← List.append_assoc, List.dropLast_concat] at above
            rcases bounded with confined | anchored
            · apply inside_of_removeParents_confined _ path above
              intro other member
              apply confined
              rw [List.mem_inits] at member ⊢
              exact member.trans (List.prefix_append _ _)
            · rw [← List.append_assoc] at inside anchored removed
              apply inside_of_removeParents _ _ path above
              · rw [List.reverse_reverse]
                exact inside.parent
              · rw [List.reverse_reverse]
                have stays : after.Anchored root
                    (root ++ shorter ++ [name]) := by
                  apply anchored.erase
                  · exact ⟨_, (List.mem_inits _ _).mpr (List.prefix_refl _),
                      rfl⟩
                  · intro other apart stored
                    exact (mem_remove removed).mpr ⟨apart, stored⟩
                exact stays.parent
  · simp

end Disk

namespace Dispatcher

variable {Name : Type} (platform : DispatcherPlatform Name)

def assembles (state : Dispatcher Name) (deviceName : Name) (hash : Bytes)
    (row : FileRow) : Bool :=
  !upToDate platform state.disk row hash &&
    match assembledContent platform state.tables deviceName hash with
    | some (some _) => true
    | _ => false

/-- The paths that the completion of a fetch writes, file by file. -/
def assembledPaths (surroundings : Surroundings) (deviceName : Name)
    (hash : Bytes) : Dispatcher Name → List FileRow → List Path
  | _, [] => []
  | state, row :: rows =>
      match assembleFile platform surroundings deviceName hash state row with
      | none => []
      | some next =>
          (if assembles platform state deviceName hash row then
            [platform.pathOf row.filename]
          else
            []) ++ assembledPaths surroundings deviceName hash next rows

/-- The paths that an event removes or writes. -/
def touched (state : Dispatcher Name) : FolderEvent Name → List Path
  | .dispatcher (.execute surroundings) =>
      match state.jobs with
      | .actionApplyDelete filename :: _ =>
          (state.disk.removeFile platform.rootDir
            (platform.pathOf filename)).2
      | .fileFetchComplete deviceName hash :: jobs =>
          assembledPaths platform surroundings deviceName hash
            { state with
              jobs := jobs
              objectDbMap := state.objectDbMap.filter fun other =>
                other ≠ hash }
            (state.log.fileState.filter fun row => row.fileHash = hash)
      | _ => []
  | .dispatcher _ => []
  | .restore surroundings component version filehash =>
      match StateServer.lookupAction state.log.actions (Uri.toUri component)
          version.toInt64 filehash surroundings.choice,
        StateServer.cmdRestoreFile platform state surroundings component
          version filehash with
      | some row, some (.restored, _) => [platform.pathOf row.filename]
      | _, _ => []

def folderStep [DecidableEq Name] (state : Dispatcher Name) :
    FolderEvent Name → Option (Dispatcher Name)
  | .dispatcher label => step platform state label
  | .restore surroundings component version filehash =>
      (StateServer.cmdRestoreFile platform state surroundings component
        version filehash).map (·.2)

abbrev FolderSteps [DecidableEq Name] (start : Dispatcher Name) :
    List (Dispatcher Name × FolderEvent Name) → Dispatcher Name → Prop :=
  Run (fun source label target =>
    folderStep platform source label = some target) start

/-- The file lies below the root directory. -/
def InsideRoot (filename : Bytes) : Prop :=
  Path.Inside platform.rootDir (platform.pathOf filename)

instance (filename : Bytes) : Decidable (InsideRoot platform filename) :=
  inferInstanceAs (Decidable (_ ∧ _))

/-- An action whose file lies elsewhere is applied, or a file is removed whose
path leads back to a root that holds nothing else. -/
def Strays (state : Dispatcher Name) : FolderEvent Name → Prop
  | .dispatcher (.actionFetch deviceName seqNo (some data)) =>
      match platform.parse data.content with
      | none => False
      | some item =>
          ActionLog.Fires state.log (ActionLog.remoteRow
            platform.toActionPlatform deviceName
            seqNo.toUInt32.toUInt64.toInt64 item data.content) ∧
          ¬ InsideRoot platform item.filename
  | .dispatcher (.localFileAddOrModify relativeFilePath) =>
      ¬ InsideRoot platform relativeFilePath
  | .dispatcher (.localFileDelete relativeFilePath) =>
      ¬ InsideRoot platform relativeFilePath
  | .dispatcher (.execute _) =>
      match state.jobs with
      | .actionApplyDelete filename :: _ =>
          ¬ (Path.Confined platform.rootDir
              (Path.elements (cString filename)) ∨
            state.disk.Anchored platform.rootDir (platform.pathOf filename))
      | _ => False
  | _ => False

instance (state : Dispatcher Name) (label : FolderEvent Name) :
    Decidable (Strays platform state label) := by
  unfold Strays
  split
  · generalize platform.parse _ = parsed
    rcases parsed with _ | item <;> infer_instance
  · infer_instance
  · infer_instance
  · split <;> infer_instance
  · infer_instance

/-- The path of the file that a job is about. -/
def JobInside : DispatcherJob Name → Prop
  | .localFileAddOrModify relativeFilePath =>
      InsideRoot platform relativeFilePath
  | .localFileDelete relativeFilePath =>
      InsideRoot platform relativeFilePath
  | .actionApplyDelete filename => InsideRoot platform filename
  | _ => True

/-- Files and jobs are about places below the root. -/
structure Contained (state : Dispatcher Name) : Prop where
  files : ∀ row ∈ state.log.fileState, InsideRoot platform row.filename
  jobs : ∀ job ∈ state.jobs, JobInside platform job

variable {platform}

theorem insideRoot_cString (filename : Bytes) :
    InsideRoot platform (cString filename) ↔ InsideRoot platform filename := by
  rw [InsideRoot, InsideRoot, DispatcherPlatform.pathOf_cString]

theorem files_insertAction {log : ActionLog Name} {new : ActionRow}
    (files : ∀ row ∈ log.fileState, InsideRoot platform row.filename)
    (applied : ActionLog.Fires log new →
      InsideRoot platform new.filename) :
    ∀ row ∈ (log.insertAction new).fileState,
      InsideRoot platform row.filename := by
  intro row member
  rcases ActionLog.mem_insertAction_fileState member with
    stored | ⟨fires, _, named, _⟩
  · exact files row stored
  · rw [named]
    exact (insideRoot_cString _).mpr (applied fires)

theorem jobs_insertAction {log : ActionLog Name} {new : ActionRow}
    (applied : ActionLog.Fires log new →
      InsideRoot platform new.filename) :
    ∀ job ∈ removals log (log.insertAction new), JobInside platform job := by
  intro job member
  obtain ⟨fires, _, same⟩ := mem_removals_insertAction member
  rw [same]
  exact (insideRoot_cString _).mpr (applied fires)

theorem files_setFileComplete {files : List FileRow} {filename : Bytes}
    (inside : ∀ row ∈ files, InsideRoot platform row.filename) :
    ∀ row ∈ FileState.setFileComplete files filename,
      InsideRoot platform row.filename := by
  intro row member
  rcases FileState.mem_setFileComplete member with
    ⟨_, old, stored, named, _⟩ | ⟨_, stored⟩
  · rw [← named]
    exact inside old stored
  · exact inside row stored

variable {source target : Dispatcher Name}

theorem Contained.post (contained : Contained platform source)
    {job : DispatcherJob Name} (inside : JobInside platform job) :
    Contained platform (source.post job) where
  files := contained.files
  jobs := by
    intro other member
    rcases List.mem_append.mp member with earlier | posted
    · exact contained.jobs other earlier
    · rw [List.mem_singleton.mp posted]
      exact inside

theorem Contained.actionFetch (contained : Contained platform source)
    {deviceName : Name} {seqNo : UInt64} {actionPco : Option (Data Name)}
    (kept : ¬ Strays platform source
      (.dispatcher (.actionFetch deviceName seqNo actionPco)))
    (fetched : didFetchManagerActionFetch platform source deviceName
      seqNo.toUInt32 actionPco = some target) :
    Contained platform target := by
  have arrives := arrives_of_actionFetch fetched
  obtain ⟨completions, jobs, only⟩ := arrives.jobs
  have log := arrives.log
  have both : (∀ row ∈ target.log.fileState,
      InsideRoot platform row.filename) ∧
      ∀ job ∈ removals source.log target.log, JobInside platform job := by
    rcases ActionLog.addRemoteAction_cases platform.toActionPlatform source.log
      deviceName seqNo.toUInt32.toUInt64.toInt64 actionPco with
      same | ⟨data, item, rfl, parsed, inserted⟩
    · rw [log, same, removals_self]
      exact ⟨contained.files, fun _ member => nomatch member⟩
    · rw [log, inserted]
      have applied : ActionLog.Fires source.log (ActionLog.remoteRow
          platform.toActionPlatform deviceName seqNo.toUInt32.toUInt64.toInt64
          item data.content) → InsideRoot platform item.filename := by
        intro fires
        by_contra outside
        apply kept
        simp only [Strays, parsed]
        exact ⟨fires, outside⟩
      exact ⟨files_insertAction contained.files applied,
        jobs_insertAction applied⟩
  refine ⟨both.1, ?_⟩
  intro job member
  rw [jobs] at member
  rcases List.mem_append.mp member with earlier | completion
  · rcases List.mem_append.mp earlier with queued | removal
    · exact contained.jobs job queued
    · exact both.2 job removal
  · obtain ⟨hash, rfl⟩ := only job completion
    trivial

theorem Contained.assembleFile (contained : Contained platform source)
    {surroundings : Surroundings} {deviceName : Name} {hash : Bytes}
    {row : FileRow}
    (assembled : Dispatcher.assembleFile platform surroundings deviceName hash
      source row = some target) :
    Contained platform target := by
  rw [Dispatcher.assembleFile] at assembled
  split_ifs at assembled
  · rw [← Option.some.inj assembled]
    exact contained
  · split at assembled
    · simp at assembled
    · rw [← Option.some.inj assembled]
      exact contained
    · obtain ⟨disk, _, rfl⟩ := Option.map_eq_some_iff.mp assembled
      exact ⟨files_setFileComplete contained.files, contained.jobs⟩

theorem Contained.runJob (contained : Contained platform source)
    {surroundings : Surroundings} {job : DispatcherJob Name}
    (inside : JobInside platform job)
    (ran : Dispatcher.runJob platform surroundings source job = some target) :
    Contained platform target := by
  cases job with
  | localFileAddOrModify relativeFilePath =>
      rcases didLocalFileAddOrModify_cases ran with ⟨rfl, _⟩ |
        ⟨node, seqNo, syncLog, segNum, parent, tables, _, _, _, rfl⟩
      · exact contained
      · refine ⟨files_setFileComplete ?_, contained.jobs⟩
        refine files_insertAction ?_ fun _ => inside
        exact contained.files
  | localFileDelete relativeFilePath =>
      rcases didLocalFileDelete_cases ran with ⟨rfl, _⟩ |
        ⟨seqNo, syncLog, parent, parentSeqNo, _, _, rfl⟩
      · exact contained
      · constructor
        · refine files_insertAction ?_ fun _ => inside
          exact contained.files
        · intro job member
          rcases List.mem_append.mp member with queued | removal
          · exact contained.jobs job queued
          · refine jobs_insertAction ?_ job removal
            exact fun _ => inside
  | actionApplyDelete filename =>
      rw [← Option.some.inj ran]
      exact ⟨contained.files, contained.jobs⟩
  | fileSegmentFetch deviceName hash segment content =>
      rw [← Option.some.inj ran, didFetchManagerFileSegmentFetch]
      split_ifs
      · exact ⟨contained.files, contained.jobs⟩
      · exact contained
  | fileFetchComplete deviceName hash =>
      apply foldlM_invariant (Contained platform) ran
      · exact ⟨contained.files, contained.jobs⟩
      · intro row _ before after assembled earlier
        exact earlier.assembleFile assembled

theorem Contained.restore (contained : Contained platform source)
    {surroundings : Surroundings} {component filehash : Bytes}
    {version : UInt64} {reply : RestoreReply}
    (restored : StateServer.cmdRestoreFile platform source surroundings
      component version filehash = some (reply, target)) :
    Contained platform target := by
  have same : target.log = source.log ∧ target.jobs = source.jobs := by
    rw [StateServer.cmdRestoreFile] at restored
    split at restored
    · rw [← (Prod.mk.inj (Option.some.inj restored)).2]
      exact ⟨rfl, rfl⟩
    · obtain ⟨deviceName, _, rest⟩ := Option.bind_eq_some_iff.mp restored
      split_ifs at rest
      · rw [← (Prod.mk.inj (Option.some.inj rest)).2]
        exact ⟨rfl, rfl⟩
      · split at rest
        · simp at rest
        · rw [← (Prod.mk.inj (Option.some.inj rest)).2]
          exact ⟨rfl, rfl⟩
        · obtain ⟨disk, _, made⟩ := Option.map_eq_some_iff.mp rest
          rw [← (Prod.mk.inj made).2]
          exact ⟨rfl, rfl⟩
  constructor
  · rw [same.1]
    exact contained.files
  · rw [same.2]
    exact contained.jobs

variable [DecidableEq Name]

theorem Contained.folderStep (contained : Contained platform source)
    {label : FolderEvent Name} (kept : ¬ Strays platform source label)
    (taken : Dispatcher.folderStep platform source label = some target) :
    Contained platform target := by
  cases label with
  | restore surroundings component version filehash =>
      obtain ⟨⟨reply, after⟩, restored, rfl⟩ := Option.map_eq_some_iff.mp taken
      exact contained.restore restored
  | dispatcher label =>
      cases label with
      | userChange place node =>
          rw [← Option.some.inj taken]
          exact ⟨contained.files, contained.jobs⟩
      | localFileAddOrModify relativeFilePath =>
          rw [← Option.some.inj taken]
          exact contained.post (not_not.mp kept)
      | localFileDelete relativeFilePath =>
          rw [← Option.some.inj taken]
          exact contained.post (not_not.mp kept)
      | actionFetch deviceName seqNo actionPco =>
          exact contained.actionFetch kept taken
      | fileSegmentFetch deviceName hash seqNo content =>
          rw [Dispatcher.folderStep, Dispatcher.step] at taken
          split_ifs at taken
          rw [← Option.some.inj taken]
          exact contained.post trivial
      | fileFetchComplete deviceName hash =>
          rw [Dispatcher.folderStep, Dispatcher.step] at taken
          split_ifs at taken
          rw [← Option.some.inj taken]
          exact contained.post trivial
      | execute surroundings =>
          rw [Dispatcher.folderStep, Dispatcher.step] at taken
          split at taken
          · simp at taken
          · next job jobs queue =>
              have queued : ∀ other ∈ job :: jobs,
                  JobInside platform other := by
                rw [← queue]
                exact contained.jobs
              have popped : Contained platform { source with jobs := jobs } :=
                ⟨contained.files, fun other member =>
                  queued other (List.mem_cons_of_mem job member)⟩
              exact popped.runJob (queued job List.mem_cons_self) taken

omit [DecidableEq Name] in
theorem exists_of_mem_assembledPaths {surroundings : Surroundings}
    {deviceName : Name} {hash : Bytes} {rows : List FileRow}
    {path : Path} {state : Dispatcher Name}
    (member : path ∈ assembledPaths platform surroundings deviceName hash
      state rows) :
    ∃ row ∈ rows, path = platform.pathOf row.filename := by
  induction rows generalizing state with
  | nil => exact absurd member List.not_mem_nil
  | cons row rows induction =>
      rw [assembledPaths] at member
      split at member
      · exact absurd member List.not_mem_nil
      · rcases List.mem_append.mp member with here | later
        · split_ifs at here
          · exact ⟨row, List.mem_cons_self, List.mem_singleton.mp here⟩
          · exact absurd here List.not_mem_nil
        · obtain ⟨other, among, same⟩ := induction later
          exact ⟨other, List.mem_cons_of_mem row among, same⟩

omit [DecidableEq Name] in
theorem Contained.touched (contained : Contained platform source)
    {label : FolderEvent Name} (kept : ¬ Strays platform source label) :
    ∀ path ∈ Dispatcher.touched platform source label,
      Path.Inside platform.rootDir path := by
  intro path member
  rw [Dispatcher.touched.eq_def] at member
  split at member
  · next surroundings =>
      split at member
      · next filename jobs queue =>
          have inside := contained.jobs (.actionApplyDelete filename) (by
            rw [queue]
            exact List.mem_cons_self)
          have bounded : Path.Confined platform.rootDir
              (Path.elements (cString filename)) ∨
              source.disk.Anchored platform.rootDir
                (platform.pathOf filename) := by
            by_contra unbounded
            apply kept
            simp only [Strays, queue]
            exact unbounded
          exact Disk.inside_of_removeFile inside bounded path member
      · obtain ⟨row, among, rfl⟩ := exists_of_mem_assembledPaths member
        exact contained.files row (List.mem_filter.mp among).1
      · exact absurd member List.not_mem_nil
  · exact absurd member List.not_mem_nil
  · split at member
    · next row _ found _ =>
        rw [List.mem_singleton.mp member,
          StateServer.filename_lookupAction found]
        exact Path.inside_toUri platform.rootDir _
    · exact absurd member List.not_mem_nil

omit [DecidableEq Name] in
theorem opened_contained (syncLog : SyncLog Name) (disk : Disk) :
    Contained platform (opened syncLog disk) where
  files _ member := nomatch member
  jobs _ member := nomatch member

/-- In a run in which no event strays, every path that is removed or written
leads to a place strictly below the root directory. -/
theorem touched_inside_of_not_strays {syncLog : SyncLog Name} {disk : Disk}
    {trace : List (Dispatcher Name × FolderEvent Name)}
    {final : Dispatcher Name}
    (run : FolderSteps platform (opened syncLog disk) trace final)
    (kept : ∀ taken ∈ trace, ¬ Strays platform taken.1 taken.2) :
    ∀ taken ∈ trace, ∀ path ∈ touched platform taken.1 taken.2,
      Path.Inside platform.rootDir path := by
  have both : (∀ taken ∈ trace, ∀ path ∈ touched platform taken.1 taken.2,
      Path.Inside platform.rootDir path) ∧ Contained platform final := by
    induction run with
    | nil => exact ⟨fun _ member => (nomatch member), opened_contained _ _⟩
    | @snoc trace middle final label prefixRun taken induction =>
        rw [List.forall_mem_append, List.forall_mem_singleton] at kept ⊢
        obtain ⟨earlier, contained⟩ := induction kept.1
        exact ⟨⟨earlier, contained.touched kept.2⟩,
          contained.folderStep kept.2 taken⟩
  exact both.1

end Dispatcher

namespace Dispatcher

/-- The folder `/r` with a file `f`, next to a file `/x`. -/
def sharedDisk : Disk :=
  (((∅ : Disk).insert [[0x72]] (.directory 1 493)).insert
    [[0x72], [0x66]] (.file [9] 1 420)).insert [[0x78]] (.file [7] 1 420)

/-- `/bob` removes the file `f`. -/
theorem touched_inside_of_not_strays_removed :
    ∃ trace final,
      FolderSteps uriDispatcher
          (opened (SyncLog.opened Name.uriOps Name.alex) sharedDisk) trace
          final ∧
        (∃ taken ∈ trace, touched uriDispatcher taken.1 taken.2 ≠ []) ∧
        ∀ taken ∈ trace, ∀ path ∈ touched uriDispatcher taken.1 taken.2,
          Path.Inside uriDispatcher.rootDir path := by
  have executed : (execute (folderStep uriDispatcher)
      (opened (SyncLog.opened Name.uriOps Name.alex) sharedDisk)
      [.dispatcher (.actionFetch Name.bob 1 (some (removedFile [0x66]))),
        .dispatcher (.execute plainSurroundings)]).any
          (fun result =>
            (∃ taken ∈ result.1,
              touched uriDispatcher taken.1 taken.2 ≠ []) ∧
            ∀ taken ∈ result.1,
              ¬ Strays uriDispatcher taken.1 taken.2) = true := by
    decide +kernel
  obtain ⟨⟨trace, final⟩, found, holds⟩ :=
    (Option.any_eq_true _ _).mp executed
  obtain ⟨removes, kept⟩ := of_decide_eq_true holds
  have run := execute_run found
  exact ⟨trace, final, run, removes, touched_inside_of_not_strays run kept⟩

/-- `/bob` publishes the deletion of `../x`, and the file next to the root is
removed. -/
theorem file_above_root_removed :
    ¬ ∀ (disk : Disk) (trace : List (Dispatcher Name × FolderEvent Name))
        (final : Dispatcher Name),
      FolderSteps uriDispatcher
          (opened (SyncLog.opened Name.uriOps Name.alex) disk) trace final →
        ∀ taken ∈ trace, ∀ path ∈ touched uriDispatcher taken.1 taken.2,
          Path.Inside uriDispatcher.rootDir path := by
  intro inside
  have executed : (execute (folderStep uriDispatcher)
      (opened (SyncLog.opened Name.uriOps Name.alex) sharedDisk)
      [.dispatcher (.actionFetch Name.bob 1
          (some (removedFile [0x2E, 0x2E, 0x2F, 0x78]))),
        .dispatcher (.execute plainSurroundings)]).any
          (fun result =>
            ∃ taken ∈ result.1,
              ∃ path ∈ touched uriDispatcher taken.1 taken.2,
                ¬ Path.Inside uriDispatcher.rootDir path) = true := by
    decide +kernel
  obtain ⟨⟨trace, final⟩, found, holds⟩ :=
    (Option.any_eq_true _ _).mp executed
  obtain ⟨taken, member, path, removed, outside⟩ := of_decide_eq_true holds
  exact outside (inside sharedDisk trace final (execute_run found) taken member
    path removed)

end Dispatcher

end ChronoShare
