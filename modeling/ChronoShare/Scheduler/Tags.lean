import ChronoShare.ContentServer.Routing
import ChronoShare.Ndn.NameText
import ChronoShare.Scheduler.Deregistration
import ChronoShare.SyncCore.Core

/-!
# Tags and the work they stand for

A one-time task is dropped when its tag is in the map, on the understanding
that the task which is there does the same.  Tags are texts put together from
marks, paths, digests and names, each component has a scheduler of its own, and
tasks that do different things can come to have one tag.
-/

namespace ChronoShare

/-- A component with a scheduler of its own. -/
inductive TaskOwner where
  | fsWatcher
  | syncCore
  | contentServer
  deriving DecidableEq, Repr

/-- What a task calls, with the arguments that are bound in it. -/
inductive TaskWork where
  | scanNotifyRemovals (dirPath : Bytes)
  | scanNotifyUpdates (dirPath : Bytes)
  | onChange (file : Bytes)
  | onDelete (file : Bytes)
  | sendSyncInterest
  | localStateChanged
  | recover (hash : Hash)
  | serve (task : ContentServer.ServeTask)
      (forwardingHint name interest : Name)
  deriving DecidableEq

/-- The calls of `scheduleOneTimeTask`, one for each place in the source. -/
inductive TimerCall where
  | removals (dirPath : Bytes)
  | updates (dirPath : Bytes)
  | rescanUpdates (dirPath : Bytes)
  | rescanRemovals (dirPath : Bytes)
  | change (file : Bytes)
  | delete (file : Bytes)
  | sendSyncInterest
  | localStateChangedDelayed
  | recover (hash : Hash)
  | serve (task : ContentServer.ServeTask)
      (forwardingHint name interest : Name)
  deriving DecidableEq

namespace TimerCall

/-- The text `r-`. -/
def removed : Bytes :=
  [0x72, 0x2D]

/-- The text `rescan-`. -/
def rescan : Bytes :=
  [0x72, 0x65, 0x73, 0x63, 0x61, 0x6E, 0x2D]

/-- The text `rescan-r-`. -/
def rescanRemoved : Bytes :=
  [0x72, 0x65, 0x73, 0x63, 0x61, 0x6E, 0x2D, 0x72, 0x2D]

def owner : TimerCall → TaskOwner
  | .removals _ | .updates _ | .rescanUpdates _ | .rescanRemovals _
  | .change _ | .delete _ => .fsWatcher
  | .sendSyncInterest | .localStateChangedDelayed | .recover _ => .syncCore
  | .serve _ _ _ _ => .contentServer

def tag : TimerCall → Bytes
  | .removals dirPath => removed ++ dirPath
  | .updates dirPath => dirPath
  | .rescanUpdates dirPath => rescan ++ dirPath
  | .rescanRemovals dirPath => rescanRemoved ++ dirPath
  | .change file => file
  | .delete file => removed ++ file
  | .sendSyncInterest => Scheduler.syncInterestTag2
  | .localStateChangedDelayed => Scheduler.localStateChangeDelayedTag
  | .recover hash => removed ++ hash.printed
  | .serve _ _ name _ => name.toUri

def work : TimerCall → TaskWork
  | .removals dirPath => .scanNotifyRemovals dirPath
  | .updates dirPath => .scanNotifyUpdates dirPath
  | .rescanUpdates dirPath => .scanNotifyUpdates dirPath
  | .rescanRemovals dirPath => .scanNotifyRemovals dirPath
  | .change file => .onChange file
  | .delete file => .onDelete file
  | .sendSyncInterest => .sendSyncInterest
  | .localStateChangedDelayed => .localStateChanged
  | .recover hash => .recover hash
  | .serve task forwardingHint name interest =>
      .serve task forwardingHint name interest

end TimerCall

/-- The constructor of `FsWatcher` for the directory. -/
def FsWatcher.start (dirPath : Bytes) : List TimerCall :=
  [.rescanRemovals dirPath, .rescanUpdates dirPath]

/-- `DidDirectoryChanged`; `present` is whether the directory exists. -/
def FsWatcher.didDirectoryChanged (watched dirPath : Bytes)
    (present : Bool) : List TimerCall :=
  if present then
    [.updates dirPath, .rescanUpdates dirPath, .rescanRemovals watched]
  else
    [.removals dirPath]

/-- A path without its root: the slashes it starts with, and the name of the
root after exactly two of them. -/
def relativePath (path : Bytes) : Bytes :=
  let unnamed :=
    match path with
    | first :: second :: third :: rest =>
        if first = Uri.slash ∧ second = Uri.slash ∧ third ≠ Uri.slash then
          (third :: rest).dropWhile (· ≠ Uri.slash)
        else
          path
    | _ => path
  unnamed.dropWhile (· = Uri.slash)

/-- `DidFileChanged`; a path that does not start with the directory is
ignored. -/
def FsWatcher.didFileChanged (watched filePath : Bytes) (present : Bool) :
    List TimerCall :=
  if watched.isPrefixOf filePath then
    let triggeredFile := relativePath (filePath.drop watched.length)
    if present then [.change triggeredFile] else [.delete triggeredFile]
  else
    []

/-- What the effects of the handlers schedule. -/
def SyncCore.scheduled : Effect Name → List TimerCall
  | .scheduleSyncInterest => [.sendSyncInterest]
  | .scheduleRecover hash => [.recover hash]
  | _ => []

/-- The face hands over the interests under the prefix that is registered. -/
def ContentServer.served (server : ContentServer)
    (forwardingHint interest : Name) : List TimerCall :=
  if forwardingHint.components.isPrefixOf interest.components then
    (server.scheduled forwardingHint interest).map fun (task, hint, name) =>
      .serve task hint name interest
  else
    []

inductive TaskEvent where
  | watcherStarts
  | didDirectoryChanged (dirPath : Bytes) (present : Bool)
  | didFileChanged (filePath : Bytes) (present : Bool)
  | coreStarts
  | coreEffect (effect : Effect Name)
  | localStateChangedDelayed
  | filterAndServe (forwardingHint interest : Name)
  deriving DecidableEq

section Calls

variable (watched : Bytes) (server : ContentServer)

def TaskEvent.calls : TaskEvent → List TimerCall
  | .watcherStarts => FsWatcher.start watched
  | .didDirectoryChanged dirPath present =>
      FsWatcher.didDirectoryChanged watched dirPath present
  | .didFileChanged filePath present =>
      FsWatcher.didFileChanged watched filePath present
  | .coreStarts => [.sendSyncInterest]
  | .coreEffect effect => SyncCore.scheduled effect
  | .localStateChangedDelayed => [.localStateChangedDelayed]
  | .filterAndServe forwardingHint interest =>
      server.served forwardingHint interest

/-- The tasks in the maps of the schedulers, as they were scheduled. -/
abbrev TaskMaps := TaskOwner → Bytes → Option TimerCall

/-- Calls of different events may come in any order, and a task may leave its
map at any time. -/
inductive TagStep where
  | schedule (event : TaskEvent) (index : Nat)
  | remove (owner : TaskOwner) (tag : Bytes)
  deriving DecidableEq

namespace TaskMaps

def empty : TaskMaps :=
  fun _ _ => none

def set (maps : TaskMaps) (owner : TaskOwner) (tag : Bytes)
    (entry : Option TimerCall) : TaskMaps :=
  fun other text => if other = owner ∧ text = tag then entry
    else maps other text

def addTask (maps : TaskMaps) (call : TimerCall) : TaskMaps :=
  match maps call.owner call.tag with
  | none => maps.set call.owner call.tag (some call)
  | some _ => maps

end TaskMaps

def TagStep.call : TagStep → Option TimerCall
  | .schedule event index => (event.calls watched server)[index]?
  | .remove _ _ => none

def TaskMaps.step (maps : TaskMaps) : TagStep → Option TaskMaps
  | .schedule event index =>
      (event.calls watched server)[index]?.map maps.addTask
  | .remove owner tag => some (maps.set owner tag none)

/-- If the call is dropped, the task that is pending does the same. -/
def TaskMaps.SameWork (maps : TaskMaps) (label : TagStep) : Prop :=
  ∀ call ∈ label.call watched server,
    ∀ pending ∈ maps call.owner call.tag, pending.work = call.work

instance (maps : TaskMaps) (label : TagStep) :
    Decidable (maps.SameWork watched server label) :=
  inferInstanceAs (Decidable (∀ call ∈ _, ∀ pending ∈ _, _))

end Calls

namespace TimerCall

/-- The first call has the tag of the second, which does something else: one
path is the other behind a mark, or the tag leaves a digest or a forwarding
hint out. -/
def Overlaps : TimerCall → TimerCall → Prop
  | .change file, .delete other => file = removed ++ other
  | .change file, .removals dirPath => file = removed ++ dirPath
  | .change file, .updates dirPath => file = dirPath
  | .change file, .rescanUpdates dirPath => file = rescan ++ dirPath
  | .change file, .rescanRemovals dirPath => file = rescanRemoved ++ dirPath
  | .delete file, .removals dirPath => file = dirPath
  | .updates dirPath, .delete file => dirPath = removed ++ file
  | .updates dirPath, .removals other => dirPath = removed ++ other
  | .updates dirPath, .rescanUpdates other => dirPath = rescan ++ other
  | .updates dirPath, .rescanRemovals other =>
      dirPath = rescanRemoved ++ other
  | .rescanUpdates dirPath, .rescanRemovals other =>
      dirPath = removed ++ other
  | .recover hash, .recover other => hash ≠ other
  | .serve _ forwardingHint name _, .serve _ other same _ =>
      name = same ∧ forwardingHint ≠ other
  | _, _ => False

instance (left right : TimerCall) : Decidable (Overlaps left right) := by
  cases left <;> cases right <;> unfold Overlaps <;> infer_instance

/-- A task that serves an interest is the one its name is for, and the name is
the interest behind the forwarding hint. -/
def Genuine (server : ContentServer) : TimerCall → Prop
  | .serve task forwardingHint name interest =>
      server.route name = some task ∧ interest.components =
        forwardingHint.components ++ name.components
  | _ => True

variable {left right : TimerCall} {server : ContentServer}

theorem removed_ne_rescan (left right : Bytes) :
    removed ++ left ≠ rescan ++ right := by
  simp [removed, rescan]

theorem removed_ne_rescanRemoved (left right : Bytes) :
    removed ++ left ≠ rescanRemoved ++ right := by
  simp [removed, rescanRemoved]

theorem rescan_ne_removed (left right : Bytes) :
    rescan ++ left ≠ removed ++ right :=
  (removed_ne_rescan right left).symm

theorem rescanRemoved_ne_removed (left right : Bytes) :
    rescanRemoved ++ left ≠ removed ++ right :=
  (removed_ne_rescanRemoved right left).symm

theorem rescan_eq_rescanRemoved_iff {left right : Bytes} :
    rescan ++ left = rescanRemoved ++ right ↔ left = removed ++ right := by
  simp [removed, rescan, rescanRemoved]

theorem rescanRemoved_eq_rescan_iff {left right : Bytes} :
    rescanRemoved ++ left = rescan ++ right ↔ right = removed ++ left := by
  rw [eq_comm, rescan_eq_rescanRemoved_iff]

theorem rescan_ne_nil : rescan ≠ [] :=
  List.cons_ne_nil _ _

theorem ne_of_eq_rescan {left right : Bytes} (same : left = rescan ++ right) :
    left ≠ right := by
  rintro rfl
  exact rescan_ne_nil (List.append_left_eq_self.mp same.symm)

theorem serve_work_eq_iff {leftTask rightTask : ContentServer.ServeTask}
    {leftHint leftName leftInterest rightHint rightName rightInterest : Name}
    (leftGenuine : Genuine server
      (.serve leftTask leftHint leftName leftInterest))
    (rightGenuine : Genuine server
      (.serve rightTask rightHint rightName rightInterest))
    (sameTag : leftName.toUri = rightName.toUri) :
    (serve leftTask leftHint leftName leftInterest).work =
        (serve rightTask rightHint rightName rightInterest).work ↔
      leftHint = rightHint := by
  obtain rfl := Name.toUri_injective sameTag
  obtain ⟨leftRoute, leftSplit⟩ := leftGenuine
  obtain ⟨rightRoute, rightSplit⟩ := rightGenuine
  constructor
  · intro same
    exact (TaskWork.serve.inj same).2.1
  · rintro rfl
    have task := Option.some.inj (leftRoute.symm.trans rightRoute)
    have interest := Name.eq_of_components
      (leftSplit.trans rightSplit.symm)
    rw [work, work, task, interest]

theorem syncCore_work_eq_iff (isCore : left.owner = .syncCore)
    (sameOwner : left.owner = right.owner) (sameTag : left.tag = right.tag) :
    left.work = right.work ↔ ¬ (Overlaps left right ∨ Overlaps right left) := by
  cases left <;> cases isCore <;> cases right <;>
    simp_all [owner, tag, work, Overlaps, removed, Scheduler.syncInterestTag2,
      Scheduler.localStateChangeDelayedTag]

theorem fsWatcher_work_eq_iff (isWatcher : left.owner = .fsWatcher)
    (sameOwner : left.owner = right.owner) (sameTag : left.tag = right.tag) :
    left.work = right.work ↔ ¬ (Overlaps left right ∨ Overlaps right left) := by
  cases left <;> cases isWatcher <;> cases right <;>
    simp_all [owner, tag, work, Overlaps, removed_ne_rescan, rescan_ne_removed,
      removed_ne_rescanRemoved, rescanRemoved_ne_removed,
      rescan_eq_rescanRemoved_iff, rescanRemoved_eq_rescan_iff, rescan_ne_nil]
  case rescanUpdates.refl.updates =>
    exact (ne_of_eq_rescan sameTag.symm).symm

/-- Two tasks of one component that have one tag do the same, unless they
overlap. -/
theorem work_eq_iff (leftGenuine : left.Genuine server)
    (rightGenuine : right.Genuine server) (sameOwner : left.owner = right.owner)
    (sameTag : left.tag = right.tag) :
    left.work = right.work ↔ ¬ (Overlaps left right ∨ Overlaps right left) := by
  cases isOwner : left.owner with
  | fsWatcher => exact fsWatcher_work_eq_iff isOwner sameOwner sameTag
  | syncCore => exact syncCore_work_eq_iff isOwner sameOwner sameTag
  | contentServer =>
      cases left with
      | serve leftTask leftHint leftName leftInterest =>
          cases right with
          | serve rightTask rightHint rightName rightInterest =>
              obtain rfl := Name.toUri_injective sameTag
              rw [serve_work_eq_iff leftGenuine rightGenuine rfl]
              simp only [Overlaps, true_and]
              tauto
          | _ => cases sameOwner
      | _ => cases isOwner

/-- Directories are given from the root on, files from the directory on. -/
def Rooted : TimerCall → Prop
  | .removals dirPath | .updates dirPath | .rescanUpdates dirPath
  | .rescanRemovals dirPath => dirPath.head? = some Uri.slash
  | .change file | .delete file => file.head? ≠ some Uri.slash
  | _ => True

/-- Of such calls, only that for a file whose path starts with a mark overlaps
with another. -/
theorem marked_of_overlaps (isWatcher : left.owner = .fsWatcher)
    (leftRooted : left.Rooted) (rightRooted : right.Rooted)
    (overlaps : left.Overlaps right) :
    ∃ file, left = .change file ∧ (removed <+: file ∨ rescan <+: file) := by
  cases left <;> cases isWatcher <;> cases right <;>
    simp only [Overlaps] at overlaps <;> subst overlaps
  case change.refl.updates => exact absurd rightRooted leftRooted
  case delete.refl.removals => exact absurd rightRooted leftRooted
  case change.refl.rescanUpdates dirPath =>
    exact ⟨_, rfl, .inr (List.prefix_append _ _)⟩
  case change.refl.rescanRemovals dirPath =>
    exact ⟨_, rfl, .inr ⟨removed ++ dirPath, rfl⟩⟩
  case change.refl.removals dirPath =>
    exact ⟨_, rfl, .inl (List.prefix_append _ _)⟩
  case change.refl.delete file =>
    exact ⟨_, rfl, .inl (List.prefix_append _ _)⟩
  all_goals exact absurd (Option.some.inj leftRooted) (by decide)

end TimerCall

theorem relativePath_head?_ne (path : Bytes) :
    (relativePath path).head? ≠ some Uri.slash := by
  have kept : ∀ text : Bytes,
      (text.dropWhile (· = Uri.slash)).head? ≠ some Uri.slash := by
    intro text first
    have other := List.head?_dropWhile_not (· = Uri.slash) text
    rw [first] at other
    exact absurd other (by decide)
  unfold relativePath
  exact kept _

section Runs

variable {watched : Bytes} {server : ContentServer}

theorem ContentServer.lookup_split {forwardingHint interest : Name}
    (under : forwardingHint.components <+: interest.components)
    {lookup : Name × Name}
    (among : lookup ∈ server.lookups forwardingHint interest) :
    interest.components =
      lookup.1.components ++ lookup.2.components := by
  obtain ⟨rest, split⟩ := under
  rw [lookups] at among
  rcases List.mem_append.mp among with whole | behind
  · split_ifs at whole
    · obtain rfl := List.mem_singleton.mp whole
      rfl
    · cases whole
  · obtain rfl := List.mem_singleton.mp behind
    have fits : (encodeComponents rest).length < 2 ^ 64 := by
      apply lt_of_le_of_lt _ interest.fits
      rw [← split, encodeComponents, encodeComponents, List.flatMap_append,
        List.length_append]
      exact Nat.le_add_left _ _
    have taken : (interest.components.drop forwardingHint.size).take
        (interest.size - forwardingHint.size) = rest := by
      rw [Name.size, Name.size, ← split, List.drop_left, List.length_append,
        Nat.add_sub_cancel_left, List.take_length]
    rw [Name.getSubName, taken, Name.components_ofComponents fits, split]

theorem TimerCall.genuine_of_owner {call : TimerCall}
    (other : call.owner ≠ .contentServer) : call.Genuine server := by
  cases call with
  | serve task forwardingHint name interest => exact absurd rfl other
  | _ => trivial

theorem TaskEvent.owners {event : TaskEvent}
    (other : ∀ forwardingHint interest,
      event ≠ .filterAndServe forwardingHint interest) :
    (event.calls watched server).all
      (fun call => call.owner ≠ .contentServer) = true := by
  cases event with
  | didDirectoryChanged dirPath present => cases present <;> rfl
  | didFileChanged filePath present =>
      simp only [TaskEvent.calls, FsWatcher.didFileChanged]
      split_ifs <;> rfl
  | coreEffect effect => cases effect <;> rfl
  | filterAndServe forwardingHint interest =>
      exact absurd rfl (other forwardingHint interest)
  | _ => rfl

theorem TaskEvent.genuine_of_mem {event : TaskEvent} {call : TimerCall}
    (made : call ∈ event.calls watched server) : call.Genuine server := by
  cases event with
  | filterAndServe forwardingHint interest =>
      rw [TaskEvent.calls, ContentServer.served] at made
      split_ifs at made with under
      · obtain ⟨⟨task, hint, name⟩, among, rfl⟩ := List.mem_map.mp made
        obtain ⟨lookup, looked, routed⟩ := List.mem_filterMap.mp among
        obtain ⟨same, isTask, equal⟩ := Option.map_eq_some_iff.mp routed
        obtain ⟨rfl, rfl⟩ : same = task ∧ lookup = (hint, name) := by
          simpa using equal
        exact ⟨isTask, ContentServer.lookup_split
          (List.isPrefixOf_iff_prefix.mp under) looked⟩
      · cases made
  | _ =>
      apply TimerCall.genuine_of_owner
      have others := List.all_eq_true.mp (TaskEvent.owners (by simp)) _ made
      simpa using others

namespace TaskMaps

variable {maps target : TaskMaps} {label : TagStep}

/-- The call has the tag of a pending task of the component that does something
else. -/
def Mixes (watched : Bytes) (server : ContentServer) (maps : TaskMaps)
    (label : TagStep) : Prop :=
  ∃ call ∈ label.call watched server,
    ∃ pending ∈ maps call.owner call.tag,
      pending.Overlaps call ∨ call.Overlaps pending

instance (maps : TaskMaps) (label : TagStep) :
    Decidable (Mixes watched server maps label) :=
  inferInstanceAs (Decidable (∃ call ∈ _, ∃ pending ∈ _, _))

/-- The tasks are in the maps of their components under their tags. -/
def Keyed (server : ContentServer) (maps : TaskMaps) : Prop :=
  ∀ owner tag call, maps owner tag = some call →
    call.owner = owner ∧ call.tag = tag ∧ call.Genuine server

theorem Keyed.addTask (keyed : maps.Keyed server) {call : TimerCall}
    (genuine : call.Genuine server) : (maps.addTask call).Keyed server := by
  intro owner tag other found
  cases present : maps call.owner call.tag with
  | some pending =>
      simp only [TaskMaps.addTask, present] at found
      exact keyed owner tag other found
  | none =>
      simp only [TaskMaps.addTask, present, set] at found
      split_ifs at found with here
      · obtain ⟨rfl, rfl⟩ := here
        obtain rfl := Option.some.inj found
        exact ⟨rfl, rfl, genuine⟩
      · exact keyed owner tag other found

theorem Keyed.remove (keyed : maps.Keyed server) (removed : TaskOwner)
    (text : Bytes) : (maps.set removed text none).Keyed server := by
  intro owner tag other found
  rw [set] at found
  split_ifs at found
  exact keyed owner tag other found

theorem step_keyed (taken : maps.step watched server label = some target)
    (keyed : maps.Keyed server) : target.Keyed server := by
  cases label with
  | schedule event index =>
      obtain ⟨call, made, rfl⟩ := Option.map_eq_some_iff.mp taken
      exact keyed.addTask
        (TaskEvent.genuine_of_mem (List.mem_of_getElem? made))
  | remove owner tag =>
      obtain rfl := Option.some.inj taken
      exact keyed.remove owner tag

theorem genuine_of_call {call : TimerCall}
    (made : call ∈ label.call watched server) : call.Genuine server := by
  cases label with
  | schedule event index =>
      exact TaskEvent.genuine_of_mem (List.mem_of_getElem? made)
  | remove owner tag => cases made

theorem Keyed.sameWork (keyed : maps.Keyed server) :
    maps.SameWork watched server label ↔
      ¬ maps.Mixes watched server label := by
  have same : ∀ call ∈ label.call watched server,
      ∀ pending ∈ maps call.owner call.tag, pending.work = call.work ↔
        ¬ (pending.Overlaps call ∨ call.Overlaps pending) := by
    intro call made pending found
    obtain ⟨owner, tag, genuine⟩ := keyed _ _ pending found
    exact TimerCall.work_eq_iff genuine (genuine_of_call made) owner tag
  constructor
  · rintro all ⟨call, made, pending, found, overlaps⟩
    exact (same call made pending found).mp (all call made pending found)
      overlaps
  · intro apart call made pending found
    apply (same call made pending found).mpr
    intro overlaps
    exact apart ⟨call, made, pending, found, overlaps⟩

/-- In every run, the calls that are dropped are those that a pending task does
the same for, exactly if none comes while a task is pending that it overlaps
with. -/
theorem sameWork_iff {trace : List (TaskMaps × TagStep)} {final : TaskMaps}
    (run : Run (fun source label target =>
      source.step watched server label = some target) empty trace final) :
    (∀ taken ∈ trace, taken.1.SameWork watched server taken.2) ↔
      ∀ taken ∈ trace, ¬ taken.1.Mixes watched server taken.2 := by
  apply forall₂_congr
  intro taken member
  have keyed : taken.1.Keyed server := by
    apply run.invariant_of_mem _ _ member
    · intro owner tag call found
      cases found
    · intro source label target stepped
      exact step_keyed stepped
  exact keyed.sameWork

end TaskMaps

end Runs

namespace TaskMaps

/-- The directory `/s`, and a server with an application and a folder. -/
def sharedDirectory : Bytes :=
  [0x2F, 0x73]

def plainServer : ContentServer :=
  .serverFor [0x61, 0x70, 0x70] [0x66]

/-- The interest for an action behind a forwarding hint. -/
def actionInterest (forwardingHint : Name) : Name :=
  .ofComponents (forwardingHint.components ++
    ContentServer.plainActionName.components)

/-- The file `f` changes twice, and the same digest and the same interest come
twice. -/
def repeated : List TagStep :=
  [.schedule (.didFileChanged (sharedDirectory ++ [0x2F, 0x66]) true) 0,
    .schedule (.didFileChanged (sharedDirectory ++ [0x2F, 0x66]) true) 0,
    .schedule (.coreEffect (.scheduleRecover [1])) 0,
    .schedule (.coreEffect (.scheduleRecover [1])) 0,
    .schedule (.filterAndServe Name.alex (actionInterest Name.alex)) 0,
    .schedule (.filterAndServe Name.alex (actionInterest Name.alex)) 0]

/-- The file `x` is deleted and `r-x` changes; two digests come, and two
interests for one name. -/
def mixed : List TagStep :=
  [.schedule (.didFileChanged (sharedDirectory ++ [0x2F, 0x78]) false) 0,
    .schedule (.didFileChanged
      (sharedDirectory ++ [0x2F, 0x72, 0x2D, 0x78]) true) 0,
    .schedule (.coreEffect (.scheduleRecover [1])) 0,
    .schedule (.coreEffect (.scheduleRecover [2])) 0,
    .schedule (.filterAndServe Name.alex (actionInterest Name.alex)) 0,
    .schedule (.filterAndServe Name.broadcast
      (actionInterest Name.broadcast)) 0]

theorem sameWork_iff_repeated :
    ∃ trace final, Run (fun source label target =>
        TaskMaps.step sharedDirectory plainServer source label = some target)
        empty trace final ∧
      trace.map Prod.snd = repeated ∧
      ∀ taken ∈ trace, taken.1.SameWork sharedDirectory plainServer taken.2 := by
  have executed : (execute (TaskMaps.step sharedDirectory plainServer) empty
      repeated).any (fun result => ∀ taken ∈ result.1,
        ¬ taken.1.Mixes sharedDirectory plainServer taken.2) = true := by
    decide +kernel
  obtain ⟨⟨trace, final⟩, ran, holds⟩ := (Option.any_eq_true _ _).mp executed
  have run := execute_run ran
  exact ⟨trace, final, run, execute_labels ran,
    (sameWork_iff run).mpr (of_decide_eq_true holds)⟩

/-- Each component drops a call for a task that does something else. -/
theorem other_work_pending :
    ∃ trace final, Run (fun source label target =>
        TaskMaps.step sharedDirectory plainServer source label = some target)
        empty trace final ∧
      ∀ owner ∈ [TaskOwner.fsWatcher, .syncCore, .contentServer],
        ∃ taken ∈ trace,
          (taken.2.call sharedDirectory plainServer).map TimerCall.owner =
              some owner ∧
            ¬ taken.1.SameWork sharedDirectory plainServer taken.2 := by
  have executed : (execute (TaskMaps.step sharedDirectory plainServer) empty
      mixed).any (fun result =>
        ∀ owner ∈ [TaskOwner.fsWatcher, .syncCore, .contentServer],
          ∃ taken ∈ result.1,
            (taken.2.call sharedDirectory plainServer).map TimerCall.owner =
                some owner ∧
              ¬ taken.1.SameWork sharedDirectory plainServer taken.2) =
                true := by
    decide +kernel
  obtain ⟨⟨trace, final⟩, ran, holds⟩ := (Option.any_eq_true _ _).mp executed
  exact ⟨trace, final, execute_run ran, of_decide_eq_true holds⟩

end TaskMaps

end ChronoShare
