import ChronoShare.Dispatcher.Trigger
import ChronoShare.Support.Run

/-!
# Segments that arrive at the dispatcher

A segment is saved only while a handle of its database is open.  The handles
are kept by hash, and the completion of one fetch closes the handle that the
fetches of equal content from other devices still need.  As nothing is printed
of a hash, however, no handle is opened and no fetch is handed out at all.
-/

namespace ChronoShare

/-- A segment that the executor was given for a fetch. -/
structure Delivery (Name : Type) where
  deviceName : Name
  hash : Bytes
  segment : UInt32
  content : Bytes

namespace Dispatcher

variable {Name : Type} (platform : DispatcherPlatform Name)

def deliveredBy (source : Dispatcher Name) :
    DispatcherEvent Name → List (Delivery Name)
  | .execute _ =>
      match source.jobs with
      | .fileSegmentFetch deviceName hash segment content :: _ =>
          [⟨deviceName, hash, segment, content⟩]
      | _ => []
  | _ => []

/-- The segments that arrived during a run. -/
def delivered (trace : List (Dispatcher Name × DispatcherEvent Name)) :
    List (Delivery Name) :=
  trace.flatMap fun taken => deliveredBy taken.1 taken.2

/-- The row of the database that a segment is saved in. -/
def IsRowOf (delivery : Delivery Name) (row : ObjectRow) : Prop :=
  row.deviceName = platform.ndn.wire delivery.deviceName ∧
    row.segment = delivery.segment.toNat

instance (delivery : Delivery Name) (row : ObjectRow) :
    Decidable (IsRowOf platform delivery row) :=
  inferInstanceAs (Decidable (_ ∧ _))

/-- The database of the hash has a row for the device and the segment that
starts with its content. -/
def Saved (tables : Bytes → ObjectTable) (delivery : Delivery Name) : Prop :=
  ∃ row ∈ tables (platform.hashText delivery.hash),
    IsRowOf platform delivery row ∧
      ∃ stored ∈ row.contentObject, delivery.content <+: stored

/-- A segment arrives that is not saved yet, while no handle is open for its
hash or another content is saved in its place. -/
def Drops (source : Dispatcher Name) (label : DispatcherEvent Name) : Prop :=
  ∃ delivery ∈ deliveredBy source label,
    ¬ Saved platform source.tables delivery ∧
      (delivery.hash ∉ source.objectDbMap ∨
        ∃ row ∈ source.tables (platform.hashText delivery.hash),
          IsRowOf platform delivery row)

/-- When the completion of a fetch runs next, every segment that arrived for
the fetch is saved. -/
def SavedAtCompletion
    (trace : List (Dispatcher Name × DispatcherEvent Name))
    (state : Dispatcher Name) : Prop :=
  ∀ deviceName hash jobs,
    state.jobs = .fileFetchComplete deviceName hash :: jobs →
      ∀ delivery ∈ delivered trace, delivery.deviceName = deviceName →
        delivery.hash = hash → Saved platform state.tables delivery

instance (tables : Bytes → ObjectTable) (delivery : Delivery Name) :
    Decidable (Saved platform tables delivery) :=
  inferInstanceAs (Decidable (∃ row ∈ _, _ ∧ ∃ stored ∈ _, _))

variable {platform}

theorem subset_saveContentObject (ndn : NameOps Name) (table : ObjectTable)
    (deviceName : Name) (segment : Nat) (contentObject : Bytes) :
    table ⊆ ObjectDb.saveContentObject ndn table deviceName segment
      contentObject := by
  rw [ObjectDb.saveContentObject]
  split_ifs
  · exact List.Subset.refl table
  · exact List.subset_append_left table _

theorem subset_saveContents (ndn : NameOps Name)
    (memory : ObjectManager.Memory) (deviceName : Name) (table : ObjectTable)
    (contents : List Bytes) :
    table ⊆
      ObjectManager.saveContents ndn memory deviceName table contents := by
  rw [ObjectManager.saveContents]
  generalize contents.zipIdx = entries
  induction entries generalizing table with
  | nil => exact List.Subset.refl table
  | cons entry entries induction =>
      rw [List.foldl_cons]
      apply List.Subset.trans _ (induction _)
      exact subset_saveContentObject ndn table deviceName entry.2 _

theorem subset_localFileToObjects {objects : ObjectPlatform Name}
    {storage after : ObjectStorage} {memory : ObjectManager.Memory}
    {content hash : Bytes} {deviceName : Name} {segNum : Nat}
    (stored : ObjectManager.localFileToObjects objects storage memory content
      deviceName = some (hash, segNum, after)) (text : Bytes) :
    storage.tables text ⊆ after.tables text := by
  simp only [ObjectManager.localFileToObjects, Option.map_eq_some_iff,
    Prod.mk.injEq] at stored
  obtain ⟨_, _, _, _, rfl⟩ := stored
  by_cases same : text = objects.hashText (objects.sha256 content)
  · rw [same]
    simp only [Function.update_self]
    exact subset_saveContents _ _ _ _ _
  · simp only [Function.update_of_ne same]
    exact List.Subset.refl _

theorem tables_assembleFile {surroundings : Surroundings} {deviceName : Name}
    {hash : Bytes} {row : FileRow} {source target : Dispatcher Name}
    (assembled : assembleFile platform surroundings deviceName hash source row =
      some target) :
    target.tables = source.tables := by
  rw [assembleFile] at assembled
  split_ifs at assembled
  · rw [← Option.some.inj assembled]
  · split at assembled
    · simp at assembled
    · rw [← Option.some.inj assembled]
    · obtain ⟨disk, _, rfl⟩ := Option.map_eq_some_iff.mp assembled
      rfl

theorem subset_runJob {surroundings : Surroundings} {job : DispatcherJob Name}
    {source target : Dispatcher Name}
    (ran : runJob platform surroundings source job = some target)
    (text : Bytes) : source.tables text ⊆ target.tables text := by
  cases job with
  | localFileAddOrModify relativeFilePath =>
      rw [runJob, didLocalFileAddOrModify] at ran
      split at ran
      · rw [← Option.some.inj ran]
        exact List.Subset.refl _
      · split_ifs at ran
        · rw [← Option.some.inj ran]
          exact List.Subset.refl _
        · split at ran
          · simp at ran
          · next stored =>
              obtain ⟨added, _, rfl⟩ := Option.map_eq_some_iff.mp ran
              exact subset_localFileToObjects stored text
  | localFileDelete relativeFilePath =>
      rw [runJob, didLocalFileDelete] at ran
      split_ifs at ran
      · rw [← Option.some.inj ran]
        exact List.Subset.refl _
      · obtain ⟨added, _, rfl⟩ := Option.map_eq_some_iff.mp ran
        exact List.Subset.refl _
  | actionApplyDelete filename =>
      rw [← Option.some.inj ran]
      exact List.Subset.refl _
  | fileSegmentFetch deviceName hash segment content =>
      rw [← Option.some.inj ran, didFetchManagerFileSegmentFetch]
      split_ifs
      · by_cases same : text = platform.hashText hash
        · rw [same]
          simp only [Function.update_self]
          exact subset_saveContentObject _ _ _ _ _
        · simp only [Function.update_of_ne same]
          exact List.Subset.refl _
      · exact List.Subset.refl _
  | fileFetchComplete deviceName hash =>
      have same : target.tables = source.tables := by
        apply foldlM_invariant (fun state : Dispatcher Name =>
          state.tables = source.tables) ran rfl
        intro row _ before after assembled earlier
        rw [tables_assembleFile assembled, earlier]
      rw [same]
      exact List.Subset.refl _

theorem Saved.mono {before after : Bytes → ObjectTable}
    {delivery : Delivery Name} (saved : Saved platform before delivery)
    (grows : ∀ text, before text ⊆ after text) :
    Saved platform after delivery := by
  obtain ⟨row, stored, isRow⟩ := saved
  exact ⟨row, grows _ stored, isRow⟩

theorem saved_fileSegmentFetch_iff {surroundings : Surroundings}
    {source : Dispatcher Name} (delivery : Delivery Name) :
    Saved platform (didFetchManagerFileSegmentFetch platform source
        surroundings delivery.deviceName delivery.hash delivery.segment
        delivery.content).tables delivery ↔
      ¬ (¬ Saved platform source.tables delivery ∧
        (delivery.hash ∉ source.objectDbMap ∨
          ∃ row ∈ source.tables (platform.hashText delivery.hash),
            IsRowOf platform delivery row)) := by
  rw [didFetchManagerFileSegmentFetch]
  split_ifs with opened
  · rw [Saved]
    simp only [Function.update_self, ObjectDb.saveContentObject,
      List.any_eq_true, decide_eq_true_eq]
    split_ifs with occupied
    · change Saved platform source.tables delivery ↔ _
      have conflict : ∃ row ∈ source.tables (platform.hashText delivery.hash),
          IsRowOf platform delivery row := occupied
      simp [conflict]
    · have free : ¬ ∃ row ∈
          source.tables (platform.hashText delivery.hash),
          IsRowOf platform delivery row := occupied
      refine ⟨fun _ dropped => dropped.2.elim (· opened) free, fun _ => ?_⟩
      refine ⟨_, List.mem_append_right _ (List.mem_singleton.mpr rfl),
        ⟨rfl, rfl⟩, _, rfl, ?_⟩
      exact List.prefix_append _ _
  · simp [opened]

theorem requestFile_of_printed (printed : platform.hashText = Hash.printed)
    {source target : Dispatcher Name} {deviceName : Name} {item : ActionItem}
    (requested : requestFile platform source deviceName item = some target) :
    target = source := by
  rw [requestFile] at requested
  split at requested
  · exact (Option.some.inj requested).symm
  · simp [printed] at requested

theorem actionFetch_of_printed (printed : platform.hashText = Hash.printed)
    {source target : Dispatcher Name} {deviceName : Name} {seqNo : UInt32}
    {actionPco : Option (Data Name)}
    (fetched : didFetchManagerActionFetch platform source deviceName seqNo
      actionPco = some target) :
    target = { source with
      log := target.log
      jobs := source.jobs ++ removals source.log target.log } := by
  rw [didFetchManagerActionFetch] at fetched
  dsimp only at fetched
  split at fetched
  · rw [← Option.some.inj fetched]
  · rw [requestFile_of_printed printed fetched]

/-- A job that a fetch of a file has posted. -/
def OfFetch : DispatcherJob Name → Prop
  | .fileSegmentFetch .. | .fileFetchComplete .. => True
  | _ => False

/-- No fetch of a file has been handed out, and no job of one is queued. -/
structure Unfetched (state : Dispatcher Name) : Prop where
  fetches : state.fileFetches = []
  jobs : ∀ job ∈ state.jobs, ¬ OfFetch job

theorem Unfetched.jobs_append {source target : Dispatcher Name}
    (unfetched : Unfetched source) {jobs : List (DispatcherJob Name)}
    (fetches : target.fileFetches = source.fileFetches)
    (queued : target.jobs = source.jobs ++ jobs)
    (others : ∀ job ∈ jobs, ¬ OfFetch job) : Unfetched target := by
  refine ⟨fetches.trans unfetched.fetches, ?_⟩
  rw [queued]
  exact List.forall_mem_append.mpr ⟨unfetched.jobs, others⟩

theorem not_ofFetch_of_removals {before after : ActionLog Name} :
    ∀ job ∈ removals before after, ¬ OfFetch job := by
  intro job member
  obtain ⟨filename, rfl⟩ := eq_of_mem_removals member
  exact id

theorem Unfetched.runJob {surroundings : Surroundings}
    {job : DispatcherJob Name} {source target : Dispatcher Name}
    (unfetched : Unfetched source) (other : ¬ OfFetch job)
    (ran : runJob platform surroundings source job = some target) :
    Unfetched target := by
  cases job with
  | localFileAddOrModify relativeFilePath =>
      rcases didLocalFileAddOrModify_cases ran with ⟨rfl, _⟩ |
        ⟨node, seqNo, syncLog, segNum, parent, tables, _, _, _, rfl⟩
      · exact unfetched
      · exact ⟨unfetched.fetches, unfetched.jobs⟩
  | localFileDelete relativeFilePath =>
      rcases didLocalFileDelete_cases ran with ⟨rfl, _⟩ |
        ⟨seqNo, syncLog, parent, parentSeqNo, _, _, rfl⟩
      · exact unfetched
      · exact unfetched.jobs_append rfl rfl not_ofFetch_of_removals
  | actionApplyDelete filename =>
      rw [← Option.some.inj ran]
      exact ⟨unfetched.fetches, unfetched.jobs⟩
  | fileSegmentFetch deviceName hash segment content =>
      exact absurd trivial other
  | fileFetchComplete deviceName hash => exact absurd trivial other

theorem Unfetched.not_drops {label : DispatcherEvent Name}
    {source : Dispatcher Name} (unfetched : Unfetched source) :
    ¬ Drops platform source label := by
  rintro ⟨delivery, given, -⟩
  cases label with
  | execute surroundings =>
      rw [deliveredBy] at given
      split at given
      · next queue =>
          have others := unfetched.jobs
          rw [queue, List.forall_mem_cons] at others
          exact others.1 trivial
      · cases given
  | _ => cases given

theorem unfetched_restarted (log : ActionLog Name)
    (tables : Bytes → ObjectTable) (disk : Disk) :
    Unfetched (restarted log tables disk) :=
  ⟨rfl, by simp [restarted]⟩

variable [DecidableEq Name]

theorem subset_step {label : DispatcherEvent Name}
    {source target : Dispatcher Name}
    (taken : step platform source label = some target) (text : Bytes) :
    source.tables text ⊆ target.tables text := by
  cases label with
  | userChange place node =>
      rw [← Option.some.inj taken]
      exact List.Subset.refl _
  | localFileAddOrModify relativeFilePath =>
      rw [← Option.some.inj taken]
      exact List.Subset.refl _
  | localFileDelete relativeFilePath =>
      rw [← Option.some.inj taken]
      exact List.Subset.refl _
  | actionFetch deviceName seqNo actionPco =>
      rw [(arrives_of_actionFetch taken).tables]
      exact List.Subset.refl _
  | fileSegmentFetch deviceName hash seqNo content =>
      rw [step] at taken
      split_ifs at taken
      rw [← Option.some.inj taken]
      exact List.Subset.refl _
  | fileFetchComplete deviceName hash =>
      rw [step] at taken
      split_ifs at taken
      rw [← Option.some.inj taken]
      exact List.Subset.refl _
  | execute surroundings =>
      rw [step] at taken
      split at taken
      · simp at taken
      · exact subset_runJob taken text

/-- After a step the segments it was given are saved unless it drops one. -/
theorem saved_of_step {label : DispatcherEvent Name}
    {source target : Dispatcher Name}
    (taken : step platform source label = some target)
    (kept : ¬ Drops platform source label) {delivery : Delivery Name}
    (given : delivery ∈ deliveredBy source label) :
    Saved platform target.tables delivery := by
  cases label with
  | execute surroundings =>
      rw [step] at taken
      split at taken
      · simp at taken
      · next job jobs queue =>
          cases job with
          | fileSegmentFetch deviceName hash segment content =>
              have same : delivery = ⟨deviceName, hash, segment, content⟩ := by
                simpa [deliveredBy, queue] using given
              rw [same, ← Option.some.inj taken]
              apply (saved_fileSegmentFetch_iff
                ⟨deviceName, hash, segment, content⟩).mpr
              intro dropped
              exact kept ⟨_, given, by rwa [same]⟩
          | _ => simp [deliveredBy, queue] at given
  | _ => simp [deliveredBy] at given

variable {start final : Dispatcher Name}
  {trace : List (Dispatcher Name × DispatcherEvent Name)}

theorem saved_of_kept (run : Steps platform start trace final)
    (kept : ∀ taken ∈ trace, ¬ Drops platform taken.1 taken.2) :
    ∀ delivery ∈ delivered trace, Saved platform final.tables delivery := by
  induction run with
  | nil => simp [delivered]
  | @snoc trace middle final label prefixRun taken induction =>
      rw [List.forall_mem_append, List.forall_mem_singleton] at kept
      intro delivery member
      rw [delivered, List.flatMap_append, List.mem_append,
        List.flatMap_singleton] at member
      rcases member with earlier | given
      · exact (induction kept.1 delivery earlier).mono (subset_step taken)
      · exact saved_of_step taken kept.2 given

theorem savedAtCompletion_of_kept (run : Steps platform start trace final)
    (kept : ∀ taken ∈ trace, ¬ Drops platform taken.1 taken.2) :
    SavedAtCompletion platform trace final := by
  intro deviceName hash jobs _ delivery arrived _ _
  exact saved_of_kept run kept delivery arrived

theorem Unfetched.step (printed : platform.hashText = Hash.printed)
    {label : DispatcherEvent Name} {source target : Dispatcher Name}
    (unfetched : Unfetched source)
    (taken : step platform source label = some target) :
    Unfetched target := by
  cases label with
  | userChange place node =>
      rw [← Option.some.inj taken]
      exact ⟨unfetched.fetches, unfetched.jobs⟩
  | localFileAddOrModify relativeFilePath =>
      rw [← Option.some.inj taken]
      exact unfetched.jobs_append rfl rfl (by simp [OfFetch])
  | localFileDelete relativeFilePath =>
      rw [← Option.some.inj taken]
      exact unfetched.jobs_append rfl rfl (by simp [OfFetch])
  | actionFetch deviceName seqNo actionPco =>
      rw [actionFetch_of_printed printed taken]
      exact unfetched.jobs_append rfl rfl not_ofFetch_of_removals
  | fileSegmentFetch deviceName hash seqNo content =>
      simp [Dispatcher.step, unfetched.fetches] at taken
  | fileFetchComplete deviceName hash =>
      simp [Dispatcher.step, unfetched.fetches] at taken
  | execute surroundings =>
      rw [Dispatcher.step] at taken
      split at taken
      · simp at taken
      · next job jobs queue =>
          have queued := unfetched.jobs
          rw [queue, List.forall_mem_cons] at queued
          have popped : Unfetched { source with jobs := jobs } :=
            ⟨unfetched.fetches, queued.2⟩
          exact popped.runJob queued.1 taken

end Dispatcher

namespace Dispatcher

/-- Names as URIs, hashes as they are printed and kept by base names, and a root
directory. -/
def uriDispatcher : DispatcherPlatform Name where
  toActionPlatform := plainActionPlatform Name.uriOps
  sha256 := taggedDigest
  hashText := Hash.printed
  baseNameHash := id
  rootDir := [[0x72]]

/-- The dispatcher as it would be if the digits of a hash were printed.  Where
it opens a database, `uriDispatcher` throws. -/
def digitDispatcher : DispatcherPlatform Name :=
  { uriDispatcher with hashText := hexText }

def plainSurroundings : Surroundings :=
  ⟨7, 0, ⟨fun _ => [], fun _ => []⟩, fun _ => 0, [], 493⟩

/-- The packet with an update of the file `f` to a content of one segment. -/
def addedFile (deviceName : Name) : Data Name where
  name := deviceName
  freshnessPeriod := 60
  content := writeItem ⟨.update, [0x66], 0, 5, some 1,
    some (taggedDigest [9]), some 7, some 420, none, none⟩

/-- The packet with the deletion of a file. -/
def removedFile (filename : Bytes) : Data Name where
  name := Name.bob
  freshnessPeriod := 60
  content := writeItem ⟨.delete, filename, 0, 5, none, none, none, none,
    none, none⟩

end Dispatcher

end ChronoShare
