import ChronoShare.Dispatcher.Containment

/-!
# What the dispatcher keeps

A step of the dispatcher loses neither an action nor a job, apart from the one
that it executes, and only a notification makes a report.
-/

namespace ChronoShare

namespace Dispatcher

variable {Name : Type} {platform : DispatcherPlatform Name}
  {source target : Dispatcher Name} {surroundings : Surroundings}

/-- The jobs that a report leaves. -/
def IsReport : DispatcherJob Name → Prop
  | .localFileAddOrModify _ => True
  | .localFileDelete _ => True
  | _ => False

/-- Neither a job nor an action is lost, and no report is made. -/
structure Keeps (source target : Dispatcher Name) : Prop where
  jobs : ∃ more, target.jobs = source.jobs ++ more ∧
    ∀ job ∈ more, ¬ IsReport job
  actions : source.log.actions ⊆ target.log.actions

theorem Keeps.same (jobs : target.jobs = source.jobs)
    (actions : source.log.actions ⊆ target.log.actions) :
    Keeps source target :=
  ⟨⟨[], by rw [jobs, List.append_nil], by simp⟩, actions⟩

theorem Keeps.refl (source : Dispatcher Name) : Keeps source source :=
  .same rfl (List.Subset.refl _)

theorem Keeps.trans {middle : Dispatcher Name} (first : Keeps source middle)
    (second : Keeps middle target) : Keeps source target := by
  obtain ⟨earlier, firstJobs, firstOther⟩ := first.jobs
  obtain ⟨later, secondJobs, secondOther⟩ := second.jobs
  refine ⟨⟨earlier ++ later, ?_, ?_⟩,
    List.Subset.trans first.actions second.actions⟩
  · rw [secondJobs, firstJobs, List.append_assoc]
  · exact List.forall_mem_append.mpr ⟨firstOther, secondOther⟩

theorem keeps_post {job : DispatcherJob Name} (other : ¬ IsReport job) :
    Keeps source (source.post job) :=
  ⟨⟨[job], rfl, by simpa using other⟩, List.Subset.refl _⟩

theorem not_isReport_of_removals {before after : ActionLog Name}
    {job : DispatcherJob Name} (member : job ∈ removals before after) :
    ¬ IsReport job := by
  obtain ⟨filename, rfl⟩ := eq_of_mem_removals member
  exact id

theorem subset_insertAction (log : ActionLog Name) (new : ActionRow) :
    log.actions ⊆ (log.insertAction new).actions := by
  by_cases recorded : ActionLog.Recorded log.actions new
  · rw [ActionLog.insertAction_of_recorded recorded]
    exact List.Subset.refl _
  · rw [ActionLog.insertAction_of_not_recorded recorded]
    exact List.subset_append_left _ _

theorem keeps_assembleFile {deviceName : Name} {hash : Bytes} {row : FileRow}
    (assembled : assembleFile platform surroundings deviceName hash source row =
      some target) : Keeps source target := by
  rw [assembleFile] at assembled
  split_ifs at assembled
  · rw [← Option.some.inj assembled]
    exact .refl source
  · split at assembled
    · simp at assembled
    · rw [← Option.some.inj assembled]
      exact .refl source
    · obtain ⟨disk, _, rfl⟩ := Option.map_eq_some_iff.mp assembled
      exact .same rfl (List.Subset.refl _)

theorem keeps_runJob {job : DispatcherJob Name}
    (ran : runJob platform surroundings source job = some target) :
    Keeps source target := by
  cases job with
  | localFileAddOrModify relativeFilePath =>
      rcases didLocalFileAddOrModify_cases ran with ⟨rfl, _⟩ |
        ⟨node, seqNo, syncLog, segNum, parent, tables, _, _, _, rfl⟩
      · exact .refl target
      · exact .same rfl
          (subset_insertAction { source.log with syncLog := syncLog } _)
  | localFileDelete relativeFilePath =>
      rcases didLocalFileDelete_cases ran with ⟨rfl, _⟩ |
        ⟨seqNo, syncLog, parent, parentSeqNo, _, _, rfl⟩
      · exact .refl target
      · exact ⟨⟨_, rfl, fun _ => not_isReport_of_removals⟩,
          subset_insertAction { source.log with syncLog := syncLog } _⟩
  | actionApplyDelete filename =>
      rw [← Option.some.inj ran]
      exact .same rfl (List.Subset.refl _)
  | fileSegmentFetch deviceName hash segment content =>
      rw [← Option.some.inj ran, didFetchManagerFileSegmentFetch]
      split_ifs
      · exact .same rfl (List.Subset.refl _)
      · exact .refl source
  | fileFetchComplete deviceName hash =>
      apply foldlM_invariant (Keeps source) ran
      · exact .same rfl (List.Subset.refl _)
      · intro row _ before after assembled earlier
        exact earlier.trans (keeps_assembleFile assembled)

theorem keeps_actionFetch {deviceName : Name} {seqNo : UInt32}
    {actionPco : Option (Data Name)}
    (fetched : didFetchManagerActionFetch platform source deviceName seqNo
      actionPco = some target) : Keeps source target := by
  have arrives := arrives_of_actionFetch fetched
  obtain ⟨completions, queued, only⟩ := arrives.jobs
  refine ⟨⟨removals source.log target.log ++ completions, ?_, ?_⟩, ?_⟩
  · rw [queued, List.append_assoc]
  · intro job member
    rcases List.mem_append.mp member with removal | completion
    · exact not_isReport_of_removals removal
    · obtain ⟨hash, rfl⟩ := only job completion
      exact id
  · rw [arrives.log]
    rcases ActionLog.addRemoteAction_cases platform.toActionPlatform
        source.log deviceName seqNo.toUInt64.toInt64 actionPco with same |
      ⟨data, item, _, _, inserted⟩
    · rw [same]
      exact List.Subset.refl _
    · rw [inserted]
      exact subset_insertAction _ _

def executed (source : Dispatcher Name) :
    DispatcherEvent Name → Option (DispatcherJob Name)
  | .execute _ => source.jobs.head?
  | _ => none

def Notified : DispatcherEvent Name → Prop
  | .localFileAddOrModify _ => True
  | .localFileDelete _ => True
  | _ => False

/-- Without a notification, a step executes a job or leaves the queue, and
keeps the rest. -/
theorem keeps_step [DecidableEq Name] {label : DispatcherEvent Name}
    (other : ¬ Notified label)
    (taken : step platform source label = some target) :
    ∃ jobs, source.jobs = (source.executed label).toList ++ jobs ∧
      Keeps { source with jobs := jobs } target := by
  have leaves : source.executed label = none → Keeps source target →
      ∃ jobs, source.jobs = (source.executed label).toList ++ jobs ∧
        Keeps { source with jobs := jobs } target := by
    intro none keeps
    exact ⟨source.jobs, by rw [none]; rfl, keeps⟩
  cases label with
  | userChange place node =>
      apply leaves rfl
      rw [← Option.some.inj taken]
      exact .same rfl (List.Subset.refl _)
  | localFileAddOrModify | localFileDelete => exact absurd trivial other
  | actionFetch deviceName seqNo actionPco =>
      exact leaves rfl (keeps_actionFetch taken)
  | fileSegmentFetch deviceName hash seqNo content =>
      apply leaves rfl
      rw [step] at taken
      split_ifs at taken
      rw [← Option.some.inj taken]
      exact keeps_post id
  | fileFetchComplete deviceName hash =>
      apply leaves rfl
      rw [step] at taken
      split_ifs at taken
      rw [← Option.some.inj taken]
      exact keeps_post id
  | execute surroundings =>
      rw [step] at taken
      split at taken
      · cases taken
      · rename_i first jobs queue
        refine ⟨jobs, ?_, keeps_runJob taken⟩
        rw [executed, queue]
        rfl

/-- A step that executes a report takes it from the queue, and no step makes
one. -/
theorem count_step [DecidableEq Name] {label : DispatcherEvent Name}
    {job : DispatcherJob Name} (isReport : IsReport job)
    (other : ¬ Notified label)
    (taken : step platform source label = some target) :
    source.jobs.count job = target.jobs.count job +
      if source.executed label = some job then 1 else 0 := by
  obtain ⟨jobs, queue, keeps⟩ := keeps_step other taken
  obtain ⟨more, added, others⟩ := keeps.jobs
  have noMore : more.count job = 0 :=
    List.count_eq_zero.mpr fun member => others job member isReport
  rw [queue, added, List.count_append, List.count_append, noMore]
  cases source.executed label with
  | none => simp
  | some first =>
      by_cases same : first = job
      · simp [same, Nat.add_comm]
      · simp [same]

end Dispatcher

end ChronoShare
