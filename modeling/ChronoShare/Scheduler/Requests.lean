import ChronoShare.Scheduler.Steps
import ChronoShare.Support.Outliving

/-!
# Every call is answered, unless a deregistration swallows it

A call on a tag that is in the map adds nothing and relies on the task that is
there.  That task answers it as long as its callback has yet to start; once it
has, the call is lost with the deregistration, which removes whatever task has
the tag.
-/

namespace ChronoShare

namespace Scheduler

/-- The step is a call on the tag, accepted or not. -/
def Requests : SchedulerStep → Bytes → Prop
  | .scheduleOneTimeTask requested, tag => requested = tag
  | _, _ => False

/-- The step starts the callback of a task with the tag. -/
def Starts (source : Scheduler) : SchedulerStep → Bytes → Prop
  | .run, tag => ∃ task ∈ source.queue.head?,
      task ∉ source.invoked ∧ task.tag = tag
  | _, _ => False

/-- The step deletes the tag, or the task in the map under it. -/
def Deletes (source : Scheduler) : SchedulerStep → Bytes → Prop
  | .deleteTask deleted, tag => deleted = tag
  | .deleteMatching matcher, tag => ∃ task ∈ source.taskMap tag, matcher task
  | _, _ => False

instance (label : SchedulerStep) (tag : Bytes) :
    Decidable (Requests label tag) := by
  cases label <;> unfold Requests <;> infer_instance

instance (source : Scheduler) (label : SchedulerStep) (tag : Bytes) :
    Decidable (Starts source label tag) := by
  cases label <;> unfold Starts <;> infer_instance

instance (source : Scheduler) (label : SchedulerStep) (tag : Bytes) :
    Decidable (Deletes source label tag) := by
  cases label <;> unfold Deletes <;> infer_instance

/-- A call on the tag came after the last start of a callback for it, and no
deletion of it followed. -/
def Unanswered (trace : List (Scheduler × SchedulerStep)) (tag : Bytes) :
    Prop :=
  Outlives (fun taken tag => Requests taken.2 tag)
    (fun taken tag =>
      Starts taken.1 taken.2 tag ∨ Deletes taken.1 taken.2 tag) trace tag

instance (trace : List (Scheduler × SchedulerStep)) (tag : Bytes) :
    Decidable (Unanswered trace tag) :=
  inferInstanceAs (Decidable (Outlives _ _ trace tag))

theorem unanswered_snoc {trace : List (Scheduler × SchedulerStep)}
    {source : Scheduler} {label : SchedulerStep} {tag : Bytes} :
    Unanswered (trace ++ [(source, label)]) tag ↔
      Requests label tag ∨ (Unanswered trace tag ∧
        ¬ Starts source label tag ∧ ¬ Deletes source label tag) := by
  rw [Unanswered, outlives_snoc, not_or]
  rfl

/-- The task that ran deregisters while a call on its tag is unanswered and no
job for the tag is queued or about to be. -/
def Swallows (earlier : List (Scheduler × SchedulerStep))
    (source : Scheduler) : SchedulerStep → Prop
  | .deregisterSelf => ∃ taken ∈ source.running,
      Unanswered earlier taken.1.tag ∧
        ∀ job ∈ source.fired ++ source.queue, job.tag ≠ taken.1.tag
  | _ => False

instance (earlier : List (Scheduler × SchedulerStep)) (source : Scheduler)
    (label : SchedulerStep) : Decidable (Swallows earlier source label) := by
  cases label <;> unfold Swallows <;> infer_instance

/-- A task in the map, or a job, will start the callback for the tag. -/
def Attended (scheduler : Scheduler) (tag : Bytes) : Prop :=
  (∃ task, scheduler.taskMap tag = some task) ∨
    ∃ job ∈ scheduler.fired ++ scheduler.queue, job.tag = tag

section Steps

variable {source target : Scheduler} {tag : Bytes}

theorem Attended.mono (attended : source.Attended tag)
    (sameMap : target.taskMap tag = source.taskMap tag)
    (jobs : ∀ job ∈ source.fired ++ source.queue, job.tag = tag →
      job ∈ target.fired ++ target.queue) : target.Attended tag := by
  rcases attended with ⟨task, found⟩ | ⟨job, member, named⟩
  · exact Or.inl ⟨task, sameMap.trans found⟩
  · exact Or.inr ⟨job, jobs job member named, named⟩

theorem attended_addToMap (scheduler : Scheduler) (tag : Bytes) :
    (scheduler.addToMap tag).Attended tag := by
  apply Or.inl
  cases present : scheduler.taskMap tag with
  | none => simp [addToMap, present]
  | some task => simp [addToMap, present]

theorem Attended.addToMap (attended : source.Attended tag) (other : Bytes) :
    (source.addToMap other).Attended tag := by
  by_cases same : other = tag
  · rw [same]
    exact attended_addToMap source tag
  · cases present : source.taskMap other with
    | none =>
        apply attended.mono
        · simp [Scheduler.addToMap, present, Ne.symm same]
        · intro job member _
          simpa [Scheduler.addToMap, present] using member
    | some task =>
        apply attended.mono
        · simp [Scheduler.addToMap, present]
        · intro job member _
          simpa [Scheduler.addToMap, present] using member

theorem deleteTask_fired (scheduler : Scheduler) (tag : Bytes) :
    (scheduler.deleteTask tag).fired = scheduler.fired := by
  rw [deleteTask]
  split <;> rfl

theorem deleteTask_queue (scheduler : Scheduler) (tag : Bytes) :
    (scheduler.deleteTask tag).queue = scheduler.queue := by
  rw [deleteTask]
  split <;> rfl

theorem deleteTask_taskMap_of_ne (scheduler : Scheduler) {deleted : Bytes}
    (different : tag ≠ deleted) :
    (scheduler.deleteTask deleted).taskMap tag = scheduler.taskMap tag := by
  rw [deleteTask]
  split
  · rfl
  · exact Function.update_of_ne different _ _

theorem Attended.deleteTask (attended : source.Attended tag)
    {deleted : Bytes} (different : tag ≠ deleted) :
    (source.deleteTask deleted).Attended tag := by
  apply attended.mono
  · exact deleteTask_taskMap_of_ne source different
  · rw [deleteTask_fired, deleteTask_queue]
    exact fun job member _ => member

theorem Attended.deleteMatching (attended : source.Attended tag)
    {matcher : OneTimeTask → Bool}
    (rejected : ¬ ∃ task ∈ source.taskMap tag, matcher task) :
    (source.deleteMatching matcher).Attended tag := by
  apply attended.mono
  · cases present : source.taskMap tag with
    | none => simp [Scheduler.deleteMatching, present]
    | some task =>
        have unmatched : matcher task = false := by
          simpa [present] using rejected
        simp [Scheduler.deleteMatching, present, unmatched]
  · exact fun job member _ => member

theorem Attended.deregisterSelf {trace : List (Scheduler × SchedulerStep)}
    (unanswered : Unanswered trace tag) (attended : source.Attended tag)
    (taken : source.step .deregisterSelf = some target)
    (kept : ¬ Swallows trace source .deregisterSelf) :
    target.Attended tag := by
  obtain ⟨task, here, rfl⟩ := deregisterSelf_cases taken
  by_cases same : tag = task.tag
  · have queued : ∃ job ∈ source.fired ++ source.queue,
        job.tag = task.tag := by
      by_contra none
      push Not at none
      apply kept
      rw [same] at unanswered
      exact ⟨(task, .deregisterSelf), here, unanswered, none⟩
    apply Or.inr
    rw [same]
    simpa only [deleteTask_fired, deleteTask_queue] using queued
  · exact attended.deleteTask same

/-- A deregistration that swallows a call leaves neither a task nor a job for
its tag. -/
theorem lost_of_swallows {trace : List (Scheduler × SchedulerStep)}
    (taken : source.step .deregisterSelf = some target)
    (swallows : Swallows trace source .deregisterSelf) :
    ∃ tag, Unanswered (trace ++ [(source, .deregisterSelf)]) tag ∧
      ¬ target.Attended tag := by
  obtain ⟨task, here, rfl⟩ := deregisterSelf_cases taken
  obtain ⟨⟨other, point⟩, running, unanswered, unqueued⟩ := swallows
  obtain rfl : task = other := by
    have both : some (task, RunPoint.deregisterSelf) = some (other, point) :=
      here.symm.trans running
    exact (Prod.mk.inj (Option.some.inj both)).1
  refine ⟨task.tag, unanswered_snoc.mpr (Or.inr ⟨unanswered, id, id⟩), ?_⟩
  intro attended
  rcases attended with ⟨mapped, found⟩ | ⟨job, member, named⟩
  · have unmapped := deleteTask_taskMap_self source task.tag
    rw [unmapped] at found
    exact absurd found (by simp)
  · rw [deleteTask_fired, deleteTask_queue] at member
    exact unqueued job member named

theorem Attended.run (sound : source.Sound) (attended : source.Attended tag)
    (taken : source.step .run = some target)
    (other : ¬ Starts source .run tag) : target.Attended tag := by
  obtain ⟨task, queue, -, queued, unmarked, rfl⟩ := run_cases sound taken
  have different : task.tag ≠ tag := by
    intro same
    exact other ⟨task, by simp [queued], unmarked, same⟩
  refine attended.mono rfl ?_
  intro job member named
  rw [queued] at member
  rcases List.mem_append.mp member with early | late
  · exact List.mem_append_left _ early
  · rcases List.mem_cons.mp late with rfl | later
    · exact absurd named different
    · exact List.mem_append_right _ later

theorem step_attended {trace : List (Scheduler × SchedulerStep)}
    {label : SchedulerStep} (sound : source.Sound)
    (taken : source.step label = some target)
    (kept : ¬ Swallows trace source label)
    (earlier : ∀ tag, Unanswered trace tag → source.Attended tag) :
    ∀ tag, Unanswered (trace ++ [(source, label)]) tag →
      target.Attended tag := by
  intro tag unanswered
  rcases unanswered_snoc.mp unanswered with requested | ⟨before, rest⟩
  · cases label with
    | scheduleOneTimeTask requestedTag =>
        obtain rfl := Option.some.inj taken
        obtain rfl : requestedTag = tag := requested
        exact attended_addToMap source requestedTag
    | _ => exact absurd requested id
  have attended := earlier tag before
  obtain ⟨notStarted, notDeleted⟩ := rest
  cases label with
  | scheduleOneTimeTask other =>
      obtain rfl := Option.some.inj taken
      exact attended.addToMap other
  | evtimerAdd task =>
      obtain ⟨-, -, rfl⟩ := evtimerAdd_cases taken
      exact attended.mono rfl fun job member _ => member
  | release task =>
      simp only [step] at taken
      split_ifs at taken
      obtain rfl := Option.some.inj taken
      exact attended.mono rfl fun job member _ => member
  | fire task =>
      obtain ⟨-, -, rfl⟩ := fire_cases taken
      refine attended.mono rfl ?_
      intro job member _
      simp only [List.mem_append] at member ⊢
      tauto
  | execute task =>
      obtain ⟨fired, -, rfl⟩ := execute_cases taken
      refine attended.mono rfl ?_
      intro job member _
      have moved := (@move_perm source.fired source.queue task fired
        []).mem_iff (a := job)
      simpa using moved.mpr (by simpa using member)
  | run => exact attended.run sound taken notStarted
  | callbackReturns =>
      obtain ⟨task, -, rfl⟩ := callbackReturns_cases taken
      exact attended.mono rfl fun job member _ => member
  | deregisterSelf => exact attended.deregisterSelf before taken kept
  | deleteTask deleted =>
      obtain rfl := Option.some.inj taken
      exact attended.deleteTask (Ne.symm notDeleted)
  | deleteMatching matcher =>
      obtain rfl := Option.some.inj taken
      exact attended.deleteMatching notDeleted

end Steps

theorem run_attended {trace : List (Scheduler × SchedulerStep)}
    {final : Scheduler} (runs : Runs trace final)
    (kept : ∀ earlier taken later, trace = earlier ++ taken :: later →
      ¬ Swallows earlier taken.1 taken.2) :
    final.Sound ∧ ∀ tag, Unanswered trace tag → final.Attended tag := by
  induction runs with
  | nil =>
      refine ⟨sound_initial, ?_⟩
      intro tag unanswered
      exact absurd unanswered (not_outlives_nil tag)
  | @snoc trace middle final label prefixRun taken induction =>
      obtain ⟨sound, attended⟩ := induction (by
        intro earlier other later split
        exact kept earlier other (later ++ [(middle, label)])
          (by simp [split]))
      have keptLast : ¬ Swallows trace middle label :=
        kept trace (middle, label) [] rfl
      exact ⟨step_sound sound taken,
        step_attended sound taken keptLast attended⟩

theorem Sound.not_attended {scheduler : Scheduler} (sound : scheduler.Sound)
    (quiet : scheduler.Quiet) (tag : Bytes) : ¬ scheduler.Attended tag := by
  have nothing : ∀ task, task ∉ scheduler.alive := by
    intro task member
    rw [quiet] at member
    exact List.not_mem_nil member
  intro attended
  rcases attended with ⟨task, found⟩ | ⟨job, member, -⟩
  · exact nothing task (sound.mapped tag task found).2
  · apply nothing job
    apply mem_alive.mpr
    apply Or.inl
    apply mem_waiting.mpr
    exact Or.inr (Or.inr (List.mem_append.mp member))

/-- `LOCAL_STATE_CHANGE_DELAYED_TAG`, the text `local-state-changed`. -/
def localStateChangeDelayedTag : Bytes :=
  [0x6C, 0x6F, 0x63, 0x61, 0x6C, 0x2D, 0x73, 0x74, 0x61, 0x74, 0x65, 0x2D,
    0x63, 0x68, 0x61, 0x6E, 0x67, 0x65, 0x64]

/-- `SyncCore::localStateChangedDelayed`; the callback of the task is
`localStateChanged`. -/
def localStateChangedDelayed : SchedulerStep :=
  .scheduleOneTimeTask localStateChangeDelayedTag

/-- In a run without a deregistration that swallows a call, every quiet state
has its calls answered; without deletions of the tag, each
`localStateChangedDelayed` is followed by the start of a
`localStateChanged`. -/
theorem calls_answered {trace : List (Scheduler × SchedulerStep)}
    {final : Scheduler} (runs : Runs trace final)
    (kept : ∀ earlier taken later, trace = earlier ++ taken :: later →
      ¬ Swallows earlier taken.1 taken.2) (quiet : final.Quiet) :
    (∀ tag, ¬ Unanswered trace tag) ∧
      ((∀ taken ∈ trace,
          ¬ Deletes taken.1 taken.2 localStateChangeDelayedTag) →
        ∀ earlier source later,
          trace = earlier ++ (source, localStateChangedDelayed) :: later →
            ∃ taken ∈ later,
              Starts taken.1 taken.2 localStateChangeDelayedTag) := by
  obtain ⟨sound, attended⟩ := run_attended runs kept
  have answered : ∀ tag, ¬ Unanswered trace tag := by
    intro tag unanswered
    exact sound.not_attended quiet tag (attended tag unanswered)
  refine ⟨answered, ?_⟩
  intro undeleted earlier source later split
  by_contra none
  apply answered localStateChangeDelayedTag
  refine ⟨earlier, _, later, split, rfl, ?_⟩
  intro taken member removed
  rcases removed with starts | deletes
  · exact none ⟨taken, member, starts⟩
  · exact undeleted taken (by simp [split, member]) deletes

def delayedTask : OneTimeTask :=
  ⟨0, localStateChangeDelayedTag⟩

def calledTwice : List SchedulerStep :=
  [localStateChangedDelayed, .evtimerAdd delayedTask, .release delayedTask,
    localStateChangedDelayed, .fire delayedTask, .execute delayedTask, .run,
    .callbackReturns, .deregisterSelf]

/-- The second call comes while the callback runs. -/
def calledMeanwhile : List SchedulerStep :=
  [localStateChangedDelayed, .evtimerAdd delayedTask, .release delayedTask,
    .fire delayedTask, .execute delayedTask, .run, localStateChangedDelayed,
    .callbackReturns, .deregisterSelf]

theorem not_swallows_of_take {trace : List (Scheduler × SchedulerStep)}
    (kept : ∀ count < trace.length, ∀ taken ∈ (trace)[count]?,
      ¬ Swallows (trace.take count) taken.1 taken.2) :
    ∀ earlier taken later, trace = earlier ++ taken :: later →
      ¬ Swallows earlier taken.1 taken.2 := by
  intro earlier taken later split
  have here := kept earlier.length (by simp [split]) taken (by simp [split])
  simpa [split] using here

theorem calls_answered_calledTwice :
    ∃ trace final, Runs trace final ∧ final.Quiet ∧
      (∀ earlier taken later, trace = earlier ++ taken :: later →
        ¬ Swallows earlier taken.1 taken.2) ∧
      trace.map Prod.snd = calledTwice ∧
      ¬ Unanswered trace localStateChangeDelayedTag := by
  have executed : (execute step initial calledTwice).any (fun result =>
      result.2.Quiet ∧ ∀ count < result.1.length,
        ∀ taken ∈ result.1[count]?,
          ¬ Swallows (result.1.take count) taken.1 taken.2) = true := by
    decide +kernel
  obtain ⟨⟨trace, final⟩, ran, holds⟩ := (Option.any_eq_true _ _).mp executed
  obtain ⟨quiet, taken⟩ := of_decide_eq_true holds
  have runs : Runs trace final := execute_run ran
  have kept := not_swallows_of_take taken
  exact ⟨trace, final, runs, quiet, kept, execute_labels ran,
    (calls_answered runs kept quiet).1 localStateChangeDelayedTag⟩

/-- A call made while the callback runs is dropped, and nothing remains that
would answer it. -/
theorem call_swallowed :
    ∃ trace final, Runs trace final ∧ final.Quiet ∧
      trace.map Prod.snd = calledMeanwhile ∧
      Unanswered trace localStateChangeDelayedTag ∧
      final.taskMap localStateChangeDelayedTag = none := by
  have executed : (execute step initial calledMeanwhile).any (fun result =>
      result.2.Quiet ∧
      Unanswered result.1 localStateChangeDelayedTag ∧
      result.2.taskMap localStateChangeDelayedTag = none) = true := by
    decide +kernel
  obtain ⟨⟨trace, final⟩, ran, holds⟩ := (Option.any_eq_true _ _).mp executed
  obtain ⟨quiet, unanswered, unmapped⟩ := of_decide_eq_true holds
  have runs : Runs trace final := execute_run ran
  exact ⟨trace, final, runs, quiet, execute_labels ran, unanswered, unmapped⟩

end Scheduler

end ChronoShare
