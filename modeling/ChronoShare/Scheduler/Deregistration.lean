import ChronoShare.Scheduler.Requests
import Mathlib.Data.List.Nodup

/-!
# Accepted tasks run once

A task that is accepted is on its way until its callback starts, and a task
whose timer has yet to fire is the one that the map has under its tag.  The
deregistration of another task with the tag takes both away from it.
-/

namespace ChronoShare

namespace Scheduler

/-- The task that the step puts into the map. -/
def accepted (source : Scheduler) : SchedulerStep → Option OneTimeTask
  | .scheduleOneTimeTask tag =>
      if source.taskMap tag = none then some ⟨source.created, tag⟩ else none
  | _ => none

/-- The task whose callback the step starts. -/
def started (source : Scheduler) : SchedulerStep → Option OneTimeTask
  | .run => source.queue.head?.filter fun task => task ∉ source.invoked
  | _ => none

/-- The tasks whose callbacks have been started, in this order. -/
def starts (trace : List (Scheduler × SchedulerStep)) : List OneTimeTask :=
  trace.filterMap fun taken => started taken.1 taken.2

/-- The task was accepted, and no caller has deleted its tag since. -/
def Undeleted (trace : List (Scheduler × SchedulerStep))
    (task : OneTimeTask) : Prop :=
  Outlives (fun taken task => task ∈ accepted taken.1 taken.2)
    (fun taken task => Deletes taken.1 taken.2 task.tag) trace task

instance (trace : List (Scheduler × SchedulerStep)) (task : OneTimeTask) :
    Decidable (Undeleted trace task) :=
  inferInstanceAs (Decidable (Outlives _ _ trace task))

/-- No callback has been started twice, and when no timer is armed and no job
is pending, those of all accepted tasks that were not deleted have been started
once. -/
structure ExactlyOnce (trace : List (Scheduler × SchedulerStep))
    (final : Scheduler) : Prop where
  atMost : ∀ task, (starts trace).count task ≤ 1
  once : final.Quiet → ∀ task, Undeleted trace task →
    (starts trace).count task = 1

/-- The timer of the task is armed or about to be. -/
def Timed (scheduler : Scheduler) (task : OneTimeTask) : Prop :=
  task ∈ scheduler.adding ∨ task ∈ scheduler.armed

instance (scheduler : Scheduler) (task : OneTimeTask) :
    Decidable (scheduler.Timed task) :=
  inferInstanceAs (Decidable (_ ∨ _))

/-- The task that ran deregisters while its tag belongs to another task whose
timer has not fired. -/
def Cancels (source : Scheduler) : SchedulerStep → Prop
  | .deregisterSelf => ∃ taken ∈ source.running,
      ∃ other ∈ source.taskMap taken.1.tag,
        other ≠ taken.1 ∧ source.Timed other
  | _ => False

instance (source : Scheduler) (label : SchedulerStep) :
    Decidable (Cancels source label) :=
  match label with
  | .deregisterSelf => inferInstanceAs (Decidable
      (∃ taken ∈ source.running, ∃ other ∈ source.taskMap taken.1.tag,
        other ≠ taken.1 ∧ source.Timed other))
  | .scheduleOneTimeTask _ | .evtimerAdd _ | .release _ | .fire _
  | .execute _ | .run | .callbackReturns | .deleteTask _
  | .deleteMatching _ => .isFalse id

/-- The callback of the task will start: the task is on its way, and in the
map until its timer fires. -/
structure Held (scheduler : Scheduler) (task : OneTimeTask) : Prop where
  waits : task ∈ scheduler.waiting
  mapped : scheduler.Timed task → scheduler.taskMap task.tag = some task

section Steps

variable {source target : Scheduler} {task : OneTimeTask}

theorem undeleted_snoc {trace : List (Scheduler × SchedulerStep)}
    {label : SchedulerStep} :
    Undeleted (trace ++ [(source, label)]) task ↔
      task ∈ accepted source label ∨
        (Undeleted trace task ∧ ¬ Deletes source label task.tag) :=
  outlives_snoc

theorem Held.of_perm (held : source.Held task)
    (waiting : target.waiting.Perm source.waiting)
    (timed : target.Timed task → source.Timed task)
    (sameMap : target.taskMap = source.taskMap) : target.Held task where
  waits := waiting.mem_iff.mpr held.waits
  mapped isTimed := by
    rw [sameMap]
    exact held.mapped (timed isTimed)

theorem held_accepted {tag : Bytes}
    (accepts : task ∈ accepted source (.scheduleOneTimeTask tag)) :
    (source.addToMap tag).Held task := by
  simp only [accepted] at accepts
  split_ifs at accepts with absent
  · obtain rfl := Option.some.inj accepts
    simp only [addToMap, absent]
    exact ⟨mem_waiting.mpr (by simp), fun _ => Function.update_self _ _ _⟩
  · cases accepts

theorem Held.addToMap (sound : source.Sound) (held : source.Held task)
    (tag : Bytes) : (source.addToMap tag).Held task := by
  cases present : source.taskMap tag with
  | some other =>
      simp only [Scheduler.addToMap, present]
      exact ⟨held.waits, held.mapped⟩
  | none =>
      have old : task.id < source.created :=
        sound.aliveCreated task (mem_alive.mpr (.inl held.waits))
      have different : task ≠ ⟨source.created, tag⟩ := by
        rintro rfl
        exact absurd old (lt_irrefl _)
      simp only [Scheduler.addToMap, present]
      refine ⟨?_, fun timed => ?_⟩
      · have waits := mem_waiting.mp held.waits
        apply mem_waiting.mpr
        simp only [List.mem_append, List.mem_singleton]
        tauto
      · have before : source.Timed task := by
          simpa [Timed, different] using timed
        have found := held.mapped before
        have other : task.tag ≠ tag := by
          intro same
          rw [same, present] at found
          cases found
        exact (Function.update_of_ne other _ _).trans found

theorem Held.deleteTask (held : source.Held task) {tag : Bytes}
    (safe : source.taskMap tag = some task → ¬ source.Timed task) :
    (source.deleteTask tag).Held task := by
  cases present : source.taskMap tag with
  | none =>
      simp only [Scheduler.deleteTask, present]
      exact held
  | some removed =>
      simp only [Scheduler.deleteTask, present]
      have untouched : source.Timed task → task ≠ removed := by
        rintro timed rfl
        exact safe present timed
      refine ⟨?_, fun timed => ?_⟩
      · have waits := mem_waiting.mp held.waits
        apply mem_waiting.mpr
        rcases waits with adding | armed | fired | queued
        · exact .inl adding
        · have kept := untouched (.inr armed)
          exact .inr (.inl (List.mem_filter.mpr ⟨armed, by simpa using kept⟩))
        · exact .inr (.inr (.inl fired))
        · exact .inr (.inr (.inr queued))
      · have before : source.Timed task :=
          timed.imp_right List.mem_of_mem_filter
        have found := held.mapped before
        have other : task.tag ≠ tag := by
          intro same
          rw [same, present] at found
          exact untouched before (Option.some.inj found).symm
        exact (Function.update_of_ne other _ _).trans found

theorem Held.deleteMatching (held : source.Held task)
    {matcher : OneTimeTask → Bool}
    (rejected : ¬ ∃ other ∈ source.taskMap task.tag, matcher other) :
    (source.deleteMatching matcher).Held task := by
  have unmatched : source.taskMap task.tag = some task →
      matcher task = false := by
    intro found
    by_contra matched
    exact rejected ⟨task, found, eq_true_of_ne_false matched⟩
  refine ⟨?_, fun timed => ?_⟩
  · have waits := mem_waiting.mp held.waits
    apply mem_waiting.mpr
    rcases waits with adding | armed | fired | queued
    · exact .inl adding
    · have found := held.mapped (.inr armed)
      refine .inr (.inl (List.mem_filter.mpr ⟨armed, ?_⟩))
      simp [unmatched found]
    · exact .inr (.inr (.inl fired))
    · exact .inr (.inr (.inr queued))
  · have before : source.Timed task :=
      timed.imp_right List.mem_of_mem_filter
    have found := held.mapped before
    simp [Scheduler.deleteMatching, found, unmatched found]

theorem Held.release (held : source.Held task) (other : OneTimeTask) :
    (source.release other).Held task := by
  refine ⟨?_, fun timed => held.mapped ?_⟩
  · have waits := mem_waiting.mp held.waits
    apply mem_waiting.mpr
    rcases waits with adding | armed | fired | queued
    · exact .inl adding
    · have found := held.mapped (.inr armed)
      apply Or.inr
      apply Or.inl
      simp only [Scheduler.release]
      split_ifs with kept
      · exact armed
      · have different : task ≠ other := by
          rintro rfl
          exact kept found
        exact List.mem_filter.mpr ⟨armed, by simpa using different⟩
    · exact .inr (.inr (.inl fired))
    · exact .inr (.inr (.inr queued))
  · rcases timed with adding | armed
    · exact .inl adding
    · simp only [Scheduler.release] at armed
      split_ifs at armed
      · exact .inr armed
      · exact .inr (List.mem_of_mem_filter armed)

theorem Sound.ne_running (sound : source.Sound) {runner : OneTimeTask}
    {point : RunPoint} (running : source.running = some (runner, point))
    (waits : task ∈ source.waiting) : task ≠ runner := by
  rintro rfl
  have unique := sound.unique
  rw [alive, running] at unique
  exact (List.nodup_append.mp unique).2.2 task waits task (by simp) rfl

theorem Held.deregisterSelf (sound : source.Sound) (held : source.Held task)
    (taken : source.step .deregisterSelf = some target)
    (kept : ¬ Cancels source .deregisterSelf) : target.Held task := by
  obtain ⟨runner, here, rfl⟩ := deregisterSelf_cases taken
  have deleted : (source.deleteTask runner.tag).Held task := by
    apply held.deleteTask
    intro found timed
    apply kept
    have different := sound.ne_running here held.waits
    exact ⟨_, here, task, found, different, timed⟩
  exact ⟨deleted.waits, deleted.mapped⟩

theorem started_run {queue : List OneTimeTask}
    (queued : source.queue = task :: queue) (unmarked : task ∉ source.invoked) :
    started source .run = some task := by
  simp [started, queued, unmarked]

/-- A task that is held and whose callback the step does not start stays
held. -/
theorem step_held {label : SchedulerStep} (sound : source.Sound)
    (taken : source.step label = some target) (kept : ¬ Cancels source label)
    (undeleted : ¬ Deletes source label task.tag)
    (unstarted : task ∉ started source label) (held : source.Held task) :
    target.Held task := by
  cases label with
  | scheduleOneTimeTask tag =>
      obtain rfl := Option.some.inj taken
      exact held.addToMap sound tag
  | evtimerAdd added =>
      obtain ⟨member, moved, rfl⟩ := evtimerAdd_cases taken
      refine held.of_perm moved ?_ rfl
      intro timed
      rcases timed with adding | armed
      · exact .inl (List.mem_of_mem_erase adding)
      · rcases List.mem_append.mp armed with armed | new
        · exact .inr armed
        · rw [List.mem_singleton.mp new]
          exact .inl member
  | release other =>
      simp only [step] at taken
      split_ifs at taken
      obtain rfl := Option.some.inj taken
      exact held.release other
  | fire fired =>
      obtain ⟨-, moved, rfl⟩ := fire_cases taken
      refine held.of_perm moved ?_ rfl
      exact fun timed => timed.imp_right List.mem_of_mem_erase
  | execute fired =>
      obtain ⟨-, moved, rfl⟩ := execute_cases taken
      exact held.of_perm moved id rfl
  | run =>
      obtain ⟨next, queue, -, queued, unmarked, rfl⟩ := run_cases sound taken
      have different : task ≠ next := by
        rintro rfl
        exact unstarted (started_run queued unmarked)
      refine ⟨?_, held.mapped⟩
      have waits := mem_waiting.mp held.waits
      apply mem_waiting.mpr
      rw [queued, List.mem_cons] at waits
      tauto
  | callbackReturns =>
      obtain ⟨runner, -, rfl⟩ := callbackReturns_cases taken
      exact ⟨held.waits, held.mapped⟩
  | deregisterSelf => exact held.deregisterSelf sound taken kept
  | deleteTask tag =>
      obtain rfl := Option.some.inj taken
      apply held.deleteTask
      intro found
      exact absurd (sound.mapped tag task found).1.symm undeleted
  | deleteMatching matcher =>
      obtain rfl := Option.some.inj taken
      exact held.deleteMatching undeleted

theorem deleteTask_waiting {tag : Bytes}
    (waits : task ∈ (source.deleteTask tag).waiting) :
    task ∈ source.waiting := by
  cases present : source.taskMap tag with
  | none => simpa [deleteTask, present] using waits
  | some removed =>
      simp only [deleteTask, present, mem_waiting, List.mem_filter] at waits ⊢
      tauto

theorem step_waiting {label : SchedulerStep} (sound : source.Sound)
    (taken : source.step label = some target)
    (waits : task ∈ target.waiting) :
    task ∈ source.waiting ∨ source.created ≤ task.id := by
  cases label with
  | scheduleOneTimeTask tag =>
      obtain rfl := Option.some.inj taken
      cases present : source.taskMap tag with
      | some other =>
          simp only [addToMap, present] at waits
          exact .inl waits
      | none =>
          simp only [addToMap, present, mem_waiting, List.mem_append,
            List.mem_singleton] at waits
          by_cases new : task = ⟨source.created, tag⟩
          · exact .inr (by rw [new])
          · exact .inl (mem_waiting.mpr (by tauto))
  | evtimerAdd added =>
      obtain ⟨-, moved, -⟩ := evtimerAdd_cases taken
      exact .inl (moved.mem_iff.mp waits)
  | release other =>
      simp only [step] at taken
      split_ifs at taken
      obtain rfl := Option.some.inj taken
      apply Or.inl
      simp only [release, mem_waiting] at waits ⊢
      split_ifs at waits
      · exact waits
      · rw [List.mem_filter] at waits
        tauto
  | fire fired =>
      obtain ⟨-, moved, -⟩ := fire_cases taken
      exact .inl (moved.mem_iff.mp waits)
  | execute fired =>
      obtain ⟨-, moved, -⟩ := execute_cases taken
      exact .inl (moved.mem_iff.mp waits)
  | run =>
      obtain ⟨next, queue, -, queued, -, rfl⟩ := run_cases sound taken
      apply Or.inl
      rw [mem_waiting, queued, List.mem_cons]
      have waits := mem_waiting.mp waits
      tauto
  | callbackReturns =>
      obtain ⟨runner, -, rfl⟩ := callbackReturns_cases taken
      exact .inl waits
  | deregisterSelf =>
      obtain ⟨runner, -, rfl⟩ := deregisterSelf_cases taken
      exact .inl (deleteTask_waiting waits)
  | deleteTask tag =>
      obtain rfl := Option.some.inj taken
      exact .inl (deleteTask_waiting waits)
  | deleteMatching matcher =>
      obtain rfl := Option.some.inj taken
      apply Or.inl
      simp only [deleteMatching, mem_waiting, List.mem_filter] at waits ⊢
      tauto

theorem deleteTask_created (source : Scheduler) (tag : Bytes) :
    (source.deleteTask tag).created = source.created := by
  rw [deleteTask]
  split <;> rfl

theorem step_created {label : SchedulerStep} (sound : source.Sound)
    (taken : source.step label = some target) :
    source.created ≤ target.created := by
  cases label with
  | scheduleOneTimeTask tag =>
      obtain rfl := Option.some.inj taken
      cases present : source.taskMap tag <;> simp [addToMap, present]
  | run =>
      obtain ⟨next, queue, -, -, -, rfl⟩ := run_cases sound taken
      exact le_refl _
  | callbackReturns =>
      obtain ⟨runner, -, rfl⟩ := callbackReturns_cases taken
      exact le_refl _
  | deregisterSelf =>
      obtain ⟨runner, -, rfl⟩ := deregisterSelf_cases taken
      exact (deleteTask_created source runner.tag).ge
  | deleteTask tag =>
      obtain rfl := Option.some.inj taken
      exact (deleteTask_created source tag).ge
  | deleteMatching matcher =>
      obtain rfl := Option.some.inj taken
      exact le_refl _
  | _ =>
      simp only [step] at taken
      split_ifs at taken
      obtain rfl := Option.some.inj taken
      exact le_refl _

theorem started_cases {label : SchedulerStep} (sound : source.Sound)
    (taken : source.step label = some target)
    (starts : task ∈ started source label) :
    task ∈ source.waiting ∧ task ∉ target.waiting := by
  cases label with
  | run =>
      have reached := step_sound sound taken
      obtain ⟨next, queue, -, queued, unmarked, rfl⟩ := run_cases sound taken
      rw [started_run queued unmarked] at starts
      obtain rfl := Option.some.inj starts
      refine ⟨mem_waiting.mpr (by simp [queued]), fun waits => ?_⟩
      exact reached.ne_running rfl waits rfl
  | _ => cases starts

/-- What has happened to the tasks so far: those whose callbacks have started
are no longer on their way, and all others that count are held. -/
structure Accounted (trace : List (Scheduler × SchedulerStep))
    (scheduler : Scheduler) : Prop where
  sound : scheduler.Sound
  distinct : (starts trace).Nodup
  past : ∀ task ∈ starts trace,
    task.id < scheduler.created ∧ task ∉ scheduler.waiting
  kept : ∀ task, Undeleted trace task →
    task ∈ starts trace ∨ scheduler.Held task

theorem accounted_initial : Accounted [] initial := by
  refine ⟨sound_initial, List.nodup_nil, by simp [starts], ?_⟩
  intro task undeleted
  exact absurd undeleted (not_outlives_nil task)

theorem mem_starts_snoc {trace : List (Scheduler × SchedulerStep)}
    {label : SchedulerStep} :
    task ∈ starts (trace ++ [(source, label)]) ↔
      task ∈ starts trace ∨ task ∈ started source label := by
  simp [starts, List.filterMap_append]

theorem Accounted.starts_nodup {trace : List (Scheduler × SchedulerStep)}
    {label : SchedulerStep} (accounted : Accounted trace source)
    (taken : source.step label = some target) :
    (starts (trace ++ [(source, label)])).Nodup := by
  rw [starts, List.filterMap_append, List.nodup_append]
  refine ⟨accounted.distinct, ?_, ?_⟩
  · rw [List.filterMap_cons]
    split <;> simp
  · rintro task earlier other now rfl
    have starting : task ∈ started source label := by simpa using now
    exact (accounted.past task earlier).2
      (started_cases accounted.sound taken starting).1

theorem step_accounted {trace : List (Scheduler × SchedulerStep)}
    {label : SchedulerStep} (kept : ¬ Cancels source label)
    (taken : source.step label = some target)
    (accounted : Accounted trace source) :
    Accounted (trace ++ [(source, label)]) target := by
  have sound := accounted.sound
  have created := step_created sound taken
  refine ⟨step_sound sound taken, accounted.starts_nodup taken, ?_, ?_⟩
  · intro task started
    rcases mem_starts_snoc.mp started with earlier | now
    · obtain ⟨old, unwaiting⟩ := accounted.past task earlier
      refine ⟨old.trans_le created, fun waits => ?_⟩
      rcases step_waiting sound taken waits with before | new
      · exact unwaiting before
      · omega
    · obtain ⟨waits, gone⟩ := started_cases sound taken now
      have alive := mem_alive.mpr (.inl waits)
      exact ⟨(sound.aliveCreated task alive).trans_le created, gone⟩
  · intro task undeleted
    rw [mem_starts_snoc]
    rcases undeleted_snoc.mp undeleted with accepts | ⟨before, unnamed⟩
    · cases label with
      | scheduleOneTimeTask tag =>
          obtain rfl := Option.some.inj taken
          exact .inr (held_accepted accepts)
      | _ => cases accepts
    · rcases accounted.kept task before with earlier | held
      · exact .inl (.inl earlier)
      · by_cases now : task ∈ started source label
        · exact .inl (.inr now)
        · exact .inr (step_held sound taken kept unnamed now held)

theorem Accounted.exactlyOnce {trace : List (Scheduler × SchedulerStep)}
    (accounted : Accounted trace source) : ExactlyOnce trace source where
  atMost := List.nodup_iff_count_le_one.mp accounted.distinct
  once quiet task undeleted := by
    rcases accounted.kept task undeleted with started | held
    · exact List.nodup_iff_count_eq_one.mp accounted.distinct task started
    · have alive := mem_alive.mpr (.inl held.waits)
      rw [quiet] at alive
      cases alive

end Steps

/-- In every run in which no deregistration takes the map or the timer away
from another task, every accepted task that no caller deletes has its callback
run exactly once. -/
theorem exactlyOnce_of_not_cancels
    {trace : List (Scheduler × SchedulerStep)} {final : Scheduler}
    (runs : Runs trace final)
    (kept : ∀ taken ∈ trace, ¬ Cancels taken.1 taken.2) :
    ExactlyOnce trace final := by
  have accounted : Accounted trace final := by
    apply runs.trace_invariant_of_steps (fun source label =>
      ¬ Cancels source label) kept accounted_initial
    intro earlier source label target safe taken accounted
    exact step_accounted safe taken accounted
  exact accounted.exactlyOnce

/-- `SYNC_INTEREST_TAG2`, the text `send-sync-interest2`. -/
def syncInterestTag2 : Bytes :=
  [0x73, 0x65, 0x6E, 0x64, 0x2D, 0x73, 0x79, 0x6E, 0x63, 0x2D, 0x69, 0x6E,
    0x74, 0x65, 0x72, 0x65, 0x73, 0x74, 0x32]

/-- `handleSyncData` for each of two packets: the tag is deleted and scheduled
again, both times before the timer fires. -/
def putOffTwice (tag : Bytes) : List SchedulerStep :=
  [.deleteTask tag, .scheduleOneTimeTask tag, .evtimerAdd ⟨0, tag⟩,
    .release ⟨0, tag⟩, .deleteTask tag, .scheduleOneTimeTask tag,
    .evtimerAdd ⟨1, tag⟩, .release ⟨1, tag⟩, .fire ⟨1, tag⟩,
    .execute ⟨1, tag⟩, .run, .callbackReturns, .deregisterSelf]

/-- The second packet comes between the first timer and the end of the run
that it causes. -/
def putOffLate (tag : Bytes) : List SchedulerStep :=
  [.deleteTask tag, .scheduleOneTimeTask tag, .evtimerAdd ⟨0, tag⟩,
    .release ⟨0, tag⟩, .fire ⟨0, tag⟩, .execute ⟨0, tag⟩, .deleteTask tag,
    .scheduleOneTimeTask tag, .evtimerAdd ⟨1, tag⟩, .release ⟨1, tag⟩,
    .run, .callbackReturns, .deregisterSelf]

theorem exactlyOnce_putOffTwice :
    ∃ trace final, Runs trace final ∧
      trace.map Prod.snd = putOffTwice syncInterestTag2 ∧
      final.Quiet ∧ Undeleted trace ⟨1, syncInterestTag2⟩ ∧
      ExactlyOnce trace final := by
  have executed : (execute step initial
      (putOffTwice syncInterestTag2)).any (fun result =>
        result.2.Quiet ∧
        Undeleted result.1 ⟨1, syncInterestTag2⟩ ∧
        ∀ taken ∈ result.1, ¬ Cancels taken.1 taken.2) = true := by
    decide +kernel
  obtain ⟨⟨trace, final⟩, ran, holds⟩ := (Option.any_eq_true _ _).mp executed
  obtain ⟨quiet, undeleted, kept⟩ := of_decide_eq_true holds
  have runs : Runs trace final := execute_run ran
  exact ⟨trace, final, runs, execute_labels ran, quiet, undeleted,
    exactlyOnce_of_not_cancels runs kept⟩

/-- The run of the first task cancels the second, which never runs. -/
theorem late_task_cancelled :
    ¬ ∀ trace final, Runs trace final → ExactlyOnce trace final := by
  intro exactly
  have executed : (execute step initial
      (putOffLate syncInterestTag2)).any (fun result =>
        result.2.Quiet ∧
        Undeleted result.1 ⟨1, syncInterestTag2⟩ ∧
        (starts result.1).count ⟨1, syncInterestTag2⟩ = 0) = true := by
    decide +kernel
  obtain ⟨⟨trace, final⟩, ran, holds⟩ := (Option.any_eq_true _ _).mp executed
  obtain ⟨quiet, undeleted, never⟩ := of_decide_eq_true holds
  have once := (exactly trace final (execute_run ran)).once quiet _ undeleted
  rw [never] at once
  cases once

end Scheduler

end ChronoShare
