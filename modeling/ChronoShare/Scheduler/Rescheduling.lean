import ChronoShare.Support.FixedWidth
import ChronoShare.Support.Run
import Mathlib.Logic.Function.Basic

/-!
# Tasks that are scheduled again

One-time and periodic tasks, and every call that arms a timer.  A task that is
marked as invoked fires without effect, so a timer is armed together with a
reset of the mark; `rescheduleTaskAt` leaves the reset out where it adds the
task.  A call is one step, also when it comes from the callback of a task.
-/

namespace ChronoShare

/-- A task object of one of the two classes. -/
inductive TaskClass where
  | oneTime
  | periodic
  deriving DecidableEq, Repr

structure Task where
  id : Nat
  tag : Bytes
  taskClass : TaskClass
  deriving DecidableEq, Repr

/-- The map of tasks, the marks, the delays and the armed timers of the task
objects, the jobs on the executor, and the task whose `run` is in progress.
Delays are in microseconds. -/
structure TaskScheduler where
  taskMap : Bytes → Option Task
  invoked : Task → Bool
  tv : Task → Nat
  armed : Task → Option Nat
  queue : List Task
  running : Option Task

/-- `interval` is what the generator of a periodic task answers on a reset. -/
inductive TaskStep where
  | addTask (task : Task) (reset : Bool) (interval : Nat)
  | rescheduleTask (task : Task) (interval : Nat)
  | rescheduleTag (tag : Bytes) (interval : Nat)
  | rescheduleTaskAt (task : Task) (time interval : Nat)
  | rescheduleTagAt (tag : Bytes) (time interval : Nat)
  | deleteTask (tag : Bytes)
  | deleteMatching (matcher : Task → Bool)
  | fire (task : Task)
  | run
  | callbackReturns (interval : Nat)

namespace TaskScheduler

/-- The constructors of the tasks have set their delays. -/
def initial (tv : Task → Nat) : TaskScheduler :=
  ⟨fun _ => none, fun _ => false, tv, fun _ => none, [], none⟩

def setTv (scheduler : TaskScheduler) (task : Task) (time : Nat) :
    TaskScheduler :=
  { scheduler with tv := Function.update scheduler.tv task time }

/-- `m_invoked = true`. -/
def mark (scheduler : TaskScheduler) (task : Task) : TaskScheduler :=
  { scheduler with invoked := Function.update scheduler.invoked task true }

/-- The delay of a one-time task stays. -/
def reset (scheduler : TaskScheduler) (task : Task) (interval : Nat) :
    TaskScheduler :=
  let unmarked := { scheduler with
    invoked := Function.update scheduler.invoked task false }
  match task.taskClass with
  | .oneTime => unmarked
  | .periodic => unmarked.setTv task interval

def evtimerAdd (scheduler : TaskScheduler) (task : Task) : TaskScheduler :=
  { scheduler with
    armed := Function.update scheduler.armed task (some (scheduler.tv task)) }

def addTask (scheduler : TaskScheduler) (task : Task) (reset : Bool)
    (interval : Nat) : TaskScheduler :=
  match scheduler.taskMap task.tag with
  | some _ => scheduler
  | none =>
      let mapped := { scheduler with
        taskMap := Function.update scheduler.taskMap task.tag (some task) }
      if reset then
        (mapped.reset task interval).evtimerAdd task
      else
        mapped.evtimerAdd task

/-- A task that is in the map under the tag is rescheduled, whichever it is. -/
def rescheduleTag (scheduler : TaskScheduler) (tag : Bytes) (interval : Nat) :
    TaskScheduler :=
  match scheduler.taskMap tag with
  | some task => (scheduler.reset task interval).evtimerAdd task
  | none => scheduler

def rescheduleTask (scheduler : TaskScheduler) (task : Task)
    (interval : Nat) : TaskScheduler :=
  match scheduler.taskMap task.tag with
  | some found => (scheduler.reset found interval).evtimerAdd found
  | none => scheduler.addTask task true interval

def rescheduleTagAt (scheduler : TaskScheduler) (tag : Bytes)
    (time interval : Nat) : TaskScheduler :=
  match scheduler.taskMap tag with
  | some task =>
      ((scheduler.reset task interval).setTv task time).evtimerAdd task
  | none => scheduler

/-- A task whose tag is not in the map is added without a reset, so that the
time set for it stays. -/
def rescheduleTaskAt (scheduler : TaskScheduler) (task : Task)
    (time interval : Nat) : TaskScheduler :=
  match scheduler.taskMap task.tag with
  | some found =>
      ((scheduler.reset found interval).setTv found time).evtimerAdd found
  | none => (scheduler.setTv task time).addTask task false interval

def deleteTask (scheduler : TaskScheduler) (tag : Bytes) : TaskScheduler :=
  match scheduler.taskMap tag with
  | some task =>
      { scheduler with
        taskMap := Function.update scheduler.taskMap tag none
        armed := Function.update scheduler.armed task none }
  | none => scheduler

def deleteMatching (scheduler : TaskScheduler) (matcher : Task → Bool) :
    TaskScheduler :=
  { scheduler with
    taskMap := fun tag =>
      (scheduler.taskMap tag).filter fun task => !matcher task
    armed := fun task =>
      if scheduler.taskMap task.tag = some task ∧ matcher task then
        none
      else
        scheduler.armed task }

/-- What `run` does after the callback.  A periodic task that was rescheduled
inside it has been reset. -/
def callbackReturns (scheduler : TaskScheduler) (task : Task)
    (interval : Nat) : TaskScheduler :=
  match task.taskClass with
  | .oneTime => (scheduler.mark task).deleteTask task.tag
  | .periodic =>
      if scheduler.invoked task then
        scheduler.rescheduleTag task.tag interval
      else
        scheduler

/-- Up to the callback; a periodic task is marked before it. -/
def beginRun (scheduler : TaskScheduler) (task : Task) : TaskScheduler :=
  if scheduler.invoked task then
    scheduler
  else
    match task.taskClass with
    | .oneTime => { scheduler with running := some task }
    | .periodic => { scheduler.mark task with running := some task }

def step (scheduler : TaskScheduler) : TaskStep → Option TaskScheduler
  | .addTask task reset interval => some (scheduler.addTask task reset interval)
  | .rescheduleTask task interval =>
      some (scheduler.rescheduleTask task interval)
  | .rescheduleTag tag interval => some (scheduler.rescheduleTag tag interval)
  | .rescheduleTaskAt task time interval =>
      some (scheduler.rescheduleTaskAt task time interval)
  | .rescheduleTagAt tag time interval =>
      some (scheduler.rescheduleTagAt tag time interval)
  | .deleteTask tag => some (scheduler.deleteTask tag)
  | .deleteMatching matcher => some (scheduler.deleteMatching matcher)
  | .fire task =>
      (scheduler.armed task).map fun _ =>
        { scheduler with
          armed := Function.update scheduler.armed task none
          queue := scheduler.queue ++ [task] }
  | .run =>
      match scheduler.running, scheduler.queue with
      | none, task :: queue => some ({ scheduler with queue }.beginRun task)
      | _, _ => none
  | .callbackReturns interval =>
      scheduler.running.map fun task =>
        { scheduler.callbackReturns task interval with running := none }

def Step (source : TaskScheduler) (label : TaskStep)
    (target : TaskScheduler) : Prop :=
  source.step label = some target

/-- Every task in the map whose timer is armed runs its callback when it
fires. -/
def Effective (scheduler : TaskScheduler) : Prop :=
  ∀ tag task, scheduler.taskMap tag = some task →
    scheduler.armed task ≠ none → scheduler.invoked task = false

/-- The run in progress, if any, has returned. -/
def settled (scheduler : TaskScheduler) (interval : Nat) : TaskScheduler :=
  match scheduler.running with
  | none => scheduler
  | some task =>
      { scheduler.callbackReturns task interval with running := none }

/-- The tasks are effective once the run in progress has returned. -/
def Settles (scheduler : TaskScheduler) : Prop :=
  ∀ interval, (scheduler.settled interval).Effective

/-- A run is in progress that will delete or reset whatever task has the tag
when it returns. -/
def Returning (scheduler : TaskScheduler) (tag : Bytes) : Prop :=
  ∃ task ∈ scheduler.running, task.tag = tag ∧
    (task.taskClass = .oneTime ∨ scheduler.invoked task = true)

instance (scheduler : TaskScheduler) (tag : Bytes) :
    Decidable (scheduler.Returning tag) :=
  inferInstanceAs (Decidable (∃ task ∈ scheduler.running, _ ∧ (_ ∨ _)))

/-- The task that a call adds without a reset if its tag is not in the map. -/
def addedAsIs : TaskStep → Option Task
  | .addTask task false _ => some task
  | .rescheduleTaskAt task _ _ => some task
  | _ => none

/-- The call adds a marked task without a reset. -/
def AddsMarked (scheduler : TaskScheduler) (label : TaskStep) : Prop :=
  ∃ task ∈ addedAsIs label, scheduler.taskMap task.tag = none ∧
    scheduler.invoked task = true ∧ ¬ scheduler.Returning task.tag

instance (scheduler : TaskScheduler) (label : TaskStep) :
    Decidable (scheduler.AddsMarked label) :=
  inferInstanceAs (Decidable (∃ task ∈ addedAsIs label, _ ∧ _ ∧ _))

/-- The tasks of the map are there under their tags. -/
def Keyed (scheduler : TaskScheduler) : Prop :=
  ∀ tag task, scheduler.taskMap tag = some task → task.tag = tag

/-- A marked task in the map has an armed timer only until the run in progress
returns. -/
def Guarded (scheduler : TaskScheduler) : Prop :=
  ∀ tag task, scheduler.taskMap tag = some task →
    scheduler.armed task ≠ none → scheduler.invoked task = true →
      scheduler.Returning tag

variable {scheduler source target : TaskScheduler}

@[simp] theorem reset_taskMap (task : Task) (interval : Nat) :
    (scheduler.reset task interval).taskMap = scheduler.taskMap := by
  unfold reset
  cases task.taskClass <;> rfl

@[simp] theorem reset_invoked (task : Task) (interval : Nat) :
    (scheduler.reset task interval).invoked =
      Function.update scheduler.invoked task false := by
  unfold reset
  cases task.taskClass <;> rfl

@[simp] theorem reset_armed (task : Task) (interval : Nat) :
    (scheduler.reset task interval).armed = scheduler.armed := by
  unfold reset
  cases task.taskClass <;> rfl

@[simp] theorem reset_running (task : Task) (interval : Nat) :
    (scheduler.reset task interval).running = scheduler.running := by
  unfold reset
  cases task.taskClass <;> rfl

@[simp] theorem evtimerAdd_taskMap (task : Task) :
    (scheduler.evtimerAdd task).taskMap = scheduler.taskMap :=
  rfl

theorem evtimerAdd_armed {task other : Task} (different : other ≠ task) :
    (scheduler.evtimerAdd task).armed other = scheduler.armed other :=
  Function.update_of_ne different _ _

/-- A task of the map is reset and its timer armed. -/
structure Rearms (source : TaskScheduler) (task : Task)
    (target : TaskScheduler) : Prop where
  taskMap : target.taskMap = source.taskMap
  invoked : target.invoked = Function.update source.invoked task false
  armed : ∀ other, other ≠ task → target.armed other = source.armed other
  running : target.running = source.running

/-- A task enters the map, reset or as it is, and its timer is armed. -/
structure Enters (source : TaskScheduler) (task : Task) (reset : Bool)
    (target : TaskScheduler) : Prop where
  absent : source.taskMap task.tag = none
  taskMap : target.taskMap =
    Function.update source.taskMap task.tag (some task)
  invoked : target.invoked =
    if reset then Function.update source.invoked task false
    else source.invoked
  armedSelf : target.armed task ≠ none
  armed : ∀ other, other ≠ task → target.armed other = source.armed other
  running : target.running = source.running

/-- Timers are disarmed, and tasks leave the map. -/
structure Shrinks (source target : TaskScheduler) : Prop where
  taskMap : ∀ tag task, target.taskMap tag = some task →
    source.taskMap tag = some task
  invoked : target.invoked = source.invoked
  armed : ∀ task, target.armed task ≠ none → source.armed task ≠ none
  running : target.running = source.running

theorem Shrinks.refl (scheduler : TaskScheduler) :
    Shrinks scheduler scheduler :=
  ⟨fun _ _ => id, rfl, fun _ => id, rfl⟩

theorem rearms_reset (task : Task) (interval : Nat) :
    Rearms scheduler task
      ((scheduler.reset task interval).evtimerAdd task) where
  taskMap := reset_taskMap task interval
  invoked := reset_invoked task interval
  armed other different := by
    rw [evtimerAdd_armed different, reset_armed]
  running := reset_running task interval

theorem rearms_setTv (task : Task) (time interval : Nat) :
    Rearms scheduler task
      (((scheduler.reset task interval).setTv task time).evtimerAdd task) where
  taskMap := reset_taskMap task interval
  invoked := reset_invoked task interval
  armed other different := by
    rw [evtimerAdd_armed different, setTv, reset_armed]
  running := reset_running task interval

theorem enters_addTask {task : Task}
    (absent : scheduler.taskMap task.tag = none) (reset : Bool)
    (interval : Nat) :
    Enters scheduler task reset (scheduler.addTask task reset interval) := by
  rw [addTask, absent]
  cases reset with
  | true =>
      refine ⟨absent, reset_taskMap task interval, reset_invoked task interval,
        ?_, ?_, reset_running task interval⟩
      · simp [evtimerAdd]
      · intro other different
        simp only [if_true]
        rw [evtimerAdd_armed different, reset_armed]
  | false =>
      refine ⟨absent, rfl, rfl, ?_, ?_, rfl⟩
      · simp [evtimerAdd]
      · intro other different
        exact evtimerAdd_armed different

theorem shrinks_deleteTask (tag : Bytes) :
    Shrinks scheduler (scheduler.deleteTask tag) := by
  unfold deleteTask
  cases mapped : scheduler.taskMap tag with
  | none => exact .refl scheduler
  | some task =>
      refine ⟨?_, rfl, ?_, rfl⟩
      · intro other found here
        dsimp only at here
        by_cases same : other = tag
        · rw [same, Function.update_self] at here
          cases here
        · rw [Function.update_of_ne same] at here
          exact here
      · intro other here
        dsimp only at here
        by_cases same : other = task
        · rw [same, Function.update_self] at here
          exact absurd rfl here
        · rw [Function.update_of_ne same] at here
          exact here

theorem shrinks_deleteMatching (matcher : Task → Bool) :
    Shrinks scheduler (scheduler.deleteMatching matcher) := by
  refine ⟨?_, rfl, ?_, rfl⟩
  · intro tag task here
    exact (Option.filter_eq_some_iff.mp here).1
  · intro task here
    simp only [deleteMatching] at here
    split at here
    · exact absurd rfl here
    · exact here

/-- What a call or a firing timer does. -/
inductive Effect (source : TaskScheduler) (label : TaskStep)
    (target : TaskScheduler) : Prop where
  | rearms {tag : Bytes} {task : Task} :
      source.taskMap tag = some task → Rearms source task target →
      (∀ added ∈ addedAsIs label, source.taskMap added.tag ≠ none) →
      Effect source label target
  | resets {task : Task} :
      Enters source task true target → addedAsIs label = none →
      Effect source label target
  | enters {task : Task} :
      Enters source task false target → addedAsIs label = some task →
      Effect source label target
  | shrinks :
      Shrinks source target →
      (∀ added ∈ addedAsIs label, source.taskMap added.tag ≠ none) →
      Effect source label target
  | begins {task : Task} :
      source.running = none → label = .run →
      (∃ queue, target = { source with queue }.beginRun task) →
      Effect source label target
  | returns {interval : Nat} :
      source.running ≠ none → label = .callbackReturns interval →
      target = source.settled interval →
      Effect source label target

theorem rescheduleTag_effect {label : TaskStep}
    (free : addedAsIs label = none) (tag : Bytes) (interval : Nat) :
    Effect scheduler label (scheduler.rescheduleTag tag interval) := by
  unfold rescheduleTag
  cases mapped : scheduler.taskMap tag with
  | none => exact .shrinks (.refl scheduler) (by simp [free])
  | some task =>
      exact .rearms mapped (rearms_reset task interval) (by simp [free])

theorem addTask_effect (task : Task) (reset : Bool) (interval : Nat) :
    Effect scheduler (.addTask task reset interval)
      (scheduler.addTask task reset interval) := by
  cases mapped : scheduler.taskMap task.tag with
  | none =>
      have enters := enters_addTask mapped reset interval
      cases reset with
      | true => exact .resets enters rfl
      | false => exact .enters enters rfl
  | some found =>
      rw [addTask, mapped]
      refine .shrinks (.refl scheduler) ?_
      intro added here
      cases reset with
      | true => cases here
      | false =>
          obtain rfl : task = added := Option.some.inj here
          simp [mapped]

theorem rescheduleTask_effect (task : Task) (interval : Nat) :
    Effect scheduler (.rescheduleTask task interval)
      (scheduler.rescheduleTask task interval) := by
  unfold rescheduleTask
  cases mapped : scheduler.taskMap task.tag with
  | none => exact .resets (enters_addTask mapped true interval) rfl
  | some found => exact .rearms mapped (rearms_reset found interval) nofun

theorem rescheduleTagAt_effect (tag : Bytes) (time interval : Nat) :
    Effect scheduler (.rescheduleTagAt tag time interval)
      (scheduler.rescheduleTagAt tag time interval) := by
  unfold rescheduleTagAt
  cases mapped : scheduler.taskMap tag with
  | none => exact .shrinks (.refl scheduler) nofun
  | some found => exact .rearms mapped (rearms_setTv found time interval) nofun

theorem rescheduleTaskAt_effect (task : Task) (time interval : Nat) :
    Effect scheduler (.rescheduleTaskAt task time interval)
      (scheduler.rescheduleTaskAt task time interval) := by
  unfold rescheduleTaskAt
  cases mapped : scheduler.taskMap task.tag with
  | none =>
      have absent : (scheduler.setTv task time).taskMap task.tag = none :=
        mapped
      have enters := enters_addTask absent false interval
      have entered : Enters scheduler task false
          ((scheduler.setTv task time).addTask task false interval) :=
        ⟨mapped, enters.taskMap, enters.invoked, enters.armedSelf,
          enters.armed, enters.running⟩
      exact .enters entered rfl
  | some found =>
      refine .rearms mapped (rearms_setTv found time interval) ?_
      intro added here
      obtain rfl : task = added := Option.some.inj here
      simp [mapped]

theorem step_effect {label : TaskStep} (taken : source.Step label target) :
    Effect source label target := by
  cases label with
  | addTask task reset interval =>
      obtain rfl := Option.some.inj taken
      exact addTask_effect task reset interval
  | rescheduleTask task interval =>
      obtain rfl := Option.some.inj taken
      exact rescheduleTask_effect task interval
  | rescheduleTag tag interval =>
      obtain rfl := Option.some.inj taken
      exact rescheduleTag_effect rfl tag interval
  | rescheduleTaskAt task time interval =>
      obtain rfl := Option.some.inj taken
      exact rescheduleTaskAt_effect task time interval
  | rescheduleTagAt tag time interval =>
      obtain rfl := Option.some.inj taken
      exact rescheduleTagAt_effect tag time interval
  | deleteTask tag =>
      obtain rfl := Option.some.inj taken
      exact .shrinks (shrinks_deleteTask tag) nofun
  | deleteMatching matcher =>
      obtain rfl := Option.some.inj taken
      exact .shrinks (shrinks_deleteMatching matcher) nofun
  | fire task =>
      obtain ⟨_, _, rfl⟩ := Option.map_eq_some_iff.mp taken
      refine .shrinks ⟨fun _ _ => id, rfl, ?_, rfl⟩ nofun
      intro other here
      by_cases same : other = task
      · simp [same] at here
      · simpa [same] using here
  | run =>
      simp only [Step, step] at taken
      split at taken
      · rename_i task queue running queued
        exact .begins running rfl ⟨queue, (Option.some.inj taken).symm⟩
      · cases taken
  | callbackReturns interval =>
      obtain ⟨task, running, rfl⟩ := Option.map_eq_some_iff.mp taken
      refine .returns (by simp [running]) rfl ?_
      rw [settled, running]

theorem Rearms.keyed {task : Task} (rearms : Rearms source task target)
    (keyed : source.Keyed) : target.Keyed := by
  intro tag other found
  rw [rearms.taskMap] at found
  exact keyed tag other found

theorem Enters.keyed {task : Task} {reset : Bool}
    (enters : Enters source task reset target) (keyed : source.Keyed) :
    target.Keyed := by
  intro tag other found
  rw [enters.taskMap] at found
  by_cases same : tag = task.tag
  · rw [same, Function.update_self] at found
    rw [same, Option.some.inj found]
  · rw [Function.update_of_ne same] at found
    exact keyed tag other found

theorem Shrinks.keyed (shrinks : Shrinks source target)
    (keyed : source.Keyed) : target.Keyed :=
  fun tag task found => keyed tag task (shrinks.taskMap tag task found)

theorem beginRun_taskMap (task : Task) :
    (scheduler.beginRun task).taskMap = scheduler.taskMap := by
  unfold beginRun
  split
  · rfl
  · cases task.taskClass <;> rfl

/-- A run that returns deletes or resets what has its tag, unless the task was
reset inside the callback. -/
theorem settled_cases {task : Task} (running : scheduler.running = some task)
    (interval : Nat) :
    (task.taskClass = .oneTime ∧ scheduler.settled interval =
      { (scheduler.mark task).deleteTask task.tag with running := none }) ∨
    (task.taskClass = .periodic ∧ scheduler.invoked task = true ∧
      scheduler.settled interval =
        { scheduler.rescheduleTag task.tag interval with running := none }) ∨
    (task.taskClass = .periodic ∧ scheduler.invoked task = false ∧
      scheduler.settled interval = { scheduler with running := none }) := by
  have here : scheduler.settled interval =
      { scheduler.callbackReturns task interval with running := none } := by
    unfold settled
    split
    · rename_i idle
      exact absurd (idle.symm.trans running) (by simp)
    · rename_i other busy
      rw [Option.some.inj (busy.symm.trans running)]
  rw [here, callbackReturns]
  cases taskClass : task.taskClass with
  | oneTime => exact Or.inl ⟨rfl, rfl⟩
  | periodic =>
      apply Or.inr
      cases marked : scheduler.invoked task with
      | true => exact Or.inl ⟨rfl, rfl, rfl⟩
      | false => exact Or.inr ⟨rfl, rfl, rfl⟩

theorem settled_keyed (keyed : scheduler.Keyed) (interval : Nat) :
    (scheduler.settled interval).Keyed := by
  cases running : scheduler.running with
  | none =>
      rw [settled, running]
      exact keyed
  | some task =>
      rcases settled_cases running interval with
        ⟨-, same⟩ | ⟨-, -, same⟩ | ⟨-, -, same⟩
      · have marked : (scheduler.mark task).Keyed := keyed
        rw [same]
        exact (shrinks_deleteTask task.tag).keyed marked
      · rw [same]
        intro tag other found
        have kept : (scheduler.rescheduleTag task.tag interval).taskMap =
            scheduler.taskMap := by
          unfold rescheduleTag
          cases scheduler.taskMap task.tag with
          | none => rfl
          | some found => exact reset_taskMap found interval
        apply keyed
        rw [← kept]
        exact found
      · rw [same]
        exact keyed

theorem step_keyed {label : TaskStep} (taken : source.Step label target)
    (keyed : source.Keyed) : target.Keyed := by
  cases step_effect taken with
  | rearms _ rearms _ => exact rearms.keyed keyed
  | resets enters _ => exact enters.keyed keyed
  | enters enters _ => exact enters.keyed keyed
  | shrinks shrinks _ => exact shrinks.keyed keyed
  | begins _ _ begun =>
      obtain ⟨queue, rfl⟩ := begun
      intro tag other found
      rw [beginRun_taskMap] at found
      exact keyed tag other found
  | returns _ _ settles =>
      rw [settles]
      exact settled_keyed keyed _

theorem Returning.of_same {tag : Bytes} (returning : source.Returning tag)
    (running : target.running = source.running)
    (marked : ∀ task, task.tag = tag → source.invoked task = true →
      target.invoked task = true) :
    target.Returning tag := by
  obtain ⟨task, here, named, repairs⟩ := returning
  refine ⟨task, running ▸ here, named, ?_⟩
  exact repairs.imp_right (marked task named)

theorem Rearms.guarded {tag : Bytes} {task : Task}
    (mapped : source.taskMap tag = some task)
    (rearms : Rearms source task target) (keyed : source.Keyed)
    (guarded : source.Guarded) : target.Guarded := by
  intro other found here armed marked
  rw [rearms.taskMap] at here
  have different : found ≠ task := by
    rintro rfl
    simp [rearms.invoked] at marked
  have named := keyed tag task mapped
  have apart : ∀ running : Task, running.tag = other → running ≠ task := by
    rintro running sameTag rfl
    rw [named] at sameTag
    rw [← sameTag, mapped] at here
    exact different (Option.some.inj here).symm
  rw [rearms.invoked, Function.update_of_ne different] at marked
  rw [rearms.armed found different] at armed
  apply (guarded other found here armed marked).of_same rearms.running
  intro running sameTag wasMarked
  rw [rearms.invoked, Function.update_of_ne (apart running sameTag)]
  exact wasMarked

theorem Shrinks.guarded (shrinks : Shrinks source target)
    (guarded : source.Guarded) : target.Guarded := by
  intro tag task here armed marked
  rw [shrinks.invoked] at marked
  apply (guarded tag task (shrinks.taskMap tag task here)
    (shrinks.armed task armed) marked).of_same shrinks.running
  intro running _ wasMarked
  rw [shrinks.invoked]
  exact wasMarked

theorem Enters.guarded_others {task : Task} {reset : Bool}
    (enters : Enters source task reset target) (keyed : source.Keyed)
    (guarded : source.Guarded) {tag : Bytes} {other : Task}
    (apart : tag ≠ task.tag) (here : target.taskMap tag = some other)
    (armed : target.armed other ≠ none)
    (marked : target.invoked other = true) : target.Returning tag := by
  rw [enters.taskMap, Function.update_of_ne apart] at here
  have unmoved : ∀ running : Task, running.tag = tag →
      target.invoked running = source.invoked running := by
    rintro running rfl
    have different : running ≠ task := by
      rintro rfl
      exact apart rfl
    rw [enters.invoked]
    cases reset with
    | true => exact Function.update_of_ne different _ _
    | false => rfl
  have named := keyed tag other here
  have different : other ≠ task := by
    rintro rfl
    exact apart named.symm
  rw [unmoved other named] at marked
  rw [enters.armed other different] at armed
  apply (guarded tag other here armed marked).of_same enters.running
  intro running sameTag wasMarked
  rw [unmoved running sameTag]
  exact wasMarked

theorem beginRun_guarded {task : Task} {queue : List Task}
    (idle : source.running = none) (keyed : source.Keyed)
    (guarded : source.Guarded) :
    ({ source with queue }.beginRun task).Guarded := by
  have unmarked : ∀ tag other, source.taskMap tag = some other →
      source.armed other ≠ none → source.invoked other ≠ true := by
    intro tag other here armed marked
    obtain ⟨running, busy, -⟩ := guarded tag other here armed marked
    rw [idle] at busy
    cases busy
  intro tag other here armed marked
  rw [beginRun_taskMap] at here
  unfold beginRun at armed marked ⊢
  split_ifs at armed marked ⊢
  · exact absurd marked (unmarked tag other here armed)
  · cases taskClass : task.taskClass with
    | oneTime =>
        rw [taskClass] at armed marked
        exact absurd marked (unmarked tag other here armed)
    | periodic =>
        rw [taskClass] at armed marked
        by_cases same : other = task
        · subst same
          exact ⟨other, rfl, keyed tag other here,
            Or.inr (Function.update_self _ _ _)⟩
        · have before := (Function.update_of_ne same _ _).symm.trans marked
          exact absurd before (unmarked tag other here armed)

theorem deleteTask_of_ne {tag : Bytes} (keyed : scheduler.Keyed)
    {other : Task} (apart : other.tag ≠ tag) :
    (scheduler.deleteTask tag).taskMap other.tag =
        scheduler.taskMap other.tag ∧
      (scheduler.deleteTask tag).armed other = scheduler.armed other := by
  unfold deleteTask
  cases mapped : scheduler.taskMap tag with
  | none => exact ⟨rfl, rfl⟩
  | some task =>
      have different : other ≠ task := by
        rintro rfl
        exact apart (keyed tag other mapped)
      exact ⟨Function.update_of_ne apart _ _,
        Function.update_of_ne different _ _⟩

theorem rescheduleTag_of_ne {tag : Bytes} (keyed : scheduler.Keyed)
    {other : Task} (apart : other.tag ≠ tag) (interval : Nat) :
    (scheduler.rescheduleTag tag interval).taskMap other.tag =
        scheduler.taskMap other.tag ∧
      (scheduler.rescheduleTag tag interval).armed other =
        scheduler.armed other ∧
      (scheduler.rescheduleTag tag interval).invoked other =
        scheduler.invoked other := by
  unfold rescheduleTag
  cases mapped : scheduler.taskMap tag with
  | none => exact ⟨rfl, rfl, rfl⟩
  | some task =>
      have different : other ≠ task := by
        rintro rfl
        exact apart (keyed tag other mapped)
      have rearms : Rearms scheduler task
          ((scheduler.reset task interval).evtimerAdd task) :=
        rearms_reset task interval
      refine ⟨congrFun rearms.taskMap _, rearms.armed other different, ?_⟩
      rw [rearms.invoked, Function.update_of_ne different]

theorem settled_of_returning {tag : Bytes}
    (returning : scheduler.Returning tag) (interval : Nat) {other : Task}
    (here : (scheduler.settled interval).taskMap tag = some other) :
    (scheduler.settled interval).invoked other = false := by
  obtain ⟨task, running, rfl, repairs⟩ := returning
  rcases settled_cases running interval with
    ⟨-, same⟩ | ⟨-, -, same⟩ | ⟨periodic, unmarked, -⟩
  · have gone : ((scheduler.mark task).deleteTask task.tag).taskMap
        task.tag = none := by
      unfold deleteTask
      split
      · exact Function.update_self _ _ _
      · rename_i absent
        exact absent
    rw [same] at here
    exact absurd (gone.symm.trans here) (by simp)
  · rw [same] at here ⊢
    dsimp only at here ⊢
    unfold rescheduleTag at here ⊢
    cases mapped : scheduler.taskMap task.tag with
    | none =>
        rw [mapped] at here
        exact absurd (mapped.symm.trans here) (by simp)
    | some found =>
        rw [mapped] at here
        have rearms : Rearms scheduler found
            ((scheduler.reset found interval).evtimerAdd found) :=
          rearms_reset found interval
        have kept := (congrFun rearms.taskMap task.tag).symm.trans here
        obtain rfl := Option.some.inj (mapped.symm.trans kept)
        dsimp only
        rw [rearms.invoked, Function.update_self]
  · rcases repairs with oneTime | marked
    · exact absurd (oneTime.symm.trans periodic) (by simp)
    · exact absurd (unmarked.symm.trans marked) (by simp)

theorem settled_of_not_returning {other : Task} (keyed : scheduler.Keyed)
    (apart : ¬ scheduler.Returning other.tag) (interval : Nat) :
    (scheduler.settled interval).taskMap other.tag =
        scheduler.taskMap other.tag ∧
      (scheduler.settled interval).armed other = scheduler.armed other ∧
      (scheduler.settled interval).invoked other =
        scheduler.invoked other := by
  cases running : scheduler.running with
  | none =>
      unfold settled
      rw [running]
      exact ⟨rfl, rfl, rfl⟩
  | some task =>
      rcases settled_cases running interval with
        ⟨oneTime, same⟩ | ⟨-, marked, same⟩ | ⟨-, -, same⟩
      · have different : other.tag ≠ task.tag := fun sameTag =>
          apart ⟨task, running, sameTag.symm, Or.inl oneTime⟩
        have markedKeyed : (scheduler.mark task).Keyed := keyed
        obtain ⟨sameMap, sameArmed⟩ := deleteTask_of_ne markedKeyed different
        have sameMarks : ((scheduler.mark task).deleteTask
            task.tag).invoked other = scheduler.invoked other := by
          rw [(shrinks_deleteTask task.tag).invoked]
          apply Function.update_of_ne
          intro sameTask
          exact different (congrArg Task.tag sameTask)
        rw [same]
        exact ⟨sameMap, sameArmed, sameMarks⟩
      · have different : other.tag ≠ task.tag := fun sameTag =>
          apart ⟨task, running, sameTag.symm, Or.inr marked⟩
        rw [same]
        exact rescheduleTag_of_ne keyed different interval
      · rw [same]
        exact ⟨rfl, rfl, rfl⟩

/-- A run that returns leaves no marked task with an armed timer in the map
exactly if it was guarded. -/
theorem guarded_iff_settles (keyed : scheduler.Keyed) :
    scheduler.Guarded ↔ scheduler.Settles := by
  constructor
  · intro guarded interval tag task here armed
    obtain rfl := settled_keyed keyed interval tag task here
    by_cases returning : scheduler.Returning task.tag
    · exact settled_of_returning returning interval here
    · obtain ⟨sameMap, sameArmed, sameMarks⟩ :=
        settled_of_not_returning keyed returning interval
      rw [sameMap] at here
      rw [sameArmed] at armed
      rw [sameMarks]
      by_contra marked
      apply returning
      exact guarded _ task here armed (Bool.not_eq_false _ ▸ marked)
  · intro settles tag task here armed marked
    obtain rfl := keyed tag task here
    by_contra returning
    obtain ⟨sameMap, sameArmed, sameMarks⟩ :=
      settled_of_not_returning keyed returning 0
    have effective := settles 0 task.tag task (sameMap.trans here)
      (sameArmed ▸ armed)
    rw [sameMarks, marked] at effective
    cases effective

theorem guarded_iff {label : TaskStep} (taken : source.Step label target)
    (keyed : source.Keyed) (guarded : source.Guarded) :
    target.Guarded ↔ ¬ source.AddsMarked label := by
  have settles := (guarded_iff_settles keyed).mp guarded
  cases step_effect taken with
  | @rearms tag task mapped rearms present =>
      have kept := rearms.guarded mapped keyed guarded
      refine ⟨fun _ => ?_, fun _ => kept⟩
      rintro ⟨added, here, absent, -⟩
      exact present added here absent
  | @resets task enters free =>
      constructor
      · rintro _ ⟨added, here, -⟩
        rw [free] at here
        cases here
      · intro _ tag other here armed marked
        by_cases same : tag = task.tag
        · rw [enters.taskMap, same, Function.update_self] at here
          obtain rfl := Option.some.inj here
          simp [enters.invoked] at marked
        · exact enters.guarded_others keyed guarded same here armed marked
  | @enters task enters adds =>
      have sameMarks : target.invoked = source.invoked := enters.invoked
      constructor
      · rintro kept ⟨added, here, -, marked, notReturning⟩
        obtain rfl := Option.some.inj (adds.symm.trans here)
        apply notReturning
        have returning := kept task.tag task
          (by rw [enters.taskMap, Function.update_self]) enters.armedSelf
          (sameMarks ▸ marked)
        apply returning.of_same enters.running.symm
        intro _ _ wasMarked
        rw [← sameMarks]
        exact wasMarked
      · intro unmarked tag other here armed marked
        by_cases same : tag = task.tag
        · rw [enters.taskMap, same, Function.update_self] at here
          obtain rfl := Option.some.inj here
          rw [same]
          by_contra notReturning
          refine unmarked ⟨task, adds, enters.absent, sameMarks ▸ marked, ?_⟩
          intro returning
          apply notReturning
          apply returning.of_same enters.running
          intro _ _ wasMarked
          rw [sameMarks]
          exact wasMarked
        · exact enters.guarded_others keyed guarded same here armed marked
  | shrinks shrinks present =>
      refine ⟨fun _ => ?_, fun _ => shrinks.guarded guarded⟩
      rintro ⟨added, here, absent, -⟩
      exact present added here absent
  | @begins task idle same begun =>
      subst same
      obtain ⟨queue, rfl⟩ := begun
      exact ⟨fun _ => nofun, fun _ => beginRun_guarded idle keyed guarded⟩
  | @returns interval busy same settled =>
      subst same
      refine ⟨fun _ => nofun, fun _ => ?_⟩
      intro tag task here armed marked
      rw [settled] at here armed marked
      have effective := settles interval tag task here armed
      rw [effective] at marked
      cases marked

/-- In every run, whenever no `run` is in progress, and once the one in
progress returns, every armed task of the map is unmarked, exactly if no call
adds a marked task without a reset. -/
theorem effective_iff {tv : Task → Nat} {final : TaskScheduler}
    {trace : List (TaskScheduler × TaskStep)}
    (run : Run Step (initial tv) trace final) :
    ((∀ taken ∈ trace, (taken.1.running = none → taken.1.Effective) ∧
        taken.1.Settles) ∧
      (final.running = none → final.Effective) ∧ final.Settles) ↔
    ∀ taken ∈ trace, ¬ taken.1.AddsMarked taken.2 := by
  have idle : ∀ scheduler : TaskScheduler, scheduler.Settles →
      scheduler.running = none → scheduler.Effective := by
    intro scheduler settles none
    have effective := settles 0
    unfold settled at effective
    rw [none] at effective
    exact effective
  have both : ∀ scheduler : TaskScheduler,
      ((scheduler.running = none → scheduler.Effective) ∧
        scheduler.Settles) ↔ scheduler.Settles :=
    fun scheduler => ⟨And.right, fun settles =>
      ⟨idle scheduler settles, settles⟩⟩
  simp only [both]
  have keyed : (initial tv).Keyed := nofun
  have start : (initial tv).Settles :=
    (guarded_iff_settles keyed).mp nofun
  apply run.always_iff Keyed AddsMarked keyed start
  · intro source label target taken sourceKeyed
    exact step_keyed taken sourceKeyed
  · intro source label target taken sourceKeyed settles
    rw [← guarded_iff_settles (step_keyed taken sourceKeyed)]
    exact guarded_iff taken sourceKeyed
      ((guarded_iff_settles sourceKeyed).mpr settles)

/-- A one-time task with the tag `hello`. -/
def hello : Task :=
  ⟨0, [0x68, 0x65, 0x6C, 0x6C, 0x6F], .oneTime⟩

/-- The task is added, runs, and is rescheduled. -/
def helloAgain : List TaskStep :=
  [.addTask hello true 0, .fire hello, .run, .callbackReturns 0,
    .rescheduleTask hello 0]

theorem effective_helloAgain :
    ∃ trace final, Run Step (initial fun _ => 500000) trace final ∧
      trace.length = 5 ∧ final.armed hello = some 500000 ∧
      (∀ taken ∈ trace, (taken.1.running = none → taken.1.Effective) ∧
        taken.1.Settles) ∧
      (final.running = none → final.Effective) ∧ final.Settles := by
  have executed : (execute step (initial fun _ => 500000) helloAgain).any
      (fun result => result.1.length = 5 ∧
        result.2.armed hello = some 500000 ∧
        ∀ taken ∈ result.1, ¬ taken.1.AddsMarked taken.2) = true := by
    decide +kernel
  obtain ⟨⟨trace, final⟩, reached, facts⟩ :=
    (Option.any_eq_true _ _).mp executed
  obtain ⟨length, armed, unmarked⟩ := of_decide_eq_true facts
  have run := execute_run reached
  exact ⟨trace, final, run, length, armed, (effective_iff run).mpr unmarked⟩

/-- The task is added, runs, and is handed to `rescheduleTaskAt`. -/
def helloLater : List TaskStep :=
  [.addTask hello true 0, .fire hello, .run, .callbackReturns 0,
    .rescheduleTaskAt hello 5000000 0]

/-- It is armed with its mark, and will fire without effect. -/
theorem helloLater_ineffective :
    ∃ trace final, Run Step (initial fun _ => 500000) trace final ∧
      trace.length = 5 ∧ final.running = none ∧
      final.taskMap hello.tag = some hello ∧
      final.armed hello = some 5000000 ∧ ¬ final.Effective := by
  have executed : (execute step (initial fun _ => 500000) helloLater).any
      (fun result => result.1.length = 5 ∧ result.2.running = none ∧
        result.2.taskMap hello.tag = some hello ∧
        result.2.armed hello = some 5000000 ∧
        result.2.invoked hello = true) = true := by
    decide +kernel
  obtain ⟨⟨trace, final⟩, reached, facts⟩ :=
    (Option.any_eq_true _ _).mp executed
  obtain ⟨length, idle, mapped, armed, marked⟩ := of_decide_eq_true facts
  refine ⟨trace, final, execute_run reached, length, idle, mapped, armed, ?_⟩
  intro effective
  have pending : final.armed hello ≠ none :=
    Option.ne_none_iff_exists'.mpr ⟨_, armed⟩
  have unmarked := effective hello.tag hello mapped pending
  exact absurd (unmarked.symm.trans marked) (by decide)

end TaskScheduler

end ChronoShare
