import ChronoShare.Scheduler.Orderly
import ChronoShare.Scheduler.Tags

/-!
# The callbacks of tasks

A scheduler from which nothing is deleted, with what its tasks call.  A call
whose tag is free waits until the worker begins its callback; no other step
begins one, and none loses one.
-/

namespace ChronoShare

/-- The scheduler, with the callback that was given to each task object. -/
structure TimerTasks where
  scheduler : Scheduler
  callbacks : Nat → Option TimerCall
  orderly : scheduler.Orderly
  bound : ∀ task ∈ scheduler.alive,
    (callbacks task.id).map TimerCall.tag = some task.tag

namespace TimerTasks

def initial : TimerTasks where
  scheduler := .initial
  callbacks := fun _ => none
  orderly := Scheduler.orderly_initial
  bound := by simp [Scheduler.initial, Scheduler.alive, Scheduler.waiting]

theorem addToMap_alive {scheduler : Scheduler} {tag : Bytes}
    {task : OneTimeTask} (member : task ∈ (scheduler.addToMap tag).alive) :
    task ∈ scheduler.alive ∨ task = ⟨scheduler.created, tag⟩ := by
  cases present : scheduler.taskMap tag with
  | some other =>
      simp only [Scheduler.addToMap, present] at member
      exact .inl member
  | none =>
      simp only [Scheduler.addToMap, present, Scheduler.mem_alive,
        Scheduler.mem_waiting, List.mem_append, List.mem_singleton] at member ⊢
      tauto

/-- `Scheduler::scheduleOneTimeTask`. -/
def schedule (tasks : TimerTasks) (call : TimerCall) : TimerTasks where
  scheduler := tasks.scheduler.addToMap call.tag
  callbacks :=
    Function.update tasks.callbacks tasks.scheduler.created (some call)
  orderly := tasks.orderly.addToMap call.tag
  bound := by
    intro task member
    rcases addToMap_alive member with earlier | rfl
    · have older := tasks.orderly.sound.aliveCreated task earlier
      rw [Function.update_of_ne older.ne]
      exact tasks.bound task earlier
    · rw [Function.update_self]
      rfl

/-- The steps of the scheduler itself, between a call of a task and the end of
its run. -/
def Internal (label : SchedulerStep) : Prop :=
  label.Proceeds ∨ label = .callbackReturns

instance (label : SchedulerStep) : Decidable (Internal label) :=
  match label with
  | .callbackReturns => .isTrue (.inr rfl)
  | .evtimerAdd _ | .release _ | .fire _ | .execute _ | .run
  | .deregisterSelf => .isTrue (.inl trivial)
  | .scheduleOneTimeTask _ | .deleteTask _ | .deleteMatching _ =>
      .isFalse (by simp [Internal, SchedulerStep.Proceeds])

theorem deleteTask_taskMap {scheduler : Scheduler} {deleted tag : Bytes}
    {task : OneTimeTask}
    (found : (scheduler.deleteTask deleted).taskMap tag = some task) :
    scheduler.taskMap tag = some task := by
  by_cases same : tag = deleted
  · rw [same, Scheduler.deleteTask_taskMap_self] at found
    cases found
  · rw [Scheduler.deleteTask] at found
    split at found
    · exact found
    · exact (Function.update_of_ne same _ _).symm.trans found

theorem internal_taskMap {scheduler target : Scheduler}
    (orderly : scheduler.Orderly) {label : SchedulerStep}
    (internal : Internal label) (taken : scheduler.step label = some target)
    {tag : Bytes} {task : OneTimeTask}
    (found : target.taskMap tag = some task) :
    scheduler.taskMap tag = some task := by
  cases label with
  | evtimerAdd added =>
      obtain ⟨-, -, rfl⟩ := Scheduler.evtimerAdd_cases taken
      exact found
  | release released =>
      simp only [Scheduler.step] at taken
      split_ifs at taken
      obtain rfl := Option.some.inj taken
      exact found
  | fire fired =>
      obtain ⟨-, -, rfl⟩ := Scheduler.fire_cases taken
      exact found
  | execute fired =>
      obtain ⟨-, -, rfl⟩ := Scheduler.execute_cases taken
      exact found
  | run =>
      obtain ⟨_, _, -, -, -, rfl⟩ := Scheduler.run_cases orderly.sound taken
      exact found
  | callbackReturns =>
      obtain ⟨_, -, rfl⟩ := Scheduler.callbackReturns_cases taken
      exact found
  | deregisterSelf =>
      obtain ⟨_, -, rfl⟩ := Scheduler.deregisterSelf_cases taken
      exact deleteTask_taskMap found
  | scheduleOneTimeTask | deleteTask | deleteMatching =>
      simp [Internal, SchedulerStep.Proceeds] at internal

theorem internal_orderly {scheduler target : Scheduler}
    (orderly : scheduler.Orderly) {label : SchedulerStep}
    (internal : Internal label) (taken : scheduler.step label = some target) :
    target.Orderly := by
  rcases internal with proceeds | rfl
  · exact (orderly.proceeds proceeds taken).1
  · exact (orderly.callbackReturns taken).1

theorem internal_alive {scheduler target : Scheduler}
    (orderly : scheduler.Orderly) {label : SchedulerStep}
    (internal : Internal label) (taken : scheduler.step label = some target)
    {task : OneTimeTask} (alive : task ∈ target.alive) :
    task ∈ scheduler.alive := by
  have held := (internal_orderly orderly internal taken).mapped task alive
  have before := internal_taskMap orderly internal taken held
  exact (orderly.sound.mapped task.tag task before).2

def step (tasks : TimerTasks) (label : SchedulerStep) : Option TimerTasks :=
  if internal : Internal label then
    match taken : tasks.scheduler.step label with
    | none => none
    | some target =>
        some
          { scheduler := target
            callbacks := tasks.callbacks
            orderly := internal_orderly tasks.orderly internal taken
            bound := fun task alive => tasks.bound task
              (internal_alive tasks.orderly internal taken alive) }
  else
    none

def calling (tasks : TimerTasks) : Option TimerCall :=
  tasks.scheduler.inCallback.bind fun task => tasks.callbacks task.id

/-- How many tasks with the call have yet to begin their callbacks. -/
def waits (tasks : TimerTasks) (call : TimerCall) : Nat :=
  tasks.scheduler.waiting.countP fun task =>
    tasks.callbacks task.id = some call

/-- The tag of the call is free. -/
def Free (tasks : TimerTasks) (call : TimerCall) : Prop :=
  tasks.scheduler.taskMap call.tag = none

instance (tasks : TimerTasks) (call : TimerCall) :
    Decidable (tasks.Free call) :=
  inferInstanceAs (Decidable (_ = none))

variable {tasks target : TimerTasks} {call other : TimerCall}
  {label : SchedulerStep}

theorem waiting_addToMap {scheduler : Scheduler} {tag : Bytes}
    (free : scheduler.taskMap tag = none) :
    (scheduler.addToMap tag).waiting.Perm
      (⟨scheduler.created, tag⟩ :: scheduler.waiting) := by
  simp only [Scheduler.addToMap, free, Scheduler.waiting, List.append_assoc,
    List.cons_append]
  exact List.perm_middle

theorem countP_schedule (tasks : TimerTasks) (other call : TimerCall) :
    tasks.scheduler.waiting.countP (fun task =>
      (tasks.schedule other).callbacks task.id = some call) =
        tasks.waits call := by
  apply List.countP_congr
  intro task waiting
  have older := tasks.orderly.sound.aliveCreated task
    (Scheduler.mem_alive.mpr (.inl waiting))
  simp only [schedule, Function.update_of_ne older.ne]

theorem waits_schedule (tasks : TimerTasks) (other call : TimerCall) :
    (tasks.schedule other).waits call = tasks.waits call +
      if other = call ∧ tasks.Free call then 1 else 0 := by
  by_cases free : tasks.scheduler.taskMap other.tag = none
  · have added : (tasks.schedule other).scheduler.waiting.Perm
        (⟨tasks.scheduler.created, other.tag⟩ :: tasks.scheduler.waiting) :=
      waiting_addToMap free
    have fresh : (tasks.schedule other).callbacks tasks.scheduler.created =
        some other := Function.update_self _ _ _
    rw [waits, added.countP_eq, List.countP_cons, countP_schedule, fresh]
    by_cases same : other = call
    · subst same
      rw [if_pos (by simp), if_pos ⟨rfl, free⟩]
    · rw [if_neg (by simpa using same), if_neg fun both => same both.1]
  · have kept : (tasks.schedule other).scheduler.waiting =
        tasks.scheduler.waiting := by
      obtain ⟨task, present⟩ := Option.ne_none_iff_exists'.mp free
      simp only [schedule, Scheduler.addToMap, present, Scheduler.waiting]
    have dropped : ¬ (other = call ∧ tasks.Free call) := by
      rintro ⟨rfl, isFree⟩
      exact free isFree
    rw [waits, kept, countP_schedule, if_neg dropped, Nat.add_zero]

theorem waits_foldl_schedule {calls : List TimerCall}
    (apart : call ∉ calls) :
    (calls.foldl TimerTasks.schedule tasks).waits call =
      tasks.waits call := by
  induction calls generalizing tasks with
  | nil => rfl
  | cons first calls induction =>
      rw [List.mem_cons, not_or] at apart
      rw [List.foldl_cons, induction apart.2, waits_schedule,
        if_neg fun both => apart.1 both.1.symm, Nat.add_zero]

/-- A step of the scheduler is one of its own, with the callbacks as they
were. -/
theorem step_cases (taken : tasks.step label = some target) :
    Internal label ∧ tasks.scheduler.step label = some target.scheduler ∧
      target.callbacks = tasks.callbacks := by
  rw [step] at taken
  split_ifs at taken with internal
  split at taken
  · cases taken
  · rename_i scheduler stepped
    rw [← Option.some.inj taken]
    exact ⟨internal, stepped, rfl⟩

/-- Only the worker begins a callback, so that all other steps leave those that
wait where they are. -/
theorem waiting_perm {scheduler after : Scheduler}
    (orderly : scheduler.Orderly) (internal : Internal label)
    (other : label ≠ .run) (taken : scheduler.step label = some after) :
    after.waiting.Perm scheduler.waiting := by
  rcases internal with proceeds | rfl
  · have same : after.inCallback.toList = scheduler.inCallback.toList := by
      cases label with
      | run => exact absurd rfl other
      | evtimerAdd added =>
          obtain ⟨-, -, rfl⟩ := Scheduler.evtimerAdd_cases taken
          rfl
      | release released =>
          simp only [Scheduler.step] at taken
          split_ifs at taken
          obtain rfl := Option.some.inj taken
          rfl
      | fire fired =>
          obtain ⟨-, -, rfl⟩ := Scheduler.fire_cases taken
          rfl
      | execute fired =>
          obtain ⟨-, -, rfl⟩ := Scheduler.execute_cases taken
          rfl
      | deregisterSelf =>
          obtain ⟨_, running, rfl⟩ := Scheduler.deregisterSelf_cases taken
          simp [Scheduler.inCallback, running]
      | scheduleOneTimeTask | callbackReturns | deleteTask | deleteMatching =>
          exact proceeds.elim
    have moved := (orderly.proceeds proceeds taken).2
    rw [Scheduler.unreturned, Scheduler.unreturned, same] at moved
    exact (List.perm_append_right_iff _).mp moved
  · obtain ⟨runner, -, rfl⟩ := Scheduler.callbackReturns_cases taken
    exact List.Perm.refl _

theorem waits_step (other : label ≠ .run)
    (taken : tasks.step label = some target) (call : TimerCall) :
    target.waits call = tasks.waits call := by
  obtain ⟨internal, stepped, same⟩ := step_cases taken
  have moved := waiting_perm tasks.orderly internal other stepped
  rw [waits, waits, moved.countP_eq, same]

theorem waits_run (taken : tasks.step .run = some target) (call : TimerCall) :
    tasks.waits call = target.waits call +
      if target.calling = some call then 1 else 0 := by
  obtain ⟨-, stepped, same⟩ := step_cases taken
  obtain ⟨task, queue, -, queued, -, reached⟩ :=
    Scheduler.run_cases tasks.orderly.sound stepped
  have begun : target.calling = tasks.callbacks task.id := by
    rw [calling, reached, Scheduler.inCallback, Option.bind_some, same]
  have moved : tasks.scheduler.waiting.Perm
      (task :: target.scheduler.waiting) := by
    simp only [reached, Scheduler.waiting, queued]
    rw [← List.append_assoc, ← List.append_assoc, ← List.append_assoc,
      ← List.append_assoc]
    exact List.perm_middle
  rw [waits, waits, moved.countP_eq, List.countP_cons, begun, same]
  simp only [decide_eq_true_eq]

end TimerTasks

end ChronoShare
