import ChronoShare.Support.FixedWidth
import ChronoShare.Support.Run
import Mathlib.Data.List.Perm.Subperm
import Mathlib.Logic.Function.Basic

/-!
# One-time tasks

Any thread may schedule or delete a task; the timers fire on the thread of the
event loop, and the executor, whose pool has one thread, runs the queued tasks
one after the other.  Every action under a mutex, and every action on a timer
or on the mark of a task, is a step of its own.
-/

namespace ChronoShare

/-- A task object; objects are told apart by the order of their creation. -/
structure OneTimeTask where
  id : Nat
  tag : Bytes
  deriving DecidableEq, Repr

/-- Where `OneTimeTask::run` stands on the thread of the executor. -/
inductive RunPoint where
  | callback
  | deregisterSelf
  deriving DecidableEq, Repr

/-- The map of tasks with the tasks that are being added, whose timers are
armed, whose timers have fired, that are queued, and the one that runs.
`invoked` has the tasks that are marked, `returned` those that callers hold. -/
structure Scheduler where
  taskMap : Bytes → Option OneTimeTask
  created : Nat
  invoked : List OneTimeTask
  returned : List OneTimeTask
  adding : List OneTimeTask
  armed : List OneTimeTask
  fired : List OneTimeTask
  queue : List OneTimeTask
  running : Option (OneTimeTask × RunPoint)

inductive SchedulerStep where
  | scheduleOneTimeTask (tag : Bytes)
  | evtimerAdd (task : OneTimeTask)
  | release (task : OneTimeTask)
  | fire (task : OneTimeTask)
  | execute (task : OneTimeTask)
  | run
  | callbackReturns
  | deregisterSelf
  | deleteTask (tag : Bytes)
  | deleteMatching (matcher : OneTimeTask → Bool)

namespace Scheduler

def initial : Scheduler :=
  ⟨fun _ => none, 0, [], [], [], [], [], [], none⟩

/-- A new task enters the map unless its tag is there; its timer is added
later, outside the mutex. -/
def addToMap (scheduler : Scheduler) (tag : Bytes) : Scheduler :=
  let task : OneTimeTask := ⟨scheduler.created, tag⟩
  match scheduler.taskMap tag with
  | none =>
      { scheduler with
        taskMap := Function.update scheduler.taskMap tag (some task)
        created := scheduler.created + 1
        adding := scheduler.adding ++ [task] }
  | some _ => { scheduler with created := scheduler.created + 1 }

/-- `evtimer_del` and removal from the map of whatever task has the tag. -/
def deleteTask (scheduler : Scheduler) (tag : Bytes) : Scheduler :=
  match scheduler.taskMap tag with
  | none => scheduler
  | some task =>
      { scheduler with
        taskMap := Function.update scheduler.taskMap tag none
        armed := scheduler.armed.filter (· ≠ task) }

/-- The same for all the tasks that the matcher accepts. -/
def deleteMatching (scheduler : Scheduler) (matcher : OneTimeTask → Bool) :
    Scheduler :=
  { scheduler with
    taskMap := fun tag =>
      (scheduler.taskMap tag).filter fun task => !matcher task
    armed := scheduler.armed.filter fun task =>
      ¬ (scheduler.taskMap task.tag = some task ∧ matcher task) }

/-- The last pointer outside the scheduler goes; a task that the map does not
hold is destroyed, and its timer with it. -/
def release (scheduler : Scheduler) (task : OneTimeTask) : Scheduler :=
  { scheduler with
    returned := scheduler.returned.erase task
    armed :=
      if scheduler.taskMap task.tag = some task then
        scheduler.armed
      else
        scheduler.armed.filter (· ≠ task) }

def step (scheduler : Scheduler) : SchedulerStep → Option Scheduler
  | .scheduleOneTimeTask tag => some (scheduler.addToMap tag)
  | .evtimerAdd task =>
      if task ∈ scheduler.adding then
        some { scheduler with
          invoked := scheduler.invoked.filter (· ≠ task)
          returned := scheduler.returned ++ [task]
          adding := scheduler.adding.erase task
          armed := scheduler.armed ++ [task] }
      else
        none
  | .release task =>
      if task ∈ scheduler.returned then
        some (scheduler.release task)
      else
        none
  | .fire task =>
      if task ∈ scheduler.armed then
        some { scheduler with
          armed := scheduler.armed.erase task
          fired := scheduler.fired ++ [task] }
      else
        none
  | .execute task =>
      if task ∈ scheduler.fired then
        some { scheduler with
          fired := scheduler.fired.erase task
          queue := scheduler.queue ++ [task] }
      else
        none
  | .run =>
      match scheduler.running, scheduler.queue with
      | none, task :: queue =>
          if task ∈ scheduler.invoked then
            some { scheduler with queue }
          else
            some { scheduler with
              queue
              running := some (task, .callback) }
      | _, _ => none
  | .callbackReturns =>
      match scheduler.running with
      | some (task, .callback) =>
          some { scheduler with
            invoked := scheduler.invoked ++ [task]
            running := some (task, .deregisterSelf) }
      | _ => none
  | .deregisterSelf =>
      match scheduler.running with
      | some (task, .deregisterSelf) =>
          some { scheduler.deleteTask task.tag with running := none }
      | _ => none
  | .deleteTask tag => some (scheduler.deleteTask tag)
  | .deleteMatching matcher => some (scheduler.deleteMatching matcher)

abbrev Runs : List (Scheduler × SchedulerStep) → Scheduler → Prop :=
  Run (fun source label target => source.step label = some target) initial

/-- The tasks whose callbacks have yet to start. -/
def waiting (scheduler : Scheduler) : List OneTimeTask :=
  scheduler.adding ++ (scheduler.armed ++ (scheduler.fired ++ scheduler.queue))

/-- The tasks on their way, up to the deregistration. -/
def alive (scheduler : Scheduler) : List OneTimeTask :=
  scheduler.waiting ++ (scheduler.running.map (·.1)).toList

/-- No timer is armed or being added, and no job is queued, about to be, or
running. -/
def Quiet (scheduler : Scheduler) : Prop :=
  scheduler.alive = []

instance (scheduler : Scheduler) : Decidable scheduler.Quiet :=
  inferInstanceAs (Decidable (scheduler.alive = []))

/-- Every task is on its way once, none is marked before its callback has
started, and the tasks of the map are on their way under their tags. -/
structure Sound (scheduler : Scheduler) : Prop where
  unique : scheduler.alive.Nodup
  aliveCreated : ∀ task ∈ scheduler.alive, task.id < scheduler.created
  invokedCreated : ∀ task ∈ scheduler.invoked, task.id < scheduler.created
  unmarked : ∀ task ∈ scheduler.waiting, task ∉ scheduler.invoked
  mapped : ∀ tag task, scheduler.taskMap tag = some task →
    task.tag = tag ∧ task ∈ scheduler.alive

theorem sound_initial : Sound initial := by
  constructor <;> simp [initial, alive, waiting]

section Steps

variable {scheduler target : Scheduler}

theorem mem_waiting {task : OneTimeTask} :
    task ∈ scheduler.waiting ↔
      task ∈ scheduler.adding ∨ task ∈ scheduler.armed ∨
        task ∈ scheduler.fired ∨ task ∈ scheduler.queue := by
  simp [waiting]

theorem mem_alive {task : OneTimeTask} :
    task ∈ scheduler.alive ↔ task ∈ scheduler.waiting ∨
      ∃ point, scheduler.running = some (task, point) := by
  cases here : scheduler.running with
  | none => simp [alive, here]
  | some taken =>
      obtain ⟨other, point⟩ := taken
      simp [alive, here, eq_comm]

theorem Sound.of_subperm (sound : scheduler.Sound)
    (created : target.created = scheduler.created)
    (alive : target.alive.Subperm scheduler.alive)
    (waiting : ∀ task ∈ target.waiting, task ∈ scheduler.waiting)
    (invoked : ∀ task ∈ target.invoked, task ∈ scheduler.invoked)
    (mapped : ∀ tag task, target.taskMap tag = some task →
      task.tag = tag ∧ task ∈ target.alive) : target.Sound where
  unique := by
    obtain ⟨tasks, same, included⟩ := alive
    exact same.nodup_iff.mp (included.nodup sound.unique)
  aliveCreated task member := by
    rw [created]
    exact sound.aliveCreated task (alive.subset member)
  invokedCreated task member := by
    rw [created]
    exact sound.invokedCreated task (invoked task member)
  unmarked task member marked :=
    sound.unmarked task (waiting task member) (invoked task marked)
  mapped := mapped

theorem Sound.of_perm (sound : scheduler.Sound)
    (created : target.created = scheduler.created)
    (alive : target.alive.Perm scheduler.alive)
    (waiting : ∀ task ∈ target.waiting, task ∈ scheduler.waiting)
    (invoked : ∀ task ∈ target.invoked, task ∈ scheduler.invoked)
    (sameMap : target.taskMap = scheduler.taskMap) : target.Sound := by
  apply sound.of_subperm created alive.subperm waiting invoked
  intro tag task found
  rw [sameMap] at found
  obtain ⟨named, member⟩ := sound.mapped tag task found
  exact ⟨named, alive.mem_iff.mpr member⟩

theorem move_perm {tasks others : List OneTimeTask} {task : OneTimeTask}
    (member : task ∈ tasks) (rest : List OneTimeTask) :
    (tasks.erase task ++ ((others ++ [task]) ++ rest)).Perm
      (tasks ++ (others ++ rest)) := by
  have moved : (tasks.erase task ++ ((others ++ [task]) ++ rest)).Perm
      (task :: (tasks.erase task ++ (others ++ rest))) := by
    rw [List.append_assoc, List.singleton_append, ← List.append_assoc]
    exact List.perm_middle.trans (by rw [List.append_assoc])
  apply moved.trans
  rw [← List.cons_append]
  exact ((List.perm_cons_erase member).symm).append_right _

theorem addToMap_sound (sound : scheduler.Sound) (tag : Bytes) :
    (scheduler.addToMap tag).Sound := by
  cases present : scheduler.taskMap tag with
  | some task =>
      simp only [addToMap, present]
      refine ⟨sound.unique, ?_, ?_, sound.unmarked, sound.mapped⟩
      · intro task member
        exact Nat.lt_succ_of_lt (sound.aliveCreated task member)
      · intro task member
        exact Nat.lt_succ_of_lt (sound.invokedCreated task member)
  | none =>
      let new : OneTimeTask := ⟨scheduler.created, tag⟩
      have grown : (scheduler.addToMap tag).alive.Perm
          (new :: scheduler.alive) := by
        simp only [addToMap, present, alive, waiting, List.append_assoc,
          List.cons_append]
        exact List.perm_middle
      have notCreated : ∀ task : OneTimeTask, task.id < scheduler.created →
          task ≠ new := by
        rintro task earlier rfl
        exact absurd earlier (lt_irrefl _)
      refine ⟨?_, ?_, ?_, ?_, ?_⟩
      · rw [grown.nodup_iff, List.nodup_cons]
        refine ⟨?_, sound.unique⟩
        intro member
        exact notCreated new (sound.aliveCreated new member) rfl
      · intro task member
        simp only [addToMap, present]
        rcases List.mem_cons.mp (grown.mem_iff.mp member) with rfl | earlier
        · exact Nat.lt_succ_self _
        · exact Nat.lt_succ_of_lt (sound.aliveCreated task earlier)
      · intro task member
        simp only [addToMap, present] at member ⊢
        exact Nat.lt_succ_of_lt (sound.invokedCreated task member)
      · intro task member marked
        simp only [addToMap, present] at marked
        have here : task = new ∨ task ∈ scheduler.waiting := by
          simp only [addToMap, present, mem_waiting, List.mem_append,
            List.mem_singleton] at member ⊢
          tauto
        rcases here with rfl | earlier
        · exact notCreated _ (sound.invokedCreated _ marked) rfl
        · exact sound.unmarked task earlier marked
      · intro other task found
        simp only [addToMap, present] at found
        rw [grown.mem_iff]
        by_cases same : other = tag
        · rw [same, Function.update_self, Option.some.injEq] at found
          rw [same, ← found]
          exact ⟨rfl, List.mem_cons_self⟩
        · rw [Function.update_of_ne same] at found
          obtain ⟨named, member⟩ := sound.mapped other task found
          exact ⟨named, List.mem_cons_of_mem new member⟩

theorem Sound.removeArmed (sound : scheduler.Sound)
    (taskMap : Bytes → Option OneTimeTask) (returned : List OneTimeTask)
    (keep : OneTimeTask → Bool)
    (kept : ∀ tag task, taskMap tag = some task →
      scheduler.taskMap tag = some task ∧ keep task) :
    Sound { scheduler with
      taskMap := taskMap
      returned := returned
      armed := scheduler.armed.filter keep } := by
  apply sound.of_subperm
  · rfl
  · apply List.Sublist.subperm
    simp only [alive, waiting]
    apply List.Sublist.append_right
    apply List.Sublist.append_left
    exact List.filter_sublist.append_right _
  · intro task
    simp only [mem_waiting, List.mem_filter]
    tauto
  · exact fun task member => member
  · intro tag task found
    obtain ⟨before, stays⟩ := kept tag task found
    obtain ⟨named, member⟩ := sound.mapped tag task before
    refine ⟨named, ?_⟩
    simp only [mem_alive, mem_waiting, List.mem_filter] at member ⊢
    tauto

theorem deleteTask_taskMap_self (scheduler : Scheduler) (tag : Bytes) :
    (scheduler.deleteTask tag).taskMap tag = none := by
  cases present : scheduler.taskMap tag with
  | none => simp [deleteTask, present]
  | some task => simp [deleteTask, present]

theorem deleteTask_sound (sound : scheduler.Sound) (tag : Bytes) :
    (scheduler.deleteTask tag).Sound := by
  cases present : scheduler.taskMap tag with
  | none =>
      simp only [deleteTask, present]
      exact sound
  | some removed =>
      simp only [deleteTask, present]
      apply sound.removeArmed
      intro other task found
      by_cases same : other = tag
      · rw [same, Function.update_self] at found
        exact absurd found (by simp)
      · rw [Function.update_of_ne same] at found
        refine ⟨found, ?_⟩
        have different : task ≠ removed := by
          rintro rfl
          exact same ((sound.mapped other task found).1.symm.trans
            (sound.mapped tag task present).1)
        simpa using different

theorem deleteMatching_sound (sound : scheduler.Sound)
    (matcher : OneTimeTask → Bool) :
    (scheduler.deleteMatching matcher).Sound := by
  apply sound.removeArmed
  intro tag task found
  obtain ⟨before, rejected⟩ := Option.filter_eq_some_iff.mp found
  refine ⟨before, ?_⟩
  have unmatched : matcher task = false := by simpa using rejected
  simp [unmatched]

theorem release_sound (sound : scheduler.Sound) (task : OneTimeTask) :
    (scheduler.release task).Sound := by
  by_cases held : scheduler.taskMap task.tag = some task
  · simp only [release, if_pos held]
    exact ⟨sound.unique, sound.aliveCreated, sound.invokedCreated,
      sound.unmarked, sound.mapped⟩
  · simp only [release, if_neg held]
    apply sound.removeArmed
    intro tag other found
    refine ⟨found, ?_⟩
    have different : other ≠ task := by
      rintro rfl
      rw [(sound.mapped tag other found).1] at held
      exact held found
    simpa using different

theorem Sound.move (sound : scheduler.Sound)
    (created : target.created = scheduler.created)
    (waiting : target.waiting.Perm scheduler.waiting)
    (running : target.running = scheduler.running)
    (invoked : ∀ task ∈ target.invoked, task ∈ scheduler.invoked)
    (sameMap : target.taskMap = scheduler.taskMap) : target.Sound := by
  apply sound.of_perm created _ _ invoked sameMap
  · rw [alive, alive, running]
    exact waiting.append_right _
  · exact fun task member => waiting.mem_iff.mp member

theorem run_cases (sound : scheduler.Sound)
    (taken : scheduler.step .run = some target) :
    ∃ task queue, scheduler.running = none ∧
      scheduler.queue = task :: queue ∧ task ∉ scheduler.invoked ∧
      target = { scheduler with
        queue := queue
        running := some (task, .callback) } := by
  simp only [step] at taken
  split at taken
  · rename_i task queue idle queued
    have unmarked : task ∉ scheduler.invoked :=
      sound.unmarked task (mem_waiting.mpr (by simp [queued]))
    rw [if_neg unmarked] at taken
    exact ⟨task, queue, idle, queued, unmarked, (Option.some.inj taken).symm⟩
  · exact absurd taken (by simp)

theorem callbackReturns_cases
    (taken : scheduler.step .callbackReturns = some target) :
    ∃ task, scheduler.running = some (task, .callback) ∧
      target = { scheduler with
        invoked := scheduler.invoked ++ [task]
        running := some (task, .deregisterSelf) } := by
  simp only [step] at taken
  split at taken
  · rename_i task here
    exact ⟨task, here, (Option.some.inj taken).symm⟩
  · exact absurd taken (by simp)

theorem deregisterSelf_cases
    (taken : scheduler.step .deregisterSelf = some target) :
    ∃ task, scheduler.running = some (task, .deregisterSelf) ∧
      target = { scheduler.deleteTask task.tag with running := none } := by
  simp only [step] at taken
  split at taken
  · rename_i task here
    exact ⟨task, here, (Option.some.inj taken).symm⟩
  · exact absurd taken (by simp)

theorem run_sound (sound : scheduler.Sound)
    (taken : scheduler.step .run = some target) : target.Sound := by
  obtain ⟨task, queue, idle, queued, -, rfl⟩ := run_cases sound taken
  apply sound.of_perm
  · rfl
  · simp only [alive, waiting, idle, queued, Option.map_none,
      Option.map_some, Option.toList_none, Option.toList_some,
      List.append_nil, List.append_assoc]
    apply List.Perm.append_left
    apply List.Perm.append_left
    apply List.Perm.append_left
    exact List.perm_append_comm
  · intro other
    simp only [mem_waiting, queued, List.mem_cons]
    tauto
  · exact fun other marked => marked
  · rfl

theorem callbackReturns_sound (sound : scheduler.Sound)
    (taken : scheduler.step .callbackReturns = some target) :
    target.Sound := by
  obtain ⟨task, here, rfl⟩ := callbackReturns_cases taken
  have sameAlive : alive { scheduler with
      invoked := scheduler.invoked ++ [task]
      running := some (task, .deregisterSelf) } = scheduler.alive := by
    simp [alive, waiting, here]
  have runs : task ∈ scheduler.alive :=
    mem_alive.mpr (Or.inr ⟨.callback, here⟩)
  refine ⟨?_, ?_, ?_, ?_, ?_⟩
  · rw [sameAlive]
    exact sound.unique
  · rw [sameAlive]
    exact sound.aliveCreated
  · intro other marked
    rcases List.mem_append.mp marked with earlier | last
    · exact sound.invokedCreated other earlier
    · rw [List.mem_singleton.mp last]
      exact sound.aliveCreated task runs
  · intro other member marked
    rcases List.mem_append.mp marked with earlier | last
    · exact sound.unmarked other member earlier
    · -- a task on its way once does not wait while it runs
      rw [List.mem_singleton.mp last] at member
      have unique := sound.unique
      rw [alive, here] at unique
      exact (List.nodup_append.mp unique).2.2 task member task (by simp) rfl
  · intro tag other found
    rw [sameAlive]
    exact sound.mapped tag other found

theorem deregisterSelf_sound (sound : scheduler.Sound)
    (taken : scheduler.step .deregisterSelf = some target) :
    target.Sound := by
  obtain ⟨task, here, rfl⟩ := deregisterSelf_cases taken
  have deleted := deleteTask_sound sound task.tag
  have stillHere : (scheduler.deleteTask task.tag).running =
      some (task, .deregisterSelf) := by
    rw [deleteTask]
    split <;> exact here
  have unmapped := deleteTask_taskMap_self scheduler task.tag
  apply deleted.of_subperm
  · rfl
  · apply List.Sublist.subperm
    simp only [alive, Option.map_none, Option.toList_none, List.append_nil]
    exact List.sublist_append_left _ _
  · exact fun other member => member
  · exact fun other marked => marked
  · intro tag other found
    obtain ⟨named, member⟩ := deleted.mapped tag other found
    refine ⟨named, ?_⟩
    rcases mem_alive.mp member with waits | ⟨point, runs⟩
    · exact mem_alive.mpr (Or.inl waits)
    · rw [stillHere, Option.some.injEq, Prod.mk.injEq] at runs
      rw [← named, ← runs.1, unmapped] at found
      exact absurd found (by simp)

-- What the three steps do that take a task from one list to the next.
theorem evtimerAdd_cases {task : OneTimeTask}
    (taken : scheduler.step (.evtimerAdd task) = some target) :
    task ∈ scheduler.adding ∧ target.waiting.Perm scheduler.waiting ∧
      target = { scheduler with
        invoked := scheduler.invoked.filter (· ≠ task)
        returned := scheduler.returned ++ [task]
        adding := scheduler.adding.erase task
        armed := scheduler.armed ++ [task] } := by
  simp only [step] at taken
  split_ifs at taken with member
  obtain rfl := Option.some.inj taken
  exact ⟨member, move_perm member _, rfl⟩

theorem fire_cases {task : OneTimeTask}
    (taken : scheduler.step (.fire task) = some target) :
    task ∈ scheduler.armed ∧ target.waiting.Perm scheduler.waiting ∧
      target = { scheduler with
        armed := scheduler.armed.erase task
        fired := scheduler.fired ++ [task] } := by
  simp only [step] at taken
  split_ifs at taken with member
  obtain rfl := Option.some.inj taken
  refine ⟨member, ?_, rfl⟩
  exact (move_perm member scheduler.queue).append_left scheduler.adding

theorem execute_cases {task : OneTimeTask}
    (taken : scheduler.step (.execute task) = some target) :
    task ∈ scheduler.fired ∧ target.waiting.Perm scheduler.waiting ∧
      target = { scheduler with
        fired := scheduler.fired.erase task
        queue := scheduler.queue ++ [task] } := by
  simp only [step] at taken
  split_ifs at taken with member
  obtain rfl := Option.some.inj taken
  refine ⟨member, ?_, rfl⟩
  apply List.Perm.append_left
  apply List.Perm.append_left
  simpa using move_perm member []

theorem step_sound (sound : scheduler.Sound) {label : SchedulerStep}
    (taken : scheduler.step label = some target) : target.Sound := by
  cases label with
  | scheduleOneTimeTask tag =>
      obtain rfl := Option.some.inj taken
      exact addToMap_sound sound tag
  | evtimerAdd task =>
      obtain ⟨-, moved, rfl⟩ := evtimerAdd_cases taken
      refine sound.move rfl moved rfl ?_ rfl
      exact fun other marked => List.mem_of_mem_filter marked
  | release task =>
      simp only [step] at taken
      split_ifs at taken
      obtain rfl := Option.some.inj taken
      exact release_sound sound task
  | fire task =>
      obtain ⟨-, moved, rfl⟩ := fire_cases taken
      exact sound.move rfl moved rfl (fun other marked => marked) rfl
  | execute task =>
      obtain ⟨-, moved, rfl⟩ := execute_cases taken
      exact sound.move rfl moved rfl (fun other marked => marked) rfl
  | run => exact run_sound sound taken
  | callbackReturns => exact callbackReturns_sound sound taken
  | deregisterSelf => exact deregisterSelf_sound sound taken
  | deleteTask tag =>
      obtain rfl := Option.some.inj taken
      exact deleteTask_sound sound tag
  | deleteMatching matcher =>
      obtain rfl := Option.some.inj taken
      exact deleteMatching_sound sound matcher

end Steps

end Scheduler

end ChronoShare
