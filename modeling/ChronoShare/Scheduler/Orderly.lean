import ChronoShare.Scheduler.Deregistration

/-!
# A scheduler from which nothing is deleted

Where no caller deletes a task, the map holds every task that is on its way,
and a task whose tag is free stays on its way until its callback has returned.
-/

namespace ChronoShare

/-- The steps of the scheduler's own threads up to the callback and after it,
and those of a caller after a task has been accepted. -/
def SchedulerStep.Proceeds : SchedulerStep → Prop
  | .evtimerAdd _ => True
  | .release _ => True
  | .fire _ => True
  | .execute _ => True
  | .run => True
  | .deregisterSelf => True
  | _ => False

instance (label : SchedulerStep) : Decidable label.Proceeds :=
  match label with
  | .evtimerAdd _ | .release _ | .fire _ | .execute _ | .run
  | .deregisterSelf => .isTrue trivial
  | .scheduleOneTimeTask _ | .callbackReturns | .deleteTask _
  | .deleteMatching _ => .isFalse id

namespace Scheduler

/-- The task whose callback runs. -/
def inCallback (scheduler : Scheduler) : Option OneTimeTask :=
  match scheduler.running with
  | some (task, .callback) => some task
  | _ => none

/-- The tasks whose callbacks have not returned. -/
def unreturned (scheduler : Scheduler) : List OneTimeTask :=
  scheduler.waiting ++ scheduler.inCallback.toList

/-- The map holds all the tasks on their way. -/
structure Orderly (scheduler : Scheduler) : Prop where
  sound : scheduler.Sound
  mapped : ∀ task ∈ scheduler.alive,
    scheduler.taskMap task.tag = some task

theorem orderly_initial : initial.Orderly :=
  ⟨sound_initial, by simp [initial, alive, waiting]⟩

section Steps

variable {scheduler target : Scheduler}

theorem mem_alive_of_unreturned {task : OneTimeTask}
    (member : task ∈ scheduler.unreturned) : task ∈ scheduler.alive := by
  rw [mem_alive]
  rcases List.mem_append.mp member with waits | returns
  · exact .inl waits
  · rw [Option.mem_toList, inCallback] at returns
    split at returns
    · rename_i other running
      obtain rfl := Option.some.inj returns
      exact .inr ⟨.callback, running⟩
    · cases returns

theorem addToMap_unreturned {tag : Bytes}
    (free : scheduler.taskMap tag = none) :
    (scheduler.addToMap tag).unreturned.Perm
      (⟨scheduler.created, tag⟩ :: scheduler.unreturned) := by
  simp only [addToMap, free, unreturned, inCallback, waiting,
    List.append_assoc, List.cons_append]
  exact List.perm_middle

theorem Orderly.addToMap (orderly : scheduler.Orderly) (tag : Bytes) :
    (scheduler.addToMap tag).Orderly := by
  refine ⟨addToMap_sound orderly.sound tag, ?_⟩
  cases present : scheduler.taskMap tag with
  | some other =>
      intro task member
      simp only [Scheduler.addToMap, present] at member ⊢
      exact orderly.mapped task member
  | none =>
      intro task member
      simp only [Scheduler.addToMap, present, alive, waiting,
        List.append_assoc, List.cons_append, List.mem_append,
        List.mem_cons] at member ⊢
      by_cases new : task = ⟨scheduler.created, tag⟩
      · rw [new]
        exact Function.update_self _ _ _
      · have earlier : task ∈ scheduler.alive := by
          simp only [alive, waiting, List.append_assoc, List.mem_append]
          tauto
        have found := orderly.mapped task earlier
        have other : task.tag ≠ tag := by
          intro same
          rw [same, present] at found
          cases found
        exact (Function.update_of_ne other _ _).trans found

theorem Orderly.of_alive (orderly : scheduler.Orderly)
    (sound : target.Sound)
    (alive : ∀ task ∈ target.alive, task ∈ scheduler.alive)
    (sameMap : target.taskMap = scheduler.taskMap) : target.Orderly := by
  refine ⟨sound, ?_⟩
  intro task member
  rw [sameMap]
  exact orderly.mapped task (alive task member)

theorem Orderly.move (orderly : scheduler.Orderly) (sound : target.Sound)
    (waiting : target.waiting.Perm scheduler.waiting)
    (running : target.running = scheduler.running)
    (sameMap : target.taskMap = scheduler.taskMap) :
    target.Orderly ∧ target.unreturned.Perm scheduler.unreturned := by
  constructor
  · apply orderly.of_alive sound _ sameMap
    intro task member
    rw [alive, running] at member
    exact (waiting.append_right _).mem_iff.mp member
  · rw [unreturned, unreturned, inCallback, inCallback, running]
    exact waiting.append_right _

theorem Orderly.run (orderly : scheduler.Orderly)
    (taken : scheduler.step .run = some target) :
    target.Orderly ∧ target.unreturned.Perm scheduler.unreturned := by
  have sound := run_sound orderly.sound taken
  obtain ⟨task, queue, idle, queued, -, rfl⟩ :=
    run_cases orderly.sound taken
  constructor
  · apply orderly.of_alive sound _ rfl
    intro other
    simp only [alive, waiting, idle, queued, List.mem_append, List.mem_cons,
      Option.map_some, Option.toList_some]
    tauto
  · simp only [unreturned, inCallback, waiting, idle, queued,
      Option.toList_some, Option.toList_none, List.append_nil,
      List.append_assoc]
    apply List.Perm.append_left
    apply List.Perm.append_left
    apply List.Perm.append_left
    exact List.perm_append_comm

theorem Orderly.deregisterSelf (orderly : scheduler.Orderly)
    (taken : scheduler.step .deregisterSelf = some target) :
    target.Orderly ∧ target.unreturned.Perm scheduler.unreturned := by
  have sound := deregisterSelf_sound orderly.sound taken
  obtain ⟨runner, running, rfl⟩ := deregisterSelf_cases taken
  have alive : runner ∈ scheduler.alive :=
    mem_alive.mpr (.inr ⟨.deregisterSelf, running⟩)
  have mapped := orderly.mapped runner alive
  have unarmed : scheduler.armed.filter (· ≠ runner) = scheduler.armed := by
    apply List.filter_eq_self.mpr
    intro task armed
    have waits : task ∈ scheduler.waiting := mem_waiting.mpr (.inr (.inl armed))
    simpa using orderly.sound.ne_running running waits
  have deleted : scheduler.deleteTask runner.tag = { scheduler with
      taskMap := Function.update scheduler.taskMap runner.tag none } := by
    simp only [deleteTask, mapped, unarmed]
  rw [deleted] at sound ⊢
  constructor
  · refine ⟨sound, ?_⟩
    intro task member
    have waits : task ∈ scheduler.waiting := by
      simpa [Scheduler.alive, waiting] using member
    have found := orderly.mapped task (mem_alive.mpr (.inl waits))
    have other : task.tag ≠ runner.tag := by
      intro same
      rw [same, mapped] at found
      exact orderly.sound.ne_running running waits (Option.some.inj found).symm
    exact (Function.update_of_ne other _ _).trans found
  · simp [unreturned, inCallback, waiting, running]

theorem Orderly.proceeds (orderly : scheduler.Orderly)
    {label : SchedulerStep} (proceeds : label.Proceeds)
    (taken : scheduler.step label = some target) :
    target.Orderly ∧ target.unreturned.Perm scheduler.unreturned := by
  have sound := step_sound orderly.sound taken
  cases label with
  | evtimerAdd task =>
      obtain ⟨-, moved, rfl⟩ := evtimerAdd_cases taken
      exact orderly.move sound moved rfl rfl
  | release task =>
      simp only [step] at taken
      split_ifs at taken
      obtain rfl := Option.some.inj taken
      by_cases held : scheduler.taskMap task.tag = some task
      · simp only [release, if_pos held] at sound ⊢
        exact orderly.move sound (List.Perm.refl _) rfl rfl
      · have unarmed : scheduler.armed.filter (· ≠ task) =
            scheduler.armed := by
          apply List.filter_eq_self.mpr
          intro other armed
          have found := orderly.mapped other
            (mem_alive.mpr (.inl (mem_waiting.mpr (.inr (.inl armed)))))
          have different : other ≠ task := by
            rintro rfl
            exact held found
          simpa using different
        simp only [release, if_neg held, unarmed] at sound ⊢
        exact orderly.move sound (List.Perm.refl _) rfl rfl
  | fire task =>
      obtain ⟨-, moved, rfl⟩ := fire_cases taken
      exact orderly.move sound moved rfl rfl
  | execute task =>
      obtain ⟨-, moved, rfl⟩ := execute_cases taken
      exact orderly.move sound moved rfl rfl
  | run => exact orderly.run taken
  | deregisterSelf => exact orderly.deregisterSelf taken
  | scheduleOneTimeTask tag => exact proceeds.elim
  | callbackReturns => exact proceeds.elim
  | deleteTask tag => exact proceeds.elim
  | deleteMatching matcher => exact proceeds.elim

theorem Orderly.callbackReturns (orderly : scheduler.Orderly)
    (taken : scheduler.step .callbackReturns = some target) :
    target.Orderly ∧ ∃ task, scheduler.inCallback = some task ∧
      scheduler.unreturned.Perm (task :: target.unreturned) := by
  have sound := callbackReturns_sound orderly.sound taken
  obtain ⟨task, running, rfl⟩ := callbackReturns_cases taken
  constructor
  · apply orderly.of_alive sound _ rfl
    intro other
    simp [alive, waiting, running]
  · refine ⟨task, by simp [inCallback, running], ?_⟩
    simp only [unreturned, inCallback, running, Option.toList_some,
      Option.toList_none, List.append_nil]
    exact List.perm_append_singleton _ _

end Steps

end Scheduler

end ChronoShare
