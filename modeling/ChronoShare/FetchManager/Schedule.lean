import ChronoShare.FetchManager.Retries
import ChronoShare.Scheduler.Rescheduling

/-!
# Starting fetches

The manager goes through its list, starts the fetchers that are due while
there is room for another one, and has itself called again when the next of
the delayed ones is due.
-/

namespace ChronoShare

namespace ListedFetcher

variable {Name : Type}

def isActive (listed : ListedFetcher Name) : Bool :=
  listed.fetching.fetcher.active

def isTimedWait (listed : ListedFetcher Name) : Bool :=
  listed.fetching.fetcher.timedwait

def restartPipeline (listed : ListedFetcher Name) (now : Int) :
    ListedFetcher Name :=
  { listed with
    fetching := { listed.fetching with
      fetcher := listed.fetching.fetcher.restartPipeline now
      jobs := listed.fetching.jobs ++ [.fillPipeline] } }

/-- Waiting for its next attempt, which is not due before its time. -/
def Delayed (listed : ListedFetcher Name) (now : Int) : Prop :=
  listed.isActive = false ∧ listed.isTimedWait = false ∧
    now < listed.nextScheduledRetry

/-- Waiting for its next attempt, which is due. -/
def Eligible (listed : ListedFetcher Name) (now : Int) : Prop :=
  listed.isActive = false ∧ listed.isTimedWait = false ∧
    listed.nextScheduledRetry ≤ now

instance (listed : ListedFetcher Name) (now : Int) :
    Decidable (listed.Eligible now) :=
  inferInstanceAs (Decidable (_ ∧ _ ∧ _))

theorem waits_of_not_eligible {listed : ListedFetcher Name} {now : Int}
    (unable : ¬ listed.Eligible now) :
    listed.isActive = true ∨ listed.isTimedWait = true ∨
      now < listed.nextScheduledRetry := by
  by_cases active : listed.isActive = true
  · exact .inl active
  · by_cases timedwait : listed.isTimedWait = true
    · exact .inr (.inl timedwait)
    · have due : ¬ listed.nextScheduledRetry ≤ now := fun due =>
        unable ⟨eq_false_of_ne_true active, eq_false_of_ne_true timedwait, due⟩
      exact .inr (.inr (not_le.mp due))

theorem not_eligible_restartPipeline (listed : ListedFetcher Name)
    (now : Int) : ¬ (listed.restartPipeline now).Eligible now := by
  rintro ⟨inactive, -, -⟩
  cases inactive

theorem not_delayed_restartPipeline (listed : ListedFetcher Name)
    (now : Int) : ¬ (listed.restartPipeline now).Delayed now := by
  rintro ⟨inactive, -, -⟩
  cases inactive

end ListedFetcher

/-- An item after its round of the loop, with the two variables the loop
changes. -/
structure Scheduled (Item : Type) where
  item : Item
  currentParallelFetches : UInt32
  nextScheduleCheck : Int

section Loop

variable {Name : Type} (maxParallelFetches : UInt32) (now : Int)

/-- The body of the loop of `ScheduleFetches`. -/
def scheduleItem (item : ListedFetcher Name) (current : UInt32)
    (nextCheck : Int) : Scheduled (ListedFetcher Name) :=
  if item.isActive then
    ⟨item, current, nextCheck⟩
  else if item.isTimedWait then
    ⟨item, current, nextCheck⟩
  else if now < item.nextScheduledRetry then
    if item.nextScheduledRetry < nextCheck then
      ⟨item, current, item.nextScheduledRetry⟩
    else
      ⟨item, current, nextCheck⟩
  else
    ⟨item.restartPipeline now, current + 1, nextCheck⟩

def scheduleLoop : List (ListedFetcher Name) → UInt32 → Int →
    Scheduled (List (ListedFetcher Name))
  | [], current, nextCheck => ⟨[], current, nextCheck⟩
  | item :: items, current, nextCheck =>
      if current < maxParallelFetches then
        let round := scheduleItem now item current nextCheck
        let rest := scheduleLoop items round.currentParallelFetches
          round.nextScheduleCheck
        { rest with item := round.item :: rest.item }
      else
        ⟨item :: items, current, nextCheck⟩

variable {maxParallelFetches now} {item : ListedFetcher Name}
  {items : List (ListedFetcher Name)} {current : UInt32} {nextCheck : Int}

theorem scheduleItem_of_eligible (eligible : item.Eligible now) :
    scheduleItem now item current nextCheck =
      ⟨item.restartPipeline now, current + 1, nextCheck⟩ := by
  obtain ⟨inactive, unwaiting, due⟩ := eligible
  rw [scheduleItem, inactive, unwaiting, if_neg Bool.false_ne_true,
    if_neg Bool.false_ne_true, if_neg (not_lt.mpr due)]

theorem scheduleItem_of_delayed (delayed : item.Delayed now) :
    scheduleItem now item current nextCheck =
      ⟨item, current, min item.nextScheduledRetry nextCheck⟩ := by
  obtain ⟨inactive, unwaiting, later⟩ := delayed
  rw [scheduleItem, inactive, unwaiting, if_neg Bool.false_ne_true,
    if_neg Bool.false_ne_true, if_pos later]
  split_ifs with earlier
  · rw [min_eq_left earlier.le]
  · rw [min_eq_right (not_lt.mp earlier)]

theorem scheduleItem_of_not_eligible (unable : ¬ item.Eligible now) :
    (scheduleItem now item current nextCheck).item = item ∧
      (scheduleItem now item current nextCheck).currentParallelFetches =
        current := by
  rw [scheduleItem]
  split_ifs with active timedwait later
  · exact ⟨rfl, rfl⟩
  · exact ⟨rfl, rfl⟩
  · exact ⟨rfl, rfl⟩
  · exact ⟨rfl, rfl⟩
  · exact absurd ⟨eq_false_of_ne_true active, eq_false_of_ne_true timedwait,
      not_lt.mp later⟩ unable

theorem scheduleItem_nextScheduleCheck_le :
    (scheduleItem now item current nextCheck).nextScheduleCheck ≤
      nextCheck := by
  rw [scheduleItem]
  split_ifs with active timedwait later earlier
  · exact le_refl _
  · exact le_refl _
  · exact earlier.le
  · exact le_refl _
  · exact le_refl _

theorem scheduleItem_not_eligible :
    ¬ (scheduleItem now item current nextCheck).item.Eligible now := by
  by_cases eligible : item.Eligible now
  · rw [scheduleItem_of_eligible eligible]
    exact item.not_eligible_restartPipeline now
  · rw [(scheduleItem_of_not_eligible eligible).1]
    exact eligible

theorem scheduleItem_delayed
    (delayed : (scheduleItem now item current nextCheck).item.Delayed now) :
    (scheduleItem now item current nextCheck).nextScheduleCheck ≤
      (scheduleItem now item current nextCheck).item.nextScheduledRetry := by
  by_cases eligible : item.Eligible now
  · rw [scheduleItem_of_eligible eligible] at delayed
    exact absurd delayed (item.not_delayed_restartPipeline now)
  · rw [(scheduleItem_of_not_eligible eligible).1] at delayed ⊢
    rw [scheduleItem_of_delayed delayed]
    exact min_le_left _ _

theorem scheduleLoop_of_room (room : current < maxParallelFetches) :
    scheduleLoop maxParallelFetches now (item :: items) current nextCheck =
      let round := scheduleItem now item current nextCheck
      let rest := scheduleLoop maxParallelFetches now items
        round.currentParallelFetches round.nextScheduleCheck
      { rest with item := round.item :: rest.item } :=
  if_pos room

theorem scheduleLoop_of_full (full : ¬ current < maxParallelFetches) :
    scheduleLoop maxParallelFetches now items current nextCheck =
      ⟨items, current, nextCheck⟩ := by
  cases items with
  | nil => rfl
  | cons item items => exact if_neg full

theorem scheduleLoop_nextScheduleCheck_le :
    (scheduleLoop maxParallelFetches now items current
      nextCheck).nextScheduleCheck ≤ nextCheck := by
  induction items generalizing current nextCheck with
  | nil => exact le_refl _
  | cons item items induction =>
      by_cases room : current < maxParallelFetches
      · rw [scheduleLoop_of_room room]
        exact induction.trans scheduleItem_nextScheduleCheck_le
      · rw [scheduleLoop_of_full room]

/-- A loop that ends with room has gone through the whole list: it leaves no
fetcher that is due, and the next check is not after a delayed one. -/
theorem scheduleLoop_complete
    (room : (scheduleLoop maxParallelFetches now items current
      nextCheck).currentParallelFetches < maxParallelFetches) :
    ∀ listed ∈ (scheduleLoop maxParallelFetches now items current
      nextCheck).item,
      ¬ listed.Eligible now ∧ (listed.Delayed now →
        (scheduleLoop maxParallelFetches now items current
          nextCheck).nextScheduleCheck ≤ listed.nextScheduledRetry) := by
  induction items generalizing current nextCheck with
  | nil => simp [scheduleLoop]
  | cons item items induction =>
      by_cases before : current < maxParallelFetches
      · rw [scheduleLoop_of_room before] at room ⊢
        intro listed member
        rcases List.mem_cons.mp member with rfl | later
        · refine ⟨scheduleItem_not_eligible, fun delayed => ?_⟩
          exact scheduleLoop_nextScheduleCheck_le.trans
            (scheduleItem_delayed delayed)
        · exact induction room listed later
      · rw [scheduleLoop_of_full before] at room
        exact absurd room before

def eligible (now : Int) (items : List (ListedFetcher Name)) : Nat :=
  items.countP (·.Eligible now)

theorem eligible_cons_of_due (due : item.Eligible now) :
    eligible now (item :: items) = eligible now items + 1 := by
  simp [eligible, due]

theorem eligible_cons_of_not_due (due : ¬ item.Eligible now) :
    eligible now (item :: items) = eligible now items := by
  simp [eligible, due]

theorem scheduleLoop_currentParallelFetches :
    (scheduleLoop maxParallelFetches now items current
        nextCheck).currentParallelFetches.toNat =
      current.toNat + min (eligible now items)
        (maxParallelFetches.toNat - current.toNat) := by
  induction items generalizing current nextCheck with
  | nil => simp [scheduleLoop, eligible]
  | cons item items induction =>
      by_cases room : current < maxParallelFetches
      · have below := UInt32.lt_iff_toNat_lt.mp room
        rw [scheduleLoop_of_room room]
        simp only [induction]
        by_cases due : item.Eligible now
        · rw [scheduleItem_of_eligible due]
          rw [eligible_cons_of_due due, uint32_toNat_succ room]
          omega
        · rw [(scheduleItem_of_not_eligible due).2,
            eligible_cons_of_not_due due]
      · have full := mt UInt32.lt_iff_toNat_lt.mpr room
        have none : maxParallelFetches.toNat - current.toNat = 0 := by omega
        rw [scheduleLoop_of_full room, none, Nat.min_zero]
        rfl

/-- The loop starts the fetchers that are due in the order of the list, until
there is no room, and leaves all others alone. -/
theorem getElem?_scheduleLoop (position : Nat) :
    (scheduleLoop maxParallelFetches now items current
        nextCheck).item[position]? =
      items[position]?.map fun listed =>
        if listed.Eligible now ∧ eligible now (items.take position) <
            maxParallelFetches.toNat - current.toNat then
          listed.restartPipeline now
        else
          listed := by
  induction items generalizing current nextCheck position with
  | nil => simp [scheduleLoop]
  | cons item items induction =>
      by_cases room : current < maxParallelFetches
      · have below := UInt32.lt_iff_toNat_lt.mp room
        rw [scheduleLoop_of_room room]
        cases position with
        | zero =>
            by_cases due : item.Eligible now
            · have free := Nat.sub_pos_of_lt below
              simp [scheduleItem_of_eligible due, due, eligible, free]
            · simp [scheduleItem_of_not_eligible due, due]
        | succ position =>
            by_cases due : item.Eligible now
            · have shifted : ∀ before : Nat,
                  before < maxParallelFetches.toNat - (current + 1).toNat ↔
                    before + 1 < maxParallelFetches.toNat - current.toNat := by
                intro before
                rw [uint32_toNat_succ room]
                omega
              simp only [List.getElem?_cons_succ, induction, shifted,
                List.take_succ_cons, scheduleItem_of_eligible due,
                eligible_cons_of_due due]
            · simp only [List.getElem?_cons_succ, induction,
                List.take_succ_cons, scheduleItem_of_not_eligible due,
                eligible_cons_of_not_due due]
      · have full := mt UInt32.lt_iff_toNat_lt.mpr room
        have none : maxParallelFetches.toNat - current.toNat = 0 := by omega
        rw [scheduleLoop_of_full room, none]
        simp

end Loop

/-- A manager with its list of fetchers; its own task stays in the map of its
scheduler, as only the manager itself is given that scheduler. -/
structure ParallelFetches (Name : Type) where
  fetchList : List (ListedFetcher Name)
  currentParallelFetches : UInt32
  maxParallelFetches : UInt32
  scheduler : TaskScheduler
  scheduleFetchesTask : Task
  mapped : scheduler.taskMap scheduleFetchesTask.tag =
    some scheduleFetchesTask

namespace TaskScheduler

variable {scheduler : TaskScheduler} {task : Task}

theorem addTask_mapped (absent : scheduler.taskMap task.tag = none)
    (reset : Bool) (interval : Nat) :
    (scheduler.addTask task reset interval).taskMap task.tag = some task := by
  rw [(enters_addTask absent reset interval).taskMap]
  exact Function.update_self _ _ _

theorem rescheduleTaskAt_of_mapped
    (mapped : scheduler.taskMap task.tag = some task) (time interval : Nat) :
    Rearms scheduler task (scheduler.rescheduleTaskAt task time interval) ∧
      (scheduler.rescheduleTaskAt task time interval).armed task =
        some time := by
  simp only [rescheduleTaskAt, mapped]
  refine ⟨rearms_setTv task time interval, ?_⟩
  simp [evtimerAdd, setTv]

end TaskScheduler

namespace ParallelFetches

variable {Name : Type} (manager : ParallelFetches Name) (now : Int)

def microseconds (seconds : Int) : Nat :=
  seconds.toNat * 1000000

/-- The tag `ScheduleFetches`. -/
def SCHEDULE_FETCHES_TAG : Bytes :=
  [0x53, 0x63, 0x68, 0x65, 0x64, 0x75, 0x6C, 0x65,
    0x46, 0x65, 0x74, 0x63, 0x68, 0x65, 0x73]

/-- The constructor schedules the task on a scheduler of its own. -/
def construct (parallelFetches : UInt32) : ParallelFetches Name where
  fetchList := []
  currentParallelFetches := 0
  maxParallelFetches := parallelFetches
  scheduler := (TaskScheduler.initial fun _ => 0).addTask
    ⟨0, SCHEDULE_FETCHES_TAG, .periodic⟩ true (microseconds 300)
  scheduleFetchesTask := ⟨0, SCHEDULE_FETCHES_TAG, .periodic⟩
  mapped := TaskScheduler.addTask_mapped rfl true _

/-- How many fetches there is still room for. -/
def room : Nat :=
  manager.maxParallelFetches.toNat - manager.currentParallelFetches.toNat

def scan : Scheduled (List (ListedFetcher Name)) :=
  scheduleLoop manager.maxParallelFetches now manager.fetchList
    manager.currentParallelFetches (now + 300)

/-- The time until the next check. -/
def delay : Nat :=
  microseconds ((manager.scan now).nextScheduleCheck - now)

/-- The interval of the periodic task is five minutes. -/
def scheduleFetches : ParallelFetches Name where
  fetchList := (manager.scan now).item
  currentParallelFetches := (manager.scan now).currentParallelFetches
  maxParallelFetches := manager.maxParallelFetches
  scheduler := manager.scheduler.rescheduleTaskAt manager.scheduleFetchesTask
    (manager.delay now) (microseconds 300)
  scheduleFetchesTask := manager.scheduleFetchesTask
  mapped := by
    have rearmed := (TaskScheduler.rescheduleTaskAt_of_mapped manager.mapped
      (manager.delay now) (microseconds 300)).1
    rw [rearmed.taskMap]
    exact manager.mapped

theorem microseconds_mono {earlier later : Int} (order : earlier ≤ later) :
    microseconds earlier ≤ microseconds later :=
  Nat.mul_le_mul_right _ (Int.toNat_le_toNat order)

theorem scheduleFetches_armed :
    (manager.scheduleFetches now).scheduler.armed
      manager.scheduleFetchesTask = some (manager.delay now) :=
  (TaskScheduler.rescheduleTaskAt_of_mapped manager.mapped _ _).2

/-- The run of the periodic task that made the call leaves the check as it was
scheduled. -/
theorem scheduleFetches_callbackReturns (interval : Nat)
    (periodic : manager.scheduleFetchesTask.taskClass = .periodic) :
    (manager.scheduleFetches now).scheduler.callbackReturns
        manager.scheduleFetchesTask interval =
      (manager.scheduleFetches now).scheduler := by
  have rearmed := (TaskScheduler.rescheduleTaskAt_of_mapped manager.mapped
    (manager.delay now) (microseconds 300)).1
  have unmarked : (manager.scheduleFetches now).scheduler.invoked
      manager.scheduleFetchesTask = false := by
    rw [scheduleFetches, rearmed.invoked, Function.update_self]
  rw [TaskScheduler.callbackReturns, periodic, unmarked]
  rfl

theorem delay_le : manager.delay now ≤ microseconds 300 := by
  apply microseconds_mono
  have checked : (manager.scan now).nextScheduleCheck ≤ now + 300 :=
    scheduleLoop_nextScheduleCheck_le
  omega

/-- Whatever is in the list and whatever the time: if there is room left, every
fetcher is active, in timed wait or delayed, and the next check is not after a
delayed one; it is within five minutes in any case; and the fetchers that were
started are the first of those that were due. -/
theorem scheduleFetches_schedules :
    ((manager.scheduleFetches now).currentParallelFetches <
        manager.maxParallelFetches →
      ∀ listed ∈ (manager.scheduleFetches now).fetchList,
        (listed.isActive = true ∨ listed.isTimedWait = true ∨
          now < listed.nextScheduledRetry) ∧
        (listed.Delayed now →
          manager.delay now ≤ microseconds (listed.nextScheduledRetry - now))) ∧
    (manager.scheduleFetches now).scheduler.armed
        manager.scheduleFetchesTask = some (manager.delay now) ∧
      manager.delay now ≤ microseconds 300 ∧
    (manager.scheduleFetches now).currentParallelFetches.toNat =
        manager.currentParallelFetches.toNat +
          min (eligible now manager.fetchList) manager.room ∧
    ∀ position, (manager.scheduleFetches now).fetchList[position]? =
      manager.fetchList[position]?.map fun listed =>
        if listed.Eligible now ∧
            eligible now (manager.fetchList.take position) < manager.room then
          listed.restartPipeline now
        else
          listed := by
  refine ⟨?_, manager.scheduleFetches_armed now, manager.delay_le now,
    scheduleLoop_currentParallelFetches, getElem?_scheduleLoop⟩
  intro free listed member
  obtain ⟨unable, checked⟩ := scheduleLoop_complete free listed member
  refine ⟨listed.waits_of_not_eligible unable, fun delayed => ?_⟩
  apply microseconds_mono
  have before : (manager.scan now).nextScheduleCheck ≤
      listed.nextScheduledRetry := checked delayed
  omega

end ParallelFetches

end ChronoShare
