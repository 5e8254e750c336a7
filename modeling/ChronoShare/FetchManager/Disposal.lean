import ChronoShare.FetchManager.Threads
import ChronoShare.Ndn.NameText

/-!
# The removal of completed fetchers

A fetch that has completed is followed by a job, the job by a task, and the
task by the removal of the fetcher.  The end of a fetch is passed on along this
way without being doubled or lost, provided that the fetch completes once and
that the tag of the task, which is the base name, is free.
-/

namespace ChronoShare

/-- The fetcher whose completion is in a job that goes on. -/
def ExecutorPoint.completes {Name : Type} : ExecutorPoint Name → Option Nat
  | .finishCallback id => some id
  | .timedWait id _ => some id
  | _ => none

/-- The base name of the fetcher whose removal is scheduled next. -/
def ExecutorPoint.removal {Name : Type} : ExecutorPoint Name → Option Name
  | .timedWait _ baseName => some baseName
  | _ => none

namespace ListedFetcher

variable {Name : Type}

/-- Data completes a fetch only if it has not completed before. -/
def CompletesOnce (listed : ListedFetcher Name) : Job Name → Prop
  | .onDataExecute expressed _ =>
      listed.fetching.fetcher.Completes expressed.seqno →
        listed.isTimedWait = false
  | _ => True

instance (listed : ListedFetcher Name) (job : Job Name) :
    Decidable (listed.CompletesOnce job) :=
  match job with
  | .onDataExecute _ _ => inferInstanceAs (Decidable (_ → _))
  | .fillPipeline => .isTrue trivial
  | .onTimeoutExecute _ => .isTrue trivial
  | .onFetchComplete => .isTrue trivial

end ListedFetcher

namespace FetchThreads

variable {Name : Type}

/-- The removal of the fetcher is scheduled and has not run. -/
def removals (threads : FetchThreads Name) (id : Nat) : Nat :=
  threads.scheduler.unreturned.countP fun task =>
    threads.bound task.id = some id

/-- Every fetcher of the list in its final wait has a job or a task that will
remove it, and so is gone when nothing is left to do; no fetcher is removed
twice. -/
structure Disposes (threads : FetchThreads Name) : Prop where
  pending : ∀ id ∈ threads.fetchList, threads.isTimedWait id = true →
    0 < threads.completions id ∨
      (∃ baseName, threads.point = some (.timedWait id baseName)) ∨
        0 < threads.removals id
  once : threads.disposed.Nodup
  leaves : (∀ id, threads.completions id = 0) → threads.point = none →
    threads.scheduler.Quiet → ∀ id ∈ threads.fetchList,
      threads.isTimedWait id = false

def CompletesOnce (threads : FetchThreads Name) : ThreadStep Name → Prop
  | .execute _ => ∀ next ∈ threads.nextJob, next.2.1.CompletesOnce next.2.2.1
  | _ => True

instance (threads : FetchThreads Name) (label : ThreadStep Name) :
    Decidable (threads.CompletesOnce label) :=
  match label with
  | .execute _ => inferInstanceAs (Decidable (∀ next ∈ threads.nextJob, _))
  | .enqueue _ _ _ _ _ _ _ | .scheduleFetches _ | .scan _ | .onData _ _ _
  | .onTimeout _ _ | .proceed _ _ | .scheduler _ | .timedWait =>
      .isTrue trivial

/-- No task has the tag of the removal that is to be scheduled. -/
def FindsTagFree (baseTag : Name → Bytes) (threads : FetchThreads Name) :
    ThreadStep Name → Prop
  | .proceed _ _ => ∀ point ∈ threads.point, ∀ baseName ∈ point.removal,
      threads.scheduler.taskMap (baseTag baseName) = none
  | _ => True

instance (baseTag : Name → Bytes) (threads : FetchThreads Name)
    (label : ThreadStep Name) :
    Decidable (threads.FindsTagFree baseTag label) :=
  match label with
  | .proceed _ _ => inferInstanceAs (Decidable (∀ point ∈ threads.point,
      ∀ baseName ∈ point.removal, threads.scheduler.taskMap _ = none))
  | .enqueue _ _ _ _ _ _ _ | .scheduleFetches _ | .scan _ | .onData _ _ _
  | .onTimeout _ _ | .execute _ | .scheduler _ | .timedWait =>
      .isTrue trivial

/-- What keeps the end of a fetch on its way. -/
def KeepsRemovals (baseTag : Name → Bytes) (threads : FetchThreads Name)
    (label : ThreadStep Name) : Prop :=
  threads.CompletesOnce label ∧ threads.FindsTagFree baseTag label

instance (baseTag : Name → Bytes) (threads : FetchThreads Name)
    (label : ThreadStep Name) :
    Decidable (threads.KeepsRemovals baseTag label) :=
  inferInstanceAs (Decidable (_ ∧ _))

/-- The end of a fetch in a job that goes on. -/
def completing (threads : FetchThreads Name) (id : Nat) : Nat :=
  if threads.point.bind ExecutorPoint.completes = some id then 1 else 0

/-- The ends of the fetches of a fetcher, wherever they are on their way. -/
def ends (threads : FetchThreads Name) (id : Nat) : Nat :=
  threads.completions id + threads.completing id + threads.removals id +
    threads.disposed.count id

/-- The fetch has completed, though the flag may not be set yet. -/
def Completed (threads : FetchThreads Name) (id : Nat) : Prop :=
  threads.isTimedWait id = true ∨ threads.point = some (.finishCallback id)

/-- A fetch that has completed has its end in one place, and a fetcher that has
been removed is not in the list. -/
structure PassedOn (threads : FetchThreads Name) : Prop where
  orderly : threads.scheduler.Orderly
  completed : ∀ id, threads.Completed id → threads.ends id = 1
  uncompleted : ∀ id, ¬ threads.Completed id → threads.ends id = 0
  calling : ∀ id, threads.point = some (.finishCallback id) →
    id < threads.fetchers.length ∧ threads.isTimedWait id = false
  listed : threads.fetchList.Nodup
  removed : ∀ id ∈ threads.disposed, id ∉ threads.fetchList
  made : ∀ id ∈ threads.fetchList, id < threads.fetchers.length

variable {source target threads : FetchThreads Name}

/-- The end of a fetch in its final wait is in a job or a task, as long as the
fetcher is in the list. -/
theorem PassedOn.pending (passedOn : threads.PassedOn) {id : Nat}
    (member : id ∈ threads.fetchList)
    (timedwait : threads.isTimedWait id = true) :
    0 < threads.completions id ∨
      (∃ baseName, threads.point = some (.timedWait id baseName)) ∨
        0 < threads.removals id := by
  have total := passedOn.completed id (.inl timedwait)
  have kept : threads.disposed.count id = 0 :=
    List.count_eq_zero.mpr fun gone => passedOn.removed id gone member
  rw [ends, kept, completing] at total
  split_ifs at total with here
  · obtain ⟨point, goesOn, ending⟩ := Option.bind_eq_some_iff.mp here
    cases point with
    | finishCallback other =>
        obtain rfl := Option.some.inj ending
        have unwaiting := (passedOn.calling other goesOn).2
        rw [timedwait] at unwaiting
        cases unwaiting
    | onFetchFailed other => cases ending
    | nextRetry other => cases ending
    | timedWait other baseName =>
        obtain rfl := Option.some.inj ending
        exact .inr (.inl ⟨baseName, goesOn⟩)
  · by_cases queued : 0 < threads.completions id
    · exact .inl queued
    · exact .inr (.inr (by omega))

theorem PassedOn.disposes (passedOn : threads.PassedOn) :
    threads.Disposes := by
  refine ⟨fun id => passedOn.pending, ?_, ?_⟩
  · apply List.nodup_iff_count_le_one.mpr
    intro id
    have total : threads.ends id ≤ 1 := by
      by_cases completed : threads.Completed id
      · exact (passedOn.completed id completed).le
      · rw [passedOn.uncompleted id completed]
        exact Nat.zero_le 1
    exact (Nat.le_add_left _ _).trans total
  · intro noJob noPoint quiet id member
    by_contra timedwait
    rcases passedOn.pending member (eq_true_of_ne_false timedwait) with
      queued | ⟨baseName, here⟩ | scheduled
    · rw [noJob] at queued
      exact absurd queued (lt_irrefl 0)
    · rw [noPoint] at here
      cases here
    · obtain ⟨task, waits, -⟩ := List.countP_pos_iff.mp scheduled
      have alive := Scheduler.mem_alive_of_unreturned waits
      rw [quiet] at alive
      cases alive

theorem construct_passedOn (parallelFetches : UInt32) :
    (construct parallelFetches : FetchThreads Name).PassedOn := by
  refine ⟨Scheduler.orderly_initial, ?_, fun id _ => rfl, nofun,
    List.nodup_nil, nofun, nofun⟩
  rintro id (timedwait | calling)
  · cases timedwait
  · cases calling

theorem PassedOn.of_same (passedOn : source.PassedOn)
    (orderly : target.scheduler.Orderly)
    (ends : ∀ id, target.ends id = source.ends id)
    (completed : ∀ id, target.Completed id ↔ source.Completed id)
    (calling : ∀ id, target.point = some (.finishCallback id) →
      source.point = some (.finishCallback id) ∧
        target.isTimedWait id = source.isTimedWait id)
    (length : target.fetchers.length = source.fetchers.length)
    (fetchList : target.fetchList = source.fetchList)
    (disposed : target.disposed = source.disposed) : target.PassedOn := by
  refine ⟨orderly, ?_, ?_, ?_, ?_, ?_, ?_⟩
  · intro id here
    rw [ends]
    exact passedOn.completed id ((completed id).mp here)
  · intro id here
    rw [ends]
    exact passedOn.uncompleted id (mt (completed id).mpr here)
  · intro id here
    obtain ⟨before, same⟩ := calling id here
    rw [length, same]
    exact passedOn.calling id before
  · rw [fetchList]
    exact passedOn.listed
  · rw [fetchList, disposed]
    exact passedOn.removed
  · rw [fetchList, length]
    exact passedOn.made

section Act

variable {id : Nat} {listed changed : ListedFetcher Name} (order : List Nat)
  {point : Option (ExecutorPoint Name)}

theorem ends_act_self (found : source.fetchers[id]? = some listed) :
    (source.act id changed order point).ends id =
      changed.fetching.completions +
        (if point.bind ExecutorPoint.completes = some id then 1 else 0) +
        source.removals id + source.disposed.count id := by
  have completions := completions_act found changed order point id
  rw [if_pos rfl] at completions
  rw [ends, completions]
  rfl

theorem ends_act_of_ne (found : source.fetchers[id]? = some listed)
    {other : Nat} (different : other ≠ id)
    (same : point.bind ExecutorPoint.completes = some other ↔
      source.point.bind ExecutorPoint.completes = some other) :
    (source.act id changed order point).ends other = source.ends other := by
  have completions := completions_act found changed order point other
  have completing : (source.act id changed order point).completing other =
      source.completing other := if_congr same rfl rfl
  rw [if_neg different] at completions
  rw [ends, ends, completions, completing]
  rfl

theorem ends_found (found : source.fetchers[id]? = some listed) :
    source.ends id = listed.fetching.completions + source.completing id +
      source.removals id + source.disposed.count id := by
  have here : source.completions id = listed.fetching.completions :=
    view_of_found found
  rw [ends, here]

theorem length_act : (source.act id changed order point).fetchers.length =
    source.fetchers.length :=
  List.length_set

theorem PassedOn.act (passedOn : source.PassedOn)
    (found : source.fetchers[id]? = some listed)
    (timedwait : changed.isTimedWait = listed.isTimedWait)
    (here : changed.fetching.completions +
        (if point.bind ExecutorPoint.completes = some id then 1 else 0) =
      listed.fetching.completions + source.completing id)
    (others : ∀ other, other ≠ id →
      (point.bind ExecutorPoint.completes = some other ↔
        source.point.bind ExecutorPoint.completes = some other))
    (calling : ∀ other, point = some (.finishCallback other) ↔
      source.point = some (.finishCallback other)) :
    (source.act id changed order point).PassedOn := by
  have flags : ∀ other, (source.act id changed order point).isTimedWait other =
      source.isTimedWait other := by
    intro other
    rw [isTimedWait_act found]
    split_ifs with same
    · rw [same, timedwait]
      exact (view_of_found found).symm
    · rfl
  refine passedOn.of_same passedOn.orderly ?_ ?_ ?_ (length_act order) rfl rfl
  · intro other
    by_cases same : other = id
    · rw [same, ends_act_self order found, here, ends_found found]
    · exact ends_act_of_ne order found same (others other same)
  · intro other
    rw [Completed, Completed, flags]
    exact or_congr Iff.rfl (calling other)
  · exact fun other here => ⟨(calling other).mp here, flags other⟩

end Act

section Steps

variable {id : Nat} {listed changed : ListedFetcher Name} (order : List Nat)

theorem PassedOn.of_eq (passedOn : source.PassedOn)
    (fetchers : target.fetchers = source.fetchers)
    (fetchList : target.fetchList = source.fetchList)
    (point : target.point = source.point)
    (scheduler : target.scheduler = source.scheduler)
    (bound : target.bound = source.bound)
    (disposed : target.disposed = source.disposed) : target.PassedOn := by
  have completions : ∀ other,
      target.completions other = source.completions other := by
    intro other
    rw [FetchThreads.completions, FetchThreads.completions, view, view,
      fetchers]
  have timedwait : ∀ other,
      target.isTimedWait other = source.isTimedWait other := by
    intro other
    rw [isTimedWait, isTimedWait, view, view, fetchers]
  refine passedOn.of_same ?_ ?_ ?_ ?_ ?_ fetchList disposed
  · rw [scheduler]
    exact passedOn.orderly
  · intro other
    rw [ends, ends, completions, completing, completing, removals, removals,
      point, scheduler, bound, disposed]
  · intro other
    rw [Completed, Completed, timedwait, point]
  · intro other here
    rw [point] at here
    exact ⟨here, timedwait other⟩
  · rw [fetchers]

theorem PassedOn.removed_lt (passedOn : source.PassedOn)
    (gone : id ∈ source.disposed) : id < source.fetchers.length := by
  have counted := List.count_pos_iff.mpr gone
  have completed : source.Completed id := by
    by_contra uncompleted
    have none := passedOn.uncompleted id uncompleted
    rw [ends] at none
    omega
  rcases completed with timedwait | calling
  · by_contra beyond
    rw [isTimedWait, view, List.getElem?_eq_none (not_lt.mp beyond)]
      at timedwait
    cases timedwait
  · exact (passedOn.calling id calling).1

theorem fetchList_addFetcher (priority : Int) :
    (source.addFetcher listed priority).fetchList.Perm
      (source.fetchers.length :: source.fetchList) := by
  rw [FetchThreads.addFetcher]
  split_ifs
  · exact List.Perm.refl _
  · exact List.perm_append_singleton _ _

theorem PassedOn.addFetcher (passedOn : source.PassedOn) (fresh : Fresh listed)
    (priority : Int) : (source.addFetcher listed priority).PassedOn := by
  have longer : (source.addFetcher listed priority).fetchers.length =
      source.fetchers.length + 1 := by
    rw [FetchThreads.addFetcher, List.length_append, List.length_singleton]
  have same : ∀ other, (source.addFetcher listed priority).ends other =
      source.ends other := by
    intro other
    rw [ends, ends, completions_addFetcher fresh]
    rfl
  have completed : ∀ other,
      (source.addFetcher listed priority).Completed other ↔
        source.Completed other := by
    intro other
    rw [Completed, Completed, isTimedWait_addFetcher fresh]
    rfl
  have grown : (source.addFetcher listed priority).fetchList.Perm
      (source.fetchers.length :: source.fetchList) :=
    fetchList_addFetcher priority
  refine ⟨passedOn.orderly, ?_, ?_, ?_, ?_, ?_, ?_⟩
  · intro other here
    rw [same]
    exact passedOn.completed other ((completed other).mp here)
  · intro other here
    rw [same]
    exact passedOn.uncompleted other (mt (completed other).mpr here)
  · intro other here
    obtain ⟨bound, unwaiting⟩ := passedOn.calling other here
    rw [longer, isTimedWait_addFetcher fresh]
    exact ⟨Nat.lt_succ_of_lt bound, unwaiting⟩
  · apply grown.nodup_iff.mpr
    refine List.nodup_cons.mpr ⟨fun member => ?_, passedOn.listed⟩
    exact lt_irrefl _ (passedOn.made _ member)
  · intro other gone member
    rcases List.mem_cons.mp (grown.mem_iff.mp member) with rfl | earlier
    · exact lt_irrefl _ (passedOn.removed_lt gone)
    · exact passedOn.removed other gone earlier
  · intro other member
    rw [longer]
    rcases List.mem_cons.mp (grown.mem_iff.mp member) with rfl | earlier
    · exact Nat.lt_succ_self _
    · exact Nat.lt_succ_of_lt (passedOn.made other earlier)

theorem PassedOn.work (passedOn : source.PassedOn)
    {point : Option (ExecutorPoint Name)} {careful : Prop}
    (found : source.fetchers[id]? = some listed)
    (works : Works listed changed careful)
    (goesOn : point = source.point ∨
      ∃ other, source.point = some (.nextRetry other) ∧ point = none) :
    (source.act id changed order point).PassedOn := by
  have same : point.bind ExecutorPoint.completes =
      source.point.bind ExecutorPoint.completes := by
    rcases goesOn with rfl | ⟨other, here, rfl⟩
    · rfl
    · rw [here]
      rfl
  apply passedOn.act order found works.timedwait
  · rw [works.completions, same]
    rfl
  · intro other _
    rw [same]
  · intro other
    rcases goesOn with rfl | ⟨_, here, rfl⟩
    · rfl
    · rw [here]
      simp

theorem PassedOn.restart (passedOn : source.PassedOn)
    (found : source.fetchers[id]? = some listed) (scan : Scan)
    (remaining : List Nat) (now : Int) :
    (source.restart scan id remaining listed now).PassedOn := by
  have completions : (listed.restartPipeline now).fetching.completions =
      listed.fetching.completions :=
    completions_append listed.fetching .fillPipeline
  have acted : (source.act id (listed.restartPipeline now) source.order
      source.point).PassedOn := by
    refine passedOn.act source.order found rfl ?_ ?_ ?_
    · rw [completions]
      rfl
    · exact fun _ _ => Iff.rfl
    · exact fun _ => Iff.rfl
  exact acted.of_eq rfl rfl rfl rfl rfl rfl

theorem PassedOn.finish (passedOn : source.PassedOn)
    (idle : source.point = none) (found : source.fetchers[id]? = some listed)
    (unwaiting : listed.isTimedWait = false)
    (timedwait : changed.isTimedWait = listed.isTimedWait)
    (completions : changed.fetching.completions =
      listed.fetching.completions) :
    (source.act id changed order (some (.finishCallback id))).PassedOn := by
  have before : source.isTimedWait id = false := by
    rw [← unwaiting]
    exact view_of_found found
  have uncompleted : ¬ source.Completed id := by
    rintro (waits | calling)
    · rw [before] at waits
      cases waits
    · rw [idle] at calling
      cases calling
  have none := passedOn.uncompleted id uncompleted
  have here : (source.act id changed order
      (some (.finishCallback id))).ends id = 1 := by
    rw [ends_found found, completing, idle] at none
    simp only [Option.bind_none, reduceCtorEq, if_false] at none
    rw [ends_act_self order found, completions]
    simp only [Option.bind_some, ExecutorPoint.completes, if_true]
    omega
  have flags : ∀ other, (source.act id changed order
      (some (.finishCallback id))).isTimedWait other =
        source.isTimedWait other := by
    intro other
    rw [isTimedWait_act found]
    split_ifs with same
    · rw [same, timedwait]
      exact (view_of_found found).symm
    · rfl
  have others : ∀ other, other ≠ id → (source.act id changed order
      (some (.finishCallback id))).ends other = source.ends other := by
    intro other different
    apply ends_act_of_ne order found different
    rw [idle]
    simp [ExecutorPoint.completes, Ne.symm different]
  refine ⟨passedOn.orderly, ?_, ?_, ?_, passedOn.listed, passedOn.removed, ?_⟩
  · intro other completed
    by_cases same : other = id
    · rw [same]
      exact here
    · rw [others other same]
      apply passedOn.completed
      rcases completed with waits | calling
      · rw [flags] at waits
        exact .inl waits
      · obtain rfl : id = other := by simpa [FetchThreads.act] using calling
        exact absurd rfl same
  · intro other uncompleted
    have different : other ≠ id := by
      rintro rfl
      exact uncompleted (.inr rfl)
    rw [others other different]
    apply passedOn.uncompleted
    rintro (waits | calling)
    · rw [← flags] at waits
      exact uncompleted (.inl waits)
    · rw [idle] at calling
      cases calling
  · intro other calling
    obtain rfl : id = other := by simpa [FetchThreads.act] using calling
    obtain ⟨bound, -⟩ := List.getElem?_eq_some_iff.mp found
    rw [length_act, flags]
    exact ⟨bound, before⟩
  · intro other member
    rw [length_act]
    exact passedOn.made other member

theorem PassedOn.giveUp (passedOn : source.PassedOn)
    (idle : source.point = none) (found : source.fetchers[id]? = some listed)
    (timedwait : changed.isTimedWait = listed.isTimedWait)
    (completions : changed.fetching.completions =
      listed.fetching.completions) :
    (source.act id changed order (some (.onFetchFailed id))).PassedOn := by
  apply passedOn.act order found timedwait
  · rw [completions, completing, idle]
    rfl
  · intro other _
    rw [idle]
    rfl
  · intro other
    rw [idle]
    simp

theorem PassedOn.complete (passedOn : source.PassedOn)
    (idle : source.point = none) (found : source.fetchers[id]? = some listed)
    (timedwait : changed.isTimedWait = listed.isTimedWait)
    (completions : listed.fetching.completions =
      changed.fetching.completions + 1) (baseName : Name) :
    ((source.act id changed order none).countEnd id
      (.timedWait id baseName)).PassedOn := by
  have acted : (source.act id changed order
      (some (.timedWait id baseName))).PassedOn := by
    apply passedOn.act order found timedwait
    · rw [completions, completing, idle]
      simp [ExecutorPoint.completes]
    · intro other different
      rw [idle]
      simp [ExecutorPoint.completes, Ne.symm different]
    · intro other
      rw [idle]
      simp
  exact acted.of_eq rfl rfl rfl rfl rfl rfl

theorem PassedOn.enterTimedWait (passedOn : source.PassedOn)
    (calling : source.point = some (.finishCallback id))
    (found : source.fetchers[id]? = some listed)
    (timedwait : changed.isTimedWait = true)
    (completions : changed.fetching.completions =
      listed.fetching.completions + 1) :
    (source.act id changed order none).PassedOn := by
  refine passedOn.of_same passedOn.orderly ?_ ?_ nofun (length_act order) rfl
    rfl
  · intro other
    by_cases same : other = id
    · rw [same, ends_act_self order found, ends_found found, completing,
        calling, completions]
      simp only [Option.bind_none, Option.bind_some, ExecutorPoint.completes,
        if_true, reduceCtorEq, if_false]
    · apply ends_act_of_ne order found same
      rw [calling]
      simp [ExecutorPoint.completes, Ne.symm same]
  · intro other
    rw [Completed, Completed, isTimedWait_act found, calling]
    by_cases same : other = id
    · simp [same, timedwait]
    · simp [FetchThreads.act, same, Ne.symm same]

theorem PassedOn.countFailure (passedOn : source.PassedOn)
    (failed : source.point = some (.onFetchFailed id)) :
    (source.countEnd id (.nextRetry id)).PassedOn := by
  refine passedOn.of_same passedOn.orderly ?_ ?_ nofun rfl rfl rfl
  · intro other
    have before : source.completing other = 0 := by
      rw [completing, failed]
      exact if_neg nofun
    have after : (source.countEnd id (.nextRetry id)).completing other = 0 :=
      if_neg nofun
    rw [ends, ends, before, after]
    rfl
  · intro other
    refine or_congr Iff.rfl ?_
    rw [failed]
    simp [countEnd]

theorem PassedOn.scheduler (passedOn : source.PassedOn)
    {scheduler : Scheduler} (orderly : scheduler.Orderly)
    (along : scheduler.unreturned.Perm source.scheduler.unreturned) :
    PassedOn { source with scheduler } := by
  refine passedOn.of_same orderly ?_ (fun _ => Iff.rfl)
    (fun _ here => ⟨here, rfl⟩) rfl rfl rfl
  intro other
  have removals : removals { source with scheduler } other =
      source.removals other := along.countP_eq _
  rw [ends, ends, removals]
  rfl

theorem PassedOn.scheduleTimedWait (passedOn : source.PassedOn)
    {baseName : Name} (here : source.point = some (.timedWait id baseName))
    {tag : Bytes} (free : source.scheduler.taskMap tag = none) :
    (source.scheduleTimedWait id tag).PassedOn := by
  have orderly := passedOn.orderly.addToMap tag
  refine passedOn.of_same orderly ?_ ?_ nofun rfl rfl rfl
  · intro other
    let bound := Function.update source.bound source.scheduler.created (some id)
    have old : (source.scheduler.unreturned.countP fun task =>
        bound task.id = some other) = source.removals other := by
      apply List.countP_congr
      intro task waits
      have alive := Scheduler.mem_alive_of_unreturned waits
      have earlier := passedOn.orderly.sound.aliveCreated task alive
      have same : bound task.id = source.bound task.id :=
        Function.update_of_ne earlier.ne _ _
      rw [same]
    have new : bound source.scheduler.created = some id :=
      Function.update_self _ _ _
    have removals : (source.scheduleTimedWait id tag).removals other =
        source.removals other + if other = id then 1 else 0 := by
      have grown := (Scheduler.addToMap_unreturned free).countP_eq
        fun task => bound task.id = some other
      rw [List.countP_cons, old, new] at grown
      refine Eq.trans grown ?_
      simp [eq_comm]
    have before : source.completing other =
        if other = id then 1 else 0 := by
      rw [completing, here]
      simp [ExecutorPoint.completes, eq_comm]
    have after : (source.scheduleTimedWait id tag).completing other = 0 :=
      if_neg nofun
    have completions : (source.scheduleTimedWait id tag).completions other =
        source.completions other := rfl
    have disposed : (source.scheduleTimedWait id tag).disposed =
        source.disposed := rfl
    rw [ends, ends, completions, removals, before, after, disposed]
    omega
  · intro other
    refine or_congr Iff.rfl ?_
    rw [here]
    simp [FetchThreads.scheduleTimedWait]

theorem PassedOn.dispose (passedOn : source.PassedOn) {task : OneTimeTask}
    {scheduler : Scheduler} (runs : source.scheduler.inCallback = some task)
    (bound : source.bound task.id = some id)
    (taken : source.scheduler.step .callbackReturns = some scheduler) :
    (source.dispose id scheduler).PassedOn := by
  obtain ⟨orderly, other, running, returned⟩ :=
    passedOn.orderly.callbackReturns taken
  obtain rfl : task = other := by
    rw [runs] at running
    exact Option.some.inj running
  have same : ∀ other, (source.dispose id scheduler).ends other =
      source.ends other := by
    intro other
    have removals : source.removals other =
        (source.dispose id scheduler).removals other +
          if other = id then 1 else 0 := by
      have after : (source.dispose id scheduler).removals other =
          scheduler.unreturned.countP fun task =>
            source.bound task.id = some other := rfl
      have fewer := returned.countP_eq fun task =>
        source.bound task.id = some other
      rw [List.countP_cons, bound] at fewer
      rw [after]
      refine Eq.trans fewer ?_
      by_cases same : other = id
      · simp [same]
      · simp [same, Ne.symm same]
    have disposed : (source.dispose id scheduler).disposed.count other =
        source.disposed.count other + if other = id then 1 else 0 := by
      rw [FetchThreads.dispose, List.count_append, List.count_singleton]
      by_cases same : other = id
      · simp [same]
      · simp [same, Ne.symm same]
    have completions : (source.dispose id scheduler).completions other =
        source.completions other := rfl
    have completing : (source.dispose id scheduler).completing other =
        source.completing other := rfl
    rw [ends, ends, completions, completing, removals, disposed]
    omega
  refine ⟨orderly, ?_, ?_, passedOn.calling, passedOn.listed.erase id, ?_, ?_⟩
  · intro other here
    rw [same]
    exact passedOn.completed other here
  · intro other here
    rw [same]
    exact passedOn.uncompleted other here
  · intro other gone member
    have earlier := passedOn.listed.mem_erase_iff.mp member
    rcases List.mem_append.mp gone with before | now
    · exact passedOn.removed other before earlier.2
    · exact earlier.1 (List.mem_singleton.mp now)
  · intro other member
    exact passedOn.made other (List.mem_of_mem_erase member)

end Steps

theorem step_passedOn {baseTag : Name → Bytes} {label : ThreadStep Name}
    (keeps : source.KeepsRemovals baseTag label)
    (moves : Moves baseTag source label target)
    (passedOn : source.PassedOn) : target.PassedOn := by
  obtain ⟨once, free⟩ := keeps
  cases moves with
  | refuse => exact passedOn
  | addFetcher priority fresh => exact passedOn.addFetcher fresh priority
  | beginScan now => exact passedOn.of_eq rfl rfl rfl rfl rfl rfl
  | endScan => exact passedOn.of_eq rfl rfl rfl rfl rfl rfl
  | look => exact passedOn.of_eq rfl rfl rfl rfl rfl rfl
  | restart scanning next found => exact passedOn.restart found _ _ _
  | work order found works goesOn => exact passedOn.work order found works goesOn
  | finish order idle next completes inactive timedwait completions =>
      exact passedOn.finish order idle (nextJob_cases next).1
        (once _ next completes) timedwait completions
  | giveUp order idle next givesUp inactive timedwait completions =>
      exact passedOn.giveUp order idle (nextJob_cases next).1 timedwait
        completions
  | complete order idle _ found active timedwait completions =>
      exact passedOn.complete order idle found timedwait completions _
  | enterTimedWait order calling found active timedwait completions =>
      exact passedOn.enterTimedWait order calling found timedwait completions
  | countFailure failed => exact passedOn.countFailure failed
  | scheduleTimedWait here =>
      exact passedOn.scheduleTimedWait here (free _ here _ rfl)
  | scheduler proceeds taken =>
      obtain ⟨orderly, along⟩ := passedOn.orderly.proceeds proceeds taken
      exact passedOn.scheduler orderly along
  | dispose _ runs bound taken => exact passedOn.dispose runs bound taken

/-- In every run in which no fetch completes twice and each removal finds its
tag free, every fetcher in its final wait has a job or a task that will remove
it, and none is removed twice. -/
theorem disposes_of_keepsRemovals [DecidableEq Name]
    {decodeData : Bytes → Option (Data Name)} {platform : HintPlatform Name}
    {baseTag : Name → Bytes} {parallelFetches : UInt32}
    {trace : List (FetchThreads Name × ThreadStep Name)}
    {final : FetchThreads Name}
    (runs : Runs decodeData platform baseTag parallelFetches trace final)
    (keeps : ∀ taken ∈ trace, KeepsRemovals baseTag taken.1 taken.2) :
    final.Disposes := by
  have passedOn : final.PassedOn := by
    apply runs.invariant_of_steps (KeepsRemovals baseTag) keeps
      (construct_passedOn parallelFetches)
    intro source label target safe taken earlier
    exact step_passedOn safe (step_moves taken) earlier
  exact passedOn.disposes

end FetchThreads

namespace FetchThreads

/-- The removal of a fetcher of `/bob`. -/
def removalOfBob : OneTimeTask :=
  ⟨0, Name.bob.toUri⟩

/-- The scheduler removes the first fetcher of `/bob`. -/
def removeFirst : List (ThreadStep Name) :=
  [.scheduler (.evtimerAdd removalOfBob), .scheduler (.release removalOfBob),
    .scheduler (.fire removalOfBob), .scheduler (.execute removalOfBob),
    .scheduler .run, .timedWait, .scheduler .deregisterSelf]

/-- A fetch of one segment, up to the removal of its fetcher. -/
theorem disposes_of_keepsRemovals_one :
    ∃ trace final, Runs readData Name.hintPlatform Name.toUri 3 trace final ∧
      final.disposed = [0] ∧ final.fetchList = [] ∧ final.Disposes := by
  have executed : (execute (step readData Name.hintPlatform Name.toUri)
      (construct 3)
      ([fetchBob 1 1, .scheduleFetches 0] ++ startOne 0 ++
        [.scan 0, .execute 0, .onData 0 0 (Fetching.bobPacket 1), .execute 1,
          .proceed Name.bob 1, .execute 1, .proceed Name.bob 1] ++
        removeFirst)).any
        (fun result => result.2.disposed = [0] ∧ result.2.fetchList = [] ∧
          ∀ taken ∈ result.1,
            taken.1.KeepsRemovals Name.toUri taken.2) = true := by
    decide +kernel
  obtain ⟨⟨trace, final⟩, found, holds⟩ :=
    (Option.any_eq_true _ _).mp executed
  obtain ⟨disposed, fetchList, keeps⟩ := of_decide_eq_true holds
  have runs := execute_run found
  exact ⟨trace, final, runs, disposed, fetchList,
    disposes_of_keepsRemovals runs keeps⟩

/-- The fetchers of segment 1 and of segment 2 complete one after the other.
The removal of the second is refused, as the first has its tag, and the second
stays in the list when nothing is left to do. -/
theorem second_fetcher_stays :
    ¬ ∀ trace final, Runs readData Name.hintPlatform Name.toUri 3 trace final →
      final.Disposes := by
  intro disposes
  have executed : (execute (step readData Name.hintPlatform Name.toUri)
      (construct 3)
      ([fetchBob 1 1, fetchBob 2 2, .scheduleFetches 0] ++ startOne 0 ++
        startOne 0 ++
        [.scan 0, .execute 0, .execute 0,
          .onData 0 0 (Fetching.bobPacket 1),
          .onData 1 0 (Fetching.bobPacket 2), .execute 1, .proceed Name.bob 1,
          .execute 1, .proceed Name.bob 1, .execute 1, .proceed Name.bob 1,
          .execute 1, .proceed Name.bob 1] ++ removeFirst)).any
        (fun result => result.2.fetchList = [1] ∧
          result.2.isTimedWait 1 = true ∧ result.2.completions 1 = 0 ∧
            result.2.point = none ∧ result.2.removals 1 = 0) = true := by
    decide +kernel
  obtain ⟨⟨trace, final⟩, found, holds⟩ :=
    (Option.any_eq_true _ _).mp executed
  obtain ⟨fetchList, timedwait, noJob, noPoint, noTask⟩ :=
    of_decide_eq_true holds
  have pending := (disposes trace final (execute_run found)).pending
  have member : 1 ∈ final.fetchList := by
    rw [fetchList]
    exact List.mem_singleton.mpr rfl
  rcases pending 1 member timedwait with queued | ⟨baseName, here⟩ | scheduled
  · exact queued.ne' noJob
  · rw [noPoint] at here
    cases here
  · exact scheduled.ne' noTask

end FetchThreads

end ChronoShare
