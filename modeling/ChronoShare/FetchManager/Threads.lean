import ChronoShare.FetchManager.Schedule
import ChronoShare.FetchManager.Tasks
import ChronoShare.Fetcher.Unfinished
import ChronoShare.Scheduler.Orderly

/-!
# The threads of a fetch manager

The face answers interests, one thread runs the jobs of all the fetchers in the
order in which they were queued, and the scheduler starts fetches and removes
the fetchers that have waited after their end.  A mutex guards the list and the
counter, but not the two flags of a fetcher.
-/

namespace ChronoShare

/-- Where the thread of the executor stands between two actions of one job:
in `OnData_Execute` before it sets `m_timedwait`, in `OnTimeout_Execute` before
`DidNoDataTimeout` counts the failure, in `DidNoDataTimeout` after that, and in
`DidFetchComplete` before it schedules the removal. -/
inductive ExecutorPoint (Name : Type) where
  | finishCallback (id : Nat)
  | onFetchFailed (id : Nat)
  | nextRetry (id : Nat)
  | timedWait (id : Nat) (baseName : Name)
  deriving DecidableEq

/-- What `ScheduleFetches` does next with the first fetcher that remains. -/
inductive ScanPoint where
  | isActive
  | isTimedWait
  | isDelayed
  | restart
  deriving DecidableEq

/-- The loop of `ScheduleFetches`, which holds the mutex. -/
structure Scan where
  currentTime : Int
  nextScheduleCheck : Int
  remaining : List Nat
  point : ScanPoint
  deriving DecidableEq

/-- All fetchers ever made, the list of those that are there, the fetchers
whose jobs are queued, the removals with the fetchers they are bound to, and
the fetchers that have been started, counted as ended, and disposed of. -/
structure FetchThreads (Name : Type) where
  fetchers : List (ListedFetcher Name)
  fetchList : List Nat
  currentParallelFetches : UInt32
  maxParallelFetches : UInt32
  scan : Option Scan
  order : List Nat
  point : Option (ExecutorPoint Name)
  scheduler : Scheduler
  bound : Nat → Option Nat
  started : List Nat
  counted : List Nat
  disposed : List Nat

inductive ThreadStep (Name : Type) where
  | enqueue (deviceName baseName : Name) (minSeqNo maxSeqNo : UInt64)
      (priority : Int) (forwardingHint : Name) (now : Int)
  | scheduleFetches (now : Int)
  | scan (now : Int)
  | onData (id index : Nat) (data : Data Name)
  | onTimeout (id index : Nat)
  | execute (now : Int)
  | proceed (answer : Name) (now : Int)
  | scheduler (label : SchedulerStep)
  | timedWait

def Scan.look {Name : Type} (scan : Scan) (remaining : List Nat)
    (item : ListedFetcher Name) : Scan :=
  let following : Scan := { scan with remaining, point := .isActive }
  match scan.point with
  | .isActive =>
      if item.isActive then following else { scan with point := .isTimedWait }
  | .isTimedWait =>
      if item.isTimedWait then
        following
      else
        { scan with point := .isDelayed }
  | .isDelayed =>
      if scan.currentTime < item.nextScheduledRetry then
        if item.nextScheduledRetry < scan.nextScheduleCheck then
          { following with nextScheduleCheck := item.nextScheduledRetry }
        else
          following
      else
        { scan with point := .restart }
  | .restart => following

/-- The answer is to the last interest, and comes after the maximum period
without activity. -/
def Fetching.GivesUp {Name : Type} (fetching : Fetching Name) (now : Int) :
    Prop :=
  fetching.fetcher.idle now = true ∧ fetching.fetcher.activePipeline - 1 = 0

instance {Name : Type} (fetching : Fetching Name) (now : Int) :
    Decidable (fetching.GivesUp now) :=
  inferInstanceAs (Decidable (_ ∧ _))

theorem Fetcher.fillPipeline_flags {Name : Type} (fetcher : Fetcher Name) :
    fetcher.fillPipeline.1.active = fetcher.active ∧
      fetcher.fillPipeline.1.timedwait = fetcher.timedwait := by
  exact Fetcher.fillLoop_invariant
    (fun filled _ => filled.active = fetcher.active ∧
      filled.timedwait = fetcher.timedwait)
    (fun _ _ _ _ same => same) (fun _ _ _ _ _ _ same => same) _ fetcher []
    ⟨rfl, rfl⟩

def Job.completes {Name : Type} : Job Name → Bool
  | .onFetchComplete => true
  | _ => false

def Fetching.completions {Name : Type} (fetching : Fetching Name) : Nat :=
  fetching.jobs.countP Job.completes

namespace ListedFetcher

variable {Name : Type}

/-- Data is not run under the number after the end of the range, as long as the
fetcher is not in its final wait. -/
def WithinRange (listed : ListedFetcher Name) : Job Name → Prop
  | .onDataExecute expressed _ =>
      listed.isTimedWait = false →
        expressed.seqno.toInt64 ≠ listed.fetching.fetcher.maxSeqNo + 1
  | _ => True

instance (listed : ListedFetcher Name) (job : Job Name) :
    Decidable (listed.WithinRange job) :=
  match job with
  | .onDataExecute _ _ => inferInstanceAs (Decidable (_ → _))
  | .fillPipeline => .isTrue trivial
  | .onTimeoutExecute _ => .isTrue trivial
  | .onFetchComplete => .isTrue trivial

end ListedFetcher

namespace FetchThreads

section Model

variable {Name : Type}

def construct (parallelFetches : UInt32) : FetchThreads Name where
  fetchers := []
  fetchList := []
  currentParallelFetches := 0
  maxParallelFetches := parallelFetches
  scan := none
  order := []
  point := none
  scheduler := .initial
  bound := fun _ => none
  started := []
  counted := []
  disposed := []

def put (threads : FetchThreads Name) (id : Nat) (listed : ListedFetcher Name) :
    FetchThreads Name :=
  { threads with fetchers := threads.fetchers.set id listed }

/-- A fetcher after an action, with what is queued and where the thread of the
executor stands then. -/
def act (threads : FetchThreads Name) (id : Nat) (changed : ListedFetcher Name)
    (order : List Nat) (point : Option (ExecutorPoint Name)) :
    FetchThreads Name :=
  { threads with
    fetchers := threads.fetchers.set id changed
    order, point }

/-- The fetcher with other interests, jobs and members of its own. -/
def putFetching (threads : FetchThreads Name) (id : Nat)
    (listed : ListedFetcher Name) (fetching : Fetching Name) :
    FetchThreads Name :=
  threads.put id { listed with fetching }

/-- A fetcher of the manager; one that has been disposed of is not there. -/
def lookup (threads : FetchThreads Name) (id : Nat) :
    Option (ListedFetcher Name) :=
  if id ∈ threads.fetchList then threads.fetchers[id]? else none

/-- `Enqueue` under the mutex. -/
def addFetcher (threads : FetchThreads Name) (listed : ListedFetcher Name)
    (priority : Int) : FetchThreads Name :=
  { threads with
    fetchers := threads.fetchers ++ [listed]
    fetchList :=
      if priority = FetchManager.PRIORITY_HIGH then
        threads.fetchers.length :: threads.fetchList
      else
        threads.fetchList ++ [threads.fetchers.length] }

def beginScan (threads : FetchThreads Name) (now : Int) : FetchThreads Name :=
  { threads with scan := some ⟨now, now + 300, threads.fetchList, .isActive⟩ }

/-- The counter goes up and the pipeline is restarted. -/
def restart (threads : FetchThreads Name) (scan : Scan) (id : Nat)
    (remaining : List Nat) (listed : ListedFetcher Name) (now : Int) :
    FetchThreads Name :=
  { threads with
    fetchers := threads.fetchers.set id (listed.restartPipeline now)
    currentParallelFetches := threads.currentParallelFetches + 1
    started := threads.started ++ [id]
    order := threads.order ++ [id]
    scan := some { scan with remaining, point := .isActive } }

/-- The counter goes down, under the mutex. -/
def countEnd (threads : FetchThreads Name) (id : Nat)
    (point : ExecutorPoint Name) : FetchThreads Name :=
  { threads with
    currentParallelFetches := threads.currentParallelFetches - 1
    counted := threads.counted ++ [id]
    point := some point }

/-- The job goes on the queue of the executor. -/
def queueJob (threads : FetchThreads Name) (id : Nat) : FetchThreads Name :=
  { threads with order := threads.order ++ [id] }

/-- `scheduleOneTimeTask`; the timer is added by a later step. -/
def scheduleTimedWait (threads : FetchThreads Name) (id : Nat) (tag : Bytes) :
    FetchThreads Name :=
  { threads with
    scheduler := threads.scheduler.addToMap tag
    bound := Function.update threads.bound threads.scheduler.created (some id)
    point := none }

/-- `TimedWait` for the fetcher. -/
def dispose (threads : FetchThreads Name) (id : Nat) (scheduler : Scheduler) :
    FetchThreads Name :=
  { threads with
    fetchList := threads.fetchList.erase id
    disposed := threads.disposed ++ [id]
    scheduler }

/-- The fetcher whose job is the next one, with the job and those behind it. -/
def nextJob (threads : FetchThreads Name) :
    Option (Nat × ListedFetcher Name × Job Name × List (Job Name)) :=
  match threads.order with
  | [] => none
  | id :: _ =>
      match threads.fetchers[id]? with
      | none => none
      | some listed =>
          match listed.fetching.jobs with
          | [] => none
          | job :: jobs => some (id, listed, job, jobs)

variable (decodeData : Bytes → Option (Data Name))

/-- The job of a fetcher that has been taken off the queue.  Only the job that
completes a fetch does not touch the fetcher itself. -/
def runJob (threads : FetchThreads Name) (id : Nat)
    (listed : ListedFetcher Name) (now : Int) :
    Job Name → Option (FetchThreads Name)
  | .fillPipeline =>
      if id ∈ threads.fetchList then
        (listed.fetching.runJob decodeData now .fillPipeline).map
          (threads.putFetching id listed)
      else
        none
  | .onDataExecute expressed data =>
      if id ∈ threads.fetchList then
        (decodeData data.content).map fun pco =>
          let received := listed.fetching.receiveSegment expressed pco now
          if received.Finished then
            { threads.putFetching id listed received.callFinish with
              point := some (.finishCallback id) }
          else
            (threads.putFetching id listed { received with
              jobs := received.jobs ++ [.fillPipeline] }).queueJob id
      else
        none
  | .onTimeoutExecute expressed =>
      if id ∈ threads.fetchList then
        let answered := threads.putFetching id listed
          (listed.fetching.onTimeoutExecute expressed now)
        if listed.fetching.GivesUp now then
          some { answered with point := some (.onFetchFailed id) }
        else
          some answered
      else
        none
  | .onFetchComplete =>
      if threads.scan = none then
        some ((threads.put id listed).countEnd id
          (.timedWait id listed.fetching.fetcher.name))
      else
        none

variable [DecidableEq Name] (platform : HintPlatform Name)
  (baseTag : Name → Bytes)

/-- What the thread of the executor does next in a job; `answer` is what
`m_mapping` answers, if it is asked. -/
def proceed (threads : FetchThreads Name) (answer : Name) (now : Int) :
    ExecutorPoint Name → Option (FetchThreads Name)
  | .finishCallback id =>
      (threads.lookup id).map fun listed =>
        { (threads.putFetching id listed
            listed.fetching.enterTimedWait).queueJob id with point := none }
  | .onFetchFailed id =>
      if threads.scan = none then
        some (threads.countEnd id (.nextRetry id))
      else
        none
  | .nextRetry id =>
      (threads.lookup id).map fun listed =>
        { threads.put id (listed.didNoDataTimeout platform answer now) with
          point := none }
  | .timedWait id baseName =>
      some (threads.scheduleTimedWait id (baseTag baseName))

/-- The next action of the loop of `ScheduleFetches`. -/
def scanStep (threads : FetchThreads Name) (scan : Scan) (now : Int) :
    Option (FetchThreads Name) :=
  match scan.remaining with
  | [] => some { threads with scan := none }
  | id :: remaining =>
      if scan.point = .isActive ∧
          ¬ threads.currentParallelFetches < threads.maxParallelFetches then
        some { threads with scan := none }
      else
        (threads.lookup id).map fun listed =>
          if scan.point = .restart then
            threads.restart scan id remaining listed now
          else
            { threads with scan := some (scan.look remaining listed) }

/-- An answer of the face goes on the queue of the executor. -/
def answer (threads : FetchThreads Name) (id : Nat)
    (event : FetcherEvent Name) : Option (FetchThreads Name) :=
  (threads.lookup id).bind fun listed =>
    (listed.fetching.step decodeData event).map fun fetching =>
      (threads.putFetching id listed fetching).queueJob id

def step (threads : FetchThreads Name) :
    ThreadStep Name → Option (FetchThreads Name)
  | .enqueue deviceName baseName minSeqNo maxSeqNo priority forwardingHint
      now =>
      if maxSeqNo < minSeqNo then
        some threads
      else if threads.scan = none then
        some (threads.addFetcher (.enqueue deviceName baseName minSeqNo
          maxSeqNo forwardingHint now) priority)
      else
        none
  | .scheduleFetches now =>
      if threads.scan = none then some (threads.beginScan now) else none
  | .scan now => threads.scan.bind fun scan => threads.scanStep scan now
  | .onData id index data => threads.answer decodeData id (.onData index data)
  | .onTimeout id index => threads.answer decodeData id (.onTimeout index)
  | .execute now =>
      if threads.point = none then
        threads.nextJob.bind fun (id, listed, job, jobs) =>
          runJob decodeData { threads with order := threads.order.tail } id
            { listed with fetching := { listed.fetching with jobs } } now job
      else
        none
  | .proceed answer now =>
      threads.point.bind (threads.proceed platform baseTag answer now)
  | .scheduler label =>
      if label.Proceeds then
        (threads.scheduler.step label).map fun scheduler =>
          { threads with scheduler }
      else
        none
  | .timedWait =>
      if threads.scan = none then
        (threads.scheduler.inCallback.bind fun task => threads.bound task.id).bind
          fun id => (threads.scheduler.step .callbackReturns).map
            (threads.dispose id)
      else
        none

abbrev Runs (parallelFetches : UInt32) :
    List (FetchThreads Name × ThreadStep Name) → FetchThreads Name → Prop :=
  Run (fun source label target =>
    step decodeData platform baseTag source label = some target)
    (construct parallelFetches)

end Model

section Views

variable {Name : Type} {value : Type}

/-- What a fetcher has, or what an identifier without a fetcher stands for. -/
def view (read : ListedFetcher Name → value) (absent : value)
    (threads : FetchThreads Name) (id : Nat) : value :=
  threads.fetchers[id]?.elim absent read

def isActive (threads : FetchThreads Name) (id : Nat) : Bool :=
  threads.view (·.isActive) false id

def isTimedWait (threads : FetchThreads Name) (id : Nat) : Bool :=
  threads.view (·.isTimedWait) false id

/-- The jobs of the fetcher that complete its fetch. -/
def completions (threads : FetchThreads Name) (id : Nat) : Nat :=
  threads.view (·.fetching.completions) 0 id

variable {threads : FetchThreads Name} {id : Nat} {listed : ListedFetcher Name}
  {read : ListedFetcher Name → value} {absent : value}

theorem view_of_found (found : threads.fetchers[id]? = some listed) :
    view read absent threads id = read listed := by
  rw [view, found]
  rfl

theorem view_put (found : threads.fetchers[id]? = some listed)
    (changed : ListedFetcher Name) (other : Nat) :
    view read absent (threads.put id changed) other =
      if other = id then read changed else view read absent threads other := by
  obtain ⟨bound, -⟩ := List.getElem?_eq_some_iff.mp found
  rw [view, view, put]
  split_ifs with same
  · rw [same, List.getElem?_set_self bound]
    rfl
  · rw [List.getElem?_set_ne (Ne.symm same)]

theorem view_addFetcher (read : ListedFetcher Name → value)
    (fresh : read listed = absent) (priority : Int) :
    view read absent (threads.addFetcher listed priority) =
      view read absent threads := by
  funext other
  rw [view, view, addFetcher]
  rcases lt_trichotomy other threads.fetchers.length with old | new | beyond
  · rw [List.getElem?_append_left old]
  · rw [new, List.getElem?_concat_length, List.getElem?_eq_none (le_refl _)]
    exact fresh
  · rw [List.getElem?_eq_none beyond.le, List.getElem?_eq_none]
    rw [List.length_append]
    exact beyond

section Act

variable (found : threads.fetchers[id]? = some listed)
  (changed : ListedFetcher Name) (order : List Nat)
  (point : Option (ExecutorPoint Name)) (other : Nat)

include found

theorem isActive_act :
    (threads.act id changed order point).isActive other =
      if other = id then changed.isActive else threads.isActive other :=
  view_put found changed other

theorem isTimedWait_act :
    (threads.act id changed order point).isTimedWait other =
      if other = id then changed.isTimedWait else threads.isTimedWait other :=
  view_put found changed other

theorem completions_act :
    (threads.act id changed order point).completions other =
      if other = id then changed.fetching.completions
      else threads.completions other :=
  view_put found changed other

end Act

theorem lookup_found (present : threads.lookup id = some listed) :
    id ∈ threads.fetchList ∧ threads.fetchers[id]? = some listed := by
  rw [lookup] at present
  split_ifs at present with member
  exact ⟨member, present⟩

theorem nextJob_cases {job : Job Name} {jobs : List (Job Name)}
    (next : threads.nextJob = some (id, listed, job, jobs)) :
    threads.fetchers[id]? = some listed ∧
      listed.fetching.jobs = job :: jobs := by
  rw [nextJob] at next
  split at next
  · cases next
  · split at next
    · cases next
    · rename_i found
      split at next
      · cases next
      · rename_i queued
        obtain ⟨rfl, rfl, rfl, rfl⟩ := by simpa using next
        exact ⟨found, queued⟩

end Views

section Moves

variable {Name : Type}

def WithinRange (threads : FetchThreads Name) : ThreadStep Name → Prop
  | .execute _ => ∀ next ∈ threads.nextJob,
      next.2.1.WithinRange next.2.2.1
  | _ => True

instance (threads : FetchThreads Name) (label : ThreadStep Name) :
    Decidable (threads.WithinRange label) :=
  match label with
  | .execute _ => inferInstanceAs (Decidable (∀ next ∈ threads.nextJob, _))
  | .enqueue _ _ _ _ _ _ _ | .scheduleFetches _ | .scan _ | .onData _ _ _
  | .onTimeout _ _ | .proceed _ _ | .scheduler _ | .timedWait =>
      .isTrue trivial

/-- The fetcher works without a change to its flags or to the job that
completes its fetch; `careful` is what keeps an unfinished fetch from running
past its end. -/
structure Works (listed changed : ListedFetcher Name) (careful : Prop) :
    Prop where
  active : changed.isActive = listed.isActive
  timedwait : changed.isTimedWait = listed.isTimedWait
  completions : changed.fetching.completions = listed.fetching.completions
  unfinished : careful → listed.isTimedWait = false →
    listed.fetching.Unfinished → changed.fetching.Unfinished

/-- A fetcher as it is made. -/
structure Fresh (listed : ListedFetcher Name) : Prop where
  inactive : listed.isActive = false
  unwaiting : listed.isTimedWait = false
  completions : listed.fetching.completions = 0
  unfinished : listed.fetching.Unfinished

section AddFetcher

variable {threads : FetchThreads Name} {listed : ListedFetcher Name}
  (fresh : Fresh listed) (priority : Int)

include fresh

theorem isActive_addFetcher :
    (threads.addFetcher listed priority).isActive = threads.isActive :=
  view_addFetcher (·.isActive) fresh.inactive priority

theorem isTimedWait_addFetcher :
    (threads.addFetcher listed priority).isTimedWait = threads.isTimedWait :=
  view_addFetcher (·.isTimedWait) fresh.unwaiting priority

theorem completions_addFetcher :
    (threads.addFetcher listed priority).completions = threads.completions :=
  view_addFetcher (·.fetching.completions) fresh.completions priority

end AddFetcher

/-- The steps by what they do to the flags, the jobs that complete a fetch, the
counter and the removals. -/
inductive Moves (baseTag : Name → Bytes) (source : FetchThreads Name) :
    ThreadStep Name → FetchThreads Name → Prop where
  | refuse {label : ThreadStep Name} : Moves baseTag source label source
  | addFetcher {label : ThreadStep Name} {listed : ListedFetcher Name}
      (priority : Int) (fresh : Fresh listed) (free : source.scan = none) :
      Moves baseTag source label (source.addFetcher listed priority)
  | beginScan {label : ThreadStep Name} (now : Int)
      (free : source.scan = none) :
      Moves baseTag source label (source.beginScan now)
  | endScan {label : ThreadStep Name} :
      Moves baseTag source label { source with scan := none }
  | look {now : Int} {scan : Scan} {id : Nat} {remaining : List Nat}
      {listed : ListedFetcher Name} (scanning : source.scan = some scan)
      (next : scan.remaining = id :: remaining)
      (found : source.fetchers[id]? = some listed)
      (room : scan.point = .isActive →
        source.currentParallelFetches < source.maxParallelFetches)
      (reads : scan.point ≠ .restart) :
      Moves baseTag source (.scan now)
        { source with scan := some (scan.look remaining listed) }
  | restart {now : Int} {scan : Scan} {id : Nat} {remaining : List Nat}
      {listed : ListedFetcher Name} (scanning : source.scan = some scan)
      (next : scan.remaining = id :: remaining)
      (found : source.fetchers[id]? = some listed)
      (starts : scan.point = .restart) :
      Moves baseTag source (.scan now)
        (source.restart scan id remaining listed now)
  | work {label : ThreadStep Name} {id : Nat}
      {listed changed : ListedFetcher Name} (order : List Nat)
      {point : Option (ExecutorPoint Name)}
      (found : source.fetchers[id]? = some listed)
      (works : Works listed changed (source.WithinRange label))
      (goesOn : point = source.point ∨
        ∃ other, source.point = some (.nextRetry other) ∧ point = none) :
      Moves baseTag source label (source.act id changed order point)
  | finish {now : Int} {id : Nat} {listed changed : ListedFetcher Name}
      {expressed : Expressed Name} {data : Data Name} {jobs : List (Job Name)}
      (order : List Nat) (idle : source.point = none)
      (next : source.nextJob =
        some (id, listed, .onDataExecute expressed data, jobs))
      (completes : listed.fetching.fetcher.Completes expressed.seqno)
      (inactive : changed.isActive = false)
      (timedwait : changed.isTimedWait = listed.isTimedWait)
      (completions : changed.fetching.completions =
        listed.fetching.completions) :
      Moves baseTag source (.execute now)
        (source.act id changed order (some (.finishCallback id)))
  | giveUp {now : Int} {id : Nat} {listed changed : ListedFetcher Name}
      {expressed : Expressed Name} {jobs : List (Job Name)}
      (order : List Nat) (idle : source.point = none)
      (next : source.nextJob =
        some (id, listed, .onTimeoutExecute expressed, jobs))
      (givesUp : listed.fetching.GivesUp now)
      (inactive : changed.isActive = false)
      (timedwait : changed.isTimedWait = listed.isTimedWait)
      (completions : changed.fetching.completions =
        listed.fetching.completions)
      (unfinished : listed.fetching.Unfinished →
        changed.fetching.Unfinished) :
      Moves baseTag source (.execute now)
        (source.act id changed order (some (.onFetchFailed id)))
  | complete {now : Int} {id : Nat} {listed changed : ListedFetcher Name}
      (order : List Nat) (idle : source.point = none)
      (free : source.scan = none)
      (found : source.fetchers[id]? = some listed)
      (active : changed.isActive = listed.isActive)
      (timedwait : changed.isTimedWait = listed.isTimedWait)
      (completions : listed.fetching.completions =
        changed.fetching.completions + 1)
      (unfinished : listed.fetching.Unfinished →
        changed.fetching.Unfinished) :
      Moves baseTag source (.execute now)
        ((source.act id changed order none).countEnd id
          (.timedWait id listed.fetching.fetcher.name))
  | enterTimedWait {label : ThreadStep Name} {id : Nat}
      {listed changed : ListedFetcher Name} (order : List Nat)
      (calling : source.point = some (.finishCallback id))
      (found : source.fetchers[id]? = some listed)
      (active : changed.isActive = listed.isActive)
      (timedwait : changed.isTimedWait = true)
      (completions : changed.fetching.completions =
        listed.fetching.completions + 1) :
      Moves baseTag source label
        (source.act id changed order none)
  | countFailure {label : ThreadStep Name} {id : Nat}
      (failed : source.point = some (.onFetchFailed id))
      (free : source.scan = none) :
      Moves baseTag source label (source.countEnd id (.nextRetry id))
  | scheduleTimedWait {answer : Name} {now : Int} {id : Nat} {baseName : Name}
      (here : source.point = some (.timedWait id baseName)) :
      Moves baseTag source (.proceed answer now)
        (source.scheduleTimedWait id (baseTag baseName))
  | scheduler {label : ThreadStep Name} {action : SchedulerStep}
      {scheduler : Scheduler} (proceeds : action.Proceeds)
      (taken : source.scheduler.step action = some scheduler) :
      Moves baseTag source label { source with scheduler }
  | dispose {label : ThreadStep Name} {task : OneTimeTask} {id : Nat}
      {scheduler : Scheduler} (free : source.scan = none)
      (runs : source.scheduler.inCallback = some task)
      (bound : source.bound task.id = some id)
      (taken : source.scheduler.step .callbackReturns = some scheduler) :
      Moves baseTag source label (source.dispose id scheduler)

variable {decodeData : Bytes → Option (Data Name)} {source target : FetchThreads Name}

theorem completions_append (fetching : Fetching Name) (job : Job Name) :
    Fetching.completions { fetching with jobs := fetching.jobs ++ [job] } =
      fetching.completions + if job.completes then 1 else 0 := by
  rw [Fetching.completions, List.countP_append, List.countP_singleton]
  rfl

theorem completions_dequeue {fetching : Fetching Name} {job : Job Name}
    {jobs : List (Job Name)} (queued : fetching.jobs = job :: jobs) :
    fetching.completions = Fetching.completions { fetching with jobs := jobs } +
      if job.completes then 1 else 0 := by
  rw [Fetching.completions, queued, List.countP_cons]
  rfl

theorem fresh_enqueue (deviceName baseName forwardingHint : Name)
    {minSeqNo maxSeqNo : UInt64} (range : ¬ maxSeqNo < minSeqNo) (now : Int) :
    Fresh (ListedFetcher.enqueue deviceName baseName minSeqNo maxSeqNo
      forwardingHint now) :=
  ⟨rfl, rfl, rfl, Fetching.start_unfinished _ _ _ (UInt64.not_lt.mp range) _⟩

theorem works_answer {listed : ListedFetcher Name} {fetching : Fetching Name}
    {event : FetcherEvent Name}
    (answers : (∃ index data, event = .onData index data) ∨
      ∃ index, event = .onTimeout index)
    (taken : listed.fetching.step decodeData event = some fetching)
    (careful : Prop) : Works listed { listed with fetching } careful := by
  rcases answers with ⟨index, data, rfl⟩ | ⟨index, rfl⟩
  · simp only [Fetching.step, Option.map_eq_some_iff] at taken
    obtain ⟨expressed, found, rfl⟩ := taken
    refine ⟨rfl, rfl, ?_, fun _ _ unfinished => ?_⟩
    · exact completions_append listed.fetching _
    · exact unfinished.answer found rfl
  · simp only [Fetching.step, Option.map_eq_some_iff] at taken
    obtain ⟨expressed, found, rfl⟩ := taken
    refine ⟨rfl, rfl, ?_, fun _ _ unfinished => ?_⟩
    · exact completions_append listed.fetching _
    · exact unfinished.answer found rfl

theorem answer_moves {baseTag : Name → Bytes} {label : ThreadStep Name}
    {id : Nat} {event : FetcherEvent Name}
    (answers : (∃ index data, event = .onData index data) ∨
      ∃ index, event = .onTimeout index)
    (taken : source.answer decodeData id event = some target) :
    Moves baseTag source label target := by
  simp only [answer, Option.bind_eq_some_iff, Option.map_eq_some_iff] at taken
  obtain ⟨listed, present, fetching, stepped, rfl⟩ := taken
  have found := (lookup_found present).2
  exact .work _ found (works_answer answers stepped _) (.inl rfl)

section Jobs

variable {id : Nat} {listed : ListedFetcher Name} {jobs : List (Job Name)}

theorem works_fillPipeline (queued : listed.fetching.jobs = .fillPipeline :: jobs)
    {now : Int} {fetching : Fetching Name}
    (ran : Fetching.runJob decodeData { listed.fetching with jobs := jobs } now
      .fillPipeline = some fetching) (careful : Prop) :
    Works listed { listed with fetching } careful := by
  have drained := completions_dequeue queued
  obtain rfl := Option.some.inj ran
  refine ⟨?_, ?_, drained.symm, fun _ _ unfinished => ?_⟩
  · exact listed.fetching.fetcher.fillPipeline_flags.1
  · exact listed.fetching.fetcher.fillPipeline_flags.2
  · exact (unfinished.dequeue queued).fillPipeline

theorem works_receive {expressed : Expressed Name} {data : Data Name}
    (queued : listed.fetching.jobs = .onDataExecute expressed data :: jobs)
    {pco : Data Name} {now : Int}
    (unended : ¬ (Fetching.receiveSegment { listed.fetching with jobs := jobs }
      expressed pco now).Finished) {careful : Prop}
    (within : careful → listed.isTimedWait = false →
      expressed.seqno.toInt64 ≠ listed.fetching.fetcher.maxSeqNo + 1) :
    Works listed { listed with
      fetching := { Fetching.receiveSegment
        { listed.fetching with jobs := jobs } expressed pco now with
          jobs := jobs ++ [.fillPipeline] } } careful := by
  have drained := completions_dequeue queued
  refine ⟨rfl, rfl, ?_, fun safe unwaiting unfinished => ?_⟩
  · rw [drained]
    exact completions_append
      (Fetching.receiveSegment { listed.fetching with jobs := jobs } expressed
        pco now) .fillPipeline
  · have received := unfinished.receiveSegment queued (within safe unwaiting)
      pco now unended
    exact received.enqueue .fillPipeline rfl

/-- A timeout clears the flag of an active fetcher if it gives up, and changes
neither the other flag nor the jobs. -/
theorem onTimeoutExecute_flags (fetching : Fetching Name)
    (expressed : Expressed Name) (now : Int) :
    (fetching.onTimeoutExecute expressed now).fetcher.active =
        (if fetching.GivesUp now then false else fetching.fetcher.active) ∧
      (fetching.onTimeoutExecute expressed now).fetcher.timedwait =
        fetching.fetcher.timedwait ∧
      (fetching.onTimeoutExecute expressed now).jobs = fetching.jobs := by
  by_cases idle : fetching.fetcher.idle now = true
  · rw [Fetching.onTimeoutExecute, if_pos idle, Fetcher.dropSegment]
    by_cases empty : fetching.fetcher.activePipeline - 1 = 0
    · simp [Fetching.GivesUp, idle, empty]
    · simp [Fetching.GivesUp, idle, empty]
  · rw [Fetching.onTimeoutExecute, if_neg idle]
    simp [Fetching.GivesUp, idle]

theorem runJob_moves {baseTag : Name → Bytes} {now : Int} {job : Job Name}
    (idle : source.point = none)
    (next : source.nextJob = some (id, listed, job, jobs))
    (ran : runJob decodeData { source with order := source.order.tail } id
      { listed with fetching := { listed.fetching with jobs := jobs } } now
      job = some target) :
    Moves baseTag source (.execute now) target := by
  obtain ⟨found, queued⟩ := nextJob_cases next
  have drained := completions_dequeue queued
  cases job with
  | fillPipeline =>
      simp only [runJob] at ran
      split_ifs at ran
      obtain ⟨fetching, filled, rfl⟩ := Option.map_eq_some_iff.mp ran
      exact .work _ found (works_fillPipeline queued filled _) (.inl rfl)
  | onDataExecute expressed data =>
      simp only [runJob] at ran
      split_ifs at ran
      obtain ⟨pco, -, rfl⟩ := Option.map_eq_some_iff.mp ran
      split_ifs with last
      · have completes := Fetcher.completes_of_receiveData last
        exact .finish _ idle next completes rfl rfl drained.symm
      · refine .work _ found (works_receive queued last ?_) (.inl rfl)
        intro within
        exact within _ next
  | onTimeoutExecute expressed =>
      obtain ⟨active, timedwait, sameJobs⟩ := onTimeoutExecute_flags
        { listed.fetching with jobs := jobs } expressed now
      have completions : (Fetching.onTimeoutExecute
          { listed.fetching with jobs := jobs } expressed now).completions =
            listed.fetching.completions := by
        rw [Fetching.completions, sameJobs]
        exact drained.symm
      simp only [runJob] at ran
      split_ifs at ran with _ givesUp
      · obtain rfl := Option.some.inj ran
        refine .giveUp _ idle next givesUp ?_ timedwait completions ?_
        · exact active.trans (if_pos givesUp)
        · exact fun unfinished => unfinished.onTimeoutExecute queued now
      · obtain rfl := Option.some.inj ran
        refine .work _ found ⟨?_, timedwait, completions, ?_⟩ (.inl rfl)
        · exact active.trans (if_neg givesUp)
        · exact fun _ _ unfinished => unfinished.onTimeoutExecute queued now
  | onFetchComplete =>
      simp only [runJob] at ran
      split_ifs at ran with free
      obtain rfl := Option.some.inj ran
      exact .complete _ idle free found rfl rfl drained
        fun unfinished => unfinished.dequeue queued

end Jobs

theorem scanStep_moves {baseTag : Name → Bytes} {scan : Scan} {now : Int}
    (scanning : source.scan = some scan)
    (taken : source.scanStep scan now = some target) :
    Moves baseTag source (.scan now) target := by
  rw [scanStep] at taken
  split at taken
  · obtain rfl := Option.some.inj taken
    exact .endScan
  · rename_i id remaining next
    split_ifs at taken with full starts
    · obtain rfl := Option.some.inj taken
      exact .endScan
    · obtain ⟨listed, present, rfl⟩ := Option.map_eq_some_iff.mp taken
      exact .restart scanning next (lookup_found present).2 starts
    · obtain ⟨listed, present, rfl⟩ := Option.map_eq_some_iff.mp taken
      refine .look scanning next (lookup_found present).2 (fun first => ?_)
        starts
      by_contra room
      exact full ⟨first, room⟩

variable [DecidableEq Name] {platform : HintPlatform Name}
  {baseTag : Name → Bytes}

theorem proceed_moves {answer : Name} {now : Int} {point : ExecutorPoint Name}
    (here : source.point = some point)
    (taken : source.proceed platform baseTag answer now point = some target) :
    Moves baseTag source (.proceed answer now) target := by
  cases point with
  | finishCallback id =>
      obtain ⟨listed, present, rfl⟩ := Option.map_eq_some_iff.mp taken
      have found := (lookup_found present).2
      exact .enterTimedWait _ here found rfl rfl
        (completions_append listed.fetching _)
  | onFetchFailed id =>
      simp only [proceed] at taken
      split_ifs at taken with free
      obtain rfl := Option.some.inj taken
      exact .countFailure here free
  | nextRetry id =>
      obtain ⟨listed, present, rfl⟩ := Option.map_eq_some_iff.mp taken
      have found := (lookup_found present).2
      refine .work source.order found ⟨rfl, rfl, rfl, ?_⟩ (.inr ⟨id, here, rfl⟩)
      exact fun _ _ unfinished => unfinished.setForwardingHint _
  | timedWait id baseName =>
      obtain rfl := Option.some.inj taken
      exact .scheduleTimedWait here

theorem step_moves {label : ThreadStep Name}
    (taken : step decodeData platform baseTag source label = some target) :
    Moves baseTag source label target := by
  cases label with
  | enqueue deviceName baseName minSeqNo maxSeqNo priority forwardingHint now =>
      simp only [step] at taken
      split_ifs at taken with empty free
      · obtain rfl := Option.some.inj taken
        exact .refuse
      · obtain rfl := Option.some.inj taken
        exact .addFetcher priority (fresh_enqueue _ _ _ empty now) free
  | scheduleFetches now =>
      simp only [step] at taken
      split_ifs at taken with free
      obtain rfl := Option.some.inj taken
      exact .beginScan now free
  | scan now =>
      obtain ⟨scan, scanning, moved⟩ := Option.bind_eq_some_iff.mp taken
      exact scanStep_moves scanning moved
  | onData id index data =>
      exact answer_moves (.inl ⟨index, data, rfl⟩) taken
  | onTimeout id index => exact answer_moves (.inr ⟨index, rfl⟩) taken
  | execute now =>
      simp only [step] at taken
      split_ifs at taken with idle
      obtain ⟨⟨id, listed, job, jobs⟩, next, ran⟩ :=
        Option.bind_eq_some_iff.mp taken
      exact runJob_moves idle next ran
  | proceed answer now =>
      obtain ⟨point, here, moved⟩ := Option.bind_eq_some_iff.mp taken
      exact proceed_moves here moved
  | scheduler action =>
      simp only [step] at taken
      split_ifs at taken with proceeds
      obtain ⟨scheduler, moved, rfl⟩ := Option.map_eq_some_iff.mp taken
      exact .scheduler proceeds moved
  | timedWait =>
      simp only [step] at taken
      split_ifs at taken with free
      obtain ⟨id, removes, moved⟩ := Option.bind_eq_some_iff.mp taken
      obtain ⟨task, runs, bound⟩ := Option.bind_eq_some_iff.mp removes
      obtain ⟨scheduler, returned, rfl⟩ := Option.map_eq_some_iff.mp moved
      exact .dispose free runs bound returned

end Moves

/-- Segments of `/bob`, without a forwarding hint. -/
def fetchBob (minSeqNo maxSeqNo : UInt64) : ThreadStep Name :=
  .enqueue Name.alex Name.bob minSeqNo maxSeqNo 0 (Name.ofComponents []) 0

/-- The looks of `ScheduleFetches` at a fetcher that it starts. -/
def startOne (now : Int) : List (ThreadStep Name) :=
  [.scan now, .scan now, .scan now, .scan now]

end FetchThreads

end ChronoShare
