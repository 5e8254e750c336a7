import ChronoShare.Support.Run
import Mathlib.Data.List.Basic

/-!
# The workers of an executor

Any thread may submit a job; the workers wait for one on a condition variable.
Every critical section under the mutex is one step, and so is a return from
the wait, which may be notified or spurious.  A submission notifies a worker
only if it finds the queue empty, so that a second one can be left to the
worker that was woken for the first.
-/

namespace ChronoShare

/-- Where a worker stands in `run`: on its way to lock the mutex for
`waitForJob`, blocked in the wait, out of it and on its way to lock the mutex
again, or running a job. -/
inductive WorkerPoint (Job : Type) where
  | entering
  | waiting
  | woken (notified : Bool)
  | running (job : Job)
  deriving DecidableEq, Repr

structure Executor (Job : Type) where
  queue : List Job
  workers : List (WorkerPoint Job)
  deriving DecidableEq, Repr

/-- `execute` names the worker that `notify_one` wakes. -/
inductive ExecutorStep (Job : Type) where
  | execute (job : Job) (wakes : Option Nat)
  | waitForJob (worker : Nat)
  | spuriousWakeup (worker : Nat)
  | jobReturns (worker : Nat)
  deriving DecidableEq, Repr

namespace WorkerPoint

variable {Job : Type}

def isWaiting : WorkerPoint Job → Bool
  | waiting => true
  | _ => false

def isNotified : WorkerPoint Job → Bool
  | woken notified => notified
  | _ => false

/-- The mutex is what the worker waits for. -/
def locks : WorkerPoint Job → Bool
  | entering => true
  | woken _ => true
  | _ => false

end WorkerPoint

namespace Executor

variable {Job : Type}

/-- The threads of the pool have been created, and none has run yet. -/
def start (poolSize : Nat) : Executor Job :=
  ⟨[], List.replicate poolSize .entering⟩

def set (executor : Executor Job) (worker : Nat) (point : WorkerPoint Job) :
    Executor Job :=
  { executor with workers := executor.workers.set worker point }

/-- `m_cond.notify_one ()` wakes one of the blocked workers, if there is
any. -/
def notifyOne (executor : Executor Job) (wakes : Option Nat) :
    Option (Executor Job) :=
  match wakes with
  | none =>
      if executor.workers.any (·.isWaiting) then none else some executor
  | some worker =>
      match executor.workers[worker]? with
      | some .waiting => some (executor.set worker (.woken true))
      | _ => none

def execute (executor : Executor Job) (job : Job) (wakes : Option Nat) :
    Option (Executor Job) :=
  let pushed := { executor with queue := executor.queue ++ [job] }
  if executor.queue.isEmpty then
    pushed.notifyOne wakes
  else if wakes = none then
    some pushed
  else
    none

/-- The critical section of `waitForJob`, from locking the mutex to unlocking
it: the worker blocks on an empty queue and takes the first job of another. -/
def waitForJob (executor : Executor Job) (worker : Nat) : Executor Job :=
  match executor.queue with
  | [] => executor.set worker .waiting
  | job :: queue => ({ executor with queue }).set worker (.running job)

def step (executor : Executor Job) :
    ExecutorStep Job → Option (Executor Job)
  | .execute job wakes => executor.execute job wakes
  | .waitForJob worker =>
      match executor.workers[worker]? with
      | some point =>
          if point.locks then some (executor.waitForJob worker) else none
      | none => none
  | .spuriousWakeup worker =>
      match executor.workers[worker]? with
      | some .waiting => some (executor.set worker (.woken false))
      | _ => none
  | .jobReturns worker =>
      match executor.workers[worker]? with
      | some (.running _) => some (executor.set worker .entering)
      | _ => none

def Step (source : Executor Job) (label : ExecutorStep Job)
    (target : Executor Job) : Prop :=
  source.step label = some target

/-- The workers blocked in `waitForJob`. -/
def idle (executor : Executor Job) : Nat :=
  executor.workers.countP (·.isWaiting)

/-- The notifications that no worker has acted on. -/
def notified (executor : Executor Job) : Nat :=
  executor.workers.countP (·.isNotified)

/-- There is no job in the queue, no worker blocked, or a notification
outstanding. -/
def Attended (executor : Executor Job) : Prop :=
  ¬ (0 < executor.queue.length ∧ 0 < executor.idle ∧ executor.notified = 0)

instance (executor : Executor Job) : Decidable executor.Attended :=
  inferInstanceAs (Decidable (¬ _))

def ByWorker : ExecutorStep Job → Prop
  | .execute _ _ => False
  | _ => True

/-- A job submitted to a queue that is not empty finds no worker blocked, or
more workers notified than jobs queued. -/
def Prompt (executor : Executor Job) (label : ExecutorStep Job) : Prop :=
  ByWorker label ∨ executor.queue = [] ∨ executor.idle = 0 ∨
    executor.queue.length < executor.notified

instance : DecidablePred (@ByWorker Job)
  | .execute _ _ => inferInstanceAs (Decidable False)
  | .waitForJob _ => inferInstanceAs (Decidable True)
  | .spuriousWakeup _ => inferInstanceAs (Decidable True)
  | .jobReturns _ => inferInstanceAs (Decidable True)

instance [DecidableEq Job] (executor : Executor Job)
    (label : ExecutorStep Job) : Decidable (executor.Prompt label) :=
  inferInstanceAs (Decidable (_ ∨ _ ∨ _ ∨ _))

/-- Whatever the workers do next, a queued job is attended to. -/
def StaysAttended (executor : Executor Job) : Prop :=
  ∀ trace reached, Run Step executor trace reached →
    (∀ taken ∈ trace, ByWorker taken.2) → reached.Attended

variable {executor source target : Executor Job} {worker : Nat}
  {point : WorkerPoint Job} {label : ExecutorStep Job}

@[simp] theorem set_queue (executor : Executor Job) (worker : Nat)
    (next : WorkerPoint Job) :
    (executor.set worker next).queue = executor.queue :=
  rfl

private theorem ite_eq_toNat (value : Bool) :
    (if value = true then 1 else 0) = value.toNat := by
  cases value <;> rfl

theorem countP_set (counts : WorkerPoint Job → Bool)
    (here : executor.workers[worker]? = some point)
    (next : WorkerPoint Job) :
    (executor.set worker next).workers.countP counts +
        (counts point).toNat =
      executor.workers.countP counts + (counts next).toNat := by
  obtain ⟨inside, read⟩ := List.getElem?_eq_some_iff.mp here
  have counted := List.countP_set (p := counts) (a := next) inside
  have enough := List.boole_getElem_le_countP (p := counts) inside
  rw [read] at counted enough
  rw [ite_eq_toNat] at counted enough
  rw [ite_eq_toNat] at counted
  rw [set, counted]
  omega

theorem idle_set (here : executor.workers[worker]? = some point)
    (next : WorkerPoint Job) :
    (executor.set worker next).idle + point.isWaiting.toNat =
      executor.idle + next.isWaiting.toNat :=
  countP_set (·.isWaiting) here next

theorem notified_set (here : executor.workers[worker]? = some point)
    (next : WorkerPoint Job) :
    (executor.set worker next).notified + point.isNotified.toNat =
      executor.notified + next.isNotified.toNat :=
  countP_set (·.isNotified) here next

/-- What a step does to the queue and to the two counts. -/
inductive Effect (source : Executor Job) :
    ExecutorStep Job → Executor Job → Prop where
  | notifies {job : Job} {wakes : Option Nat} {target : Executor Job} :
      source.queue = [] → target.queue = [job] →
      (0 < target.idle → 0 < target.notified) →
      Effect source (.execute job wakes) target
  | joins {job : Job} {wakes : Option Nat} :
      source.queue ≠ [] →
      Effect source (.execute job wakes)
        { source with queue := source.queue ++ [job] }
  | blocks {worker : Nat} {target : Executor Job} :
      source.queue = [] → target.queue = [] →
      Effect source (.waitForJob worker) target
  | takes {worker : Nat} {point : WorkerPoint Job} {job : Job}
      {target : Executor Job} :
      source.workers[worker]? = some point →
      source.queue = job :: target.queue → target.idle = source.idle →
      target.notified + point.isNotified.toNat = source.notified →
      Effect source (.waitForJob worker) target
  | wakes {worker : Nat} {target : Executor Job} :
      target.queue = source.queue → target.idle < source.idle →
      target.notified = source.notified →
      Effect source (.spuriousWakeup worker) target
  | returns {worker : Nat} {target : Executor Job} :
      target.queue = source.queue → target.idle = source.idle →
      target.notified = source.notified →
      Effect source (.jobReturns worker) target

/-- After `notify_one` a worker is notified, unless none was blocked. -/
theorem notifyOne_spec {wakes : Option Nat}
    (taken : source.notifyOne wakes = some target) :
    target.queue = source.queue ∧ (0 < target.idle → 0 < target.notified) := by
  cases wakes with
  | none =>
      simp only [notifyOne] at taken
      split at taken
      · cases taken
      · rename_i noWaiting
        obtain rfl := Option.some.inj taken
        refine ⟨rfl, fun waiting => absurd ?_ noWaiting⟩
        exact List.any_eq_true.mpr (List.countP_pos_iff.mp waiting)
  | some worker =>
      simp only [notifyOne] at taken
      split at taken
      · rename_i here
        obtain rfl := Option.some.inj taken
        have counted := notified_set here (.woken true)
        simp only [WorkerPoint.isNotified, Bool.toNat_true,
          Bool.toNat_false] at counted
        refine ⟨rfl, fun _ => ?_⟩
        omega
      · cases taken

theorem execute_effect {job : Job} {wakes : Option Nat}
    (taken : source.execute job wakes = some target) :
    Effect source (.execute job wakes) target := by
  unfold execute at taken
  cases queued : source.queue with
  | nil =>
      rw [queued, List.isEmpty_nil, if_pos rfl] at taken
      obtain ⟨pushed, attended⟩ := notifyOne_spec taken
      exact .notifies queued pushed attended
  | cons first rest =>
      rw [queued, List.isEmpty_cons, if_neg Bool.false_ne_true] at taken
      split at taken
      · obtain rfl := Option.some.inj taken
        rw [← queued]
        exact .joins (queued ▸ List.cons_ne_nil first rest)
      · cases taken

theorem waitForJob_effect (here : source.workers[worker]? = some point)
    (ready : point.locks = true) :
    Effect source (.waitForJob worker) (source.waitForJob worker) := by
  have notWaiting : point.isWaiting = false := by
    cases point <;> first | rfl | cases ready
  cases queued : source.queue with
  | nil =>
      rw [waitForJob, queued]
      exact .blocks queued queued
  | cons job rest =>
      have popped : ({ source with queue := rest } : Executor Job).workers[
          worker]? = some point := here
      have idle := idle_set popped (.running job)
      have notified := notified_set popped (.running job)
      rw [notWaiting] at idle
      rw [waitForJob, queued]
      exact .takes here queued idle notified

theorem step_effect (taken : source.Step label target) :
    Effect source label target := by
  cases label with
  | execute job wakes => exact execute_effect taken
  | waitForJob worker =>
      simp only [Step, step] at taken
      split at taken
      · rename_i here
        split at taken
        · rename_i ready
          obtain rfl := Option.some.inj taken
          exact waitForJob_effect here ready
        · cases taken
      · cases taken
  | spuriousWakeup worker =>
      simp only [Step, step] at taken
      split at taken
      · rename_i here
        obtain rfl := Option.some.inj taken
        have idle := idle_set here (.woken false)
        simp only [WorkerPoint.isWaiting, Bool.toNat_true,
          Bool.toNat_false] at idle
        exact .wakes rfl (by omega) (notified_set here (.woken false))
      · cases taken
  | jobReturns worker =>
      simp only [Step, step] at taken
      split at taken
      · rename_i here
        obtain rfl := Option.some.inj taken
        exact .returns rfl (idle_set here .entering)
          (notified_set here .entering)
      · cases taken

/-- While a worker is blocked, every queued job has a notified worker. -/
def Covered (executor : Executor Job) : Prop :=
  0 < executor.idle → executor.queue.length ≤ executor.notified

theorem Covered.attended (covered : executor.Covered) : executor.Attended := by
  rintro ⟨queued, waiting, none⟩
  have enough := covered waiting
  omega

theorem start_covered (poolSize : Nat) :
    (start poolSize : Executor Job).Covered :=
  fun _ => Nat.zero_le _

theorem covered_byWorker (taken : source.Step label target)
    (byWorker : ByWorker label) (covered : source.Covered) :
    target.Covered := by
  intro waiting
  cases step_effect taken with
  | notifies _ _ _ => cases byWorker
  | joins _ => cases byWorker
  | blocks _ empty =>
      rw [empty]
      exact Nat.zero_le _
  | @takes worker point job target here popped idle notified =>
      have enough := covered (idle ▸ waiting)
      have one := Bool.toNat_le point.isNotified
      rw [popped, List.length_cons] at enough
      omega
  | wakes sameQueue idle notified =>
      have enough := covered (by omega)
      rw [sameQueue, notified]
      exact enough
  | returns sameQueue idle notified =>
      rw [sameQueue, notified]
      exact covered (idle ▸ waiting)

theorem covered_execute_iff {job : Job} {wakes : Option Nat}
    (taken : source.Step (.execute job wakes) target) :
    target.Covered ↔ source.Prompt (.execute job wakes) := by
  cases step_effect taken with
  | notifies empty pushed notified =>
      constructor
      · intro _
        exact Or.inr (Or.inl empty)
      · intro _ waiting
        rw [pushed]
        exact notified waiting
  | joins occupied =>
      have longer : (source.queue ++ [job]).length =
          source.queue.length + 1 := by
        rw [List.length_append, List.length_singleton]
      constructor
      · intro covered
        apply Or.inr
        apply Or.inr
        rcases Nat.eq_zero_or_pos source.idle with busy | waiting
        · exact Or.inl busy
        · have enough := covered waiting
          rw [longer] at enough
          exact Or.inr enough
      · rintro (byWorker | empty | busy | enough) waiting
        · cases byWorker
        · exact absurd empty occupied
        · exact absurd waiting (busy ▸ Nat.lt_irrefl 0)
        · rw [longer]
          exact enough

theorem covered_iff (taken : source.Step label target)
    (covered : source.Covered) : target.Covered ↔ source.Prompt label := by
  by_cases byWorker : ByWorker label
  · have kept := covered_byWorker taken byWorker covered
    exact ⟨fun _ => Or.inl byWorker, fun _ => kept⟩
  · cases label with
    | execute job wakes => exact covered_execute_iff taken
    | _ => exact absurd trivial byWorker

theorem exists_takes (occupied : 0 < source.queue.length)
    (outstanding : 0 < source.notified) :
    ∃ worker target, source.Step (.waitForJob worker) target ∧
      target.idle = source.idle ∧
      target.notified + 1 = source.notified ∧
      target.queue.length + 1 = source.queue.length := by
  obtain ⟨point, member, notified⟩ := List.countP_pos_iff.mp outstanding
  obtain ⟨worker, here⟩ := List.mem_iff_getElem?.mp member
  have ready : point.locks = true := by
    cases point <;> first | rfl | cases notified
  refine ⟨worker, source.waitForJob worker, ?_, ?_⟩
  · simp only [Step, step, here, ready, if_true]
  · cases waitForJob_effect here ready with
    | blocks empty _ =>
        rw [empty] at occupied
        exact absurd occupied (Nat.lt_irrefl 0)
    | takes found popped idle counted =>
        obtain rfl := Option.some.inj (here.symm.trans found)
        rw [notified] at counted
        exact ⟨idle, counted, by rw [popped, List.length_cons]⟩

/-- The notified workers take a job each; what they leave in the queue has
none, while another worker is blocked. -/
theorem exists_unattended (uncovered : ¬ executor.Covered) :
    ∃ trace reached, Run Step executor trace reached ∧
      (∀ taken ∈ trace, ByWorker taken.2) ∧ ¬ reached.Attended := by
  generalize outstanding : executor.notified = count
  induction count generalizing executor with
  | zero =>
      refine ⟨[], executor, .nil, nofun, fun attended => uncovered ?_⟩
      intro waiting
      by_contra occupied
      exact attended ⟨by omega, waiting, outstanding⟩
  | succ count induction =>
      have lacking : 0 < executor.idle ∧
          executor.notified < executor.queue.length := by
        unfold Covered at uncovered
        omega
      have pending : 0 < executor.notified := by omega
      have occupied : 0 < executor.queue.length := by omega
      obtain ⟨worker, target, taken, idle, notified, shorter⟩ :=
        exists_takes occupied pending
      have still : ¬ target.Covered := by
        unfold Covered
        omega
      obtain ⟨trace, reached, run, byWorkers, unattended⟩ :=
        induction still (by omega)
      have first : Run Step executor [(executor, .waitForJob worker)] target :=
        .snoc .nil taken
      refine ⟨_, reached, first.append run, ?_, unattended⟩
      intro other member
      rcases List.mem_cons.mp member with here | later
      · rw [here]
        trivial
      · exact byWorkers other later

theorem covered_iff_staysAttended :
    executor.Covered ↔ executor.StaysAttended := by
  constructor
  · intro covered trace reached run byWorkers
    apply Covered.attended
    exact run.invariant_of_steps (fun _ label => ByWorker label) byWorkers
      covered fun _ _ _ byWorker taken => covered_byWorker taken byWorker
  · intro attended
    by_contra uncovered
    obtain ⟨trace, reached, run, byWorkers, unattended⟩ :=
      exists_unattended uncovered
    exact unattended (attended trace reached run byWorkers)

/-- In a run of an executor every queued job is attended to in every state, and
in every state its workers can go on to, exactly if every submission is
prompt. -/
theorem attended_iff_prompt {poolSize : Nat} {final : Executor Job}
    {trace : List (Executor Job × ExecutorStep Job)}
    (run : Run Step (start poolSize) trace final) :
    ((∀ taken ∈ trace, taken.1.Attended ∧ taken.1.StaysAttended) ∧
        final.Attended ∧ final.StaysAttended) ↔
      ∀ taken ∈ trace, taken.1.Prompt taken.2 := by
  have stays : ∀ executor : Executor Job,
      (executor.Attended ∧ executor.StaysAttended) ↔ executor.Covered := by
    intro executor
    rw [← covered_iff_staysAttended]
    exact ⟨And.right, fun covered => ⟨covered.attended, covered⟩⟩
  simp only [stays]
  have decided := run.always_iff (fun _ => True)
    (fun source label => ¬ source.Prompt label) trivial
    (start_covered poolSize) (fun _ _ _ _ _ => trivial)
    fun _ _ _ taken _ (covered : Covered _) => by
      rw [not_not]
      exact covered_iff taken covered
  simpa only [not_not] using decided

theorem idle_add_notified_le (executor : Executor Job) :
    executor.idle + executor.notified ≤ executor.workers.length := by
  unfold idle notified
  induction executor.workers with
  | nil => exact Nat.le_refl 0
  | cons point rest induction =>
      rw [List.countP_cons, List.countP_cons, List.length_cons]
      have apart : point.isWaiting.toNat + point.isNotified.toNat ≤ 1 := by
        cases point with
        | woken notified => cases notified <;> first
            | exact Nat.zero_le 1 | exact Nat.le_refl 1
        | waiting => exact Nat.le_refl 1
        | _ => exact Nat.zero_le 1
      rw [ite_eq_toNat, ite_eq_toNat]
      omega

theorem workers_length (taken : source.Step label target) :
    target.workers.length = source.workers.length := by
  have kept : ∀ worker next, (source.set worker next).workers.length =
      source.workers.length :=
    fun worker next => List.length_set
  cases label with
  | execute job wakes =>
      simp only [Step, step, execute, notifyOne] at taken
      split at taken
      · split at taken <;> split at taken <;> cases taken
        · rfl
        · exact List.length_set
      · split at taken <;> cases taken
        rfl
  | waitForJob worker =>
      simp only [Step, step, waitForJob] at taken
      split at taken
      · split at taken
        · split at taken <;> cases taken <;> exact List.length_set
        · cases taken
      · cases taken
  | spuriousWakeup worker =>
      simp only [Step, step] at taken
      split at taken <;> cases taken
      exact kept worker _
  | jobReturns worker =>
      simp only [Step, step] at taken
      split at taken <;> cases taken
      exact kept worker _

theorem single_worker_attended {poolSize : Nat} {final : Executor Job}
    {trace : List (Executor Job × ExecutorStep Job)} (single : poolSize ≤ 1)
    (run : Run Step (start poolSize) trace final) :
    final.Attended := by
  have always : final.workers.length ≤ 1 ∧ final.Covered := by
    refine @Run.invariant _ _ _ _ _ _
      (fun executor => executor.workers.length ≤ 1 ∧ executor.Covered) run
      ?_ ?_
    · exact ⟨by simpa [start] using single, start_covered poolSize⟩
    · intro source label target taken earlier
      obtain ⟨few, covered⟩ := earlier
      rw [workers_length taken]
      refine ⟨few, (covered_iff taken covered).mpr ?_⟩
      have bound := source.idle_add_notified_le
      rcases Nat.eq_zero_or_pos source.idle with busy | waiting
      · exact Or.inr (Or.inr (Or.inl busy))
      · have enough := covered waiting
        exact Or.inr (Or.inl (List.eq_nil_of_length_eq_zero (by omega)))
  exact always.2.attended

/-- The second job is submitted when the first has been taken. -/
def promptSubmissions : List (ExecutorStep Nat) :=
  [.waitForJob 0, .waitForJob 1, .execute 1 (some 0), .waitForJob 0,
    .execute 2 (some 1), .waitForJob 1]

theorem attended_promptSubmissions :
    ∃ trace final, Run Step (start 2) trace final ∧
      trace.map Prod.snd = promptSubmissions ∧
      (∀ taken ∈ trace, taken.1.Attended ∧ taken.1.StaysAttended) ∧
      final.Attended ∧ final.StaysAttended := by
  have executed : (ChronoShare.execute step (start 2) promptSubmissions).any
      (fun result => result.1.map Prod.snd = promptSubmissions ∧
        ∀ taken ∈ result.1, taken.1.Prompt taken.2) = true := by
    decide +kernel
  obtain ⟨⟨trace, final⟩, reached, facts⟩ :=
    (Option.any_eq_true _ _).mp executed
  obtain ⟨labels, prompt⟩ := of_decide_eq_true facts
  have run := execute_run reached
  exact ⟨trace, final, run, labels, (attended_iff_prompt run).mpr prompt⟩

/-- The second job is submitted before the worker woken for the first has
taken it. -/
def hastySubmissions : List (ExecutorStep Nat) :=
  [.waitForJob 0, .waitForJob 1, .execute 1 (some 0), .execute 2 none,
    .waitForJob 0]

/-- The second job waits for the worker that runs the first, while the other
worker stays blocked. -/
theorem second_job_unattended :
    ∃ trace final, Run Step (start 2) trace final ∧
      trace.map Prod.snd = hastySubmissions ∧
      final.queue = [2] ∧ final.workers = [.running 1, .waiting] ∧
      ¬ final.Attended := by
  have executed : (ChronoShare.execute step (start 2) hastySubmissions).any
      (fun result => result.1.map Prod.snd = hastySubmissions ∧
        result.2.queue = [2] ∧
        result.2.workers = [.running 1, .waiting] ∧
        ¬ result.2.Attended) = true := by
    decide +kernel
  obtain ⟨⟨trace, final⟩, reached, facts⟩ :=
    (Option.any_eq_true _ _).mp executed
  exact ⟨trace, final, execute_run reached, of_decide_eq_true facts⟩

end Executor

end ChronoShare
