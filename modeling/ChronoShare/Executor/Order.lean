import ChronoShare.Executor.Workers
import Mathlib.Data.List.Perm.Basic

/-!
# The order of jobs

Jobs are taken from the queue in the order of their submission, each by one
worker.  An executor with one worker, as the dispatcher has it, runs them one
after another.
-/

namespace ChronoShare

variable {Job : Type}

def WorkerPoint.job? : WorkerPoint Job → Option Job
  | running job => some job
  | _ => none

namespace Executor

def running (executor : Executor Job) : List Job :=
  executor.workers.filterMap (·.job?)

def submits : Executor Job × ExecutorStep Job → Option Job
  | (_, .execute job _) => some job
  | _ => none

def starts : Executor Job × ExecutorStep Job → Option Job
  | (source, .waitForJob _) => source.queue.head?
  | _ => none

def ends : Executor Job × ExecutorStep Job → Option Job
  | (source, .jobReturns worker) => source.workers[worker]?.bind (·.job?)
  | _ => none

variable {executor source target : Executor Job} {worker : Nat} {job : Job}
  {point : WorkerPoint Job} {label : ExecutorStep Job}

theorem exists_beside (here : executor.workers[worker]? = some point) :
    ∃ before after, executor.workers = before ++ point :: after ∧
      ∀ next, (executor.set worker next).workers =
        before ++ next :: after := by
  obtain ⟨inside, rfl⟩ := List.getElem?_eq_some_iff.mp here
  refine ⟨executor.workers.take worker, executor.workers.drop (worker + 1),
    ?_, ?_⟩
  · rw [List.getElem_cons_drop, List.take_append_drop]
  · intro next
    rw [set, List.set_eq_take_append_cons_drop, if_pos inside]

theorem filterMap_beside (before after : List (WorkerPoint Job)) :
    (before ++ point :: after).filterMap (·.job?) =
      before.filterMap (·.job?) ++ (point.job?.toList ++
        after.filterMap (·.job?)) := by
  cases found : point.job? with
  | none => simp [found]
  | some job => simp [found]

theorem running_set (here : executor.workers[worker]? = some point)
    (next : WorkerPoint Job) :
    ∃ front back, executor.running = front ++ (point.job?.toList ++ back) ∧
      (executor.set worker next).running =
        front ++ (next.job?.toList ++ back) := by
  obtain ⟨before, after, split, others⟩ := exists_beside here
  refine ⟨before.filterMap (·.job?), after.filterMap (·.job?), ?_, ?_⟩
  · rw [running, split, filterMap_beside]
  · rw [running, others, filterMap_beside]

theorem running_set_idle (here : executor.workers[worker]? = some point)
    (next : WorkerPoint Job) (before : point.job? = none)
    (after : next.job? = none) :
    (executor.set worker next).running = executor.running := by
  obtain ⟨front, back, split, others⟩ := running_set here next
  rw [split, others, before, after]

/-- What a step does to the queue and to the jobs that are being run. -/
inductive Moves (source : Executor Job) :
    ExecutorStep Job → Executor Job → Prop where
  | submits {job : Job} {wakes : Option Nat} {target : Executor Job} :
      target.queue = source.queue ++ [job] →
      target.running = source.running →
      Moves source (.execute job wakes) target
  | starts {worker : Nat} {job : Job} {target : Executor Job}
      {front back : List Job} :
      source.queue = job :: target.queue → source.running = front ++ back →
      target.running = front ++ job :: back →
      Moves source (.waitForJob worker) target
  | returns {worker : Nat} {job : Job} {target : Executor Job}
      {front back : List Job} :
      ends (source, .jobReturns worker) = some job →
      target.queue = source.queue → source.running = front ++ job :: back →
      target.running = front ++ back →
      Moves source (.jobReturns worker) target
  | nothing {label : ExecutorStep Job} {target : Executor Job} :
      submits (source, label) = none → starts (source, label) = none →
      ends (source, label) = none → target.queue = source.queue →
      target.running = source.running → Moves source label target

theorem notifyOne_moves {wakes : Option Nat}
    (taken : source.notifyOne wakes = some target) :
    target.queue = source.queue ∧ target.running = source.running := by
  cases wakes with
  | none =>
      simp only [notifyOne] at taken
      split at taken
      · cases taken
      · cases taken
        exact ⟨rfl, rfl⟩
  | some worker =>
      simp only [notifyOne] at taken
      split at taken
      · rename_i here
        cases taken
        exact ⟨rfl, running_set_idle here _ rfl rfl⟩
      · cases taken

theorem execute_moves {wakes : Option Nat}
    (taken : source.execute job wakes = some target) :
    Moves source (.execute job wakes) target := by
  rw [execute] at taken
  split_ifs at taken
  · obtain ⟨queue, running⟩ := notifyOne_moves taken
    exact .submits queue running
  · cases taken
    exact .submits rfl rfl

theorem waitForJob_moves (here : source.workers[worker]? = some point)
    (ready : point.locks = true) :
    Moves source (.waitForJob worker) (source.waitForJob worker) := by
  have idle : point.job? = none := by
    cases point with
    | running => cases ready
    | _ => rfl
  cases queued : source.queue with
  | nil =>
      rw [waitForJob, queued]
      refine .nothing rfl ?_ rfl rfl (running_set_idle here _ idle rfl)
      rw [starts, queued]
      rfl
  | cons job rest =>
      have popped : ({ source with queue := rest } : Executor Job).workers[
          worker]? = some point := here
      obtain ⟨front, back, split, others⟩ := running_set popped (.running job)
      rw [idle] at split
      rw [waitForJob, queued]
      exact .starts queued split others

theorem step_moves (taken : source.Step label target) :
    Moves source label target := by
  cases label with
  | execute job wakes => exact execute_moves taken
  | waitForJob worker =>
      simp only [Step, step] at taken
      split at taken
      · rename_i here
        split_ifs at taken with ready
        cases taken
        exact waitForJob_moves here ready
      · cases taken
  | spuriousWakeup worker =>
      simp only [Step, step] at taken
      split at taken
      · rename_i here
        cases taken
        exact .nothing rfl rfl rfl rfl (running_set_idle here _ rfl rfl)
      · cases taken
  | jobReturns worker =>
      simp only [Step, step] at taken
      split at taken
      · rename_i job here
        cases taken
        obtain ⟨front, back, split, others⟩ := running_set here .entering
        refine .returns ?_ rfl split others
        simp [ends, here, WorkerPoint.job?]
      · cases taken

/-- Where the submitted jobs are. -/
structure Accounted (trace : List (Executor Job × ExecutorStep Job))
    (executor : Executor Job) : Prop where
  inOrder : trace.filterMap submits =
    trace.filterMap starts ++ executor.queue
  once : (trace.filterMap starts).Perm
    (trace.filterMap ends ++ executor.running)
  alone : executor.workers.length ≤ 1 →
    trace.filterMap starts = trace.filterMap ends ++ executor.running

theorem nil_beside {front back : List Job}
    (split : executor.running = front ++ job :: back)
    (single : executor.workers.length ≤ 1) : front = [] ∧ back = [] := by
  have bound : executor.running.length ≤ executor.workers.length :=
    List.length_filterMap_le _ _
  rw [split, List.length_append, List.length_cons] at bound
  constructor
  · exact List.eq_nil_of_length_eq_zero (by omega)
  · exact List.eq_nil_of_length_eq_zero (by omega)

theorem step_accounted {trace : List (Executor Job × ExecutorStep Job)}
    (taken : source.Step label target) (accounted : Accounted trace source) :
    Accounted (trace ++ [(source, label)]) target := by
  have length := workers_length taken
  cases step_moves taken with
  | @submits job wakes target queue running =>
      have started : starts (source, .execute job wakes) = none := rfl
      have ended : ends (source, .execute job wakes) = none := rfl
      have submitted : submits (source, .execute job wakes) = some job := rfl
      constructor
      · simp [submitted, started, queue, accounted.inOrder]
      · simpa [started, ended, running] using accounted.once
      · rw [length]
        simpa [started, ended, running] using accounted.alone
  | @starts worker job target front back queue split running =>
      have submitted : submits (source, .waitForJob worker) = none := rfl
      have ended : ends (source, .waitForJob worker) = none := rfl
      have started : starts (source, .waitForJob worker) = some job := by
        rw [starts, queue]
        rfl
      constructor
      · simpa [submitted, started, queue] using accounted.inOrder
      · have once := accounted.once.append_right [job]
        rw [split, List.append_assoc] at once
        have moved : (front ++ back ++ [job]).Perm (front ++ job :: back) := by
          rw [List.append_assoc]
          exact (List.perm_append_singleton job back).append_left front
        simpa [started, ended, running] using
          once.trans (moved.append_left _)
      · intro single
        obtain ⟨rfl, rfl⟩ := nil_beside running single
        have alone := accounted.alone (length ▸ single)
        rw [split] at alone
        simp [started, ended, running, alone]
  | @returns worker job target front back ended queue split running =>
      have submitted : submits (source, .jobReturns worker) = none := rfl
      have started : starts (source, .jobReturns worker) = none := rfl
      constructor
      · simpa [submitted, started, queue] using accounted.inOrder
      · have once := accounted.once
        rw [split] at once
        simpa [started, ended, running] using
          once.trans (List.perm_middle.append_left _)
      · intro single
        rw [length] at single
        obtain ⟨rfl, rfl⟩ := nil_beside split single
        have alone := accounted.alone single
        rw [split] at alone
        simp [started, ended, running, alone]
  | nothing submitted started ended queue running =>
      constructor
      · simpa [submitted, started, queue] using accounted.inOrder
      · simpa [started, ended, running] using accounted.once
      · rw [length]
        simpa [started, ended, running] using accounted.alone

theorem start_accounted (poolSize : Nat) :
    Accounted [] (start poolSize : Executor Job) := by
  have idle : (start poolSize : Executor Job).running = [] := by
    simp [running, start, WorkerPoint.job?]
  constructor
  · rfl
  · simp [idle]
  · simp [idle]

/-- In every run the jobs are taken in the order of their submission, each once;
each is still queued, being run, or has returned; and with one worker they
return in that order as well, one after another. -/
theorem jobs_run_in_order {poolSize : Nat} {final : Executor Job}
    {trace : List (Executor Job × ExecutorStep Job)}
    (run : Run Step (start poolSize) trace final) :
    trace.filterMap submits = trace.filterMap starts ++ final.queue ∧
      (trace.filterMap starts).Perm
        (trace.filterMap ends ++ final.running) ∧
      (poolSize ≤ 1 → final.running.length ≤ 1 ∧
        trace.filterMap submits =
          trace.filterMap ends ++ final.running ++ final.queue) := by
  have accounted : Accounted trace final :=
    run.trace_invariant_of_steps (fun _ _ => True) (fun _ _ => trivial)
      (start_accounted poolSize)
      fun _ _ _ _ _ taken accounted => step_accounted taken accounted
  have length : final.workers.length = poolSize := by
    refine @Run.invariant _ _ _ _ _ _
      (fun executor => executor.workers.length = poolSize) run ?_ ?_
    · exact List.length_replicate
    · exact fun _ _ _ taken earlier => (workers_length taken).trans earlier
  refine ⟨accounted.inOrder, accounted.once, ?_⟩
  intro single
  refine ⟨?_, ?_⟩
  · calc
      final.running.length ≤ final.workers.length :=
        List.length_filterMap_le _ _
      _ ≤ 1 := length ▸ single
  · rw [accounted.inOrder, accounted.alone (length ▸ single)]

/-- The worker runs the first of two jobs and takes the second. -/
def twoJobs : List (ExecutorStep Nat) :=
  [.execute 7 none, .execute 8 none, .waitForJob 0, .jobReturns 0,
    .waitForJob 0]

theorem jobs_run_in_order_twice :
    ∃ trace final, Run Step (start 1 : Executor Nat) trace final ∧
      trace.filterMap ends = [7] ∧ final.running = [8] ∧
      trace.filterMap submits =
        trace.filterMap ends ++ final.running ++ final.queue := by
  have executed : (ChronoShare.execute step (start 1) twoJobs).any
      (fun result => result.1.filterMap ends = [7] ∧
        result.2.running = [8]) = true := by
    decide +kernel
  obtain ⟨⟨trace, final⟩, reached, facts⟩ :=
    (Option.any_eq_true _ _).mp executed
  obtain ⟨ended, running⟩ := of_decide_eq_true facts
  have run := execute_run reached
  exact ⟨trace, final, run, ended, running,
    ((jobs_run_in_order run).2.2 (Nat.le_refl 1)).2⟩

end Executor

end ChronoShare
