import ChronoShare.Fetcher.Received
import ChronoShare.ActionLog.MessageFormat
import Mathlib.Data.List.Perm.Basic

/-!
# A fetcher that is active makes progress

The interests at the face and the answers on the executor carry exactly the
numbers in the pipeline.  An active fetcher with an empty pipeline therefore
waits for nothing, and must have received everything, provided that no number
was lost on the way.
-/

namespace ChronoShare

namespace Fetching

variable {Name : Type}

/-- The interests that wait at the face or whose answers wait on the
executor. -/
def pending (fetching : Fetching Name) : List (Expressed Name) :=
  fetching.jobs.filterMap Job.expressed ++ fetching.outstanding

/-- An active fetcher that has not received everything waits for an interest
or for a job. -/
def Progresses (fetching : Fetching Name) : Prop :=
  fetching.fetcher.active = true → ¬ fetching.AllReceived →
    fetching.outstanding ≠ [] ∨ fetching.jobs ≠ []

/-- The number in the pipeline that an answer is accounted to. -/
def number (expressed : Expressed Name) : Int64 :=
  expressed.seqno.toInt64

/-- The window with the answers it waits for. -/
structure Tracked (fetching : Fetching Name) : Prop where
  windowed : fetching.fetcher.Windowed
  accounted : (fetching.pending.map number).Perm
    fetching.fetcher.inActivePipeline

/-- An active fetcher with an empty pipeline has received everything, or is
about to fill the pipeline. -/
def Settled (fetching : Fetching Name) : Prop :=
  fetching.fetcher.active = true → fetching.fetcher.activePipeline = 0 →
    .fillPipeline ∉ fetching.jobs →
      fetching.fetcher.maxInOrderRecvSeqNo = fetching.fetcher.maxSeqNo

variable {fetching : Fetching Name}

theorem progresses_of_tracked (reported : fetching.Reported)
    (tracked : fetching.Tracked) (settled : fetching.Settled) :
    fetching.Progresses := by
  intro active incomplete
  by_contra idle
  obtain ⟨noInterest, noJob⟩ := not_or.mp idle
  have noInterest := not_not.mp noInterest
  have noJob := not_not.mp noJob
  have nothing : fetching.fetcher.inActivePipeline = [] := by
    have accounted := tracked.accounted
    rw [Fetching.pending, noInterest, noJob] at accounted
    exact accounted.nil_eq.symm
  have empty : fetching.fetcher.activePipeline = 0 := by
    apply UInt32.toNat_inj.mp
    rw [tracked.windowed.counted, nothing]
    rfl
  have finished := settled active empty (by simp [noJob])
  apply incomplete
  intro seqNo above below
  apply reported.inOrder seqNo above
  rw [finished]
  exact below

theorem number_express (fetcher : Fetcher Name) (seqNo : Int64) :
    number (fetcher.express seqNo) = seqNo := by
  simp [number, Fetcher.express]

theorem pending_enqueue (jobs : List (Job Name)) {job : Job Name}
    (free : job.expressed = none) :
    (jobs ++ [job]).filterMap Job.expressed =
      jobs.filterMap Job.expressed := by
  simp [List.filterMap_append, free]

theorem pending_answer {index : Nat} {expressed : Expressed Name}
    {job : Job Name}
    (found : fetching.outstanding[index]? = some expressed)
    (carries : job.expressed = some expressed) :
    (pending { fetching with
      outstanding := fetching.outstanding.eraseIdx index
      jobs := fetching.jobs ++ [job] }).Perm fetching.pending := by
  obtain ⟨bound, rfl⟩ := List.getElem?_eq_some_iff.mp found
  have moved := List.getElem_cons_eraseIdx_perm bound
  rw [pending, pending, List.filterMap_append]
  simp only [List.filterMap_cons, carries, List.filterMap_nil]
  rw [List.append_assoc]
  exact moved.append_left _

theorem start_tracked (deviceName name forwardingHint : Name)
    {minSeqNo maxSeqNo : Int64} (timeout : Int)
    (minimum : Int64.minValue < minSeqNo) (range : minSeqNo ≤ maxSeqNo) :
    (start (Fetcher.construct deviceName name forwardingHint minSeqNo maxSeqNo
      timeout)).Tracked :=
  ⟨Fetcher.construct_windowed _ _ _ timeout minimum range, List.Perm.refl _⟩

theorem Tracked.enqueue (tracked : fetching.Tracked) (job : Job Name)
    (free : job.expressed = none) :
    Tracked { fetching with jobs := fetching.jobs ++ [job] } := by
  refine ⟨tracked.windowed, ?_⟩
  rw [pending, pending_enqueue fetching.jobs free]
  exact tracked.accounted

theorem Tracked.restartPipeline (tracked : fetching.Tracked) (now : Int) :
    Tracked { fetching with
      fetcher := fetching.fetcher.restartPipeline now
      jobs := fetching.jobs ++ [.fillPipeline] } := by
  have queued := tracked.enqueue .fillPipeline rfl
  exact ⟨tracked.windowed.restartPipeline now, queued.accounted⟩

theorem Tracked.answer (tracked : fetching.Tracked) {index : Nat}
    {expressed : Expressed Name} {job : Job Name}
    (found : fetching.outstanding[index]? = some expressed)
    (carries : job.expressed = some expressed) :
    Tracked { fetching with
      outstanding := fetching.outstanding.eraseIdx index
      jobs := fetching.jobs ++ [job] } := by
  refine ⟨tracked.windowed, ?_⟩
  exact ((pending_answer found carries).map number).trans tracked.accounted

theorem Tracked.dequeue (tracked : fetching.Tracked) {job : Job Name}
    {jobs : List (Job Name)} (queued : fetching.jobs = job :: jobs)
    (free : job.expressed = none) :
    Tracked { fetching with jobs := jobs } := by
  refine ⟨tracked.windowed, ?_⟩
  have accounted := tracked.accounted
  rw [Fetching.pending, queued, List.filterMap_cons_none free] at accounted
  exact accounted

theorem Tracked.takeAnswer (tracked : fetching.Tracked) {job : Job Name}
    {jobs : List (Job Name)} (queued : fetching.jobs = job :: jobs)
    {expressed : Expressed Name} (carries : job.expressed = some expressed) :
    number expressed ∈ fetching.fetcher.inActivePipeline ∧
      ((pending { fetching with jobs := jobs }).map number).Perm
        (fetching.fetcher.inActivePipeline.erase (number expressed)) := by
  have accounted := tracked.accounted
  rw [Fetching.pending, queued, List.filterMap_cons_some carries] at accounted
  exact List.cons_perm_iff_perm_erase.mp accounted

theorem Tracked.skipSeqNo (tracked : fetching.Tracked)
    (cursor : fetching.fetcher.minSendSeqNo < fetching.fetcher.maxSeqNo)
    (known : fetching.fetcher.minSendSeqNo + 1 ∈
        fetching.fetcher.outOfOrderRecvSeqNo ∨
      fetching.fetcher.minSendSeqNo + 1 ∈
        fetching.fetcher.inActivePipeline) :
    Tracked { fetching with fetcher := fetching.fetcher.skipSeqNo } :=
  ⟨tracked.windowed.skipSeqNo cursor known, tracked.accounted⟩

theorem Tracked.requestSeqNo (tracked : fetching.Tracked)
    (cursor : fetching.fetcher.minSendSeqNo < fetching.fetcher.maxSeqNo)
    (room : fetching.fetcher.activePipeline < fetching.fetcher.pipeline)
    (new : fetching.fetcher.minSendSeqNo + 1 ∉
      fetching.fetcher.inActivePipeline) :
    Tracked { fetching with
      fetcher := fetching.fetcher.requestSeqNo
      outstanding := fetching.outstanding ++
        [fetching.fetcher.express (fetching.fetcher.minSendSeqNo + 1)] } := by
  refine ⟨tracked.windowed.requestSeqNo cursor room new, ?_⟩
  have grown := (tracked.accounted.cons (fetching.fetcher.minSendSeqNo + 1)).trans
    (Fetcher.perm_insertSeqNo new).symm
  refine List.Perm.trans ?_ grown
  rw [pending, pending, ← List.append_assoc, List.map_append]
  simp only [List.map_cons, List.map_nil, number_express]
  exact List.perm_append_singleton _ _

theorem Tracked.fillPipeline (tracked : fetching.Tracked) :
    Tracked { fetching with
      fetcher := fetching.fetcher.fillPipeline.1
      outstanding := fetching.outstanding ++
        fetching.fetcher.fillPipeline.2 } := by
  have filled := Fetcher.fillLoop_invariant
    (fun (fetcher : Fetcher Name) expressed => Tracked { fetching with
      fetcher := fetcher
      outstanding := fetching.outstanding ++ expressed })
    (fun _ _ cursor known earlier => earlier.skipSeqNo cursor known) ?request
    (fetching.fetcher.maxSeqNo.toInt -
      fetching.fetcher.minSendSeqNo.toInt).toNat fetching.fetcher [] ?initial
  · exact filled
  case request =>
    intro fetcher expressed cursor room _ new earlier
    have requested := earlier.requestSeqNo cursor room new
    rw [List.append_assoc] at requested
    exact requested
  case initial =>
    rw [List.append_nil]
    exact tracked

theorem Tracked.receiveData (tracked : fetching.Tracked)
    (gapFree : fetching.fetcher.GapFree) {expressed : Expressed Name}
    {data : Data Name} {jobs : List (Job Name)}
    (queued : fetching.jobs = .onDataExecute expressed data :: jobs)
    (now : Int) (segmentCalls : List (SegmentCall Name)) :
    Tracked { fetching with
      fetcher := fetching.fetcher.receiveData expressed.seqno now
      jobs := jobs
      segmentCalls := segmentCalls } := by
  obtain ⟨requested, accounted⟩ := tracked.takeAnswer queued rfl
  exact ⟨tracked.windowed.receiveData gapFree now requested, accounted⟩

theorem Tracked.deactivate (tracked : fetching.Tracked) (timedwait : Bool)
    (finishCalls : Nat) :
    Tracked { fetching with
      fetcher := { fetching.fetcher with
        active := false, timedwait := timedwait }
      finishCalls := finishCalls } :=
  ⟨tracked.windowed.deactivate timedwait, tracked.accounted⟩

theorem Tracked.onDataExecute (tracked : fetching.Tracked)
    (gapFree : fetching.fetcher.GapFree) {expressed : Expressed Name}
    {data : Data Name} {jobs : List (Job Name)}
    (queued : fetching.jobs = .onDataExecute expressed data :: jobs)
    (pco : Data Name) (now : Int) :
    (onDataExecute { fetching with jobs := jobs } expressed pco now).Tracked := by
  have received := tracked.receiveData gapFree queued now
    (fetching.segmentCalls ++ [⟨fetching.fetcher.deviceName,
      fetching.fetcher.name, expressed.seqno, pco, expressed.interest⟩])
  rw [Fetching.onDataExecute]
  split_ifs
  · exact (received.deactivate true (fetching.finishCalls + 1)).enqueue _ rfl
  · exact received.enqueue _ rfl

theorem Tracked.dropSegment (tracked : fetching.Tracked)
    {expressed : Expressed Name} {jobs : List (Job Name)}
    (queued : fetching.jobs = .onTimeoutExecute expressed :: jobs) :
    Tracked { fetching with
      fetcher := fetching.fetcher.dropSegment expressed.seqno
      jobs := jobs } := by
  obtain ⟨requested, accounted⟩ := tracked.takeAnswer queued rfl
  have windowed := tracked.windowed.dropSegment requested
  rw [Fetcher.dropSegment] at windowed ⊢
  split_ifs at windowed ⊢ with empty
  · exact ⟨windowed, accounted⟩
  · exact ⟨windowed, accounted⟩

/-- The event runs neither a timeout within the period nor data into a window
with a gap. -/
def Unbroken (fetching : Fetching Name) : FetcherEvent Name → Prop
  | .execute now =>
      match fetching.jobs with
      | .onTimeoutExecute _ :: _ => fetching.fetcher.idle now = true
      | .onDataExecute _ _ :: _ => fetching.fetcher.GapFree
      | _ => True
  | _ => True

instance (fetching : Fetching Name) (event : FetcherEvent Name) :
    Decidable (fetching.Unbroken event) :=
  match event with
  | .execute now =>
      match equation : fetching.jobs with
      | .onTimeoutExecute _ :: _ =>
          decidable_of_iff (fetching.fetcher.idle now = true)
            (by simp [Unbroken, equation])
      | .onDataExecute _ _ :: _ =>
          decidable_of_iff fetching.fetcher.GapFree
            (by simp [Unbroken, equation])
      | .fillPipeline :: _ => .isTrue (by simp [Unbroken, equation])
      | .onFetchComplete :: _ => .isTrue (by simp [Unbroken, equation])
      | [] => .isTrue (by simp [Unbroken, equation])
  | .restartPipeline _ => .isTrue trivial
  | .setForwardingHint _ => .isTrue trivial
  | .onData _ _ => .isTrue trivial
  | .onTimeout _ => .isTrue trivial

theorem settled_of_queued (queued : .fillPipeline ∈ fetching.jobs) :
    fetching.Settled :=
  fun _ _ absent => absurd queued absent

theorem settled_of_inactive (inactive : fetching.fetcher.active = false) :
    fetching.Settled := by
  intro active
  rw [inactive] at active
  simp at active

theorem Settled.enqueue (settled : fetching.Settled) (job : Job Name)
    (outstanding : List (Expressed Name)) :
    Settled { fetching with
      outstanding := outstanding, jobs := fetching.jobs ++ [job] } := by
  intro active empty absent
  apply settled active empty
  intro queued
  exact absent (List.mem_append_left _ queued)

theorem settled_fillPipeline (tracked : fetching.Tracked)
    (outstanding : List (Expressed Name)) :
    Settled { fetching with
      fetcher := fetching.fetcher.fillPipeline.1
      outstanding := outstanding } := by
  intro active empty _
  have windowed := tracked.fillPipeline.windowed
  apply windowed.finished (windowed.drained active empty) empty
  intro cursor
  apply fetching.fetcher.fillPipeline_stops
  refine ⟨cursor, ?_⟩
  rw [show fetching.fetcher.fillPipeline.1.activePipeline = 0 from empty]
  exact windowed.wide

theorem settled_onDataExecute (fetching : Fetching Name)
    (expressed : Expressed Name) (pco : Data Name) (now : Int) :
    (fetching.onDataExecute expressed pco now).Settled := by
  rw [onDataExecute]
  split_ifs
  · exact settled_of_inactive rfl
  · apply settled_of_queued
    simp

theorem settled_dropSegment (fetching : Fetching Name)
    (expressed : Expressed Name) (jobs : List (Job Name)) :
    Settled { fetching with
      fetcher := fetching.fetcher.dropSegment expressed.seqno
      jobs := jobs } := by
  rw [Fetcher.dropSegment]
  split_ifs with empty
  · exact settled_of_inactive rfl
  · intro _ zero
    exact absurd zero empty

/-- A fetcher with its window and without a lost number. -/
structure Waiting (fetching : Fetching Name) : Prop where
  tracked : fetching.Tracked
  settled : fetching.Settled

variable {decodeData : Bytes → Option (Data Name)}

theorem Waiting.runJob (waiting : fetching.Waiting) {job : Job Name}
    {jobs : List (Job Name)} (queued : fetching.jobs = job :: jobs) {now : Int}
    (unbroken : fetching.Unbroken (.execute now)) {target : Fetching Name}
    (ran : runJob decodeData { fetching with jobs := jobs } now job =
      some target) :
    target.Waiting := by
  cases job with
  | fillPipeline =>
      have drained := waiting.tracked.dequeue queued rfl
      rw [← Option.some.inj ran]
      exact ⟨drained.fillPipeline, settled_fillPipeline drained _⟩
  | onDataExecute expressed data =>
      simp only [Unbroken, queued] at unbroken
      simp only [Fetching.runJob, Option.map_eq_some_iff] at ran
      obtain ⟨pco, _, rfl⟩ := ran
      exact ⟨waiting.tracked.onDataExecute unbroken queued pco now,
        settled_onDataExecute _ expressed pco now⟩
  | onTimeoutExecute expressed =>
      simp only [Unbroken, queued] at unbroken
      rw [← Option.some.inj ran, onTimeoutExecute, if_pos unbroken]
      exact ⟨waiting.tracked.dropSegment queued,
        settled_dropSegment fetching expressed jobs⟩
  | onFetchComplete =>
      rw [← Option.some.inj ran]
      refine ⟨waiting.tracked.dequeue queued rfl, ?_⟩
      intro active empty absent
      apply waiting.settled active empty
      rw [queued]
      simpa using absent

theorem step_waiting {event : FetcherEvent Name} {target : Fetching Name}
    (unbroken : fetching.Unbroken event)
    (taken : step decodeData fetching event = some target)
    (waiting : fetching.Waiting) : target.Waiting := by
  cases event with
  | restartPipeline now =>
      rw [← Option.some.inj taken]
      refine ⟨waiting.tracked.restartPipeline now, ?_⟩
      apply settled_of_queued
      simp
  | setForwardingHint forwardingHint =>
      rw [← Option.some.inj taken]
      obtain ⟨⟨windowed, accounted⟩, settled⟩ := waiting
      exact ⟨⟨⟨windowed.minimum, windowed.inOrder, windowed.sent,
        windowed.requested, windowed.received, windowed.sorted,
        windowed.missing, windowed.counted, windowed.drained, windowed.wide⟩,
        accounted⟩, settled⟩
  | onData index data =>
      simp only [step, Option.map_eq_some_iff] at taken
      obtain ⟨expressed, found, rfl⟩ := taken
      exact ⟨waiting.tracked.answer found rfl,
        waiting.settled.enqueue _ _⟩
  | onTimeout index =>
      simp only [step, Option.map_eq_some_iff] at taken
      obtain ⟨expressed, found, rfl⟩ := taken
      exact ⟨waiting.tracked.answer found rfl,
        waiting.settled.enqueue _ _⟩
  | execute now =>
      cases queued : fetching.jobs with
      | nil => simp [step, queued] at taken
      | cons job jobs =>
          simp only [step, queued] at taken
          exact waiting.runJob queued unbroken taken

/-- In every run without a timeout inside the period and without data into a
window with a gap, an active fetcher that has not received everything waits
for an interest or for a job. -/
theorem progresses_of_unbroken {deviceName name forwardingHint : Name}
    {minSeqNo maxSeqNo : Int64} {timeout : Int}
    (minimum : Int64.minValue < minSeqNo) (range : minSeqNo ≤ maxSeqNo)
    {trace : List (Fetching Name × FetcherEvent Name)} {final : Fetching Name}
    (steps : Steps decodeData (start (Fetcher.construct deviceName name
      forwardingHint minSeqNo maxSeqNo timeout)) trace final)
    (unbroken : ∀ taken ∈ trace, Unbroken taken.1 taken.2) :
    final.Progresses := by
  have waiting : final.Waiting := by
    apply steps.invariant_of_steps Unbroken unbroken
    · refine ⟨start_tracked _ _ _ timeout minimum range, ?_⟩
      exact settled_of_inactive rfl
    · intro source event target safe taken earlier
      exact step_waiting safe taken earlier
  exact progresses_of_tracked (reached_reported minimum steps) waiting.tracked
    waiting.settled

end Fetching

namespace Fetching

/-- A fetcher of `/bob` for two segments, within thirty seconds. -/
def twoSegments : Fetcher Name :=
  Fetcher.construct Name.alex Name.bob (Name.ofComponents []) 1 2 30

/-- The packet for a segment of `/bob`, with a packet inside. -/
def segmentPacket (seqNo : UInt64) : Data Name where
  name := Name.uriOps.appendNumber Name.bob seqNo
  freshnessPeriod := 60
  content := writeData ⟨Name.uriOps.appendNumber Name.bob seqNo, 60, [1]⟩

theorem progresses_of_unbroken_secondSegment :
    ∃ trace final, Steps readData (start twoSegments) trace final ∧
      final.fetcher.active = true ∧ ¬ final.Received 2 ∧
        final.Progresses := by
  have executed : (execute (step readData) (start twoSegments)
      [.restartPipeline 0, .execute 0, .onTimeout 1, .onTimeout 0,
        .execute 40, .execute 40, .restartPipeline 41, .execute 41,
        .onData 0 (segmentPacket 1), .execute 42]).any (fun result =>
          result.2.fetcher.active = true ∧
            (∀ call ∈ result.2.segmentCalls, call.seqno.toInt64 ≠ 2) ∧
              ∀ taken ∈ result.1, taken.1.Unbroken taken.2) = true := by
    decide +kernel
  obtain ⟨⟨trace, final⟩, found, holds⟩ :=
    (Option.any_eq_true _ _).mp executed
  obtain ⟨active, absent, unbroken⟩ := of_decide_eq_true holds
  have steps := execute_run found
  refine ⟨trace, final, steps, active, ?_, ?_⟩
  · rintro ⟨call, member, second⟩
    exact absent call member second
  · exact progresses_of_unbroken (by decide) (by decide) steps unbroken

/-- The interest for segment 1 is given up, and the data for segment 2 keeps
the fetcher active: it waits for nothing. -/
theorem given_up_segment_stalls :
    ¬ ∀ trace final, Steps readData (start twoSegments) trace final →
      final.Progresses := by
  intro progresses
  have executed : (execute (step readData) (start twoSegments)
      [.restartPipeline 0, .execute 0, .onTimeout 0, .execute 40,
        .onData 0 (segmentPacket 2), .execute 41, .execute 41]).any
          (fun result => result.2.fetcher.active = true ∧
            result.2.fetcher.minSeqNo ≤ 1 ∧ 1 ≤ result.2.fetcher.maxSeqNo ∧
            (∀ call ∈ result.2.segmentCalls, call.seqno.toInt64 ≠ 1) ∧
            result.2.outstanding = [] ∧ result.2.jobs = []) = true := by
    decide +kernel
  obtain ⟨⟨trace, final⟩, found, holds⟩ :=
    (Option.any_eq_true _ _).mp executed
  obtain ⟨active, above, below, absent, noInterest, noJob⟩ :=
    of_decide_eq_true holds
  have incomplete : ¬ final.AllReceived := by
    intro received
    obtain ⟨call, member, first⟩ := received 1 above below
    exact absent call member first
  rcases progresses trace final (execute_run found) active incomplete with
    interest | job
  · exact interest noInterest
  · exact job noJob

end Fetching

end ChronoShare
