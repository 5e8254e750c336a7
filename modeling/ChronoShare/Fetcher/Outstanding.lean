import ChronoShare.Fetcher.Completion

/-!
# The outstanding interests

The counter of the pipeline follows the interests that wait for an answer
through every event.  That no number waits in two of them needs more: the loop
of `FillPipeline` asks the set of the pipeline, from which a timeout takes the
number bound in its closures and not the number it asked for.
-/

namespace ChronoShare

namespace Fetching

variable {Name : Type} {fetching : Fetching Name}

def asked (expressed : Expressed Name) : Int64 :=
  expressed.interest.seqNo.toInt64

/-- The counter is the number of interests that wait for an answer, no answer
takes it below zero, and the interests ask for different numbers of the
range. -/
structure Pipelined (fetching : Fetching Name) : Prop where
  counted : fetching.fetcher.activePipeline.toNat = fetching.pending.length
  bounded : fetching.fetcher.activePipeline ≤ fetching.fetcher.pipeline
  positive : ∀ job ∈ fetching.jobs, job.expressed ≠ none →
    0 < fetching.fetcher.activePipeline
  within : ∀ expressed ∈ fetching.pending,
    fetching.fetcher.minSeqNo ≤ asked expressed ∧
      asked expressed ≤ fetching.fetcher.maxSeqNo
  distinct : (fetching.pending.map asked).Nodup

/-- The numbers that are waited for ahead of the send cursor are received or in
the set of the pipeline, where `FillPipeline` looks for them. -/
def Recorded (fetching : Fetching Name) : Prop :=
  ∀ expressed ∈ fetching.pending,
    fetching.fetcher.minSendSeqNo < asked expressed →
      asked expressed ∈ fetching.fetcher.outOfOrderRecvSeqNo ∨
        asked expressed ∈ fetching.fetcher.inActivePipeline

instance (fetching : Fetching Name) : Decidable fetching.Recorded :=
  inferInstanceAs (Decidable (∀ _ ∈ _, _ → _))

/-- The pipeline is not filled while a number that is waited for is missing
from its set, nor restarted from below the range. -/
def Recording (fetching : Fetching Name) : FetcherEvent Name → Prop
  | .restartPipeline _ =>
      fetching.fetcher.minSeqNo - 1 ≤ fetching.fetcher.maxInOrderRecvSeqNo
  | .execute _ =>
      fetching.jobs.head? = some .fillPipeline →
        fetching.fetcher.activePipeline < fetching.fetcher.pipeline →
          fetching.Recorded
  | _ => True

instance [DecidableEq Name] (fetching : Fetching Name)
    (event : FetcherEvent Name) : Decidable (fetching.Recording event) :=
  match event with
  | .restartPipeline _ => inferInstanceAs (Decidable (_ ≤ _))
  | .execute _ => inferInstanceAs (Decidable (_ → _ → _))
  | .setForwardingHint _ => .isTrue trivial
  | .onData _ _ => .isTrue trivial
  | .onTimeout _ => .isTrue trivial

/-- `ScheduleFetches` restarts a fetcher that is neither active nor in its
final wait. -/
def Restartable (fetching : Fetching Name) : FetcherEvent Name → Prop
  | .restartPipeline _ =>
      fetching.fetcher.active = false ∧ fetching.fetcher.timedwait = false
  | _ => True

instance (fetching : Fetching Name) (event : FetcherEvent Name) :
    Decidable (fetching.Restartable event) :=
  match event with
  | .restartPipeline _ => inferInstanceAs (Decidable (_ ∧ _))
  | .execute _ => .isTrue trivial
  | .setForwardingHint _ => .isTrue trivial
  | .onData _ _ => .isTrue trivial
  | .onTimeout _ => .isTrue trivial

/-- The invariant of a run: the pipeline, with the send cursor in the range. -/
structure Tallied (fetching : Fetching Name) : Prop where
  counted : fetching.fetcher.activePipeline.toNat = fetching.pending.length
  bounded : fetching.fetcher.activePipeline ≤ fetching.fetcher.pipeline
  within : ∀ expressed ∈ fetching.pending,
    fetching.fetcher.minSeqNo ≤ asked expressed ∧
      asked expressed ≤ fetching.fetcher.maxSeqNo
  distinct : (fetching.pending.map asked).Nodup
  sent : fetching.fetcher.minSeqNo - 1 ≤ fetching.fetcher.minSendSeqNo

theorem Tallied.pipelined (tallied : fetching.Tallied) :
    fetching.Pipelined := by
  refine ⟨tallied.counted, tallied.bounded, ?_, tallied.within,
    tallied.distinct⟩
  intro job member answers
  obtain ⟨expressed, carries⟩ := Option.ne_none_iff_exists'.mp answers
  have waits : expressed ∈ fetching.pending :=
    List.mem_append_left _ (List.mem_filterMap.mpr ⟨job, member, carries⟩)
  have some := List.length_pos_of_mem waits
  rw [← tallied.counted] at some
  exact UInt32.lt_iff_toNat_lt.mpr some

theorem start_tallied (deviceName name forwardingHint : Name)
    (minSeqNo maxSeqNo : Int64) (timeout : Int) :
    (start (Fetcher.construct deviceName name forwardingHint minSeqNo maxSeqNo
      timeout)).Tallied := by
  refine ⟨rfl, ?_, ?_, List.nodup_nil, le_refl _⟩
  · exact UInt32.le_iff_toNat_le.mpr (Nat.zero_le _)
  · simp [pending, start]

/-- The state may change where the invariant does not look: the interests may
be others, for the same numbers. -/
theorem Tallied.of_perm (tallied : fetching.Tallied) {target : Fetching Name}
    (sameCount : target.fetcher.activePipeline =
      fetching.fetcher.activePipeline)
    (samePipeline : target.fetcher.pipeline = fetching.fetcher.pipeline)
    (sameRange : target.fetcher.minSeqNo = fetching.fetcher.minSeqNo ∧
      target.fetcher.maxSeqNo = fetching.fetcher.maxSeqNo)
    (sent : fetching.fetcher.minSeqNo - 1 ≤ target.fetcher.minSendSeqNo)
    (numbers : (target.pending.map asked).Perm
      (fetching.pending.map asked)) : target.Tallied := by
  obtain ⟨sameMinimum, sameMaximum⟩ := sameRange
  refine ⟨?_, ?_, ?_, numbers.nodup_iff.mpr tallied.distinct, ?_⟩
  · have length := numbers.length_eq
    rw [List.length_map, List.length_map] at length
    rw [sameCount, length]
    exact tallied.counted
  · rw [sameCount, samePipeline]
    exact tallied.bounded
  · intro expressed member
    have waits : asked expressed ∈ fetching.pending.map asked :=
      numbers.mem_iff.mp (List.mem_map_of_mem member)
    obtain ⟨earlier, earlierMember, same⟩ := List.mem_map.mp waits
    rw [sameMinimum, sameMaximum, ← same]
    exact tallied.within earlier earlierMember
  · rw [sameMinimum]
    exact sent

theorem Tallied.dequeue (tallied : fetching.Tallied) {job : Job Name}
    {jobs : List (Job Name)} (queued : fetching.jobs = job :: jobs)
    (free : job.expressed = none) :
    Tallied { fetching with jobs := jobs } := by
  have same : pending { fetching with jobs := jobs } = fetching.pending := by
    rw [pending, pending, queued, List.filterMap_cons_none free]
  exact tallied.of_perm rfl rfl ⟨rfl, rfl⟩ tallied.sent (by rw [same])

theorem Tallied.enqueue (tallied : fetching.Tallied) (job : Job Name)
    (free : job.expressed = none) :
    Tallied { fetching with jobs := fetching.jobs ++ [job] } := by
  have same : pending { fetching with jobs := fetching.jobs ++ [job] } =
      fetching.pending := by
    rw [pending, pending, pending_enqueue fetching.jobs free]
  exact tallied.of_perm rfl rfl ⟨rfl, rfl⟩ tallied.sent (by rw [same])

theorem Tallied.answer (tallied : fetching.Tallied) {index : Nat}
    {expressed : Expressed Name} {job : Job Name}
    (found : fetching.outstanding[index]? = some expressed)
    (carries : job.expressed = some expressed) :
    Tallied { fetching with
      outstanding := fetching.outstanding.eraseIdx index
      jobs := fetching.jobs ++ [job] } :=
  tallied.of_perm rfl rfl ⟨rfl, rfl⟩ tallied.sent
    ((pending_answer found carries).map asked)

theorem pending_takeAnswer {job : Job Name} {jobs : List (Job Name)}
    (queued : fetching.jobs = job :: jobs) {expressed : Expressed Name}
    (carries : job.expressed = some expressed) :
    fetching.pending = expressed :: pending { fetching with jobs := jobs } := by
  rw [pending, queued, List.filterMap_cons_some carries]
  rfl

theorem Tallied.expressAgain (tallied : fetching.Tallied)
    {expressed : Expressed Name} {jobs : List (Job Name)}
    (queued : fetching.jobs = .onTimeoutExecute expressed :: jobs) :
    Tallied { fetching with
      outstanding := fetching.outstanding ++ [⟨expressed.interest,
        expressed.seqno + 1, expressed.retransmissions + 1⟩]
      jobs := jobs } := by
  refine tallied.of_perm rfl rfl ⟨rfl, rfl⟩ tallied.sent ?_
  rw [pending_takeAnswer queued rfl, pending, ← List.append_assoc,
    List.map_append]
  exact List.perm_append_singleton _ _

theorem Tallied.takeAnswer (tallied : fetching.Tallied) {job : Job Name}
    {jobs : List (Job Name)} (queued : fetching.jobs = job :: jobs)
    {expressed : Expressed Name} (carries : job.expressed = some expressed) :
    (fetching.fetcher.activePipeline - 1).toNat =
        (pending { fetching with jobs := jobs }).length ∧
      fetching.fetcher.activePipeline - 1 ≤ fetching.fetcher.pipeline ∧
      (∀ other ∈ pending { fetching with jobs := jobs },
        fetching.fetcher.minSeqNo ≤ asked other ∧
          asked other ≤ fetching.fetcher.maxSeqNo) ∧
      ((pending { fetching with jobs := jobs }).map asked).Nodup := by
  have before := pending_takeAnswer queued carries
  obtain ⟨counted, bounded, within, distinct, _⟩ := tallied
  rw [before] at counted within distinct
  rw [List.length_cons] at counted
  have positive : 1 ≤ fetching.fetcher.activePipeline := by
    apply UInt32.le_iff_toNat_le.mpr
    rw [counted]
    exact Nat.le_add_left 1 _
  have fewer : (fetching.fetcher.activePipeline - 1).toNat =
      (pending { fetching with jobs := jobs }).length := by
    rw [UInt32.toNat_sub_of_le _ _ positive, counted]
    rfl
  refine ⟨fewer, ?_, ?_, (List.nodup_cons.mp distinct).2⟩
  · rw [UInt32.le_iff_toNat_le] at bounded ⊢
    omega
  · intro other member
    exact within other (List.mem_cons_of_mem _ member)

theorem Tallied.skipSeqNo (tallied : fetching.Tallied)
    (cursor : fetching.fetcher.minSendSeqNo < fetching.fetcher.maxSeqNo) :
    Tallied { fetching with fetcher := fetching.fetcher.skipSeqNo } := by
  have sent : fetching.fetcher.minSeqNo - 1 ≤
      fetching.fetcher.minSendSeqNo + 1 :=
    le_trans tallied.sent (le_of_lt (int64_lt_succ_of_lt cursor))
  exact tallied.of_perm rfl rfl ⟨rfl, rfl⟩ sent (List.Perm.refl _)

theorem Recorded.skipSeqNo (recorded : fetching.Recorded)
    (cursor : fetching.fetcher.minSendSeqNo < fetching.fetcher.maxSeqNo) :
    Recorded { fetching with fetcher := fetching.fetcher.skipSeqNo } := by
  intro expressed member ahead
  exact recorded expressed member
    (lt_trans (int64_lt_succ_of_lt cursor) ahead)

theorem Tallied.next_within (tallied : fetching.Tallied)
    (cursor : fetching.fetcher.minSendSeqNo < fetching.fetcher.maxSeqNo) :
    fetching.fetcher.minSeqNo ≤ fetching.fetcher.minSendSeqNo + 1 ∧
      fetching.fetcher.minSendSeqNo + 1 ≤ fetching.fetcher.maxSeqNo := by
  refine ⟨?_, int64_succ_le cursor⟩
  have sent := tallied.sent
  grind

theorem asked_express (fetcher : Fetcher Name) (seqNo : Int64) :
    asked (fetcher.express seqNo) = seqNo := by
  simp [asked, Fetcher.express]

theorem Tallied.requestSeqNo (tallied : fetching.Tallied)
    (recorded : fetching.Recorded)
    (cursor : fetching.fetcher.minSendSeqNo < fetching.fetcher.maxSeqNo)
    (room : fetching.fetcher.activePipeline < fetching.fetcher.pipeline)
    (missing : fetching.fetcher.minSendSeqNo + 1 ∉
      fetching.fetcher.outOfOrderRecvSeqNo)
    (new : fetching.fetcher.minSendSeqNo + 1 ∉
      fetching.fetcher.inActivePipeline) :
    Tallied { fetching with
      fetcher := fetching.fetcher.requestSeqNo
      outstanding := fetching.outstanding ++
        [fetching.fetcher.express (fetching.fetcher.minSendSeqNo + 1)] } := by
  have unasked : fetching.fetcher.minSendSeqNo + 1 ∉
      fetching.pending.map asked := by
    intro waits
    obtain ⟨earlier, member, same⟩ := List.mem_map.mp waits
    have ahead := int64_lt_succ_of_lt cursor
    rw [← same] at ahead missing new
    rcases recorded earlier member ahead with received | requested
    · exact missing received
    · exact new requested
  have grown : (pending { fetching with
      fetcher := fetching.fetcher.requestSeqNo
      outstanding := fetching.outstanding ++ [fetching.fetcher.express
        (fetching.fetcher.minSendSeqNo + 1)] }) =
      fetching.pending ++ [fetching.fetcher.express
        (fetching.fetcher.minSendSeqNo + 1)] := by
    rw [pending, ← List.append_assoc]
    rfl
  refine ⟨?_, ?_, ?_, ?_, ?_⟩
  · rw [grown, List.length_append, ← tallied.counted]
    exact uint32_toNat_succ room
  · rw [UInt32.le_iff_toNat_le, Fetcher.requestSeqNo, uint32_toNat_succ room]
    exact UInt32.lt_iff_toNat_lt.mp room
  · rw [grown]
    intro expressed member
    rcases List.mem_append.mp member with earlier | next
    · exact tallied.within expressed earlier
    · rw [List.mem_singleton.mp next, asked_express]
      exact tallied.next_within cursor
  · rw [grown, List.map_append, List.map_singleton, asked_express]
    apply (List.perm_append_singleton _ _).nodup_iff.mpr
    exact List.nodup_cons.mpr ⟨unasked, tallied.distinct⟩
  · exact le_trans tallied.sent (le_of_lt (int64_lt_succ_of_lt cursor))

theorem Recorded.requestSeqNo (recorded : fetching.Recorded)
    (cursor : fetching.fetcher.minSendSeqNo < fetching.fetcher.maxSeqNo) :
    Recorded { fetching with
      fetcher := fetching.fetcher.requestSeqNo
      outstanding := fetching.outstanding ++
        [fetching.fetcher.express (fetching.fetcher.minSendSeqNo + 1)] } := by
  intro expressed member ahead
  rw [pending, ← List.append_assoc] at member
  rcases List.mem_append.mp member with earlier | next
  · have before := lt_trans (int64_lt_succ_of_lt cursor) ahead
    rcases recorded expressed earlier before with received | requested
    · exact .inl received
    · exact .inr (Fetcher.mem_insertSeqNo.mpr (.inr requested))
  · rw [List.mem_singleton.mp next, asked_express] at ahead
    exact absurd ahead (lt_irrefl _)

theorem Tallied.fillPipeline (tallied : fetching.Tallied)
    (recording : fetching.fetcher.activePipeline < fetching.fetcher.pipeline →
      fetching.Recorded) :
    Tallied { fetching with
      fetcher := fetching.fetcher.fillPipeline.1
      outstanding := fetching.outstanding ++
        fetching.fetcher.fillPipeline.2 } := by
  by_cases room : fetching.fetcher.minSendSeqNo < fetching.fetcher.maxSeqNo ∧
      fetching.fetcher.activePipeline < fetching.fetcher.pipeline
  · have filled := Fetcher.fillLoop_invariant
      (fun (fetcher : Fetcher Name) expressed =>
        Tallied { fetching with
          fetcher := fetcher
          outstanding := fetching.outstanding ++ expressed } ∧
        Recorded { fetching with
          fetcher := fetcher
          outstanding := fetching.outstanding ++ expressed }) ?skip ?request
      (fetching.fetcher.maxSeqNo.toInt -
        fetching.fetcher.minSendSeqNo.toInt).toNat fetching.fetcher []
      ?initial
    · exact filled.1
    case skip =>
      intro fetcher expressed cursor _ earlier
      exact ⟨earlier.1.skipSeqNo cursor, earlier.2.skipSeqNo cursor⟩
    case request =>
      intro fetcher expressed cursor room missing new earlier
      have requested :=
        earlier.1.requestSeqNo earlier.2 cursor room missing new
      have recorded := earlier.2.requestSeqNo cursor
      rw [List.append_assoc] at requested recorded
      exact ⟨requested, recorded⟩
    case initial =>
      rw [List.append_nil]
      exact ⟨tallied, recording room.2⟩
  · rw [Fetcher.fillPipeline_eq_self room, List.append_nil]
    exact tallied

theorem Tallied.onDataExecute (tallied : fetching.Tallied)
    {expressed : Expressed Name} {data : Data Name} {jobs : List (Job Name)}
    (queued : fetching.jobs = .onDataExecute expressed data :: jobs)
    (pco : Data Name) (now : Int) :
    (onDataExecute { fetching with jobs := jobs } expressed pco
      now).Tallied := by
  obtain ⟨counted, bounded, within, distinct⟩ := tallied.takeAnswer queued rfl
  have received : Tallied { fetching with
      fetcher := fetching.fetcher.receiveData expressed.seqno now
      jobs := jobs } :=
    ⟨counted, bounded, within, distinct, tallied.sent⟩
  rw [Fetching.onDataExecute]
  split_ifs
  · have finished := received.enqueue .onFetchComplete rfl
    exact ⟨finished.counted, finished.bounded, finished.within,
      finished.distinct, finished.sent⟩
  · have filling := received.enqueue .fillPipeline rfl
    exact ⟨filling.counted, filling.bounded, filling.within, filling.distinct,
      filling.sent⟩

theorem Tallied.onTimeoutExecute (tallied : fetching.Tallied)
    {expressed : Expressed Name} {jobs : List (Job Name)}
    (queued : fetching.jobs = .onTimeoutExecute expressed :: jobs)
    (now : Int) :
    (onTimeoutExecute { fetching with jobs := jobs } expressed
      now).Tallied := by
  obtain ⟨counted, bounded, within, distinct⟩ := tallied.takeAnswer queued rfl
  rw [Fetching.onTimeoutExecute, Fetcher.dropSegment]
  split_ifs
  · exact ⟨counted, bounded, within, distinct, tallied.sent⟩
  · exact ⟨counted, bounded, within, distinct, tallied.sent⟩
  · exact tallied.expressAgain queued

variable {decodeData : Bytes → Option (Data Name)}

theorem Tallied.runJob (tallied : fetching.Tallied) {job : Job Name}
    {jobs : List (Job Name)} (queued : fetching.jobs = job :: jobs) {now : Int}
    (recording : fetching.Recording (.execute now)) {target : Fetching Name}
    (ran : runJob decodeData { fetching with jobs := jobs } now job =
      some target) :
    target.Tallied := by
  cases job with
  | fillPipeline =>
      have drained := tallied.dequeue queued rfl
      rw [← Option.some.inj ran]
      apply drained.fillPipeline
      intro room expressed member ahead
      have recorded := recording (by rw [queued]; rfl) room
      apply recorded expressed _ ahead
      rw [pending, queued]
      exact member
  | onDataExecute expressed data =>
      simp only [Fetching.runJob, Option.map_eq_some_iff] at ran
      obtain ⟨pco, _, rfl⟩ := ran
      exact tallied.onDataExecute queued pco now
  | onTimeoutExecute expressed =>
      rw [← Option.some.inj ran]
      exact tallied.onTimeoutExecute queued now
  | onFetchComplete =>
      rw [← Option.some.inj ran]
      exact tallied.dequeue queued rfl

theorem step_tallied {event : FetcherEvent Name} {target : Fetching Name}
    (recording : fetching.Recording event)
    (taken : step decodeData fetching event = some target)
    (tallied : fetching.Tallied) : target.Tallied := by
  cases event with
  | restartPipeline now =>
      rw [← Option.some.inj taken]
      have queued := tallied.enqueue .fillPipeline rfl
      exact ⟨queued.counted, queued.bounded, queued.within, queued.distinct,
        recording⟩
  | setForwardingHint forwardingHint =>
      rw [← Option.some.inj taken]
      exact ⟨tallied.counted, tallied.bounded, tallied.within,
        tallied.distinct, tallied.sent⟩
  | onData index data =>
      simp only [step, Option.map_eq_some_iff] at taken
      obtain ⟨expressed, found, rfl⟩ := taken
      exact tallied.answer found rfl
  | onTimeout index =>
      simp only [step, Option.map_eq_some_iff] at taken
      obtain ⟨expressed, found, rfl⟩ := taken
      exact tallied.answer found rfl
  | execute now =>
      cases queued : fetching.jobs with
      | nil => simp [step, queued] at taken
      | cons job jobs =>
          simp only [step, queued] at taken
          exact tallied.runJob queued recording taken

/-- In every run that fills the pipeline only while its set records the numbers
that are waited for, the counter is the number of outstanding interests, within
the pipeline, and they ask for different numbers of the range. -/
theorem pipelined_of_recording {deviceName name forwardingHint : Name}
    {minSeqNo maxSeqNo : Int64} {timeout : Int}
    {trace : List (Fetching Name × FetcherEvent Name)} {final : Fetching Name}
    (steps : Steps decodeData (start (Fetcher.construct deviceName name
      forwardingHint minSeqNo maxSeqNo timeout)) trace final)
    (recording : ∀ taken ∈ trace, Recording taken.1 taken.2) :
    final.Pipelined := by
  have tallied : final.Tallied := by
    apply steps.invariant_of_steps Recording recording
      (start_tallied _ _ _ _ _ _)
    intro source event target safe taken earlier
    exact step_tallied safe taken earlier
  exact tallied.pipelined

end Fetching

namespace Fetching

/-- Segment 1 arrives, 7 follows it, and 2 is expressed again. -/
theorem pipelined_of_recording_eight :
    ∃ trace final, Steps readData (start eightSegments) trace final ∧
      final.fetcher.activePipeline = 6 ∧ final.Pipelined := by
  have executed : (execute (step readData) (start eightSegments)
      [.restartPipeline 0, .execute 0, .onData 0 (bobPacket 1), .execute 1,
        .execute 1, .onTimeout 0, .execute 2]).any
          (fun result => result.2.fetcher.activePipeline = 6 ∧
            ∀ taken ∈ result.1, taken.1.Recording taken.2) = true := by
    decide +kernel
  obtain ⟨⟨trace, final⟩, found, holds⟩ :=
    (Option.any_eq_true _ _).mp executed
  obtain ⟨full, recording⟩ := of_decide_eq_true holds
  have steps := execute_run found
  exact ⟨trace, final, steps, full, pipelined_of_recording steps recording⟩

/-- The fetch of 2 to 6 fails while the pipeline is about to be filled, and 7
and 8 are asked for all the same.  After the restart the answer for 7 is given
up under the number 8, so that 8 is asked for again. -/
theorem number_waited_for_twice :
    ¬ ∀ trace final, Steps readData (start eightSegments) trace final →
      (∀ taken ∈ trace, Restartable taken.1 taken.2) → final.Pipelined := by
  intro pipelined
  have executed : (execute (step readData) (start eightSegments)
      [.restartPipeline 0, .execute 0, .onData 0 (bobPacket 1),
        .onTimeout 0, .onTimeout 0, .onTimeout 0, .onTimeout 0, .onTimeout 0,
        .execute 1, .execute 40, .execute 40, .execute 40, .execute 40,
        .execute 40, .execute 40,
        .restartPipeline 400, .execute 400, .onTimeout 0, .execute 401,
        .onTimeout 5, .execute 440, .onData 1 (bobPacket 2), .execute 441,
        .execute 441]).any
          (fun result => (∀ taken ∈ result.1, taken.1.Restartable taken.2) ∧
            ¬ (result.2.pending.map asked).Nodup) = true := by
    decide +kernel
  obtain ⟨⟨trace, final⟩, found, holds⟩ :=
    (Option.any_eq_true _ _).mp executed
  obtain ⟨restartable, twice⟩ := of_decide_eq_true holds
  exact twice (pipelined trace final (execute_run found) restartable).distinct

end Fetching

end ChronoShare
