import ChronoShare.Fetcher.Progress

/-!
# A fetch finishes once

The fetch finishes when the greatest number received in order is the last one.
The segment callback has then been called with every number of the range.  That
nothing comes in afterwards needs that no number was asked for again once it
had been received in order, which a send cursor left behind by the data does.
-/

namespace ChronoShare

namespace Fetching

variable {Name : Type} {fetching : Fetching Name}

/-- The finish callback has been called at most once, and after the segment
callback for every number of the range. -/
structure FinishesOnce (fetching : Fetching Name) : Prop where
  once : fetching.finishCalls ≤ 1
  complete : 0 < fetching.finishCalls → fetching.AllReceived

/-- The loop of `FillPipeline` starts behind the numbers received in order. -/
def Rewound (fetcher : Fetcher Name) : Prop :=
  fetcher.minSendSeqNo < fetcher.maxSeqNo ∧
    fetcher.activePipeline < fetcher.pipeline ∧
      fetcher.minSendSeqNo < fetcher.maxInOrderRecvSeqNo

instance (fetcher : Fetcher Name) : Decidable (Rewound fetcher) :=
  inferInstanceAs (Decidable (_ ∧ _ ∧ _))

/-- The event does not fill the pipeline from behind. -/
def Forward (fetching : Fetching Name) : FetcherEvent Name → Prop
  | .execute _ =>
      fetching.jobs.head? = some .fillPipeline → ¬ Rewound fetching.fetcher
  | _ => True

instance [DecidableEq Name] (fetching : Fetching Name)
    (event : FetcherEvent Name) : Decidable (fetching.Forward event) :=
  match event with
  | .execute _ => inferInstanceAs (Decidable (_ → _))
  | .restartPipeline _ => .isTrue trivial
  | .setForwardingHint _ => .isTrue trivial
  | .onData _ _ => .isTrue trivial
  | .onTimeout _ => .isTrue trivial

/-- The numbers in the pipeline are ahead of those received in order and have
not been received out of order; each answer that is waited for has one. -/
structure Ahead (fetching : Fetching Name) : Prop where
  distinct : fetching.fetcher.inActivePipeline.Nodup
  waiting : fetching.pending.length ≤
    fetching.fetcher.inActivePipeline.length
  inFlight : ∀ seqNo ∈ fetching.fetcher.inActivePipeline,
    fetching.fetcher.maxInOrderRecvSeqNo < seqNo ∧
      seqNo ≤ fetching.fetcher.maxSeqNo ∧
        seqNo ∉ fetching.fetcher.outOfOrderRecvSeqNo
  finished : fetching.finishCalls = 0 ∨ fetching.finishCalls = 1 ∧
    fetching.fetcher.maxInOrderRecvSeqNo = fetching.fetcher.maxSeqNo

variable {decodeData : Bytes → Option (Data Name)}

theorem Ahead.finishesOnce (ahead : fetching.Ahead)
    (reported : fetching.Reported) : fetching.FinishesOnce := by
  refine ⟨?_, reported.complete⟩
  rcases ahead.finished with none | ⟨once, _⟩ <;> omega

theorem start_ahead (deviceName name forwardingHint : Name)
    (minSeqNo maxSeqNo : Int64) (timeout : Int) :
    (start (Fetcher.construct deviceName name forwardingHint minSeqNo maxSeqNo
      timeout)).Ahead :=
  ⟨List.nodup_nil, le_refl _, by simp [start, Fetcher.construct], .inl rfl⟩

theorem Ahead.enqueue (ahead : fetching.Ahead) (job : Job Name)
    (free : job.expressed = none) :
    Ahead { fetching with jobs := fetching.jobs ++ [job] } := by
  refine ⟨ahead.distinct, ?_, ahead.inFlight, ahead.finished⟩
  rw [pending, pending_enqueue fetching.jobs free]
  exact ahead.waiting

theorem Ahead.answer (ahead : fetching.Ahead) {index : Nat}
    {expressed : Expressed Name} {job : Job Name}
    (found : fetching.outstanding[index]? = some expressed)
    (carries : job.expressed = some expressed) :
    Ahead { fetching with
      outstanding := fetching.outstanding.eraseIdx index
      jobs := fetching.jobs ++ [job] } := by
  refine ⟨ahead.distinct, ?_, ahead.inFlight, ahead.finished⟩
  rw [(pending_answer found carries).length_eq]
  exact ahead.waiting

theorem Ahead.dequeue (ahead : fetching.Ahead) {job : Job Name}
    {jobs : List (Job Name)} (queued : fetching.jobs = job :: jobs)
    (free : job.expressed = none) :
    Ahead { fetching with jobs := jobs } := by
  refine ⟨ahead.distinct, ?_, ahead.inFlight, ahead.finished⟩
  have waiting := ahead.waiting
  rw [pending, queued, List.filterMap_cons_none free] at waiting
  exact waiting

theorem Ahead.takeAnswer (ahead : fetching.Ahead) {job : Job Name}
    {jobs : List (Job Name)} (queued : fetching.jobs = job :: jobs)
    {expressed : Expressed Name} (carries : job.expressed = some expressed) :
    (pending { fetching with jobs := jobs }).length + 1 ≤
      fetching.fetcher.inActivePipeline.length := by
  have waiting := ahead.waiting
  rw [pending, queued, List.filterMap_cons_some carries] at waiting
  exact waiting

theorem Ahead.unfinished (ahead : fetching.Ahead)
    (some : 0 < fetching.fetcher.inActivePipeline.length) :
    fetching.finishCalls = 0 := by
  obtain ⟨seqNo, member⟩ := List.exists_mem_of_length_pos some
  obtain ⟨above, below, _⟩ := ahead.inFlight seqNo member
  rcases ahead.finished with none | ⟨_, last⟩
  · exact none
  · rw [last] at above
    exact absurd below (not_le.mpr above)

/-- A number that is no longer waited for leaves the pipeline, if it is in
it. -/
theorem Ahead.erase_waiting {waiting : Nat} {inActivePipeline : List Int64}
    (seqNo : Int64) (enough : waiting + 1 ≤ inActivePipeline.length) :
    waiting ≤ (inActivePipeline.erase seqNo).length := by
  rw [List.length_erase]
  split_ifs <;> omega

theorem Ahead.skipSeqNo (ahead : fetching.Ahead) :
    Ahead { fetching with fetcher := fetching.fetcher.skipSeqNo } :=
  ⟨ahead.distinct, ahead.waiting, ahead.inFlight, ahead.finished⟩

theorem Ahead.requestSeqNo (ahead : fetching.Ahead)
    (forward : fetching.fetcher.maxInOrderRecvSeqNo ≤
      fetching.fetcher.minSendSeqNo)
    (cursor : fetching.fetcher.minSendSeqNo < fetching.fetcher.maxSeqNo)
    (missing : fetching.fetcher.minSendSeqNo + 1 ∉
      fetching.fetcher.outOfOrderRecvSeqNo)
    (new : fetching.fetcher.minSendSeqNo + 1 ∉
      fetching.fetcher.inActivePipeline) :
    Ahead { fetching with
      fetcher := fetching.fetcher.requestSeqNo
      outstanding := fetching.outstanding ++
        [fetching.fetcher.express (fetching.fetcher.minSendSeqNo + 1)] } := by
  have inserted := Fetcher.perm_insertSeqNo new
  refine ⟨?_, ?_, ?_, ahead.finished⟩
  · apply inserted.nodup_iff.mpr
    exact List.nodup_cons.mpr ⟨new, ahead.distinct⟩
  · rw [Fetcher.requestSeqNo, inserted.length_eq, pending, ← List.append_assoc,
      List.length_append]
    exact Nat.succ_le_succ ahead.waiting
  · intro seqNo member
    rcases Fetcher.mem_insertSeqNo.mp member with rfl | earlier
    · have next := int64_lt_succ_of_lt cursor
      exact ⟨lt_of_le_of_lt forward next, int64_succ_le cursor, missing⟩
    · exact ahead.inFlight seqNo earlier

theorem Ahead.fillPipeline (ahead : fetching.Ahead)
    (forward : ¬ Rewound fetching.fetcher) :
    Ahead { fetching with
      fetcher := fetching.fetcher.fillPipeline.1
      outstanding := fetching.outstanding ++
        fetching.fetcher.fillPipeline.2 } := by
  by_cases room : fetching.fetcher.minSendSeqNo < fetching.fetcher.maxSeqNo ∧
      fetching.fetcher.activePipeline < fetching.fetcher.pipeline
  · have before : fetching.fetcher.maxInOrderRecvSeqNo ≤
        fetching.fetcher.minSendSeqNo := by
      by_contra behind
      exact forward ⟨room.1, room.2, not_le.mp behind⟩
    have filled := Fetcher.fillLoop_invariant
      (fun (fetcher : Fetcher Name) expressed => Ahead { fetching with
          fetcher := fetcher
          outstanding := fetching.outstanding ++ expressed } ∧
        fetcher.maxInOrderRecvSeqNo ≤ fetcher.minSendSeqNo) ?skip ?request
      (fetching.fetcher.maxSeqNo.toInt -
        fetching.fetcher.minSendSeqNo.toInt).toNat fetching.fetcher []
      ?initial
    · exact filled.1
    case skip =>
      intro fetcher expressed cursor _ earlier
      refine ⟨earlier.1.skipSeqNo, le_trans earlier.2 ?_⟩
      exact le_of_lt (int64_lt_succ_of_lt cursor)
    case request =>
      intro fetcher expressed cursor _ missing new earlier
      have requested := earlier.1.requestSeqNo earlier.2 cursor missing new
      rw [List.append_assoc] at requested
      refine ⟨requested, le_trans earlier.2 ?_⟩
      exact le_of_lt (int64_lt_succ_of_lt cursor)
    case initial =>
      rw [List.append_nil]
      exact ⟨ahead, before⟩
  · rw [Fetcher.fillPipeline_eq_self room, List.append_nil]
    exact ahead

theorem Ahead.onDataExecute (ahead : fetching.Ahead)
    {expressed : Expressed Name} {data : Data Name} {jobs : List (Job Name)}
    (queued : fetching.jobs = .onDataExecute expressed data :: jobs)
    (pco : Data Name) (now : Int) :
    (onDataExecute { fetching with jobs := jobs } expressed pco now).Ahead := by
  have waiting := ahead.takeAnswer queued rfl
  have unfinished : fetching.finishCalls = 0 := ahead.unfinished (by omega)
  have inFlight : ∀ seqNo ∈ fetching.fetcher.inActivePipeline.erase
      expressed.seqno.toInt64,
      (fetching.fetcher.receiveData expressed.seqno
        now).maxInOrderRecvSeqNo < seqNo ∧
      seqNo ≤ fetching.fetcher.maxSeqNo ∧
      seqNo ∉ (fetching.fetcher.receiveData expressed.seqno
        now).outOfOrderRecvSeqNo := by
    intro seqNo member
    obtain ⟨other, earlier⟩ := ahead.distinct.mem_erase_iff.mp member
    obtain ⟨above, below, missing⟩ := ahead.inFlight seqNo earlier
    have new : seqNo ∉ Fetcher.insertSeqNo
        fetching.fetcher.outOfOrderRecvSeqNo expressed.seqno.toInt64 := by
      intro inserted
      rcases Fetcher.mem_insertSeqNo.mp inserted with same | received
      · exact other same
      · exact missing received
    refine ⟨?_, below, ?_⟩
    · by_contra passed
      exact new (Fetcher.advance_covered _ _ seqNo above (not_lt.mp passed))
    · intro kept
      exact new ((Fetcher.advance_suffix _ _).subset kept)
  rw [Fetching.onDataExecute]
  split_ifs with last
  · have finished : Ahead { fetching with
        fetcher := { fetching.fetcher.receiveData expressed.seqno now with
          active := false, timedwait := true }
        jobs := jobs
        finishCalls := fetching.finishCalls + 1 } := by
      refine ⟨ahead.distinct.erase _, Ahead.erase_waiting _ waiting, inFlight,
        .inr ⟨?_, last⟩⟩
      rw [unfinished]
    have queued := finished.enqueue .onFetchComplete rfl
    exact ⟨queued.distinct, queued.waiting, queued.inFlight, queued.finished⟩
  · have received : Ahead { fetching with
        fetcher := fetching.fetcher.receiveData expressed.seqno now
        jobs := jobs } :=
      ⟨ahead.distinct.erase _, Ahead.erase_waiting _ waiting, inFlight,
        .inl unfinished⟩
    have queued := received.enqueue .fillPipeline rfl
    exact ⟨queued.distinct, queued.waiting, queued.inFlight, queued.finished⟩

theorem Ahead.onTimeoutExecute (ahead : fetching.Ahead)
    {expressed : Expressed Name} {jobs : List (Job Name)}
    (queued : fetching.jobs = .onTimeoutExecute expressed :: jobs)
    (now : Int) :
    (onTimeoutExecute { fetching with jobs := jobs } expressed now).Ahead := by
  have waiting := ahead.takeAnswer queued rfl
  have inFlight : ∀ seqNo ∈ fetching.fetcher.inActivePipeline.erase
      expressed.seqno.toInt64,
      fetching.fetcher.maxInOrderRecvSeqNo < seqNo ∧
        seqNo ≤ fetching.fetcher.maxSeqNo ∧
          seqNo ∉ fetching.fetcher.outOfOrderRecvSeqNo := by
    intro seqNo member
    exact ahead.inFlight seqNo (List.mem_of_mem_erase member)
  rw [Fetching.onTimeoutExecute, Fetcher.dropSegment]
  split_ifs
  · exact ⟨ahead.distinct.erase _, Ahead.erase_waiting _ waiting, inFlight,
      ahead.finished⟩
  · exact ⟨ahead.distinct.erase _, Ahead.erase_waiting _ waiting, inFlight,
      ahead.finished⟩
  · refine ⟨ahead.distinct, ?_, ahead.inFlight, ahead.finished⟩
    rw [pending, ← List.append_assoc, List.length_append]
    exact waiting

theorem Ahead.runJob (ahead : fetching.Ahead) {job : Job Name}
    {jobs : List (Job Name)} (queued : fetching.jobs = job :: jobs) {now : Int}
    (forward : fetching.Forward (.execute now)) {target : Fetching Name}
    (ran : runJob decodeData { fetching with jobs := jobs } now job =
      some target) :
    target.Ahead := by
  cases job with
  | fillPipeline =>
      have drained := ahead.dequeue queued rfl
      rw [← Option.some.inj ran]
      apply drained.fillPipeline
      apply forward
      rw [queued]
      rfl
  | onDataExecute expressed data =>
      simp only [Fetching.runJob, Option.map_eq_some_iff] at ran
      obtain ⟨pco, _, rfl⟩ := ran
      exact ahead.onDataExecute queued pco now
  | onTimeoutExecute expressed =>
      rw [← Option.some.inj ran]
      exact ahead.onTimeoutExecute queued now
  | onFetchComplete =>
      rw [← Option.some.inj ran]
      exact ahead.dequeue queued rfl

theorem step_ahead {event : FetcherEvent Name} {target : Fetching Name}
    (forward : fetching.Forward event)
    (taken : step decodeData fetching event = some target)
    (ahead : fetching.Ahead) : target.Ahead := by
  cases event with
  | restartPipeline now =>
      rw [← Option.some.inj taken]
      have queued := ahead.enqueue .fillPipeline rfl
      exact ⟨queued.distinct, queued.waiting, queued.inFlight,
        queued.finished⟩
  | setForwardingHint forwardingHint =>
      rw [← Option.some.inj taken]
      exact ⟨ahead.distinct, ahead.waiting, ahead.inFlight, ahead.finished⟩
  | onData index data =>
      simp only [step, Option.map_eq_some_iff] at taken
      obtain ⟨expressed, found, rfl⟩ := taken
      exact ahead.answer found rfl
  | onTimeout index =>
      simp only [step, Option.map_eq_some_iff] at taken
      obtain ⟨expressed, found, rfl⟩ := taken
      exact ahead.answer found rfl
  | execute now =>
      cases queued : fetching.jobs with
      | nil => simp [step, queued] at taken
      | cons job jobs =>
          simp only [step, queued] at taken
          exact ahead.runJob queued forward taken

/-- In every run that never fills the pipeline from behind the numbers received
in order, the finish callback is called at most once, and only after the
segment callback has been called with every number of the range. -/
theorem finishesOnce_of_forward {deviceName name forwardingHint : Name}
    {minSeqNo maxSeqNo : Int64} {timeout : Int}
    (minimum : Int64.minValue < minSeqNo)
    {trace : List (Fetching Name × FetcherEvent Name)} {final : Fetching Name}
    (steps : Steps decodeData (start (Fetcher.construct deviceName name
      forwardingHint minSeqNo maxSeqNo timeout)) trace final)
    (forward : ∀ taken ∈ trace, Forward taken.1 taken.2) :
    final.FinishesOnce := by
  have ahead : final.Ahead := by
    apply steps.invariant_of_steps Forward forward (start_ahead _ _ _ _ _ _)
    intro source event target safe taken earlier
    exact step_ahead safe taken earlier
  exact ahead.finishesOnce (reached_reported minimum steps)

end Fetching

namespace Fetching

/-- A fetcher of `/bob` for eight segments, within thirty seconds. -/
def eightSegments : Fetcher Name :=
  Fetcher.construct Name.alex Name.bob (Name.ofComponents []) 1 8 30

/-- The packet around a segment of `/bob`. -/
def bobPacket (seqNo : UInt64) : Data Name where
  name := Name.uriOps.appendNumber Name.bob seqNo
  freshnessPeriod := 60
  content := writeData ⟨Name.uriOps.appendNumber Name.bob seqNo, 60, [1]⟩

/-- The first six interests are answered in order, and then the last two. -/
theorem finishesOnce_of_forward_eight :
    ∃ trace final, Steps readData (start eightSegments) trace final ∧
      final.finishCalls = 1 ∧ final.FinishesOnce := by
  have executed : (execute (step readData) (start eightSegments)
      [.restartPipeline 0, .execute 0, .onData 0 (bobPacket 1), .execute 1,
        .execute 1, .onData 0 (bobPacket 2), .execute 2, .execute 2,
        .onData 0 (bobPacket 3), .execute 3, .execute 3,
        .onData 0 (bobPacket 4), .execute 4, .execute 4,
        .onData 0 (bobPacket 5), .execute 5, .execute 5,
        .onData 0 (bobPacket 6), .execute 6, .execute 6,
        .onData 0 (bobPacket 7), .execute 7, .execute 7,
        .onData 0 (bobPacket 8), .execute 8, .execute 8]).any
          (fun result => result.2.finishCalls = 1 ∧
            ∀ taken ∈ result.1, taken.1.Forward taken.2) = true := by
    decide +kernel
  obtain ⟨⟨trace, final⟩, found, holds⟩ :=
    (Option.any_eq_true _ _).mp executed
  obtain ⟨once, forward⟩ := of_decide_eq_true holds
  have steps := execute_run found
  exact ⟨trace, final, steps, once,
    finishesOnce_of_forward (by decide) steps forward⟩

/-- Segment 2 is given up, 8 arrives, and the rest is given up; after the
restart 2 to 7 arrive before the first of their jobs is run.  The last of them
puts 8 in order, and the jobs behind it ask for 8 again. -/
theorem segment_again_finishes_twice :
    ¬ ∀ trace final, Steps readData (start eightSegments) trace final →
      final.FinishesOnce := by
  intro finishes
  have executed : (execute (step readData) (start eightSegments)
      [.restartPipeline 0, .execute 0, .onTimeout 1, .execute 40,
        .onData 0 (bobPacket 1), .execute 41, .execute 41,
        .onData 5 (bobPacket 8), .execute 42, .execute 42,
        .onTimeout 0, .onTimeout 0, .onTimeout 0, .onTimeout 0, .onTimeout 0,
        .execute 80, .execute 80, .execute 80, .execute 80, .execute 80,
        .restartPipeline 90, .execute 90,
        .onData 0 (bobPacket 2), .onData 0 (bobPacket 3),
        .onData 0 (bobPacket 4), .onData 0 (bobPacket 5),
        .onData 0 (bobPacket 6), .onData 0 (bobPacket 7),
        .execute 91, .execute 91, .execute 91, .execute 91, .execute 91,
        .execute 91, .execute 91, .onData 0 (bobPacket 8), .execute 91,
        .execute 91, .execute 91, .execute 91, .execute 91, .execute 92]).any
          (fun result => result.2.finishCalls = 2) = true := by
    decide +kernel
  obtain ⟨⟨trace, final⟩, found, holds⟩ :=
    (Option.any_eq_true _ _).mp executed
  have twice : final.finishCalls = 2 := of_decide_eq_true holds
  have once := (finishes trace final (execute_run found)).once
  omega

end Fetching

end ChronoShare
