import ChronoShare.Fetcher.Outstanding

/-!
# A fetch that has not finished

As long as the comparison with the end of the range fails, the number after
the greatest one received in order is still missing, unless a number beyond the
range has been received, over which the loop of `OnData_Execute` runs past the
end.
-/

namespace ChronoShare

theorem uint64_between {first number last : UInt64} (range : first ≤ last)
    (above : first.toInt64 ≤ number.toInt64)
    (below : number.toInt64 ≤ last.toInt64) :
    first ≤ number ∧ number ≤ last := by
  rw [Int64.le_iff_toInt_le, toInt_toInt64, toInt_toInt64] at above below
  rw [UInt64.le_iff_toNat_le] at range ⊢
  rw [UInt64.le_iff_toNat_le]
  have firstBound := first.toNat_lt
  have numberBound := number.toNat_lt
  have lastBound := last.toNat_lt
  split_ifs at above below <;> omega

namespace Fetcher

variable {Name : Type}

/-- Every number up to the end of the range is received or is this one. -/
def Completes (fetcher : Fetcher Name) (seqno : UInt64) : Prop :=
  ∀ seqNo, fetcher.maxInOrderRecvSeqNo < seqNo → seqNo ≤ fetcher.maxSeqNo →
    seqNo ∈ fetcher.outOfOrderRecvSeqNo ∨ seqNo = seqno.toInt64

-- A window up to the end of the range, without gaps.
instance (fetcher : Fetcher Name) (seqno : UInt64) :
    Decidable (fetcher.Completes seqno) :=
  decidable_of_iff
    (GapFree { fetcher with
      minSendSeqNo := fetcher.maxSeqNo
      inActivePipeline := [seqno.toInt64] })
    (by simp only [GapFree, Completes, List.mem_singleton])

/-- Data ends the fetch only if it closes the last gap. -/
theorem completes_of_receiveData {fetcher : Fetcher Name} {seqno : UInt64}
    {now : Int} (last : (fetcher.receiveData seqno now).maxInOrderRecvSeqNo =
      fetcher.maxSeqNo) : fetcher.Completes seqno := by
  intro seqNo above below
  rw [← last] at below
  have received := advance_covered _ _ seqNo above below
  exact (mem_insertSeqNo.mp received).symm

/-- The loop over received numbers without the one after the last. -/
structure Stopped (received : List Int64) (before last after : Int64)
    (kept : List Int64) : Prop where
  forward : before ≤ after
  bounded : after ≤ last
  ahead : ∀ seqNo ∈ received, seqNo ≤ after ∨ seqNo ∈ kept
  missing : after < last → after + 1 ∉ kept

theorem advance_stopped {received : List Int64} {before last : Int64}
    (sorted : received.Pairwise (· ≤ ·)) (within : before ≤ last)
    (beyond : last + 1 ∉ received) :
    Stopped received before last (advance received before).1
      (advance received before).2 := by
  induction received generalizing before with
  | nil => exact ⟨le_refl _, within, by simp, by simp [advance]⟩
  | cons head rest induction =>
      obtain ⟨least, sorted⟩ := List.pairwise_cons.mp sorted
      rw [List.mem_cons, not_or] at beyond
      obtain ⟨notHead, beyond⟩ := beyond
      rw [advance]
      split_ifs with next passed
      · have short : before < last := by
          apply lt_of_le_of_ne within
          rintro rfl
          exact notHead next.symm
        have headWithin : head ≤ last := by
          rw [next]
          exact int64_succ_le short
        have forward : before ≤ head := by
          rw [next]
          exact (int64_lt_succ_of_lt short).le
        have stopped := induction sorted headWithin beyond
        refine ⟨forward.trans stopped.forward, stopped.bounded, ?_,
          stopped.missing⟩
        intro seqNo member
        rcases List.mem_cons.mp member with rfl | member
        · exact .inl stopped.forward
        · exact stopped.ahead seqNo member
      · have stopped := induction sorted within beyond
        refine ⟨stopped.forward, stopped.bounded, ?_, stopped.missing⟩
        intro seqNo member
        rcases List.mem_cons.mp member with rfl | member
        · have behind : seqNo ≤ before := by grind
          exact .inl (behind.trans stopped.forward)
        · exact stopped.ahead seqNo member
      · refine ⟨le_refl _, within, fun seqNo member => .inr member, ?_⟩
        intro _ member
        have later : before + 1 < head :=
          lt_of_le_of_ne (not_lt.mp passed) (Ne.symm next)
        rcases List.mem_cons.mp member with same | member
        · exact next same.symm
        · exact absurd (least _ member) (not_le.mpr later)

end Fetcher

namespace Fetching

variable {Name : Type} {fetching : Fetching Name}

/-- The segment callback has been called with every number of the range, as
the numbers that they are. -/
def ReceivedAll (fetching : Fetching Name) : Prop :=
  ∀ seqNo : UInt64, fetching.fetcher.minSeqNo.toUInt64 ≤ seqNo →
    seqNo ≤ fetching.fetcher.maxSeqNo.toUInt64 →
      ∃ call ∈ fetching.segmentCalls, call.seqno = seqNo

/-- A number of the range is missing, and the loop of `OnData_Execute` will
stop before it. -/
structure Unfinished (fetching : Fetching Name) : Prop where
  range : fetching.fetcher.minSeqNo.toUInt64 ≤
    fetching.fetcher.maxSeqNo.toUInt64
  sent : fetching.fetcher.minSeqNo - 1 ≤ fetching.fetcher.minSendSeqNo
  inOrder : fetching.fetcher.minSeqNo - 1 ≤
    fetching.fetcher.maxInOrderRecvSeqNo
  short : fetching.fetcher.minSeqNo - 1 < fetching.fetcher.maxSeqNo →
    fetching.fetcher.maxInOrderRecvSeqNo < fetching.fetcher.maxSeqNo
  requested : fetching.pending ≠ [] ∨ fetching.segmentCalls ≠ [] →
    fetching.fetcher.minSeqNo - 1 < fetching.fetcher.maxSeqNo
  sorted : fetching.fetcher.outOfOrderRecvSeqNo.Pairwise (· ≤ ·)
  beyond : fetching.fetcher.maxSeqNo + 1 ∉
    fetching.fetcher.outOfOrderRecvSeqNo
  missing : fetching.fetcher.maxInOrderRecvSeqNo + 1 ∉
    fetching.fetcher.outOfOrderRecvSeqNo
  reported : ∀ call ∈ fetching.segmentCalls,
    call.seqno.toInt64 ≤ fetching.fetcher.maxInOrderRecvSeqNo ∨
      call.seqno.toInt64 ∈ fetching.fetcher.outOfOrderRecvSeqNo

theorem Unfinished.not_receivedAll (unfinished : fetching.Unfinished) :
    ¬ fetching.ReceivedAll := by
  intro all
  obtain ⟨first, called, _⟩ := all _ UInt64.le_rfl unfinished.range
  have within := unfinished.requested (.inr (List.ne_nil_of_mem called))
  have short := unfinished.short within
  have ahead := int64_lt_succ_of_lt short
  have above : fetching.fetcher.minSeqNo ≤
      fetching.fetcher.maxInOrderRecvSeqNo + 1 := by
    have inOrder := unfinished.inOrder
    grind
  have below := int64_succ_le short
  have signedAbove : fetching.fetcher.minSeqNo.toUInt64.toInt64 ≤
      (fetching.fetcher.maxInOrderRecvSeqNo + 1).toUInt64.toInt64 := by
    simpa using above
  have signedBelow :
      (fetching.fetcher.maxInOrderRecvSeqNo + 1).toUInt64.toInt64 ≤
        fetching.fetcher.maxSeqNo.toUInt64.toInt64 := by
    simpa using below
  obtain ⟨low, high⟩ :=
    uint64_between unfinished.range signedAbove signedBelow
  obtain ⟨call, member, same⟩ := all _ low high
  have number : call.seqno.toInt64 =
      fetching.fetcher.maxInOrderRecvSeqNo + 1 := by
    rw [same]
    simp
  have kept := unfinished.reported call member
  rw [number] at kept
  rcases kept with passed | waits
  · exact absurd passed (not_le.mpr ahead)
  · exact unfinished.missing waits

theorem start_unfinished (deviceName name forwardingHint : Name)
    {minSeqNo maxSeqNo : UInt64} (range : minSeqNo ≤ maxSeqNo)
    (timeout : Int) :
    (start (Fetcher.construct deviceName name forwardingHint
      minSeqNo.toInt64 maxSeqNo.toInt64 timeout)).Unfinished := by
  refine ⟨?_, le_refl _, le_refl _, id, ?_, List.Pairwise.nil, ?_, ?_, ?_⟩
  · simpa [start, Fetcher.construct] using range
  · simp [start, pending]
  · exact List.not_mem_nil
  · exact List.not_mem_nil
  · simp [start]

/-- Whether the fetch has finished does not depend on the flags, the hint, the
counter and the set of the pipeline, nor on the interests that wait, as long as
there are no more of them. -/
theorem Unfinished.of_received (unfinished : fetching.Unfinished)
    {target : Fetching Name}
    (minimum : target.fetcher.minSeqNo = fetching.fetcher.minSeqNo)
    (maximum : target.fetcher.maxSeqNo = fetching.fetcher.maxSeqNo)
    (inOrder : target.fetcher.maxInOrderRecvSeqNo =
      fetching.fetcher.maxInOrderRecvSeqNo)
    (outOfOrder : target.fetcher.outOfOrderRecvSeqNo =
      fetching.fetcher.outOfOrderRecvSeqNo)
    (calls : target.segmentCalls = fetching.segmentCalls)
    (sent : fetching.fetcher.minSeqNo - 1 ≤ target.fetcher.minSendSeqNo)
    (fewer : target.pending ≠ [] → fetching.pending ≠ [] ∨
      fetching.fetcher.minSeqNo - 1 < fetching.fetcher.maxSeqNo) :
    target.Unfinished := by
  refine ⟨?_, ?_, ?_, ?_, ?_, ?_, ?_, ?_, ?_⟩
  · rw [minimum, maximum]
    exact unfinished.range
  · rw [minimum]
    exact sent
  · rw [minimum, inOrder]
    exact unfinished.inOrder
  · rw [minimum, maximum, inOrder]
    exact unfinished.short
  · rw [minimum, maximum, calls]
    rintro (waits | called)
    · rcases fewer waits with before | within
      · exact unfinished.requested (.inl before)
      · exact within
    · exact unfinished.requested (.inr called)
  · rw [outOfOrder]
    exact unfinished.sorted
  · rw [maximum, outOfOrder]
    exact unfinished.beyond
  · rw [inOrder, outOfOrder]
    exact unfinished.missing
  · rw [calls, inOrder, outOfOrder]
    exact unfinished.reported

/-- `OnData_Execute` up to the comparison with the end of the range. -/
def receiveSegment (fetching : Fetching Name) (expressed : Expressed Name)
    (pco : Data Name) (now : Int) : Fetching Name :=
  { fetching with
    fetcher := fetching.fetcher.receiveData expressed.seqno now
    segmentCalls := fetching.segmentCalls ++
      [⟨fetching.fetcher.deviceName, fetching.fetcher.name, expressed.seqno,
        pco, expressed.interest⟩] }

/-- The comparison with the end of the range. -/
def Finished (fetching : Fetching Name) : Prop :=
  fetching.fetcher.maxInOrderRecvSeqNo = fetching.fetcher.maxSeqNo

instance (fetching : Fetching Name) : Decidable fetching.Finished :=
  inferInstanceAs (Decidable (_ = _))

/-- `OnData_Execute` up to the finish callback. -/
def callFinish (fetching : Fetching Name) : Fetching Name :=
  { fetching with
    fetcher := { fetching.fetcher with active := false }
    finishCalls := fetching.finishCalls + 1 }

/-- `OnData_Execute` after the finish callback. -/
def enterTimedWait (fetching : Fetching Name) : Fetching Name :=
  { fetching with
    fetcher := { fetching.fetcher with timedwait := true }
    jobs := fetching.jobs ++ [.onFetchComplete] }

theorem Unfinished.dequeue (unfinished : fetching.Unfinished) {job : Job Name}
    {jobs : List (Job Name)} (queued : fetching.jobs = job :: jobs) :
    Unfinished { fetching with jobs := jobs } := by
  refine unfinished.of_received rfl rfl rfl rfl rfl unfinished.sent ?_
  intro waits
  left
  rw [pending, queued]
  cases carries : job.expressed with
  | none =>
      rw [List.filterMap_cons_none carries]
      exact waits
  | some expressed =>
      rw [List.filterMap_cons_some carries]
      exact List.cons_ne_nil _ _

theorem Unfinished.enqueue (unfinished : fetching.Unfinished) (job : Job Name)
    (free : job.expressed = none) :
    Unfinished { fetching with jobs := fetching.jobs ++ [job] } := by
  refine unfinished.of_received rfl rfl rfl rfl rfl unfinished.sent ?_
  intro waits
  left
  rw [pending, pending_enqueue fetching.jobs free] at waits
  exact waits

theorem Unfinished.answer (unfinished : fetching.Unfinished) {index : Nat}
    {expressed : Expressed Name} {job : Job Name}
    (found : fetching.outstanding[index]? = some expressed)
    (carries : job.expressed = some expressed) :
    Unfinished { fetching with
      outstanding := fetching.outstanding.eraseIdx index
      jobs := fetching.jobs ++ [job] } := by
  refine unfinished.of_received rfl rfl rfl rfl rfl unfinished.sent ?_
  intro waits
  left
  rintro none
  have moved := pending_answer found carries
  rw [none] at moved
  exact waits moved.eq_nil

theorem Unfinished.restartPipeline (unfinished : fetching.Unfinished)
    (now : Int) :
    Unfinished { fetching with
      fetcher := fetching.fetcher.restartPipeline now
      jobs := fetching.jobs ++ [.fillPipeline] } := by
  have queued := unfinished.enqueue .fillPipeline rfl
  exact queued.of_received rfl rfl rfl rfl rfl unfinished.inOrder .inl

theorem Unfinished.fillPipeline (unfinished : fetching.Unfinished) :
    Unfinished { fetching with
      fetcher := fetching.fetcher.fillPipeline.1
      outstanding := fetching.outstanding ++
        fetching.fetcher.fillPipeline.2 } := by
  have filled := Fetcher.fillLoop_invariant
    (fun (fetcher : Fetcher Name) expressed => Unfinished { fetching with
      fetcher := fetcher
      outstanding := fetching.outstanding ++ expressed }) ?skip ?request
    (fetching.fetcher.maxSeqNo.toInt -
      fetching.fetcher.minSendSeqNo.toInt).toNat fetching.fetcher [] ?initial
  · exact filled
  case skip =>
    intro fetcher expressed cursor _ earlier
    have later := (int64_lt_succ_of_lt cursor).le
    exact earlier.of_received rfl rfl rfl rfl rfl (earlier.sent.trans later)
      .inl
  case request =>
    intro fetcher expressed cursor _ _ _ earlier
    have later := (int64_lt_succ_of_lt cursor).le
    refine earlier.of_received rfl rfl rfl rfl rfl (earlier.sent.trans later)
      fun _ => .inr ?_
    exact lt_of_le_of_lt earlier.sent cursor
  case initial =>
    rw [List.append_nil]
    exact unfinished

theorem Unfinished.setForwardingHint (unfinished : fetching.Unfinished)
    (forwardingHint : Name) :
    Unfinished { fetching with
      fetcher := { fetching.fetcher with forwardingHint := forwardingHint } } :=
  unfinished.of_received rfl rfl rfl rfl rfl unfinished.sent .inl

theorem Unfinished.onTimeoutExecute (unfinished : fetching.Unfinished)
    {expressed : Expressed Name} {jobs : List (Job Name)}
    (queued : fetching.jobs = .onTimeoutExecute expressed :: jobs)
    (now : Int) :
    (onTimeoutExecute { fetching with jobs := jobs } expressed
      now).Unfinished := by
  have waits : fetching.pending ≠ [] := by
    rw [pending_takeAnswer queued rfl]
    exact List.cons_ne_nil _ _
  rw [Fetching.onTimeoutExecute, Fetcher.dropSegment]
  split_ifs <;>
    exact unfinished.of_received rfl rfl rfl rfl rfl unfinished.sent
      fun _ => .inl waits

/-- Data that leaves the range unfinished, under a number that is not the one
after the end. -/
theorem Unfinished.receiveSegment (unfinished : fetching.Unfinished)
    {expressed : Expressed Name} {data : Data Name} {jobs : List (Job Name)}
    (queued : fetching.jobs = .onDataExecute expressed data :: jobs)
    (within : expressed.seqno.toInt64 ≠ fetching.fetcher.maxSeqNo + 1)
    (pco : Data Name) (now : Int)
    (unended : ¬ (receiveSegment { fetching with jobs := jobs } expressed pco
      now).Finished) :
    (receiveSegment { fetching with jobs := jobs } expressed pco
      now).Unfinished := by
  have waits : fetching.pending ≠ [] := by
    rw [pending_takeAnswer queued rfl]
    exact List.cons_ne_nil _ _
  have requested := unfinished.requested (.inl waits)
  have sorted := Fetcher.pairwise_insertSeqNo expressed.seqno.toInt64
    unfinished.sorted
  have beyond : fetching.fetcher.maxSeqNo + 1 ∉ Fetcher.insertSeqNo
      fetching.fetcher.outOfOrderRecvSeqNo expressed.seqno.toInt64 := by
    intro inserted
    rcases Fetcher.mem_insertSeqNo.mp inserted with same | earlier
    · exact within same.symm
    · exact unfinished.beyond earlier
  have stopped := Fetcher.advance_stopped sorted
    (unfinished.short requested).le beyond
  have suffix := Fetcher.advance_suffix (Fetcher.insertSeqNo
    fetching.fetcher.outOfOrderRecvSeqNo expressed.seqno.toInt64)
    fetching.fetcher.maxInOrderRecvSeqNo
  have short := lt_of_le_of_ne stopped.bounded unended
  refine ⟨unfinished.range, unfinished.sent,
    unfinished.inOrder.trans stopped.forward, fun _ => short,
    fun _ => requested, sorted.sublist suffix.sublist,
    fun kept => beyond (suffix.subset kept), stopped.missing short, ?_⟩
  intro call member
  rcases List.mem_append.mp member with earlier | last
  · rcases unfinished.reported call earlier with passed | kept
    · exact .inl (passed.trans stopped.forward)
    · exact stopped.ahead _ (Fetcher.mem_insertSeqNo.mpr (.inr kept))
  · rw [List.mem_singleton.mp last]
    exact stopped.ahead _ (Fetcher.mem_insertSeqNo.mpr (.inl rfl))

end Fetching

end ChronoShare
