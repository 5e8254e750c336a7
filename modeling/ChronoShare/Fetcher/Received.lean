import ChronoShare.Fetcher.Window

/-!
# What a fetcher has received

In every run, whatever the order of its events, a number counts as received
only after the segment callback has been called with it; the finish callback
is called when the whole range counts as received.
-/

namespace ChronoShare

namespace Fetching

variable {Name : Type}

/-- The segment callback has been called with the number. -/
def Received (fetching : Fetching Name) (seqNo : Int64) : Prop :=
  ∃ call ∈ fetching.segmentCalls, call.seqno.toInt64 = seqNo

def AllReceived (fetching : Fetching Name) : Prop :=
  ∀ seqNo, fetching.fetcher.minSeqNo ≤ seqNo →
    seqNo ≤ fetching.fetcher.maxSeqNo → fetching.Received seqNo

/-- The numbers received in order and out of order are numbers that the
segment callback has been called with, and so is the whole range when the
finish callback has been called. -/
structure Reported (fetching : Fetching Name) : Prop where
  inOrder : ∀ seqNo, fetching.fetcher.minSeqNo ≤ seqNo →
    seqNo ≤ fetching.fetcher.maxInOrderRecvSeqNo → fetching.Received seqNo
  outOfOrder : ∀ seqNo ∈ fetching.fetcher.outOfOrderRecvSeqNo,
    fetching.Received seqNo
  complete : 0 < fetching.finishCalls → fetching.AllReceived

variable {fetching : Fetching Name} {decodeData : Bytes → Option (Data Name)}

theorem received_append (fetching : Fetching Name) (call : SegmentCall Name)
    {seqNo : Int64} :
    Received { fetching with
        segmentCalls := fetching.segmentCalls ++ [call] } seqNo ↔
      fetching.Received seqNo ∨ seqNo = call.seqno.toInt64 := by
  simp only [Received, List.mem_append, List.mem_singleton, or_and_right,
    exists_or, exists_eq_left]
  constructor
  · exact Or.imp_right Eq.symm
  · exact Or.imp_right Eq.symm

theorem start_reported (deviceName name forwardingHint : Name)
    {minSeqNo : Int64} (maxSeqNo : Int64) (timeout : Int)
    (minimum : Int64.minValue < minSeqNo) :
    (start (Fetcher.construct deviceName name forwardingHint minSeqNo maxSeqNo
      timeout)).Reported := by
  refine ⟨?_, by simp [start, Fetcher.construct], by simp [start]⟩
  intro seqNo above below
  have before : seqNo ≤ minSeqNo - 1 := below
  have after : minSeqNo ≤ seqNo := above
  exfalso
  grind

theorem Reported.fillPipeline (reported : fetching.Reported)
    (outstanding : List (Expressed Name)) :
    Reported { fetching with
      fetcher := fetching.fetcher.fillPipeline.1
      outstanding := outstanding } := by
  obtain ⟨sameMin, sameMax, sameInOrder, sameOutOfOrder⟩ :=
    fetching.fetcher.fillPipeline_received
  refine ⟨?_, ?_, ?_⟩
  · intro seqNo above below
    rw [sameMin] at above
    rw [sameInOrder] at below
    exact reported.inOrder seqNo above below
  · intro seqNo member
    rw [sameOutOfOrder] at member
    exact reported.outOfOrder seqNo member
  · intro called seqNo above below
    rw [sameMin] at above
    rw [sameMax] at below
    exact reported.complete called seqNo above below

/-- Data moves its number, and those that follow it, to the numbers received in
order. -/
theorem Reported.receiveData (reported : fetching.Reported)
    {seqno : UInt64} (now : Int) (call : SegmentCall Name)
    (labelled : call.seqno = seqno) :
    Reported { fetching with
      fetcher := fetching.fetcher.receiveData seqno now
      segmentCalls := fetching.segmentCalls ++ [call] } := by
  have inserted : ∀ seqNo ∈ Fetcher.insertSeqNo
      fetching.fetcher.outOfOrderRecvSeqNo seqno.toInt64,
      Received { fetching with
        segmentCalls := fetching.segmentCalls ++ [call] } seqNo := by
    intro seqNo member
    apply (received_append fetching call).mpr
    rw [labelled]
    rcases Fetcher.mem_insertSeqNo.mp member with new | earlier
    · exact .inr new
    · exact .inl (reported.outOfOrder seqNo earlier)
  refine ⟨?_, ?_, ?_⟩
  · intro seqNo above below
    rcases le_or_gt seqNo fetching.fetcher.maxInOrderRecvSeqNo with
      earlier | later
    · apply (received_append fetching call).mpr
      exact .inl (reported.inOrder seqNo above earlier)
    · exact inserted seqNo (Fetcher.advance_covered _ _ seqNo later below)
  · intro seqNo member
    exact inserted seqNo ((Fetcher.advance_suffix _ _).subset member)
  · intro called seqNo above below
    apply (received_append fetching call).mpr
    exact .inl (reported.complete called seqNo above below)

theorem Reported.onDataExecute (reported : fetching.Reported)
    (expressed : Expressed Name) (pco : Data Name) (now : Int) :
    (fetching.onDataExecute expressed pco now).Reported := by
  have received := reported.receiveData now
    ⟨fetching.fetcher.deviceName, fetching.fetcher.name, expressed.seqno, pco,
      expressed.interest⟩ rfl
  rw [Fetching.onDataExecute]
  split_ifs with last
  · refine ⟨received.inOrder, received.outOfOrder, ?_⟩
    intro _ seqNo above below
    apply received.inOrder seqNo above
    rw [last]
    exact below
  · exact ⟨received.inOrder, received.outOfOrder, received.complete⟩

theorem Reported.onTimeoutExecute (reported : fetching.Reported)
    (expressed : Expressed Name) (now : Int) :
    (fetching.onTimeoutExecute expressed now).Reported := by
  rw [Fetching.onTimeoutExecute, Fetcher.dropSegment]
  split_ifs <;>
    exact ⟨reported.inOrder, reported.outOfOrder, reported.complete⟩

theorem Reported.runJob (reported : fetching.Reported) {job : Job Name}
    {now : Int} {target : Fetching Name}
    (ran : fetching.runJob decodeData now job = some target) :
    target.Reported := by
  cases job with
  | fillPipeline =>
      rw [← Option.some.inj ran]
      exact reported.fillPipeline _
  | onDataExecute expressed data =>
      simp only [Fetching.runJob, Option.map_eq_some_iff] at ran
      obtain ⟨pco, _, rfl⟩ := ran
      exact reported.onDataExecute expressed pco now
  | onTimeoutExecute expressed =>
      rw [← Option.some.inj ran]
      exact reported.onTimeoutExecute expressed now
  | onFetchComplete =>
      rw [← Option.some.inj ran]
      exact reported

theorem step_reported {event : FetcherEvent Name} {target : Fetching Name}
    (taken : step decodeData fetching event = some target)
    (reported : fetching.Reported) : target.Reported := by
  cases event with
  | restartPipeline now =>
      rw [← Option.some.inj taken]
      exact ⟨reported.inOrder, reported.outOfOrder, reported.complete⟩
  | setForwardingHint forwardingHint =>
      rw [← Option.some.inj taken]
      exact ⟨reported.inOrder, reported.outOfOrder, reported.complete⟩
  | onData index data =>
      simp only [step, Option.map_eq_some_iff] at taken
      obtain ⟨expressed, _, rfl⟩ := taken
      exact ⟨reported.inOrder, reported.outOfOrder, reported.complete⟩
  | onTimeout index =>
      simp only [step, Option.map_eq_some_iff] at taken
      obtain ⟨expressed, _, rfl⟩ := taken
      exact ⟨reported.inOrder, reported.outOfOrder, reported.complete⟩
  | execute now =>
      cases queued : fetching.jobs with
      | nil => simp [step, queued] at taken
      | cons job jobs =>
          simp only [step, queued] at taken
          have drained : Reported { fetching with jobs := jobs } :=
            ⟨reported.inOrder, reported.outOfOrder, reported.complete⟩
          exact drained.runJob taken

theorem reached_reported {deviceName name forwardingHint : Name}
    {minSeqNo maxSeqNo : Int64} {timeout : Int}
    (minimum : Int64.minValue < minSeqNo)
    {trace : List (Fetching Name × FetcherEvent Name)} {final : Fetching Name}
    (steps : Steps decodeData (start (Fetcher.construct deviceName name
      forwardingHint minSeqNo maxSeqNo timeout)) trace final) :
    final.Reported := by
  apply steps.invariant (start_reported _ _ _ maxSeqNo timeout minimum)
  intro source event target taken reported
  exact step_reported taken reported

end Fetching

end ChronoShare
