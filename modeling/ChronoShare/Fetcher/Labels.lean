import ChronoShare.Fetcher.Window
import ChronoShare.ActionLog.MessageFormat

/-!
# The number a segment is stored under

Each time an interest is expressed again, the number bound in its closures
moves one ahead of the number in its name.  The segment callback is therefore
called with the number of the interest only when the interest has not been
expressed again.
-/

namespace ChronoShare

/-- The number bound in the closures is ahead of the number in the name by the
number of retransmissions. -/
structure Expressed.Drifted {Name : Type} (baseName : Name)
    (expressed : Expressed Name) : Prop where
  name : expressed.interest.name = baseName
  seqno : expressed.seqno = expressed.interest.seqNo +
    UInt64.ofNat expressed.retransmissions

/-- The data answers an interest for the number it is handed on with. -/
structure SegmentCall.Faithful {Name : Type} (baseName : Name)
    (call : SegmentCall Name) : Prop where
  name : call.interest.name = baseName
  seqno : call.interest.seqNo = call.seqno

theorem uint64_add_ofNat_eq_self (number : UInt64) (ahead : Nat) :
    number + UInt64.ofNat ahead = number ↔ 2 ^ 64 ∣ ahead := by
  rw [UInt64.add_eq_left, ← UInt64.toNat_inj, Nat.dvd_iff_mod_eq_zero]
  simp

namespace Fetcher

variable {Name : Type}

theorem drifted_express (fetcher : Fetcher Name) (seqNo : Int64) :
    (fetcher.express seqNo).Drifted fetcher.name :=
  ⟨rfl, by simp [express]⟩

theorem fillLoop_drifted (fuel : Nat) (fetcher : Fetcher Name) :
    (fetcher.fillLoop fuel).1.name = fetcher.name ∧
      ∀ expressed ∈ (fetcher.fillLoop fuel).2,
        expressed.Drifted fetcher.name := by
  have filled := fillLoop_invariant
    (fun (later : Fetcher Name) expressions =>
      later.name = fetcher.name ∧
        ∀ expressed ∈ expressions, expressed.Drifted fetcher.name)
    (fun _ _ _ _ earlier => earlier) ?request fuel fetcher [] ?initial
  · exact filled
  case request =>
    intro later expressions _ _ _ _ earlier
    obtain ⟨sameName, drifted⟩ := earlier
    refine ⟨sameName, ?_⟩
    intro expressed member
    rcases List.mem_append.mp member with before | new
    · exact drifted expressed before
    · rw [List.mem_singleton.mp new, ← sameName]
      exact drifted_express later _
  case initial => exact ⟨rfl, nofun⟩

end Fetcher

namespace Fetching

variable {Name : Type} {decodeData : Bytes → Option (Data Name)}

/-- Every interest that is outstanding or whose answer is queued has drifted by
its retransmissions. -/
structure AllDrifted (baseName : Name) (fetching : Fetching Name) : Prop where
  name : fetching.fetcher.name = baseName
  outstanding : ∀ expressed ∈ fetching.outstanding,
    expressed.Drifted baseName
  jobs : ∀ job ∈ fetching.jobs, ∀ expressed, job.expressed = some expressed →
    expressed.Drifted baseName

variable {baseName : Name} {fetching : Fetching Name}

theorem drifted_again {expressed : Expressed Name}
    (drifted : expressed.Drifted baseName) :
    Expressed.Drifted baseName ⟨expressed.interest, expressed.seqno + 1,
      expressed.retransmissions + 1⟩ where
  name := drifted.name
  seqno := by
    rw [drifted.seqno, UInt64.ofNat_add, UInt64.add_assoc]
    rfl

theorem AllDrifted.enqueue (drifted : AllDrifted baseName fetching)
    {job : Job Name} (answers : ∀ expressed, job.expressed = some expressed →
      expressed.Drifted baseName) :
    AllDrifted baseName { fetching with jobs := fetching.jobs ++ [job] } := by
  refine ⟨drifted.name, drifted.outstanding, ?_⟩
  intro other member
  rcases List.mem_append.mp member with queued | new
  · exact drifted.jobs other queued
  · rw [List.mem_singleton.mp new]
    exact answers

theorem AllDrifted.answer (drifted : AllDrifted baseName fetching)
    {index : Nat} {expressed : Expressed Name} {job : Job Name}
    (found : fetching.outstanding[index]? = some expressed)
    (carries : job.expressed = some expressed) :
    AllDrifted baseName { fetching with
      outstanding := fetching.outstanding.eraseIdx index
      jobs := fetching.jobs ++ [job] } := by
  have answered : expressed.Drifted baseName :=
    drifted.outstanding expressed (List.mem_of_getElem? found)
  have fewer : AllDrifted baseName { fetching with
      outstanding := fetching.outstanding.eraseIdx index } := by
    refine ⟨drifted.name, ?_, drifted.jobs⟩
    intro other member
    exact drifted.outstanding other (List.mem_of_mem_eraseIdx member)
  apply fewer.enqueue
  intro other same
  rw [carries, Option.some.injEq] at same
  rw [← same]
  exact answered

theorem AllDrifted.runJob (drifted : AllDrifted baseName fetching) {now : Int}
    {job : Job Name} (carried : ∀ expressed, job.expressed = some expressed →
      expressed.Drifted baseName) {target : Fetching Name}
    (ran : fetching.runJob decodeData now job = some target) :
    AllDrifted baseName target := by
  cases job with
  | fillPipeline =>
      obtain ⟨sameName, expressedDrifted⟩ :=
        Fetcher.fillLoop_drifted _ fetching.fetcher
      rw [← Option.some.inj ran]
      refine ⟨sameName.trans drifted.name, ?_, drifted.jobs⟩
      intro expressed member
      rcases List.mem_append.mp member with earlier | new
      · exact drifted.outstanding expressed earlier
      · rw [← drifted.name]
        exact expressedDrifted expressed new
  | onDataExecute expressed data =>
      simp only [Fetching.runJob, Option.map_eq_some_iff] at ran
      obtain ⟨pco, _, rfl⟩ := ran
      have free : ∀ job : Job Name, job = .onFetchComplete ∨
          job = .fillPipeline → ∀ expressed, job.expressed = some expressed →
            expressed.Drifted baseName := by
        intro job kind expressed carries
        rcases kind with rfl | rfl <;> simp [Job.expressed] at carries
      rw [Fetching.onDataExecute]
      split_ifs
      · have queued := drifted.enqueue (free .onFetchComplete (.inl rfl))
        exact ⟨queued.name, queued.outstanding, queued.jobs⟩
      · have queued := drifted.enqueue (free .fillPipeline (.inr rfl))
        exact ⟨queued.name, queued.outstanding, queued.jobs⟩
  | onTimeoutExecute expressed =>
      rw [← Option.some.inj ran, Fetching.onTimeoutExecute]
      split_ifs
      · refine ⟨?_, drifted.outstanding, drifted.jobs⟩
        rw [← drifted.name]
        simp only [Fetcher.dropSegment]
        split_ifs <;> rfl
      · refine ⟨drifted.name, ?_, drifted.jobs⟩
        intro other member
        rcases List.mem_append.mp member with earlier | new
        · exact drifted.outstanding other earlier
        · rw [List.mem_singleton.mp new]
          exact drifted_again (carried expressed rfl)
  | onFetchComplete =>
      rw [← Option.some.inj ran]
      exact drifted

theorem step_allDrifted {event : FetcherEvent Name} {target : Fetching Name}
    (taken : step decodeData fetching event = some target)
    (drifted : AllDrifted baseName fetching) : AllDrifted baseName target := by
  cases event with
  | restartPipeline now =>
      rw [← Option.some.inj taken]
      have free : ∀ expressed, Job.expressed (.fillPipeline : Job Name) =
          some expressed → expressed.Drifted baseName := by
        simp [Job.expressed]
      have queued := drifted.enqueue free
      exact ⟨queued.name, queued.outstanding, queued.jobs⟩
  | setForwardingHint forwardingHint =>
      rw [← Option.some.inj taken]
      exact ⟨drifted.name, drifted.outstanding, drifted.jobs⟩
  | onData index data =>
      simp only [step, Option.map_eq_some_iff] at taken
      obtain ⟨expressed, found, rfl⟩ := taken
      exact drifted.answer found rfl
  | onTimeout index =>
      simp only [step, Option.map_eq_some_iff] at taken
      obtain ⟨expressed, found, rfl⟩ := taken
      exact drifted.answer found rfl
  | execute now =>
      cases queued : fetching.jobs with
      | nil => simp [step, queued] at taken
      | cons job jobs =>
          simp only [step, queued] at taken
          have drained : AllDrifted baseName
              { fetching with jobs := jobs } := by
            refine ⟨drifted.name, drifted.outstanding, ?_⟩
            intro other member
            exact drifted.jobs other (by simp [queued, member])
          exact drained.runJob (drifted.jobs job (by simp [queued])) taken

/-- The interest whose data an event hands to the segment callback. -/
def handedOn (fetching : Fetching Name) : FetcherEvent Name →
    Option (Expressed Name)
  | .execute _ =>
      match fetching.jobs with
      | .onDataExecute expressed _ :: _ => some expressed
      | _ => none
  | _ => none

/-- A step calls the segment callback for the interest it hands on, and for no
other. -/
theorem step_segmentCalls {event : FetcherEvent Name} {target : Fetching Name}
    (taken : step decodeData fetching event = some target) :
    (handedOn fetching event = none ∧
        target.segmentCalls = fetching.segmentCalls) ∨
      ∃ expressed call, handedOn fetching event = some expressed ∧
        target.segmentCalls = fetching.segmentCalls ++ [call] ∧
        call.seqno = expressed.seqno ∧
        call.interest = expressed.interest := by
  cases event with
  | restartPipeline now =>
      rw [← Option.some.inj taken]
      exact .inl ⟨rfl, rfl⟩
  | setForwardingHint forwardingHint =>
      rw [← Option.some.inj taken]
      exact .inl ⟨rfl, rfl⟩
  | onData index data =>
      simp only [step, Option.map_eq_some_iff] at taken
      obtain ⟨expressed, _, rfl⟩ := taken
      exact .inl ⟨rfl, rfl⟩
  | onTimeout index =>
      simp only [step, Option.map_eq_some_iff] at taken
      obtain ⟨expressed, _, rfl⟩ := taken
      exact .inl ⟨rfl, rfl⟩
  | execute now =>
      cases queued : fetching.jobs with
      | nil => simp [step, queued] at taken
      | cons job jobs =>
          simp only [step, queued] at taken
          cases job with
          | fillPipeline =>
              rw [← Option.some.inj taken]
              exact .inl ⟨by simp [handedOn, queued], rfl⟩
          | onDataExecute expressed data =>
              simp only [runJob, Option.map_eq_some_iff] at taken
              obtain ⟨pco, _, rfl⟩ := taken
              refine .inr ⟨expressed, ⟨fetching.fetcher.deviceName,
                fetching.fetcher.name, expressed.seqno, pco,
                expressed.interest⟩, by simp [handedOn, queued], ?_⟩
              rw [onDataExecute]
              split_ifs <;> exact ⟨rfl, rfl, rfl⟩
          | onTimeoutExecute expressed =>
              rw [← Option.some.inj taken, onTimeoutExecute]
              left
              split_ifs <;> exact ⟨by simp [handedOn, queued], rfl⟩
          | onFetchComplete =>
              rw [← Option.some.inj taken]
              exact .inl ⟨by simp [handedOn, queued], rfl⟩

theorem handedOn_drifted {event : FetcherEvent Name}
    (drifted : AllDrifted baseName fetching) {expressed : Expressed Name}
    (handed : handedOn fetching event = some expressed) :
    expressed.Drifted baseName := by
  cases event with
  | execute now =>
      simp only [handedOn] at handed
      split at handed
      · rename_i other data jobs queued
        obtain rfl := Option.some.inj handed
        exact drifted.jobs (.onDataExecute other data) (by simp [queued]) other
          rfl
      · simp at handed
  | _ => simp [handedOn] at handed

theorem faithful_iff {expressed : Expressed Name} {call : SegmentCall Name}
    (drifted : expressed.Drifted baseName)
    (sameNumber : call.seqno = expressed.seqno)
    (sameInterest : call.interest = expressed.interest) :
    call.Faithful baseName ↔ 2 ^ 64 ∣ expressed.retransmissions := by
  rw [← uint64_add_ofNat_eq_self expressed.interest.seqNo, ← drifted.seqno]
  constructor
  · intro faithful
    rw [← sameNumber, ← sameInterest]
    exact faithful.seqno.symm
  · intro same
    refine ⟨by rw [sameInterest]; exact drifted.name, ?_⟩
    rw [sameNumber, sameInterest]
    exact same.symm

theorem start_allDrifted (fetcher : Fetcher Name) :
    AllDrifted fetcher.name (start fetcher) :=
  ⟨rfl, by simp [start], by simp [start]⟩

theorem reached_allDrifted {fetcher : Fetcher Name}
    {trace : List (Fetching Name × FetcherEvent Name)} {final : Fetching Name}
    (steps : Steps decodeData (start fetcher) trace final) :
    AllDrifted fetcher.name final := by
  apply steps.invariant (start_allDrifted fetcher)
  intro source event target taken drifted
  exact step_allDrifted taken drifted

/-- The calls of a run have a property exactly if the interests whose data it
hands on have one, when the properties are the same for a single call. -/
theorem forall_segmentCalls_iff {fetcher : Fetcher Name}
    {holds : SegmentCall Name → Prop} {kept : Expressed Name → Prop}
    (each : ∀ {expressed call}, expressed.Drifted fetcher.name →
      call.seqno = expressed.seqno → call.interest = expressed.interest →
        (holds call ↔ kept expressed))
    {trace : List (Fetching Name × FetcherEvent Name)} {final : Fetching Name}
    (steps : Steps decodeData (start fetcher) trace final) :
    (∀ call ∈ final.segmentCalls, holds call) ↔
      ∀ taken ∈ trace, ∀ expressed, handedOn taken.1 taken.2 = some expressed →
        kept expressed := by
  induction steps with
  | nil => simp [start]
  | @snoc trace middle final event reached taken induction =>
      have here := reached_allDrifted reached
      have traces : (∀ step ∈ trace ++ [(middle, event)], ∀ expressed,
          handedOn step.1 step.2 = some expressed → kept expressed) ↔
          (∀ call ∈ middle.segmentCalls, holds call) ∧
            ∀ expressed, handedOn middle event = some expressed →
              kept expressed := by
        rw [List.forall_mem_append, ← induction, List.forall_mem_singleton]
      rw [traces]
      rcases step_segmentCalls taken with
        ⟨silent, calls⟩ | ⟨expressed, call, handed, calls, number, interest⟩
      · simp [silent, calls]
      · rw [calls, List.forall_mem_append, List.forall_mem_singleton,
          each (handedOn_drifted here handed) number interest]
        simp [handed]

/-- In every run, each call of the segment callback is for data that answers an
interest for the number of the call, exactly if no data is handed on for an
interest that has been expressed again, other than a multiple of `2 ^ 64`
times. -/
theorem segment_calls_faithful_iff {fetcher : Fetcher Name}
    {trace : List (Fetching Name × FetcherEvent Name)} {final : Fetching Name}
    (steps : Steps decodeData (start fetcher) trace final) :
    (∀ call ∈ final.segmentCalls, call.Faithful fetcher.name) ↔
      ∀ taken ∈ trace, ∀ expressed, handedOn taken.1 taken.2 = some expressed →
        2 ^ 64 ∣ expressed.retransmissions :=
  forall_segmentCalls_iff faithful_iff steps

end Fetching

namespace Fetching

/-- A fetcher of `/bob` for one segment, within thirty seconds. -/
def oneSegment : Fetcher Name :=
  Fetcher.construct Name.alex Name.bob (Name.ofComponents []) 1 1 30

/-- The packet `/bob/1`, with a packet inside. -/
def firstSegment : Data Name where
  name := Name.uriOps.appendNumber Name.bob 1
  freshnessPeriod := 60
  content := writeData ⟨Name.uriOps.appendNumber Name.bob 1, 60, [1]⟩

theorem segment_calls_faithful_iff_prompt :
    ∃ trace final, Steps readData (start oneSegment) trace final ∧
      final.segmentCalls ≠ [] ∧
        ∀ call ∈ final.segmentCalls, call.Faithful oneSegment.name := by
  have executed : (execute (step readData) (start oneSegment)
      [.restartPipeline 0, .execute 0, .onData 0 firstSegment,
        .execute 1]).any (fun result =>
          result.2.segmentCalls ≠ [] ∧ ∀ taken ∈ result.1,
            (handedOn taken.1 taken.2).all fun expressed =>
              expressed.retransmissions = 0) = true := by
    decide +kernel
  obtain ⟨⟨trace, final⟩, found, holds⟩ :=
    (Option.any_eq_true _ _).mp executed
  obtain ⟨called, prompt⟩ := of_decide_eq_true holds
  have steps := execute_run found
  refine ⟨trace, final, steps, called, ?_⟩
  apply (segment_calls_faithful_iff steps).mpr
  intro taken member expressed handed
  have first := prompt taken member
  rw [handed] at first
  rw [of_decide_eq_true first]
  exact Nat.dvd_zero _

/-- The interest for segment 1 is expressed again once, and its data is handed
on as segment 2. -/
theorem late_segment_mislabelled :
    ¬ ∀ trace final, Steps readData (start oneSegment) trace final →
      ∀ call ∈ final.segmentCalls, call.Faithful oneSegment.name := by
  intro faithful
  have executed : (execute (step readData) (start oneSegment)
      [.restartPipeline 0, .execute 0, .onTimeout 0, .execute 1,
        .onData 0 firstSegment, .execute 2]).any (fun result =>
          ∃ call ∈ result.2.segmentCalls,
            call.seqno = 2 ∧ call.interest.seqNo = 1) = true := by
    decide +kernel
  obtain ⟨⟨trace, final⟩, found, holds⟩ :=
    (Option.any_eq_true _ _).mp executed
  obtain ⟨call, member, labelled, requested⟩ := of_decide_eq_true holds
  have same := (faithful trace final (execute_run found) call member).seqno
  rw [labelled, requested] at same
  exact absurd same (by decide)

end Fetching

end ChronoShare
