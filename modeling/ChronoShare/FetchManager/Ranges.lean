import ChronoShare.Dispatcher.Segments
import ChronoShare.FetchManager.Tasks
import ChronoShare.Fetcher.Labels
import ChronoShare.SyncCore.MessageFormat
import ChronoShare.SyncCore.Reports
import Mathlib.Data.Multiset.AddSub

/-!
# The numbers of a range

A range comes from a message as unsigned numbers, is stored in a signed column,
is given to a fetcher that counts with signed ones, and the number of an action
that is fetched is cut to 32 bits on its way to the log.
-/

namespace ChronoShare

namespace SyncCore

theorem sent_of_recorded {Name : Type} {ndn : NameOps Name}
    {sent : SyncState} {deviceName : Bytes} {seq : UInt64}
    (isRecorded : recorded ndn sent = some (deviceName, seq.toInt64)) :
    sent.type = .update ∧ sent.seq.getD 0 = seq ∧
      (ndn.ofString sent.name).map ndn.wire = some deviceName := by
  rw [recorded] at isRecorded
  cases kind : sent.type with
  | delete => simp [kind] at isRecorded
  | update =>
      simp only [kind, Option.map_eq_some_iff, Prod.mk.injEq] at isRecorded
      obtain ⟨name, named, wire, number⟩ := isRecorded
      refine ⟨rfl, ?_, ?_⟩
      · rw [← UInt64.toUInt64_toInt64 (sent.seq.getD 0), number,
          UInt64.toUInt64_toInt64]
      · rw [named, Option.map_some, wire]

/-- The new number of a reported entry was known before the message, or is the
unsigned number of one of its entries. -/
theorem seq_of_reported {Name : Type} {platform : Platform Name}
    {core handled : SyncCore Name} (wellFormed : core.WellFormed platform)
    {content : Bytes} {effects : List (Effect Name)}
    (done : core.handleStateData platform content = some (handled, effects))
    {msg : SyncStateMsg}
    (parsed : platform.deserializeGZipMsg content = some msg)
    {report : SyncStateMsg} (reported : report ∈ reportsOf effects)
    {state : SyncState} (member : state ∈ report) {seq : UInt64}
    (isNew : state.seq = some seq) :
    core.seqMap state.name = seq.toInt64 ∨
      ∃ sent ∈ msg, sent.type = .update ∧ sent.seq.getD 0 = seq ∧
        (platform.ndn.ofString sent.name).map platform.ndn.wire =
          some state.name := by
  rcases handleStateData_cases done with
    ⟨unparsed, -⟩ | ⟨other, log, parsedOther, applied, rfl, rfl⟩
  · rw [parsed] at unparsed
    simp at unparsed
  · obtain rfl : msg = other := Option.some.inj (parsed.symm.trans parsedOther)
    obtain ⟨grown, raised⟩ := applyStates_spec wellFormed.log applied
    have logged := grown.wellFormed wellFormed.log
    have isReport : report = (rememberRoot platform
        { core with log }).differencesSince core.rootHash :=
      mem_reportsOf_callbackOn reported
    have remembered :=
      @rememberRoot_wellFormed _ platform { core with log } logged
    have root := @rememberRoot_rootMap _ platform { core with log } logged
    rw [isReport] at member
    obtain ⟨node, -, -, rfl⟩ :=
      (SyncDb.mem_findStateDifferences remembered.log.db).mp member
    have known : ({ core with log } : SyncCore Name).seqMap node.deviceName =
        seq.toInt64 := by
      rw [← root]
      obtain ⟨number, isNumber, rfl⟩ := Option.map_eq_some_iff.mp isNew
      rw [Int64.toInt64_toUInt64]
      exact SyncDb.eq_coe_of_columnOf isNumber
    have sentOrKnown := MaxMap.mem_of_raiseAll
      ((congrFun raised node.deviceName).symm.trans known)
    rcases sentOrKnown with earlier | sent
    · exact Or.inl earlier
    · obtain ⟨state, stateIn, isRecorded⟩ := List.mem_filterMap.mp sent
      exact Or.inr ⟨state, stateIn, sent_of_recorded isRecorded⟩

end SyncCore

theorem range_of_entry {Name : Type} {ndn : NameOps Name}
    {msg : SyncStateMsg} {ranges : List (FetchRange Name)}
    (made : didSyncLogStateChangeExecute ndn msg = some ranges)
    {state : SyncState} (member : state ∈ msg) {oldSeq seq : UInt64}
    (isOld : state.oldSeq = some oldSeq) (isNew : state.seq = some seq) :
    ∃ userName, ndn.ofString state.name = some userName ∧
      ⟨userName, max (oldSeq + 1) 1, seq⟩ ∈ ranges := by
  induction msg generalizing ranges with
  | nil => exact absurd member List.not_mem_nil
  | cons first states induction =>
      rw [didSyncLogStateChangeExecute] at made
      split at made
      · next firstOld firstNew sameOld sameNew =>
          split at made
          · simp at made
          · next userName named =>
              obtain ⟨later, isLater, rfl⟩ := Option.map_eq_some_iff.mp made
              rcases List.mem_cons.mp member with rfl | behind
              · obtain rfl := Option.some.inj (isOld.symm.trans sameOld)
                obtain rfl := Option.some.inj (isNew.symm.trans sameNew)
                exact ⟨userName, named, List.mem_cons_self⟩
              · obtain ⟨other, otherNamed, found⟩ := induction isLater behind
                exact ⟨other, otherNamed, List.mem_cons_of_mem _ found⟩
      · next missing =>
          rcases List.mem_cons.mp member with rfl | behind
          · exact (missing oldSeq seq isOld isNew).elim
          · exact induction made behind

/-- The fetcher that is created for a range: the numbers become signed ones. -/
def Fetch.fetcher {Name : Type} (fetch : Fetch Name) (forwardingHint : Name) :
    Fetcher Name :=
  .construct fetch.deviceName fetch.baseName forwardingHint
    fetch.minSeqNo.toInt64 fetch.maxSeqNo.toInt64 30

def Fetcher.Asks {Name : Type} (fetcher : Fetcher Name) (number : Int) : Prop :=
  fetcher.minSeqNo.toInt ≤ number ∧ number ≤ fetcher.maxSeqNo.toInt

theorem Fetcher.Windowed.asks_fillPipeline {Name : Type}
    {fetcher : Fetcher Name} (windowed : fetcher.Windowed) :
    ∀ expressed ∈ fetcher.fillPipeline.2,
      fetcher.Asks expressed.interest.seqNo.toInt64.toInt := by
  have filled := Fetcher.fillLoop_invariant
    (fun (later : Fetcher Name) expressions => later.Windowed ∧
      later.minSeqNo = fetcher.minSeqNo ∧ later.maxSeqNo = fetcher.maxSeqNo ∧
      ∀ expressed ∈ expressions,
        fetcher.Asks expressed.interest.seqNo.toInt64.toInt)
    ?skip ?request
    (fetcher.maxSeqNo.toInt - fetcher.minSendSeqNo.toInt).toNat fetcher []
    ⟨windowed, rfl, rfl, nofun⟩
  · exact filled.2.2.2
  case skip =>
    intro later expressions cursor known earlier
    exact ⟨earlier.1.skipSeqNo cursor known, earlier.2⟩
  case request =>
    intro later expressions cursor room _ new earlier
    obtain ⟨inWindow, sameMin, sameMax, asks⟩ := earlier
    refine ⟨inWindow.requestSeqNo cursor room new, sameMin, sameMax, ?_⟩
    intro expressed member
    rcases List.mem_append.mp member with before | new
    · exact asks expressed before
    · obtain ⟨above, below⟩ := inWindow.next_inRange cursor
      rw [sameMin, Int64.le_iff_toInt_le] at above
      rw [sameMax, Int64.le_iff_toInt_le] at below
      rw [List.mem_singleton.mp new]
      exact ⟨above, below⟩

namespace FetchManager

variable {Name : Type} [DecidableEq Name]

def PRIORITY_NORMAL : Int := 0

/-- A fetcher that the call creates asks for the given numbers, of which there
are some. -/
def AsksExactly (manager : FetchManager Name)
    (deviceName baseName : Name) (minSeqNo maxSeqNo : UInt64) (priority : Int)
    (given : Int → Prop) : Prop :=
  ∀ fetch, (manager.enqueue deviceName baseName minSeqNo maxSeqNo
      priority).fetchList.Perm (fetch :: manager.fetchList) →
    (∃ number, given number) ∧ ∀ forwardingHint number,
      (fetch.fetcher forwardingHint).Asks number ↔ given number

theorem perm_enqueue (manager : FetchManager Name)
    {deviceName baseName : Name} {minSeqNo maxSeqNo : UInt64}
    (priority : Int) (range : ¬ maxSeqNo < minSeqNo) :
    (manager.enqueue deviceName baseName minSeqNo maxSeqNo
      priority).fetchList.Perm
        (⟨deviceName, baseName, minSeqNo, maxSeqNo, false⟩ ::
          manager.fetchList) := by
  rw [enqueue, if_neg range]
  dsimp only
  split_ifs
  · exact List.Perm.refl _
  · exact List.perm_append_singleton _ _

/-- The call creates one fetcher, unless the range is empty. -/
theorem asksExactly_iff {manager : FetchManager Name}
    {deviceName baseName : Name} {minSeqNo maxSeqNo : UInt64}
    {priority : Int} {given : Int → Prop} :
    AsksExactly manager deviceName baseName minSeqNo maxSeqNo priority given ↔
      maxSeqNo < minSeqNo ∨ (∃ number, given number) ∧
        ∀ number : Int, minSeqNo.toInt64.toInt ≤ number ∧
          number ≤ maxSeqNo.toInt64.toInt ↔ given number := by
  by_cases empty : maxSeqNo < minSeqNo
  · apply iff_of_true _ (Or.inl empty)
    intro fetch grown
    rw [enqueue, if_pos empty] at grown
    have longer := grown.length_eq
    rw [List.length_cons] at longer
    omega
  · have grown := @perm_enqueue _ _ manager deviceName baseName _ _ priority
      empty
    constructor
    · intro asks
      obtain ⟨some, exact⟩ := asks _ grown
      exact Or.inr ⟨some, exact deviceName⟩
    · rintro (impossible | right)
      · exact absurd impossible empty
      · intro fetch other
        obtain rfl : ⟨deviceName, baseName, minSeqNo, maxSeqNo, false⟩ =
            fetch := by
          have same := Multiset.coe_eq_coe.mpr (grown.symm.trans other)
          rwa [← Multiset.cons_coe, ← Multiset.cons_coe,
            Multiset.cons_inj_left] at same
        exact ⟨right.1, fun _ number => right.2 number⟩

theorem signed_range_iff {minSeqNo maxSeqNo : UInt64}
    (range : minSeqNo ≤ maxSeqNo) :
    (∀ number : Int, minSeqNo.toInt64.toInt ≤ number ∧
        number ≤ maxSeqNo.toInt64.toInt ↔
      (minSeqNo.toNat : Int) ≤ number ∧ number ≤ maxSeqNo.toNat) ↔
      maxSeqNo.toNat < 2 ^ 63 := by
  rw [UInt64.le_iff_toNat_le] at range
  constructor
  · intro same
    have last := (same maxSeqNo.toNat).mpr ⟨by omega, le_rfl⟩
    have reached := last.2
    rw [toInt_toInt64] at reached
    split_ifs at reached with small
    · exact small
    · omega
  · intro small number
    rw [toInt_toInt64, toInt_toInt64, if_pos small, if_pos (by omega)]

/-- The range of an entry starts after the old number, unless that is the
greatest one. -/
theorem toNat_firstSeq (oldSeq : UInt64) :
    (max (oldSeq + 1) 1).toNat =
      if oldSeq + 1 = 0 then 1 else oldSeq.toNat + 1 := by
  have bound := oldSeq.toNat_lt
  have next : (oldSeq + 1).toNat = (oldSeq.toNat + 1) % 2 ^ 64 := rfl
  split_ifs with wraps
  · rw [wraps]
    rfl
  · have positive : (oldSeq + 1).toNat ≠ 0 := by
      intro zero
      exact wraps (UInt64.toNat_inj.mp zero)
    have least : ¬ oldSeq + 1 ≤ 1 ∨ oldSeq + 1 = 1 := by
      rw [UInt64.le_iff_toNat_le, ← UInt64.toNat_inj, UInt64.toNat_one]
      omega
    have first : max (oldSeq + 1) 1 = oldSeq + 1 := by
      rw [show max (oldSeq + 1) 1 =
        if oldSeq + 1 ≤ 1 then 1 else oldSeq + 1 from rfl]
      rcases least with above | one
      · rw [if_neg above]
      · rw [one, if_pos (UInt64.le_refl 1)]
    rw [first, next]
    omega

theorem asks_actions_iff (manager : FetchManager Name)
    (deviceName baseName : Name) (oldSeq seq : UInt64) (priority : Int) :
    AsksExactly manager deviceName baseName (max (oldSeq + 1) 1) seq priority
        (fun number => oldSeq.toNat < number ∧ number ≤ seq.toNat) ↔
      (oldSeq < seq → seq.toNat < 2 ^ 63) ∧ (oldSeq + 1 = 0 → seq = 0) := by
  have firstSeq := toNat_firstSeq oldSeq
  have oldBound := oldSeq.toNat_lt
  have bound := seq.toNat_lt
  rw [asksExactly_iff, UInt64.lt_iff_toNat_lt, UInt64.lt_iff_toNat_lt]
  split_ifs at firstSeq with wraps
  · have greatest : oldSeq.toNat = 2 ^ 64 - 1 := by
      have zero : (oldSeq.toNat + 1) % 2 ^ 64 = 0 :=
        congrArg UInt64.toNat wraps
      omega
    have isZero : seq = 0 ↔ seq.toNat = 0 := by
      rw [← UInt64.toNat_inj, UInt64.toNat_zero]
    rw [firstSeq, greatest, isZero]
    constructor
    · rintro (first | ⟨⟨number, above, below⟩, -⟩)
      · exact ⟨by omega, fun _ => by omega⟩
      · omega
    · rintro ⟨-, zero⟩
      exact Or.inl (by rw [zero wraps]; exact Nat.zero_lt_one)
  · rw [firstSeq]
    by_cases later : oldSeq.toNat < seq.toNat
    · have range : max (oldSeq + 1) 1 ≤ seq := by
        rw [UInt64.le_iff_toNat_le, firstSeq]
        exact later
      have signed := signed_range_iff range
      rw [firstSeq, Nat.cast_add, Nat.cast_one] at signed
      simp only [Int.add_one_le_iff] at signed
      rw [signed]
      constructor
      · rintro (empty | ⟨-, small⟩)
        · omega
        · exact ⟨fun _ => small, fun zero => absurd zero wraps⟩
      · rintro ⟨small, -⟩
        exact Or.inr ⟨⟨seq.toNat, by omega, le_rfl⟩, small later⟩
    · apply iff_of_true
      · exact Or.inl (by omega)
      · exact ⟨fun above => absurd above later, fun zero => absurd zero wraps⟩

theorem asks_segments_iff (manager : FetchManager Name)
    (deviceName baseName : Name) (segNum : UInt64) (priority : Int) :
    AsksExactly manager deviceName baseName 0 (segNum - 1) priority
        (fun number => 0 ≤ number ∧ number < segNum.toNat) ↔
      0 < segNum.toNat ∧ segNum.toNat ≤ 2 ^ 63 := by
  have notEmpty : ¬ segNum - 1 < 0 := UInt64.not_lt_zero
  rw [asksExactly_iff, or_iff_right notEmpty]
  by_cases some : 0 < segNum.toNat
  · have one : 1 ≤ segNum := UInt64.le_iff_toNat_le.mpr some
    have last : (segNum - 1).toNat = segNum.toNat - 1 :=
      UInt64.toNat_sub_of_le _ _ one
    have signed := signed_range_iff (UInt64.not_lt.mp notEmpty)
    have given : ∀ number : Int, ((0 : UInt64).toNat : Int) ≤ number ∧
        number ≤ (segNum - 1).toNat ↔ 0 ≤ number ∧ number < segNum.toNat := by
      intro number
      rw [last, UInt64.toNat_zero]
      omega
    simp only [given] at signed
    rw [signed, last]
    constructor
    · rintro ⟨-, small⟩
      omega
    · rintro ⟨-, small⟩
      exact ⟨⟨0, le_rfl, by omega⟩, by omega⟩
  · constructor
    · rintro ⟨⟨number, above, below⟩, -⟩
      omega
    · rintro ⟨positive, -⟩
      exact absurd positive some

end FetchManager

/-- The number for `AddRemoteAction` in the callback of a segment. -/
def SegmentCall.recordedSeqNo {Name : Type} (call : SegmentCall Name) : Int64 :=
  call.seqno.toUInt32.toUInt64.toInt64

theorem recordedSeqNo_iff {Name : Type} {baseName : Name}
    {expressed : Expressed Name} {call : SegmentCall Name}
    (drifted : expressed.Drifted baseName)
    (sameNumber : call.seqno = expressed.seqno)
    (sameInterest : call.interest = expressed.interest) :
    call.recordedSeqNo.toInt = call.interest.seqNo.toNat ↔
      expressed.interest.seqNo.toNat < 2 ^ 32 ∧
        2 ^ 32 ∣ expressed.retransmissions := by
  have cut : (expressed.seqno.toUInt32).toNat =
      (expressed.interest.seqNo.toNat + expressed.retransmissions) %
        2 ^ 32 := by
    rw [drifted.seqno, UInt64.toNat_toUInt32, UInt64.toNat_add,
      UInt64.toNat_ofNat']
    omega
  rw [SegmentCall.recordedSeqNo, toInt_of_uint32, sameNumber, sameInterest,
    cut, Nat.cast_inj]
  omega

/-- The dispatcher adds the action of a call under the number that the call
records. -/
theorem actionFetch_log {Name : Type} {platform : DispatcherPlatform Name}
    {state target : Dispatcher Name} (call : SegmentCall Name)
    (fetched : Dispatcher.didFetchManagerActionFetch platform state
      call.deviceName call.seqno.toUInt32 (some call.pco) = some target) :
    target.log = (state.log.addRemoteAction platform.toActionPlatform
      call.deviceName call.recordedSeqNo (some call.pco)).2 :=
  (Dispatcher.arrives_of_actionFetch fetched).log

theorem maxSeqNo_of_actionFetch {Name : Type}
    {platform : DispatcherPlatform Name} {state target : Dispatcher Name}
    {deviceName : Name} {seqNo : UInt32} {data : Data Name}
    (fetched : Dispatcher.didFetchManagerActionFetch platform state deviceName
      seqNo (some data) = some target)
    {item : ActionItem} (parsed : platform.parse data.content = some item)
    {fetch : FileFetch Name}
    (asked : target.fileFetches = state.fileFetches ++ [fetch]) :
    fetch.maxSeqNo = item.segNum.getD 0 - 1 := by
  have longer : state.fileFetches ≠ state.fileFetches ++ [fetch] := by simp
  rw [Dispatcher.didFetchManagerActionFetch] at fetched
  simp only [ActionLog.addRemoteAction, parsed, Dispatcher.requestFile]
    at fetched
  cases kind : item.action with
  | delete =>
      simp only [kind, Option.some.injEq] at fetched
      rw [← fetched] at asked
      exact absurd asked longer
  | update =>
      simp only [kind] at fetched
      obtain ⟨location, -, rfl⟩ := Option.map_eq_some_iff.mp fetched
      split at asked
      · exact absurd asked longer
      · have same := List.append_cancel_left asked
        rw [← List.singleton_inj.mp same]

namespace FetchManager

/-- A reported number is one that was sent or known.  An entry is asked for
exactly if its numbers fit, and so are the segments of an update; an action is
recorded under the number it was asked for if that one fits as well. -/
theorem numbers_kept_iff {Name : Type} [DecidableEq Name]
    (platform : Platform Name) (dispatcher : DispatcherPlatform Name)
    (decodeData : Bytes → Option (Data Name)) :
    (∀ core handled content effects msg,
      SyncCore.Reachable platform core →
      core.handleStateData platform content = some (handled, effects) →
      platform.deserializeGZipMsg content = some msg →
      ∀ report ∈ SyncCore.reportsOf effects, ∀ state ∈ report, ∀ seq,
        state.seq = some seq →
          core.seqMap state.name = seq.toInt64 ∨
            ∃ sent ∈ msg, sent.type = .update ∧ sent.seq.getD 0 = seq ∧
              (platform.ndn.ofString sent.name).map platform.ndn.wire =
                some state.name) ∧
    (∀ msg ranges,
      didSyncLogStateChangeExecute platform.ndn msg = some ranges →
      ∀ state ∈ msg, ∀ oldSeq seq,
        state.oldSeq = some oldSeq → state.seq = some seq →
        ∃ range ∈ ranges,
          platform.ndn.ofString state.name = some range.userName ∧
          range.firstSeq = max (oldSeq + 1) 1 ∧ range.lastSeq = seq ∧
          ∀ manager baseName,
            AsksExactly manager range.userName baseName range.firstSeq
                range.lastSeq PRIORITY_HIGH
                (fun number => oldSeq.toNat < number ∧ number ≤ seq.toNat) ↔
              (oldSeq < seq → seq.toNat < 2 ^ 63) ∧
                (oldSeq + 1 = 0 → seq = 0)) ∧
    (∀ (fetch : Fetch Name) forwardingHint trace final,
      Fetching.Steps decodeData (.start (fetch.fetcher forwardingHint)) trace
        final →
      ((∀ call ∈ final.segmentCalls,
          call.recordedSeqNo.toInt = call.interest.seqNo.toNat) ↔
        ∀ taken ∈ trace, ∀ expressed,
          Fetching.handedOn taken.1 taken.2 = some expressed →
            expressed.interest.seqNo.toNat < 2 ^ 32 ∧
              2 ^ 32 ∣ expressed.retransmissions)) ∧
    ∀ state target deviceName seqNo data item fetch,
      Dispatcher.didFetchManagerActionFetch dispatcher state deviceName seqNo
        (some data) = some target →
      dispatcher.parse data.content = some item →
      target.fileFetches = state.fileFetches ++ [fetch] →
      ∀ manager baseName,
        AsksExactly manager fetch.deviceName baseName 0 fetch.maxSeqNo
            PRIORITY_NORMAL
            (fun number => 0 ≤ number ∧
              number < (item.segNum.getD 0).toNat) ↔
          0 < (item.segNum.getD 0).toNat ∧
            (item.segNum.getD 0).toNat ≤ 2 ^ 63 := by
  refine ⟨?_, ?_, ?_, ?_⟩
  · intro core handled content effects msg reachable done parsed report
      reported state member seq isNew
    exact SyncCore.seq_of_reported reachable.wellFormed done parsed reported
      member isNew
  · intro msg ranges made state member oldSeq seq isOld isNew
    obtain ⟨userName, named, found⟩ := range_of_entry made member isOld isNew
    refine ⟨_, found, named, rfl, rfl, ?_⟩
    intro manager baseName
    exact asks_actions_iff manager userName baseName oldSeq seq _
  · intro fetch forwardingHint trace final steps
    exact Fetching.forall_segmentCalls_iff recordedSeqNo_iff steps
  · intro state target deviceName seqNo data item fetch fetched parsed asked
      manager baseName
    rw [maxSeqNo_of_actionFetch fetched parsed asked]
    exact asks_segments_iff manager _ baseName _ _

/-- A dispatcher of `/alex` that has just started. -/
def startedDispatcher : Dispatcher Name :=
  .opened (SyncLog.opened Name.uriOps Name.alex) ∅

/-- The first action of `/bob`, from the message that announces it to the file
of one segment that it adds.  As hashes are printed, the request for the file
throws before its range is given away. -/
theorem numbers_kept_iff_bob :
    (∃ state : SyncState, state.seq = some 1 ∧
      (Name.uriOps.ofString Name.bob.wireEncode).map Name.uriOps.wire =
        some state.name) ∧
    (∃ range : FetchRange Name, range.firstSeq = 1 ∧ range.lastSeq = 1 ∧
      AsksExactly ⟨[], []⟩ range.userName Name.bob range.firstSeq range.lastSeq
        PRIORITY_HIGH (fun number => 0 < number ∧ number ≤ 1)) ∧
    (∃ trace final, Fetching.Steps readData (.start Fetching.oneSegment) trace
        final ∧
      final.segmentCalls ≠ [] ∧ ∀ call ∈ final.segmentCalls,
        call.recordedSeqNo.toInt = call.interest.seqNo.toNat) ∧
    ∃ fetch : FileFetch Name, fetch.maxSeqNo = 0 ∧
      AsksExactly ⟨[], []⟩ fetch.deviceName Name.bob 0 fetch.maxSeqNo
        PRIORITY_NORMAL (fun number => 0 ≤ number ∧ number < 1) := by
  obtain ⟨reports, entries, records, segments⟩ := numbers_kept_iff
    (plainPlatform Name.uriOps) Dispatcher.digitDispatcher readData
  refine ⟨?_, ?_, ?_, ?_⟩
  · have executed : (SyncCore.startedAlex.handleStateData
        (plainPlatform Name.uriOps) SyncCore.bobAnnounces).any
          (fun (result : SyncCore Name × List (Effect Name)) =>
            ∃ report ∈ SyncCore.reportsOf result.2, ∃ state ∈ report,
              state.seq = some 1 ∧
                SyncCore.startedAlex.seqMap state.name ≠ (1 : Int64)) =
        true := by
      decide +kernel
    obtain ⟨⟨handled, effects⟩, done, holds⟩ :=
      (Option.any_eq_true _ _).mp executed
    obtain ⟨report, reported, state, member, isNew, unknown⟩ :=
      of_decide_eq_true holds
    have parsed : readMessage SyncCore.bobAnnounces =
        some [⟨Name.bob.wireEncode, .update, some 1, none, none⟩] :=
      readMessage_writeMessage _
    have told := reports SyncCore.startedAlex handled _ effects _
      (.construct _ _ (SyncLog.opened_reachable Name.alex)) done parsed report
      reported state member 1 isNew
    rcases told with known | ⟨sent, sentIn, -, -, named⟩
    · exact absurd known unknown
    · rw [List.mem_singleton.mp sentIn] at named
      exact ⟨state, isNew, named⟩
  · have made : ∃ ranges, didSyncLogStateChangeExecute Name.uriOps
        [⟨Name.bob.wireEncode, .update, some 1, none, some 0⟩] =
          some ranges := by
      apply Option.isSome_iff_exists.mp
      decide +kernel
    obtain ⟨ranges, made⟩ := made
    obtain ⟨range, -, -, first, last, asked⟩ := entries _ ranges made _
      (List.mem_singleton.mpr rfl) 0 1 rfl rfl
    refine ⟨range, first.trans (by decide), last, ?_⟩
    exact (asked _ Name.bob).mpr ⟨fun _ => by decide, fun zero => by
      exact absurd zero (by decide)⟩
  · have executed : (execute (Fetching.step readData)
        (.start Fetching.oneSegment) [.restartPipeline 0, .execute 0,
          .onData 0 Fetching.firstSegment, .execute 1]).any (fun result =>
            result.2.segmentCalls ≠ [] ∧ ∀ taken ∈ result.1,
              (Fetching.handedOn taken.1 taken.2).all fun expressed =>
                expressed.interest.seqNo = 1 ∧
                  expressed.retransmissions = 0) = true := by
      decide +kernel
    obtain ⟨⟨trace, final⟩, found, holds⟩ :=
      (Option.any_eq_true _ _).mp executed
    obtain ⟨called, prompt⟩ := of_decide_eq_true holds
    have steps := execute_run found
    refine ⟨trace, final, steps, called, ?_⟩
    apply (records ⟨Name.alex, Name.bob, 1, 1, false⟩ (Name.ofComponents [])
      trace final steps).mpr
    intro taken member expressed handed
    have first := prompt taken member
    rw [handed] at first
    obtain ⟨number, once⟩ := of_decide_eq_true first
    rw [number, once]
    exact ⟨by decide, Nat.dvd_zero _⟩
  · have executed : (Dispatcher.didFetchManagerActionFetch
        Dispatcher.digitDispatcher startedDispatcher Name.bob 1
          (some (Dispatcher.addedFile Name.bob))).any (fun target =>
            target.fileFetches.map FileFetch.maxSeqNo = [0]) = true := by
      decide +kernel
    obtain ⟨target, fetched, holds⟩ := (Option.any_eq_true _ _).mp executed
    obtain ⟨fetch, asked, last⟩ :=
      List.map_eq_singleton_iff.mp (of_decide_eq_true holds)
    have parsed : Dispatcher.digitDispatcher.parse
        (Dispatcher.addedFile Name.bob).content = some ⟨.update, [0x66], 0, 5,
          some 1, some (taggedDigest [9]), some 7, some 420, none, none⟩ := by
      decide +kernel
    refine ⟨fetch, last, ?_⟩
    exact (segments startedDispatcher target Name.bob 1 _ _ fetch fetched
      parsed asked _ Name.bob).mpr (by decide)

/-- The action of number `2 ^ 32` is asked for and recorded under 0. -/
theorem number_cut_to_zero :
    didSyncLogStateChangeExecute Name.uriOps [⟨[0x2F, 0x62, 0x6F, 0x62],
        .update, some 4294967296, none, some 4294967295⟩] =
      some [⟨Name.bob, 4294967296, 4294967296⟩] ∧
      ∃ trace final, Fetching.Steps readData (.start
          (Fetch.fetcher ⟨Name.alex, Name.bob, 4294967296, 4294967296, false⟩
            (Name.ofComponents []))) trace final ∧
        ∃ call ∈ final.segmentCalls, call.interest.seqNo = 4294967296 ∧
          call.recordedSeqNo = 0 := by
  have made : didSyncLogStateChangeExecute Name.uriOps
      [⟨[0x2F, 0x62, 0x6F, 0x62], .update, some 4294967296, none,
        some 4294967295⟩] = some [⟨Name.bob, 4294967296, 4294967296⟩] := by
    decide +kernel
  have executed : (execute (Fetching.step readData) (.start
      (Fetch.fetcher ⟨Name.alex, Name.bob, 4294967296, 4294967296, false⟩
        (Name.ofComponents []))) [.restartPipeline 0, .execute 0,
          .onData 0 Fetching.firstSegment, .execute 1]).any (fun result =>
            ∃ call ∈ result.2.segmentCalls,
              call.interest.seqNo = 4294967296 ∧
                call.recordedSeqNo = 0) = true := by
    decide +kernel
  obtain ⟨⟨trace, final⟩, found, holds⟩ :=
    (Option.any_eq_true _ _).mp executed
  exact ⟨made, trace, final, execute_run found, of_decide_eq_true holds⟩

end FetchManager

end ChronoShare
