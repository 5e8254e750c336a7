import ChronoShare.Fetcher.Pipeline

/-!
# The window of a fetcher

The numbers from the first to the last are split at the greatest number
received in order; behind it everything has been received, ahead of it some
numbers have been received out of order and some are in the pipeline.  The
send cursor has passed the numbers that are in neither.
-/

namespace ChronoShare

namespace Fetcher

theorem mem_insertSeqNo {set : List Int64} {seqNo other : Int64} :
    other ∈ insertSeqNo set seqNo ↔ other = seqNo ∨ other ∈ set := by
  rw [insertSeqNo]
  split_ifs with member
  · constructor
    · exact .inr
    · rintro (rfl | known)
      · exact member
      · exact known
  · exact List.mem_orderedInsert _

theorem pairwise_insertSeqNo {set : List Int64} (seqNo : Int64)
    (sorted : set.Pairwise (· ≤ ·)) :
    (insertSeqNo set seqNo).Pairwise (· ≤ ·) := by
  rw [insertSeqNo]
  split_ifs
  · exact sorted
  · exact sorted.orderedInsert seqNo set

theorem perm_insertSeqNo {set : List Int64} {seqNo : Int64}
    (new : seqNo ∉ set) : (insertSeqNo set seqNo).Perm (seqNo :: set) := by
  rw [insertSeqNo, if_neg new]
  exact List.perm_orderedInsert _ seqNo set

/-- The numbers that the loop over the received numbers puts in order had been
received. -/
theorem advance_covered (received : List Int64) (before : Int64) :
    ∀ seqNo, before < seqNo → seqNo ≤ (advance received before).1 →
      seqNo ∈ received := by
  induction received generalizing before with
  | nil =>
      intro seqNo above below
      exact absurd above (not_lt.mpr below)
  | cons head rest induction =>
      intro seqNo above below
      rw [advance] at below
      split_ifs at below with next passed
      · rcases eq_or_ne seqNo head with rfl | other
        · exact List.mem_cons_self
        · have later : head < seqNo := by grind
          apply List.mem_cons_of_mem
          exact induction head seqNo later below
      · apply List.mem_cons_of_mem
        exact induction before seqNo above below
      · exact absurd above (not_lt.mpr below)

theorem advance_suffix (received : List Int64) (before : Int64) :
    (advance received before).2 <:+ received := by
  induction received generalizing before with
  | nil => exact List.suffix_refl []
  | cons head rest induction =>
      rw [advance]
      split_ifs
      · exact (induction head).trans (List.suffix_cons ..)
      · exact (induction before).trans (List.suffix_cons ..)
      · exact List.suffix_refl _

/-- What the loop leaves in a sorted list within the range: the numbers ahead
of the new greatest number in order, without its successor. -/
structure Advanced (received : List Int64) (before last after : Int64)
    (kept : List Int64) : Prop where
  forward : before ≤ after
  bounded : after ≤ last
  ahead : ∀ seqNo ∈ received, after < seqNo → seqNo ∈ kept
  missing : after < last → ∀ seqNo ∈ kept, after + 1 < seqNo

theorem advance_advanced {received : List Int64} {before last : Int64}
    (sorted : received.Pairwise (· ≤ ·))
    (bounded : ∀ seqNo ∈ received, seqNo ≤ last)
    (above : ∀ seqNo ∈ received, Int64.minValue < seqNo)
    (within : before ≤ last) :
    Advanced received before last (advance received before).1
      (advance received before).2 := by
  induction received generalizing before with
  | nil => exact ⟨le_refl _, within, by simp, by simp [advance]⟩
  | cons head rest induction =>
      obtain ⟨least, sorted⟩ := List.pairwise_cons.mp sorted
      obtain ⟨headBound, bounded⟩ := List.forall_mem_cons.mp bounded
      obtain ⟨headAbove, above⟩ := List.forall_mem_cons.mp above
      rw [advance]
      split_ifs with next passed
      · have forward : before < head := by grind
        have advanced := induction sorted bounded above headBound
        refine ⟨le_trans (le_of_lt forward) advanced.forward,
          advanced.bounded, ?_, advanced.missing⟩
        intro seqNo member later
        rcases List.mem_cons.mp member with rfl | member
        · exact absurd later (not_lt.mpr advanced.forward)
        · exact advanced.ahead seqNo member later
      · have behind : head ≤ before := by grind
        have advanced := induction sorted bounded above within
        refine ⟨advanced.forward, advanced.bounded, ?_, advanced.missing⟩
        intro seqNo member later
        rcases List.mem_cons.mp member with rfl | member
        · exact absurd later (not_lt.mpr (le_trans behind advanced.forward))
        · exact advanced.ahead seqNo member later
      · refine ⟨le_refl _, within, fun seqNo member _ => member, ?_⟩
        intro room seqNo member
        have headMissing : before + 1 < head := by grind
        rcases List.mem_cons.mp member with rfl | member
        · exact headMissing
        · exact lt_of_lt_of_le headMissing (least seqNo member)

variable {Name : Type}

/-- The send cursor passes a number without an interest. -/
def skipSeqNo (fetcher : Fetcher Name) : Fetcher Name :=
  { fetcher with minSendSeqNo := fetcher.minSendSeqNo + 1 }

/-- The send cursor passes a number with an interest. -/
def requestSeqNo (fetcher : Fetcher Name) : Fetcher Name :=
  { fetcher with
    minSendSeqNo := fetcher.minSendSeqNo + 1
    inActivePipeline := insertSeqNo fetcher.inActivePipeline
      (fetcher.minSendSeqNo + 1)
    activePipeline := fetcher.activePipeline + 1 }

theorem fillLoop_succ (fuel : Nat) (fetcher : Fetcher Name) :
    fetcher.fillLoop (fuel + 1) =
      if fetcher.minSendSeqNo < fetcher.maxSeqNo ∧
          fetcher.activePipeline < fetcher.pipeline then
        if fetcher.minSendSeqNo + 1 ∈ fetcher.outOfOrderRecvSeqNo then
          fetcher.skipSeqNo.fillLoop fuel
        else if fetcher.minSendSeqNo + 1 ∈ fetcher.inActivePipeline then
          fetcher.skipSeqNo.fillLoop fuel
        else
          ((fetcher.requestSeqNo.fillLoop fuel).1,
            fetcher.express (fetcher.minSendSeqNo + 1) ::
              (fetcher.requestSeqNo.fillLoop fuel).2)
      else
        (fetcher, []) :=
  rfl

/-- What a round of the loop keeps, the loop keeps: `invariant` relates the
fetcher to the interests that have been expressed so far. -/
theorem fillLoop_invariant
    (invariant : Fetcher Name → List (Expressed Name) → Prop)
    (skip : ∀ fetcher expressed,
      fetcher.minSendSeqNo < fetcher.maxSeqNo →
      fetcher.minSendSeqNo + 1 ∈ fetcher.outOfOrderRecvSeqNo ∨
        fetcher.minSendSeqNo + 1 ∈ fetcher.inActivePipeline →
      invariant fetcher expressed → invariant fetcher.skipSeqNo expressed)
    (request : ∀ fetcher expressed,
      fetcher.minSendSeqNo < fetcher.maxSeqNo →
      fetcher.activePipeline < fetcher.pipeline →
      fetcher.minSendSeqNo + 1 ∉ fetcher.outOfOrderRecvSeqNo →
      fetcher.minSendSeqNo + 1 ∉ fetcher.inActivePipeline →
      invariant fetcher expressed → invariant fetcher.requestSeqNo
        (expressed ++ [fetcher.express (fetcher.minSendSeqNo + 1)]))
    (fuel : Nat) (fetcher : Fetcher Name) (earlier : List (Expressed Name))
    (initial : invariant fetcher earlier) :
    invariant (fetcher.fillLoop fuel).1
      (earlier ++ (fetcher.fillLoop fuel).2) := by
  induction fuel generalizing fetcher earlier with
  | zero => simpa [fillLoop] using initial
  | succ fuel induction =>
      rw [fillLoop_succ]
      split_ifs with room received requested
      · apply induction
        exact skip fetcher earlier room.1 (.inl received) initial
      · apply induction
        exact skip fetcher earlier room.1 (.inr requested) initial
      · have later := induction fetcher.requestSeqNo _
          (request fetcher earlier room.1 room.2 received requested initial)
        rw [List.append_assoc] at later
        exact later
      · simpa using initial

theorem fillPipeline_eq_self {fetcher : Fetcher Name}
    (full : ¬ (fetcher.minSendSeqNo < fetcher.maxSeqNo ∧
      fetcher.activePipeline < fetcher.pipeline)) :
    fetcher.fillPipeline = (fetcher, []) := by
  rw [fillPipeline]
  cases (fetcher.maxSeqNo.toInt - fetcher.minSendSeqNo.toInt).toNat with
  | zero => rfl
  | succ fuel => rw [fillLoop_succ, if_neg full]

theorem fillPipeline_received (fetcher : Fetcher Name) :
    fetcher.fillPipeline.1.minSeqNo = fetcher.minSeqNo ∧
      fetcher.fillPipeline.1.maxSeqNo = fetcher.maxSeqNo ∧
      fetcher.fillPipeline.1.maxInOrderRecvSeqNo =
        fetcher.maxInOrderRecvSeqNo ∧
      fetcher.fillPipeline.1.outOfOrderRecvSeqNo =
        fetcher.outOfOrderRecvSeqNo := by
  exact fillLoop_invariant
    (fun filled _ => filled.minSeqNo = fetcher.minSeqNo ∧
      filled.maxSeqNo = fetcher.maxSeqNo ∧
      filled.maxInOrderRecvSeqNo = fetcher.maxInOrderRecvSeqNo ∧
      filled.outOfOrderRecvSeqNo = fetcher.outOfOrderRecvSeqNo)
    (fun _ _ _ _ same => same) (fun _ _ _ _ _ _ same => same) _ fetcher []
    ⟨rfl, rfl, rfl, rfl⟩

/-- The loop ends when the cursor is at the last number or the pipeline is
full. -/
theorem fillLoop_stops (fuel : Nat) (fetcher : Fetcher Name)
    (enough : (fetcher.maxSeqNo.toInt - fetcher.minSendSeqNo.toInt).toNat ≤
      fuel) :
    ¬ ((fetcher.fillLoop fuel).1.minSendSeqNo <
          (fetcher.fillLoop fuel).1.maxSeqNo ∧
        (fetcher.fillLoop fuel).1.activePipeline <
          (fetcher.fillLoop fuel).1.pipeline) := by
  induction fuel generalizing fetcher with
  | zero =>
      intro stopped
      have cursor : fetcher.minSendSeqNo.toInt < fetcher.maxSeqNo.toInt :=
        Int64.lt_iff_toInt_lt.mp stopped.1
      omega
  | succ fuel induction =>
      have shorter : fetcher.minSendSeqNo < fetcher.maxSeqNo →
          (fetcher.maxSeqNo.toInt - (fetcher.minSendSeqNo + 1).toInt).toNat ≤
            fuel := by
        intro cursor
        rw [int64_toInt_succ cursor]
        rw [Int64.lt_iff_toInt_lt] at cursor
        omega
      rw [fillLoop_succ]
      split_ifs with room received requested
      · exact induction _ (shorter room.1)
      · exact induction _ (shorter room.1)
      · exact induction fetcher.requestSeqNo (shorter room.1)
      · exact room

theorem fillPipeline_stops (fetcher : Fetcher Name) :
    ¬ (fetcher.fillPipeline.1.minSendSeqNo < fetcher.fillPipeline.1.maxSeqNo ∧
        fetcher.fillPipeline.1.activePipeline <
          fetcher.fillPipeline.1.pipeline) :=
  fillLoop_stops _ fetcher (le_refl _)

/-- The send cursor has passed no number that is neither received nor in the
pipeline. -/
def GapFree (fetcher : Fetcher Name) : Prop :=
  ∀ seqNo, fetcher.maxInOrderRecvSeqNo < seqNo →
    seqNo ≤ fetcher.minSendSeqNo →
      seqNo ∈ fetcher.outOfOrderRecvSeqNo ∨ seqNo ∈ fetcher.inActivePipeline

instance (fetcher : Fetcher Name) : Decidable fetcher.GapFree :=
  decidable_of_iff
    (∀ offset < (fetcher.minSendSeqNo.toInt -
        fetcher.maxInOrderRecvSeqNo.toInt).toNat,
      Int64.ofInt (fetcher.maxInOrderRecvSeqNo.toInt + 1 + offset) ∈
          fetcher.outOfOrderRecvSeqNo ∨
        Int64.ofInt (fetcher.maxInOrderRecvSeqNo.toInt + 1 + offset) ∈
          fetcher.inActivePipeline) (by
    constructor
    · intro known seqNo above below
      rw [Int64.lt_iff_toInt_lt] at above
      rw [Int64.le_iff_toInt_le] at below
      have here := known
        (seqNo.toInt - fetcher.maxInOrderRecvSeqNo.toInt - 1).toNat (by omega)
      have same : fetcher.maxInOrderRecvSeqNo.toInt + 1 +
          (seqNo.toInt - fetcher.maxInOrderRecvSeqNo.toInt - 1).toNat =
            seqNo.toInt := by
        omega
      rw [same, Int64.ofInt_toInt] at here
      exact here
    · intro gapFree offset bound
      have low := Int64.le_toInt fetcher.maxInOrderRecvSeqNo
      have high := Int64.toInt_lt fetcher.minSendSeqNo
      have value := Int64.toInt_ofInt_of_le
        (n := fetcher.maxInOrderRecvSeqNo.toInt + 1 + offset)
        (by omega) (by omega)
      apply gapFree
      · rw [Int64.lt_iff_toInt_lt, value]
        omega
      · rw [Int64.le_iff_toInt_le, value]
        omega)

/-- The two cursors and the numbers in the two sets stay in the range; an
active fetcher whose pipeline is empty has not lost a number. -/
structure Windowed (fetcher : Fetcher Name) : Prop where
  minimum : Int64.minValue < fetcher.minSeqNo
  inOrder : fetcher.minSeqNo - 1 ≤ fetcher.maxInOrderRecvSeqNo ∧
    fetcher.maxInOrderRecvSeqNo ≤ fetcher.maxSeqNo
  sent : fetcher.minSeqNo - 1 ≤ fetcher.minSendSeqNo ∧
    fetcher.minSendSeqNo ≤ fetcher.maxSeqNo
  requested : ∀ seqNo ∈ fetcher.inActivePipeline,
    fetcher.minSeqNo ≤ seqNo ∧ seqNo ≤ fetcher.maxSeqNo
  received : ∀ seqNo ∈ fetcher.outOfOrderRecvSeqNo,
    fetcher.minSeqNo ≤ seqNo ∧ seqNo ≤ fetcher.maxSeqNo
  sorted : fetcher.outOfOrderRecvSeqNo.Pairwise (· ≤ ·)
  missing : fetcher.maxInOrderRecvSeqNo < fetcher.maxSeqNo →
    ∀ seqNo ∈ fetcher.outOfOrderRecvSeqNo,
      fetcher.maxInOrderRecvSeqNo + 1 < seqNo
  counted : fetcher.activePipeline.toNat = fetcher.inActivePipeline.length
  drained : fetcher.active = true → fetcher.activePipeline = 0 →
    fetcher.GapFree
  wide : 0 < fetcher.pipeline

variable {fetcher : Fetcher Name}

theorem construct_windowed (deviceName name forwardingHint : Name)
    {minSeqNo maxSeqNo : Int64} (timeout : Int)
    (minimum : Int64.minValue < minSeqNo) (range : minSeqNo ≤ maxSeqNo) :
    (construct deviceName name forwardingHint minSeqNo maxSeqNo
      timeout).Windowed := by
  have start : minSeqNo - 1 ≤ maxSeqNo := by grind
  exact ⟨minimum, ⟨le_refl _, start⟩, ⟨le_refl _, start⟩, by simp [construct],
    by simp [construct], by simp [construct], by simp [construct],
    by simp [construct], by simp [construct], by simp [construct]⟩

theorem Windowed.restartPipeline (windowed : fetcher.Windowed) (now : Int) :
    (fetcher.restartPipeline now).Windowed := by
  refine ⟨windowed.minimum, windowed.inOrder, windowed.inOrder,
    windowed.requested, windowed.received, windowed.sorted, windowed.missing,
    windowed.counted, ?_, windowed.wide⟩
  intro _ _ seqNo above below
  exact absurd above (not_lt.mpr below)

theorem Windowed.deactivate (windowed : fetcher.Windowed) (timedwait : Bool) :
    Windowed { fetcher with active := false, timedwait := timedwait } :=
  ⟨windowed.minimum, windowed.inOrder, windowed.sent, windowed.requested,
    windowed.received, windowed.sorted, windowed.missing, windowed.counted,
    by simp, windowed.wide⟩

theorem Windowed.next_inRange (windowed : fetcher.Windowed)
    (cursor : fetcher.minSendSeqNo < fetcher.maxSeqNo) :
    fetcher.minSeqNo ≤ fetcher.minSendSeqNo + 1 ∧
      fetcher.minSendSeqNo + 1 ≤ fetcher.maxSeqNo := by
  have minimum := windowed.minimum
  have sent := windowed.sent.1
  refine ⟨?_, int64_succ_le cursor⟩
  grind

theorem GapFree.skipSeqNo (gapFree : fetcher.GapFree)
    (cursor : fetcher.minSendSeqNo < fetcher.maxSeqNo)
    (known : fetcher.minSendSeqNo + 1 ∈ fetcher.outOfOrderRecvSeqNo ∨
      fetcher.minSendSeqNo + 1 ∈ fetcher.inActivePipeline) :
    fetcher.skipSeqNo.GapFree := by
  intro seqNo above below
  rcases (int64_le_succ_iff cursor).mp below with earlier | rfl
  · exact gapFree seqNo above earlier
  · exact known

theorem Windowed.skipSeqNo (windowed : fetcher.Windowed)
    (cursor : fetcher.minSendSeqNo < fetcher.maxSeqNo)
    (known : fetcher.minSendSeqNo + 1 ∈ fetcher.outOfOrderRecvSeqNo ∨
      fetcher.minSendSeqNo + 1 ∈ fetcher.inActivePipeline) :
    fetcher.skipSeqNo.Windowed := by
  have next := windowed.next_inRange cursor
  have before : fetcher.minSeqNo - 1 ≤ fetcher.minSendSeqNo + 1 := by
    have minimum := windowed.minimum
    grind
  refine ⟨windowed.minimum, windowed.inOrder, ⟨before, next.2⟩,
    windowed.requested, windowed.received, windowed.sorted, windowed.missing,
    windowed.counted, ?_, windowed.wide⟩
  intro active empty
  exact (windowed.drained active empty).skipSeqNo cursor known

theorem Windowed.requestSeqNo (windowed : fetcher.Windowed)
    (cursor : fetcher.minSendSeqNo < fetcher.maxSeqNo)
    (room : fetcher.activePipeline < fetcher.pipeline)
    (new : fetcher.minSendSeqNo + 1 ∉ fetcher.inActivePipeline) :
    fetcher.requestSeqNo.Windowed := by
  have next := windowed.next_inRange cursor
  have before : fetcher.minSeqNo - 1 ≤ fetcher.minSendSeqNo + 1 := by
    have minimum := windowed.minimum
    grind
  have counted := uint32_toNat_succ room
  refine ⟨windowed.minimum, windowed.inOrder, ⟨before, next.2⟩, ?_,
    windowed.received, windowed.sorted, windowed.missing, ?_, ?_,
    windowed.wide⟩
  · intro seqNo member
    rcases mem_insertSeqNo.mp member with rfl | earlier
    · exact next
    · exact windowed.requested seqNo earlier
  · have longer := (perm_insertSeqNo new).length_eq
    rw [Fetcher.requestSeqNo]
    simp only
    rw [counted, longer, List.length_cons, windowed.counted]
  · intro _ empty
    have zero : (fetcher.activePipeline + 1).toNat = 0 :=
      congrArg UInt32.toNat empty
    omega

theorem Windowed.activePipeline_sub_one (windowed : fetcher.Windowed)
    {seqNo : Int64} (requested : seqNo ∈ fetcher.inActivePipeline) :
    (fetcher.activePipeline - 1).toNat =
      (fetcher.inActivePipeline.erase seqNo).length := by
  have positive := List.length_pos_of_mem requested
  have counted := windowed.counted
  have some : 1 ≤ fetcher.activePipeline := by
    rw [UInt32.le_iff_toNat_le, UInt32.toNat_one]
    omega
  rw [UInt32.toNat_sub_of_le _ _ some, List.length_erase_of_mem requested,
    UInt32.toNat_one, counted]

theorem Windowed.insertSeqNo_inRange (windowed : fetcher.Windowed)
    {seqNo : Int64} (requested : seqNo ∈ fetcher.inActivePipeline) :
    ∀ other ∈ insertSeqNo fetcher.outOfOrderRecvSeqNo seqNo,
      fetcher.minSeqNo ≤ other ∧ other ≤ fetcher.maxSeqNo := by
  intro other member
  rcases mem_insertSeqNo.mp member with rfl | earlier
  · exact windowed.requested other requested
  · exact windowed.received other earlier

theorem Windowed.advanced (windowed : fetcher.Windowed) {seqNo : Int64}
    (requested : seqNo ∈ fetcher.inActivePipeline) :
    Advanced (insertSeqNo fetcher.outOfOrderRecvSeqNo seqNo)
      fetcher.maxInOrderRecvSeqNo fetcher.maxSeqNo
      (advance (insertSeqNo fetcher.outOfOrderRecvSeqNo seqNo)
        fetcher.maxInOrderRecvSeqNo).1
      (advance (insertSeqNo fetcher.outOfOrderRecvSeqNo seqNo)
        fetcher.maxInOrderRecvSeqNo).2 := by
  have inRange := windowed.insertSeqNo_inRange requested
  apply advance_advanced (pairwise_insertSeqNo seqNo windowed.sorted)
  · intro other member
    exact (inRange other member).2
  · intro other member
    exact lt_of_lt_of_le windowed.minimum (inRange other member).1
  · exact windowed.inOrder.2

theorem GapFree.receiveData (gapFree : fetcher.GapFree)
    (windowed : fetcher.Windowed) {seqno : UInt64} (now : Int)
    (requested : seqno.toInt64 ∈ fetcher.inActivePipeline) :
    (fetcher.receiveData seqno now).GapFree := by
  have advanced := windowed.advanced requested
  intro seqNo above below
  have ahead := lt_of_le_of_lt advanced.forward above
  rcases eq_or_ne seqNo seqno.toInt64 with rfl | other
  · left
    exact advanced.ahead _ (mem_insertSeqNo.mpr (.inl rfl)) above
  · rcases gapFree seqNo ahead below with received | inFlight
    · left
      exact advanced.ahead _ (mem_insertSeqNo.mpr (.inr received)) above
    · right
      exact (List.mem_erase_of_ne other).mpr inFlight

theorem Windowed.receiveData (windowed : fetcher.Windowed)
    (gapFree : fetcher.GapFree) {seqno : UInt64} (now : Int)
    (requested : seqno.toInt64 ∈ fetcher.inActivePipeline) :
    (fetcher.receiveData seqno now).Windowed := by
  have advanced := windowed.advanced requested
  have inRange := windowed.insertSeqNo_inRange requested
  refine ⟨windowed.minimum,
    ⟨le_trans windowed.inOrder.1 advanced.forward, advanced.bounded⟩,
    windowed.sent, ?_, ?_, ?_, advanced.missing,
    windowed.activePipeline_sub_one requested,
    fun _ _ => gapFree.receiveData windowed now requested, windowed.wide⟩
  · intro seqNo member
    exact windowed.requested seqNo (List.mem_of_mem_erase member)
  · intro seqNo member
    exact inRange seqNo ((advance_suffix _ _).subset member)
  · exact (pairwise_insertSeqNo _ windowed.sorted).sublist
      (advance_suffix _ _).sublist

/-- A dropped number leaves a gap, which an active fetcher has only while
another number is in the pipeline. -/
theorem Windowed.dropSegment (windowed : fetcher.Windowed) {seqno : UInt64}
    (requested : seqno.toInt64 ∈ fetcher.inActivePipeline) :
    (fetcher.dropSegment seqno).Windowed := by
  have fewer : ∀ seqNo ∈ fetcher.inActivePipeline.erase seqno.toInt64,
      fetcher.minSeqNo ≤ seqNo ∧ seqNo ≤ fetcher.maxSeqNo := by
    intro seqNo member
    exact windowed.requested seqNo (List.mem_of_mem_erase member)
  rw [Fetcher.dropSegment]
  split_ifs with empty
  · exact ⟨windowed.minimum, windowed.inOrder, windowed.sent, fewer,
      windowed.received, windowed.sorted, windowed.missing,
      windowed.activePipeline_sub_one requested, by simp, windowed.wide⟩
  · exact ⟨windowed.minimum, windowed.inOrder, windowed.sent, fewer,
      windowed.received, windowed.sorted, windowed.missing,
      windowed.activePipeline_sub_one requested,
      fun _ zero => absurd zero empty, windowed.wide⟩

/-- With nothing in the pipeline and the cursor at the end, everything in a
window without gaps has been received. -/
theorem Windowed.finished (windowed : fetcher.Windowed)
    (gapFree : fetcher.GapFree) (empty : fetcher.activePipeline = 0)
    (cursor : ¬ fetcher.minSendSeqNo < fetcher.maxSeqNo) :
    fetcher.maxInOrderRecvSeqNo = fetcher.maxSeqNo := by
  apply le_antisymm windowed.inOrder.2
  by_contra short
  have missing := not_le.mp short
  have nothing : fetcher.inActivePipeline = [] := by
    apply List.length_eq_zero_iff.mp
    rw [← windowed.counted, empty]
    rfl
  have next := int64_succ_le missing
  have reached := le_trans next (not_lt.mp cursor)
  have above := int64_lt_succ_of_lt missing
  rcases gapFree _ above reached with received | inFlight
  · exact lt_irrefl _ (windowed.missing missing _ received)
  · rw [nothing] at inFlight
    simp at inFlight

end Fetcher

end ChronoShare
