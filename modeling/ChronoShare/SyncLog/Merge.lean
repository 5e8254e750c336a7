import ChronoShare.SyncLog.Calls

/-!
# Updates commute

Whatever the order in which numbers are recorded, and however often, the table
of devices ends with the greatest number of every device.  Two logs that were
given the same numbers therefore have the same digest.
-/

namespace ChronoShare

namespace SyncLog

open SyncDb

variable {Name : Type}

/-- The calls that record numbers of named devices, remember the state or open
the database again for the same device. -/
def Merging (localName : Name) : Call Name → Prop
  | .updateDeviceSeqNo _ _ => True
  | .rememberStateInStateLog => True
  | .reopen name => name = localName
  | _ => False

/-- The numbers given for a device, zero included for the local one. -/
def Given (localName : Name) (trace : Trace Name) (device : Name)
    (seqNo : Int64) : Prop :=
  .updateDeviceSeqNo device seqNo ∈ trace.map Prod.snd ∨
    (device = localName ∧ seqNo = 0)

/-- One row for each device for which a number was given, with the greatest of
its numbers. -/
structure HoldsGreatest (ndn : NameOps Name) (given : Name → Int64 → Prop)
    (rows : List SyncNode) : Prop where
  present : ∀ device seqNo, given device seqNo →
    ∃! row, row ∈ rows ∧ row.deviceName = ndn.wire device
  greatest : ∀ row ∈ rows, ∃ device, row.deviceName = ndn.wire device ∧
    IsGreatest {seqNo | given device seqNo} row.seqNo
  unique : (rows.map (·.deviceName)).Nodup

variable {ndn : NameOps Name} {sha256 : Bytes → Bytes} {localName : Name}
  {trace : Trace Name} {source target final : SyncLog Name} {call : Call Name}

private def GivenFor (ndn : NameOps Name) (given : Name → Int64 → Prop)
    (deviceName : Bytes) (seqNo : Int64) : Prop :=
  ∃ device, deviceName = ndn.wire device ∧ given device seqNo

private theorem collects_start {start : SyncLog Name}
    (opened : construct ndn SyncDb.empty localName = some start) :
    MaxMap.Collects (GivenFor ndn (Given localName [])) start.db.seqMap := by
  obtain ⟨sameDb, -⟩ := construct_cases opened
  rw [sameDb, seqMap_insertSyncNode]
  have nothing : SyncDb.empty.seqMap = ⊥ := rfl
  rw [nothing]
  apply (MaxMap.Collects.bot.raise (ndn.wire localName) 0).congr
  intro deviceName seqNo
  constructor
  · intro either
    rcases either with impossible | ⟨rfl, rfl⟩
    · exact impossible.elim
    · exact ⟨localName, rfl, Or.inr ⟨rfl, rfl⟩⟩
  · intro found
    obtain ⟨device, rfl, isGiven⟩ := found
    rcases isGiven with called | ⟨rfl, rfl⟩
    · exact (List.not_mem_nil called).elim
    · exact Or.inr ⟨rfl, rfl⟩

private theorem given_snoc {device : Name} {seqNo : Int64} :
    Given localName (trace ++ [(source, call)]) device seqNo ↔
      Given localName trace device seqNo ∨
        call = .updateDeviceSeqNo device seqNo := by
  simp only [Given, List.map_append, List.map_singleton, List.mem_append,
    List.mem_singleton, eq_comm]
  tauto

/-- A call that records no number gives none, whatever it does elsewhere. -/
private theorem collects_quiet
    (silent : ∀ device seqNo, call ≠ .updateDeviceSeqNo device seqNo)
    (same : target.db.seqMap = source.db.seqMap)
    (collects : MaxMap.Collects (GivenFor ndn (Given localName trace))
      source.db.seqMap) :
    MaxMap.Collects
      (GivenFor ndn (Given localName (trace ++ [(source, call)])))
      target.db.seqMap := by
  rw [same]
  apply collects.congr
  intro deviceName seqNo
  apply exists_congr
  intro device
  rw [given_snoc, or_iff_left (silent device seqNo)]

private theorem collects_perform
    (performed : source.perform ndn sha256 call = some target)
    (merging : Merging localName call)
    (collects : MaxMap.Collects (GivenFor ndn (Given localName trace))
      source.db.seqMap) :
    MaxMap.Collects
      (GivenFor ndn (Given localName (trace ++ [(source, call)])))
      target.db.seqMap := by
  cases call with
  | updateDeviceSeqNo name seqNo =>
      obtain rfl := Option.some.inj performed
      have recorded : (source.updateDeviceSeqNo ndn name seqNo).db.seqMap =
          source.db.seqMap.raise (ndn.wire name) seqNo :=
        seqMap_insertSyncNode _ _ _
      rw [recorded]
      apply (collects.raise (ndn.wire name) seqNo).congr
      intro deviceName number
      constructor
      · intro either
        rcases either with ⟨device, rfl, earlier⟩ | ⟨rfl, rfl⟩
        · exact ⟨device, rfl, given_snoc.mpr (Or.inl earlier)⟩
        · exact ⟨name, rfl, given_snoc.mpr (Or.inr rfl)⟩
      · intro found
        obtain ⟨device, rfl, isGiven⟩ := found
        rcases given_snoc.mp isGiven with earlier | here
        · exact Or.inl ⟨device, rfl, earlier⟩
        · obtain ⟨rfl, rfl⟩ := Call.updateDeviceSeqNo.inj here
          exact Or.inr ⟨rfl, rfl⟩
  | rememberStateInStateLog =>
      obtain rfl := Option.some.inj performed
      apply collects_quiet (by simp) _ collects
      rw [rememberStateInStateLog_seqMap]
  | reopen name =>
      obtain rfl : name = localName := merging
      obtain ⟨sameDb, -⟩ := construct_cases performed
      apply collects_quiet (by simp) _ collects
      -- the zero of the local device has been recorded before
      have known := collects.bounded (ndn.wire name) 0
        ⟨name, rfl, Or.inr ⟨rfl, rfl⟩⟩
      rw [sameDb, seqMap_insertSyncNode]
      funext deviceName
      by_cases same : deviceName = ndn.wire name
      · rw [same, MaxMap.raise_self, sup_eq_left.mpr known]
      · exact MaxMap.raise_of_ne _ same _
  | getNextLocalSeqNo => exact merging.elim
  | updateLocalSeqNo => exact merging.elim
  | updateLocator => exact merging.elim

theorem Served.collects (served : Served ndn sha256 localName trace final)
    (merging : ∀ call ∈ trace.map Prod.snd, Merging localName call) :
    MaxMap.Collects (fun deviceName seqNo => ∃ device,
      deviceName = ndn.wire device ∧ Given localName trace device seqNo)
      final.db.seqMap := by
  revert merging
  refine served.induction ?_ ?_
  · intro start opened _
    exact collects_start opened
  · intro trace source call target _ performed induction merging
    rw [List.map_append, List.forall_mem_append] at merging
    apply collects_perform performed (merging.2 call (by simp))
    exact induction merging.1

theorem Served.holdsGreatest (injective : Function.Injective ndn.wire)
    (served : Served ndn sha256 localName trace final)
    (merging : ∀ call ∈ trace.map Prod.snd, Merging localName call) :
    HoldsGreatest ndn (Given localName trace) final.db.syncNodes := by
  have collects := served.collects merging
  have named := served.wellFormed.db.named
  refine ⟨?_, ?_, named.unique⟩
  · intro device seqNo isGiven
    have known := collects.bounded (ndn.wire device) seqNo
      ⟨device, rfl, isGiven⟩
    cases stored : final.db.seqMap (ndn.wire device) with
    | bot =>
        rw [stored] at known
        exact (WithBot.not_coe_le_bot seqNo known).elim
    | coe number =>
        obtain ⟨row, rowIn, rowName, -⟩ := Table.mem_of_column_eq stored
        refine ⟨row, ⟨rowIn, rowName⟩, ?_⟩
        intro other found
        obtain ⟨otherIn, otherName⟩ := found
        exact Table.row_unique SyncNode.deviceName named.unique otherIn rowIn
          (otherName.trans rowName.symm)
  · intro row rowIn
    have stored : final.db.seqMap row.deviceName = row.seqNo :=
      Table.column_of_mem named.unique rowIn
    obtain ⟨device, sameName⟩ := named.encoded row rowIn
    refine ⟨device, sameName, ?_⟩
    obtain ⟨⟨source, sourceName, attained⟩, above⟩ :=
      collects.isGreatest stored
    have same : source = device :=
      injective (sourceName.symm.trans sameName)
    refine ⟨same ▸ attained, ?_⟩
    intro number isGiven
    exact above ⟨device, sameName, isGiven⟩

theorem Served.pairwise (served : Served ndn sha256 localName trace final) :
    (trace.map Prod.fst ++ [final]).Pairwise fun earlier later =>
      earlier.db.seqMap ≤ later.db.seqMap := by
  obtain ⟨start, opened, run⟩ := served
  apply run.pairwise (Reachable ndn sha256)
  · exact .construct opened
  · intro source call target performed reachable
    exact perform_reachable performed reachable
  · exact le_trans
  · intro source call target performed reachable
    exact seqMap_le_perform performed reachable.wellFormed

/-- Two logs of one device that are given the same numbers, in any orders and
with repetitions, hold the same greatest numbers and have the same digest. -/
theorem merge_commutes (injective : Function.Injective ndn.wire)
    {leftTrace rightTrace : Trace Name} {left right : SyncLog Name}
    (leftServed : Served ndn sha256 localName leftTrace left)
    (rightServed : Served ndn sha256 localName rightTrace right)
    (leftMerging : ∀ call ∈ leftTrace.map Prod.snd, Merging localName call)
    (rightMerging : ∀ call ∈ rightTrace.map Prod.snd,
      Merging localName call)
    (same : ∀ device seqNo,
      .updateDeviceSeqNo device seqNo ∈ leftTrace.map Prod.snd ↔
        .updateDeviceSeqNo device seqNo ∈ rightTrace.map Prod.snd) :
    HoldsGreatest ndn (Given localName leftTrace) left.db.syncNodes ∧
    HoldsGreatest ndn (Given localName leftTrace) right.db.syncNodes ∧
    ((leftTrace.map Prod.fst ++ [left]).Pairwise fun earlier later =>
      earlier.db.seqMap ≤ later.db.seqMap) ∧
    ((rightTrace.map Prod.fst ++ [right]).Pairwise fun earlier later =>
      earlier.db.seqMap ≤ later.db.seqMap) ∧
    (left.rememberStateInStateLog sha256).1 =
      (right.rememberStateInStateLog sha256).1 := by
  have sameGiven : Given localName rightTrace = Given localName leftTrace := by
    funext device seqNo
    simp only [Given, same]
  have leftCollects := leftServed.collects leftMerging
  have rightCollects := rightServed.collects rightMerging
  have rightHolds := rightServed.holdsGreatest injective rightMerging
  rw [sameGiven] at rightHolds
  simp only [sameGiven] at rightCollects
  refine ⟨leftServed.holdsGreatest injective leftMerging, rightHolds,
    leftServed.pairwise, rightServed.pairwise, ?_⟩
  rw [rememberStateInStateLog_fst, rememberStateInStateLog_fst]
  exact digest_congr leftServed.wellFormed.db.named.unique
    rightServed.wellFormed.db.named.unique
    (leftCollects.unique rightCollects)

/-- Numbers of `/bob` in falling order, with the state remembered between
them. -/
def falling : List (Call DeviceName) :=
  [.updateDeviceSeqNo DeviceName.bob 2, .rememberStateInStateLog,
    .updateDeviceSeqNo DeviceName.bob 1]

/-- The same numbers rising and repeated, with the database opened again. -/
def rising : List (Call DeviceName) :=
  [.updateDeviceSeqNo DeviceName.bob 1, .reopen DeviceName.alex,
    .updateDeviceSeqNo DeviceName.bob 2, .updateDeviceSeqNo DeviceName.bob 1]

theorem merge_commutes_falling_rising :
    ∃ (leftTrace rightTrace : Trace DeviceName)
        (left right : SyncLog DeviceName),
      leftTrace.map Prod.snd = falling ∧ rightTrace.map Prod.snd = rising ∧
      HoldsGreatest DeviceName.ops (Given DeviceName.alex leftTrace)
        left.db.syncNodes ∧
      HoldsGreatest DeviceName.ops (Given DeviceName.alex leftTrace)
        right.db.syncNodes ∧
      (left.rememberStateInStateLog taggedDigest).1 =
        (right.rememberStateInStateLog taggedDigest).1 := by
  have leftExecuted : ∃ trace final, execute
      (perform DeviceName.ops taggedDigest)
      (opened DeviceName.ops DeviceName.alex) falling =
        some (trace, final) := ⟨_, _, rfl⟩
  have rightExecuted : ∃ trace final, execute
      (perform DeviceName.ops taggedDigest)
      (opened DeviceName.ops DeviceName.alex) rising =
        some (trace, final) := ⟨_, _, rfl⟩
  obtain ⟨leftTrace, left, leftExecuted⟩ := leftExecuted
  obtain ⟨rightTrace, right, rightExecuted⟩ := rightExecuted
  have leftCalls := execute_labels leftExecuted
  have rightCalls := execute_labels rightExecuted
  obtain ⟨leftHolds, rightHolds, -, -, sameDigest⟩ := merge_commutes
    DeviceName.ops_distinctBlobs.wireInjective
    (served_of_execute leftExecuted) (served_of_execute rightExecuted)
    (by simp [leftCalls, falling, Merging])
    (by simp [rightCalls, rising, Merging])
    (by
      intro device seqNo
      simp only [leftCalls, rightCalls, falling, rising, List.mem_cons,
        Call.updateDeviceSeqNo.injEq, reduceCtorEq, List.not_mem_nil]
      tauto)
  exact ⟨leftTrace, rightTrace, left, right, leftCalls, rightCalls,
    leftHolds, rightHolds, sameDigest⟩

end SyncLog

end ChronoShare
