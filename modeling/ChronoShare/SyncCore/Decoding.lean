import ChronoShare.SyncCore.Invariant
import ChronoShare.SyncCore.MessageFormat

/-!
# Names in messages

Messages carry device names as wire encodings, and both readers of a message
take the bytes for a URI.  No device is ever read back: the row of a named
device stays as it is, and whatever the bytes happen to stand for is recorded
and fetched in its place.
-/

namespace ChronoShare

namespace SyncCore

open SyncDb

/-- What reading an entry of a message should do: both readers arrive at
`device`, and applying the entry records its number for `device` alone. -/
structure DecodedBack {Name : Type} (ndn : NameOps Name) (state : SyncState)
    (device : Name) : Prop where
  core : ndn.ofString state.name = some device
  dispatcher : ∀ ranges,
    didSyncLogStateChangeExecute ndn [state] = some ranges →
      ∀ range ∈ ranges, range.userName = device
  applied : ∀ log updated : SyncLog Name,
    applyState ndn log state = some updated →
      updated.db.seqMap =
        log.db.seqMap.raise (ndn.wire device) (state.seq.getD 0).toInt64

section Decoding

variable {ofString : Bytes → Option Name} {sha256 : Bytes → Bytes}

theorem seqMap_applyState (uri : UriConstructor ofString)
    {log updated : SyncLog Name}
    (wellFormed : SyncLog.WellFormed (Name.ops ofString) sha256 log)
    {state : SyncState} {device : Name}
    (named : state.name = device.wireEncode)
    (applied : applyState (Name.ops ofString) log state = some updated) :
    updated.db.seqMap state.name = log.db.seqMap state.name := by
  rw [(applyState_spec wellFormed applied).2]
  apply MaxMap.raiseAll_of_not_mem
  intro entry member sameName
  unfold recorded at member
  cases type : state.type with
  | delete => simp [type] at member
  | update =>
      simp only [type, Option.mem_toList,
        Option.map_eq_some_iff] at member
      obtain ⟨decoded, read, rfl⟩ := member
      have sameDevice : decoded = device :=
        Name.wireEncode_selfDelimiting.injective (sameName.trans named)
      apply Name.ofString_wireEncode_ne uri device
      rw [← named]
      exact sameDevice ▸ read

theorem userName_ne (uri : UriConstructor ofString) {state : SyncState}
    {device : Name} (named : state.name = device.wireEncode)
    {ranges : List (FetchRange Name)}
    (executed : didSyncLogStateChangeExecute (Name.ops ofString) [state] =
      some ranges) :
    ∀ range ∈ ranges, range.userName ≠ device := by
  intro range member same
  unfold didSyncLogStateChangeExecute at executed
  cases oldSeq : state.oldSeq with
  | none =>
      simp only [oldSeq, didSyncLogStateChangeExecute,
        Option.some.injEq] at executed
      simp [← executed] at member
  | some oldSeq' =>
      cases seq : state.seq with
      | none =>
          simp only [oldSeq, seq, didSyncLogStateChangeExecute,
            Option.some.injEq] at executed
          simp [← executed] at member
      | some newSeq =>
          cases read : (Name.ops ofString).ofString state.name with
          | none => simp [oldSeq, seq, read] at executed
          | some userName =>
              simp only [oldSeq, seq, read, didSyncLogStateChangeExecute,
                Option.map_some, Option.some.injEq] at executed
              rw [← executed, List.mem_singleton] at member
              rw [member] at same
              apply Name.ofString_wireEncode_ne uri device
              rw [← named]
              exact same ▸ read

/-- No entry a log reports is read back as the device it is about: neither
reader arrives at the device, and its row does not move. -/
theorem reported_device_never_decoded (uri : UriConstructor ofString)
    {log : SyncLog Name}
    (reachable : SyncLog.Reachable (Name.ops ofString) sha256 log)
    {oldHash newHash : Hash} {includeOldSeq : Bool} {state : SyncState}
    (reported : state ∈
      log.db.findStateDifferences oldHash newHash includeOldSeq)
    {device : Name} (named : state.name = device.wireEncode) :
    ¬ DecodedBack (Name.ops ofString) state device ∧
      (∃ node ∈ log.db.syncNodes, node.deviceName = device.wireEncode) ∧
      ofString state.name ≠ some device ∧
      (∀ ranges,
        didSyncLogStateChangeExecute (Name.ops ofString) [state] =
          some ranges → ∀ range ∈ ranges, range.userName ≠ device) ∧
      ∀ receiver updated : SyncLog Name,
        SyncLog.WellFormed (Name.ops ofString) sha256 receiver →
        applyState (Name.ops ofString) receiver state = some updated →
          updated.db.seqMap device.wireEncode =
            receiver.db.seqMap device.wireEncode := by
  have unread : ofString state.name ≠ some device := by
    rw [named]
    exact Name.ofString_wireEncode_ne uri device
  obtain ⟨node, nodeIn, -, entry⟩ :=
    (mem_findStateDifferences reachable.wellFormed.db).mp reported
  have sameName : state.name = node.deviceName := by rw [entry]; rfl
  refine ⟨fun back => unread back.core,
    ⟨node, nodeIn, sameName.symm.trans named⟩, unread, ?_, ?_⟩
  · intro ranges executed
    exact userName_ne uri named executed
  · intro receiver updated receiverFormed applied
    rw [← named]
    exact seqMap_applyState uri receiverFormed named applied

end Decoding

/-- The log of `/alex` with its first state remembered, as read from strings
that are URIs. -/
def rememberedAlex : Hash × SyncLog Name :=
  (SyncLog.opened Name.uriOps Name.alex).rememberStateInStateLog taggedDigest

theorem rememberedAlex_reachable :
    SyncLog.Reachable Name.uriOps taggedDigest rememberedAlex.2 :=
  .rememberStateInStateLog (SyncLog.opened_reachable _)

/-- The only entry of the first message of `/alex`. -/
def alexEntry : SyncState where
  name := Name.alex.wireEncode
  type := .update
  seq := some 0
  locator := none
  oldSeq := some 0

theorem alexEntry_reported :
    alexEntry ∈ rememberedAlex.2.db.findStateDifferences Hash.origin
      rememberedAlex.1 true := by
  decide +kernel

theorem reported_device_never_decoded_alex :
    ¬ DecodedBack Name.uriOps alexEntry Name.alex ∧
      (∃ node ∈ rememberedAlex.2.db.syncNodes,
        node.deviceName = Name.alex.wireEncode) ∧
      Name.ofUri alexEntry.name ≠ some Name.alex ∧
      (∀ ranges, didSyncLogStateChangeExecute Name.uriOps [alexEntry] =
        some ranges → ∀ range ∈ ranges, range.userName ≠ Name.alex) ∧
      ∀ receiver updated : SyncLog Name,
        SyncLog.WellFormed Name.uriOps taggedDigest receiver →
        applyState Name.uriOps receiver alexEntry = some updated →
          updated.db.seqMap Name.alex.wireEncode =
            receiver.db.seqMap Name.alex.wireEncode :=
  reported_device_never_decoded Name.ofUri_uriConstructor
    rememberedAlex_reachable alexEntry_reported rfl

/-- A node of `/bob` that applies the entry for `/alex` gets a row for a
device whose only component is the wire encoding of `/alex`. -/
theorem bob_records_another_device :
    (∃ state ∈ rememberedAlex.2.db.findStateDifferences Hash.origin
        rememberedAlex.1 true,
      state.name = Name.alex.wireEncode ∧
        Name.ofUri state.name ≠ some Name.alex) ∧
      (applyState Name.uriOps (SyncLog.opened Name.uriOps Name.bob)
          alexEntry).map (fun log => log.db.syncNodes.map (·.deviceName)) =
        some [Name.bob.wireEncode,
          (Name.ofComponents [Name.alex.wireEncode]).wireEncode] ∧
      ¬ DecodedBack Name.uriOps alexEntry Name.alex := by
  refine ⟨⟨alexEntry, alexEntry_reported, rfl, by decide +kernel⟩,
    by decide +kernel, ?_⟩
  intro back
  exact absurd back.core (by decide +kernel)

end SyncCore

end ChronoShare
