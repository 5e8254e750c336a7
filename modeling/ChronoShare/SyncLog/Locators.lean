import ChronoShare.SyncLog.Calls

/-!
# Locators and numbers under a second encoding

A row is stored under the wire form of its device.  Locators are written, and
numbers are read back, under the value of the name, which no row is stored
under: locators are never written, and the one read back fails on the row that
it finds.
-/

namespace ChronoShare

namespace SyncLog

open SyncDb

variable {Name : Type}

/-- `LookupLocator`: the empty name, as `none`, without a row.  The locator of
a row is read as a C string, which fails on a column that is NULL. -/
def lookupLocator (ndn : NameOps Name) (log : SyncLog Name)
    (deviceName : Name) : Option (Option Name) :=
  match log.db.syncNodes.find? fun row =>
      row.deviceName = ndn.wire deviceName with
  | none => some none
  | some row =>
      match row.lastKnownLocator with
      | none => none
      | some blob => (ndn.ofString (blob.takeWhile (· ≠ 0))).map some

def lookupLocalLocator (ndn : NameOps Name) (log : SyncLog Name) :
    Option (Option Name) :=
  log.lookupLocator ndn log.localName

/-- `SeqNo`, with its default for a device without a row. -/
def seqNo (ndn : NameOps Name) (log : SyncLog Name) (name : Name) : Int64 :=
  match log.db.syncNodes.find? fun row => row.deviceName = ndn.value name with
  | none => -1
  | some row => row.seqNo

def Known (ndn : NameOps Name) (log : SyncLog Name) (device : Name) : Prop :=
  ∃ row ∈ log.db.syncNodes, row.deviceName = ndn.wire device

instance (ndn : NameOps Name) (log : SyncLog Name) (device : Name) :
    Decidable (Known ndn log device) :=
  inferInstanceAs (Decidable (∃ _ ∈ _, _))

/-- The locator of the last `UpdateLocator` for a device that was known to
the log at the time. -/
def lastLocator [DecidableEq Name] (ndn : NameOps Name) (trace : Trace Name)
    (device : Name) : Option Name :=
  trace.reverse.findSome? fun taken =>
    match taken.2 with
    | .updateLocator deviceName locator =>
        if deviceName = device ∧ Known ndn taken.1 device then
          some locator
        else
          none
    | _ => none

/-- The log answers for a device as its history says. -/
structure AnswersFor [DecidableEq Name] (ndn : NameOps Name)
    (trace : Trace Name) (log : SyncLog Name) (device : Name) : Prop where
  locator : log.lookupLocator ndn device =
    some (lastLocator ndn trace device)
  others : ∀ locator other, other ≠ device →
    (log.updateLocator ndn device locator).lookupLocator ndn other =
      log.lookupLocator ndn other
  number : ∀ stored : Int64, log.db.seqMap (ndn.wire device) = stored →
    log.seqNo ndn device = stored

/-- The device is a local one, or numbers have been recorded for it. -/
def Mentioned (localName : Name) (trace : Trace Name) (device : Name) : Prop :=
  device = localName ∨ .reopen device ∈ trace.map Prod.snd ∨
    ∃ seqNo, .updateDeviceSeqNo device seqNo ∈ trace.map Prod.snd

variable {ndn : NameOps Name} {sha256 : Bytes → Bytes} {localName : Name}
  {trace : Trace Name} {source target final : SyncLog Name} {call : Call Name}

theorem known_insertSyncNode (injective : Function.Injective ndn.wire)
    (log : SyncLog Name) (name device : Name) (seqNo : Int64) :
    (∃ row ∈ (log.db.insertSyncNode (ndn.wire name) seqNo).syncNodes,
      row.deviceName = ndn.wire device) ↔
      Known ndn log device ∨ device = name := by
  have split : (∃ row ∈ (log.db.insertSyncNode (ndn.wire name)
      seqNo).syncNodes, row.deviceName = ndn.wire device) ↔
      (log.db.insertSyncNode (ndn.wire name) seqNo).seqMap (ndn.wire device) ≠
        ⊥ := by
    rw [Ne, seqMap, seqOf, Table.column_eq_bot_iff]
    simp
  have before : Known ndn log device ↔
      log.db.seqMap (ndn.wire device) ≠ ⊥ := by
    rw [Ne, seqMap, seqOf, Table.column_eq_bot_iff]
    simp [Known]
  rw [split, before, seqMap_insertSyncNode]
  by_cases same : device = name
  · subst same
    simp [MaxMap.raise_self]
  · have different : ndn.wire device ≠ ndn.wire name :=
      fun equal => same (injective equal)
    rw [MaxMap.raise_of_ne _ different, or_iff_left same]

theorem known_map {rewrite : SyncNode → SyncNode} {device : Name}
    (sameName : ∀ row, (rewrite row).deviceName = row.deviceName) :
    (∃ row ∈ source.db.syncNodes.map rewrite,
      row.deviceName = ndn.wire device) ↔ Known ndn source device := by
  simp [Known, sameName]

theorem known_perform (injective : Function.Injective ndn.wire)
    {device : Name}
    (performed : source.perform ndn sha256 call = some target) :
    Known ndn target device ↔ Known ndn source device ∨
      call = .reopen device ∨ ∃ seqNo, call = .updateDeviceSeqNo device seqNo := by
  have tables := tablesAfter_perform performed
  rw [Known]
  generalize target.db = after at tables ⊢
  cases tables with
  | updateDeviceSeqNo name seqNo =>
      rw [known_insertSyncNode injective]
      simp [eq_comm]
  | getNextLocalSeqNo deviceId seqNo =>
      simp only [reduceCtorEq, exists_false, or_false]
      apply known_map
      intro row
      split_ifs <;> rfl
  | updateLocalSeqNo deviceId seqNo =>
      simp only [reduceCtorEq, exists_false, or_false]
      apply known_map
      intro row
      split_ifs <;> rfl
  | updateLocator deviceName locator =>
      simp only [reduceCtorEq, exists_false, or_false]
      apply known_map
      intro row
      split_ifs <;> rfl
  | rememberStateInStateLog =>
      simp [Known, SyncDb.rememberStateInStateLog, insertSyncLog,
        insertSyncStateNodes]
  | reopen name =>
      rw [known_insertSyncNode injective]
      simp [eq_comm]

theorem Served.known_iff (injective : Function.Injective ndn.wire)
    (served : Served ndn sha256 localName trace final) (device : Name) :
    Known ndn final device ↔ Mentioned localName trace device := by
  refine served.induction ?_ ?_
  · intro start opened
    obtain ⟨sameDb, -⟩ := construct_cases opened
    simp [Known, Mentioned, sameDb, SyncDb.empty, insertSyncNode,
      injective.eq_iff, eq_comm]
  · intro trace source call target earlier performed induction
    rw [known_perform injective performed, induction]
    simp only [Mentioned, List.map_append, List.map_singleton,
      List.mem_append, List.mem_singleton, exists_or, eq_comm]
    tauto

theorem deviceName_ne_value (blobs : ndn.DistinctBlobs)
    (wellFormed : WellFormed ndn sha256 source) (device : Name) :
    ∀ row ∈ source.db.syncNodes, row.deviceName ≠ ndn.value device := by
  intro row rowIn
  obtain ⟨name, sameName⟩ := wellFormed.db.named.encoded row rowIn
  rw [sameName]
  exact (blobs.wire_lt_value name device).ne

theorem updateLocator_eq (blobs : ndn.DistinctBlobs)
    (wellFormed : WellFormed ndn sha256 source) (device locator : Name) :
    source.updateLocator ndn device locator = source := by
  have rows : (source.db.syncNodes.map fun row =>
      if row.deviceName = ndn.value device then
        { row with lastKnownLocator := some (ndn.value locator) }
      else
        row) = source.db.syncNodes := by
    calc source.db.syncNodes.map _
        = source.db.syncNodes.map id := by
          apply List.map_congr_left
          intro row rowIn
          exact if_neg (deviceName_ne_value blobs wellFormed device row rowIn)
      _ = source.db.syncNodes := List.map_id _
  rw [SyncLog.updateLocator, SyncDb.updateLocator, rows]

theorem unlocated_perform (blobs : ndn.DistinctBlobs)
    (wellFormed : WellFormed ndn sha256 source)
    (performed : source.perform ndn sha256 call = some target)
    (unlocated : ∀ row ∈ source.db.syncNodes, row.lastKnownLocator = none) :
    ∀ row ∈ target.db.syncNodes, row.lastKnownLocator = none := by
  have inserted (name : Name) (seqNo : Int64) :
      ∀ row ∈ (source.db.insertSyncNode (ndn.wire name) seqNo).syncNodes,
        row.lastKnownLocator = none := by
    unfold insertSyncNode
    split_ifs
    · rw [List.forall_mem_map]
      intro row rowIn
      split_ifs <;> exact unlocated row rowIn
    · rw [List.forall_mem_append, List.forall_mem_singleton]
      exact ⟨unlocated, rfl⟩
  have updated (deviceId : Nat) (seqNo : Int64) :
      ∀ row ∈ (source.db.updateSyncNode deviceId seqNo).syncNodes,
        row.lastKnownLocator = none := by
    unfold updateSyncNode
    rw [List.forall_mem_map]
    intro row rowIn
    split_ifs <;> exact unlocated row rowIn
  have tables := tablesAfter_perform performed
  generalize target.db = after at tables ⊢
  cases tables with
  | updateDeviceSeqNo name seqNo => exact inserted name seqNo
  | getNextLocalSeqNo deviceId seqNo => exact updated deviceId seqNo
  | updateLocalSeqNo deviceId seqNo => exact updated deviceId seqNo
  | updateLocator deviceName locator =>
      have same : source.db.updateLocator (ndn.value deviceName)
          (ndn.value locator) = source.db :=
        congrArg SyncLog.db
          (updateLocator_eq blobs wellFormed deviceName locator)
      rw [same]
      exact unlocated
  | rememberStateInStateLog => exact unlocated
  | reopen name => exact inserted name 0

theorem Served.unlocated (blobs : ndn.DistinctBlobs)
    (served : Served ndn sha256 localName trace final) :
    ∀ row ∈ final.db.syncNodes, row.lastKnownLocator = none := by
  refine served.induction ?_ ?_
  · intro start opened
    obtain ⟨sameDb, -⟩ := construct_cases opened
    simp [sameDb, SyncDb.empty, insertSyncNode]
  · intro trace source call target earlier performed induction
    exact unlocated_perform blobs earlier.wellFormed performed induction

theorem Served.lookupLocator_eq (blobs : ndn.DistinctBlobs)
    (served : Served ndn sha256 localName trace final) (device : Name) :
    final.lookupLocator ndn device =
      if Known ndn final device then none else some none := by
  unfold lookupLocator
  cases found : final.db.syncNodes.find? fun row =>
      row.deviceName = ndn.wire device with
  | none =>
      rw [if_neg]
      rintro ⟨row, rowIn, sameName⟩
      exact List.find?_eq_none.mp found row rowIn (decide_eq_true sameName)
  | some row =>
      have rowIn := List.mem_of_find?_eq_some found
      have sameName : row.deviceName = ndn.wire device := by
        simpa using List.find?_some found
      rw [if_pos ⟨row, rowIn, sameName⟩]
      simp only [served.unlocated blobs row rowIn]

theorem Served.lookupLocalLocator_eq (blobs : ndn.DistinctBlobs)
    (served : Served ndn sha256 localName trace final) :
    final.lookupLocalLocator ndn = none := by
  obtain ⟨row, rowIn, -, sameName⟩ := served.wellFormed.localRow
  rw [lookupLocalLocator, served.lookupLocator_eq blobs,
    if_pos ⟨row, rowIn, sameName⟩]

theorem Served.seqNo_eq (blobs : ndn.DistinctBlobs)
    (served : Served ndn sha256 localName trace final) (device : Name) :
    final.seqNo ndn device = -1 := by
  have missing : final.db.syncNodes.find?
      (fun row => row.deviceName = ndn.value device) = none := by
    rw [List.find?_eq_none]
    intro row rowIn
    simpa using deviceName_ne_value blobs served.wellFormed device row rowIn
  simp only [seqNo, missing]

theorem lastLocator_eq_none [DecidableEq Name]
    (injective : Function.Injective ndn.wire)
    (served : Served ndn sha256 localName trace final) {device : Name}
    (unmentioned : ¬ Mentioned localName trace device) :
    lastLocator ndn trace device = none := by
  revert unmentioned
  refine served.induction ?_ ?_
  · intro start opened _
    rfl
  · intro trace source call target earlier performed induction unmentioned
    have before : ¬ Mentioned localName trace device := by
      intro mentioned
      apply unmentioned
      rcases mentioned with isLocal | reopened | ⟨seqNo, recorded⟩
      · exact Or.inl isLocal
      · exact Or.inr (Or.inl (by simp [reopened]))
      · exact Or.inr (Or.inr ⟨seqNo, by simp [recorded]⟩)
    have unknown : ¬ Known ndn source device := by
      rw [earlier.known_iff injective]
      exact before
    have kept := induction before
    cases call with
    | updateLocator deviceName locator =>
        simpa [lastLocator, unknown] using kept
    | _ => simpa [lastLocator] using kept

/-- The log answers for a device as its history says exactly if the history
never mentions the device. -/
theorem answersFor_iff [DecidableEq Name] (blobs : ndn.DistinctBlobs)
    (served : Served ndn sha256 localName trace final) (device : Name) :
    AnswersFor ndn trace final device ↔
      ¬ Mentioned localName trace device := by
  have injective := blobs.wireInjective
  rw [← served.known_iff injective]
  constructor
  · intro answers known
    have found := answers.locator
    rw [served.lookupLocator_eq blobs, if_pos known] at found
    exact Option.some_ne_none _ found.symm
  · intro unknown
    have unmentioned : ¬ Mentioned localName trace device := by
      rwa [← served.known_iff injective]
    constructor
    · rw [served.lookupLocator_eq blobs, if_neg unknown,
        lastLocator_eq_none injective served unmentioned]
    · intro locator other _
      rw [updateLocator_eq blobs served.wellFormed]
    · intro stored known
      obtain ⟨row, rowIn, sameName, -⟩ := Table.mem_of_column_eq known
      exact (unknown ⟨row, rowIn, sameName⟩).elim

def locatorSet : List (Call DeviceName) :=
  [.updateLocator DeviceName.alex DeviceName.bob]

/-- The calls change nothing for a device they do not mention, and lose the
locator of the one they do. -/
theorem answersFor_iff_locatorSet :
    ∃ (trace : Trace DeviceName) (final : SyncLog DeviceName),
      trace.map Prod.snd = locatorSet ∧
      AnswersFor DeviceName.ops trace final DeviceName.bob ∧
      ¬ AnswersFor DeviceName.ops trace final DeviceName.alex := by
  have executed : ∃ trace final, execute
      (perform DeviceName.ops taggedDigest)
      (opened DeviceName.ops DeviceName.alex) locatorSet =
        some (trace, final) := ⟨_, _, rfl⟩
  obtain ⟨trace, final, executed⟩ := executed
  have calls := execute_labels executed
  have answers := answersFor_iff DeviceName.ops_distinctBlobs
    (served_of_execute executed)
  refine ⟨trace, final, calls, (answers _).mpr ?_, ?_⟩
  · have different : DeviceName.bob ≠ DeviceName.alex := by decide
    simp [Mentioned, calls, locatorSet, different]
  · rw [answers, not_not]
    exact Or.inl rfl

/-- After `UpdateLocator` the lookup fails on the device, whose number is not
found either. -/
theorem locatorSet_lost :
    ∃ (trace : Trace DeviceName) (final : SyncLog DeviceName),
      trace.map Prod.snd = locatorSet ∧
      Served DeviceName.ops taggedDigest DeviceName.alex trace final ∧
      lastLocator DeviceName.ops trace DeviceName.alex =
        some DeviceName.bob ∧
      final.lookupLocator DeviceName.ops DeviceName.alex = none ∧
      final.db.seqMap (DeviceName.ops.wire DeviceName.alex) =
        ((0 : Int64) : WithBot Int64) ∧
      final.seqNo DeviceName.ops DeviceName.alex = -1 ∧
      ¬ AnswersFor DeviceName.ops trace final DeviceName.alex := by
  have executed : ∃ trace final, execute
      (perform DeviceName.ops taggedDigest)
      (opened DeviceName.ops DeviceName.alex) locatorSet =
        some (trace, final) ∧
      lastLocator DeviceName.ops trace DeviceName.alex =
        some DeviceName.bob ∧
      final.lookupLocator DeviceName.ops DeviceName.alex = none ∧
      final.db.seqMap (DeviceName.ops.wire DeviceName.alex) =
        ((0 : Int64) : WithBot Int64) ∧
      final.seqNo DeviceName.ops DeviceName.alex = -1 :=
    ⟨_, _, rfl, by decide +kernel, by decide +kernel, by decide +kernel,
      by decide +kernel⟩
  obtain ⟨trace, final, executed, last, lookup, stored, number⟩ := executed
  refine ⟨trace, final, execute_labels executed, served_of_execute executed,
    last, lookup, stored, number, ?_⟩
  intro answers
  have found := answers.locator
  rw [lookup] at found
  exact Option.some_ne_none _ found.symm

end SyncLog

end ChronoShare
