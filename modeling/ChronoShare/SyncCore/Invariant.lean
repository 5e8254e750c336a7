import ChronoShare.SyncCore.Core

/-!
# The root of a core is a remembered state

Every reachable core has a well-formed log in which its root hash is logged.
The map the root stands for trails the current map, and catches up exactly
when the root is remembered anew; received messages only move the current map.
-/

namespace ChronoShare

variable {Name : Type} {ndn : NameOps Name} {sha256 : Bytes → Bytes}

namespace SyncDb

theorem NodesGrown.refl {db : SyncDb} (wellFormed : WellFormed ndn sha256 db) :
    NodesGrown ndn db db where
  syncLog := rfl
  syncStateNodes := rfl
  lastStateId := rfl
  kept := fun row rowIn => ⟨row, rowIn, rfl, rfl, le_rfl⟩
  named := wellFormed.named
  idsUnique := wellFormed.idsUnique
  idsBounded := wellFormed.idsBounded

theorem NodesGrown.trans {first second third : SyncDb}
    (before : NodesGrown ndn first second)
    (after : NodesGrown ndn second third) : NodesGrown ndn first third where
  syncLog := after.syncLog.trans before.syncLog
  syncStateNodes := after.syncStateNodes.trans before.syncStateNodes
  lastStateId := after.lastStateId.trans before.lastStateId
  kept := by
    intro row rowIn
    obtain ⟨middle, middleIn, middleId, middleName, below⟩ :=
      before.kept row rowIn
    obtain ⟨current, currentIn, currentId, currentName, above⟩ :=
      after.kept middle middleIn
    exact ⟨current, currentIn, currentId.trans middleId,
      currentName.trans middleName, below.trans above⟩
  named := after.named
  idsUnique := after.idsUnique
  idsBounded := after.idsBounded

end SyncDb

namespace SyncLog

/-- `after` is `before` with more known, under the same local device. -/
structure Grown (ndn : NameOps Name) (before after : SyncLog Name) : Prop where
  db : SyncDb.NodesGrown ndn before.db after.db
  localName : after.localName = before.localName
  localDeviceId : after.localDeviceId = before.localDeviceId

namespace Grown

theorem refl {log : SyncLog Name} (wellFormed : WellFormed ndn sha256 log) :
    Grown ndn log log :=
  ⟨.refl wellFormed.db, rfl, rfl⟩

theorem trans {first second third : SyncLog Name}
    (before : Grown ndn first second) (after : Grown ndn second third) :
    Grown ndn first third :=
  ⟨before.db.trans after.db, after.localName.trans before.localName,
    after.localDeviceId.trans before.localDeviceId⟩

theorem wellFormed {before after : SyncLog Name}
    (grown : Grown ndn before after)
    (wellFormed : WellFormed ndn sha256 before) :
    WellFormed ndn sha256 after := by
  have kept := wellFormed.of_nodesGrown grown.db
  obtain ⟨db, localName, localDeviceId⟩ := after
  obtain ⟨grownDb, sameName, sameId⟩ := grown
  simp only at grownDb sameName sameId kept
  subst sameName
  subst sameId
  exact kept

end Grown

theorem updateDeviceSeqNo_grown {log : SyncLog Name}
    (wellFormed : WellFormed ndn sha256 log) (name : Name) (seqNo : Int64) :
    Grown ndn log (log.updateDeviceSeqNo ndn name seqNo) :=
  ⟨SyncDb.insertSyncNode_nodesGrown wellFormed.db name seqNo, rfl, rfl⟩

theorem updateLocator_grown {log : SyncLog Name}
    (wellFormed : WellFormed ndn sha256 log) (deviceName locator : Name) :
    Grown ndn log (log.updateLocator ndn deviceName locator) :=
  ⟨SyncDb.updateLocator_nodesGrown wellFormed.db _ _, rfl, rfl⟩

theorem updateLocalSeqNo_grown {log : SyncLog Name}
    (wellFormed : WellFormed ndn sha256 log) (seqNo : Int64) :
    Grown ndn log (log.updateLocalSeqNo seqNo) :=
  ⟨SyncDb.updateSyncNode_nodesGrown wellFormed.db _ _, rfl, rfl⟩

theorem seqMap_updateLocalSeqNo {log : SyncLog Name}
    (wellFormed : WellFormed ndn sha256 log) (seqNo : Int64) :
    (log.updateLocalSeqNo seqNo).db.seqMap =
      log.db.seqMap.raise (ndn.wire log.localName) seqNo := by
  obtain ⟨node, nodeIn, nodeId, nodeName⟩ := wellFormed.localRow
  have recorded := SyncDb.seqMap_updateSyncNode wellFormed.db nodeIn seqNo
  rw [nodeId, nodeName] at recorded
  exact recorded

theorem getNextLocalSeqNo_spec {log next : SyncLog Name} {seqNo : Int64}
    (wellFormed : WellFormed ndn sha256 log)
    (consumed : log.getNextLocalSeqNo = some (seqNo, next)) :
    next = log.updateLocalSeqNo seqNo ∧
      ∃ current : Int64, log.db.seqMap (ndn.wire log.localName) = current ∧
        seqNo = current + 1 := by
  obtain ⟨node, nodeIn, nodeId, nodeName⟩ := wellFormed.localRow
  have found : log.db.syncNodes.find?
      (fun row => row.deviceId = log.localDeviceId) = some node :=
    (Table.find?_eq_some_iff SyncNode.deviceId wellFormed.db.idsUnique).mpr
      ⟨nodeIn, nodeId⟩
  simp only [getNextLocalSeqNo, found, Option.some.injEq,
    Prod.mk.injEq] at consumed
  obtain ⟨number, updated⟩ := consumed
  refine ⟨by rw [← updated, number], node.seqNo, ?_, number.symm⟩
  rw [← nodeName]
  exact Table.column_of_mem wellFormed.db.named.unique nodeIn

end SyncLog

namespace SyncCore

open SyncDb

/-- What a state of a message records, under the name it is decoded to. -/
def recorded (ndn : NameOps Name) (state : SyncState) :
    Option (Bytes × Int64) :=
  match state.type with
  | .update => (ndn.ofString state.name).map fun name =>
      (ndn.wire name, (state.seq.getD 0).toInt64)
  | .delete => none

theorem applyState_spec {log updated : SyncLog Name} {state : SyncState}
    (wellFormed : SyncLog.WellFormed ndn sha256 log)
    (applied : applyState ndn log state = some updated) :
    SyncLog.Grown ndn log updated ∧
      updated.db.seqMap =
        log.db.seqMap.raiseAll (recorded ndn state).toList := by
  unfold applyState at applied
  cases decoded : ndn.ofString state.name with
  | none => simp [decoded] at applied
  | some deviceName =>
      cases type : state.type with
      | delete =>
          simp only [decoded, type, Option.some.injEq] at applied
          subst applied
          exact ⟨.refl wellFormed, by simp [recorded, type]⟩
      | update =>
          have grown := SyncLog.updateDeviceSeqNo_grown wellFormed deviceName
            (state.seq.getD 0).toInt64
          have sameMap : (log.updateDeviceSeqNo ndn deviceName
              (state.seq.getD 0).toInt64).db.seqMap =
              log.db.seqMap.raiseAll (recorded ndn state).toList := by
            simp only [recorded, type, decoded, Option.map_some,
              Option.toList_some, MaxMap.raiseAll_cons, MaxMap.raiseAll_nil]
            exact seqMap_insertSyncNode _ _ _
          cases hint : state.locator with
          | none =>
              simp only [decoded, type, hint, Option.some.injEq] at applied
              subst applied
              exact ⟨grown, sameMap⟩
          | some locator =>
              cases locatorName : ndn.ofString locator with
              | none => simp [decoded, type, hint, locatorName] at applied
              | some locatorName =>
                  simp only [decoded, type, hint, locatorName,
                    Option.map_some, Option.some.injEq] at applied
                  subst applied
                  refine ⟨grown.trans (SyncLog.updateLocator_grown
                    (grown.wellFormed wellFormed) _ _), ?_⟩
                  rw [← sameMap]
                  exact seqMap_updateLocator _ _ _

theorem applyStates_spec {log updated : SyncLog Name} {msg : SyncStateMsg}
    (wellFormed : SyncLog.WellFormed ndn sha256 log)
    (applied : applyStates ndn log msg = some updated) :
    SyncLog.Grown ndn log updated ∧
      updated.db.seqMap =
        log.db.seqMap.raiseAll (msg.filterMap (recorded ndn)) := by
  induction msg generalizing log with
  | nil =>
      obtain rfl : log = updated := by simpa [applyStates] using applied
      exact ⟨.refl wellFormed, rfl⟩
  | cons state states induction =>
      cases first : applyState ndn log state with
      | none => simp [applyStates, first] at applied
      | some middle =>
          simp only [applyStates, first] at applied
          obtain ⟨grown, headMap⟩ := applyState_spec wellFormed first
          obtain ⟨laterGrown, tailMap⟩ :=
            induction (grown.wellFormed wellFormed) applied
          refine ⟨grown.trans laterGrown, ?_⟩
          rw [tailMap, headMap, List.filterMap_cons]
          cases recorded ndn state with
          | none => rfl
          | some entry => rfl

/-- The log is well formed and knows the root. -/
structure WellFormed (platform : Platform Name) (core : SyncCore Name) :
    Prop where
  log : SyncLog.WellFormed platform.ndn platform.sha256 core.log
  root : core.log.db.Logged core.rootHash

/-- The map the root hash stands for. -/
def rootMap (core : SyncCore Name) : MaxMap Bytes Int64 :=
  core.log.db.snapshot core.rootHash

def seqMap (core : SyncCore Name) : MaxMap Bytes Int64 :=
  core.log.db.seqMap

variable {platform : Platform Name} {core : SyncCore Name}

theorem WellFormed.of_grown (wellFormed : core.WellFormed platform)
    {log : SyncLog Name} (grown : SyncLog.Grown platform.ndn core.log log) :
    WellFormed platform { core with log } where
  log := grown.wellFormed wellFormed.log
  root := (grown.db.logged_iff core.rootHash).mpr wellFormed.root

theorem rootMap_of_grown (wellFormed : core.WellFormed platform)
    {log : SyncLog Name} (grown : SyncLog.Grown platform.ndn core.log log) :
    ({ core with log } : SyncCore Name).rootMap = core.rootMap :=
  grown.db.snapshot_eq wellFormed.log.db core.rootHash

theorem rememberRoot_wellFormed
    (wellFormed : SyncLog.WellFormed platform.ndn platform.sha256 core.log) :
    (core.rememberRoot platform).WellFormed platform where
  log := wellFormed.remember
  root := logged_remember_iff.mpr (Or.inr rfl)

@[simp] theorem rememberRoot_seqMap :
    (core.rememberRoot platform).seqMap = core.seqMap :=
  rfl

theorem rememberRoot_rootMap
    (wellFormed : SyncLog.WellFormed platform.ndn platform.sha256 core.log) :
    (core.rememberRoot platform).rootMap = core.seqMap :=
  snapshot_remember_digest wellFormed.db

@[simp] theorem rememberRoot_localName :
    (core.rememberRoot platform).log.localName = core.log.localName :=
  rfl

theorem logged_rememberRoot {stateHash : Hash}
    (logged : core.log.db.Logged stateHash) :
    (core.rememberRoot platform).log.db.Logged stateHash :=
  logged_remember_iff.mpr (Or.inl logged)

theorem snapshot_rememberRoot (selfDelimiting : SelfDelimiting platform.ndn.wire)
    (collisionFree : CollisionFree platform.sha256)
    (wellFormed : SyncLog.WellFormed platform.ndn platform.sha256 core.log)
    {stateHash : Hash} (logged : core.log.db.Logged stateHash) :
    (core.rememberRoot platform).log.db.snapshot stateHash =
      core.log.db.snapshot stateHash :=
  snapshot_remember_of_logged selfDelimiting collisionFree wellFormed.db logged

theorem construct_wellFormed {log : SyncLog Name}
    (wellFormed : SyncLog.WellFormed platform.ndn platform.sha256 log)
    (localPrefix syncPrefix : Name) :
    (construct platform log localPrefix syncPrefix).WellFormed platform := by
  have remembered : ({ log, syncPrefix, rootHash := Hash.origin } :
      SyncCore Name).rememberRoot platform |>.WellFormed platform :=
    rememberRoot_wellFormed wellFormed
  exact remembered.of_grown
    (SyncLog.updateLocator_grown remembered.log _ localPrefix)

theorem construct_rootMap {log : SyncLog Name}
    (wellFormed : SyncLog.WellFormed platform.ndn platform.sha256 log)
    (localPrefix syncPrefix : Name) :
    (construct platform log localPrefix syncPrefix).rootMap = log.db.seqMap := by
  have remembered : ({ log, syncPrefix, rootHash := Hash.origin } :
      SyncCore Name).rememberRoot platform |>.WellFormed platform :=
    rememberRoot_wellFormed wellFormed
  calc (construct platform log localPrefix syncPrefix).rootMap
      = (({ log, syncPrefix, rootHash := Hash.origin } :
          SyncCore Name).rememberRoot platform).rootMap :=
        rootMap_of_grown remembered
          (SyncLog.updateLocator_grown remembered.log _ localPrefix)
    _ = log.db.seqMap := rememberRoot_rootMap wellFormed

theorem construct_seqMap (platform : Platform Name) (log : SyncLog Name)
    (localPrefix syncPrefix : Name) :
    (construct platform log localPrefix syncPrefix).seqMap = log.db.seqMap :=
  seqMap_updateLocator _ _ _

theorem handleStateData_cases {handled : SyncCore Name} {content : Bytes} {effects : List (Effect Name)}
    (done : core.handleStateData platform content = some (handled, effects)) :
    (platform.deserializeGZipMsg content = none ∧ handled = core ∧
      effects = []) ∨
    ∃ msg log, platform.deserializeGZipMsg content = some msg ∧
      applyStates platform.ndn core.log msg = some log ∧
      handled = rememberRoot platform { core with log } ∧
      effects = callbackOn (handled.differencesSince core.rootHash) := by
  unfold handleStateData at done
  cases parsed : platform.deserializeGZipMsg content with
  | none =>
      simp only [parsed, Option.some.injEq, Prod.mk.injEq] at done
      exact Or.inl ⟨rfl, done.1.symm, done.2.symm⟩
  | some msg =>
      cases applied : applyStates platform.ndn core.log msg with
      | none => simp [parsed, applied] at done
      | some log =>
          simp only [parsed, applied, Option.some.injEq,
            Prod.mk.injEq] at done
          refine Or.inr ⟨msg, log, rfl, applied, done.1.symm, ?_⟩
          rw [← done.1]
          exact done.2.symm

theorem handleStateData_wellFormed (wellFormed : core.WellFormed platform)
    {content : Bytes} {handled : SyncCore Name} {effects : List (Effect Name)}
    (done : core.handleStateData platform content = some (handled, effects)) :
    handled.WellFormed platform := by
  rcases handleStateData_cases done with
    ⟨-, same, -⟩ | ⟨msg, log, -, applied, same, -⟩
  · exact same ▸ wellFormed
  · rw [same]
    apply rememberRoot_wellFormed
    exact (applyStates_spec wellFormed.log applied).1.wellFormed wellFormed.log

theorem Reachable.wellFormed (reachable : Reachable platform core) :
    core.WellFormed platform := by
  induction reachable with
  | construct localPrefix syncPrefix opened =>
      exact construct_wellFormed opened.wellFormed localPrefix syncPrefix
  | localAction _ consumed induction =>
      obtain ⟨same, -⟩ :=
        SyncLog.getNextLocalSeqNo_spec induction.log consumed
      rw [same]
      exact induction.of_grown
        (SyncLog.updateLocalSeqNo_grown induction.log _)
  | localStateChanged _ induction =>
      exact rememberRoot_wellFormed induction.log
  | updateLocalState seqNo _ induction =>
      apply rememberRoot_wellFormed
      exact (SyncLog.updateLocalSeqNo_grown induction.log seqNo).wellFormed
        induction.log
  | @handleData core handled content effects _ done induction =>
      unfold SyncCore.handleData at done
      split_ifs at done with empty
      · obtain ⟨rfl, -⟩ : core = handled ∧ _ := by simpa using done
        exact induction
      · obtain ⟨⟨target, produced⟩, inner, same⟩ :=
          Option.map_eq_some_iff.mp done
        simp only [Prod.mk.injEq] at same
        rw [← same.1]
        exact handleStateData_wellFormed induction inner

end SyncCore

end ChronoShare
