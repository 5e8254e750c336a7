import ChronoShare.Support.Run
import ChronoShare.SyncCore.MessageFormat
import ChronoShare.SyncCore.Reports

/-!
# Two threads on one core

The face thread handles received messages and the scheduler's thread announces
local changes; they share the log and the root without a lock.  Each statement
that touches the shared state is one step.  A run reports every number of a
remote device exactly once as long as no announcement remembers a state into
which a message is being applied.
-/

namespace ChronoShare

namespace SyncCore

open SyncDb

/-- Where the face thread stands in `handleStateData`. -/
inductive FacePoint where
  | idle
  | applying (rest : SyncStateMsg)
  | rootRead (oldHash : Hash)
  | rootStored (oldHash : Hash)
  deriving DecidableEq, Repr

/-- Where the scheduler's thread stands in `localStateChanged`. -/
inductive SchedulerPoint where
  | idle
  | rootRead (oldHash : Hash)
  | rootStored (oldHash : Hash)
  deriving DecidableEq, Repr

structure Threads (Name : Type) where
  core : SyncCore Name
  face : FacePoint
  scheduler : SchedulerPoint
  effects : List (Effect Name)

inductive ThreadStep where
  | receive (content : Bytes)
  | applyState
  | readRoot
  | storeRoot
  | report
  | announceReadRoot
  | announceStoreRoot
  | announcePublish
  | localAction
  deriving DecidableEq, Repr

section Steps

variable {Name : Type} (platform : Platform Name)

/-- The step a thread takes next, `none` when it is not its turn or the step
throws. -/
def Threads.step (threads : Threads Name) :
    ThreadStep → Option (Threads Name)
  | .receive content =>
      match threads.face with
      | .idle =>
          match platform.deserializeGZipMsg content with
          | none => some threads
          | some msg => some { threads with face := .applying msg }
      | _ => none
  | .applyState =>
      match threads.face with
      | .applying (state :: rest) =>
          (SyncCore.applyState platform.ndn threads.core.log state).map fun log =>
            { threads with
              core := { threads.core with log }
              face := .applying rest }
      | _ => none
  | .readRoot =>
      match threads.face with
      | .applying [] =>
          some { threads with face := .rootRead threads.core.rootHash }
      | _ => none
  | .storeRoot =>
      match threads.face with
      | .rootRead oldHash =>
          some { threads with
            core := threads.core.rememberRoot platform
            face := .rootStored oldHash }
      | _ => none
  | .report =>
      match threads.face with
      | .rootStored oldHash =>
          some { threads with
            face := .idle
            effects := threads.effects ++
              callbackOn (threads.core.differencesSince oldHash) }
      | _ => none
  | .announceReadRoot =>
      match threads.scheduler with
      | .idle =>
          some { threads with scheduler := .rootRead threads.core.rootHash }
      | _ => none
  | .announceStoreRoot =>
      match threads.scheduler with
      | .rootRead oldHash =>
          some { threads with
            core := threads.core.rememberRoot platform
            scheduler := .rootStored oldHash }
      | _ => none
  | .announcePublish =>
      match threads.scheduler with
      | .rootStored oldHash =>
          let msg := threads.core.log.db.findStateDifferences oldHash
            threads.core.rootHash
          let syncName := platform.ndn.append threads.core.syncPrefix oldHash
          some { threads with
            scheduler := .idle
            effects := threads.effects ++
              [.put (composeData platform syncName msg),
                .scheduleSyncInterest] }
      | _ => none
  | .localAction =>
      (threads.core.log.getNextLocalSeqNo).map fun consumed =>
        { threads with core := { threads.core with log := consumed.2 } }

def Threads.Step (source : Threads Name) (label : ThreadStep)
    (target : Threads Name) : Prop :=
  source.step platform label = some target

/-- Both threads wait on a core that has just been constructed. -/
def Threads.initial (core : SyncCore Name) : Threads Name :=
  ⟨core, .idle, .idle, []⟩

/-- The numbers of a received message are below 2^63. -/
def SmallNumbers (label : ThreadStep) : Prop :=
  ∀ content msg, label = .receive content →
    platform.deserializeGZipMsg content = some msg →
      ∀ state ∈ msg, (state.seq.getD 0).toNat < 2 ^ 63

/-- An announcement remembers the state while a message is being applied only
if no remote device is above the root. -/
def Undisturbed (threads : Threads Name) (label : ThreadStep) : Prop :=
  label = .announceStoreRoot → ∀ rest, threads.face = .applying rest →
    ∀ name, name ≠ platform.ndn.wire threads.core.log.localName →
      threads.core.rootMap name = threads.core.seqMap name

/-- Whenever no message is being handled, what was reported of each remote
device are its numbers above `base`, each exactly once. -/
def ReportedExactly (base : MaxMap Bytes Int64) (threads : Threads Name) :
    Prop :=
  ∀ name, name ≠ platform.ndn.wire threads.core.log.localName →
    let ranges := rangesOf name (reportsOf threads.effects)
    ranges.Pairwise (fun first second =>
      Disjoint (Set.Ioc first.1 first.2) (Set.Ioc second.1 second.2)) ∧
    (threads.face = .idle → threads.scheduler = .idle →
      ∀ number, (∃ range ∈ ranges, number ∈ Set.Ioc range.1 range.2) ↔
        number ∈ Set.Ioc (numberOf (base name))
          (numberOf (threads.core.seqMap name)))

end Steps

section Invariant

variable {Name : Type} {platform : Platform Name}

/-- The map up to which everything was reported: that of the root, or of the
root that the handler read before storing a newer one. -/
def reportedMap (threads : Threads Name) : MaxMap Bytes Int64 :=
  match threads.face with
  | .idle => threads.core.rootMap
  | .applying _ => threads.core.rootMap
  | .rootRead oldHash => threads.core.log.db.snapshot oldHash
  | .rootStored oldHash => threads.core.log.db.snapshot oldHash

/-- The root has caught up with every remote device. -/
def CaughtUp (platform : Platform Name) (core : SyncCore Name) : Prop :=
  ∀ name, name ≠ platform.ndn.wire core.log.localName →
    core.rootMap name = core.seqMap name

structure Threads.Invariant (platform : Platform Name)
    (base : MaxMap Bytes Int64) (threads : Threads Name) : Prop where
  wellFormed : threads.core.WellFormed platform
  nonneg : NonnegMap threads.core.seqMap
  rootNonneg : NonnegMap threads.core.rootMap
  reportedNonneg : NonnegMap (reportedMap threads)
  idle : threads.face = .idle → CaughtUp platform threads.core
  applying : ∀ rest, threads.face = .applying rest →
    ∀ state ∈ rest, (state.seq.getD 0).toNat < 2 ^ 63
  rootRead : ∀ oldHash, threads.face = .rootRead oldHash →
    threads.core.log.db.Logged oldHash
  rootStored : ∀ oldHash, threads.face = .rootStored oldHash →
    threads.core.log.db.Logged oldHash ∧ CaughtUp platform threads.core
  tiles : ∀ name, name ≠ platform.ndn.wire threads.core.log.localName →
    Tiles (numberOf (base name)) (rangesOf name (reportsOf threads.effects))
      (numberOf (reportedMap threads name))

theorem toInt64_nonneg {number : UInt64} (small : number.toNat < 2 ^ 63) :
    0 ≤ number.toInt64 := by
  have unsigned : number.toInt64 = Int64.ofNat number.toNat := by
    rw [← UInt64.toInt64_ofNat', UInt64.ofNat_toNat]
  rw [unsigned, Int64.le_iff_toInt_le, Int64.toInt_ofNat_of_lt small]
  exact Int.natCast_nonneg _

theorem nonneg_applyState {core : SyncCore Name} {log : SyncLog Name}
    {state : SyncState} (wellFormed : core.WellFormed platform)
    (nonneg : NonnegMap core.seqMap)
    (small : (state.seq.getD 0).toNat < 2 ^ 63)
    (applied : SyncCore.applyState platform.ndn core.log state = some log) :
    NonnegMap log.db.seqMap := by
  rw [(applyState_spec wellFormed.log applied).2]
  apply NonnegMap.raiseAll nonneg
  intro entry member
  unfold recorded at member
  cases type : state.type with
  | delete => simp [type] at member
  | update =>
      simp only [type, Option.mem_toList, Option.map_eq_some_iff] at member
      obtain ⟨_, _, same⟩ := member
      rw [← same]
      exact toInt64_nonneg small

theorem caughtUp_rememberRoot {core : SyncCore Name}
    (wellFormed : core.WellFormed platform) :
    CaughtUp platform (core.rememberRoot platform) := by
  intro name _
  rw [rememberRoot_rootMap wellFormed.log, rememberRoot_seqMap]

theorem seqMap_localAction {core : SyncCore Name}
    (wellFormed : core.WellFormed platform) {seqNo : Int64}
    {log : SyncLog Name}
    (consumed : core.log.getNextLocalSeqNo = some (seqNo, log)) :
    SyncLog.Grown platform.ndn core.log log ∧
      log.db.seqMap =
        core.seqMap.raise (platform.ndn.wire core.log.localName) seqNo := by
  obtain ⟨same, -⟩ :=
    SyncLog.getNextLocalSeqNo_spec wellFormed.log consumed
  rw [same]
  exact ⟨SyncLog.updateLocalSeqNo_grown wellFormed.log seqNo,
    SyncLog.seqMap_updateLocalSeqNo wellFormed.log seqNo⟩

variable {base : MaxMap Bytes Int64} {source target : Threads Name}

theorem invariant_receive {content : Bytes}
    (small : SmallNumbers platform (.receive content))
    (taken : source.Step platform (.receive content) target)
    (invariant : source.Invariant platform base) :
    target.Invariant platform base := by
  unfold Threads.Step Threads.step at taken
  cases face : source.face with
  | idle =>
      cases parsed : platform.deserializeGZipMsg content with
      | none =>
          simp only [face, parsed, Option.some.injEq] at taken
          exact taken ▸ invariant
      | some msg =>
          simp only [face, parsed, Option.some.injEq] at taken
          subst taken
          have tiles := invariant.tiles
          simp only [reportedMap, face] at tiles
          exact {
            wellFormed := invariant.wellFormed
            nonneg := invariant.nonneg
            rootNonneg := invariant.rootNonneg
            reportedNonneg := invariant.rootNonneg
            idle := nofun
            applying := by
              intro rest same
              cases same
              exact small content msg rfl parsed
            rootRead := nofun
            rootStored := nofun
            tiles := tiles }
  | applying rest => simp [face] at taken
  | rootRead oldHash => simp [face] at taken
  | rootStored oldHash => simp [face] at taken

theorem invariant_applyState
    (taken : source.Step platform .applyState target)
    (invariant : source.Invariant platform base) :
    target.Invariant platform base := by
  unfold Threads.Step Threads.step at taken
  cases face : source.face with
  | applying rest =>
      cases rest with
      | nil => simp [face] at taken
      | cons state rest =>
          simp only [face, Option.map_eq_some_iff] at taken
          obtain ⟨log, applied, same⟩ := taken
          subst same
          have grown := (applyState_spec invariant.wellFormed.log applied).1
          have small := invariant.applying _ face
          have sameRoot := rootMap_of_grown invariant.wellFormed grown
          have tiles := invariant.tiles
          simp only [reportedMap, face] at tiles
          exact {
            wellFormed := invariant.wellFormed.of_grown grown
            nonneg := nonneg_applyState invariant.wellFormed invariant.nonneg
              (small state (by simp)) applied
            rootNonneg := sameRoot ▸ invariant.rootNonneg
            reportedNonneg := by
              simp only [reportedMap]
              rw [sameRoot]
              exact invariant.rootNonneg
            idle := nofun
            applying := by
              intro others same other member
              cases same
              exact small other (List.mem_cons_of_mem _ member)
            rootRead := nofun
            rootStored := nofun
            tiles := by
              intro name remote
              simp only [reportedMap]
              rw [sameRoot]
              apply tiles name
              rwa [← grown.localName] }
  | idle => simp [face] at taken
  | rootRead oldHash => simp [face] at taken
  | rootStored oldHash => simp [face] at taken

theorem invariant_readRoot
    (taken : source.Step platform .readRoot target)
    (invariant : source.Invariant platform base) :
    target.Invariant platform base := by
  unfold Threads.Step Threads.step at taken
  cases face : source.face with
  | applying rest =>
      cases rest with
      | cons state rest => simp [face] at taken
      | nil =>
          simp only [face, Option.some.injEq] at taken
          subst taken
          have tiles := invariant.tiles
          simp only [reportedMap, face] at tiles
          exact {
            wellFormed := invariant.wellFormed
            nonneg := invariant.nonneg
            rootNonneg := invariant.rootNonneg
            reportedNonneg := invariant.rootNonneg
            idle := nofun
            applying := nofun
            rootRead := by
              intro oldHash same
              cases same
              exact invariant.wellFormed.root
            rootStored := nofun
            tiles := tiles }
  | idle => simp [face] at taken
  | rootRead oldHash => simp [face] at taken
  | rootStored oldHash => simp [face] at taken

theorem invariant_storeRoot (selfDelimiting : SelfDelimiting platform.ndn.wire)
    (collisionFree : CollisionFree platform.sha256)
    (taken : source.Step platform .storeRoot target)
    (invariant : source.Invariant platform base) :
    target.Invariant platform base := by
  unfold Threads.Step Threads.step at taken
  cases face : source.face with
  | rootRead oldHash =>
      simp only [face, Option.some.injEq] at taken
      subst taken
      have logged := invariant.rootRead oldHash face
      have kept := snapshot_rememberRoot selfDelimiting collisionFree
        invariant.wellFormed.log logged
      have tiles := invariant.tiles
      have reportedNonneg := invariant.reportedNonneg
      simp only [reportedMap, face] at tiles reportedNonneg
      exact {
        wellFormed := rememberRoot_wellFormed invariant.wellFormed.log
        nonneg := invariant.nonneg
        rootNonneg := by
          rw [rememberRoot_rootMap invariant.wellFormed.log]
          exact invariant.nonneg
        reportedNonneg := by
          simp only [reportedMap]
          rwa [kept]
        idle := nofun
        applying := nofun
        rootRead := nofun
        rootStored := by
          intro stored same
          cases same
          exact ⟨logged_rememberRoot logged,
            caughtUp_rememberRoot invariant.wellFormed⟩
        tiles := by
          intro name remote
          simp only [reportedMap]
          rw [kept]
          exact tiles name remote }
  | idle => simp [face] at taken
  | applying rest => simp [face] at taken
  | rootStored oldHash => simp [face] at taken

/-- The report continues the tiling from the root read before to the root
stored since. -/
theorem invariant_report
    (taken : source.Step platform .report target)
    (invariant : source.Invariant platform base) :
    target.Invariant platform base := by
  unfold Threads.Step Threads.step at taken
  cases face : source.face with
  | rootStored oldHash =>
      simp only [face, Option.some.injEq] at taken
      subst taken
      obtain ⟨-, caughtUp⟩ := invariant.rootStored oldHash face
      have db := invariant.wellFormed.log.db
      have below := snapshot_le_seqMap db oldHash
      have tiles := invariant.tiles
      have reportedNonneg := invariant.reportedNonneg
      simp only [reportedMap, face] at tiles reportedNonneg
      exact {
        wellFormed := invariant.wellFormed
        nonneg := invariant.nonneg
        rootNonneg := invariant.rootNonneg
        reportedNonneg := invariant.rootNonneg
        idle := fun _ => caughtUp
        applying := nofun
        rootRead := nofun
        rootStored := nofun
        tiles := by
          intro name remote
          simp only [reportedMap]
          rw [reportsOf_append, rangesOf_append, rangesOf_callbackOn,
            ← rangesOf_append]
          apply tiles_report db _ (reportedNonneg name) (tiles name remote)
          change _ ≤ source.core.rootMap name
          rw [caughtUp name remote]
          exact below name }
  | idle => simp [face] at taken
  | applying rest => simp [face] at taken
  | rootRead oldHash => simp [face] at taken

theorem invariant_of_scheduler (scheduler : SchedulerPoint)
    (effects : List (Effect Name)) (silent : reportsOf effects = [])
    (invariant : source.Invariant platform base) :
    Threads.Invariant platform base
      { source with scheduler, effects := source.effects ++ effects } where
  wellFormed := invariant.wellFormed
  nonneg := invariant.nonneg
  rootNonneg := invariant.rootNonneg
  reportedNonneg := invariant.reportedNonneg
  idle := invariant.idle
  applying := invariant.applying
  rootRead := invariant.rootRead
  rootStored := invariant.rootStored
  tiles := by
    intro name remote
    rw [reportsOf_append, silent, List.append_nil]
    exact invariant.tiles name remote

/-- Storing the root elsewhere does not move what was reported of a remote
device, unless a message is being applied. -/
theorem reportedMap_announceStoreRoot
    (selfDelimiting : SelfDelimiting platform.ndn.wire)
    (collisionFree : CollisionFree platform.sha256)
    (undisturbed : Undisturbed platform source .announceStoreRoot)
    (invariant : source.Invariant platform base) {name : Bytes}
    (remote : name ≠ platform.ndn.wire source.core.log.localName)
    (scheduler : SchedulerPoint) :
    reportedMap { source with
      core := source.core.rememberRoot platform, scheduler } name =
        reportedMap source name := by
  have current := rememberRoot_rootMap invariant.wellFormed.log
  cases face : source.face with
  | idle =>
      simp only [reportedMap, face, current]
      exact (invariant.idle face name remote).symm
  | applying rest =>
      simp only [reportedMap, face, current]
      exact (undisturbed rfl rest face name remote).symm
  | rootRead oldHash =>
      simp only [reportedMap, face]
      rw [snapshot_rememberRoot selfDelimiting collisionFree
        invariant.wellFormed.log (invariant.rootRead oldHash face)]
  | rootStored oldHash =>
      simp only [reportedMap, face]
      rw [snapshot_rememberRoot selfDelimiting collisionFree
        invariant.wellFormed.log (invariant.rootStored oldHash face).1]

theorem reportedNonneg_announceStoreRoot
    (selfDelimiting : SelfDelimiting platform.ndn.wire)
    (collisionFree : CollisionFree platform.sha256)
    (invariant : source.Invariant platform base)
    (scheduler : SchedulerPoint) :
    NonnegMap (reportedMap { source with
      core := source.core.rememberRoot platform, scheduler }) := by
  have current := rememberRoot_rootMap invariant.wellFormed.log
  have earlier := invariant.reportedNonneg
  cases face : source.face with
  | idle =>
      simp only [reportedMap, current]
      exact invariant.nonneg
  | applying rest =>
      simp only [reportedMap, current]
      exact invariant.nonneg
  | rootRead oldHash =>
      simp only [reportedMap, face] at earlier ⊢
      rwa [snapshot_rememberRoot selfDelimiting collisionFree
        invariant.wellFormed.log (invariant.rootRead oldHash face)]
  | rootStored oldHash =>
      simp only [reportedMap, face] at earlier ⊢
      rwa [snapshot_rememberRoot selfDelimiting collisionFree
        invariant.wellFormed.log (invariant.rootStored oldHash face).1]

theorem invariant_announceStoreRoot
    (selfDelimiting : SelfDelimiting platform.ndn.wire)
    (collisionFree : CollisionFree platform.sha256)
    (undisturbed : Undisturbed platform source .announceStoreRoot)
    (taken : source.Step platform .announceStoreRoot target)
    (invariant : source.Invariant platform base) :
    target.Invariant platform base := by
  unfold Threads.Step Threads.step at taken
  cases scheduler : source.scheduler with
  | rootRead oldHash =>
      simp only [scheduler, Option.some.injEq] at taken
      subst taken
      exact {
        wellFormed := rememberRoot_wellFormed invariant.wellFormed.log
        nonneg := invariant.nonneg
        rootNonneg := by
          rw [rememberRoot_rootMap invariant.wellFormed.log]
          exact invariant.nonneg
        reportedNonneg := reportedNonneg_announceStoreRoot selfDelimiting
          collisionFree invariant _
        idle := fun _ => caughtUp_rememberRoot invariant.wellFormed
        applying := invariant.applying
        rootRead := by
          intro stored face
          exact logged_rememberRoot (invariant.rootRead stored face)
        rootStored := by
          intro stored face
          exact ⟨logged_rememberRoot (invariant.rootStored stored face).1,
            caughtUp_rememberRoot invariant.wellFormed⟩
        tiles := by
          intro name remote
          rw [reportedMap_announceStoreRoot selfDelimiting collisionFree
            undisturbed invariant remote]
          exact invariant.tiles name remote }
  | idle => simp [scheduler] at taken
  | rootStored oldHash => simp [scheduler] at taken

theorem invariant_announceReadRoot
    (taken : source.Step platform .announceReadRoot target)
    (invariant : source.Invariant platform base) :
    target.Invariant platform base := by
  unfold Threads.Step Threads.step at taken
  cases scheduler : source.scheduler with
  | idle =>
      simp only [scheduler, Option.some.injEq] at taken
      subst taken
      have kept := invariant_of_scheduler
        (.rootRead source.core.rootHash) [] rfl invariant
      rwa [List.append_nil] at kept
  | rootRead oldHash => simp [scheduler] at taken
  | rootStored oldHash => simp [scheduler] at taken

theorem invariant_announcePublish
    (taken : source.Step platform .announcePublish target)
    (invariant : source.Invariant platform base) :
    target.Invariant platform base := by
  unfold Threads.Step Threads.step at taken
  cases scheduler : source.scheduler with
  | rootStored oldHash =>
      simp only [scheduler, Option.some.injEq] at taken
      subst taken
      exact invariant_of_scheduler _ _ rfl invariant
  | idle => simp [scheduler] at taken
  | rootRead oldHash => simp [scheduler] at taken

theorem invariant_localAction
    (taken : source.Step platform .localAction target)
    (invariant : source.Invariant platform base) :
    target.Invariant platform base := by
  unfold Threads.Step Threads.step at taken
  simp only [Option.map_eq_some_iff] at taken
  obtain ⟨⟨seqNo, log⟩, consumed, same⟩ := taken
  subst same
  obtain ⟨grown, moved⟩ := seqMap_localAction invariant.wellFormed consumed
  obtain ⟨-, current, known, -⟩ :=
    SyncLog.getNextLocalSeqNo_spec invariant.wellFormed.log consumed
  have sameRoot := rootMap_of_grown invariant.wellFormed grown
  have sameReported (name : Bytes) : reportedMap { source with
      core := { source.core with log } } name = reportedMap source name := by
    cases face : source.face with
    | idle => simp only [reportedMap, face, sameRoot]
    | applying rest => simp only [reportedMap, face, sameRoot]
    | rootRead oldHash =>
        simp only [reportedMap, face]
        rw [grown.db.snapshot_eq invariant.wellFormed.log.db]
    | rootStored oldHash =>
        simp only [reportedMap, face]
        rw [grown.db.snapshot_eq invariant.wellFormed.log.db]
  have stillCaughtUp (caughtUp : CaughtUp platform source.core) :
      CaughtUp platform { source.core with log } := by
    intro name remote
    rw [grown.localName] at remote
    rw [sameRoot, caughtUp name remote]
    change _ = log.db.seqMap name
    rw [moved, MaxMap.raise_of_ne _ remote]
  exact {
    wellFormed := invariant.wellFormed.of_grown grown
    nonneg := by
      change NonnegMap log.db.seqMap
      rw [moved]
      exact invariant.nonneg.raise (Or.inr ⟨current, known⟩)
    rootNonneg := sameRoot ▸ invariant.rootNonneg
    reportedNonneg := by
      intro name seqNo stored
      rw [sameReported] at stored
      exact invariant.reportedNonneg name seqNo stored
    idle := fun face => stillCaughtUp (invariant.idle face)
    applying := invariant.applying
    rootRead := by
      intro oldHash face
      exact (grown.db.logged_iff oldHash).mpr (invariant.rootRead oldHash face)
    rootStored := by
      intro oldHash face
      obtain ⟨logged, caughtUp⟩ := invariant.rootStored oldHash face
      exact ⟨(grown.db.logged_iff oldHash).mpr logged,
        stillCaughtUp caughtUp⟩
    tiles := by
      intro name remote
      rw [sameReported]
      apply invariant.tiles name
      rwa [← grown.localName] }

theorem Threads.Step.invariant
    (selfDelimiting : SelfDelimiting platform.ndn.wire)
    (collisionFree : CollisionFree platform.sha256) {label : ThreadStep}
    (small : SmallNumbers platform label)
    (undisturbed : Undisturbed platform source label)
    (taken : source.Step platform label target)
    (invariant : source.Invariant platform base) :
    target.Invariant platform base := by
  cases label with
  | receive content => exact invariant_receive small taken invariant
  | applyState => exact invariant_applyState taken invariant
  | readRoot => exact invariant_readRoot taken invariant
  | storeRoot =>
      exact invariant_storeRoot selfDelimiting collisionFree taken invariant
  | report => exact invariant_report taken invariant
  | announceReadRoot => exact invariant_announceReadRoot taken invariant
  | announceStoreRoot =>
      exact invariant_announceStoreRoot selfDelimiting collisionFree
        undisturbed taken invariant
  | announcePublish => exact invariant_announcePublish taken invariant
  | localAction => exact invariant_localAction taken invariant

theorem invariant_initial {log : SyncLog Name}
    (reachable : SyncLog.Reachable platform.ndn platform.sha256 log)
    (nonneg : NonnegMap log.db.seqMap) (localPrefix syncPrefix : Name) :
    (Threads.initial (construct platform log localPrefix
      syncPrefix)).Invariant platform log.db.seqMap := by
  have root := construct_rootMap reachable.wellFormed localPrefix syncPrefix
  have current := construct_seqMap platform log localPrefix syncPrefix
  exact {
    wellFormed := construct_wellFormed reachable.wellFormed _ _
    nonneg := by
      change NonnegMap (construct platform log localPrefix syncPrefix).seqMap
      rwa [current]
    rootNonneg := by
      change NonnegMap (construct platform log localPrefix syncPrefix).rootMap
      rwa [root]
    reportedNonneg := by
      change NonnegMap (construct platform log localPrefix syncPrefix).rootMap
      rwa [root]
    idle := by
      intro _ name _
      change (construct platform log localPrefix syncPrefix).rootMap name =
        (construct platform log localPrefix syncPrefix).seqMap name
      rw [root, current]
    applying := nofun
    rootRead := nofun
    rootStored := nofun
    tiles := by
      intro name _
      change Tiles _ [] (numberOf
        ((construct platform log localPrefix syncPrefix).rootMap name))
      rw [root]
      exact .nil }

theorem Threads.Invariant.reportedExactly
    (invariant : source.Invariant platform base) :
    ReportedExactly platform base source := by
  intro name remote
  have tiles := invariant.tiles name remote
  refine ⟨tiles.disjoint, ?_⟩
  intro face _
  have caughtUp := invariant.idle face name remote
  simp only [reportedMap, face, caughtUp] at tiles
  exact tiles.covers

/-- In every run in which no announcement remembers a state into which a
message is being applied, each number of a remote device is reported exactly
once. -/
theorem undisturbed_run_reports_exactly
    (selfDelimiting : SelfDelimiting platform.ndn.wire)
    (collisionFree : CollisionFree platform.sha256) {log : SyncLog Name}
    (reachable : SyncLog.Reachable platform.ndn platform.sha256 log)
    (nonneg : NonnegMap log.db.seqMap) {localPrefix syncPrefix : Name}
    {trace : List (Threads Name × ThreadStep)} {final : Threads Name}
    (run : Run (Threads.Step platform)
      (Threads.initial (construct platform log localPrefix syncPrefix))
      trace final)
    (small : ∀ taken ∈ trace, SmallNumbers platform taken.2)
    (undisturbed : ∀ taken ∈ trace, Undisturbed platform taken.1 taken.2) :
    ReportedExactly platform log.db.seqMap final := by
  have invariant : final.Invariant platform log.db.seqMap := by
    apply run.invariant_of_steps (fun source label =>
      SmallNumbers platform label ∧ Undisturbed platform source label)
    · intro taken member
      exact ⟨small taken member, undisturbed taken member⟩
    · exact invariant_initial reachable nonneg localPrefix syncPrefix
    · intro source label target conditions taken
      exact taken.invariant selfDelimiting collisionFree conditions.1
        conditions.2
  exact invariant.reportedExactly

theorem run_applying {core : SyncCore Name} {msg : SyncStateMsg}
    {log : SyncLog Name}
    (applied : applyStates platform.ndn core.log msg = some log)
    (scheduler : SchedulerPoint) (effects : List (Effect Name)) :
    ∃ trace, Run (Threads.Step platform)
      ⟨core, .applying msg, scheduler, effects⟩ trace
      ⟨{ core with log }, .applying [], scheduler, effects⟩ := by
  induction msg generalizing core with
  | nil =>
      obtain rfl : core.log = log := by simpa [applyStates] using applied
      exact ⟨[], .nil⟩
  | cons state states induction =>
      cases first : SyncCore.applyState platform.ndn core.log state with
      | none => simp [applyStates, first] at applied
      | some middle =>
          simp only [applyStates, first] at applied
          obtain ⟨trace, later⟩ := @induction { core with log := middle } applied
          have head : Run (Threads.Step platform)
              ⟨core, .applying (state :: states), scheduler, effects⟩
              [(⟨core, .applying (state :: states), scheduler, effects⟩,
                .applyState)]
              ⟨{ core with log := middle }, .applying states, scheduler,
                effects⟩ := by
            apply Run.snoc .nil
            simp [Threads.Step, Threads.step, first]
          exact ⟨_, head.append later⟩

/-- The steps of the face thread, with no other step between them, amount to
`handleStateData`. -/
theorem run_handleStateData {core handled : SyncCore Name} {content : Bytes}
    {produced : List (Effect Name)}
    (done : core.handleStateData platform content = some (handled, produced))
    (scheduler : SchedulerPoint) (effects : List (Effect Name)) :
    ∃ trace, Run (Threads.Step platform)
      ⟨core, .idle, scheduler, effects⟩ trace
      ⟨handled, .idle, scheduler, effects ++ produced⟩ := by
  rcases handleStateData_cases done with
    ⟨unparsed, same, silent⟩ | ⟨msg, log, parsed, applied, same, reports⟩
  · subst same silent
    have ignored : Threads.Step platform
        ⟨handled, .idle, scheduler, effects⟩ (.receive content)
        ⟨handled, .idle, scheduler, effects ++ []⟩ := by
      simp [Threads.Step, Threads.step, unparsed]
    exact ⟨_, .snoc .nil ignored⟩
  · subst same reports
    obtain ⟨trace, applying⟩ := run_applying applied scheduler effects
    have received : Threads.Step platform
        ⟨core, .idle, scheduler, effects⟩ (.receive content)
        ⟨core, .applying msg, scheduler, effects⟩ := by
      simp [Threads.Step, Threads.step, parsed]
    have read : Threads.Step platform
        ⟨{ core with log }, .applying [], scheduler, effects⟩ .readRoot
        ⟨{ core with log }, .rootRead core.rootHash, scheduler, effects⟩ :=
      rfl
    have stored : Threads.Step platform
        ⟨{ core with log }, .rootRead core.rootHash, scheduler, effects⟩
        .storeRoot
        ⟨rememberRoot platform { core with log },
          .rootStored core.rootHash, scheduler, effects⟩ :=
      rfl
    have reported : Threads.Step platform
        ⟨rememberRoot platform { core with log },
          .rootStored core.rootHash, scheduler, effects⟩ .report
        ⟨rememberRoot platform { core with log }, .idle, scheduler,
          effects ++ callbackOn ((rememberRoot platform
            { core with log }).differencesSince core.rootHash)⟩ :=
      rfl
    have entered := (Run.snoc Run.nil received).append applying
    exact ⟨_, ((entered.snoc read).snoc stored).snoc reported⟩

end Invariant

/-- The device that the node records for `/bob`. -/
def recordedBob : Bytes :=
  (Name.ofComponents [Name.bob.wireEncode]).wireEncode

/-- An announcement runs between applying a message and reading the root. -/
def absorbingSteps : List ThreadStep :=
  [.receive bobAnnounces, .applyState, .announceReadRoot, .announceStoreRoot,
    .announcePublish, .readRoot, .storeRoot, .report]

/-- An announcement waits until a message has been handled. -/
def waitingSteps : List ThreadStep :=
  [.receive bobAnnounces, .announceReadRoot, .applyState, .readRoot,
    .storeRoot, .report, .announceStoreRoot, .announcePublish]

theorem smallNumbers_of_steps {label : ThreadStep}
    (member : label ∈ absorbingSteps ∨ label ∈ waitingSteps) :
    SmallNumbers (plainPlatform Name.uriOps) label := by
  intro content msg received parsed state stateIn
  have sameContent : content = bobAnnounces := by
    subst received
    simpa [absorbingSteps, waitingSteps] using member
  subst sameContent
  rw [bobAnnounces_parsed parsed, List.mem_singleton] at stateIn
  rw [stateIn]
  decide

theorem opened_nonneg {Name : Type} (ndn : NameOps Name) (localName : Name) :
    NonnegMap (SyncLog.opened ndn localName).db.seqMap := by
  intro name seqNo stored
  obtain ⟨row, rowIn, -, same⟩ := Table.mem_of_column_eq stored
  rw [List.mem_singleton.mp rowIn] at same
  rw [← same]

theorem absorbingSteps_executed :
    ∃ trace final, execute (Threads.step (plainPlatform Name.uriOps))
        (Threads.initial startedAlex) absorbingSteps = some (trace, final) ∧
      trace.map Prod.snd = absorbingSteps ∧ final.face = .idle ∧
      final.scheduler = .idle ∧ reportsOf final.effects = [] ∧
      numberOf (final.core.seqMap recordedBob) = 1 ∧
      recordedBob ≠ Name.wireEncode final.core.log.localName := by
  have executed : (execute (Threads.step (plainPlatform Name.uriOps))
      (Threads.initial startedAlex) absorbingSteps).any (fun result =>
        result.1.map Prod.snd = absorbingSteps ∧ result.2.face = .idle ∧
          result.2.scheduler = .idle ∧ reportsOf result.2.effects = [] ∧
          numberOf (result.2.core.seqMap recordedBob) = 1 ∧
          recordedBob ≠ Name.wireEncode result.2.core.log.localName) =
        true := by
    decide +kernel
  obtain ⟨⟨trace, final⟩, reached, facts⟩ := (Option.any_eq_true _ _).mp executed
  exact ⟨trace, final, reached, of_decide_eq_true facts⟩

/-- An announcement between applying a message and reading the root absorbs
the update: it is never reported. -/
theorem announcement_absorbs_update :
    ∃ trace final, Run (Threads.Step (plainPlatform Name.uriOps))
        (Threads.initial startedAlex) trace final ∧
      (∀ taken ∈ trace,
        SmallNumbers (plainPlatform Name.uriOps) taken.2) ∧
      ¬ ReportedExactly (plainPlatform Name.uriOps)
        (SyncLog.opened Name.uriOps Name.alex).db.seqMap final := by
  obtain ⟨trace, final, executed, labels, face, scheduler, silent, current,
    remote⟩ := absorbingSteps_executed
  refine ⟨trace, final, execute_run executed, ?_, ?_⟩
  · intro taken member
    apply smallNumbers_of_steps
    rw [← labels]
    exact Or.inl (List.mem_map_of_mem member)
  · intro reported
    obtain ⟨-, covers⟩ := reported recordedBob remote
    have first := (covers face scheduler 1).mpr (by
      rw [current]
      decide +kernel)
    rw [silent] at first
    obtain ⟨range, member, -⟩ := first
    exact absurd member List.not_mem_nil

theorem waitingSteps_executed :
    ∃ trace final, execute (Threads.step (plainPlatform Name.uriOps))
        (Threads.initial startedAlex) waitingSteps = some (trace, final) ∧
      trace.map Prod.snd = waitingSteps ∧
      (∀ taken ∈ trace, taken.2 = .announceStoreRoot →
        taken.1.face = .idle) ∧
      rangesOf recordedBob (reportsOf final.effects) = [(0, 1)] := by
  have executed : (execute (Threads.step (plainPlatform Name.uriOps))
      (Threads.initial startedAlex) waitingSteps).any (fun result =>
        result.1.map Prod.snd = waitingSteps ∧
          (∀ taken ∈ result.1, taken.2 = .announceStoreRoot →
            taken.1.face = .idle) ∧
          rangesOf recordedBob (reportsOf result.2.effects) = [(0, 1)]) =
        true := by
    decide +kernel
  obtain ⟨⟨trace, final⟩, reached, facts⟩ := (Option.any_eq_true _ _).mp executed
  exact ⟨trace, final, reached, of_decide_eq_true facts⟩

theorem undisturbed_run_reports_exactly_waiting :
    ∃ trace final, Run (Threads.Step (plainPlatform Name.uriOps))
        (Threads.initial startedAlex) trace final ∧
      rangesOf recordedBob (reportsOf final.effects) = [(0, 1)] ∧
      ReportedExactly (plainPlatform Name.uriOps)
        (SyncLog.opened Name.uriOps Name.alex).db.seqMap final := by
  obtain ⟨trace, final, executed, labels, waits, ranges⟩ :=
    waitingSteps_executed
  refine ⟨trace, final, execute_run executed, ranges, ?_⟩
  apply undisturbed_run_reports_exactly Name.wireEncode_selfDelimiting
    taggedDigest_collisionFree (SyncLog.opened_reachable Name.alex)
    (opened_nonneg _ _) (execute_run executed)
  · intro taken member
    apply smallNumbers_of_steps
    rw [← labels]
    exact Or.inr (List.mem_map_of_mem member)
  · intro taken member announces rest face
    rw [waits taken member announces] at face
    exact absurd face nofun

end SyncCore

end ChronoShare
