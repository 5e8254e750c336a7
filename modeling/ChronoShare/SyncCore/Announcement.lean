import ChronoShare.Support.Run
import ChronoShare.SyncCore.MessageFormat
import ChronoShare.SyncCore.Reports

/-!
# Announcing local actions

One node consumes local numbers, announces them after a delay and handles
messages about other devices, one operation after the other.  Both an
announcement and a message move the root, and an announcement only covers what
happened since.  Local numbers are announced, and kept out of the reports,
exactly in the runs that handle no message while a local number is pending.
-/

namespace ChronoShare

namespace SyncCore

open SyncDb

/-- A published difference, with the local number in the older state. -/
structure Announcement where
  oldSeq : WithBot Int64
  msg : SyncStateMsg

/-- A core with what happened so far: the local numbers consumed, those of
them consumed before the last announcement, the announcements, and the
messages passed to the state callback. -/
structure Session (Name : Type) where
  core : SyncCore Name
  consumed : List Int64
  due : List Int64
  announcements : List Announcement
  reports : List SyncStateMsg

inductive SessionStep where
  | localAction
  | localStateChanged
  | handleStateData (content : Bytes)
  deriving DecidableEq, Repr

section Session

variable {Name : Type} (platform : Platform Name)

/-- The difference an announcement publishes. -/
def announcedDiff (core : SyncCore Name) : SyncStateMsg :=
  (core.rememberRoot platform).log.db.findStateDifferences core.rootHash
    (core.rememberRoot platform).rootHash

def localKey (core : SyncCore Name) : Bytes :=
  platform.ndn.wire core.log.localName

def Session.step (session : Session Name) :
    SessionStep → Option (Session Name)
  | .localAction =>
      match session.core.log.getNextLocalSeqNo with
      | none => none
      | some (seqNo, log) =>
          -- the increment of the greatest number is undefined
          if seqNo = Int64.minValue then
            none
          else
            some { session with
              core := { session.core with log }
              consumed := session.consumed ++ [seqNo] }
  | .localStateChanged =>
      some { session with
        core := (session.core.localStateChanged platform).1
        due := session.consumed
        announcements := session.announcements ++
          [⟨session.core.rootMap (session.core.localKey platform),
            session.core.announcedDiff platform⟩] }
  | .handleStateData content =>
      (session.core.handleStateData platform content).map fun handled =>
        { session with
          core := handled.1
          reports := session.reports ++ reportsOf handled.2 }

def Session.Step (source : Session Name) (label : SessionStep)
    (target : Session Name) : Prop :=
  source.step platform label = some target

def Session.initial (core : SyncCore Name) : Session Name :=
  ⟨core, [], [], [], []⟩

/-- Some announcement takes the local device across `number`. -/
def Session.Covers (session : Session Name) (number : Int64) : Prop :=
  ∃ announcement ∈ session.announcements,
    announcement.oldSeq < (number : WithBot Int64) ∧
      ∃ state ∈ announcement.msg,
        state.name = session.core.localKey platform ∧
          state.type = .update ∧ number ≤ (state.seq.getD 0).toInt64

/-- Every number consumed before the last announcement is covered, and no
report lists the local device. -/
def Session.Announced (session : Session Name) : Prop :=
  (∀ number ∈ session.due, session.Covers platform number) ∧
    ∀ diff ∈ session.reports, ∀ state ∈ diff,
      state.name ≠ session.core.localKey platform

def NamesOthers (localName : Name) (label : SessionStep) : Prop :=
  ∀ content msg, label = .handleStateData content →
    platform.deserializeGZipMsg content = some msg →
      ∀ state ∈ msg, ∀ name,
        platform.ndn.ofString state.name = some name → name ≠ localName

/-- A well-formed message is handled only when the root has caught up with the
local device. -/
def NonePending (session : Session Name) (label : SessionStep) : Prop :=
  ∀ content msg, label = .handleStateData content →
    platform.deserializeGZipMsg content = some msg →
      session.core.rootMap (session.core.localKey platform) =
        session.core.seqMap (session.core.localKey platform)

end Session

section Invariant

variable {Name : Type} {platform : Platform Name}

theorem exists_entry {ndn : NameOps Name} {sha256 : Bytes → Bytes}
    {db : SyncDb} (wellFormed : SyncDb.WellFormed ndn sha256 db)
    {oldHash newHash : Hash} (includeOldSeq : Bool) {name : Bytes}
    {seqNo : Int64} (newer : db.snapshot newHash name = seqNo)
    (changed : db.snapshot oldHash name ≠ seqNo) :
    ∃ state ∈ db.findStateDifferences oldHash newHash includeOldSeq,
      state.name = name ∧ state.type = .update ∧
        (state.seq.getD 0).toInt64 = seqNo := by
  have listed := (differences_findStateDifferences wellFormed oldHash newHash
    includeOldSeq).complete name seqNo newer changed
  obtain ⟨state, member, type, sameName, sameSeq⟩ := mem_updatesOf.mp listed
  exact ⟨state, member, sameName, type, sameSeq⟩

theorem snapshot_ne_of_entry {ndn : NameOps Name} {sha256 : Bytes → Bytes}
    {db : SyncDb} (wellFormed : SyncDb.WellFormed ndn sha256 db)
    {oldHash newHash : Hash} {includeOldSeq : Bool} {state : SyncState}
    (member : state ∈
      db.findStateDifferences oldHash newHash includeOldSeq) :
    db.snapshot oldHash state.name ≠ db.snapshot newHash state.name := by
  obtain ⟨node, -, changed, entry⟩ :=
    (mem_findStateDifferences wellFormed).mp member
  rw [entry]
  exact changed

theorem seqMap_applyStates_local
    (selfDelimiting : SelfDelimiting platform.ndn.wire)
    {core : SyncCore Name} (wellFormed : core.WellFormed platform)
    {content : Bytes} {msg : SyncStateMsg} {log : SyncLog Name}
    (others : NamesOthers platform core.log.localName
      (.handleStateData content))
    (parsed : platform.deserializeGZipMsg content = some msg)
    (applied : applyStates platform.ndn core.log msg = some log) :
    log.db.seqMap (core.localKey platform) =
      core.seqMap (core.localKey platform) := by
  rw [(applyStates_spec wellFormed.log applied).2]
  apply MaxMap.raiseAll_of_not_mem
  intro entry member sameName
  obtain ⟨state, stateIn, records⟩ := List.mem_filterMap.mp member
  unfold recorded at records
  cases type : state.type with
  | delete => simp [type] at records
  | update =>
      simp only [type, Option.map_eq_some_iff] at records
      obtain ⟨name, decoded, same⟩ := records
      rw [← same] at sameName
      exact others content msg rfl parsed state stateIn name decoded
        (selfDelimiting.injective sameName)

theorem handled_maps (selfDelimiting : SelfDelimiting platform.ndn.wire)
    (collisionFree : CollisionFree platform.sha256) {core : SyncCore Name}
    (wellFormed : core.WellFormed platform) {msg : SyncStateMsg}
    {log : SyncLog Name}
    (applied : applyStates platform.ndn core.log msg = some log) :
    let handled := rememberRoot platform { core with log }
    handled.WellFormed platform ∧ handled.rootMap = log.db.seqMap ∧
      handled.seqMap = log.db.seqMap ∧
      handled.log.localName = core.log.localName ∧
      handled.log.db.snapshot core.rootHash = core.rootMap := by
  intro handled
  have grown := (applyStates_spec wellFormed.log applied).1
  have grownForm := wellFormed.of_grown grown
  refine ⟨rememberRoot_wellFormed grownForm.log,
    rememberRoot_rootMap grownForm.log, rfl, grown.localName, ?_⟩
  calc handled.log.db.snapshot core.rootHash
      = log.db.snapshot core.rootHash :=
        snapshot_rememberRoot selfDelimiting collisionFree grownForm.log
          grownForm.root
    _ = core.rootMap := rootMap_of_grown wellFormed grown

variable {base : WithBot Int64} {source target : Session Name}

/-- Local numbers above `base` are covered up to the root, numbers consumed
lie above `base`, and the reports leave the local device out. -/
structure Session.Invariant (platform : Platform Name)
    (base : WithBot Int64) (session : Session Name) : Prop where
  wellFormed : session.core.WellFormed platform
  above : base ≤ session.core.seqMap (session.core.localKey platform)
  covered : ∀ number : Int64, base < number →
    (number : WithBot Int64) ≤
      session.core.rootMap (session.core.localKey platform) →
        session.Covers platform number
  consumed : ∀ number ∈ session.consumed, base < (number : WithBot Int64) ∧
    number ≤ session.core.seqMap (session.core.localKey platform)
  due : ∀ number ∈ session.due, base < (number : WithBot Int64) ∧
    number ≤ session.core.rootMap (session.core.localKey platform)
  reports : ∀ diff ∈ session.reports, ∀ state ∈ diff,
    state.name ≠ session.core.localKey platform

theorem step_localAction (wellFormed : source.core.WellFormed platform)
    (taken : source.Step platform .localAction target) :
    ∃ seqNo log, SyncLog.Grown platform.ndn source.core.log log ∧
      target = { source with
        core := { source.core with log }
        consumed := source.consumed ++ [seqNo] } ∧
      (source.core.seqMap (source.core.localKey platform) <
        (seqNo : WithBot Int64)) ∧
      log.db.seqMap (source.core.localKey platform) = seqNo := by
  unfold Session.Step Session.step at taken
  cases consumed : source.core.log.getNextLocalSeqNo with
  | none => simp [consumed] at taken
  | some next =>
      obtain ⟨seqNo, log⟩ := next
      simp only [consumed] at taken
      split_ifs at taken with undefined
      obtain ⟨same, current, known, successor⟩ :=
        SyncLog.getNextLocalSeqNo_spec wellFormed.log consumed
      have recorded : source.core.seqMap (source.core.localKey platform) =
          (current : WithBot Int64) := known
      have grows : current < seqNo := by
        rw [successor]
        apply int64_lt_succ
        rwa [← successor]
      have above : source.core.seqMap (source.core.localKey platform) <
          (seqNo : WithBot Int64) := by
        rw [recorded]
        exact WithBot.coe_lt_coe.mpr grows
      refine ⟨seqNo, log, ?_, (Option.some.inj taken).symm, above, ?_⟩
      · rw [same]
        exact SyncLog.updateLocalSeqNo_grown wellFormed.log seqNo
      · rw [same, SyncLog.seqMap_updateLocalSeqNo wellFormed.log]
        exact (MaxMap.raise_self _ _ _).trans (sup_eq_right.mpr above.le)

theorem Session.Covers.mono {session later : Session Name} {number : Int64}
    (covers : session.Covers platform number)
    (sameKey : later.core.localKey platform = session.core.localKey platform)
    (kept : ∀ announcement ∈ session.announcements,
      announcement ∈ later.announcements) :
    later.Covers platform number := by
  obtain ⟨announcement, member, below, entry⟩ := covers
  rw [← sameKey] at entry
  exact ⟨announcement, kept announcement member, below, entry⟩

theorem invariant_session_localAction
    (taken : source.Step platform .localAction target)
    (invariant : source.Invariant platform base) :
    target.Invariant platform base := by
  obtain ⟨seqNo, log, grown, same, above, recorded⟩ :=
    step_localAction invariant.wellFormed taken
  have sameRoot := rootMap_of_grown invariant.wellFormed grown
  have sameKey : ({ source.core with log } : SyncCore Name).localKey platform =
      source.core.localKey platform :=
    congrArg platform.ndn.wire grown.localName
  subst same
  have current : ({ source.core with log } : SyncCore Name).seqMap
      (source.core.localKey platform) = (seqNo : WithBot Int64) := recorded
  exact {
    wellFormed := invariant.wellFormed.of_grown grown
    above := by
      rw [sameKey, current]
      exact invariant.above.trans above.le
    covered := by
      intro number aboveBase belowRoot
      rw [sameKey, sameRoot] at belowRoot
      exact (invariant.covered number aboveBase belowRoot).mono sameKey
        (fun _ member => member)
    consumed := by
      intro number member
      rw [sameKey, current]
      rcases List.mem_append.mp member with earlier | last
      · obtain ⟨aboveBase, belowCurrent⟩ := invariant.consumed number earlier
        exact ⟨aboveBase, belowCurrent.trans above.le⟩
      · rw [List.mem_singleton.mp last]
        exact ⟨invariant.above.trans_lt above, le_rfl⟩
    due := by
      intro number member
      rw [sameKey, sameRoot]
      exact invariant.due number member
    reports := by
      rw [sameKey]
      exact invariant.reports }

theorem covers_announcement
    (selfDelimiting : SelfDelimiting platform.ndn.wire)
    (collisionFree : CollisionFree platform.sha256)
    (wellFormed : source.core.WellFormed platform) {number : Int64}
    (aboveRoot : source.core.rootMap (source.core.localKey platform) <
      (number : WithBot Int64))
    (below : (number : WithBot Int64) ≤
      source.core.seqMap (source.core.localKey platform)) :
    ∃ state ∈ source.core.announcedDiff platform,
      state.name = source.core.localKey platform ∧ state.type = .update ∧
        number ≤ (state.seq.getD 0).toInt64 := by
  have renewed : (source.core.rememberRoot platform).WellFormed platform :=
    rememberRoot_wellFormed wellFormed.log
  have kept := snapshot_rememberRoot selfDelimiting collisionFree
    wellFormed.log wellFormed.root
  cases current : source.core.seqMap (source.core.localKey platform) with
  | bot =>
      rw [current] at below
      exact absurd below (WithBot.not_coe_le_bot number)
  | coe seqNo =>
      rw [current] at below
      have newer : (source.core.rememberRoot platform).log.db.snapshot
          (source.core.rememberRoot platform).rootHash
            (source.core.localKey platform) = seqNo := by
        rw [← current]
        exact congrFun (rememberRoot_rootMap wellFormed.log) _
      have changed : (source.core.rememberRoot platform).log.db.snapshot
          source.core.rootHash (source.core.localKey platform) ≠ seqNo := by
        rw [kept]
        intro same
        have older : source.core.rootMap (source.core.localKey platform) =
            (seqNo : WithBot Int64) := same
        rw [older] at aboveRoot
        exact absurd below (not_le.mpr aboveRoot)
      obtain ⟨state, member, sameName, type, sameSeq⟩ :=
        exists_entry renewed.log.db false newer changed
      refine ⟨state, member, sameName, type, ?_⟩
      rw [sameSeq]
      exact WithBot.coe_le_coe.mp below

theorem invariant_session_localStateChanged
    (selfDelimiting : SelfDelimiting platform.ndn.wire)
    (collisionFree : CollisionFree platform.sha256)
    (taken : source.Step platform .localStateChanged target)
    (invariant : source.Invariant platform base) :
    target.Invariant platform base := by
  have same := Option.some.inj taken
  subst same
  have current : (source.core.rememberRoot platform).rootMap =
      source.core.seqMap :=
    rememberRoot_rootMap invariant.wellFormed.log
  exact {
    wellFormed := rememberRoot_wellFormed invariant.wellFormed.log
    above := invariant.above
    covered := by
      intro number aboveBase belowRoot
      have belowCurrent : (number : WithBot Int64) ≤
          source.core.seqMap (source.core.localKey platform) := by
        rw [← current]
        exact belowRoot
      by_cases announced : (number : WithBot Int64) ≤
          source.core.rootMap (source.core.localKey platform)
      · exact (invariant.covered number aboveBase announced).mono rfl
          (fun _ member => List.mem_append_left _ member)
      · exact ⟨_, List.mem_append_right _ (List.mem_singleton_self _),
          not_le.mp announced,
          covers_announcement selfDelimiting collisionFree
            invariant.wellFormed (not_le.mp announced) belowCurrent⟩
    consumed := invariant.consumed
    due := by
      intro number member
      obtain ⟨aboveBase, belowCurrent⟩ := invariant.consumed number member
      refine ⟨aboveBase, ?_⟩
      rw [← current] at belowCurrent
      exact belowCurrent
    reports := invariant.reports }

/-- Handling a message: what happens to the reports, and when they leave the
local device out. -/
theorem step_handleStateData
    (selfDelimiting : SelfDelimiting platform.ndn.wire)
    (collisionFree : CollisionFree platform.sha256) {content : Bytes}
    (wellFormed : source.core.WellFormed platform)
    (others : NamesOthers platform source.core.log.localName
      (.handleStateData content))
    (taken : source.Step platform (.handleStateData content) target) :
    (platform.deserializeGZipMsg content = none ∧ target = source) ∨
    ∃ msg core diff, platform.deserializeGZipMsg content = some msg ∧
      target = { source with
        core := core
        reports := source.reports ++ reportsOf (callbackOn diff :
          List (Effect Name)) } ∧
      core.WellFormed platform ∧
      core.localKey platform = source.core.localKey platform ∧
      core.rootMap (source.core.localKey platform) =
        source.core.seqMap (source.core.localKey platform) ∧
      core.seqMap (source.core.localKey platform) =
        source.core.seqMap (source.core.localKey platform) ∧
      ((∃ state ∈ diff, state.name = source.core.localKey platform) ↔
        source.core.rootMap (source.core.localKey platform) ≠
          source.core.seqMap (source.core.localKey platform)) := by
  obtain ⟨⟨core, effects⟩, done, same⟩ := Option.map_eq_some_iff.mp taken
  rcases handleStateData_cases done with
    ⟨unparsed, sameCore, silent⟩ |
      ⟨msg, log, parsed, applied, sameCore, reported⟩
  · left
    rw [← same, sameCore, silent]
    exact ⟨unparsed, by simp [reportsOf]⟩
  · right
    obtain ⟨coreForm, root, current, sameName, older⟩ :=
      handled_maps selfDelimiting collisionFree wellFormed applied
    have untouched := seqMap_applyStates_local selfDelimiting wellFormed
      others parsed applied
    rw [← sameCore] at coreForm root current sameName older
    refine ⟨msg, core, core.differencesSince source.core.rootHash, parsed,
      ?_, coreForm, congrArg platform.ndn.wire sameName, ?_, ?_, ?_⟩
    · rw [← same, reported]
    · rw [root, untouched]
    · rw [current, untouched]
    · have newer : core.log.db.snapshot core.rootHash
          (source.core.localKey platform) =
            source.core.seqMap (source.core.localKey platform) := by
        rw [← untouched, ← root]
        rfl
      constructor
      · intro listed
        obtain ⟨state, member, sameKey⟩ := listed
        have changed := snapshot_ne_of_entry coreForm.log.db member
        rw [sameKey, older, newer] at changed
        exact changed
      · intro pending
        obtain ⟨node, nodeIn, -, nodeName⟩ := wellFormed.log.localRow
        have stored : source.core.seqMap (source.core.localKey platform) =
            (node.seqNo : WithBot Int64) := by
          unfold localKey
          rw [← nodeName]
          exact Table.column_of_mem wellFormed.log.db.named.unique nodeIn
        rw [stored] at newer pending
        obtain ⟨state, member, sameKey, -⟩ := exists_entry
          coreForm.log.db true newer (older ▸ pending)
        exact ⟨state, member, sameKey⟩

theorem invariant_session_handleStateData
    (selfDelimiting : SelfDelimiting platform.ndn.wire)
    (collisionFree : CollisionFree platform.sha256) {content : Bytes}
    (others : NamesOthers platform source.core.log.localName
      (.handleStateData content))
    (nonePending : NonePending platform source (.handleStateData content))
    (taken : source.Step platform (.handleStateData content) target)
    (invariant : source.Invariant platform base) :
    target.Invariant platform base := by
  rcases step_handleStateData selfDelimiting collisionFree
    invariant.wellFormed others taken with
    ⟨-, same⟩ | ⟨msg, core, diff, parsed, same, coreForm, sameKey, root,
      current, listed⟩
  · exact same ▸ invariant
  · have caughtUp := nonePending content msg rfl parsed
    subst same
    exact {
      wellFormed := coreForm
      above := by
        rw [sameKey, current]
        exact invariant.above
      covered := by
        intro number aboveBase belowRoot
        rw [sameKey, root, ← caughtUp] at belowRoot
        exact (invariant.covered number aboveBase belowRoot).mono sameKey
          (fun _ member => member)
      consumed := by
        rw [sameKey, current]
        exact invariant.consumed
      due := by
        rw [sameKey, root, ← caughtUp]
        exact invariant.due
      reports := by
        rw [sameKey]
        intro report member state stateIn sameName
        rcases List.mem_append.mp member with earlier | last
        · exact invariant.reports report earlier state stateIn sameName
        · rw [mem_reportsOf_callbackOn last] at stateIn
          exact listed.mp ⟨state, stateIn, sameName⟩ caughtUp }

theorem Session.Step.invariant
    (selfDelimiting : SelfDelimiting platform.ndn.wire)
    (collisionFree : CollisionFree platform.sha256) {label : SessionStep}
    (others : NamesOthers platform source.core.log.localName label)
    (nonePending : NonePending platform source label)
    (taken : source.Step platform label target)
    (invariant : source.Invariant platform base) :
    target.Invariant platform base := by
  cases label with
  | localAction => exact invariant_session_localAction taken invariant
  | localStateChanged =>
      exact invariant_session_localStateChanged selfDelimiting collisionFree
        taken invariant
  | handleStateData content =>
      exact invariant_session_handleStateData selfDelimiting collisionFree
        others nonePending taken invariant

/-- No step loses a report, the well-formedness of the core or the name of
the local device. -/
theorem Session.Step.kept {label : SessionStep}
    (wellFormed : source.core.WellFormed platform)
    (taken : source.Step platform label target) :
    target.core.WellFormed platform ∧
      target.core.log.localName = source.core.log.localName ∧
      ∀ diff ∈ source.reports, diff ∈ target.reports := by
  cases label with
  | localAction =>
      obtain ⟨seqNo, log, grown, same, -⟩ := step_localAction wellFormed taken
      subst same
      exact ⟨wellFormed.of_grown grown, grown.localName, fun _ member => member⟩
  | localStateChanged =>
      have same := Option.some.inj taken
      subst same
      exact ⟨rememberRoot_wellFormed wellFormed.log, rfl,
        fun _ member => member⟩
  | handleStateData content =>
      obtain ⟨⟨core, effects⟩, done, same⟩ := Option.map_eq_some_iff.mp taken
      subst same
      refine ⟨handleStateData_wellFormed wellFormed done, ?_,
        fun _ member => List.mem_append_left _ member⟩
      rcases handleStateData_cases done with
        ⟨-, sameCore, -⟩ | ⟨msg, log, -, applied, sameCore, -⟩
      · exact sameCore ▸ rfl
      · have grown := (applyStates_spec wellFormed.log applied).1
        rw [sameCore]
        exact grown.localName

/-- Handling a message while a local number is pending reports the local
device. -/
theorem nonePending_of_reports
    (selfDelimiting : SelfDelimiting platform.ndn.wire)
    (collisionFree : CollisionFree platform.sha256) {label : SessionStep}
    (wellFormed : source.core.WellFormed platform)
    (others : NamesOthers platform source.core.log.localName label)
    (taken : source.Step platform label target)
    (silent : ∀ diff ∈ target.reports, ∀ state ∈ diff,
      state.name ≠ source.core.localKey platform) :
    NonePending platform source label := by
  intro content msg same parsed
  subst same
  rcases step_handleStateData selfDelimiting collisionFree wellFormed others
    taken with
    ⟨unparsed, -⟩ | ⟨_, core, diff, _, result, -, -, -, -, listed⟩
  · rw [unparsed] at parsed
    exact nomatch parsed
  · by_contra pending
    obtain ⟨state, member, sameName⟩ := listed.mpr pending
    apply silent diff _ state member sameName
    rw [result]
    apply List.mem_append_right
    have nonempty : diff ≠ [] := List.ne_nil_of_mem member
    simp [callbackOn, nonempty, reportsOf]

variable {log : SyncLog Name} {localPrefix syncPrefix : Name}
  {trace : List (Session Name × SessionStep)} {final : Session Name}

theorem invariant_session_initial
    (reachable : SyncLog.Reachable platform.ndn platform.sha256 log)
    (localPrefix syncPrefix : Name) :
    (Session.initial (construct platform log localPrefix
      syncPrefix)).Invariant platform
        (log.db.seqMap (platform.ndn.wire log.localName)) := by
  have root := construct_rootMap reachable.wellFormed localPrefix syncPrefix
  have current := construct_seqMap platform log localPrefix syncPrefix
  exact {
    wellFormed := construct_wellFormed reachable.wellFormed _ _
    above := (congrFun current _).ge
    covered := by
      intro number above below
      have belowBase : (number : WithBot Int64) ≤
          log.db.seqMap (platform.ndn.wire log.localName) := by
        rw [← root]
        exact below
      exact absurd belowBase (not_le.mpr above)
    consumed := nofun
    due := nofun
    reports := nofun }

/-- The cores of a run are well formed and keep the local device. -/
theorem run_wellFormed
    (reachable : SyncLog.Reachable platform.ndn platform.sha256 log)
    (run : Run (Session.Step platform)
      (Session.initial (construct platform log localPrefix syncPrefix))
      trace final) :
    final.core.WellFormed platform ∧
      final.core.log.localName = log.localName := by
  apply run.invariant
  · exact ⟨construct_wellFormed reachable.wellFormed _ _, rfl⟩
  · intro source label target taken earlier
    obtain ⟨wellFormed, sameName⟩ := earlier
    obtain ⟨later, kept, -⟩ := taken.kept wellFormed
    exact ⟨later, kept.trans sameName⟩

/-- When the reports of a run leave the local device out, no message was
handled while a local number was pending. -/
theorem run_nonePending
    (selfDelimiting : SelfDelimiting platform.ndn.wire)
    (collisionFree : CollisionFree platform.sha256)
    (reachable : SyncLog.Reachable platform.ndn platform.sha256 log)
    (run : Run (Session.Step platform)
      (Session.initial (construct platform log localPrefix syncPrefix))
      trace final)
    (others : ∀ taken ∈ trace, NamesOthers platform log.localName taken.2)
    (silent : ∀ diff ∈ final.reports, ∀ state ∈ diff,
      state.name ≠ platform.ndn.wire log.localName) :
    ∀ taken ∈ trace, NonePending platform taken.1 taken.2 := by
  induction run with
  | nil => exact fun taken member => absurd member List.not_mem_nil
  | @snoc trace middle final label before last induction =>
      obtain ⟨wellFormed, sameName⟩ := run_wellFormed reachable before
      obtain ⟨-, -, kept⟩ := last.kept wellFormed
      have earlier : ∀ taken ∈ trace, NonePending platform taken.1 taken.2 := by
        apply induction
        · intro taken member
          exact others taken (List.mem_append_left _ member)
        · intro diff member
          exact silent diff (kept diff member)
      have here : NonePending platform middle label := by
        apply nonePending_of_reports selfDelimiting collisionFree wellFormed _
          last
        · intro diff member
          unfold localKey
          rw [sameName]
          exact silent diff member
        · rw [sameName]
          exact others (middle, label) (by simp)
      intro taken member
      rcases List.mem_append.mp member with old | new
      · exact earlier taken old
      · rw [List.mem_singleton.mp new]
        exact here

/-- Local actions are announced, and kept out of the reports, in exactly the
runs that handle no well-formed message while a local number is pending. -/
theorem session_announces_iff
    (selfDelimiting : SelfDelimiting platform.ndn.wire)
    (collisionFree : CollisionFree platform.sha256)
    (reachable : SyncLog.Reachable platform.ndn platform.sha256 log)
    (run : Run (Session.Step platform)
      (Session.initial (construct platform log localPrefix syncPrefix))
      trace final)
    (others : ∀ taken ∈ trace, NamesOthers platform log.localName taken.2) :
    final.Announced platform ↔
      ∀ taken ∈ trace, NonePending platform taken.1 taken.2 := by
  constructor
  · intro announced
    apply run_nonePending selfDelimiting collisionFree reachable run others
    obtain ⟨-, sameName⟩ := run_wellFormed reachable run
    rw [← sameName]
    exact announced.2
  · intro nonePending
    have invariant : final.Invariant platform
        (log.db.seqMap (platform.ndn.wire log.localName)) ∧
          final.core.log.localName = log.localName := by
      apply run.invariant_of_steps (fun session label =>
        NamesOthers platform log.localName label ∧
          NonePending platform session label)
      · intro taken member
        exact ⟨others taken member, nonePending taken member⟩
      · exact ⟨invariant_session_initial reachable _ _, rfl⟩
      · intro source label target conditions taken earlier
        obtain ⟨inner, sameName⟩ := earlier
        obtain ⟨-, kept, -⟩ := taken.kept inner.wellFormed
        refine ⟨?_, kept.trans sameName⟩
        apply taken.invariant selfDelimiting collisionFree _ conditions.2 inner
        rw [sameName]
        exact conditions.1
    obtain ⟨inner, -⟩ := invariant
    refine ⟨?_, inner.reports⟩
    intro number member
    obtain ⟨above, below⟩ := inner.due number member
    exact inner.covered number above below

end Invariant

/-- A message is handled between a local action and its announcement. -/
def absorbedSession : List SessionStep :=
  [.localAction, .handleStateData bobAnnounces, .localStateChanged]

/-- A local action is announced before a message is handled. -/
def promptSession : List SessionStep :=
  [.localAction, .localStateChanged, .handleStateData bobAnnounces]

theorem namesOthers_of_session {label : SessionStep}
    (member : label ∈ absorbedSession ∨ label ∈ promptSession) :
    NamesOthers (plainPlatform Name.uriOps) Name.alex label := by
  intro content msg handled parsed state stateIn name decoded
  have sameContent : content = bobAnnounces := by
    subst handled
    simpa [absorbedSession, promptSession] using member
  subst sameContent
  rw [bobAnnounces_parsed parsed, List.mem_singleton] at stateIn
  rw [stateIn] at decoded
  intro same
  subst same
  exact absurd decoded (by decide +kernel)

theorem absorbedSession_executed :
    ∃ trace final, execute (Session.step (plainPlatform Name.uriOps))
        (Session.initial startedAlex) absorbedSession = some (trace, final) ∧
      trace.map Prod.snd = absorbedSession ∧ final.due = [1] ∧
      (∀ announcement ∈ final.announcements, announcement.msg = []) ∧
      ∃ diff ∈ final.reports, ∃ state ∈ diff,
        state.name = final.core.localKey (plainPlatform Name.uriOps) := by
  have executed : (execute (Session.step (plainPlatform Name.uriOps))
      (Session.initial startedAlex) absorbedSession).any (fun result =>
        result.1.map Prod.snd = absorbedSession ∧ result.2.due = [1] ∧
          (∀ announcement ∈ result.2.announcements,
            announcement.msg = []) ∧
          ∃ diff ∈ result.2.reports, ∃ state ∈ diff,
            state.name =
              result.2.core.localKey (plainPlatform Name.uriOps)) = true := by
    decide +kernel
  obtain ⟨⟨trace, final⟩, reached, facts⟩ := (Option.any_eq_true _ _).mp executed
  exact ⟨trace, final, reached, of_decide_eq_true facts⟩

/-- A message handled before the delayed announcement takes the local action
along: it is never announced, and the dispatcher is told to fetch it. -/
theorem message_absorbs_local_action :
    ∃ trace final, Run (Session.Step (plainPlatform Name.uriOps))
        (Session.initial startedAlex) trace final ∧
      (∀ taken ∈ trace,
        NamesOthers (plainPlatform Name.uriOps) Name.alex taken.2) ∧
      (1 ∈ final.due ∧ ¬ final.Covers (plainPlatform Name.uriOps) 1) ∧
      (∃ diff ∈ final.reports, ∃ state ∈ diff,
        state.name = final.core.localKey (plainPlatform Name.uriOps)) ∧
      ¬ final.Announced (plainPlatform Name.uriOps) := by
  obtain ⟨trace, final, executed, labels, due, empty, listed⟩ :=
    absorbedSession_executed
  refine ⟨trace, final, execute_run executed, ?_, ⟨by simp [due], ?_⟩, listed,
    ?_⟩
  · intro taken member
    apply namesOthers_of_session
    rw [← labels]
    exact Or.inl (List.mem_map_of_mem member)
  · intro covers
    obtain ⟨announcement, member, -, state, stateIn, -⟩ := covers
    rw [empty announcement member] at stateIn
    exact absurd stateIn List.not_mem_nil
  · intro announced
    obtain ⟨diff, member, state, stateIn, same⟩ := listed
    exact announced.2 diff member state stateIn same

theorem promptSession_executed :
    ∃ trace final, execute (Session.step (plainPlatform Name.uriOps))
        (Session.initial startedAlex) promptSession = some (trace, final) ∧
      trace.map Prod.snd = promptSession ∧ final.due = [1] ∧
      ∀ taken ∈ trace, taken.2 = .handleStateData bobAnnounces →
        taken.1.core.rootMap
            (taken.1.core.localKey (plainPlatform Name.uriOps)) =
          taken.1.core.seqMap
            (taken.1.core.localKey (plainPlatform Name.uriOps)) := by
  have executed : (execute (Session.step (plainPlatform Name.uriOps))
      (Session.initial startedAlex) promptSession).any (fun result =>
        result.1.map Prod.snd = promptSession ∧ result.2.due = [1] ∧
          ∀ taken ∈ result.1, taken.2 = .handleStateData bobAnnounces →
            taken.1.core.rootMap
                (taken.1.core.localKey (plainPlatform Name.uriOps)) =
              taken.1.core.seqMap
                (taken.1.core.localKey (plainPlatform Name.uriOps))) =
        true := by
    decide +kernel
  obtain ⟨⟨trace, final⟩, reached, facts⟩ := (Option.any_eq_true _ _).mp executed
  exact ⟨trace, final, reached, of_decide_eq_true facts⟩

theorem session_announces_iff_prompt :
    ∃ trace final, Run (Session.Step (plainPlatform Name.uriOps))
        (Session.initial startedAlex) trace final ∧ final.due = [1] ∧
      (∀ taken ∈ trace,
        NonePending (plainPlatform Name.uriOps) taken.1 taken.2) ∧
      final.Announced (plainPlatform Name.uriOps) := by
  obtain ⟨trace, final, executed, labels, due, caughtUp⟩ :=
    promptSession_executed
  have steps : ∀ taken ∈ trace, taken.2 ∈ promptSession := by
    intro taken member
    rw [← labels]
    exact List.mem_map_of_mem member
  have nonePending : ∀ taken ∈ trace,
      NonePending (plainPlatform Name.uriOps) taken.1 taken.2 := by
    intro taken member content msg handled _
    apply caughtUp taken member
    have known := steps taken member
    rw [handled] at known ⊢
    simpa [promptSession] using known
  refine ⟨trace, final, execute_run executed, due, nonePending, ?_⟩
  apply (session_announces_iff Name.wireEncode_selfDelimiting
    taggedDigest_collisionFree (SyncLog.opened_reachable Name.alex)
    (execute_run executed) _).mpr nonePending
  intro taken member
  exact namesOthers_of_session (Or.inr (steps taken member))

end SyncCore

end ChronoShare
