import ChronoShare.SyncCore.Answer
import ChronoShare.SyncCore.LocalNumbers

/-!
# A network of nodes

Any number of nodes, each with its threads, whose packets reach any node late,
repeatedly, out of order or never.  Reading a name may turn it into another
one, but a number is never made up: whatever a node shows, announces or asks
its dispatcher to fetch was numbered by the device whose name was read.
-/

namespace ChronoShare

namespace SyncCore

structure NodeNetwork (ι Name : Type) where
  node : ι → LocalNode Name
  /-- The contents of the packets that were handed to a face. -/
  published : List Bytes
  /-- The differences that were handed to a dispatcher. -/
  reported : List SyncStateMsg

inductive NodeMove (ι Name : Type) where
  | act (party : ι) (step : LocalNodeStep Name)
  | receive (party : ι) (packet : Nat)
  deriving DecidableEq, Repr

namespace NodeNetwork

section Steps

variable {ι Name : Type} [DecidableEq ι] (platform : Platform Name)

/-- The effects that a step of a node has added; a restart leaves none. -/
def fresh (source target : LocalNode Name) : List (Effect Name) :=
  target.threads.effects.drop source.threads.effects.length

def act (network : NodeNetwork ι Name) (party : ι)
    (label : LocalNodeStep Name) : Option (NodeNetwork ι Name) :=
  ((network.node party).step platform label).map fun node =>
    let effects := fresh (network.node party) node
    { node := Function.update network.node party node
      published := network.published ++ (packets effects).map (·.content)
      reported := network.reported ++ reportsOf effects }

/-- Nothing arrives that was not published. -/
def step (network : NodeNetwork ι Name) :
    NodeMove ι Name → Option (NodeNetwork ι Name)
  | .act _ (.thread (.receive _)) => none
  | .act party label => network.act platform party label
  | .receive party packet =>
      (network.published[packet]?).bind fun content =>
        network.act platform party (.thread (.receive content))

def Step (source : NodeNetwork ι Name) (label : NodeMove ι Name)
    (target : NodeNetwork ι Name) : Prop :=
  source.step platform label = some target

/-- All nodes have just been started on empty databases. -/
structure Started (names : ι → Name) (network : NodeNetwork ι Name) :
    Prop where
  node : ∀ party, ∃ localPrefix syncPrefix, network.node party =
    .initial platform (names party) localPrefix syncPrefix
  published : network.published = []
  reported : network.reported = []

end Steps

end NodeNetwork

/-- Reading stored names, some number of times, turns one into another. -/
inductive Respelled {Name : Type} (ndn : NameOps Name) (stored : Bytes) :
    Bytes → Prop where
  | refl : Respelled ndn stored stored
  | read {other : Bytes} {name : Name} :
      Respelled ndn stored other → ndn.ofString other = some name →
      Respelled ndn stored (ndn.wire name)

section Node

variable {Name : Type} {platform : Platform Name}
  {sourced : Bytes → Int64 → Prop}

/-- An entry of a message carries a number from its source. -/
structure Told (sourced : Bytes → Int64 → Prop) (state : SyncState) : Prop where
  numbered : state.type = .update → state.seq.isSome
  number : ∀ seq, state.seq = some seq → sourced state.name seq.toInt64

/-- Reading a name takes its numbers along. -/
def Carried (ndn : NameOps Name) (sourced : Bytes → Int64 → Prop) : Prop :=
  ∀ stored name seqNo, sourced stored seqNo →
    ndn.ofString stored = some name → sourced (ndn.wire name) seqNo

/-- A core shows and remembers numbers from their sources. -/
structure HonestCore (sourced : Bytes → Int64 → Prop) (core : SyncCore Name) :
    Prop where
  shown : ∀ name (seqNo : Int64), core.seqMap name = seqNo →
    sourced name seqNo
  root : ∀ name (seqNo : Int64), core.rootMap name = seqNo →
    sourced name seqNo

/-- What the face thread is about to apply is from a source. -/
def HonestFace (sourced : Bytes → Int64 → Prop) (face : FacePoint) : Prop :=
  ∀ rest, face = .applying rest → ∀ state ∈ rest, Told sourced state

theorem HonestFace.resting {face : FacePoint}
    (away : ∀ rest, face ≠ .applying rest) : HonestFace sourced face :=
  fun rest here => absurd here (away rest)

/-- Every number that a node has, or is about to have, is from a source. -/
structure Honest (platform : Platform Name)
    (sourced : Bytes → Int64 → Prop) (node : LocalNode Name) : Prop where
  sound : node.Sound platform
  core : HonestCore sourced node.core
  face : HonestFace sourced node.threads.face

/-- What a node announces or reports is from a source. -/
structure PassesOn (platform : Platform Name)
    (sourced : Bytes → Int64 → Prop) (effects : List (Effect Name)) :
    Prop where
  published : ∀ data ∈ packets effects, ∃ msg,
    data.content = platform.serializeGZipMsg msg ∧
      ∀ state ∈ msg, Told sourced state
  reported : ∀ diff ∈ reportsOf effects, ∀ state ∈ diff, Told sourced state

theorem told_difference {ndn : NameOps Name} {sha256 : Bytes → Bytes}
    {db : SyncDb} (wellFormed : db.WellFormed ndn sha256)
    {oldHash newHash : Hash} {includeOldSeq : Bool}
    (known : ∀ name (seqNo : Int64), db.snapshot newHash name = seqNo →
      sourced name seqNo) :
    ∀ state ∈ db.findStateDifferences oldHash newHash includeOldSeq,
      Told sourced state := by
  intro state member
  obtain ⟨node, -, -, rfl⟩ :=
    (SyncDb.mem_findStateDifferences wellFormed).mp member
  cases newKnown : db.snapshot newHash node.deviceName with
  | bot =>
      constructor
      · intro update
        simp [SyncDb.differenceEntry] at update
      · intro seq number
        simp [SyncDb.differenceEntry] at number
  | coe newSeq =>
      constructor
      · intro update
        simp [SyncDb.differenceEntry]
      · intro seq number
        obtain rfl : newSeq.toUInt64 = seq := by
          simpa [SyncDb.differenceEntry, newKnown] using number
        rw [Int64.toInt64_toUInt64]
        exact known node.deviceName newSeq newKnown

theorem packets_callbackOn (diff : SyncStateMsg) :
    packets (callbackOn diff : List (Effect Name)) = [] := by
  unfold callbackOn
  split_ifs <;> rfl

theorem PassesOn.nil : PassesOn platform sourced ([] : List (Effect Name)) where
  published := fun _ member => absurd member List.not_mem_nil
  reported := fun _ member => absurd member List.not_mem_nil

variable {source target : LocalNode Name} {label : LocalNodeStep Name}
  {core : SyncCore Name}

theorem shown_raise {map : MaxMap Bytes Int64} {stored : Bytes} {number : Int64}
    (shown : ∀ name (seqNo : Int64), map name = seqNo → sourced name seqNo)
    (own : ∀ seqNo : Int64, map.raise stored number stored = seqNo →
      sourced stored seqNo) :
    ∀ name (seqNo : Int64), map.raise stored number name = seqNo →
      sourced name seqNo := by
  intro name seqNo known
  by_cases same : name = stored
  · subst same
    exact own seqNo known
  · rw [MaxMap.raise_of_ne _ same] at known
    exact shown name seqNo known

theorem shown_applyState {log updated : SyncLog Name} {state : SyncState}
    (carried : Carried platform.ndn sourced)
    (wellFormed : log.WellFormed platform.ndn platform.sha256)
    (shown : ∀ name (seqNo : Int64), log.db.seqMap name = seqNo →
      sourced name seqNo)
    (told : Told sourced state)
    (applied : applyState platform.ndn log state = some updated) :
    ∀ name (seqNo : Int64), updated.db.seqMap name = seqNo →
      sourced name seqNo := by
  intro name seqNo known
  rw [(applyState_spec wellFormed applied).2] at known
  rcases MaxMap.mem_of_raiseAll known with earlier | here
  · exact shown name seqNo earlier
  · unfold recorded at here
    cases type : state.type with
    | delete => simp [type] at here
    | update =>
        simp only [type, Option.mem_toList, Option.map_eq_some_iff] at here
        obtain ⟨device, read, same⟩ := here
        obtain ⟨seq, number⟩ := Option.isSome_iff_exists.mp (told.numbered type)
        rw [number, Option.getD_some] at same
        cases same
        exact carried state.name device seq.toInt64 (told.number seq number)
          read

theorem HonestCore.rememberRoot (honest : HonestCore sourced core)
    (wellFormed : core.WellFormed platform) :
    HonestCore sourced (core.rememberRoot platform) where
  shown := honest.shown
  root := by
    rw [rememberRoot_rootMap wellFormed.log]
    exact honest.shown

theorem HonestCore.withLog (honest : HonestCore sourced core)
    (wellFormed : core.WellFormed platform) {log : SyncLog Name}
    (grown : SyncLog.Grown platform.ndn core.log log)
    (shown : ∀ name (seqNo : Int64), log.db.seqMap name = seqNo →
      sourced name seqNo) :
    HonestCore sourced { core with log } where
  shown := shown
  root := by
    rw [rootMap_of_grown wellFormed grown]
    exact honest.root

theorem HonestCore.updateLocalSeqNo (honest : HonestCore sourced core)
    (wellFormed : core.WellFormed platform) (seqNo : Int64)
    (own : ∀ number : Int64,
      (core.log.updateLocalSeqNo seqNo).db.seqMap
          (platform.ndn.wire core.log.localName) = number →
        sourced (platform.ndn.wire core.log.localName) number) :
    HonestCore sourced
      { core with log := core.log.updateLocalSeqNo seqNo } := by
  apply honest.withLog wellFormed
    (SyncLog.updateLocalSeqNo_grown wellFormed.log seqNo)
  rw [SyncLog.seqMap_updateLocalSeqNo wellFormed.log] at own ⊢
  exact shown_raise honest.shown own

theorem HonestCore.construct (honest : HonestCore sourced core)
    (wellFormed : core.WellFormed platform) {log : SyncLog Name}
    (reopened : SyncLog.construct platform.ndn core.log.db
      core.log.localName = some log) (localPrefix syncPrefix : Name)
    (own : ∀ number : Int64,
      (construct platform log localPrefix syncPrefix).seqMap
          (platform.ndn.wire core.log.localName) = number →
        sourced (platform.ndn.wire core.log.localName) number) :
    HonestCore sourced
      (construct platform log localPrefix syncPrefix) := by
  have shown : ∀ name (seqNo : Int64), log.db.seqMap name = seqNo →
      sourced name seqNo := by
    rw [construct_seqMap] at own
    rw [(SyncLog.construct_cases reopened).1,
      SyncDb.seqMap_insertSyncNode] at own ⊢
    exact shown_raise honest.shown own
  constructor
  · rw [construct_seqMap]
    exact shown
  · rw [construct_rootMap (wellFormed.log.reopen reopened)]
    exact shown

/-- The number of the local device after the step is from its source. -/
def OwnSourced (platform : Platform Name) (sourced : Bytes → Int64 → Prop)
    (node : LocalNode Name) : Prop :=
  ∀ seqNo : Int64, node.stored platform = seqNo →
    sourced (platform.ndn.wire node.core.log.localName) seqNo

/-- What a step of a thread leaves behind. -/
structure HonestThreads (platform : Platform Name)
    (sourced : Bytes → Int64 → Prop) (source target : Threads Name) :
    Prop where
  core : HonestCore sourced target.core
  face : HonestFace sourced target.face
  effects : ∃ added, target.effects = source.effects ++ added ∧
    PassesOn platform sourced added

theorem HonestThreads.quiet {source target : Threads Name}
    (core : HonestCore sourced target.core)
    (face : HonestFace sourced target.face)
    (same : target.effects = source.effects) :
    HonestThreads platform sourced source target :=
  ⟨core, face, [], by rw [same, List.append_nil], .nil⟩

theorem honest_thread {source target : Threads Name} {label : ThreadStep}
    (carried : Carried platform.ndn sourced)
    (wellFormed : source.core.WellFormed platform)
    (core : HonestCore sourced source.core)
    (face : HonestFace sourced source.face)
    (delivered : ∀ content msg, label = .receive content →
      platform.deserializeGZipMsg content = some msg →
        ∀ state ∈ msg, Told sourced state)
    (remote : label ≠ .localAction)
    (taken : source.step platform label = some target) :
    HonestThreads platform sourced source target := by
  cases label with
  | receive content =>
      simp only [Threads.step] at taken
      split at taken
      · split at taken
        · cases taken
          exact .quiet core face rfl
        · rename_i msg parsed
          cases taken
          refine .quiet core ?_ rfl
          rintro rest here
          cases here
          exact delivered content msg rfl parsed
      · cases taken
  | applyState =>
      simp only [Threads.step] at taken
      split at taken
      · rename_i state rest here
        obtain ⟨log, applied, rfl⟩ := Option.map_eq_some_iff.mp taken
        have told := face _ here
        refine .quiet ?_ ?_ rfl
        · apply core.withLog wellFormed
            (applyState_spec wellFormed.log applied).1
          exact shown_applyState carried wellFormed.log core.shown
            (told state List.mem_cons_self) applied
        · rintro other now
          cases now
          exact fun later member => told later (List.mem_cons_of_mem _ member)
      · cases taken
  | readRoot =>
      simp only [Threads.step] at taken
      split at taken <;> cases taken
      exact .quiet core (.resting (by simp)) rfl
  | storeRoot =>
      simp only [Threads.step] at taken
      split at taken <;> cases taken
      exact .quiet (core.rememberRoot wellFormed) (.resting (by simp)) rfl
  | report =>
      simp only [Threads.step] at taken
      split at taken <;> cases taken
      refine ⟨core, .resting (by simp), _, rfl, ?_, ?_⟩
      · intro data member
        rw [packets_callbackOn] at member
        exact absurd member List.not_mem_nil
      · intro diff member
        rw [mem_reportsOf_callbackOn member]
        exact told_difference wellFormed.log.db core.root
  | announceReadRoot =>
      simp only [Threads.step] at taken
      split at taken <;> cases taken
      exact .quiet core face rfl
  | announceStoreRoot =>
      simp only [Threads.step] at taken
      split at taken <;> cases taken
      exact .quiet (core.rememberRoot wellFormed) face rfl
  | announcePublish =>
      simp only [Threads.step] at taken
      split at taken <;> cases taken
      refine ⟨core, face, _, rfl, ?_, ?_⟩
      · intro data member
        rw [List.mem_singleton.mp member]
        exact ⟨_, rfl, told_difference wellFormed.log.db core.root⟩
      · exact fun _ member => absurd member List.not_mem_nil
  | localAction => exact absurd rfl remote

theorem honest_step (carried : Carried platform.ndn sourced)
    (honest : Honest platform sourced source)
    (own : OwnSourced platform sourced target)
    (delivered : ∀ content msg, label = .thread (.receive content) →
      platform.deserializeGZipMsg content = some msg →
        ∀ state ∈ msg, Told sourced state)
    (taken : source.step platform label = some target) :
    Honest platform sourced target ∧
      PassesOn platform sourced (NodeNetwork.fresh source target) := by
  have wellFormed := honest.sound.wellFormed
  have sound := LocalNode.step_sound taken honest.sound
  have silent : NodeNetwork.fresh source source = [] := List.drop_length
  cases label with
  | thread label =>
      simp only [LocalNode.step] at taken
      split at taken
      · cases taken
      · rename_i remote
        obtain ⟨threads, stepped, rfl⟩ := Option.map_eq_some_iff.mp taken
        obtain ⟨core, face, added, sameEffects, passes⟩ := honest_thread carried
          wellFormed honest.core honest.face
          (fun content msg same => delivered content msg (same ▸ rfl)) remote
          stepped
        refine ⟨⟨sound, core, face⟩, ?_⟩
        rw [NodeNetwork.fresh, sameEffects, List.drop_left]
        exact passes
  | updateLocalSeqNo seqNo =>
      obtain rfl := Option.some.inj taken
      exact ⟨⟨sound, honest.core.updateLocalSeqNo wellFormed seqNo own,
        honest.face⟩, silent ▸ .nil⟩
  | selectSeqNo =>
      simp only [LocalNode.step] at taken
      split at taken
      · cases taken
      · obtain ⟨row, found, rfl⟩ := Option.map_eq_some_iff.mp taken
        exact ⟨⟨sound, honest.core, honest.face⟩, silent ▸ .nil⟩
  | updateSeqNo =>
      obtain ⟨seqNo, read, rfl⟩ := Option.map_eq_some_iff.mp taken
      exact ⟨⟨sound, honest.core.updateLocalSeqNo wellFormed (seqNo + 1) own,
        honest.face⟩, silent ▸ .nil⟩
  | restart localPrefix syncPrefix =>
      obtain ⟨log, reopened, rfl⟩ := Option.map_eq_some_iff.mp taken
      have sameName := (SyncLog.construct_cases reopened).2.1
      refine ⟨⟨sound, ?_, .resting ?_⟩, ?_⟩
      · apply honest.core.construct wellFormed reopened
        rw [← sameName]
        exact own
      · simp [Threads.initial]
      · rw [NodeNetwork.fresh]
        simpa [LocalNode.initial, Threads.initial] using PassesOn.nil

section Mono

variable {wider : Bytes → Int64 → Prop}

theorem Told.mono {state : SyncState} (told : Told sourced state)
    (includes : ∀ name seqNo, sourced name seqNo → wider name seqNo) :
    Told wider state :=
  ⟨told.numbered, fun seq number => includes _ _ (told.number seq number)⟩

theorem Honest.mono (honest : Honest platform sourced source)
    (includes : ∀ name seqNo, sourced name seqNo → wider name seqNo) :
    Honest platform wider source where
  sound := honest.sound
  core := ⟨fun _ _ known => includes _ _ (honest.core.shown _ _ known),
    fun _ _ known => includes _ _ (honest.core.root _ _ known)⟩
  face := fun rest here state member =>
    (honest.face rest here state member).mono includes

end Mono

end Node

namespace NodeNetwork

section Runs

variable {ι Name : Type} [DecidableEq ι] {platform : Platform Name}
  {names : ι → Name} {source target start final network : NodeNetwork ι Name}
  {label : NodeMove ι Name}
  {trace : List (NodeNetwork ι Name × NodeMove ι Name)}

/-- Some device has numbered as many actions of its own, and reading its name
gives the stored one. -/
def Sourced (platform : Platform Name) (names : ι → Name)
    (network : NodeNetwork ι Name) (stored : Bytes) (seqNo : Int64) : Prop :=
  0 ≤ seqNo ∧ ∃ owner,
    Respelled platform.ndn (platform.ndn.wire (names owner)) stored ∧
      seqNo ≤ (network.node owner).stored platform

omit [DecidableEq ι] in
theorem carried_sourced :
    Carried platform.ndn (Sourced platform names network) := by
  rintro stored name seqNo ⟨nonneg, owner, respelled, below⟩ read
  exact ⟨nonneg, owner, respelled.read read, below⟩

structure Invariant (platform : Platform Name) (names : ι → Name)
    (network : NodeNetwork ι Name) : Prop where
  node : ∀ party, Honest platform (Sourced platform names network)
    (network.node party)
  localName : ∀ party, (network.node party).core.log.localName = names party
  published : ∀ content ∈ network.published, ∀ msg,
    platform.deserializeGZipMsg content = some msg →
      ∀ state ∈ msg, Told (Sourced platform names network) state
  reported : ∀ diff ∈ network.reported, ∀ state ∈ diff,
    Told (Sourced platform names network) state

theorem exists_stored {node : LocalNode Name} (sound : node.Sound platform) :
    ∃ seqNo : Int64, node.stored platform = seqNo := by
  obtain ⟨row, rowIn, -, rowName⟩ := sound.wellFormed.log.localRow
  refine ⟨row.seqNo, ?_⟩
  rw [LocalNode.stored, ← rowName]
  exact Table.column_of_mem sound.wellFormed.log.db.named.unique rowIn

theorem act_cases {party : ι} {label : LocalNodeStep Name}
    (taken : source.act platform party label = some target) :
    ∃ node, (source.node party).step platform label = some node ∧
      target.node = Function.update source.node party node ∧
      target.published = source.published ++
        (packets (fresh (source.node party) node)).map (·.content) ∧
      target.reported = source.reported ++
        reportsOf (fresh (source.node party) node) := by
  obtain ⟨node, stepped, rfl⟩ := Option.map_eq_some_iff.mp taken
  exact ⟨node, stepped, rfl, rfl, rfl⟩

theorem Invariant.act (invariant : Invariant platform names source)
    (parses : ∀ msg, platform.deserializeGZipMsg
      (platform.serializeGZipMsg msg) = some msg)
    {party : ι} {label : LocalNodeStep Name}
    (delivered : ∀ content, label = .thread (.receive content) →
      content ∈ source.published)
    (taken : source.act platform party label = some target) :
    Invariant platform names target := by
  obtain ⟨node, stepped, nodes, published, reported⟩ := act_cases taken
  have sound := (invariant.node party).sound
  have rises := (LocalNode.step_cases sound stepped).1
  have self : target.node party = node := by
    rw [nodes, Function.update_self]
  have others : ∀ other, other ≠ party → target.node other =
      source.node other := by
    intro other different
    rw [nodes, Function.update_of_ne different]
  have wider : ∀ stored seqNo, Sourced platform names source stored seqNo →
      Sourced platform names target stored seqNo := by
    rintro stored seqNo ⟨nonneg, owner, respelled, below⟩
    refine ⟨nonneg, owner, respelled, below.trans ?_⟩
    by_cases same : owner = party
    · subst same
      rw [self]
      exact LocalNode.stored_le rises
    · rw [others owner same]
  have sameName : node.core.log.localName = names party :=
    rises.localName.trans (invariant.localName party)
  have own : OwnSourced platform (Sourced platform names target) node := by
    intro seqNo stored
    obtain ⟨current, known⟩ := exists_stored sound
    have nonneg := ((invariant.node party).core.shown _ _ known).1
    have grown := LocalNode.stored_le rises
    rw [known, stored] at grown
    refine ⟨nonneg.trans (WithBot.coe_le_coe.mp grown), party, ?_, ?_⟩
    · rw [sameName]
      exact .refl
    · rw [self, stored]
  obtain ⟨honest, passes⟩ := honest_step carried_sourced
    ((invariant.node party).mono wider) own
    (fun content msg same parsed state member =>
      (invariant.published content (delivered content same) msg parsed state
        member).mono wider) stepped
  refine ⟨?_, ?_, ?_, ?_⟩
  · intro other
    by_cases same : other = party
    · subst same
      rwa [self]
    · rw [others other same]
      exact (invariant.node other).mono wider
  · intro other
    by_cases same : other = party
    · subst same
      rwa [self]
    · rw [others other same]
      exact invariant.localName other
  · rw [published]
    intro content member msg parsed state entry
    rcases List.mem_append.mp member with earlier | added
    · exact (invariant.published content earlier msg parsed state entry).mono
        wider
    · obtain ⟨data, put, rfl⟩ := List.mem_map.mp added
      obtain ⟨written, sameContent, told⟩ := passes.published data put
      rw [sameContent, parses] at parsed
      obtain rfl := Option.some.inj parsed
      exact told state entry
  · rw [reported]
    intro diff member state entry
    rcases List.mem_append.mp member with earlier | added
    · exact (invariant.reported diff earlier state entry).mono wider
    · exact passes.reported diff added state entry

theorem Invariant.step (invariant : Invariant platform names source)
    (parses : ∀ msg, platform.deserializeGZipMsg
      (platform.serializeGZipMsg msg) = some msg)
    (taken : Step platform source label target) :
    Invariant platform names target := by
  cases label with
  | receive party packet =>
      obtain ⟨content, found, taken⟩ := Option.bind_eq_some_iff.mp taken
      apply invariant.act parses _ taken
      rintro other same
      cases same
      exact List.mem_of_getElem? found
  | act party label =>
      have sent : ∀ content, label ≠ .thread (.receive content) := by
        rintro content rfl
        cases taken
      have acted : source.act platform party label = some target := by
        rwa [Step, step] at taken
        exact sent
      exact invariant.act parses
        (fun content same => absurd same (sent content)) acted

omit [DecidableEq ι] in
theorem Started.invariant (started : Started platform names start) :
    Invariant platform names start where
  node := by
    intro party
    obtain ⟨localPrefix, syncPrefix, same⟩ := started.node party
    have sound : (start.node party).Sound platform := by
      rw [same]
      exact LocalNode.initial_sound _ _ _
    have opened : ∀ name (seqNo : Int64),
        (SyncLog.opened platform.ndn (names party)).db.seqMap name = seqNo →
          Sourced platform names start name seqNo := by
      intro name seqNo known
      have nonneg := opened_nonneg platform.ndn (names party)
      obtain ⟨row, rowIn, sameName, sameSeq⟩ := Table.mem_of_column_eq known
      rw [List.mem_singleton.mp rowIn] at sameName sameSeq
      refine ⟨nonneg name seqNo known, party, ?_, ?_⟩
      · rw [← sameName]
        exact .refl
      · obtain ⟨current, stored⟩ := exists_stored sound
        rw [stored, ← sameSeq]
        rw [same, LocalNode.stored] at stored
        have known := (congrFun (construct_seqMap ..) _).symm.trans stored
        exact WithBot.coe_le_coe.mpr (nonneg _ current known)
    refine ⟨sound, ?_, ?_⟩
    · rw [same]
      constructor
      · intro name seqNo known
        exact opened name seqNo
          ((congrFun (construct_seqMap ..) name).symm.trans known)
      · intro name seqNo known
        rw [LocalNode.core, LocalNode.initial, Threads.initial,
          construct_rootMap (SyncLog.opened_reachable _).wellFormed] at known
        exact opened name seqNo known
    · rw [same]
      exact .resting (by simp [LocalNode.initial, Threads.initial])
  localName := by
    intro party
    obtain ⟨localPrefix, syncPrefix, same⟩ := started.node party
    rw [same]
    rfl
  published := by simp [started.published]
  reported := by simp [started.reported]

theorem one_le_firstSeq (oldSeq : UInt64) : 1 ≤ max (oldSeq + 1) 1 := by
  change 1 ≤ if oldSeq + 1 ≤ 1 then 1 else oldSeq + 1
  split_ifs with least
  · exact UInt64.le_refl 1
  · exact (UInt64.le_total _ _).resolve_left least

theorem exists_entry_of_range {ndn : NameOps Name} {diff : SyncStateMsg}
    {ranges : List (FetchRange Name)}
    (executed : didSyncLogStateChangeExecute ndn diff = some ranges)
    {range : FetchRange Name} (member : range ∈ ranges) :
    ∃ state ∈ diff, ndn.ofString state.name = some range.userName ∧
      state.seq = some range.lastSeq ∧ 1 ≤ range.firstSeq := by
  induction diff generalizing ranges with
  | nil =>
      obtain rfl := Option.some.inj executed
      exact absurd member List.not_mem_nil
  | cons state diff induction =>
      have later : ∀ ranges, didSyncLogStateChangeExecute ndn diff =
          some ranges → range ∈ ranges → ∃ other ∈ state :: diff,
            ndn.ofString other.name = some range.userName ∧
              other.seq = some range.lastSeq ∧ 1 ≤ range.firstSeq := by
        intro ranges executed member
        obtain ⟨other, entry, found⟩ := induction executed member
        exact ⟨other, List.mem_cons_of_mem _ entry, found⟩
      rw [didSyncLogStateChangeExecute] at executed
      split at executed
      · rename_i oldSeq newSeq old new
        split at executed
        · cases executed
        · rename_i userName read
          obtain ⟨rest, others, rfl⟩ := Option.map_eq_some_iff.mp executed
          rcases List.mem_cons.mp member with rfl | inRest
          · exact ⟨state, List.mem_cons_self, read, new, one_le_firstSeq oldSeq⟩
          · exact later rest others inRest
      · exact later ranges executed member

/-- However packets travel, and whatever the names on their way are read as,
no node shows a number and no dispatcher is told to fetch an action that the
device at the other end has not numbered. -/
theorem numbers_come_from_devices
    (parses : ∀ msg, platform.deserializeGZipMsg
      (platform.serializeGZipMsg msg) = some msg)
    (started : Started platform names start)
    (run : Run (Step platform) start trace final) :
    (∀ party name (seqNo : Int64),
      (final.node party).core.seqMap name = seqNo →
        Sourced platform names final name seqNo) ∧
    ∀ diff ∈ final.reported, ∀ ranges,
      didSyncLogStateChangeExecute platform.ndn diff = some ranges →
        ∀ range ∈ ranges, 1 ≤ range.firstSeq ∧ ∃ owner,
          Respelled platform.ndn (platform.ndn.wire (names owner))
            (platform.ndn.wire range.userName) ∧
          range.lastSeq.toNat ≤
            numberOf ((final.node owner).stored platform) := by
  have invariant : Invariant platform names final := by
    apply run.invariant started.invariant
    exact fun source label target taken invariant =>
      invariant.step parses taken
  refine ⟨fun party => (invariant.node party).core.shown, ?_⟩
  intro diff member ranges executed range inRanges
  obtain ⟨state, entry, read, number, first⟩ :=
    exists_entry_of_range executed inRanges
  obtain ⟨nonneg, owner, respelled, below⟩ :=
    (invariant.reported diff member state entry).number _ number
  refine ⟨first, owner, respelled.read read, ?_⟩
  have counted := numberOf_mono
    (fun seqNo same => WithBot.coe_injective same ▸ nonneg) below
  simpa using counted

end Runs

def deviceOf (isBob : Bool) : Name :=
  if isBob then Name.bob else Name.alex

/-- The nodes of `/alex` and `/bob`, just started. -/
def alexAndBob : NodeNetwork Bool Name where
  node := fun isBob => .initial (plainPlatform Name.uriOps) (deviceOf isBob)
    Name.alex Name.broadcast
  published := []
  reported := []

theorem alexAndBob_started :
    Started (plainPlatform Name.uriOps) deviceOf alexAndBob :=
  ⟨fun _ => ⟨Name.alex, Name.broadcast, rfl⟩, rfl, rfl⟩

/-- `/alex` acts and announces its action, which `/bob` receives. -/
def announcedToBob : List (NodeMove Bool Name) :=
  [.act false .selectSeqNo, .act false .updateSeqNo,
    .act false (.thread .announceReadRoot),
    .act false (.thread .announceStoreRoot),
    .act false (.thread .announcePublish),
    .receive true 0, .act true (.thread .applyState),
    .act true (.thread .readRoot), .act true (.thread .storeRoot),
    .act true (.thread .report)]

theorem announcedToBob_executed :
    (execute (step (plainPlatform Name.uriOps)) alexAndBob
      announcedToBob).isSome := by
  decide +kernel

def announced :
    List (NodeNetwork Bool Name × NodeMove Bool Name) × NodeNetwork Bool Name :=
  (execute (step (plainPlatform Name.uriOps)) alexAndBob announcedToBob).get
    announcedToBob_executed

/-- The dispatcher of `/bob` is told of the action under whatever name the
stored name of `/alex` is read as. -/
theorem numbers_come_from_devices_announced :
    (announced.2.reported.map fun diff => diff.map (·.seq)) = [[some 1]] ∧
    (∀ party name (seqNo : Int64),
      (announced.2.node party).core.seqMap name = seqNo →
        Sourced (plainPlatform Name.uriOps) deviceOf announced.2 name seqNo) ∧
    ∀ diff ∈ announced.2.reported, ∀ ranges,
      didSyncLogStateChangeExecute Name.uriOps diff = some ranges →
        ∀ range ∈ ranges, 1 ≤ range.firstSeq ∧ ∃ owner,
          Respelled Name.uriOps (Name.uriOps.wire (deviceOf owner))
            (Name.uriOps.wire range.userName) ∧
          range.lastSeq.toNat ≤ numberOf ((announced.2.node owner).stored
            (plainPlatform Name.uriOps)) :=
  ⟨by decide +kernel, numbers_come_from_devices readMessage_writeMessage
    alexAndBob_started
    (execute_run (Option.some_get announcedToBob_executed).symm)⟩

end NodeNetwork

end SyncCore

end ChronoShare
