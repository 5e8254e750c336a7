import ChronoShare.SyncCore.Interleaving
import ChronoShare.SyncLog.Calls
import ChronoShare.SyncLog.LocalNumber

/-!
# The numbers handed out to local actions

The thread of the dispatcher takes numbers while the face thread merges
messages and the scheduler's thread announces, and the program may be ended
and started again at any point.  A number is taken by two statements, so that
a merge can fall between them.
-/

namespace ChronoShare

namespace SyncCore

/-- The threads on a core, with the number that a call of `GetNextLocalSeqNo`
has read and not yet followed by its update. -/
structure LocalNode (Name : Type) where
  threads : Threads Name
  read : Option Int64

inductive LocalNodeStep (Name : Type) where
  | thread (step : ThreadStep)
  | updateLocalSeqNo (seqNo : Int64)
  | selectSeqNo
  | updateSeqNo
  | restart (localPrefix syncPrefix : Name)
  deriving DecidableEq, Repr

section Steps

variable {Name : Type} (platform : Platform Name)

namespace LocalNode

def core (node : LocalNode Name) : SyncCore Name :=
  node.threads.core

def withLog (node : LocalNode Name) (log : SyncLog Name) : LocalNode Name :=
  { node with
    threads := { node.threads with core := { node.core with log } } }

/-- The number stored for the local device. -/
def stored (node : LocalNode Name) : WithBot Int64 :=
  node.core.seqMap (platform.ndn.wire node.core.log.localName)

/-- A number is taken by `selectSeqNo` and `updateSeqNo`; the step of the two
threads that does both at once is left out.  A restart finds the database as
it is and nothing else. -/
def step (node : LocalNode Name) :
    LocalNodeStep Name → Option (LocalNode Name)
  | .thread label =>
      if label = .localAction then
        none
      else
        (node.threads.step platform label).map fun threads =>
          { node with threads }
  | .updateLocalSeqNo seqNo =>
      some (node.withLog (node.core.log.updateLocalSeqNo seqNo))
  | .selectSeqNo =>
      match node.read with
      | some _ => none
      | none =>
          node.core.log.localRow.map fun row =>
            { node with read := some row.seqNo }
  | .updateSeqNo =>
      node.read.map fun seqNo =>
        { node.withLog (node.core.log.updateLocalSeqNo (seqNo + 1)) with
          read := none }
  | .restart localPrefix syncPrefix =>
      (SyncLog.construct platform.ndn node.core.log.db
          node.core.log.localName).map fun log =>
        ⟨.initial (construct platform log localPrefix syncPrefix), none⟩

/-- The node on an empty database. -/
def initial (localName localPrefix syncPrefix : Name) : LocalNode Name :=
  ⟨.initial (construct platform (SyncLog.opened platform.ndn localName)
    localPrefix syncPrefix), none⟩

end LocalNode

abbrev LocalNodeTrace (Name : Type) :=
  List (LocalNode Name × LocalNodeStep Name)

/-- The number a step returns from `GetNextLocalSeqNo`. -/
def returned (taken : LocalNode Name × LocalNodeStep Name) : Option Int64 :=
  match taken.2 with
  | .updateSeqNo => taken.1.read.map (· + 1)
  | _ => none

/-- No number is returned twice, and each is greater than every number that
was stored for the local device before it was returned. -/
structure FreshNumbers (trace : LocalNodeTrace Name) : Prop where
  distinct : (trace.filterMap returned).Nodup
  above : ∀ before taken after seqNo, trace = before ++ taken :: after →
    returned taken = some seqNo → ∀ earlier ∈ before ++ [taken],
      earlier.1.stored platform < seqNo

/-- Nothing was merged into the number that was read, and it is not the last
one a column holds. -/
def Undiverted (node : LocalNode Name) (label : LocalNodeStep Name) : Prop :=
  label = .updateSeqNo → ∀ seqNo ∈ node.read,
    node.stored platform = (seqNo : WithBot Int64) ∧
      seqNo ≠ Int64.maxValue

instance [DecidableEq Name] (node : LocalNode Name)
    (label : LocalNodeStep Name) :
    Decidable (Undiverted platform node label) :=
  @instDecidableForall _ _ _ (Option.decidableForallMem node.read)

end Steps

section Numbers

variable {Name : Type} {platform : Platform Name}

/-- The local device is the same and nothing stored was lowered. -/
structure Rises (platform : Platform Name) (before after : SyncCore Name) :
    Prop where
  wellFormed : after.WellFormed platform
  localName : after.log.localName = before.log.localName
  seqMap : before.seqMap ≤ after.seqMap

theorem Rises.refl {core : SyncCore Name}
    (wellFormed : core.WellFormed platform) : Rises platform core core :=
  ⟨wellFormed, rfl, le_rfl⟩

theorem rises_withLog {core : SyncCore Name} {log : SyncLog Name}
    (wellFormed : core.WellFormed platform)
    (grown : SyncLog.Grown platform.ndn core.log log) :
    Rises platform core { core with log } where
  wellFormed := wellFormed.of_grown grown
  localName := grown.localName
  seqMap := grown.db.seqMap_le

theorem rises_rememberRoot {core : SyncCore Name}
    (wellFormed : core.WellFormed platform) :
    Rises platform core (core.rememberRoot platform) where
  wellFormed := rememberRoot_wellFormed wellFormed.log
  localName := rfl
  seqMap := le_of_eq rememberRoot_seqMap.symm

theorem rises_thread {source target : Threads Name} {label : ThreadStep}
    (wellFormed : source.core.WellFormed platform)
    (taken : source.step platform label = some target) :
    Rises platform source.core target.core := by
  have unchanged : target.core = source.core →
      Rises platform source.core target.core := by
    intro same
    rw [same]
    exact .refl wellFormed
  cases label with
  | receive content =>
      apply unchanged
      simp only [Threads.step] at taken
      split at taken
      · split at taken <;> cases taken <;> rfl
      · cases taken
  | applyState =>
      simp only [Threads.step] at taken
      split at taken
      · obtain ⟨log, applied, rfl⟩ := Option.map_eq_some_iff.mp taken
        apply rises_withLog wellFormed
        exact (applyState_spec wellFormed.log applied).1
      · cases taken
  | readRoot =>
      apply unchanged
      simp only [Threads.step] at taken
      split at taken <;> cases taken
      rfl
  | storeRoot =>
      simp only [Threads.step] at taken
      split at taken <;> cases taken
      exact rises_rememberRoot wellFormed
  | report =>
      apply unchanged
      simp only [Threads.step] at taken
      split at taken <;> cases taken
      rfl
  | announceReadRoot =>
      apply unchanged
      simp only [Threads.step] at taken
      split at taken <;> cases taken
      rfl
  | announceStoreRoot =>
      simp only [Threads.step] at taken
      split at taken <;> cases taken
      exact rises_rememberRoot wellFormed
  | announcePublish =>
      apply unchanged
      simp only [Threads.step] at taken
      split at taken <;> cases taken
      rfl
  | localAction =>
      obtain ⟨⟨seqNo, log⟩, consumed, rfl⟩ := Option.map_eq_some_iff.mp taken
      apply rises_withLog wellFormed
      exact (seqMap_localAction wellFormed consumed).1

theorem rises_restart {core : SyncCore Name} {log : SyncLog Name}
    (wellFormed : core.WellFormed platform)
    (reopened : SyncLog.construct platform.ndn core.log.db
      core.log.localName = some log) (localPrefix syncPrefix : Name) :
    Rises platform core (construct platform log localPrefix syncPrefix) := by
  obtain ⟨sameDb, sameName, -⟩ := SyncLog.construct_cases reopened
  refine ⟨construct_wellFormed (wellFormed.log.reopen reopened) _ _,
    sameName, ?_⟩
  rw [construct_seqMap, sameDb]
  exact (SyncDb.insertSyncNode_nodesGrown wellFormed.log.db _ 0).seqMap_le

namespace LocalNode

/-- The tables are well formed, and the number read was stored. -/
structure Sound (platform : Platform Name) (node : LocalNode Name) : Prop where
  wellFormed : node.core.WellFormed platform
  read : ∀ seqNo, node.read = some seqNo →
    (seqNo : WithBot Int64) ≤ node.stored platform

theorem initial_sound (localName localPrefix syncPrefix : Name) :
    Sound platform (initial platform localName localPrefix syncPrefix) where
  wellFormed := by
    apply construct_wellFormed
    exact (SyncLog.opened_reachable localName).wellFormed
  read := nofun

theorem stored_of_localRow {node : LocalNode Name} {row : SyncNode}
    (wellFormed : node.core.WellFormed platform)
    (found : node.core.log.localRow = some row) :
    node.stored platform = row.seqNo := by
  obtain ⟨local_, localIn, localId, localName⟩ := wellFormed.log.localRow
  have first : node.core.log.localRow = some local_ :=
    (Table.find?_eq_some_iff SyncNode.deviceId
      wellFormed.log.db.idsUnique).mpr ⟨localIn, localId⟩
  rw [LocalNode.stored, ← localName, Option.some.inj (found.symm.trans first)]
  exact Table.column_of_mem wellFormed.log.db.named.unique localIn

/-- The two statements of a call, with no other step between them, amount to
`GetNextLocalSeqNo`. -/
theorem select_update {node : LocalNode Name} (idle : node.read = none) :
    (node.step platform .selectSeqNo).bind
        (fun middle => middle.step platform .updateSeqNo) =
      node.core.log.getNextLocalSeqNo.map fun taken =>
        node.withLog taken.2 := by
  obtain ⟨threads, read⟩ := node
  subst idle
  rw [SyncLog.getNextLocalSeqNo_eq]
  cases found : (LocalNode.mk threads none).core.log.localRow with
  | none => simp [LocalNode.step, found]
  | some row =>
      simp only [LocalNode.step, found, Option.map_some, Option.bind_some]
      rfl

theorem stored_le {source target : LocalNode Name}
    (rises : Rises platform source.core target.core) :
    source.stored platform ≤ target.stored platform := by
  rw [LocalNode.stored, LocalNode.stored, rises.localName]
  exact rises.seqMap _

theorem step_cases {source target : LocalNode Name}
    {label : LocalNodeStep Name} (sound : source.Sound platform)
    (taken : source.step platform label = some target) :
    Rises platform source.core target.core ∧
      (target.read = source.read ∨ target.read = none ∨
        ∃ seqNo, target.read = some seqNo ∧
          source.stored platform = (seqNo : WithBot Int64)) := by
  have wellFormed := sound.wellFormed
  cases label with
  | thread label =>
      simp only [LocalNode.step] at taken
      split at taken
      · cases taken
      · obtain ⟨threads, stepped, rfl⟩ := Option.map_eq_some_iff.mp taken
        exact ⟨rises_thread wellFormed stepped, Or.inl rfl⟩
  | updateLocalSeqNo seqNo =>
      obtain rfl := Option.some.inj taken
      refine ⟨rises_withLog wellFormed ?_, Or.inl rfl⟩
      exact SyncLog.updateLocalSeqNo_grown wellFormed.log seqNo
  | selectSeqNo =>
      simp only [LocalNode.step] at taken
      split at taken
      · cases taken
      · obtain ⟨row, found, rfl⟩ := Option.map_eq_some_iff.mp taken
        refine ⟨.refl wellFormed, Or.inr (Or.inr ⟨row.seqNo, rfl, ?_⟩)⟩
        exact stored_of_localRow wellFormed found
  | updateSeqNo =>
      obtain ⟨seqNo, read, rfl⟩ := Option.map_eq_some_iff.mp taken
      refine ⟨rises_withLog wellFormed ?_, Or.inr (Or.inl rfl)⟩
      exact SyncLog.updateLocalSeqNo_grown wellFormed.log (seqNo + 1)
  | restart localPrefix syncPrefix =>
      obtain ⟨log, reopened, rfl⟩ := Option.map_eq_some_iff.mp taken
      exact ⟨rises_restart wellFormed reopened localPrefix syncPrefix,
        Or.inr (Or.inl rfl)⟩

theorem step_sound {source target : LocalNode Name}
    {label : LocalNodeStep Name}
    (taken : source.step platform label = some target)
    (sound : source.Sound platform) : target.Sound platform := by
  obtain ⟨rises, read⟩ := step_cases sound taken
  refine ⟨rises.wellFormed, ?_⟩
  intro seqNo here
  rcases read with same | none | ⟨number, now, stored⟩
  · exact (sound.read seqNo (same.symm.trans here)).trans (stored_le rises)
  · exact absurd (none.symm.trans here) (by simp)
  · rw [← Option.some.inj (now.symm.trans here), ← stored]
    exact stored_le rises

def Step (platform : Platform Name) (source : LocalNode Name)
    (label : LocalNodeStep Name) (target : LocalNode Name) : Prop :=
  source.step platform label = some target

/-- A number that is returned follows the one read, and is stored from then
on unless a greater one is. -/
theorem returned_cases {source : LocalNode Name}
    {label : LocalNodeStep Name} {seqNo : Int64}
    (number : returned (source, label) = some seqNo) :
    label = .updateSeqNo ∧
      ∃ current, source.read = some current ∧ seqNo = current + 1 := by
  cases label with
  | updateSeqNo =>
      obtain ⟨current, read, same⟩ := Option.map_eq_some_iff.mp number
      exact ⟨rfl, current, read, same.symm⟩
  | thread _ => cases number
  | updateLocalSeqNo _ => cases number
  | selectSeqNo => cases number
  | restart _ _ => cases number

theorem returned_le_stored {source target : LocalNode Name}
    {label : LocalNodeStep Name} {seqNo : Int64}
    (sound : source.Sound platform)
    (taken : source.Step platform label target)
    (number : returned (source, label) = some seqNo) :
    (seqNo : WithBot Int64) ≤ target.stored platform := by
  obtain ⟨rfl, current, read, rfl⟩ := returned_cases number
  obtain ⟨same, here, rfl⟩ := Option.map_eq_some_iff.mp taken
  obtain rfl := Option.some.inj (here.symm.trans read)
  have raised := SyncLog.seqMap_updateLocalSeqNo sound.wellFormed.log
    (same + 1)
  have stored := congrFun raised
    (platform.ndn.wire source.core.log.localName)
  rw [MaxMap.raise_self] at stored
  calc ((same + 1 : Int64) : WithBot Int64)
      ≤ source.stored platform ⊔ ((same + 1 : Int64) : WithBot Int64) :=
        le_sup_right
    _ = _ := stored.symm

/-- The number returned is above the stored one exactly if the number read was
still stored and has a successor. -/
theorem stored_lt_iff {source : LocalNode Name} {label : LocalNodeStep Name}
    (sound : source.Sound platform) :
    (∀ seqNo, returned (source, label) = some seqNo →
      source.stored platform < (seqNo : WithBot Int64)) ↔
    Undiverted platform source label := by
  constructor
  · intro above same seqNo read
    subst same
    have here : source.read = some seqNo := read
    have stored := above (seqNo + 1) (by simp [returned, here])
    have below := sound.read seqNo read
    cases reached : source.stored platform with
    | bot => simp [reached] at below
    | coe number =>
        rw [reached, WithBot.coe_lt_coe] at stored
        rw [reached, WithBot.coe_le_coe] at below
        have same := int64_eq_of_lt_succ below stored
        rw [same] at stored ⊢
        exact ⟨rfl, int64_lt_succ_iff.mp stored⟩
  · intro undiverted seqNo number
    obtain ⟨rfl, current, read, rfl⟩ := returned_cases number
    obtain ⟨stored, bounded⟩ := undiverted rfl current read
    rw [stored, WithBot.coe_lt_coe]
    exact int64_lt_succ_iff.mpr bounded

/-- The number a run returns is stored from then on, and no other is returned
again while each is above what is stored. -/
theorem returned_distinct {start final : LocalNode Name}
    {trace : LocalNodeTrace Name} (sound : start.Sound platform)
    (run : Run (Step platform) start trace final)
    (above : ∀ taken ∈ trace, ∀ seqNo, returned taken = some seqNo →
      taken.1.stored platform < (seqNo : WithBot Int64)) :
    (trace.filterMap returned).Nodup ∧
      ∀ seqNo ∈ trace.filterMap returned,
        (seqNo : WithBot Int64) ≤ final.stored platform := by
  induction run with
  | nil => simp
  | @snoc trace middle final label prefixRun taken induction =>
      have here : middle.Sound platform :=
        prefixRun.invariant sound fun _ _ _ => step_sound
      obtain ⟨distinct, below⟩ := induction fun other member =>
        above other (List.mem_append_left _ member)
      have rises := stored_le (step_cases here taken).1
      cases number : returned (middle, label) with
      | none =>
          simp only [List.filterMap_append, List.filterMap_cons, number,
            List.filterMap_nil, List.append_nil]
          exact ⟨distinct, fun seqNo member =>
            (below seqNo member).trans rises⟩
      | some seqNo =>
          have fresh := above (middle, label) (by simp) seqNo number
          have now := returned_le_stored here taken number
          simp only [List.filterMap_append, List.filterMap_cons, number,
            List.filterMap_nil]
          refine ⟨?_, ?_⟩
          · apply List.nodup_append.mpr
            refine ⟨distinct, List.nodup_singleton seqNo, ?_⟩
            intro earlier member other otherIn same
            rw [List.mem_singleton] at otherIn
            have stored := below earlier member
            rw [same, otherIn] at stored
            exact absurd fresh (not_lt_of_ge stored)
          · intro other member
            rcases List.mem_append.mp member with before | last
            · exact (below other before).trans rises
            · rw [List.mem_singleton.mp last]
              exact now

end LocalNode

/-- In every run of a node the numbers returned are fresh exactly if each was
taken from the number still stored, which was not the last one. -/
theorem freshNumbers_iff {localName localPrefix syncPrefix : Name}
    {trace : LocalNodeTrace Name} {final : LocalNode Name}
    (run : Run (LocalNode.Step platform)
      (.initial platform localName localPrefix syncPrefix) trace final) :
    FreshNumbers platform trace ↔
      ∀ taken ∈ trace, Undiverted platform taken.1 taken.2 := by
  have initial : LocalNode.Sound platform
      (.initial platform localName localPrefix syncPrefix) :=
    LocalNode.initial_sound localName localPrefix syncPrefix
  have sound : ∀ taken ∈ trace, taken.1.Sound platform := by
    intro taken member
    exact run.invariant_of_mem initial (fun _ _ _ => LocalNode.step_sound)
      member
  have above : (∀ taken ∈ trace, Undiverted platform taken.1 taken.2) ↔
      ∀ taken ∈ trace, ∀ seqNo, returned taken = some seqNo →
        taken.1.stored platform < (seqNo : WithBot Int64) := by
    apply forall₂_congr
    intro taken member
    exact (LocalNode.stored_lt_iff (sound taken member)).symm
  rw [above]
  constructor
  · intro fresh taken member seqNo number
    obtain ⟨before, after, split⟩ := List.append_of_mem member
    exact fresh.above before taken after seqNo split number taken (by simp)
  · intro each
    refine ⟨(LocalNode.returned_distinct initial run each).1, ?_⟩
    intro before taken after seqNo split number earlier earlierIn
    have ordered := run.pairwise (fun node => node.Sound platform)
      (fun first second => first.stored platform ≤ second.stored platform)
      initial (fun _ _ _ stepped here => LocalNode.step_sound stepped here)
      le_trans
      fun _ _ _ stepped here =>
        LocalNode.stored_le (LocalNode.step_cases here stepped).1
    have fresh := each taken (split ▸ by simp) seqNo number
    rcases List.mem_append.mp earlierIn with member | last
    · rw [split, List.map_append, List.append_assoc] at ordered
      have below := (List.pairwise_append.mp ordered).2.2 earlier.1
        (List.mem_map_of_mem member) taken.1 (by simp)
      exact below.trans_lt fresh
    · rw [List.mem_singleton.mp last]
      exact fresh

end Numbers

/-- The node of `/alex` on an empty database. -/
def startedNode : LocalNode Name :=
  .initial (plainPlatform Name.uriOps) Name.alex Name.alex Name.broadcast

/-- `/alex` is restarted between two local actions. -/
def restartedBetween : List (LocalNodeStep Name) :=
  [.selectSeqNo, .updateSeqNo, .restart Name.alex Name.broadcast,
    .selectSeqNo, .updateSeqNo]

theorem freshNumbers_restartedBetween :
    ∃ trace final, Run (LocalNode.Step (plainPlatform Name.uriOps))
        startedNode trace final ∧
      trace.map Prod.snd = restartedBetween ∧
      trace.filterMap returned = [1, 2] ∧
      FreshNumbers (plainPlatform Name.uriOps) trace := by
  have executed : (execute (LocalNode.step (plainPlatform Name.uriOps))
      startedNode restartedBetween).any (fun result =>
        result.1.map Prod.snd = restartedBetween ∧
        result.1.filterMap returned = [1, 2] ∧
        ∀ taken ∈ result.1,
          Undiverted (plainPlatform Name.uriOps) taken.1 taken.2) = true := by
    decide +kernel
  obtain ⟨⟨trace, final⟩, reached, facts⟩ :=
    (Option.any_eq_true _ _).mp executed
  obtain ⟨labels, numbers, undiverted⟩ := of_decide_eq_true facts
  have run := execute_run reached
  exact ⟨trace, final, run, labels, numbers,
    (freshNumbers_iff run).mpr undiverted⟩

/-- A message that gives `/alex` the greatest number a column holds. -/
def alexExhausted : Bytes :=
  writeMessage [⟨[0x2F, 0x61, 0x6C, 0x65, 0x78], .update,
    some 0x7FFFFFFFFFFFFFFF, none, none⟩]

/-- The message is handled before two local actions. -/
def takesAfterLast : List (LocalNodeStep Name) :=
  [.thread (.receive alexExhausted), .thread .applyState, .thread .readRoot,
    .thread .storeRoot, .thread .report, .selectSeqNo, .updateSeqNo,
    .selectSeqNo, .updateSeqNo]

/-- After such a message every local action is given the least number of all,
again and again. -/
theorem least_number_returned_twice :
    ∃ trace final, Run (LocalNode.Step (plainPlatform Name.uriOps))
        startedNode trace final ∧
      trace.map Prod.snd = takesAfterLast ∧
      trace.filterMap returned = [Int64.minValue, Int64.minValue] ∧
      ¬ FreshNumbers (plainPlatform Name.uriOps) trace := by
  have executed : (execute (LocalNode.step (plainPlatform Name.uriOps))
      startedNode takesAfterLast).any (fun result =>
        result.1.map Prod.snd = takesAfterLast ∧
        result.1.filterMap returned =
          [Int64.minValue, Int64.minValue]) = true := by
    decide +kernel
  obtain ⟨⟨trace, final⟩, reached, facts⟩ :=
    (Option.any_eq_true _ _).mp executed
  obtain ⟨labels, numbers⟩ := of_decide_eq_true facts
  refine ⟨trace, final, execute_run reached, labels, numbers, ?_⟩
  intro fresh
  have distinct := fresh.distinct
  rw [numbers] at distinct
  exact absurd distinct (by decide)

end SyncCore

end ChronoShare
