import ChronoShare.ActionLog.Parents

/-!
# The latest action and the file shown

The trigger ranks the actions on a file by version and device name, while a
new local action builds on any of the actions of the greatest version.  The
two agree exactly where the actions of the greatest version leave no choice.
-/

namespace ChronoShare

/-- What a new action on the file builds on. -/
def ActionRow.origin (row : ActionRow) : Option (Bytes × Int64) :=
  match row.action with
  | .update => some (row.deviceName, row.seqNo)
  | .delete => none

theorem ActionRow.origin_eq_none_iff {row : ActionRow} :
    row.origin = none ↔ row.action = .delete := by
  cases kind : row.action <;> simp [origin, kind]

theorem ActionRow.origin_eq_some_iff {row : ActionRow}
    {source : Bytes × Int64} :
    row.origin = some source ↔
      row.action = .update ∧ (row.deviceName, row.seqNo) = source := by
  cases kind : row.action <;> simp [origin, kind]

/-- The action that the row of a file came from. -/
def FileState.origin (files : List FileRow) (filename : Bytes) :
    Option (Bytes × Int64) :=
  (files.find? fun row => row.filename = filename).map fun row =>
    (row.deviceName, row.seqNo)

theorem FileState.origin_isSome_iff {files : List FileRow}
    {filename : Bytes} :
    (origin files filename).isSome ↔
      ∃ file ∈ files, file.filename = filename := by
  simp [origin]

theorem FileState.origin_eq_view (files : List FileRow) (filename : Bytes) :
    origin files filename =
      (view files filename).map fun row => (row.deviceName, row.seqNo) := by
  rw [origin, view, Option.map_map]
  rfl

namespace ActionLog

variable {Name : Type}

/-- The actions of the greatest version, of which a lookup returns one. -/
def latestActions (actions : List ActionRow) (filename : Bytes) :
    List ActionRow :=
  (actionsOn actions filename).filter fun row =>
    (actionsOn actions filename).all fun other => other.version ≤ row.version

theorem mem_latestActions {actions : List ActionRow} {filename : Bytes}
    {row : ActionRow} :
    row ∈ latestActions actions filename ↔
      Latest ActionRow.version (actionsOn actions filename) row := by
  simp [latestActions, Latest]

theorem latestRow_eq (actions : List ActionRow) (filename : Bytes)
    (choice : Nat) :
    latestRow actions filename choice =
      (latestActions actions filename)[choice %
        (latestActions actions filename).length]? :=
  rfl

theorem exists_choice {actions : List ActionRow} {filename : Bytes}
    {row : ActionRow} (member : row ∈ latestActions actions filename) :
    ∃ choice, latestRow actions filename choice = some row := by
  obtain ⟨index, bounded, rfl⟩ := List.getElem_of_mem member
  refine ⟨index, ?_⟩
  rw [latestRow_eq, Nat.mod_eq_of_lt bounded]
  exact List.getElem?_eq_getElem bounded

/-- What a call builds on when the lookup makes the choice. -/
def builtOn (actions : List ActionRow) (filename : Bytes) (choice : Nat) :
    Option (Bytes × Int64) :=
  (latestRow actions filename choice).bind ActionRow.origin

theorem getLatestActionForFile_eq (actions : List ActionRow)
    (filename : Bytes) (choice : Nat) :
    ∃ version, getLatestActionForFile actions filename choice =
      (version, (builtOn actions filename choice).map (·.1),
        ((builtOn actions filename choice).map (·.2)).getD (-1)) := by
  cases found : latestRow actions filename choice with
  | none => exact ⟨-1, by simp [getLatestActionForFile, builtOn, found]⟩
  | some row =>
      refine ⟨row.version, ?_⟩
      cases kind : row.action <;>
        simp [getLatestActionForFile, builtOn, ActionRow.origin, found, kind]

variable (platform : ActionPlatform Name)

/-- The call appends a deletion of the file. -/
def AppendsDelete (log : ActionLog Name) (choice : Nat) (actionTime : Int64)
    (memory : Nat → UInt8) (filename : Bytes) : Prop :=
  ∃ result after row,
    log.addLocalActionDelete platform choice actionTime memory filename =
      some (result, after) ∧
    after.actions = log.actions ++ [row] ∧ row.action = .delete ∧
      row.filename = filename

/-- The action that a call added names the parent, in its item and in its
row. -/
def Records (before after : ActionLog Name) (item : ActionItem)
    (parent : Option (Bytes × Int64)) : Prop :=
  item.parent = parent ∧
    ∀ row ∈ after.actions, row ∈ before.actions ∨ row.parent = parent

/-- Whichever of the latest actions is returned, local actions on a file
follow the row of the file. -/
structure ActsOnShown (log : ActionLog Name) (filename : Bytes) : Prop where
  delete : ∀ choice actionTime memory,
    AppendsDelete platform log choice actionTime memory filename ↔
      ∃ file ∈ log.fileState, file.filename = filename
  updateParent : ∀ choice actionTime hash wtime mode segNum item after,
    log.addLocalActionUpdate platform choice actionTime filename hash wtime
        mode segNum = some (item, after) →
      Records log after item (FileState.origin log.fileState filename)
  deleteParent : ∀ choice actionTime memory item after,
    log.addLocalActionDelete platform choice actionTime memory filename =
        some (some item, after) →
      Records log after item (FileState.origin log.fileState filename)

variable {platform}

theorem parent_updateItem (filename hash : Bytes)
    (version actionTime wtime : Int64) (mode segNum : Int32)
    (parent : Option (Bytes × Int64)) :
    (updateItem filename hash version actionTime wtime mode segNum
      parent).parent = parent := by
  cases parent <;> simp [updateItem, ActionItem.parent]

theorem addLocalActionUpdate_records {log after : ActionLog Name}
    {choice : Nat} {actionTime wtime : Int64} {filename hash : Bytes}
    {mode segNum : Int32} {item : ActionItem}
    (added : log.addLocalActionUpdate platform choice actionTime filename hash
      wtime mode segNum = some (item, after)) :
    Records log after item
      ((builtOn log.actions filename choice).filter fun parent =>
        0 < parent.2) := by
  obtain ⟨version, latest⟩ :=
    getLatestActionForFile_eq log.actions filename choice
  cases numbered : log.syncLog.getNextLocalSeqNo with
  | none => simp [addLocalActionUpdate, numbered] at added
  | some next =>
      simp only [addLocalActionUpdate, numbered, latest, Option.some.injEq,
        Prod.mk.injEq] at added
      obtain ⟨rfl, rfl⟩ := added
      have parent : (if 0 < ((builtOn log.actions filename choice).map
            (·.2)).getD (-1) then
          ((builtOn log.actions filename choice).map (·.1)).map fun name =>
            (name, ((builtOn log.actions filename choice).map (·.2)).getD (-1))
        else none) =
          (builtOn log.actions filename choice).filter fun parent =>
            0 < parent.2 := by
        cases builtOn log.actions filename choice with
        | none => simp
        | some source => simp [Option.filter]
      refine ⟨?_, ?_⟩
      · rw [parent_updateItem, parent]
      · intro row rowIn
        rcases mem_insertAction rowIn with earlier | rfl
        · exact Or.inl earlier
        · apply Or.inr
          rw [(tellsOf_updateRow _ _ _ _ _ _ _ _ _ _).parent,
            parent_updateItem, parent]

theorem parent_deleteItem (filename : Bytes) (version actionTime : Int64)
    (parent : Bytes × Int64) :
    (deleteItem filename version actionTime parent.1 parent.2).parent =
      some parent := by
  simp [deleteItem, ActionItem.parent]

theorem addLocalActionDelete_of_none {log : ActionLog Name} {choice : Nat}
    {filename : Bytes} (nothing : builtOn log.actions filename choice = none)
    (actionTime : Int64) (memory : Nat → UInt8) :
    log.addLocalActionDelete platform choice actionTime memory filename =
      some (none, log) := by
  obtain ⟨version, latest⟩ :=
    getLatestActionForFile_eq log.actions filename choice
  rw [addLocalActionDelete, latest, nothing]
  rfl

theorem addLocalActionDelete_of_some {log : ActionLog Name} {choice : Nat}
    {filename : Bytes} {parent : Bytes × Int64}
    (found : builtOn log.actions filename choice = some parent)
    {seqNo : Int64} {next : SyncLog Name}
    (numbered : log.syncLog.getNextLocalSeqNo = some (seqNo, next))
    (actionTime : Int64) (memory : Nat → UInt8) :
    ∃ version,
      log.addLocalActionDelete platform choice actionTime memory filename =
        some (some (deleteItem filename version actionTime parent.1 parent.2),
          { log with syncLog := next }.insertAction
            (deleteRow platform log.syncLog.localName seqNo memory filename
              version actionTime parent.1 parent.2)) := by
  obtain ⟨version, latest⟩ :=
    getLatestActionForFile_eq log.actions filename choice
  refine ⟨version + 1, ?_⟩
  rw [addLocalActionDelete, latest, found]
  simp [numbered]

theorem addLocalActionDelete_records {log after : ActionLog Name}
    {choice : Nat} {actionTime : Int64} {memory : Nat → UInt8}
    {filename : Bytes} {item : ActionItem}
    (added : log.addLocalActionDelete platform choice actionTime memory
      filename = some (some item, after)) :
    Records log after item (builtOn log.actions filename choice) := by
  cases found : builtOn log.actions filename choice with
  | none =>
      rw [addLocalActionDelete_of_none found] at added
      simp at added
  | some parent =>
      cases numbered : log.syncLog.getNextLocalSeqNo with
      | none =>
          obtain ⟨version, latest⟩ :=
            getLatestActionForFile_eq log.actions filename choice
          simp [addLocalActionDelete, latest, found, numbered] at added
      | some next =>
          obtain ⟨version, returned⟩ := @addLocalActionDelete_of_some _
            platform log choice filename parent found next.1 next.2 numbered
            actionTime memory
          rw [returned] at added
          simp only [Option.some.injEq, Prod.mk.injEq] at added
          obtain ⟨rfl, rfl⟩ := added
          refine ⟨parent_deleteItem filename version actionTime parent, ?_⟩
          intro row rowIn
          rcases mem_insertAction rowIn with earlier | rfl
          · exact Or.inl earlier
          · apply Or.inr
            rw [(tellsOf_deleteRow _ _ _ _ _ _ _ _).parent]
            exact parent_deleteItem filename version actionTime parent

def key (row : ActionRow) : Bytes × Int64 :=
  (row.deviceName, row.seqNo)

/-- The local device has a number, no two rows share a key, and the rows under
the wire form of the local name have numbers it has reached. -/
structure Keyed (platform : ActionPlatform Name) (log : ActionLog Name) :
    Prop where
  counted : log.syncLog.localNumber ≠ ⊥
  keys : DistinctStamps key log.actions
  own : ∀ row ∈ log.actions,
    row.deviceName = platform.ndn.wire log.syncLog.localName →
      row.seqNo ≠ Int64.minValue ∧
        (row.seqNo : WithBot Int64) ≤ log.syncLog.localNumber

/-- The shared log of states is only advanced, and no call would increment the
greatest number. -/
def Orderly (source : ActionLog Name) : ActionCall Name → Prop
  | .syncLogChanged syncLog => source.syncLog.Advances syncLog
  | .addRemoteAction .. => True
  | .addLocalActionUpdate .. =>
      source.syncLog.getNextLocalSeqNo.map (·.1) ≠ some Int64.minValue
  | .addLocalActionDelete .. =>
      source.syncLog.getNextLocalSeqNo.map (·.1) ≠ some Int64.minValue

instance [DecidableEq Name] (source : ActionLog Name)
    (label : ActionCall Name) : Decidable (Orderly source label) := by
  cases label <;> unfold Orderly <;> infer_instance

namespace Keyed

variable {log : ActionLog Name}

theorem advance (keyed : Keyed platform log) {next : SyncLog Name}
    (advances : log.syncLog.Advances next) :
    Keyed platform { log with syncLog := next } where
  counted := ne_bot_of_le_ne_bot keyed.counted advances.localNumber
  keys := keyed.keys
  own := by
    intro row rowIn named
    rw [advances.localName] at named
    obtain ⟨defined, bounded⟩ := keyed.own row rowIn named
    exact ⟨defined, bounded.trans advances.localNumber⟩

theorem changeFiles (keyed : Keyed platform log) (files : List FileRow) :
    Keyed platform { log with fileState := files } :=
  ⟨keyed.counted, keyed.keys, keyed.own⟩

theorem insertAction (keyed : Keyed platform log) {new : ActionRow}
    (own : new.deviceName = platform.ndn.wire log.syncLog.localName →
      new.seqNo ≠ Int64.minValue ∧
        (new.seqNo : WithBot Int64) ≤ log.syncLog.localNumber) :
    Keyed platform (log.insertAction new) := by
  refine ⟨?_, ?_, ?_⟩
  · rw [insertAction_syncLog]
    exact keyed.counted
  · by_cases recorded : Recorded log.actions new
    · rw [insertAction_of_recorded recorded]
      exact keyed.keys
    · rw [insertAction_of_not_recorded recorded]
      apply List.pairwise_append.mpr
      refine ⟨keyed.keys, List.pairwise_singleton _ _, ?_⟩
      intro row rowIn other last same
      rw [List.mem_singleton.mp last] at same
      obtain ⟨sameName, sameNumber⟩ := Prod.mk.inj same
      exact recorded ⟨row, rowIn, sameName, sameNumber⟩
  · rw [insertAction_syncLog]
    intro row rowIn
    rcases mem_insertAction rowIn with earlier | rfl
    · exact keyed.own row earlier
    · exact own

theorem insertAction_value (blobs : platform.ndn.DistinctBlobs)
    (keyed : Keyed platform log) {new : ActionRow} {deviceName : Name}
    (named : new.deviceName = platform.ndn.value deviceName) :
    Keyed platform (log.insertAction new) := by
  apply keyed.insertAction
  intro asWire
  rw [named] at asWire
  exact absurd asWire (blobs.wire_lt_value _ _).ne'

theorem step (blobs : platform.ndn.DistinctBlobs)
    (keyed : Keyed platform log) {target : ActionLog Name}
    {label : ActionCall Name} (orderly : Orderly log label)
    (taken : ActionLog.step platform log label = some target) :
    Keyed platform target := by
  cases label with
  | addLocalActionUpdate choice actionTime filename hash wtime mode segNum =>
      simp only [ActionLog.step, call, Option.map_map,
        Option.map_eq_some_iff, Function.comp_apply] at taken
      obtain ⟨⟨item, after⟩, added, rfl⟩ := taken
      obtain ⟨seqNo, next, parent, numbered, -, rfl⟩ :=
        addLocalActionUpdate_cases added
      have defined : seqNo ≠ Int64.minValue := by
        simpa [Orderly, numbered] using orderly
      obtain ⟨advances, -⟩ :=
        SyncLog.getNextLocalSeqNo_advances numbered defined
      apply Keyed.changeFiles
      exact (keyed.advance advances).insertAction_value blobs rfl
  | addLocalActionDelete choice actionTime memory filename =>
      simp only [ActionLog.step, call, Option.map_eq_some_iff] at taken
      obtain ⟨⟨result, after⟩, added, rfl⟩ := taken
      rcases addLocalActionDelete_cases added with
        ⟨-, rfl⟩ | ⟨seqNo, next, parent, parentSeqNo, numbered, -, rfl⟩
      · exact keyed
      · have defined : seqNo ≠ Int64.minValue := by
          simpa [Orderly, numbered] using orderly
        obtain ⟨advances, -, reached⟩ :=
          SyncLog.getNextLocalSeqNo_advances numbered defined
        apply (keyed.advance advances).insertAction
        intro _
        exact ⟨defined, reached⟩
  | addRemoteAction deviceName seqNo actionPco =>
      simp only [ActionLog.step, call, Option.map_some,
        Option.some.injEq] at taken
      subst taken
      rcases addRemoteAction_cases platform log deviceName seqNo actionPco
        with same | ⟨data, item, -, -, inserted⟩
      · rw [same]
        exact keyed
      · rw [inserted]
        exact keyed.insertAction_value blobs rfl
  | syncLogChanged syncLog =>
      simp only [ActionLog.step, call, Option.map_some,
        Option.some.injEq] at taken
      subst taken
      exact keyed.advance orderly

theorem start {sha256 : Bytes → Bytes} {syncLog : SyncLog Name}
    (reachable : SyncLog.Reachable platform.ndn sha256 syncLog) :
    Keyed platform (opened syncLog) where
  counted := reachable.wellFormed.localNumber_ne_bot
  keys := List.Pairwise.nil
  own := by
    intro row rowIn
    exact absurd rowIn List.not_mem_nil

theorem numbered (keyed : Keyed platform log) :
    ∃ seqNo next, log.syncLog.getNextLocalSeqNo = some (seqNo, next) := by
  cases found : log.syncLog.localRow with
  | none =>
      have uncounted : log.syncLog.localNumber = ⊥ := by
        rw [SyncLog.localNumber, found]
        rfl
      exact absurd uncounted keyed.counted
  | some row =>
      refine ⟨row.seqNo + 1, log.syncLog.updateLocalSeqNo (row.seqNo + 1), ?_⟩
      rw [SyncLog.getNextLocalSeqNo_eq, found]
      rfl

theorem not_recorded (keyed : Keyed platform log) {seqNo : Int64}
    {next : SyncLog Name}
    (taken : log.syncLog.getNextLocalSeqNo = some (seqNo, next))
    {new : ActionRow}
    (named : new.deviceName = platform.ndn.wire log.syncLog.localName)
    (number : new.seqNo = seqNo) : ¬ Recorded log.actions new := by
  intro recorded
  obtain ⟨row, rowIn, sameName, sameNumber⟩ := recorded
  obtain ⟨defined, bounded⟩ := keyed.own row rowIn (sameName.trans named)
  rw [sameNumber, number] at defined bounded
  have above := (SyncLog.getNextLocalSeqNo_advances taken defined).2.1
  exact absurd bounded (not_le.mpr above)

theorem appendsDelete_iff (keyed : Keyed platform log) {choice : Nat}
    {actionTime : Int64} {memory : Nat → UInt8} {filename : Bytes} :
    AppendsDelete platform log choice actionTime memory filename ↔
      (builtOn log.actions filename choice).isSome := by
  cases found : builtOn log.actions filename choice with
  | none =>
      simp [AppendsDelete, addLocalActionDelete_of_none found]
  | some parent =>
      obtain ⟨seqNo, next, taken⟩ := keyed.numbered
      obtain ⟨version, returned⟩ := @addLocalActionDelete_of_some _ platform
        log choice filename parent found seqNo next taken actionTime memory
      let new := deleteRow platform log.syncLog.localName seqNo memory filename
        version actionTime parent.1 parent.2
      have absent : ¬ Recorded log.actions new :=
        keyed.not_recorded taken rfl rfl
      have appended : AppendsDelete platform log choice actionTime memory
          filename := by
        refine ⟨_, _, new, returned, ?_, rfl, rfl⟩
        have inserted := @insertAction_of_not_recorded _
          { log with syncLog := next } new absent
        exact congrArg ActionLog.actions inserted
      simpa using appended

/-- Local actions follow the row of the file exactly if every choice of the
lookup builds on it, with a number. -/
theorem actsOnShown_iff_builtOn (keyed : Keyed platform log)
    {filename : Bytes} :
    ActsOnShown platform log filename ↔ ∀ choice,
      builtOn log.actions filename choice =
          FileState.origin log.fileState filename ∧
        (builtOn log.actions filename choice).filter (fun parent =>
            0 < parent.2) =
          FileState.origin log.fileState filename := by
  obtain ⟨seqNo, next, taken⟩ := keyed.numbered
  constructor
  · intro acts choice
    constructor
    · have appended := acts.delete choice 0 (fun _ => 0)
      rw [keyed.appendsDelete_iff, ← FileState.origin_isSome_iff] at appended
      cases found : builtOn log.actions filename choice with
      | none =>
          rw [found] at appended
          have absent :
              ¬ (FileState.origin log.fileState filename).isSome := by
            intro present
            exact absurd (appended.mpr present) (by simp)
          exact (Option.not_isSome_iff_eq_none.mp absent).symm
      | some parent =>
          obtain ⟨version, returned⟩ := @addLocalActionDelete_of_some _
            platform log choice filename parent found seqNo next taken 0
            (fun _ => 0)
          have shown := (acts.deleteParent choice 0 _ _ _ returned).1
          rwa [parent_deleteItem] at shown
    · cases added : log.addLocalActionUpdate platform choice 0 filename [] 0 0
          0 with
      | none => simp [addLocalActionUpdate, taken] at added
      | some result =>
          have shown := acts.updateParent choice 0 [] 0 0 0 result.1 result.2
            added
          have built := addLocalActionUpdate_records added
          exact built.1.symm.trans shown.1
  · intro shown
    constructor
    · intro choice actionTime memory
      rw [keyed.appendsDelete_iff, (shown choice).1]
      exact FileState.origin_isSome_iff
    · intro choice actionTime hash wtime mode segNum item after added
      rw [← (shown choice).2]
      exact addLocalActionUpdate_records added
    · intro choice actionTime memory item after added
      rw [← (shown choice).1]
      exact addLocalActionDelete_records added

end Keyed

/-- The actions of the greatest version leave no choice: all are deletions, or
there is one, an update with a number. -/
inductive Unambiguous (actions : List ActionRow) (filename : Bytes) :
    Prop where
  | removed :
      (∀ row ∈ latestActions actions filename, row.action = .delete) →
      Unambiguous actions filename
  | changed {row : ActionRow} :
      latestActions actions filename = [row] → row.action = .update →
      0 < row.seqNo → Unambiguous actions filename

/-- The row of the file is the one the latest action left. -/
def ShowsLatest (log : ActionLog Name) (filename : Bytes) : Prop :=
  FileState.origin log.fileState filename =
    (latestActions log.actions filename).head?.bind ActionRow.origin

theorem builtOn_of_removed {actions : List ActionRow} {filename : Bytes}
    (removed : ∀ row ∈ latestActions actions filename, row.action = .delete)
    (choice : Nat) : builtOn actions filename choice = none := by
  cases found : latestRow actions filename choice with
  | none => simp [builtOn, found]
  | some row =>
      have member : row ∈ latestActions actions filename :=
        List.mem_of_getElem? found
      simpa [builtOn, found] using
        ActionRow.origin_eq_none_iff.mpr (removed row member)

theorem builtOn_of_only {actions : List ActionRow} {filename : Bytes}
    {row : ActionRow} (only : latestActions actions filename = [row])
    (choice : Nat) : builtOn actions filename choice = row.origin := by
  have chosen : latestRow actions filename choice = some row := by
    rw [latestRow_eq, only]
    simp [Nat.mod_one]
  simp [builtOn, chosen]

theorem tail_eq_nil_of_origin {head : ActionRow} {tail : List ActionRow}
    {source : Bytes × Int64} (keys : DistinctStamps key (head :: tail))
    (same : ∀ row ∈ head :: tail, row.origin = some source) : tail = [] := by
  apply List.eq_nil_iff_forall_not_mem.mpr
  intro row member
  have first := ActionRow.origin_eq_some_iff.mp
    (same head List.mem_cons_self)
  have other := ActionRow.origin_eq_some_iff.mp
    (same row (List.mem_cons_of_mem head member))
  exact (List.pairwise_cons.mp keys).1 row member
    (first.2.trans other.2.symm)

theorem unambiguous_of_builtOn {actions : List ActionRow} {filename : Bytes}
    (keys : DistinctStamps key actions) {shown : Option (Bytes × Int64)}
    (built : ∀ choice, builtOn actions filename choice = shown ∧
      (builtOn actions filename choice).filter (fun parent =>
        0 < parent.2) = shown) :
    Unambiguous actions filename ∧
      shown = (latestActions actions filename).head?.bind
        ActionRow.origin := by
  have same : ∀ row ∈ latestActions actions filename,
      row.origin = shown := by
    intro row member
    obtain ⟨choice, chosen⟩ := exists_choice member
    simpa [builtOn, chosen] using (built choice).1
  cases latest : latestActions actions filename with
  | nil =>
      have nothing : ∀ row ∈ latestActions actions filename,
          row.action = .delete := by simp [latest]
      refine ⟨.removed nothing, ?_⟩
      rw [← (built 0).1]
      exact builtOn_of_removed nothing 0
  | cons head tail =>
      rw [latest] at same
      have first : head.origin = shown := same head List.mem_cons_self
      refine ⟨?_, first.symm⟩
      cases shown with
      | none =>
          apply Unambiguous.removed
          rw [latest]
          exact fun row member =>
            ActionRow.origin_eq_none_iff.mp (same row member)
      | some source =>
          obtain ⟨isUpdate, sameKey⟩ :=
            ActionRow.origin_eq_some_iff.mp first
          have distinct : DistinctStamps key (head :: tail) := by
            rw [← latest]
            exact (List.Pairwise.filter _ keys).filter _
          rw [tail_eq_nil_of_origin distinct same] at latest
          have positive := (built 0).2
          rw [builtOn_of_only latest, first] at positive
          apply Unambiguous.changed latest isUpdate
          have number : head.seqNo = source.2 := congrArg Prod.snd sameKey
          rw [number]
          simpa [Option.filter] using positive

theorem Unambiguous.builtOn_eq {actions : List ActionRow} {filename : Bytes}
    (unambiguous : Unambiguous actions filename) (choice : Nat) :
    let shown := (latestActions actions filename).head?.bind ActionRow.origin
    builtOn actions filename choice = shown ∧
      (builtOn actions filename choice).filter (fun parent =>
        0 < parent.2) = shown := by
  intro shown
  cases unambiguous with
  | removed removed =>
      have nothing : shown = none := by
        cases latest : latestActions actions filename with
        | nil => simp [shown, latest]
        | cons head tail =>
            have isDelete := removed head (by simp [latest])
            simpa [shown, latest] using
              ActionRow.origin_eq_none_iff.mpr isDelete
      rw [builtOn_of_removed removed, nothing]
      exact ⟨rfl, rfl⟩
  | @changed row only isUpdate positive =>
      have built : row.origin = some (row.deviceName, row.seqNo) :=
        ActionRow.origin_eq_some_iff.mpr ⟨isUpdate, rfl⟩
      rw [builtOn_of_only only]
      simp [shown, only, built, positive]

theorem builtOn_iff_unambiguous {actions : List ActionRow} {filename : Bytes}
    (keys : DistinctStamps key actions) {shown : Option (Bytes × Int64)} :
    (∀ choice, builtOn actions filename choice = shown ∧
        (builtOn actions filename choice).filter (fun parent =>
          0 < parent.2) = shown) ↔
      Unambiguous actions filename ∧
        shown = (latestActions actions filename).head?.bind
          ActionRow.origin := by
  constructor
  · exact unambiguous_of_builtOn keys
  · rintro ⟨unambiguous, rfl⟩ choice
    exact unambiguous.builtOn_eq choice

/-- In ordinary histories the row of the file is the one the latest action
left, where the actions of the greatest version leave no choice. -/
theorem Unambiguous.showsLatest {log : ActionLog Name} {filename : Bytes}
    (current : Current log.actions log.fileState)
    (unambiguous : Unambiguous log.actions filename) :
    ShowsLatest log filename := by
  have settled := current.settled filename
  by_cases untouched : actionsOn log.actions filename = []
  · rw [ShowsLatest, FileState.origin_eq_view, settled.1 untouched,
      latestActions, untouched]
    rfl
  obtain ⟨last, lastIn, greatest⟩ :=
    @exists_latest _ _ ActionRow.stamp _ _ untouched
  have member : last ∈ latestActions log.actions filename := by
    apply mem_latestActions.mpr
    refine ⟨lastIn, ?_⟩
    intro row rowIn
    exact Prod.Lex.monotone_fst _ _ (greatest row rowIn)
  have shown : FileState.origin log.fileState filename = last.origin := by
    rw [FileState.origin_eq_view, settled.2 last ⟨lastIn, greatest⟩]
    cases kind : last.action <;>
      simp [ActionRow.effect, ActionRow.origin, kind]
  rw [ShowsLatest, shown]
  cases unambiguous with
  | removed removed =>
      obtain ⟨head, tail, latest⟩ :=
        List.exists_cons_of_ne_nil (List.ne_nil_of_mem member)
      have headIn : head ∈ latestActions log.actions filename := by
        simp [latest]
      rw [latest, ActionRow.origin_eq_none_iff.mpr (removed last member)]
      exact (ActionRow.origin_eq_none_iff.mpr (removed head headIn)).symm
  | changed only _ _ =>
      rw [only] at member ⊢
      rw [List.mem_singleton.mp member]
      rfl

/-- In every log a run reaches, local actions on a file follow its row exactly
if the actions of the greatest version leave no choice and the row is the one
the latest of them left; in ordinary histories the former is enough. -/
theorem acts_on_shown_iff (blobs : platform.ndn.DistinctBlobs)
    {sha256 : Bytes → Bytes} {syncLog : SyncLog Name}
    (reachable : SyncLog.Reachable platform.ndn sha256 syncLog)
    {trace : List (ActionLog Name × ActionCall Name)} {final : ActionLog Name}
    (calls : Calls platform (opened syncLog) trace final)
    (orderly : ∀ taken ∈ trace, Orderly taken.1 taken.2) (filename : Bytes) :
    (ActsOnShown platform final filename ↔
        Unambiguous final.actions filename ∧ ShowsLatest final filename) ∧
      (OrdinaryActions final.actions →
        (ActsOnShown platform final filename ↔
          Unambiguous final.actions filename)) := by
  have keyed : Keyed platform final := by
    apply calls.invariant_of_steps Orderly orderly (.start reachable)
    intro source label target ordered taken before
    exact before.step blobs ordered taken
  have exactly : ActsOnShown platform final filename ↔
      Unambiguous final.actions filename ∧ ShowsLatest final filename := by
    rw [keyed.actsOnShown_iff_builtOn, builtOn_iff_unambiguous keyed.keys]
    rfl
  refine ⟨exactly, ?_⟩
  intro ordinary
  rw [exactly]
  constructor
  · exact And.left
  · intro unambiguous
    have current := calls_current calls ordinary
    exact ⟨unambiguous, unambiguous.showsLatest current⟩

/-- `/alex` adds a file and changes it. -/
def addAndChange : List (ActionCall DeviceName) :=
  [.addLocalActionUpdate 0 5 [0x66] [1] 6 420 1,
    .addLocalActionUpdate 0 7 [0x66] [2] 8 420 1]

theorem acts_on_shown_iff_changed :
    let start := opened (SyncLog.opened DeviceName.ops DeviceName.alex)
    DeviceName.ops.DistinctBlobs ∧ ∃ trace final,
      Calls devicePlatform start trace final ∧
      (∀ taken ∈ trace, Orderly taken.1 taken.2) ∧
      OrdinaryActions final.actions ∧
      ActsOnShown devicePlatform final [0x66] := by
  intro start
  have executed : (execute (step devicePlatform) start addAndChange).any
      (fun result =>
        (∀ taken ∈ result.1, Orderly taken.1 taken.2) ∧
        OrdinaryActions result.2.actions ∧
        (latestActions result.2.actions [0x66]).length = 1 ∧
        ∀ row ∈ latestActions result.2.actions [0x66],
          row.action = .update ∧ 0 < row.seqNo) = true := by
    decide +kernel
  obtain ⟨⟨trace, final⟩, ran, holds⟩ := (Option.any_eq_true _ _).mp executed
  obtain ⟨orderly, ordinary, single, numbered⟩ := of_decide_eq_true holds
  have calls := execute_run ran
  have reachable : SyncLog.Reachable devicePlatform.ndn taggedDigest
      (SyncLog.opened DeviceName.ops DeviceName.alex) :=
    SyncLog.opened_reachable DeviceName.alex
  obtain ⟨row, only⟩ := List.length_eq_one_iff.mp single
  obtain ⟨isUpdate, positive⟩ := numbered row (by simp [only])
  have unambiguous : Unambiguous final.actions [0x66] :=
    .changed only isUpdate positive
  exact ⟨DeviceName.ops_distinctBlobs, trace, final, calls, orderly, ordinary,
    ((acts_on_shown_iff DeviceName.ops_distinctBlobs reachable calls orderly
      [0x66]).2 ordinary).mpr unambiguous⟩

/-- At the same time `/bob` removes the first version. -/
def removedElsewhere : List (ActionCall DeviceName) :=
  addAndChange ++
    [.addRemoteAction DeviceName.bob 1 (some ⟨DeviceName.bob, 60, writeItem
      (deleteItem [0x66] 1 9 (DeviceName.ops.value DeviceName.alex) 1)⟩)]

/-- The file shows the change of `/alex`, but when the lookup returns the
concurrent deletion, removing the file adds no action. -/
theorem deletion_dropped :
    let start := opened (SyncLog.opened DeviceName.ops DeviceName.alex)
    ∃ trace final, Calls devicePlatform start trace final ∧
      (∀ taken ∈ trace, Orderly taken.1 taken.2) ∧
      OrdinaryActions final.actions ∧
      (∃ file ∈ final.fileState, file.filename = [0x66]) ∧
      final.addLocalActionDelete devicePlatform 1 10 (fun _ => 0) [0x66] =
        some (none, final) ∧
      ¬ ActsOnShown devicePlatform final [0x66] := by
  intro start
  have executed : (execute (step devicePlatform) start removedElsewhere).any
      (fun result =>
        (∀ taken ∈ result.1, Orderly taken.1 taken.2) ∧
        OrdinaryActions result.2.actions ∧
        (∃ file ∈ result.2.fileState, file.filename = [0x66]) ∧
        builtOn result.2.actions [0x66] 1 = none) = true := by
    decide +kernel
  obtain ⟨⟨trace, final⟩, ran, holds⟩ := (Option.any_eq_true _ _).mp executed
  obtain ⟨orderly, ordinary, shown, nothing⟩ := of_decide_eq_true holds
  have dropped := @addLocalActionDelete_of_none _ devicePlatform final 1
    [0x66] nothing 10 (fun _ => 0)
  refine ⟨trace, final, execute_run ran, orderly, ordinary, shown, dropped, ?_⟩
  intro acts
  obtain ⟨result, after, row, returned, appended, -⟩ :=
    (acts.delete 1 10 (fun _ => 0)).mpr shown
  rw [dropped] at returned
  simp only [Option.some.injEq, Prod.mk.injEq] at returned
  obtain ⟨-, rfl⟩ := returned
  simp at appended

end ActionLog

end ChronoShare
