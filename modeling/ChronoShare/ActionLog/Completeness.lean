import ChronoShare.ActionLog.FileView

/-!
# The mark of a complete file

A row of the table of files is marked complete when the file is on disk in the
version of the row.  An update of an existing row keeps the mark of the version
before it, while a new row starts without one.
-/

namespace ChronoShare

/-- What happens to the row of a file: a version is applied to it, or it is
marked complete. -/
inductive FileMark where
  | applied (filename : Bytes)
  | completed (filename : Bytes)
  deriving DecidableEq, Repr

namespace FileMark

/-- Whether the last mark of the file is a completion. -/
def Confirmed (marks : List FileMark) (filename : Bytes) : Bool :=
  marks.foldl (fun known mark =>
    match mark with
    | .applied other => if other = filename then false else known
    | .completed other => if other = filename then true else known) false

variable {marks : List FileMark} {filename other : Bytes}

theorem confirmed_append_applied :
    Confirmed (marks ++ [.applied other]) filename =
      if other = filename then false else Confirmed marks filename := by
  simp [Confirmed, List.foldl_append]

theorem confirmed_append_completed :
    Confirmed (marks ++ [.completed other]) filename =
      if other = filename then true else Confirmed marks filename := by
  simp [Confirmed, List.foldl_append]

end FileMark

/-- A call on the log of actions, or the completion of a file after its
assembly.  The pointer of a hash without bytes is never set: it may happen to
be null, and the table of files refuses the update then. -/
inductive FileCall (Name : Type) where
  | action (label : ActionCall Name)
  | refused (label : ActionCall Name)
  | setFileComplete (filename : Bytes)

/-- A log of actions with what has happened to the rows of files so far. -/
structure MarkedLog (Name : Type) where
  log : ActionLog Name
  marks : List FileMark

namespace MarkedLog

variable {Name : Type}

/-- A row is complete only if its file was marked complete after the version of
the row was applied. -/
def Justified (marked : MarkedLog Name) : Prop :=
  ∀ row ∈ marked.log.fileState, row.isComplete = true →
    FileMark.Confirmed marked.marks row.filename = true

/-- The insertion of the row fires the trigger, which updates the table of
files. -/
def Applies (log : ActionLog Name) (new : ActionRow) : Prop :=
  ¬ ActionLog.Recorded log.actions new ∧
    ActionLog.triggered (log.actions ++ [new]) new = true ∧
      new.action = .update

instance (log : ActionLog Name) (new : ActionRow) :
    Decidable (Applies log new) :=
  inferInstanceAs (Decidable (¬ (∃ row ∈ log.actions, _) ∧ _ ∧ _))

variable (platform : ActionPlatform Name)

/-- The marks that a call leaves.  A local update ends with the completion of
its file. -/
def marksOf (log : ActionLog Name) : FileCall Name → List FileMark
  | .action (.addLocalActionUpdate _ _ filename _ _ _ _) =>
      [.applied (cString filename), .completed (cString filename)]
  | .action (.addRemoteAction deviceName seqNo (some data)) =>
      match platform.parse data.content with
      | none => []
      | some item =>
          if Applies log (ActionLog.remoteRow platform deviceName seqNo item
              data.content) then
            [.applied (cString item.filename)]
          else
            []
  | .action _ => []
  | .refused (.addLocalActionUpdate _ _ filename _ _ _ _) =>
      [.completed (cString filename)]
  | .refused _ => []
  | .setFileComplete filename => [.completed (cString filename)]

/-- The table of files after an update without a hash that it refuses. -/
def refusedFiles (log : ActionLog Name) :
    ActionCall Name → Option (List FileRow)
  | .addLocalActionUpdate _ _ filename hash _ _ _ =>
      if hash = [] then
        some (FileState.setFileComplete log.fileState filename)
      else
        none
  | .addRemoteAction _ _ (some data) =>
      match platform.parse data.content with
      | none => none
      | some item =>
          if item.action = .update ∧ item.fileHash.getD [] = [] then
            some log.fileState
          else
            none
  | _ => none

def step (marked : MarkedLog Name) (label : FileCall Name) :
    Option (MarkedLog Name) :=
  let marks := marked.marks ++ marksOf platform marked.log label
  match label with
  | .action label =>
      (ActionLog.step platform marked.log label).map fun log => ⟨log, marks⟩
  | .refused label =>
      (refusedFiles platform marked.log label).bind fun fileState =>
        (ActionLog.step platform marked.log label).map fun log =>
          ⟨{ log with fileState }, marks⟩
  | .setFileComplete filename =>
      some ⟨{ marked.log with
        fileState :=
          FileState.setFileComplete marked.log.fileState filename }, marks⟩

abbrev Calls (start : MarkedLog Name) :
    List (MarkedLog Name × FileCall Name) → MarkedLog Name → Prop :=
  Run (fun source label target => step platform source label = some target)
    start

/-- The call applies an update from another device to a row that is marked
complete. -/
def Overtakes (log : ActionLog Name) : FileCall Name → Prop
  | .action (.addRemoteAction deviceName seqNo (some data)) =>
      ∃ item, platform.parse data.content = some item ∧
        Applies log (ActionLog.remoteRow platform deviceName seqNo item
          data.content) ∧
        ∃ row ∈ log.fileState, row.filename = cString item.filename ∧
          row.isComplete = true
  | _ => False

theorem cString_cString (text : Bytes) : cString (cString text) = cString text := by
  rw [cString, cString, List.takeWhile_takeWhile]
  simp

theorem complete_of_setFileComplete {files : List FileRow} {filename : Bytes}
    {row : FileRow}
    (member : row ∈ FileState.setFileComplete files filename)
    (complete : row.isComplete = true) :
    row.filename = cString filename ∨ row ∈ files := by
  obtain ⟨old, stored, rfl⟩ := List.mem_map.mp member
  split_ifs with named
  · exact .inl named
  · exact .inr stored

theorem complete_of_applyAction {files : List FileRow} {new : ActionRow}
    {row : FileRow} (member : row ∈ ActionLog.applyAction files new)
    (complete : row.isComplete = true) :
    ∃ old ∈ files, old.filename = row.filename ∧ old.isComplete = true := by
  rw [ActionLog.applyAction] at member
  split at member
  · rw [FileState.updateFile] at member
    split_ifs at member
    · obtain ⟨old, stored, rfl⟩ := List.mem_map.mp member
      refine ⟨old, stored, ?_⟩
      split_ifs at complete ⊢
      · exact ⟨rfl, complete⟩
      · exact ⟨rfl, complete⟩
    · rcases List.mem_append.mp member with stored | inserted
      · exact ⟨row, stored, rfl, complete⟩
      · rw [List.mem_singleton.mp inserted] at complete
        simp at complete
  · exact ⟨row, (List.mem_filter.mp member).1, rfl, complete⟩

theorem complete_of_insertAction {log : ActionLog Name} {new : ActionRow}
    {row : FileRow} (member : row ∈ (log.insertAction new).fileState)
    (complete : row.isComplete = true) :
    ∃ old ∈ log.fileState,
      old.filename = row.filename ∧ old.isComplete = true := by
  by_cases recorded : ActionLog.Recorded log.actions new
  · rw [ActionLog.insertAction_of_recorded recorded] at member
    exact ⟨row, member, rfl, complete⟩
  · rw [ActionLog.insertAction_of_not_recorded recorded] at member
    simp only at member
    split_ifs at member
    · exact complete_of_applyAction member complete
    · exact ⟨row, member, rfl, complete⟩

theorem complete_insertAction {log : ActionLog Name} {new : ActionRow}
    (applies : Applies log new) {old : FileRow} (stored : old ∈ log.fileState)
    (named : old.filename = cString new.filename)
    (complete : old.isComplete = true) :
    ∃ row ∈ (log.insertAction new).fileState,
      row.filename = cString new.filename ∧ row.isComplete = true := by
  obtain ⟨absent, fires, isUpdate⟩ := applies
  rw [ActionLog.insertAction_of_not_recorded absent]
  simp only [fires, if_true, ActionLog.applyAction, isUpdate]
  have twice : old.filename = cString (cString new.filename) := by
    rw [cString_cString, named]
  rw [FileState.updateFile_of_known ⟨old, stored, twice⟩]
  refine ⟨_, List.mem_map.mpr ⟨old, stored, rfl⟩, ?_⟩
  rw [if_pos twice]
  exact ⟨cString_cString _, complete⟩

variable {platform : ActionPlatform Name} {source target : MarkedLog Name}

theorem inserted_justified_iff (justified : source.Justified)
    (new : ActionRow) :
    Justified ⟨source.log.insertAction new, source.marks ++
        if Applies source.log new then [.applied (cString new.filename)]
        else []⟩ ↔
      ¬ (Applies source.log new ∧ ∃ row ∈ source.log.fileState,
        row.filename = cString new.filename ∧ row.isComplete = true) := by
  constructor
  · rintro after ⟨applies, old, stored, named, complete⟩
    obtain ⟨row, member, same, stale⟩ :=
      complete_insertAction applies stored named complete
    have confirmed := after row member stale
    rw [if_pos applies, FileMark.confirmed_append_applied, if_pos same.symm]
      at confirmed
    simp at confirmed
  · intro apart row member complete
    obtain ⟨old, stored, named, before⟩ :=
      complete_of_insertAction member complete
    have confirmed := justified old stored before
    rw [named] at confirmed
    split_ifs with applies
    · rw [FileMark.confirmed_append_applied, if_neg, confirmed]
      intro same
      exact apart ⟨applies, old, stored, named.trans same.symm, before⟩
    · rw [List.append_nil, confirmed]

theorem justified_of_unmarked (justified : source.Justified)
    {log : ActionLog Name}
    (earlier : ∀ row ∈ log.fileState, row.isComplete = true →
      ∃ old ∈ source.log.fileState,
        old.filename = row.filename ∧ old.isComplete = true) :
    Justified ⟨log, source.marks ++ []⟩ := by
  intro row member complete
  obtain ⟨old, stored, named, before⟩ := earlier row member complete
  rw [List.append_nil, ← named]
  exact justified old stored before

theorem remoteAction_justified_iff (justified : source.Justified)
    {deviceName : Name} {seqNo : Int64} {actionPco : Option (Data Name)}
    (taken : step platform source
      (.action (.addRemoteAction deviceName seqNo actionPco)) = some target) :
    target.Justified ↔ ¬ Overtakes platform source.log
      (.action (.addRemoteAction deviceName seqNo actionPco)) := by
  obtain rfl := Option.some.inj taken
  have unchanged : Justified ⟨source.log, source.marks ++ []⟩ := by
    apply justified_of_unmarked justified
    intro row member complete
    exact ⟨row, member, rfl, complete⟩
  cases actionPco with
  | none => exact ⟨fun _ absurd => absurd, fun _ => unchanged⟩
  | some data =>
      cases parsed : platform.parse data.content with
      | none =>
          have silent : ¬ Overtakes platform source.log (.action
              (.addRemoteAction deviceName seqNo (some data))) := by
            rintro ⟨item, found, _⟩
            rw [parsed] at found
            simp at found
          refine ⟨fun _ => silent, fun _ => ?_⟩
          simpa only [marksOf, parsed, ActionLog.addRemoteAction] using unchanged
      | some item =>
          have inserted := inserted_justified_iff justified
            (ActionLog.remoteRow platform deviceName seqNo item data.content)
          simp only [marksOf, Overtakes, parsed, ActionLog.addRemoteAction,
            Option.some.injEq, exists_eq_left']
          exact inserted

theorem localUpdate_justified (justified : source.Justified) {choice : Nat}
    {actionTime wtime : Int64} {filename hash : Bytes} {mode segNum : Int32}
    (taken : step platform source (.action (.addLocalActionUpdate choice
      actionTime filename hash wtime mode segNum)) = some target) :
    target.Justified := by
  simp only [step, ActionLog.step, ActionLog.call, Option.map_map,
    Option.map_eq_some_iff, Function.comp_apply] at taken
  obtain ⟨⟨item, after⟩, added, rfl⟩ := taken
  obtain ⟨seqNo, syncLog, parent, _, _, rfl⟩ :=
    ActionLog.addLocalActionUpdate_cases added
  intro row member complete
  have marks : marksOf platform source.log (.action (.addLocalActionUpdate
      choice actionTime filename hash wtime mode segNum)) =
      [.applied (cString filename)] ++ [.completed (cString filename)] := rfl
  rw [marks, ← List.append_assoc, FileMark.confirmed_append_completed,
    FileMark.confirmed_append_applied]
  split_ifs with same
  · rfl
  · rcases complete_of_setFileComplete member complete with named | inserted
    · exact absurd named.symm same
    · obtain ⟨old, stored, named, before⟩ :=
        complete_of_insertAction inserted complete
      rw [← named]
      exact justified old stored before

theorem localDelete_justified (justified : source.Justified) {choice : Nat}
    {actionTime : Int64} {memory : Nat → UInt8} {filename : Bytes}
    (taken : step platform source (.action (.addLocalActionDelete choice
      actionTime memory filename)) = some target) :
    target.Justified := by
  simp only [step, ActionLog.step, ActionLog.call, Option.map_map,
    Option.map_eq_some_iff, Function.comp_apply] at taken
  obtain ⟨⟨result, after⟩, added, rfl⟩ := taken
  apply justified_of_unmarked justified
  intro row member complete
  rcases ActionLog.addLocalActionDelete_cases added with
    ⟨_, same⟩ | ⟨seqNo, syncLog, parent, parentSeqNo, _, _, inserted⟩
  · obtain rfl : after = source.log := same
    exact ⟨row, member, rfl, complete⟩
  · obtain rfl := inserted
    have earlier := complete_of_insertAction member complete
    exact earlier

/-- A call that marks a file complete, whatever else it changes in the log. -/
theorem justified_of_completed (justified : source.Justified)
    {log : ActionLog Name} {filename : Bytes}
    (completed : log.fileState =
      FileState.setFileComplete source.log.fileState filename) :
    Justified ⟨log, source.marks ++ [.completed (cString filename)]⟩ := by
  intro row member complete
  rw [FileMark.confirmed_append_completed]
  split_ifs with same
  · rfl
  · have marked : row ∈
        FileState.setFileComplete source.log.fileState filename := by
      rw [← completed]
      exact member
    rcases complete_of_setFileComplete marked complete with named | stored
    · exact absurd named.symm same
    · exact justified row stored complete

theorem refusedFiles_addRemoteAction {log : ActionLog Name} {deviceName : Name}
    {seqNo : Int64} {actionPco : Option (Data Name)} {files : List FileRow}
    (refused : refusedFiles platform log
      (.addRemoteAction deviceName seqNo actionPco) = some files) :
    files = log.fileState := by
  cases actionPco with
  | none => cases refused
  | some data =>
      simp only [refusedFiles] at refused
      split at refused
      · cases refused
      · split_ifs at refused
        exact (Option.some.inj refused).symm

theorem refused_justified (justified : source.Justified)
    {label : ActionCall Name}
    (taken : step platform source (.refused label) = some target) :
    target.Justified := by
  obtain ⟨fileState, refused, called⟩ := Option.bind_eq_some_iff.mp taken
  obtain ⟨log, _, rfl⟩ := Option.map_eq_some_iff.mp called
  cases label with
  | addLocalActionUpdate choice actionTime filename hash wtime mode segNum =>
      simp only [refusedFiles] at refused
      split_ifs at refused
      obtain rfl := Option.some.inj refused
      exact justified_of_completed justified rfl
  | addLocalActionDelete => cases refused
  | syncLogChanged syncLog => cases refused
  | addRemoteAction deviceName seqNo actionPco =>
      have unchanged := refusedFiles_addRemoteAction refused
      apply justified_of_unmarked justified
      intro row member complete
      have stored : row ∈ source.log.fileState := by
        rw [← unchanged]
        exact member
      exact ⟨row, stored, rfl, complete⟩

/-- A call leaves the marks justified exactly if it does not apply an update
from another device to a complete row. -/
theorem step_justified_iff (justified : source.Justified)
    {label : FileCall Name}
    (taken : step platform source label = some target) :
    target.Justified ↔ ¬ Overtakes platform source.log label := by
  cases label with
  | setFileComplete filename =>
      obtain rfl := Option.some.inj taken
      exact ⟨fun _ absurd => absurd,
        fun _ => justified_of_completed justified rfl⟩
  | refused label =>
      exact ⟨fun _ absurd => absurd,
        fun _ => refused_justified justified taken⟩
  | action label =>
      cases label with
      | addLocalActionUpdate =>
          exact ⟨fun _ absurd => absurd,
            fun _ => localUpdate_justified justified taken⟩
      | addLocalActionDelete =>
          exact ⟨fun _ absurd => absurd,
            fun _ => localDelete_justified justified taken⟩
      | addRemoteAction => exact remoteAction_justified_iff justified taken
      | syncLogChanged syncLog =>
          obtain rfl := Option.some.inj taken
          refine ⟨fun _ absurd => absurd, fun _ => ?_⟩
          apply justified_of_unmarked justified
          intro row member complete
          exact ⟨row, member, rfl, complete⟩

def opened (syncLog : SyncLog Name) : MarkedLog Name :=
  ⟨ActionLog.opened syncLog, []⟩

theorem opened_justified (syncLog : SyncLog Name) :
    (opened syncLog).Justified := by
  intro row member
  exact absurd member List.not_mem_nil

/-- Every state of a run is justified exactly if no call of the run applies an
update from another device to a complete row. -/
theorem justified_iff_not_overtaken {syncLog : SyncLog Name}
    {trace : List (MarkedLog Name × FileCall Name)} {final : MarkedLog Name}
    (calls : Calls platform (opened syncLog) trace final) :
    ((∀ taken ∈ trace, taken.1.Justified) ∧ final.Justified) ↔
      ∀ taken ∈ trace, ¬ Overtakes platform taken.1.log taken.2 := by
  apply calls.always_iff (fun _ => True)
    (fun (source : MarkedLog Name) label => Overtakes platform source.log label)
    trivial (opened_justified syncLog)
  · exact fun _ _ _ _ earlier => earlier
  · intro source label target taken _ justified
    exact step_justified_iff justified taken

instance (platform : ActionPlatform Name) (log : ActionLog Name)
    (label : FileCall Name) : Decidable (Overtakes platform log label) :=
  match label with
  | .setFileComplete _ => .isFalse id
  | .refused _ => .isFalse id
  | .action (.addLocalActionUpdate ..) => .isFalse id
  | .action (.addLocalActionDelete ..) => .isFalse id
  | .action (.syncLogChanged _) => .isFalse id
  | .action (.addRemoteAction _ _ none) => .isFalse id
  | .action (.addRemoteAction deviceName seqNo (some data)) =>
      match parsed : platform.parse data.content with
      | none => .isFalse (by simp [Overtakes, parsed])
      | some item =>
          decidable_of_iff
            (Applies log (ActionLog.remoteRow platform deviceName seqNo item
                data.content) ∧
              ∃ row ∈ log.fileState, row.filename = cString item.filename ∧
                row.isComplete = true)
            (by simp [Overtakes, parsed])

end MarkedLog

namespace MarkedLog

/-- The packet with an update of the file `f` to a version. -/
def changedFile (version : UInt64) : Data Name where
  name := Name.bob
  freshnessPeriod := 60
  content := writeItem ⟨.update, [0x66], version, 5, some 1, some [2],
    some 7, some 420, none, none⟩

/-- `/bob` publishes a file, it is fetched and marked complete, and `/alex`
changes it. -/
theorem justified_iff_not_overtaken_fetched :
    ∃ trace final,
      Calls (plainActionPlatform Name.uriOps)
          (opened (SyncLog.opened Name.uriOps Name.alex)) trace final ∧
        (∃ row ∈ final.log.fileState, row.isComplete = true) ∧
        final.Justified := by
  have executed : (execute (step (plainActionPlatform Name.uriOps))
      (opened (SyncLog.opened Name.uriOps Name.alex))
      [.action (.addRemoteAction Name.bob 1 (some (changedFile 0))),
        .setFileComplete [0x66],
        .action (.addLocalActionUpdate 0 5 [0x66] [1] 6 420 1)]).any
          (fun result =>
            (∃ row ∈ result.2.log.fileState, row.isComplete = true) ∧
              ∀ taken ∈ result.1, ¬ Overtakes (plainActionPlatform Name.uriOps)
                taken.1.log taken.2) = true := by
    decide +kernel
  obtain ⟨⟨trace, final⟩, found, holds⟩ :=
    (Option.any_eq_true _ _).mp executed
  obtain ⟨complete, apart⟩ := of_decide_eq_true holds
  have calls := execute_run found
  exact ⟨trace, final, calls, complete,
    ((justified_iff_not_overtaken calls).mpr apart).2⟩

/-- `/alex` adds a file, and the update of `/bob` is shown as complete before
it has been fetched. -/
theorem overtaken_file_complete :
    ¬ ∀ trace final,
      Calls (plainActionPlatform Name.uriOps)
          (opened (SyncLog.opened Name.uriOps Name.alex)) trace final →
        final.Justified := by
  intro justified
  have executed : (execute (step (plainActionPlatform Name.uriOps))
      (opened (SyncLog.opened Name.uriOps Name.alex))
      [.action (.addLocalActionUpdate 0 5 [0x66] [1] 6 420 1),
        .action (.addRemoteAction Name.bob 1 (some (changedFile 1)))]).any
          (fun result => ∃ row ∈ result.2.log.fileState,
            row.isComplete = true ∧
              FileMark.Confirmed result.2.marks row.filename = false) =
                true := by
    decide +kernel
  obtain ⟨⟨trace, final⟩, found, holds⟩ :=
    (Option.any_eq_true _ _).mp executed
  obtain ⟨row, member, complete, unconfirmed⟩ := of_decide_eq_true holds
  have confirmed := justified trace final (execute_run found) row member
    complete
  rw [unconfirmed] at confirmed
  exact absurd confirmed (by decide)

end MarkedLog

end ChronoShare
