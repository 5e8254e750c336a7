import ChronoShare.SyncCore.Core
import ChronoShare.Support.Run

/-!
# The tasks of a fetch manager

A manager writes every range it is asked for into a table of tasks, from which
it starts again after a restart, and removes the row when the fetch is
complete.  The table has one row for a device and a base name, while several
ranges of the two may be fetched at a time.
-/

namespace ChronoShare

structure TaskRow (Name : Type) where
  deviceName : Name
  baseName : Name
  minSeqNo : UInt64
  maxSeqNo : UInt64
  priority : Int
  deriving DecidableEq, Repr

/-- A fetcher in the list of the manager. -/
structure Fetch (Name : Type) where
  deviceName : Name
  baseName : Name
  minSeqNo : UInt64
  maxSeqNo : UInt64
  completed : Bool
  deriving DecidableEq, Repr

structure FetchManager (Name : Type) where
  taskDb : List (TaskRow Name)
  fetchList : List (Fetch Name)
  deriving DecidableEq, Repr

inductive FetchManagerCall (Name : Type) where
  | enqueue (deviceName baseName : Name) (minSeqNo maxSeqNo : UInt64)
      (priority : Int)
  | didFetchComplete (index : Nat)
  | didNoDataTimeout (index : Nat)
  deriving DecidableEq, Repr

namespace FetchTaskDb

variable {Name : Type} [DecidableEq Name]

/-- `INSERT OR IGNORE`: a row with the same key stays as it is. -/
def addTask (taskDb : List (TaskRow Name)) (task : TaskRow Name) :
    List (TaskRow Name) :=
  if taskDb.any fun row =>
      row.deviceName = task.deviceName ∧ row.baseName = task.baseName then
    taskDb
  else
    taskDb ++ [task]

def deleteTask (taskDb : List (TaskRow Name)) (deviceName baseName : Name) :
    List (TaskRow Name) :=
  taskDb.filter fun row =>
    ¬ (row.deviceName = deviceName ∧ row.baseName = baseName)

end FetchTaskDb

namespace FetchManager

variable {Name : Type} [DecidableEq Name]

def PRIORITY_HIGH : Int := 1

/-- An empty range is not enqueued. -/
def enqueue (manager : FetchManager Name) (deviceName baseName : Name)
    (minSeqNo maxSeqNo : UInt64) (priority : Int) : FetchManager Name :=
  if maxSeqNo < minSeqNo then
    manager
  else
    let fetch : Fetch Name := ⟨deviceName, baseName, minSeqNo, maxSeqNo, false⟩
    { taskDb := FetchTaskDb.addTask manager.taskDb
        ⟨deviceName, baseName, minSeqNo, maxSeqNo, priority⟩
      fetchList :=
        if priority = PRIORITY_HIGH then fetch :: manager.fetchList
        else manager.fetchList ++ [fetch] }

/-- The rows of the table are enqueued again. -/
def construct (taskDb : List (TaskRow Name)) : FetchManager Name :=
  taskDb.foldl (fun manager row => manager.enqueue row.deviceName row.baseName
    row.minSeqNo row.maxSeqNo row.priority) ⟨taskDb, []⟩

def didFetchComplete (manager : FetchManager Name) (index : Nat)
    (fetch : Fetch Name) : FetchManager Name where
  taskDb := FetchTaskDb.deleteTask manager.taskDb fetch.deviceName
    fetch.baseName
  fetchList := manager.fetchList.set index { fetch with completed := true }

/-- A fetch that has not completed completes, or fails and is tried again. -/
def step (manager : FetchManager Name) :
    FetchManagerCall Name → Option (FetchManager Name)
  | .enqueue deviceName baseName minSeqNo maxSeqNo priority =>
      some (manager.enqueue deviceName baseName minSeqNo maxSeqNo priority)
  | .didFetchComplete index =>
      match manager.fetchList[index]? with
      | none => none
      | some fetch =>
          if fetch.completed then none
          else some (manager.didFetchComplete index fetch)
  | .didNoDataTimeout index =>
      match manager.fetchList[index]? with
      | none => none
      | some fetch => if fetch.completed then none else some manager

abbrev Steps (start : FetchManager Name) :
    List (FetchManager Name × FetchManagerCall Name) →
      FetchManager Name → Prop :=
  Run (fun source label target => step source label = some target) start

/-- The row is the row of the device and the base name of the fetch. -/
def SameTask (row : TaskRow Name) (fetch : Fetch Name) : Prop :=
  row.deviceName = fetch.deviceName ∧ row.baseName = fetch.baseName

instance (row : TaskRow Name) (fetch : Fetch Name) :
    Decidable (SameTask row fetch) :=
  inferInstanceAs (Decidable (_ ∧ _))

/-- Every number of the range lies in the range of a row for it. -/
def Covers (taskDb : List (TaskRow Name)) (fetch : Fetch Name) : Prop :=
  ∀ seqNo, fetch.minSeqNo ≤ seqNo → seqNo ≤ fetch.maxSeqNo →
    ∃ row ∈ taskDb, SameTask row fetch ∧
      row.minSeqNo ≤ seqNo ∧ seqNo ≤ row.maxSeqNo

/-- A restart asks again for every number whose fetch has not completed. -/
def Recoverable (manager : FetchManager Name) : Prop :=
  ∀ fetch ∈ manager.fetchList, fetch.completed = false →
    Covers manager.taskDb fetch

/-- The device and the base name determine the row. -/
def Keyed (taskDb : List (TaskRow Name)) : Prop :=
  ∀ left ∈ taskDb, ∀ right ∈ taskDb, left.deviceName = right.deviceName →
    left.baseName = right.baseName → left = right

/-- A table with a key, and fetches of ranges that are not empty. -/
structure Sound (manager : FetchManager Name) : Prop where
  keyed : Keyed manager.taskDb
  ranges : ∀ fetch ∈ manager.fetchList, fetch.minSeqNo ≤ fetch.maxSeqNo

/-- The call leaves a number of a range outside the table: the row of the task
does not contain the new range, or the row that is deleted is still needed by
another fetch. -/
def Loses (manager : FetchManager Name) : FetchManagerCall Name → Prop
  | .enqueue deviceName baseName minSeqNo maxSeqNo _ =>
      minSeqNo ≤ maxSeqNo ∧ ∃ row ∈ manager.taskDb,
        SameTask row ⟨deviceName, baseName, minSeqNo, maxSeqNo, false⟩ ∧
          ¬ (row.minSeqNo ≤ minSeqNo ∧ maxSeqNo ≤ row.maxSeqNo)
  | .didFetchComplete index =>
      ∃ fetch, manager.fetchList[index]? = some fetch ∧
        ∃ other ∈ manager.fetchList.eraseIdx index, other.completed = false ∧
          other.deviceName = fetch.deviceName ∧
            other.baseName = fetch.baseName
  | .didNoDataTimeout _ => False

variable {taskDb : List (TaskRow Name)} {manager target : FetchManager Name}

theorem mem_addTask {task row : TaskRow Name} :
    row ∈ FetchTaskDb.addTask taskDb task ↔ row ∈ taskDb ∨ row = task ∧
      ∀ old ∈ taskDb, ¬ (old.deviceName = task.deviceName ∧
        old.baseName = task.baseName) := by
  rw [FetchTaskDb.addTask]
  split_ifs with known
  · simp only [List.any_eq_true, decide_eq_true_eq] at known
    obtain ⟨old, stored, same⟩ := known
    constructor
    · exact .inl
    · rintro (stored | ⟨_, unknown⟩)
      · exact stored
      · exact absurd same (unknown old stored)
  · simp only [List.any_eq_true, decide_eq_true_eq, not_exists, not_and]
      at known
    rw [List.mem_append, List.mem_singleton]
    constructor
    · rintro (stored | rfl)
      · exact .inl stored
      · exact .inr ⟨rfl, fun old stored same =>
          known old stored same.1 same.2⟩
    · rintro (stored | ⟨rfl, _⟩)
      · exact .inl stored
      · exact .inr rfl

theorem Keyed.addTask (keyed : Keyed taskDb) (task : TaskRow Name) :
    Keyed (FetchTaskDb.addTask taskDb task) := by
  intro left leftIn right rightIn sameDevice sameBase
  rcases mem_addTask.mp leftIn with leftOld | ⟨rfl, leftNew⟩
  · rcases mem_addTask.mp rightIn with rightOld | ⟨rfl, rightNew⟩
    · exact keyed left leftOld right rightOld sameDevice sameBase
    · exact absurd ⟨sameDevice, sameBase⟩ (rightNew left leftOld)
  · rcases mem_addTask.mp rightIn with rightOld | ⟨rfl, _⟩
    · exact absurd ⟨sameDevice.symm, sameBase.symm⟩ (leftNew right rightOld)
    · rfl

theorem Covers.addTask {fetch : Fetch Name} (covers : Covers taskDb fetch)
    (task : TaskRow Name) :
    Covers (FetchTaskDb.addTask taskDb task) fetch := by
  intro seqNo above below
  obtain ⟨row, stored, inRange⟩ := covers seqNo above below
  exact ⟨row, mem_addTask.mpr (.inl stored), inRange⟩

/-- The table covers a new range unless the row of the task falls short. -/
theorem covers_addTask_iff (keyed : Keyed taskDb) (fetch : Fetch Name)
    (range : fetch.minSeqNo ≤ fetch.maxSeqNo) (priority : Int) :
    Covers (FetchTaskDb.addTask taskDb ⟨fetch.deviceName, fetch.baseName,
        fetch.minSeqNo, fetch.maxSeqNo, priority⟩) fetch ↔
      ∀ row ∈ taskDb, SameTask row fetch →
        row.minSeqNo ≤ fetch.minSeqNo ∧ fetch.maxSeqNo ≤ row.maxSeqNo := by
  constructor
  · intro covers row stored same
    have only : ∀ other, other ∈ FetchTaskDb.addTask taskDb
        ⟨fetch.deviceName, fetch.baseName, fetch.minSeqNo, fetch.maxSeqNo,
          priority⟩ → SameTask other fetch → other = row := by
      intro other member sameOther
      rcases mem_addTask.mp member with old | ⟨rfl, unknown⟩
      · exact keyed other old row stored (sameOther.1.trans same.1.symm)
          (sameOther.2.trans same.2.symm)
      · exact absurd same (unknown row stored)
    obtain ⟨first, firstIn, firstSame, low, _⟩ :=
      covers fetch.minSeqNo (UInt64.le_refl _) range
    obtain ⟨last, lastIn, lastSame, _, high⟩ :=
      covers fetch.maxSeqNo range (UInt64.le_refl _)
    rw [only first firstIn firstSame] at low
    rw [only last lastIn lastSame] at high
    exact ⟨low, high⟩
  · intro contained seqNo above below
    by_cases known : ∃ row ∈ taskDb, SameTask row fetch
    · obtain ⟨row, stored, same⟩ := known
      obtain ⟨low, high⟩ := contained row stored same
      exact ⟨row, mem_addTask.mpr (.inl stored), same,
        UInt64.le_trans low above, UInt64.le_trans below high⟩
    · refine ⟨_, mem_addTask.mpr (.inr ⟨rfl, ?_⟩), ⟨rfl, rfl⟩, above, below⟩
      intro old stored same
      exact known ⟨old, stored, same⟩

theorem mem_deleteTask {deviceName baseName : Name} {row : TaskRow Name} :
    row ∈ FetchTaskDb.deleteTask taskDb deviceName baseName ↔
      row ∈ taskDb ∧ ¬ (row.deviceName = deviceName ∧
        row.baseName = baseName) := by
  simp only [FetchTaskDb.deleteTask, List.mem_filter, decide_not,
    Bool.not_eq_true', decide_eq_false_iff_not]

theorem covers_deleteTask_iff {done fetch : Fetch Name}
    (covers : Covers taskDb fetch)
    (range : fetch.minSeqNo ≤ fetch.maxSeqNo) :
    Covers (FetchTaskDb.deleteTask taskDb done.deviceName done.baseName)
        fetch ↔
      ¬ (fetch.deviceName = done.deviceName ∧
        fetch.baseName = done.baseName) := by
  constructor
  · rintro after ⟨sameDevice, sameBase⟩
    obtain ⟨row, member, same, _⟩ :=
      after fetch.minSeqNo (UInt64.le_refl _) range
    exact (mem_deleteTask.mp member).2
      ⟨same.1.trans sameDevice, same.2.trans sameBase⟩
  · intro apart seqNo above below
    obtain ⟨row, stored, same, inRange⟩ := covers seqNo above below
    refine ⟨row, mem_deleteTask.mpr ⟨stored, ?_⟩, same, inRange⟩
    rintro ⟨sameDevice, sameBase⟩
    exact apart ⟨same.1.symm.trans sameDevice, same.2.symm.trans sameBase⟩

omit [DecidableEq Name] in
/-- A fetch that is still running after a completion is another member of the
list. -/
theorem mem_set_completed {fetches : List (Fetch Name)} {index : Nat}
    {fetch other : Fetch Name} (found : fetches[index]? = some fetch)
    (running : other.completed = false) :
    other ∈ fetches.set index { fetch with completed := true } ↔
      other ∈ fetches.eraseIdx index := by
  rw [List.mem_iff_getElem?, List.mem_eraseIdx_iff_getElem?]
  constructor
  · rintro ⟨place, here⟩
    by_cases same : index = place
    · have bound : index < fetches.length :=
        (List.getElem?_eq_some_iff.mp found).1
      rw [← same, List.getElem?_set_self bound] at here
      have completed := congrArg Fetch.completed (Option.some.inj here)
      rw [running] at completed
      exact absurd completed.symm Bool.false_ne_true
    · rw [List.getElem?_set_ne same] at here
      exact ⟨place, fun equal => same equal.symm, here⟩
  · rintro ⟨place, apart, here⟩
    refine ⟨place, ?_⟩
    rw [List.getElem?_set_ne (fun equal => apart equal.symm)]
    exact here

theorem mem_enqueue {deviceName baseName : Name} {minSeqNo maxSeqNo : UInt64}
    {priority : Int} (range : ¬ maxSeqNo < minSeqNo) {other : Fetch Name} :
    other ∈ (manager.enqueue deviceName baseName minSeqNo maxSeqNo
        priority).fetchList ↔
      other = ⟨deviceName, baseName, minSeqNo, maxSeqNo, false⟩ ∨
        other ∈ manager.fetchList := by
  rw [enqueue, if_neg range]
  dsimp only
  split_ifs
  · exact List.mem_cons
  · rw [List.mem_append, List.mem_singleton]
    exact or_comm

theorem taskDb_enqueue {deviceName baseName : Name}
    {minSeqNo maxSeqNo : UInt64} {priority : Int}
    (range : ¬ maxSeqNo < minSeqNo) :
    (manager.enqueue deviceName baseName minSeqNo maxSeqNo priority).taskDb =
      FetchTaskDb.addTask manager.taskDb
        ⟨deviceName, baseName, minSeqNo, maxSeqNo, priority⟩ := by
  rw [enqueue, if_neg range]

theorem step_cases {label : FetchManagerCall Name}
    (taken : step manager label = some target) :
    (∃ deviceName baseName minSeqNo maxSeqNo priority,
      label = .enqueue deviceName baseName minSeqNo maxSeqNo priority ∧
        target = manager.enqueue deviceName baseName minSeqNo maxSeqNo
          priority) ∨
    (∃ index fetch, label = .didFetchComplete index ∧
      manager.fetchList[index]? = some fetch ∧ fetch.completed = false ∧
        target = manager.didFetchComplete index fetch) ∨
    (∃ index, label = .didNoDataTimeout index ∧ target = manager) := by
  cases label with
  | enqueue deviceName baseName minSeqNo maxSeqNo priority =>
      exact .inl ⟨deviceName, baseName, minSeqNo, maxSeqNo, priority, rfl,
        (Option.some.inj taken).symm⟩
  | didFetchComplete index =>
      cases found : manager.fetchList[index]? with
      | none => simp [step, found] at taken
      | some fetch =>
          cases completed : fetch.completed with
          | true => simp [step, found, completed] at taken
          | false =>
              refine .inr (.inl ⟨index, fetch, rfl, found, completed, ?_⟩)
              simpa [step, found, completed] using taken.symm
  | didNoDataTimeout index =>
      cases found : manager.fetchList[index]? with
      | none => simp [step, found] at taken
      | some fetch =>
          cases completed : fetch.completed with
          | true => simp [step, found, completed] at taken
          | false =>
              refine .inr (.inr ⟨index, rfl, ?_⟩)
              simpa [step, found, completed] using taken.symm

theorem Sound.enqueue (sound : Sound manager) (deviceName baseName : Name)
    (minSeqNo maxSeqNo : UInt64) (priority : Int) :
    Sound (manager.enqueue deviceName baseName minSeqNo maxSeqNo
      priority) := by
  by_cases empty : maxSeqNo < minSeqNo
  · rw [FetchManager.enqueue, if_pos empty]
    exact sound
  · constructor
    · rw [taskDb_enqueue empty]
      exact sound.keyed.addTask _
    · intro fetch member
      rcases (mem_enqueue empty).mp member with rfl | earlier
      · exact UInt64.not_lt.mp empty
      · exact sound.ranges fetch earlier

theorem step_sound {label : FetchManagerCall Name} (sound : Sound manager)
    (taken : step manager label = some target) : Sound target := by
  obtain ⟨deviceName, baseName, minSeqNo, maxSeqNo, priority, rfl, rfl⟩ |
    ⟨index, fetch, rfl, found, completed, rfl⟩ | ⟨index, rfl, rfl⟩ :=
    step_cases taken
  · exact sound.enqueue deviceName baseName minSeqNo maxSeqNo priority
  · constructor
    · intro left leftIn right rightIn
      apply sound.keyed
      · exact (mem_deleteTask.mp leftIn).1
      · exact (mem_deleteTask.mp rightIn).1
    · intro other member
      rcases List.mem_or_eq_of_mem_set member with earlier | rfl
      · exact sound.ranges other earlier
      · exact sound.ranges fetch (List.mem_of_getElem? found)
  · exact sound

theorem recoverable_enqueue_iff (sound : Sound manager)
    (recoverable : Recoverable manager) {deviceName baseName : Name}
    {minSeqNo maxSeqNo : UInt64} {priority : Int} :
    Recoverable (manager.enqueue deviceName baseName minSeqNo maxSeqNo
        priority) ↔
      ¬ Loses manager (.enqueue deviceName baseName minSeqNo maxSeqNo
        priority) := by
  by_cases empty : maxSeqNo < minSeqNo
  · rw [enqueue, if_pos empty]
    constructor
    · rintro _ ⟨range, _⟩
      exact UInt64.not_le.mpr empty range
    · exact fun _ => recoverable
  · have range : minSeqNo ≤ maxSeqNo := UInt64.not_lt.mp empty
    have covered := covers_addTask_iff sound.keyed
      ⟨deviceName, baseName, minSeqNo, maxSeqNo, false⟩ range priority
    constructor
    · rintro after ⟨_, row, stored, same, short⟩
      have covers := after _ ((mem_enqueue empty).mpr (.inl rfl)) rfl
      rw [taskDb_enqueue empty] at covers
      exact short (covered.mp covers row stored same)
    · intro contained fetch member running
      rw [taskDb_enqueue empty]
      rcases (mem_enqueue empty).mp member with rfl | earlier
      · apply covered.mpr
        intro row stored same
        by_contra short
        exact contained ⟨range, row, stored, same, short⟩
      · exact (recoverable fetch earlier running).addTask _

theorem recoverable_complete_iff (sound : Sound manager)
    (recoverable : Recoverable manager) {index : Nat} {fetch : Fetch Name}
    (found : manager.fetchList[index]? = some fetch) :
    Recoverable (manager.didFetchComplete index fetch) ↔
      ¬ Loses manager (.didFetchComplete index) := by
  constructor
  · rintro after ⟨same, foundSame, other, member, running, device, base⟩
    obtain rfl : fetch = same := Option.some.inj (found.symm.trans foundSame)
    have earlier : other ∈ manager.fetchList :=
      List.mem_of_mem_eraseIdx member
    have covers := after other ((mem_set_completed found running).mpr member)
      running
    exact (covers_deleteTask_iff (recoverable other earlier running)
      (sound.ranges other earlier)).mp covers ⟨device, base⟩
  · intro alone other member running
    have present := (mem_set_completed found running).mp member
    have earlier : other ∈ manager.fetchList :=
      List.mem_of_mem_eraseIdx present
    apply (covers_deleteTask_iff (recoverable other earlier running)
      (sound.ranges other earlier)).mpr
    rintro ⟨device, base⟩
    exact alone ⟨fetch, found, other, present, running, device, base⟩

theorem step_recoverable_iff {label : FetchManagerCall Name}
    (sound : Sound manager) (recoverable : Recoverable manager)
    (taken : step manager label = some target) :
    Recoverable target ↔ ¬ Loses manager label := by
  obtain ⟨deviceName, baseName, minSeqNo, maxSeqNo, priority, rfl, rfl⟩ |
    ⟨index, fetch, rfl, found, completed, rfl⟩ | ⟨index, rfl, rfl⟩ :=
    step_cases taken
  · exact recoverable_enqueue_iff sound recoverable
  · exact recoverable_complete_iff sound recoverable found
  · exact ⟨fun _ loses => loses, fun _ => recoverable⟩

theorem addTask_of_mem {task : TaskRow Name} (stored : task ∈ taskDb) :
    FetchTaskDb.addTask taskDb task = taskDb := by
  rw [FetchTaskDb.addTask, if_pos]
  apply List.any_eq_true.mpr
  exact ⟨task, stored, by simp⟩

theorem enqueue_row (sound : Sound manager) (recoverable : Recoverable manager)
    {row : TaskRow Name} (stored : row ∈ manager.taskDb) :
    let next := manager.enqueue row.deviceName row.baseName row.minSeqNo
      row.maxSeqNo row.priority
    Sound next ∧ Recoverable next ∧ next.taskDb = manager.taskDb := by
  refine ⟨sound.enqueue _ _ _ _ _, ?_, ?_⟩
  · apply (recoverable_enqueue_iff sound recoverable).mpr
    rintro ⟨_, other, otherStored, same, short⟩
    obtain rfl := sound.keyed other otherStored row stored same.1 same.2
    exact short ⟨UInt64.le_refl _, UInt64.le_refl _⟩
  · by_cases empty : row.maxSeqNo < row.minSeqNo
    · rw [enqueue, if_pos empty]
    · rw [taskDb_enqueue empty]
      exact addTask_of_mem stored

theorem foldl_enqueue (rows : List (TaskRow Name)) (sound : Sound manager)
    (recoverable : Recoverable manager)
    (stored : ∀ row ∈ rows, row ∈ manager.taskDb) :
    let next := rows.foldl (fun manager row => manager.enqueue row.deviceName
      row.baseName row.minSeqNo row.maxSeqNo row.priority) manager
    Sound next ∧ Recoverable next := by
  induction rows generalizing manager with
  | nil => exact ⟨sound, recoverable⟩
  | cons row rows induction =>
      have member : row ∈ manager.taskDb := stored row List.mem_cons_self
      obtain ⟨nextSound, nextRecoverable, same⟩ :=
        enqueue_row sound recoverable member
      apply induction nextSound nextRecoverable
      intro other later
      rw [same]
      exact stored other (List.mem_cons_of_mem row later)

theorem construct_sound (keyed : Keyed taskDb) :
    Sound (construct taskDb) ∧ Recoverable (construct taskDb) := by
  apply foldl_enqueue
  · exact ⟨keyed, fun _ member => nomatch member⟩
  · exact fun _ member => nomatch member
  · exact fun _ member => member

/-- The numbers still to be fetched are in the table in every state of a run
just if no call of the run loses one. -/
theorem recoverable_iff_not_loses (keyed : Keyed taskDb)
    {trace : List (FetchManager Name × FetchManagerCall Name)}
    (run : Steps (construct taskDb) trace target) :
    ((∀ taken ∈ trace, Recoverable taken.1) ∧ Recoverable target) ↔
      ∀ taken ∈ trace, ¬ Loses taken.1 taken.2 := by
  obtain ⟨sound, recoverable⟩ := construct_sound keyed
  apply run.always_iff Sound Loses sound recoverable
  · exact fun source label target taken earlier => step_sound earlier taken
  · intro source label target taken earlier before
    exact step_recoverable_iff earlier before taken

instance (taskDb : List (TaskRow Name)) : Decidable (Keyed taskDb) :=
  inferInstanceAs (Decidable (∀ left ∈ taskDb, ∀ right ∈ taskDb, _ → _ → _))

instance (manager : FetchManager Name) (label : FetchManagerCall Name) :
    Decidable (Loses manager label) :=
  match label with
  | .enqueue .. => inferInstanceAs (Decidable (_ ∧ ∃ row ∈ _, _ ∧ ¬ _))
  | .didFetchComplete index =>
      match found : manager.fetchList[index]? with
      | none => .isFalse (by simp [Loses, found])
      | some fetch =>
          decidable_of_iff (∃ other ∈ manager.fetchList.eraseIdx index,
              other.completed = false ∧
                other.deviceName = fetch.deviceName ∧
                  other.baseName = fetch.baseName)
            (by simp [Loses, found])
  | .didNoDataTimeout _ => .isFalse id

end FetchManager

namespace FetchManager

/-- A range is fetched again after a restart, and another device is asked for a
range while it is. -/
theorem recoverable_iff_not_loses_restarted :
    ∃ (trace : List (FetchManager Nat × FetchManagerCall Nat))
        (final : FetchManager Nat),
      Steps (construct [⟨1, 10, 1, 3, 0⟩]) trace final ∧
        final.fetchList.length = 2 ∧ Recoverable final := by
  have executed : (execute step (construct [⟨1, 10, 1, 3, 0⟩])
      [.enqueue 2 20 5 9 1, .didNoDataTimeout 0, .didFetchComplete 1]).any
        (fun result => result.2.fetchList.length = 2 ∧
          ∀ taken ∈ result.1, ¬ Loses taken.1 taken.2) = true := by
    decide +kernel
  obtain ⟨⟨trace, final⟩, found, holds⟩ :=
    (Option.any_eq_true _ _).mp executed
  obtain ⟨both, apart⟩ := of_decide_eq_true holds
  have run := execute_run found
  exact ⟨trace, final, run, both,
    ((recoverable_iff_not_loses (by decide) run).mpr apart).2⟩

/-- Two successive ranges of one device: the row is that of the first. -/
theorem second_range_not_in_table :
    ¬ ∀ (taskDb : List (TaskRow Nat))
        (trace : List (FetchManager Nat × FetchManagerCall Nat))
        (final : FetchManager Nat),
      Keyed taskDb → Steps (construct taskDb) trace final →
        Recoverable final := by
  intro recoverable
  have executed : (execute step (construct ([] : List (TaskRow Nat)))
      [.enqueue 1 10 1 3 0, .enqueue 1 10 4 5 0]).any (fun result =>
        (∃ fetch ∈ result.2.fetchList, fetch.completed = false ∧
          fetch.minSeqNo = 4 ∧ fetch.maxSeqNo = 5) ∧
            ∀ row ∈ result.2.taskDb, row.maxSeqNo = 3) = true := by
    decide +kernel
  obtain ⟨⟨trace, final⟩, found, holds⟩ :=
    (Option.any_eq_true _ _).mp executed
  obtain ⟨⟨fetch, member, running, low, high⟩, short⟩ :=
    of_decide_eq_true holds
  have covers := recoverable [] trace final (by decide) (execute_run found)
    fetch member running
  obtain ⟨row, stored, _, _, within⟩ := covers 4 (by rw [low]; decide)
    (by rw [high]; decide)
  rw [short row stored] at within
  exact absurd within (by decide)

end FetchManager

end ChronoShare
