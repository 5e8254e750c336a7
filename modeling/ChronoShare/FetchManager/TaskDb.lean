import ChronoShare.FetchManager.Tasks
import ChronoShare.Support.Outliving

/-!
# The task table as its statements bind it

Rows are stored under the bytes from the value of a name on, as many as the
whole encoding has.  A deletion counts the bytes of the device by the size of
the base name, and an enumeration reads the blobs back as C strings and goes on
to a string at the address that is the length of the blob.
-/

namespace ChronoShare

/-- The encoding of names as the table binds it: the size of a whole encoding,
and so many bytes from its value on. -/
structure TaskBlobs (Name : Type) extends NameOps Name where
  size : Name → Nat
  valueBytes : Name → Nat → Bytes

structure StoredTask where
  deviceName : Bytes
  baseName : Bytes
  minSeqNo : UInt64
  maxSeqNo : UInt64
  priority : Int
  deriving DecidableEq, Repr

inductive TaskCall (Name : Type) where
  | addTask (task : TaskRow Name)
  | deleteTask (deviceName baseName : Name)
  deriving DecidableEq, Repr

/-- The C string at an address.  No string lies at an address that is the
length of a blob, and reading one is undefined. -/
def stringAt (_length : Nat) : Option Bytes :=
  none

namespace TaskBlobs

variable {Name : Type} (blobs : TaskBlobs Name)

/-- The blob of a name bound with its own size. -/
def blobOf (name : Name) : Bytes :=
  blobs.valueBytes name (blobs.size name)

/-- `INSERT OR IGNORE`: a row with the same key stays as it is, and a blob
without bytes binds NULL, which the columns do not take. -/
def addTask (rows : List StoredTask) (task : TaskRow Name) :
    List StoredTask :=
  let deviceBlob := blobs.blobOf task.deviceName
  let baseBlob := blobs.blobOf task.baseName
  if deviceBlob = [] ∨ baseBlob = [] then
    rows
  else if rows.any fun row =>
      row.deviceName = deviceBlob ∧ row.baseName = baseBlob then
    rows
  else
    rows ++ [⟨deviceBlob, baseBlob, task.minSeqNo, task.maxSeqNo,
      task.priority⟩]

/-- The blob of the device is bound with the size of the base name. -/
def deleteTask (rows : List StoredTask) (deviceName baseName : Name) :
    List StoredTask :=
  let deviceBlob := blobs.valueBytes deviceName (blobs.size baseName)
  let baseBlob := blobs.blobOf baseName
  rows.filter fun row =>
    ¬ (row.deviceName = deviceBlob ∧ row.baseName = baseBlob)

/-- `Name (blob)` and then `append` of the string at the length of the
blob. -/
def readName (blob : Bytes) : Option Name :=
  (blobs.ofString (blob.takeWhile (· ≠ 0))).bind fun name =>
    (stringAt blob.length).map fun text => blobs.append name text

def readTask (row : StoredTask) : Option (TaskRow Name) :=
  (blobs.readName row.deviceName).bind fun deviceName =>
    (blobs.readName row.baseName).map fun baseName =>
      ⟨deviceName, baseName, row.minSeqNo, row.maxSeqNo, row.priority⟩

/-- The calls of `foreachTask` to its callback, `none` when it reads where
nothing is stored. -/
def foreachTask (rows : List StoredTask) : Option (List (TaskRow Name)) :=
  rows.mapM blobs.readTask

def apply (rows : List StoredTask) : TaskCall Name → List StoredTask
  | .addTask task => blobs.addTask rows task
  | .deleteTask deviceName baseName =>
      blobs.deleteTask rows deviceName baseName

def stored (calls : List (TaskCall Name)) : List StoredTask :=
  calls.foldl blobs.apply []

end TaskBlobs

namespace FetchTaskDb

variable {Name : Type} [DecidableEq Name]

def applyTo (tasks : List (TaskRow Name)) : TaskCall Name → List (TaskRow Name)
  | .addTask task => addTask tasks task
  | .deleteTask deviceName baseName => deleteTask tasks deviceName baseName

/-- The tasks added since their last deletion, each as first added. -/
def live (calls : List (TaskCall Name)) : List (TaskRow Name) :=
  calls.foldl applyTo []

end FetchTaskDb

namespace TaskBlobs

variable {Name : Type} (blobs : TaskBlobs Name)

/-- The callback gets exactly the live tasks, each once. -/
def Enumerates [DecidableEq Name] (calls : List (TaskCall Name)) : Prop :=
  ∃ reported, blobs.foreachTask (blobs.stored calls) = some reported ∧
    reported.Perm (FetchTaskDb.live calls)

/-- The call deletes the row that is stored for the task. -/
def DeletesRow (task : TaskRow Name) : TaskCall Name → Prop
  | .addTask _ => False
  | .deleteTask deviceName baseName =>
      blobs.valueBytes deviceName (blobs.size baseName) =
          blobs.blobOf task.deviceName ∧
        blobs.blobOf baseName = blobs.blobOf task.baseName

/-- Every task that is added is deleted later, and so is the row that was
stored for it. -/
def Cleared (calls : List (TaskCall Name)) : Prop :=
  ∀ earlier task later, calls = earlier ++ .addTask task :: later →
    .deleteTask task.deviceName task.baseName ∈ later ∧
    (blobs.blobOf task.deviceName ≠ [] → blobs.blobOf task.baseName ≠ [] →
      ∃ call ∈ later, blobs.DeletesRow task call)

def StoredUnder (rows : List StoredTask) (key : Bytes × Bytes) : Prop :=
  ∃ row ∈ rows, (row.deviceName, row.baseName) = key

def Stores (call : TaskCall Name) (key : Bytes × Bytes) : Prop :=
  match call with
  | .addTask task =>
      (blobs.blobOf task.deviceName ≠ [] ∧ blobs.blobOf task.baseName ≠ []) ∧
        (blobs.blobOf task.deviceName, blobs.blobOf task.baseName) = key
  | .deleteTask _ _ => False

def Deletes (call : TaskCall Name) (key : Bytes × Bytes) : Prop :=
  match call with
  | .addTask _ => False
  | .deleteTask deviceName baseName =>
      (blobs.valueBytes deviceName (blobs.size baseName),
        blobs.blobOf baseName) = key

theorem storedUnder_apply (rows : List StoredTask) (call : TaskCall Name)
    (key : Bytes × Bytes) :
    StoredUnder (blobs.apply rows call) key ↔
      blobs.Stores call key ∨ (StoredUnder rows key ∧
        ¬ blobs.Deletes call key) := by
  cases call with
  | addTask task =>
      simp only [apply, addTask, Stores, Deletes, not_false_eq_true, and_true]
      split_ifs with empty present
      · have refused : ¬ (blobs.blobOf task.deviceName ≠ [] ∧
            blobs.blobOf task.baseName ≠ []) := by tauto
        simp [refused]
      · have known : StoredUnder rows
            (blobs.blobOf task.deviceName, blobs.blobOf task.baseName) := by
          simpa [StoredUnder] using present
        constructor
        · exact Or.inr
        · intro either
          rcases either with ⟨-, rfl⟩ | kept
          · exact known
          · exact kept
      · rw [not_or] at empty
        simp only [StoredUnder, List.mem_append, List.mem_singleton, or_and_right,
          exists_or, exists_eq_left]
        rw [or_comm, and_iff_right (a := _ ∧ _) empty]
  | deleteTask deviceName baseName =>
      simp only [apply, deleteTask, Stores, Deletes, false_or, StoredUnder,
        List.mem_filter, decide_eq_true_eq]
      constructor
      · intro found
        obtain ⟨row, ⟨rowIn, kept⟩, rfl⟩ := found
        refine ⟨⟨row, rowIn, rfl⟩, ?_⟩
        intro deleted
        obtain ⟨sameDevice, sameBase⟩ := Prod.ext_iff.mp deleted
        exact kept ⟨sameDevice.symm, sameBase.symm⟩
      · intro found
        obtain ⟨⟨row, rowIn, rfl⟩, kept⟩ := found
        refine ⟨row, ⟨rowIn, ?_⟩, rfl⟩
        intro found
        obtain ⟨sameDevice, sameBase⟩ := found
        exact kept (Prod.ext sameDevice.symm sameBase.symm)

theorem storedUnder_stored (calls : List (TaskCall Name))
    (key : Bytes × Bytes) :
    StoredUnder (blobs.stored calls) key ↔
      Outlives blobs.Stores blobs.Deletes calls key := by
  apply holds_foldl_iff
  · intro other found
    obtain ⟨row, rowIn, -⟩ := found
    exact List.not_mem_nil rowIn
  · exact blobs.storedUnder_apply

theorem stored_eq_nil_iff (calls : List (TaskCall Name)) :
    blobs.stored calls = [] ↔
      ∀ earlier task later, calls = earlier ++ .addTask task :: later →
        blobs.blobOf task.deviceName ≠ [] → blobs.blobOf task.baseName ≠ [] →
          ∃ call ∈ later, blobs.DeletesRow task call := by
  have empty : blobs.stored calls = [] ↔
      ∀ key, ¬ StoredUnder (blobs.stored calls) key := by
    constructor
    · intro nothing key found
      obtain ⟨row, rowIn, -⟩ := found
      rw [nothing] at rowIn
      exact List.not_mem_nil rowIn
    · intro unused
      apply List.eq_nil_iff_forall_not_mem.mpr
      intro row rowIn
      exact unused _ ⟨row, rowIn, rfl⟩
  rw [empty]
  simp only [storedUnder_stored]
  constructor
  · intro none earlier task later split deviceBlob baseBlob
    by_contra kept
    apply none (blobs.blobOf task.deviceName, blobs.blobOf task.baseName)
    refine ⟨earlier, .addTask task, later, split,
      ⟨⟨deviceBlob, baseBlob⟩, rfl⟩, ?_⟩
    intro other otherIn deletes
    apply kept
    refine ⟨other, otherIn, ?_⟩
    cases other with
    | addTask _ => exact deletes
    | deleteTask _ _ => exact Prod.ext_iff.mp deletes
  · intro cleared key found
    obtain ⟨earlier, call, later, split, stores, kept⟩ := found
    cases call with
    | deleteTask _ _ => exact stores
    | addTask task =>
        obtain ⟨⟨deviceBlob, baseBlob⟩, rfl⟩ := stores
        obtain ⟨other, otherIn, deletes⟩ :=
          cleared earlier task later split deviceBlob baseBlob
        apply kept other otherIn
        cases other with
        | addTask _ => exact deletes
        | deleteTask _ _ => exact Prod.ext_iff.mpr deletes

end TaskBlobs

namespace FetchTaskDb

variable {Name : Type} [DecidableEq Name]

def LiveUnder (tasks : List (TaskRow Name)) (key : Name × Name) : Prop :=
  ∃ task ∈ tasks, (task.deviceName, task.baseName) = key

def Adds (call : TaskCall Name) (key : Name × Name) : Prop :=
  match call with
  | .addTask task => (task.deviceName, task.baseName) = key
  | .deleteTask _ _ => False

def Removes (call : TaskCall Name) (key : Name × Name) : Prop :=
  call = .deleteTask key.1 key.2

theorem liveUnder_applyTo (tasks : List (TaskRow Name))
    (call : TaskCall Name) (key : Name × Name) :
    LiveUnder (applyTo tasks call) key ↔
      Adds call key ∨ (LiveUnder tasks key ∧ ¬ Removes call key) := by
  cases call with
  | addTask task =>
      simp only [applyTo, addTask, Adds, Removes, reduceCtorEq,
        not_false_eq_true, and_true]
      split_ifs with present
      · have known : LiveUnder tasks (task.deviceName, task.baseName) := by
          simpa [LiveUnder] using present
        constructor
        · exact Or.inr
        · intro either
          rcases either with rfl | kept
          · exact known
          · exact kept
      · simp only [LiveUnder, List.mem_append, List.mem_singleton,
          or_and_right, exists_or, exists_eq_left]
        rw [or_comm]
  | deleteTask deviceName baseName =>
      simp only [applyTo, deleteTask, Adds, Removes, false_or, LiveUnder,
        List.mem_filter, decide_eq_true_eq, TaskCall.deleteTask.injEq]
      constructor
      · intro found
        obtain ⟨task, ⟨taskIn, kept⟩, rfl⟩ := found
        refine ⟨⟨task, taskIn, rfl⟩, ?_⟩
        intro found
        obtain ⟨rfl, rfl⟩ := found
        exact kept ⟨rfl, rfl⟩
      · intro found
        obtain ⟨⟨task, taskIn, rfl⟩, kept⟩ := found
        refine ⟨task, ⟨taskIn, ?_⟩, rfl⟩
        intro found
        obtain ⟨rfl, rfl⟩ := found
        exact kept ⟨rfl, rfl⟩

theorem live_eq_nil_iff (calls : List (TaskCall Name)) :
    live calls = [] ↔
      ∀ earlier task later, calls = earlier ++ .addTask task :: later →
        .deleteTask task.deviceName task.baseName ∈ later := by
  have outlives (key : Name × Name) : LiveUnder (live calls) key ↔
      Outlives Adds Removes calls key := by
    apply holds_foldl_iff
    · intro other found
      obtain ⟨task, taskIn, -⟩ := found
      exact List.not_mem_nil taskIn
    · exact liveUnder_applyTo
  have empty : live calls = [] ↔ ∀ key, ¬ LiveUnder (live calls) key := by
    constructor
    · intro nothing key found
      obtain ⟨task, taskIn, -⟩ := found
      rw [nothing] at taskIn
      exact List.not_mem_nil taskIn
    · intro unused
      apply List.eq_nil_iff_forall_not_mem.mpr
      intro task taskIn
      exact unused _ ⟨task, taskIn, rfl⟩
  rw [empty]
  simp only [outlives]
  constructor
  · intro none earlier task later split
    by_contra kept
    apply none (task.deviceName, task.baseName)
    refine ⟨earlier, .addTask task, later, split, rfl, ?_⟩
    rintro other otherIn rfl
    exact kept otherIn
  · intro cleared key found
    obtain ⟨earlier, call, later, split, adds, kept⟩ := found
    cases call with
    | deleteTask _ _ => exact adds
    | addTask task =>
        obtain rfl := adds
        exact kept _ (cleared earlier task later split) rfl

end FetchTaskDb

namespace TaskBlobs

variable {Name : Type} (blobs : TaskBlobs Name)

theorem foreachTask_eq (rows : List StoredTask) :
    blobs.foreachTask rows = if rows = [] then some [] else none := by
  cases rows with
  | nil => rfl
  | cons row rows =>
      have unread : blobs.readTask row = none := by
        simp [readTask, readName, stringAt]
      simp [foreachTask, unread]

/-- The enumeration is right exactly if nothing is left to enumerate: every
task that was added has been deleted, and so has its row. -/
theorem enumerates_iff [DecidableEq Name] (calls : List (TaskCall Name)) :
    blobs.Enumerates calls ↔ blobs.Cleared calls := by
  have emptied : blobs.Enumerates calls ↔
      blobs.stored calls = [] ∧ FetchTaskDb.live calls = [] := by
    unfold Enumerates
    rw [foreachTask_eq]
    constructor
    · intro found
      obtain ⟨reported, enumerated, same⟩ := found
      split_ifs at enumerated with empty
      obtain rfl := Option.some.inj enumerated
      exact ⟨empty, List.nil_perm.mp same⟩
    · intro found
      obtain ⟨empty, nothing⟩ := found
      refine ⟨[], if_pos empty, ?_⟩
      rw [nothing]
  rw [emptied, stored_eq_nil_iff, FetchTaskDb.live_eq_nil_iff]
  constructor
  · rintro ⟨rowsDeleted, deleted⟩ earlier task later split
    exact ⟨deleted earlier task later split,
      rowsDeleted earlier task later split⟩
  · intro cleared
    exact ⟨fun earlier task later split =>
        (cleared earlier task later split).2,
      fun earlier task later split => (cleared earlier task later split).1⟩

end TaskBlobs

/-- Names as the table binds them, with zeros where the bytes go on past the
encoding. -/
def valueBlobs : TaskBlobs Name where
  toNameOps := Name.uriOps
  size name := name.wireEncode.length
  valueBytes name count :=
    (encodeComponents name.components ++ List.replicate count 0).take count

/-- The actions of `/alex` under a longer base name. -/
def alexTask : TaskRow Name :=
  ⟨Name.alex, Name.broadcast, 0, 11, 1⟩

/-- A task that has been added is not enumerated, and one that is deleted
stays in the table when its two names differ in size. -/
theorem enumeration_fails_alexTask :
    let added : List (TaskCall Name) := [.addTask alexTask]
    let deleted : List (TaskCall Name) :=
      [.addTask alexTask, .deleteTask Name.alex Name.broadcast]
    (FetchTaskDb.live added = [alexTask] ∧
      valueBlobs.foreachTask (valueBlobs.stored added) = none ∧
      ¬ valueBlobs.Enumerates added) ∧
    (FetchTaskDb.live deleted = [] ∧
      (valueBlobs.stored deleted).length = 1 ∧
      ¬ valueBlobs.Enumerates deleted) := by
  intro added deleted
  have unread : valueBlobs.foreachTask (valueBlobs.stored added) = none := by
    decide +kernel
  have kept : valueBlobs.foreachTask (valueBlobs.stored deleted) = none := by
    decide +kernel
  refine ⟨⟨by decide +kernel, unread, ?_⟩, by decide +kernel,
    by decide +kernel, ?_⟩
  · intro found
    obtain ⟨reported, enumerated, -⟩ := found
    rw [unread] at enumerated
    exact Option.some_ne_none _ enumerated.symm
  · intro found
    obtain ⟨reported, enumerated, -⟩ := found
    rw [kept] at enumerated
    exact Option.some_ne_none _ enumerated.symm

end ChronoShare
