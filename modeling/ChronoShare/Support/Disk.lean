import ChronoShare.Support.Paths
import Mathlib.Data.List.AList

/-!
# Files and directories by their place

A disk without links: the entries by the place a path resolves to.  Removing
takes a file or an empty directory away, and writing a file creates the
directories on the way to it first.
-/

namespace ChronoShare

inductive FileNode where
  | directory (mtime : Int64) (mode : UInt32)
  | file (content : Bytes) (mtime : Int64) (mode : UInt32)
  deriving DecidableEq, Repr

namespace FileNode

/-- The bytes a stream reads, none from a directory. -/
def bytes : FileNode → Bytes
  | .directory .. => []
  | .file content .. => content

def mtime : FileNode → Int64
  | .directory mtime _ => mtime
  | .file _ mtime _ => mtime

def mode : FileNode → UInt32
  | .directory _ mode => mode
  | .file _ _ mode => mode

end FileNode

abbrev Disk := AList fun _ : Path => FileNode

namespace Disk

def isEmpty (disk : Disk) (place : Path) : Bool :=
  match disk.lookup place with
  | some (.directory ..) =>
      disk.keys.all fun other => other = [] ∨ other.dropLast ≠ place
  | _ => false

/-- `none` is the error for a directory that is not empty. -/
def remove (disk : Disk) (place : Path) : Option Disk :=
  match disk.lookup place with
  | none => some disk
  | some (.file ..) => some (disk.erase place)
  | some (.directory ..) =>
      if disk.isEmpty place then some (disk.erase place) else none

/-- `none` is the error for a file in place of the directory. -/
def createDirectory (mtime : Int64) (mode : UInt32) (disk : Disk)
    (place : Path) : Option Disk :=
  match disk.lookup place with
  | none => some (disk.insert place (.directory mtime mode))
  | some (.directory ..) => some disk
  | some (.file ..) => none

def createDirectories (mtime : Int64) (mode : UInt32) (disk : Disk)
    (place : Path) : Option Disk :=
  place.inits.foldlM (createDirectory mtime mode) disk

/-- A file with its time and its permissions, in a directory that is created
if it does not exist.  A directory cannot be opened for writing, but takes the
time and the permissions. -/
def writeFile (disk : Disk) (path : Path) (content : Bytes) (mtime : Int64)
    (mode : UInt32) (directoryTime : Int64) (directoryMode : UInt32) :
    Option Disk :=
  (createDirectories directoryTime directoryMode disk
      (Path.resolve path.dropLast)).map fun disk =>
    match disk.lookup (Path.resolve path) with
    | some (.directory ..) =>
        disk.insert (Path.resolve path) (.directory mtime mode)
    | _ => disk.insert (Path.resolve path) (.file content mtime mode)

variable {disk after : Disk} {place : Path}

theorem lookup_remove (removed : disk.remove place = some after)
    (other : Path) :
    after.lookup other = if other = place then none else disk.lookup other := by
  have erased : (disk.erase place).lookup other =
      if other = place then none else disk.lookup other := by
    split_ifs with same
    · rw [same, AList.lookup_erase]
    · exact AList.lookup_erase_ne same
  rw [remove] at removed
  split at removed
  case h_1 absent =>
    rw [← Option.some.inj removed]
    split_ifs with same
    · rw [same, absent]
    · rfl
  case h_2 =>
    rw [← Option.some.inj removed]
    exact erased
  case h_3 =>
    split_ifs at removed
    rw [← Option.some.inj removed]
    exact erased

theorem mem_remove (removed : disk.remove place = some after) {other : Path} :
    other ∈ after ↔ other ≠ place ∧ other ∈ disk := by
  rw [← AList.lookup_isSome, lookup_remove removed, ← AList.lookup_isSome]
  split_ifs with same
  · simp [same]
  · simp [same]

theorem isEmpty_of_mem {entry : Path} (stored : entry ∈ disk)
    (nonempty : entry ≠ []) (below : entry.dropLast = place) :
    disk.isEmpty place = false := by
  rw [isEmpty]
  split
  · apply List.all_eq_false.mpr
    refine ⟨entry, AList.mem_keys.mp stored, ?_⟩
    simp [nonempty, below]
  · rfl

theorem lookup_createDirectory {mtime : Int64} {mode : UInt32}
    (created : createDirectory mtime mode disk place = some after)
    (other : Path) :
    after.lookup other = disk.lookup other ∨ other = place ∧
      disk.lookup other = none ∧
        after.lookup other = some (.directory mtime mode) := by
  rw [createDirectory] at created
  split at created
  case h_1 absent =>
    rw [← Option.some.inj created]
    by_cases same : other = place
    · rw [same]
      exact .inr ⟨rfl, absent, AList.lookup_insert _⟩
    · exact .inl (AList.lookup_insert_ne same)
  case h_2 =>
    rw [← Option.some.inj created]
    exact .inl rfl
  case h_3 => exact absurd created (by simp)

theorem lookup_foldlM_createDirectory {mtime : Int64} {mode : UInt32}
    {places : List Path}
    (created : places.foldlM (createDirectory mtime mode) disk = some after)
    (other : Path) :
    after.lookup other = disk.lookup other ∨ other ∈ places ∧
      disk.lookup other = none ∧
        after.lookup other = some (.directory mtime mode) := by
  induction places generalizing disk with
  | nil =>
      rw [← Option.some.inj created]
      exact .inl rfl
  | cons first places induction =>
      rw [List.foldlM_cons] at created
      obtain ⟨middle, one, rest⟩ := Option.bind_eq_some_iff.mp created
      have early := lookup_createDirectory one other
      have late := induction rest
      grind

theorem lookup_createDirectories {mtime : Int64} {mode : UInt32}
    (created : createDirectories mtime mode disk place = some after)
    (other : Path) :
    after.lookup other = disk.lookup other ∨ other <+: place ∧
      disk.lookup other = none ∧
        after.lookup other = some (.directory mtime mode) := by
  rw [← List.mem_inits]
  exact lookup_foldlM_createDirectory created other

theorem lookup_writeFile {path : Path} {content : Bytes}
    {mtime directoryTime : Int64} {mode directoryMode : UInt32}
    (written : disk.writeFile path content mtime mode directoryTime
      directoryMode = some after) {other : Path}
    (apart : other ≠ Path.resolve path) :
    after.lookup other = disk.lookup other ∨
      other <+: Path.resolve path.dropLast ∧ disk.lookup other = none ∧
        after.lookup other = some (.directory directoryTime directoryMode) := by
  obtain ⟨middle, created, rfl⟩ := Option.map_eq_some_iff.mp written
  have early := lookup_createDirectories created other
  split
  · rw [AList.lookup_insert_ne apart]
    exact early
  · rw [AList.lookup_insert_ne apart]
    exact early

/-- The file is there afterwards unless its path leads to a directory. -/
theorem lookup_writeFile_self {path : Path} {content : Bytes}
    {mtime directoryTime : Int64} {mode directoryMode : UInt32}
    (written : disk.writeFile path content mtime mode directoryTime
      directoryMode = some after)
    (plain : ∀ time permissions, disk.lookup (Path.resolve path) ≠
      some (.directory time permissions))
    (below : ¬ Path.resolve path <+: Path.resolve path.dropLast) :
    after.lookup (Path.resolve path) = some (.file content mtime mode) := by
  obtain ⟨middle, created, rfl⟩ := Option.map_eq_some_iff.mp written
  have early : middle.lookup (Path.resolve path) =
      disk.lookup (Path.resolve path) := by
    rcases lookup_createDirectories created (Path.resolve path) with
      same | ⟨onWay, _⟩
    · exact same
    · exact absurd onWay below
  split
  case h_1 time permissions found =>
    rw [early] at found
    exact absurd found (plain time permissions)
  case h_2 => exact AList.lookup_insert _

def IsDirectory (disk : Disk) (place : Path) : Prop :=
  ∃ mtime mode, disk.lookup place = some (.directory mtime mode)

/-- Creating directories leaves those there are, and has all of the given
ones. -/
theorem isDirectory_foldlM {mtime : Int64} {mode : UInt32}
    {places : List Path}
    (created : places.foldlM (createDirectory mtime mode) disk = some after)
    {other : Path} (known : disk.IsDirectory other ∨ other ∈ places) :
    after.IsDirectory other := by
  have kept : ∀ {before later : Disk} {rest : List Path},
      rest.foldlM (createDirectory mtime mode) before = some later →
        before.IsDirectory other → later.IsDirectory other := by
    rintro before later rest folded ⟨time, permissions, found⟩
    rcases lookup_foldlM_createDirectory folded other with
      same | ⟨-, absent, -⟩
    · exact ⟨time, permissions, same.trans found⟩
    · rw [found] at absent
      simp at absent
  rcases known with before | member
  · exact kept created before
  · obtain ⟨first, rest, rfl⟩ := List.append_of_mem member
    rw [List.foldlM_append] at created
    obtain ⟨middle, -, folded⟩ := Option.bind_eq_some_iff.mp created
    rw [List.foldlM_cons] at folded
    obtain ⟨next, one, others⟩ := Option.bind_eq_some_iff.mp folded
    apply kept others
    rw [createDirectory] at one
    split at one
    · rw [← Option.some.inj one]
      exact ⟨mtime, mode, AList.lookup_insert _⟩
    · next time permissions found =>
        rw [← Option.some.inj one]
        exact ⟨time, permissions, found⟩
    · simp at one

theorem isDirectory_writeFile {path : Path} {content : Bytes}
    {mtime directoryTime : Int64} {mode directoryMode : UInt32}
    (written : disk.writeFile path content mtime mode directoryTime
      directoryMode = some after) {other : Path}
    (known : disk.IsDirectory other ∨
      other <+: Path.resolve path.dropLast) : after.IsDirectory other := by
  obtain ⟨middle, created, rfl⟩ := Option.map_eq_some_iff.mp written
  rw [← List.mem_inits] at known
  obtain ⟨time, permissions, found⟩ := isDirectory_foldlM created known
  by_cases same : other = Path.resolve path
  · rw [same] at found
    rw [found, same]
    exact ⟨mtime, mode, AList.lookup_insert _⟩
  · refine ⟨time, permissions, ?_⟩
    split
    · rw [AList.lookup_insert_ne same, found]
    · rw [AList.lookup_insert_ne same, found]

end Disk

end ChronoShare
