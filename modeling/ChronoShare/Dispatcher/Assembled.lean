import ChronoShare.Dispatcher.CompleteFiles
import ChronoShare.ObjectStore.Assembly

/-!
# The files of a completed fetch

When a fetch is complete, the files with its hash are written one after the
other, and those that are up to date are passed over.  After a part of the
files, a place that has been reached holds what was written there first, or the
file that was up to date, and every other place what it held before.
-/

namespace ChronoShare

namespace Dispatcher

variable {Name : Type} (platform : DispatcherPlatform Name)

/-- The database of the hash has all segments of the content for the device. -/
structure HoldsAll (tables : Bytes → ObjectTable) (deviceName : Name)
    (hash content : Bytes) : Prop where
  hashed : platform.sha256 content = hash
  segments : ObjectManager.HoldsSubset platform.ndn
    (tables (platform.hashText hash)) deviceName content
    (List.range (ObjectManager.segments content).length)

/-- The segments assemble to the content, or the hash names no database and the
call throws. -/
def AssemblesTo (tables : Bytes → ObjectTable) (deviceName : Name)
    (hash content : Bytes) : Prop :=
  ∀ assembled ∈ assembledContent platform tables deviceName hash,
    assembled = some content

/-- The rows with the hash, in the order in which they are assembled. -/
def filesToAssemble (state : Dispatcher Name) (hash : Bytes) : List FileRow :=
  state.log.fileState.filter fun row => row.fileHash = hash

/-- What the row says the disk has at its place. -/
def wantedNode (content : Bytes) (row : FileRow) : FileNode :=
  .file content (readTime row.fileMtime) row.itemMode

/-- Every row with the hash is complete, and its file is as the row says. -/
def AllAssembled (state : Dispatcher Name) (hash content : Bytes) : Prop :=
  ∀ row ∈ state.log.fileState, row.fileHash = hash →
    row.isComplete = true ∧
      state.disk.lookup (platform.placeOf row.filename) =
        some (wantedNode content row)

/-- The first row at its place, if the file is not up to date at the start. -/
def Written (state : Dispatcher Name) (hash : Bytes) (row : FileRow) : Prop :=
  upToDate platform state.disk row hash = false ∧
    (filesToAssemble state hash).find? (fun other =>
      platform.placeOf other.filename = platform.placeOf row.filename) =
        some row

instance (state : Dispatcher Name) (hash : Bytes) (row : FileRow) :
    Decidable (Written platform state hash row) :=
  inferInstanceAs (Decidable (_ ∧ _))

/-- No place of a row with the hash is on the way to the file of the row. -/
def ClearWay (state : Dispatcher Name) (hash : Bytes) (row : FileRow) : Prop :=
  ∀ other ∈ filesToAssemble state hash,
    ¬ platform.placeOf other.filename <+:
      Path.resolve (platform.pathOf row.filename).dropLast

instance (state : Dispatcher Name) (hash : Bytes) (row : FileRow) :
    Decidable (ClearWay platform state hash row) :=
  inferInstanceAs (Decidable (∀ other ∈ _, ¬ _))

/-- The rows with the hash say the same about a place that they share, and no
place is a directory. -/
structure Consistent (state : Dispatcher Name) (hash : Bytes) : Prop where
  agree : ∀ left ∈ filesToAssemble state hash,
    ∀ right ∈ filesToAssemble state hash,
      platform.placeOf left.filename = platform.placeOf right.filename →
        readTime left.fileMtime = readTime right.fileMtime ∧
          left.itemMode = right.itemMode
  plain : ∀ row ∈ filesToAssemble state hash,
    ¬ state.disk.IsDirectory (platform.placeOf row.filename)

/-- The conditions on the rows with the hash and on their places before the
files are assembled. -/
structure Assemblable (state : Dispatcher Name) (hash content : Bytes) : Prop
    extends Consistent platform state hash where
  timed : ∀ row ∈ filesToAssemble state hash,
    row.itemMtime.toUInt64.toInt64 = readTime row.fileMtime
  exact : ∀ row ∈ filesToAssemble state hash,
    upToDate platform state.disk row hash = true →
      state.disk.lookup (platform.placeOf row.filename) =
        some (.file content row.itemMtime.toUInt64.toInt64 row.itemMode)
  permitted : ∀ row ∈ filesToAssemble state hash,
    upToDate platform state.disk row hash = false →
      row.itemMode &&& 0o7777 = row.itemMode
  clear : ∀ row ∈ filesToAssemble state hash,
    Written platform state hash row → ClearWay platform state hash row
  complete : ∀ row ∈ filesToAssemble state hash,
    row.isComplete = true ∨ Written platform state hash row

variable {platform}

theorem upToDate_congr {disk after : Disk} {row : FileRow} {hash : Bytes}
    (same : after.lookup (platform.placeOf row.filename) =
      disk.lookup (platform.placeOf row.filename)) :
    upToDate platform after row hash = upToDate platform disk row hash := by
  rw [upToDate, upToDate, same]

theorem HoldsAll.assembled {tables : Bytes → ObjectTable} {deviceName : Name}
    {hash content : Bytes}
    (holds : HoldsAll platform tables deviceName hash content) :
    AssemblesTo platform tables deviceName hash content := by
  intro assembled given
  have present : ∀ index < (ObjectManager.segments content).length,
      index ∈ List.range (ObjectManager.segments content).length :=
    fun index bound => List.mem_range.mpr bound
  have missing : (ObjectManager.segments content).length ∉
      List.range (ObjectManager.segments content).length := by simp
  have some : List.range (ObjectManager.segments content).length ≠ [] := by
    rw [Ne, List.range_eq_nil, List.length_eq_zero_iff]
    exact ObjectManager.segments_ne_nil content
  rw [assembledContent] at given
  cases located : ObjectDb.location (platform.hashText hash) with
  | none =>
      simp [ObjectManager.objectsToLocalFile, DispatcherPlatform.objects,
        located] at given
  | some location =>
      have result := @ObjectManager.HoldsSubset.objectsToLocalFile Name
        platform.objects ⟨tables, fun _ => none⟩ deviceName hash [] content _
        holds.segments _ present missing location located
      rw [if_neg some, List.take_length, ObjectManager.flatten_segments]
        at result
      rw [result] at given
      simpa using given.symm

/-- What writing the file of the row leaves at its place. -/
def writtenNode (content : Bytes) (row : FileRow) : FileNode :=
  .file content row.itemMtime.toUInt64.toInt64 (row.itemMode &&& 0o7777)

theorem assembleFile_cases {surroundings : Surroundings} {deviceName : Name}
    {hash content : Bytes} {row : FileRow} {source target : Dispatcher Name}
    (assembled : AssemblesTo platform source.tables deviceName hash content)
    (ran : assembleFile platform surroundings deviceName hash source row =
      some target) :
    upToDate platform source.disk row hash = true ∧ target = source ∨
      upToDate platform source.disk row hash = false ∧
        ∃ disk, source.disk.writeFile (platform.pathOf row.filename) content
            row.itemMtime.toUInt64.toInt64 (row.itemMode &&& 0o7777)
            surroundings.now surroundings.directoryMode = some disk ∧
          target = { source with
            disk := disk
            log := { source.log with
              fileState := FileState.setFileComplete source.log.fileState
                row.filename } } := by
  rw [assembleFile] at ran
  split_ifs at ran with current
  · exact Or.inl ⟨current, (Option.some.inj ran).symm⟩
  · cases given : assembledContent platform source.tables deviceName hash with
    | none =>
        rw [given] at ran
        cases ran
    | some result =>
        obtain rfl := assembled result given
        rw [given] at ran
        obtain ⟨disk, written, rfl⟩ := Option.map_eq_some_iff.mp ran
        exact Or.inr ⟨Bool.eq_false_iff.mpr current, disk, written, rfl⟩

theorem Consistent.itemMtime {source : Dispatcher Name} {hash : Bytes}
    (consistent : Consistent platform source hash) {left right : FileRow}
    (leftIn : left ∈ filesToAssemble source hash)
    (rightIn : right ∈ filesToAssemble source hash)
    (place : platform.placeOf left.filename =
      platform.placeOf right.filename) : left.itemMtime = right.itemMtime := by
  rw [FileRow.itemMtime, FileRow.itemMtime,
    (consistent.agree left leftIn right rightIn place).1]

theorem Consistent.upToDate_eq {source : Dispatcher Name} {hash : Bytes}
    (consistent : Consistent platform source hash) {left right : FileRow}
    (leftIn : left ∈ filesToAssemble source hash)
    (rightIn : right ∈ filesToAssemble source hash)
    (place : platform.placeOf left.filename = platform.placeOf right.filename)
    (disk : Disk) :
    upToDate platform disk left hash = upToDate platform disk right hash := by
  rw [upToDate, upToDate, place, consistent.itemMtime leftIn rightIn place,
    (consistent.agree left leftIn right rightIn place).2]

theorem Consistent.writtenNode_eq {source : Dispatcher Name} {hash : Bytes}
    (consistent : Consistent platform source hash) {left right : FileRow}
    (leftIn : left ∈ filesToAssemble source hash)
    (rightIn : right ∈ filesToAssemble source hash)
    (place : platform.placeOf left.filename = platform.placeOf right.filename)
    (content : Bytes) :
    writtenNode content left = writtenNode content right := by
  rw [writtenNode, writtenNode, consistent.itemMtime leftIn rightIn place,
    (consistent.agree left leftIn right rightIn place).2]

variable (platform) in
/-- A place that a row has reached holds what is written for it, unless the
file was up to date at the start. -/
structure Reached (source : Dispatcher Name) (hash content : Bytes)
    (done : List FileRow) (state : Dispatcher Name) : Prop where
  tables : state.tables = source.tables
  nodes : ∀ row ∈ filesToAssemble source hash,
    state.disk.lookup (platform.placeOf row.filename) =
      if (∃ other ∈ done, platform.placeOf other.filename =
            platform.placeOf row.filename) ∧
          upToDate platform source.disk row hash = false then
        some (writtenNode content row)
      else
        source.disk.lookup (platform.placeOf row.filename)

variable {source state target : Dispatcher Name} {hash content : Bytes}
  {done : List FileRow} {row : FileRow} {surroundings : Surroundings}
  {deviceName : Name}

theorem Reached.start : Reached platform source hash content [] source where
  tables := rfl
  nodes := by
    intro row _
    rw [if_neg]
    simp

theorem Reached.upToDate_start
    (reached : Reached platform source hash content done state)
    (member : row ∈ filesToAssemble source hash)
    (stale : upToDate platform state.disk row hash = false) :
    upToDate platform source.disk row hash = false := by
  by_contra current
  have same := reached.nodes row member
  rw [if_neg fun both => current both.2] at same
  rw [upToDate_congr same] at stale
  exact current stale

theorem Reached.not_isDirectory (consistent : Consistent platform source hash)
    (reached : Reached platform source hash content done state)
    (member : row ∈ filesToAssemble source hash) :
    ¬ state.disk.IsDirectory (platform.placeOf row.filename) := by
  rintro ⟨mtime, mode, found⟩
  rw [reached.nodes row member] at found
  split_ifs at found
  · simp [writtenNode] at found
  · exact consistent.plain row member ⟨mtime, mode, found⟩

theorem exists_mem_concat {other : FileRow} :
    (∃ reached ∈ done ++ [row], platform.placeOf reached.filename =
        platform.placeOf other.filename) ↔
      (∃ reached ∈ done, platform.placeOf reached.filename =
        platform.placeOf other.filename) ∨
      platform.placeOf row.filename = platform.placeOf other.filename := by
  simp only [List.mem_append, List.mem_singleton, or_and_right, exists_or,
    exists_eq_left]

/-- Passing a file over leaves its place as it was at the start or as it was
written. -/
theorem Reached.skip (consistent : Consistent platform source hash)
    (reached : Reached platform source hash content done state)
    (member : row ∈ filesToAssemble source hash)
    (current : upToDate platform state.disk row hash = true) :
    Reached platform source hash content (done ++ [row]) state := by
  refine ⟨reached.tables, ?_⟩
  intro other otherIn
  simp only [exists_mem_concat]
  by_cases place : platform.placeOf row.filename =
      platform.placeOf other.filename
  · have still : upToDate platform state.disk other hash = true := by
      rw [← consistent.upToDate_eq member otherIn place]
      exact current
    by_cases before : ∃ earlier ∈ done,
        platform.placeOf earlier.filename = platform.placeOf other.filename
    · simp only [reached.nodes other otherIn, before, true_or]
    · have same := reached.nodes other otherIn
      rw [if_neg fun both => before both.1] at same
      rw [upToDate_congr same] at still
      rw [same, if_neg]
      simp [still]
  · simp only [reached.nodes other otherIn, place, or_false]

theorem Reached.write {disk : Disk} {log : ActionLog Name}
    (consistent : Consistent platform source hash)
    (reached : Reached platform source hash content done state)
    (member : row ∈ filesToAssemble source hash)
    (stale : upToDate platform state.disk row hash = false)
    (written : state.disk.writeFile (platform.pathOf row.filename) content
      row.itemMtime.toUInt64.toInt64 (row.itemMode &&& 0o7777)
      surroundings.now surroundings.directoryMode = some disk)
    (clear : ClearWay platform source hash row) :
    Reached platform source hash content (done ++ [row])
      { state with disk := disk, log := log } := by
  refine ⟨reached.tables, ?_⟩
  intro other otherIn
  simp only [exists_mem_concat]
  by_cases place : platform.placeOf row.filename =
      platform.placeOf other.filename
  · have staleOther : upToDate platform source.disk other hash = false := by
      rw [← consistent.upToDate_eq member otherIn place]
      exact reached.upToDate_start member stale
    have own : disk.lookup (platform.placeOf row.filename) =
        some (writtenNode content row) := by
      apply Disk.lookup_writeFile_self written
      · intro mtime mode found
        exact reached.not_isDirectory consistent member ⟨mtime, mode, found⟩
      · exact clear row member
    rw [if_pos ⟨Or.inr place, staleOther⟩, ← place, own,
      consistent.writtenNode_eq member otherIn place]
  · have kept : disk.lookup (platform.placeOf other.filename) =
        state.disk.lookup (platform.placeOf other.filename) := by
      rcases Disk.lookup_writeFile written (Ne.symm place) with
        same | ⟨onWay, -⟩
      · exact same
      · exact absurd onWay (clear other otherIn)
    rw [kept]
    simp only [reached.nodes other otherIn, place, or_false]

theorem Reached.assembleFile (consistent : Consistent platform source hash)
    (assembled : AssemblesTo platform source.tables deviceName hash content)
    (reached : Reached platform source hash content done state)
    (member : row ∈ filesToAssemble source hash)
    (ran : Dispatcher.assembleFile platform surroundings deviceName hash state
      row = some target)
    (clear : upToDate platform state.disk row hash = false →
      ClearWay platform source hash row) :
    Reached platform source hash content (done ++ [row]) target := by
  rw [← reached.tables] at assembled
  rcases assembleFile_cases assembled ran with
    ⟨current, rfl⟩ | ⟨stale, disk, written, rfl⟩
  · exact reached.skip consistent member current
  · exact reached.write consistent member stale written (clear stale)

/-- The rows after the files of these names are complete. -/
def markComplete (names : List Bytes) (files : List FileRow) :
    List FileRow :=
  files.map fun row =>
    { row with isComplete := row.isComplete || decide (row.filename ∈ names) }

theorem setFileComplete_markComplete {names : List Bytes} {filename : Bytes}
    (plain : cString filename = filename) (files : List FileRow) :
    FileState.setFileComplete (markComplete names files) filename =
      markComplete (names ++ [filename]) files := by
  rw [FileState.setFileComplete, markComplete, markComplete, List.map_map,
    plain]
  apply List.map_congr_left
  intro row _
  by_cases same : row.filename = filename <;> simp [same]

theorem mem_markComplete {names : List Bytes} {files : List FileRow}
    {marked : FileRow} (member : marked ∈ markComplete names files) :
    ∃ row ∈ files, marked.filename = row.filename ∧
      marked.fileHash = row.fileHash ∧
      (∀ content, wantedNode content marked = wantedNode content row) ∧
      (marked.isComplete = true ↔
        row.isComplete = true ∨ row.filename ∈ names) := by
  obtain ⟨row, rowIn, rfl⟩ := List.mem_map.mp member
  exact ⟨row, rowIn, rfl, rfl, fun _ => rfl, by simp⟩

theorem exists_mem_markComplete {row : FileRow} {files : List FileRow}
    (member : row ∈ files) (names : List Bytes) :
    ∃ marked ∈ markComplete names files,
      marked.filename = row.filename ∧ marked.fileHash = row.fileHash ∧
      (∀ content, wantedNode content marked = wantedNode content row) ∧
      (marked.isComplete = true ↔
        row.isComplete = true ∨ row.filename ∈ names) := by
  exact ⟨_, List.mem_map_of_mem member, rfl, rfl, fun _ => rfl, by simp⟩

theorem Reached.stale_of_written {rest : List FileRow}
    (reached : Reached platform source hash content done state)
    (split : filesToAssemble source hash = done ++ row :: rest)
    (distinct : (filesToAssemble source hash).Nodup)
    (written : Written platform source hash row) :
    upToDate platform state.disk row hash = false := by
  obtain ⟨stale, first⟩ := written
  have member : row ∈ filesToAssemble source hash := by
    rw [split]
    simp
  have unvisited : ¬ ∃ other ∈ done, platform.placeOf other.filename =
      platform.placeOf row.filename := by
    rintro ⟨other, otherIn, place⟩
    have earlier : done.find? (fun other => platform.placeOf other.filename =
        platform.placeOf row.filename) = some row := by
      rw [split, List.find?_append] at first
      rcases Option.or_eq_some_iff.mp first with found | ⟨absent, -⟩
      · exact found
      · have nothing := List.find?_eq_none.mp absent other otherIn
        exact absurd (decide_eq_true place) nothing
    have again := List.mem_of_find?_eq_some earlier
    rw [split] at distinct
    exact (List.disjoint_of_nodup_append distinct) again
      List.mem_cons_self
  have same := reached.nodes row member
  rw [if_neg fun both => unvisited both.1] at same
  rw [upToDate_congr same]
  exact stale

theorem Reached.written_of_stale {rest : List FileRow}
    (reached : Reached platform source hash content done state)
    (split : filesToAssemble source hash = done ++ row :: rest)
    (hashed : platform.sha256 content = hash)
    (permitted : upToDate platform source.disk row hash = false →
      row.itemMode &&& 0o7777 = row.itemMode)
    (stale : upToDate platform state.disk row hash = false) :
    Written platform source hash row := by
  have member : row ∈ filesToAssemble source hash := by
    rw [split]
    simp
  have staleStart := reached.upToDate_start member stale
  refine ⟨staleStart, ?_⟩
  have unvisited : ∀ other ∈ done, ¬ platform.placeOf other.filename =
      platform.placeOf row.filename := by
    intro other otherIn place
    have found := reached.nodes row member
    rw [if_pos ⟨⟨other, otherIn, place⟩, staleStart⟩] at found
    have current : upToDate platform state.disk row hash = true := by
      rw [upToDate, found]
      simp [writtenNode, FileNode.mtime, FileNode.mode, FileNode.bytes,
        permitted staleStart, hashed]
    rw [current] at stale
    exact absurd stale (by simp)
  have none : done.find? (fun other => platform.placeOf other.filename =
      platform.placeOf row.filename) = none := by
    apply List.find?_eq_none.mpr
    intro other otherIn same
    exact unvisited other otherIn (of_decide_eq_true same)
  rw [split, List.find?_append, none, Option.none_or]
  simp

theorem filesToAssemble_nodup
    (named : FileState.WellNamed source.log.fileState) :
    (filesToAssemble source hash).Nodup :=
  (named.unique.of_map _).sublist List.filter_sublist

theorem reached_marked {final : Dispatcher Name}
    (named : FileState.WellNamed source.log.fileState)
    (consistent : Consistent platform source hash)
    (permitted : ∀ row ∈ filesToAssemble source hash,
      upToDate platform source.disk row hash = false →
        row.itemMode &&& 0o7777 = row.itemMode)
    (clear : ∀ row ∈ filesToAssemble source hash,
      Written platform source hash row → ClearWay platform source hash row)
    (holds : HoldsAll platform source.tables deviceName hash content)
    (ran : (filesToAssemble source hash).foldlM
      (assembleFile platform surroundings deviceName hash) source =
        some final) :
    Reached platform source hash content (filesToAssemble source hash) final ∧
      final.log.fileState = markComplete
        (((filesToAssemble source hash).filter fun row =>
          Written platform source hash row).map (·.filename))
        source.log.fileState := by
  have distinct := @filesToAssemble_nodup _ source hash named
  apply foldlM_prefix_invariant (fun done state =>
    Reached platform source hash content done state ∧
      state.log.fileState = markComplete
        ((done.filter fun row => Written platform source hash row).map
          (·.filename)) source.log.fileState) ran
  · refine ⟨.start, ?_⟩
    simp [markComplete]
  · intro done row rest state target split step _ earlier
    obtain ⟨reached, marked⟩ := earlier
    have member : row ∈ filesToAssemble source hash := by
      rw [split]
      simp
    have writes : upToDate platform state.disk row hash = false →
        Written platform source hash row :=
      reached.written_of_stale split holds.hashed (permitted row member)
    refine ⟨reached.assembleFile consistent holds.assembled member step
      fun stale => clear row member (writes stale), ?_⟩
    have assembled := holds.assembled
    rw [← reached.tables] at assembled
    rw [List.filter_append, List.map_append]
    rcases assembleFile_cases assembled step with
      ⟨current, rfl⟩ | ⟨stale, disk, -, rfl⟩
    · have unwritten : ¬ Written platform source hash row := by
        intro written
        have stale := reached.stale_of_written split distinct written
        rw [current] at stale
        exact absurd stale (by simp)
      simpa [unwritten] using marked
    · have plain : cString row.filename = row.filename :=
        named.plain row (List.mem_filter.mp member).1
      rw [marked, setFileComplete_markComplete plain]
      simp [writes stale]

theorem Reached.final {final : Dispatcher Name}
    (reached : Reached platform source hash content
      (filesToAssemble source hash) final)
    (member : row ∈ filesToAssemble source hash) :
    final.disk.lookup (platform.placeOf row.filename) =
      if upToDate platform source.disk row hash = false then
        some (writtenNode content row)
      else
        source.disk.lookup (platform.placeOf row.filename) := by
  have visited : ∃ other ∈ filesToAssemble source hash,
      platform.placeOf other.filename = platform.placeOf row.filename :=
    ⟨row, member, rfl⟩
  simp only [reached.nodes row member, visited, true_and]

theorem allAssembled_of_assemblable {final : Dispatcher Name}
    (named : FileState.WellNamed source.log.fileState)
    (holds : HoldsAll platform source.tables deviceName hash content)
    (ran : (filesToAssemble source hash).foldlM
      (assembleFile platform surroundings deviceName hash) source = some final)
    (assemblable : Assemblable platform source hash content) :
    AllAssembled platform final hash content := by
  obtain ⟨reached, marked⟩ := reached_marked named
    assemblable.toConsistent assemblable.permitted assemblable.clear holds ran
  intro other otherIn hashed
  rw [marked] at otherIn
  obtain ⟨row, rowIn, sameName, sameHash, wanted, complete⟩ :=
    mem_markComplete otherIn
  have member : row ∈ filesToAssemble source hash := by
    apply List.mem_filter.mpr
    exact ⟨rowIn, decide_eq_true (sameHash.symm.trans hashed)⟩
  rw [sameName, wanted, complete]
  constructor
  · rcases assemblable.complete row member with before | written
    · exact Or.inl before
    · right
      apply List.mem_map_of_mem
      exact List.mem_filter.mpr ⟨member, decide_eq_true written⟩
  · rw [reached.final member, wantedNode, ← assemblable.timed row member]
    split_ifs with stale
    · rw [writtenNode, assemblable.permitted row member stale]
    · rw [Bool.not_eq_false] at stale
      exact assemblable.exact row member stale

theorem fileState_foldlM {files : List FileRow}
    (named : FileState.WellNamed source.log.fileState)
    (holds : HoldsAll platform source.tables deviceName hash content)
    (members : ∀ row ∈ files, row ∈ source.log.fileState)
    (ran : files.foldlM (assembleFile platform surroundings deviceName hash)
      source = some target) :
    target.tables = source.tables ∧ ∃ names,
      target.log.fileState = markComplete names source.log.fileState := by
  apply foldlM_invariant (fun state => state.tables = source.tables ∧ ∃ names,
    state.log.fileState = markComplete names source.log.fileState) ran
  · refine ⟨rfl, [], ?_⟩
    simp [markComplete]
  · rintro row rowIn state next step ⟨tables, names, marked⟩
    have assembled := holds.assembled
    rw [← tables] at assembled
    rcases assembleFile_cases assembled step with
      ⟨-, rfl⟩ | ⟨-, disk, -, rfl⟩
    · exact ⟨tables, names, marked⟩
    · have plain : cString row.filename = row.filename :=
        named.plain row (members row rowIn)
      refine ⟨tables, names ++ [row.filename], ?_⟩
      rw [← setFileComplete_markComplete plain, ← marked]

theorem isDirectory_assemble {files : List FileRow} {place : Path}
    (assembled : AssemblesTo platform source.tables deviceName hash content)
    (ran : files.foldlM (assembleFile platform surroundings deviceName hash)
      source = some target)
    (directory : source.disk.IsDirectory place) :
    target.disk.IsDirectory place := by
  have kept : target.tables = source.tables ∧
      target.disk.IsDirectory place := by
    apply foldlM_invariant (fun state => state.tables = source.tables ∧
      state.disk.IsDirectory place) ran ⟨rfl, directory⟩
    rintro row - state next step ⟨tables, earlier⟩
    rw [← tables] at assembled
    rcases assembleFile_cases assembled step with
      ⟨-, rfl⟩ | ⟨-, disk, written, rfl⟩
    · exact ⟨tables, earlier⟩
    · exact ⟨tables, Disk.isDirectory_writeFile written (Or.inl earlier)⟩
  exact kept.2

theorem clear_of_file {final : Dispatcher Name} {rest : List FileRow}
    {place : Path}
    (assembled : AssemblesTo platform state.tables deviceName hash content)
    (step : assembleFile platform surroundings deviceName hash state row =
      some target)
    (ran : rest.foldlM (assembleFile platform surroundings deviceName hash)
      target = some final)
    (stale : upToDate platform state.disk row hash = false)
    (file : ¬ final.disk.IsDirectory place) :
    ¬ place <+: Path.resolve (platform.pathOf row.filename).dropLast := by
  intro onWay
  apply file
  rcases assembleFile_cases assembled step with
    ⟨current, -⟩ | ⟨-, disk, written, next⟩
  · rw [current] at stale
    exact absurd stale (by simp)
  · have tables : target.tables = state.tables := by rw [next]
    have directory : target.disk.IsDirectory place := by
      rw [next]
      exact Disk.isDirectory_writeFile written (Or.inr onWay)
    rw [← tables] at assembled
    exact isDirectory_assemble assembled ran directory

section Necessary

variable {final : Dispatcher Name}
  (named : FileState.WellNamed source.log.fileState)
  (holds : HoldsAll platform source.tables deviceName hash content)
  (ran : (filesToAssemble source hash).foldlM
    (assembleFile platform surroundings deviceName hash) source = some final)
  (all : AllAssembled platform final hash content)

include named holds ran all

theorem lookup_of_allAssembled (member : row ∈ filesToAssemble source hash) :
    final.disk.lookup (platform.placeOf row.filename) =
      some (wantedNode content row) := by
  have members : ∀ row ∈ filesToAssemble source hash,
      row ∈ source.log.fileState :=
    fun row member => (List.mem_filter.mp member).1
  obtain ⟨-, names, kept⟩ := fileState_foldlM named holds members ran
  obtain ⟨rowIn, hashed⟩ := List.mem_filter.mp member
  obtain ⟨marked, markedIn, sameName, sameHash, wanted, -⟩ :=
    exists_mem_markComplete rowIn names
  rw [← kept] at markedIn
  have found := (all marked markedIn
    (sameHash.trans (of_decide_eq_true hashed))).2
  rw [sameName, wanted] at found
  exact found

theorem isFile_of_allAssembled (member : row ∈ filesToAssemble source hash) :
    ¬ final.disk.IsDirectory (platform.placeOf row.filename) := by
  rintro ⟨mtime, mode, directory⟩
  rw [lookup_of_allAssembled named holds ran all member] at directory
  simp [wantedNode] at directory

theorem consistent_of_allAssembled : Consistent platform source hash where
  agree := by
    intro left leftIn right rightIn place
    have foundLeft := lookup_of_allAssembled named holds ran all leftIn
    have foundRight := lookup_of_allAssembled named holds ran all rightIn
    rw [place, foundRight] at foundLeft
    obtain ⟨-, mtime, mode⟩ := FileNode.file.inj (Option.some.inj foundLeft)
    exact ⟨mtime.symm, mode.symm⟩
  plain := by
    intro row member directory
    apply isFile_of_allAssembled named holds ran all member
    exact isDirectory_assemble holds.assembled ran directory

theorem reached_of_allAssembled :
    Reached platform source hash content (filesToAssemble source hash) final ∧
      ∀ row ∈ filesToAssemble source hash,
        Written platform source hash row →
          ClearWay platform source hash row := by
  have consistent := consistent_of_allAssembled named holds ran all
  have distinct := @filesToAssemble_nodup _ source hash named
  apply foldlM_prefix_invariant (fun done state =>
    Reached platform source hash content done state ∧ ∀ row ∈ done,
      Written platform source hash row →
        ClearWay platform source hash row) ran
  · refine ⟨.start, ?_⟩
    simp
  · intro done row rest state target split step later earlier
    obtain ⟨reached, before⟩ := earlier
    have member : row ∈ filesToAssemble source hash := by
      rw [split]
      simp
    have assembled := holds.assembled
    rw [← reached.tables] at assembled
    have clear : upToDate platform state.disk row hash = false →
        ClearWay platform source hash row := by
      intro stale other otherIn
      apply clear_of_file assembled step later stale
      exact isFile_of_allAssembled named holds ran all otherIn
    refine ⟨reached.assembleFile consistent holds.assembled member step clear,
      ?_⟩
    rw [List.forall_mem_append, List.forall_mem_singleton]
    refine ⟨before, ?_⟩
    intro written
    exact clear (reached.stale_of_written split distinct written)

theorem node_of_allAssembled (member : row ∈ filesToAssemble source hash) :
    (if upToDate platform source.disk row hash = false then
      some (writtenNode content row)
    else
      source.disk.lookup (platform.placeOf row.filename)) =
        some (wantedNode content row) := by
  obtain ⟨reached, -⟩ := reached_of_allAssembled named holds ran all
  rw [← reached.final member]
  exact lookup_of_allAssembled named holds ran all member

theorem permitted_of_allAssembled (member : row ∈ filesToAssemble source hash)
    (stale : upToDate platform source.disk row hash = false) :
    row.itemMode &&& 0o7777 = row.itemMode := by
  have written := node_of_allAssembled named holds ran all member
  rw [if_pos stale] at written
  exact (FileNode.file.inj (Option.some.inj written)).2.2

theorem timed_of_allAssembled (member : row ∈ filesToAssemble source hash) :
    row.itemMtime.toUInt64.toInt64 = readTime row.fileMtime := by
  have same := node_of_allAssembled named holds ran all member
  split_ifs at same with stale
  · exact (FileNode.file.inj (Option.some.inj same)).2.1
  · rw [Bool.not_eq_false, upToDate, same] at stale
    exact (of_decide_eq_true stale).1.symm

theorem complete_of_allAssembled (member : row ∈ filesToAssemble source hash) :
    row.isComplete = true ∨ Written platform source hash row := by
  have marked := (reached_marked named
    (consistent_of_allAssembled named holds ran all)
    (fun row member => permitted_of_allAssembled named holds ran all member)
    (reached_of_allAssembled named holds ran all).2 holds ran).2
  obtain ⟨rowIn, hashed⟩ := List.mem_filter.mp member
  obtain ⟨other, otherIn, -, sameHash, -, complete⟩ :=
    exists_mem_markComplete rowIn
      (((filesToAssemble source hash).filter fun row =>
        Written platform source hash row).map (·.filename))
  rw [← marked] at otherIn
  have done := all other otherIn (sameHash.trans (of_decide_eq_true hashed))
  rcases complete.mp done.1 with before | listed
  · exact Or.inl before
  · obtain ⟨first, chosen, sameName⟩ := List.mem_map.mp listed
    obtain ⟨firstIn, written⟩ := List.mem_filter.mp chosen
    have stored := (List.mem_filter.mp firstIn).1
    obtain rfl := named.eq stored rowIn sameName
    exact Or.inr (of_decide_eq_true written)

theorem assemblable_of_allAssembled :
    Assemblable platform source hash content where
  toConsistent := consistent_of_allAssembled named holds ran all
  timed := by
    intro row member
    exact timed_of_allAssembled named holds ran all member
  exact := by
    intro row member current
    have same := node_of_allAssembled named holds ran all member
    rw [if_neg (by simp [current])] at same
    rw [same, wantedNode, timed_of_allAssembled named holds ran all member]
  permitted := by
    intro row member
    exact permitted_of_allAssembled named holds ran all member
  clear := (reached_of_allAssembled named holds ran all).2
  complete := by
    intro row member
    exact complete_of_allAssembled named holds ran all member

end Necessary

end Dispatcher

namespace Dispatcher

/-- The segment of `/bob` has been fetched. -/
def fetchedTables : Bytes → ObjectTable :=
  fun _ => [⟨Name.uriOps.value Name.bob, 0, some [9]⟩]

/-- The file `f` of `/bob` before the fetch is complete. -/
def fetchedFile (disk : Disk) : Dispatcher Name :=
  let opened := opened (SyncLog.opened Name.uriOps Name.alex) disk
  { opened with
    log := { opened.log with
      fileState := [⟨[0x66], 0, Name.uriOps.value Name.bob, 1, taggedDigest [9],
        datetime 7, 420, 1, false⟩] }
    tables := fetchedTables }

theorem fetchedFile_wellNamed (disk : Disk) :
    FileState.WellNamed (fetchedFile disk).log.fileState where
  unique := List.nodup_singleton _
  plain := by
    intro row member
    rw [List.mem_singleton.mp member]
    rfl

theorem fetchedTables_holdsSubset :
    ObjectManager.HoldsSubset Name.uriOps (fetchedTables []) Name.bob [9]
      (List.range (ObjectManager.segments [9]).length) where
  inFile := by decide +kernel
  stored := by decide +kernel
  exact := by decide +kernel

end Dispatcher

end ChronoShare
