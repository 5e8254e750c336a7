import ChronoShare.ActionLog.FileView
import ChronoShare.Support.Separated

/-!
# The column of directories

Both tables have a column for the directory of a file.  The statement that
inserts a row leaves it NULL, and a second one fills it.  The tables with the
column behave as those without it, and after every run the column of a row
holds the directory of its file name.
-/

namespace ChronoShare

open Uri (slash)

namespace DbHelper

/-- `path::parent_path ()`: the text before the last slash without the slashes
at its end; below the root this is the root. -/
def parentPath (text : Bytes) : Bytes :=
  let front :=
    if text.getLast? = some slash then text else text.rdropWhile (· ≠ slash)
  let parent := front.rdropWhile (· = slash)
  if parent = [] ∧ front ≠ [] ∧ front ≠ text then [slash] else parent

/-- `directory_name_xFun`; a path without a directory gives NULL. -/
def directoryName (filename : Bytes) : Option Bytes :=
  bindBlob (parentPath filename)

/-- `is_dir_prefix_xFun`; NULL has no bytes. -/
def isDirPrefix (folder : Bytes) (directory : Option Bytes) : Bool :=
  let directory := directory.getD []
  if folder.length = 0 then
    true
  else if directory.length < folder.length then
    false
  else if directory.take folder.length = folder then
    if folder.length = directory.length then true
    else directory[folder.length]? = some slash
  else
    false

theorem parentPath_single {text : Bytes} (single : slash ∉ text) :
    parentPath text = [] := by
  have absent : text.getLast? ≠ some slash := by
    intro last
    exact single (List.mem_of_getLast? last)
  have front : text.rdropWhile (· ≠ slash) = [] := by
    apply List.rdropWhile_eq_nil_iff.mpr
    intro byte member
    exact decide_eq_true fun same => single (same ▸ member)
  simp only [parentPath, if_neg absent, front, List.rdropWhile_nil, ne_eq,
    not_true_eq_false, false_and, and_false, if_false]

theorem parentPath_append {parent last : Bytes}
    (separated : Separated slash parent) (single : slash ∉ last)
    (nonempty : last ≠ []) :
    parentPath (parent ++ slash :: last) = parent := by
  have absent : (parent ++ slash :: last).getLast? ≠ some slash := by
    intro ends
    apply single
    apply List.mem_of_getLast?
    rw [List.getLast?_append_of_ne_nil _ (List.cons_ne_nil slash last),
      List.getLast?_cons_of_ne_nil nonempty] at ends
    exact ends
  have front : (parent ++ slash :: last).rdropWhile (· ≠ slash) =
      parent ++ [slash] := by
    have kept : (last.reverse ++ slash :: parent.reverse).dropWhile
        (· ≠ slash) = slash :: parent.reverse := by
      rw [List.dropWhile_append_of_pos]
      · simp
      · intro byte member
        apply decide_eq_true
        intro same
        exact single (same ▸ List.mem_reverse.mp member)
    rw [List.rdropWhile]
    simp only [List.reverse_append, List.reverse_cons, List.append_assoc,
      List.singleton_append, kept]
    simp
  have stripped : (parent ++ [slash]).rdropWhile (· = slash) = parent := by
    rw [List.rdropWhile_concat_pos _ _ _ (by simp)]
    apply List.rdropWhile_eq_self_iff.mpr
    intro some same
    apply separated.getLast?_ne
    rw [List.getLast?_eq_some_getLast some]
    exact congrArg _ (of_decide_eq_true same)
  simp only [parentPath, if_neg absent, front, stripped, separated.ne_nil,
    false_and, if_false]

theorem isDirPrefix_none {folder : Bytes} (nonempty : folder ≠ []) :
    isDirPrefix folder none = false := by
  simp [isDirPrefix, nonempty, List.length_pos_of_ne_nil nonempty]

theorem isDirPrefix_some {folder directory : Bytes} (nonempty : folder ≠ []) :
    isDirPrefix folder (some directory) = true ↔
      folder.splitOn slash <+: directory.splitOn slash := by
  have some : ¬ folder.length = 0 := by simpa using nonempty
  rw [splitOn_prefix_iff, isDirPrefix]
  dsimp only [Option.getD_some]
  rw [if_neg some]
  split_ifs with short starts whole
  · constructor
    · simp
    · rintro (rfl | ⟨rest, rfl⟩)
      · omega
      · rw [List.length_append, List.length_cons] at short
        omega
  · have same : directory = folder := by
      rw [whole, List.take_length] at starts
      exact starts
    simp [same]
  · obtain ⟨rest, rfl⟩ : ∃ rest, directory = folder ++ rest :=
      ⟨directory.drop folder.length, by
        conv_lhs => rw [← List.take_append_drop folder.length directory,
          starts]⟩
    cases rest with
    | nil => simp at whole
    | cons next rest => simp
  · constructor
    · simp
    · rintro (rfl | ⟨rest, rfl⟩)
      · simp at starts
      · simp at starts

/-- A file lies below a folder when the components of the folder start its
own. -/
theorem isDirPrefix_directoryName {folder filename : Bytes}
    (nonempty : folder ≠ []) (separated : Separated slash filename) :
    isDirPrefix folder (directoryName filename) = true ↔
      folder.splitOn slash <+: filename.splitOn slash ∧
        folder.splitOn slash ≠ filename.splitOn slash := by
  rcases separated.cut with
    ⟨single, split⟩ | ⟨parent, last, rfl, single, some, above, split⟩
  · rw [directoryName, parentPath_single single, bindBlob, if_pos rfl,
      isDirPrefix_none nonempty, split]
    constructor
    · simp
    · intro below
      obtain ⟨isPrefix, apart⟩ := below
      rw [← List.nil_append [filename]] at isPrefix apart
      rcases List.prefix_concat_iff.mp isPrefix with same | empty
      · exact absurd same apart
      · exact absurd (List.prefix_nil.mp empty)
          (List.splitOn_ne_nil slash folder)
  · rw [directoryName, parentPath_append above single some, bindBlob,
      if_neg above.ne_nil, isDirPrefix_some nonempty, split]
    constructor
    · intro isPrefix
      refine ⟨isPrefix.trans (List.prefix_append _ _), ?_⟩
      intro same
      have long := isPrefix.length_le
      rw [same] at long
      rw [List.length_append, List.length_singleton] at long
      omega
    · intro below
      obtain ⟨isPrefix, apart⟩ := below
      rcases List.prefix_concat_iff.mp isPrefix with same | earlier
      · exact absurd same apart
      · exact earlier

end DbHelper

/-- A row with its column for the directory. -/
structure Filed (Row : Type) where
  row : Row
  directory : Option Bytes
  deriving DecidableEq, Repr

namespace Filed

variable {Row : Type}

/-- `SET directory=directory_name(filename)` on the selected rows. -/
def setDirectory (filename : Row → Bytes) (selected : Row → Bool)
    (table : List (Filed Row)) : List (Filed Row) :=
  table.map fun filed =>
    if selected filed.row then
      { filed with
        directory := DbHelper.directoryName (filename filed.row) }
    else
      filed

/-- The column holds the directory of the file name. -/
def InPlace (filename : Row → Bytes) (filed : Filed Row) : Prop :=
  filed.directory = DbHelper.directoryName (filename filed.row)

theorem map_row_setDirectory (filename : Row → Bytes) (selected : Row → Bool)
    (table : List (Filed Row)) :
    (setDirectory filename selected table).map row = table.map row := by
  rw [setDirectory, List.map_map]
  apply List.map_congr_left
  intro filed _
  rw [Function.comp_apply]
  split_ifs <;> rfl

theorem inPlace_setDirectory {filename : Row → Bytes} {selected : Row → Bool}
    {table : List (Filed Row)}
    (others : ∀ filed ∈ table, selected filed.row = false →
      filed.InPlace filename) :
    ∀ filed ∈ setDirectory filename selected table,
      filed.InPlace filename := by
  intro filed member
  obtain ⟨earlier, earlierIn, rfl⟩ := List.mem_map.mp member
  split_ifs with chosen
  · rfl
  · exact others earlier earlierIn (Bool.eq_false_iff.mpr chosen)

end Filed

namespace FileState

/-- The last statement of `UpdateFile`. -/
def fileDirectory (files : List (Filed FileRow)) (filename : Bytes) :
    List (Filed FileRow) :=
  Filed.setDirectory FileRow.filename
    (fun row => row.filename = cString filename) files

/-- `updateFile` with the column: the row that INSERT adds has none until the
last statement, which an UPDATE that changed a row leaves out. -/
def updateFiled (files : List (Filed FileRow)) (filename : Bytes)
    (version : Int64) (hash deviceName : Bytes) (seqNo mtime : Int64)
    (mode segNum : Int32) : List (Filed FileRow) :=
  if files.any fun filed => filed.row.filename = cString filename then
    files.map fun filed =>
      if filed.row.filename = cString filename then
        { filed with
          row :=
            { filed.row with
              deviceName := deviceName
              seqNo := seqNo
              version := version
              fileHash := hash
              fileMtime := datetime mtime
              fileChmod := mode
              fileSegNum := segNum } }
      else
        filed
  else
    fileDirectory (files ++ [⟨⟨cString filename, version, deviceName,
      seqNo, hash, datetime mtime, mode, segNum, false⟩, none⟩]) filename

def deleteFiled (files : List (Filed FileRow)) (filename : Bytes) :
    List (Filed FileRow) :=
  files.filter fun filed => filed.row.filename ≠ cString filename

def setFiledComplete (files : List (Filed FileRow)) (filename : Bytes) :
    List (Filed FileRow) :=
  files.map fun filed =>
    if filed.row.filename = cString filename then
      { filed with row := { filed.row with isComplete := true } }
    else
      filed

/-- The tables of files that the calls leave, from an empty one on. -/
inductive Files : List (Filed FileRow) → Prop where
  | opened : Files []
  | updateFile {files : List (Filed FileRow)} (earlier : Files files)
      (filename : Bytes) (version : Int64) (hash deviceName : Bytes)
      (seqNo mtime : Int64) (mode segNum : Int32) :
      Files (updateFiled files filename version hash deviceName seqNo mtime
        mode segNum)
  -- an update with a null pointer for its hash is refused by both statements
  | refused {files : List (Filed FileRow)} (earlier : Files files)
      (filename : Bytes) : Files (fileDirectory files filename)
  | deleteFile {files : List (Filed FileRow)} (earlier : Files files)
      (filename : Bytes) : Files (deleteFiled files filename)
  | setFileComplete {files : List (Filed FileRow)} (earlier : Files files)
      (filename : Bytes) : Files (setFiledComplete files filename)

variable {files : List (Filed FileRow)} {filename hash deviceName : Bytes}
  {version seqNo mtime : Int64} {mode segNum : Int32}

theorem map_row_updateFiled :
    (updateFiled files filename version hash deviceName seqNo mtime mode
        segNum).map Filed.row =
      updateFile (files.map Filed.row) filename version hash deviceName seqNo
        mtime mode segNum := by
  rw [updateFiled, updateFile]
  have sameTest : ((files.map Filed.row).any fun row =>
        row.filename = cString filename) =
      files.any fun filed => filed.row.filename = cString filename := by
    rw [List.any_map]
    rfl
  simp only [sameTest]
  split_ifs
  · rw [List.map_map, List.map_map]
    apply List.map_congr_left
    intro filed _
    simp only [Function.comp_apply]
    split_ifs <;> rfl
  · rw [fileDirectory, Filed.map_row_setDirectory, List.map_append]
    rfl

theorem map_row_deleteFiled :
    (deleteFiled files filename).map Filed.row =
      deleteFile (files.map Filed.row) filename := by
  rw [deleteFiled, deleteFile, List.filter_map]
  rfl

theorem map_row_setFiledComplete :
    (setFiledComplete files filename).map Filed.row =
      setFileComplete (files.map Filed.row) filename := by
  rw [setFiledComplete, setFileComplete, List.map_map, List.map_map]
  apply List.map_congr_left
  intro filed _
  simp only [Function.comp_apply]
  split_ifs <;> rfl

theorem inPlace_updateFiled
    (inPlace : ∀ filed ∈ files, filed.InPlace FileRow.filename) :
    ∀ filed ∈ updateFiled files filename version hash deviceName seqNo mtime
      mode segNum, filed.InPlace FileRow.filename := by
  rw [updateFiled]
  split_ifs
  · intro filed member
    obtain ⟨earlier, earlierIn, rfl⟩ := List.mem_map.mp member
    have before := inPlace earlier earlierIn
    split_ifs
    · exact before
    · exact before
  · apply Filed.inPlace_setDirectory
    intro filed member unselected
    rcases List.mem_append.mp member with earlier | last
    · exact inPlace filed earlier
    · rw [List.mem_singleton.mp last] at unselected
      simp at unselected

theorem Files.inPlace (reached : Files files) :
    ∀ filed ∈ files, filed.InPlace FileRow.filename := by
  induction reached with
  | opened =>
      intro filed member
      exact absurd member List.not_mem_nil
  | updateFile earlier filename version hash deviceName seqNo mtime mode
      segNum induction =>
      exact inPlace_updateFiled induction
  | refused earlier filename induction =>
      apply Filed.inPlace_setDirectory
      intro filed member _
      exact induction filed member
  | deleteFile earlier filename induction =>
      intro filed member
      exact induction filed (List.mem_of_mem_filter member)
  | setFileComplete earlier filename induction =>
      intro filed member
      obtain ⟨before, beforeIn, rfl⟩ := List.mem_map.mp member
      have there := induction before beforeIn
      split_ifs
      · exact there
      · exact there

end FileState

namespace ActionLog

/-- INSERT, abandoned when the device and the number have a row, and the
statement that follows it in every case. -/
def insertFiled (actions : List (Filed ActionRow)) (new : ActionRow) :
    List (Filed ActionRow) :=
  let keyed : ActionRow → Bool := fun row =>
    row.deviceName = new.deviceName ∧ row.seqNo = new.seqNo
  Filed.setDirectory ActionRow.filename keyed
    (if actions.any fun filed => keyed filed.row then actions
    else actions ++ [⟨new, none⟩])

/-- The tables of actions that the calls leave. -/
inductive Actions : List (Filed ActionRow) → Prop where
  | opened : Actions []
  | insertAction {actions : List (Filed ActionRow)}
      (earlier : Actions actions) (new : ActionRow) :
      Actions (insertFiled actions new)

theorem Actions.inPlace {actions : List (Filed ActionRow)}
    (reached : Actions actions) :
    ∀ filed ∈ actions, filed.InPlace ActionRow.filename := by
  induction reached with
  | opened =>
      intro filed member
      exact absurd member List.not_mem_nil
  | insertAction earlier new induction =>
      rw [insertFiled]
      apply Filed.inPlace_setDirectory
      intro filed member unselected
      split_ifs at member
      · exact induction filed member
      · rcases List.mem_append.mp member with before | last
        · exact induction filed before
        · rw [List.mem_singleton.mp last] at unselected
          simp at unselected

variable {Name : Type}

theorem map_row_insertFiled (actions : List (Filed ActionRow))
    {log : ActionLog Name} (new : ActionRow)
    (rows : actions.map Filed.row = log.actions) :
    (insertFiled actions new).map Filed.row =
      (log.insertAction new).actions := by
  rw [insertFiled, Filed.map_row_setDirectory]
  have sameTest : (actions.any fun filed =>
        (filed.row.deviceName = new.deviceName ∧
          filed.row.seqNo = new.seqNo : Bool)) =
      log.actions.any fun row =>
        row.deviceName = new.deviceName ∧ row.seqNo = new.seqNo := by
    rw [← rows, List.any_map]
    rfl
  dsimp only
  rw [sameTest, insertAction]
  split_ifs
  · exact rows
  · rw [List.map_append, rows]
    rfl

theorem exists_files_insertAction {files : List (Filed FileRow)}
    (reached : FileState.Files files) {log : ActionLog Name}
    (rows : files.map Filed.row = log.fileState) (new : ActionRow) :
    ∃ after, FileState.Files after ∧
      after.map Filed.row = (log.insertAction new).fileState := by
  rw [insertAction]
  dsimp only
  split_ifs
  · exact ⟨files, reached, rows⟩
  · rw [← rows, applyAction]
    cases new.action with
    | update =>
        exact ⟨_, reached.updateFile _ _ _ _ _ _ _ _,
          FileState.map_row_updateFiled⟩
    | delete =>
        exact ⟨_, reached.deleteFile _, FileState.map_row_deleteFiled⟩
  · exact ⟨files, reached, rows⟩

variable {platform : ActionPlatform Name}

/-- The tables of a run are those with the column. -/
theorem calls_filed {syncLog : SyncLog Name}
    {trace : List (ActionLog Name × ActionCall Name)} {final : ActionLog Name}
    (calls : Calls platform (opened syncLog) trace final) :
    (∃ actions, Actions actions ∧ actions.map Filed.row = final.actions) ∧
      ∃ files, FileState.Files files ∧
        files.map Filed.row = final.fileState := by
  induction calls with
  | nil => exact ⟨⟨[], .opened, rfl⟩, ⟨[], .opened, rfl⟩⟩
  | @snoc trace middle final label _ taken induction =>
      obtain ⟨⟨actions, actionsReached, actionRows⟩,
        files, filesReached, fileRows⟩ := induction
      rcases step_cases taken with
        ⟨sameActions, sameFiles⟩ | ⟨new, syncLog, _, inserted, applied⟩
      · rw [sameActions, sameFiles]
        exact ⟨⟨actions, actionsReached, actionRows⟩,
          files, filesReached, fileRows⟩
      · constructor
        · refine ⟨_, actionsReached.insertAction new, ?_⟩
          rw [inserted]
          exact map_row_insertFiled actions new actionRows
        · obtain ⟨after, afterReached, afterRows⟩ :=
            @exists_files_insertAction _ files filesReached
              { middle with syncLog := syncLog } fileRows new
          rcases applied with same | ⟨filename, completed⟩
          · exact ⟨after, afterReached, afterRows.trans same.symm⟩
          · refine ⟨_, afterReached.setFileComplete filename, ?_⟩
            rw [completed, FileState.map_row_setFiledComplete, afterRows]

end ActionLog

end ChronoShare
