import ChronoShare.ActionLog.Listings

/-!
# What lies in a folder

The column of directories selects exactly what lies below a folder.  The lookup
without recursion compares that column with NULL for the empty folder and finds
nothing, and the list it returns is also what the recursive lookup returns as a
list.
-/

namespace ChronoShare

open Uri (slash)

/-- The components of the folder are a proper part of those of the file, at
their start. -/
def Below (folder filename : Bytes) : Prop :=
  folder = [] ∨
    folder.splitOn slash <+: filename.splitOn slash ∧
      folder.splitOn slash ≠ filename.splitOn slash

instance decidableBelow (folder filename : Bytes) :
    Decidable (Below folder filename) :=
  inferInstanceAs (Decidable (_ ∨ _))

/-- The rows that the recursive lookups select, on tables whose column is in
place. -/
theorem selected_eq_filter_below {Row : Type} {filename : Row → Bytes}
    {table : List (Filed Row)}
    (inPlace : ∀ filed ∈ table, filed.InPlace filename)
    (normal : ∀ filed ∈ table, Separated slash (filename filed.row))
    (folder : Bytes) :
    (if folder ≠ [] then
        table.filter fun filed =>
          DbHelper.isDirPrefix folder filed.directory
      else table).map Filed.row =
      (table.map Filed.row).filter fun row => Below folder (filename row) := by
  rw [List.filter_map]
  congr 1
  split_ifs with nonempty
  · apply List.filter_congr
    intro filed member
    rw [Function.comp_apply, Bool.eq_iff_iff, inPlace filed member,
      DbHelper.isDirPrefix_directoryName nonempty (normal filed member),
      decide_eq_true_iff, Below]
    simp only [nonempty, false_or]
  · symm
    apply List.filter_eq_self.mpr
    intro filed _
    exact decide_eq_true (Or.inl (not_not.mp nonempty))

theorem visitRows_unlimited {α : Type} (rows : List α) :
    visitRows rows 0 (-1) = some (rows, false) := by
  rw [visitRows_eq (by decide)]
  rfl

/-- Without a limit the recursive lookups visit what lies below the folder, for
all names without empty components. -/
theorem recursive_lookups_visit_below (folder : Bytes) :
    (∀ order actions, ActionLog.Actions actions →
      (∀ filed ∈ actions, Separated slash filed.row.filename) →
      ∃ visited more,
        ActionLog.lookupActionsInFolderRecursively order actions folder 0
          (-1) = some (visited, more) ∧
        visited.Perm ((actions.map Filed.row).filter fun row =>
          Below folder row.filename)) ∧
    ∀ order files, FileState.Files files →
      (∀ filed ∈ files, Separated slash filed.row.filename) →
      ∃ visited more,
        FileState.lookupFilesInFolderRecursively order files folder 0 (-1) =
          some (visited, more) ∧
        visited.Perm ((files.map Filed.row).filter fun row =>
          Below folder row.filename) := by
  constructor
  · intro order actions reached normal
    refine ⟨_, _, visitRows_unlimited _, ?_⟩
    rw [← selected_eq_filter_below reached.inPlace normal]
    exact order.perm _
  · intro order files reached normal
    refine ⟨_, _, visitRows_unlimited _, ?_⟩
    rw [← selected_eq_filter_below reached.inPlace normal]
    exact order.perm _

/-- `d/e` and `de/e`, as files. -/
def twoFolders : List (Filed FileRow) :=
  FileState.updateFiled
    (FileState.updateFiled [] [0x64, 0x2F, 0x65] 0 [1] [7] 1 6 420 1)
    [0x64, 0x65, 0x2F, 0x65] 0 [1] [7] 2 6 420 1

theorem recursive_lookups_visit_below_folder :
    (∃ visited more,
      ActionLog.lookupActionsInFolderRecursively
          (Arrangement.stable ActionRow.NotBefore)
          (ActionLog.insertFiled [] (updateAt [0x64, 0x2F, 0x65] 1 5)) [0x64]
          0 (-1) = some (visited, more) ∧
      visited.Perm [updateAt [0x64, 0x2F, 0x65] 1 5]) ∧
    ∃ visited more,
      FileState.lookupFilesInFolderRecursively
          (Arrangement.stable FileRow.ByName) twoFolders [0x64] 0 (-1) =
        some (visited, more) ∧
      visited.Perm ((twoFolders.map Filed.row).take 1) :=
  ⟨(recursive_lookups_visit_below [0x64]).1
      (Arrangement.stable ActionRow.NotBefore) _
      (.insertAction .opened _) (by decide),
    (recursive_lookups_visit_below [0x64]).2
      (Arrangement.stable FileRow.ByName) twoFolders
      (.updateFile (.updateFile .opened _ _ _ _ _ _ _ _) _ _ _ _ _ _ _ _)
      (by decide)⟩

namespace FileState

/-- `=` of the database: NULL is equal to nothing. -/
def equal : Option Bytes → Option Bytes → Bool
  | some left, some right => left = right
  | _, _ => false

/-- The files whose directory is the folder, and those without a directory for
the empty folder. -/
def filesIn (files : List (Filed FileRow)) (folder : Bytes) : List FileRow :=
  (files.map Filed.row).filter fun row =>
    DbHelper.directoryName row.filename = bindBlob folder

/-- The query has no ORDER BY: `scan` is the order the database takes. -/
def lookupFilesInFolder (scan : Arrangement fun _ _ : FileRow => True)
    (files : List (Filed FileRow)) (folder : Bytes) (offset limit : Int) :
    List FileRow :=
  let selected := files.filter fun filed =>
    equal filed.directory (bindBlob folder)
  window limit offset (scan.arrange (selected.map Filed.row))

/-- The visitor that both lists are made with. -/
def pushBack (items : List FileRow) (file : FileRow) : List FileRow :=
  items ++ [file]

/-- `LookupFilesInFolder` that returns a list. -/
def listFilesInFolder (scan : Arrangement fun _ _ : FileRow => True)
    (files : List (Filed FileRow)) (folder : Bytes) (offset limit : Int) :
    List FileRow :=
  (lookupFilesInFolder scan files folder offset limit).foldl pushBack []

/-- `LookupFilesInFolderRecursively` that returns a list; it calls the lookup
without recursion. -/
def listFilesInFolderRecursively
    (scan : Arrangement fun _ _ : FileRow => True)
    (files : List (Filed FileRow)) (folder : Bytes) (offset limit : Int) :
    List FileRow :=
  (lookupFilesInFolder scan files folder offset limit).foldl pushBack []

theorem foldl_pushBack (visited items : List FileRow) :
    visited.foldl pushBack items = items ++ visited := by
  induction visited generalizing items with
  | nil => simp
  | cons file visited induction =>
      rw [List.foldl_cons, induction, pushBack, List.append_assoc]
      rfl

variable {files : List (Filed FileRow)}
  {scan : Arrangement fun _ _ : FileRow => True}
  {order : Arrangement FileRow.ByName}

theorem lookupFilesInFolder_empty (offset limit : Int) :
    lookupFilesInFolder scan files [] offset limit = [] := by
  have nothing : (files.filter fun filed =>
      equal filed.directory (bindBlob [])) = [] := by
    apply List.filter_eq_nil_iff.mpr
    intro filed _
    cases filed.directory <;> simp [equal, bindBlob]
  have none : scan.arrange [] = [] := List.perm_nil.mp (scan.perm [])
  rw [lookupFilesInFolder, nothing, List.map_nil, none, window_eq_nil_iff]
  exact .inr (Nat.zero_le _)

theorem lookupFilesInFolder_some (reached : Files files) {folder : Bytes}
    (nonempty : folder ≠ []) (offset limit : Int) :
    lookupFilesInFolder scan files folder offset limit =
      window limit offset (scan.arrange (filesIn files folder)) := by
  rw [lookupFilesInFolder, filesIn, List.filter_map]
  have selected : (files.filter fun filed =>
      equal filed.directory (bindBlob folder)) =
      files.filter ((fun row : FileRow =>
        decide (DbHelper.directoryName row.filename = bindBlob folder)) ∘
          Filed.row) := by
    apply List.filter_congr
    intro filed member
    rw [reached.inPlace filed member, bindBlob, if_neg nonempty,
      Function.comp_apply]
    cases DbHelper.directoryName filed.row.filename <;> simp [equal]
  rw [selected]

theorem lookup_eq_page_iff (reached : Files files) (folder : Bytes)
    (offset limit : Int) :
    lookupFilesInFolder scan files folder offset limit =
        window limit offset (scan.arrange (filesIn files folder)) ↔
      folder = [] →
        limit = 0 ∨ (filesIn files folder).length ≤ offset.toNat := by
  by_cases empty : folder = []
  · rw [empty, lookupFilesInFolder_empty, eq_comm, window_eq_nil_iff,
      scan.length_arrange]
    simp only [forall_const]
  · simp only [lookupFilesInFolder_some reached empty, empty, false_imp_iff]

/-- The lookups in a folder are right for a page with these properties. -/
theorem folder_lookups_agree_iff (reached : Files files) (folder : Bytes)
    (offset limit : Int) :
    (lookupFilesInFolder scan files folder offset limit =
        window limit offset (scan.arrange (filesIn files folder)) ↔
      folder = [] →
        limit = 0 ∨ (filesIn files folder).length ≤ offset.toNat) ∧
    listFilesInFolder scan files folder offset limit =
      lookupFilesInFolder scan files folder offset limit ∧
    ((∃ more, lookupFilesInFolderRecursively order files folder offset limit =
        some (listFilesInFolderRecursively scan files folder offset limit,
          more)) ↔
      limit < 2147483647 ∧
        if folder = [] then
          limit = 0 ∨ files.length ≤ offset.toNat
        else
          ∀ position, OnPage limit offset position →
            (order.arrange (filesBelow files folder))[position]? =
              (scan.arrange (filesIn files folder))[position]?) := by
  refine ⟨lookup_eq_page_iff reached folder offset limit, ?_, ?_⟩
  · rw [listFilesInFolder, foldl_pushBack, List.nil_append]
  · rw [listFilesInFolderRecursively, foldl_pushBack, List.nil_append,
      lookupFilesInFolderRecursively]
    by_cases bounded : limit < 2147483647
    · rw [visitRows_eq bounded]
      simp only [bounded, true_and, Option.some.injEq, Prod.mk.injEq,
        exists_and_left, exists_eq', and_true]
      split_ifs with empty
      · rw [empty, lookupFilesInFolder_empty, window_eq_nil_iff,
          order.length_arrange, filesBelow]
        simp
      · rw [lookupFilesInFolder_some reached empty, window_eq_iff]
    · rw [visitRows_of_not_lt bounded]
      simp [bounded]

theorem folder_lookups_agree_iff_first :
    lookupFilesInFolder Arrangement.unordered twoFolders [0x64] 0 1 =
        (twoFolders.map Filed.row).take 1 ∧
      ∃ more, lookupFilesInFolderRecursively
          (Arrangement.stable FileRow.ByName) twoFolders [0x64] 0 1 =
        some (listFilesInFolderRecursively Arrangement.unordered twoFolders
          [0x64] 0 1, more) := by
  have reached : Files twoFolders :=
    .updateFile (.updateFile .opened _ _ _ _ _ _ _ _) _ _ _ _ _ _ _ _
  have agree := @folder_lookups_agree_iff twoFolders Arrangement.unordered
    (Arrangement.stable FileRow.ByName) reached [0x64] 0 1
  have direct := agree.1.mpr (by decide)
  refine ⟨direct.trans (by decide), agree.2.2.mpr ⟨by decide, ?_⟩⟩
  rw [if_neg (by decide)]
  intro position onPage
  obtain rfl : position = 0 := by
    have before := onPage.2
    omega
  decide

/-- A file without a directory is found neither in the empty folder nor in the
list of everything below it. -/
theorem empty_folder_shows_nothing :
    let files := updateFiled [] [0x66] 0 [1] [7] 1 6 420 1
    lookupFilesInFolder Arrangement.unordered files [] 0 (-1) ≠
        window (-1) 0 (Arrangement.unordered.arrange (filesIn files [])) ∧
      ¬ ∃ more, lookupFilesInFolderRecursively
          (Arrangement.stable FileRow.ByName) files [] 0 (-1) =
        some (listFilesInFolderRecursively Arrangement.unordered files [] 0
          (-1), more) := by
  decide

end FileState

end ChronoShare
