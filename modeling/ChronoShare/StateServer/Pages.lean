import ChronoShare.ActionLog.Listings

/-!
# Pages of the state server

The state server lists actions and files ten at a time, and names the next page
as long as a page is full.  A client that follows these names reads the whole
list once, and comes to its end even behind a full last page.
-/

namespace ChronoShare

namespace StateServer

variable {α : Type}

/-- The rows of a page, with the offset of the page after it. -/
structure InfoPage (α : Type) where
  entries : List α
  more : Option UInt64
  deriving DecidableEq, Repr

/-- `offset*10`, as the lookups take it: an `int`. -/
def rowOffset (offset : UInt64) : Int :=
  (offset * 10).toUInt32.toInt32.toInt

def infoPage (lookup : Int → Int → Option (List α × Bool)) (offset : UInt64) :
    Option (InfoPage α) :=
  (lookup (rowOffset offset) 10).map fun (rows, more) =>
    ⟨rows, if more then some (offset + 1) else none⟩

/-- `info_actions_fileOrFolder_Execute`. -/
def infoActions (order : Arrangement ActionRow.NotBefore)
    (actions : List (Filed ActionRow)) (isFolder : Bool)
    (fileOrFolderName : Bytes) : UInt64 → Option (InfoPage ActionRow) :=
  if isFolder then
    infoPage (ActionLog.lookupActionsInFolderRecursively order actions
      fileOrFolderName)
  else
    infoPage (ActionLog.lookupActionsForFile order actions fileOrFolderName)

/-- `info_files_folder_Execute`. -/
def infoFiles (order : Arrangement FileRow.ByName)
    (files : List (Filed FileRow)) (folder : Bytes) :
    UInt64 → Option (InfoPage FileRow) :=
  infoPage (FileState.lookupFilesInFolderRecursively order files folder)

/-- A client that asks for one page after another, at most so many times. -/
def readPages (page : UInt64 → Option (InfoPage α)) :
    Nat → UInt64 → Option (List α)
  | 0, _ => none
  | requests + 1, offset =>
      match page offset with
      | none => none
      | some ⟨entries, none⟩ => some entries
      | some ⟨entries, some next⟩ =>
          (readPages page requests next).map (entries ++ ·)

variable {lookup : Int → Int → Option (List α × Bool)} {rows : List α}

theorem rowOffset_ofNat {index : Nat} (small : index * 10 < 2 ^ 31) :
    rowOffset (UInt64.ofNat index) = (index * 10 : Nat) := by
  have number : (UInt64.ofNat index * 10).toUInt32.toNat = index * 10 := by
    rw [UInt64.toNat_toUInt32, UInt64.toNat_mul, UInt64.toNat_ofNat']
    simp only [UInt64.reduceToNat]
    omega
  have signed : rowOffset (UInt64.ofNat index) =
      (UInt64.ofNat index * 10).toUInt32.toBitVec.toInt := rfl
  rw [signed, BitVec.toInt_eq_toNat_cond, UInt32.toNat_toBitVec, number,
    if_pos (by omega)]

theorem infoPage_ofNat
    (visits : ∀ offset limit,
      lookup offset limit = visitRows rows offset limit)
    {index : Nat} (small : index * 10 < 2 ^ 31) :
    infoPage lookup (UInt64.ofNat index) =
      some ⟨(rows.drop (index * 10)).take 10,
        if 10 ≤ rows.length - index * 10 then some (UInt64.ofNat (index + 1))
        else none⟩ := by
  have page : visitRows rows (index * 10 : Nat) 10 =
      some ((rows.drop (index * 10)).take 10,
        decide (10 ≤ rows.length - index * 10)) :=
    visitRows_page (by decide) rows index
  have next : UInt64.ofNat (index + 1) = UInt64.ofNat index + 1 :=
    UInt64.ofNat_add index 1
  rw [infoPage, rowOffset_ofNat small, visits, page, next]
  simp

/-- A client at some page reads what is left, with one request for every page
from there on. -/
theorem readPages_from
    (visits : ∀ offset limit,
      lookup offset limit = visitRows rows offset limit)
    (small : rows.length < 2 ^ 31) {index : Nat}
    (reached : index * 10 ≤ rows.length) (requests : Nat) :
    readPages (infoPage lookup) requests (UInt64.ofNat index) =
      if rows.length / 10 < index + requests then
        some (rows.drop (index * 10))
      else none := by
  induction requests generalizing index with
  | zero => rw [readPages, if_neg (by omega)]
  | succ requests induction =>
      rw [readPages, infoPage_ofNat visits (by omega)]
      by_cases full : 10 ≤ rows.length - index * 10
      · have later : (index + 1) * 10 ≤ rows.length := by omega
        rw [if_pos full]
        simp only
        rw [induction later, Nat.add_right_comm, Nat.add_assoc]
        split_ifs
        · have further : rows.drop ((index + 1) * 10) =
              (rows.drop (index * 10)).drop 10 := by
            rw [List.drop_drop, Nat.add_mul, Nat.one_mul]
          rw [further, Option.map_some, List.take_append_drop]
        · rfl
      · rw [if_neg full, if_pos (by omega), List.take_of_length_le]
        rw [List.length_drop]
        omega

theorem readPages_arranged {before : α → α → Prop} {selected : List α}
    (order : Arrangement before)
    (visits : ∀ offset limit,
      lookup offset limit = visitRows (order.arrange selected) offset limit)
    (small : selected.length < 2 ^ 31) (requests : Nat) :
    readPages (infoPage lookup) requests 0 =
      if selected.length / 10 < requests then some (order.arrange selected)
      else none := by
  rw [← order.length_arrange] at small ⊢
  have start : 0 * 10 ≤ (order.arrange selected).length := by omega
  have all := readPages_from visits small start requests
  rw [Nat.zero_add, Nat.zero_mul, List.drop_zero] at all
  exact all

theorem length_actionsInFolder_le (actions : List (Filed ActionRow))
    (folder : Bytes) :
    (ActionLog.actionsInFolder actions folder).length ≤ actions.length := by
  rw [ActionLog.actionsInFolder, List.length_map]
  split_ifs
  · exact List.length_filter_le _ _
  · exact le_rfl

theorem length_filesBelow_le (files : List (Filed FileRow)) (folder : Bytes) :
    (FileState.filesBelow files folder).length ≤ files.length := by
  rw [FileState.filesBelow, List.length_map]
  split_ifs
  · exact List.length_filter_le _ _
  · exact le_rfl

theorem length_actionsForFile_le (actions : List (Filed ActionRow))
    (file : Bytes) :
    (ActionLog.actionsForFile actions file).length ≤ actions.length := by
  rw [ActionLog.actionsForFile, actionsOn]
  exact (List.length_filter_le _ _).trans_eq (List.length_map _)

/-- A client that follows the pages to their end reads every selected row once,
in the order of the lookup, with one request for every ten rows and one more;
with fewer requests it is still being named a next page. -/
theorem pages_read_whole {actions : List (Filed ActionRow)}
    {files : List (Filed FileRow)} (fewActions : actions.length < 2 ^ 31)
    (fewFiles : files.length < 2 ^ 31)
    (actionOrder : Arrangement ActionRow.NotBefore)
    (fileOrder : Arrangement FileRow.ByName) (folder file : Bytes)
    (named : file ≠ []) (requests : Nat) :
    (readPages (infoActions actionOrder actions true folder) requests 0 =
      if (ActionLog.actionsInFolder actions folder).length / 10 < requests then
        some (actionOrder.arrange (ActionLog.actionsInFolder actions folder))
      else none) ∧
    (readPages (infoActions actionOrder actions false file) requests 0 =
      if (ActionLog.actionsForFile actions file).length / 10 < requests then
        some (actionOrder.arrange (ActionLog.actionsForFile actions file))
      else none) ∧
    (readPages (infoFiles fileOrder files folder) requests 0 =
      if (FileState.filesBelow files folder).length / 10 < requests then
        some (fileOrder.arrange (FileState.filesBelow files folder))
      else none) := by
  have inFolder := length_actionsInFolder_le actions folder
  have forFile := length_actionsForFile_le actions file
  have below := length_filesBelow_le files folder
  refine ⟨?_, ?_, ?_⟩
  · rw [infoActions, if_pos rfl]
    exact readPages_arranged actionOrder (fun _ _ => rfl) (by omega) requests
  · rw [infoActions, if_neg Bool.false_ne_true]
    exact readPages_arranged actionOrder (fun _ _ => if_neg named) (by omega)
      requests
  · exact readPages_arranged fileOrder (fun _ _ => rfl) (by omega) requests

/-- The only action on a file is read with one request. -/
theorem pages_read_whole_update :
    readPages (infoActions (Arrangement.stable ActionRow.NotBefore) oneUpdate
      false [0x66]) 1 0 = some [updateAt [0x66] 1 5] := by
  have pages := (@pages_read_whole oneUpdate [] (by decide) (by decide)
    (Arrangement.stable ActionRow.NotBefore)
    (Arrangement.stable FileRow.ByName) [] [0x66] (by decide) 1).2.1
  rw [pages]
  decide

end StateServer

end ChronoShare
