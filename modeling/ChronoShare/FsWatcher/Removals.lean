import ChronoShare.Support.Like
import ChronoShare.Support.Separated
import Mathlib.Data.List.Nodup

/-!
# Files removed below a directory

The watcher keeps a table of the files below the monitored directory.  A scan
of one directory reads the names that match a pattern made of its path, and
reports and forgets those that are missing from the disk.
-/

namespace ChronoShare

/-- A path from the monitored directory on; it is empty for this one itself. -/
structure RelativePath where
  text : Text
  formed : text ≠ [] → Separated '/' text

/-- The path without its root: the slashes it starts with, and the name of the
root after exactly two of them. -/
def Text.relativePath (path : Text) : Text :=
  let unnamed :=
    match path with
    | '/' :: '/' :: third :: rest =>
        if third ≠ '/' then (third :: rest).dropWhile (· ≠ '/') else path
    | _ => path
  unnamed.dropWhile (· = '/')

structure FsWatcher where
  dirPath : Text
  files : List Text
  filesUnique : files.Nodup
  filesFormed : ∀ file ∈ files, Separated '/' file

namespace FsWatcher

/-- One path after another, with a slash between them. -/
def joinPath (path file : Text) : Text :=
  if file = [] ∨ path = [] ∨ path.getLast? = some '/' then
    path ++ file
  else
    path ++ '/' :: file

variable (watcher : FsWatcher)

/-- `DELETE FROM Files WHERE filename = ?`. -/
def deleteFile (filename : Text) : FsWatcher where
  dirPath := watcher.dirPath
  files := watcher.files.filter (· ≠ filename)
  filesUnique := watcher.filesUnique.filter _
  filesFormed := fun file member =>
    watcher.filesFormed file (List.mem_of_mem_filter member)

/-- A backslash in front of every percent sign, which `LIKE` does not read as
an escape. -/
def escapedDir (dir : Text) : Text :=
  dir.flatMap fun ch => if ch = '%' then ['\\', '%'] else [ch]

/-- `SELECT * FROM Files WHERE filename LIKE ?`. -/
def getFilesInDir (dir : Text) : List Text :=
  watcher.files.filter (like (escapedDir dir ++ ['/', '%']))

/-- One file of the scan; the names for `m_onDelete` are collected. -/
def notifyRemoval (onDisk : Text → Bool)
    (state : FsWatcher × List Text) (file : Text) : FsWatcher × List Text :=
  if onDisk (joinPath state.1.dirPath file) then
    state
  else
    (state.1.deleteFile file, state.2 ++ [file])

def scanDirectory_NotifyRemovals_Execute (onDisk : Text → Bool)
    (dirPath : Text) : FsWatcher × List Text :=
  let triggeredDir := dirPath.drop watcher.dirPath.length
  (watcher.getFilesInDir (Text.relativePath triggeredDir)).foldl
    (notifyRemoval onDisk) (watcher, [])

def elements (path : Text) : List Text :=
  if path = [] then [] else path.splitOn '/'

/-- The file lies below the directory, by the elements of their paths. -/
def Below (dir file : Text) : Prop :=
  elements dir <+: elements file ∧ elements dir ≠ elements file

instance (dir file : Text) : Decidable (Below dir file) :=
  inferInstanceAs (Decidable (_ ∧ _))

/-- What the pattern of a directory stands for: a percent sign for a text with
a backslash in front, an underscore for any character, and a letter for itself
in either case. -/
inductive Stands : Text → Text → Prop where
  | nil : Stands [] []
  | character {ch other : Char} {dir text : Text} :
      ch ≠ '%' → standsFor ch other = true → Stands dir text →
        Stands (ch :: dir) (other :: text)
  | percent (any : Text) {dir text : Text} :
      Stands dir text → Stands ('%' :: dir) ('\\' :: any ++ text)

/-- The name of the file reads like that of a file below the directory. -/
def Resembles (dir file : Text) : Prop :=
  ∃ above rest, file = above ++ '/' :: rest ∧ Stands dir above

/-- The missing files below a directory are reported once and forgotten, and
all others are left alone. -/
structure Notifies (watcher : FsWatcher) (onDisk : Text → Bool)
    (dir : Text) (result : FsWatcher × List Text) : Prop where
  forgotten : ∀ file ∈ result.1.files, Below dir file →
    onDisk (joinPath watcher.dirPath file) = true
  reported : ∀ file ∈ watcher.files, Below dir file →
    onDisk (joinPath watcher.dirPath file) = false →
      result.2.count file = 1
  spared : ∀ file, onDisk (joinPath watcher.dirPath file) = true →
    file ∉ result.2
  kept : ∀ file ∈ watcher.files,
    ¬ (Below dir file ∧ onDisk (joinPath watcher.dirPath file) = false) →
      file ∈ result.1.files

/-- No file is missing below the monitored directory itself or below one with a
percent sign in its path, or resembles a file below without being one. -/
structure Plain (watcher : FsWatcher) (onDisk : Text → Bool)
    (dir : Text) : Prop where
  below : ∀ file ∈ watcher.files,
    onDisk (joinPath watcher.dirPath file) = false → Below dir file →
      dir ≠ [] ∧ '%' ∉ dir
  beside : ∀ file ∈ watcher.files,
    onDisk (joinPath watcher.dirPath file) = false → ¬ Below dir file →
      ¬ Resembles dir file

variable {dir file above back rest : Text}

theorem not_separated_slash : ¬ Separated '/' ('/' :: rest) := by
  intro separated
  have split := splitOn_append_cons '/' [] rest
  rw [List.nil_append] at split
  refine separated [] ?_ rfl
  rw [split]
  exact List.mem_append_left _ (by simp)

theorem below_iff (dirFormed : dir ≠ [] → Separated '/' dir)
    (fileFormed : Separated '/' file) :
    Below dir file ↔ dir = [] ∨ ∃ rest, file = dir ++ '/' :: rest := by
  have fileElements : elements file = file.splitOn '/' :=
    if_neg fileFormed.ne_nil
  by_cases top : dir = []
  · have dirElements : elements dir = [] := if_pos top
    rw [Below, dirElements, fileElements]
    have apart : [] ≠ file.splitOn '/' := (List.splitOn_ne_nil _ _).symm
    exact ⟨fun _ => .inl top, fun _ => ⟨List.nil_prefix, apart⟩⟩
  · have dirElements : elements dir = dir.splitOn '/' := if_neg top
    rw [Below, dirElements, fileElements, splitOn_prefix_iff]
    simp only [top, false_or]
    constructor
    · rintro ⟨rfl | longer, apart⟩
      · exact absurd rfl apart
      · exact longer
    · rintro ⟨rest, rfl⟩
      refine ⟨.inr ⟨rest, rfl⟩, ?_⟩
      rw [splitOn_append_cons]
      intro same
      exact List.splitOn_ne_nil _ _ (List.append_right_eq_self.mp same.symm)

theorem like_escapedDir :
    like (escapedDir dir) above = true ↔ Stands dir above := by
  induction dir generalizing above with
  | nil =>
      rw [escapedDir, List.flatMap_nil, like_nil]
      constructor
      · rintro rfl
        exact .nil
      · intro stands
        cases stands
        rfl
  | cons ch dir induction =>
      have step : escapedDir (ch :: dir) =
          (if ch = '%' then ['\\', '%'] else [ch]) ++
            escapedDir dir := List.flatMap_cons
      rw [step]
      by_cases percent : ch = '%'
      · subst percent
        rw [if_pos rfl]
        constructor
        · intro found
          obtain ⟨other, text, rfl, stands, later⟩ :=
            (like_cons (by decide)).mp found
          obtain ⟨any, text, rfl, matched⟩ := like_percent.mp later
          obtain rfl := (standsFor_iff (by decide) (by decide)).mp stands
          exact .percent any (induction.mp matched)
        · intro stands
          cases stands with
          | character notPercent _ _ => exact absurd rfl notPercent
          | percent any later =>
              exact (like_cons (by decide)).mpr ⟨'\\', _, rfl,
                standsFor_self _,
                like_percent.mpr ⟨any, _, rfl, induction.mpr later⟩⟩
      · rw [if_neg percent]
        constructor
        · intro matched
          obtain ⟨other, text, rfl, stands, later⟩ :=
            (like_cons percent).mp matched
          exact .character percent stands (induction.mp later)
        · intro stands
          cases stands with
          | character _ same later =>
              exact (like_cons percent).mpr
                ⟨_, _, rfl, same, induction.mpr later⟩
          | percent any later => exact absurd rfl percent

theorem like_dir_iff :
    like (escapedDir dir ++ ['/', '%']) file = true ↔
      Resembles dir file := by
  rw [like_append, Resembles]
  constructor
  · rintro ⟨above, ending, rfl, matched, later⟩
    obtain ⟨slash, rest, rfl, stands, -⟩ := (like_cons (by decide)).mp later
    obtain rfl := (standsFor_iff (by decide) (by decide)).mp stands
    exact ⟨above, rest, rfl, like_escapedDir.mp matched⟩
  · rintro ⟨above, rest, rfl, stands⟩
    exact ⟨above, '/' :: rest, rfl, like_escapedDir.mpr stands,
      (like_cons (by decide)).mpr ⟨'/', rest, rfl, standsFor_self _, like_any⟩⟩

theorem stands_self (plain : '%' ∉ dir) : Stands dir dir := by
  induction dir with
  | nil => exact .nil
  | cons ch dir induction =>
      refine .character ?_ (standsFor_self ch) (induction ?_)
      · rintro rfl
        exact plain List.mem_cons_self
      · exact fun later => plain (List.mem_cons_of_mem _ later)

/-- A text that starts with the path itself does not start with what a percent
sign in the path stands for. -/
theorem percent_notMem (stands : Stands dir above)
    (same : dir ++ back = above ++ rest) : '%' ∉ dir := by
  induction stands with
  | nil => exact List.not_mem_nil
  | character notPercent _ _ induction =>
      rw [List.cons_append, List.cons_append] at same
      intro member
      rcases List.mem_cons.mp member with here | later
      · exact notPercent here.symm
      · exact induction (List.cons.inj same).2 later
  | percent any _ _ =>
      have first := (List.cons.inj same).1
      cases first

theorem resembles_iff_of_below (dirFormed : dir ≠ [] → Separated '/' dir)
    (fileFormed : Separated '/' file) (below : Below dir file) :
    Resembles dir file ↔ dir ≠ [] ∧ '%' ∉ dir := by
  rcases (below_iff dirFormed fileFormed).mp below with rfl | ⟨rest, rfl⟩
  · simp only [ne_eq, not_true_eq_false, false_and, iff_false]
    rintro ⟨above, rest, rfl, stands⟩
    cases stands
    exact not_separated_slash fileFormed
  · constructor
    · rintro ⟨above, other, same, stands⟩
      refine ⟨?_, percent_notMem stands same⟩
      rintro rfl
      exact not_separated_slash fileFormed
    · rintro ⟨-, plain⟩
      exact ⟨dir, rest, rfl, stands_self plain⟩

theorem relativePath_eq {path : Text}
    (single : ∀ rest, path ≠ '/' :: '/' :: rest) :
    Text.relativePath path = path.dropWhile (· = '/') := by
  rw [Text.relativePath]
  exact fun third rest => single (third :: rest)

theorem dropWhile_formed (formed : dir ≠ [] → Separated '/' dir) :
    dir.dropWhile (· = '/') = dir := by
  cases dir with
  | nil => rfl
  | cons ch dir =>
      rw [List.dropWhile_cons_of_neg]
      intro slash
      obtain rfl : ch = '/' := by simpa using slash
      exact not_separated_slash (formed (List.cons_ne_nil _ _))

theorem relativePath_triggered (path : Text)
    (formed : dir ≠ [] → Separated '/' dir) :
    Text.relativePath ((joinPath path dir).drop path.length) = dir := by
  have noSlash : ∀ rest, dir ≠ '/' :: rest := by
    rintro rest rfl
    exact not_separated_slash (formed (List.cons_ne_nil _ _))
  rw [joinPath]
  split_ifs
  · rw [List.drop_left, relativePath_eq fun rest => noSlash _,
      dropWhile_formed formed]
  · rw [List.drop_left, relativePath_eq, List.dropWhile_cons_of_pos (by decide),
      dropWhile_formed formed]
    intro rest same
    exact noSlash rest (List.cons.inj same).2

section Scan

variable {onDisk : Text → Bool} {state : FsWatcher × List Text}

theorem mem_deleteFile {watcher : FsWatcher} {filename file : Text} :
    file ∈ (watcher.deleteFile filename).files ↔
      file ∈ watcher.files ∧ file ≠ filename := by
  rw [deleteFile, List.mem_filter, decide_eq_true_eq]

theorem dirPath_notifyRemoval (first : Text) :
    (notifyRemoval onDisk state first).1.dirPath = state.1.dirPath := by
  rw [notifyRemoval]
  split_ifs
  · rfl
  · rfl

theorem mem_notifyRemoval {first file : Text} :
    file ∈ (notifyRemoval onDisk state first).1.files ↔
      file ∈ state.1.files ∧ ¬ (file = first ∧
        onDisk (joinPath state.1.dirPath file) = false) := by
  rw [notifyRemoval]
  split_ifs with present
  · refine ⟨fun tracked => ⟨tracked, ?_⟩, And.left⟩
    rintro ⟨rfl, missing⟩
    rw [present] at missing
    cases missing
  · rw [mem_deleteFile]
    apply and_congr_right
    intro _
    constructor
    · exact fun different both => different both.1
    · rintro kept rfl
      exact kept ⟨rfl, Bool.eq_false_iff.mpr present⟩

theorem mem_foldl_notifyRemoval {matched : List Text} {file : Text} :
    file ∈ (matched.foldl (notifyRemoval onDisk) state).1.files ↔
      file ∈ state.1.files ∧ ¬ (file ∈ matched ∧
        onDisk (joinPath state.1.dirPath file) = false) := by
  induction matched generalizing state with
  | nil => simp
  | cons first matched induction =>
      rw [List.foldl_cons, induction, dirPath_notifyRemoval, mem_notifyRemoval,
        List.mem_cons, and_assoc]
      apply and_congr_right
      intro _
      tauto

theorem reported_foldl_notifyRemoval (matched : List Text) :
    (matched.foldl (notifyRemoval onDisk) state).2 =
      state.2 ++ matched.filter fun file =>
        !onDisk (joinPath state.1.dirPath file) := by
  induction matched generalizing state with
  | nil => simp
  | cons first matched induction =>
      rw [List.foldl_cons, induction, dirPath_notifyRemoval, notifyRemoval]
      cases present : onDisk (joinPath state.1.dirPath first) with
      | true =>
          rw [if_pos rfl, List.filter_cons_of_neg (by simp [present])]
      | false =>
          rw [if_neg Bool.false_ne_true,
            List.filter_cons_of_pos (by simp [present]), List.append_assoc]
          rfl

theorem scan_spec (watcher : FsWatcher) (onDisk : Text → Bool)
    (dir : RelativePath) :
    let result := watcher.scanDirectory_NotifyRemovals_Execute onDisk
      (joinPath watcher.dirPath dir.text)
    (∀ file, file ∈ result.1.files ↔ file ∈ watcher.files ∧
      ¬ (Resembles dir.text file ∧
        onDisk (joinPath watcher.dirPath file) = false)) ∧
      result.2.Nodup ∧
        ∀ file, file ∈ result.2 ↔ file ∈ watcher.files ∧
          Resembles dir.text file ∧
            onDisk (joinPath watcher.dirPath file) = false := by
  have matched : ∀ file, file ∈ watcher.getFilesInDir dir.text ↔
      file ∈ watcher.files ∧ Resembles dir.text file := by
    intro file
    rw [getFilesInDir, List.mem_filter, like_dir_iff]
  rw [scanDirectory_NotifyRemovals_Execute,
    relativePath_triggered watcher.dirPath dir.formed]
  dsimp only
  rw [reported_foldl_notifyRemoval, List.nil_append]
  refine ⟨fun file => ?_, ?_, fun file => ?_⟩
  · rw [mem_foldl_notifyRemoval, matched]
    apply and_congr_right
    intro member
    simp only [member, true_and]
  · exact (watcher.filesUnique.filter _).filter _
  · rw [List.mem_filter, matched, and_assoc]
    simp

/-- A scan does what it is for exactly if the pattern tells the missing files
below the directory from the others. -/
theorem notifies_iff (watcher : FsWatcher) (onDisk : Text → Bool)
    (dir : RelativePath) :
    watcher.Notifies onDisk dir.text
        (watcher.scanDirectory_NotifyRemovals_Execute onDisk
          (joinPath watcher.dirPath dir.text)) ↔
      watcher.Plain onDisk dir.text := by
  obtain ⟨files, unique, names⟩ := scan_spec watcher onDisk dir
  constructor
  · intro notifies
    constructor
    · intro file tracked missing below
      have reported := notifies.reported file tracked below missing
      have member := List.count_pos_iff.mp
        (reported ▸ Nat.one_pos : 0 < List.count file _)
      exact (resembles_iff_of_below dir.formed
        (watcher.filesFormed file tracked) below).mp
          ((names file).mp member).2.1
    · intro file tracked missing apart resembles
      have kept := notifies.kept file tracked fun both => apart both.1
      exact ((files file).mp kept).2 ⟨resembles, missing⟩
  · intro plain
    have found : ∀ file ∈ watcher.files,
        onDisk (joinPath watcher.dirPath file) = false →
          (Resembles dir.text file ↔ Below dir.text file) := by
      intro file tracked missing
      constructor
      · intro resembles
        by_contra apart
        exact plain.beside file tracked missing apart resembles
      · intro below
        exact (resembles_iff_of_below dir.formed
          (watcher.filesFormed file tracked) below).mpr
            (plain.below file tracked missing below)
    constructor
    · intro file member below
      obtain ⟨tracked, kept⟩ := (files file).mp member
      by_contra absent
      have missing : onDisk (joinPath watcher.dirPath file) = false := by
        simpa using absent
      exact kept ⟨(found file tracked missing).mpr below, missing⟩
    · intro file tracked below missing
      exact List.count_eq_one_of_mem unique ((names file).mpr
        ⟨tracked, (found file tracked missing).mpr below, missing⟩)
    · intro file present member
      obtain ⟨-, -, missing⟩ := (names file).mp member
      rw [present] at missing
      cases missing
    · intro file tracked other
      refine (files file).mpr ⟨tracked, ?_⟩
      rintro ⟨resembles, missing⟩
      exact other ⟨(found file tracked missing).mp resembles, missing⟩

/-- A file that is gone is not found from the monitored directory. -/
theorem top_directory_not_notified :
    ¬ ∀ (watcher : FsWatcher) onDisk (dir : RelativePath),
      watcher.Notifies onDisk dir.text
        (watcher.scanDirectory_NotifyRemovals_Execute onDisk
          (joinPath watcher.dirPath dir.text)) := by
  intro always
  have notifies := always
    ⟨['/', 'w'], [['a']], by decide, by decide⟩ (fun _ => false)
    ⟨[], fun some => absurd rfl some⟩
  have reported := notifies.reported ['a'] (by decide) (by decide) rfl
  revert reported
  decide

end Scan

end FsWatcher

end ChronoShare
