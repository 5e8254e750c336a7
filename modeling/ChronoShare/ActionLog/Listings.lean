import ChronoShare.ActionLog.Directories
import ChronoShare.Support.Query

/-!
# Listings of actions and files

Three lookups share one loop, which asks for one row more than the limit and
counts the limit down to tell whether there was one.  The recursive ones visit
what lies below a folder, and every page but a full last one is reported as it
should be.
-/

namespace ChronoShare

open Uri (slash)

section Loop

variable {α : Type}

/-- `if (limit >= 0) limit ++`, undefined at the greatest `int`. -/
def raiseLimit (limit : Int) : Option Int :=
  if limit < 0 then some limit
  else if limit < 2147483647 then some (limit + 1)
  else none

/-- The visited rows and the limit that the loop leaves.  The counter has no
lower bound here: no table has rows enough for an `int` to reach it. -/
def countDown : List α → Int → List α × Int
  | [], limit => ([], limit)
  | row :: rows, limit =>
      if limit = 1 then ([], limit)
      else
        let (visited, left) := countDown rows (limit - 1)
        (row :: visited, left)

/-- The visited rows, and whether more are said to be available; `none` stands
for an overflow. -/
def visitRows (rows : List α) (offset limit : Int) :
    Option (List α × Bool) :=
  (raiseLimit limit).map fun raised =>
    let (visited, left) := countDown (window raised offset rows) raised
    (visited, left = 1)

theorem countDown_of_nonpos {limit : Int} (nonpos : limit ≤ 0)
    (rows : List α) :
    countDown rows limit = (rows, limit - rows.length) := by
  induction rows generalizing limit with
  | nil => simp [countDown]
  | cons row rows induction =>
      have rest := induction (show limit - 1 ≤ 0 by omega)
      rw [countDown, if_neg (by omega), rest]
      simp only [List.length_cons, Nat.cast_add, Nat.cast_one, Prod.mk.injEq,
        true_and]
      omega

theorem countDown_succ (limit : Nat) (rows : List α) :
    countDown rows (limit + 1) =
      (rows.take limit, (limit : Int) + 1 - (rows.take limit).length) := by
  induction rows generalizing limit with
  | nil => simp [countDown]
  | cons row rows induction =>
      cases limit with
      | zero => simp [countDown]
      | succ limit =>
          have rest := induction limit
          rw [countDown, if_neg (by omega)]
          rw [show ((limit + 1 : Nat) + 1 - 1 : Int) = limit + 1 by omega, rest]
          simp only [List.take_succ_cons, List.length_cons, Nat.cast_add,
            Nat.cast_one, Prod.mk.injEq, true_and]
          omega

/-- The loop visits the page it was asked for, and says that there is more as
soon as the page is full. -/
theorem visitRows_eq {limit : Int} (bounded : limit < 2147483647)
    (rows : List α) (offset : Int) :
    visitRows rows offset limit =
      some (window limit offset rows,
        decide (0 ≤ limit ∧ limit ≤ (rows.drop offset.toNat).length)) := by
  rw [visitRows, raiseLimit]
  split_ifs with below
  · rw [Option.map_some, countDown_of_nonpos (by omega)]
    simp only [Option.some.injEq, Prod.mk.injEq, true_and,
      decide_eq_decide]
    omega
  · obtain ⟨size, rfl⟩ := Int.eq_ofNat_of_zero_le (not_lt.mp below)
    have raised : window (size + 1 : Int) offset rows =
        (rows.drop offset.toNat).take (size + 1) :=
      if_neg (by omega)
    have asked : window (size : Int) offset rows =
        (rows.drop offset.toNat).take size :=
      if_neg (by omega)
    rw [Option.map_some, raised, countDown_succ, List.take_take, asked]
    simp only [Nat.min_eq_left (Nat.le_succ size), Option.some.injEq,
      Prod.mk.injEq, true_and, decide_eq_decide, List.length_take]
    omega

theorem visitRows_of_not_lt {limit : Int} (unbounded : ¬ limit < 2147483647)
    (rows : List α) (offset : Int) : visitRows rows offset limit = none := by
  rw [visitRows, raiseLimit, if_neg (by omega), if_neg unbounded,
    Option.map_none]

/-- The pages of one size, laid end to end, visit every row once; each is of at
most that size, and says that there is more exactly if the next one is not
empty. -/
def ReadsByPages (lookup : Int → Int → Option (List α × Bool))
    (rows : List α) (size : Nat) : Prop :=
  ∃ page : Nat → List α × Bool,
    (∀ index : Nat, lookup (index * size) size = some (page index)) ∧
    (∃ enough, ∀ count ≥ enough,
      ((List.range count).flatMap fun index => (page index).1).Perm rows) ∧
    ∀ index, (page index).1.length ≤ size ∧
      ((page index).2 = true ↔ (page (index + 1)).1 ≠ [])

/-- A full last page is what the loop gets wrong. -/
def EndsShort (count size : Nat) : Prop :=
  size < 2147483647 ∧ ¬ (0 < count ∧ size ∣ count)

instance (count size : Nat) : Decidable (EndsShort count size) :=
  inferInstanceAs (Decidable (_ ∧ _))

theorem visitRows_page {size : Nat} (bounded : size < 2147483647)
    (rows : List α) (index : Nat) :
    visitRows rows (index * size) size =
      some ((rows.drop (index * size)).take size,
        decide (size ≤ rows.length - index * size)) := by
  rw [visitRows_eq (by omega), ← Nat.cast_mul, window_natCast,
    Int.toNat_natCast, List.length_drop]
  simp only [Int.natCast_nonneg, true_and, Int.ofNat_le]

/-- A page is full exactly if rows are left after it, unless the rows end with
it. -/
theorem full_iff {count size : Nat} (positive : 0 < size)
    (short : ¬ (0 < count ∧ size ∣ count)) (index : Nat) :
    size ≤ count - index * size ↔ (index + 1) * size < count := by
  rw [Nat.add_mul, Nat.one_mul]
  constructor
  · intro full
    rcases Nat.lt_or_ge (index * size + size) count with more | last
    · exact more
    · have exact_end : count = (index + 1) * size := by
        rw [Nat.add_mul, Nat.one_mul]
        omega
      exact absurd ⟨by omega, exact_end ▸ Nat.dvd_mul_left size _⟩ short
  · omega

section Pages

variable {lookup : Int → Int → Option (List α × Bool)} {rows arranged : List α}
  {size : Nat}

theorem endsShort_of_readsByPages (perm : arranged.Perm rows)
    (visits : ∀ offset limit,
      lookup offset limit = visitRows arranged offset limit)
    (reads : ReadsByPages lookup rows size) : EndsShort rows.length size := by
  obtain ⟨page, asked, -, pages⟩ := reads
  have bounded : size < 2147483647 := by
    by_contra unbounded
    have first := asked 0
    rw [visits, visitRows_of_not_lt (by omega)] at first
    exact Option.some_ne_none _ first.symm
  refine ⟨bounded, ?_⟩
  rintro ⟨nonempty, index, total⟩
  have pageIs : ∀ other, page other =
      ((arranged.drop (other * size)).take size,
        decide (size ≤ arranged.length - other * size)) := by
    intro other
    have answer := asked other
    rw [visits, visitRows_page bounded] at answer
    exact (Option.some.inj answer).symm
  obtain ⟨last, rfl⟩ : ∃ last, index = last + 1 := by
    apply Nat.exists_eq_succ_of_ne_zero
    rintro rfl
    omega
  have length : arranged.length = (last + 1) * size := by
    rw [perm.length_eq, total, Nat.mul_comm]
  have more : (page last).2 = true := by
    rw [pageIs, length, Nat.add_mul]
    simp
  have next := (pages last).2.mp more
  apply next
  rw [pageIs, List.drop_of_length_le (by rw [length])]
  exact List.take_nil

theorem readsByPages_of_endsShort (perm : arranged.Perm rows)
    (visits : ∀ offset limit,
      lookup offset limit = visitRows arranged offset limit)
    (positive : 0 < size) (ends : EndsShort rows.length size) :
    ReadsByPages lookup rows size := by
  obtain ⟨bounded, short⟩ := ends
  rw [← perm.length_eq] at short
  refine ⟨fun index => ((arranged.drop (index * size)).take size,
    decide (size ≤ arranged.length - index * size)), ?_, ?_, ?_⟩
  · intro index
    rw [visits, visitRows_page bounded]
  · refine ⟨arranged.length, ?_⟩
    intro count enough
    have covers : arranged.length ≤ count * size :=
      enough.trans (Nat.le_mul_of_pos_right count positive)
    rw [flatMap_window, List.take_of_length_le covers]
    exact perm
  · intro index
    refine ⟨List.length_take_le _ _, ?_⟩
    rw [decide_eq_true_iff, full_iff positive short, ← List.length_pos_iff,
      List.length_take, List.length_drop]
    omega

theorem readsByPages_iff (perm : arranged.Perm rows)
    (visits : ∀ offset limit,
      lookup offset limit = visitRows arranged offset limit)
    (positive : 0 < size) :
    ReadsByPages lookup rows size ↔ EndsShort rows.length size := by
  constructor
  · exact endsShort_of_readsByPages perm visits
  · exact readsByPages_of_endsShort perm visits positive

theorem readsByPages_silent_iff
    (silent : ∀ offset limit, lookup offset limit = some ([], false)) :
    ReadsByPages lookup rows size ↔ rows = [] := by
  constructor
  · intro reads
    obtain ⟨page, asked, ⟨enough, whole⟩, -⟩ := reads
    have nothing : ∀ index, (page index).1 = [] := by
      intro index
      rw [← Option.some.inj ((silent _ _).symm.trans (asked index))]
    have visited := whole enough le_rfl
    rw [List.flatMap_eq_nil_iff.mpr (fun index _ => nothing index)] at visited
    exact List.nil_perm.mp visited
  · intro none
    rw [none]
    refine ⟨fun _ => ([], false), fun _ => silent _ _, ⟨0, ?_⟩, ?_⟩
    · intro count _
      rw [List.flatMap_eq_nil_iff.mpr (fun _ _ => rfl)]
    · intro index
      simp

end Pages

end Loop

/-- The time as the database orders it, with NULL below every other. -/
def ActionRow.time (row : ActionRow) : WithBot Int64 :=
  row.actionTimestamp.map Subtype.val

/-- `ORDER BY action_timestamp DESC`; texts of times are ordered as times. -/
def ActionRow.NotBefore (left right : ActionRow) : Prop :=
  right.time ≤ left.time

/-- `ORDER BY filename`. -/
def FileRow.ByName (left right : FileRow) : Prop :=
  left.filename ≤ right.filename

instance ActionRow.decidableNotBefore : DecidableRel ActionRow.NotBefore :=
  fun left right => inferInstanceAs (Decidable (right.time ≤ left.time))

instance ActionRow.totalNotBefore : Std.Total ActionRow.NotBefore :=
  ⟨fun left right => le_total right.time left.time⟩

instance ActionRow.transNotBefore : IsTrans ActionRow ActionRow.NotBefore :=
  ⟨fun _ _ _ first second => le_trans second first⟩

instance FileRow.decidableByName : DecidableRel FileRow.ByName :=
  fun left right => inferInstanceAs (Decidable (left.filename ≤ right.filename))

instance FileRow.totalByName : Std.Total FileRow.ByName :=
  ⟨fun left right => le_total left.filename right.filename⟩

instance FileRow.transByName : IsTrans FileRow FileRow.ByName :=
  ⟨fun _ _ _ first second => le_trans first second⟩

namespace ActionLog

/-- The actions that are selected for a folder. -/
def actionsInFolder (actions : List (Filed ActionRow)) (folder : Bytes) :
    List ActionRow :=
  let selected :=
    if folder ≠ [] then
      actions.filter fun filed =>
        DbHelper.isDirPrefix folder filed.directory
    else
      actions
  selected.map Filed.row

def lookupActionsInFolderRecursively
    (order : Arrangement ActionRow.NotBefore)
    (actions : List (Filed ActionRow)) (folder : Bytes)
    (offset limit : Int) : Option (List ActionRow × Bool) :=
  visitRows (order.arrange (actionsInFolder actions folder)) offset limit

def actionsForFile (actions : List (Filed ActionRow)) (file : Bytes) :
    List ActionRow :=
  actionsOn (actions.map Filed.row) file

def lookupActionsForFile (order : Arrangement ActionRow.NotBefore)
    (actions : List (Filed ActionRow)) (file : Bytes) (offset limit : Int) :
    Option (List ActionRow × Bool) :=
  if file = [] then some ([], false)
  else visitRows (order.arrange (actionsForFile actions file)) offset limit

end ActionLog

namespace FileState

/-- The files that are selected for a folder and all below it. -/
def filesBelow (files : List (Filed FileRow)) (folder : Bytes) :
    List FileRow :=
  let selected :=
    if folder ≠ [] then
      files.filter fun filed => DbHelper.isDirPrefix folder filed.directory
    else
      files
  selected.map Filed.row

def lookupFilesInFolderRecursively (order : Arrangement FileRow.ByName)
    (files : List (Filed FileRow)) (folder : Bytes) (offset limit : Int) :
    Option (List FileRow × Bool) :=
  visitRows (order.arrange (filesBelow files folder)) offset limit

end FileState

/-- The pages of the three lookups are right unless the last one is full.  For
no file at all the second one finds nothing. -/
theorem lookups_read_by_pages_iff {size : Nat} (positive : 0 < size) :
    (∀ order actions folder,
      ReadsByPages
          (ActionLog.lookupActionsInFolderRecursively order actions folder)
          (ActionLog.actionsInFolder actions folder) size ↔
        EndsShort (ActionLog.actionsInFolder actions folder).length size) ∧
    (∀ order actions file,
      ReadsByPages (ActionLog.lookupActionsForFile order actions file)
          (ActionLog.actionsForFile actions file) size ↔
        if file = [] then ActionLog.actionsForFile actions file = []
        else EndsShort (ActionLog.actionsForFile actions file).length size) ∧
    ∀ order files folder,
      ReadsByPages
          (FileState.lookupFilesInFolderRecursively order files folder)
          (FileState.filesBelow files folder) size ↔
        EndsShort (FileState.filesBelow files folder).length size := by
  refine ⟨?_, ?_, ?_⟩
  · intro order actions folder
    exact readsByPages_iff (order.perm _) (fun _ _ => rfl) positive
  · intro order actions file
    split_ifs with unnamed
    · apply readsByPages_silent_iff
      intro offset limit
      exact if_pos unnamed
    · apply readsByPages_iff (order.perm _) _ positive
      intro offset limit
      exact if_neg unnamed
  · intro order files folder
    exact readsByPages_iff (order.perm _) (fun _ _ => rfl) positive

/-- An update of a file by `/alex`. -/
def updateAt (filename : Bytes) (seqNo time : Int64) : ActionRow :=
  ActionLog.updateRow (plainActionPlatform Name.uriOps) Name.alex seqNo
    filename [1] 0 time 6 420 1 none

def oneUpdate : List (Filed ActionRow) :=
  ActionLog.insertFiled [] (updateAt [0x66] 1 5)

theorem lookups_read_by_pages_iff_unfilled :
    ReadsByPages
      (ActionLog.lookupActionsForFile
        (Arrangement.stable ActionRow.NotBefore) oneUpdate [0x66])
      (ActionLog.actionsForFile oneUpdate [0x66]) 2 := by
  have pages := (@lookups_read_by_pages_iff 2 (by decide)).2.1
    (Arrangement.stable ActionRow.NotBefore) oneUpdate [0x66]
  rw [if_neg (List.cons_ne_nil _ _)] at pages
  apply pages.mpr
  decide

/-- A page that holds the only action on a file says that there are more. -/
theorem full_page_promises_more :
    ¬ ReadsByPages
      (ActionLog.lookupActionsForFile
        (Arrangement.stable ActionRow.NotBefore) oneUpdate [0x66])
      (ActionLog.actionsForFile oneUpdate [0x66]) 1 := by
  intro reads
  obtain ⟨page, asked, -, pages⟩ := reads
  have first : ActionLog.lookupActionsForFile
      (Arrangement.stable ActionRow.NotBefore) oneUpdate [0x66] 0 1 =
        some ([updateAt [0x66] 1 5], true) := by
    decide +kernel
  have second : ActionLog.lookupActionsForFile
      (Arrangement.stable ActionRow.NotBefore) oneUpdate [0x66] 1 1 =
        some ([], false) := by
    decide +kernel
  have firstPage := Option.some.inj (first.symm.trans (asked 0))
  have secondPage := Option.some.inj (second.symm.trans (asked 1))
  apply (pages 0).2.mp
  · rw [← firstPage]
  · rw [← secondPage]

end ChronoShare
