import ChronoShare.ActionLog.Listings
import Mathlib.Data.List.MinMax

/-!
# The recent actions

The menu of recent files joins the actions with the greatest time of each file
and cuts the result off at a limit.  Actions of one second on one file are all
in the join, so that the limit may leave room for two of them.
-/

namespace ChronoShare

namespace ActionLog

/-- `MAX(action_timestamp)` of the actions on a file, without those that are
NULL. -/
def greatestTime (actions : List ActionRow) (filename : Bytes) :
    WithBot Int64 :=
  ((actionsOn actions filename).filterMap fun row =>
    row.actionTimestamp.map Subtype.val).maximum

/-- The rows of the join; the subquery has one row for each file name, and NULL
is equal to nothing. -/
def recentActions (actions : List ActionRow) : List ActionRow :=
  actions.filter fun row =>
    row.time ≠ ⊥ ∧ row.time = greatestTime actions row.filename

/-- What the visitor is called with. -/
def lookupRecentFileActions (order : Arrangement ActionRow.NotBefore)
    (actions : List ActionRow) (limit : Int) :
    List (Bytes × ActionType × Nat) :=
  (window limit 0 (order.arrange (recentActions actions))).zipIdx.map
    fun (row, index) => (row.filename, row.action, index)

def actionFiles (actions : List ActionRow) : List Bytes :=
  (actions.map (·.filename)).dedup

/-- The entries are the files with the greatest times, at most as many as the
limit, each once and with the type of its latest action. -/
structure ListsRecent (actions : List ActionRow) (limit : Nat)
    (entries : List (Bytes × ActionType × Nat)) : Prop where
  indexes : entries.map (·.2.2) = List.range entries.length
  distinct : (entries.map (·.1)).Nodup
  length : entries.length = min limit (actionFiles actions).length
  known : ∀ entry ∈ entries, entry.1 ∈ actionFiles actions
  ordered : entries.Pairwise fun left right =>
    greatestTime actions right.1 ≤ greatestTime actions left.1
  greatest : ∀ entry ∈ entries, ∀ filename ∈ actionFiles actions,
    filename ∉ entries.map (·.1) →
      greatestTime actions filename ≤ greatestTime actions entry.1
  latest : ∀ entry ∈ entries, ∀ row ∈ actions, row.filename = entry.1 →
    row.time = greatestTime actions entry.1 → row.action = entry.2.1

def tiedWith (actions : List ActionRow) (row : ActionRow) : List ActionRow :=
  (recentActions actions).filter fun other => other.filename = row.filename

/-- The latest actions on all files that are later than this one. -/
def laterThan (actions : List ActionRow) (row : ActionRow) : List ActionRow :=
  (recentActions actions).filter fun other => row.time < other.time

/-- Every file has one latest action, or is beyond the limit, or is the last
one within it and its latest actions are of one type. -/
def Settled (actions : List ActionRow) (limit : Nat) : Prop :=
  ∀ row ∈ recentActions actions,
    (tiedWith actions row).length ≤ 1 ∨
    limit ≤ (laterThan actions row).length ∨
    limit = (laterThan actions row).length + 1 ∧
      ∀ other ∈ tiedWith actions row, other.action = row.action

instance decidableSettled (actions : List ActionRow) (limit : Nat) :
    Decidable (Settled actions limit) :=
  inferInstanceAs (Decidable (∀ row ∈ recentActions actions, _))

variable {actions : List ActionRow}

theorem mem_recentActions {row : ActionRow} :
    row ∈ recentActions actions ↔
      row ∈ actions ∧ row.time ≠ ⊥ ∧
        row.time = greatestTime actions row.filename := by
  rw [recentActions, List.mem_filter, decide_eq_true_iff]

theorem mem_actionFiles {filename : Bytes} :
    filename ∈ actionFiles actions ↔
      ∃ row ∈ actions, row.filename = filename := by
  rw [actionFiles, List.mem_dedup, List.mem_map]

theorem exists_recent
    (timed : ∀ row ∈ actions, row.actionTimestamp.isSome)
    {filename : Bytes} (known : filename ∈ actionFiles actions) :
    ∃ row ∈ recentActions actions, row.filename = filename := by
  obtain ⟨row, member, named⟩ := mem_actionFiles.mp known
  obtain ⟨time, stamped⟩ := Option.isSome_iff_exists.mp (timed row member)
  have isTime : time.val ∈ (actionsOn actions filename).filterMap fun row =>
      row.actionTimestamp.map Subtype.val := by
    apply List.mem_filterMap.mpr
    exact ⟨row, mem_actionsOn.mpr ⟨member, named⟩, by rw [stamped]; rfl⟩
  have someTime : greatestTime actions filename ≠ ⊥ := by
    intro none
    rw [greatestTime, List.maximum_eq_bot] at none
    rw [none] at isTime
    exact absurd isTime List.not_mem_nil
  obtain ⟨greatest, isGreatest⟩ := WithBot.ne_bot_iff_exists.mp someTime
  obtain ⟨latest, latestIn, reads⟩ :=
    List.mem_filterMap.mp (List.maximum_mem isGreatest.symm)
  obtain ⟨latestMember, latestNamed⟩ := mem_actionsOn.mp latestIn
  have latestTime : latest.time = greatest := reads
  refine ⟨latest, mem_recentActions.mpr ⟨latestMember, ?_, ?_⟩, latestNamed⟩
  · rw [latestTime]
    exact WithBot.coe_ne_bot
  · rw [latestTime, latestNamed, isGreatest]

/-- The calls of the visitor for these rows. -/
def indexed (shown : List ActionRow) : List (Bytes × ActionType × Nat) :=
  shown.zipIdx.map fun (row, index) => (row.filename, row.action, index)

theorem lookupRecentFileActions_eq (order : Arrangement ActionRow.NotBefore)
    (actions : List ActionRow) (limit : Nat) :
    lookupRecentFileActions order actions limit =
      indexed ((order.arrange (recentActions actions)).take limit) := by
  rw [lookupRecentFileActions, ← Nat.cast_zero, window_natCast, List.drop_zero]
  rfl

theorem names_indexed (shown : List ActionRow) :
    (indexed shown).map (·.1) = shown.map (·.filename) := by
  rw [indexed, List.map_map]
  conv_rhs => rw [← List.zipIdx_map_fst 0 shown, List.map_map]
  rfl

theorem length_indexed (shown : List ActionRow) :
    (indexed shown).length = shown.length := by
  rw [indexed, List.length_map, List.length_zipIdx]

theorem exists_of_mem_indexed {shown : List ActionRow}
    {entry : Bytes × ActionType × Nat} (member : entry ∈ indexed shown) :
    ∃ row ∈ shown, entry.1 = row.filename ∧ entry.2.1 = row.action := by
  obtain ⟨⟨row, index⟩, numbered, rfl⟩ := List.mem_map.mp member
  exact ⟨row, List.fst_mem_of_mem_zipIdx numbered, rfl, rfl⟩

theorem exists_mem_indexed {shown : List ActionRow} {row : ActionRow}
    (member : row ∈ shown) :
    ∃ entry ∈ indexed shown,
      entry.1 = row.filename ∧ entry.2.1 = row.action := by
  rw [← List.zipIdx_map_fst 0 shown] at member
  obtain ⟨numbered, numberedIn, rfl⟩ := List.mem_map.mp member
  exact ⟨_, List.mem_map_of_mem numberedIn, rfl, rfl⟩

theorem listsRecent_indexed {limit : Nat} {shown : List ActionRow}
    (recent : ∀ row ∈ shown, row ∈ recentActions actions)
    (distinct : (shown.map (·.filename)).Nodup)
    (length : shown.length = min limit (actionFiles actions).length)
    (ordered : shown.Pairwise ActionRow.NotBefore)
    (greatest : ∀ row ∈ shown, ∀ filename ∈ actionFiles actions,
      filename ∉ shown.map (·.filename) →
        greatestTime actions filename ≤ row.time)
    (latest : ∀ row ∈ shown, ∀ other ∈ recentActions actions,
      other.filename = row.filename → other.action = row.action) :
    ListsRecent actions limit (indexed shown) := by
  have times : ∀ row ∈ shown,
      row.time = greatestTime actions row.filename :=
    fun row member => (mem_recentActions.mp (recent row member)).2.2
  constructor
  · rw [length_indexed, indexed, List.map_map, List.range_eq_range',
      ← List.zipIdx_map_snd 0 shown]
    rfl
  · rw [names_indexed]
    exact distinct
  · rw [length_indexed]
    exact length
  · intro entry member
    obtain ⟨row, rowIn, named, -⟩ := exists_of_mem_indexed member
    rw [named]
    exact mem_actionFiles.mpr
      ⟨row, (mem_recentActions.mp (recent row rowIn)).1, rfl⟩
  · have named : ((indexed shown).map (·.1)).Pairwise fun left right =>
        greatestTime actions right ≤ greatestTime actions left := by
      rw [names_indexed, List.pairwise_map]
      apply ordered.imp_of_mem
      intro left right leftIn rightIn notBefore
      rw [← times left leftIn, ← times right rightIn]
      exact notBefore
    exact List.pairwise_map.mp named
  · intro entry member filename known absent
    rw [names_indexed] at absent
    obtain ⟨row, rowIn, named, -⟩ := exists_of_mem_indexed member
    rw [named, ← times row rowIn]
    exact greatest row rowIn filename known absent
  · intro entry member other otherIn sameName isLatest
    obtain ⟨row, rowIn, named, kind⟩ := exists_of_mem_indexed member
    rw [named] at sameName isLatest
    rw [kind]
    apply latest row rowIn other _ sameName
    rw [← times row rowIn] at isLatest
    refine mem_recentActions.mpr ⟨otherIn, ?_, ?_⟩
    · rw [isLatest]
      exact (mem_recentActions.mp (recent row rowIn)).2.1
    · rw [isLatest, sameName]
      exact times row rowIn

theorem laterThan_eq (actions : List ActionRow) (row : ActionRow) :
    laterThan actions row =
      (recentActions actions).filter fun other =>
        ¬ ActionRow.NotBefore row other := by
  rw [laterThan]
  apply List.filter_congr
  intro other _
  rw [decide_eq_decide, ActionRow.NotBefore, not_le]

section Shown

variable {limit : Nat} {order : Arrangement ActionRow.NotBefore}
  {row other : ActionRow}

theorem recent_of_shown
    (shown : row ∈ (order.arrange (recentActions actions)).take limit) :
    row ∈ recentActions actions :=
  order.mem_arrange.mp (List.mem_of_mem_take shown)

theorem laterThan_add_le {part : List ActionRow}
    (shown : row ∈ (order.arrange (recentActions actions)).take limit)
    (sub : part.Sublist ((order.arrange (recentActions actions)).take limit))
    (tied : ∀ other ∈ part, ActionRow.NotBefore row other) :
    (laterThan actions row).length + part.length ≤ limit := by
  rw [laterThan_eq]
  exact order.earlier_add_le shown sub tied

theorem distinct_shown (settled : Settled actions limit) :
    (((order.arrange (recentActions actions)).take limit).map
      (·.filename)).Nodup := by
  apply List.pairwise_map.mpr
  apply List.pairwise_iff_forall_sublist.mpr
  intro first second sub same
  have firstIn := sub.subset List.mem_cons_self
  have ordered : ActionRow.NotBefore first second :=
    List.pairwise_iff_forall_sublist.mp (order.ordered _)
      (sub.trans (List.take_sublist _ _))
  have later := laterThan_add_le firstIn sub (by
    intro row member
    rcases List.mem_pair.mp member with rfl | rfl
    · exact le_rfl
    · exact ordered)
  have tied : [first, second].Sublist ((order.arrange
      (recentActions actions)).filter fun other =>
        other.filename = first.filename) := by
    have kept := (sub.trans (List.take_sublist _ _)).filter
      fun other => decide (other.filename = first.filename)
    simpa [same] using kept
  have two := tied.length_le
  rw [((order.perm _).filter _).length_eq] at two
  have settledFirst := settled first (recent_of_shown firstIn)
  rw [tiedWith] at settledFirst
  simp only [List.length_cons, List.length_nil] at later two
  omega

theorem length_shown
    (timed : ∀ row ∈ actions, row.actionTimestamp.isSome)
    (distinct : (((order.arrange (recentActions actions)).take limit).map
      (·.filename)).Nodup) :
    ((order.arrange (recentActions actions)).take limit).length =
      min limit (actionFiles actions).length := by
  have whole := order.length_arrange (recentActions actions)
  have inside : ((order.arrange (recentActions actions)).take limit).length ≤
      (actionFiles actions).length := by
    rw [← List.length_map ActionRow.filename]
    apply (distinct.subperm _).length_le
    intro filename member
    obtain ⟨row, rowIn, rfl⟩ := List.mem_map.mp member
    have recent := mem_recentActions.mp (recent_of_shown rowIn)
    exact mem_actionFiles.mpr ⟨row, recent.1, rfl⟩
  have covered : (actionFiles actions).length ≤
      (recentActions actions).length := by
    rw [← List.length_map ActionRow.filename]
    apply ((List.nodup_dedup _).subperm _).length_le
    intro filename member
    obtain ⟨row, rowIn, rfl⟩ := exists_recent timed member
    exact List.mem_map_of_mem rowIn
  rw [List.length_take] at inside ⊢
  omega

theorem greatest_shown
    (timed : ∀ row ∈ actions, row.actionTimestamp.isSome)
    (shown : row ∈ (order.arrange (recentActions actions)).take limit)
    {filename : Bytes} (known : filename ∈ actionFiles actions)
    (absent : filename ∉ ((order.arrange (recentActions actions)).take
      limit).map (·.filename)) :
    greatestTime actions filename ≤ row.time := by
  have sorted := order.ordered (recentActions actions)
  rw [← List.take_append_drop limit (order.arrange (recentActions actions))]
    at sorted
  obtain ⟨other, otherIn, rfl⟩ := exists_recent timed known
  rw [← (mem_recentActions.mp otherIn).2.2]
  apply (List.pairwise_append.mp sorted).2.2 row shown other
  have placed := order.mem_arrange.mpr otherIn
  rw [← List.take_append_drop limit (order.arrange (recentActions actions))]
    at placed
  rcases List.mem_append.mp placed with front | back
  · exact absurd (List.mem_map_of_mem front) absent
  · exact back

theorem latest_shown (settled : Settled actions limit)
    (shown : row ∈ (order.arrange (recentActions actions)).take limit)
    (recent : other ∈ recentActions actions)
    (sameName : other.filename = row.filename) :
    other.action = row.action := by
  have rowRecent := recent_of_shown shown
  have later := laterThan_add_le shown (List.singleton_sublist.mpr shown) (by
    intro same isRow
    rw [List.mem_singleton.mp isRow]
    exact le_refl row.time)
  rw [List.length_singleton] at later
  have otherTied : other ∈ tiedWith actions row :=
    List.mem_filter.mpr ⟨recent, decide_eq_true sameName⟩
  have rowTied : row ∈ tiedWith actions row :=
    List.mem_filter.mpr ⟨rowRecent, decide_eq_true rfl⟩
  rcases settled row rowRecent with single | beyond | ⟨-, sameKind⟩
  · obtain ⟨only, isOnly⟩ :=
      List.length_eq_one_iff.mp (le_antisymm single
        (List.length_pos_of_mem rowTied))
    rw [isOnly] at otherTied rowTied
    rw [List.mem_singleton.mp otherTied, List.mem_singleton.mp rowTied]
  · omega
  · exact sameKind other otherTied

end Shown

theorem settled_listsRecent {limit : Nat}
    (timed : ∀ row ∈ actions, row.actionTimestamp.isSome)
    (settled : Settled actions limit)
    (order : Arrangement ActionRow.NotBefore) :
    ListsRecent actions limit
      (lookupRecentFileActions order actions limit) := by
  rw [lookupRecentFileActions_eq]
  have distinct := @distinct_shown actions limit order settled
  apply listsRecent_indexed
  · exact fun row shown => recent_of_shown shown
  · exact distinct
  · exact length_shown timed distinct
  · exact (order.ordered _).sublist (List.take_sublist _ _)
  · intro row shown filename known absent
    exact greatest_shown timed shown known absent
  · intro row shown other recent sameName
    exact latest_shown settled shown recent sameName

section Tied

variable {limit : Nat} {row first second : ActionRow}
  {earlier more later : List ActionRow}

theorem not_listsRecent_of_room
    (tied : tiedWith actions row = first :: second :: more)
    (room : earlier.length + 2 ≤ limit) :
    ¬ ListsRecent actions limit (indexed
      ((earlier ++ (first :: second :: more ++ later)).take limit)) := by
  intro listed
  have both : (earlier ++ [first, second]).Sublist
      ((earlier ++ (first :: second :: more ++ later)).take limit) := by
    rw [List.take_append, List.take_of_length_le (by omega)]
    apply List.Sublist.append_left
    obtain ⟨rest, isLimit⟩ := Nat.exists_eq_add_of_le room
    rw [isLimit, Nat.add_assoc, Nat.add_sub_cancel_left, Nat.add_comm 2]
    simp
  have distinct := listed.distinct
  rw [names_indexed] at distinct
  have pair := ((List.sublist_append_right earlier _).trans both).map
    (·.filename)
  have apart := distinct.sublist pair
  have names : ∀ tiedRow ∈ [first, second],
      tiedRow.filename = row.filename := by
    intro tiedRow member
    have inTie : tiedRow ∈ tiedWith actions row := by
      rw [tied]
      exact (List.sublist_append_left [first, second] more).subset member
    exact of_decide_eq_true (List.mem_filter.mp inTie).2
  simp [names first (by simp), names second (by simp)] at apart

theorem action_eq_of_full (tied : tiedWith actions row = first :: more)
    (full : limit = earlier.length + 1)
    (listed : ListsRecent actions limit (indexed
      ((earlier ++ (first :: more ++ later)).take limit)))
    {tiedRow : ActionRow} (member : tiedRow ∈ tiedWith actions row) :
    tiedRow.action = first.action := by
  have firstShown : first ∈
      (earlier ++ (first :: more ++ later)).take limit := by
    rw [full, List.take_append, List.take_of_length_le (by omega),
      Nat.add_sub_cancel_left]
    simp
  have firstIn : first ∈ tiedWith actions row := by
    rw [tied]
    exact List.mem_cons_self
  obtain ⟨recent, sameName⟩ := List.mem_filter.mp member
  obtain ⟨entry, entryIn, named, kind⟩ := exists_mem_indexed firstShown
  have isEntry : tiedRow.filename = entry.1 := by
    rw [named, of_decide_eq_true sameName,
      of_decide_eq_true (List.mem_filter.mp firstIn).2]
  obtain ⟨stored, -, isLatest⟩ := mem_recentActions.mp recent
  rw [isEntry] at isLatest
  rw [← kind]
  exact listed.latest entry entryIn tiedRow stored isEntry isLatest

end Tied

theorem settled_of_listsRecent {limit : Nat}
    (order : Arrangement ActionRow.NotBefore)
    (lists : ∀ order, ListsRecent actions limit
      (lookupRecentFileActions order actions limit)) :
    Settled actions limit := by
  intro row rowIn
  by_contra open_tie
  simp only [not_or, not_le] at open_tie
  obtain ⟨several, within, mixed⟩ := open_tie
  obtain ⟨other, earlier, later, arranged, position⟩ :=
    order.exists_arrange_tied (recentActions actions) row
      (fun other => other.filename = row.filename) (by
        intro other otherIn same
        have sameTime : other.time = row.time := by
          rw [(mem_recentActions.mp otherIn).2.2,
            (mem_recentActions.mp rowIn).2.2, of_decide_eq_true same]
        exact ⟨sameTime.ge, sameTime.le⟩)
  rw [← laterThan_eq] at position
  obtain ⟨first, second, more, tied⟩ : ∃ first second more,
      tiedWith actions row = first :: second :: more := by
    cases tied : tiedWith actions row with
    | nil => simp [tied] at several
    | cons first rest =>
        cases rest with
        | nil => simp [tied] at several
        | cons second more => exact ⟨first, second, more, rfl⟩
  rw [← tiedWith, tied] at arranged
  have listed := lists other
  rw [lookupRecentFileActions_eq, arranged] at listed
  rcases Nat.lt_or_ge ((laterThan actions row).length + 1) limit with
    room | full
  · exact not_listsRecent_of_room tied (by omega) listed
  · have isLimit : limit = earlier.length + 1 := by omega
    have rowTied : row ∈ tiedWith actions row :=
      List.mem_filter.mpr ⟨rowIn, decide_eq_true rfl⟩
    apply mixed
    refine ⟨by omega, ?_⟩
    intro tiedRow member
    rw [action_eq_of_full tied isLimit listed member,
      action_eq_of_full tied isLimit listed rowTied]

/-- The menu is right in every order of the ties exactly if no tie reaches the
limit. -/
theorem lists_recent_iff (actions : List ActionRow) (limit : Nat)
    (timed : ∀ row ∈ actions, row.actionTimestamp.isSome) :
    (∀ order, ListsRecent actions limit
      (lookupRecentFileActions order actions limit)) ↔
        Settled actions limit := by
  constructor
  · exact settled_of_listsRecent (Arrangement.stable ActionRow.NotBefore)
  · intro settled order
    exact settled_listsRecent timed settled order

theorem lists_recent_iff_menu :
    let actions := [updateAt [0x66] 1 5, updateAt [0x67] 2 5,
      updateAt [0x66] 3 8]
    ListsRecent actions 5 (lookupRecentFileActions
      (Arrangement.stable ActionRow.NotBefore) actions 5) := by
  intro actions
  exact (lists_recent_iff actions 5 (by decide)).mpr (by decide) _

/-- Two updates of a file in one second take two places of the menu. -/
theorem file_listed_twice :
    let actions := [updateAt [0x66] 1 5, updateAt [0x66] 2 5]
    ¬ ListsRecent actions 5 (lookupRecentFileActions
      (Arrangement.stable ActionRow.NotBefore) actions 5) := by
  intro actions lists
  have distinct := lists.distinct
  revert distinct
  decide

end ActionLog

end ChronoShare
