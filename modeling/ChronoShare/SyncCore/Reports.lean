import ChronoShare.Support.Tiling
import ChronoShare.SyncCore.Invariant

/-!
# Ranges in a report

A report is the difference between two remembered states with the old numbers
included.  Over growing states it has, for each device whose number moved, one
range from the old number to the new one, so that reports between successive
states tile what the device has done.
-/

namespace ChronoShare

/-- A known number as an unsigned one, zero for an unknown device. -/
def numberOf : WithBot Int64 → Nat :=
  WithBot.recBotCoe 0 fun seqNo => seqNo.toUInt64.toNat

@[simp] theorem numberOf_bot : numberOf ⊥ = 0 :=
  rfl

@[simp] theorem numberOf_coe (seqNo : Int64) :
    numberOf seqNo = seqNo.toUInt64.toNat :=
  rfl

theorem numberOf_mono {left right : WithBot Int64}
    (nonneg : ∀ seqNo : Int64, left = seqNo → 0 ≤ seqNo)
    (below : left ≤ right) : numberOf left ≤ numberOf right := by
  cases left with
  | bot => exact Nat.zero_le _
  | coe old =>
      cases right with
      | bot => exact absurd below (WithBot.not_coe_le_bot old)
      | coe new =>
          exact UInt64.le_iff_toNat_le.mp
            (Int64.toUInt64_le (nonneg old rfl) (WithBot.coe_le_coe.mp below))

def NonnegMap (map : MaxMap Bytes Int64) : Prop :=
  ∀ name (seqNo : Int64), map name = seqNo → 0 ≤ seqNo

theorem NonnegMap.raise {map : MaxMap Bytes Int64} (nonneg : NonnegMap map)
    {name : Bytes} {seqNo : Int64}
    (grows : 0 ≤ seqNo ∨ ∃ current : Int64, map name = current) :
    NonnegMap (map.raise name seqNo) := by
  intro other value stored
  by_cases same : other = name
  · subst same
    rw [MaxMap.raise_self] at stored
    cases current : map other with
    | bot =>
        rcases grows with positive | known
        · rw [current, bot_sup_eq, WithBot.coe_inj] at stored
          rwa [← stored]
        · obtain ⟨value, knownValue⟩ := known
          rw [current] at knownValue
          exact absurd knownValue WithBot.bot_ne_coe
    | coe known =>
        rw [current, ← WithBot.coe_sup, WithBot.coe_inj] at stored
        rw [← stored]
        exact (nonneg other known current).trans le_sup_left
  · rw [MaxMap.raise_of_ne _ same] at stored
    exact nonneg other value stored

theorem NonnegMap.raiseAll {map : MaxMap Bytes Int64} (nonneg : NonnegMap map)
    {entries : List (Bytes × Int64)}
    (positive : ∀ entry ∈ entries, 0 ≤ entry.2) :
    NonnegMap (map.raiseAll entries) := by
  induction entries generalizing map with
  | nil => exact nonneg
  | cons entry entries induction =>
      apply induction
      · exact nonneg.raise (Or.inl (positive entry (by simp)))
      · intro other member
        exact positive other (List.mem_cons_of_mem _ member)

namespace SyncCore

open SyncDb

/-- The ranges a list of reports has for a device. -/
def rangesOf (name : Bytes) (reports : List SyncStateMsg) :
    List (Nat × Nat) :=
  reports.flatMap fun diff =>
    (diff.filter fun state => state.name = name).map fun state =>
      ((state.oldSeq.getD 0).toNat, (state.seq.getD 0).toNat)

@[simp] theorem rangesOf_nil (name : Bytes) : rangesOf name [] = [] :=
  rfl

theorem rangesOf_append (name : Bytes) (first second : List SyncStateMsg) :
    rangesOf name (first ++ second) =
      rangesOf name first ++ rangesOf name second :=
  List.flatMap_append

section Callbacks

variable {Name : Type}

/-- The messages passed to the state callback. -/
def reportsOf (effects : List (Effect Name)) : List SyncStateMsg :=
  effects.filterMap fun effect =>
    match effect with
    | .stateMsgCallback diff => some diff
    | _ => none

@[simp] theorem reportsOf_append (first second : List (Effect Name)) :
    reportsOf (first ++ second) = reportsOf first ++ reportsOf second :=
  List.filterMap_append

theorem mem_reportsOf_callbackOn {diff report : SyncStateMsg}
    (member : report ∈ reportsOf (callbackOn diff : List (Effect Name))) :
    report = diff := by
  unfold callbackOn at member
  split_ifs at member with empty
  · exact absurd member List.not_mem_nil
  · exact List.mem_singleton.mp member

theorem rangesOf_callbackOn (name : Bytes) (diff : SyncStateMsg) :
    rangesOf name (reportsOf (callbackOn diff : List (Effect Name))) =
      rangesOf name [diff] := by
  unfold callbackOn
  split_ifs with empty
  · rw [empty]
    rfl
  · rfl

end Callbacks

variable {Name : Type} {ndn : NameOps Name} {sha256 : Bytes → Bytes}
  {db : SyncDb}

theorem rangesOf_difference (wellFormed : SyncDb.WellFormed ndn sha256 db)
    {oldHash newHash : Hash} {name : Bytes}
    (grown : db.snapshot oldHash name ≤ db.snapshot newHash name) :
    rangesOf name [db.findStateDifferences oldHash newHash true] =
      if db.snapshot oldHash name = db.snapshot newHash name then
        []
      else
        [(numberOf (db.snapshot oldHash name),
          numberOf (db.snapshot newHash name))] := by
  have unique := names_findStateDifferences_nodup wellFormed oldHash newHash
    true
  have single : rangesOf name [db.findStateDifferences oldHash newHash true] =
      (((db.findStateDifferences oldHash newHash true).find?
        fun state => state.name = name).toList).map fun state =>
          ((state.oldSeq.getD 0).toNat, (state.seq.getD 0).toNat) := by
    rw [← Table.filter_eq_find? SyncState.name unique]
    simp [rangesOf]
  rw [single]
  split_ifs with same
  · have absent : (db.findStateDifferences oldHash newHash true).find?
        (fun state => state.name = name) = none := by
      apply List.find?_eq_none.mpr
      intro state member sameName
      obtain ⟨node, nodeIn, changed, entry⟩ :=
        (mem_findStateDifferences wellFormed).mp member
      rw [entry] at sameName
      have nodeName : node.deviceName = name := of_decide_eq_true sameName
      exact changed (by rw [nodeName, same])
    rw [absent]
    rfl
  · have known : ∃ seqNo : Int64, db.snapshot newHash name = seqNo := by
      cases newer : db.snapshot newHash name with
      | coe seqNo => exact ⟨seqNo, rfl⟩
      | bot =>
          have older : db.snapshot oldHash name = ⊥ := by
            apply le_bot_iff.mp
            rwa [← newer]
          exact absurd (older.trans newer.symm) same
    obtain ⟨seqNo, newer⟩ := known
    obtain ⟨node, nodeIn, rfl⟩ := node_of_snapshot newer
    have found : (db.findStateDifferences oldHash newHash true).find?
        (fun state => state.name = node.deviceName) =
          some (differenceEntry true node
            (columnOf (db.snapshot oldHash node.deviceName))
            (columnOf (db.snapshot newHash node.deviceName))) :=
      (Table.find?_eq_some_iff SyncState.name unique).mpr
        ⟨(mem_findStateDifferences wellFormed).mpr
          ⟨node, nodeIn, same, rfl⟩, rfl⟩
    rw [found]
    cases older : db.snapshot oldHash node.deviceName with
    | bot =>
        simp only [differenceEntry, newer, columnOf_coe, columnOf_bot,
          Option.toList_some, List.map_cons, List.map_nil, if_true]
        rfl
    | coe oldSeq => simp [differenceEntry, newer]

theorem tiles_report (wellFormed : SyncDb.WellFormed ndn sha256 db)
    {oldHash newHash : Hash} {name : Bytes}
    (grown : db.snapshot oldHash name ≤ db.snapshot newHash name)
    (nonneg : ∀ seqNo : Int64, db.snapshot oldHash name = seqNo → 0 ≤ seqNo)
    {base : Nat} {reports : List SyncStateMsg}
    (tiles : Tiles base (rangesOf name reports)
      (numberOf (db.snapshot oldHash name))) :
    Tiles base (rangesOf name (reports ++
        [db.findStateDifferences oldHash newHash true]))
      (numberOf (db.snapshot newHash name)) := by
  rw [rangesOf_append, rangesOf_difference wellFormed grown]
  split_ifs with same
  · rw [List.append_nil, ← same]
    exact tiles
  · exact tiles.snoc (numberOf_mono nonneg grown)

end SyncCore

end ChronoShare
