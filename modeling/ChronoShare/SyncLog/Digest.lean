import ChronoShare.Ndn.Name
import ChronoShare.SyncLog.Store
import ChronoShare.Support.MaxMap

/-!
# The digest identifies the state

The digest of a table of devices is computed from its rows sorted by name.
For tables with one row per device it depends only on the map from devices to
sequence numbers, and with self-delimiting names and a collision-free digest
function it determines that map.
-/

namespace ChronoShare

namespace SyncDb

section Collected

variable {Name : Type} {ndn : NameOps Name} {sha256 : Bytes → Bytes}

/-- The map from stored device names to sequence numbers. -/
def seqOf (rows : List SyncNode) : MaxMap Bytes Int64 :=
  Table.column (·.deviceName) (·.seqNo) rows

def seqMap (db : SyncDb) : MaxMap Bytes Int64 :=
  seqOf db.syncNodes

/-- One row per device, each under an encoded name. -/
structure NamedRows (ndn : NameOps Name) (rows : List SyncNode) : Prop where
  unique : (rows.map (·.deviceName)).Nodup
  encoded : ∀ row ∈ rows, ∃ name, row.deviceName = ndn.wire name

private def entryOf (row : SyncNode) : Bytes × Int64 :=
  (row.deviceName, row.seqNo)

private def ByName (left right : Bytes × Int64) : Prop :=
  left.1 ≤ right.1

private instance : DecidableRel ByName :=
  fun left right => inferInstanceAs (Decidable (left.1 ≤ right.1))

private instance : Std.Total ByName where
  total left right := le_total left.1 right.1

private instance : IsTrans (Bytes × Int64) ByName where
  trans _ _ _ first second := le_trans first second

private def sortedEntries (rows : List SyncNode) : List (Bytes × Int64) :=
  (rows.map entryOf).insertionSort ByName

private def digestEntries (sha256 : Bytes → Bytes) :
    List (Bytes × Int64) → Hash
  | [] => [0]
  | entries => sha256 (entries.flatMap fun entry => hashStep entry.1 entry.2)

private theorem digest_eq (rows : List SyncNode) :
    digest sha256 rows = digestEntries sha256 (sortedEntries rows) := by
  have sorted : sortedEntries rows =
      (rows.insertionSort fun left right =>
        left.deviceName ≤ right.deviceName).map entryOf := by
    apply (List.map_insertionSort _ _ entryOf rows _).symm
    intro left _ right _
    exact Iff.rfl
  unfold digest
  rw [sorted]
  cases rows.insertionSort fun left right =>
      left.deviceName ≤ right.deviceName with
  | nil => rfl
  | cons head tail =>
      simp [digestEntries, entryOf, List.flatMap_map]

private theorem mem_sortedEntries {rows : List SyncNode}
    {entry : Bytes × Int64} :
    entry ∈ sortedEntries rows ↔
      ∃ row ∈ rows, (row.deviceName, row.seqNo) = entry := by
  simp [sortedEntries, entryOf]

private theorem mem_sortedEntries_iff_seqOf {rows : List SyncNode}
    (unique : (rows.map (·.deviceName)).Nodup) (entry : Bytes × Int64) :
    entry ∈ sortedEntries rows ↔ seqOf rows entry.1 = entry.2 := by
  rw [mem_sortedEntries, seqOf, Table.column_eq_coe_iff unique]
  simp only [Prod.ext_iff]

private theorem sortedEntries_nodup {rows : List SyncNode}
    (unique : (rows.map (·.deviceName)).Nodup) :
    (sortedEntries rows).Nodup := by
  have entriesUnique : (rows.map entryOf).Nodup := by
    apply List.Nodup.of_map Prod.fst
    simpa [entryOf, Function.comp_def] using unique
  exact (List.perm_insertionSort ByName _).nodup_iff.mpr entriesUnique

private theorem sortedEntries_congr {left right : List SyncNode}
    (leftUnique : (left.map (·.deviceName)).Nodup)
    (rightUnique : (right.map (·.deviceName)).Nodup)
    (same : seqOf left = seqOf right) :
    sortedEntries left = sortedEntries right := by
  have permutation : (sortedEntries left).Perm (sortedEntries right) := by
    apply (List.perm_ext_iff_of_nodup (sortedEntries_nodup leftUnique)
      (sortedEntries_nodup rightUnique)).mpr
    intro entry
    rw [mem_sortedEntries_iff_seqOf leftUnique,
      mem_sortedEntries_iff_seqOf rightUnique, same]
  apply List.Perm.eq_of_pairwise _
    (List.pairwise_insertionSort ByName _)
    (List.pairwise_insertionSort ByName _) permutation
  intro first second firstIn secondIn below above
  have sameName : first.1 = second.1 := le_antisymm below above
  have firstSeq := (mem_sortedEntries_iff_seqOf leftUnique first).mp firstIn
  have secondSeq := (mem_sortedEntries_iff_seqOf rightUnique second).mp secondIn
  rw [← same, ← sameName, firstSeq, WithBot.coe_inj] at secondSeq
  exact Prod.ext sameName secondSeq

theorem digest_congr {left right : List SyncNode}
    (leftUnique : (left.map (·.deviceName)).Nodup)
    (rightUnique : (right.map (·.deviceName)).Nodup)
    (same : seqOf left = seqOf right) :
    digest sha256 left = digest sha256 right := by
  rw [digest_eq, digest_eq, sortedEntries_congr leftUnique rightUnique same]

private theorem toUInt64_toNat_inj {left right : Int64}
    (equality : left.toUInt64.toNat = right.toUInt64.toNat) :
    left = right := by
  have unsigned : left.toUInt64 = right.toUInt64 :=
    UInt64.toNat_inj.mp equality
  simpa using congrArg UInt64.toInt64 unsigned

theorem hashStep_selfDelimiting (selfDelimiting : SelfDelimiting ndn.wire) :
    SelfDelimitingOn
      (fun entry : Bytes × Int64 => ∃ name, entry.1 = ndn.wire name)
      (fun entry => hashStep entry.1 entry.2) := by
  rintro ⟨leftName, leftSeq⟩ ⟨rightName, rightSeq⟩ leftRest rightRest
    ⟨left, rfl⟩ ⟨right, rfl⟩ equality
  simp only [hashStep, List.append_assoc] at equality
  obtain ⟨rfl, numbers⟩ := selfDelimiting _ _ _ _ equality
  obtain ⟨sameBytes, rests⟩ := List.append_inj numbers (by simp)
  have bounded (number : Int64) : number.toUInt64.toNat < 256 ^ 8 :=
    number.toUInt64.toNat_lt
  have sameSeq := toUInt64_toNat_inj
    (littleEndian_injOn (bounded leftSeq) (bounded rightSeq) sameBytes)
  exact ⟨by rw [sameSeq], rests⟩

private theorem hashStep_ne_nil (entry : Bytes × Int64) :
    hashStep entry.1 entry.2 ≠ [] := by
  intro empty
  have lengths := congrArg List.length empty
  simp [hashStep] at lengths

private theorem digestEntries_injOn (selfDelimiting : SelfDelimiting ndn.wire)
    (collisionFree : CollisionFree sha256)
    {left right : List (Bytes × Int64)}
    (leftEncoded : ∀ entry ∈ left, ∃ name, entry.1 = ndn.wire name)
    (rightEncoded : ∀ entry ∈ right, ∃ name, entry.1 = ndn.wire name)
    (equality : digestEntries sha256 left = digestEntries sha256 right) :
    left = right := by
  cases left with
  | nil =>
      cases right with
      | nil => rfl
      | cons head tail =>
          exact (collisionFree.notOrigin _ equality.symm).elim
  | cons head tail =>
      cases right with
      | nil => exact (collisionFree.notOrigin _ equality).elim
      | cons other others =>
          apply (hashStep_selfDelimiting selfDelimiting).flatMap_injOn
            hashStep_ne_nil leftEncoded rightEncoded
          exact collisionFree.injective equality

private theorem seqOf_eq_of_sortedEntries {left right : List SyncNode}
    (leftUnique : (left.map (·.deviceName)).Nodup)
    (rightUnique : (right.map (·.deviceName)).Nodup)
    (sameEntries : sortedEntries left = sortedEntries right) :
    seqOf left = seqOf right := by
  funext name
  cases stored : seqOf left name with
  | bot =>
      cases other : seqOf right name with
      | bot => rfl
      | coe value =>
          have member := (mem_sortedEntries_iff_seqOf rightUnique
            (name, value)).mpr other
          rw [← sameEntries, mem_sortedEntries_iff_seqOf leftUnique,
            stored] at member
          exact (WithBot.bot_ne_coe member).elim
  | coe value =>
      have member := (mem_sortedEntries_iff_seqOf leftUnique
        (name, value)).mpr stored
      rw [sameEntries, mem_sortedEntries_iff_seqOf rightUnique] at member
      exact member.symm

private theorem sortedEntries_encoded {rows : List SyncNode}
    (named : NamedRows ndn rows) :
    ∀ entry ∈ sortedEntries rows, ∃ name, entry.1 = ndn.wire name := by
  intro entry member
  obtain ⟨row, rowIn, rfl⟩ := mem_sortedEntries.mp member
  exact named.encoded row rowIn

theorem seqOf_eq_of_digest_eq (selfDelimiting : SelfDelimiting ndn.wire)
    (collisionFree : CollisionFree sha256) {left right : List SyncNode}
    (leftNamed : NamedRows ndn left) (rightNamed : NamedRows ndn right)
    (equality : digest sha256 left = digest sha256 right) :
    seqOf left = seqOf right := by
  rw [digest_eq, digest_eq] at equality
  apply seqOf_eq_of_sortedEntries leftNamed.unique rightNamed.unique
  exact digestEntries_injOn selfDelimiting collisionFree
    (sortedEntries_encoded leftNamed) (sortedEntries_encoded rightNamed)
    equality

/-- The bytes the aggregate collects over the sorted rows. -/
def hashed (rows : List SyncNode) : Bytes :=
  (rows.insertionSort fun left right =>
    left.deviceName ≤ right.deviceName).flatMap fun row =>
      hashStep row.deviceName row.seqNo

private theorem hashed_eq (rows : List SyncNode) :
    hashed rows =
      (sortedEntries rows).flatMap fun entry => hashStep entry.1 entry.2 := by
  have sorted : sortedEntries rows =
      (rows.insertionSort fun left right =>
        left.deviceName ≤ right.deviceName).map entryOf := by
    apply (List.map_insertionSort _ _ entryOf rows _).symm
    intro left _ right _
    exact Iff.rfl
  rw [sorted]
  simp [hashed, entryOf, List.flatMap_map]

theorem digest_of_ne_nil (sha256 : Bytes → Bytes) {rows : List SyncNode}
    (nonempty : rows ≠ []) : digest sha256 rows = sha256 (hashed rows) := by
  rw [digest_eq, hashed_eq]
  cases entries : sortedEntries rows with
  | nil =>
      have empty : rows = [] := by
        simpa [sortedEntries] using congrArg List.length entries
      exact (nonempty empty).elim
  | cons head tail => rfl

theorem seqOf_eq_of_hashed_eq (selfDelimiting : SelfDelimiting ndn.wire)
    {left right : List SyncNode} (leftNamed : NamedRows ndn left)
    (rightNamed : NamedRows ndn right)
    (equality : hashed left = hashed right) : seqOf left = seqOf right := by
  rw [hashed_eq, hashed_eq] at equality
  apply seqOf_eq_of_sortedEntries leftNamed.unique rightNamed.unique
  exact (hashStep_selfDelimiting selfDelimiting).flatMap_injOn
    hashStep_ne_nil (sortedEntries_encoded leftNamed)
    (sortedEntries_encoded rightNamed) equality

theorem digest_ne_origin (collisionFree : CollisionFree sha256)
    {rows : List SyncNode} (nonempty : rows ≠ []) :
    digest sha256 rows ≠ Hash.origin := by
  rw [digest_of_ne_nil sha256 nonempty]
  exact collisionFree.notOrigin _

end Collected

section Identity

variable {sha256 : Bytes → Bytes} {ofString : Bytes → Option Name}

/-- The collected bytes, and with a digest function without collisions the
digest, identify the map of devices, and the digest of the empty map is that
of no other. -/
theorem digest_identifies_state {left right : List SyncNode}
    (leftNamed : NamedRows (Name.ops ofString) left)
    (rightNamed : NamedRows (Name.ops ofString) right) :
    (hashed left = hashed right → seqOf left = seqOf right) ∧
    (CollisionFree sha256 →
      (digest sha256 left = digest sha256 [] ↔ seqOf left = ⊥) ∧
      (digest sha256 left = digest sha256 right ↔
        seqOf left = seqOf right)) := by
  have selfDelimiting : SelfDelimiting (Name.ops ofString).wire :=
    Name.wireEncode_selfDelimiting
  refine ⟨seqOf_eq_of_hashed_eq selfDelimiting leftNamed rightNamed, ?_⟩
  intro collisionFree
  have identified {other : List SyncNode}
      (otherNamed : NamedRows (Name.ops ofString) other) :
      digest sha256 left = digest sha256 other ↔
        seqOf left = seqOf other := by
    constructor
    · exact seqOf_eq_of_digest_eq selfDelimiting collisionFree leftNamed
        otherNamed
    · exact digest_congr leftNamed.unique otherNamed.unique
  have emptyNamed : NamedRows (Name.ops ofString) [] :=
    ⟨List.nodup_nil, nofun⟩
  exact ⟨identified emptyNamed, identified rightNamed⟩

/-- `/alex` alone and `/alex` with `/bob`, with one number each. -/
theorem digest_identifies_state_alex_bob :
    let alone : List SyncNode := [⟨1, Name.alex.wireEncode, 1, none⟩]
    let both : List SyncNode :=
      [⟨2, Name.bob.wireEncode, 1, none⟩, ⟨1, Name.alex.wireEncode, 1, none⟩]
    hashed alone ≠ hashed both ∧
      digest taggedDigest alone ≠ digest taggedDigest both ∧
      digest taggedDigest alone ≠ digest taggedDigest [] := by
  intro alone both
  have aloneNamed : NamedRows (Name.ops fun _ => none) alone :=
    ⟨by decide +kernel, by
      intro row member
      rw [List.mem_singleton.mp member]
      exact ⟨Name.alex, rfl⟩⟩
  have bothNamed : NamedRows (Name.ops fun _ => none) both :=
    ⟨by decide +kernel, by
      intro row member
      rcases List.mem_cons.mp member with rfl | later
      · exact ⟨Name.bob, rfl⟩
      · rw [List.mem_singleton.mp later]
        exact ⟨Name.alex, rfl⟩⟩
  have different : seqOf alone ≠ seqOf both := by
    intro same
    have atBob : seqOf alone Name.bob.wireEncode =
        seqOf both Name.bob.wireEncode := congrFun same _
    exact absurd atBob (by decide +kernel)
  have known : seqOf alone ≠ ⊥ := by
    intro unknown
    have atAlex : seqOf alone Name.alex.wireEncode = ⊥ := congrFun unknown _
    exact absurd atAlex (by decide +kernel)
  obtain ⟨bytes, digests⟩ :=
    @digest_identifies_state taggedDigest _ _ _ aloneNamed bothNamed
  obtain ⟨empty, digests⟩ := digests taggedDigest_collisionFree
  exact ⟨fun same => different (bytes same),
    fun same => different (digests.mp same), fun same => known (empty.mp same)⟩

end Identity

end SyncDb

end ChronoShare
