import ChronoShare.ObjectStore.Store
import Mathlib.Data.List.Perm.Subperm
import Mathlib.Data.Nat.Find

/-!
# Assembling a file whose segments are partly stored

The test before the assembly counts the rows that are there, and the loop stops
at the first number that is not.  The file that is written is therefore the
part of the content before the first missing segment.
-/

namespace ChronoShare

namespace ObjectManager

variable {Name : Type}

/-- The segments of a file: the pieces of its content, and a single empty one
for an empty file. -/
def segments (content : Bytes) : List Bytes :=
  match readFile content with
  | [] => [[]]
  | read => read

/-- Of the segments of a file the table holds those of the given numbers for a
device, each exactly as it is in the file. -/
structure HoldsSubset (ndn : NameOps Name) (table : ObjectTable)
    (deviceName : Name) (content : Bytes) (subset : List Nat) : Prop where
  inFile : ∀ index ∈ subset, index < (segments content).length
  stored : ∀ index ∈ subset, ∃ row ∈ table,
    row.deviceName = ndn.value deviceName ∧ row.segment = index
  exact : ∀ row ∈ table, row.deviceName = ndn.value deviceName →
    row.segment ∈ subset ∧ row.contentObject = (segments content)[row.segment]?

/-- A result of true means that the file holds the whole content, and a result
of false that no file has changed. -/
def Intact (platform : ObjectPlatform Name) (storage : ObjectStorage)
    (deviceName : Name) (hash file content : Bytes) : Prop :=
  ∀ ok final, objectsToLocalFile platform storage deviceName hash file =
      some (ok, final) →
    (ok = true → final.files file = some content) ∧
      (ok = false → final.files = storage.files)

theorem segments_eq_readFile {content : Bytes}
    (some : readFile content ≠ []) : segments content = readFile content := by
  rw [segments]
  split
  · rename_i none
    exact absurd none some
  · rfl

theorem segments_ne_nil (content : Bytes) : segments content ≠ [] := by
  rw [segments]
  split
  · exact List.cons_ne_nil _ _
  · next some => exact some

theorem flatten_segments (content : Bytes) :
    (segments content).flatten = content := by
  have joined : (readFile content).flatten = content :=
    flatten_pieces (by decide) content
  by_cases none : readFile content = []
  · rw [segments, none]
    rw [none] at joined
    exact joined
  · rw [segments_eq_readFile none, joined]

theorem ne_nil_of_mem_segments {content segment : Bytes}
    (several : 1 < (segments content).length)
    (member : segment ∈ segments content) : segment ≠ [] := by
  have some : readFile content ≠ [] := by
    intro none
    rw [segments, none] at several
    exact absurd several (by decide)
  have positive : 0 < MAX_FILE_SEGMENT_SIZE := by decide
  rw [segments_eq_readFile some] at member
  exact ne_nil_of_mem_pieces positive member

theorem flatten_take_segments {content : Bytes} {first : Nat}
    (several : 1 < (segments content).length)
    (short : first < (segments content).length) :
    ((segments content).take first).flatten ≠ content := by
  intro same
  have split : ((segments content).take first).flatten ++
      ((segments content).drop first).flatten = content := by
    rw [← List.flatten_append, List.take_append_drop, flatten_segments]
  rw [same] at split
  have nothing := List.append_right_eq_self.mp split
  have last : (segments content)[first] ∈ (segments content).drop first := by
    rw [← List.getElem_cons_drop short]
    exact List.mem_cons_self
  have empty := List.flatten_eq_nil_iff.mp nothing _ last
  exact ne_nil_of_mem_segments several (List.getElem_mem short) empty

section Holds

variable {ndn : NameOps Name} {table : ObjectTable} {deviceName : Name}
  {content : Bytes} {subset : List Nat}

theorem HoldsSubset.fetchSegment
    (holds : HoldsSubset ndn table deviceName content subset) (index : Nat) :
    ObjectDb.fetchSegment ndn table deviceName index =
      if index ∈ subset then (segments content)[index]? else none := by
  rw [ObjectDb.fetchSegment]
  split_ifs with member
  · obtain ⟨row, stored, keyed, numbered⟩ := holds.stored index member
    cases found : table.find? fun row =>
        row.deviceName = ndn.value deviceName ∧ row.segment = index with
    | none =>
        have absent := List.find?_eq_none.mp found row stored
        simp [keyed, numbered] at absent
    | some other =>
        have matching := List.find?_some found
        simp only [decide_eq_true_eq] at matching
        have known := (holds.exact other (List.mem_of_find?_eq_some found)
          matching.1).2
        rw [matching.2, List.getElem?_eq_getElem (holds.inFile index member)]
          at known
        rw [List.getElem?_eq_getElem (holds.inFile index member),
          Option.map_some, known, Option.getD_some]
  · apply Option.map_eq_none_iff.mpr
    apply List.find?_eq_none.mpr
    intro row stored matching
    simp only [decide_eq_true_eq] at matching
    apply member
    rw [← matching.2]
    exact (holds.exact row stored matching.1).1

theorem HoldsSubset.doesExist
    (holds : HoldsSubset ndn table deviceName content subset) :
    ObjectDb.doesExist ndn table deviceName = true ↔ subset ≠ [] := by
  have filled : ∀ row ∈ table.filter
      (fun row => row.deviceName = ndn.value deviceName),
      row.contentObject.isSome = true := by
    intro row member
    obtain ⟨stored, keyed⟩ := List.mem_filter.mp member
    obtain ⟨numbered, known⟩ := holds.exact row stored (by simpa using keyed)
    rw [known, List.getElem?_eq_getElem (holds.inFile _ numbered)]
    rfl
  rw [ObjectDb.doesExist, List.filter_eq_self.mpr filled]
  simp only [beq_self_eq_true, Bool.and_true, decide_eq_true_eq]
  constructor
  · intro some none
    obtain ⟨row, member⟩ := List.exists_mem_of_length_pos some
    obtain ⟨stored, keyed⟩ := List.mem_filter.mp member
    have numbered := (holds.exact row stored (by simpa using keyed)).1
    rw [none] at numbered
    simp at numbered
  · intro some
    obtain ⟨index, member⟩ := List.exists_mem_of_ne_nil subset some
    obtain ⟨row, stored, keyed, _⟩ := holds.stored index member
    apply List.length_pos_of_mem
    exact List.mem_filter.mpr ⟨stored, by simpa using keyed⟩

theorem HoldsSubset.fetchFrom
    (holds : HoldsSubset ndn table deviceName content subset) {first : Nat}
    (present : ∀ index < first, index ∈ subset) (missing : first ∉ subset)
    {fuel start : Nat} (within : start ≤ first) (enough : first < start + fuel) :
    fetchFrom ndn table deviceName fuel start =
      (((segments content).take first).drop start).flatten := by
  induction fuel generalizing start with
  | zero => omega
  | succ fuel induction =>
      rw [ObjectManager.fetchFrom, holds.fetchSegment]
      rcases Nat.lt_or_ge start first with before | reached
      · have member := present start before
        have bound := holds.inFile start member
        have inside : start < ((segments content).take first).length := by
          rw [List.length_take]
          omega
        rw [if_pos member, List.getElem?_eq_getElem bound]
        simp only
        rw [induction before (by omega), ← List.getElem_cons_drop inside,
          List.flatten_cons, List.getElem_take]
      · obtain rfl : start = first := by omega
        rw [if_neg missing, List.drop_eq_nil_of_le (List.length_take_le _ _)]
        rfl

theorem HoldsSubset.first_le_length
    (holds : HoldsSubset ndn table deviceName content subset) {first : Nat}
    (present : ∀ index < first, index ∈ subset) : first ≤ table.length := by
  have found : List.range first ⊆ table.map ObjectRow.segment := by
    intro index member
    obtain ⟨row, stored, _, numbered⟩ :=
      holds.stored index (present index (List.mem_range.mp member))
    exact List.mem_map.mpr ⟨row, stored, numbered⟩
  have count := (List.nodup_range.subperm found).length_le
  rw [List.length_range, List.length_map] at count
  exact count

theorem HoldsSubset.exists_first
    (holds : HoldsSubset ndn table deviceName content subset) :
    ∃ first ≤ (segments content).length,
      (∀ index < first, index ∈ subset) ∧ first ∉ subset := by
  have missing : ∃ index, index ∉ subset := by
    refine ⟨(segments content).length, ?_⟩
    intro member
    exact absurd (holds.inFile _ member) (Nat.lt_irrefl _)
  refine ⟨Nat.find missing, ?_, ?_, Nat.find_spec missing⟩
  · apply Nat.find_min'
    intro member
    exact absurd (holds.inFile _ member) (Nat.lt_irrefl _)
  · intro index before
    exact not_not.mp (Nat.find_min missing before)

end Holds

variable {platform : ObjectPlatform Name} {storage : ObjectStorage}
  {deviceName : Name} {hash file content : Bytes} {subset : List Nat}

/-- The part of the content before the first missing segment is the whole
content only if no segment is missing. -/
theorem HoldsSubset.flatten_take_eq_iff {ndn : NameOps Name}
    {table : ObjectTable}
    (holds : HoldsSubset ndn table deviceName content subset)
    (some : subset ≠ []) {first : Nat}
    (within : first ≤ (segments content).length)
    (present : ∀ index < first, index ∈ subset) (missing : first ∉ subset) :
    ((segments content).take first).flatten = content ↔
      ∀ index < (segments content).length, index ∈ subset := by
  constructor
  · intro same index bound
    apply present index
    by_contra short
    have before : first < (segments content).length := by omega
    have several : 1 < (segments content).length := by
      obtain ⟨other, member⟩ := List.exists_mem_of_ne_nil subset some
      have inFile := holds.inFile other member
      by_contra single
      obtain ⟨rfl, rfl⟩ : other = 0 ∧ first = 0 := by omega
      exact missing member
    exact flatten_take_segments several before same
  · intro all
    have last : first = (segments content).length := by
      by_contra other
      exact missing (all first (by omega))
    rw [last, List.take_length, flatten_segments]

theorem HoldsSubset.objectsToLocalFile
    (holds : HoldsSubset platform.ndn
      (storage.tables (platform.hashText hash)) deviceName content subset)
    {first : Nat} (present : ∀ index < first, index ∈ subset)
    (missing : first ∉ subset) {location : Bytes × Bytes}
    (located : ObjectDb.location (platform.hashText hash) = some location) :
    objectsToLocalFile platform storage deviceName hash file =
      if subset = [] then some (false, storage)
      else some (true, { storage with
        files := Function.update storage.files file
          (some ((segments content).take first).flatten) }) := by
  have enough := Nat.lt_succ_of_le (holds.first_le_length present)
  have bytes := holds.fetchFrom present missing (Nat.zero_le first)
    (enough.trans_le (Nat.le_of_eq (Nat.zero_add _).symm))
  rw [List.drop_zero] at bytes
  simp only [ObjectManager.objectsToLocalFile, located, Option.map_some, bytes]
  by_cases none : subset = []
  · have absent : ObjectDb.doesExist platform.ndn
        (storage.tables (platform.hashText hash)) deviceName = false := by
      apply Bool.eq_false_iff.mpr
      intro exists_
      exact holds.doesExist.mp exists_ none
    simp [absent, none]
  · simp [holds.doesExist.mpr none, none]

/-- The assembly is intact exactly if none or all of the segments are stored,
or if the hash is printed as a text that names no database. -/
theorem intact_iff
    (holds : HoldsSubset platform.ndn
      (storage.tables (platform.hashText hash)) deviceName content subset) :
    Intact platform storage deviceName hash file content ↔
      ObjectDb.location (platform.hashText hash) = none ∨ subset = [] ∨
        ∀ index < (segments content).length, index ∈ subset := by
  obtain ⟨first, within, present, missing⟩ := holds.exists_first
  cases located : ObjectDb.location (platform.hashText hash) with
  | none => simp [Intact, objectsToLocalFile, located]
  | some location =>
      have result : objectsToLocalFile platform storage deviceName hash file =
          _ := holds.objectsToLocalFile present missing located
      by_cases none : subset = []
      · rw [if_pos none] at result
        simp [Intact, result, none]
      · rw [if_neg none] at result
        have whole := holds.flatten_take_eq_iff none within present missing
        simp [Intact, result, none, ← whole]

/-- A file that fills one segment and starts a second. -/
def twoPieces : Bytes :=
  List.replicate MAX_FILE_SEGMENT_SIZE 1 ++ [2]

/-- The table of a fetch that was interrupted after the first segment. -/
def firstPiece : ObjectTable :=
  [⟨DeviceName.ops.value DeviceName.alex, 0,
    some (List.replicate MAX_FILE_SEGMENT_SIZE 1)⟩]

theorem firstPiece_holds :
    HoldsSubset DeviceName.ops firstPiece DeviceName.alex twoPieces [0] where
  inFile := by decide +kernel
  stored := by decide +kernel
  exact := by decide +kernel

end ObjectManager

end ChronoShare
