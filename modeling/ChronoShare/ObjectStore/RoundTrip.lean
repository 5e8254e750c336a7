import ChronoShare.ObjectStore.Store

/-!
# Storing a file and assembling it again

The number of segments of a file is right.  The segments are found again for no
device: the row of a segment is saved under the wire form of a name, which is
the value of no name.
-/

namespace ChronoShare

variable {Name : Type} {platform : ObjectPlatform Name}

theorem ObjectManager.length_segmentContents (memory : Memory)
    (content : Bytes) :
    (segmentContents memory content).length =
      max 1 ((content.length + 1023) / 1024) := by
  have count : (readFile content).length = (content.length + 1023) / 1024 :=
    length_pieces (by decide) content
  rw [segmentContents]
  split
  · rename_i none
    rw [none, List.length_nil] at count
    rw [← count]
    rfl
  · rename_i some
    have positive : 0 < (readFile content).length := by
      apply List.length_pos_of_ne_nil
      intro none
      exact some none
    rw [List.length_mapIdx, count]
    omega

theorem ObjectManager.localFileToObjects_count {storage after : ObjectStorage}
    {memory : Memory} {content hash : Bytes} {deviceName : Name} {count : Nat}
    (stored : localFileToObjects platform storage memory content deviceName =
      some (hash, count, after)) :
    hash = platform.sha256 content ∧
      count = max 1 ((content.length + 1023) / 1024) := by
  simp only [localFileToObjects, Option.map_eq_some_iff, Prod.mk.injEq]
    at stored
  obtain ⟨_, _, rfl, rfl, _⟩ := stored
  exact ⟨rfl, length_segmentContents memory content⟩

/-- Every row is keyed by the wire form of a name. -/
def ObjectTable.WireKeyed (ndn : NameOps Name) (table : ObjectTable) : Prop :=
  ∀ row ∈ table, ∃ name, row.deviceName = ndn.wire name

/-- The storage a fresh folder comes to hold, whatever is saved in it and
whatever files are written. -/
inductive ObjectStorage.Saved (ndn : NameOps Name) : ObjectStorage → Prop where
  | opened (files : Bytes → Option Bytes) : Saved ndn ⟨fun _ => [], files⟩
  | save {storage : ObjectStorage} (text : Bytes) (deviceName : Name)
      (segment : Nat) (contentObject : Bytes) :
      Saved ndn storage →
      Saved ndn { storage with
        tables := Function.update storage.tables text
          (ObjectDb.saveContentObject ndn (storage.tables text) deviceName
            segment contentObject) }
  | write {storage : ObjectStorage} (files : Bytes → Option Bytes) :
      Saved ndn storage → Saved ndn { storage with files := files }

variable {ndn : NameOps Name}

theorem ObjectTable.WireKeyed.saveContentObject {table : ObjectTable}
    (keyed : table.WireKeyed ndn) (deviceName : Name) (segment : Nat)
    (contentObject : Bytes) :
    ObjectTable.WireKeyed ndn
      (ObjectDb.saveContentObject ndn table deviceName segment
        contentObject) := by
  rw [ObjectDb.saveContentObject]
  split_ifs
  · exact keyed
  · intro row member
    rcases List.mem_append.mp member with earlier | new
    · exact keyed row earlier
    · rw [List.mem_singleton.mp new]
      exact ⟨deviceName, rfl⟩

theorem ObjectStorage.Saved.wireKeyed {storage : ObjectStorage}
    (saved : storage.Saved ndn) (text : Bytes) :
    (storage.tables text).WireKeyed ndn := by
  induction saved with
  | opened files =>
      intro row member
      simp at member
  | save other deviceName segment contentObject _ induction =>
      by_cases same : text = other
      · subst same
        simp only [Function.update_self]
        exact induction.saveContentObject deviceName segment contentObject
      · simp only [Function.update_of_ne same]
        exact induction
  | write files _ induction => exact induction

theorem ObjectTable.WireKeyed.saveContents {table : ObjectTable}
    (keyed : table.WireKeyed ndn) (memory : ObjectManager.Memory)
    (deviceName : Name) (contents : List Bytes) :
    ObjectTable.WireKeyed ndn
      (ObjectManager.saveContents ndn memory deviceName table contents) := by
  rw [ObjectManager.saveContents]
  generalize contents.zipIdx = entries
  induction entries generalizing table with
  | nil => exact keyed
  | cons entry entries induction =>
      rw [List.foldl_cons]
      apply induction
      exact keyed.saveContentObject deviceName _ _

theorem ObjectTable.WireKeyed.doesExist {table : ObjectTable}
    (blobs : ndn.DistinctBlobs) (keyed : table.WireKeyed ndn)
    (deviceName : Name) : ObjectDb.doesExist ndn table deviceName = false := by
  have none : table.filter
      (fun row => row.deviceName = ndn.value deviceName) = [] := by
    apply List.filter_eq_nil_iff.mpr
    intro row member
    obtain ⟨name, key⟩ := keyed row member
    rw [key]
    simpa using (blobs.wire_lt_value name deviceName).ne
  rw [ObjectDb.doesExist, none]
  rfl

namespace ObjectManager

/-- The file is cut into the right number of segments, and put together again
from them. -/
def RoundTrip (platform : ObjectPlatform Name) (storage : ObjectStorage)
    (memory : Memory) (content : Bytes) (deviceName : Name) (out : Bytes) :
    Prop :=
  ∃ count after final,
    localFileToObjects platform storage memory content deviceName =
        some (platform.sha256 content, count, after) ∧
      count = max 1 ((content.length + 1023) / 1024) ∧
      objectsToLocalFile platform after deviceName (platform.sha256 content)
        out = some (true, final) ∧
      final.files out = some content

/-- However a hash is printed, no file is put together again from the segments
it was cut into: they are not found, if the call does not throw before. -/
theorem not_roundTrip (blobs : platform.ndn.DistinctBlobs)
    {storage : ObjectStorage} (saved : storage.Saved platform.ndn)
    (memory : Memory) (content : Bytes) (deviceName : Name) (out : Bytes) :
    ¬ RoundTrip platform storage memory content deviceName out := by
  rintro ⟨count, after, final, stored, _, assembled, _⟩
  simp only [localFileToObjects, Option.map_eq_some_iff, Prod.mk.injEq]
    at stored
  obtain ⟨_, _, _, _, rfl⟩ := stored
  have keyed := (saved.wireKeyed
    (platform.hashText (platform.sha256 content))).saveContents memory
      deviceName (segmentContents memory content)
  simp only [objectsToLocalFile, Option.map_eq_some_iff, Function.update_self,
    keyed.doesExist blobs deviceName] at assembled
  obtain ⟨_, _, failed⟩ := assembled
  exact absurd (congrArg Prod.fst failed) (by simp)

def zeroMemory : Memory where
  buffer _ := List.replicate MAX_FILE_SEGMENT_SIZE 0
  beyond _ := [0, 0, 0, 0]

theorem not_roundTrip_alex :
    ¬ RoundTrip deviceObjects ⟨fun _ => [], fun _ => none⟩ zeroMemory [1, 2, 3]
      DeviceName.alex [0x66] :=
  not_roundTrip DeviceName.ops_distinctBlobs (.opened _) zeroMemory [1, 2, 3]
    DeviceName.alex [0x66]

/-- As hashes are printed, a file of three bytes is not even saved. -/
theorem small_file_not_restored :
    ¬ ∀ content, RoundTrip deviceObjects ⟨fun _ => [], fun _ => none⟩
      zeroMemory content DeviceName.alex [0x66] := by
  intro restores
  obtain ⟨count, after, final, stored, _, assembled, _⟩ := restores [1, 2, 3]
  have executed : (localFileToObjects deviceObjects
      ⟨fun _ => [], fun _ => none⟩ zeroMemory [1, 2, 3]
        DeviceName.alex).all (fun stored =>
          (objectsToLocalFile deviceObjects stored.2.2 DeviceName.alex
            stored.1 [0x66]).all fun assembled => !assembled.1) = true := by
    decide +kernel
  rw [stored, Option.all_some] at executed
  have failed := Option.all_eq_true _ _ |>.mp executed (true, final) assembled
  simp at failed

end ObjectManager

end ChronoShare
