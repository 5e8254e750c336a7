import ChronoShare.ContentServer.Routing

/-!
# The hash in the base name of a file

The fetching side passes the bytes of the hash as a C string, the publisher as
a counted buffer.  All readers take the value of the component with the size of
the whole component, and so with bytes from the memory behind it.
-/

namespace ChronoShare

/-- The hash made from `value ()` and `size ()` of a component, whatever the
memory behind the value holds. -/
def readHash (component : Bytes) (memory : Nat → UInt8) : Bytes :=
  boundComponent component
    ((List.range (encodeTlv 0x08 component).length).map memory)

theorem length_readHash (component : Bytes) (memory : Nat → UInt8) :
    (readHash component memory).length =
      (encodeTlv 0x08 component).length := by
  have longer := length_lt_encodeTlv 0x08 component
  simp only [readHash, boundComponent, List.length_append, List.length_take,
    List.length_map, List.length_range]
  omega

theorem readHash_ne (component : Bytes) (memory : Nat → UInt8) :
    readHash component memory ≠ component := by
  intro same
  have longer := length_lt_encodeTlv 0x08 component
  rw [← length_readHash component memory, same] at longer
  exact lt_irrefl _ longer

/-- `/<device_name>/<appname>/file/<component>`. -/
def fileName (appName : Bytes) (deviceName : Name) (component : Bytes) :
    Name :=
  .ofComponents (deviceName.components ++
    [appName, ContentServer.fileComponent, component])

namespace Dispatcher

/-- The base name that is fetched.  The buffer of the hash is appended as a
C string, which may go on into the memory behind it. -/
def fileNameBase (appName : Bytes) (deviceName : Name)
    (hash behind : Bytes) : Name :=
  fileName appName deviceName (cString (hash ++ behind))

/-- The hash that `Did_FetchManager_FileSegmentFetch_Execute` and
`Did_FetchManager_FileFetchComplete_Execute` take from a base name. -/
def hashOfBaseName (fileBaseName : Name) (memory : Nat → UInt8) :
    Option Bytes :=
  (fileBaseName.getFromEnd 1).map fun component => readHash component memory

end Dispatcher

namespace ObjectManager

/-- The name of a segment of a file that is not empty. -/
def segmentName (appName : Bytes) (deviceName : Name) (hash : Bytes)
    (segment : UInt64) : Name :=
  .ofComponents ((fileName appName deviceName hash).components ++
    [Name.encodeNumber segment])

end ObjectManager

namespace ContentServer

/-- The hash that `serve_File_Execute` takes from the name of a segment. -/
def hashOfSegmentName (name : Name) (memory : Nat → UInt8) : Option Bytes :=
  (name.getFromEnd 2).map fun component => readHash component memory

end ContentServer

/-- The publisher names the segments under the base name that is fetched. -/
def Published (appName : Bytes) (deviceName : Name) (hash behind : Bytes) :
    Prop :=
  ∀ segment : UInt64,
    (ObjectManager.segmentName appName deviceName hash segment).components =
      (Dispatcher.fileNameBase appName deviceName hash behind).components ++
        [Name.encodeNumber segment]

/-- The hash survives the names: the publisher uses the same base name, and the
readers take the hash back from it, each with its own memory. -/
structure HashKept (appName : Bytes) (deviceName : Name)
    (hash behind : Bytes) (fetched completed requested : Nat → UInt8) :
    Prop where
  segmentFetch : Dispatcher.hashOfBaseName
    (Dispatcher.fileNameBase appName deviceName hash behind) fetched =
      some hash
  fileFetchComplete : Dispatcher.hashOfBaseName
    (Dispatcher.fileNameBase appName deviceName hash behind) completed =
      some hash
  published : Published appName deviceName hash behind
  served : ∀ (segment : UInt64) (name : Name),
    name.components =
      (Dispatcher.fileNameBase appName deviceName hash behind).components ++
        [Name.encodeNumber segment] →
    ContentServer.hashOfSegmentName name requested = some hash

theorem cString_append_eq_iff {hash behind : Bytes} :
    cString (hash ++ behind) = hash ↔
      0 ∉ hash ∧ ∀ next ∈ behind.head?, next = 0 := by
  constructor
  · intro same
    have plain : 0 ∉ hash := by
      intro zero
      rw [← same] at zero
      have kept := List.mem_takeWhile_imp zero
      simp at kept
    refine ⟨plain, ?_⟩
    intro next isNext
    obtain ⟨rest, rfl⟩ := List.head?_eq_some_iff.mp isNext
    by_contra nonzero
    rw [cString, List.takeWhile_append_of_pos (by
      intro byte member
      exact decide_eq_true fun zero => plain (zero ▸ member)),
      List.takeWhile_cons_of_pos (by simpa using nonzero)] at same
    simp at same
  · rintro ⟨plain, ends⟩
    rw [cString, List.takeWhile_append_of_pos (by
      intro byte member
      exact decide_eq_true fun zero => plain (zero ▸ member))]
    cases behind with
    | nil => simp
    | cons next rest => simp [ends next rfl]

theorem Published.components_eq {appName : Bytes} {deviceName : Name}
    {hash behind : Bytes}
    (published : Published appName deviceName hash behind) :
    (Dispatcher.fileNameBase appName deviceName hash behind).components =
      (fileName appName deviceName hash).components := by
  have named := published 0
  rw [ObjectManager.segmentName, Name.ofComponents] at named
  split_ifs at named with fits
  · exact (List.append_cancel_right named).symm
  · simp at named

theorem getFromEnd_fileName {appName : Bytes} {deviceName : Name}
    {component last : Bytes}
    (isLast : (fileName appName deviceName component).getFromEnd 1 =
      some last) : last = component := by
  rw [fileName, Name.ofComponents] at isLast
  split_ifs at isLast with fits
  · simpa [Name.getFromEnd] using isLast.symm
  · simp [Name.getFromEnd] at isLast

theorem published_iff {appName : Bytes} {deviceName : Name}
    {hash behind : Bytes}
    (fits : ∀ number : UInt64, (encodeComponents (deviceName.components ++
      [appName, ContentServer.fileComponent, hash,
        Name.encodeNumber number])).length < 2 ^ 64)
    (shorter : (encodeComponents (deviceName.components ++
      [appName, ContentServer.fileComponent,
        cString (hash ++ behind)])).length < 2 ^ 64) :
    Published appName deviceName hash behind ↔
      0 ∉ hash ∧ ∀ next ∈ behind.head?, next = 0 := by
  have front : (encodeComponents (deviceName.components ++
      [appName, ContentServer.fileComponent, hash])).length < 2 ^ 64 := by
    apply lt_of_le_of_lt
      (@ActionLog.encodeComponents_prefix _ [Name.encodeNumber 0])
    simpa using fits 0
  have hashName : (fileName appName deviceName hash).components =
      deviceName.components ++
        [appName, ContentServer.fileComponent, hash] :=
    Name.components_ofComponents front
  have baseName : (Dispatcher.fileNameBase appName deviceName hash
      behind).components = deviceName.components ++
        [appName, ContentServer.fileComponent, cString (hash ++ behind)] :=
    Name.components_ofComponents shorter
  rw [← cString_append_eq_iff]
  constructor
  · intro published
    have same := published.components_eq
    rw [hashName, baseName] at same
    simpa using same
  · intro same number
    rw [ObjectManager.segmentName, hashName, baseName, same]
    apply Name.components_ofComponents
    simpa using fits number

/-- No hash survives: where the base names agree, the readers take more than
the hash. -/
theorem hash_never_kept (appName : Bytes) (deviceName : Name)
    (hash behind : Bytes) (fetched completed requested : Nat → UInt8) :
    ¬ HashKept appName deviceName hash behind fetched completed requested := by
  intro kept
  obtain ⟨last, isLast, read⟩ := Option.map_eq_some_iff.mp kept.segmentFetch
  have isHash : last = hash := by
    apply @getFromEnd_fileName appName deviceName
    rw [← isLast, Name.getFromEnd, Name.getFromEnd,
      kept.published.components_eq]
  rw [isHash] at read
  exact readHash_ne hash fetched read

/-- A hash that is published and fetched under one name is read back with two
more bytes. -/
theorem hash_read_with_header :
    let base := Dispatcher.fileNameBase [0x61, 0x70, 0x70] Name.alex [7, 9] [0]
    base.components = (fileName [0x61, 0x70, 0x70] Name.alex
        [7, 9]).components ∧
      Dispatcher.hashOfBaseName base (fun _ => 0) = some [7, 9, 0, 0] ∧
      ¬ HashKept [0x61, 0x70, 0x70] Name.alex [7, 9] [0] (fun _ => 0)
        (fun _ => 0) (fun _ => 0) := by
  have read : Dispatcher.hashOfBaseName
      (Dispatcher.fileNameBase [0x61, 0x70, 0x70] Name.alex [7, 9] [0])
        (fun _ => 0) = some [7, 9, 0, 0] := by
    decide
  refine ⟨by decide, read, ?_⟩
  intro kept
  have other := kept.segmentFetch
  rw [read] at other
  exact absurd other (by decide)

end ChronoShare
