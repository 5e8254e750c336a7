import ChronoShare.Ndn.Uri
import ChronoShare.SyncLog.Store
import ChronoShare.Support.Pieces
import Mathlib.Logic.Function.Basic

/-!
# Segments in databases

The segments of a file are kept in a database that is named by the hash of the
file.  Saving binds the wire form of the device name as the key, and looking up
binds its value.
-/

namespace ChronoShare

structure ObjectRow where
  deviceName : Bytes
  segment : Nat
  contentObject : Option Bytes
  deriving DecidableEq, Repr

abbrev ObjectTable := List ObjectRow

/-- What the store takes from its libraries: names, the digest function, and
the text that a hash is printed as, which names its database. -/
structure ObjectPlatform (Name : Type) where
  ndn : NameOps Name
  sha256 : Bytes → Bytes
  hashText : Bytes → Bytes

/-- The blob bound with the value of a content block but the size of the whole
block: it runs on into the memory behind the value, `beyond`, by the length of
the header. -/
def boundContent (content beyond : Bytes) : Bytes :=
  content ++ beyond.take ((encodeTlv 0x15 content).length - content.length)

/-- The databases by the text of the hash, and the files by their path. -/
structure ObjectStorage where
  tables : Bytes → ObjectTable
  files : Bytes → Option Bytes

namespace ObjectDb

variable {Name : Type} (ndn : NameOps Name)

/-- The folder and the file of a database; `none` is the exception for a shorter
text.  With two characters the file is the folder itself: opening it throws as
well, while `DoesExist` would return false. -/
def location (text : Bytes) : Option (Bytes × Bytes) :=
  if text.length ≤ 2 then none else some (text.take 2, text.drop 2)

@[simp] theorem location_printed (hash : Hash) :
    location hash.printed = none := rfl

/-- A row with the same key makes the statement fail, which nobody reads. -/
def saveContentObject (table : ObjectTable) (deviceName : Name)
    (segment : Nat) (contentObject : Bytes) : ObjectTable :=
  let key := ndn.wire deviceName
  if table.any fun row => row.deviceName = key ∧ row.segment = segment then
    table
  else
    table ++ [⟨key, segment, some contentObject⟩]

/-- A column that is NULL reads as a buffer without bytes. -/
def fetchSegment (table : ObjectTable) (deviceName : Name) (segment : Nat) :
    Option Bytes :=
  (table.find? fun row =>
    row.deviceName = ndn.value deviceName ∧ row.segment = segment).map
      fun row => row.contentObject.getD []

/-- All rows of the device, and there is one, have a content. -/
def doesExist (table : ObjectTable) (deviceName : Name) : Bool :=
  let rows := table.filter fun row => row.deviceName = ndn.value deviceName
  let countNonNull := (rows.filter fun row => row.contentObject.isSome).length
  0 < rows.length && rows.length == countNonNull

end ObjectDb

namespace ObjectManager

variable {Name : Type} (platform : ObjectPlatform Name)

def MAX_FILE_SEGMENT_SIZE : Nat := 1024

/-- What the reads of a file yield, one by one. -/
def readFile (content : Bytes) : List Bytes :=
  pieces MAX_FILE_SEGMENT_SIZE content

/-- The buffer after a read: behind the piece it holds what it held before. -/
def fillBuffer (buffer piece : Bytes) : Bytes :=
  piece ++ (buffer.drop piece.length).take
    (MAX_FILE_SEGMENT_SIZE - piece.length)

/-- The memory a call meets: the uninitialized buffer of each round, and the
bytes behind the content block of each round. -/
structure Memory where
  buffer : Nat → Bytes
  beyond : Nat → Bytes

/-- The contents that are set on the packets: the whole buffer in each round,
and a single empty content for an empty file. -/
def segmentContents (memory : Memory) (content : Bytes) : List Bytes :=
  match readFile content with
  | [] => [[]]
  | read => read.mapIdx fun index piece =>
      fillBuffer (memory.buffer index) piece

/-- Saves the contents under consecutive numbers. -/
def saveContents (ndn : NameOps Name) (memory : Memory) (deviceName : Name)
    (table : ObjectTable) (contents : List Bytes) : ObjectTable :=
  contents.zipIdx.foldl (fun table entry =>
    ObjectDb.saveContentObject ndn table deviceName entry.2
      (boundContent entry.1 (memory.beyond entry.2))) table

/-- The hash of the file, the number of segments, and the databases after the
call; `none` when the database has no location. -/
def localFileToObjects (storage : ObjectStorage) (memory : Memory)
    (content : Bytes) (deviceName : Name) :
    Option (Bytes × Nat × ObjectStorage) :=
  let hash := platform.sha256 content
  let text := platform.hashText hash
  (ObjectDb.location text).map fun _ =>
    let contents := segmentContents memory content
    (hash, contents.length, { storage with
      tables := Function.update storage.tables text
        (saveContents platform.ndn memory deviceName (storage.tables text)
          contents) })

/-- The segments from a number on, up to the first that is missing. -/
def fetchFrom (ndn : NameOps Name) (table : ObjectTable) (deviceName : Name) :
    Nat → Nat → Bytes
  | 0, _ => []
  | fuel + 1, segment =>
      match ObjectDb.fetchSegment ndn table deviceName segment with
      | none => []
      | some bytes => bytes ++ fetchFrom ndn table deviceName fuel (segment + 1)

/-- A table has a segment more than rows at most.  The file is taken as one that
can be opened: one that cannot be would be reported as written, too. -/
def objectsToLocalFile (storage : ObjectStorage) (deviceName : Name)
    (fileHash file : Bytes) : Option (Bool × ObjectStorage) :=
  let text := platform.hashText fileHash
  (ObjectDb.location text).map fun _ =>
    let table := storage.tables text
    if ObjectDb.doesExist platform.ndn table deviceName then
      let bytes := fetchFrom platform.ndn table deviceName (table.length + 1) 0
      (true, { storage with
        files := Function.update storage.files file (some bytes) })
    else
      (false, storage)

end ObjectManager

def hexDigit (number : Nat) : UInt8 :=
  if number < 10 then UInt8.ofNat (0x30 + number)
  else UInt8.ofNat (0x57 + number)

/-- Two digits for every byte, as the statement of `operator <<` that is
commented out would print them. -/
def hexText (hash : Bytes) : Bytes :=
  hash.flatMap fun byte =>
    [hexDigit (byte.toNat / 16), hexDigit (byte.toNat % 16)]

/-- The store of devices whose names are not empty, with hashes as they are
printed: none of them names a database. -/
def deviceObjects : ObjectPlatform DeviceName where
  ndn := DeviceName.ops
  sha256 := taggedDigest
  hashText := Hash.printed

end ChronoShare
