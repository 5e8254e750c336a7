import ChronoShare.Fetcher.Pipeline
import ChronoShare.StateServer.Restore

/-!
# The content server

The server answers an interest with a segment of a file or with an action.  It
reads the name of the interest twice: as it is, when the forwarding hint is one
of its own name, and without the forwarding hint.  The packets are given to the
face in the order of the two tasks.
-/

namespace ChronoShare

namespace Name

def empty : Name :=
  ⟨[], fits_nil⟩

def size (name : Name) : Nat :=
  name.components.length

/-- `get (-index)`, which throws for a name that is too short. -/
def getFromEnd (name : Name) (index : Nat) : Option Bytes :=
  name.components.reverse[index - 1]?

def getSubName (name : Name) (start count : Nat) : Name :=
  ofComponents ((name.components.drop start).take count)

/-- `toNumber ()`, which throws for another number of bytes. -/
def toNumber (component : Bytes) : Option UInt64 :=
  if component.length ∈ [1, 2, 4, 8] then
    some (UInt64.ofNat
      (component.foldl (fun number byte => 256 * number + byte.toNat) 0))
  else
    none

end Name

/-- The bytes from the value of a component on, as many as the whole component
has: they run on into the memory behind the value, `beyond`. -/
def boundComponent (component beyond : Bytes) : Bytes :=
  component ++
    beyond.take ((encodeTlv 0x08 component).length - component.length)

/-- The server, with the databases by the text of their hash and the hashes of
the databases it has opened. -/
structure ContentServer where
  actionLog : ActionLog Name
  tables : Bytes → ObjectTable
  dbCache : List Bytes
  freshness : Int32
  userName : Name
  sharedFolderName : Bytes
  appName : Bytes

namespace ContentServer

variable (platform : DispatcherPlatform Name) (server : ContentServer)

/-- The text `file`. -/
def fileComponent : Bytes :=
  [0x66, 0x69, 0x6C, 0x65]

/-- Seconds for which the packet stays fresh, if the server has set them. -/
def freshnessPeriod : Nat :=
  if 0 < server.freshness then server.freshness.toInt.toNat else 0

/-- Without a forwarding hint the packet is left without a name. -/
def segmentData (forwardingHint interest : Name) (co : Bytes) : Data Name :=
  if forwardingHint.size = 0 then
    ⟨.empty, 0, co⟩
  else
    ⟨interest, server.freshnessPeriod, co⟩

/-- The packet that is put, if any, and the opened databases; the outer `none`
is an exception. -/
def serveFileExecute (beyond : Bytes) (forwardingHint name interest : Name) :
    Option (Option (Data Name) × ContentServer) := do
  let segment ← Name.toNumber (← name.getFromEnd 1)
  let deviceName := name.getSubName 0 (name.size - 4)
  let hash := boundComponent (← name.getFromEnd 2) beyond
  let hashStr := platform.hashText hash
  let table := server.tables hashStr
  let served := (ObjectDb.fetchSegment platform.ndn table deviceName
    segment.toNat).map (server.segmentData forwardingHint interest)
  if hash ∈ server.dbCache then
    some (served, server)
  else
    (ObjectDb.location hashStr).map fun _ =>
      if ObjectDb.doesExist platform.ndn table deviceName then
        (served, { server with dbCache := hash :: server.dbCache })
      else
        (none, server)

/-- Without a forwarding hint the stored packet itself is put. -/
def serveActionExecute (forwardingHint name interest : Name) :
    Option (Option (Data Name) × ContentServer) := do
  let seqno ← Name.toNumber (← name.getFromEnd 1)
  let deviceName := name.getSubName 0 (name.size - 4)
  let dataObject ← ActionLog.lookupActionPco platform.toActionPlatform
    server.actionLog deviceName seqno.toInt64
  some (dataObject.map fun dataObject =>
    if forwardingHint.size = 0 then
      dataObject
    else
      ⟨interest, server.freshnessPeriod, dataObject.content⟩, server)

def filterAndServeImpl (beyond : Bytes) (forwardingHint name interest : Name) :
    Option (Option (Data Name) × ContentServer) :=
  if 4 ≤ name.size ∧
      (name.getFromEnd 4).map Uri.toUri = some server.appName then
    let type := (name.getFromEnd 3).map Uri.toUri
    if type = some fileComponent then
      serveFileExecute platform server beyond forwardingHint name interest
    else if type = some ActionLog.actionComponent ∧
        (name.getFromEnd 2).map Uri.toUri = some server.sharedFolderName then
      serveActionExecute platform server forwardingHint name interest
    else
      some (none, server)
  else
    some (none, server)

/-- The names under which an interest is looked up, with their forwarding
hints. -/
def lookups (forwardingHint interest : Name) : List (Name × Name) :=
  (if 0 < forwardingHint.size ∧
      forwardingHint.components <+: server.userName.components then
    [(.empty, interest)]
  else
    []) ++
  [(forwardingHint,
    interest.getSubName forwardingHint.size
      (interest.size - forwardingHint.size))]

/-- The packets that are put for an interest; an exception ends the thread of
the scheduler. -/
def filterAndServe (beyond : Bytes) (forwardingHint interest : Name) :
    List (Data Name) :=
  go server (lookups server forwardingHint interest)
where
  go (server : ContentServer) : List (Name × Name) → List (Data Name)
    | [] => []
    | (hint, name) :: later =>
        match filterAndServeImpl platform server beyond hint name interest with
        | none => []
        | some (data, server) => data.toList ++ go server later

end ContentServer

end ChronoShare
