import ChronoShare.SyncLog.Exchange

/-!
# The synchronization core

One node's view of the shared state: the log, and the hash of the state it
last remembered.  Handlers return the new state with the effects they have on
the face, the scheduler and the callback.  A handler that throws returns
`none`.
-/

namespace ChronoShare

/-- What the core takes from its libraries: names, the digest function, the
compressed message format, and what it reads of the name of an interest. -/
structure Platform (Name : Type) where
  ndn : NameOps Name
  sha256 : Bytes → Bytes
  serializeGZipMsg : SyncStateMsg → Bytes
  deserializeGZipMsg : Bytes → Option SyncStateMsg
  size : Name → Nat
  componentUri : Name → Nat → Bytes
  lastHash : Name → Hash

structure Data (Name : Type) where
  name : Name
  freshnessPeriod : Nat
  content : Bytes
  deriving DecidableEq, Repr

inductive Effect (Name : Type) where
  | put (data : Data Name)
  | stateMsgCallback (diff : SyncStateMsg)
  | scheduleSyncInterest
  | scheduleRecover (hash : Hash)
  deriving DecidableEq, Repr

structure SyncCore (Name : Type) where
  log : SyncLog Name
  syncPrefix : Name
  rootHash : Hash

namespace SyncCore

/-- The text `RECOVER`. -/
def RECOVER : Bytes :=
  [0x52, 0x45, 0x43, 0x4F, 0x56, 0x45, 0x52]

/-- Seconds for which published data stays fresh. -/
def FRESHNESS : Nat := 2

variable {Name : Type} (platform : Platform Name)

/-- `m_rootHash = m_log->RememberStateInStateLog ()`. -/
def rememberRoot (core : SyncCore Name) : SyncCore Name :=
  let remembered := core.log.rememberStateInStateLog platform.sha256
  { core with log := remembered.2, rootHash := remembered.1 }

def construct (log : SyncLog Name) (localPrefix syncPrefix : Name) :
    SyncCore Name :=
  let remembered := log.rememberStateInStateLog platform.sha256
  { log := remembered.2.updateLocalLocator platform.ndn localPrefix
    syncPrefix
    rootHash := remembered.1 }

/-- The packet a handler composes for a message. -/
def composeData (name : Name) (msg : SyncStateMsg) : Data Name :=
  ⟨name, FRESHNESS, platform.serializeGZipMsg msg⟩

def localStateChanged (core : SyncCore Name) :
    SyncCore Name × List (Effect Name) :=
  let oldHash := core.rootHash
  let renewed := core.rememberRoot platform
  let msg := renewed.log.db.findStateDifferences oldHash renewed.rootHash
  let syncName := platform.ndn.append core.syncPrefix oldHash
  (renewed, [.put (composeData platform syncName msg), .scheduleSyncInterest])

def updateLocalState (core : SyncCore Name) (seqNo : Int64) :
    SyncCore Name × List (Effect Name) :=
  localStateChanged platform
    { core with log := core.log.updateLocalSeqNo seqNo }

/-- The packet composed for a recovery interest goes out of scope: unlike
`localStateChanged`, the handler never hands it to the face. -/
def handleRecoverInterest (core : SyncCore Name) (name : Name) :
    List (Effect Name) :=
  let hash := platform.lastHash name
  if 0 < core.log.db.lookupSyncLog hash then
    let msg := core.log.db.findStateDifferences Hash.origin core.rootHash
    let _data := composeData platform name msg
    []
  else
    []

/-- As for a recovery interest, the packet composed for a known hash is not
handed to the face. -/
def handleSyncInterest (core : SyncCore Name) (name : Name) :
    List (Effect Name) :=
  let hash := platform.lastHash name
  if hash = core.rootHash then
    []
  else if 0 < core.log.db.lookupSyncLog hash then
    let msg := core.log.db.findStateDifferences hash core.rootHash
    let _data := composeData platform name msg
    []
  else
    [.scheduleRecover hash]

def handleInterest (core : SyncCore Name) (name : Name) :
    List (Effect Name) :=
  let size := platform.size name
  let prefixSize := platform.size core.syncPrefix
  if size = prefixSize + 1 then
    core.handleSyncInterest platform name
  else if size = prefixSize + 2 ∧
      platform.componentUri name prefixSize = RECOVER then
    core.handleRecoverInterest platform name
  else
    []

/-- One turn of the loop of `handleStateData`; it throws when a name cannot be
built. -/
def applyState (ndn : NameOps Name) (log : SyncLog Name) (state : SyncState) :
    Option (SyncLog Name) :=
  match ndn.ofString state.name with
  | none => none
  | some deviceName =>
      match state.type with
      | .update =>
          let updated := log.updateDeviceSeqNo ndn deviceName
            (state.seq.getD 0).toInt64
          match state.locator with
          | none => some updated
          | some locator =>
              (ndn.ofString locator).map fun locatorName =>
                updated.updateLocator ndn deviceName locatorName
      -- deregistering a device does nothing
      | .delete => some log

def applyStates (ndn : NameOps Name) (log : SyncLog Name) :
    SyncStateMsg → Option (SyncLog Name)
  | [] => some log
  | state :: states =>
      match applyState ndn log state with
      | none => none
      | some updated => applyStates ndn updated states

/-- The differences between an earlier root and the current one, with the old
sequence numbers. -/
def differencesSince (core : SyncCore Name) (oldHash : Hash) : SyncStateMsg :=
  core.log.db.findStateDifferences oldHash core.rootHash true

def callbackOn (diff : SyncStateMsg) : List (Effect Name) :=
  if diff = [] then [] else [.stateMsgCallback diff]

def handleStateData (core : SyncCore Name) (content : Bytes) :
    Option (SyncCore Name × List (Effect Name)) :=
  match platform.deserializeGZipMsg content with
  -- misformed data is ignored
  | none => some (core, [])
  | some msg =>
      match applyStates platform.ndn core.log msg with
      | none => none
      | some log =>
          let oldHash := core.rootHash
          let renewed := rememberRoot platform { core with log }
          some (renewed, callbackOn (renewed.differencesSince oldHash))

/-- Data for a sync or a recovery interest; empty content is not handled. -/
def handleData (core : SyncCore Name) (content : Bytes) :
    Option (SyncCore Name × List (Effect Name)) :=
  if content = [] then
    some (core, [.scheduleSyncInterest])
  else
    (core.handleStateData platform content).map fun handled =>
      (handled.1, handled.2 ++ [.scheduleSyncInterest])

/-- The cores that any sequence of local actions, announcements and received
messages can produce. -/
inductive Reachable : SyncCore Name → Prop where
  | construct {log : SyncLog Name} (localPrefix syncPrefix : Name) :
      SyncLog.Reachable platform.ndn platform.sha256 log →
      Reachable (construct platform log localPrefix syncPrefix)
  | localAction {core : SyncCore Name} {seqNo : Int64} {log : SyncLog Name} :
      Reachable core → core.log.getNextLocalSeqNo = some (seqNo, log) →
      Reachable { core with log }
  | localStateChanged {core : SyncCore Name} :
      Reachable core → Reachable (core.localStateChanged platform).1
  | updateLocalState {core : SyncCore Name} (seqNo : Int64) :
      Reachable core → Reachable (core.updateLocalState platform seqNo).1
  | handleData {core handled : SyncCore Name} {content : Bytes}
      {effects : List (Effect Name)} :
      Reachable core →
      core.handleData platform content = some (handled, effects) →
      Reachable handled

end SyncCore

/-- A range of actions the dispatcher asks the action fetcher for. -/
structure FetchRange (Name : Type) where
  userName : Name
  firstSeq : UInt64
  lastSeq : UInt64
  deriving DecidableEq, Repr

/-- `Dispatcher::Did_SyncLog_StateChange_Execute`: entries without both
numbers are skipped, and a name that cannot be built throws. -/
def didSyncLogStateChangeExecute {Name : Type} (ndn : NameOps Name) :
    SyncStateMsg → Option (List (FetchRange Name))
  | [] => some []
  | state :: states =>
      match state.oldSeq, state.seq with
      | some oldSeq, some newSeq =>
          match ndn.ofString state.name with
          | none => none
          | some userName =>
              (didSyncLogStateChangeExecute ndn states).map fun ranges =>
                ⟨userName, max (oldSeq + 1) 1, newSeq⟩ :: ranges
      | _, _ => didSyncLogStateChangeExecute ndn states

end ChronoShare
