import ChronoShare.SyncCore.Core
import ChronoShare.Support.Run
import Mathlib.Data.List.Sort

/-!
# The fetcher

A fetcher requests a range of segments through a window, one interest for each
number.  The face answers an interest with data or with a timeout, and the
answer becomes a job on the executor; the jobs run one after the other.  The
number of a segment travels in the closures that are bound when the interest
is expressed.
-/

namespace ChronoShare

/-- The interest for `/<forwardingHint>/<name>/<seqNo>`. -/
structure Interest (Name : Type) where
  forwardingHint : Name
  name : Name
  seqNo : UInt64
  deriving DecidableEq, Repr

/-- An interest with the number bound in its closures; `retransmissions` counts
how often it has been expressed again. -/
structure Expressed (Name : Type) where
  interest : Interest Name
  seqno : UInt64
  retransmissions : Nat
  deriving DecidableEq, Repr

/-- The members of a class `Fetcher`; sets are sorted lists. -/
structure Fetcher (Name : Type) where
  active : Bool
  timedwait : Bool
  name : Name
  deviceName : Name
  forwardingHint : Name
  maximumNoActivityPeriod : Int
  minSendSeqNo : Int64
  maxInOrderRecvSeqNo : Int64
  outOfOrderRecvSeqNo : List Int64
  inActivePipeline : List Int64
  minSeqNo : Int64
  maxSeqNo : Int64
  pipeline : UInt32
  activePipeline : UInt32
  lastPositiveActivity : Option Int
  deriving DecidableEq, Repr

/-- A job of the fetcher on the executor. -/
inductive Job (Name : Type) where
  | fillPipeline
  | onDataExecute (expressed : Expressed Name) (data : Data Name)
  | onTimeoutExecute (expressed : Expressed Name)
  | onFetchComplete
  deriving DecidableEq, Repr

/-- The interest whose answer the job carries. -/
def Job.expressed {Name : Type} : Job Name → Option (Expressed Name)
  | .onDataExecute expressed _ => some expressed
  | .onTimeoutExecute expressed => some expressed
  | _ => none

/-- A call of the segment callback, with the interest that the data answered. -/
structure SegmentCall (Name : Type) where
  deviceName : Name
  baseName : Name
  seqno : UInt64
  pco : Data Name
  interest : Interest Name
  deriving DecidableEq, Repr

/-- A fetcher with its outstanding interests, its queued jobs, and the calls of
the segment callback and of the finish callback so far. -/
structure Fetching (Name : Type) where
  fetcher : Fetcher Name
  outstanding : List (Expressed Name)
  jobs : List (Job Name)
  segmentCalls : List (SegmentCall Name)
  finishCalls : Nat
  deriving DecidableEq, Repr

inductive FetcherEvent (Name : Type) where
  | restartPipeline (now : Int)
  | setForwardingHint (forwardingHint : Name)
  | onData (index : Nat) (data : Data Name)
  | onTimeout (index : Nat)
  | execute (now : Int)
  deriving DecidableEq, Repr

namespace Fetcher

variable {Name : Type}

def insertSeqNo (set : List Int64) (seqNo : Int64) : List Int64 :=
  if seqNo ∈ set then set else set.orderedInsert (· ≤ ·) seqNo

def construct (deviceName name forwardingHint : Name)
    (minSeqNo maxSeqNo : Int64) (timeout : Int) : Fetcher Name where
  active := false
  timedwait := false
  name := name
  deviceName := deviceName
  forwardingHint := forwardingHint
  maximumNoActivityPeriod := timeout
  minSendSeqNo := minSeqNo - 1
  maxInOrderRecvSeqNo := minSeqNo - 1
  outOfOrderRecvSeqNo := []
  inActivePipeline := []
  minSeqNo := minSeqNo
  maxSeqNo := maxSeqNo
  pipeline := 6
  activePipeline := 0
  lastPositiveActivity := none

def restartPipeline (fetcher : Fetcher Name) (now : Int) : Fetcher Name :=
  { fetcher with
    active := true
    minSendSeqNo := fetcher.maxInOrderRecvSeqNo
    lastPositiveActivity := some now }

/-- The interest for a number, expressed for the first time. -/
def express (fetcher : Fetcher Name) (seqNo : Int64) : Expressed Name :=
  ⟨⟨fetcher.forwardingHint, fetcher.name, seqNo.toUInt64⟩, seqNo.toUInt64, 0⟩

/-- The loop of `FillPipeline`, with the interests it expresses. -/
def fillLoop : Nat → Fetcher Name → Fetcher Name × List (Expressed Name)
  | 0, fetcher => (fetcher, [])
  | fuel + 1, fetcher =>
      if fetcher.minSendSeqNo < fetcher.maxSeqNo ∧
          fetcher.activePipeline < fetcher.pipeline then
        let seqNo := fetcher.minSendSeqNo + 1
        let next := { fetcher with minSendSeqNo := seqNo }
        if seqNo ∈ fetcher.outOfOrderRecvSeqNo then
          fillLoop fuel next
        else if seqNo ∈ fetcher.inActivePipeline then
          fillLoop fuel next
        else
          let filled := fillLoop fuel
            { next with
              inActivePipeline := insertSeqNo fetcher.inActivePipeline seqNo
              activePipeline := fetcher.activePipeline + 1 }
          (filled.1, fetcher.express seqNo :: filled.2)
      else
        (fetcher, [])

/-- The cursor moves at most to the end of the range. -/
def fillPipeline (fetcher : Fetcher Name) :
    Fetcher Name × List (Expressed Name) :=
  fillLoop (fetcher.maxSeqNo.toInt - fetcher.minSendSeqNo.toInt).toNat fetcher

/-- The loop of `OnData_Execute` over the numbers received out of order: the
greatest number received in order, and the numbers that are kept. -/
def advance : List Int64 → Int64 → Int64 × List Int64
  | [], maxInOrder => (maxInOrder, [])
  | seqNo :: rest, maxInOrder =>
      if seqNo = maxInOrder + 1 then
        advance rest seqNo
      else if seqNo < maxInOrder + 1 then
        advance rest maxInOrder
      else
        (maxInOrder, seqNo :: rest)

/-- `OnData_Execute` up to the comparison with the end of the range. -/
def receiveData (fetcher : Fetcher Name) (seqno : UInt64) (now : Int) :
    Fetcher Name :=
  let seqNo := seqno.toInt64
  let advanced := advance (insertSeqNo fetcher.outOfOrderRecvSeqNo seqNo)
    fetcher.maxInOrderRecvSeqNo
  { fetcher with
    activePipeline := fetcher.activePipeline - 1
    lastPositiveActivity := some now
    inActivePipeline := fetcher.inActivePipeline.erase seqNo
    maxInOrderRecvSeqNo := advanced.1
    outOfOrderRecvSeqNo := advanced.2 }

/-- No activity within the maximum period before `now`; before the first start
there is no time to compare with. -/
def idle (fetcher : Fetcher Name) (now : Int) : Bool :=
  match fetcher.lastPositiveActivity with
  | none => false
  | some last => last < now - fetcher.maximumNoActivityPeriod

/-- `OnTimeout_Execute` after the maximum period without activity. -/
def dropSegment (fetcher : Fetcher Name) (seqno : UInt64) : Fetcher Name :=
  let dropped := { fetcher with
    inActivePipeline := fetcher.inActivePipeline.erase seqno.toInt64
    activePipeline := fetcher.activePipeline - 1 }
  if dropped.activePipeline = 0 then
    { dropped with active := false }
  else
    dropped

end Fetcher

namespace Fetching

variable {Name : Type}

def start (fetcher : Fetcher Name) : Fetching Name :=
  ⟨fetcher, [], [], [], 0⟩

/-- The packet inside the content is handed to the segment callback, whether or
not a forwarding hint is set; the last number in order ends the fetch. -/
def onDataExecute (fetching : Fetching Name) (expressed : Expressed Name)
    (pco : Data Name) (now : Int) : Fetching Name :=
  let fetcher := fetching.fetcher
  let received := fetcher.receiveData expressed.seqno now
  let called : Fetching Name := { fetching with
    segmentCalls := fetching.segmentCalls ++
      [⟨fetcher.deviceName, fetcher.name, expressed.seqno, pco,
        expressed.interest⟩] }
  if received.maxInOrderRecvSeqNo = received.maxSeqNo then
    { called with
      fetcher := { received with active := false, timedwait := true }
      jobs := fetching.jobs ++ [.onFetchComplete]
      finishCalls := fetching.finishCalls + 1 }
  else
    { called with
      fetcher := received
      jobs := fetching.jobs ++ [.fillPipeline] }

/-- Within the period the interest is expressed again, with the number after
its own bound in the closures. -/
def onTimeoutExecute (fetching : Fetching Name) (expressed : Expressed Name)
    (now : Int) : Fetching Name :=
  if fetching.fetcher.idle now then
    { fetching with
      fetcher := fetching.fetcher.dropSegment expressed.seqno }
  else
    { fetching with
      outstanding := fetching.outstanding ++
        [⟨expressed.interest, expressed.seqno + 1,
          expressed.retransmissions + 1⟩] }

/-- `decodeData` is the packet inside the content of a packet; where it fails
the executor's thread dies with the exception, and there is no step. -/
def runJob (decodeData : Bytes → Option (Data Name))
    (fetching : Fetching Name) (now : Int) : Job Name → Option (Fetching Name)
  | .fillPipeline =>
      let filled := fetching.fetcher.fillPipeline
      some { fetching with
        fetcher := filled.1
        outstanding := fetching.outstanding ++ filled.2 }
  | .onDataExecute expressed data =>
      (decodeData data.content).map fun pco =>
        fetching.onDataExecute expressed pco now
  | .onTimeoutExecute expressed =>
      some (fetching.onTimeoutExecute expressed now)
  | .onFetchComplete => some fetching

/-- The face answers an outstanding interest once; the executor runs the oldest
job. -/
def step (decodeData : Bytes → Option (Data Name)) (fetching : Fetching Name) :
    FetcherEvent Name → Option (Fetching Name)
  | .restartPipeline now =>
      some { fetching with
        fetcher := fetching.fetcher.restartPipeline now
        jobs := fetching.jobs ++ [.fillPipeline] }
  | .setForwardingHint forwardingHint =>
      some { fetching with
        fetcher := { fetching.fetcher with forwardingHint := forwardingHint } }
  | .onData index data =>
      fetching.outstanding[index]?.map fun expressed =>
        { fetching with
          outstanding := fetching.outstanding.eraseIdx index
          jobs := fetching.jobs ++ [.onDataExecute expressed data] }
  | .onTimeout index =>
      fetching.outstanding[index]?.map fun expressed =>
        { fetching with
          outstanding := fetching.outstanding.eraseIdx index
          jobs := fetching.jobs ++ [.onTimeoutExecute expressed] }
  | .execute now =>
      match fetching.jobs with
      | [] => none
      | job :: jobs => { fetching with jobs := jobs }.runJob decodeData now job

abbrev Steps (decodeData : Bytes → Option (Data Name))
    (start : Fetching Name) :
    List (Fetching Name × FetcherEvent Name) → Fetching Name → Prop :=
  Run (fun source label target => step decodeData source label = some target)
    start

end Fetching

end ChronoShare
