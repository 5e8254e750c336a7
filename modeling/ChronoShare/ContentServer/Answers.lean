import ChronoShare.ActionLog.Lookup
import ChronoShare.ContentServer.Store
import ChronoShare.Dispatcher.Segments

/-!
# What the fetcher makes of the answers

The server sets stored bytes as the content of a packet, and the fetcher reads
the content block as a packet.  What the server puts carries the stored bytes,
under the name of the interest where there is a forwarding hint, but no such
block decodes, so that no fetcher hands a segment or an action over.
-/

namespace ChronoShare

/-- `/<forwardingHint>/<name>/<seqNo>`. -/
def Interest.toName {Name : Type} (ndn : NameOps Name)
    (interest : Interest Name) : Name :=
  ndn.appendNumber (ndn.appendName interest.forwardingHint interest.name)
    interest.seqNo

namespace ContentServer

variable {platform : DispatcherPlatform Name} {server : ContentServer}

/-- The packet of an answer, by the branch that makes it. -/
inductive Puts (platform : DispatcherPlatform Name) (server : ContentServer)
    (beyond : Bytes) (forwardingHint name interest : Name) :
    Data Name → Prop where
  | segment {segment : UInt64} {component last co : Bytes} :
      name.getFromEnd 1 = some last → Name.toNumber last = some segment →
      name.getFromEnd 2 = some component →
      ObjectDb.fetchSegment platform.ndn
        (server.tables (platform.hashText (boundComponent component beyond)))
        (name.getSubName 0 (name.size - 4)) segment.toNat = some co →
      Puts platform server beyond forwardingHint name interest
        (server.segmentData forwardingHint interest co)
  | action {seqno : UInt64} {last : Bytes} {dataObject : Data Name} :
      name.getFromEnd 1 = some last → Name.toNumber last = some seqno →
      ActionLog.lookupActionPco platform.toActionPlatform server.actionLog
        (name.getSubName 0 (name.size - 4)) seqno.toInt64 =
          some (some dataObject) →
      Puts platform server beyond forwardingHint name interest
        (if forwardingHint.size = 0 then dataObject
        else ⟨interest, server.freshnessPeriod, dataObject.content⟩)

variable {beyond : Bytes} {forwardingHint name interest : Name}
  {data : Data Name}

theorem Puts.of_dbCache {dbCache : List Bytes}
    (puts : Puts platform { server with dbCache := dbCache } beyond
      forwardingHint name interest data) :
    Puts platform server beyond forwardingHint name interest data := by
  cases puts with
  | segment isLast number isHash fetched =>
      exact .segment isLast number isHash fetched
  | action isLast number found => exact .action isLast number found

theorem serveFileExecute_cases {served : Option (Data Name)}
    {after : ContentServer}
    (executed : serveFileExecute platform server beyond forwardingHint name
      interest = some (served, after)) :
    (∃ dbCache, after = { server with dbCache := dbCache }) ∧
      ∀ data ∈ served,
        Puts platform server beyond forwardingHint name interest data := by
  simp only [serveFileExecute, Option.bind_eq_bind,
    Option.bind_eq_some_iff] at executed
  obtain ⟨last, isLast, segment, number, component, isHash, answer⟩ := executed
  have puts : ∀ data ∈ (ObjectDb.fetchSegment platform.ndn
      (server.tables (platform.hashText (boundComponent component beyond)))
      (name.getSubName 0 (name.size - 4)) segment.toNat).map
        (server.segmentData forwardingHint interest),
      Puts platform server beyond forwardingHint name interest data := by
    intro data member
    obtain ⟨co, fetched, rfl⟩ := Option.map_eq_some_iff.mp member
    exact .segment isLast number isHash fetched
  split_ifs at answer
  · obtain ⟨rfl, rfl⟩ := Prod.mk.inj (Option.some.inj answer)
    exact ⟨⟨server.dbCache, rfl⟩, puts⟩
  · obtain ⟨location, _, result⟩ := Option.map_eq_some_iff.mp answer
    obtain ⟨rfl, rfl⟩ := Prod.mk.inj result
    exact ⟨⟨_, rfl⟩, puts⟩
  · obtain ⟨location, _, result⟩ := Option.map_eq_some_iff.mp answer
    obtain ⟨rfl, rfl⟩ := Prod.mk.inj result
    exact ⟨⟨server.dbCache, rfl⟩, fun data member => nomatch member⟩

theorem serveActionExecute_cases {served : Option (Data Name)}
    {after : ContentServer}
    (executed : serveActionExecute platform server forwardingHint name
      interest = some (served, after)) :
    (∃ dbCache, after = { server with dbCache := dbCache }) ∧
      ∀ data ∈ served,
        Puts platform server beyond forwardingHint name interest data := by
  simp only [serveActionExecute, Option.bind_eq_bind,
    Option.bind_eq_some_iff] at executed
  obtain ⟨last, isLast, seqno, number, dataObject, found, answer⟩ := executed
  obtain ⟨rfl, rfl⟩ := Prod.mk.inj (Option.some.inj answer)
  refine ⟨⟨server.dbCache, rfl⟩, ?_⟩
  intro data member
  obtain ⟨dataObject, rfl, rfl⟩ := Option.map_eq_some_iff.mp member
  exact .action isLast number found

theorem filterAndServeImpl_cases {served : Option (Data Name)}
    {after : ContentServer}
    (executed : filterAndServeImpl platform server beyond forwardingHint name
      interest = some (served, after)) :
    (∃ dbCache, after = { server with dbCache := dbCache }) ∧
      ∀ data ∈ served,
        Puts platform server beyond forwardingHint name interest data := by
  rw [filterAndServeImpl] at executed
  dsimp only at executed
  split_ifs at executed
  · exact serveFileExecute_cases executed
  · exact serveActionExecute_cases executed
  all_goals
    obtain ⟨rfl, rfl⟩ := Prod.mk.inj (Option.some.inj executed)
    exact ⟨⟨server.dbCache, rfl⟩, fun data member => nomatch member⟩

theorem puts_of_mem_go {lookups : List (Name × Name)} {dbCache : List Bytes}
    (member : data ∈ filterAndServe.go platform beyond interest
      { server with dbCache := dbCache } lookups) :
    ∃ lookup ∈ lookups,
      Puts platform server beyond lookup.1 lookup.2 interest data := by
  induction lookups generalizing dbCache with
  | nil => exact absurd member List.not_mem_nil
  | cons lookup lookups induction =>
      rw [filterAndServe.go] at member
      split at member
      · exact absurd member List.not_mem_nil
      · next served after executed =>
          obtain ⟨⟨opened, rfl⟩, puts⟩ := filterAndServeImpl_cases executed
          rcases List.mem_append.mp member with here | later
          · refine ⟨lookup, List.mem_cons_self, ?_⟩
            exact (puts data (Option.mem_toList.mp here)).of_dbCache
          · obtain ⟨other, among, puts⟩ := induction later
            exact ⟨other, List.mem_cons_of_mem lookup among, puts⟩

theorem puts_of_mem (member : data ∈ filterAndServe platform server beyond
      forwardingHint interest) :
    ∃ lookup ∈ lookups server forwardingHint interest,
      Puts platform server beyond lookup.1 lookup.2 interest data :=
  puts_of_mem_go member

theorem Puts.name_eq (hinted : forwardingHint.size ≠ 0)
    (puts : Puts platform server beyond forwardingHint name interest data) :
    data.name = interest := by
  cases puts with
  | segment isLast number isHash fetched => rw [segmentData, if_neg hinted]
  | action isLast number found => rw [if_neg hinted]

theorem name_segmentData_iff {co : Bytes} :
    (server.segmentData forwardingHint interest co).name = interest ↔
      forwardingHint.size ≠ 0 ∨ interest = .empty := by
  rw [segmentData]
  split_ifs with unhinted
  · simp [unhinted, eq_comm]
  · simp [unhinted]

/-- `ndn::Data (data.getContent ())`: the content block read as a packet. -/
def unwrap (platform : DispatcherPlatform Name) (content : Bytes) :
    Option (Data Name) :=
  platform.decodeData (ActionLog.contentBlock content)

/-- The fetcher that is given the packet calls its segment callback with a
packet of the content. -/
def Extracts (platform : DispatcherPlatform Name) (fetching : Fetching Name)
    (now : Int) (expressed : Expressed Name) (data : Data Name)
    (content : Bytes) : Prop :=
  ∃ after, fetching.runJob (unwrap platform) now
      (.onDataExecute expressed data) = some after ∧
    ∃ call ∈ after.segmentCalls.drop fetching.segmentCalls.length,
      call.pco.content = content

/-- The interest is answered by a packet of its name, from which the fetcher
extracts the content. -/
def Answered (platform : DispatcherPlatform Name) (server : ContentServer)
    (beyond : Bytes) (fetching : Fetching Name) (now : Int)
    (expressed : Expressed Name) (content : Bytes) : Prop :=
  ∃ data ∈ filterAndServe platform server beyond
      expressed.interest.forwardingHint
      (expressed.interest.toName platform.ndn),
    data.name = expressed.interest.toName platform.ndn ∧
      Extracts platform fetching now expressed data content

/-- The interests for the segments and the actions that a server has stored,
with the bytes that are stored. -/
inductive Publishes (platform : DispatcherPlatform Name)
    (server : ContentServer) : Interest Name → Bytes → Prop where
  | segment {forwardingHint deviceName : Name} {hash stored : Bytes}
      {segment : UInt64} :
      ⟨platform.ndn.wire deviceName, segment.toNat, some stored⟩ ∈
        server.tables (platform.hashText hash) →
      Publishes platform server
        ⟨forwardingHint, platform.ndn.append (platform.ndn.append
          (platform.ndn.append deviceName server.appName) fileComponent) hash,
          segment⟩ stored
  | action {forwardingHint deviceName : Name} {row : ActionRow}
      {stored : Bytes} :
      row ∈ server.actionLog.actions →
      row.deviceName = platform.ndn.value deviceName ∨
        row.deviceName = platform.ndn.wire deviceName →
      row.actionContentObject = ActionLog.contentBlock stored →
      Publishes platform server
        ⟨forwardingHint, platform.ndn.append (platform.ndn.append
          (platform.ndn.append deviceName server.appName)
            ActionLog.actionComponent) server.sharedFolderName,
          row.seqNo.toUInt64⟩ stored

theorem unwrap_eq_none
    (decodes : platform.toActionPlatform.DecodesPackets) (content : Bytes) :
    unwrap platform content = none := by
  cases decoded : unwrap platform content with
  | none => rfl
  | some data =>
      have packet := decodes _ data decoded
      exact absurd (Option.some.inj packet) (by decide)

theorem not_extracts (decodes : platform.toActionPlatform.DecodesPackets)
    {fetching : Fetching Name} {now : Int} {expressed : Expressed Name}
    {content : Bytes} :
    ¬ Extracts platform fetching now expressed data content := by
  rintro ⟨after, ran, _⟩
  rw [Fetching.runJob, unwrap_eq_none decodes] at ran
  exact Option.some_ne_none after ran.symm

/-- No interest is answered: whatever the server puts, the fetcher extracts
nothing from it. -/
theorem interest_not_answered (decodes : platform.toActionPlatform.DecodesPackets)
    (server : ContentServer) (beyond : Bytes) (fetching : Fetching Name)
    (now : Int) (expressed : Expressed Name) (content : Bytes) :
    ¬ Answered platform server beyond fetching now expressed content := by
  rintro ⟨data, _, _, extracts⟩
  exact not_extracts decodes extracts

open Dispatcher

/-- `/alex` serves one segment of a file of `/bob` from every database. -/
def bobServer (key : Name → Bytes) : ContentServer where
  actionLog := ActionLog.opened (SyncLog.opened Name.uriOps Name.alex)
  tables := fun _ => [⟨key Name.bob, 0, some [9]⟩]
  dbCache := []
  freshness := -1
  userName := Name.alex
  sharedFolderName := uriDispatcher.sharedFolderName
  appName := uriDispatcher.appName

/-- The interest `/broadcast/bob/app/file/<hash>/0`. -/
def bobInterest : Expressed Name where
  interest := ⟨Name.broadcast, Name.uriOps.append (Name.uriOps.append
    (Name.uriOps.append Name.bob uriDispatcher.appName) fileComponent)
      (taggedDigest [9]), 0⟩
  seqno := 0
  retransmissions := 0

def bobFetching : Fetching Name :=
  .start (.construct Name.bob bobInterest.interest.name Name.broadcast 0 0 60)

/-- A segment that the server finds is put, and not extracted.  As hashes are
printed, the server throws where it opens the database, and puts nothing. -/
theorem interest_not_answered_found :
    filterAndServe digitDispatcher (bobServer Name.uriOps.value) []
        Name.broadcast (bobInterest.interest.toName Name.uriOps) ≠ [] ∧
      ¬ Answered digitDispatcher (bobServer Name.uriOps.value) [] bobFetching 7
        bobInterest [9] := by
  refine ⟨by decide +kernel, ?_⟩
  exact interest_not_answered (readData_packets Name.uriOps) _ _ _ _ _ _

/-- A segment is stored under the name of its device, and its interest is not
answered. -/
theorem stored_segment_not_answered :
    ¬ ∀ (server : ContentServer) (beyond : Bytes) (fetching : Fetching Name)
        (now : Int) (expressed : Expressed Name) (content : Bytes),
      Publishes uriDispatcher server expressed.interest content →
        Answered uriDispatcher server beyond fetching now expressed
          content := by
  intro answered
  have stored : Publishes uriDispatcher (bobServer Name.uriOps.wire)
      bobInterest.interest [9] :=
    @Publishes.segment uriDispatcher (bobServer Name.uriOps.wire)
      Name.broadcast Name.bob (taggedDigest [9]) [9] 0
      (List.mem_singleton.mpr rfl)
  obtain ⟨data, _, _, extracts⟩ := answered _ [] bobFetching 7 bobInterest [9]
    stored
  exact not_extracts (readData_packets Name.uriOps) extracts

end ContentServer

end ChronoShare
