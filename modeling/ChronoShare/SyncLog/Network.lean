import ChronoShare.Support.Gossip
import ChronoShare.SyncLog.Calls
import ChronoShare.SyncCore.Invariant
import Mathlib.Data.Finset.Option

/-!
# A network of logs

Any number of devices, each with its own log.  They remember states, report
differences towards a remembered state, and insert what others report, under
the names as they are stored; answers are inserted late, repeatedly, out of
order or never.  A log accepts an answer to the hash of a state it was in
itself, and every answer to the hash of the state without devices.
-/

namespace ChronoShare

/-- The differences reported for a hash, towards a remembered state. -/
structure SyncAnswer where
  asked : Hash
  state : Nat
  msg : SyncStateMsg
  deriving DecidableEq, Repr

structure SyncNetwork (ι Name : Type) where
  log : ι → SyncLog Name
  /-- The remembered states: whose they are, and their hashes. -/
  remembered : List (ι × Hash)
  answers : List SyncAnswer

namespace SyncNetwork

open SyncDb SyncLog

inductive Move (ι Name : Type) where
  | call (party : ι) (call : Call Name)
  | answer (asked : Hash) (state : Nat)
  | receive (party : ι) (answer : Nat)
  deriving DecidableEq, Repr

abbrev Trace (ι Name : Type) := List (SyncNetwork ι Name × Move ι Name)

variable {ι Name : Type} [DecidableEq ι]

def setLog (network : SyncNetwork ι Name) (party : ι) (log : SyncLog Name) :
    SyncNetwork ι Name :=
  { network with log := Function.update network.log party log }

variable (ndn : NameOps Name) (sha256 : Bytes → Bytes)

/-- A log may ask with the hash of a state it has been in, and with the hash of
the state without devices. -/
def MayAsk (log : SyncLog Name) (asked : Hash) : Prop :=
  asked = Hash.origin ∨ log.db.Logged asked

instance (log : SyncLog Name) (asked : Hash) : Decidable (MayAsk log asked) :=
  inferInstanceAs (Decidable (_ ∨ ∃ entry ∈ log.db.syncLog, _))

/-- The entries of an answer are inserted under the names they were stored
under; the core would read each of them as a URI first. -/
def step (network : SyncNetwork ι Name) :
    Move ι Name → Option (SyncNetwork ι Name)
  | .call party .rememberStateInStateLog =>
      let remembered :=
        (network.log party).rememberStateInStateLog sha256
      some { network.setLog party remembered.2 with
        remembered := network.remembered ++ [(party, remembered.1)] }
  | .call party call =>
      ((network.log party).perform ndn sha256 call).map (network.setLog party)
  | .answer asked state =>
      (network.remembered[state]?).map fun (party, stateHash) =>
        { network with
          answers := network.answers ++ [⟨asked, state,
            (network.log party).db.findStateDifferences asked stateHash⟩] }
  | .receive party answer =>
      match network.answers[answer]? with
      | none => none
      | some answer =>
          let log := network.log party
          if MayAsk log answer.asked then
            some (network.setLog party
              { log with db := log.db.insertAll (updatesOf answer.msg) })
          else
            none

def Step (source : SyncNetwork ι Name) (label : Move ι Name)
    (target : SyncNetwork ι Name) : Prop :=
  source.step ndn sha256 label = some target

/-- All logs have just been opened over empty databases. -/
structure Opened (names : ι → Name) (network : SyncNetwork ι Name) :
    Prop where
  log : ∀ party, construct ndn SyncDb.empty (names party) =
    some (network.log party)
  remembered : network.remembered = []
  answers : network.answers = []

abbrev Entry := Bytes × Int64

/-- The number that a call records in a log. -/
def recordedBy (log : SyncLog Name) : Call Name → Option Entry
  | .updateDeviceSeqNo name seqNo => some (ndn.wire name, seqNo)
  | .getNextLocalSeqNo => log.getNextLocalSeqNo.map fun (seqNo, _) =>
      (ndn.wire log.localName, seqNo)
  | .updateLocalSeqNo seqNo => some (ndn.wire log.localName, seqNo)
  | .updateLocator _ _ => none
  | .rememberStateInStateLog => none
  | .reopen localName => some (ndn.wire localName, 0)

/-- A recording is news, a remembered state is a page, and an answer lets its
receiver read the page of the state it leads to. -/
def hearing (taken : SyncNetwork ι Name × Move ι Name) :
    Option (Gossip.Move ι (Finset Entry)) :=
  match taken.2 with
  | .call party .rememberStateInStateLog => some (.write party)
  | .call party call => some (.learn party
      (recordedBy ndn (taken.1.log party) call).toFinset)
  | .answer _ _ => none
  | .receive party answer => (taken.1.answers[answer]?).map fun answer =>
      .read party answer.state

/-- A log that has just been opened has the number zero for its device. -/
def heardAtFirst (names : ι → Name) : Gossip ι (Finset Entry) where
  known := fun party => {(ndn.wire (names party), 0)}
  written := []

/-- The recordings that the logs have heard of, their own ones included. -/
def heard (names : ι → Name) (trace : Trace ι Name) :
    Gossip ι (Finset Entry) :=
  (heardAtFirst ndn names).moves (trace.filterMap (hearing ndn))

def Entry.point (entry : Entry) : MaxMap Bytes Int64 :=
  MaxMap.point entry.1 entry.2

/-- The map in which each name has the greatest number of a set. -/
def greatest : SupBotHom (Finset Entry) (MaxMap Bytes Int64) :=
  Gossip.joined Entry.point

variable {ndn sha256} {names : ι → Name} {trace : Trace ι Name}
  {source target start final : SyncNetwork ι Name} {label : Move ι Name}
  {network : SyncNetwork ι Name} {log after : SyncLog Name} {party : ι}
  {asked : Hash} {map : MaxMap Bytes Int64}

theorem greatest_singleton (entry : Entry) :
    greatest {entry} = entry.point :=
  Finset.sup_singleton

theorem seqMap_perform {call : Call Name}
    (performed : log.perform ndn sha256 call = some after)
    (wellFormed : log.WellFormed ndn sha256) :
    after.db.seqMap =
      log.db.seqMap ⊔ greatest (recordedBy ndn log call).toFinset := by
  cases call with
  | updateDeviceSeqNo name seqNo =>
      obtain rfl := Option.some.inj performed
      rw [recordedBy, Option.toFinset_some, greatest_singleton]
      exact seqMap_insertSyncNode _ _ _
  | getNextLocalSeqNo =>
      obtain ⟨⟨seqNo, next⟩, taken, rfl⟩ := Option.map_eq_some_iff.mp performed
      obtain ⟨rfl, -⟩ := getNextLocalSeqNo_spec wellFormed taken
      rw [recordedBy, taken, Option.map_some, Option.toFinset_some,
        greatest_singleton]
      exact seqMap_updateLocalSeqNo wellFormed seqNo
  | updateLocalSeqNo seqNo =>
      obtain rfl := Option.some.inj performed
      rw [recordedBy, Option.toFinset_some, greatest_singleton]
      exact seqMap_updateLocalSeqNo wellFormed seqNo
  | updateLocator deviceName locator =>
      obtain rfl := Option.some.inj performed
      rw [recordedBy, Option.toFinset_none, ← Finset.bot_eq_empty, map_bot,
        sup_bot_eq]
      exact seqMap_updateLocator _ _ _
  | rememberStateInStateLog =>
      obtain rfl := Option.some.inj performed
      rw [recordedBy, Option.toFinset_none, ← Finset.bot_eq_empty, map_bot,
        sup_bot_eq]
      rfl
  | reopen localName =>
      rw [recordedBy, Option.toFinset_some, greatest_singleton,
        (construct_cases performed).1]
      exact seqMap_insertSyncNode _ _ _

theorem wellFormed_perform {call : Call Name}
    (performed : log.perform ndn sha256 call = some after)
    (wellFormed : log.WellFormed ndn sha256) : after.WellFormed ndn sha256 := by
  cases call with
  | updateDeviceSeqNo name seqNo =>
      obtain rfl := Option.some.inj performed
      exact (updateDeviceSeqNo_grown wellFormed name seqNo).wellFormed
        wellFormed
  | getNextLocalSeqNo =>
      obtain ⟨⟨seqNo, next⟩, taken, rfl⟩ := Option.map_eq_some_iff.mp performed
      obtain ⟨rfl, -⟩ := getNextLocalSeqNo_spec wellFormed taken
      exact (updateLocalSeqNo_grown wellFormed seqNo).wellFormed wellFormed
  | updateLocalSeqNo seqNo =>
      obtain rfl := Option.some.inj performed
      exact (updateLocalSeqNo_grown wellFormed seqNo).wellFormed wellFormed
  | updateLocator deviceName locator =>
      obtain rfl := Option.some.inj performed
      exact (updateLocator_grown wellFormed deviceName locator).wellFormed
        wellFormed
  | rememberStateInStateLog =>
      obtain rfl := Option.some.inj performed
      exact wellFormed.remember
  | reopen localName => exact wellFormed.reopen performed

/-- The hash stands for the map, or the map is empty. -/
def Stands (ndn : NameOps Name) (sha256 : Bytes → Bytes) (asked : Hash)
    (map : MaxMap Bytes Int64) : Prop :=
  map = ⊥ ∨ ∃ rows, NamedRows ndn rows ∧ rows ≠ [] ∧
    asked = digest sha256 rows ∧ map = seqOf rows

theorem stands_snapshot {db : SyncDb} (wellFormed : db.WellFormed ndn sha256) :
    Stands ndn sha256 asked (db.snapshot asked) := by
  by_cases logged : db.Logged asked
  · obtain ⟨entry, member, rfl⟩ := logged
    obtain ⟨rows, snapshot⟩ := wellFormed.snapshots entry member
    exact Or.inr ⟨rows, snapshot.named, snapshot.nonempty, snapshot.hash,
      snapshot.snapshot_eq wellFormed member⟩
  · exact Or.inl (snapshot_of_unlogged logged)

theorem Stands.le_seqMap (selfDelimiting : SelfDelimiting ndn.wire)
    (collisionFree : CollisionFree sha256)
    (stands : Stands ndn sha256 asked map)
    (wellFormed : log.WellFormed ndn sha256) (may : MayAsk log asked) :
    map ≤ log.db.seqMap := by
  rcases stands with rfl | ⟨rows, named, nonempty, rfl, rfl⟩
  · exact bot_le
  · rcases may with origin | logged
    · exact absurd origin (digest_ne_origin collisionFree nonempty)
    · rw [← snapshot_eq_of_digest selfDelimiting collisionFree wellFormed.db
        named logged]
      exact snapshot_le_seqMap wellFormed.db _

theorem insertAll_nodesGrown {db : SyncDb}
    (wellFormed : db.WellFormed ndn sha256) {entries : List Entry}
    (encoded : ∀ entry ∈ entries, ∃ name, entry.1 = ndn.wire name) :
    NodesGrown ndn db (db.insertAll entries) := by
  induction entries generalizing db with
  | nil => exact .refl wellFormed
  | cons entry entries induction =>
      obtain ⟨name, sameName⟩ := encoded entry List.mem_cons_self
      have first : NodesGrown ndn db (db.insertSyncNode entry.1 entry.2) := by
        rw [sameName]
        exact insertSyncNode_nodesGrown wellFormed name entry.2
      exact first.trans (induction (first.wellFormed wellFormed)
        fun other member => encoded other (List.mem_cons_of_mem _ member))

/-- The maps of the logs, and of the remembered states, are those of a gossip
of maps; an answer separates the page of its state from something its receivers
have known. -/
structure Shows (ndn : NameOps Name) (sha256 : Bytes → Bytes)
    (network : SyncNetwork ι Name)
    (gossip : Gossip ι (MaxMap Bytes Int64)) : Prop where
  wellFormed : ∀ party, (network.log party).WellFormed ndn sha256
  known : ∀ party, (network.log party).db.seqMap = gossip.known party
  logged : ∀ owned ∈ network.remembered,
    (network.log owned.1).db.Logged owned.2
  written : network.remembered.map (fun owned =>
    (network.log owned.1).db.snapshot owned.2) = gossip.written
  answers : ∀ answer ∈ network.answers,
    (∀ entry ∈ updatesOf answer.msg, ∃ name, entry.1 = ndn.wire name) ∧
      ∃ old told, gossip.written[answer.state]? = some told ∧
        Stands ndn sha256 answer.asked old ∧
        MaxMap.Differences old told (updatesOf answer.msg)

variable {gossip : Gossip ι (MaxMap Bytes Int64)} {news : MaxMap Bytes Int64}

@[simp] theorem setLog_self : (network.setLog party log).log party = log := by
  simp [setLog]

theorem setLog_of_ne {other : ι} (different : other ≠ party) :
    (network.setLog party log).log other = network.log other := by
  simp [setLog, different]

theorem Shows.setLog (shows : Shows ndn sha256 network gossip)
    (wellFormed : log.WellFormed ndn sha256)
    (grown : NodesGrown ndn (network.log party).db log.db)
    (sameMap : log.db.seqMap = (network.log party).db.seqMap ⊔ news) :
    Shows ndn sha256 (network.setLog party log) (gossip.tell party news) where
  wellFormed := by
    intro other
    by_cases same : other = party
    · subst same
      rwa [setLog_self]
    · rw [setLog_of_ne same]
      exact shows.wellFormed other
  known := by
    intro other
    by_cases same : other = party
    · subst same
      rw [setLog_self, sameMap, shows.known, Gossip.tell_known_self]
    · rw [setLog_of_ne same, Gossip.tell_known_of_ne same, shows.known]
  logged := by
    rintro ⟨owner, stateHash⟩ member
    have earlier := shows.logged _ member
    by_cases same : owner = party
    · subst same
      rw [setLog_self]
      exact (grown.logged_iff stateHash).mpr earlier
    · rw [setLog_of_ne same]
      exact earlier
  written := by
    rw [Gossip.tell_written, ← shows.written]
    apply List.map_congr_left
    rintro ⟨owner, stateHash⟩ -
    by_cases same : owner = party
    · subst same
      rw [setLog_self]
      exact grown.snapshot_eq (shows.wellFormed owner).db stateHash
    · rw [setLog_of_ne same]
  answers := shows.answers

theorem Shows.remember (selfDelimiting : SelfDelimiting ndn.wire)
    (collisionFree : CollisionFree sha256)
    (shows : Shows ndn sha256 network gossip) (party : ι) :
    Shows ndn sha256
      { network.setLog party
          ((network.log party).rememberStateInStateLog sha256).2 with
        remembered := network.remembered ++
          [(party, ((network.log party).rememberStateInStateLog sha256).1)] }
      (gossip.move (.write party)) := by
  have wellFormed := shows.wellFormed party
  have kept : ∀ owned ∈ network.remembered,
      ((network.setLog party ((network.log party).rememberStateInStateLog
        sha256).2).log owned.1).db.Logged owned.2 ∧
      ((network.setLog party ((network.log party).rememberStateInStateLog
        sha256).2).log owned.1).db.snapshot owned.2 =
        (network.log owned.1).db.snapshot owned.2 := by
    rintro ⟨owner, stateHash⟩ member
    have logged := shows.logged _ member
    by_cases same : owner = party
    · subst same
      rw [setLog_self]
      exact ⟨logged_remember_iff.mpr (Or.inl logged),
        snapshot_remember_of_logged selfDelimiting collisionFree wellFormed.db
          logged⟩
    · rw [setLog_of_ne same]
      exact ⟨logged, rfl⟩
  refine ⟨?_, ?_, ?_, ?_, ?_⟩
  · intro other
    by_cases same : other = party
    · subst same
      simpa only [setLog_self] using wellFormed.remember
    · simpa only [setLog_of_ne same] using shows.wellFormed other
  · intro other
    rw [Gossip.move_write_known]
    by_cases same : other = party
    · subst same
      simpa only [setLog_self, rememberStateInStateLog_seqMap] using
        shows.known other
    · simpa only [setLog_of_ne same] using shows.known other
  · rintro owned member
    rcases List.mem_append.mp member with earlier | here
    · exact (kept owned earlier).1
    · rw [List.mem_singleton.mp here]
      simp only [setLog_self]
      exact logged_remember_iff.mpr (Or.inr rfl)
  · have page : ((network.setLog party ((network.log
        party).rememberStateInStateLog sha256).2).log party).db.snapshot
          ((network.log party).rememberStateInStateLog sha256).1 =
        gossip.known party := by
      rw [setLog_self, snapshot_remembered wellFormed,
        rememberStateInStateLog_seqMap, shows.known]
    simp only [Gossip.move, List.map_append, List.map_singleton, page,
      ← shows.written]
    exact congrArg (· ++ [gossip.known party])
      (List.map_congr_left fun owned member => (kept owned member).2)
  · intro answer member
    obtain ⟨encoded, old, told, page, stands, differences⟩ :=
      shows.answers answer member
    refine ⟨encoded, old, told, ?_, stands, differences⟩
    exact List.getElem?_append_left
      (List.getElem?_eq_some_iff.mp page).1 ▸ page

omit [DecidableEq ι] in
theorem Shows.answer (shows : Shows ndn sha256 network gossip)
    {state : Nat} {owned : ι × Hash}
    (found : network.remembered[state]? = some owned) (asked : Hash) :
    Shows ndn sha256
      { network with
        answers := network.answers ++ [⟨asked, state,
          (network.log owned.1).db.findStateDifferences asked owned.2⟩] }
      gossip where
  wellFormed := shows.wellFormed
  known := shows.known
  logged := shows.logged
  written := shows.written
  answers := by
    intro answer member
    rcases List.mem_append.mp member with earlier | here
    · exact shows.answers answer earlier
    · rw [List.mem_singleton.mp here]
      have wellFormed := (shows.wellFormed owned.1).db
      refine ⟨fun entry => encoded_of_mem_updatesOf wellFormed, _, _, ?_,
        stands_snapshot wellFormed,
        differences_findStateDifferences wellFormed asked owned.2 false⟩
      rw [← shows.written, List.getElem?_map, found, Option.map_some]

theorem Shows.receive (selfDelimiting : SelfDelimiting ndn.wire)
    (collisionFree : CollisionFree sha256)
    (shows : Shows ndn sha256 network gossip) {answer : SyncAnswer}
    (member : answer ∈ network.answers)
    (may : MayAsk (network.log party) answer.asked) :
    Shows ndn sha256
      (network.setLog party { network.log party with
        db := (network.log party).db.insertAll (updatesOf answer.msg) })
      (gossip.move (.read party answer.state)) := by
  obtain ⟨encoded, old, told, page, stands, differences⟩ :=
    shows.answers answer member
  have wellFormed := shows.wellFormed party
  have grown := insertAll_nodesGrown wellFormed.db encoded
  rw [Gossip.move_read, page, Option.getD_some]
  apply shows.setLog (wellFormed.of_nodesGrown grown) grown
  rw [seqMap_insertAll]
  exact MaxMap.raiseAll_differences differences
    (stands.le_seqMap selfDelimiting collisionFree wellFormed may)

theorem Shows.perform (shows : Shows ndn sha256 network gossip)
    {call : Call Name} (different : call ≠ .rememberStateInStateLog)
    (performed : (network.log party).perform ndn sha256 call = some after) :
    Shows ndn sha256 (network.setLog party after) (gossip.tell party
      (greatest (recordedBy ndn (network.log party) call).toFinset)) := by
  have wellFormed := shows.wellFormed party
  obtain ⟨-, grown⟩ :=
    (perform_cases performed wellFormed).resolve_left
      fun remembers => different remembers.1
  exact shows.setLog (wellFormed_perform performed wellFormed) grown
    (seqMap_perform performed wellFormed)

omit [DecidableEq ι] in
theorem hearing_call {call : Call Name}
    (different : call ≠ .rememberStateInStateLog) :
    hearing ndn (source, .call party call) = some (.learn party
      (recordedBy ndn (source.log party) call).toFinset) := by
  cases call with
  | rememberStateInStateLog => exact absurd rfl different
  | updateDeviceSeqNo name seqNo => rfl
  | getNextLocalSeqNo => rfl
  | updateLocalSeqNo seqNo => rfl
  | updateLocator deviceName locator => rfl
  | reopen localName => rfl

theorem call_cases {call : Call Name}
    (different : call ≠ .rememberStateInStateLog)
    (taken : Step ndn sha256 source (.call party call) target) :
    ∃ after, (source.log party).perform ndn sha256 call = some after ∧
      source.setLog party after = target := by
  cases call with
  | rememberStateInStateLog => exact absurd rfl different
  | updateDeviceSeqNo name seqNo => exact Option.map_eq_some_iff.mp taken
  | getNextLocalSeqNo => exact Option.map_eq_some_iff.mp taken
  | updateLocalSeqNo seqNo => exact Option.map_eq_some_iff.mp taken
  | updateLocator deviceName locator =>
      exact Option.map_eq_some_iff.mp taken
  | reopen localName => exact Option.map_eq_some_iff.mp taken

omit [DecidableEq ι] in
theorem hearing_receive {index : Nat} :
    hearing ndn (source, .receive party index) =
      (source.answers[index]?).map fun answer => .read party answer.state :=
  rfl

theorem receive_cases {index : Nat}
    (taken : Step ndn sha256 source (.receive party index) target) :
    ∃ answer, answer ∈ source.answers ∧
      hearing ndn (source, .receive party index) =
        some (.read party answer.state) ∧
      MayAsk (source.log party) answer.asked ∧
      target = source.setLog party { source.log party with
        db := (source.log party).db.insertAll (updatesOf answer.msg) } := by
  simp only [Step, step] at taken
  cases found : source.answers[index]? with
  | none => simp [found] at taken
  | some answer =>
      simp only [found] at taken
      split_ifs at taken with may
      refine ⟨answer, List.mem_of_getElem? found, ?_, may,
        (Option.some.inj taken).symm⟩
      rw [hearing_receive, found, Option.map_some]

theorem Shows.step (selfDelimiting : SelfDelimiting ndn.wire)
    (collisionFree : CollisionFree sha256)
    (shows : Shows ndn sha256 source gossip)
    (taken : Step ndn sha256 source label target) :
    Shows ndn sha256 target (gossip.moves ((hearing ndn
      (source, label)).map (Gossip.Move.map greatest)).toList) := by
  cases label with
  | call party call =>
      by_cases remembers : call = .rememberStateInStateLog
      · subst remembers
        obtain rfl := Option.some.inj taken
        exact shows.remember selfDelimiting collisionFree party
      · obtain ⟨after, performed, rfl⟩ := call_cases remembers taken
        rw [hearing_call remembers]
        exact shows.perform remembers performed
  | answer asked state =>
      obtain ⟨owned, found, rfl⟩ := Option.map_eq_some_iff.mp taken
      exact shows.answer found asked
  | receive party answer =>
      obtain ⟨answer, member, hears, may, rfl⟩ := receive_cases taken
      rw [hears]
      exact shows.receive selfDelimiting collisionFree member may

omit [DecidableEq ι] in
theorem Opened.shows (opened : Opened ndn names start) :
    Shows ndn sha256 start ((heardAtFirst ndn names).map greatest) where
  wellFormed := fun party => (Reachable.construct (opened.log party)).wellFormed
  known := by
    intro party
    obtain ⟨sameDb, -⟩ := construct_cases (opened.log party)
    rw [sameDb, seqMap_insertSyncNode]
    exact (bot_sup_eq _).trans
      (greatest_singleton (ndn.wire (names party), 0)).symm
  logged := by simp [opened.remembered]
  written := by simp [opened.remembered, heardAtFirst, Gossip.map]
  answers := by simp [opened.answers]

def gossipOf (ndn : NameOps Name) (trace : Trace ι Name) :
    List (Gossip.Move ι (MaxMap Bytes Int64)) :=
  (trace.filterMap (hearing ndn)).map (Gossip.Move.map greatest)

omit [DecidableEq ι] in
theorem gossipOf_nil : gossipOf ndn ([] : Trace ι Name) = [] :=
  rfl

omit [DecidableEq ι] in
theorem gossipOf_append (before after : Trace ι Name) :
    gossipOf ndn (before ++ after) =
      gossipOf ndn before ++ gossipOf ndn after := by
  rw [gossipOf, List.filterMap_append, List.map_append]
  rfl

omit [DecidableEq ι] in
theorem gossipOf_cons (taken : SyncNetwork ι Name × Move ι Name)
    (trace : Trace ι Name) :
    gossipOf ndn (taken :: trace) =
      ((hearing ndn taken).map (Gossip.Move.map greatest)).toList ++
        gossipOf ndn trace := by
  rw [gossipOf, List.filterMap_cons]
  cases hearing ndn taken with
  | none => rfl
  | some move => rfl

theorem Shows.run (selfDelimiting : SelfDelimiting ndn.wire)
    (collisionFree : CollisionFree sha256)
    (shows : Shows ndn sha256 start gossip)
    (run : Run (Step ndn sha256) start trace final) :
    Shows ndn sha256 final (gossip.moves (gossipOf ndn trace)) := by
  induction run with
  | nil => exact shows
  | @snoc trace middle final label prefixRun taken induction =>
      rw [gossipOf_append, Gossip.moves_append, gossipOf_cons, gossipOf_nil,
        List.append_nil]
      exact induction.step selfDelimiting collisionFree taken

theorem run_shows (selfDelimiting : SelfDelimiting ndn.wire)
    (collisionFree : CollisionFree sha256)
    (opened : Opened ndn names start)
    (run : Run (Step ndn sha256) start trace final) :
    Shows ndn sha256 final ((heard ndn names trace).map greatest) := by
  rw [heard, Gossip.map_moves]
  exact opened.shows.run selfDelimiting collisionFree run

theorem collects_greatest (set : Finset Entry) :
    MaxMap.Collects (fun name seqNo => (name, seqNo) ∈ set)
      (greatest set) := by
  induction set using Finset.induction_on with
  | empty =>
      rw [← Finset.bot_eq_empty, map_bot]
      exact MaxMap.Collects.bot.congr fun name seqNo => by simp
  | insert entry set _ induction =>
      have raised : greatest (insert entry set) =
          (greatest set).raise entry.1 entry.2 := by
        rw [Finset.insert_eq, Finset.union_comm, ← Finset.sup_eq_union,
          map_sup, greatest_singleton]
        rfl
      rw [raised]
      apply (induction.raise entry.1 entry.2).congr
      intro name seqNo
      rw [Finset.mem_insert, or_comm, Prod.ext_iff]

/-- Whatever the order in which differences are reported and inserted, and
however often, a log shows for every name the greatest of the numbers its
device has heard of, directly or through others, and nothing else. -/
theorem log_collects_heard (selfDelimiting : SelfDelimiting ndn.wire)
    (collisionFree : CollisionFree sha256)
    (opened : Opened ndn names start)
    (run : Run (Step ndn sha256) start trace final) (party : ι) :
    MaxMap.Collects
      (fun name seqNo => (name, seqNo) ∈ (heard ndn names trace).known party)
      (final.log party).db.seqMap := by
  rw [(run_shows selfDelimiting collisionFree opened run).known party]
  exact collects_greatest _

theorem deviceNames_selfDelimiting : SelfDelimiting DeviceName.ops.wire := by
  intro left right leftRest rightRest equality
  obtain ⟨same, rests⟩ := Name.wireEncode_selfDelimiting _ _ _ _ equality
  exact ⟨Subtype.ext same, rests⟩

def deviceOf (isBob : Bool) : DeviceName :=
  if isBob then DeviceName.bob else DeviceName.alex

/-- The logs of `/alex` and `/bob`, just opened. -/
def alexAndBob : SyncNetwork Bool DeviceName where
  log := fun isBob => SyncLog.opened DeviceName.ops (deviceOf isBob)
  remembered := []
  answers := []

theorem alexAndBob_opened :
    Opened DeviceName.ops deviceOf alexAndBob where
  log := by
    intro isBob
    simp [construct, SyncDb.empty, insertSyncNode, alexAndBob, SyncLog.opened]
  remembered := rfl
  answers := rfl

/-- Both act, and `/bob` is told of the action of `/alex`. -/
def tellBob : List (Move Bool DeviceName) :=
  [.call false .getNextLocalSeqNo, .call true .getNextLocalSeqNo,
    .call false .rememberStateInStateLog, .answer Hash.origin 0,
    .receive true 0]

theorem tellBob_executed :
    (execute (step DeviceName.ops taggedDigest) alexAndBob tellBob).isSome := by
  decide +kernel

def told : Trace Bool DeviceName × SyncNetwork Bool DeviceName :=
  (execute (step DeviceName.ops taggedDigest) alexAndBob tellBob).get
    tellBob_executed

theorem told_run :
    Run (Step DeviceName.ops taggedDigest) alexAndBob told.1 told.2 :=
  execute_run (Option.some_get tellBob_executed).symm

/-- `/bob` has heard of all four numbers, and shows the greatest ones. -/
theorem log_collects_heard_told :
    (heard DeviceName.ops deviceOf told.1).known true =
        {(DeviceName.ops.wire DeviceName.alex, 0),
          (DeviceName.ops.wire DeviceName.alex, 1),
          (DeviceName.ops.wire DeviceName.bob, 0),
          (DeviceName.ops.wire DeviceName.bob, 1)} ∧
      MaxMap.Collects
        (fun name seqNo => (name, seqNo) ∈
          (heard DeviceName.ops deviceOf told.1).known true)
        (told.2.log true).db.seqMap :=
  ⟨by decide +kernel, log_collects_heard deviceNames_selfDelimiting
    taggedDigest_collisionFree alexAndBob_opened told_run true⟩

/-- Nothing is recorded, except that a log is opened again for its device. -/
def Quiet (names : ι → Name) : Move ι Name → Prop
  | .call party (.reopen localName) => localName = names party
  | .call _ .rememberStateInStateLog => True
  | .call _ (.updateLocator _ _) => True
  | .call _ _ => False
  | .answer _ _ => True
  | .receive _ _ => True

/-- A state that the writer remembers is reported to the reader, who inserts
an answer that leads to it. -/
def Reports (steps : Trace ι Name) (writer reader : ι) : Prop :=
  ∃ write read : Fin steps.length, write < read ∧
    steps[write].2 = .call writer .rememberStateInStateLog ∧
    ∃ index answer, steps[read].2 = .receive reader index ∧
      steps[read].1.answers[index]? = some answer ∧
      answer.state = steps[write].1.remembered.length

theorem exists_split {α : Type} (items : List α)
    {first second : Fin items.length}
    (order : first < second) :
    ∃ before between after, items =
      before ++ items[first] :: between ++ items[second] :: after := by
  have later : items[second] ∈ items.drop (first + 1) := by
    apply List.mem_drop_iff_getElem.mpr
    refine ⟨second - (first + 1), by omega, ?_⟩
    congr 1
    omega
  obtain ⟨between, after, split⟩ := List.append_of_mem later
  refine ⟨items.take first, between, after, ?_⟩
  rw [List.append_assoc, List.cons_append, ← split]
  exact (List.take_append_drop first items).symm.trans
    (congrArg _ (List.drop_eq_getElem_cons first.isLt))

theorem Shows.passes (selfDelimiting : SelfDelimiting ndn.wire)
    (collisionFree : CollisionFree sha256)
    (shows : Shows ndn sha256 start gossip)
    (run : Run (Step ndn sha256) start trace final) {writer reader : ι}
    (reports : Reports trace writer reader) :
    Gossip.Passes gossip (gossipOf ndn trace) writer reader := by
  obtain ⟨write, read, order, remembers, index, answer, receives, found,
    sameState⟩ := reports
  obtain ⟨first, middle, last, split⟩ := exists_split trace order
  generalize (trace)[write] = written at remembers sameState split
  generalize (trace)[read] = received at receives found split
  obtain ⟨source, label⟩ := written
  obtain ⟨later, label⟩ := received
  obtain rfl := remembers
  obtain rfl := receives
  subst split
  rw [List.append_assoc, List.cons_append] at run
  have reached := shows.run selfDelimiting collisionFree run.before
  have page : answer.state =
      (gossip.moves (gossipOf ndn first)).written.length := by
    rw [sameState, ← reached.written, List.length_map]
  refine ⟨gossipOf ndn first, gossipOf ndn middle, gossipOf ndn last, ?_⟩
  rw [gossipOf_append, gossipOf_append, gossipOf_cons, gossipOf_cons,
    hearing_receive, found, ← page]
  rfl

omit [DecidableEq ι] in
theorem exists_call_of_learn
    (member : .learn party news ∈ gossipOf ndn trace) :
    ∃ source call, (source, .call party call) ∈ trace ∧
      news = greatest (recordedBy ndn (source.log party) call).toFinset := by
  obtain ⟨move, moved, sameMove⟩ := List.mem_map.mp member
  obtain ⟨⟨source, label⟩, taken, hears⟩ := List.mem_filterMap.mp moved
  cases label with
  | answer asked state => cases hears
  | receive other index =>
      obtain ⟨answer, -, rfl⟩ := Option.map_eq_some_iff.mp hears
      cases sameMove
  | call other call =>
      by_cases remembers : call = .rememberStateInStateLog
      · subst remembers
        cases hears
        cases sameMove
      · rw [hearing_call remembers] at hears
        cases hears
        cases sameMove
        exact ⟨source, call, taken, rfl⟩

omit [DecidableEq ι] in
theorem le_known_of_quiet (quiet : ∀ taken ∈ trace, Quiet names taken.2)
    (zero : ∀ party,
      greatest {(ndn.wire (names party), 0)} ≤ gossip.known party)
    (member : .learn party news ∈ gossipOf ndn trace) :
    news ≤ gossip.known party := by
  obtain ⟨source, call, taken, rfl⟩ := exists_call_of_learn member
  have silent := quiet _ taken
  cases call with
  | updateDeviceSeqNo name seqNo => exact silent.elim
  | getNextLocalSeqNo => exact silent.elim
  | updateLocalSeqNo seqNo => exact silent.elim
  | updateLocator deviceName locator =>
      exact (map_bot greatest).trans_le bot_le
  | rememberStateInStateLog => exact (map_bot greatest).trans_le bot_le
  | reopen localName =>
      obtain rfl : localName = names party := silent
      exact zero party

/-- After a quiet run in which every device reports to every other one a state
it has remembered meanwhile, all logs show the greatest numbers that any of
them showed before, and all have one digest. -/
theorem logs_agree_after_exchange (selfDelimiting : SelfDelimiting ndn.wire)
    (collisionFree : CollisionFree sha256)
    (opened : Opened ndn names start) {earlier : Trace ι Name}
    {middle : SyncNetwork ι Name}
    (before : Run (Step ndn sha256) start earlier middle)
    (after : Run (Step ndn sha256) middle trace final)
    (quiet : ∀ taken ∈ trace, Quiet names taken.2)
    (exchanged : ∀ writer reader, writer ≠ reader →
      Reports trace writer reader) :
    (∀ reader, IsLUB
      (Set.range fun writer => (middle.log writer).db.seqMap)
      (final.log reader).db.seqMap) ∧
    ∀ left right,
      ((final.log left).rememberStateInStateLog sha256).1 =
        ((final.log right).rememberStateInStateLog sha256).1 := by
  have shown := run_shows selfDelimiting collisionFree opened before
  have last := shown.run selfDelimiting collisionFree after
  have zero : ∀ party, greatest {(ndn.wire (names party), 0)} ≤
      ((heard ndn names earlier).map greatest).known party := by
    intro party
    have grown : (heardAtFirst ndn names).known party ≤
        (heard ndn names earlier).known party := Gossip.known_le_moves
    exact OrderHomClass.mono greatest grown
  have founded : Gossip.Founded ((heard ndn names earlier).map greatest) := by
    rw [heard, Gossip.map_moves]
    apply Gossip.Founded.moves
    intro told member
    exact absurd member List.not_mem_nil
  have joined : ∀ reader, IsLUB
      (Set.range fun writer => (middle.log writer).db.seqMap)
      (final.log reader).db.seqMap := by
    intro reader
    have same : (fun writer => (middle.log writer).db.seqMap) =
        ((heard ndn names earlier).map greatest).known := funext shown.known
    rw [last.known reader, same]
    apply Gossip.isLUB_of_passes founded
    · exact fun party news member => le_known_of_quiet quiet zero member
    · exact fun writer reader different =>
        shown.passes selfDelimiting collisionFree after
          (exchanged writer reader different)
  refine ⟨joined, fun left right => ?_⟩
  exact digest_congr (last.wellFormed left).db.named.unique
    (last.wellFormed right).db.named.unique
    ((joined left).unique (joined right))

/-- Both remember the state they are in, and insert the differences the other
one reports. -/
def exchangeAll : List (Move Bool DeviceName) :=
  [.call false .rememberStateInStateLog, .call true .rememberStateInStateLog,
    .answer Hash.origin 1, .answer Hash.origin 2,
    .receive false 2, .receive true 1]

theorem exchangeAll_executed :
    (execute (step DeviceName.ops taggedDigest) told.2 exchangeAll).isSome := by
  decide +kernel

def exchanged : Trace Bool DeviceName × SyncNetwork Bool DeviceName :=
  (execute (step DeviceName.ops taggedDigest) told.2 exchangeAll).get
    exchangeAll_executed

theorem exchanged_run :
    Run (Step DeviceName.ops taggedDigest) told.2 exchanged.1 exchanged.2 :=
  execute_run (Option.some_get exchangeAll_executed).symm

theorem exchanged_quiet :
    ∀ taken ∈ exchanged.1, Quiet deviceOf taken.2 :=
  execute_forall (Option.some_get exchangeAll_executed).symm
    (by simp [exchangeAll, Quiet])

theorem exchanged_reports :
    ∀ writer reader, writer ≠ reader → Reports exchanged.1 writer reader := by
  have toBob : Reports exchanged.1 false true :=
    ⟨⟨0, by decide +kernel⟩, ⟨5, by decide +kernel⟩, by decide,
      by decide +kernel, 1, exchanged.2.answers[1], by decide +kernel,
      by decide +kernel, by decide +kernel⟩
  have toAlex : Reports exchanged.1 true false :=
    ⟨⟨1, by decide +kernel⟩, ⟨4, by decide +kernel⟩, by decide,
      by decide +kernel, 2, exchanged.2.answers[2], by decide +kernel,
      by decide +kernel, by decide +kernel⟩
  intro writer reader different
  cases writer with
  | false => exact Bool.eq_true_of_not_eq_false (Ne.symm different) ▸ toBob
  | true => exact Bool.eq_false_of_not_eq_true (Ne.symm different) ▸ toAlex

theorem logs_agree_after_exchange_told :
    (∀ reader, IsLUB
        (Set.range fun writer => (told.2.log writer).db.seqMap)
        (exchanged.2.log reader).db.seqMap) ∧
      ∀ left right,
        ((exchanged.2.log left).rememberStateInStateLog taggedDigest).1 =
          ((exchanged.2.log right).rememberStateInStateLog taggedDigest).1 :=
  logs_agree_after_exchange deviceNames_selfDelimiting
    taggedDigest_collisionFree alexAndBob_opened told_run exchanged_run
    exchanged_quiet exchanged_reports

/-- A device records numbers under its own name only. -/
def Own (names : ι → Name) : Move ι Name → Prop
  | .call _ (.updateDeviceSeqNo _ _) => False
  | .call party (.reopen localName) => localName = names party
  | _ => True

def Named (names : ι → Name) (network : SyncNetwork ι Name) : Prop :=
  ∀ party, (network.log party).localName = names party

theorem Named.setLog (named : Named names network)
    (sameName : log.localName = names party) :
    Named names (network.setLog party log) := by
  intro other
  by_cases same : other = party
  · subst same
    rwa [setLog_self]
  · rw [setLog_of_ne same]
    exact named other

omit [DecidableEq ι] in
theorem localName_perform {call : Call Name}
    (own : Own names (.call party call))
    (performed : log.perform ndn sha256 call = some after)
    (sameName : log.localName = names party) :
    after.localName = names party := by
  cases call with
  | updateDeviceSeqNo name seqNo => exact own.elim
  | getNextLocalSeqNo =>
      obtain ⟨⟨seqNo, next⟩, taken, rfl⟩ := Option.map_eq_some_iff.mp performed
      unfold SyncLog.getNextLocalSeqNo at taken
      cases found : log.db.syncNodes.find? fun row =>
          row.deviceId = log.localDeviceId with
      | none => simp [found] at taken
      | some row =>
          simp only [found, Option.some.injEq, Prod.mk.injEq] at taken
          rw [← taken.2]
          exact sameName
  | updateLocalSeqNo seqNo =>
      obtain rfl := Option.some.inj performed
      exact sameName
  | updateLocator deviceName locator =>
      obtain rfl := Option.some.inj performed
      exact sameName
  | rememberStateInStateLog =>
      obtain rfl := Option.some.inj performed
      exact sameName
  | reopen localName => exact (construct_cases performed).2.1.trans own

theorem Named.step (named : Named names source)
    (own : Own names label)
    (taken : Step ndn sha256 source label target) : Named names target := by
  cases label with
  | call party call =>
      by_cases remembers : call = .rememberStateInStateLog
      · subst remembers
        obtain rfl := Option.some.inj taken
        exact named.setLog (named party)
      · obtain ⟨after, performed, rfl⟩ := call_cases remembers taken
        exact named.setLog (localName_perform own performed (named party))
  | answer asked state =>
      obtain ⟨owned, -, rfl⟩ := Option.map_eq_some_iff.mp taken
      exact named
  | receive party index =>
      obtain ⟨answer, -, -, -, rfl⟩ := receive_cases taken
      exact named.setLog (named party)

omit [DecidableEq ι] in
theorem recordedBy_own {call : Call Name} {entry : Entry}
    (own : Own names (.call party call))
    (sameName : log.localName = names party)
    (records : recordedBy ndn log call = some entry) :
    entry.1 = ndn.wire (names party) := by
  cases call with
  | updateDeviceSeqNo name seqNo => exact own.elim
  | getNextLocalSeqNo =>
      obtain ⟨next, -, rfl⟩ := Option.map_eq_some_iff.mp records
      rw [sameName]
  | updateLocalSeqNo seqNo =>
      obtain rfl := Option.some.inj records
      rw [sameName]
  | updateLocator deviceName locator => cases records
  | rememberStateInStateLog => cases records
  | reopen localName =>
      obtain rfl := Option.some.inj records
      obtain rfl : localName = names party := own
      rfl

theorem heard_credited (opened : Opened ndn names start)
    (run : Run (Step ndn sha256) start trace final)
    (own : ∀ taken ∈ trace, Own names taken.2) :
    Gossip.Credited (fun entry owner => entry.1 = ndn.wire (names owner))
      (heard ndn names trace) := by
  have named : ∀ taken ∈ trace, Named names taken.1 := by
    intro taken member
    obtain ⟨first, last, rfl⟩ := List.append_of_mem member
    apply run.before.invariant_of_steps
      fun _ label => Own names label
    · exact fun earlier before =>
        own earlier (List.mem_append_left _ before)
    · exact fun party => (construct_cases (opened.log party)).2.1
    · exact fun source label target owned taken named =>
        named.step owned taken
  apply Gossip.Credited.moves
  · refine ⟨?_, fun told member => absurd member List.not_mem_nil⟩
    intro party entry member
    rw [Finset.mem_singleton.mp member]
    exact ⟨party, rfl, Finset.mem_singleton_self _⟩
  · intro party set member entry inSet
    obtain ⟨⟨source, label⟩, taken, hears⟩ := List.mem_filterMap.mp member
    cases label with
    | answer asked state => cases hears
    | receive other index =>
        obtain ⟨answer, -, same⟩ := Option.map_eq_some_iff.mp hears
        cases same
    | call other call =>
        by_cases remembers : call = .rememberStateInStateLog
        · subst remembers
          cases hears
        · rw [hearing_call remembers] at hears
          cases hears
          exact recordedBy_own (own _ taken) (named _ taken party)
            (Option.mem_toFinset.mp inSet)

/-- Where devices number only their own actions, no log shows and no answer
reports a number that its device does not have itself. -/
theorem shown_below_owner (selfDelimiting : SelfDelimiting ndn.wire)
    (collisionFree : CollisionFree sha256)
    (opened : Opened ndn names start)
    (run : Run (Step ndn sha256) start trace final)
    (own : ∀ taken ∈ trace, Own names taken.2) :
    (∀ party name (seqNo : Int64),
      (final.log party).db.seqMap name = seqNo →
        ∃ owner, name = ndn.wire (names owner) ∧
          seqNo ≤ (final.log owner).db.seqMap name) ∧
    ∀ answer ∈ final.answers, ∀ entry ∈ updatesOf answer.msg,
      ∃ owner, entry.1 = ndn.wire (names owner) ∧
        entry.2 ≤ (final.log owner).db.seqMap entry.1 := by
  have credited := heard_credited opened run own
  have shows := run_shows selfDelimiting collisionFree opened run
  have known : ∀ entry owner, entry ∈ (heard ndn names trace).known owner →
      entry.2 ≤ (final.log owner).db.seqMap entry.1 := by
    intro entry owner member
    rw [shows.known owner]
    exact (collects_greatest _).bounded entry.1 entry.2 member
  constructor
  · intro party name seqNo shown
    rw [shows.known party] at shown
    obtain ⟨owner, sameName, member⟩ := credited.known party (name, seqNo)
      ((collects_greatest _).attained name seqNo shown)
    exact ⟨owner, sameName, known _ owner member⟩
  · intro answer member entry reported
    obtain ⟨-, old, told, page, -, differences⟩ :=
      shows.answers answer member
    obtain ⟨set, inSet, rfl⟩ :=
      List.mem_map.mp (List.mem_of_getElem? page)
    have stored := (differences.sound entry reported).1
    obtain ⟨owner, sameName, member⟩ := credited.written set inSet entry
      ((collects_greatest _).attained entry.1 entry.2 stored)
    exact ⟨owner, sameName, known _ owner member⟩

theorem told_own : ∀ taken ∈ told.1, Own deviceOf taken.2 :=
  execute_forall (Option.some_get tellBob_executed).symm
    (by simp [tellBob, Own])

theorem shown_below_owner_told :
    (∀ party name (seqNo : Int64),
      (told.2.log party).db.seqMap name = seqNo →
        ∃ owner, name = DeviceName.ops.wire (deviceOf owner) ∧
          seqNo ≤ (told.2.log owner).db.seqMap name) ∧
    ∀ answer ∈ told.2.answers, ∀ entry ∈ updatesOf answer.msg,
      ∃ owner, entry.1 = DeviceName.ops.wire (deviceOf owner) ∧
        entry.2 ≤ (told.2.log owner).db.seqMap entry.1 :=
  shown_below_owner deviceNames_selfDelimiting taggedDigest_collisionFree
    alexAndBob_opened told_run told_own

end SyncNetwork

end ChronoShare
