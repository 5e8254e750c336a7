import ChronoShare.SyncLog.Exchange
import ChronoShare.Support.Run

/-!
# The history of a log

The calls a log serves, re-openings of its database included, and the runs of
such calls from an empty database.  A run keeps, for every call, the log the
call was made on, so that what was remembered under a hash can be read off it.
-/

namespace ChronoShare

namespace SyncLog

open SyncDb

variable {Name : Type}

inductive Call (Name : Type) where
  | updateDeviceSeqNo (name : Name) (seqNo : Int64)
  | getNextLocalSeqNo
  | updateLocalSeqNo (seqNo : Int64)
  | updateLocator (deviceName locator : Name)
  | rememberStateInStateLog
  | reopen (localName : Name)
  deriving DecidableEq, Repr

/-- The log after a call, `none` when the call throws. -/
def perform (ndn : NameOps Name) (sha256 : Bytes → Bytes)
    (log : SyncLog Name) : Call Name → Option (SyncLog Name)
  | .updateDeviceSeqNo name seqNo =>
      some (log.updateDeviceSeqNo ndn name seqNo)
  | .getNextLocalSeqNo => log.getNextLocalSeqNo.map Prod.snd
  | .updateLocalSeqNo seqNo => some (log.updateLocalSeqNo seqNo)
  | .updateLocator deviceName locator =>
      some (log.updateLocator ndn deviceName locator)
  | .rememberStateInStateLog => some (log.rememberStateInStateLog sha256).2
  | .reopen localName => construct ndn log.db localName

abbrev Trace (Name : Type) := List (SyncLog Name × Call Name)

/-- The log was opened over an empty database for `localName` and has served
the calls of the trace since. -/
def Served (ndn : NameOps Name) (sha256 : Bytes → Bytes) (localName : Name)
    (trace : Trace Name) (final : SyncLog Name) : Prop :=
  ∃ start, construct ndn SyncDb.empty localName = some start ∧
    Run (fun source call target => source.perform ndn sha256 call = some target)
      start trace final

/-- The call remembered the state under this hash. -/
def Remembers (sha256 : Bytes → Bytes) (stateHash : Hash)
    (taken : SyncLog Name × Call Name) : Prop :=
  taken.2 = .rememberStateInStateLog ∧
    (taken.1.rememberStateInStateLog sha256).1 = stateHash

instance [DecidableEq Name] (sha256 : Bytes → Bytes) (stateHash : Hash)
    (taken : SyncLog Name × Call Name) :
    Decidable (Remembers sha256 stateHash taken) :=
  inferInstanceAs (Decidable (_ ∧ _))

/-- The map of devices at the time the hash was last remembered; the empty map
for a hash that never was. -/
def remembered [DecidableEq Name] (sha256 : Bytes → Bytes)
    (trace : Trace Name) (stateHash : Hash) : MaxMap Bytes Int64 :=
  match trace.reverse.find? fun taken => Remembers sha256 stateHash taken with
  | none => ⊥
  | some taken => taken.1.db.seqMap

variable {ndn : NameOps Name} {sha256 : Bytes → Bytes} {localName : Name}
  {trace : Trace Name} {source target final : SyncLog Name} {call : Call Name}

theorem perform_reachable (performed : source.perform ndn sha256 call = some target)
    (reachable : Reachable ndn sha256 source) :
    Reachable ndn sha256 target := by
  cases call with
  | updateDeviceSeqNo name seqNo =>
      obtain rfl := Option.some.inj performed
      exact .updateDeviceSeqNo name seqNo reachable
  | getNextLocalSeqNo =>
      obtain ⟨⟨seqNo, next⟩, taken, rfl⟩ := Option.map_eq_some_iff.mp performed
      exact .getNextLocalSeqNo reachable taken
  | updateLocalSeqNo seqNo =>
      obtain rfl := Option.some.inj performed
      exact .updateLocalSeqNo seqNo reachable
  | updateLocator deviceName locator =>
      obtain rfl := Option.some.inj performed
      exact .updateLocator deviceName locator reachable
  | rememberStateInStateLog =>
      obtain rfl := Option.some.inj performed
      exact .rememberStateInStateLog reachable
  | reopen localName => exact .reopen reachable performed

/-- What a call does to the tables. -/
inductive TablesAfter (ndn : NameOps Name) (sha256 : Bytes → Bytes)
    (db : SyncDb) : Call Name → SyncDb → Prop where
  | updateDeviceSeqNo (name : Name) (seqNo : Int64) :
      TablesAfter ndn sha256 db (.updateDeviceSeqNo name seqNo)
        (db.insertSyncNode (ndn.wire name) seqNo)
  | getNextLocalSeqNo (deviceId : Nat) (seqNo : Int64) :
      TablesAfter ndn sha256 db .getNextLocalSeqNo
        (db.updateSyncNode deviceId seqNo)
  | updateLocalSeqNo (deviceId : Nat) (seqNo : Int64) :
      TablesAfter ndn sha256 db (.updateLocalSeqNo seqNo)
        (db.updateSyncNode deviceId seqNo)
  | updateLocator (deviceName locator : Name) :
      TablesAfter ndn sha256 db (.updateLocator deviceName locator)
        (db.updateLocator (ndn.value deviceName) (ndn.value locator))
  | rememberStateInStateLog :
      TablesAfter ndn sha256 db .rememberStateInStateLog
        (db.rememberStateInStateLog sha256).2
  | reopen (localName : Name) :
      TablesAfter ndn sha256 db (.reopen localName)
        (db.insertSyncNode (ndn.wire localName) 0)

theorem tablesAfter_perform
    (performed : source.perform ndn sha256 call = some target) :
    TablesAfter ndn sha256 source.db call target.db := by
  cases call with
  | updateDeviceSeqNo name seqNo =>
      obtain rfl := Option.some.inj performed
      exact .updateDeviceSeqNo name seqNo
  | getNextLocalSeqNo =>
      obtain ⟨⟨seqNo, next⟩, taken, rfl⟩ := Option.map_eq_some_iff.mp performed
      unfold SyncLog.getNextLocalSeqNo at taken
      cases found : source.db.syncNodes.find? fun row =>
          row.deviceId = source.localDeviceId with
      | none => simp [found] at taken
      | some row =>
          simp only [found, Option.some.injEq, Prod.mk.injEq] at taken
          rw [← taken.2]
          exact .getNextLocalSeqNo source.localDeviceId (row.seqNo + 1)
  | updateLocalSeqNo seqNo =>
      obtain rfl := Option.some.inj performed
      exact .updateLocalSeqNo source.localDeviceId seqNo
  | updateLocator deviceName locator =>
      obtain rfl := Option.some.inj performed
      exact .updateLocator deviceName locator
  | rememberStateInStateLog =>
      obtain rfl := Option.some.inj performed
      exact .rememberStateInStateLog
  | reopen localName =>
      rw [(construct_cases performed).1]
      exact .reopen localName

/-- A call either remembers the state or only lets the table of devices
grow. -/
theorem perform_cases (performed : source.perform ndn sha256 call = some target)
    (wellFormed : WellFormed ndn sha256 source) :
    (call = .rememberStateInStateLog ∧
      target = (source.rememberStateInStateLog sha256).2) ∨
    (call ≠ .rememberStateInStateLog ∧
      NodesGrown ndn source.db target.db) := by
  by_cases remembers : call = .rememberStateInStateLog
  · subst remembers
    exact Or.inl ⟨rfl, (Option.some.inj performed).symm⟩
  · refine Or.inr ⟨remembers, ?_⟩
    have tables := tablesAfter_perform performed
    generalize target.db = after at tables ⊢
    cases tables with
    | updateDeviceSeqNo name seqNo =>
        exact insertSyncNode_nodesGrown wellFormed.db name seqNo
    | getNextLocalSeqNo deviceId seqNo =>
        exact updateSyncNode_nodesGrown wellFormed.db deviceId seqNo
    | updateLocalSeqNo deviceId seqNo =>
        exact updateSyncNode_nodesGrown wellFormed.db deviceId seqNo
    | updateLocator deviceName locator =>
        exact updateLocator_nodesGrown wellFormed.db _ _
    | rememberStateInStateLog => exact absurd rfl remembers
    | reopen localName =>
        exact insertSyncNode_nodesGrown wellFormed.db localName 0

theorem served_of_execute {calls : List (Call Name)}
    (executed : execute (perform ndn sha256) (opened ndn localName) calls =
      some (trace, final)) :
    Served ndn sha256 localName trace final := by
  refine ⟨opened ndn localName, ?_, execute_run executed⟩
  simp [construct, SyncDb.empty, insertSyncNode, opened]

theorem Served.reachable (served : Served ndn sha256 localName trace final) :
    Reachable ndn sha256 final := by
  obtain ⟨start, opened, run⟩ := served
  apply run.invariant (.construct opened)
  intro source call target performed reachable
  exact perform_reachable performed reachable

theorem Served.wellFormed (served : Served ndn sha256 localName trace final) :
    WellFormed ndn sha256 final :=
  served.reachable.wellFormed

/-- Induction on the calls served. -/
@[elab_as_elim]
theorem Served.induction {motive : Trace Name → SyncLog Name → Prop}
    (served : Served ndn sha256 localName trace final)
    (opened : ∀ start, construct ndn SyncDb.empty localName = some start →
      motive [] start)
    (called : ∀ trace source call target,
      Served ndn sha256 localName trace source →
      source.perform ndn sha256 call = some target →
      motive trace source → motive (trace ++ [(source, call)]) target) :
    motive trace final := by
  obtain ⟨start, constructed, run⟩ := served
  induction run with
  | nil => exact opened start constructed
  | @snoc trace middle final call prefixRun performed induction =>
      exact called trace middle call final ⟨start, constructed, prefixRun⟩
        performed induction

theorem seqMap_le_perform
    (performed : source.perform ndn sha256 call = some target)
    (wellFormed : WellFormed ndn sha256 source) :
    source.db.seqMap ≤ target.db.seqMap := by
  rcases perform_cases performed wellFormed with ⟨-, rfl⟩ | ⟨-, grown⟩
  · rw [rememberStateInStateLog_seqMap]
  · exact grown.seqMap_le

end SyncLog

end ChronoShare
