import ChronoShare.Fetcher.Window
import ChronoShare.ActionLog.MessageFormat
import Mathlib.Data.List.Chain

/-!
# Retries after a failed fetch

When a fetcher gives up, the manager takes the next forwarding hint for it and
doubles the pause before the next attempt.  What the hint is next depends on
the hint now and on the locator that is known for the device at that time.
-/

namespace ChronoShare

/-- What the manager reads of names: `root` is `ndn::Name ("/")`. -/
structure HintPlatform (Name : Type) where
  size : Name → Nat
  root : Name
  broadcastHint : Name
  root_empty : size root = 0

def Name.hintPlatform : HintPlatform Name where
  size name := name.components.length
  root := .ofComponents []
  broadcastHint := .broadcast
  root_empty := rfl

/-- A fetcher in the list of the manager, with the two members that only the
manager sets; the pause is a whole number of seconds. -/
structure ListedFetcher (Name : Type) where
  fetching : Fetching Name
  retryPause : Nat
  nextScheduledRetry : Int

inductive ListedEvent (Name : Type) where
  | fetcher (event : FetcherEvent Name)
  | didNoDataTimeout (answer : Name) (now : Int)
  deriving DecidableEq, Repr

namespace ListedFetcher

section Retry

variable {Name : Type} [DecidableEq Name] (platform : HintPlatform Name)

def forwardingHint {Name : Type} (listed : ListedFetcher Name) : Name :=
  listed.fetching.fetcher.forwardingHint

/-- `answer` is what `m_mapping` answers, if it is asked. -/
def nextHint (answer hint : Name) : Name :=
  if platform.size hint = 0 then
    if platform.size answer = 0 then platform.broadcastHint else answer
  else if hint = platform.broadcastHint then
    platform.root
  else
    platform.broadcastHint

def nextPause (pause : Nat) : Nat :=
  if pause < 1 then 1 else min (2 * pause) 300

/-- `DidNoDataTimeout` for the fetcher itself. -/
def didNoDataTimeout (listed : ListedFetcher Name) (answer : Name)
    (now : Int) : ListedFetcher Name :=
  let hint := nextHint platform answer listed.forwardingHint
  let delay := nextPause listed.retryPause
  { fetching := { listed.fetching with
      fetcher := { listed.fetching.fetcher with forwardingHint := hint } }
    retryPause := delay
    nextScheduledRetry := now + delay }

/-- The fetcher that `Enqueue` makes at `now`. -/
def enqueue {Name : Type} (deviceName baseName : Name)
    (minSeqNo maxSeqNo : UInt64) (forwardingHint : Name) (now : Int) :
    ListedFetcher Name where
  fetching := .start (.construct deviceName baseName forwardingHint
    minSeqNo.toInt64 maxSeqNo.toInt64 30)
  retryPause := 0
  nextScheduledRetry := now

/-- Only the manager sets the hint, and only when a fetch has failed. -/
def step (decodeData : Bytes → Option (Data Name))
    (listed : ListedFetcher Name) :
    ListedEvent Name → Option (ListedFetcher Name)
  | .fetcher event =>
      match event with
      | .setForwardingHint _ => none
      | _ => (listed.fetching.step decodeData event).map fun fetching =>
          { listed with fetching }
  | .didNoDataTimeout answer now =>
      some (listed.didNoDataTimeout platform answer now)

abbrev ListedTrace (Name : Type) :=
  List (ListedFetcher Name × ListedEvent Name)

/-- The fetcher right after a step that is a failure. -/
def failed (taken : ListedFetcher Name × ListedEvent Name) :
    Option (ListedFetcher Name) :=
  match taken.2 with
  | .didNoDataTimeout answer now =>
      some (taken.1.didNoDataTimeout platform answer now)
  | .fetcher _ => none

/-- The hints of the attempts, the first one and one after every failure. -/
def attempts (start : ListedFetcher Name) (trace : ListedTrace Name) :
    List Name :=
  start.forwardingHint ::
    (trace.filterMap (failed platform)).map (·.forwardingHint)

/-- The pauses after the failures. -/
def pauses (trace : ListedTrace Name) : List Nat :=
  (trace.filterMap (failed platform)).map (·.retryPause)

end Retry

section Runs

variable {Name : Type}

theorem fillPipeline_forwardingHint (fetcher : Fetcher Name) :
    fetcher.fillPipeline.1.forwardingHint = fetcher.forwardingHint := by
  exact Fetcher.fillLoop_invariant
    (fun filled _ => filled.forwardingHint = fetcher.forwardingHint)
    (fun _ _ _ _ same => same) (fun _ _ _ _ _ _ same => same) _ fetcher []
    rfl

theorem runJob_forwardingHint {decodeData : Bytes → Option (Data Name)}
    {source target : Fetching Name} {now : Int} {job : Job Name}
    (ran : source.runJob decodeData now job = some target) :
    target.fetcher.forwardingHint = source.fetcher.forwardingHint := by
  cases job with
  | fillPipeline =>
      rw [← Option.some.inj ran]
      exact fillPipeline_forwardingHint source.fetcher
  | onDataExecute expressed data =>
      obtain ⟨pco, -, rfl⟩ := Option.map_eq_some_iff.mp ran
      rw [Fetching.onDataExecute]
      split_ifs <;> rfl
  | onTimeoutExecute expressed =>
      rw [← Option.some.inj ran, Fetching.onTimeoutExecute,
        Fetcher.dropSegment]
      split_ifs <;> rfl
  | onFetchComplete =>
      rw [← Option.some.inj ran]

theorem fetching_step_forwardingHint
    {decodeData : Bytes → Option (Data Name)} {source target : Fetching Name}
    {event : FetcherEvent Name}
    (taken : source.step decodeData event = some target)
    (unset : ∀ hint, event ≠ .setForwardingHint hint) :
    target.fetcher.forwardingHint = source.fetcher.forwardingHint := by
  cases event with
  | restartPipeline now =>
      rw [← Option.some.inj taken]
      rfl
  | setForwardingHint hint => exact absurd rfl (unset hint)
  | onData index data =>
      obtain ⟨expressed, -, rfl⟩ := Option.map_eq_some_iff.mp taken
      rfl
  | onTimeout index =>
      obtain ⟨expressed, -, rfl⟩ := Option.map_eq_some_iff.mp taken
      rfl
  | execute now =>
      simp only [Fetching.step] at taken
      split at taken
      · cases taken
      · exact (runJob_forwardingHint taken).trans rfl

variable [DecidableEq Name] {platform : HintPlatform Name}
  {decodeData : Bytes → Option (Data Name)}
  {start source target final : ListedFetcher Name}
  {trace : ListedTrace Name}

theorem step_of_not_failed {event : ListedEvent Name}
    (taken : source.step platform decodeData event = some target)
    (fine : failed platform (source, event) = none) :
    target.forwardingHint = source.forwardingHint ∧
      target.retryPause = source.retryPause := by
  cases event with
  | didNoDataTimeout answer now => cases fine
  | fetcher event =>
      simp only [ListedFetcher.step] at taken
      split at taken
      · cases taken
      · rename_i unset
        obtain ⟨fetching, stepped, rfl⟩ := Option.map_eq_some_iff.mp taken
        exact ⟨fetching_step_forwardingHint stepped unset, rfl⟩

theorem step_of_failed {event : ListedEvent Name}
    {after : ListedFetcher Name}
    (taken : source.step platform decodeData event = some target)
    (failure : failed platform (source, event) = some after) :
    target = after ∧ target.retryPause = nextPause source.retryPause ∧
      ∃ answer, target.forwardingHint =
        nextHint platform answer source.forwardingHint := by
  cases event with
  | fetcher event => cases failure
  | didNoDataTimeout answer now =>
      obtain rfl := Option.some.inj taken
      exact ⟨Option.some.inj failure, rfl, answer, rfl⟩

/-- The hint of an attempt is the next one of the attempt before. -/
def Rotates (platform : HintPlatform Name) (hint next : Name) : Prop :=
  ∃ answer, next = nextHint platform answer hint

theorem nextHint_broadcast
    (nonempty : platform.size platform.broadcastHint ≠ 0) (answer : Name) :
    nextHint platform answer platform.broadcastHint = platform.root := by
  rw [nextHint, if_neg nonempty, if_pos rfl]

theorem nextHint_of_other {hint : Name} (nonempty : platform.size hint ≠ 0)
    (other : hint ≠ platform.broadcastHint) (answer : Name) :
    nextHint platform answer hint = platform.broadcastHint := by
  rw [nextHint, if_neg nonempty, if_neg other]

theorem size_nextHint_of_empty
    (nonempty : platform.size platform.broadcastHint ≠ 0) {hint : Name}
    (empty : platform.size hint = 0) (answer : Name) :
    platform.size (nextHint platform answer hint) ≠ 0 := by
  rw [nextHint, if_pos empty]
  split_ifs with unknown
  · exact nonempty
  · exact unknown

theorem rotates_twice (nonempty : platform.size platform.broadcastHint ≠ 0)
    {first second third : Name} (once : Rotates platform first second)
    (twice : Rotates platform second third) :
    platform.broadcastHint ∈ [first, second, third] ∧
      ∃ hint ∈ [first, second, third], platform.size hint = 0 := by
  obtain ⟨answer, rfl⟩ := once
  obtain ⟨other, rfl⟩ := twice
  by_cases empty : platform.size first = 0
  · refine ⟨?_, first, List.mem_cons_self, empty⟩
    have located := size_nextHint_of_empty nonempty empty answer
    by_cases broadcast : nextHint platform answer first =
        platform.broadcastHint
    · simp [broadcast]
    · simp [nextHint_of_other located broadcast]
  · by_cases broadcast : first = platform.broadcastHint
    · subst broadcast
      rw [nextHint_broadcast nonempty]
      exact ⟨List.mem_cons_self, platform.root, by simp, platform.root_empty⟩
    · rw [nextHint_of_other empty broadcast, nextHint_broadcast nonempty]
      exact ⟨by simp, platform.root, by simp, platform.root_empty⟩

def pauseAfter : Nat → Nat
  | 0 => 0
  | failures + 1 => min (2 ^ failures) 300

theorem nextPause_pauseAfter (failures : Nat) :
    nextPause (pauseAfter failures) = pauseAfter (failures + 1) := by
  cases failures with
  | zero => rfl
  | succ failures =>
      have positive := Nat.two_pow_pos failures
      rw [pauseAfter, pauseAfter, nextPause, if_neg (by omega), Nat.pow_succ]
      omega

theorem run_retries
    (run : Run (fun source label target =>
      step platform decodeData source label = some target) start trace final)
    (fresh : start.retryPause = 0) :
    (attempts platform start trace).IsChain (Rotates platform) ∧
      (attempts platform start trace).getLast? = some final.forwardingHint ∧
      pauses platform trace =
        (List.range (pauses platform trace).length).map (pauseAfter <| · + 1) ∧
      final.retryPause = pauseAfter (pauses platform trace).length := by
  induction run with
  | nil => simp [attempts, pauses, pauseAfter, fresh]
  | @snoc trace middle final event prefixRun taken induction =>
      obtain ⟨chain, last, doubled, pause⟩ := induction
      cases failure : failed platform (middle, event) with
      | none =>
          obtain ⟨sameHint, samePause⟩ := step_of_not_failed taken failure
          have same : (trace ++ [(middle, event)]).filterMap
              (failed platform) = trace.filterMap (failed platform) := by
            simp [List.filterMap_append, failure]
          rw [attempts, pauses, same, sameHint, samePause]
          exact ⟨chain, last, doubled, pause⟩
      | some after =>
          obtain ⟨rfl, nextPause, rotates⟩ := step_of_failed taken failure
          have more : (trace ++ [(middle, event)]).filterMap
              (failed platform) =
                trace.filterMap (failed platform) ++ [final] := by
            simp [List.filterMap_append, failure]
          have longer : attempts platform start (trace ++ [(middle, event)]) =
              attempts platform start trace ++ [final.forwardingHint] := by
            rw [attempts, more, List.map_append]
            rfl
          have another : pauses platform (trace ++ [(middle, event)]) =
              pauses platform trace ++ [final.retryPause] := by
            rw [pauses, more, List.map_append]
            rfl
          rw [longer, another, List.length_append, List.length_singleton,
            nextPause, pause, nextPause_pauseAfter]
          refine ⟨?_, List.getLast?_concat, ?_, rfl⟩
          · apply chain.append (List.isChain_singleton _)
            intro hint here next there
            rw [last] at here
            obtain rfl := Option.some.inj here
            obtain rfl : final.forwardingHint = next := by simpa using there
            exact rotates
          · rw [List.range_succ, List.map_append, ← doubled]
            rfl

/-- Whatever happens to a fetcher in between, the pauses after its failures
double up to five minutes, and of any three attempts in a row one uses the
broadcast hint and one the empty hint. -/
theorem failures_rotate
    (nonempty : platform.size platform.broadcastHint ≠ 0)
    {deviceName baseName hint : Name} {minSeqNo maxSeqNo : UInt64} {now : Int}
    (run : Run (fun source label target =>
      step platform decodeData source label = some target)
      (enqueue deviceName baseName minSeqNo maxSeqNo hint now) trace final) :
    (∀ k (failures : k < (pauses platform trace).length),
      (pauses platform trace)[k] = min (2 ^ k) 300) ∧
    ∀ before first second third after,
      attempts platform
          (enqueue deviceName baseName minSeqNo maxSeqNo hint now) trace =
        before ++ first :: second :: third :: after →
      platform.broadcastHint ∈ [first, second, third] ∧
        ∃ empty ∈ [first, second, third], platform.size empty = 0 := by
  obtain ⟨chain, -, doubled, -⟩ := run_retries run rfl
  constructor
  · intro k failures
    have read : (pauses platform trace)[k] = pauseAfter (k + 1) := by
      rw [List.getElem_of_eq doubled, List.getElem_map, List.getElem_range]
    exact read
  · intro before first second third after split
    rw [split] at chain
    have infixChain := chain.right_of_append
    rw [List.isChain_cons_cons, List.isChain_cons_cons] at infixChain
    exact rotates_twice nonempty infixChain.1 infixChain.2.1

end Runs

/-- Four failures of a fetcher of Bob's, for whom no locator is known. -/
theorem failures_rotate_unlocated :
    ∃ (trace : ListedTrace Name) (final : ListedFetcher Name),
      pauses Name.hintPlatform trace = [1, 2, 4, 8] ∧
      (∀ k (failures : k < (pauses Name.hintPlatform trace).length),
        (pauses Name.hintPlatform trace)[k] = min (2 ^ k) 300) ∧
      ∀ before first second third after,
        attempts Name.hintPlatform
            (enqueue Name.bob Name.bob 1 8 Name.bob 0) trace =
          before ++ first :: second :: third :: after →
        Name.broadcast ∈ [first, second, third] ∧
          ∃ empty ∈ [first, second, third],
            Name.hintPlatform.size empty = 0 := by
  have executed : (execute (step Name.hintPlatform readData)
      (enqueue Name.bob Name.bob 1 8 Name.bob 0)
      [.fetcher (.restartPipeline 0), .didNoDataTimeout Name.bob 35,
        .didNoDataTimeout Name.alex 70,
        .didNoDataTimeout (Name.ofComponents []) 107,
        .didNoDataTimeout Name.bob 146]).any
      (fun result =>
        decide (pauses Name.hintPlatform result.1 = [1, 2, 4, 8])) = true := by
    decide +kernel
  obtain ⟨⟨trace, final⟩, ran, found⟩ :=
    (Option.any_eq_true _ _).mp executed
  have run := execute_run ran
  exact ⟨trace, final, of_decide_eq_true found,
    failures_rotate (by decide) run⟩

end ListedFetcher

end ChronoShare
