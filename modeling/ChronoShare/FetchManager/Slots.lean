import ChronoShare.FetchManager.Threads
import ChronoShare.Ndn.NameText
import Mathlib.Data.List.Perm.Subperm
import Mathlib.Data.List.Count

/-!
# The slots of a fetch manager

A started fetch takes a slot, which is given back when its end is counted.
Each end is counted once if it is the end of a fetch that is under way, and a
fetcher that has received everything is not started again if the two flags are
not read in the middle of its end.
-/

namespace ChronoShare

/-- The fetcher whose end has been decided in a job that goes on. -/
def ExecutorPoint.ends {Name : Type} : ExecutorPoint Name → Option Nat
  | .finishCallback id => some id
  | .onFetchFailed id => some id
  | _ => none

namespace ListedFetcher

variable {Name : Type}

/-- An answer ends a fetch only while its fetcher is active. -/
def EndsActive (listed : ListedFetcher Name) (now : Int) :
    Job Name → Prop
  | .onDataExecute expressed _ =>
      listed.fetching.fetcher.Completes expressed.seqno →
        listed.isActive = true
  | .onTimeoutExecute _ =>
      listed.fetching.GivesUp now → listed.isActive = true
  | _ => True

instance (listed : ListedFetcher Name) (now : Int) (job : Job Name) :
    Decidable (listed.EndsActive now job) :=
  match job with
  | .onDataExecute _ _ => inferInstanceAs (Decidable (_ → _))
  | .onTimeoutExecute _ => inferInstanceAs (Decidable (_ → _))
  | .fillPipeline => .isTrue trivial
  | .onFetchComplete => .isTrue trivial

end ListedFetcher

namespace FetchThreads

variable {Name : Type}

/-- The fetches that have been started and whose ends have not been counted. -/
def openFetches (threads : FetchThreads Name) : Nat :=
  (threads.started.diff threads.counted).length

/-- The thread of the executor counts a failure next, or the end of a fetch
waits to be counted. -/
def AboutToCount (threads : FetchThreads Name) : Prop :=
  ∃ id, threads.point = some (.onFetchFailed id) ∨ 0 < threads.completions id

/-- The counter is the number of open fetches, within the limit, and does not
run below zero; no fetcher that has received everything is restarted. -/
structure Slotted (threads : FetchThreads Name) : Prop where
  bounded : threads.currentParallelFetches ≤ threads.maxParallelFetches
  counted : threads.currentParallelFetches.toNat = threads.openFetches
  positive : threads.AboutToCount → 0 < threads.currentParallelFetches
  missing : ∀ scan id remaining listed, threads.scan = some scan →
    scan.remaining = id :: remaining → scan.point = .restart →
      threads.fetchers[id]? = some listed → ¬ listed.fetching.ReceivedAll

def EndsActive (threads : FetchThreads Name) : ThreadStep Name → Prop
  | .execute now => ∀ next ∈ threads.nextJob,
      next.2.1.EndsActive now next.2.2.1
  | _ => True

instance (threads : FetchThreads Name) (label : ThreadStep Name) :
    Decidable (threads.EndsActive label) :=
  match label with
  | .execute _ => inferInstanceAs (Decidable (∀ next ∈ threads.nextJob, _))
  | .enqueue _ _ _ _ _ _ _ | .scheduleFetches _ | .scan _ | .onData _ _ _
  | .onTimeout _ _ | .proceed _ _ | .scheduler _ | .timedWait =>
      .isTrue trivial

/-- `ScheduleFetches` does not read `m_timedwait` of a fetcher whose finish
callback is running. -/
def LooksAside (threads : FetchThreads Name) : ThreadStep Name → Prop
  | .scan _ =>
      ∀ scan ∈ threads.scan, scan.point = .isTimedWait →
        ∀ id ∈ scan.remaining.head?, threads.point ≠ some (.finishCallback id)
  | _ => True

instance [DecidableEq Name] (threads : FetchThreads Name)
    (label : ThreadStep Name) : Decidable (threads.LooksAside label) :=
  match label with
  | .scan _ => inferInstanceAs (Decidable
      (∀ scan ∈ threads.scan, _ → ∀ id ∈ scan.remaining.head?, _))
  | .enqueue _ _ _ _ _ _ _ | .scheduleFetches _ | .execute _ | .onData _ _ _
  | .onTimeout _ _ | .proceed _ _ | .scheduler _ | .timedWait =>
      .isTrue trivial

/-- What keeps the slots in order. -/
def KeepsSlots (threads : FetchThreads Name) (label : ThreadStep Name) :
    Prop :=
  threads.EndsActive label ∧ threads.LooksAside label ∧
    threads.WithinRange label

instance [DecidableEq Name] (threads : FetchThreads Name)
    (label : ThreadStep Name) : Decidable (threads.KeepsSlots label) :=
  inferInstanceAs (Decidable (_ ∧ _ ∧ _))

def ending (threads : FetchThreads Name) (id : Nat) : Nat :=
  if threads.point.bind ExecutorPoint.ends = some id then 1 else 0

/-- The fetches of a fetcher that have been started and not been counted: the
one that is under way and those whose end has been decided. -/
def uncounted (threads : FetchThreads Name) (id : Nat) : Nat :=
  (threads.isActive id).toNat + threads.ending id + threads.completions id

structure Balanced (threads : FetchThreads Name) : Prop where
  each : ∀ id, threads.started.count id =
    threads.counted.count id + threads.uncounted id
  total : threads.currentParallelFetches.toNat + threads.counted.length =
    threads.started.length
  bounded : threads.currentParallelFetches ≤ threads.maxParallelFetches

variable {source target threads : FetchThreads Name}

theorem construct_balanced (parallelFetches : UInt32) :
    (construct parallelFetches : FetchThreads Name).Balanced := by
  refine ⟨fun id => rfl, rfl, ?_⟩
  exact UInt32.le_iff_toNat_le.mpr (Nat.zero_le _)

theorem Balanced.positive (balanced : threads.Balanced) {id : Nat}
    (waits : 0 < threads.uncounted id) :
    threads.counted.length < threads.started.length := by
  have included : (threads.counted ++ [id]).Subperm threads.started := by
    apply List.subperm_iff_count.mpr
    intro other
    have each := balanced.each other
    rw [List.count_append, List.count_singleton]
    split_ifs with same
    · obtain rfl : id = other := by simpa using same
      omega
    · omega
  have shorter := included.length_le
  rw [List.length_append] at shorter
  exact shorter

theorem Balanced.openFetches (balanced : threads.Balanced) :
    threads.currentParallelFetches.toNat = threads.openFetches := by
  have divided := List.subperm_append_diff_self_of_count_le
    (fun id _ => (Nat.le_add_right _ _).trans_eq (balanced.each id).symm)
  have length := divided.length_eq
  have total := balanced.total
  rw [List.length_append] at length
  rw [FetchThreads.openFetches]
  omega

theorem Balanced.of_same (balanced : source.Balanced)
    (counter : target.currentParallelFetches = source.currentParallelFetches)
    (limit : target.maxParallelFetches = source.maxParallelFetches)
    (started : target.started = source.started)
    (counted : target.counted = source.counted)
    (uncounted : ∀ id, target.uncounted id = source.uncounted id) :
    target.Balanced := by
  refine ⟨?_, ?_, ?_⟩
  · intro id
    rw [started, counted, uncounted]
    exact balanced.each id
  · rw [counter, started, counted]
    exact balanced.total
  · rw [counter, limit]
    exact balanced.bounded

theorem Balanced.countEnd (balanced : source.Balanced) {id : Nat}
    (counter : target.currentParallelFetches =
      source.currentParallelFetches - 1)
    (limit : target.maxParallelFetches = source.maxParallelFetches)
    (started : target.started = source.started)
    (counted : target.counted = source.counted ++ [id])
    (uncounted : ∀ other, source.uncounted other =
      target.uncounted other + if other = id then 1 else 0) :
    target.Balanced := by
  have total := balanced.total
  have shorter : source.counted.length < source.started.length := by
    have waits : 0 < source.uncounted id := by
      rw [uncounted, if_pos rfl]
      exact Nat.succ_pos _
    exact balanced.positive waits
  have some : 1 ≤ source.currentParallelFetches := by
    rw [UInt32.le_iff_toNat_le, UInt32.toNat_one]
    omega
  have fewer : (source.currentParallelFetches - 1).toNat =
      source.currentParallelFetches.toNat - 1 :=
    UInt32.toNat_sub_of_le _ _ some
  refine ⟨?_, ?_, ?_⟩
  · intro other
    have each := balanced.each other
    rw [uncounted] at each
    rw [started, counted, List.count_append, List.count_singleton]
    by_cases same : other = id
    · rw [if_pos same] at each
      rw [same] at each ⊢
      simp only [BEq.rfl, if_true]
      omega
    · rw [if_neg same] at each
      have different : (id == other) = false := by
        simpa using Ne.symm same
      rw [different]
      simpa using each
  · rw [counter, started, counted, fewer, List.length_append]
    simp only [List.length_singleton]
    omega
  · have bounded := UInt32.le_iff_toNat_le.mp balanced.bounded
    rw [counter, limit, UInt32.le_iff_toNat_le, fewer]
    omega

/-- Past its first look at a fetcher the loop has a slot for it, and the fetcher
is not active; past its second look the fetcher is neither in its final wait
nor about to enter it. -/
def Watched (threads : FetchThreads Name) : Prop :=
  ∀ scan ∈ threads.scan, ∀ id ∈ scan.remaining.head?,
    scan.point ≠ .isActive →
      threads.currentParallelFetches < threads.maxParallelFetches ∧
        threads.isActive id = false ∧
        (scan.point ≠ .isTimedWait → threads.isTimedWait id = false ∧
          threads.point ≠ some (.finishCallback id))

theorem watched_of_free (free : threads.scan = none) : threads.Watched := by
  intro scan scanning
  rw [free] at scanning
  cases scanning

/-- A step of another thread that starts no fetcher and ends no inactive
one. -/
theorem Watched.of_same (watched : source.Watched)
    (scan : target.scan = source.scan)
    (counter : target.currentParallelFetches = source.currentParallelFetches)
    (limit : target.maxParallelFetches = source.maxParallelFetches)
    (active : ∀ id, source.isActive id = false → target.isActive id = false)
    (ends : ∀ id, source.isActive id = false →
      source.isTimedWait id = false ∧
        source.point ≠ some (.finishCallback id) →
      target.isTimedWait id = false ∧
        target.point ≠ some (.finishCallback id)) : target.Watched := by
  intro held scanning id first past
  rw [scan] at scanning
  obtain ⟨room, inactive, apart⟩ := watched held scanning id first past
  rw [counter, limit]
  exact ⟨room, active id inactive,
    fun twice => ends id inactive (apart twice)⟩

/-- The fetchers that are neither in their final wait nor about to enter it
have not received everything. -/
def Unended (threads : FetchThreads Name) : Prop :=
  ∀ id listed, threads.fetchers[id]? = some listed →
    listed.isTimedWait = false →
      threads.point ≠ some (.finishCallback id) →
        listed.fetching.Unfinished

theorem Unended.put (unended : source.Unended) {id : Nat}
    {changed : ListedFetcher Name}
    (fetchers : target.fetchers = source.fetchers.set id changed)
    (others : ∀ other, other ≠ id →
      target.point ≠ some (.finishCallback other) →
        source.point ≠ some (.finishCallback other))
    (here : changed.isTimedWait = false →
      target.point ≠ some (.finishCallback id) →
        changed.fetching.Unfinished) : target.Unended := by
  intro other listed found unwaiting apart
  rw [fetchers] at found
  by_cases same : other = id
  · rw [same, List.getElem?_set] at found
    simp only [if_true] at found
    split_ifs at found
    obtain rfl := Option.some.inj found
    rw [same] at apart
    exact here unwaiting apart
  · rw [List.getElem?_set_ne (Ne.symm same)] at found
    exact unended other listed found unwaiting (others other same apart)

theorem Unended.of_same (unended : source.Unended)
    (fetchers : target.fetchers = source.fetchers)
    (point : ∀ id, target.point ≠ some (.finishCallback id) →
      source.point ≠ some (.finishCallback id)) : target.Unended := by
  intro id listed found unwaiting apart
  rw [fetchers] at found
  exact unended id listed found unwaiting (point id apart)

structure InSlots (threads : FetchThreads Name) : Prop where
  balanced : threads.Balanced
  watched : threads.Watched
  unended : threads.Unended

theorem InSlots.slotted (slots : threads.InSlots) : threads.Slotted where
  bounded := slots.balanced.bounded
  counted := slots.balanced.openFetches
  positive := by
    rintro ⟨id, waits⟩
    have uncounted : 0 < threads.uncounted id := by
      rw [FetchThreads.uncounted]
      rcases waits with failed | completed
      · have here : threads.ending id = 1 := by
          rw [ending, failed]
          exact if_pos rfl
        omega
      · omega
    have shorter := slots.balanced.positive uncounted
    have total := slots.balanced.total
    rw [UInt32.lt_iff_toNat_lt, UInt32.toNat_zero]
    omega
  missing := by
    intro scan id remaining listed scanning next starts found
    have first : id ∈ scan.remaining.head? := by rw [next]; rfl
    obtain ⟨-, -, apart⟩ := slots.watched scan scanning id first
      (by rw [starts]; nofun)
    obtain ⟨unwaiting, point⟩ := apart (by rw [starts]; nofun)
    rw [isTimedWait, view_of_found found] at unwaiting
    exact (slots.unended id listed found unwaiting point).not_receivedAll

theorem construct_inSlots (parallelFetches : UInt32) :
    (construct parallelFetches : FetchThreads Name).InSlots := by
  refine ⟨construct_balanced parallelFetches, watched_of_free rfl, ?_⟩
  intro id listed found
  cases found

section Act

variable {id : Nat} {listed changed : ListedFetcher Name} (order : List Nat)
  {point : Option (ExecutorPoint Name)}

theorem uncounted_found (found : source.fetchers[id]? = some listed) :
    source.uncounted id = listed.isActive.toNat + source.ending id +
      listed.fetching.completions := by
  rw [uncounted, isActive, view_of_found found, completions,
    view_of_found found]

theorem uncounted_act_self (found : source.fetchers[id]? = some listed) :
    (source.act id changed order point).uncounted id =
      changed.isActive.toNat +
        (if point.bind ExecutorPoint.ends = some id then 1 else 0) +
        changed.fetching.completions := by
  have active := isActive_act found changed order point id
  have completions := completions_act found changed order point id
  rw [if_pos rfl] at active completions
  rw [uncounted, active, completions]
  rfl

theorem uncounted_act_of_ne (found : source.fetchers[id]? = some listed)
    {other : Nat} (different : other ≠ id)
    (same : point.bind ExecutorPoint.ends = some other ↔
      source.point.bind ExecutorPoint.ends = some other) :
    (source.act id changed order point).uncounted other = source.uncounted other := by
  have active := isActive_act found changed order point other
  have completions := completions_act found changed order point other
  rw [if_neg different] at active completions
  have ending : (source.act id changed order point).ending other =
      source.ending other := if_congr same rfl rfl
  rw [uncounted, uncounted, active, completions, ending]

theorem Balanced.act (balanced : source.Balanced)
    (found : source.fetchers[id]? = some listed)
    (here : changed.isActive.toNat +
        (if point.bind ExecutorPoint.ends = some id then 1 else 0) +
        changed.fetching.completions = source.uncounted id)
    (others : ∀ other, other ≠ id →
      (point.bind ExecutorPoint.ends = some other ↔
        source.point.bind ExecutorPoint.ends = some other)) :
    (source.act id changed order point).Balanced := by
  refine balanced.of_same rfl rfl rfl rfl ?_
  intro other
  by_cases same : other = id
  · rw [same, uncounted_act_self order found]
    exact here
  · exact uncounted_act_of_ne order found same (others other same)

theorem Watched.act (watched : source.Watched)
    (found : source.fetchers[id]? = some listed)
    (inactive : listed.isActive = false → changed.isActive = false)
    (here : listed.isActive = false → listed.isTimedWait = false →
      source.point ≠ some (.finishCallback id) →
        changed.isTimedWait = false ∧ point ≠ some (.finishCallback id))
    (others : ∀ other, other ≠ id →
      source.point ≠ some (.finishCallback other) →
        point ≠ some (.finishCallback other)) :
    (source.act id changed order point).Watched := by
  have activeBefore : source.isActive id = listed.isActive :=
    view_of_found found
  have timedwaitBefore : source.isTimedWait id = listed.isTimedWait :=
    view_of_found found
  refine watched.of_same rfl rfl rfl ?_ ?_
  · intro other unset
    rw [isActive_act found]
    split_ifs with same
    · rw [same, activeBefore] at unset
      exact inactive unset
    · exact unset
  · intro other unset apart
    rw [isTimedWait_act found]
    by_cases same : other = id
    · rw [same, activeBefore] at unset
      rw [same, timedwaitBefore] at apart
      rw [if_pos same, same]
      exact here unset apart.1 apart.2
    · rw [if_neg same]
      exact ⟨apart.1, others other same apart.2⟩

end Act

section Steps

variable {id : Nat} {listed changed : ListedFetcher Name} (order : List Nat)

theorem InSlots.of_same (slots : source.InSlots)
    (fetchers : target.fetchers = source.fetchers)
    (scan : target.scan = source.scan ∨ target.scan = none)
    (counter : target.currentParallelFetches = source.currentParallelFetches)
    (limit : target.maxParallelFetches = source.maxParallelFetches)
    (started : target.started = source.started)
    (counted : target.counted = source.counted)
    (point : target.point = source.point ∨ ∃ other baseName,
      source.point = some (.timedWait other baseName) ∧
        target.point = none) : target.InSlots := by
  have active : ∀ other, target.isActive other = source.isActive other := by
    intro other
    rw [isActive, isActive, view, view, fetchers]
  have timedwait : ∀ other,
      target.isTimedWait other = source.isTimedWait other := by
    intro other
    rw [isTimedWait, isTimedWait, view, view, fetchers]
  have completions : ∀ other,
      target.completions other = source.completions other := by
    intro other
    rw [FetchThreads.completions, FetchThreads.completions, view, view,
      fetchers]
  have ending : ∀ other, target.ending other = source.ending other := by
    intro other
    rw [FetchThreads.ending, FetchThreads.ending]
    rcases point with same | ⟨_, _, before, after⟩
    · rw [same]
    · rw [before, after]
      rfl
  have calling : ∀ other, source.point ≠ some (.finishCallback other) ↔
      target.point ≠ some (.finishCallback other) := by
    intro other
    rcases point with same | ⟨_, _, before, after⟩
    · rw [same]
    · rw [before, after]
      simp
  refine ⟨?_, ?_, ?_⟩
  · apply slots.balanced.of_same counter limit started counted
    intro other
    rw [uncounted, uncounted, active, ending, completions]
  · rcases scan with same | free
    · apply slots.watched.of_same same counter limit
      · intro other unset
        rw [active]
        exact unset
      · intro other _ apart
        rw [timedwait]
        exact ⟨apart.1, (calling other).mp apart.2⟩
    · exact watched_of_free free
  · exact slots.unended.of_same fetchers fun other => (calling other).mpr

theorem InSlots.addFetcher (slots : source.InSlots) (fresh : Fresh listed)
    (priority : Int) (free : source.scan = none) :
    (source.addFetcher listed priority).InSlots := by
  refine ⟨?_, watched_of_free free, ?_⟩
  · refine slots.balanced.of_same rfl rfl rfl rfl fun other => ?_
    rw [uncounted, uncounted, isActive_addFetcher fresh,
      completions_addFetcher fresh]
    rfl
  · intro other found present unwaiting apart
    have here : (source.fetchers ++ [listed])[other]? = some found := present
    rw [List.getElem?_append] at here
    split_ifs at here
    · exact slots.unended other found here unwaiting apart
    · have last : found ∈ [listed] := List.mem_of_getElem? here
      rw [List.mem_singleton.mp last]
      exact fresh.unfinished

theorem InSlots.look (slots : source.InSlots) {now : Int} {scan : Scan}
    {remaining : List Nat} (keeps : source.LooksAside (.scan now))
    (scanning : source.scan = some scan)
    (next : scan.remaining = id :: remaining)
    (found : source.fetchers[id]? = some listed)
    (room : scan.point = .isActive →
      source.currentParallelFetches < source.maxParallelFetches) :
    InSlots { source with scan := some (scan.look remaining listed) } := by
  refine ⟨?_, ?_, ?_⟩
  · exact slots.balanced.of_same rfl rfl rfl rfl fun _ => rfl
  · have activeHere : source.isActive id = listed.isActive :=
      view_of_found found
    have timedwaitHere : source.isTimedWait id = listed.isTimedWait :=
      view_of_found found
    have first : id ∈ scan.remaining.head? := by rw [next]; rfl
    intro after here other member past
    obtain rfl := Option.some.inj here
    cases point : scan.point with
    | isActive =>
        rw [Scan.look, point] at member past ⊢
        by_cases active : listed.isActive = true
        · simp only [if_pos active] at past
          exact absurd rfl past
        · simp only [if_neg active, next] at member ⊢
          obtain rfl := Option.some.inj member
          rw [← activeHere] at active
          exact ⟨room point, eq_false_of_ne_true active,
            fun twice => absurd rfl twice⟩
    | isTimedWait =>
        obtain ⟨free, inactive, -⟩ := slots.watched scan scanning id first
          (by rw [point]; nofun)
        rw [Scan.look, point] at member past ⊢
        by_cases timedwait : listed.isTimedWait = true
        · simp only [if_pos timedwait] at past
          exact absurd rfl past
        · simp only [if_neg timedwait, next] at member ⊢
          obtain rfl := Option.some.inj member
          rw [← timedwaitHere] at timedwait
          exact ⟨free, inactive, fun _ => ⟨eq_false_of_ne_true timedwait,
            keeps scan scanning point id first⟩⟩
    | isDelayed =>
        obtain ⟨free, inactive, apart⟩ := slots.watched scan scanning id first
          (by rw [point]; nofun)
        have apart := apart (by rw [point]; nofun)
        rw [Scan.look, point] at member past ⊢
        by_cases later : scan.currentTime < listed.nextScheduledRetry
        · simp only [if_pos later] at past
          split_ifs at past <;> exact absurd rfl past
        · simp only [if_neg later, next] at member ⊢
          obtain rfl := Option.some.inj member
          exact ⟨free, inactive, fun _ => apart⟩
    | restart =>
        rw [Scan.look, point] at past
        exact absurd rfl past
  · exact slots.unended.of_same rfl fun _ apart => apart

theorem uncounted_restart (found : source.fetchers[id]? = some listed)
    (inactive : source.isActive id = false) (scan : Scan)
    (remaining : List Nat) (now : Int) (other : Nat) :
    (source.restart scan id remaining listed now).uncounted other =
      source.uncounted other + if id = other then 1 else 0 := by
  have sameAs : (source.restart scan id remaining listed now).uncounted other =
      (source.act id (listed.restartPipeline now) source.order
        source.point).uncounted other := rfl
  rw [sameAs]
  split_ifs with same
  · obtain rfl := same
    have idle : listed.isActive = false := by
      rw [← inactive]
      exact (view_of_found found).symm
    have completions : (listed.restartPipeline now).fetching.completions =
        listed.fetching.completions :=
      completions_append listed.fetching .fillPipeline
    rw [uncounted_act_self _ found, uncounted_found found, idle, completions]
    simp only [ListedFetcher.isActive, ListedFetcher.restartPipeline,
      Fetcher.restartPipeline, Bool.toNat_true, Bool.toNat_false]
    rw [ending]
    omega
  · exact uncounted_act_of_ne _ found (Ne.symm same) Iff.rfl

theorem InSlots.restart (slots : source.InSlots) {scan : Scan}
    {remaining : List Nat} (scanning : source.scan = some scan)
    (next : scan.remaining = id :: remaining)
    (found : source.fetchers[id]? = some listed)
    (starts : scan.point = .restart) (now : Int) :
    (source.restart scan id remaining listed now).InSlots := by
  have first : id ∈ scan.remaining.head? := by rw [next]; rfl
  obtain ⟨room, inactive, apart⟩ := slots.watched scan scanning id first
    (by rw [starts]; nofun)
  obtain ⟨unwaiting, point⟩ := apart (by rw [starts]; nofun)
  have counter : (source.currentParallelFetches + 1).toNat =
      source.currentParallelFetches.toNat + 1 := uint32_toNat_succ room
  refine ⟨⟨?_, ?_, ?_⟩, ?_, ?_⟩
  · intro other
    have each := slots.balanced.each other
    have after := uncounted_restart found inactive scan remaining now other
    have count : (source.restart scan id remaining listed now).started.count
        other = source.started.count other + if id = other then 1 else 0 := by
      rw [FetchThreads.restart, List.count_append, List.count_singleton]
      simp
    have counted : (source.restart scan id remaining listed now).counted =
        source.counted := rfl
    rw [after, count, counted, each]
    omega
  · rw [FetchThreads.restart, List.length_append, List.length_singleton]
    have total := slots.balanced.total
    simp only [counter]
    omega
  · have below := UInt32.lt_iff_toNat_lt.mp room
    rw [UInt32.le_iff_toNat_le]
    simp only [FetchThreads.restart, counter]
    exact below
  · intro after here other member past
    obtain rfl := Option.some.inj here
    exact absurd rfl past
  · refine slots.unended.put rfl (fun other _ apart => apart) ?_
    intro _ _
    rw [isTimedWait, view_of_found found] at unwaiting
    have unfinished := slots.unended id listed found unwaiting point
    exact unfinished.restartPipeline now

theorem uncounted_countEnd (threads : FetchThreads Name)
    {point : ExecutorPoint Name} (counts : point.ends = none) (other : Nat) :
    (threads.countEnd id point).uncounted other =
      (threads.isActive other).toNat + threads.completions other := by
  have ending : (threads.countEnd id point).ending other = 0 := by
    rw [FetchThreads.ending, FetchThreads.countEnd, Option.bind_some, counts]
    exact if_neg nofun
  rw [uncounted, ending]
  rfl

theorem InSlots.complete (slots : source.InSlots) (idle : source.point = none)
    (free : source.scan = none) (found : source.fetchers[id]? = some listed)
    (active : changed.isActive = listed.isActive)
    (timedwait : changed.isTimedWait = listed.isTimedWait)
    (completions : listed.fetching.completions =
      changed.fetching.completions + 1)
    (unfinished : listed.fetching.Unfinished →
      changed.fetching.Unfinished) (baseName : Name) :
    ((source.act id changed order none).countEnd id
      (.timedWait id baseName)).InSlots := by
  refine ⟨?_, watched_of_free free, ?_⟩
  · refine slots.balanced.countEnd rfl rfl rfl rfl fun other => ?_
    rw [uncounted_countEnd _ rfl, isActive_act found, completions_act found]
    split_ifs with same
    · rw [same, uncounted_found found, ending, idle, active, completions]
      simp only [Option.bind_none, reduceCtorEq, if_false]
      omega
    · rw [uncounted, ending, idle]
      simp
  · refine slots.unended.put rfl (fun other _ _ => by rw [idle]; nofun) ?_
    intro unwaiting _
    rw [timedwait] at unwaiting
    apply unfinished
    exact slots.unended id listed found unwaiting (by rw [idle]; nofun)

theorem InSlots.countFailure (slots : source.InSlots)
    (failed : source.point = some (.onFetchFailed id))
    (free : source.scan = none) :
    (source.countEnd id (.nextRetry id)).InSlots := by
  refine ⟨?_, watched_of_free free, ?_⟩
  · refine slots.balanced.countEnd rfl rfl rfl rfl fun other => ?_
    rw [uncounted_countEnd _ rfl, uncounted, ending, failed]
    by_cases same : other = id
    · simp [ExecutorPoint.ends, same]
      omega
    · simp [ExecutorPoint.ends, same, Ne.symm same]
  · refine slots.unended.of_same rfl fun other _ => ?_
    rw [failed]
    nofun

theorem InSlots.work (slots : source.InSlots)
    {point : Option (ExecutorPoint Name)} {careful : Prop} (safe : careful)
    (found : source.fetchers[id]? = some listed)
    (works : Works listed changed careful)
    (goesOn : point = source.point ∨
      ∃ other, source.point = some (.nextRetry other) ∧ point = none) :
    (source.act id changed order point).InSlots := by
  have same : point.bind ExecutorPoint.ends =
      source.point.bind ExecutorPoint.ends := by
    rcases goesOn with rfl | ⟨other, here, rfl⟩
    · rfl
    · rw [here]
      rfl
  have calling : ∀ other, source.point ≠ some (.finishCallback other) ↔
      point ≠ some (.finishCallback other) := by
    intro other
    rcases goesOn with rfl | ⟨_, here, rfl⟩
    · rfl
    · rw [here]
      simp
  refine ⟨slots.balanced.act order found ?_ ?_,
    slots.watched.act order found ?_ ?_ ?_, slots.unended.put rfl ?_ ?_⟩
  · rw [works.active, works.completions, same, uncounted_found found]
    rfl
  · intro other _
    rw [same]
  · rw [works.active]
    exact fun unset => unset
  · intro _ unwaiting apart
    rw [works.timedwait]
    exact ⟨unwaiting, (calling id).mp apart⟩
  · exact fun other _ => (calling other).mp
  · exact fun other _ => (calling other).mpr
  · intro unwaiting apart
    rw [works.timedwait] at unwaiting
    exact works.unfinished safe unwaiting
      (slots.unended id listed found unwaiting ((calling id).mpr apart))

theorem InSlots.finish (slots : source.InSlots) (idle : source.point = none)
    (found : source.fetchers[id]? = some listed)
    (active : listed.isActive = true) (inactive : changed.isActive = false)
    (completions : changed.fetching.completions =
      listed.fetching.completions) :
    (source.act id changed order (some (.finishCallback id))).InSlots := by
  refine ⟨slots.balanced.act order found ?_ ?_,
    slots.watched.act order found ?_ ?_ ?_, slots.unended.put rfl ?_ ?_⟩
  · rw [uncounted_found found, ending, idle, active, inactive, completions]
    simp [ExecutorPoint.ends]
  · intro other different
    rw [idle]
    simp [ExecutorPoint.ends, Ne.symm different]
  · exact fun _ => inactive
  · intro unset
    rw [active] at unset
    cases unset
  · intro other different _
    simpa using Ne.symm different
  · intro other _ _
    rw [idle]
    nofun
  · exact fun _ apart => absurd rfl apart

theorem InSlots.giveUp (slots : source.InSlots) (idle : source.point = none)
    (found : source.fetchers[id]? = some listed)
    (active : listed.isActive = true) (inactive : changed.isActive = false)
    (timedwait : changed.isTimedWait = listed.isTimedWait)
    (completions : changed.fetching.completions =
      listed.fetching.completions)
    (unfinished : listed.fetching.Unfinished →
      changed.fetching.Unfinished) :
    (source.act id changed order (some (.onFetchFailed id))).InSlots := by
  have before : ∀ other, source.point ≠ some (.finishCallback other) := by
    intro other
    rw [idle]
    nofun
  refine ⟨slots.balanced.act order found ?_ ?_,
    slots.watched.act order found ?_ ?_ ?_, slots.unended.put rfl ?_ ?_⟩
  · rw [uncounted_found found, ending, idle, active, inactive, completions]
    simp [ExecutorPoint.ends]
  · intro other different
    rw [idle]
    simp [ExecutorPoint.ends, Ne.symm different]
  · exact fun _ => inactive
  · intro unset
    rw [active] at unset
    cases unset
  · exact fun other _ _ => nofun
  · exact fun other _ _ => before other
  · intro unwaiting _
    rw [timedwait] at unwaiting
    exact unfinished (slots.unended id listed found unwaiting (before id))

theorem InSlots.enterTimedWait (slots : source.InSlots)
    (calling : source.point = some (.finishCallback id))
    (found : source.fetchers[id]? = some listed)
    (active : changed.isActive = listed.isActive)
    (timedwait : changed.isTimedWait = true)
    (completions : changed.fetching.completions =
      listed.fetching.completions + 1) :
    (source.act id changed order none).InSlots := by
  refine ⟨slots.balanced.act order found ?_ ?_,
    slots.watched.act order found ?_ ?_ ?_, slots.unended.put rfl ?_ ?_⟩
  · rw [uncounted_found found, ending, calling, active, completions]
    simp only [Option.bind_none, Option.bind_some, ExecutorPoint.ends,
      if_true, reduceCtorEq, if_false]
    omega
  · intro other different
    rw [calling]
    simp [ExecutorPoint.ends, Ne.symm different]
  · rw [active]
    exact fun unset => unset
  · exact fun _ _ apart => absurd calling apart
  · exact fun other _ _ => nofun
  · intro other different _
    rw [calling]
    simpa using Ne.symm different
  · intro unwaiting
    rw [timedwait] at unwaiting
    cases unwaiting

theorem InSlots.beginScan (slots : source.InSlots) (now : Int) :
    (source.beginScan now).InSlots := by
  refine ⟨?_, ?_, ?_⟩
  · exact slots.balanced.of_same rfl rfl rfl rfl fun _ => rfl
  · intro after here other member past
    obtain rfl := Option.some.inj here
    exact absurd rfl past
  · exact slots.unended.of_same rfl fun _ apart => apart

end Steps

theorem step_inSlots {baseTag : Name → Bytes} {label : ThreadStep Name}
    (keeps : source.KeepsSlots label)
    (moves : Moves baseTag source label target) (slots : source.InSlots) :
    target.InSlots := by
  obtain ⟨ends, aside, within⟩ := keeps
  cases moves with
  | refuse => exact slots
  | addFetcher priority fresh free => exact slots.addFetcher fresh priority free
  | beginScan now free => exact slots.beginScan now
  | endScan =>
      exact slots.of_same rfl (.inr rfl) rfl rfl rfl rfl (.inl rfl)
  | look scanning next found room reads =>
      exact slots.look aside scanning next found room
  | restart scanning next found starts =>
      exact slots.restart scanning next found starts _
  | work order found works goesOn =>
      exact slots.work order within found works goesOn
  | finish order idle next completes inactive timedwait completions =>
      exact slots.finish order idle (nextJob_cases next).1
        (ends _ next completes)
        inactive completions
  | giveUp order idle next givesUp inactive timedwait completions unfinished =>
      exact slots.giveUp order idle (nextJob_cases next).1
        (ends _ next givesUp)
        inactive timedwait completions unfinished
  | complete order idle free found active timedwait completions unfinished =>
      exact slots.complete order idle free found active timedwait completions
        unfinished _
  | enterTimedWait order calling found active timedwait completions =>
      exact slots.enterTimedWait order calling found active timedwait
        completions
  | countFailure failed free => exact slots.countFailure failed free
  | scheduleTimedWait here =>
      exact slots.of_same rfl (.inl rfl) rfl rfl rfl rfl
        (.inr ⟨_, _, here, rfl⟩)
  | scheduler proceeds taken =>
      exact slots.of_same rfl (.inl rfl) rfl rfl rfl rfl (.inl rfl)
  | dispose free runs bound taken =>
      exact slots.of_same rfl (.inl rfl) rfl rfl rfl rfl (.inl rfl)

/-- In every interleaving in which only active fetchers end, in which the loop
of `ScheduleFetches` does not look at the second flag of a fetcher in the middle
of its end, and in which no fetch runs past its end, the slots are in order in
every state. -/
theorem slotted_of_keepsSlots [DecidableEq Name]
    {decodeData : Bytes → Option (Data Name)} {platform : HintPlatform Name}
    {baseTag : Name → Bytes} {parallelFetches : UInt32}
    {trace : List (FetchThreads Name × ThreadStep Name)}
    {final : FetchThreads Name}
    (runs : Runs decodeData platform baseTag parallelFetches trace final)
    (keeps : ∀ taken ∈ trace, KeepsSlots taken.1 taken.2) : final.Slotted := by
  have slots : final.InSlots := by
    apply runs.invariant_of_steps KeepsSlots keeps
      (construct_inSlots parallelFetches)
    intro source label target safe taken earlier
    exact step_inSlots safe (step_moves taken) earlier
  exact slots.slotted

end FetchThreads

namespace FetchThreads

/-- A fetch of one segment that is counted. -/
theorem slotted_of_keepsSlots_one :
    ∃ trace final, Runs readData Name.hintPlatform Name.toUri 3 trace final ∧
      final.started = [0] ∧ final.counted = [0] ∧ final.Slotted := by
  have executed : (execute (step readData Name.hintPlatform Name.toUri)
      (construct 3)
      ([fetchBob 1 1, .scheduleFetches 0] ++ startOne 0 ++
        [.scan 0, .execute 0, .onData 0 0 (Fetching.bobPacket 1), .execute 1,
          .proceed Name.bob 1, .execute 1, .proceed Name.bob 1])).any
        (fun result => result.2.started = [0] ∧ result.2.counted = [0] ∧
          ∀ taken ∈ result.1, taken.1.KeepsSlots taken.2) = true := by
    decide +kernel
  obtain ⟨⟨trace, final⟩, found, holds⟩ :=
    (Option.any_eq_true _ _).mp executed
  obtain ⟨started, counted, keeps⟩ := of_decide_eq_true holds
  have runs := execute_run found
  exact ⟨trace, final, runs, started, counted,
    slotted_of_keepsSlots runs keeps⟩

/-- The only segment has arrived and the finish callback is running, when the
loop finds the fetcher neither active nor in its final wait. -/
theorem finished_fetcher_restarted :
    ¬ ∀ trace final, Runs readData Name.hintPlatform Name.toUri 3 trace final →
      final.Slotted := by
  intro slotted
  have executed : (execute (step readData Name.hintPlatform Name.toUri)
      (construct 3)
      ([fetchBob 1 1, .scheduleFetches 0] ++ startOne 0 ++
        [.scan 0, .execute 0, .onData 0 0 (Fetching.bobPacket 1), .execute 1,
          .scheduleFetches 1, .scan 1, .scan 1, .scan 1])).any
        (fun result =>
          result.2.scan = some ⟨1, 301, [0], .restart⟩ ∧
            result.2.fetchers.map (fun listed =>
              (listed.fetching.fetcher.minSeqNo,
                listed.fetching.fetcher.maxSeqNo,
                listed.fetching.segmentCalls.map (·.seqno))) =
              [(1, 1, [1])]) = true := by
    decide +kernel
  obtain ⟨⟨trace, final⟩, found, holds⟩ :=
    (Option.any_eq_true _ _).mp executed
  obtain ⟨scanning, fetchers⟩ := of_decide_eq_true holds
  have missing := (slotted trace final (execute_run found)).missing
  obtain ⟨listed, only, received⟩ := List.map_eq_singleton_iff.mp fetchers
  simp only [Prod.mk.injEq] at received
  obtain ⟨minimum, maximum, calls⟩ := received
  have here : final.fetchers[0]? = some listed := by rw [only]; rfl
  apply missing _ 0 [] listed scanning rfl rfl here
  intro seqNo above below
  rw [minimum] at above
  rw [maximum] at below
  have one : seqNo = 1 := UInt64.le_antisymm below above
  obtain ⟨call, member, number⟩ : ∃ call ∈ listed.fetching.segmentCalls,
      call.seqno = 1 := by
    apply List.mem_map.mp
    rw [calls]
    exact List.mem_singleton.mpr rfl
  exact ⟨call, member, number.trans one.symm⟩

end FetchThreads

end ChronoShare
