import ChronoShare.ActionLog.FileView

/-!
# Looking up the actions a device has numbered

The stored object of an action is the block of its content, while a lookup
reads it as a packet.  No lookup returns an object, whatever the number.
-/

namespace ChronoShare

/-- Decoding a packet fails on a block of another type. -/
def ActionPlatform.DecodesPackets {Name : Type}
    (platform : ActionPlatform Name) : Prop :=
  ∀ block data, platform.decodeData block = some data →
    block.head? = some 0x06

namespace ActionLog

variable {Name : Type} {platform : ActionPlatform Name}

theorem Made.content {row : ActionRow} (made : Made platform row) :
    row.actionContentObject.head? = some 0x15 := by
  cases made <;> rfl

theorem Made.not_decoded (decodes : platform.DecodesPackets) {row : ActionRow}
    (made : Made platform row) :
    platform.decodeData row.actionContentObject = none := by
  cases decoded : platform.decodeData row.actionContentObject with
  | none => rfl
  | some data =>
      have packet := decodes _ data decoded
      rw [made.content] at packet
      exact absurd packet (by decide)

def AllMade (platform : ActionPlatform Name) (log : ActionLog Name) : Prop :=
  ∀ row ∈ log.actions, Made platform row

theorem lookupActionPco_ne (decodes : platform.DecodesPackets)
    {log : ActionLog Name} (made : AllMade platform log) (deviceName : Name)
    (seqNo : Int64) (data : Data Name) :
    lookupActionPco platform log deviceName seqNo ≠ some (some data) := by
  rw [lookupActionPco]
  split
  · simp
  · rename_i row found
    have stored : row ∈ log.actions := List.mem_of_find?_eq_some found
    rw [(made row stored).not_decoded decodes]
    simp

theorem lookupActionPcoByName_ne (decodes : platform.DecodesPackets)
    {log : ActionLog Name} (made : AllMade platform log) (name : Name)
    (data : Data Name) :
    lookupActionPcoByName platform log name ≠ some (some data) := by
  rw [lookupActionPcoByName]
  split
  · simp
  · rename_i row found
    have stored : row ∈ log.actions := List.mem_of_find?_eq_some found
    rw [(made row stored).not_decoded decodes]
    simp

theorem deserializePco_ne {pco : Option (Option (Data Name))}
    (without : ∀ data, pco ≠ some (some data)) (item : ActionItem) :
    deserializePco platform pco ≠ some (some item) := by
  match pco, without with
  | none, _ => simp [deserializePco]
  | some none, _ => simp [deserializePco]
  | some (some data), without => exact absurd rfl (without data)

variable (platform)

/-- The call is local, returns `item`, and takes the number `seqNo`. -/
def Consumes (source : ActionLog Name) (label : ActionCall Name)
    (seqNo : Int64) (item : ActionItem) : Prop :=
  (∃ target, call platform source label = some (some item, target)) ∧
    (∃ syncLog, source.syncLog.getNextLocalSeqNo = some (seqNo, syncLog)) ∧
    match label with
    | .addLocalActionUpdate .. => True
    | .addLocalActionDelete .. => True
    | _ => False

/-- One of the lookups of a number answers: with an object, or with the item
that was returned when the number was taken. -/
inductive Answered (log : ActionLog Name) (localName : Name) (seqNo : Int64)
    (item : ActionItem) : Prop where
  | pco {data : Data Name} :
      lookupActionPco platform log localName seqNo = some (some data) →
      Answered log localName seqNo item
  | pcoByName {data : Data Name} :
      lookupActionPcoByName platform log
        (actionName platform localName seqNo) = some (some data) →
      Answered log localName seqNo item
  | action : lookupAction platform log localName seqNo = some (some item) →
      Answered log localName seqNo item
  | actionByName :
      lookupActionByName platform log (actionName platform localName seqNo) =
        some (some item) →
      Answered log localName seqNo item

/-- All the lookups of a number answer. -/
structure Served (log : ActionLog Name) (localName : Name) (seqNo : Int64)
    (item : ActionItem) : Prop where
  pco : ∃ data, lookupActionPco platform log localName seqNo = some (some data)
  pcoByName : ∃ data,
    lookupActionPcoByName platform log (actionName platform localName seqNo) =
      some (some data)
  action : lookupAction platform log localName seqNo = some (some item)
  actionByName :
    lookupActionByName platform log (actionName platform localName seqNo) =
      some (some item)

variable {platform}

theorem not_answered (decodes : platform.DecodesPackets) {log : ActionLog Name}
    (made : AllMade platform log) (localName : Name) (seqNo : Int64)
    (item : ActionItem) :
    ¬ Answered platform log localName seqNo item := by
  intro answered
  cases answered with
  | pco found => exact lookupActionPco_ne decodes made _ _ _ found
  | pcoByName found => exact lookupActionPcoByName_ne decodes made _ _ found
  | action found =>
      exact deserializePco_ne (lookupActionPco_ne decodes made _ _) item found
  | actionByName found =>
      exact deserializePco_ne (lookupActionPcoByName_ne decodes made _) item
        found

/-- After any run, no number that a local call took is served: none of its
lookups answers. -/
theorem consumed_number_not_served (decodes : platform.DecodesPackets)
    {syncLog : SyncLog Name}
    {trace : List (ActionLog Name × ActionCall Name)} {final : ActionLog Name}
    (calls : Calls platform (opened syncLog) trace final) :
    ∀ taken ∈ trace, ∀ seqNo item,
      Consumes platform taken.1 taken.2 seqNo item →
        ¬ Served platform final taken.1.syncLog.localName seqNo item ∧
          ¬ Answered platform final taken.1.syncLog.localName seqNo item := by
  intro taken _ seqNo item _
  have silent := not_answered decodes (calls_made calls)
    taken.1.syncLog.localName seqNo item
  refine ⟨?_, silent⟩
  intro served
  apply silent
  exact .action served.action

end ActionLog

theorem readData_packets (ndn : NameOps Name) :
    (plainActionPlatform ndn).DecodesPackets := by
  intro block data decoded
  cases block with
  | nil => simp [plainActionPlatform, readData] at decoded
  | cons type fields =>
      by_cases packet : type = 0x06
      · rw [packet]
        rfl
      · simp [plainActionPlatform, readData, packet] at decoded

namespace ActionLog

def addFile : ActionCall Name :=
  .addLocalActionUpdate 0 5 [0x66] [1] 6 420 1

def removeFile : ActionCall Name :=
  .addLocalActionDelete 0 8 (fun _ => 0) [0x66]

theorem addFile_removeFile_run :
    let platform := plainActionPlatform Name.uriOps
    let start := opened (SyncLog.opened Name.uriOps Name.alex)
    ∃ middle final,
      Calls platform start [(start, addFile), (middle, removeFile)] final ∧
        (∃ item, Consumes platform start addFile 1 item) ∧
        ∃ item, Consumes platform middle removeFile 2 item := by
  intro platform start
  have executed : ((call platform start addFile).any fun added =>
      added.1.isSome ∧
      start.syncLog.getNextLocalSeqNo.any (fun next => next.1 = 1) ∧
      added.2.syncLog.getNextLocalSeqNo.any (fun next => next.1 = 2) ∧
      (call platform added.2 removeFile).any fun removed =>
        removed.1.isSome) = true := by
    decide +kernel
  obtain ⟨⟨firstItem, middle⟩, added, holds⟩ :=
    (Option.any_eq_true _ _).mp executed
  obtain ⟨firstSome, firstNext, secondNext, later⟩ := of_decide_eq_true holds
  obtain ⟨⟨secondItem, final⟩, removed, secondSome⟩ :=
    (Option.any_eq_true _ _).mp later
  obtain ⟨firstItem, rfl⟩ := Option.isSome_iff_exists.mp firstSome
  obtain ⟨secondItem, rfl⟩ := Option.isSome_iff_exists.mp secondSome
  obtain ⟨⟨_, firstLog⟩, firstFound, firstNumber⟩ :=
    (Option.any_eq_true _ _).mp firstNext
  obtain ⟨⟨_, secondLog⟩, secondFound, secondNumber⟩ :=
    (Option.any_eq_true _ _).mp secondNext
  obtain rfl := of_decide_eq_true firstNumber
  obtain rfl := of_decide_eq_true secondNumber
  have firstStep : step platform start addFile = some middle := by
    rw [step, added]
    rfl
  have secondStep : step platform middle removeFile = some final := by
    rw [step, removed]
    rfl
  exact ⟨middle, final, .snoc (.snoc .nil firstStep) secondStep,
    ⟨firstItem, ⟨middle, added⟩, ⟨firstLog, firstFound⟩, trivial⟩,
    ⟨secondItem, ⟨final, removed⟩, ⟨secondLog, secondFound⟩, trivial⟩⟩

theorem consumed_number_not_served_alex :
    let platform := plainActionPlatform Name.uriOps
    let start := opened (SyncLog.opened Name.uriOps Name.alex)
    platform.DecodesPackets ∧ ∃ middle final,
      Calls platform start [(start, addFile), (middle, removeFile)] final ∧
      (∃ item, Consumes platform start addFile 1 item ∧
        ¬ Served platform final start.syncLog.localName 1 item) ∧
      ∃ item, Consumes platform middle removeFile 2 item ∧
        ¬ Served platform final middle.syncLog.localName 2 item := by
  intro platform start
  obtain ⟨middle, final, calls, ⟨firstItem, firstTaken⟩,
    ⟨secondItem, secondTaken⟩⟩ := addFile_removeFile_run
  have unserved := consumed_number_not_served (readData_packets Name.uriOps)
    calls
  refine ⟨readData_packets Name.uriOps, middle, final, calls,
    ⟨firstItem, firstTaken, ?_⟩, ⟨secondItem, secondTaken, ?_⟩⟩
  · exact (unserved (start, addFile) List.mem_cons_self 1 firstItem firstTaken).1
  · exact (unserved (middle, removeFile)
      (List.mem_cons_of_mem _ List.mem_cons_self) 2 secondItem secondTaken).1

/-- Not every number that is taken is served: the block stored for the first
action is no packet. -/
theorem first_action_not_served :
    let platform := plainActionPlatform Name.uriOps
    let start := opened (SyncLog.opened Name.uriOps Name.alex)
    ∃ middle final,
      Calls platform start [(start, addFile), (middle, removeFile)] final ∧
      ¬ ∀ taken ∈ [(start, addFile), (middle, removeFile)], ∀ seqNo item,
        Consumes platform taken.1 taken.2 seqNo item →
          Served platform final taken.1.syncLog.localName seqNo item := by
  intro platform start
  obtain ⟨middle, final, calls, ⟨item, taken⟩, _⟩ := addFile_removeFile_run
  refine ⟨middle, final, calls, ?_⟩
  intro served
  have answered := served (start, addFile) (by simp) 1 item taken
  obtain ⟨data, found⟩ := answered.pco
  exact lookupActionPco_ne (readData_packets Name.uriOps) (calls_made calls) _
    1 data found

end ActionLog

end ChronoShare
