import ChronoShare.SyncCore.Invariant
import ChronoShare.SyncCore.MessageFormat

/-!
# Answers to interests

A handler of interests composes the differences the asker is missing, and
handling their content would join the two maps.  The packet never reaches the
face, however, so no interest is answered.
-/

namespace ChronoShare

namespace SyncCore

open SyncDb

section Answers

variable {Name : Type} {platform : Platform Name}
  {asker answerer : SyncCore Name}

def packets (effects : List (Effect Name)) : List (Data Name) :=
  effects.filterMap fun effect =>
    match effect with
    | .put data => some data
    | _ => none

/-- An interest that calls for an answer: for the root of the asker, when the
answerer logged it and has moved on, or for the recovery of a logged state. -/
inductive Requested (platform : Platform Name)
    (asker answerer : SyncCore Name) (name : Name) : Prop where
  | sync :
      platform.size name = platform.size answerer.syncPrefix + 1 →
      platform.lastHash name = asker.rootHash →
      answerer.log.db.Logged (platform.lastHash name) →
      platform.lastHash name ≠ answerer.rootHash →
      Requested platform asker answerer name
  | recover :
      platform.size name = platform.size answerer.syncPrefix + 2 →
      platform.componentUri name (platform.size answerer.syncPrefix) =
        RECOVER →
      answerer.log.db.Logged (platform.lastHash name) →
      Requested platform asker answerer name

/-- One packet under the name of the interest is handed to the face, and its
content lifts the asker's map above the answerer's. -/
def Answered (platform : Platform Name) (asker answerer : SyncCore Name)
    (name : Name) : Prop :=
  ∃ data, packets (answerer.handleInterest platform name) = [data] ∧
    data.name = name ∧ ∃ handled effects,
      asker.handleStateData platform data.content = some (handled, effects) ∧
        answerer.seqMap ≤ handled.seqMap

/-- When names are read back and nothing throws, a message of updates under
encoded names is applied in full. -/
theorem applyStates_of_updates {ndn : NameOps Name} {sha256 : Bytes → Bytes}
    (faithful : ndn.Faithful)
    (readable : ∀ text, ∃ name, ndn.ofString text = some name)
    {log : SyncLog Name} (wellFormed : SyncLog.WellFormed ndn sha256 log)
    {msg : SyncStateMsg}
    (updates : ∀ state ∈ msg, state.type = .update)
    (encoded : ∀ state ∈ msg, ∃ name, state.name = ndn.wire name) :
    ∃ updated, applyStates ndn log msg = some updated ∧
      updated.db.seqMap = log.db.seqMap.raiseAll (updatesOf msg) := by
  have recordings : msg.filterMap (recorded ndn) = updatesOf msg := by
    apply List.filterMap_congr
    intro state member
    obtain ⟨name, sameName⟩ := encoded state member
    simp [recorded, updates state member, sameName, faithful name]
  have succeeds : ∀ (states : SyncStateMsg) (current : SyncLog Name),
      ∃ updated, applyStates ndn current states = some updated := by
    intro states
    induction states with
    | nil => exact fun current => ⟨current, rfl⟩
    | cons state states induction =>
        intro current
        obtain ⟨deviceName, decoded⟩ := readable state.name
        have first : ∃ middle, applyState ndn current state = some middle := by
          cases type : state.type with
          | delete => exact ⟨current, by simp [applyState, decoded, type]⟩
          | update =>
              cases hint : state.locator with
              | none => exact ⟨_, by simp [applyState, decoded, type, hint]; rfl⟩
              | some locator =>
                  obtain ⟨locatorName, located⟩ := readable locator
                  exact ⟨_, by
                    simp [applyState, decoded, type, hint, located]; rfl⟩
        obtain ⟨middle, applied⟩ := first
        obtain ⟨updated, later⟩ := induction middle
        exact ⟨updated, by simp [applyStates, applied, later]⟩
  obtain ⟨updated, applied⟩ := succeeds msg log
  refine ⟨updated, applied, ?_⟩
  rw [← recordings]
  exact (applyStates_spec wellFormed applied).2

/-- Handling the content composed for an older state that the asker has
reached joins the asker's map with the map of the answerer's root. -/
theorem handleStateData_composed
    (faithful : platform.ndn.Faithful)
    (readable : ∀ text, ∃ name, platform.ndn.ofString text = some name)
    (parses : ∀ msg, platform.deserializeGZipMsg
      (platform.serializeGZipMsg msg) = some msg)
    (askerFormed : asker.WellFormed platform)
    (answererFormed : answerer.WellFormed platform) {oldHash : Hash}
    (behind : answerer.log.db.snapshot oldHash ≤ answerer.rootMap)
    (above : answerer.log.db.snapshot oldHash ≤ asker.seqMap) (name : Name) :
    ∃ handled effects,
      asker.handleStateData platform (composeData platform name
        (answerer.log.db.findStateDifferences oldHash
          answerer.rootHash)).content = some (handled, effects) ∧
        handled.seqMap = asker.seqMap ⊔ answerer.rootMap := by
  have answerForm := answererFormed.log.db
  have updates : ∀ state ∈ answerer.log.db.findStateDifferences oldHash
      answerer.rootHash, state.type = .update := by
    intro state member
    exact type_eq_update answerForm behind member
  have encoded : ∀ state ∈ answerer.log.db.findStateDifferences oldHash
      answerer.rootHash, ∃ name, state.name = platform.ndn.wire name := by
    intro state member
    obtain ⟨node, nodeIn, -, rfl⟩ :=
      (mem_findStateDifferences answerForm).mp member
    exact answerForm.named.encoded node nodeIn
  obtain ⟨updated, applied, raised⟩ := applyStates_of_updates faithful readable
    askerFormed.log updates encoded
  have handled : asker.handleStateData platform (composeData platform name
      (answerer.log.db.findStateDifferences oldHash
        answerer.rootHash)).content =
      some (rememberRoot platform { asker with log := updated },
        callbackOn ((rememberRoot platform
          { asker with log := updated }).differencesSince asker.rootHash)) := by
    simp only [handleStateData, composeData, parses, applied]
  refine ⟨_, _, handled, ?_⟩
  calc updated.db.seqMap
      = asker.seqMap.raiseAll (updatesOf
          (answerer.log.db.findStateDifferences oldHash
            answerer.rootHash)) := raised
    _ = asker.seqMap ⊔ answerer.rootMap :=
        MaxMap.raiseAll_differences
          (differences_findStateDifferences answerForm _ _ _) above

theorem packets_handleInterest (core : SyncCore Name) (name : Name) :
    packets (core.handleInterest platform name) = [] := by
  unfold handleInterest handleSyncInterest handleRecoverInterest
  dsimp only
  split_ifs <;> rfl

theorem packets_localStateChanged (core : SyncCore Name) :
    packets (core.localStateChanged platform).2 =
      [composeData platform (platform.ndn.append core.syncPrefix core.rootHash)
        ((core.rememberRoot platform).log.db.findStateDifferences
          core.rootHash (core.rememberRoot platform).rootHash)] :=
  rfl

/-- No interest is ever answered, whatever the states of the two nodes. -/
theorem interest_never_answered (asker answerer : SyncCore Name)
    (name : Name) : ¬ Answered platform asker answerer name := by
  intro answered
  obtain ⟨data, handed, -⟩ := answered
  rw [packets_handleInterest] at handed
  exact List.cons_ne_nil data [] handed.symm

end Answers

/-- Names are read back, and so are messages and digests. -/
noncomputable def faithfulPlatform : Platform Name :=
  plainPlatform Name.wireOps

/-- A node of `/alex` after one action, with `/bob` heard of. -/
noncomputable def alexCore : SyncCore Name :=
  construct faithfulPlatform
    (((SyncLog.opened Name.wireOps Name.alex).updateLocalSeqNo
      1).updateDeviceSeqNo Name.wireOps Name.bob 0) Name.alex Name.broadcast

/-- A node of `/bob` that starts from the state of `/alex`, acts and announces
its action. -/
noncomputable def bobCore : SyncCore Name :=
  ((construct faithfulPlatform
    ((SyncLog.opened Name.wireOps Name.bob).updateDeviceSeqNo Name.wireOps
      Name.alex 1) Name.bob Name.broadcast).updateLocalState faithfulPlatform 1).1

theorem alexCore_reachable : Reachable faithfulPlatform alexCore :=
  .construct _ _ (.updateDeviceSeqNo _ _
    (.updateLocalSeqNo _ (SyncLog.opened_reachable _)))

theorem bobCore_reachable : Reachable faithfulPlatform bobCore :=
  .updateLocalState _ (.construct _ _
    (.updateDeviceSeqNo _ _ (SyncLog.opened_reachable _)))

/-- The sync interest of `/alex` for its root calls for an answer of `/bob`
and gets none. -/
theorem alex_not_answered_by_bob :
    Reachable faithfulPlatform alexCore ∧
      Reachable faithfulPlatform bobCore ∧
      Requested faithfulPlatform alexCore bobCore
        (Name.wireOps.append Name.broadcast alexCore.rootHash) ∧
      ¬ Answered faithfulPlatform alexCore bobCore
        (Name.wireOps.append Name.broadcast alexCore.rootHash) := by
  refine ⟨alexCore_reachable, bobCore_reachable, ?_,
    interest_never_answered _ _ _⟩
  have carried : faithfulPlatform.lastHash
      (Name.wireOps.append Name.broadcast alexCore.rootHash) =
        alexCore.rootHash := by
    decide +kernel
  apply Requested.sync
  · decide +kernel
  · exact carried
  · rw [carried]
    apply logged_remember_iff.mpr
    left
    exact ⟨⟨1, alexCore.rootHash⟩, by decide +kernel, rfl⟩
  · rw [carried]
    decide +kernel

end SyncCore

end ChronoShare
