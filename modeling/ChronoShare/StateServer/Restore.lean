import ChronoShare.Dispatcher.Store

/-!
# Restoring an old version of a file

The command names the file by one component of an interest, which is turned
into a string as a URI before the action is looked up.  Such a string has no
slash and is neither of the two relative references, so that the file is
restored below the root directory whatever the component is.
-/

namespace ChronoShare

namespace Uri

/-- Letters, digits, `+`, `-`, `.` and `_` stand for themselves. -/
def isUnescaped (byte : UInt8) : Bool :=
  isAlpha byte || isDigit byte || byte ∈ [0x2B, 0x2D, 0x2E, 0x5F]

def upperHexDigit (number : UInt8) : UInt8 :=
  if number < 10 then 0x30 + number else 0x37 + number

def escapeByte (byte : UInt8) : Bytes :=
  if isUnescaped byte then [byte]
  else [percent, upperHexDigit (byte / 16), upperHexDigit (byte % 16)]

/-- The text of a component.  Periods alone are written with three more. -/
def toUri (component : Bytes) : Bytes :=
  if component.all (· = period) then
    [period, period, period] ++ component
  else
    component.flatMap escapeByte

theorem notMem_escapeByte (byte : UInt8) :
    slash ∉ escapeByte byte ∧ 0 ∉ escapeByte byte := by
  have every : ∀ number : Fin 256,
      slash ∉ escapeByte (UInt8.ofFin number) ∧
        0 ∉ escapeByte (UInt8.ofFin number) := by
    decide +kernel
  simpa using every byte.toFin

/-- A byte that is neither a period nor part of an escape is not in the
text. -/
theorem notMem_toUri {byte : UInt8} (apart : byte ≠ period)
    (absent : ∀ other, byte ∉ escapeByte other) (component : Bytes) :
    byte ∉ toUri component := by
  rw [toUri]
  split_ifs with periods
  · intro member
    rcases List.mem_append.mp member with three | rest
    · simp [apart] at three
    · have isPeriod := List.all_eq_true.mp periods byte rest
      exact apart (of_decide_eq_true isPeriod)
  · intro member
    obtain ⟨other, _, escaped⟩ := List.mem_flatMap.mp member
    exact absent other escaped

theorem slash_notMem_toUri (component : Bytes) : slash ∉ toUri component :=
  notMem_toUri (by decide) (fun byte => (notMem_escapeByte byte).1) component

theorem zero_notMem_toUri (component : Bytes) : 0 ∉ toUri component :=
  notMem_toUri (by decide) (fun byte => (notMem_escapeByte byte).2) component

theorem toUri_ne_nil (component : Bytes) : toUri component ≠ [] := by
  rw [toUri]
  split_ifs with periods
  · simp
  · intro empty
    have none := List.flatMap_eq_nil_iff.mp empty
    cases component with
    | nil => simp at periods
    | cons byte rest =>
        have nothing := none byte List.mem_cons_self
        rw [escapeByte] at nothing
        split_ifs at nothing

theorem eq_period_of_escapeByte {byte : UInt8}
    (only : ∀ other ∈ escapeByte byte, other = period) : byte = period := by
  rw [escapeByte] at only
  split_ifs at only
  · exact only byte List.mem_cons_self
  · exact absurd (only percent List.mem_cons_self) (by decide)

theorem length_toUri_of_periods {component : Bytes}
    (only : ∀ byte ∈ toUri component, byte = period) :
    3 ≤ (toUri component).length := by
  rw [toUri] at only ⊢
  split_ifs at only ⊢ with periods
  · simp
  · exfalso
    apply periods
    apply List.all_eq_true.mpr
    intro byte member
    apply decide_eq_true
    apply eq_period_of_escapeByte
    intro other escaped
    exact only other (List.mem_flatMap.mpr ⟨byte, member, escaped⟩)

theorem toUri_ne_of_periods {component text : Bytes}
    (only : ∀ byte ∈ text, byte = period) (short : text.length < 3) :
    toUri component ≠ text := by
  rintro rfl
  have long := length_toUri_of_periods only
  omega

/-- A text without escapes that is more than periods. -/
def Kept (text : Bytes) : Prop :=
  text.all isUnescaped = true ∧ ¬ text.all (· = period) = true

instance decidableKept (text : Bytes) : Decidable (Kept text) :=
  inferInstanceAs (Decidable (_ ∧ _))

theorem length_le_flatMap_escapeByte (text : Bytes) :
    text.length ≤ (text.flatMap escapeByte).length := by
  induction text with
  | nil => simp
  | cons byte text induction =>
      have some : 1 ≤ (escapeByte byte).length := by
        rw [escapeByte]
        split_ifs <;> simp
      simp only [List.flatMap_cons, List.length_append, List.length_cons]
      omega

theorem flatMap_escapeByte_eq_self_iff {text : Bytes} :
    text.flatMap escapeByte = text ↔ text.all isUnescaped = true := by
  induction text with
  | nil => simp
  | cons byte text induction =>
      rw [List.flatMap_cons, List.all_cons, escapeByte]
      split_ifs with unescaped
      · simp [unescaped, induction]
      · have longer := length_le_flatMap_escapeByte text
        constructor
        · intro same
          have lengths := congrArg List.length same
          simp only [List.length_append, List.length_cons, List.length_nil]
            at lengths
          omega
        · simp [unescaped]

theorem toUri_eq_self_iff {text : Bytes} : toUri text = text ↔ Kept text := by
  rw [toUri, Kept]
  split_ifs with periods
  · constructor
    · intro same
      have lengths := congrArg List.length same
      simp only [List.length_append, List.length_cons, List.length_nil]
        at lengths
      omega
    · rintro ⟨-, notPeriods⟩
      exact absurd periods notPeriods
  · rw [flatMap_escapeByte_eq_self_iff]
    simp only [periods, Bool.false_eq_true, not_false_eq_true, and_true]

theorem toUri_eq_iff {component text : Bytes} (kept : Kept text) :
    toUri component = text ↔ component = text := by
  constructor
  · intro same
    obtain ⟨unescaped, notPeriods⟩ := kept
    rw [toUri] at same
    split_ifs at same with periods
    · rw [← same] at notPeriods
      apply absurd _ notPeriods
      rw [List.all_append, periods]
      rfl
    · rw [← same]
      symm
      apply flatMap_escapeByte_eq_self_iff.mpr
      apply List.all_eq_true.mpr
      intro byte member
      by_contra escaped
      have written : percent ∈ text := by
        rw [← same]
        apply List.mem_flatMap.mpr
        refine ⟨byte, member, ?_⟩
        rw [escapeByte, if_neg escaped]
        exact List.mem_cons_self
      have allowed := List.all_eq_true.mp unescaped percent written
      exact absurd allowed (by decide)
  · rintro rfl
    exact toUri_eq_self_iff.mpr kept

end Uri

inductive RestoreReply where
  | notFound
  | alreadyExists
  | restored
  | unknownError
  deriving DecidableEq, Repr

/-- The row of an action as the item of a file. -/
def ActionRow.fileItem (row : ActionRow) : FileRow where
  filename := row.filename
  version := row.version
  deviceName := row.deviceName
  seqNo := row.seqNo
  fileHash := row.fileHash.getD []
  fileMtime := row.fileMtime
  fileChmod := row.fileChmod.getD 0
  fileSegNum := row.fileSegNum.getD 0
  isComplete := false

namespace StateServer

variable {Name : Type} (platform : DispatcherPlatform Name)

/-- The update of a file to a version with a hash that starts as given; the
order of several is left open, and `choice` selects one. -/
def lookupAction (actions : List ActionRow) (filename : Bytes)
    (version : Int64) (filehash : Bytes) (choice : Nat) : Option ActionRow :=
  let rows := actions.filter fun row =>
    row.action = .update ∧ row.filename = filename ∧ row.version = version ∧
      filehash <+: row.fileHash.getD []
  rows[choice % rows.length]?

/-- `none` is an exception: the stored name of the device does not read as a
name, the hash names no database, or the path cannot be created. -/
def cmdRestoreFile (state : Dispatcher Name) (surroundings : Surroundings)
    (component : Bytes) (version : UInt64) (filehash : Bytes) :
    Option (RestoreReply × Dispatcher Name) :=
  match lookupAction state.log.actions (Uri.toUri component) version.toInt64
      filehash surroundings.choice with
  | none => some (.notFound, state)
  | some row =>
      let file := row.fileItem
      (platform.ndn.ofString (cString file.deviceName)).bind fun deviceName =>
        if Dispatcher.upToDate platform state.disk file file.fileHash then
          some (.alreadyExists, state)
        else
          match Dispatcher.assembledContent platform state.tables deviceName
              file.fileHash with
          | none => none
          | some none => some (.unknownError, state)
          | some (some content) =>
              (state.disk.writeFile (platform.pathOf file.filename) content
                file.itemMtime.toUInt64.toInt64 (file.itemMode &&& 0o7777)
                surroundings.now surroundings.directoryMode).map fun disk =>
                  (.restored, { state with disk := disk })

variable {platform}

theorem filename_lookupAction {actions : List ActionRow}
    {filename filehash : Bytes} {version : Int64} {choice : Nat}
    {row : ActionRow}
    (found : lookupAction actions filename version filehash choice =
      some row) : row.filename = filename := by
  have member := List.mem_of_getElem? found
  rw [List.mem_filter] at member
  exact (of_decide_eq_true member.2).2.1

end StateServer

theorem Path.inside_toUri (root : Path) (component : Bytes) :
    Path.Inside root
      (root ++ Path.elements (cString (Uri.toUri component))) := by
  rw [cString_eq (Uri.zero_notMem_toUri component),
    Path.elements_of_slash_notMem (Uri.slash_notMem_toUri component)
    (Uri.toUri_ne_nil component)]
  apply Path.inside_append_names (by simp)
  intro name member
  rw [List.mem_singleton.mp member]
  constructor
  · apply Uri.toUri_ne_of_periods
    · simp [Path.dot, Uri.period]
    · simp [Path.dot]
  · apply Uri.toUri_ne_of_periods
    · simp [Path.dotDot, Uri.period]
    · simp [Path.dotDot]

end ChronoShare
