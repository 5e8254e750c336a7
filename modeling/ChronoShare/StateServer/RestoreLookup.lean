import ChronoShare.ActionLog.Listings
import ChronoShare.ContentServer.Routing
import ChronoShare.Dispatcher.Segments

/-!
# What a restore command finds

The command gives the file, the version and perhaps the hash.  The hash is
compared with its header, so that no row has it, the file name is compared as a
URI, and the name of the device is read from the stored blob as a URI.
-/

namespace ChronoShare

namespace StateServer

/-- The component of the file name, the version and the hash of a command, as
`cmd_restore_file_Execute` reads them; `none` is an exception.  The hash is the
wire form of its component, and absent from the short command. -/
def restoreArguments (prefixSize : Nat) (interest : Name) :
    Option (Bytes × UInt64 × Bytes) :=
  if interest.size - prefixSize = 5 then do
    let hash ← interest.getFromEnd 1
    let version ← Name.toNumber (← interest.getFromEnd 2)
    let filename ← interest.getFromEnd 3
    some (filename, version, encodeTlv 0x08 hash)
  else do
    let version ← Name.toNumber (← interest.getFromEnd 1)
    let filename ← interest.getFromEnd 2
    some (filename, version, [])

variable (platform : DispatcherPlatform Name)

/-- The arguments of `objectsToLocalFile`, if the command calls it. -/
def restoreCall (state : Dispatcher Name) (choice : Nat) (component : Bytes)
    (version : UInt64) (filehash : Bytes) : Option (Name × Bytes × Path) :=
  (lookupAction state.log.actions (Uri.toUri component) version.toInt64
    filehash choice).bind fun row =>
      (platform.ndn.ofString (cString row.fileItem.deviceName)).bind
        fun deviceName =>
          if Dispatcher.upToDate platform state.disk row.fileItem
              row.fileItem.fileHash then
            none
          else
            some (deviceName, row.fileItem.fileHash,
              platform.pathOf row.fileItem.filename)

theorem cmdRestoreFile_of_call {state : Dispatcher Name}
    {surroundings : Surroundings} {component filehash hash : Bytes}
    {version : UInt64} {deviceName : Name} {path : Path}
    (called : restoreCall platform state surroundings.choice component version
      filehash = some (deviceName, hash, path)) :
    ∃ file : FileRow,
      cmdRestoreFile platform state surroundings component version filehash =
        match Dispatcher.assembledContent platform state.tables deviceName
            hash with
        | none => none
        | some none => some (.unknownError, state)
        | some (some content) =>
            (state.disk.writeFile path content
              file.itemMtime.toUInt64.toInt64 (file.itemMode &&& 0o7777)
              surroundings.now surroundings.directoryMode).map fun disk =>
                (.restored, { state with disk := disk }) := by
  obtain ⟨row, found, named⟩ := Option.bind_eq_some_iff.mp called
  obtain ⟨device, isDevice, made⟩ := Option.bind_eq_some_iff.mp named
  split_ifs at made with upToDate
  obtain ⟨rfl, rfl, rfl⟩ : device = deviceName ∧
      row.fileItem.fileHash = hash ∧
        platform.pathOf row.fileItem.filename = path := by
    simpa using made
  refine ⟨row.fileItem, ?_⟩
  rw [cmdRestoreFile, found]
  simp only [isDevice, Option.bind_some]
  exact if_neg upToDate

/-- The command finds the version of the file, and the hash if it is given, and
assembles what the row that it found names to the path of the file. -/
def Restores (state : Dispatcher Name) (row : ActionRow) (hashed : Bool)
    (choice : Nat) (component : Bytes) (version : UInt64)
    (filehash : Bytes) : Prop :=
  ∃ found deviceName,
    lookupAction state.log.actions (Uri.toUri component) version.toInt64
        filehash choice = some found ∧
      found.filename = row.filename ∧ found.version = row.version ∧
      (hashed = true → found.fileHash = row.fileHash) ∧
      platform.ndn.value deviceName = found.deviceName ∧
      restoreCall platform state choice component version filehash =
        some (deviceName, found.fileHash.getD [],
          platform.pathOf row.filename)

/-- The stored name reads as the device, and the file is not there yet. -/
def Restorable (state : Dispatcher Name) (row : ActionRow) : Prop :=
  (∃ deviceName, platform.ndn.value deviceName = row.deviceName ∧
      platform.ndn.ofString (cString row.deviceName) = some deviceName) ∧
    Dispatcher.upToDate platform state.disk row.fileItem
      row.fileItem.fileHash = false

variable {platform}

theorem lookupAction_cases {actions : List ActionRow}
    {filename filehash : Bytes} {version : Int64} {choice : Nat}
    {found : ActionRow}
    (isFound : lookupAction actions filename version filehash choice =
      some found) :
    found ∈ actions ∧ found.action = .update ∧ found.filename = filename ∧
      found.version = version ∧ filehash <+: found.fileHash.getD [] := by
  have member := List.mem_of_getElem? isFound
  rw [List.mem_filter, decide_eq_true_iff] at member
  exact member

theorem exists_lookupAction {actions : List ActionRow} {row : ActionRow}
    {filehash : Bytes} (stored : row ∈ actions)
    (isUpdate : row.action = .update)
    (starts : filehash <+: row.fileHash.getD []) (choice : Nat) :
    ∃ found, lookupAction actions row.filename row.version filehash choice =
      some found := by
  have member : row ∈ actions.filter fun other =>
      other.action = .update ∧ other.filename = row.filename ∧
        other.version = row.version ∧ filehash <+: other.fileHash.getD [] :=
    List.mem_filter.mpr ⟨stored, decide_eq_true ⟨isUpdate, rfl, rfl, starts⟩⟩
  have bounded := Nat.mod_lt choice (List.length_pos_of_mem member)
  exact ⟨_, List.getElem?_eq_getElem bounded⟩

theorem exists_choice_lookupAction {actions : List ActionRow}
    {row : ActionRow} {filehash : Bytes} (stored : row ∈ actions)
    (isUpdate : row.action = .update)
    (starts : filehash <+: row.fileHash.getD []) :
    ∃ choice, lookupAction actions row.filename row.version filehash choice =
      some row := by
  have member : row ∈ actions.filter fun other =>
      other.action = .update ∧ other.filename = row.filename ∧
        other.version = row.version ∧ filehash <+: other.fileHash.getD [] :=
    List.mem_filter.mpr ⟨stored, decide_eq_true ⟨isUpdate, rfl, rfl, starts⟩⟩
  obtain ⟨index, bounded, isRow⟩ := List.getElem_of_mem member
  refine ⟨index, ?_⟩
  rw [lookupAction, Nat.mod_eq_of_lt bounded, List.getElem?_eq_getElem bounded,
    isRow]

theorem not_restores_hashed {state : Dispatcher Name} {row : ActionRow}
    {choice : Nat} {component : Bytes} {version : UInt64} :
    ¬ Restores platform state row true choice component version
      (encodeTlv 0x08 (row.fileHash.getD [])) := by
  rintro ⟨found, deviceName, isFound, -, -, sameHash, -⟩
  obtain ⟨-, -, -, -, starts⟩ := lookupAction_cases isFound
  rw [sameHash rfl] at starts
  have shorter := starts.length_le
  have longer := length_lt_encodeTlv 0x08 (row.fileHash.getD [])
  omega

theorem restores_iff_restorable {state : Dispatcher Name} {row : ActionRow}
    (stored : row ∈ state.log.actions) (isUpdate : row.action = .update) :
    (∀ choice, Restores platform state row false choice row.filename
      row.version.toUInt64 []) ↔
      Uri.Kept row.filename ∧
        ∀ other ∈ state.log.actions, other.action = .update →
          other.filename = row.filename → other.version = row.version →
            Restorable platform state other := by
  constructor
  · intro restores
    have kept : Uri.toUri row.filename = row.filename := by
      obtain ⟨found, -, isFound, sameName, -⟩ := restores 0
      rw [← filename_lookupAction isFound, sameName]
    refine ⟨Uri.toUri_eq_self_iff.mp kept, ?_⟩
    intro other otherIn otherUpdate sameName sameVersion
    obtain ⟨choice, isOther⟩ :=
      exists_choice_lookupAction otherIn otherUpdate (List.nil_prefix)
    obtain ⟨found, deviceName, isFound, -, -, -, device, called⟩ :=
      restores choice
    rw [kept, Int64.toInt64_toUInt64, ← sameName, ← sameVersion,
      isOther] at isFound
    obtain rfl := Option.some.inj isFound
    rw [restoreCall, kept, Int64.toInt64_toUInt64, ← sameName, ← sameVersion,
      isOther, Option.bind_some] at called
    obtain ⟨read, isRead, made⟩ := Option.bind_eq_some_iff.mp called
    split_ifs at made with upToDate
    have sameDevice : read = deviceName := by
      simpa using congrArg (Option.map (·.1)) made
    rw [sameDevice] at isRead
    exact ⟨⟨deviceName, device, isRead⟩, Bool.eq_false_iff.mpr upToDate⟩
  · rintro ⟨kept, restorable⟩ choice
    have same := Uri.toUri_eq_self_iff.mpr kept
    obtain ⟨found, isFound⟩ :=
      exists_lookupAction stored isUpdate (List.nil_prefix) choice
    obtain ⟨foundIn, foundUpdate, sameName, sameVersion, -⟩ :=
      lookupAction_cases isFound
    obtain ⟨⟨deviceName, device, read⟩, absent⟩ :=
      restorable found foundIn foundUpdate sameName sameVersion
    refine ⟨found, deviceName, ?_, sameName, sameVersion, by simp, device, ?_⟩
    · rw [same, Int64.toInt64_toUInt64, isFound]
    · rw [restoreCall, same, Int64.toInt64_toUInt64, isFound,
        Option.bind_some]
      have readItem : platform.ndn.ofString
          (cString found.fileItem.deviceName) = some deviceName := read
      rw [readItem, Option.bind_some, absent, ← sameName]
      rfl

/-- The last components of a restore command. -/
def restoreComponents (row : ActionRow) (hashed : Bool) : List Bytes :=
  [row.filename, Name.encodeNumber row.version.toUInt64] ++
    if hashed then [row.fileHash.getD []] else []

theorem restoreArguments_eq {prefixSize : Nat} {interest : Name}
    {front : List Bytes} {row : ActionRow} {hashed : Bool}
    (command : interest.components = front ++ restoreComponents row hashed)
    (size : front.length = prefixSize + 2) :
    restoreArguments prefixSize interest =
      some (row.filename, row.version.toUInt64,
        if hashed then encodeTlv 0x08 (row.fileHash.getD []) else []) := by
  have number := Name.toNumber_encodeNumber row.version.toUInt64
  cases hashed with
  | false =>
      have backwards : interest.components.reverse =
          Name.encodeNumber row.version.toUInt64 :: row.filename ::
            front.reverse := by
        simp [command, restoreComponents]
      have short : ¬ interest.size - prefixSize = 5 := by
        simp only [Name.size, command, restoreComponents, List.length_append,
          size, List.length_cons, List.length_nil, Bool.false_eq_true,
          if_false]
        omega
      rw [restoreArguments, if_neg short]
      simp [Name.getFromEnd, backwards, number]
  | true =>
      have backwards : interest.components.reverse =
          row.fileHash.getD [] :: Name.encodeNumber row.version.toUInt64 ::
            row.filename :: front.reverse := by
        simp [command, restoreComponents]
      have long : interest.size - prefixSize = 5 := by
        simp only [Name.size, command, restoreComponents, List.length_append,
          size, List.length_cons, List.length_nil, if_true]
        omega
      rw [restoreArguments, if_pos long]
      simp [Name.getFromEnd, backwards, number]

/-- What the command reads from its interest restores the row. -/
def CommandRestores (platform : DispatcherPlatform Name)
    (state : Dispatcher Name) (row : ActionRow) (hashed : Bool) (choice : Nat)
    (prefixSize : Nat) (interest : Name) : Prop :=
  ∃ component version filehash,
    restoreArguments prefixSize interest =
        some (component, version, filehash) ∧
      Restores platform state row hashed choice component version filehash

/-- A command with the hash restores nothing, and one without it restores a row
in every order of the rows under these conditions. -/
theorem command_restores_iff {state : Dispatcher Name} {row : ActionRow}
    (stored : row ∈ state.log.actions) (isUpdate : row.action = .update)
    {prefixSize : Nat} {interest : Name} {front : List Bytes} {hashed : Bool}
    (command : interest.components = front ++ restoreComponents row hashed)
    (size : front.length = prefixSize + 2) :
    (∀ choice, CommandRestores platform state row hashed choice prefixSize
      interest) ↔
      hashed = false ∧ Uri.Kept row.filename ∧
        ∀ other ∈ state.log.actions, other.action = .update →
          other.filename = row.filename → other.version = row.version →
            Restorable platform state other := by
  have reads : ∀ choice, CommandRestores platform state row hashed choice
      prefixSize interest ↔
        Restores platform state row hashed choice row.filename
          row.version.toUInt64
          (if hashed then encodeTlv 0x08 (row.fileHash.getD []) else []) := by
    intro choice
    rw [CommandRestores, restoreArguments_eq command size]
    simp
  simp only [reads]
  cases hashed with
  | true =>
      constructor
      · intro restores
        exact absurd (restores 0) not_restores_hashed
      · intro impossible
        exact absurd impossible.1 (by decide)
  | false =>
      rw [← restores_iff_restorable stored isUpdate]
      simp

/-- The log of `/alex` with one update of the file `f`. -/
def oneUpdateState : Dispatcher Name :=
  let opened := Dispatcher.opened (SyncLog.opened Name.uriOps Name.alex) ∅
  { opened with log := opened.log.insertAction (updateAt [0x66] 1 5) }

/-- The interest of a command under a prefix of one component. -/
def restoreInterest (hashed : Bool) : Name :=
  .ofComponents ([[0x63], [0x72], [0x66]] ++
    restoreComponents (updateAt [0x66] 1 5) hashed)

theorem command_restores_iff_hashed :
    ¬ ∀ choice, CommandRestores Dispatcher.uriDispatcher oneUpdateState
      (updateAt [0x66] 1 5) true choice 1 (restoreInterest true) := by
  intro restores
  have conditions := (@command_restores_iff Dispatcher.uriDispatcher
    oneUpdateState (updateAt [0x66] 1 5) (by decide) rfl 1
    (restoreInterest true) [[0x63], [0x72], [0x66]] true (by decide)
    rfl).mp restores
  exact absurd conditions.1 (by decide)

/-- The command with the hash finds no row, and the one without it assembles
for a device that is named by the stored bytes. -/
theorem restore_command_misses :
    (∀ choice, ¬ CommandRestores Dispatcher.uriDispatcher oneUpdateState
      (updateAt [0x66] 1 5) true choice 1 (restoreInterest true)) ∧
    restoreCall Dispatcher.uriDispatcher oneUpdateState 0 [0x66] 0 [] =
      some (.ofComponents [[0x08, 0x04, 0x61, 0x6C, 0x65, 0x78]], [1],
        Dispatcher.uriDispatcher.pathOf [0x66]) ∧
    ¬ CommandRestores Dispatcher.uriDispatcher oneUpdateState
      (updateAt [0x66] 1 5) false 0 1 (restoreInterest false) := by
  have readLong : restoreArguments 1 (restoreInterest true) =
      some ([0x66], 0, encodeTlv 0x08 [1]) := by
    decide
  have readShort : restoreArguments 1 (restoreInterest false) =
      some ([0x66], 0, []) := by
    decide
  have call : restoreCall Dispatcher.uriDispatcher oneUpdateState 0 [0x66] 0
      [] = some (.ofComponents [[0x08, 0x04, 0x61, 0x6C, 0x65, 0x78]], [1],
        Dispatcher.uriDispatcher.pathOf [0x66]) := by
    decide
  refine ⟨?_, call, ?_⟩
  · rintro choice ⟨component, version, filehash, read, restores⟩
    rw [readLong] at read
    obtain ⟨rfl, rfl, rfl⟩ : [0x66] = component ∧ 0 = version ∧
        encodeTlv 0x08 [1] = filehash := by
      simpa using read
    exact not_restores_hashed restores
  · rintro ⟨component, version, filehash, read, found, deviceName, isFound, -,
      -, -, device, called⟩
    rw [readShort] at read
    obtain ⟨rfl, rfl, rfl⟩ : [0x66] = component ∧ 0 = version ∧
        [] = filehash := by
      simpa using read
    rw [call] at called
    have isAlex : found = updateAt [0x66] 1 5 := by
      have only : lookupAction oneUpdateState.log.actions (Uri.toUri [0x66])
          (0 : UInt64).toInt64 [] 0 = some (updateAt [0x66] 1 5) := by
        decide
      rw [only] at isFound
      exact (Option.some.inj isFound).symm
    have wrong := (Prod.mk.inj (Option.some.inj called)).1
    rw [isAlex, ← wrong] at device
    exact absurd device (by decide)

end StateServer

end ChronoShare
