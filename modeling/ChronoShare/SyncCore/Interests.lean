import ChronoShare.SyncCore.MessageFormat

/-!
# Digests in the names of interests

A digest travels as a component of the name of an interest.  The sender
appends its bytes; the receiver reads the component with its type and length
in front.  A recovery interest is built from a buffer that never has room for
the digest.
-/

namespace ChronoShare

/-- The bytes of a component on the wire, its type and length included. -/
def componentWire (component : Bytes) : Bytes :=
  encodeTlv 0x08 component

/-- `Hash (hashBytes.wireEncode ().wire (), hashBytes.size ())`. -/
def hashOfComponent (component : Bytes) : Hash :=
  (componentWire component).take (componentWire component).length

/-- The platform with names as lists of components; `toUri` is the text of a
component. -/
def Platform.overComponents (platform : Platform Name)
    (toUri : Bytes → Bytes) : Platform Name :=
  { platform with
    ndn := Name.ops platform.ndn.ofString
    size := fun name => name.components.length
    componentUri := fun name index => toUri (name.components.getD index [])
    lastHash := fun name => hashOfComponent (name.components.getLastD []) }

/-- `memcpy` to the start of a buffer, `none` when it writes past the end. -/
def memcpy (buffer bytes : Bytes) : Option Bytes :=
  if bytes.length ≤ buffer.length then
    some (bytes ++ buffer.drop bytes.length)
  else
    none

/-- What the dispatch of `handleInterest` takes an interest for. -/
inductive Received where
  | sync (hash : Hash)
  | recover (hash : Hash)
  | ignored
  deriving DecidableEq, Repr

namespace SyncCore

section Interests

variable {Name : Type} (platform : Platform Name)

def received (syncPrefix name : Name) : Received :=
  let size := platform.size name
  let prefixSize := platform.size syncPrefix
  if size = prefixSize + 1 then
    .sync (platform.lastHash name)
  else if size = prefixSize + 2 ∧
      platform.componentUri name prefixSize = RECOVER then
    .recover (platform.lastHash name)
  else
    .ignored

/-- The name under which `sendSyncInterest` asks for the root of the core. -/
def syncInterest (core : SyncCore Name) : Name :=
  platform.ndn.append core.syncPrefix core.rootHash

/-- The name `recover` builds for a hash. -/
def recoverInterest (core : SyncCore Name) (hash : Hash) : Option Name :=
  let bytes : Bytes := []
  (if 0 < hash.length then memcpy bytes hash else some bytes).map fun bytes =>
    platform.ndn.append (platform.ndn.append core.syncPrefix RECOVER) bytes

/-- `recover`: the interests it expresses, none for a hash that has become
known. -/
def recover (core : SyncCore Name) (hash : Hash) : Option (List Name) :=
  if hash ≠ core.rootHash ∧ core.log.db.lookupSyncLog hash = 0 then
    (core.recoverInterest platform hash).map fun name => [name]
  else
    some []

theorem handleInterest_eq (core : SyncCore Name) (name : Name) :
    core.handleInterest platform name =
      match received platform core.syncPrefix name with
      | .sync _ => core.handleSyncInterest platform name
      | .recover _ => core.handleRecoverInterest platform name
      | .ignored => [] := by
  simp only [handleInterest, received]
  split_ifs <;> rfl

end Interests

variable {platform : Platform Name} {toUri : Bytes → Bytes}

@[simp] theorem hashOfComponent_eq (component : Bytes) :
    hashOfComponent component = encodeTlv 0x08 component := by
  simp [hashOfComponent, componentWire]

theorem hashOfComponent_ne (component : Bytes) :
    hashOfComponent component ≠ component := by
  intro same
  have longer := length_lt_encodeTlv 0x08 component
  rw [← hashOfComponent_eq, same] at longer
  exact longer.false

/-- A name with one component after the prefix is a sync interest, for the
wire form of that component. -/
theorem received_append (syncPrefix : Name) (component : Bytes) :
    received (platform.overComponents toUri) syncPrefix
        ((platform.overComponents toUri).ndn.append syncPrefix component) =
      if (encodeComponents (syncPrefix.components ++ [component])).length <
          2 ^ 64 then
        .sync (encodeTlv 0x08 component)
      else
        .ignored := by
  by_cases fits : (encodeComponents
      (syncPrefix.components ++ [component])).length < 2 ^ 64
  · have kept : (Name.ofComponents (syncPrefix.components ++
        [component])).components = syncPrefix.components ++ [component] := by
      rw [Name.ofComponents, dif_pos fits]
    rw [if_pos fits]
    simp [received, Platform.overComponents, Name.ops, kept]
  · have lost : (Name.ofComponents (syncPrefix.components ++
        [component])).components = [] := by
      rw [Name.ofComponents, dif_neg fits]
    rw [if_neg fits]
    simp [received, Platform.overComponents, Name.ops, lost]

theorem recoverInterest_eq (core : SyncCore Name) (hash : Hash) :
    core.recoverInterest (platform.overComponents toUri) hash =
      if hash = [] then
        some ((platform.overComponents toUri).ndn.append
          ((platform.overComponents toUri).ndn.append core.syncPrefix
            RECOVER) [])
      else
        none := by
  cases hash with
  | nil => simp [recoverInterest]
  | cons byte rest => simp [recoverInterest, memcpy]

/-- No digest is ever asked for: for a hash with bytes, `recover` expresses no
interest. -/
theorem recover_of_ne_nil (core : SyncCore Name) {hash : Hash}
    (nonempty : hash ≠ []) {names : List Name}
    (returned : core.recover (platform.overComponents toUri) hash =
      some names) : names = [] := by
  unfold recover at returned
  split_ifs at returned
  · rw [recoverInterest_eq, if_neg nonempty] at returned
    exact (Option.some_ne_none names returned.symm).elim
  · exact (Option.some.inj returned).symm

theorem received_recover_ne_nil {syncPrefix name : Name} {hash : Hash}
    (isRecover : received (platform.overComponents toUri) syncPrefix name =
      .recover hash) : hash ≠ [] := by
  simp only [received] at isRecover
  split_ifs at isRecover
  obtain rfl := Received.recover.inj isRecover
  simp [Platform.overComponents, encodeTlv_ne_nil]

/-- No hash arrives.  The interest for a root is never taken for a sync
interest for that root, and the name built to recover a hash, if one is built
at all, never for a recovery interest for that hash. -/
theorem interests_never_for_hash (platform : Platform Name)
    (toUri : Bytes → Bytes) (core : SyncCore Name) (hash : Hash) :
    received (platform.overComponents toUri) core.syncPrefix
        (core.syncInterest (platform.overComponents toUri)) ≠
      .sync core.rootHash ∧
    ¬ ∃ name,
      core.recoverInterest (platform.overComponents toUri) hash = some name ∧
      received (platform.overComponents toUri) core.syncPrefix name =
        .recover hash := by
  constructor
  · intro taken
    rw [syncInterest, received_append] at taken
    split_ifs at taken
    apply hashOfComponent_ne core.rootHash
    rw [hashOfComponent_eq]
    exact Received.sync.inj taken
  · rintro ⟨name, built, taken⟩
    rw [recoverInterest_eq] at built
    split_ifs at built with empty
    exact received_recover_ne_nil taken empty

/-- The root of `startedAlex` is taken for its wire form, and its recovery
interest is not built: the bytes of the hash are written past the buffer. -/
theorem interests_startedAlex :
    let platform := (plainPlatform Name.uriOps).overComponents id
    let hash := startedAlex.rootHash
    received platform startedAlex.syncPrefix
        (startedAlex.syncInterest platform) =
      .sync (0x08 :: UInt8.ofNat hash.length :: hash) ∧
    startedAlex.recoverInterest platform hash = none ∧
    ¬ (received platform startedAlex.syncPrefix
        (startedAlex.syncInterest platform) = .sync hash ∧
      ∃ name, startedAlex.recoverInterest platform hash = some name ∧
        received platform startedAlex.syncPrefix name = .recover hash) := by
  decide +kernel

end SyncCore

end ChronoShare
