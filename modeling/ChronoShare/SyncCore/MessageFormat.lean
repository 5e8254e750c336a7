import ChronoShare.SyncCore.Core

/-!
# A message format that can be read back

The compressed format of messages is a parameter of the core.  This instance
of it writes a message as a row of marked fields, five for each entry, and
parsing undoes serialization.
-/

namespace ChronoShare

/-- A field: each byte after a mark, then the end mark. -/
def writeField (field : Bytes) : Bytes :=
  field.flatMap (fun byte => [1, byte]) ++ [0]

def readFields : Bytes → Option (List Bytes)
  | [] => some []
  | [mark] => if mark = 0 then some [[]] else none
  | mark :: byte :: rest =>
      if mark = 0 then
        (readFields (byte :: rest)).map fun fields => [] :: fields
      else
        match readFields rest with
        | some (field :: fields) => some ((byte :: field) :: fields)
        | _ => none

theorem readFields_writeField (field rest : Bytes) :
    readFields (writeField field ++ rest) =
      (readFields rest).map fun fields => field :: fields := by
  induction field with
  | nil =>
      cases rest with
      | nil => rfl
      | cons byte rest => simp [writeField, readFields]
  | cons byte field induction =>
      have unfolded : writeField (byte :: field) ++ rest =
          1 :: byte :: (writeField field ++ rest) := by
        simp [writeField]
      rw [unfolded]
      simp only [readFields, if_neg (show (1 : UInt8) ≠ 0 by decide)]
      rw [induction]
      cases readFields rest with
      | none => rfl
      | some fields => rfl

def fromLittleEndian : Bytes → Nat
  | [] => 0
  | byte :: bytes => byte.toNat + 256 * fromLittleEndian bytes

theorem fromLittleEndian_littleEndian {width number : Nat}
    (bounded : number < 256 ^ width) :
    fromLittleEndian (littleEndian width number) = number := by
  induction width generalizing number with
  | zero =>
      simp only [Nat.pow_zero, Nat.lt_one_iff] at bounded
      simp [bounded, littleEndian, fromLittleEndian]
  | succ width induction =>
      have high : fromLittleEndian (littleEndian width (number / 256)) =
          number / 256 :=
        induction (Nat.div_lt_of_lt_mul (by rwa [Nat.pow_succ'] at bounded))
      have low : (UInt8.ofNat number).toNat = number % 256 := by simp
      simp only [littleEndian, fromLittleEndian, high, low]
      exact Nat.mod_add_div number 256

def writeType : SyncStateType → Bytes
  | .update => [0]
  | .delete => [1]

def readType (field : Bytes) : SyncStateType :=
  if field = [0] then .update else .delete

def writeNumber : Option UInt64 → Bytes
  | none => []
  | some number => littleEndian 8 number.toNat

def readNumber (field : Bytes) : Option UInt64 :=
  if field = [] then
    none
  else
    some (UInt64.ofNat (fromLittleEndian field))

def writeOptional : Option Bytes → Bytes
  | none => []
  | some bytes => 0 :: bytes

def readOptional : Bytes → Option Bytes
  | [] => none
  | _ :: bytes => some bytes

@[simp] theorem readType_writeType (type : SyncStateType) :
    readType (writeType type) = type := by
  cases type <;> rfl

@[simp] theorem readNumber_writeNumber (number : Option UInt64) :
    readNumber (writeNumber number) = number := by
  cases number with
  | none => rfl
  | some number =>
      have nonempty : littleEndian 8 number.toNat ≠ [] := by
        intro empty
        have lengths := congrArg List.length empty
        simp at lengths
      have bounded : number.toNat < 256 ^ 8 := number.toNat_lt
      simp only [writeNumber, readNumber, nonempty, if_false,
        fromLittleEndian_littleEndian bounded, UInt64.ofNat_toNat]

@[simp] theorem readOptional_writeOptional (bytes : Option Bytes) :
    readOptional (writeOptional bytes) = bytes := by
  cases bytes <;> rfl

def writeState (state : SyncState) : Bytes :=
  writeField state.name ++ (writeField (writeType state.type) ++
    (writeField (writeNumber state.seq) ++
      (writeField (writeOptional state.locator) ++
        writeField (writeNumber state.oldSeq))))

def readStates : List Bytes → Option SyncStateMsg
  | [] => some []
  | name :: type :: seq :: locator :: oldSeq :: fields =>
      (readStates fields).map fun states =>
        ⟨name, readType type, readNumber seq, readOptional locator,
          readNumber oldSeq⟩ :: states
  | _ => none

def writeMessage (msg : SyncStateMsg) : Bytes :=
  msg.flatMap writeState

def readMessage (content : Bytes) : Option SyncStateMsg :=
  (readFields content).bind readStates

theorem readMessage_writeMessage (msg : SyncStateMsg) :
    readMessage (writeMessage msg) = some msg := by
  induction msg with
  | nil => rfl
  | cons state states induction =>
      have unfolded : writeMessage (state :: states) =
          writeState state ++ writeMessage states := rfl
      unfold readMessage at induction ⊢
      rw [unfolded]
      simp only [writeState, List.append_assoc, readFields_writeField]
      cases fields : readFields (writeMessage states) with
      | none => simp [fields] at induction
      | some fields =>
          simp only [fields, Option.bind_some] at induction
          simp [readStates, induction]

/-- The core over the given names, with messages in this format and digests
carried as the last component of a name. -/
def plainPlatform (ndn : NameOps Name) : Platform Name where
  ndn
  sha256 := taggedDigest
  serializeGZipMsg := writeMessage
  deserializeGZipMsg := readMessage
  size name := name.components.length
  componentUri name index := name.components.getD index []
  lastHash name := name.components.getLastD []

namespace SyncCore

/-- A node of `/alex` that reads strings as URIs, right after its start. -/
def startedAlex : SyncCore Name :=
  construct (plainPlatform Name.uriOps)
    (SyncLog.opened Name.uriOps Name.alex) Name.alex Name.broadcast

/-- The message with which `/bob` announces its first action. -/
def bobAnnounces : Bytes :=
  writeMessage [⟨Name.bob.wireEncode, .update, some 1, none, none⟩]

theorem bobAnnounces_parsed {msg : SyncStateMsg}
    (parsed : (plainPlatform Name.uriOps).deserializeGZipMsg bobAnnounces =
      some msg) :
    msg = [⟨Name.bob.wireEncode, .update, some 1, none, none⟩] := by
  have written : readMessage bobAnnounces =
      some [⟨Name.bob.wireEncode, .update, some 1, none, none⟩] :=
    readMessage_writeMessage _
  exact Option.some.inj (parsed.symm.trans written)

end SyncCore

end ChronoShare
