import ChronoShare.ActionLog.Coherence

/-!
# When two devices show the same files

Every device ranks the actions of the others alike, and ranks its own deletions
below the other actions of their version.  Two devices that have received the
same actions therefore agree on a file exactly if the action ranked highest
survives this, and if the time of an update survives its message.
-/

namespace ChronoShare

section Rank

variable {Name : Type} (platform : ActionPlatform Name)

/-- The rank of an action with the devices that received it. -/
def rank (sent : Created Name) : Int64 ×ₗ Bytes :=
  toLex (sent.item.version.toInt64, platform.ndn.value sent.author)

def receivedOn (received : List (Created Name)) (filename : Bytes) :
    List (Created Name) :=
  received.filter fun sent => sent.item.filename = filename

@[simp] theorem mem_receivedOn {received : List (Created Name)}
    {filename : Bytes} {sent : Created Name} :
    sent ∈ receivedOn received filename ↔
      sent ∈ received ∧ sent.item.filename = filename := by
  simp [receivedOn]

theorem Distinguished.versionsOn {created received : List (Created Name)}
    (distinguished : Distinguished created)
    (known : ∀ sent ∈ received, sent ∈ created) (filename : Bytes) :
    ∀ left ∈ receivedOn received filename,
      ∀ right ∈ receivedOn received filename, left.author = right.author →
        left.item.version = right.item.version → left = right := by
  intro left leftIn right rightIn sameAuthor sameVersion
  rw [mem_receivedOn] at leftIn rightIn
  exact distinguished.versions left (known left leftIn.1) right
    (known right rightIn.1) sameAuthor (leftIn.2.trans rightIn.2.symm)
    sameVersion

variable {platform}

theorem version_le_of_rank_le {left right : Created Name}
    (below : rank platform left ≤ rank platform right) :
    left.item.version.toInt64 ≤ right.item.version.toInt64 := by
  rcases Prod.Lex.toLex_le_toLex.mp below with less | ⟨same, _⟩
  · exact less.le
  · exact same.le

theorem rank_distinct (blobs : platform.ndn.DistinctBlobs)
    {received : List (Created Name)} {filename : Bytes}
    (unique : received.Nodup)
    (versions : ∀ left ∈ receivedOn received filename,
      ∀ right ∈ receivedOn received filename, left.author = right.author →
        left.item.version = right.item.version → left = right) :
    DistinctStamps (rank platform) (receivedOn received filename) := by
  have filtered : (receivedOn received filename).Nodup := unique.filter _
  apply filtered.imp_of_mem
  intro left right leftIn rightIn different same
  obtain ⟨sameVersion, sameName⟩ := Prod.mk.inj same
  apply different
  apply versions left leftIn right rightIn
  · exact blobs.valueInjective sameName
  · simpa using congrArg Int64.toUInt64 sameVersion

end Rank

variable {Name : Type} [DecidableEq Name] (platform : ActionPlatform Name)

/-- The other actions of the version of `top`. -/
def rivals (received : List (Created Name)) (top : Created Name) :
    List (Created Name) :=
  received.filter fun sent =>
    sent.item.version = top.item.version ∧ sent ≠ top

/-- The table of a device shows the effect of `top` although the device is its
author: a deletion has no update of its version below it, and the time of an
update is the one in its message. -/
def Survives (received : List (Created Name)) (top : Created Name) : Prop :=
  match top.item.action with
  | .delete => ∀ next, Latest (rank platform) (rivals received top) next →
      next.item.action = .delete
  | .update => readTime (datetime top.wtime) =
      (top.item.mtime.getD 0).toUInt64.toInt64

/-- The highest action on the file survives if one of the two devices is its
author. -/
def Agreeable (received : List (Created Name)) (first second : Name)
    (filename : Bytes) : Prop :=
  ∀ top, Latest (rank platform) (receivedOn received filename) top →
    top.author = first ∨ top.author = second →
      Survives platform (receivedOn received filename) top

variable {platform}

@[simp] theorem mem_rivals {received : List (Created Name)}
    {top sent : Created Name} :
    sent ∈ rivals received top ↔
      sent ∈ received ∧ sent.item.version = top.item.version ∧ sent ≠ top := by
  simp [rivals]

/-- The device ranks the action by the wire form of its own name. -/
def OwnDelete (device : Name) (sent : Created Name) : Prop :=
  sent.author = device ∧ sent.item.action = .delete

theorem stampAt_of_not_own {device : Name} {sent : Created Name}
    (other : ¬ OwnDelete device sent) :
    stampAt platform device sent = rank platform sent := by
  have branch : ¬ (sent.author = device ∧ sent.item.action = .delete) := other
  rw [stampAt, storedName, if_neg branch, rank]

theorem stampAt_of_own {device : Name} {sent : Created Name}
    (own : OwnDelete device sent) :
    stampAt platform device sent =
      toLex (sent.item.version.toInt64, platform.ndn.wire sent.author) := by
  have branch : sent.author = device ∧ sent.item.action = .delete := own
  rw [stampAt, storedName, if_pos branch]

theorem stampAt_le_rank (blobs : platform.ndn.DistinctBlobs) (device : Name)
    (sent : Created Name) :
    stampAt platform device sent ≤ rank platform sent := by
  by_cases own : OwnDelete device sent
  · rw [stampAt_of_own own]
    apply Prod.Lex.toLex_le_toLex.mpr
    exact .inr ⟨rfl, (blobs.wire_lt_value _ _).le⟩
  · exact (stampAt_of_not_own own).le

section Device

variable {device : Name} {sents : List (Created Name)} {top : Created Name}

/-- An action that is not a deletion of the device's own keeps its place at the
top. -/
theorem latest_stampAt_of_not_own (blobs : platform.ndn.DistinctBlobs)
    (latest : Latest (rank platform) sents top)
    (other : ¬ OwnDelete device top) :
    Latest (stampAt platform device) sents top := by
  refine ⟨latest.1, ?_⟩
  intro sent member
  calc
    stampAt platform device sent ≤ rank platform sent :=
      stampAt_le_rank blobs device sent
    _ ≤ rank platform top := latest.2 sent member
    _ = stampAt platform device top := (stampAt_of_not_own other).symm

theorem latest_stampAt_of_no_rival
    (latest : Latest (rank platform) sents top)
    (alone : rivals sents top = []) :
    Latest (stampAt platform device) sents top := by
  refine ⟨latest.1, ?_⟩
  intro sent member
  by_cases same : sent = top
  · rw [same]
  · have different : sent.item.version ≠ top.item.version := by
      intro sameVersion
      have rival : sent ∈ rivals sents top := by
        simp [member, sameVersion, same]
      rw [alone] at rival
      exact absurd rival List.not_mem_nil
    have bounded := version_le_of_rank_le (latest.2 sent member)
    have below : sent.item.version.toInt64 < top.item.version.toInt64 := by
      apply lt_of_le_of_ne bounded
      intro equal
      exact different (by simpa using congrArg Int64.toUInt64 equal)
    exact Prod.Lex.toLex_le_toLex.mpr (.inl below)

theorem latest_stampAt_of_rival (blobs : platform.ndn.DistinctBlobs)
    (versions : ∀ left ∈ sents, ∀ right ∈ sents, left.author = right.author →
      left.item.version = right.item.version → left = right)
    (latest : Latest (rank platform) sents top) (own : OwnDelete device top)
    {next : Created Name}
    (highest : Latest (rank platform) (rivals sents top) next) :
    Latest (stampAt platform device) sents next := by
  obtain ⟨nextIn, sameVersion, different⟩ := mem_rivals.mp highest.1
  have foreign : ∀ sent ∈ rivals sents top, ¬ OwnDelete device sent := by
    intro sent member ownToo
    obtain ⟨sentIn, version, apart⟩ := mem_rivals.mp member
    exact apart (versions sent sentIn top latest.1
      (ownToo.1.trans own.1.symm) version)
  refine ⟨nextIn, ?_⟩
  intro sent member
  rw [stampAt_of_not_own (foreign next highest.1)]
  by_cases sameAsTop : sent = top
  · rw [sameAsTop, stampAt_of_own own]
    apply Prod.Lex.toLex_le_toLex.mpr
    exact .inr ⟨by rw [sameVersion], (blobs.wire_lt_value _ _).le⟩
  by_cases version : sent.item.version = top.item.version
  · have rival : sent ∈ rivals sents top := by
      simp [member, version, sameAsTop]
    rw [stampAt_of_not_own (foreign sent rival)]
    exact highest.2 sent rival
  · have bounded := version_le_of_rank_le (latest.2 sent member)
    have below : sent.item.version.toInt64 < next.item.version.toInt64 := by
      rw [sameVersion]
      apply lt_of_le_of_ne bounded
      intro equal
      exact version (by simpa using congrArg Int64.toUInt64 equal)
    exact Prod.Lex.toLex_le_toLex.mpr (.inl below)

end Device

section Shown

variable {device : Name} {received : List (Created Name)}
  {log : ActionLog Name}

/-- The table of files is settled by the received actions, ranked and applied
as the device does it. -/
theorem Holds.settled (holds : Holds platform device received log)
    (filename : Bytes) :
    Settled (stampAt platform device) (effectAt platform device)
      (receivedOn received filename)
      (FileState.view log.fileState filename) := by
  have paired : List.Forall₂ (Stored platform device)
      (receivedOn received filename) (actionsOn log.actions filename) := by
    apply List.rel_filter _ holds.stored
    intro sent row stored
    simp [stored.filename]
  apply (holds.current.settled filename).transfer
  exact paired.imp fun sent row stored => ⟨stored.stamp, stored.effect⟩

variable {filename : Bytes} {top : Created Name}

theorem view_of_foreign (blobs : platform.ndn.DistinctBlobs)
    (holds : Holds platform device received log)
    (latest : Latest (rank platform) (receivedOn received filename) top)
    (foreign : top.author ≠ device) :
    FileState.view log.fileState filename = effectAt platform device top := by
  apply (holds.settled filename).2
  exact latest_stampAt_of_not_own blobs latest fun own => foreign own.1

theorem view_of_update (blobs : platform.ndn.DistinctBlobs)
    (holds : Holds platform device received log)
    (latest : Latest (rank platform) (receivedOn received filename) top)
    (isUpdate : top.item.action = .update) :
    FileState.view log.fileState filename = effectAt platform device top := by
  apply (holds.settled filename).2
  apply latest_stampAt_of_not_own blobs latest
  intro own
  rw [own.2] at isUpdate
  simp at isUpdate

theorem view_of_own_delete (blobs : platform.ndn.DistinctBlobs)
    (holds : Holds platform device received log)
    (versions : ∀ left ∈ receivedOn received filename,
      ∀ right ∈ receivedOn received filename, left.author = right.author →
        left.item.version = right.item.version → left = right)
    (latest : Latest (rank platform) (receivedOn received filename) top)
    (own : OwnDelete device top) :
    FileState.view log.fileState filename = none ↔
      Survives platform (receivedOn received filename) top := by
  simp only [Survives, own.2]
  by_cases alone : rivals (receivedOn received filename) top = []
  · have shown : FileState.view log.fileState filename =
        effectAt platform device top :=
      (holds.settled filename).2 top (latest_stampAt_of_no_rival latest alone)
    constructor
    · intro _ next highest
      rw [alone] at highest
      exact absurd highest.1 List.not_mem_nil
    · intro _
      rw [shown, effectAt, own.2]
  · obtain ⟨next, highest⟩ : ∃ next, Latest (rank platform)
        (rivals (receivedOn received filename) top) next :=
      exists_latest alone
    have shown : ∀ next, Latest (rank platform)
        (rivals (receivedOn received filename) top) next →
        FileState.view log.fileState filename =
          effectAt platform device next := by
      intro next highest
      exact (holds.settled filename).2 next
        (latest_stampAt_of_rival blobs versions latest own highest)
    constructor
    · intro absent next highest
      rw [shown next highest] at absent
      cases kind : next.item.action with
      | delete => rfl
      | update => simp [effectAt, kind] at absent
    · intro survives
      rw [shown next highest, effectAt, survives next highest]

end Shown

theorem readTime_datetime_message (seconds : UInt32) :
    readTime (datetime seconds.toUInt64.toInt64) =
      seconds.toUInt64.toInt64 := by
  have bounded : -210866760000 ≤ seconds.toUInt64.toInt64 ∧
      seconds.toUInt64.toInt64 ≤ 253402300799 := by
    have small : seconds.toNat < 2 ^ 32 := seconds.toNat_lt
    have low : (-210866760000 : Int64).toInt = -210866760000 := by decide
    have high : (253402300799 : Int64).toInt = 253402300799 := by decide
    rw [Int64.le_iff_toInt_le, Int64.le_iff_toInt_le, low, high,
      toInt_of_uint32]
    omega
  rw [datetime, dif_pos bounded, readTime]

theorem datetime_readTime_inj {left right : Option TimeText} :
    datetime (readTime left) = datetime (readTime right) ↔
      readTime left = readTime right := by
  constructor
  · intro equality
    have read := congrArg readTime equality
    rwa [readTime_datetime_readTime, readTime_datetime_readTime] at read
  · exact congrArg datetime

section Pair

variable {sents others : List (Created Name)} {top : Created Name}

/-- An update looks the same to its author and to another device exactly if
its time survives the message. -/
theorem effectAt_eq_iff (isUpdate : top.item.action = .update)
    {device : Name} (foreign : top.author ≠ device) :
    effectAt platform top.author top = effectAt platform device top ↔
      Survives platform sents top := by
  simp only [Survives, isUpdate, effectAt, mtimeAt, if_neg foreign, if_true,
    Option.some.injEq, FileRow.mk.injEq, true_and, and_true]
  rw [datetime_readTime_inj, readTime_datetime_message]

theorem survives_congr (same : ∀ sent, sent ∈ sents ↔ sent ∈ others) :
    Survives platform sents top ↔ Survives platform others top := by
  have sameRivals : ∀ sent, sent ∈ rivals sents top ↔
      sent ∈ rivals others top := by
    intro sent
    simp [same]
  simp only [Survives, latest_congr sameRivals]

variable {network : Network Name} {first second : Name} {filename : Bytes}

/-- The author of the highest action and another device agree exactly if the
action survives. -/
theorem author_agrees_iff (blobs : platform.ndn.DistinctBlobs)
    (coherent : Coherent platform network) {device : Name}
    (foreign : top.author ≠ device)
    (atAuthor : Latest (rank platform)
      (receivedOn (network.received top.author) filename) top)
    (atDevice : Latest (rank platform)
      (receivedOn (network.received device) filename) top) :
    FileState.view (network.log top.author).fileState filename =
        FileState.view (network.log device).fileState filename ↔
      Survives platform
        (receivedOn (network.received top.author) filename) top := by
  have authorHolds := coherent.holds top.author
  have deviceHolds := coherent.holds device
  rw [view_of_foreign blobs deviceHolds atDevice foreign]
  cases kind : top.item.action with
  | update =>
      rw [view_of_update blobs authorHolds atAuthor kind]
      exact effectAt_eq_iff kind foreign
  | delete =>
      have removed : effectAt platform device top = none := by
        rw [effectAt, kind]
      have versions := coherent.distinguished.versionsOn
        (coherent.known top.author) filename
      rw [removed]
      exact view_of_own_delete blobs authorHolds versions atAuthor
        ⟨rfl, kind⟩

theorem views_agree_iff (blobs : platform.ndn.DistinctBlobs)
    (coherent : Coherent platform network) (different : first ≠ second)
    (same : ∀ sent, sent ∈ network.received first ↔
      sent ∈ network.received second) (filename : Bytes) :
    FileState.view (network.log first).fileState filename =
        FileState.view (network.log second).fileState filename ↔
      Agreeable platform (network.received first) first second filename := by
  have sameOn : ∀ sent,
      sent ∈ receivedOn (network.received first) filename ↔
        sent ∈ receivedOn (network.received second) filename := by
    intro sent
    simp [same]
  by_cases empty : receivedOn (network.received first) filename = []
  · have otherEmpty : receivedOn (network.received second) filename = [] := by
      apply List.eq_nil_iff_forall_not_mem.mpr
      intro sent member
      rw [← sameOn, empty] at member
      exact absurd member List.not_mem_nil
    rw [((coherent.holds first).settled filename).1 empty,
      ((coherent.holds second).settled filename).1 otherEmpty]
    constructor
    · intro _ top latest
      rw [empty] at latest
      exact absurd latest.1 List.not_mem_nil
    · exact fun _ => rfl
  · obtain ⟨top, latest⟩ : ∃ top, Latest (rank platform)
        (receivedOn (network.received first) filename) top :=
      exists_latest empty
    have otherLatest : Latest (rank platform)
        (receivedOn (network.received second) filename) top :=
      (latest_congr sameOn).mp latest
    have onlyTop : Agreeable platform (network.received first) first second
          filename ↔
        (top.author = first ∨ top.author = second →
          Survives platform
            (receivedOn (network.received first) filename) top) := by
      constructor
      · exact fun agreeable => agreeable top latest
      · intro survives other otherLatest
        have stamps := rank_distinct blobs (coherent.holds first).unique
          (coherent.distinguished.versionsOn (coherent.known first) filename)
        rwa [otherLatest.eq stamps latest]
    rw [onlyTop]
    by_cases byFirst : top.author = first
    · subst byFirst
      simp only [true_or, true_implies]
      exact author_agrees_iff blobs coherent different latest otherLatest
    by_cases bySecond : top.author = second
    · subst bySecond
      simp only [or_true, true_implies]
      rw [eq_comm, survives_congr sameOn]
      exact author_agrees_iff blobs coherent (Ne.symm different) otherLatest
        latest
    · have foreign : effectAt platform first top =
          effectAt platform second top := by
        simp only [effectAt, mtimeAt, if_neg byFirst, if_neg bySecond]
      rw [view_of_foreign blobs (coherent.holds first) latest byFirst,
        view_of_foreign blobs (coherent.holds second) otherLatest bySecond]
      simp [byFirst, bySecond, foreign]

end Pair

/-- The two tables hold the same rows, up to the local marks of completeness. -/
def SameFiles (left right : List FileRow) : Prop :=
  ∀ row, row ∈ left.map FileRow.shared ↔ row ∈ right.map FileRow.shared

theorem mem_shared_iff_view {files : List FileRow}
    (unique : (files.map (·.filename)).Nodup) {row : FileRow} :
    row ∈ files.map FileRow.shared ↔
      FileState.view files row.filename = some row := by
  constructor
  · intro member
    obtain ⟨file, fileIn, rfl⟩ := List.mem_map.mp member
    have found : files.find? (fun other =>
        other.filename = file.shared.filename) = some file :=
      (Table.find?_eq_some_iff (·.filename) unique).mpr ⟨fileIn, rfl⟩
    rw [FileState.view, found]
    rfl
  · intro shown
    obtain ⟨file, found, rfl⟩ := Option.map_eq_some_iff.mp shown
    exact List.mem_map_of_mem (List.mem_of_find?_eq_some found)

theorem view_filename {files : List FileRow} {filename : Bytes} {row : FileRow}
    (shown : FileState.view files filename = some row) :
    row.filename = filename := by
  obtain ⟨file, found, rfl⟩ := Option.map_eq_some_iff.mp shown
  simpa [FileRow.shared] using List.find?_some found

theorem sameFiles_iff {left right : List FileRow}
    (leftUnique : (left.map (·.filename)).Nodup)
    (rightUnique : (right.map (·.filename)).Nodup) :
    SameFiles left right ↔
      ∀ filename, FileState.view left filename =
        FileState.view right filename := by
  simp only [SameFiles, mem_shared_iff_view leftUnique,
    mem_shared_iff_view rightUnique]
  constructor
  · intro same filename
    apply Option.ext
    intro row
    constructor
    · intro shown
      obtain rfl := view_filename shown
      exact (same row).mp shown
    · intro shown
      obtain rfl := view_filename shown
      exact (same row).mpr shown
  · intro same row
    rw [same]

/-- Two devices that have received the same actions have the same files
exactly if, for every file, the highest action survives at its author. -/
theorem same_files_iff_agreeable (blobs : platform.ndn.DistinctBlobs)
    {syncLogs : Name → SyncLog Name}
    (names : ∀ device, (syncLogs device).localName = device)
    {trace : List (Network Name × NetworkEvent Name)} {final : Network Name}
    (steps : Network.Steps platform (Network.start syncLogs) trace final)
    {first second : Name} (different : first ≠ second)
    (same : ∀ sent, sent ∈ final.received first ↔
      sent ∈ final.received second) :
    SameFiles (final.log first).fileState (final.log second).fileState ↔
      ∀ filename,
        Agreeable platform (final.received first) first second filename := by
  have coherent := steps_coherent blobs names steps
  rw [sameFiles_iff (coherent.holds first).current.unique
    (coherent.holds second).current.unique]
  constructor
  · intro agree filename
    exact (views_agree_iff blobs coherent different same filename).mp
      (agree filename)
  · intro agreeable filename
    exact (views_agree_iff blobs coherent different same filename).mpr
      (agreeable filename)

/-- `/alex` adds a file and `/bob` receives it. -/
def fileAdded : Created DeviceName :=
  ⟨DeviceName.alex, 1, ActionLog.updateItem [0x66] [1] 0 5 6 420 1 none, 6⟩

/-- `/alex` removes the file. -/
def fileRemoved : Created DeviceName :=
  ⟨DeviceName.alex, 2, ActionLog.deleteItem [0x66] 1 8
    (devicePlatform.ndn.value DeviceName.alex) 1, 0⟩

/-- `/bob` changes the file at the same time. -/
def fileChanged : Created DeviceName :=
  ⟨DeviceName.bob, 1, ActionLog.updateItem [0x66] [2] 1 9 9 420 1
    (some (devicePlatform.ndn.value DeviceName.alex, 1)), 9⟩

def packetOf (sent : Created DeviceName) : Data DeviceName :=
  ⟨sent.author, 60, writeItem sent.item⟩

def shareFile : List (NetworkEvent DeviceName) :=
  [.addLocalActionUpdate DeviceName.alex 0 5 [0x66] [1] 6 420 1,
    .deliver DeviceName.bob fileAdded (packetOf fileAdded)]

def removeAndChange : List (NetworkEvent DeviceName) :=
  shareFile ++
    [.addLocalActionDelete DeviceName.alex 0 8 (fun _ => 0) [0x66],
      .addLocalActionUpdate DeviceName.bob 0 9 [0x66] [2] 9 420 1,
      .deliver DeviceName.bob fileRemoved (packetOf fileRemoved),
      .deliver DeviceName.alex fileChanged (packetOf fileChanged)]

/-- Every device starts with a fresh log of states under its own name. -/
def freshNetwork : Network DeviceName :=
  Network.start fun device => SyncLog.opened DeviceName.ops device

theorem freshNetwork_names (device : DeviceName) :
    (SyncLog.opened DeviceName.ops device).localName = device :=
  rfl

/-- After `removeAndChange` both devices have received the same three actions;
`/alex` still shows the file and `/bob` does not. -/
theorem removed_file_diverges :
    ∃ trace final, Network.Steps devicePlatform freshNetwork trace final ∧
      (∀ sent, sent ∈ final.received DeviceName.alex ↔
        sent ∈ final.received DeviceName.bob) ∧
      ¬ SameFiles (final.log DeviceName.alex).fileState
        (final.log DeviceName.bob).fileState := by
  have executed : (execute (Network.step devicePlatform) freshNetwork
      removeAndChange).any (fun result =>
        (∀ sent ∈ result.2.received DeviceName.alex,
          sent ∈ result.2.received DeviceName.bob) ∧
        (∀ sent ∈ result.2.received DeviceName.bob,
          sent ∈ result.2.received DeviceName.alex) ∧
        (result.2.log DeviceName.alex).fileState ≠ [] ∧
        (result.2.log DeviceName.bob).fileState = []) = true := by
    decide +kernel
  obtain ⟨⟨trace, final⟩, ran, holds⟩ := (Option.any_eq_true _ _).mp executed
  obtain ⟨forth, back, shown, absent⟩ := of_decide_eq_true holds
  refine ⟨trace, final, execute_run ran,
    fun sent => ⟨forth sent, back sent⟩, ?_⟩
  intro same
  obtain ⟨file, member⟩ := List.exists_mem_of_ne_nil _ shown
  have other := (same file.shared).mp (List.mem_map_of_mem member)
  rw [absent] at other
  exact absurd other List.not_mem_nil

theorem same_files_iff_agreeable_shared :
    devicePlatform.ndn.DistinctBlobs ∧
    (∀ device, (SyncLog.opened DeviceName.ops device).localName = device) ∧
    ∃ trace final, Network.Steps devicePlatform freshNetwork trace final ∧
      DeviceName.alex ≠ DeviceName.bob ∧
      (∀ sent, sent ∈ final.received DeviceName.alex ↔
        sent ∈ final.received DeviceName.bob) ∧
      final.received DeviceName.alex = [fileAdded] ∧
      (SameFiles (final.log DeviceName.alex).fileState
          (final.log DeviceName.bob).fileState ↔
        ∀ filename, Agreeable devicePlatform
          (final.received DeviceName.alex) DeviceName.alex DeviceName.bob
          filename) := by
  have executed : (execute (Network.step devicePlatform) freshNetwork
      shareFile).any (fun result =>
        result.2.received DeviceName.alex = [fileAdded] ∧
        result.2.received DeviceName.bob = [fileAdded]) = true := by
    decide +kernel
  obtain ⟨⟨trace, final⟩, ran, holds⟩ := (Option.any_eq_true _ _).mp executed
  obtain ⟨atAlex, atBob⟩ := of_decide_eq_true holds
  have different : DeviceName.alex ≠ DeviceName.bob := by decide
  have same : ∀ sent, sent ∈ final.received DeviceName.alex ↔
      sent ∈ final.received DeviceName.bob := by
    intro sent
    rw [atAlex, atBob]
  exact ⟨DeviceName.ops_distinctBlobs, freshNetwork_names, trace, final,
    execute_run ran, different, same, atAlex,
    same_files_iff_agreeable DeviceName.ops_distinctBlobs freshNetwork_names
      (execute_run ran) different same⟩

end ChronoShare
