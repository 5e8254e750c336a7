import ChronoShare.ContentServer.Store

/-!
# The names of actions and files

An action is named by the device, the application, a keyword, the shared folder
and a number.  Two readers take such a name apart from its end.  They compare
the URI of a component with the string that the component was made from, so
that a string with an escape is never found again.
-/

namespace ChronoShare

theorem foldl_bigEndian {width value : Nat} (bounded : value < 256 ^ width) :
    (bigEndian width value).foldl
      (fun number byte => 256 * number + byte.toNat) 0 = value := by
  rw [bigEndian, List.foldl_reverse]
  induction width generalizing value with
  | zero =>
      rw [littleEndian, List.foldr_nil]
      omega
  | succ width induction =>
      have rest : value / 256 < 256 ^ width := by
        apply Nat.div_lt_of_lt_mul
        rw [← Nat.pow_succ']
        exact bounded
      rw [littleEndian, List.foldr_cons, induction rest, UInt8.toNat_ofNat']
      omega

namespace Name

theorem toNumber_bigEndian {width : Nat} {number : UInt64}
    (sized : width ∈ [1, 2, 4, 8]) (bounded : number.toNat < 256 ^ width) :
    toNumber (bigEndian width number.toNat) = some number := by
  rw [toNumber, length_bigEndian, if_pos sized, foldl_bigEndian bounded,
    UInt64.ofNat_toNat]

theorem toNumber_encodeNumber (number : UInt64) :
    toNumber (encodeNumber number) = some number := by
  have bounded := number.toNat_lt
  rw [encodeNumber]
  split_ifs with one two four
  · exact toNumber_bigEndian (by decide) (UInt64.lt_iff_toNat_lt.mp one)
  · exact toNumber_bigEndian (by decide) (UInt64.lt_iff_toNat_lt.mp two)
  · exact toNumber_bigEndian (by decide) (UInt64.lt_iff_toNat_lt.mp four)
  · exact toNumber_bigEndian (by decide) bounded

theorem ofComponents_components (name : Name) :
    ofComponents name.components = name :=
  dif_pos name.fits

theorem components_ofComponents {components : List Bytes}
    (fits : (encodeComponents components).length < 2 ^ 64) :
    (ofComponents components).components = components := by
  rw [ofComponents, dif_pos fits]

theorem getSubName_eq {name part : Name} {front back : List Bytes}
    (split : name.components = front ++ (part.components ++ back)) :
    name.getSubName front.length part.size = part := by
  rw [getSubName, split, List.drop_left, size, List.take_left,
    ofComponents_components]

end Name

namespace ActionLog

/-- What the overload of `AddRemoteAction` for a packet reads from its name:
the outer `none` is an exception, the inner one a refusal. -/
def readActionName (appName sharedFolderName : Bytes) (name : Name) :
    Option (Option (Name × UInt64)) := do
  let seqno ← Name.toNumber (← name.getFromEnd 1)
  let sharedFolder ← name.getFromEnd 2
  if Uri.toUri sharedFolder ≠ sharedFolderName then
    some none
  else do
    let action ← name.getFromEnd 3
    if Uri.toUri action ≠ actionComponent then
      some none
    else do
      let app ← name.getFromEnd 4
      if Uri.toUri app ≠ appName then
        some none
      else
        some (some (name.getSubName 0 (name.size - 4), seqno))

/-- `AddRemoteAction` for a packet. -/
def addRemoteActionData (platform : ActionPlatform Name)
    (log : ActionLog Name) (actionPco : Data Name) :
    Option (Option ActionItem × ActionLog Name) :=
  (readActionName platform.appName platform.sharedFolderName
      actionPco.name).map fun
    | none => (none, log)
    | some (deviceName, seqno) =>
        addRemoteAction platform log deviceName seqno.toInt64 (some actionPco)

/-- The components of the name of an action. -/
def actionComponents (appName sharedFolderName : Bytes) (deviceName : Name)
    (seqNo : Int64) : List Bytes :=
  deviceName.components ++
    [appName, actionComponent, sharedFolderName,
      Name.encodeNumber seqNo.toUInt64]

theorem encodeComponents_prefix {left right : List Bytes} :
    (encodeComponents left).length ≤
      (encodeComponents (left ++ right)).length := by
  rw [encodeComponents, encodeComponents, List.flatMap_append,
    List.length_append]
  exact Nat.le_add_right _ _

theorem components_actionName {platform : ActionPlatform Name}
    {ofString : Bytes → Option Name} (ndn : platform.ndn = Name.ops ofString)
    {deviceName : Name} {seqNo : Int64}
    (fits : (encodeComponents (actionComponents platform.appName
      platform.sharedFolderName deviceName seqNo)).length < 2 ^ 64) :
    (actionName platform deviceName seqNo).components =
      actionComponents platform.appName platform.sharedFolderName deviceName
        seqNo := by
  have part : ∀ {front : List Bytes} (back : List Bytes),
      actionComponents platform.appName platform.sharedFolderName deviceName
        seqNo = front ++ back →
      (Name.ofComponents front).components = front := by
    intro front back split
    apply Name.components_ofComponents
    apply lt_of_le_of_lt encodeComponents_prefix
    rw [← split]
    exact fits
  have withApp : (Name.ofComponents (deviceName.components ++
      [platform.appName])).components =
        deviceName.components ++ [platform.appName] :=
    part [actionComponent, platform.sharedFolderName,
      Name.encodeNumber seqNo.toUInt64] (by simp [actionComponents])
  have withAction : (Name.ofComponents (deviceName.components ++
      [platform.appName] ++ [actionComponent])).components =
        deviceName.components ++ [platform.appName] ++ [actionComponent] :=
    part [platform.sharedFolderName, Name.encodeNumber seqNo.toUInt64]
      (by simp [actionComponents])
  have withFolder : (Name.ofComponents (deviceName.components ++
      [platform.appName] ++ [actionComponent] ++
        [platform.sharedFolderName])).components =
        deviceName.components ++ [platform.appName] ++ [actionComponent] ++
          [platform.sharedFolderName] :=
    part [Name.encodeNumber seqNo.toUInt64] (by simp [actionComponents])
  rw [actionName, ndn]
  simp only [Name.ops]
  rw [withApp, withAction, withFolder]
  have whole : deviceName.components ++ [platform.appName] ++
      [actionComponent] ++ [platform.sharedFolderName] ++
        [Name.encodeNumber seqNo.toUInt64] =
      actionComponents platform.appName platform.sharedFolderName deviceName
        seqNo := by
    simp [actionComponents]
  rw [whole]
  exact Name.components_ofComponents fits

/-- The last component is a number, and of those before it one differs from the
name of an action before there are no more. -/
def Refused (appName sharedFolderName : Bytes) (name : Name) : Prop :=
  match name.components.reverse with
  | number :: sharedFolder :: front =>
      (Name.toNumber number).isSome ∧
        (Uri.toUri sharedFolder ≠ sharedFolderName ∨
          match front with
          | [] => False
          | action :: front =>
              action ≠ actionComponent ∨
                match front with
                | [] => False
                | app :: _ => Uri.toUri app ≠ appName)
  | _ => False

theorem kept_actionComponent : Uri.Kept actionComponent := by
  decide

theorem readActionName_eq_none_iff {appName sharedFolderName : Bytes}
    {name : Name} :
    readActionName appName sharedFolderName name = some none ↔
      Refused appName sharedFolderName name := by
  simp only [readActionName, Refused, Name.getFromEnd, Nat.sub_self,
    Nat.reduceSub]
  cases name.components.reverse with
  | nil => simp
  | cons number front =>
      cases front with
      | nil => cases Name.toNumber number <;> simp
      | cons sharedFolder front =>
          cases parsed : Name.toNumber number with
          | none => simp [parsed]
          | some seqno =>
              cases front with
              | nil => simp [parsed]
              | cons action front =>
                  cases front with
                  | nil =>
                      simp [parsed, Uri.toUri_eq_iff kept_actionComponent,
                        imp_iff_not_or]
                  | cons app front =>
                      simp [parsed, Uri.toUri_eq_iff kept_actionComponent,
                        imp_iff_not_or]

theorem readActionName_eq {appName sharedFolderName : Bytes}
    {name deviceName : Name} {app sharedFolder number : Bytes}
    {seqno : UInt64} (split : name.components = deviceName.components ++
      [app, actionComponent, sharedFolder, number])
    (isNumber : Name.toNumber number = some seqno) :
    readActionName appName sharedFolderName name =
      if Uri.toUri sharedFolder = sharedFolderName ∧
          Uri.toUri app = appName then
        some (some (deviceName, seqno))
      else
        some none := by
  have device : name.getSubName 0 (name.size - 4) = deviceName := by
    have size : name.size - 4 = deviceName.size := by
      rw [Name.size, split, List.length_append]
      rfl
    rw [size]
    exact @Name.getSubName_eq name deviceName [] _ split
  have keyword := Uri.toUri_eq_self_iff.mpr kept_actionComponent
  have backwards : name.components.reverse = number :: sharedFolder ::
      actionComponent :: app :: deviceName.components.reverse := by
    rw [split]
    simp
  simp only [readActionName, Name.getFromEnd, backwards, Nat.sub_self,
    Nat.reduceSub, List.getElem?_cons_zero, List.getElem?_cons_succ,
    Option.bind_eq_bind, Option.bind_some, isNumber, keyword, device, ne_eq,
    ite_not]
  split_ifs <;> simp_all

/-- The name of an action, for any number in its last component. -/
def ActionShaped (appName sharedFolderName : Bytes) (name : Name) : Prop :=
  ∃ device number, name.components =
    device ++ [appName, actionComponent, sharedFolderName, number] ∧
      (Name.toNumber number).isSome

end ActionLog

namespace ContentServer

/-- The task that `filterAndServeImpl` schedules. -/
inductive ServeTask where
  | file
  | action
  deriving DecidableEq, Repr

variable (server : ContentServer)

/-- The choice of a task; a name that is too short has none. -/
def route (name : Name) : Option ServeTask :=
  if 4 ≤ name.size ∧
      (name.getFromEnd 4).map Uri.toUri = some server.appName then
    let type := (name.getFromEnd 3).map Uri.toUri
    if type = some fileComponent then
      some .file
    else if type = some ActionLog.actionComponent ∧
        (name.getFromEnd 2).map Uri.toUri = some server.sharedFolderName then
      some .action
    else
      none
  else
    none

theorem filterAndServeImpl_eq_route (platform : DispatcherPlatform Name)
    (beyond : Bytes) (forwardingHint name interest : Name) :
    filterAndServeImpl platform server beyond forwardingHint name interest =
      match route server name with
      | some .file =>
          serveFileExecute platform server beyond forwardingHint name interest
      | some .action =>
          serveActionExecute platform server forwardingHint name interest
      | none => some (none, server) := by
  rw [filterAndServeImpl, route]
  dsimp only
  split_ifs <;> rfl

/-- The tasks for an interest, with the forwarding hint and the name of
each. -/
def scheduled (forwardingHint interest : Name) :
    List (ServeTask × Name × Name) :=
  (lookups server forwardingHint interest).filterMap fun (hint, name) =>
    (route server name).map fun task => (task, hint, name)

/-- The device that both tasks read from the name. -/
def servedDevice (name : Name) : Name :=
  name.getSubName 0 (name.size - 4)

def FileShaped (appName : Bytes) (name : Name) : Prop :=
  ∃ device hash number, name.components =
    device ++ [appName, fileComponent, hash, number] ∧
      (Name.toNumber number).isSome

/-- The URIs of the components are those of a name that is served. -/
def Matched (name : Name) : Prop :=
  ∃ device app type third last,
    name.components = device ++ [app, type, third, last] ∧
      Uri.toUri app = server.appName ∧
      (type = fileComponent ∨ type = ActionLog.actionComponent ∧
        Uri.toUri third = server.sharedFolderName)

theorem kept_fileComponent : Uri.Kept fileComponent := by
  decide

variable {server}

theorem route_eq {name : Name} {device : List Bytes}
    {app type third last : Bytes}
    (split : name.components = device ++ [app, type, third, last]) :
    route server name =
      if Uri.toUri app = server.appName then
        if type = fileComponent then some .file
        else if type = ActionLog.actionComponent ∧
            Uri.toUri third = server.sharedFolderName then
          some .action
        else none
      else none := by
  have backwards : name.components.reverse =
      last :: third :: type :: app :: device.reverse := by
    rw [split]
    simp
  have long : 4 ≤ name.size := by
    rw [Name.size, split, List.length_append]
    exact Nat.le_add_left _ _
  simp only [route, long, true_and, Name.getFromEnd, backwards, Nat.reduceSub,
    List.getElem?_cons_zero, List.getElem?_cons_succ, Option.map_some,
    Option.some.injEq, Uri.toUri_eq_iff kept_fileComponent,
    Uri.toUri_eq_iff ActionLog.kept_actionComponent]

theorem matched_of_route {name : Name} {task : ServeTask}
    (routed : route server name = some task) : Matched server name := by
  have long : 4 ≤ name.size := by
    by_contra short
    simp [route, short] at routed
  obtain ⟨device, app, type, third, last, split⟩ : ∃ device app type third last,
      name.components = device ++ [app, type, third, last] := by
    have four : (name.components.drop (name.size - 4)).length = 4 := by
      rw [List.length_drop]
      exact Nat.sub_sub_self long
    obtain ⟨app, type, third, last, isLast⟩ := List.length_eq_four.mp four
    refine ⟨name.components.take (name.size - 4), app, type, third, last, ?_⟩
    rw [← isLast, List.take_append_drop]
  rw [route_eq split] at routed
  refine ⟨device, app, type, third, last, split, ?_⟩
  split_ifs at routed with isApp isFile isAction
  · exact ⟨isApp, Or.inl isFile⟩
  · exact ⟨isApp, Or.inr isAction⟩

theorem exists_route_iff {name : Name} :
    (∃ task, route server name = some task) ↔ Matched server name := by
  constructor
  · rintro ⟨task, routed⟩
    exact matched_of_route routed
  · rintro ⟨device, app, type, third, last, split, isApp, isType⟩
    rw [route_eq split, if_pos isApp]
    rcases isType with isFile | isAction
    · exact ⟨_, if_pos isFile⟩
    · split_ifs
      · exact ⟨_, rfl⟩
      · exact ⟨_, rfl⟩

theorem mem_scheduled_iff {forwardingHint name interest : Name}
    (split : interest.components =
      forwardingHint.components ++ name.components) {task : ServeTask} :
    (task, forwardingHint, name) ∈ scheduled server forwardingHint interest ↔
      route server name = some task := by
  have behind : interest.getSubName forwardingHint.size
      (interest.size - forwardingHint.size) = name := by
    have size : interest.size - forwardingHint.size = name.size := by
      rw [Name.size, split, List.length_append]
      exact Nat.add_sub_cancel_left _ _
    rw [size]
    have parts : interest.components =
        forwardingHint.components ++ (name.components ++ []) := by
      rw [split, List.append_nil]
    exact Name.getSubName_eq parts
  rw [scheduled, List.mem_filterMap, lookups, behind]
  constructor
  · rintro ⟨⟨hint, looked⟩, among, made⟩
    obtain ⟨made, routed, same⟩ := Option.map_eq_some_iff.mp made
    obtain ⟨rfl, rfl, rfl⟩ : made = task ∧ hint = forwardingHint ∧
        looked = name := by simpa using same
    exact routed
  · intro routed
    refine ⟨(forwardingHint, name), ?_, ?_⟩
    · exact List.mem_append_right _ (List.mem_singleton.mpr rfl)
    · simp [routed]

theorem servedDevice_eq {name deviceName : Name}
    {app type third last : Bytes}
    (split : name.components =
      deviceName.components ++ [app, type, third, last]) :
    servedDevice name = deviceName := by
  have size : name.size - 4 = deviceName.size := by
    rw [Name.size, split, List.length_append]
    rfl
  rw [servedDevice, size]
  exact @Name.getSubName_eq name deviceName [] _ split

/-- The readers agree with the builder exactly where the strings are their own
URIs; other names are refused under these conditions. -/
theorem names_read_iff (server : ContentServer) :
    (∀ deviceName seqNo name,
      name.components = ActionLog.actionComponents server.appName
        server.sharedFolderName deviceName seqNo →
      (ActionLog.readActionName server.appName server.sharedFolderName name =
          some (some (deviceName, seqNo.toUInt64)) ↔
        Uri.Kept server.appName ∧ Uri.Kept server.sharedFolderName) ∧
      ∀ forwardingHint interest : Name,
        interest.components = forwardingHint.components ++ name.components →
        ((.action, forwardingHint, name) ∈
              scheduled server forwardingHint interest ∧
            servedDevice name = deviceName ↔
          Uri.Kept server.appName ∧ Uri.Kept server.sharedFolderName)) ∧
    (∀ (deviceName : Name) hash segment (name forwardingHint interest : Name),
      name.components = deviceName.components ++
        [server.appName, fileComponent, hash, Name.encodeNumber segment] →
      interest.components = forwardingHint.components ++ name.components →
      ((.file, forwardingHint, name) ∈
            scheduled server forwardingHint interest ∧
          servedDevice name = deviceName ↔
        Uri.Kept server.appName)) ∧
    (∀ name,
      ¬ ActionLog.ActionShaped server.appName server.sharedFolderName name →
      (ActionLog.readActionName server.appName server.sharedFolderName name =
          some none ↔
        ActionLog.Refused server.appName server.sharedFolderName name)) ∧
    ∀ name forwardingHint interest : Name,
      ¬ ActionLog.ActionShaped server.appName server.sharedFolderName name →
      ¬ FileShaped server.appName name →
      interest.components = forwardingHint.components ++ name.components →
      ((∀ task, (task, forwardingHint, name) ∉
          scheduled server forwardingHint interest) ↔
        ¬ Matched server name) := by
  refine ⟨?_, ?_, ?_, ?_⟩
  · intro deviceName seqNo name split
    constructor
    · rw [ActionLog.readActionName_eq split (Name.toNumber_encodeNumber _),
        ← Uri.toUri_eq_self_iff, ← Uri.toUri_eq_self_iff]
      split_ifs with kept
      · simp [kept.1, kept.2]
      · simp only [Option.some.injEq, reduceCtorEq, false_iff]
        exact fun both => kept both.symm
    · intro forwardingHint interest behind
      rw [mem_scheduled_iff behind, route_eq split, ← Uri.toUri_eq_self_iff,
        ← Uri.toUri_eq_self_iff]
      have device := servedDevice_eq split
      have apart : ActionLog.actionComponent ≠ fileComponent := by decide
      simp only [device, apart, if_false, true_and, and_true]
      split_ifs with app folder
      · simp [app, folder]
      · simp [folder]
      · simp [app]
  · intro deviceName hash segment name forwardingHint interest split behind
    rw [mem_scheduled_iff behind, route_eq split, ← Uri.toUri_eq_self_iff]
    have device := servedDevice_eq split
    simp only [device, if_true, and_true]
    split_ifs with app <;> simp [app]
  · intro name _
    exact ActionLog.readActionName_eq_none_iff
  · intro name forwardingHint interest _ _ behind
    rw [← exists_route_iff, not_exists]
    apply forall_congr'
    intro task
    rw [mem_scheduled_iff behind]

/-- A server with an application and a folder of these names. -/
def serverFor (appName sharedFolderName : Bytes) : ContentServer where
  actionLog := ActionLog.opened (SyncLog.opened Name.uriOps Name.bob)
  tables _ := []
  dbCache := []
  freshness := 0
  userName := Name.bob
  sharedFolderName := sharedFolderName
  appName := appName

/-- `/alex/app/action/f/%01`. -/
def plainActionName : Name :=
  Name.ofComponents
    (ActionLog.actionComponents [0x61, 0x70, 0x70] [0x66] Name.alex 1)

theorem names_read_iff_plain :
    ActionLog.readActionName [0x61, 0x70, 0x70] [0x66] plainActionName =
        some (some (Name.alex, 1)) ∧
      (.action, Name.bob, plainActionName) ∈
        scheduled (serverFor [0x61, 0x70, 0x70] [0x66]) Name.bob
          (Name.ofComponents (Name.bob.components ++
            plainActionName.components)) := by
  have read := (names_read_iff (serverFor [0x61, 0x70, 0x70] [0x66])).1
    Name.alex 1 plainActionName (by decide)
  refine ⟨read.1.mpr (by decide), ?_⟩
  exact ((read.2 Name.bob _ (by decide)).mpr (by decide)).1

/-- A folder whose name has a space is never recognised, and the empty name is
an exception. -/
theorem folder_with_space_refused :
    let folder : Bytes := [0x61, 0x20, 0x62]
    let name := Name.ofComponents
      (ActionLog.actionComponents [0x61, 0x70, 0x70] folder Name.alex 1)
    name.components =
        ActionLog.actionComponents [0x61, 0x70, 0x70] folder Name.alex 1 ∧
      ActionLog.readActionName [0x61, 0x70, 0x70] folder name = some none ∧
      scheduled (serverFor [0x61, 0x70, 0x70] folder) .empty name = [] ∧
      ActionLog.readActionName [0x61, 0x70, 0x70] folder .empty = none := by
  decide

end ContentServer

end ChronoShare
