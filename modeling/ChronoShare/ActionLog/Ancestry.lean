import ChronoShare.ActionLog.Parents

/-!
# The history of a file

The parent of an action was created before it, somewhere in the network.  The
parents of any action therefore form one line of versions of the file, each one
below the next, down to an action that names no parent.
-/

namespace ChronoShare

variable {Name : Type} [DecidableEq Name] {platform : ActionPlatform Name}

/-- An action with its parent, the parent of that one, and so on. -/
inductive Lineage (platform : ActionPlatform Name)
    (created : List (Created Name)) :
    Created Name → List (Created Name) → Prop where
  | first {sent : Created Name} : sent ∈ created → sent.item.parent = none →
      Lineage platform created sent [sent]
  | after {sent earlier : Created Name} {chain : List (Created Name)} :
      sent ∈ created →
      sent.item.parent =
        some (platform.ndn.value earlier.author, earlier.seqNo) →
      Lineage platform created earlier chain →
      Lineage platform created sent (sent :: chain)

namespace Lineage

variable {network : Network Name} {sent earlier : Created Name}
  {chain other : List (Created Name)}

omit [DecidableEq Name] in
theorem mem (lineage : Lineage platform network.created sent chain) :
    sent ∈ network.created := by
  cases lineage with
  | first member _ => exact member
  | after member _ _ => exact member

omit [DecidableEq Name] in
theorem eq_cons (lineage : Lineage platform network.created sent chain) :
    chain = sent :: chain.tail := by
  cases lineage with
  | first _ _ => rfl
  | after _ _ _ => rfl

omit [DecidableEq Name] in
theorem forall_mem (lineage : Lineage platform network.created sent chain) :
    ∀ found ∈ chain, found ∈ network.created := by
  induction lineage with
  | first member _ => simpa using member
  | after member _ _ induction => simpa using ⟨member, induction⟩

omit [DecidableEq Name] in
theorem parent (blobs : platform.ndn.DistinctBlobs)
    (ancestral : Ancestral platform network) (member : sent ∈ network.created)
    (earlierIn : earlier ∈ network.created)
    (names : sent.item.parent =
      some (platform.ndn.value earlier.author, earlier.seqNo)) :
    earlier.item.action = .update ∧
      earlier.item.filename = sent.item.filename ∧
      sent.item.version.toInt64.toInt =
        earlier.item.version.toInt64.toInt + 1 := by
  obtain ⟨origin, originIn, kind, file, same, version⟩ :=
    ancestral.parents sent member _ names
  obtain ⟨sameName, sameNumber⟩ := Prod.mk.inj same
  obtain rfl := ancestral.numbers origin originIn earlier earlierIn
    (blobs.valueInjective sameName) sameNumber
  exact ⟨kind, file, version⟩

omit [DecidableEq Name] in
theorem unique (blobs : platform.ndn.DistinctBlobs)
    (ancestral : Ancestral platform network)
    (left : Lineage platform network.created sent chain)
    (right : Lineage platform network.created sent other) : other = chain := by
  induction left generalizing other with
  | first _ none =>
      cases right with
      | first _ _ => rfl
      | after _ names _ =>
          rw [none] at names
          cases names
  | @after sent earlier chain _ names lineage induction =>
      cases right with
      | first _ none =>
          rw [none] at names
          cases names
      | @after _ another rest _ named further =>
          rw [names] at named
          obtain ⟨sameName, sameNumber⟩ := Prod.mk.inj (Option.some.inj named)
          obtain rfl := ancestral.numbers earlier lineage.mem another
            further.mem (blobs.valueInjective sameName) sameNumber
          rw [induction further]

omit [DecidableEq Name] in
theorem nonneg_version (ancestral : Ancestral platform network)
    (member : sent ∈ network.created) :
    0 ≤ sent.item.version.toInt64.toInt := by
  have nonneg := ancestral.versions sent member
  rw [Int64.le_iff_toInt_le] at nonneg
  exact nonneg

omit [DecidableEq Name] in
/-- The line of the parents of an action; the induction is on its version. -/
theorem exists_line (ancestral : Ancestral platform network)
    (member : sent ∈ network.created) :
    ∃ chain, Lineage platform network.created sent chain := by
  obtain ⟨version, same⟩ :=
    Int.eq_ofNat_of_zero_le (nonneg_version ancestral member)
  induction version generalizing sent with
  | zero =>
      cases names : sent.item.parent with
      | none => exact ⟨_, .first member names⟩
      | some parent =>
          obtain ⟨earlier, earlierIn, -, -, -, version⟩ :=
            ancestral.parents sent member parent names
          have nonneg := nonneg_version ancestral earlierIn
          omega
  | succ version induction =>
      cases names : sent.item.parent with
      | none => exact ⟨_, .first member names⟩
      | some parent =>
          obtain ⟨earlier, earlierIn, -, -, rfl, below⟩ :=
            ancestral.parents sent member parent names
          obtain ⟨chain, lineage⟩ := induction earlierIn (by omega)
          exact ⟨_, .after member names lineage⟩

omit [DecidableEq Name] in
theorem version_getElem (blobs : platform.ndn.DistinctBlobs)
    (ancestral : Ancestral platform network)
    (lineage : Lineage platform network.created sent chain) {index : Nat}
    {found : Created Name} (here : chain[index]? = some found) :
    found.item.version.toInt64.toInt =
      sent.item.version.toInt64.toInt - index := by
  induction lineage generalizing index with
  | @first sent _ _ =>
      obtain ⟨inside, rfl⟩ := List.getElem?_eq_some_iff.mp here
      obtain rfl : index = 0 := by simpa using inside
      simp
  | @after sent earlier chain member names lineage induction =>
      cases index with
      | zero =>
          obtain rfl : sent = found := by simpa using here
          simp
      | succ index =>
          have further := induction (by simpa using here)
          obtain ⟨-, -, below⟩ :=
            parent blobs ancestral member lineage.mem names
          rw [further]
          push_cast
          omega

omit [DecidableEq Name] in
theorem updates (blobs : platform.ndn.DistinctBlobs)
    (ancestral : Ancestral platform network)
    (lineage : Lineage platform network.created sent chain) :
    ∀ found ∈ chain.tail, found.item.action = .update ∧
      found.item.filename = sent.item.filename := by
  induction lineage with
  | first _ _ => simp
  | @after sent earlier chain member names lineage induction =>
      obtain ⟨kind, file, -⟩ := parent blobs ancestral member lineage.mem names
      intro found inLine
      rw [List.tail_cons, lineage.eq_cons] at inLine
      rcases List.mem_cons.mp inLine with rfl | later
      · exact ⟨kind, file⟩
      · obtain ⟨alike, named⟩ := induction found later
        exact ⟨alike, named.trans file⟩

end Lineage

/-- In every run each action has one line of parents, wherever they were
created; it runs through updates of the same file, one version below the next,
and ends within as many steps as the version says. -/
theorem histories_are_lines (blobs : platform.ndn.DistinctBlobs)
    {syncLogs : Name → SyncLog Name}
    (named : ∀ device, (syncLogs device).localName = device)
    {trace : List (Network Name × NetworkEvent Name)} {final : Network Name}
    (run : Network.Exchanges platform (Network.start syncLogs) trace final)
    {sent : Created Name} (member : sent ∈ final.created) :
    ∃ chain, Lineage platform final.created sent chain ∧
      (∀ other, Lineage platform final.created sent other → other = chain) ∧
      (∀ found ∈ chain.tail, found.item.action = .update ∧
        found.item.filename = sent.item.filename) ∧
      (∀ (index : Nat) found, chain[index]? = some found →
        found.item.version.toInt64.toInt =
          sent.item.version.toInt64.toInt - index) ∧
      chain.length ≤ sent.item.version.toInt64.toInt + 1 := by
  have ancestral : Ancestral platform final := by
    apply run.invariant (.start named)
    intro source label target taken before
    exact before.exchange taken
  obtain ⟨chain, lineage⟩ := Lineage.exists_line ancestral member
  refine ⟨chain, lineage, fun other => lineage.unique blobs ancestral,
    lineage.updates blobs ancestral,
    fun index found => lineage.version_getElem blobs ancestral, ?_⟩
  have some := lineage.eq_cons
  have inside : chain.length - 1 < chain.length := by
    rw [some]
    simp
  have last := lineage.version_getElem blobs ancestral
    (List.getElem?_eq_getElem inside)
  have nonneg := Lineage.nonneg_version ancestral
    (lineage.forall_mem _ (List.getElem_mem inside))
  omega

/-- After `removeAndChange` the change has its history. -/
theorem histories_are_lines_changed :
    DeviceName.ops.DistinctBlobs ∧
    (∀ device, (SyncLog.opened DeviceName.ops device).localName = device) ∧
    ∃ trace final, Network.Exchanges devicePlatform freshNetwork trace final ∧
      fileChanged ∈ final.created ∧
      ∃ chain, Lineage devicePlatform final.created fileChanged chain ∧
        chain.length ≤ fileChanged.item.version.toInt64.toInt + 1 := by
  have executed : (execute (Network.exchange devicePlatform) freshNetwork
      removeAndChange).any (fun result =>
        fileChanged ∈ result.2.created) = true := by
    decide +kernel
  obtain ⟨⟨trace, final⟩, ran, holds⟩ := (Option.any_eq_true _ _).mp executed
  have member := of_decide_eq_true holds
  have run := execute_run ran
  obtain ⟨chain, lineage, -, -, -, short⟩ :=
    @histories_are_lines _ _ devicePlatform DeviceName.ops_distinctBlobs _
      freshNetwork_names _ _ run _ member
  exact ⟨DeviceName.ops_distinctBlobs, freshNetwork_names, trace, final, run,
    member, chain, lineage, short⟩

end ChronoShare
