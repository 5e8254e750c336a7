import Mathlib.Logic.Basic

/-!
# Runs of a transition relation

A run records, for every step, the state it left and the label it took, so
that a condition on the steps of a run is a condition on the members of its
trace.  An invariant is established once for the initial state and once for a
step; `Run.invariant_of_steps` allows the step to use what the trace is known
to satisfy.
-/

namespace ChronoShare

variable {σ ε : Type}

inductive Run (step : σ → ε → σ → Prop) (start : σ) :
    List (σ × ε) → σ → Prop where
  | nil : Run step start [] start
  | snoc {trace : List (σ × ε)} {middle final : σ} {label : ε} :
      Run step start trace middle → step middle label final →
      Run step start (trace ++ [(middle, label)]) final

namespace Run

variable {step : σ → ε → σ → Prop} {start final : σ}
  {trace : List (σ × ε)}

/-- What is said of the state and of the steps so far, and is preserved by every
step that satisfies `condition`, holds at the end of a run of such steps. -/
theorem trace_invariant_of_steps {invariant : List (σ × ε) → σ → Prop}
    (condition : σ → ε → Prop) (run : Run step start trace final)
    (conditions : ∀ taken ∈ trace, condition taken.1 taken.2)
    (initial : invariant [] start)
    (preserved : ∀ earlier source label target, condition source label →
      step source label target → invariant earlier source →
        invariant (earlier ++ [(source, label)]) target) :
    invariant trace final := by
  induction run with
  | nil => exact initial
  | snoc prefixRun taken induction =>
      obtain ⟨before, last⟩ := List.forall_mem_append.mp conditions
      exact preserved _ _ _ _ (last _ List.mem_cons_self) taken
        (induction before)

/-- An invariant preserved by every step whose source and label satisfy
`condition` holds at the end of a run all of whose steps satisfy it. -/
theorem invariant_of_steps {invariant : σ → Prop} (condition : σ → ε → Prop)
    (run : Run step start trace final)
    (conditions : ∀ taken ∈ trace, condition taken.1 taken.2)
    (initial : invariant start)
    (preserved : ∀ source label target, condition source label →
      step source label target → invariant source → invariant target) :
    invariant final :=
  @trace_invariant_of_steps _ _ _ _ _ _ (fun _ => invariant) condition run
    conditions initial fun _ => preserved

theorem invariant {invariant : σ → Prop}
    (run : Run step start trace final)
    (initial : invariant start)
    (preserved : ∀ source label target,
      step source label target → invariant source → invariant target) :
    invariant final := by
  apply run.invariant_of_steps (fun _ _ => True) (fun _ _ => trivial) initial
  intro source label target _ taken earlier
  exact preserved source label target taken earlier

/-- An invariant holds in every state that a step of the run left. -/
theorem invariant_of_mem {invariant : σ → Prop}
    (run : Run step start trace final)
    (initial : invariant start)
    (preserved : ∀ source label target,
      step source label target → invariant source → invariant target)
    {taken : σ × ε} (member : taken ∈ trace) : invariant taken.1 := by
  induction run with
  | nil => cases member
  | snoc prefixRun _ induction =>
      rcases List.mem_append.mp member with before | last
      · exact induction before
      · rw [List.mem_singleton.mp last]
        exact prefixRun.invariant initial preserved

/-- Where a step keeps the states good exactly if it is not bad, a run stays in
good states exactly if none of its steps is bad. -/
theorem always_iff (invariant : σ → Prop) {good : σ → Prop}
    (bad : σ → ε → Prop) (run : Run step start trace final)
    (initial : invariant start) (initialGood : good start)
    (preserved : ∀ source label target,
      step source label target → invariant source → invariant target)
    (decided : ∀ source label target, step source label target →
      invariant source → good source → (good target ↔ ¬ bad source label)) :
    ((∀ taken ∈ trace, good taken.1) ∧ good final) ↔
      ∀ taken ∈ trace, ¬ bad taken.1 taken.2 := by
  induction run with
  | nil => simp [initialGood]
  | @snoc trace middle final label prefixRun taken induction =>
      have sound : invariant middle := prefixRun.invariant initial preserved
      rw [List.forall_mem_append, List.forall_mem_append,
        List.forall_mem_singleton, List.forall_mem_singleton, induction.symm]
      constructor
      · rintro ⟨before, after⟩
        exact ⟨before,
          (decided middle label final taken sound before.2).mp after⟩
      · rintro ⟨before, apart⟩
        exact ⟨before,
          (decided middle label final taken sound before.2).mpr apart⟩

theorem append {middle : σ} {first second : List (σ × ε)}
    (before : Run step start first middle)
    (after : Run step middle second final) :
    Run step start (first ++ second) final := by
  induction after with
  | nil => simpa using before
  | snoc _ taken induction =>
      rw [← List.append_assoc]
      exact .snoc induction taken

/-- The steps before a step of a run lead to the state it left. -/
theorem before {first last : List (σ × ε)} {taken : σ × ε}
    (run : Run step start (first ++ taken :: last) final) :
    Run step start first taken.1 := by
  generalize split : first ++ taken :: last = trace at run
  induction run generalizing last with
  | nil => exact absurd split (by simp)
  | @snoc trace middle final label prefixRun moved induction =>
      rcases List.eq_nil_or_concat last with rfl | ⟨rest, ending, rfl⟩
      · obtain ⟨rfl, rfl⟩ := List.append_singleton_inj.mp split
        exact prefixRun
      · rw [List.concat_eq_append, ← List.cons_append, ← List.append_assoc]
          at split
        exact induction (List.append_singleton_inj.mp split).1

/-- The steps after a step of a run lead from the state it reached. -/
theorem after {first last : List (σ × ε)} {taken : σ × ε}
    (run : Run step start (first ++ taken :: last) final) :
    ∃ next, step taken.1 taken.2 next ∧ Run step next last final := by
  generalize split : first ++ taken :: last = trace at run
  induction run generalizing last with
  | nil => exact absurd split (by simp)
  | @snoc trace middle final label prefixRun moved induction =>
      rcases List.eq_nil_or_concat last with rfl | ⟨rest, ending, rfl⟩
      · obtain ⟨rfl, rfl⟩ := List.append_singleton_inj.mp split
        exact ⟨final, moved, .nil⟩
      · rw [List.concat_eq_append, ← List.cons_append, ← List.append_assoc]
          at split
        obtain ⟨before, rfl⟩ := List.append_singleton_inj.mp split
        obtain ⟨next, stepped, rest⟩ := induction before
        rw [List.concat_eq_append]
        exact ⟨next, stepped, .snoc rest moved⟩

/-- A transitive relation that every step respects orders the states of a
run. -/
theorem pairwise (invariant : σ → Prop) (below : σ → σ → Prop)
    (run : Run step start trace final)
    (initial : invariant start)
    (preserved : ∀ source label target,
      step source label target → invariant source → invariant target)
    (transitive : ∀ {first second third}, below first second →
      below second third → below first third)
    (respected : ∀ source label target, step source label target →
      invariant source → below source target) :
    (trace.map Prod.fst ++ [final]).Pairwise below := by
  induction run with
  | nil => simp
  | @snoc trace middle final label prefixRun taken induction =>
      have sound : invariant middle := prefixRun.invariant initial preserved
      have last := respected middle label final taken sound
      have earlier : ∀ state ∈ trace.map Prod.fst, below state middle := by
        intro state member
        apply (List.pairwise_append.mp induction).2.2 state member
        exact List.mem_singleton_self middle
      rw [List.map_append, List.map_singleton]
      apply List.pairwise_append.mpr
      refine ⟨induction, List.pairwise_singleton below final, ?_⟩
      intro state stateIn other otherIn
      rw [List.mem_singleton.mp otherIn]
      rcases List.mem_append.mp stateIn with before | here
      · exact transitive (earlier state before) last
      · rw [List.mem_singleton.mp here]
        exact last

end Run

/-- The states passed through by a list of labels, with the state reached;
`none` as soon as a label is not enabled. -/
def execute (step : σ → ε → Option σ) :
    σ → List ε → Option (List (σ × ε) × σ)
  | state, [] => some ([], state)
  | state, label :: labels =>
      match step state label with
      | none => none
      | some next =>
          match execute step next labels with
          | none => none
          | some (trace, final) => some ((state, label) :: trace, final)

theorem execute_run {step : σ → ε → Option σ} {start final : σ}
    {labels : List ε} {trace : List (σ × ε)}
    (executed : execute step start labels = some (trace, final)) :
    Run (fun source label target => step source label = some target)
      start trace final := by
  induction labels generalizing start trace with
  | nil =>
      obtain ⟨rfl, rfl⟩ : [] = trace ∧ start = final := by
        simpa [execute] using executed
      exact .nil
  | cons label labels induction =>
      cases taken : step start label with
      | none => simp [execute, taken] at executed
      | some next =>
          cases later : execute step next labels with
          | none => simp [execute, taken, later] at executed
          | some result =>
              obtain ⟨rest, last⟩ := result
              obtain ⟨rfl, rfl⟩ : (start, label) :: rest = trace ∧
                  last = final := by
                simpa [execute, taken, later] using executed
              have first : Run (fun source label target =>
                  step source label = some target) start
                  [(start, label)] next :=
                .snoc .nil taken
              exact first.append (induction later)

theorem execute_labels {step : σ → ε → Option σ} {start final : σ}
    {labels : List ε} {trace : List (σ × ε)}
    (executed : execute step start labels = some (trace, final)) :
    trace.map Prod.snd = labels := by
  induction labels generalizing start trace with
  | nil =>
      obtain ⟨rfl, -⟩ : [] = trace ∧ start = final := by
        simpa [execute] using executed
      rfl
  | cons label labels induction =>
      cases taken : step start label with
      | none => simp [execute, taken] at executed
      | some next =>
          cases later : execute step next labels with
          | none => simp [execute, taken, later] at executed
          | some result =>
              obtain ⟨rest, last⟩ := result
              obtain ⟨rfl, rfl⟩ : (start, label) :: rest = trace ∧
                  last = final := by
                simpa [execute, taken, later] using executed
              rw [List.map_cons, induction later]

theorem execute_forall {step : σ → ε → Option σ} {start final : σ}
    {labels : List ε} {trace : List (σ × ε)} {condition : ε → Prop}
    (executed : execute step start labels = some (trace, final))
    (conditions : ∀ label ∈ labels, condition label) :
    ∀ taken ∈ trace, condition taken.2 := by
  intro taken member
  apply conditions
  rw [← execute_labels executed]
  exact List.mem_map_of_mem member

theorem foldlM_invariant {item : Type} {update : σ → item → Option σ}
    (invariant : σ → Prop) {items : List item} {start final : σ}
    (folded : items.foldlM update start = some final)
    (initial : invariant start)
    (preserved : ∀ next ∈ items, ∀ source target,
      update source next = some target → invariant source →
        invariant target) :
    invariant final := by
  induction items generalizing start with
  | nil =>
      rw [← Option.some.inj folded]
      exact initial
  | cons next items induction =>
      rw [List.foldlM_cons] at folded
      obtain ⟨middle, first, others⟩ := Option.bind_eq_some_iff.mp folded
      apply induction others
      · exact preserved next List.mem_cons_self start middle first initial
      · intro other member
        exact preserved other (List.mem_cons_of_mem next member)

/-- An invariant of the items done so far, where the rest of the run is known
at each of them. -/
theorem foldlM_prefix_invariant {item : Type} {update : σ → item → Option σ}
    (invariant : List item → σ → Prop) {items : List item} {start final : σ}
    (folded : items.foldlM update start = some final)
    (initial : invariant [] start)
    (preserved : ∀ {done next rest source target},
      items = done ++ next :: rest → update source next = some target →
        rest.foldlM update target = some final → invariant done source →
          invariant (done ++ [next]) target) :
    invariant items final := by
  have general : ∀ rest done middle, items = done ++ rest →
      rest.foldlM update middle = some final → invariant done middle →
        invariant items final := by
    intro rest
    induction rest with
    | nil =>
        intro done middle split ended reached
        rw [split, List.append_nil, ← Option.some.inj ended]
        exact reached
    | cons next rest induction =>
        intro done middle split run reached
        rw [List.foldlM_cons] at run
        obtain ⟨target, one, others⟩ := Option.bind_eq_some_iff.mp run
        apply induction (done ++ [next]) target _ others
        · exact preserved split one others reached
        · rw [split, List.append_assoc]
          rfl
  exact general items [] start rfl folded initial

end ChronoShare
