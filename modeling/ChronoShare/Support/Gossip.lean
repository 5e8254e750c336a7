import Mathlib.Data.Finset.Lattice.Fold
import Mathlib.Logic.Function.Basic
import Mathlib.Order.Bounds.Basic
import Mathlib.Order.Hom.BoundedLattice

/-!
# Gossip of knowledge that only grows

Parties hold knowledge from a join semilattice.  A party learns something new,
writes down what it knows at the moment, or reads a page somebody has written;
pages are read late, repeatedly, out of order or never.  Homomorphisms carry
gossip over, so a party knows the join of the news it has heard of.
-/

namespace ChronoShare

/-- What every party knows, and the pages written so far. -/
structure Gossip (ι α : Type) where
  known : ι → α
  written : List α

namespace Gossip

inductive Move (ι α : Type) where
  | learn (party : ι) (news : α)
  | write (party : ι)
  | read (party : ι) (page : Nat)

variable {ι α β ε : Type} [DecidableEq ι] [SemilatticeSup α]
  {gossip : Gossip ι α} {party other : ι} {news : α}

def tell (gossip : Gossip ι α) (party : ι) (news : α) : Gossip ι α :=
  { gossip with
    known := Function.update gossip.known party (gossip.known party ⊔ news) }

@[simp] theorem tell_written : (gossip.tell party news).written =
    gossip.written :=
  rfl

@[simp] theorem tell_known_self : (gossip.tell party news).known party =
    gossip.known party ⊔ news := by
  simp [tell]

theorem tell_known_of_ne (different : other ≠ party) :
    (gossip.tell party news).known other = gossip.known other := by
  simp [tell, different]

theorem known_le_tell : gossip.known other ≤
    (gossip.tell party news).known other := by
  by_cases same : other = party
  · subst same
    rw [tell_known_self]
    exact le_sup_left
  · rw [tell_known_of_ne same]

variable [OrderBot α] [SemilatticeSup β] [OrderBot β]

/-- Reading a page that nobody has written tells nothing. -/
def move (gossip : Gossip ι α) : Move ι α → Gossip ι α
  | .learn party news => gossip.tell party news
  | .write party =>
      { gossip with written := gossip.written ++ [gossip.known party] }
  | .read party page => gossip.tell party ((gossip.written[page]?).getD ⊥)

def moves (gossip : Gossip ι α) (steps : List (Move ι α)) : Gossip ι α :=
  steps.foldl move gossip

variable {start : Gossip ι α} {bound : α}
  {step : Move ι α} {steps before after : List (Move ι α)} {page : Nat}

@[simp] theorem moves_nil : gossip.moves [] = gossip :=
  rfl

@[simp] theorem moves_cons :
    gossip.moves (step :: steps) = (gossip.move step).moves steps :=
  rfl

theorem move_read : gossip.move (.read party page) =
    gossip.tell party ((gossip.written[page]?).getD ⊥) :=
  rfl

@[simp] theorem move_write_known :
    (gossip.move (.write party)).known = gossip.known :=
  rfl

theorem moves_append :
    gossip.moves (before ++ after) = (gossip.moves before).moves after :=
  List.foldl_append

theorem known_le_move : gossip.known other ≤
    (gossip.move step).known other := by
  cases step with
  | learn party news => exact known_le_tell
  | write party => exact le_rfl
  | read party page => exact known_le_tell

theorem known_le_moves : gossip.known other ≤
    (gossip.moves steps).known other := by
  induction steps generalizing gossip with
  | nil => exact le_rfl
  | cons step steps induction => exact known_le_move.trans induction

theorem written_prefix_move :
    gossip.written <+: (gossip.move step).written := by
  cases step with
  | learn party news => exact List.prefix_rfl
  | write party => exact List.prefix_append _ _
  | read party page => exact List.prefix_rfl

theorem written_prefix_moves :
    gossip.written <+: (gossip.moves steps).written := by
  induction steps generalizing gossip with
  | nil => exact List.prefix_rfl
  | cons step steps induction => exact written_prefix_move.trans induction

def map (f : SupBotHom α β) (gossip : Gossip ι α) : Gossip ι β where
  known := fun party => f (gossip.known party)
  written := gossip.written.map f

def Move.map (f : SupBotHom α β) : Move ι α → Move ι β
  | .learn party news => .learn party (f news)
  | .write party => .write party
  | .read party page => .read party page

theorem map_tell (f : SupBotHom α β) :
    (gossip.tell party news).map f = (gossip.map f).tell party (f news) := by
  have sameKnown : (fun other => f ((gossip.tell party news).known other)) =
      ((gossip.map f).tell party (f news)).known := by
    funext other
    by_cases same : other = party
    · subst same
      rw [tell_known_self, tell_known_self, map_sup]
      rfl
    · rw [tell_known_of_ne same, tell_known_of_ne same]
      rfl
  exact congrArg (fun known => Gossip.mk known (gossip.written.map f))
    sameKnown

theorem map_move (f : SupBotHom α β) :
    (gossip.move step).map f = (gossip.map f).move (step.map f) := by
  cases step with
  | learn party news => exact map_tell f
  | write party => simp [move, map, Move.map]
  | read party page =>
      have samePage : f ((gossip.written[page]?).getD ⊥) =
          (((gossip.map f).written)[page]?).getD ⊥ := by
        simp only [map, List.getElem?_map]
        cases gossip.written[page]? with
        | none => exact map_bot f
        | some told => rfl
      rw [move, map_tell, samePage]
      rfl

theorem map_moves (f : SupBotHom α β) :
    (gossip.moves steps).map f =
      (gossip.map f).moves (steps.map (Move.map f)) := by
  induction steps generalizing gossip with
  | nil => rfl
  | cons step steps induction =>
      rw [moves_cons, induction, map_move, List.map_cons, moves_cons]

/-- The join of what the members of a set stand for. -/
def joined [DecidableEq ε] (meaning : ε → α) : SupBotHom (Finset ε) α where
  toFun := fun set => set.sup meaning
  map_sup' := fun _ _ => Finset.sup_union
  map_bot' := Finset.sup_empty

@[simp] theorem joined_apply [DecidableEq ε] (meaning : ε → α)
    (set : Finset ε) : joined meaning set = set.sup meaning :=
  rfl

/-- Neither a party nor a page goes beyond the bound. -/
structure Within (bound : α) (gossip : Gossip ι α) : Prop where
  known : ∀ party, gossip.known party ≤ bound
  written : ∀ told ∈ gossip.written, told ≤ bound

omit [DecidableEq ι] in
theorem Within.readable (within : Within bound gossip) :
    (gossip.written[page]?).getD ⊥ ≤ bound := by
  cases found : gossip.written[page]? with
  | none => exact bot_le
  | some told => exact within.written told (List.mem_of_getElem? found)

omit [OrderBot α] in
theorem Within.tell (within : Within bound gossip) (below : news ≤ bound) :
    Within bound (gossip.tell party news) where
  known := by
    intro other
    by_cases same : other = party
    · subst same
      rw [tell_known_self]
      exact sup_le (within.known other) below
    · rw [tell_known_of_ne same]
      exact within.known other
  written := within.written

theorem Within.move (within : Within bound gossip)
    (below : ∀ party news, step = .learn party news → news ≤ bound) :
    Within bound (gossip.move step) := by
  cases step with
  | learn party news => exact within.tell (below party news rfl)
  | write party =>
      refine ⟨within.known, ?_⟩
      intro told member
      rcases List.mem_append.mp member with earlier | here
      · exact within.written told earlier
      · rw [List.mem_singleton.mp here]
        exact within.known party
  | read party page => exact within.tell within.readable

theorem Within.moves (within : Within bound gossip)
    (below : ∀ party news, .learn party news ∈ steps → news ≤ bound) :
    Within bound (gossip.moves steps) := by
  induction steps generalizing gossip with
  | nil => exact within
  | cons step steps induction =>
      apply induction (within.move _)
      · exact fun party news member =>
          below party news (List.mem_cons_of_mem _ member)
      · rintro party news rfl
        exact below party news List.mem_cons_self

/-- Whoever is credited with an item that somebody knows, or that is written
down, knows it. -/
structure Credited [DecidableEq ε] (credits : ε → ι → Prop)
    (gossip : Gossip ι (Finset ε)) : Prop where
  known : ∀ party, ∀ item ∈ gossip.known party,
    ∃ owner, credits item owner ∧ item ∈ gossip.known owner
  written : ∀ told ∈ gossip.written, ∀ item ∈ told,
    ∃ owner, credits item owner ∧ item ∈ gossip.known owner

section Credited

variable [DecidableEq ε] {credits : ε → ι → Prop}
  {collection : Gossip ι (Finset ε)} {taken : Move ι (Finset ε)}

omit [DecidableEq ι] in
theorem Credited.readable (credited : Credited credits collection)
    {item : ε} (member : item ∈ (collection.written[page]?).getD ⊥) :
    ∃ owner, credits item owner ∧ item ∈ collection.known owner := by
  cases found : collection.written[page]? with
  | none =>
      rw [found, Option.getD_none] at member
      exact absurd member (Finset.notMem_empty item)
  | some told =>
      rw [found, Option.getD_some] at member
      exact credited.written told (List.mem_of_getElem? found) item member

theorem Credited.move (credited : Credited credits collection)
    (news : ∀ party set, taken = .learn party set →
      ∀ item ∈ set, credits item party) :
    Credited credits (collection.move taken) := by
  have later : ∀ {item}, (∃ owner, credits item owner ∧
      item ∈ collection.known owner) → ∃ owner, credits item owner ∧
        item ∈ (collection.move taken).known owner := by
    rintro item ⟨owner, credit, member⟩
    have kept : collection.known owner ⊆
        (collection.move taken).known owner := known_le_move
    exact ⟨owner, credit, kept member⟩
  have told : ∀ {party set}, (∀ item ∈ set, ∃ owner, credits item owner ∧
      item ∈ (collection.move taken).known owner) →
      ∀ other, ∀ item ∈ (collection.tell party set).known other,
        ∃ owner, credits item owner ∧
          item ∈ (collection.move taken).known owner := by
    intro party set known other item member
    by_cases same : other = party
    · subst same
      rw [tell_known_self] at member
      rcases Finset.mem_union.mp member with earlier | here
      · exact later (credited.known other item earlier)
      · exact known item here
    · rw [tell_known_of_ne same] at member
      exact later (credited.known other item member)
  cases taken with
  | learn party set =>
      refine ⟨told fun item member => ?_, fun told member item here =>
        later (credited.written told member item here)⟩
      refine ⟨party, news party set rfl item member, ?_⟩
      rw [Gossip.move, tell_known_self]
      exact Finset.mem_union_right _ member
  | write party =>
      refine ⟨fun other item member =>
        later (credited.known other item member), ?_⟩
      intro told member item here
      rcases List.mem_append.mp member with earlier | last
      · exact later (credited.written told earlier item here)
      · rw [List.mem_singleton.mp last] at here
        exact later (credited.known party item here)
  | read party page =>
      exact ⟨told fun item member => later (credited.readable member),
        fun told member item here =>
          later (credited.written told member item here)⟩

theorem Credited.moves {moves : List (Move ι (Finset ε))}
    (credited : Credited credits collection)
    (news : ∀ party set, .learn party set ∈ moves →
      ∀ item ∈ set, credits item party) :
    Credited credits (collection.moves moves) := by
  induction moves generalizing collection with
  | nil => exact credited
  | cons step steps induction =>
      apply induction (credited.move _)
      · exact fun party set member =>
          news party set (List.mem_cons_of_mem _ member)
      · rintro party set rfl
        exact news party set List.mem_cons_self

end Credited

/-- A page that `writer` writes during the moves is read by `reader` later. -/
def Passes (start : Gossip ι α) (steps : List (Move ι α))
    (writer reader : ι) : Prop :=
  ∃ first middle last, steps = first ++ .write writer :: middle ++
    .read reader (start.moves first).written.length :: last

theorem known_le_of_passes {writer reader : ι}
    (passes : Passes start steps writer reader) :
    start.known writer ≤ (start.moves steps).known reader := by
  obtain ⟨first, middle, last, rfl⟩ := passes
  have split : first ++ .write writer :: middle ++
      .read reader (start.moves first).written.length :: last =
        first ++ (.write writer :: (middle ++
          .read reader (start.moves first).written.length :: last)) := by
    simp
  rw [split, moves_append, moves_cons, moves_append, moves_cons]
  apply le_trans _ known_le_moves
  generalize reached : start.moves first = halfway
  have grown : start.known writer ≤ halfway.known writer :=
    reached ▸ known_le_moves
  have page : ((halfway.move (.write writer)).moves
      middle).written[halfway.written.length]? =
        some (halfway.known writer) := by
    have kept : (halfway.move (.write writer)).written <+:
        ((halfway.move (.write writer)).moves middle).written :=
      written_prefix_moves
    obtain ⟨later, sameWritten⟩ := kept
    rw [← sameWritten]
    simp [move]
  rw [move_read, tell_known_self, page, Option.getD_some]
  exact grown.trans le_sup_right

def Founded (gossip : Gossip ι α) : Prop :=
  ∀ told ∈ gossip.written, ∃ party, told ≤ gossip.known party

/-- After moves that bring no news and pass a page from everybody to everybody
else, all know the join of what was known. -/
theorem isLUB_of_passes (founded : Founded start)
    (silent : ∀ party news, .learn party news ∈ steps →
      news ≤ start.known party)
    (passes : ∀ writer reader, writer ≠ reader →
      Passes start steps writer reader) (reader : ι) :
    IsLUB (Set.range start.known) ((start.moves steps).known reader) := by
  constructor
  · rintro _ ⟨writer, rfl⟩
    by_cases same : writer = reader
    · rw [same]
      exact known_le_moves
    · exact known_le_of_passes (passes writer reader same)
  · intro bound above
    have within : Within bound start := by
      refine ⟨fun party => above ⟨party, rfl⟩, ?_⟩
      intro told member
      obtain ⟨party, below⟩ := founded told member
      exact below.trans (above ⟨party, rfl⟩)
    apply (within.moves _).known reader
    exact fun party news member =>
      (silent party news member).trans (above ⟨party, rfl⟩)

theorem Founded.moves (founded : Founded gossip) :
    Founded (gossip.moves steps) := by
  induction steps generalizing gossip with
  | nil => exact founded
  | cons step steps induction =>
      apply induction
      intro told member
      have kept : ∀ told ∈ gossip.written,
          ∃ party, told ≤ (gossip.move step).known party := by
        intro told member
        obtain ⟨party, below⟩ := founded told member
        exact ⟨party, below.trans known_le_move⟩
      cases step with
      | learn party news => exact kept told member
      | read party page => exact kept told member
      | write party =>
          rcases List.mem_append.mp member with earlier | here
          · exact kept told earlier
          · rw [List.mem_singleton.mp here]
            exact ⟨party, known_le_move⟩

end Gossip

end ChronoShare
