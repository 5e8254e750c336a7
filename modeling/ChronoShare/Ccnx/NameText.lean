import ChronoShare.Ccnx.Name
import ChronoShare.Support.Separated

/-!
# Names by what is printed of them

Names are compared by their printed forms, and a printed form is read back
without undoing the escapes.  A percent sign and a slash in a component are
printed as they are, so that what is printed determines the components only
where nothing has to be escaped.
-/

namespace ChronoShare

namespace Ccnx

def slash : UInt8 := 0x2F

/-- The lines that `getline` reads: there is none after the last delimiter. -/
def getlines (delimiter : UInt8) (text : Bytes) : List Bytes :=
  let lines := text.splitOn delimiter
  if lines.getLast? = some [] then lines.dropLast else lines

namespace Name

/-- What stands before the first slash is discarded. -/
def ofString (text : Bytes) : Name :=
  ⟨(getlines slash text).drop 1⟩

def toString (name : Name) : Bytes :=
  slash :: [slash].intercalate (name.comps.map printComp)

/-- `operator ==`. -/
def equals (left right : Name) : Bool :=
  left.toString = right.toString

/-- `operator <`. -/
def less (left right : Name) : Bool :=
  left.toString < right.toString

/-- The components are printed as they are, and the last one is not empty. -/
def Readable (name : Name) : Prop :=
  (∀ comp ∈ name.comps, ∀ byte ∈ comp, isprint byte = true ∧ byte ≠ slash) ∧
    name.comps.getLast? ≠ some []

instance (name : Name) : Decidable name.Readable :=
  inferInstanceAs (Decidable (_ ∧ _))

/-- Two names are equal if their components are, `operator <` orders names
strictly and leaves only equal ones unordered, and both names are read back
from their printed forms. -/
structure Lawful (left right : Name) : Prop where
  equality : left.equals right = true ↔ left.comps = right.comps
  equivalence : (left.less right = false ∧ right.less left = false) ↔
    left.comps = right.comps
  asymmetric : left.less right = true → right.less left = false
  transitive : ∀ third : Name, left.less right = true →
    right.less third = true → left.less third = true
  leftReadBack : (ofString left.toString).comps = left.comps
  rightReadBack : (ofString right.toString).comps = right.comps

variable {name left right : Name}

theorem isprint_hexDigit {number : Nat} (small : number < 16) :
    isprint (hexDigit number) = true := by
  have every : ∀ number < 16, isprint (hexDigit number) = true := by
    decide
  exact every number small

theorem isprint_of_mem_printComp {comp : Bytes} {byte : UInt8}
    (member : byte ∈ printComp comp) : isprint byte = true := by
  obtain ⟨source, -, printed⟩ := List.mem_flatMap.mp member
  split_ifs at printed with plain
  · rw [List.mem_singleton.mp printed]
    exact plain
  · have bound := source.toNat_lt
    simp only [hexText, List.flatMap_singleton, List.mem_cons,
      List.not_mem_nil, or_false] at printed
    rcases printed with rfl | rfl | rfl
    · rfl
    · exact isprint_hexDigit (by omega)
    · exact isprint_hexDigit (by omega)

theorem printComp_of_isprint {comp : Bytes}
    (plain : ∀ byte ∈ comp, isprint byte = true) : printComp comp = comp := by
  induction comp with
  | nil => rfl
  | cons byte comp induction =>
      have rest := induction fun other member =>
        plain other (List.mem_cons_of_mem _ member)
      rw [printComp, List.flatMap_cons, if_pos (plain byte List.mem_cons_self)]
      exact congrArg (byte :: ·) rest

theorem isprint_of_mem_toString {byte : UInt8}
    (member : byte ∈ name.toString) : isprint byte = true := by
  rcases List.mem_cons.mp member with rfl | later
  · rfl
  · rcases mem_intercalate later with rfl | ⟨part, inParts, inside⟩
    · rfl
    · obtain ⟨comp, -, rfl⟩ := List.mem_map.mp inParts
      exact isprint_of_mem_printComp inside

theorem mem_of_mem_ofString {text comp : Bytes}
    (member : comp ∈ (ofString text).comps) : comp ∈ text.splitOn slash := by
  have line := List.mem_of_mem_drop member
  rw [getlines] at line
  split_ifs at line
  · exact List.mem_of_mem_dropLast line
  · exact line

/-- Components without escapes and slashes are read one by one, but for an
empty one at the end. -/
theorem ofString_toString
    (plain : ∀ comp ∈ name.comps, ∀ byte ∈ comp,
      isprint byte = true ∧ byte ≠ slash) :
    (ofString name.toString).comps =
      if name.comps.getLast? = some [] then name.comps.dropLast
      else name.comps := by
  have printed : name.comps.map printComp = name.comps := by
    calc
      name.comps.map printComp = name.comps.map id := by
        apply List.map_congr_left
        intro comp member
        exact printComp_of_isprint fun byte inside =>
          (plain comp member byte inside).1
      _ = name.comps := List.map_id _
  have split : name.toString.splitOn slash =
      [] :: ([slash].intercalate name.comps).splitOn slash := by
    rw [toString, printed]
    exact List.splitOn_append_cons_self [] _
  rw [ofString, getlines, split]
  by_cases empty : name.comps = []
  · rw [empty]
    rfl
  · rw [List.splitOn_intercalate slash _ empty]
    · rw [List.getLast?_cons_of_ne_nil empty]
      split_ifs with last
      · rw [List.dropLast_cons_of_ne_nil empty]
        rfl
      · rfl
    · intro comp member inside
      exact (plain comp member slash inside).2 rfl

theorem readable_iff :
    (ofString name.toString).comps = name.comps ↔ name.Readable := by
  constructor
  · intro readBack
    have plain : ∀ comp ∈ name.comps, ∀ byte ∈ comp,
        isprint byte = true ∧ byte ≠ slash := by
      intro comp member byte inside
      rw [← readBack] at member
      obtain ⟨printed, apart⟩ :=
        mem_of_mem_splitOn (mem_of_mem_ofString member) inside
      exact ⟨isprint_of_mem_toString printed, apart⟩
    refine ⟨plain, fun last => ?_⟩
    rw [ofString_toString plain, if_pos last] at readBack
    have shorter := congrArg List.length readBack
    have some : name.comps ≠ [] := by
      intro empty
      rw [empty] at last
      cases last
    have positive := List.length_pos_of_ne_nil some
    rw [List.length_dropLast] at shorter
    omega
  · intro readable
    rw [ofString_toString readable.1, if_neg readable.2]

theorem comps_eq_of_toString (leftReadable : left.Readable)
    (rightReadable : right.Readable) (same : left.toString = right.toString) :
    left.comps = right.comps := by
  rw [← readable_iff.mpr leftReadable, same, readable_iff.mpr rightReadable]

theorem toString_eq_of_comps (same : left.comps = right.comps) :
    left.toString = right.toString := by
  rw [toString, toString, same]

/-- Names obey the laws exactly if nothing in them has to be escaped and none
ends with an empty component. -/
theorem lawful_iff (left right : Name) :
    Lawful left right ↔ left.Readable ∧ right.Readable := by
  constructor
  · intro lawful
    exact ⟨readable_iff.mp lawful.leftReadBack,
      readable_iff.mp lawful.rightReadBack⟩
  · rintro ⟨leftReadable, rightReadable⟩
    have printed : left.toString = right.toString ↔
        left.comps = right.comps :=
      ⟨comps_eq_of_toString leftReadable rightReadable, toString_eq_of_comps⟩
    refine ⟨?_, ?_, ?_, ?_, readable_iff.mpr leftReadable,
      readable_iff.mpr rightReadable⟩
    · rw [equals, decide_eq_true_eq]
      exact printed
    · rw [less, less, decide_eq_false_iff_not, decide_eq_false_iff_not,
        ← printed]
      constructor
      · rintro ⟨notBelow, notAbove⟩
        exact le_antisymm (not_lt.mp notAbove) (not_lt.mp notBelow)
      · intro same
        rw [same]
        exact ⟨lt_irrefl _, lt_irrefl _⟩
    · intro below
      rw [less, decide_eq_true_eq] at below
      rw [less, decide_eq_false_iff_not]
      exact lt_asymm below
    · intro third below further
      rw [less, decide_eq_true_eq] at below further ⊢
      exact lt_trans below further

/-- The name without components and the name with an empty one are both printed
as a slash. -/
theorem empty_component_equals_root :
    ¬ ∀ left right : Name, Lawful left right := by
  intro lawful
  have equality := (lawful ⟨[]⟩ ⟨[[]]⟩).equality
  exact absurd (equality.mp (by decide)) (by decide)

end Name

end Ccnx

end ChronoShare
