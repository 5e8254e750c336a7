import ChronoShare.Support.FixedWidth
import Mathlib.Data.List.Basic
import Mathlib.Data.List.Infix

/-!
# Paths and the directories they lead to

A path is the list of its elements, and resolving it follows the elements `.`
and `..`.  A path is inside another one if it leads to a place below the place
that the other leads to.  The parents of a path inside a root are inside it as
well, up to the first one that leads to the root.
-/

namespace ChronoShare

abbrev Path := List Bytes

namespace Path

/-- The element `.`. -/
def dot : Bytes := [0x2E]

/-- The element `..`. -/
def dotDot : Bytes := [0x2E, 0x2E]

/-- The elements between the slashes of a text; a slash at its end is followed
by the element `.`. -/
def elements (text : Bytes) : Path :=
  (text.splitOn 0x2F).filter (· ≠ []) ++
    if text.getLast? = some 0x2F then [dot] else []

/-- The place an element leads to from a directory. -/
def descend (directory : Path) (element : Bytes) : Path :=
  if element = dot then directory
  else if element = dotDot then directory.dropLast
  else directory ++ [element]

def resolve (path : Path) : Path :=
  path.foldl descend []

/-- The path leads to a place strictly below the root. -/
def Inside (root path : Path) : Prop :=
  resolve root <+: resolve path ∧ resolve path ≠ resolve root

instance (root path : Path) : Decidable (Inside root path) :=
  inferInstanceAs (Decidable (_ ∧ _))

variable {root path directory : Path} {element : Bytes}

theorem elements_of_slash_notMem {text : Bytes}
    (single : (0x2F : UInt8) ∉ text) (nonempty : text ≠ []) :
    elements text = [text] := by
  rw [elements, List.splitOn_eq_singleton single, if_neg]
  · simp [nonempty]
  · intro last
    exact single (List.mem_of_getLast? last)

theorem resolve_concat (path : Path) (element : Bytes) :
    resolve (path ++ [element]) = descend (resolve path) element := by
  rw [resolve, List.foldl_append]
  rfl

theorem inside_of_descend (above : root <+: descend directory element)
    (apart : descend directory element ≠ root) :
    root <+: directory := by
  rw [descend] at above apart
  split_ifs at above apart
  · exact above
  · exact above.trans (List.dropLast_prefix directory)
  · obtain same | earlier := List.prefix_concat_iff.mp above
    · exact absurd same.symm apart
    · exact earlier

theorem Inside.parent (inside : Inside root (path ++ [element])) :
    Inside root path ∨ resolve path = resolve root := by
  obtain ⟨above, apart⟩ := inside
  rw [resolve_concat] at above apart
  by_cases same : resolve path = resolve root
  · exact .inr same
  · exact .inl ⟨inside_of_descend above apart, same⟩

theorem resolve_append_names {names : Path}
    (plain : ∀ name ∈ names, name ≠ dot ∧ name ≠ dotDot) :
    resolve (root ++ names) = resolve root ++ names := by
  induction names using List.reverseRecOn with
  | nil => simp
  | append_singleton names name induction =>
      obtain ⟨notDot, notDotDot⟩ := plain name (by simp)
      have earlier := induction fun other member =>
        plain other (List.mem_append_left _ member)
      rw [← List.append_assoc, resolve_concat, earlier, descend,
        if_neg notDot, if_neg notDotDot, List.append_assoc]

theorem inside_append_names {names : Path} (nonempty : names ≠ [])
    (plain : ∀ name ∈ names, name ≠ dot ∧ name ≠ dotDot) :
    Inside root (root ++ names) := by
  rw [Inside, resolve_append_names plain]
  refine ⟨List.prefix_append _ _, ?_⟩
  intro same
  exact nonempty (List.append_right_eq_self.mp same)

end Path

end ChronoShare
