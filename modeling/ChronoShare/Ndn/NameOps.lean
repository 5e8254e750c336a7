import ChronoShare.Support.SelfDelimiting

/-!
# Names as the stores see them

The name type belongs to a library outside the repository.  The model takes
the operations the code calls as a record of functions; what a result needs
of them is a named property, stated next to the record and assumed where it
is used.
-/

namespace ChronoShare

/-- The operations on names used by the repository.  `wire` and `value` are
the blobs bound as `(wire (), size ())` and as `(value (), size ())` of the
encoded name; `ofString` is the constructor from a string, `none` when it
throws. -/
structure NameOps (Name : Type) where
  wire : Name → Bytes
  value : Name → Bytes
  ofString : Bytes → Option Name
  append : Name → Bytes → Name
  appendName : Name → Name → Name
  appendNumber : Name → UInt64 → Name

namespace NameOps

variable {Name : Type} (ndn : NameOps Name)

/-- Names read back from the bytes under which they are stored. -/
def Faithful : Prop :=
  ∀ name, ndn.ofString (ndn.wire name) = some name

/-- The two blobs of a name are injective encodings that never agree: the
wire form starts with the type of a name, the value with the type of a
component. -/
structure DistinctBlobs : Prop where
  wireInjective : Function.Injective ndn.wire
  valueInjective : Function.Injective ndn.value
  wireHead : ∀ name, ∃ rest, ndn.wire name = 0x07 :: rest
  valueHead : ∀ name, ∃ rest, ndn.value name = 0x08 :: rest

variable {ndn}

theorem DistinctBlobs.wire_lt_value (blobs : ndn.DistinctBlobs)
    (left right : Name) : ndn.wire left < ndn.value right := by
  obtain ⟨wireRest, wireEqual⟩ := blobs.wireHead left
  obtain ⟨valueRest, valueEqual⟩ := blobs.valueHead right
  rw [wireEqual, valueEqual]
  exact List.cons_lt_cons_iff.mpr (.inl (by decide))

end NameOps

/-- The digest function has no collisions, and no digest is the one-byte
string that stands for the empty state. -/
structure CollisionFree (sha256 : Bytes → Bytes) : Prop where
  injective : Function.Injective sha256
  notOrigin : ∀ input, sha256 input ≠ [0]

/-- A digest without collisions, for closed instances. -/
def taggedDigest (input : Bytes) : Bytes :=
  1 :: input

theorem taggedDigest_collisionFree : CollisionFree taggedDigest where
  injective := by
    intro left right equality
    exact (List.cons.inj equality).2
  notOrigin := by
    intro input equality
    exact absurd (List.cons.inj equality).1 (by decide)

end ChronoShare
