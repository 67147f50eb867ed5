/-!
# ReadPlan.Bytes — keys and values of the store

Row keys, column families, column qualifiers and attribute values are byte strings. They are
ordered byte by byte, unsigned, a proper beginning before the longer string: the order `<` of
lists over the order of `UInt8`. It is total, which is what inserting a key at its place rests on.
-/

namespace ReadPlan

/-- A byte string. -/
abbrev Bytes := List UInt8

namespace Bytes

/-- The order is total. -/
theorem lt_of_not_lt_of_ne {a b : Bytes} (h : ¬ a < b) (hne : a ≠ b) : b < a :=
  Decidable.byContradiction fun h' => hne (List.le_antisymm h' h)

end Bytes

end ReadPlan
