/-!
# ReadPlan.Text.CodePoint — texts that may hold surrogates

A text is a sequence of Unicode scalar values, the characters of a `String`. A caller can hand over
more than that: a surrogate, half of a pair that stands for one character elsewhere, counts as a
code point of its own, alone or next to others. No encoding exists for such a text, so where one is
encoded the text is taken as a list of code points.
-/

namespace ReadPlan

/-- A code point that is reserved for pairs and is no character. -/
structure Surrogate where
  code : Nat
  reserved : 0xd800 ≤ code ∧ code < 0xe000 := by decide
deriving DecidableEq, Repr

inductive CodePoint where
  | char (c : Char)
  | surrogate (s : Surrogate)
deriving DecidableEq, Repr

def CodePoint.isSurrogate : CodePoint → Bool
  | char _ => false
  | surrogate _ => true

/-- A text as it is handed over. -/
abbrev CodePoints := List CodePoint

namespace CodePoints

/-- The code points of a text without surrogates. -/
def ofString (text : String) : CodePoints :=
  text.toList.map .char

instance : Coe String CodePoints := ⟨ofString⟩

/-- A surrogate stands in the text. -/
def HasSurrogate (text : CodePoints) : Prop :=
  ∃ point ∈ text, point.isSurrogate = true

instance (text : CodePoints) : Decidable text.HasSurrogate :=
  inferInstanceAs (Decidable (∃ point ∈ text, point.isSurrogate = true))

end CodePoints

end ReadPlan
