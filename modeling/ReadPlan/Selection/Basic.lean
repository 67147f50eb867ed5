import ReadPlan.KeySet
import ReadPlan.OrderedMap

/-!
# ReadPlan.Selection.Basic — which families and columns to read

A selection says for each family it names whether every column is read or only those of a set.
A selection that names no family reads everything. Selecting is cumulative and the last word
counts: naming a family as a whole forgets the columns named before, naming a column narrows a
whole family down to it.

The order of the families is kept. A family selected as a whole moves to the end, a column keeps
the place of its family.
-/

namespace ReadPlan

/-- What is read of a family: every column, or the columns of a set. -/
inductive Columns (σ : Type) where
  | all
  | only (set : σ)
deriving DecidableEq, Repr

/-- Replaces the set. -/
def Columns.map {σ τ : Type} (f : σ → τ) : Columns σ → Columns τ
  | .all => .all
  | .only set => .only (f set)

/-- Families in their order, each with its columns. -/
abbrev FamilyMap (σ : Type) := OrderedMap Bytes (Columns σ)

/-- A selection by value. -/
abbrev Selection := FamilyMap KeySet

/-- One call of a builder: a whole family, or one column of it. A column without a qualifier
narrows the family down but adds nothing. -/
inductive Selector where
  | wholeFamily (name : Bytes)
  | column (name : Bytes) (qualifier? : Option Bytes)
deriving DecidableEq, Repr

/-- The family that a selector names. -/
def Selector.family : Selector → Bytes
  | wholeFamily name => name
  | column name _ => name

/-- Adds a qualifier if there is one. -/
def KeySet.insert? (set : KeySet) : Option Bytes → KeySet
  | none => set
  | some qualifier => set.insert qualifier

/-- The set that a column is added to: the one there is, or a new one in place of a whole family
or of none. -/
def Columns.setOrEmpty : Option (Columns KeySet) → KeySet
  | some (.only set) => set
  | _ => ∅

namespace FamilyMap

variable {σ : Type}

/-- Names a family as a whole, at the end of the order. -/
def selectWhole (map : FamilyMap σ) (family : Bytes) : FamilyMap σ :=
  (OrderedMap.erase map family).put family .all

end FamilyMap

namespace Selection

/-- The effect of one selector. -/
def select (selection : Selection) : Selector → Selection
  | .wholeFamily name => FamilyMap.selectWhole selection name
  | .column name qualifier? =>
    selection.put name (.only ((Columns.setOrEmpty (selection.get? name)).insert? qualifier?))

/-- The effect of several selectors, one after the other. -/
def selectAll (selection : Selection) (selectors : List Selector) : Selection :=
  selectors.foldl select selection

/-- The selection of given families and columns, in their order; no list of qualifiers stands
for every column. -/
def ofEntries (entries : List (Bytes × Option (List Bytes))) : Selection :=
  OrderedMap.ofList <| entries.map fun (family, qualifiers?) =>
    match qualifiers? with
    | none => (family, .all)
    | some qualifiers => (family, .only (KeySet.ofList qualifiers))

/-! ## Copies -/

/-- The selectors that build the entry of a family. No selector builds an empty set, so a family
without columns is built as a whole one. -/
def selectorsOf (family : Bytes) : Columns KeySet → List Selector
  | .all => [.wholeFamily family]
  | .only set =>
    if set.isEmpty then [.wholeFamily family]
    else set.toList.map fun qualifier => .column family (some qualifier)

/-- The selectors that build a selection, family by family. -/
def selectors (selection : Selection) : List Selector :=
  selection.entries.flatMap fun entry => selectorsOf entry.1 entry.2

/-- A copy, built entry by entry from nothing. -/
def rebuild (selection : Selection) : Selection :=
  selectAll ∅ selection.selectors

/-! ## Comparison -/

/-- Two selections read the same, whatever the order of their families. -/
def SameContents (s t : Selection) : Prop :=
  (∀ family ∈ s.keys, s.get? family = t.get? family) ∧
    ∀ family ∈ t.keys, s.get? family = t.get? family

instance (s t : Selection) : Decidable (SameContents s t) :=
  inferInstanceAs (Decidable (_ ∧ _))

theorem sameContents_iff {s t : Selection} :
    SameContents s t ↔ ∀ family, s.get? family = t.get? family := by
  constructor
  · intro h family
    by_cases hs : family ∈ s.keys
    · exact h.1 family hs
    · by_cases ht : family ∈ t.keys
      · exact h.2 family ht
      · rw [OrderedMap.mem_keys_iff, Bool.not_eq_true, Option.isSome_eq_false_iff,
          Option.isNone_iff_eq_none] at hs ht
        rw [hs, ht]
  · intro h
    exact ⟨fun family _ => h family, fun family _ => h family⟩

end Selection

end ReadPlan
