import ReadPlan.Bytes.Escaped
import ReadPlan.Selection.Basic

/-!
# ReadPlan.Selection.Listing — selections for display

For display the families are sorted by their bytes and so are the columns of each. A family that
is read as a whole is listed with one entry, `ALL`. A listing may be cut to a number of columns,
counted over all families together: the cut keeps every family and a beginning of the columns.
The total is never cut.
-/

namespace ReadPlan

/-- Stands for every column, and for every family. -/
def allColumns : String := "ALL"

/-- The entries of a family in a listing. -/
def Columns.texts : Columns KeySet → List String
  | .all => [allColumns]
  | .only set => set.toList.map Escaped.text

/-- How many columns are selected of a family; all of them count as one. -/
def Columns.count : Columns KeySet → Nat
  | .all => 1
  | .only set => set.size

/-- The families of a selection by name alone. -/
inductive Fingerprint where
  | everything
  | families (names : List String)
deriving DecidableEq, Repr

/-- Keeps the first columns of a listing, counted over all families; every family stays. -/
def cut {α β : Type} : Nat → List (α × List β) → List (α × List β)
  | _, [] => []
  | budget, (family, columns) :: rest =>
    (family, columns.take budget) :: cut (budget - columns.length) rest

namespace Selection

/-- The families in ascending order. -/
def families (selection : Selection) : KeySet :=
  KeySet.ofList selection.keys

/-- The families, none for a selection that reads everything. -/
def families? (selection : Selection) : Option KeySet :=
  if selection.isEmpty then none else some selection.families

def fingerprint (selection : Selection) : Fingerprint :=
  if selection.isEmpty then .everything
  else .families (selection.families.toList.map Escaped.text)

/-- Every family with all its columns, in ascending order. -/
def fullListing (selection : Selection) : List (Bytes × List String) :=
  selection.families.toList.map fun family =>
    (family, ((selection.get? family).map Columns.texts).getD [])

/-- Every family with its columns, at most `maxColumns` columns overall. -/
def listing (selection : Selection) (maxColumns : Int) : List (String × List String) :=
  (cut maxColumns.toNat selection.fullListing).map fun (family, columns) =>
    (Escaped.text family, columns)

/-- How many columns are selected. -/
def totalColumns (selection : Selection) : Nat :=
  selection.entries.foldr (fun entry total => entry.2.count + total) 0

end Selection

end ReadPlan
