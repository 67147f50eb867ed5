/-!
# ReadPlan.Filter — server-side filters

A filter is a predicate that the server runs on every cell. A request only needs to know what to
call it and whether it has to see whole rows before it decides, since whole rows rule out
batching. The predicate itself is never run on this side; `Decision` names its answers. Names and
labels are displayed and never turned into bytes; they are strings, texts of Unicode scalar values
only.
-/

namespace ReadPlan

/-- What a scanner does with the cell that a filter has just seen. -/
inductive Decision where
  | keep
  | skip
  | nextColumn
  | nextRow
  | seekHint
deriving DecidableEq, Repr

namespace Decision

def name : Decision → String
  | keep => "INCLUDE"
  | skip => "SKIP"
  | nextColumn => "NEXT_COL"
  | nextRow => "NEXT_ROW"
  | seekHint => "SEEK_NEXT_USING_HINT"

/-- The word that stands for the decision. -/
def word : Decision → String
  | keep => "include"
  | skip => "skip"
  | nextColumn => "next_col"
  | nextRow => "next_row"
  | seekHint => "seek_next_using_hint"

def all : List Decision :=
  [keep, skip, nextColumn, nextRow, seekHint]

end Decision

/-- A filter: the name of its kind, a label of its own if it has one, and a flag that says
whether it needs whole rows, if it is of a kind that may. -/
structure Filter where
  name : String
  label? : Option String := none
  wholeRow? : Option Bool := none
deriving DecidableEq, Repr

namespace Filter

/-- How the filter is displayed: by its label, else by the name of its kind. -/
def text (filter : Filter) : String :=
  filter.label?.getD filter.name

/-- The filter has to see every cell of a row before it decides. -/
def needsWholeRow (filter : Filter) : Bool :=
  filter.wholeRow?.getD false

/-- Sets the flag of a filter that has one. -/
def setWholeRow (filter : Filter) (flag : Bool) : Filter :=
  { filter with wholeRow? := filter.wholeRow?.map fun _ => flag }

theorem text_setWholeRow (filter : Filter) (flag : Bool) :
    (filter.setWholeRow flag).text = filter.text :=
  rfl

end Filter

end ReadPlan
