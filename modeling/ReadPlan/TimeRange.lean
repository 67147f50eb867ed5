import ReadPlan.Outcome

/-!
# ReadPlan.TimeRange — windows of timestamps

A request reads the versions of a cell whose timestamps lie in a half-open window. The default
window covers all time. `ofBounds` is the only way to a window from outside, and it refuses one
that ends before it begins; an empty window is accepted.
-/

namespace ReadPlan

/-- The least timestamp. -/
def minTimestamp : Int := 0

/-- The greatest timestamp. -/
def maxTimestamp : Int := 0x7fff_ffff_ffff_ffff

/-- The timestamps from `min` to `max`, the latter excluded. -/
structure TimeRange where
  min : Int := minTimestamp
  max : Int := maxTimestamp
deriving DecidableEq, Repr

namespace TimeRange

/-- The default window. -/
def allTime : TimeRange := {}

/-- The window between two bounds. -/
def ofBounds (min max : Int) : Outcome TimeRange :=
  if max < min then .refuse (.invertedRange min max) (.rejectedRange min max)
  else .ok ⟨min, max⟩

/-- The window of one timestamp. -/
def single (timestamp : Int) : Outcome TimeRange :=
  ofBounds timestamp (timestamp + 1)

/-- The window has the default bounds. -/
def IsAllTime (range : TimeRange) : Prop :=
  range.min = minTimestamp ∧ range.max = maxTimestamp

instance (range : TimeRange) : Decidable range.IsAllTime :=
  inferInstanceAs (Decidable (_ ∧ _))

/-- The timestamps of the window. -/
def Contains (range : TimeRange) (timestamp : Int) : Prop :=
  range.min ≤ timestamp ∧ timestamp < range.max

instance (range : TimeRange) (timestamp : Int) : Decidable (range.Contains timestamp) :=
  inferInstanceAs (Decidable (_ ∧ _))

def text (range : TimeRange) : String :=
  s!"TimeRange(min_stamp={range.min}, max_stamp={range.max})"

theorem ofBounds_of_le {min max : Int} (h : min ≤ max) :
    ofBounds min max = .ok ⟨min, max⟩ :=
  if_neg (Int.not_lt.2 h)

theorem ofBounds_of_lt {min max : Int} (h : max < min) :
    ofBounds min max = .refuse (.invertedRange min max) (.rejectedRange min max) :=
  if_pos h

/-- The window of one timestamp is never refused. -/
theorem single_eq (timestamp : Int) : single timestamp = .ok ⟨timestamp, timestamp + 1⟩ :=
  ofBounds_of_le (by omega)

end TimeRange

end ReadPlan
