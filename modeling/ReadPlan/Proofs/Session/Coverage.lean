import ReadPlan.Proofs.Session.Windows

/-!
# ReadPlan.Proofs.Session.Coverage — what a window over all time covers

A window leaves out its upper bound, and the upper bound of the window over all time is the greatest
timestamp. So this window covers the window of every single timestamp but the greatest one
(`TimeRange.IsAllTime.covers_single_iff`): a version that is stored there is found by a request for
its timestamp, and by no request that is left with the default window
(`Session.greatest_stamp_uncovered`).
-/

namespace ReadPlan

namespace TimeRange

variable {range : TimeRange} {timestamp : Int}

/-- Every timestamp of the other window is in this one. -/
def Covers (range other : TimeRange) : Prop :=
  ∀ timestamp, other.Contains timestamp → range.Contains timestamp

/-- There is one timestamp to cover. -/
theorem covers_single_iff : range.Covers ⟨timestamp, timestamp + 1⟩ ↔ range.Contains timestamp := by
  constructor
  · intro h
    exact h timestamp (contains_single.2 rfl)
  · intro h other hother
    have heq : other = timestamp := contains_single.1 hother
    rw [heq]
    exact h

theorem IsAllTime.contains_iff (h : range.IsAllTime) :
    range.Contains timestamp ↔ minTimestamp ≤ timestamp ∧ timestamp < maxTimestamp := by
  have hrange : range = allTime := isAllTime_iff.1 h
  rw [hrange]
  rfl

/-- Of the timestamps that there are, the greatest one is left out. -/
theorem IsAllTime.covers_single_iff (h : range.IsAllTime) (hmin : minTimestamp ≤ timestamp)
    (hmax : timestamp ≤ maxTimestamp) :
    range.Covers ⟨timestamp, timestamp + 1⟩ ↔ timestamp ≠ maxTimestamp := by
  rw [TimeRange.covers_single_iff, h.contains_iff]
  constructor
  · rintro ⟨-, hlt⟩
    exact Int.ne_of_lt hlt
  · intro hne
    exact ⟨hmin, Int.lt_iff_le_and_ne.2 ⟨hmax, hne⟩⟩

end TimeRange

namespace Session

variable {session : Session} {name stampedName : String} {request stamped : Request MapId FilterId}
  {timestamp : Int}

/-- Asked for the timestamp, the request of the name answers that it is within. -/
def IsWithin (session : Session) (name : String) (timestamp : Int) : Prop :=
  session.step? (.call name (.ask (.within timestamp))) = some (session, .ok (.truth true))

theorem isWithin_iff (hname : session.request? name = some request) :
    session.IsWithin name timestamp ↔ request.criteria.timeRange.Contains timestamp := by
  rw [IsWithin, step?_within hname]
  constructor
  · intro h
    have hanswer := (Prod.mk.inj (Option.some.inj h)).2
    have hresult := congrArg Outcome.result hanswer
    exact of_decide_eq_true (Answer.truth.inj (Except.ok.inj hresult))
  · intro h
    rw [decide_eq_true h]

/-- Giving a request one timestamp leaves all other requests as they are. -/
theorem step?_timeStamp (hstamped : session.request? stampedName = some stamped) (timestamp : Int) :
    ∃ next, session.step? (.call stampedName (.set (.timeStamp timestamp))) =
        some (next, .ok .itself) ∧
      (∀ other, next.IsWithin stampedName other ↔ other = timestamp) ∧
      ∀ name, name ≠ stampedName → next.request? name = session.request? name := by
  have hvalid : (⟨timestamp, timestamp + 1⟩ : TimeRange).Valid :=
    Int.le_add_one (Int.le_refl timestamp)
  refine ⟨_, step?_window hstamped rfl hvalid, ?_, ?_⟩
  · intro other
    rw [isWithin_iff (session.request?_bind_self _ _), Request.timeRange_put]
    exact TimeRange.contains_single
  · intro name hne
    rw [request?, request?, get?_bind_of_ne hne]

/-- **A window over all time covers every timestamp but the greatest.** In every session a request can
be given one timestamp, and then just this one is within its window. A scan or a lookup whose window
covers all time has within it the timestamps from the least one up to the greatest, the latter
excluded, also after the step on the other one. So what is within the window of a single timestamp is
within the window over all time just if it is not the greatest timestamp. -/
theorem all_time_covers (hname : session.request? name = some request)
    (hall : request.criteria.timeRange.IsAllTime)
    (hstamped : session.request? stampedName = some stamped)
    (hmin : minTimestamp ≤ timestamp) (hmax : timestamp ≤ maxTimestamp) :
    ∃ next, session.step? (.call stampedName (.set (.timeStamp timestamp))) =
        some (next, .ok .itself) ∧
      (∀ other, next.IsWithin stampedName other ↔ other = timestamp) ∧
      (∀ other, session.IsWithin name other ↔ minTimestamp ≤ other ∧ other < maxTimestamp) ∧
      (name ≠ stampedName → ∀ other, next.IsWithin name other ↔ session.IsWithin name other) ∧
      ((∀ other, next.IsWithin stampedName other → session.IsWithin name other) ↔
        timestamp ≠ maxTimestamp) := by
  obtain ⟨next, hstep, hsingle, hothers⟩ := step?_timeStamp hstamped timestamp
  have hwithin : ∀ other, session.IsWithin name other ↔ minTimestamp ≤ other ∧ other < maxTimestamp :=
    fun other => (isWithin_iff hname).trans hall.contains_iff
  refine ⟨next, hstep, hsingle, hwithin, ?_, ?_⟩
  · intro hne other
    have hkept : next.request? name = some request := (hothers name hne).trans hname
    rw [isWithin_iff hkept, isWithin_iff hname]
  · have hcovers := hall.covers_single_iff hmin hmax
    rw [← hcovers]
    -- both sides ask for the timestamps of the single window, one in answers and one in bounds
    refine forall_congr' fun other => ?_
    rw [hsingle, isWithin_iff hname, TimeRange.contains_single]

/-- A lookup whose window was set to the whole of time covers the last timestamp but one, to which a scan
is restricted. -/
theorem all_time_covers_last_but_one :
    let session := after [.make "lookup" (.lookup [0x72]), .make "scan" .scan,
      .call "lookup" (.set (.timeRange 5 9)),
      .call "lookup" (.set (.timeRange minTimestamp maxTimestamp))]
    let timestamp := maxTimestamp - 1
    Reachable session ∧ ∃ lookup scan next, session.request? "lookup" = some lookup ∧
      lookup.criteria.timeRange.IsAllTime ∧ session.request? "scan" = some scan ∧
      minTimestamp ≤ timestamp ∧ timestamp ≤ maxTimestamp ∧
      session.step? (.call "scan" (.set (.timeStamp timestamp))) = some (next, .ok .itself) ∧
      next.IsWithin "scan" timestamp ∧ session.IsWithin "lookup" timestamp ∧
      next.IsWithin "lookup" timestamp := by
  intro session timestamp
  have hlookup : session.request? "lookup" = some _ := rfl
  have hscan : session.request? "scan" = some _ := rfl
  have hall : TimeRange.IsAllTime ⟨minTimestamp, maxTimestamp⟩ := ⟨rfl, rfl⟩
  have hmin : minTimestamp ≤ timestamp := by decide
  have hmax : timestamp ≤ maxTimestamp := by decide
  have hne : timestamp ≠ maxTimestamp := by decide
  obtain ⟨next, hstep, hsingle, -, hkept, hcovered⟩ := all_time_covers hlookup hall hscan hmin hmax
  have hstamped : next.IsWithin "scan" timestamp := (hsingle timestamp).2 rfl
  have hwithin : session.IsWithin "lookup" timestamp := hcovered.2 hne timestamp hstamped
  refine ⟨reachable_after _, _, _, next, hlookup, hall, hscan, hmin, hmax, hstep, hstamped, hwithin, ?_⟩
  exact (hkept (by decide) timestamp).2 hwithin

/-- A scan that is restricted to the greatest timestamp has it within its window. A scan that is left with
the window over all time does not. -/
theorem greatest_stamp_uncovered :
    let session := after [.make "all" .scan, .make "stamped" .scan]
    Reachable session ∧ ∃ all stamped next, session.request? "all" = some all ∧
      all.criteria.timeRange.IsAllTime ∧ session.request? "stamped" = some stamped ∧
      minTimestamp ≤ maxTimestamp ∧
      session.step? (.call "stamped" (.set (.timeStamp maxTimestamp))) = some (next, .ok .itself) ∧
      next.IsWithin "stamped" maxTimestamp ∧ ¬ session.IsWithin "all" maxTimestamp ∧
      ¬ next.IsWithin "all" maxTimestamp := by
  intro session
  have hall : session.request? "all" = some _ := rfl
  have hstamped : session.request? "stamped" = some _ := rfl
  have hcovers : TimeRange.IsAllTime {} := ⟨rfl, rfl⟩
  obtain ⟨next, hstep, hsingle, hothers⟩ := step?_timeStamp hstamped maxTimestamp
  have hkept : next.request? "all" = some _ := (hothers "all" (by decide)).trans hall
  have hout : ¬ TimeRange.Contains {} maxTimestamp := by decide
  refine ⟨reachable_after _, _, _, next, hall, hcovers, hstamped, by decide, hstep,
    (hsingle maxTimestamp).2 rfl, ?_, ?_⟩
  · intro h
    exact hout ((isWithin_iff hall).1 h)
  · intro h
    exact hout ((isWithin_iff hkept).1 h)

end Session

end ReadPlan
