import Mathlib.Data.Int.Interval
import ReadPlan.Proofs.Session.Ledgers

/-!
# ReadPlan.Proofs.Session.Windows — windows of timestamps

The bounds of a window are checked when it is given to a request, and once more when a scan is
copied; a lift takes the window over unchecked. The second check never fails, since the window of a
request is at all times the one that was accepted last, by the request or by the one that it was
copied or lifted from before (`windowLedger`). What was refused leaves no trace, and nobody else's
window moves along (`Session.windows_accepted`).
-/

namespace ReadPlan

variable {μ φ : Type}

/-! ## Timestamps of a window -/

namespace TimeRange

/-- As many timestamps lie in a window as its bounds are apart. -/
theorem exists_stamps {range : TimeRange} (hvalid : range.Valid) :
    ∃ stamps : Finset Int, (∀ timestamp, timestamp ∈ stamps ↔ range.Contains timestamp) ∧
      (stamps.card : Int) = range.max - range.min := by
  refine ⟨Finset.Ico range.min range.max, fun timestamp => Finset.mem_Ico, ?_⟩
  have hle : range.min ≤ range.max := hvalid
  rw [Int.card_Ico, Int.toNat_of_nonneg (by omega)]

theorem isAllTime_iff {range : TimeRange} : range.IsAllTime ↔ range = allTime := by
  obtain ⟨min, max⟩ := range
  constructor
  · rintro ⟨rfl, rfl⟩
    rfl
  · intro h
    cases h
    exact ⟨rfl, rfl⟩

/-- The window of one timestamp holds this timestamp and no other. -/
theorem contains_single {timestamp other : Int} :
    (⟨timestamp, timestamp + 1⟩ : TimeRange).Contains other ↔ other = timestamp := by
  unfold Contains
  constructor
  · rintro ⟨hmin, hmax⟩
    have hmin : timestamp ≤ other := hmin
    have hmax : other < timestamp + 1 := hmax
    omega
  · rintro rfl
    exact ⟨Int.le_refl other, Int.lt_add_one_of_le (Int.le_refl other)⟩

end TimeRange

/-! ## Windows that were accepted -/

/-- The window that a call gives to a request, if it is accepted. -/
def Call.window? : Call → Option TimeRange
  | .set (.timeRange min max) => some ⟨min, max⟩
  | .set (.timeStamp timestamp) => some ⟨timestamp, timestamp + 1⟩
  | _ => none

/-- The windows that a request accepted, the latest one first; a copy and a lifted scan take over
those of their source. -/
def windowLedger : Ledger (List TimeRange) where
  fresh := []
  lift := id
  call call outcome windows :=
    match call.window?, outcome.result with
    | some window, .ok _ => window :: windows
    | _, _ => windows

/-- A call gives a window just if it writes the window of a request. -/
theorem Call.window?_eq_none_iff {call : Call} :
    call.window? = none ↔ call.part? ≠ some .timeRange := by
  cases call with
  | set setting => cases setting <;> simp [window?, part?, Setting.part]
  | setScan setting => cases setting <;> simp [window?, part?, ScanSetting.part]
  | _ => simp [window?, part?]

theorem windowLedger_call_of_none {call : Call} (h : call.window? = none) (outcome : Outcome Answer)
    (windows : List TimeRange) : windowLedger.call call outcome windows = windows := by
  simp only [windowLedger, h]

theorem windowLedger_call_ok {call : Call} {window : TimeRange} (h : call.window? = some window)
    (answer : Answer) (windows : List TimeRange) :
    windowLedger.call call (.ok answer) windows = window :: windows := by
  simp only [windowLedger, h, Outcome.result_ok]

theorem windowLedger_call_refuse (call : Call) (failure : Failure) (record : LogRecord)
    (windows : List TimeRange) :
    windowLedger.call call (.refuse failure record) windows = windows := by
  cases hwindow : call.window? <;> simp only [windowLedger, Outcome.refuse, hwindow]

/-- A value for another part leaves the window. -/
theorem Request.timeRange_take (request : Request μ φ) {outcome : Outcome (Write μ φ)} {part : Part}
    (hwrites : outcome.WritesTo part) (hpart : part ≠ .timeRange) :
    (request.take outcome).criteria.timeRange = request.criteria.timeRange := by
  refine read_take (fun request => request.criteria.timeRange) request hwrites ?_
  intro write hwrite
  cases write with
  | timeRange => exact absurd hwrite.symm hpart
  | _ => cases request <;> rfl

theorem Request.timeRange_put (request : Request μ φ) (range : TimeRange) :
    (request.put (.timeRange range)).criteria.timeRange = range := by
  cases request <;> rfl

namespace Session

variable {session next last : Session} {name : String} {request changed : Request MapId FilterId}
  {call : Call} {window : TimeRange} {outcome : Outcome Answer}

/-- A call that gives a window ends in the check of its bounds. -/
theorem write?_window (hwindow : call.window? = some window) :
    session.write? request call =
      some (Write.timeRange <$> TimeRange.ofBounds window.min window.max) := by
  cases call with
  | set setting => cases setting <;> cases hwindow <;> rfl
  | _ => cases hwindow

/-- A valid window is accepted and replaces the one there was. -/
theorem step?_window (hname : session.request? name = some request)
    (hwindow : call.window? = some window) (hvalid : window.Valid) :
    session.step? (.call name call) =
      some (session.bind name (.request (request.put (.timeRange window))), .ok .itself) := by
  rw [step?_of_write? hname (write?_window hwindow), TimeRange.ofBounds_of_le hvalid]
  rfl

/-- A window that ends before it begins is refused, and nothing changes. -/
theorem step?_window_refused (hname : session.request? name = some request)
    (hwindow : call.window? = some window) (hinvalid : ¬ window.Valid) :
    session.step? (.call name call) =
      some (session, .refuse (.invertedRange window.min window.max)
        (.rejectedRange window.min window.max)) := by
  rw [step?_of_write? hname (write?_window hwindow),
    TimeRange.ofBounds_of_lt (Int.not_le.1 hinvalid), Outcome.map_refuse, Outcome.map_refuse]
  exact congrArg (fun s => some (s, _)) (bind_self hname)

/-- What happens to a request leaves it with the window that was accepted last. -/
theorem windowLedger_follows :
    windowLedger.Follows fun request windows =>
      request.criteria.timeRange = windows.head?.getD .allTime where
  scan _ _ _ _ := rfl
  lookup _ _ _ := rfl
  copy _ _ _ h := h
  lift _ _ h := h
  call session next name call outcome request changed windows hname hstep hchanged h := by
    cases hwindow : call.window? with
    | none =>
      -- another part is written, if any
      have hsame : changed.criteria.timeRange = request.criteria.timeRange := by
        rcases written_of_step? hname hstep hchanged with ⟨-, rfl⟩ | ⟨written, hwrite, rfl, -⟩
        · rfl
        · rcases writesTo_of_write? hwrite with ⟨part, hpart, hwrites⟩
          refine request.timeRange_take hwrites ?_
          rintro rfl
          exact Call.window?_eq_none_iff.1 hwindow hpart
      rw [hsame, h, windowLedger_call_of_none hwindow]
    | some window =>
      by_cases hvalid : window.Valid
      · cases hstep.symm.trans (step?_window hname hwindow hvalid)
        obtain rfl := Option.some.inj (hchanged.symm.trans (request?_bind_self _ _ _))
        rw [request.timeRange_put, windowLedger_call_ok hwindow]
        rfl
      · cases hstep.symm.trans (step?_window_refused hname hwindow hvalid)
        obtain rfl := Option.some.inj (hchanged.symm.trans hname)
        rw [h, windowLedger_call_refuse]

/-! ## Windows along a run -/

theorem step?_within (hname : session.request? name = some request) (timestamp : Int) :
    session.step? (.call name (.ask (.within timestamp))) =
      some (session, .ok (.truth (request.criteria.timeRange.Contains timestamp))) := by
  rw [step?_ask hname]
  cases request <;> rfl

/-- The request of the name has the window: its bounds pass their check, it is the default window
just if it covers all time, and as many timestamps lie within it as its bounds are apart. -/
structure HasWindow (session : Session) (name : String) (window : TimeRange) : Prop where
  request : ∃ request, session.request? name = some request ∧ request.criteria.timeRange = window
  valid : window.min ≤ window.max
  checked : TimeRange.ofBounds window.min window.max = .ok window
  allTime : window.IsAllTime ↔ window = {}
  within : ∀ timestamp, session.step? (.call name (.ask (.within timestamp))) =
    some (session, .ok (.truth (window.Contains timestamp)))
  count : ∃ stamps : Finset Int, (∀ timestamp, timestamp ∈ stamps ↔ window.Contains timestamp) ∧
    (stamps.card : Int) = window.max - window.min

theorem hasWindow (hname : session.request? name = some request)
    (hvalid : request.criteria.timeRange.Valid) :
    session.HasWindow name request.criteria.timeRange :=
  ⟨⟨request, hname, rfl⟩, hvalid, TimeRange.ofBounds_of_le hvalid, TimeRange.isAllTime_iff,
    step?_within hname, TimeRange.exists_stamps hvalid⟩

/-- The request of the name takes a window that does not end before it begins, and any other is
refused with a record in the log, which leaves the whole session as it is. -/
structure TakesWindow (session : Session) (name : String) (call : Call) (window : TimeRange) :
    Prop where
  accepted : window.min ≤ window.max → ∃ next, session.step? (.call name call) =
    some (next, .ok .itself) ∧ next.HasWindow name window
  refused : window.max < window.min → session.step? (.call name call) =
    some (session, .refuse (.invertedRange window.min window.max)
      (.rejectedRange window.min window.max))

theorem takesWindow (hname : session.request? name = some request)
    (hwindow : call.window? = some window) : session.TakesWindow name call window := by
  constructor
  · intro hvalid
    refine ⟨_, step?_window hname hwindow hvalid, ?_⟩
    have hhas := hasWindow (session.request?_bind_self name (request.put (.timeRange window)))
    rw [request.timeRange_put] at hhas
    exact hhas hvalid
  · intro hlt
    exact step?_window_refused hname hwindow (Int.not_le.2 hlt)

/-- A copy of a scan is made without a failure or a record, and has the window of the scan. -/
theorem step?_copy_window (hsound : session.Sound) {scan : Scan MapId FilterId}
    (hscan : session.scan? name = some scan) (copyName : String) :
    ∃ next copy, session.step? (.make copyName (.copy name)) = some (next, .ok .created) ∧
      next.scan? copyName = some copy ∧ copy.timeRange = scan.timeRange :=
  ⟨_, _, step?_copy hscan (hsound.scan hscan).window copyName, scan?_bind_self _ _ _, rfl⟩

/-- **The window of a request is valid, and the last one that was accepted.** After any run the
window of a scan or a lookup is the one that it accepted last, or that its source had when it was
copied or lifted, and the default one if there is none. Its bounds are in order, so that every scan
can be copied without a failure or a record; a window out of order is refused and leaves no trace,
and no step on another name changes the request. Giving a request one timestamp is giving it the
window from this timestamp to the next, in every session, and then just this timestamp is within. -/
theorem windows_accepted {steps : List Step} {outcomes : List (Outcome Answer)}
    (hrun : initial.run? steps = some (last, outcomes)) :
    (∀ name request, last.request? name = some request →
      request.criteria.timeRange =
        (windowLedger.after (fun _ => []) steps outcomes name).head?.getD {} ∧
      last.HasWindow name request.criteria.timeRange ∧
      (∀ call window, call.window? = some window → last.TakesWindow name call window) ∧
      (∀ step next outcome, step.target ≠ name → last.step? step = some (next, outcome) →
        next.request? name = some request) ∧
      ∀ timestamp, ∃ next, last.step? (.call name (.set (.timeStamp timestamp))) =
          some (next, .ok .itself) ∧
        ∀ other, next.step? (.call name (.ask (.within other))) =
          some (next, .ok (.truth (other = timestamp)))) ∧
    (∀ name copyName scan, last.scan? name = some scan → ∃ next copy,
      last.step? (.make copyName (.copy name)) = some (next, .ok .created) ∧
        next.scan? copyName = some copy ∧ copy.timeRange = scan.timeRange) ∧
    ∀ (session : Session) name timestamp, session.step? (.call name (.set (.timeStamp timestamp))) =
      session.step? (.call name (.set (.timeRange timestamp (timestamp + 1)))) := by
  have hsound := sound_initial.run hrun
  refine ⟨?_, fun name copyName scan hscan => step?_copy_window hsound hscan copyName,
    fun _ _ _ => rfl⟩
  intro name request hname
  refine ⟨windowLedger_follows.kept_run_initial hrun name request hname,
    hasWindow hname (hsound.request hname).window, fun _ _ hwindow => takesWindow hname hwindow,
    ?_, ?_⟩
  · intro step next outcome htarget hstep
    rw [request?_eq_some, (step?_transition hstep).get?_of_ne htarget.symm]
    exact request?_eq_some.1 hname
  · intro timestamp
    have hvalid : (⟨timestamp, timestamp + 1⟩ : TimeRange).Valid :=
      Int.le_add_one (Int.le_refl timestamp)
    refine ⟨_, step?_window hname rfl hvalid, fun other => ?_⟩
    rw [step?_within (last.request?_bind_self _ _), request.timeRange_put,
      decide_eq_decide.2 TimeRange.contains_single]

/-- A lookup accepts a window and refuses the next one; the scan that is lifted from it and the copy
of this scan start with the first. Then the scan gets a timestamp, and the copy keeps the window and
hands it on. -/
theorem windows_accepted_through_lift :
    let steps : List Step := [.make "lookup" (.lookup [114]),
      .call "lookup" (.set (.timeRange 5 9)), .call "lookup" (.set (.timeRange 9 5)),
      .make "scan" (.lift "lookup"), .make "copy" (.copy "scan"),
      .call "scan" (.set (.timeStamp 7)), .call "lookup" (.set (.timeRange 0 1))]
    ∃ last outcomes scan copy, initial.run? steps = some (last, outcomes) ∧
      last.scan? "scan" = some scan ∧ scan.timeRange = ⟨7, 8⟩ ∧ last.HasWindow "scan" ⟨7, 8⟩ ∧
      last.scan? "copy" = some copy ∧ copy.timeRange = ⟨5, 9⟩ ∧ last.HasWindow "copy" ⟨5, 9⟩ ∧
      ∃ next again, last.step? (.make "again" (.copy "copy")) = some (next, .ok .created) ∧
        next.scan? "again" = some again ∧ again.timeRange = ⟨5, 9⟩ := by
  intro steps
  have hrun : initial.run? steps = some (_, _) := rfl
  rcases windows_accepted hrun with ⟨hwindows, hcopies, -⟩
  rcases hwindows "scan" _ rfl with ⟨hscan, hscanWindow, -⟩
  rcases hwindows "copy" _ rfl with ⟨hcopy, hcopyWindow, -⟩
  exact ⟨_, _, _, _, hrun, rfl, hscan, hscanWindow, rfl, hcopy, hcopyWindow,
    hcopies "copy" "again" _ rfl⟩

end Session

end ReadPlan
