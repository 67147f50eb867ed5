import ReadPlan.Proofs.Request.History
import ReadPlan.Proofs.Session.Ledgers

/-!
# ReadPlan.Proofs.Session.RequestHistory — what the requests of a session were given

The history of the request under each name is read off the steps of a run alone: a call adds the
value that it gives, a copy takes over the history of its source, and a lift takes over all of it
but the attributes (`Step.tells`). After every run each request records its history
(`Session.run?_told`).
-/

namespace ReadPlan

/-- The value that a call gives to a request. -/
def Call.gives : Call → Option Given
  | .set setting => setting.gives
  | .setScan setting => setting.gives
  | _ => none

/-- The history of what a construction makes. -/
def Construction.tells (histories : String → History) : Construction → History
  | .copy source => histories source
  | .lift source => (histories source).lifted
  | _ => []

/-- The histories of all names after a step. -/
def Step.tells (histories : String → History) (step : Step) (name : String) : History :=
  if name = step.target then
    match step with
    | .make _ construction => construction.tells histories
    | .call _ made => (histories name).add made.gives
  else histories name

/-- The histories of all names after the steps of a run, none of which had one before. -/
def histories (steps : List Step) : String → History :=
  steps.foldl (fun histories step => step.tells histories) fun _ => []

theorem histories_concat (steps : List Step) (step : Step) :
    histories (steps ++ [step]) = step.tells (histories steps) := by
  rw [histories, List.foldl_concat]
  rfl

namespace Step

variable {histories : String → History} {name : String}

theorem tells_call (made : Call) :
    (Step.call name made).tells histories name = (histories name).add made.gives :=
  if_pos rfl

theorem tells_of_ne {step : Step} (h : name ≠ step.target) :
    step.tells histories name = histories name :=
  if_neg h

end Step

namespace Session

variable {session next last : Session} {step : Step} {outcome : Outcome Answer}
  {histories : String → History}

/-- Each request records the history of its name. -/
def Told (session : Session) (histories : String → History) : Prop :=
  ∀ name request, session.request? name = some request → request.Records (histories name)

/-! ## Calls -/

/-- A call that writes no part gives nothing. -/
theorem gives_of_part? {call : Call} (h : call.part? = none) : call.gives = none := by
  cases call with
  | set | setScan => cases h
  | _ => rfl

/-- What a call writes adds what the call gives. -/
theorem gives_of_write? {request : Request MapId FilterId} {call : Call}
    {written : Outcome (Write MapId FilterId)}
    (hwrite : session.write? request call = some written) : written.Gives call.gives := by
  cases call with
  | set setting =>
    cases hwrite
    exact setting.write_gives
  | setScan setting =>
    rcases Option.map_eq_some_iff.1 hwrite with ⟨filter?, -, rfl⟩
    exact setting.write_gives _
  | useMap map =>
    rcases Option.map_eq_some_iff.1 hwrite with ⟨families, -, rfl⟩
    exact .ok (.families families)
  | useFilter filterName? =>
    rcases Option.map_eq_some_iff.1 hwrite with ⟨filter?, -, rfl⟩
    exact .ok (.filter filter?)
  | select | setWholeRow | ask | askScan | compare => cases hwrite

/-- Only a scan takes a bound on the size of a result. -/
theorem scan_of_maxResultSize {request : Request MapId FilterId} {call : Call}
    {written : Outcome (Write MapId FilterId)}
    (hwrite : session.write? request call = some written) {size : Int}
    (hgives : call.gives = some (.maxResultSize size)) : ∃ scan, request = .scan scan := by
  cases request with
  | scan scan => exact ⟨scan, rfl⟩
  | lookup lookup =>
    cases call with
    | set setting =>
      have hpart := Setting.part_of_gives hgives
      cases setting <;> cases hpart
    | setScan setting => cases hwrite
    | _ => cases hgives

/-! ## Runs -/

/-- The histories as a ledger. -/
def historyLedger : Ledger History where
  fresh := []
  lift := History.lifted
  call call _ history := history.add call.gives

theorem historyLedger_next (histories : String → History) (step : Step) (outcome : Outcome Answer) :
    historyLedger.next histories step outcome = step.tells histories := by
  funext name
  cases step with
  | make target construction => cases construction <;> rfl
  | call target call => rfl

theorem historyLedger_after (histories : String → History) {steps : List Step}
    {outcomes : List (Outcome Answer)} (hlength : outcomes.length = steps.length) :
    historyLedger.after histories steps outcomes =
      steps.foldl (fun histories step => step.tells histories) histories := by
  induction steps generalizing histories outcomes with
  | nil => rfl
  | cons step rest ih =>
    cases outcomes with
    | nil => cases hlength
    | cons outcome later =>
      rw [Ledger.after, historyLedger_next, List.foldl_cons]
      exact ih _ (Nat.succ.inj hlength)

/-- What happens to a request is told by its history. -/
theorem historyLedger_follows : historyLedger.Follows Request.Records where
  scan _ _ _ _ := Request.records_nil rfl rfl rfl rfl
  lookup _ _ _ := Request.records_nil rfl rfl rfl rfl
  copy _ _ f h := h.map f id
  lift _ _ h := h.toScan
  call _ _ _ call _ _ _ _ hname hstep hchanged h := by
    show Request.Records _ (History.add _ call.gives)
    rcases written_of_step? hname hstep hchanged with ⟨hpart, rfl⟩ | ⟨written, hwrite, rfl, -⟩
    · rw [gives_of_part? hpart]
      exact h
    · exact h.take (gives_of_write? hwrite) fun _ hgives => scan_of_maxResultSize hwrite hgives

/-- After a run every request records what it was given. -/
theorem run?_told {steps : List Step} {outcomes : List (Outcome Answer)}
    (hrun : initial.run? steps = some (last, outcomes)) : last.Told (ReadPlan.histories steps) := by
  have hkept := historyLedger_follows.kept_run_initial hrun
  rwa [historyLedger_after _ (length_of_run? hrun)] at hkept

end Session

end ReadPlan
