import ReadPlan.Proofs.Session.Ledgers

/-!
# ReadPlan.Proofs.Session.Batches — batch sizes and filters that need whole rows

A batch size is refused where the filter of the scan needs whole rows. This is looked at once, when
the size is given, and a copy or a lift takes over filters without asking. So a batch size stays what
was accepted last (`batchLedger`), and it goes together with a filter that needs whole rows only if
the filter of a scan, or the flag of a filter, was changed since. Along a run where neither happens
no such scan has a batch size (`Session.batch_stays`).
-/

namespace ReadPlan

variable {μ φ : Type}

/-! ## Writing a batch size -/

/-- The batch size of a request; a lookup has none. -/
def Request.batch : Request μ φ → Int
  | scan s => s.batch
  | lookup _ => unset

/-- A value for another part leaves the batch size. -/
theorem Request.batch_take (request : Request μ φ) {outcome : Outcome (Write μ φ)} {part : Part}
    (hwrites : outcome.WritesTo part) (hpart : part ≠ .batch) :
    (request.take outcome).batch = request.batch := by
  refine read_take Request.batch request hwrites ?_
  intro write hwrite
  cases write with
  | batch => exact absurd hwrite.symm hpart
  | _ => cases request <;> rfl

namespace Call

theorem eq_useFilter {call : Call} (h : call.part? = some .filter) :
    ∃ filterName?, call = .useFilter filterName? := by
  cases call with
  | useFilter filterName? => exact ⟨filterName?, rfl⟩
  | set setting => cases setting <;> cases h
  | setScan setting => cases setting <;> cases h
  | _ => cases h

theorem eq_batch {call : Call} (h : call.part? = some .batch) :
    ∃ size, call = .setScan (.batch size) := by
  cases call with
  | setScan setting =>
    cases setting with
    | batch size => exact ⟨size, rfl⟩
    | _ => cases h
  | set setting => cases setting <;> cases h
  | _ => cases h

end Call

/-! ## Batch sizes that were accepted -/

/-- The batch sizes that a scan accepted, the latest one first; a copy takes over those of its
source. -/
def batchLedger : Ledger (List Int) where
  fresh := []
  lift _ := []
  call call outcome sizes :=
    match call, outcome.result with
    | .setScan (.batch size), .ok _ => size :: sizes
    | _, _ => sizes

theorem batchLedger_call {call : Call} (h : call.part? ≠ some .batch) (outcome : Outcome Answer)
    (sizes : List Int) : batchLedger.call call outcome sizes = sizes := by
  cases call with
  | setScan setting =>
    cases setting with
    | batch size => exact absurd rfl h
    | _ => rfl
  | _ => rfl

open Session

section Calls

variable {session next : Session} {name : String} {request changed : Request MapId FilterId}
  {outcome : Outcome Answer}

/-- A call that gives no batch size leaves the batch size. -/
theorem batch_of_step? {call : Call} (hname : session.request? name = some request)
    (hstep : session.step? (.call name call) = some (next, outcome))
    (hchanged : next.request? name = some changed) (hcall : call.part? ≠ some .batch) :
    changed.batch = request.batch := by
  rcases written_of_step? hname hstep hchanged with ⟨-, rfl⟩ | ⟨written, hwrite, rfl, -⟩
  · rfl
  · rcases writesTo_of_write? hwrite with ⟨part, hpart, hwrites⟩
    refine request.batch_take hwrites ?_
    rintro rfl
    exact hcall hpart

/-- What happens to a scan leaves it with the batch size that it accepted last. -/
theorem batchLedger_follows :
    batchLedger.Follows fun request sizes => request.batch = sizes.head?.getD unset where
  scan _ _ _ _ := rfl
  lookup _ _ _ := rfl
  copy _ _ _ h := h
  lift _ _ _ := rfl
  call session next name call outcome request changed sizes hname hstep hchanged h := by
    by_cases hcall : call.part? = some .batch
    · rcases call.eq_batch hcall with ⟨size, rfl⟩
      rcases written_of_step? hname hstep hchanged with ⟨hnone, -⟩ | ⟨written, hwrite, rfl, rfl⟩
      · cases hnone
      · rcases Option.map_eq_some_iff.1 hwrite with ⟨filter?, hscan, rfl⟩
        rcases ScanSetting.write_batch (filter?.map session.pool.filter) size with
          ⟨-, failure, log, -, -, hrefused⟩ | ⟨-, haccepted⟩
        · rw [hrefused]
          exact h
        · rw [haccepted]
          cases request with
          | scan scan => rfl
          | lookup lookup => cases hscan
    · rw [batchLedger_call hcall, batch_of_step? hname hstep hchanged hcall]
      exact h

end Calls

/-- Nothing but giving the scan a batch size, or making it anew, changes its batch size. -/
theorem Session.batch_kept {session next : Session} {name : String} {step : Step}
    {outcome : Outcome Answer} {scan changed : Scan MapId FilterId}
    (hscan : session.scan? name = some scan) (hstep : session.step? step = some (next, outcome))
    (hkeeps : ¬ step.Rebinds name) (hsteps : ∀ size, step ≠ .call name (.setScan (.batch size)))
    (hchanged : next.scan? name = some changed) : changed.batch = scan.batch := by
  by_cases htarget : name = step.target
  · subst htarget
    cases step with
    | make target construction => exact absurd rfl hkeeps
    | call target call =>
      have hcall : call.part? ≠ some .batch := by
        intro hbatch
        rcases call.eq_batch hbatch with ⟨size, rfl⟩
        exact hsteps size rfl
      exact batch_of_step? (request?_of_scan? hscan) hstep (request?_of_scan? hchanged) hcall
  · rw [scan?_eq_some, (step?_transition hstep).get?_of_ne htarget, scan?_eq_some.1 hscan] at hchanged
    cases hchanged
    rfl

/-! ## Filters that stay -/

/-- The scan has no batch size if its filter needs whole rows. -/
def Scan.Unbatched (scan : Scan MapId FilterId) (pool : Pool) : Prop :=
  ∀ id, scan.filter? = some id → (pool.filter id).needsWholeRow = true → scan.batch = unset

namespace Session

variable {session next last : Session} {name : String} {step : Step} {steps : List Step}
  {outcome : Outcome Answer} {outcomes : List (Outcome Answer)} {scan changed : Scan MapId FilterId}

/-- The step gives no scan another filter, and no filter another flag. -/
structure LeavesFilters (session : Session) (step : Step) (next : Session) : Prop where
  scans : ∀ name scan filterName?, session.scan? name = some scan →
    step ≠ .call name (.useFilter filterName?)
  flags : ∀ id, session.pool.HasFilter id →
    (next.pool.filter id).needsWholeRow = (session.pool.filter id).needsWholeRow

/-- No step of the run gives a scan another filter, or a filter another flag. -/
def FiltersStay (session : Session) : List Step → Prop
  | [] => True
  | step :: rest => ∀ next outcome, session.step? step = some (next, outcome) →
    session.LeavesFilters step next ∧ next.FiltersStay rest

/-- A step that does not set the flag of a filter leaves all filters that are there. -/
theorem Transition.filter_eq (hstep : session.Transition step next)
    (hflag : ∀ target flag, step ≠ .call target (.setWholeRow flag)) {id : FilterId}
    (hid : session.pool.HasFilter id) : next.pool.filter id = session.pool.filter id := by
  cases hstep with
  | make hmade => exact hmade.grows.filter_eq hid
  | @select target families selector hname =>
    exact congrFun (session.pool.selects families selector).filter_eq id
  | setWholeRow flag hname => exact absurd rfl (hflag _ flag)
  | same | set | setScan | useMap | useFilter => rfl

/-- So filters stay if no filter is given to a scan and no flag is set. -/
theorem filtersStay_cons (hstep : session.step? step = some (next, outcome))
    (hflag : ∀ target flag, step ≠ .call target (.setWholeRow flag))
    (huse : ∀ target filterName?, step = .call target (.useFilter filterName?) →
      session.scan? target = none)
    (hrest : next.FiltersStay steps) : session.FiltersStay (step :: steps) := by
  intro found outcome' hfound
  cases hstep.symm.trans hfound
  refine ⟨⟨?_, ?_⟩, hrest⟩
  · rintro target scan filterName? hscan rfl
    rw [huse target filterName? rfl] at hscan
    cases hscan
  · intro id hid
    rw [(step?_transition hstep).filter_eq hflag hid]

/-- No scan with a filter that needs whole rows has a batch size. -/
def Unbatched (session : Session) : Prop :=
  ∀ name scan, session.scan? name = some scan → scan.Unbatched session.pool

/-- A scan is judged by filters that keep their flags. -/
theorem LeavesFilters.unbatched (h : session.LeavesFilters step next)
    (hscan : scan.Unbatched session.pool)
    (hfilter : ∀ id, scan.filter? = some id → session.pool.HasFilter id) :
    scan.Unbatched next.pool := by
  intro id hid hneeds
  rw [h.flags id (hfilter id hid)] at hneeds
  exact hscan id hid hneeds

/-- A call on a scan, other than one that gives it a filter, leaves the filter; and a batch size is
given only where the filter does not need whole rows. -/
theorem unbatched_of_call {call : Call} (hscan : session.scan? name = some scan)
    (hcall : ∀ filterName?, call ≠ .useFilter filterName?)
    (hstep : session.step? (.call name call) = some (next, outcome))
    (hchanged : next.scan? name = some changed) (h : scan.Unbatched session.pool) :
    changed.filter? = scan.filter? ∧ changed.Unbatched session.pool := by
  have hname := request?_of_scan? hscan
  have hname' := request?_of_scan? hchanged
  rcases written_of_step? hname hstep hname' with ⟨-, heq⟩ | ⟨written, hwrite, htaken, -⟩
  · cases heq
    exact ⟨rfl, h⟩
  · rcases writesTo_of_write? hwrite with ⟨part, hpart, hwrites⟩
    have hpart' : part ≠ .filter := by
      rintro rfl
      rcases call.eq_useFilter hpart with ⟨filterName?, rfl⟩
      exact hcall filterName? rfl
    have hfilter : changed.filter? = scan.filter? := by
      have hfilter := (Request.scan scan).scanFilter?_take hwrites hpart'
      rw [← htaken] at hfilter
      exact Option.some.inj hfilter
    refine ⟨hfilter, ?_⟩
    intro id hid hneeds
    rw [hfilter] at hid
    by_cases hbatch : call.part? = some .batch
    · rcases call.eq_batch hbatch with ⟨size, rfl⟩
      have hwritten : written = ScanSetting.write (scan.filter?.map session.pool.filter)
          (.batch size) := (Option.some.inj hwrite).symm
      rcases ScanSetting.write_batch (scan.filter?.map session.pool.filter) size with
        ⟨-, failure, log, -, -, hrefused⟩ | ⟨haccepted, -⟩
      · rw [hwritten, hrefused] at htaken
        cases htaken
        exact h id hid hneeds
      · have hnot := haccepted (session.pool.filter id) (by rw [hid]; rfl)
        rw [hneeds] at hnot
        cases hnot
    · have hsame := batch_of_step? hname hstep hname' hbatch
      exact hsame.trans (h id hid hneeds)

/-- A call makes no scan of what was none. -/
theorem scan_of_call {call : Call} (hstep : session.step? (.call name call) = some (next, outcome))
    (hchanged : next.scan? name = some changed) : ∃ scan, session.scan? name = some scan := by
  have hname' := request?_of_scan? hchanged
  rcases (step?_transition hstep).request_of_call hname' with ⟨request, hname⟩
  cases request with
  | scan scan => exact ⟨scan, scan?_of_request? hname⟩
  | lookup lookup =>
    rcases (step?_transition hstep).becomes hname id with ⟨found, hfound, hbecomes⟩
    rcases hbecomes.lookup with ⟨after, rfl, -⟩
    cases hfound.symm.trans hname'

/-- A scan that is made has no batch size, or the filter and the batch size of its source. -/
theorem Constructs.batch_cases {construction : Construction} {pool : Pool}
    (hmade : session.Constructs construction (.request (.scan scan)) pool) :
    scan.batch = unset ∨ ∃ name source, session.scan? name = some source ∧
      scan.filter? = source.filter? ∧ scan.batch = source.batch := by
  cases hmade with
  | scan => exact Or.inl rfl
  | lift => exact Or.inl rfl
  | copy hscan => exact Or.inr ⟨_, _, hscan, Option.map_id', rfl⟩

/-- A step that leaves the filters gives no batch size to a scan whose filter needs whole rows. -/
theorem unbatched_step (h : session.Unbatched) (hsound : session.Sound)
    (hstep : session.step? step = some (next, outcome))
    (hleaves : session.LeavesFilters step next) : next.Unbatched := by
  intro name scan hscan
  by_cases htarget : name = step.target
  · subst htarget
    cases step with
    | make target construction =>
      rcases constructs_of_step? hsound hstep with ⟨object, pool, hmade, rfl⟩
      have hobject : some object = some (.request (.scan scan)) :=
        ((get?_bind _ _ _ _).trans (if_pos rfl)).symm.trans (scan?_eq_some.1 hscan)
      cases hobject
      rcases hmade.batch_cases with hunset | ⟨other, source, hsource, hfilter, hbatch⟩
      · intro id hid hneeds
        exact hunset
      · have hkept := hleaves.unbatched (h other source hsource) (hsound.scan hsource).filter
        intro id hid hneeds
        rw [hbatch]
        exact hkept id (hfilter ▸ hid) hneeds
    | call target call =>
      rcases scan_of_call hstep hscan with ⟨before, hbefore⟩
      have hcall : ∀ filterName?, call ≠ .useFilter filterName? := by
        rintro filterName? rfl
        exact hleaves.scans target before filterName? hbefore rfl
      rcases unbatched_of_call hbefore hcall hstep hscan (h target before hbefore) with
        ⟨hfilter, hunbatched⟩
      refine hleaves.unbatched hunbatched ?_
      rw [hfilter]
      exact (hsound.scan hbefore).filter
  · have hbefore := scan?_eq_some.1 hscan
    rw [(step?_transition hstep).get?_of_ne htarget, ← scan?_eq_some] at hbefore
    exact hleaves.unbatched (h name scan hbefore) (hsound.scan hbefore).filter

/-- And so does a run. -/
theorem unbatched_run (h : session.Unbatched) (hsound : session.Sound)
    (hrun : session.run? steps = some (last, outcomes)) (hstay : session.FiltersStay steps) :
    last.Unbatched := by
  induction steps generalizing session outcomes with
  | nil =>
    cases hrun
    exact h
  | cons step rest ih =>
    rcases run?_cons_eq_some.1 hrun with ⟨next, outcome, later, hstep, hrest, rfl⟩
    rcases hstay next outcome hstep with ⟨hleaves, hlater⟩
    exact ih (unbatched_step h hsound hstep hleaves) (hsound.step hstep) hrest hlater

/-- **A batch size stays as it was accepted, and keeps clear of filters that need whole rows as long
as these stay.** Along a run that gives no scan another filter and no filter another flag, no scan
whose filter needs whole rows has a batch size. After any run whatsoever the batch size of a scan is
the last one that the scan accepted, or that the scan it was copied from did, and it is unset if
there is none; no step but one that gives the scan a batch size, or makes it anew, changes it. -/
theorem batch_stays (hrun : initial.run? steps = some (last, outcomes)) :
    (initial.FiltersStay steps → ∀ name scan id, last.scan? name = some scan →
      scan.filter? = some id → (last.pool.filter id).needsWholeRow = true → scan.batch = unset) ∧
    ∀ name scan, last.scan? name = some scan →
      scan.batch = (batchLedger.after (fun _ => []) steps outcomes name).head?.getD unset ∧
      ∀ step next outcome changed, last.step? step = some (next, outcome) → ¬ step.Rebinds name →
        (∀ size, step ≠ .call name (.setScan (.batch size))) →
        next.scan? name = some changed → changed.batch = scan.batch := by
  constructor
  · intro hstay name scan id hscan
    have hempty : initial.Unbatched := by
      intro name scan hscan
      cases hscan
    exact unbatched_run hempty sound_initial hrun hstay name scan hscan id
  · intro name scan hscan
    have hname := request?_eq_some.2 (scan?_eq_some.1 hscan)
    refine ⟨batchLedger_follows.kept_run_initial hrun name _ hname, ?_⟩
    intro step next outcome changed hstep hkeeps hcall hchanged
    exact batch_kept hscan hstep hkeeps hcall hchanged

/-- A lookup gets a filter that needs whole rows and is lifted, and the scan is refused a batch size.
Another scan takes one, so does its copy, and both keep it when the filter of the copy needs whole
rows from then on. -/
theorem batch_stays_beside_filter :
    let fixed : List Step := [.make "rows" (.filter { name := "Rows", wholeRow? := some true }),
      .make "lookup" (.lookup [114]), .call "lookup" (.useFilter (some "rows")),
      .make "lifted" (.lift "lookup"), .call "lifted" (.setScan (.batch 5))]
    let steps : List Step := fixed ++ [.make "scan" .scan, .call "scan" (.setScan (.batch 6)),
      .make "copy" (.copy "scan"), .call "copy" (.useFilter (some "rows")),
      .call "copy" (.setScan (.batch 7))]
    (∃ last outcomes lifted id, initial.run? fixed = some (last, outcomes) ∧
      initial.FiltersStay fixed ∧ last.scan? "lifted" = some lifted ∧ lifted.filter? = some id ∧
      (last.pool.filter id).needsWholeRow = true ∧ lifted.batch = unset) ∧
    ∃ last outcomes copy id, initial.run? steps = some (last, outcomes) ∧
      last.scan? "copy" = some copy ∧ copy.filter? = some id ∧
      (last.pool.filter id).needsWholeRow = true ∧ copy.batch = 6 := by
  intro fixed steps
  constructor
  · have hrun : initial.run? fixed = some (_, _) := rfl
    have hstay : initial.FiltersStay fixed := by
      refine filtersStay_cons rfl (by simp) (by simp) ?_
      refine filtersStay_cons rfl (by simp) (by simp) ?_
      refine filtersStay_cons rfl (by simp) ?_ ?_
      · intro target filterName? heq
        cases heq
        rfl
      · refine filtersStay_cons rfl (by simp) (by simp) ?_
        exact filtersStay_cons rfl (by simp) (by simp) trivial
    exact ⟨_, _, _, _, hrun, hstay, rfl, rfl, rfl, (batch_stays hrun).1 hstay "lifted" _ _ rfl rfl rfl⟩
  · have hrun : initial.run? steps = some (_, _) := rfl
    exact ⟨_, _, _, _, hrun, rfl, rfl, rfl, ((batch_stays hrun).2 "copy" _ rfl).1⟩

end Session

end ReadPlan
