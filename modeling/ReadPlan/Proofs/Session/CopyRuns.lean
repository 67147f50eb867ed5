import ReadPlan.Proofs.Session.Sound

/-!
# ReadPlan.Proofs.Session.CopyRuns — a scan and its copy under the same calls

The same calls are made on a scan and, from the same session, on a copy of it. The two runs stay
twins (`Session.Twins`): all settings are equal, and the selections differ at most in the families
that had no columns when the copy was made and that no call has named since. So every mutator has
the same outcome, and if no family was without columns the two cannot be told apart at all.
-/

namespace ReadPlan

/-- The two scans differ at most in the families that they hold. -/
def Scan.SameSettings {μ φ : Type} (original copy : Scan μ φ) : Prop :=
  copy = { original with families := copy.families }

/-- The family that a call names. -/
def Call.family? : Call → Option Bytes
  | .select selector => some selector.family
  | _ => none

/-- The call asks and changes nothing. -/
def Call.IsQuestion : Call → Prop
  | .ask _ | .askScan _ | .compare .. => True
  | _ => False

namespace Session

/-- The calls that a scan takes without a family map or another request: every mutator but the one
that gives it a family map, and every question about itself. -/
def AdmitsOnScan (session : Session) : Call → Prop
  | .select _ | .set _ | .setScan _ | .ask _ | .askScan _ => True
  | .useFilter name? => ∃ filter?, session.filterOrNone? name? = some filter?
  | .useMap _ | .setWholeRow _ | .compare .. => False

/-- A session with a scan beside one with its copy, after the same calls. -/
structure Twins (start : Session) (name copyName : String) (pending : Bytes → Prop)
    (s₁ s₂ : Session) : Prop where
  sound₁ : s₁.Sound
  sound₂ : s₂.Sound
  filters : s₁.pool.filters = s₂.pool.filters
  known₁ : s₁.filter? = start.filter?
  known₂ : s₂.filter? = start.filter?
  scans : ∃ original families, s₁.scan? name = some original ∧
    s₂.scan? copyName = some (original.map (fun _ => families) id) ∧
    Selection.Tracks pending (s₁.pool.contents original.families) (s₂.pool.contents families)

/-- Twins take a call both and stay twins, and what comes out is the same unless the call asks and a
family is pending. -/
def TwinStep (start : Session) (name copyName : String) (pending : Bytes → Prop)
    (s₁ s₂ : Session) (call : Call) : Prop :=
  ∃ t₁ o₁ t₂ o₂, s₁.step? (.call name call) = some (t₁, o₁) ∧
    s₂.step? (.call copyName call) = some (t₂, o₂) ∧
    Twins start name copyName (fun family => pending family ∧ call.family? ≠ some family) t₁ t₂ ∧
    (¬ call.IsQuestion → o₁ = o₂) ∧ ((∀ family, ¬ pending family) → o₁ = o₂)

namespace Twins

variable {start s₁ s₂ : Session} {name copyName : String} {pending : Bytes → Prop}

theorem filter_eq (h : Twins start name copyName pending s₁ s₂) :
    s₁.pool.filter = s₂.pool.filter := by
  funext id
  rw [Pool.filter, h.filters]
  rfl

/-- A call that names no family leaves the pending families as they are. -/
theorem of_unnamed (h : Twins start name copyName pending s₁ s₂) {call : Call}
    (hcall : call.family? = none) :
    Twins start name copyName (fun family => pending family ∧ call.family? ≠ some family)
      s₁ s₂ := by
  have hpending : (fun family => pending family ∧ call.family? ≠ some family) = pending := by
    funext family
    simp [hcall]
  rw [hpending]
  exact h

theorem select (h : Twins start name copyName pending s₁ s₂) (selector : Selector) :
    TwinStep start name copyName pending s₁ s₂ (.select selector) := by
  rcases h.scans with ⟨original, families, horiginal, hcopy, htracks⟩
  have hobject₁ := scan?_eq_some.1 horiginal
  have hobject₂ := scan?_eq_some.1 hcopy
  have hstep₁ := step?_call_request hobject₁ (.select selector)
  have hstep₂ := step?_call_request hobject₂ (.select selector)
  have hselects₁ := s₁.pool.selects original.families selector
  have hselects₂ := s₂.pool.selects families selector
  refine ⟨_, _, _, _, hstep₁, hstep₂, ?_, fun _ => rfl, fun _ => rfl⟩
  refine ⟨h.sound₁.step hstep₁, h.sound₂.step hstep₂, ?_, h.known₁, h.known₂,
    original, families, horiginal, hcopy, ?_⟩
  · exact (hselects₁.filters_eq.trans h.filters).trans hselects₂.filters_eq.symm
  · show Selection.Tracks _ ((s₁.pool.select original.families selector).contents original.families)
      ((s₂.pool.select families selector).contents families)
    rw [hselects₁.contents_self h.sound₁.pool (h.sound₁.scan horiginal).map,
      hselects₂.contents_self h.sound₂.pool (h.sound₂.scan hcopy).map]
    have hpending : (fun family => pending family ∧ (Call.select selector).family? ≠ some family) =
        fun family => pending family ∧ family ≠ selector.family := by
      funext family
      simp [Call.family?, eq_comm]
    rw [hpending]
    exact htracks.select selector

/-- A call that changes settings, the same on the copy as on the original. -/
theorem change (h : Twins start name copyName pending s₁ s₂) {call : Call}
    (hcall : call.family? = none) {original : Scan MapId FilterId} {families : MapId}
    (horiginal : s₁.scan? name = some original)
    (hcopy : s₂.scan? copyName = some (original.map (fun _ => families) id))
    (htracks : Selection.Tracks pending (s₁.pool.contents original.families)
      (s₂.pool.contents families))
    (outcome : Outcome (Scan MapId FilterId))
    (hkeeps : ∀ changed log, outcome = ⟨.ok changed, log⟩ → changed.families = original.families)
    (hcall₁ : s₁.callRequest? name (.scan original) call =
      some (outcome >>= fun changed => pure (s₁.bind name (.request (.scan changed)), .itself)))
    (hcall₂ : s₂.callRequest? copyName (.scan (original.map (fun _ => families) id)) call =
      some ((Scan.map (fun _ => families) id <$> outcome) >>= fun changed =>
        pure (s₂.bind copyName (.request (.scan changed)), .itself))) :
    TwinStep start name copyName pending s₁ s₂ call := by
  have hstep₁ := step?_call_request (scan?_eq_some.1 horiginal) call
  have hstep₂ := step?_call_request (scan?_eq_some.1 hcopy) call
  rw [hcall₁] at hstep₁
  rw [hcall₂] at hstep₂
  rcases outcome with ⟨result, log⟩
  cases result with
  | error failure =>
    -- a call that is refused leaves both sessions as they were
    exact ⟨_, _, _, _, hstep₁, hstep₂, h.of_unnamed hcall, fun _ => rfl, fun _ => rfl⟩
  | ok changed =>
    have hfamilies := hkeeps changed log rfl
    have hrequest₁ := request?_of_scan? horiginal
    have hrequest₂ := request?_of_scan? hcopy
    have hnext : Twins start name copyName pending
        (s₁.bind name (.request (.scan changed)))
        (s₂.bind copyName (.request (.scan (changed.map (fun _ => families) id)))) := by
      refine ⟨h.sound₁.step hstep₁, h.sound₂.step hstep₂, h.filters, ?_, ?_,
        changed, families, ?_, ?_, ?_⟩
      · exact (filter?_bind_request hrequest₁ _).trans h.known₁
      · exact (filter?_bind_request hrequest₂ _).trans h.known₂
      · exact scan?_bind_self _ _ _
      · exact scan?_bind_self _ _ _
      · rw [hfamilies]
        exact htracks
    refine ⟨_, _, _, _, hstep₁, hstep₂, hnext.of_unnamed hcall, ?_, ?_⟩
    · intro _
      simp
    · intro _
      simp

/-- A question. Its answers may differ only if a family is pending. -/
theorem ask (h : Twins start name copyName pending s₁ s₂) {call : Call}
    (hcall : call.family? = none) (hquestion : call.IsQuestion)
    {request₁ request₂ : Request MapId FilterId}
    (hobject₁ : s₁.objects.get? name = some (.request request₁))
    (hobject₂ : s₂.objects.get? copyName = some (.request request₂))
    {answer₁ answer₂ : Except Failure Answer}
    (hanswer : (∀ family, ¬ pending family) → answer₁ = answer₂)
    (hcall₁ : s₁.callRequest? name request₁ call =
      some (.ofExcept (answer₁ >>= fun answer => return (s₁, answer))))
    (hcall₂ : s₂.callRequest? copyName request₂ call =
      some (.ofExcept (answer₂ >>= fun answer => return (s₂, answer)))) :
    TwinStep start name copyName pending s₁ s₂ call := by
  have hstep₁ := step?_call_request hobject₁ call
  have hstep₂ := step?_call_request hobject₂ call
  -- a question leaves both sessions as they were
  rw [hcall₁, Option.map_some, settle_ofExcept s₁ _ fun answer => answer] at hstep₁
  rw [hcall₂, Option.map_some, settle_ofExcept s₂ _ fun answer => answer] at hstep₂
  refine ⟨_, _, _, _, hstep₁, hstep₂, h.of_unnamed hcall, fun hno => absurd hquestion hno, ?_⟩
  intro hnone
  rw [hanswer hnone]

/-- Without pending families the two scans are the same by value. -/
theorem resolve_eq (h : Twins start name copyName pending s₁ s₂)
    (hnone : ∀ family, ¬ pending family) {original : Scan MapId FilterId} {families : MapId}
    (htracks : Selection.Tracks pending (s₁.pool.contents original.families)
      (s₂.pool.contents families)) :
    original.map s₁.pool.contents s₁.pool.filter =
      (original.map (fun _ => families) id).map s₂.pool.contents s₂.pool.filter := by
  simp [Scan.map, Scan.withCriteria, Criteria.map, h.filter_eq, htracks.eq hnone]

/-- Every call that a scan takes keeps twins twins. -/
theorem step (h : Twins start name copyName pending s₁ s₂) {call : Call}
    (hadmits : start.AdmitsOnScan call) : TwinStep start name copyName pending s₁ s₂ call := by
  rcases h.scans with ⟨original, families, horiginal, hcopy, htracks⟩
  have hobject₁ := scan?_eq_some.1 horiginal
  have hobject₂ := scan?_eq_some.1 hcopy
  cases call with
  | select selector => exact h.select selector
  | set setting =>
    -- a setting looks at neither families nor filter, so it does the same on both scans
    refine h.change rfl horiginal hcopy htracks (original.applyShared setting) ?_ ?_ ?_
    · intro changed log hset
      have hrequest : (Request.scan original).apply setting = ⟨.ok (.scan changed), log⟩ := by
        rw [Request.apply_scan, hset, Outcome.map_mk_ok]
      exact (Request.apply_keeps hrequest).1
    · rw [callRequest?, Request.apply_scan, Outcome.bind_map]
    · rw [callRequest?, Request.apply_scan, Outcome.bind_map, Scan.applyShared_map]
  | setScan setting =>
    refine h.change rfl horiginal hcopy htracks
      (original.apply (original.filter?.map s₁.pool.filter) setting) ?_ ?_ ?_
    · exact fun changed log hset => (Scan.apply_keeps hset).1
    · rfl
    · -- the batch size is the one setting that asks the filter, and both scans have the same
      have hfilter : (original.map (fun _ => families) id).filter?.map s₂.pool.filter =
          original.filter?.map s₁.pool.filter := by
        simp [Scan.map, Scan.withCriteria, Criteria.map, h.filter_eq]
      rw [callRequest?, hfilter, Scan.apply_map]
  | useFilter name? =>
    rcases hadmits with ⟨filter?, hfilter⟩
    have hfilter₁ : s₁.filterOrNone? name? = some filter? := by
      rw [filterOrNone?_congr h.known₁, hfilter]
    have hfilter₂ : s₂.filterOrNone? name? = some filter? := by
      rw [filterOrNone?_congr h.known₂, hfilter]
    refine h.change rfl horiginal hcopy htracks (.ok { original with filter? }) ?_ ?_ ?_
    · rintro changed log ⟨⟩
      rfl
    · rw [callRequest?, hfilter₁]
      rfl
    · rw [callRequest?, hfilter₂]
      simp [Scan.map, Scan.withCriteria, Criteria.map, Request.withCriteria, Request.criteria]
  | ask query =>
    refine h.ask rfl trivial hobject₁ hobject₂ ?_ rfl rfl
    intro hnone
    show (Request.scan (original.map _ _)).answer query =
      (Request.scan (Scan.map _ _ _)).answer query
    rw [h.resolve_eq hnone htracks]
  | askScan query =>
    refine h.ask rfl trivial hobject₁ hobject₂ ?_ rfl rfl
    intro hnone
    rw [h.resolve_eq hnone htracks]
  | useMap map => exact hadmits.elim
  | setWholeRow flag => exact hadmits.elim
  | compare other question => exact hadmits.elim

/-- So do runs of calls. -/
theorem run (h : Twins start name copyName pending s₁ s₂) {calls : List Call}
    (hadmits : ∀ call ∈ calls, start.AdmitsOnScan call) :
    ∃ t₁ o₁ t₂ o₂, s₁.run? (calls.map (.call name)) = some (t₁, o₁) ∧
      s₂.run? (calls.map (.call copyName)) = some (t₂, o₂) ∧
      Twins start name copyName
        (fun family => pending family ∧ ∀ call ∈ calls, call.family? ≠ some family) t₁ t₂ ∧
      (∀ (i : Nat) (call : Call), calls[i]? = some call → ¬ call.IsQuestion →
        ∃ outcome, o₁[i]? = some outcome ∧ o₂[i]? = some outcome) ∧
      ((∀ family, ¬ pending family) → o₁ = o₂) := by
  induction calls generalizing pending s₁ s₂ with
  | nil =>
    refine ⟨s₁, [], s₂, [], rfl, rfl, ?_, fun i call hcall => by simp at hcall, fun _ => rfl⟩
    simpa using h
  | cons call rest ih =>
    rcases h.step (hadmits call List.mem_cons_self) with
      ⟨u₁, p₁, u₂, p₂, hstep₁, hstep₂, hnext, hsame, hall⟩
    rcases ih hnext fun c hc => hadmits c (List.mem_cons_of_mem _ hc) with
      ⟨t₁, o₁, t₂, o₂, hrun₁, hrun₂, hlast, hrest, hrestAll⟩
    -- what is pending in the end is what neither the first call nor a later one names
    refine ⟨t₁, p₁ :: o₁, t₂, p₂ :: o₂, run?_cons_eq_some.2 ⟨u₁, p₁, o₁, hstep₁, hrun₁, rfl⟩,
      run?_cons_eq_some.2 ⟨u₂, p₂, o₂, hstep₂, hrun₂, rfl⟩, ?_, ?_, ?_⟩
    · have hpending : (fun family => (pending family ∧ call.family? ≠ some family) ∧
            ∀ c ∈ rest, c.family? ≠ some family) =
          fun family => pending family ∧ ∀ c ∈ call :: rest, c.family? ≠ some family := by
        funext family
        rw [List.forall_mem_cons, and_assoc]
      rw [← hpending]
      exact hlast
    · intro i c hc hmutates
      cases i with
      | zero =>
        cases hc
        exact ⟨p₁, rfl, by rw [hsame hmutates]; rfl⟩
      | succ i => exact hrest i c hc hmutates
    · intro hnone
      rw [hall hnone, hrestAll fun family hpending => hnone family hpending.1]

end Twins

/-- At first a scan and its copy are twins. -/
theorem twins_afterCopy {session : Session} (hsound : session.Sound) {name copyName : String}
    {scan : Scan MapId FilterId} (hscan : session.scan? name = some scan) (hne : copyName ≠ name) :
    Twins (session.afterCopy copyName scan) name copyName
      (fun family => (session.pool.contents scan.families).get? family = some (.only ∅))
      (session.afterCopy copyName scan) (session.afterCopy copyName scan) := by
  have hheld := hsound.scan hscan
  have hstep := step?_copy hscan hheld.window copyName
  have hsound' := hsound.step hstep
  refine ⟨hsound', hsound', rfl, rfl, rfl, scan,
    (session.pool.newMap (session.pool.contents scan.families).rebuild).1, ?_, ?_, ?_⟩
  · rw [scan?_eq_some, afterCopy, get?_bind_of_ne hne.symm]
    exact scan?_eq_some.1 hscan
  · exact scan?_bind_self _ _ _
  · -- making the map of the copy leaves the contents of the other alone
    have hgrows := session.pool.grows_newMap (session.pool.contents scan.families).rebuild
    show Selection.Tracks _ ((session.pool.newMap _).2.contents scan.families)
      ((session.pool.newMap _).2.contents _)
    rw [hgrows.contents_eq hsound.pool hheld.map, Pool.contents_newMap]
    exact Selection.tracks_rebuild _

/-- **A copy is indistinguishable from its original.** Copying a scan always succeeds. Afterwards
the same calls can be made on the scan and on its copy, and however many there were, every mutator
had the same outcome in both runs and all settings and filters are equal. The selections are equal
too, but for the families that had no columns when the copy was made and that no call has named
since: these have no columns in the original and are whole in the copy. If there was no such family,
every question had the same outcome as well and the two are the same by value. -/
theorem copy_indistinguishable {session : Session} (hreach : Reachable session)
    {name copyName : String} {scan : Scan MapId FilterId} (hscan : session.scan? name = some scan)
    (hne : copyName ≠ name) :
    ∃ start, session.step? (.make copyName (.copy name)) = some (start, .ok .created) ∧
      ∀ calls : List Call, (∀ call ∈ calls, start.AdmitsOnScan call) →
        ∃ last₁ outcomes₁ last₂ outcomes₂ original copy,
          start.run? (calls.map (.call name)) = some (last₁, outcomes₁) ∧
          start.run? (calls.map (.call copyName)) = some (last₂, outcomes₂) ∧
          (∀ (i : Nat) (call : Call), calls[i]? = some call → ¬ call.IsQuestion →
            ∃ outcome, outcomes₁[i]? = some outcome ∧ outcomes₂[i]? = some outcome) ∧
          last₁.scan? name = some original ∧ last₂.scan? copyName = some copy ∧
          original.SameSettings copy ∧ original.wireVersion = copy.wireVersion ∧
          (original.IsPointLookup ↔ copy.IsPointLookup) ∧
          last₁.pool.filters = last₂.pool.filters ∧
          Selection.Tracks
            (fun family => (session.pool.contents scan.families).get? family = some (.only ∅) ∧
              ∀ call ∈ calls, call.family? ≠ some family)
            (last₁.pool.contents original.families) (last₂.pool.contents copy.families) ∧
          ((∀ family, (session.pool.contents scan.families).get? family ≠ some (.only ∅)) →
            outcomes₁ = outcomes₂ ∧ last₁.snapshot? name = last₂.snapshot? copyName) := by
  have hsound := hreach.sound
  -- a copy checks the window again, and in a reachable session it is always valid
  refine ⟨_, step?_copy hscan (hsound.scan hscan).window copyName, ?_⟩
  intro calls hadmits
  rcases (twins_afterCopy hsound hscan hne).run hadmits with
    ⟨last₁, outcomes₁, last₂, outcomes₂, hrun₁, hrun₂, htwins, hsame, hall⟩
  rcases htwins.scans with ⟨original, families, horiginal, hcopy, htracks⟩
  refine ⟨last₁, outcomes₁, last₂, outcomes₂, original, original.map (fun _ => families) id,
    hrun₁, hrun₂, hsame, horiginal, hcopy, ?_, rfl, Iff.rfl, htwins.filters, htracks, ?_⟩
  · simp [Scan.SameSettings, Scan.map, Scan.withCriteria, Criteria.map]
  · intro hnone
    refine ⟨hall hnone, ?_⟩
    rw [snapshot?, snapshot?, scan?_eq_some.1 horiginal, scan?_eq_some.1 hcopy]
    have hvalue := htwins.resolve_eq (fun family hpending => hnone family hpending.1) htracks
    exact congrArg (fun s => some (Snapshot.request (.scan s))) hvalue

/-- A scan that names a family and none of its columns, beside its copy. -/
theorem copy_indistinguishable_without_columns :
    let session := after [.make "scan" .scan, .call "scan" (.select (.column [102] none))]
    session.scan? "scan" = some { families := ⟨0⟩ } ∧
      (session.pool.contents ⟨0⟩).get? [102] = some (.only ∅) ∧
      ∃ start, session.step? (.make "copy" (.copy "scan")) = some (start, .ok .created) ∧
        ∀ calls : List Call, (∀ call ∈ calls, start.AdmitsOnScan call) →
          ∃ last₁ outcomes₁ last₂ outcomes₂,
            start.run? (calls.map (.call "scan")) = some (last₁, outcomes₁) ∧
            start.run? (calls.map (.call "copy")) = some (last₂, outcomes₂) ∧
            ∀ (i : Nat) (call : Call), calls[i]? = some call → ¬ call.IsQuestion →
              ∃ outcome, outcomes₁[i]? = some outcome ∧ outcomes₂[i]? = some outcome := by
  intro session
  have hscan : session.scan? "scan" = some { families := ⟨0⟩ } := rfl
  rcases copy_indistinguishable (reachable_after _) hscan (by decide : "copy" ≠ "scan") with
    ⟨start, hstep, hcalls⟩
  refine ⟨hscan, rfl, start, hstep, ?_⟩
  intro calls hadmits
  rcases hcalls calls hadmits with
    ⟨last₁, outcomes₁, last₂, outcomes₂, -, -, hrun₁, hrun₂, hsame, -⟩
  exact ⟨last₁, outcomes₁, last₂, outcomes₂, hrun₁, hrun₂, hsame⟩

end Session

end ReadPlan
