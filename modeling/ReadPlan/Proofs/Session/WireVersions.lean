import ReadPlan.Proofs.Session.RequestHistory

/-!
# ReadPlan.Proofs.Session.WireVersions — the oldest version that carries what was given

The version in which a scan is sent is decided by the history of the scan, and it is the least one
that carries all of it (`WireVersion.Oldest`). This holds after every run, so the version moves
only with the limits, the size and the attributes that the scan itself is given
(`Session.wireVersion_oldest`).
-/

namespace ReadPlan

/-! ## What a history asks of a version -/

namespace History

/-- The last limit or the last offset is set. -/
def Paginates (history : History) : Prop :=
  history.limit ≠ unset ∨ history.offset ≠ 0

/-- The last bound on the size of a result is set. -/
def BoundsResults (history : History) : Prop :=
  history.resultSize ≠ unset

/-- Some attribute is live. -/
def HasLive (history : History) : Prop :=
  ∃ name, history.Live name

variable {history : History} {name : String} {value : Bytes}

theorem HasLive.store (h : history.HasLive) :
    HasLive (.write name (some value) :: history) := by
  rcases h with ⟨other, found, hfound⟩
  by_cases heq : other = name
  · exact ⟨name, value, by rw [attribute?_cons, if_pos rfl]⟩
  · exact ⟨other, found, by rw [attribute?_cons, if_neg heq, hfound]⟩

theorem HasLive.of_remove (h : HasLive (.write name none :: history)) : history.HasLive := by
  rcases h with ⟨other, found, hfound⟩
  rw [attribute?_cons] at hfound
  by_cases heq : other = name
  · rw [if_pos heq] at hfound
    cases hfound
  · rw [if_neg heq] at hfound
    exact ⟨other, found, hfound⟩

end History

namespace WireVersion

/-- The version has the fields for all that was given. -/
structure Carries (version : WireVersion) (history : History) : Prop where
  pagination : history.Paginates → pagination ≤ version
  resultSize : history.BoundsResults → resultSize ≤ version
  attributes : history.HasLive → attributes ≤ version

/-- The version has the fields for what was given and no others, and is the least one that has
them. -/
structure Oldest (version : WireVersion) (history : History) : Prop where
  pagination : pagination ≤ version ↔ history.Paginates
  resultSize : resultSize ≤ version ↔ history.Paginates ∨ history.BoundsResults
  attributes :
    attributes ≤ version ↔ history.Paginates ∨ history.BoundsResults ∨ history.HasLive
  least : ∀ other : WireVersion, other.Carries history → version ≤ other

variable {version other : WireVersion} {history : History}

theorem base_le (version : WireVersion) : base ≤ version := by
  cases version <;> decide

theorem le_antisymm (h : version ≤ other) (h' : other ≤ version) : version = other := by
  have hnumber : version.number = other.number := Nat.le_antisymm h h'
  revert hnumber
  cases version <;> cases other <;> decide

theorem Oldest.carries (h : version.Oldest history) : version.Carries history where
  pagination := h.pagination.2
  resultSize := fun hsize => h.resultSize.2 (.inr hsize)
  attributes := fun hlive => h.attributes.2 (.inr (.inr hlive))

/-- A history has one oldest version. -/
theorem Oldest.unique (h : version.Oldest history) (h' : other.Oldest history) :
    version = other :=
  le_antisymm (h.least other h'.carries) (h'.least version h.carries)

/-- Storing an attribute asks no less of a version. -/
theorem Carries.of_store {name : String} {value : Bytes}
    (h : version.Carries (.write name (some value) :: history)) : version.Carries history where
  pagination := h.pagination
  resultSize := h.resultSize
  attributes := fun hlive => h.attributes hlive.store

/-- Removing an attribute asks no more of a version. -/
theorem Carries.remove {name : String} (h : version.Carries history) :
    version.Carries (.write name none :: history) where
  pagination := h.pagination
  resultSize := h.resultSize
  attributes := fun hlive => h.attributes hlive.of_remove

end WireVersion

/-! ## The version of a scan -/

/-- There is an entry just if something stands under some key. -/
theorem OrderedMap.size_ne_zero_iff {κ ν : Type} [DecidableEq κ] {map : OrderedMap κ ν} :
    map.size ≠ 0 ↔ ∃ key value, map.get? key = some value := by
  constructor
  · intro h
    have hpos : 0 < map.entries.length := Nat.pos_of_ne_zero h
    rcases List.exists_mem_of_length_pos hpos with ⟨⟨key, value⟩, hentry⟩
    exact ⟨key, value, get?_of_mem hentry⟩
  · rintro ⟨key, value, h⟩
    exact Nat.ne_of_gt (List.length_pos_of_mem (mem_of_get? h))

/-- The version in which a scan is sent is the oldest one for what the scan was given. -/
theorem Scan.oldest_wireVersion {μ φ : Type} {scan : Scan μ φ} {history : History}
    (h : (Request.scan scan).Records history) : scan.wireVersion.Oldest history := by
  have hpages : scan.cellLimit ≠ unset ∨ scan.cellOffset ≠ 0 ↔ history.Paginates := by
    rw [History.Paginates, ← h.criteria.limit, ← h.criteria.offset]
    rfl
  have hbounds : scan.maxResultSize ≠ unset ↔ history.BoundsResults := by
    rw [History.BoundsResults, ← h.resultSize]
    rfl
  have hlive : scan.attributes.size ≠ 0 ↔ history.HasLive := by
    rw [OrderedMap.size_ne_zero_iff]
    constructor
    · rintro ⟨name, value, hvalue⟩
      exact ⟨name, value, (h.criteria.attributes name).symm.trans hvalue⟩
    · rintro ⟨name, value, hvalue⟩
      exact ⟨name, value, (h.criteria.attributes name).trans hvalue⟩
  by_cases hp : history.Paginates
  · rw [Scan.wireVersion, if_pos (hpages.2 hp)]
    refine ⟨?_, ?_, ?_, fun other hother => hother.pagination hp⟩
    · exact iff_of_true (by decide) hp
    · exact iff_of_true (by decide) (.inl hp)
    · exact iff_of_true (by decide) (.inl hp)
  by_cases hb : history.BoundsResults
  · rw [Scan.wireVersion, if_neg (mt hpages.1 hp), if_pos (hbounds.2 hb)]
    refine ⟨?_, ?_, ?_, fun other hother => hother.resultSize hb⟩
    · exact iff_of_false (by decide) hp
    · exact iff_of_true (by decide) (.inr hb)
    · exact iff_of_true (by decide) (.inr (.inl hb))
  by_cases hl : history.HasLive
  · rw [Scan.wireVersion, if_neg (mt hpages.1 hp), if_neg (mt hbounds.1 hb), if_pos (hlive.2 hl)]
    refine ⟨?_, ?_, ?_, fun other hother => hother.attributes hl⟩
    · exact iff_of_false (by decide) hp
    · exact iff_of_false (by decide) (not_or_intro hp hb)
    · exact iff_of_true (by decide) (.inr (.inr hl))
  · rw [Scan.wireVersion, if_neg (mt hpages.1 hp), if_neg (mt hbounds.1 hb),
      if_neg (mt hlive.1 hl)]
    refine ⟨?_, ?_, ?_, fun other _ => other.base_le⟩
    · exact iff_of_false (by decide) hp
    · exact iff_of_false (by decide) (not_or_intro hp hb)
    · exact iff_of_false (by decide) (not_or_intro hp (not_or_intro hb hl))

/-! ## The version after a run -/

/-- The value that a step gives. -/
def Step.gives : Step → Option Given
  | .make .. => none
  | .call _ made => made.gives

namespace Session

/-- What one step may do to the version of the scan under a name. -/
structure Moves (name : String) (step : Step) (before after : WireVersion) : Prop where
  /-- Steps on other names and calls that give no value leave it as it is. -/
  still : step.target ≠ name ∨ step.gives = none → after = before
  /-- Storing an attribute never lowers it. -/
  store : ∀ attributeName value,
    step.gives = some (.write attributeName (some value)) → before ≤ after
  /-- Removing an attribute never raises it. -/
  remove : ∀ attributeName, step.gives = some (.write attributeName none) → after ≤ before

variable {last next : Session} {steps : List Step} {outcomes : List (Outcome Answer)}
  {name : String} {scan : Scan MapId FilterId} {step : Step} {outcome : Outcome Answer}

/-- A scan that no step makes anew stays a scan. -/
theorem scan?_of_step? (hscan : last.scan? name = some scan)
    (hstep : last.step? step = some (next, outcome)) (hkeeps : ¬ step.Rebinds name) :
    ∃ after, next.scan? name = some after := by
  have hrequest := request?_of_scan? hscan
  rcases (step?_transition hstep).becomes hrequest hkeeps with ⟨changed, hchanged, hbecomes⟩
  rcases hbecomes.scan with ⟨after, rfl, -⟩
  exact ⟨after, scan?_of_request? hchanged⟩

/-- After a run the version of a scan is the oldest one for its history. -/
theorem oldest_of_run (hrun : initial.run? steps = some (last, outcomes))
    (hscan : last.scan? name = some scan) : scan.wireVersion.Oldest (histories steps name) :=
  Scan.oldest_wireVersion (run?_told hrun name _ (request?_of_scan? hscan))

/-- The versions before and after a step, by the histories before and after. -/
theorem moves_of_oldest {before after : WireVersion} {histories : String → History}
    (hbefore : before.Oldest (histories name))
    (hafter : after.Oldest (step.tells histories name)) (hkeeps : ¬ step.Rebinds name) :
    Moves name step before after := by
  by_cases htarget : step.target = name
  · subst htarget
    cases step with
    | make target construction => exact absurd rfl hkeeps
    | call target made =>
      have hafter : after.Oldest ((histories target).add made.gives) :=
        Step.tells_call made ▸ hafter
      refine ⟨?_, ?_, ?_⟩
      · rintro (hother | hgives)
        · exact absurd rfl hother
        · have hgives : made.gives = none := hgives
          rw [hgives] at hafter
          exact hafter.unique hbefore
      · intro attributeName value hgives
        have hgives : made.gives = _ := hgives
        rw [hgives] at hafter
        exact hbefore.least after hafter.carries.of_store
      · intro attributeName hgives
        have hgives : made.gives = _ := hgives
        rw [hgives] at hafter
        exact hafter.least before hbefore.carries.remove
  · rw [Step.tells_of_ne (Ne.symm htarget)] at hafter
    have hsame : after = before := hafter.unique hbefore
    exact ⟨fun _ => hsame, fun _ _ _ => hsame ▸ Nat.le_refl _, fun _ _ => hsame ▸ Nat.le_refl _⟩

/-- **The wire version is the oldest sufficient one after every run.** A scan answers with the least
version that carries what it was given: pagination just if its last limit or offset is set, result
sizes just if that or its last bound on them is, attributes just if any of these or an attribute is
live. So a further step moves the version only as far as it gives the scan itself a value. -/
theorem wireVersion_oldest (hrun : initial.run? steps = some (last, outcomes))
    (hscan : last.scan? name = some scan) :
    last.step? (.call name (.askScan .wireVersion)) =
        some (last, .ok (.wireVersion scan.wireVersion)) ∧
      scan.wireVersion.Oldest (histories steps name) ∧
      ∀ step next outcome, last.step? step = some (next, outcome) → ¬ step.Rebinds name →
        ∃ after, next.scan? name = some after ∧
          Moves name step scan.wireVersion after.wireVersion := by
  have hbefore := oldest_of_run hrun hscan
  refine ⟨step?_askScan hscan .wireVersion, hbefore, ?_⟩
  · intro step next outcome hstep hkeeps
    rcases scan?_of_step? hscan hstep hkeeps with ⟨after, hafter⟩
    refine ⟨after, hafter, moves_of_oldest hbefore ?_ hkeeps⟩
    rw [← histories_concat]
    exact oldest_of_run (run?_append hrun (run?_cons_eq_some.2
      ⟨next, outcome, [], hstep, rfl, rfl⟩)) hafter

/-- A lookup with a limit is lifted and the limit of the scan taken back; then the scan gets an id,
is copied and loses the id. The copy still has it, until it is removed there too. -/
theorem wireVersion_oldest_through_copy :
    let steps : List Step := [.make "lookup" (.lookup [114]),
      .call "lookup" (.set (.cellLimit 7)), .make "scan" (.lift "lookup"),
      .call "scan" (.set (.cellLimit unset)), .call "scan" (.set (.operationId "id")),
      .make "copy" (.copy "scan"), .call "scan" (.set (.attribute Attributes.idName none))]
    let removal : Step := .call "copy" (.set (.attribute Attributes.idName none))
    ∃ last outcomes copy, initial.run? steps = some (last, outcomes) ∧
      last.scan? "copy" = some copy ∧ copy.wireVersion = .attributes ∧
      ¬ (histories steps "copy").Paginates ∧ (histories steps "copy").HasLive ∧
      copy.wireVersion.Oldest (histories steps "copy") ∧
      ∃ next outcome after, last.step? removal = some (next, outcome) ∧
        next.scan? "copy" = some after ∧ after.wireVersion ≤ copy.wireVersion := by
  intro steps removal
  obtain ⟨last, outcomes, copy, hrun, hcopy, hversion, next, outcome, hstep⟩ :
      ∃ last outcomes copy, initial.run? steps = some (last, outcomes) ∧
        last.scan? "copy" = some copy ∧ copy.wireVersion = .attributes ∧
        ∃ next outcome, last.step? removal = some (next, outcome) :=
    ⟨_, _, _, rfl, rfl, rfl, _, _, rfl⟩
  have hpages : ¬ (histories steps "copy").Paginates :=
    not_or_intro (by decide) (by decide)
  have hlive : (histories steps "copy").HasLive := ⟨Attributes.idName, Utf8.encode "id", rfl⟩
  rcases wireVersion_oldest hrun hcopy with ⟨-, holdest, hmoves⟩
  rcases hmoves removal next outcome hstep id with ⟨after, hafter, hmove⟩
  exact ⟨last, outcomes, copy, hrun, hcopy, hversion, hpages, hlive, holdest, next, outcome, after,
    hstep, hafter, hmove.remove _ rfl⟩

end Session

end ReadPlan
