import ReadPlan.Proofs.Selection.History
import ReadPlan.Proofs.Session.CopyIsolation

/-!
# ReadPlan.Proofs.Session.SelectionHistory — a family map is decided by the selectors that reach it

A family map may be reached through scans, lookups and maps under many names, and the names may
change while a session runs. What it selects is decided by the selectors that reached it since it
was empty, in their order and whatever their way (`Session.contents_decided`), provided that no
other map was ever made of its sets.
-/

namespace ReadPlan

namespace Session

variable {session next last : Session} {id : MapId} {step : Step}

/-! ## Which selectors reach a map -/

/-- The selector with which a step reaches a family map. -/
def reaching? (session : Session) (id : MapId) : Step → Option Selector
  | .call name (.select selector) =>
    if session.mapOf? name = some id then some selector else none
  | _ => none

/-- The selectors that reach a family map in a run, in their order. -/
def reachings (session : Session) (id : MapId) : List Step → List Selector
  | [] => []
  | step :: rest =>
    (session.reaching? id step).toList ++
      ((session.step? step).map fun after => after.1.reachings id rest).getD []

theorem reachings_cons {outcome : Outcome Answer}
    (hstep : session.step? step = some (next, outcome)) (rest : List Step) :
    session.reachings id (step :: rest) =
      (session.reaching? id step).toList ++ next.reachings id rest := by
  rw [reachings, hstep]
  rfl

/-- The step makes another map of the sets of this one. -/
def Shares (session : Session) (id : MapId) (step : Step) : Prop :=
  ∃ name map, step = .make name (.shareSets map) ∧ session.map? map = some id

/-- At no time does a run make another map of the sets of this one. -/
def NeverShares (session : Session) (id : MapId) (steps : List Step) : Prop :=
  ∀ before step after middle outcomes, steps = before ++ step :: after →
    session.run? before = some (middle, outcomes) → ¬ middle.Shares id step

namespace NeverShares

variable {rest : List Step}

theorem head (h : session.NeverShares id (step :: rest)) : ¬ session.Shares id step :=
  h [] step rest session [] rfl rfl

theorem tail (h : session.NeverShares id (step :: rest)) {outcome : Outcome Answer}
    (hstep : session.step? step = some (next, outcome)) : next.NeverShares id rest := by
  intro before later after middle outcomes hrest hrun
  have hrun' : session.run? (step :: before) = some (middle, outcome :: outcomes) :=
    run?_cons_eq_some.2 ⟨next, outcome, outcomes, hstep, hrun, rfl⟩
  refine h (step :: before) later after middle (outcome :: outcomes) ?_ hrun'
  rw [hrest, List.cons_append]

end NeverShares

/-! ## One step -/

/-- A map that is there stays there, with sets of its own. -/
theorem Transition.unshared (hstep : session.Transition step next) (hsound : session.Sound)
    (hid : session.pool.HasMap id) (hshares : ¬ session.Shares id step)
    (h : session.pool.Unshared id) : next.pool.HasMap id ∧ next.pool.Unshared id := by
  cases hstep with
  | @make name construction object pool hmade =>
    have hnone : ∀ map, construction = .shareSets map → session.map? map ≠ some id := by
      rintro map rfl hmap
      exact hshares ⟨name, map, rfl, hmap⟩
    exact ⟨hmade.grows.hasMap hid, hmade.unshared_of_not_shares hsound.pool hid hnone h⟩
  | @select name target selector hname =>
    have hselects := session.pool.selects target selector
    exact ⟨hselects.hasMap_iff.2 hid, h.select hsound.pool (hsound.hasMap hname) hselects⟩
  | same | set | setScan | useMap | useFilter | setWholeRow => exact ⟨hid, h⟩

/-- A step that selects nothing leaves all contents as they are. -/
theorem Transition.contents_eq (hstep : session.Transition step next) (hsound : session.Sound)
    (hid : session.pool.HasMap id)
    (hselect : ∀ name selector, step ≠ .call name (.select selector)) :
    next.pool.contents id = session.pool.contents id := by
  cases hstep with
  | make hmade => exact hmade.grows.contents_eq hsound.pool hid
  | select selector hname => exact absurd rfl (hselect _ selector)
  | same | set | setScan | useMap | useFilter | setWholeRow => rfl

/-- What can be selected through has a family map. -/
theorem step?_select_eq_some {name : String} {selector : Selector} {outcome : Outcome Answer}
    (hstep : session.step? (.call name (.select selector)) = some (next, outcome)) :
    ∃ target, session.mapOf? name = some target ∧
      next = { session with pool := session.pool.select target selector } := by
  cases hname : session.mapOf? name with
  | some target =>
    rcases step?_select hname selector with ⟨answer, hselect⟩
    have hnext := Option.some.inj (hstep.symm.trans hselect)
    exact ⟨target, rfl, congrArg Prod.fst hnext⟩
  | none =>
    -- a name without a family map stands for nothing or for a filter
    rw [step?_eq] at hstep
    cases hobject : session.objects.get? name with
    | none => simp [effect?, hobject] at hstep
    | some object =>
      cases object with
      | request request => simp [mapOf?, hobject, Object.map?] at hname
      | familyMap map => simp [mapOf?, hobject, Object.map?] at hname
      | filter filter => simp [effect?, hobject, callFilter?] at hstep

/-- A step adds to the contents of a map the selector that reaches it, if one does. -/
theorem contents_step (hsound : session.Sound) (hid : session.pool.HasMap id)
    (hunshared : session.pool.Unshared id) {outcome : Outcome Answer}
    (hstep : session.step? step = some (next, outcome)) :
    next.pool.contents id =
      (session.pool.contents id).selectAll (session.reaching? id step).toList := by
  by_cases hselect : ∃ name selector, step = .call name (.select selector)
  · rcases hselect with ⟨name, selector, rfl⟩
    rcases step?_select_eq_some hstep with ⟨target, hname, rfl⟩
    have hselects := session.pool.selects target selector
    by_cases htarget : target = id
    · subst htarget
      rw [reaching?, if_pos hname]
      exact hselects.contents_self hsound.pool hid
    · -- a selection through another map does not show, as no set is shared
      have hother : session.mapOf? name ≠ some id := by
        rw [hname]
        exact fun heq => htarget (Option.some.inj heq)
      rw [reaching?, if_neg hother]
      exact hunshared.contents_eq hsound.pool hselects fun heq => htarget heq.symm
  · have hnone : ∀ name selector, step ≠ .call name (.select selector) :=
      fun name selector heq => hselect ⟨name, selector, heq⟩
    have hreaching : session.reaching? id step = none := by
      unfold reaching?
      split
      · exact absurd rfl (hnone _ _)
      · rfl
    rw [hreaching]
    exact (step?_transition hstep).contents_eq hsound hid hnone

/-! ## Runs -/

/-- A run adds to the contents of a map the selectors that reach it. -/
theorem contents_run (hsound : session.Sound) (hid : session.pool.HasMap id)
    (hunshared : session.pool.Unshared id) {steps : List Step}
    (hnever : session.NeverShares id steps) {outcomes : List (Outcome Answer)}
    (hrun : session.run? steps = some (last, outcomes)) :
    last.pool.contents id =
      (session.pool.contents id).selectAll (session.reachings id steps) := by
  induction steps generalizing session outcomes with
  | nil =>
    cases hrun
    rfl
  | cons step rest ih =>
    rcases run?_cons_eq_some.1 hrun with ⟨middle, outcome, later, hstep, hrest, -⟩
    rcases (step?_transition hstep).unshared hsound hid hnever.head hunshared with
      ⟨hid', hunshared'⟩
    calc last.pool.contents id
        = (middle.pool.contents id).selectAll (middle.reachings id rest) :=
          ih (hsound.step hstep) hid' hunshared' (hnever.tail hstep) hrest
      _ = ((session.pool.contents id).selectAll (session.reaching? id step).toList).selectAll
            (middle.reachings id rest) := by rw [contents_step hsound hid hunshared hstep]
      _ = (session.pool.contents id).selectAll (session.reachings id (step :: rest)) := by
          rw [reachings_cons hstep, Selection.selectAll_append]

/-- **Family selection is decided by the history.** Take a family map that is empty, and any run in
which no other map is made of its sets. What the map selects in the end, families, columns and
order, is told by the selectors that reached it, under whatever names. -/
theorem contents_decided (hreach : Reachable session) (hid : session.pool.HasMap id)
    (hempty : session.pool.contents id = ∅) {steps : List Step}
    (hnever : session.NeverShares id steps) {outcomes : List (Outcome Answer)}
    (hrun : session.run? steps = some (last, outcomes)) :
    (last.pool.contents id).DecidedBy (session.reachings id steps) := by
  have hsound := hreach.sound
  have hunshared : session.pool.Unshared id := by
    -- an empty map holds no set
    intro other hother family set hset
    have hnone : (session.pool.contents id).get? family = none := by
      rw [hempty]
      rfl
    rw [Pool.get?_contents, hset] at hnone
    cases hnone
  rw [contents_run hsound hid hunshared hnever hrun, hempty]
  exact Selection.decidedBy_nil.selectAll _

/-- A map that is reached as a lookup, as a scan and by itself: one family is narrowed down, widened
and narrowed down again, another is named without a column. -/
theorem contents_decided_through_aliases :
    let session := after [.make "lookup" (.lookup [114])]
    let steps : List Step := [.call "lookup" (.select (.column [97] (some [1]))),
      .make "scan" (.lift "lookup"), .call "lookup" (.select (.column [98] none)),
      .call "scan" (.select (.wholeFamily [97])), .make "map" (.mapOf "scan"),
      .call "map" (.select (.column [97] (some [2])))]
    session.pool.HasMap ⟨0⟩ ∧ session.pool.contents ⟨0⟩ = ∅ ∧ session.NeverShares ⟨0⟩ steps ∧
      ∃ last outcomes, session.run? steps = some (last, outcomes) ∧
        (last.pool.contents ⟨0⟩).entries =
          [([98], .only ∅), ([97], .only (KeySet.insert ∅ [2]))] ∧
        (last.pool.contents ⟨0⟩).DecidedBy [.column [97] (some [1]), .column [98] none,
          .wholeFamily [97], .column [97] (some [2])] := by
  intro session steps
  have hid : session.pool.HasMap ⟨0⟩ := Nat.zero_lt_one
  have hempty : session.pool.contents ⟨0⟩ = ∅ := rfl
  have hnever : session.NeverShares ⟨0⟩ steps := by
    rintro before step after middle outcomes hsteps - ⟨name, map, rfl, -⟩
    have hmem : .make name (.shareSets map) ∈ steps := by
      rw [hsteps]
      simp
    simp [steps] at hmem
  have hreachings : session.reachings ⟨0⟩ steps = [.column [97] (some [1]), .column [98] none,
      .wholeFamily [97], .column [97] (some [2])] := by decide +kernel
  have hentries : (session.run? steps).map (fun result => (result.1.pool.contents ⟨0⟩).entries) =
      some [([98], .only ∅), ([97], .only (KeySet.insert ∅ [2]))] := by decide +kernel
  obtain ⟨⟨last, outcomes⟩, hrun, hlast⟩ := Option.map_eq_some_iff.1 hentries
  have hdecided := contents_decided (reachable_after _) hid hempty hnever hrun
  rw [hreachings] at hdecided
  exact ⟨hid, hempty, hnever, last, outcomes, hrun, hlast, hdecided⟩

end Session

end ReadPlan
