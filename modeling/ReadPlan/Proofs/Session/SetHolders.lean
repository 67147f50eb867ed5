import ReadPlan.Proofs.Pool.Holders
import ReadPlan.Proofs.Session.Sound

/-!
# ReadPlan.Proofs.Session.SetHolders — sets of qualifiers along a run

Scans, lookups and maps pass references to family maps and to the sets in them around. Whatever
they do, a set stands under one family only, nothing is ever taken out of a map or a set, and a set
has a single holder until a map is made of the sets of that holder (`Session.sets_stay_apart`). The
first is a property of every reachable pool, the others are kept by every step.
-/

namespace ReadPlan

namespace Session

variable {session next last : Session} {step : Step} {steps : List Step} {set : SetId}

/-- The step makes another map of the sets of a map that holds the set. -/
def PassesOn (session : Session) (set : SetId) (step : Step) : Prop :=
  ∃ name map source, step = .make name (.shareSets map) ∧ session.map? map = some source ∧
    session.pool.Holds source set

/-- At some time of a run a map is made of the sets of a map that holds the set. -/
def EverPassesOn (session : Session) (set : SetId) (steps : List Step) : Prop :=
  ∃ before step after middle outcomes, steps = before ++ step :: after ∧
    session.run? before = some (middle, outcomes) ∧ middle.PassesOn set step

theorem EverPassesOn.head (h : session.PassesOn set step) (rest : List Step) :
    session.EverPassesOn set (step :: rest) :=
  ⟨[], step, rest, session, [], rfl, rfl, h⟩

theorem EverPassesOn.tail {outcome : Outcome Answer} {rest : List Step}
    (hstep : session.step? step = some (next, outcome)) (h : next.EverPassesOn set rest) :
    session.EverPassesOn set (step :: rest) := by
  rcases h with ⟨before, found, after, middle, outcomes, hrest, hrun, hpasses⟩
  refine ⟨step :: before, found, after, middle, outcome :: outcomes, ?_, ?_, hpasses⟩
  · rw [hrest, List.cons_append]
  · exact run?_cons_eq_some.2 ⟨next, outcome, outcomes, hstep, hrun, rfl⟩

/-! ## One step -/

/-- No step takes anything out of a map or a set. -/
theorem Transition.keeps (hstep : session.Transition step next) (hsound : session.Sound) :
    session.pool.Keeps next.pool := by
  cases hstep with
  | make hmade => exact hmade.grows.keeps
  | @select name id selector hname =>
    exact (session.pool.selects id selector).keeps hsound.pool (hsound.hasMap hname)
  | setWholeRow flag hname => exact session.pool.keeps_setWholeRow _ flag
  | same | set | setScan | useMap | useFilter => exact Pool.Keeps.refl _

/-- Only a map made of the sets of its holder gives a set a second holder. -/
theorem Transition.heldOnce (hstep : session.Transition step next) (hsound : session.Sound)
    (hpasses : ¬ session.PassesOn set step) (h : session.pool.HeldOnce set) :
    next.pool.HeldOnce set := by
  cases hstep with
  | @make name construction object pool hmade =>
    show pool.HeldOnce set
    cases hmade with
    | scan | lookup | familyMap | copy | copyMap => exact h.newMap hsound.pool _
    | filter | lift | mapOf => exact h
    | @shareSets map source hmap =>
      exact h.shareSets fun hholds => hpasses ⟨name, map, source, rfl, hmap, hholds⟩
  | @select name id selector hname =>
    exact h.select hsound.pool (hsound.hasMap hname) (session.pool.selects id selector)
  | same | set | setScan | useMap | useFilter | setWholeRow => exact h

/-! ## Runs -/

theorem run?_keeps (hsound : session.Sound) {outcomes : List (Outcome Answer)}
    (hrun : session.run? steps = some (last, outcomes)) : session.pool.Keeps last.pool := by
  have hlast : last.Sound ∧ session.pool.Keeps last.pool := by
    refine run?_invariant (P := fun s => s.Sound ∧ session.pool.Keeps s.pool) ?_ hrun
      ⟨hsound, Pool.Keeps.refl _⟩
    rintro s t step outcome - hstep ⟨hs, hkeeps⟩
    exact ⟨hs.step hstep, hkeeps.trans ((step?_transition hstep).keeps hs)⟩
  exact hlast.2

/-- A run leaves a set with its one holder, unless it passes the set on. -/
theorem run?_heldOnce (hsound : session.Sound) (h : session.pool.HeldOnce set)
    {outcomes : List (Outcome Answer)} (hrun : session.run? steps = some (last, outcomes)) :
    last.pool.HeldOnce set ∨ session.EverPassesOn set steps := by
  induction steps generalizing session outcomes with
  | nil =>
    cases hrun
    exact Or.inl h
  | cons step rest ih =>
    rcases run?_cons_eq_some.1 hrun with ⟨next, outcome, later, hstep, hrest, -⟩
    by_cases hpasses : session.PassesOn set step
    · exact Or.inr (.head hpasses rest)
    · have hnext := (step?_transition hstep).heldOnce hsound hpasses h
      rcases ih (hsound.step hstep) hnext hrest with hlast | hever
      · exact Or.inl hlast
      · exact Or.inr (hever.tail hstep)

/-- **Sets stand apart.** In every reachable session a set stands under one family only, in one map
and across maps. From there on, in every run: maps stay and keep their families, sets stay and keep
their qualifiers; and if two maps hold a set that was made in the run, then at some time in between
another map was made of the sets of a map that held it. -/
theorem sets_stay_apart (hreach : Reachable session) :
    (∀ id other family family' set, (session.pool.map id).get? family = some (.only set) →
        (session.pool.map other).get? family' = some (.only set) → family = family') ∧
      ∀ steps last outcomes, session.run? steps = some (last, outcomes) →
        (∀ id, session.pool.HasMap id → last.pool.HasMap id ∧
          ∀ family ∈ (session.pool.map id).keys, family ∈ (last.pool.map id).keys) ∧
        (∀ set, session.pool.HasSet set → last.pool.HasSet set ∧
          ∀ qualifier ∈ session.pool.set set, qualifier ∈ last.pool.set set) ∧
        ∀ set, ¬ session.pool.HasSet set → ∀ id other, last.pool.Holds id set →
          last.pool.Holds other set → id ≠ other → session.EverPassesOn set steps := by
  have hsound := hreach.sound
  refine ⟨?_, ?_⟩
  · intro id other family family' set hset hset'
    -- both families are the one that the set was made for
    exact (hsound.pool id family set hset).1.symm.trans (hsound.pool other family' set hset').1
  · intro steps last outcomes hrun
    have hkeeps := run?_keeps hsound hrun
    refine ⟨hkeeps.maps, hkeeps.sets, ?_⟩
    intro set hset id other hid hother hne
    have hnone := Pool.heldOnce_of_not_hasSet hsound.pool hset
    rcases run?_heldOnce hsound hnone hrun with honce | hever
    · exact absurd (honce id other hid hother) hne
    · exact hever

/-- A column is selected in a scan, and a map is made of the sets of the map of the scan: the two
maps hold one set, and it was passed on. -/
theorem sets_stay_apart_until_passed_on :
    let session := after [.make "scan" .scan]
    let steps : List Step := [.call "scan" (.select (.column [102] (some [113]))),
      .make "map" (.mapOf "scan"), .make "shared" (.shareSets "map"),
      .call "shared" (.select (.column [102] (some [112])))]
    ∃ last outcomes, session.run? steps = some (last, outcomes) ∧
      (∀ family ∈ (session.pool.map ⟨0⟩).keys, family ∈ (last.pool.map ⟨0⟩).keys) ∧
      ¬ session.pool.HasSet ⟨[102], 0⟩ ∧ last.pool.Holds ⟨0⟩ ⟨[102], 0⟩ ∧
      last.pool.Holds ⟨1⟩ ⟨[102], 0⟩ ∧ session.EverPassesOn ⟨[102], 0⟩ steps := by
  intro session steps
  obtain ⟨last, outcomes, hrun, hfirst, hsecond⟩ : ∃ last outcomes,
      session.run? steps = some (last, outcomes) ∧
        last.pool.Holds ⟨0⟩ ⟨[102], 0⟩ ∧ last.pool.Holds ⟨1⟩ ⟨[102], 0⟩ :=
    ⟨_, _, rfl, ⟨[102], rfl⟩, ⟨[102], rfl⟩⟩
  have hset : ¬ session.pool.HasSet ⟨[102], 0⟩ := Nat.lt_irrefl 0
  have hmap : session.pool.HasMap ⟨0⟩ := Nat.zero_lt_one
  rcases sets_stay_apart (reachable_after _) with ⟨-, hruns⟩
  rcases hruns steps last outcomes hrun with ⟨hmaps, -, hholders⟩
  exact ⟨last, outcomes, hrun, (hmaps _ hmap).2, hset, hfirst, hsecond,
    hholders _ hset ⟨0⟩ ⟨1⟩ hfirst hsecond (by decide)⟩

end Session

end ReadPlan
