import Mathlib.Data.List.FinRange
import Mathlib.Data.List.Sort
import ReadPlan.Proofs.Session.Conflicts

/-!
# ReadPlan.Proofs.Session.Reordering — calls that do not conflict can be reordered

A list of calls on a request is reordered by a list of their places, each once, in which calls that
conflict keep their order (`IsReordering`). Both lists are taken, each call has the same outcome in
both, and the sessions differ at the end at most in the order of families and attributes
(`Session.run_reordered`).

The proof takes the reordered calls one by one. The next one is found in what is left of the list,
and since it conflicts with nothing before it there, it can be moved to the front
(`Session.run?_to_front`).
-/

namespace ReadPlan

/-- The places of the calls, each once, in an order that keeps every two calls that conflict in the
order in which they stand. -/
structure IsReordering (calls : List Call) (places : List (Fin calls.length)) : Prop where
  each_once : places.Perm (List.finRange calls.length)
  keeps : places.Pairwise fun i j => (calls.get i).Conflicts (calls.get j) → i < j

namespace Session

section Places

variable {ι : Type} {call : ι → Call} {session next last other : Session} {name : String}
  {outcome : ι → Outcome Answer} {places : List ι}

/-- The calls in the order of their places. -/
def callsAt (name : String) (call : ι → Call) (places : List ι) : List Step :=
  places.map fun place => .call name (call place)

/-- The name stands for a request, and the request takes all the calls, which change it. -/
structure Accepts (session : Session) (name : String) (call : ι → Call) : Prop where
  sound : session.Sound
  request : ∃ request, session.request? name = some request
  mutators : ∀ place, (call place).IsMutator
  takes : ∀ place, session.Takes name (call place)

namespace Accepts

theorem exists_step (h : session.Accepts name call) (place : ι) :
    ∃ next outcome, session.step? (.call name (call place)) = some (next, outcome) ∧
      next.Accepts name call := by
  rcases h.request with ⟨request, hname⟩
  rcases exists_mutates hname (h.mutators place) (h.takes place) with ⟨next, outcome, hmutates⟩
  have hstep := hmutates.step?_eq hname
  rcases hmutates.keepsKind hname with ⟨changed, hchanged, -⟩
  refine ⟨next, outcome, hstep, h.sound.step hstep, ⟨changed, hchanged⟩, h.mutators, ?_⟩
  intro place'
  exact hmutates.takes hname (h.mutators place') (h.takes place')

theorem step (h : session.Accepts name call) {place : ι} {outcome : Outcome Answer}
    (hstep : session.step? (.call name (call place)) = some (next, outcome)) :
    next.Accepts name call := by
  rcases h.exists_step place with ⟨found, result, hfound, haccepts⟩
  cases hfound.symm.trans hstep
  exact haccepts

/-- In whatever order, the calls are taken. -/
theorem exists_run (h : session.Accepts name call) (places : List ι) :
    ∃ last outcomes, session.run? (callsAt name call places) = some (last, outcomes) ∧
      last.Accepts name call := by
  induction places generalizing session with
  | nil => exact ⟨session, [], rfl, h⟩
  | cons place rest ih =>
    rcases h.exists_step place with ⟨next, outcome, hstep, haccepts⟩
    rcases ih haccepts with ⟨last, outcomes, hrun, hlast⟩
    exact ⟨last, outcome :: outcomes,
      run?_cons_eq_some.2 ⟨next, outcome, outcomes, hstep, hrun, rfl⟩, hlast⟩

/-- Sessions that differ in order alone take a call alike, and differ in order alone afterwards. -/
theorem step_congr (h : session.Accepts name call) (hother : other.Accepts name call)
    (hsame : session.SameButOrder other) {place : ι} {outcome : Outcome Answer}
    (hstep : session.step? (.call name (call place)) = some (next, outcome)) :
    ∃ later, other.step? (.call name (call place)) = some (later, outcome) ∧
      next.SameButOrder later := by
  rcases h.request with ⟨request, hname⟩
  rcases exists_mutates hname (h.mutators place) (h.takes place) with ⟨found, result, hmutates⟩
  cases (hmutates.step?_eq hname).symm.trans hstep
  rcases hmutates.congr hname hsame h.sound hother.sound with
    ⟨request', later, hname', hmutates', hlater⟩
  exact ⟨later, hmutates'.step?_eq hname', hlater⟩

theorem run_congr (h : session.Accepts name call) (hother : other.Accepts name call)
    (hsame : session.SameButOrder other) {outcomes : List (Outcome Answer)}
    (hrun : session.run? (callsAt name call places) = some (last, outcomes)) :
    ∃ later, other.run? (callsAt name call places) = some (later, outcomes) ∧
      last.SameButOrder later := by
  induction places generalizing session other outcomes with
  | nil =>
    cases hrun
    exact ⟨other, rfl, hsame⟩
  | cons place rest ih =>
    rcases run?_cons_eq_some.1 hrun with ⟨next, outcome, outcomes, hstep, hrest, rfl⟩
    rcases h.step_congr hother hsame hstep with ⟨next', hstep', hnext⟩
    rcases ih (h.step hstep) (hother.step hstep') hnext hrest with ⟨later, hlater, hlast⟩
    exact ⟨later, run?_cons_eq_some.2 ⟨next', outcome, outcomes, hstep', hlater, rfl⟩, hlast⟩

/-- A call that conflicts with none of those before it may as well be made first. -/
theorem run?_to_front (h : session.Accepts name call) {before after : List ι} {place : ι}
    (hfree : ∀ earlier ∈ before, ¬ (call earlier).Conflicts (call place))
    (hrun : session.run? (callsAt name call (before ++ place :: after)) =
      some (last, (before ++ place :: after).map outcome)) :
    ∃ next later, session.step? (.call name (call place)) = some (next, outcome place) ∧
      next.run? (callsAt name call (before ++ after)) =
        some (later, (before ++ after).map outcome) ∧
      last.SameButOrder later := by
  induction before generalizing session with
  | nil =>
    rcases run?_cons_eq_some.1 hrun with ⟨next, first, outcomes, hstep, hrest, heq⟩
    rcases List.cons.inj heq with ⟨rfl, rfl⟩
    exact ⟨next, last, hstep, hrest, .refl last⟩
  | cons earlier before ih =>
    rcases run?_cons_eq_some.1 hrun with ⟨middle, first, outcomes, hstep, hrest, heq⟩
    rcases List.cons.inj heq with ⟨rfl, rfl⟩
    rcases ih (h.step hstep) (fun e he => hfree e (List.mem_cons_of_mem _ he)) hrest with
      ⟨next, later, hplace, hlater, hlast⟩
    -- the call is second now, and commutes with the one before it
    rcases h.request with ⟨request, hname⟩
    rcases commute h.sound hname (h.mutators earlier) (h.mutators place) (h.takes earlier)
      (h.takes place) (hfree earlier List.mem_cons_self) with
      ⟨middle', next', front, swapped, o, p, hone, htwo, hone', htwo', hsame⟩
    cases hone.symm.trans hstep
    cases htwo.symm.trans hplace
    have hnext := (h.step hstep).step hplace
    have hswapped := (h.step hone').step htwo'
    rcases hnext.run_congr hswapped hsame hlater with ⟨final, hfinal, hsameFinal⟩
    exact ⟨front, final, hone', run?_cons_eq_some.2 ⟨swapped, _, _, htwo', hfinal, rfl⟩,
      hlast.trans hsameFinal⟩

end Accepts

end Places

variable {session last : Session} {name : String}

/-- What is left of the calls can be reordered call by call. -/
theorem Accepts.run?_reordered {n : Nat} {call : Fin n → Call} {outcome : Fin n → Outcome Answer}
    {source places : List (Fin n)} (h : session.Accepts name call)
    (hsource : source.Pairwise (· < ·)) (hperm : places.Perm source)
    (hkeeps : places.Pairwise fun i j => (call i).Conflicts (call j) → i < j)
    (hrun : session.run? (callsAt name call source) = some (last, source.map outcome)) :
    ∃ later, session.run? (callsAt name call places) = some (later, places.map outcome) ∧
      last.SameButOrder later := by
  induction places generalizing session source last with
  | nil =>
    obtain rfl := hperm.nil_eq
    cases hrun
    exact ⟨session, rfl, .refl session⟩
  | cons place rest ih =>
    rw [List.pairwise_cons] at hkeeps
    have hmem : place ∈ source := hperm.mem_iff.1 List.mem_cons_self
    rcases List.append_of_mem hmem with ⟨before, after, rfl⟩
    have hrest : rest.Perm (before ++ after) := (hperm.trans List.perm_middle).cons_inv
    rcases List.pairwise_append.1 hsource with ⟨-, -, hcross⟩
    -- what stands before the call now, but comes after it in the end, does not conflict with it
    have hfree : ∀ earlier ∈ before, ¬ (call earlier).Conflicts (call place) := by
      intro earlier hearlier hconflicts
      have hlt : earlier < place := hcross earlier hearlier place List.mem_cons_self
      have hlater : earlier ∈ rest := hrest.mem_iff.2 (List.mem_append_left _ hearlier)
      exact lt_asymm hlt (hkeeps.1 earlier hlater hconflicts.symm)
    rcases h.run?_to_front hfree hrun with ⟨next, middle, hstep, hmiddle, hsame⟩
    have hascending : (before ++ after).Pairwise (· < ·) :=
      hsource.sublist ((List.Sublist.refl before).append (List.sublist_cons_self place after))
    rcases ih (h.step hstep) hascending hrest hkeeps.2 hmiddle with ⟨later, hlater, hsame'⟩
    exact ⟨later, run?_cons_eq_some.2 ⟨next, _, _, hstep, hlater, rfl⟩, hsame.trans hsame'⟩

/-- **Builder calls that do not conflict can be reordered.** In a reachable session let a list of
calls be made on a request that takes each of them, and in a second run a reordering of the list.
Then both runs are taken and each call has the same outcome in both. At the end the sessions are the
same but for the order of families and attributes, and so is what one can see under every name. The
request is written as the same text, or fails to be with the same failure. -/
theorem run_reordered {calls : List Call} {places : List (Fin calls.length)}
    {request : Request MapId FilterId} (hreachable : Reachable session)
    (hname : session.request? name = some request) (hmutators : ∀ call ∈ calls, call.IsMutator)
    (htakes : ∀ call ∈ calls, session.Takes name call) (h : IsReordering calls places) :
    ∃ (outcome : Fin calls.length → Outcome Answer) (last reordered : Session),
      session.run? (calls.map (.call name)) = some (last, List.ofFn outcome) ∧
      session.run? (places.map fun place => .call name (calls.get place)) =
        some (reordered, places.map outcome) ∧
      last.SameButOrder reordered ∧
      (∀ other,
        Option.Rel Snapshot.SameButOrder (last.snapshot? other) (reordered.snapshot? other)) ∧
      ∀ maxColumns, ∃ result,
        last.step? (.call name (.ask (.text maxColumns))) = some (last, result) ∧
        reordered.step? (.call name (.ask (.text maxColumns))) = some (reordered, result) := by
  have haccepts : session.Accepts name calls.get :=
    ⟨hreachable.sound, ⟨request, hname⟩, fun place => hmutators _ (calls.get_mem place),
      fun place => htakes _ (calls.get_mem place)⟩
  have hcalls : callsAt name calls.get (List.finRange calls.length) = calls.map (.call name) := by
    conv_rhs => rw [← List.map_get_finRange calls, List.map_map]
    rfl
  rcases haccepts.exists_run (List.finRange calls.length) with ⟨last, outcomes, hrun, hlast⟩
  have hlength : outcomes.length = calls.length := by
    rw [length_of_run? hrun, callsAt, List.length_map, List.length_finRange]
  -- every place has its outcome in the first run, and keeps it
  have houtcomes : ∃ outcome : Fin calls.length → Outcome Answer, outcomes = List.ofFn outcome := by
    refine ⟨fun place => outcomes.get (place.cast hlength.symm), List.ext_get ?_ ?_⟩
    · rw [List.length_ofFn, hlength]
    · intro place hplace hplace'
      rw [List.get_ofFn]
      rfl
  rcases houtcomes with ⟨outcome, rfl⟩
  have hsource := hrun.trans (by rw [List.ofFn_eq_map])
  rcases haccepts.run?_reordered (List.sortedLT_finRange _).pairwise h.each_once h.keeps hsource with
    ⟨reordered, hreordered, hsame⟩
  rcases hlast.request with ⟨changed, hchanged⟩
  refine ⟨outcome, last, reordered, ?_, hreordered, hsame, hsame.snapshot?, ?_⟩
  · rw [← hcalls]
    exact hrun
  · intro maxColumns
    exact hsame.step?_text hchanged maxColumns

/-- Two selections, a refused and a taken batch size, a filter and an id are reordered on a scan that
shares its families. -/
theorem run_reordered_around_filter :
    let session := after [.make "filter" (.filter { name := "Rows", wholeRow? := some true }),
      .make "scan" (.scan [] [] (some "filter")), .make "map" (.mapOf "scan")]
    let calls : List Call := [.select (.column [102] (some [113])), .setScan (.batch 5),
      .useFilter none, .setScan (.batch 6), .select (.wholeFamily [103]), .set (.operationId "id")]
    let places : List (Fin calls.length) := [5, 4, 1, 2, 0, 3]
    IsReordering calls places ∧
      ∃ (outcome : Fin calls.length → Outcome Answer) (last reordered : Session),
        session.run? (calls.map (.call "scan")) = some (last, List.ofFn outcome) ∧
        session.run? (places.map fun place => .call "scan" (calls.get place)) =
          some (reordered, places.map outcome) ∧
        last.SameButOrder reordered := by
  intro session calls places
  have hreordering : IsReordering calls places := ⟨by decide, by decide⟩
  have hname : session.request? "scan" = some (.scan { families := ⟨0⟩, filter? := some ⟨0⟩ }) := rfl
  have hscan : session.scan? "scan" = some { families := ⟨0⟩, filter? := some ⟨0⟩ } := rfl
  have hmutators : ∀ call ∈ calls, call.IsMutator := by
    simp [calls, Call.IsMutator]
  have htakes : ∀ call ∈ calls, session.Takes "scan" call := by
    simp [calls, Takes, hname, hscan, filterOrNone?, mapOf?_of_request? hname]
  rcases run_reordered (reachable_after _) hname hmutators htakes hreordering with
    ⟨outcome, last, reordered, hrun, hreordered, hsame, -⟩
  exact ⟨hreordering, outcome, last, reordered, hrun, hreordered, hsame⟩

end Session

end ReadPlan
