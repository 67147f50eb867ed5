import ReadPlan.Proofs.Pool.Unshared
import ReadPlan.Proofs.Session.Sound

/-!
# ReadPlan.Proofs.Session.CopyIsolation — nothing passes between a copy and the rest

A copy of a scan is apart (`Session.Apart`): no other name stands for its family map, and no other
map holds one of its sets. It stays apart whatever is done under other names and whatever is set or
selected on it. So nothing that leaves its name out changes it, and nothing that is done to it
changes anything else.
-/

namespace ReadPlan

/-! ## What a step mentions -/

/-- The names that a construction mentions. -/
def Construction.names : Construction → List String
  | .scan _ _ filter? => filter?.toList
  | .lookup _ filter? => filter?.toList
  | .filter _ => []
  | .familyMap _ => []
  | .copy name => [name]
  | .lift name => [name]
  | .mapOf name => [name]
  | .shareSets name => [name]
  | .copyMap name => [name]

/-- The names that a call mentions. -/
def Call.names : Call → List String
  | .useMap map => [map]
  | .useFilter filter? => filter?.toList
  | .compare other _ => [other]
  | _ => []

/-- The names that a step mentions, that of the object it makes or calls among them. -/
def Step.names : Step → List String
  | .make name construction => name :: construction.names
  | .call name made => name :: made.names

/-- The call changes a request by plain values: it gives it neither a map nor a filter. -/
def Call.IsPlainMutator : Call → Prop
  | .select _ | .set _ | .setScan _ | .useFilter none => True
  | _ => False

/-- The step leaves the name out, or only changes what stands there by plain values. -/
def Step.KeepsApart (name : String) (step : Step) : Prop :=
  name ∉ step.names ∨ ∃ call : Call, call.IsPlainMutator ∧ step = .call name call

/-- The two filters differ at most in the value of their flag. -/
def Filter.SameButFlag (before after : Filter) : Prop :=
  ∃ flag, after = before.setWholeRow flag

theorem Filter.SameButFlag.refl (filter : Filter) : filter.SameButFlag filter := by
  rcases filter with ⟨name, label?, wholeRow?⟩
  cases wholeRow? with
  | none => exact ⟨false, rfl⟩
  | some flag => exact ⟨flag, rfl⟩

theorem Filter.SameButFlag.trans {first second third : Filter} (h : first.SameButFlag second)
    (h' : second.SameButFlag third) : first.SameButFlag third := by
  rcases h with ⟨flag, rfl⟩
  rcases h' with ⟨flag', rfl⟩
  refine ⟨flag', ?_⟩
  simp only [Filter.setWholeRow, Option.map_map]
  rfl

theorem Pool.filter_setWholeRow {pool : Pool} {id : FilterId} (hid : pool.HasFilter id)
    (target : FilterId) (flag : Bool) :
    (pool.filter id).SameButFlag ((pool.setWholeRow target flag).filter id) := by
  obtain ⟨found, hfound⟩ : ∃ found, pool.filters[id.index]? = some found :=
    ⟨_, List.getElem?_eq_getElem hid⟩
  simp only [Pool.filter, Pool.setWholeRow, List.getElem?_modify, hfound]
  by_cases htarget : target.index = id.index
  · simp only [htarget, if_true]
    exact ⟨flag, rfl⟩
  · simp only [htarget, if_false]
    exact Filter.SameButFlag.refl found

/-- What one sees of an object depends only on the contents of its map and on its filter. -/
theorem Pool.snapshot_congr {pool later : Pool} {object : Object}
    (hcontents : ∀ id, object.map? = some id → later.contents id = pool.contents id)
    (hfilter : later.filter = pool.filter) : later.snapshot object = pool.snapshot object := by
  cases object with
  | request r =>
    have hfamilies := hcontents r.criteria.families rfl
    cases r with
    | scan scan =>
      have hfamilies : later.contents scan.families = pool.contents scan.families := hfamilies
      simp [snapshot, resolve, Request.map, Scan.map, Criteria.map, hfamilies, hfilter]
    | lookup lookup =>
      have hfamilies : later.contents lookup.families = pool.contents lookup.families := hfamilies
      simp [snapshot, resolve, Request.map, Lookup.map, Criteria.map, hfamilies, hfilter]
  | familyMap id => exact congrArg Snapshot.familyMap (hcontents id rfl)
  | filter id => exact congrArg (fun filter => Snapshot.filter (filter id)) hfilter

namespace Session

variable {session next : Session}

/-! ## Making things elsewhere -/

namespace Constructs

variable {construction : Construction} {object : Object} {pool : Pool} {id : MapId}

/-- A construction that makes no other map of its sets leaves a map with its sets alone. -/
theorem unshared_of_not_shares (hmade : session.Constructs construction object pool)
    (hwf : session.pool.WellFormed) (hid : session.pool.HasMap id)
    (hshares : ∀ map, construction = .shareSets map → session.map? map ≠ some id)
    (h : session.pool.Unshared id) : pool.Unshared id := by
  cases hmade with
  | scan | lookup | familyMap | copy | copyMap => exact h.newMap hwf hid _
  | filter | lift | mapOf => exact h
  | @shareSets name source hmap =>
    have hsource : source ≠ id := by
      rintro rfl
      exact hshares name rfl hmap
    exact h.shareSets hid hsource

/-- A construction that mentions no name for a map makes no other map of the same sets. -/
theorem unshared (hmade : session.Constructs construction object pool)
    (hwf : session.pool.WellFormed) (hid : session.pool.HasMap id)
    (hnames : ∀ name ∈ construction.names, session.mapOf? name ≠ some id)
    (h : session.pool.Unshared id) : pool.Unshared id := by
  refine hmade.unshared_of_not_shares hwf hid ?_ h
  rintro map rfl hmap
  exact hnames map List.mem_cons_self (mapOf?_of_map? hmap)

/-- Nor does it make an object that refers to the map. -/
theorem map?_ne (hmade : session.Constructs construction object pool)
    (hid : session.pool.HasMap id)
    (hnames : ∀ name ∈ construction.names, session.mapOf? name ≠ some id) :
    object.map? ≠ some id := by
  intro hobject
  cases hmade with
  | scan | lookup | familyMap | copy | copyMap =>
    cases hobject
    exact session.pool.not_hasMap_newMap _ hid
  | filter => cases hobject
  | @lift name lookup hlookup =>
    have hrequest := request?_of_lookup? hlookup
    have hmap : session.mapOf? name = some lookup.families := mapOf?_of_request? hrequest
    exact hnames name List.mem_cons_self (hmap.trans hobject)
  | @mapOf name request hrequest =>
    cases hobject
    exact hnames name List.mem_cons_self (mapOf?_of_request? hrequest)
  | @shareSets name source hmap =>
    cases hobject
    exact session.pool.not_hasMap_shareSets source hid

end Constructs

/-- A filter keeps its number and all of itself but its flag. -/
theorem Transition.filter_sameButFlag {step : Step} (hstep : session.Transition step next)
    {id : FilterId} (hid : session.pool.HasFilter id) :
    (session.pool.filter id).SameButFlag (next.pool.filter id) := by
  cases hstep with
  | @make name construction object pool hmade =>
    have hsame : pool.filter id = session.pool.filter id := hmade.grows.filter_eq hid
    show (session.pool.filter id).SameButFlag (pool.filter id)
    rw [hsame]
    exact Filter.SameButFlag.refl _
  | @select name target selector hname =>
    have hsame := (session.pool.selects target selector).filter_eq
    show (session.pool.filter id).SameButFlag ((session.pool.select target selector).filter id)
    rw [hsame]
    exact Filter.SameButFlag.refl _
  | setWholeRow flag hname => exact Pool.filter_setWholeRow hid _ flag
  | same | set | setScan | useMap | useFilter => exact Filter.SameButFlag.refl _

/-! ## The invariant -/

/-- A scan that is alone with its families: no other name stands for its family map, and no other
map holds one of its sets. -/
structure Apart (session : Session) (name : String) (scan : Scan MapId FilterId) : Prop where
  here : session.scan? name = some scan
  unnamed : ∀ other, other ≠ name → session.mapOf? other ≠ some scan.families
  unshared : session.pool.Unshared scan.families

variable {name other : String} {scan : Scan MapId FilterId}

/-- A copy is apart. -/
theorem apart_afterCopy (hsound : session.Sound) (scan : Scan MapId FilterId) (copyName : String) :
    (session.afterCopy copyName scan).Apart copyName (scan.map
      (fun _ => (session.pool.newMap (session.pool.contents scan.families).rebuild).1) id) := by
  refine ⟨?_, ?_, ?_⟩
  · exact scan?_bind_self _ _ _
  · -- the number of the new map is one that no object could refer to before
    intro other hother hmap
    rw [mapOf?, afterCopy, get?_bind_of_ne hother] at hmap
    exact session.pool.not_hasMap_newMap _ (hsound.hasMap hmap)
  · exact Pool.unshared_newMap hsound.pool _

namespace Apart

theorem mapOf?_eq (h : session.Apart name scan) : session.mapOf? name = some scan.families :=
  mapOf?_of_request? (request?_of_scan? h.here)

theorem hasMap (h : session.Apart name scan) (hsound : session.Sound) :
    session.pool.HasMap scan.families :=
  hsound.hasMap h.mapOf?_eq

/-- Naming an object that refers to another map. -/
theorem bind_other (h : session.Apart name scan) (hother : other ≠ name) {object : Object}
    (hobject : object.map? ≠ some scan.families) : (session.bind other object).Apart name scan := by
  refine ⟨?_, ?_, h.unshared⟩
  · rw [scan?_eq_some, get?_bind_of_ne hother.symm]
    exact scan?_eq_some.1 h.here
  · intro third hthird
    rw [mapOf?, get?_bind]
    by_cases heq : third = other
    · rw [if_pos heq]
      exact hobject
    · rw [if_neg heq]
      exact h.unnamed third hthird

/-- Changing the scan and keeping its map. -/
theorem bind_self (h : session.Apart name scan) {changed : Scan MapId FilterId}
    (hchanged : changed.families = scan.families) :
    (session.bind name (.request (.scan changed))).Apart name changed := by
  refine ⟨?_, ?_, ?_⟩
  · exact scan?_bind_self _ _ _
  · intro other hother
    rw [mapOf?, get?_bind_of_ne hother, hchanged]
    exact h.unnamed other hother
  · rw [hchanged]
    exact h.unshared

/-- A selection through any map. -/
theorem select (h : session.Apart name scan) (hsound : session.Sound) {id : MapId}
    (hid : session.pool.HasMap id) (selector : Selector) :
    Apart { session with pool := session.pool.select id selector } name scan :=
  ⟨h.here, h.unnamed, h.unshared.select hsound.pool hid (session.pool.selects id selector)⟩

/-! ## Steps that leave the name out -/

theorem elsewhere (h : session.Apart name scan) (hsound : session.Sound) {step : Step}
    (hstep : session.Transition step next) (hname : name ∉ step.names) : next.Apart name scan := by
  have hne : ∀ other ∈ step.names, other ≠ name := by
    rintro other hmem rfl
    exact hname hmem
  cases hstep with
  | same => exact h
  | @make other construction object pool hmade =>
    -- what the construction mentions stands for other maps, as the name itself is not mentioned
    have hnames : ∀ mentioned ∈ construction.names, session.mapOf? mentioned ≠ some scan.families :=
      fun mentioned hmem => h.unnamed mentioned (hne mentioned (List.mem_cons_of_mem _ hmem))
    have hgrown : Apart { session with pool } name scan :=
      ⟨h.here, h.unnamed, hmade.unshared hsound.pool (h.hasMap hsound) hnames h.unshared⟩
    exact hgrown.bind_other (hne other List.mem_cons_self) (hmade.map?_ne (h.hasMap hsound) hnames)
  | select selector hother => exact h.select hsound (hsound.hasMap hother) selector
  | @set other request changed setting log hother hset =>
    have hother' := hne other List.mem_cons_self
    refine h.bind_other hother' fun hmap => h.unnamed other hother' ?_
    rw [mapOf?_of_request? hother, ← (Request.apply_keeps hset).1]
    exact hmap
  | @setScan other found changed setting log hother hset =>
    have hother' := hne other List.mem_cons_self
    refine h.bind_other hother' fun hmap => h.unnamed other hother' ?_
    rw [mapOf?_of_request? (request?_of_scan? hother)]
    exact (congrArg some (Scan.apply_keeps hset).1.symm).trans hmap
  | @useMap other map request families hother hmap =>
    -- the map that is given to the other request has a name too, and so is another one
    refine h.bind_other (hne other List.mem_cons_self) ?_
    rw [Object.map?, Request.criteria_withCriteria, ← mapOf?_of_map? hmap]
    exact h.unnamed map (hne map (List.mem_cons_of_mem _ List.mem_cons_self))
  | @useFilter other filterName? request filter? hother hfilter =>
    have hother' := hne other List.mem_cons_self
    refine h.bind_other hother' ?_
    rw [Object.map?, Request.criteria_withCriteria]
    intro hmap
    exact h.unnamed other hother' ((mapOf?_of_request? hother).trans hmap)
  | setWholeRow flag hother => exact ⟨h.here, h.unnamed, h.unshared⟩

/-- The map keeps its contents. -/
theorem contents_eq (h : session.Apart name scan) (hsound : session.Sound) {step : Step}
    (hstep : session.Transition step next) (hname : name ∉ step.names) :
    next.pool.contents scan.families = session.pool.contents scan.families := by
  cases hstep with
  | make hmade => exact hmade.grows.contents_eq hsound.pool (h.hasMap hsound)
  | @select other id selector hother =>
    have hne : other ≠ name := by
      rintro rfl
      exact hname List.mem_cons_self
    have hid : scan.families ≠ id := by
      rintro rfl
      exact h.unnamed other hne hother
    exact h.unshared.contents_eq hsound.pool (session.pool.selects id selector) hid
  | same | set | setScan | useMap | useFilter | setWholeRow => rfl

end Apart

/-! ## Plain mutators -/

/-- Every name but one stands for the same object, with the same to see. -/
def SameElsewhere (name : String) (session next : Session) : Prop :=
  ∀ other, other ≠ name → next.objects.get? other = session.objects.get? other ∧
    next.snapshot? other = session.snapshot? other

theorem SameElsewhere.refl (name : String) (session : Session) :
    SameElsewhere name session session :=
  fun _ _ => ⟨rfl, rfl⟩

theorem SameElsewhere.trans {last : Session} (h : SameElsewhere name session next)
    (h' : SameElsewhere name next last) : SameElsewhere name session last :=
  fun other hother => ⟨(h' other hother).1.trans (h other hother).1,
    (h' other hother).2.trans (h other hother).2⟩

theorem sameElsewhere_bind (session : Session) (name : String) (object : Object) :
    SameElsewhere name session (session.bind name object) := by
  intro other hother
  have hobject : (session.bind name object).objects.get? other = session.objects.get? other :=
    get?_bind_of_ne hother object
  refine ⟨hobject, ?_⟩
  rw [snapshot?, snapshot?, hobject]
  rfl

/-- A scan takes every plain mutator. -/
theorem exists_step?_plain (hscan : session.scan? name = some scan) {call : Call}
    (hcall : call.IsPlainMutator) :
    ∃ next outcome, session.step? (.call name call) = some (next, outcome) := by
  rw [step?_call_request (scan?_eq_some.1 hscan)]
  cases call with
  | select | set | setScan => exact ⟨_, _, rfl⟩
  | useFilter filter? =>
    cases filter? with
    | none => exact ⟨_, _, rfl⟩
    | some filter => exact hcall.elim
  | useMap | setWholeRow | ask | askScan | compare => exact hcall.elim

namespace Apart

/-- What is set or selected on a scan that is apart leaves it apart and shows nowhere else. -/
theorem mutate (h : session.Apart name scan) (hsound : session.Sound) {call : Call}
    (hcall : call.IsPlainMutator) (hstep : session.Transition (.call name call) next) :
    (∃ changed, next.Apart name changed) ∧ SameElsewhere name session next := by
  have hrequest := request?_of_scan? h.here
  cases hstep with
  | same => exact ⟨⟨scan, h⟩, SameElsewhere.refl name session⟩
  | select selector hname =>
    have hid := Option.some.inj (h.mapOf?_eq.symm.trans hname)
    subst hid
    refine ⟨⟨scan, h.select hsound (h.hasMap hsound) selector⟩, fun other hother => ⟨rfl, ?_⟩⟩
    have hselects := session.pool.selects scan.families selector
    cases hobject : session.objects.get? other with
    | none => simp [snapshot?, hobject]
    | some object =>
      have hsee : (session.pool.select scan.families selector).snapshot object =
          session.pool.snapshot object := by
        refine Pool.snapshot_congr (fun id hid => ?_) hselects.filter_eq
        -- another name stands for another map
        refine h.unshared.contents_of_ne hsound.pool hselects ?_
        rintro rfl
        exact h.unnamed other hother (by rw [mapOf?, hobject]; exact hid)
      simp [snapshot?, hobject, hsee]
  | set hname hset =>
    obtain rfl := Option.some.inj (hrequest.symm.trans hname)
    rcases Request.apply_eq_ok hset with ⟨criteria, happly, rfl⟩
    have hfamilies : (scan.withCriteria criteria).families = scan.families :=
      (Criteria.apply_keeps happly).1
    exact ⟨⟨_, h.bind_self hfamilies⟩, sameElsewhere_bind _ _ _⟩
  | setScan hname hset =>
    obtain rfl := Option.some.inj (h.here.symm.trans hname)
    exact ⟨⟨_, h.bind_self (Scan.apply_keeps hset).1⟩, sameElsewhere_bind _ _ _⟩
  | @useFilter _ filterName? request filter? hname hfilter =>
    obtain rfl := Option.some.inj (hrequest.symm.trans hname)
    have hfamilies : { scan with filter? }.families = scan.families := rfl
    exact ⟨⟨_, h.bind_self hfamilies⟩, sameElsewhere_bind _ _ _⟩
  | useMap => exact hcall.elim
  | setWholeRow => exact hcall.elim

/-- A scan that is apart stays so along every run of steps that keep it apart. -/
theorem run (h : session.Apart name scan) (hsound : session.Sound) {steps : List Step}
    (hkeeps : ∀ step ∈ steps, step.KeepsApart name) {outcomes : List (Outcome Answer)}
    (hrun : session.run? steps = some (next, outcomes)) :
    next.Sound ∧ ∃ changed, next.Apart name changed := by
  refine run?_invariant (P := fun s => s.Sound ∧ ∃ changed, s.Apart name changed) ?_ hrun
    ⟨hsound, scan, h⟩
  rintro s t step outcome hmem hstep ⟨hs, found, hfound⟩
  refine ⟨hs.step hstep, ?_⟩
  have htransition := step?_transition hstep
  rcases hkeeps step hmem with hname | ⟨call, hcall, rfl⟩
  · exact ⟨found, hfound.elsewhere hs htransition hname⟩
  · exact (hfound.mutate hs hcall htransition).1

/-- Steps that leave the name out leave the scan as it was, but for the flag of its filter. -/
theorem run_elsewhere (h : session.Apart name scan) (hsound : session.Sound) {steps : List Step}
    (hnames : ∀ step ∈ steps, name ∉ step.names) {outcomes : List (Outcome Answer)}
    (hrun : session.run? steps = some (next, outcomes)) :
    next.scan? name = some scan ∧
      next.pool.contents scan.families = session.pool.contents scan.families ∧
      ∀ filter, scan.filter? = some filter →
        (session.pool.filter filter).SameButFlag (next.pool.filter filter) := by
  have hall : next.Sound ∧ next.Apart name scan ∧
      next.pool.contents scan.families = session.pool.contents scan.families ∧
      ∀ filter, scan.filter? = some filter →
        (session.pool.filter filter).SameButFlag (next.pool.filter filter) := by
    refine run?_invariant (P := fun s => s.Sound ∧ s.Apart name scan ∧
      s.pool.contents scan.families = session.pool.contents scan.families ∧
      ∀ filter, scan.filter? = some filter →
        (session.pool.filter filter).SameButFlag (s.pool.filter filter)) ?_ hrun
      ⟨hsound, h, rfl, fun _ _ => Filter.SameButFlag.refl _⟩
    rintro s t step outcome hmem hstep ⟨hs, hapart, hcontents, hfilters⟩
    have htransition := step?_transition hstep
    have hname := hnames step hmem
    refine ⟨hs.step hstep, hapart.elsewhere hs htransition hname,
      (hapart.contents_eq hs htransition hname).trans hcontents, fun filter hfilter => ?_⟩
    -- the filter is shared, and whoever has it may set its flag
    have hhas := (hs.scan hapart.here).filter filter hfilter
    exact (hfilters filter hfilter).trans (htransition.filter_sameButFlag hhas)
  exact ⟨hall.2.1.here, hall.2.2⟩

/-- Plain mutators can be called on the scan one after another, and none shows under another name.
-/
theorem run_mutate (h : session.Apart name scan) (hsound : session.Sound) {calls : List Call}
    (hcalls : ∀ call ∈ calls, call.IsPlainMutator) :
    ∃ last outcomes, session.run? (calls.map (.call name)) = some (last, outcomes) ∧
      SameElsewhere name session last := by
  induction calls generalizing session scan with
  | nil => exact ⟨session, [], rfl, SameElsewhere.refl name session⟩
  | cons call rest ih =>
    have hcall := hcalls call List.mem_cons_self
    rcases exists_step?_plain h.here hcall with ⟨next, outcome, hstep⟩
    rcases h.mutate hsound hcall (step?_transition hstep) with ⟨⟨changed, hchanged⟩, hsame⟩
    rcases ih hchanged (hsound.step hstep) fun c hc => hcalls c (List.mem_cons_of_mem _ hc) with
      ⟨last, outcomes, hrun, hrest⟩
    exact ⟨last, outcome :: outcomes,
      run?_cons_eq_some.2 ⟨next, outcome, outcomes, hstep, hrun, rfl⟩, hsame.trans hrest⟩

end Apart

/-- **A copy is isolated.** Copying a scan always succeeds. From then on, at any point of a run that
only leaves the copy out or changes it by plain values: steps that leave the copy out leave it as it
is, its map with contents and order and its filter included, but for the flag of the filter; and
plain mutators called on the copy show under no other name. -/
theorem copy_isolated (hreach : Reachable session) (hscan : session.scan? name = some scan)
    (copyName : String) :
    ∃ start, session.step? (.make copyName (.copy name)) = some (start, .ok .created) ∧
      ∀ steps middle outcomes, (∀ step ∈ steps, step.KeepsApart copyName) →
        start.run? steps = some (middle, outcomes) →
        ∃ copy, middle.scan? copyName = some copy ∧
          (∀ steps last outcomes, (∀ step ∈ steps, copyName ∉ step.names) →
            middle.run? steps = some (last, outcomes) →
            last.scan? copyName = some copy ∧
              last.pool.contents copy.families = middle.pool.contents copy.families ∧
              ∀ filter, copy.filter? = some filter →
                (middle.pool.filter filter).SameButFlag (last.pool.filter filter)) ∧
          ∀ calls : List Call, (∀ call ∈ calls, call.IsPlainMutator) →
            ∃ last outcomes, middle.run? (calls.map (.call copyName)) = some (last, outcomes) ∧
              SameElsewhere copyName middle last := by
  have hsound := hreach.sound
  -- a copy checks the window again, and in a reachable session it is always valid
  have hcopy := step?_copy hscan (hsound.scan hscan).window copyName
  refine ⟨_, hcopy, ?_⟩
  intro steps middle outcomes hkeeps hrun
  rcases (apart_afterCopy hsound scan copyName).run (hsound.step hcopy) hkeeps hrun with
    ⟨hmiddle, copy, hapart⟩
  refine ⟨copy, hapart.here, ?_, ?_⟩
  · intro steps last outcomes hnames hlater
    exact hapart.run_elsewhere hmiddle hnames hlater
  · intro calls hcalls
    exact hapart.run_mutate hmiddle hcalls

/-- A copy of a scan that shares its map with the lookup it was lifted from. -/
theorem copy_isolated_of_lifted :
    let session := after [.make "lookup" (.lookup [114]), .make "scan" (.lift "lookup"),
      .call "scan" (.select (.column [102] (some [113])))]
    session.scan? "scan" = some { families := ⟨0⟩, startRow := [114], stopRow := [114] } ∧
      session.mapOf? "lookup" = some ⟨0⟩ ∧
      ∃ start, session.step? (.make "copy" (.copy "scan")) = some (start, .ok .created) ∧
        ∀ calls : List Call, (∀ call ∈ calls, call.IsPlainMutator) →
          ∃ last outcomes, start.run? (calls.map (.call "copy")) = some (last, outcomes) ∧
            SameElsewhere "copy" start last := by
  intro session
  have hscan : session.scan? "scan" =
      some { families := ⟨0⟩, startRow := [114], stopRow := [114] } := rfl
  rcases copy_isolated (reachable_after _) hscan "copy" with ⟨start, hstep, hruns⟩
  rcases hruns [] start [] (fun step hmem => by cases hmem) rfl with ⟨copy, -, -, hcalls⟩
  exact ⟨hscan, rfl, start, hstep, hcalls⟩

end Session

end ReadPlan
