import ReadPlan.Proofs.Session.CopyRuns
import ReadPlan.Proofs.Session.Mutators
import ReadPlan.Proofs.Session.Order

/-!
# ReadPlan.Proofs.Session.Conflicts — which calls on a request commute

A call that changes a request either selects through its families or writes one part of it
(`Session.Mutates`). Two such calls conflict if they write the same part, select in the same family,
or if one of them replaces what the other reads: the family map under a selection, the filter under
a batch size (`Call.Conflicts`). All others commute: each has the same outcome in either order, and
the two sessions they lead to differ at most in the order of families and attributes
(`Session.commute`).
-/

namespace ReadPlan

/-! ## Conflicts -/

namespace Call

/-- The one call replaces what the other one reads. -/
def Disturbs (first second : Call) : Prop :=
  (first.part? = some .families ∧ second.family? ≠ none) ∨
    (first.part? = some .filter ∧ second.part? = some .batch)

/-- The calls write the same part, or select in the same family, or one disturbs the other. -/
def Conflicts (first second : Call) : Prop :=
  (first.part? ≠ none ∧ first.part? = second.part?) ∨
    (first.family? ≠ none ∧ first.family? = second.family?) ∨
    first.Disturbs second ∨ second.Disturbs first

instance (first second : Call) : Decidable (first.Disturbs second) :=
  inferInstanceAs (Decidable (_ ∨ _))

instance (first second : Call) : Decidable (first.Conflicts second) :=
  inferInstanceAs (Decidable (_ ∨ _))

theorem Conflicts.symm {first second : Call} (h : first.Conflicts second) :
    second.Conflicts first := by
  rcases h with ⟨hsome, heq⟩ | ⟨hsome, heq⟩ | hdisturbs | hdisturbs
  · exact Or.inl ⟨heq ▸ hsome, heq.symm⟩
  · exact Or.inr (Or.inl ⟨heq ▸ hsome, heq.symm⟩)
  · exact Or.inr (Or.inr (Or.inr hdisturbs))
  · exact Or.inr (Or.inr (Or.inl hdisturbs))

end Call

namespace Session

variable {session next : Session} {name : String} {request : Request MapId FilterId} {call : Call}

/-! ## Calls that commute -/

/-- In a session that differs in order alone the call does the same. -/
theorem Mutates.congr {outcome : Outcome Answer} (h : session.Mutates name request call next outcome)
    (hname : session.request? name = some request) {other : Session}
    (hsame : session.SameButOrder other) (hsound : session.Sound) (hother : other.Sound) :
    ∃ found later, other.request? name = some found ∧
      other.Mutates name found call later outcome ∧ next.SameButOrder later := by
  rcases hsame.request? hname with ⟨found, hfound, hrequest⟩
  cases h with
  | select selector =>
    refine ⟨found, _, hfound, .select selector, hsame.withPool ?_⟩
    rw [hrequest.families_eq]
    exact hsame.pool.select hsound.pool hother.pool (hsound.request hname).map selector
  | write hwrite =>
    have hwriteToo := (write?_congr hsame.map?_eq hsame.filter?_eq hsame.pool.filter_eq
      hrequest.scanFilter?_eq call).symm.trans hwrite
    exact ⟨found, _, hfound, .write hwriteToo, hsame.bind (.request (hrequest.take _)) name⟩

/-- The two calls have the same outcomes in either order, and lead to the same session but for the
order of families and attributes. -/
def Commute (session : Session) (name : String) (first second : Call) : Prop :=
  ∃ next last next' last' outcome other,
    session.step? (.call name first) = some (next, outcome) ∧
    next.step? (.call name second) = some (last, other) ∧
    session.step? (.call name second) = some (next', other) ∧
    next'.step? (.call name first) = some (last', outcome) ∧
    last.SameButOrder last'

theorem Commute.symm {first second : Call} (h : session.Commute name first second) :
    session.Commute name second first := by
  rcases h with ⟨next, last, next', last', outcome, other, hone, htwo, hone', htwo', hsame⟩
  exact ⟨next', last', next, last, other, outcome, hone', htwo', hone, htwo, hsame.symm⟩

variable {first second : Call}

/-- A selection commutes with everything that leaves the families. -/
theorem commute_select_write (hname : session.request? name = some request) (selector : Selector)
    {outcome : Outcome (Write MapId FilterId)} {part : Part}
    (hwrite : session.write? request call = some outcome) (hwrites : outcome.WritesTo part)
    (hpart : part ≠ .families) : session.Commute name (.select selector) call := by
  have hselects := session.pool.selects request.criteria.families selector
  generalize hpool : session.pool.select request.criteria.families selector = pool at hselects
  have hselected : Session.request? { session with pool } name = some request := hname
  have hselect : session.Mutates name request (.select selector) { session with pool }
      (.ok .itself) := hpool ▸ .select selector
  -- the call reads nothing that the selection has changed
  have hwriteThen : Session.write? { session with pool } request call = some outcome := by
    rw [← hwrite]
    apply write?_congr
    · rfl
    · rfl
    · exact hselects.filter_eq
    · rfl
  -- the selection goes through the map that the request refers to still
  have hselectThen : (session.bind name (.request (request.take outcome))).Mutates name
      (request.take outcome) (.select selector)
      ({ session with pool }.bind name (.request (request.take outcome))) (.ok .itself) := by
    rw [← hpool, ← request.families_take hwrites hpart]
    exact .select selector
  exact ⟨_, _, _, _, _, _, hselect.step?_eq hname,
    step?_of_write? hselected hwriteThen, step?_of_write? hname hwrite,
    hselectThen.step?_eq (request?_bind_self _ _ _), .refl _⟩

/-- The value of a call does not depend on what another call has written, unless that disturbs it. -/
theorem write?_take (hname : session.request? name = some request)
    {outcome : Outcome (Write MapId FilterId)} {part : Part} (hwrites : outcome.WritesTo part)
    (hcall : ¬ (part = .filter ∧ call.part? = some .batch)) :
    (session.bind name (.request (request.take outcome))).write? (request.take outcome) call =
      session.write? request call := by
  have hmap := map?_bind_request hname (request.take outcome)
  have hfilter := filter?_bind_request hname (request.take outcome)
  by_cases hpart : part = .filter
  · cases call with
    | setScan setting =>
      have hsetting : setting.part ≠ .batch := fun heq => hcall ⟨hpart, congrArg some heq⟩
      have hkind := request.isSome_scanFilter?_take outcome
      rw [write?, write?]
      generalize (request.take outcome).scanFilter? = after at hkind ⊢
      generalize request.scanFilter? = before at hkind ⊢
      cases after <;> cases before
      · rfl
      · cases hkind
      · cases hkind
      · exact congrArg some (setting.write_congr hsetting _ _)
    | useMap map => rw [write?, write?, hmap]
    | useFilter filterName? => rw [write?, write?, filterOrNone?_congr hfilter]
    | set | select | setWholeRow | ask | askScan | compare => rfl
  · exact write?_congr hmap hfilter rfl (request.scanFilter?_take hwrites hpart).symm call

theorem commute_write_write (hname : session.request? name = some request)
    {outcome other : Outcome (Write MapId FilterId)} {p q : Part}
    (hfirst : session.write? request first = some outcome) (hone : outcome.WritesTo p)
    (hsecond : session.write? request second = some other) (htwo : other.WritesTo q)
    (hne : p ≠ q) (hbatch : ¬ (p = .filter ∧ second.part? = some .batch))
    (hbatch' : ¬ (q = .filter ∧ first.part? = some .batch)) :
    session.Commute name first second := by
  have hsecondThen := (write?_take hname hone hbatch).trans hsecond
  have hfirstThen := (write?_take hname htwo hbatch').trans hfirst
  refine ⟨_, _, _, _, _, _, step?_of_write? hname hfirst,
    step?_of_write? (request?_bind_self _ _ _) hsecondThen, step?_of_write? hname hsecond,
    step?_of_write? (request?_bind_self _ _ _) hfirstThen, ?_⟩
  rw [bind_bind, bind_bind]
  exact (SameButOrder.refl session).bind (.request (request.take_comm hone htwo hne)) name

/-- Calls that do not conflict commute. -/
theorem commute (hsound : session.Sound) (hname : session.request? name = some request)
    (hfirst : first.IsMutator) (hsecond : second.IsMutator)
    (htakesFirst : session.Takes name first) (htakesSecond : session.Takes name second)
    (h : ¬ first.Conflicts second) : session.Commute name first second := by
  simp only [Call.Conflicts, not_or] at h
  rcases h with ⟨hparts, hfamilies, hdisturbs, hdisturbs'⟩
  rcases exists_mutates hname hfirst htakesFirst with ⟨next, outcome, hone⟩
  rcases exists_mutates hname hsecond htakesSecond with ⟨next', other, htwo⟩
  cases hone with
  | select selector =>
    cases htwo with
    | select selector' =>
      have hne : selector.family ≠ selector'.family := by
        intro heq
        exact hfamilies ⟨Option.some_ne_none _, congrArg some heq⟩
      have hid := (hsound.request hname).map
      have hsame := Pool.select_comm hsound.pool hid hid hne
      have hselected : ∀ pool, Session.request? { session with pool } name = some request :=
        fun _ => hname
      exact ⟨_, _, _, _, _, _, (Mutates.select selector).step?_eq hname,
        (Mutates.select selector').step?_eq (hselected _),
        (Mutates.select selector').step?_eq hname,
        (Mutates.select selector).step?_eq (hselected _),
        (SameButOrder.refl session).withPool hsame⟩
    | write hwrite =>
      rcases writesTo_of_write? hwrite with ⟨part, hpart, hwrites⟩
      refine commute_select_write hname selector hwrite hwrites ?_
      rintro rfl
      exact hdisturbs' (Or.inl ⟨hpart, Option.some_ne_none _⟩)
  | write hwrite =>
    rcases writesTo_of_write? hwrite with ⟨part, hpart, hwrites⟩
    cases htwo with
    | select selector =>
      refine (commute_select_write hname selector hwrite hwrites ?_).symm
      rintro rfl
      exact hdisturbs (Or.inl ⟨hpart, Option.some_ne_none _⟩)
    | write hwrite' =>
      rcases writesTo_of_write? hwrite' with ⟨part', hpart', hwrites'⟩
      refine commute_write_write hname hwrite hwrites hwrite' hwrites' ?_ ?_ ?_
      · rintro rfl
        exact hparts ⟨hpart ▸ Option.some_ne_none _, hpart.trans hpart'.symm⟩
      · rintro ⟨rfl, hbatch⟩
        exact hdisturbs (Or.inr ⟨hpart, hbatch⟩)
      · rintro ⟨rfl, hbatch⟩
        exact hdisturbs' (Or.inr ⟨hpart', hbatch⟩)

end Session

end ReadPlan
