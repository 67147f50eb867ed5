import ReadPlan.Proofs.Session.Mutators
import ReadPlan.Proofs.Session.Requests

/-!
# ReadPlan.Proofs.Session.Ledgers — what is kept along with the requests of a run

A ledger has an entry for each name and follows the steps of a run: a call on a request changes the
entry of its name, a copy takes over the entry of its source, a lift what the ledger leaves of it,
and everything else that is made starts with a fresh entry (`Ledger`). The entries are no part of a
session; they say what has happened to a request. If each way of changing a request keeps it in some
relation to its entry (`Ledger.Follows`), then so does every run (`Ledger.Follows.kept_run`).
-/

namespace ReadPlan

/-- How entries follow the steps of a run. -/
structure Ledger (α : Type) where
  /-- The entry of a request that is made from nothing. -/
  fresh : α
  /-- The entry of a lifted lookup, from that of the lookup. -/
  lift : α → α
  /-- The entry after a call with its outcome. -/
  call : Call → Outcome Answer → α → α

namespace Ledger

variable {α : Type} (ledger : Ledger α)

/-- The entry of what a construction makes. -/
def made (entries : String → α) : Construction → α
  | .copy source => entries source
  | .lift source => ledger.lift (entries source)
  | _ => ledger.fresh

/-- The entries of all names after a step. -/
def next (entries : String → α) (step : Step) (outcome : Outcome Answer) (name : String) : α :=
  if name = step.target then
    match step with
    | .make _ construction => ledger.made entries construction
    | .call _ call => ledger.call call outcome (entries name)
  else entries name

/-- The entries of all names after the steps of a run and their outcomes. -/
def after (entries : String → α) : List Step → List (Outcome Answer) → String → α
  | step :: steps, outcome :: outcomes => after (ledger.next entries step outcome) steps outcomes
  | _, _ => entries

variable {ledger} {entries : String → α} {name : String} {outcome : Outcome Answer}

theorem next_make (construction : Construction) :
    ledger.next entries (.make name construction) outcome name =
      ledger.made entries construction :=
  if_pos rfl

theorem next_call (call : Call) :
    ledger.next entries (.call name call) outcome name =
      ledger.call call outcome (entries name) :=
  if_pos rfl

theorem next_of_ne {step : Step} (h : name ≠ step.target) :
    ledger.next entries step outcome name = entries name :=
  if_neg h

end Ledger

namespace Session

variable {α : Type} {session next last : Session} {name : String} {step : Step}
  {request changed : Request MapId FilterId} {outcome : Outcome Answer}

/-- Each request stands in the relation to the entry of its name. -/
def Kept (session : Session) (P : Request MapId FilterId → α → Prop) (entries : String → α) :
    Prop :=
  ∀ name request, session.request? name = some request → P request (entries name)

/-- A call makes no request of what was none. -/
theorem Transition.request_of_call {call : Call}
    (hstep : session.Transition (.call name call) next)
    (hchanged : next.request? name = some changed) :
    ∃ request, session.request? name = some request := by
  cases hstep with
  | same | select | setWholeRow => exact ⟨changed, hchanged⟩
  | set hname | useMap hname | useFilter hname => exact ⟨_, hname⟩
  | setScan hname => exact ⟨_, request?_of_scan? hname⟩

/-- A call on a request writes one part of it, or leaves it as it is. -/
theorem written_of_step? {call : Call} (hname : session.request? name = some request)
    (hstep : session.step? (.call name call) = some (next, outcome))
    (hchanged : next.request? name = some changed) :
    (call.part? = none ∧ changed = request) ∨
      ∃ written, session.write? request call = some written ∧
        changed = request.take written ∧ outcome = (fun _ => .itself) <$> written := by
  have hwritten : ∀ {written}, session.write? request call = some written →
      ∃ written, session.write? request call = some written ∧
        changed = request.take written ∧ outcome = (fun _ => .itself) <$> written := by
    intro written hwrite
    cases hstep.symm.trans (step?_of_write? hname hwrite)
    exact ⟨written, hwrite, Option.some.inj (hchanged.symm.trans (request?_bind_self _ _ _)), rfl⟩
  cases call with
  | set setting => exact Or.inr (hwritten rfl)
  | setScan setting =>
    cases request with
    | scan scan => exact Or.inr (hwritten rfl)
    | lookup lookup =>
      rw [step?_call_request (request?_eq_some.1 hname)] at hstep
      cases hstep
  | useMap map =>
    rw [step?_call_request (request?_eq_some.1 hname), Option.map_eq_some_iff] at hstep
    rcases hstep with ⟨effect, heffect, -⟩
    rcases Option.bind_eq_some_iff.1 heffect with ⟨families, hmap, -⟩
    exact Or.inr (hwritten (by rw [write?, hmap]; rfl))
  | useFilter filterName? =>
    rw [step?_call_request (request?_eq_some.1 hname), Option.map_eq_some_iff] at hstep
    rcases hstep with ⟨effect, heffect, -⟩
    rcases Option.bind_eq_some_iff.1 heffect with ⟨filter?, hfilter, -⟩
    exact Or.inr (hwritten (by rw [write?, hfilter]; rfl))
  | select | setWholeRow | ask | askScan | compare =>
    -- all other calls leave the request
    refine Or.inl ⟨rfl, ?_⟩
    rcases (step?_transition hstep).becomes hname id with ⟨found, hfound, hbecomes⟩
    obtain rfl := Option.some.inj (hchanged.symm.trans hfound)
    cases hbecomes
    rfl

end Session

open Session

/-- Whatever happens to a request keeps it in the relation to its entry. -/
structure Ledger.Follows {α : Type} (ledger : Ledger α)
    (P : Request MapId FilterId → α → Prop) : Prop where
  scan : ∀ families filter? startRow stopRow,
    P (.scan { families, filter?, startRow, stopRow }) ledger.fresh
  lookup : ∀ families filter? row, P (.lookup { families, filter?, row }) ledger.fresh
  copy : ∀ scan entry (f : MapId → MapId), P (.scan scan) entry → P (.scan (scan.map f id)) entry
  lift : ∀ lookup entry, P (.lookup lookup) entry → P (.scan lookup.toScan) (ledger.lift entry)
  call : ∀ (session next : Session) name call outcome request changed entry,
    session.request? name = some request →
    session.step? (.call name call) = some (next, outcome) →
    next.request? name = some changed → P request entry → P changed (ledger.call call outcome entry)

namespace Ledger.Follows

variable {α : Type} {ledger : Ledger α} {P : Request MapId FilterId → α → Prop}
  {session next last : Session} {entries : String → α} {step : Step} {outcome : Outcome Answer}

theorem made (h : ledger.Follows P) (hkept : session.Kept P entries) {construction : Construction}
    {object : Object} {pool : Pool} (hmade : session.Constructs construction object pool)
    {request : Request MapId FilterId} (hobject : object = .request request) :
    P request (ledger.made entries construction) := by
  cases hmade with
  | scan =>
    cases hobject
    exact h.scan _ _ _ _
  | lookup =>
    cases hobject
    exact h.lookup _ _ _
  | copy hscan =>
    cases hobject
    exact h.copy _ _ _ (hkept _ _ (request?_of_scan? hscan))
  | lift hlookup =>
    cases hobject
    exact h.lift _ _ (hkept _ _ (request?_of_lookup? hlookup))
  | filter | familyMap | mapOf | shareSets | copyMap => cases hobject

/-- A step keeps every request in the relation to its entry. -/
theorem kept_step (h : ledger.Follows P) (hkept : session.Kept P entries) (hsound : session.Sound)
    (hstep : session.step? step = some (next, outcome)) :
    next.Kept P (ledger.next entries step outcome) := by
  intro name request hname
  by_cases htarget : name = step.target
  · subst htarget
    cases step with
    | make target construction =>
      rcases constructs_of_step? hsound hstep with ⟨object, pool, hmade, rfl⟩
      rw [request?_eq_some] at hname
      have hobject : some object = some (.request request) :=
        ((get?_bind _ _ _ _).trans (if_pos rfl)).symm.trans hname
      exact next_make construction ▸ h.made hkept hmade (Option.some.inj hobject)
    | call target call =>
      rcases (step?_transition hstep).request_of_call hname with ⟨before, hbefore⟩
      exact next_call call ▸ h.call _ _ _ _ _ _ _ _ hbefore hstep hname (hkept _ _ hbefore)
  · rw [next_of_ne htarget]
    rw [request?_eq_some, (step?_transition hstep).get?_of_ne htarget] at hname
    exact hkept name request (request?_eq_some.2 hname)

/-- And so does a run. -/
theorem kept_run (h : ledger.Follows P) {steps : List Step} {outcomes : List (Outcome Answer)}
    (hkept : session.Kept P entries) (hsound : session.Sound)
    (hrun : session.run? steps = some (last, outcomes)) :
    last.Kept P (ledger.after entries steps outcomes) := by
  induction steps generalizing session entries outcomes with
  | nil =>
    cases hrun
    exact hkept
  | cons step rest ih =>
    rcases run?_cons_eq_some.1 hrun with ⟨next, outcome, later, hstep, hrest, rfl⟩
    exact ih (h.kept_step hkept hsound hstep) (hsound.step hstep) hrest

/-- In a run from the beginning every entry starts fresh. -/
theorem kept_run_initial (h : ledger.Follows P) {steps : List Step} {outcomes : List (Outcome Answer)}
    (hrun : initial.run? steps = some (last, outcomes)) :
    last.Kept P (ledger.after (fun _ => ledger.fresh) steps outcomes) := by
  refine h.kept_run ?_ sound_initial hrun
  intro name request hname
  cases hname

end Ledger.Follows

end ReadPlan
