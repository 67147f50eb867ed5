import ReadPlan.Proofs.Request.Order
import ReadPlan.Proofs.Session.Transition

/-!
# ReadPlan.Proofs.Session.Order — sessions up to the order of families and attributes

Two sessions may differ in nothing but the order in which families stand in the maps and attributes
in the requests (`Session.SameButOrder`). Then the same names stand for the same kinds of things,
what one can see under a name is the same but for that order, and a request is written as the same
text (`Session.SameButOrder.step?_text`).
-/

namespace ReadPlan

/-! ## Objects and what one can see of them -/

/-- The objects refer to the same things and differ at most in the order of attributes. -/
inductive Object.SameButOrder : Object → Object → Prop where
  | same (object : Object) : SameButOrder object object
  | request {first second : Request MapId FilterId} (h : first.SameButOrder Eq second) :
    SameButOrder (.request first) (.request second)

namespace Object.SameButOrder

variable {first second third : Object}

theorem symm (h : first.SameButOrder second) : second.SameButOrder first := by
  cases h with
  | same => exact .same first
  | request h => exact .request h.symm

theorem trans (h : first.SameButOrder second) (h' : second.SameButOrder third) :
    first.SameButOrder third := by
  cases h with
  | same => exact h'
  | request hone =>
    cases h' with
    | same => exact .request hone
    | request htwo => exact .request (hone.trans htwo)

end Object.SameButOrder

/-- The snapshots show the same but for the order of families and attributes. -/
inductive Snapshot.SameButOrder : Snapshot → Snapshot → Prop where
  | request {first second : Request Selection Filter}
    (h : first.SameButOrder Selection.SameContents second) :
    SameButOrder (.request first) (.request second)
  | familyMap {first second : Selection} (h : first.SameContents second) :
    SameButOrder (.familyMap first) (.familyMap second)
  | filter (filter : Filter) : SameButOrder (.filter filter) (.filter filter)

/-- What one can see of an object is the same but for the order. -/
theorem Object.SameButOrder.snapshot {first second : Object} (h : first.SameButOrder second)
    {pool later : Pool} (hpool : pool.SameButOrder later) :
    (pool.snapshot first).SameButOrder (later.snapshot second) := by
  cases h with
  | request h => exact .request (h.resolve hpool)
  | same =>
    cases first with
    | request request => exact .request ((Request.SameButOrder.refl request).resolve hpool)
    | familyMap id => exact .familyMap (hpool.contents id)
    | filter id =>
      rw [Pool.snapshot, Pool.snapshot, hpool.filter_eq]
      exact .filter _

/-! ## Sessions -/

namespace Session

/-- The sessions have the same objects under the same names, over the same pool, but for the order
of families and attributes. -/
structure SameButOrder (first second : Session) : Prop where
  pool : first.pool.SameButOrder second.pool
  names : first.objects.keys = second.objects.keys
  objects : ∀ name,
    Option.Rel Object.SameButOrder (first.objects.get? name) (second.objects.get? name)

variable {name : String} {request : Request MapId FilterId}

namespace SameButOrder

variable {first second third : Session}

theorem refl (session : Session) : session.SameButOrder session := by
  refine ⟨Pool.SameButOrder.refl _, rfl, ?_⟩
  intro name
  cases session.objects.get? name with
  | none => exact .none
  | some object => exact .some (.same object)

theorem symm (h : first.SameButOrder second) : second.SameButOrder first := by
  refine ⟨h.pool.symm, h.names.symm, ?_⟩
  intro name
  have hobjects := h.objects name
  generalize first.objects.get? name = one at hobjects ⊢
  generalize second.objects.get? name = two at hobjects ⊢
  cases hobjects with
  | none => exact .none
  | some hsame => exact .some hsame.symm

theorem trans (h : first.SameButOrder second) (h' : second.SameButOrder third) :
    first.SameButOrder third := by
  refine ⟨h.pool.trans h'.pool, h.names.trans h'.names, ?_⟩
  intro name
  have hfirst := h.objects name
  have hsecond := h'.objects name
  generalize first.objects.get? name = one at hfirst ⊢
  generalize second.objects.get? name = two at hfirst hsecond
  generalize third.objects.get? name = three at hsecond ⊢
  cases hfirst with
  | none => exact hsecond
  | some hone =>
    cases hsecond with
    | some htwo => exact .some (hone.trans htwo)

theorem request? (h : first.SameButOrder second) (hname : first.request? name = some request) :
    ∃ other, second.request? name = some other ∧ request.SameButOrder Eq other := by
  have hobjects := h.objects name
  rw [request?_eq_some.1 hname] at hobjects
  generalize hsecond : second.objects.get? name = found at hobjects
  cases hobjects with
  | some hsame =>
    cases hsame with
    | same => exact ⟨request, request?_eq_some.2 hsecond, .refl request⟩
    | request hsame => exact ⟨_, request?_eq_some.2 hsecond, hsame⟩

theorem map?_eq (h : first.SameButOrder second) : first.map? = second.map? := by
  funext name
  have hobjects := h.objects name
  unfold Session.map?
  generalize first.objects.get? name = one at hobjects ⊢
  generalize second.objects.get? name = two at hobjects ⊢
  cases hobjects with
  | none => rfl
  | some hsame => cases hsame <;> rfl

theorem filter?_eq (h : first.SameButOrder second) : first.filter? = second.filter? := by
  funext name
  have hobjects := h.objects name
  unfold Session.filter?
  generalize first.objects.get? name = one at hobjects ⊢
  generalize second.objects.get? name = two at hobjects ⊢
  cases hobjects with
  | none => rfl
  | some hsame => cases hsame <;> rfl

/-- Naming objects that differ in order alone leaves sessions that differ in order alone. -/
theorem bind (h : first.SameButOrder second) {object other : Object}
    (hobject : object.SameButOrder other) (name : String) :
    (first.bind name object).SameButOrder (second.bind name other) := by
  refine ⟨h.pool, ?_, ?_⟩
  · show (first.objects.put name object).keys = (second.objects.put name other).keys
    rw [OrderedMap.keys_put, OrderedMap.keys_put, h.names]
  · intro found
    rw [get?_bind, get?_bind]
    by_cases heq : found = name
    · rw [if_pos heq, if_pos heq]
      exact .some hobject
    · rw [if_neg heq, if_neg heq]
      exact h.objects found

theorem withPool (h : first.SameButOrder second) {pool later : Pool}
    (hpool : pool.SameButOrder later) :
    SameButOrder { first with pool } { second with pool := later } :=
  ⟨hpool, h.names, h.objects⟩

/-- Whatever one can see is the same but for the order. -/
theorem snapshot? (h : first.SameButOrder second) (name : String) :
    Option.Rel Snapshot.SameButOrder (first.snapshot? name) (second.snapshot? name) := by
  have hobjects := h.objects name
  unfold Session.snapshot?
  generalize first.objects.get? name = one at hobjects ⊢
  generalize second.objects.get? name = two at hobjects ⊢
  cases hobjects with
  | none => exact .none
  | some hsame => exact .some (hsame.snapshot h.pool)

/-- A request is described alike in sessions that differ in order alone. -/
theorem step?_text (h : first.SameButOrder second) (hname : first.request? name = some request)
    (maxColumns : Int) :
    ∃ outcome, first.step? (.call name (.ask (.text maxColumns))) = some (first, outcome) ∧
      second.step? (.call name (.ask (.text maxColumns))) = some (second, outcome) := by
  rcases h.request? hname with ⟨other, hother, hrequest⟩
  have htext := (hrequest.resolve h.pool).alike.toText_eq maxColumns
  refine ⟨_, step?_ask hname _, ?_⟩
  rw [step?_ask hother, Request.answer, Request.answer, htext]

end SameButOrder

end Session

end ReadPlan
