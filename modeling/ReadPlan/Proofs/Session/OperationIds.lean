import ReadPlan.Proofs.Request.Descriptions
import ReadPlan.Proofs.Session.AttributeRuns
import ReadPlan.Proofs.Text.Utf8Faults

/-!
# ReadPlan.Proofs.Session.OperationIds — the id of an operation

The id of a request is stored as UTF-8 under a reserved name and read back strictly. What was stored
stays with the request and goes to its copies until the attribute is written again
(`attributeLedger`). A stored id is read back as it was given, and other bytes under the name are
read just if they are well-formed UTF-8, as a text that is stored as these bytes
(`Session.operationId_readable`). If they are not, whoever reads the id fails with the same fault,
which tells their first undecodable part (`Session.malformedId_located`).
-/

namespace ReadPlan

open Session

/-- The attribute that was written has the value that was written. -/
theorem Request.get?_take_entry {μ φ : Type} (request : Request μ φ) (key : String)
    (value? : Option Bytes) :
    (request.take (.ok (.entry key value?))).criteria.attributes.get? key = value? := by
  cases request <;> exact (Attributes.get?_set _ _ _ _).trans (if_pos rfl)

/-! ## An attribute that is not written again -/

/-- Whether a request still has an attribute as it was given to one request before: that request as
long as no call writes the attribute, and the copies that were made of it meanwhile. -/
def attributeLedger (key : String) : Ledger Prop where
  fresh := False
  lift _ := False
  call call _ has := has ∧ call.part? ≠ some (.attribute key)

/-- Whoever still has the attribute has it with its value. -/
theorem attributeLedger_follows (key : String) (value? : Option Bytes) :
    (attributeLedger key).Follows fun request has =>
      has → request.criteria.attributes.get? key = value? where
  scan _ _ _ _ h := h.elim
  lookup _ _ _ h := h.elim
  copy _ _ _ h := h
  lift _ _ _ h := h.elim
  call _ _ _ call _ _ _ _ hname hstep hchanged h hhas := by
    rw [attributes_of_step? hname hstep hchanged, Call.get?_give hhas.2]
    exact h hhas.1

namespace Session

variable {session next last : Session} {name : String} {request : Request MapId FilterId}

/-- The setting is taken by the request of the name; and after any steps that follow, what is said
holds under every name whose request still has the attribute as it was given. -/
def AfterGiving (session : Session) (name key : String) (setting : Setting)
    (holds : Session → String → Prop) : Prop :=
  ∃ next, session.step? (.call name (.set setting)) = some (next, .ok .itself) ∧
    ∀ steps last outcomes holder found, next.run? steps = some (last, outcomes) →
      last.request? holder = some found →
      (attributeLedger key).after (· = name) steps outcomes holder → holds last holder

/-- What holds wherever the attribute has the value that was given holds after it was given. -/
theorem afterGiving (hsound : session.Sound) (hname : session.request? name = some request)
    {key : String} {value? : Option Bytes} {setting : Setting}
    (hwrite : (setting.write : Outcome (Write MapId FilterId)) = .ok (.entry key value?))
    {holds : Session → String → Prop}
    (h : ∀ last holder found, last.request? holder = some found →
      found.criteria.attributes.get? key = value? → holds last holder) :
    session.AfterGiving name key setting holds := by
  have hwritten : session.write? request (.set setting) = some (.ok (.entry key value?)) :=
    congrArg some hwrite
  have hstep := step?_of_write? hname hwritten
  refine ⟨_, hstep, ?_⟩
  intro steps last outcomes holder found hrun hfound hhas
  refine h last holder found hfound ?_
  -- at first the request of the name alone has the attribute, with its value
  refine (attributeLedger_follows key value?).kept_run ?_ (hsound.step hstep) hrun holder found
    hfound hhas
  rintro other changed hother rfl
  obtain rfl := Option.some.inj ((request?_bind_self _ _ _).symm.trans hother)
  exact request.get?_take_entry key value?

/-! ## Ids -/

/-- Asked for its id, the request gives a text just if the bytes stored for it are well-formed UTF-8:
the text that they spell, which is stored as these bytes again. -/
structure ReadsId (session : Session) (name : String) (value : Bytes) (result : Except Failure Answer) :
    Prop where
  asked : session.step? (.call name (.ask .operationId)) = some (session, .ofExcept result)
  readable : (∃ id, result = .ok (.text? (some id))) ↔ Utf8.IsUtf8 value
  spelled : ∀ answer, result = .ok answer ↔
    ∃ id, answer = .text? (some id) ∧ Utf8.Spells value (Utf8.codes id)
  restored : ∀ id, result = .ok (.text? (some id)) → ∃ next,
    session.step? (.call name (.set (.operationId id))) = some (next, .ok .itself) ∧
      next.step? (.call name (.ask (.attribute Attributes.idName))) =
        some (next, .ok (.bytes? (some value)))

theorem exists_readsId (hname : session.request? name = some request) {value : Bytes}
    (hvalue : request.criteria.attributes.get? Attributes.idName = some value) :
    ∃ result, session.ReadsId name value result := by
  have hspelled : ∀ answer, Accessor.operationId.decode value = .ok answer ↔
      ∃ id, answer = .text? (some id) ∧ Utf8.Spells value (Utf8.codes id) := by
    intro answer
    rw [Accessor.decode_eq_ok_iff]
    constructor
    · intro h
      cases h with
      | operationId id => exact ⟨id, rfl, Utf8.spells_encode id⟩
    · rintro ⟨id, rfl, hspells⟩
      rw [← Utf8.spells_codes_iff.1 hspells]
      exact .operationId id
  have hids : ∀ id, Accessor.operationId.decode value = .ok (.text? (some id)) ↔
      Utf8.encode id = value := by
    intro id
    rw [hspelled, ← Utf8.spells_codes_iff]
    constructor
    · rintro ⟨other, heq, hspells⟩
      cases heq
      exact hspells
    · intro hspells
      exact ⟨id, rfl, hspells⟩
  refine ⟨Accessor.operationId.decode value, ?_, ?_, hspelled, ?_⟩
  · rw [step?_operationId hname, hvalue]
    rfl
  · rw [Utf8.isUtf8_iff]
    exact exists_congr hids
  · intro id hid
    have hwritten : session.write? request (.set (.operationId id)) =
        some (.ok (.entry Attributes.idName (some (Utf8.encode id)))) :=
      congrArg some (Setting.write_operationId id)
    have hstep := step?_of_write? hname hwritten
    refine ⟨_, hstep, ?_⟩
    rw [step?_attribute (request?_bind_self _ _ _), ← (hids id).1 hid]
    exact congrArg (fun stored => some (_, Outcome.ok (Answer.bytes? stored)))
      (request.get?_take_entry Attributes.idName (some (Utf8.encode id)))

end Session

/-! ## Malformed ids -/

/-- A question that reads an id fails as reading the id does. -/
theorem Request.answer_eq_error {request : Request Selection Filter} {failure : Failure}
    (hid : request.criteria.attributes.operationId = .error failure) {query : Query}
    (hreads : query.ReadsId) : request.answer query = .error failure := by
  have hdescribe := request.describe_of_error hid
  cases query with
  | operationId =>
    rw [answer, hid]
    rfl
  | describe maxColumns =>
    rw [answer, hdescribe]
    rfl
  | text maxColumns =>
    rw [answer, toText, hdescribe]
    rfl
  | _ => exact hreads.elim

namespace Session

/-- **A malformed id is reported at the right place.** Bytes that are not well-formed UTF-8 have one
fault. It starts where their longest well-formed beginning ends and stops where no code point is under
way any more, after one to three bytes; and it tells whether the first of these starts no code point,
the bytes end too early, or a byte does not go on with a code point. Every scan or lookup with these
bytes for its id fails with just this fault when it is asked for the id, described or written as a
text, for any number of columns. -/
theorem malformedId_located {value : Bytes} (hmalformed : ¬ Utf8.IsUtf8 value) :
    ∃ fault : Utf8.Malformed, fault.Locates value ∧
      (fault.start < fault.stop ∧ fault.stop ≤ value.length ∧ fault.stop - fault.start ≤ 3) ∧
      ∀ (session : Session) name request, session.request? name = some request →
        request.criteria.attributes.get? Attributes.idName = some value →
        ∀ query : Query, query.ReadsId → session.step? (.call name (.ask query)) =
          some (session, .ofExcept (.error (.malformedText fault))) := by
  rw [Utf8.isUtf8_iff, ← Utf8.exists_decode_eq_error_iff] at hmalformed
  rcases hmalformed with ⟨fault, hfault⟩
  have hlocates := Utf8.decode_eq_error_iff.1 hfault
  refine ⟨fault, hlocates, hlocates.bounds, ?_⟩
  intro session name request hname hvalue query hreads
  have hid : (session.pool.resolve request).criteria.attributes.operationId =
      .error (.malformedText fault) := by
    rw [Pool.resolve, Request.criteria_map]
    show request.criteria.attributes.operationId = _
    rw [Attributes.operationId, hvalue]
    dsimp only
    rw [hfault]
  rw [step?_ask hname, Request.answer_eq_error hid hreads]

/-- Behind a letter of two bytes a code point of four bytes ends after three of them. A lookup with
this id cannot be written as a text. -/
theorem malformedId_located_truncated :
    let value : Bytes := [0xc3, 0xa9, 0xf0, 0x9f, 0x98]
    let session := after [.make "lookup" (.lookup [0x72]),
      .call "lookup" (.set (.attribute Attributes.idName (some value)))]
    let fault : Utf8.Malformed := ⟨2, 5, 0xf0, .unexpectedEnd⟩
    ¬ Utf8.IsUtf8 value ∧ fault.Locates value ∧
      session.step? (.call "lookup" (.ask (.text 0))) =
        some (session, .ofExcept (.error (.malformedText fault))) := by
  intro value session fault
  have hdecode : Utf8.decode value = .error fault := rfl
  have hlocates := Utf8.decode_eq_error_iff.1 hdecode
  have hmalformed := hlocates.not_isUtf8
  rcases malformedId_located hmalformed with ⟨found, hfound, -, hfails⟩
  obtain rfl := hfound.unique hlocates
  exact ⟨hmalformed, hlocates, hfails session "lookup" _ rfl rfl (.text 0) trivial⟩

end Session

end ReadPlan
