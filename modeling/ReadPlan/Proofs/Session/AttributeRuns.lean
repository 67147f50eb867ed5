import ReadPlan.Proofs.Request.Accessors
import ReadPlan.Proofs.Request.AttributeHistory
import ReadPlan.Proofs.Session.RequestHistory

/-!
# ReadPlan.Proofs.Session.AttributeRuns — attributes follow the history of a run

After any run the attributes of a scan are decided by what was written to it and, before it was
copied, to the scan it is a copy of (`Session.attributes_decided`). What one can ask about the
attributes agrees with this, and each of the four typed questions depends on the last write of its
own name alone.
-/

namespace ReadPlan

variable {history : History}

/-! ## Calls and attributes -/

/-- The attributes after a value was given to their request. -/
def Attributes.give (attributes : Attributes) : Option Given → Attributes
  | some (.write name value?) => attributes.set name value?
  | _ => attributes

theorem Attributes.DecidedBy.give {attributes : Attributes} (h : attributes.DecidedBy history)
    (given? : Option Given) : (attributes.give given?).DecidedBy (history.add given?) := by
  cases given? with
  | none => exact h
  | some given =>
    cases given with
    | write name value? => exact h.set name value?
    | cellLimit | cellOffset | maxResultSize => exact h.cons_of_not_write rfl

/-- The attributes take what is given as the history does. -/
theorem Request.attributes_take {μ φ : Type} (request : Request μ φ)
    {outcome : Outcome (Write μ φ)} {given? : Option Given} (hgives : outcome.Gives given?) :
    (request.take outcome).criteria.attributes = request.criteria.attributes.give given? := by
  cases hgives with
  | error => rfl
  | ok write => cases write <;> cases request <;> rfl

/-- A call that writes another part gives no write of the attribute. -/
theorem Call.get?_give {call : Call} {name : String} (h : call.part? ≠ some (.attribute name))
    (attributes : Attributes) : (attributes.give call.gives).get? name = attributes.get? name := by
  have hset : ∀ written value?, call.gives = some (.write written value?) → written ≠ name := by
    rintro written value? hgives rfl
    cases call with
    | set setting => exact h (congrArg some (Setting.part_of_gives hgives))
    | setScan setting => exact h (congrArg some (ScanSetting.part_of_gives hgives))
    | _ => cases hgives
  cases hgives : call.gives with
  | none => rfl
  | some given =>
    cases given with
    | write written value? =>
      rw [Attributes.give, Attributes.get?_set, if_neg (hset written value? hgives).symm]
    | cellLimit | cellOffset | maxResultSize => rfl

namespace Session

variable {session next last : Session} {name : String} {request changed : Request MapId FilterId}
  {scan : Scan MapId FilterId} {outcome : Outcome Answer}

/-- A call writes to the attributes what it gives to the history, and nothing else. -/
theorem attributes_of_step? {call : Call} (hname : session.request? name = some request)
    (hstep : session.step? (.call name call) = some (next, outcome))
    (hchanged : next.request? name = some changed) :
    changed.criteria.attributes = request.criteria.attributes.give call.gives := by
  rcases written_of_step? hname hstep hchanged with ⟨hpart, rfl⟩ | ⟨written, hwrite, rfl, -⟩
  · rw [gives_of_part? hpart]
    rfl
  · exact request.attributes_take (gives_of_write? hwrite)

/-- What happens to a request decides its attributes by its history. -/
theorem historyLedger_decides :
    historyLedger.Follows fun request history => request.criteria.attributes.DecidedBy history where
  scan _ _ _ _ := Attributes.decidedBy_empty fun _ => rfl
  lookup _ _ _ := Attributes.decidedBy_empty fun _ => rfl
  copy _ _ _ h := h
  lift _ _ _ := Attributes.decidedBy_empty History.attribute?_lifted
  call _ _ _ call _ _ _ _ hname hstep hchanged h := by
    rw [attributes_of_step? hname hstep hchanged]
    exact h.give call.gives

end Session

/-! ## Typed questions -/

namespace Accessor

/-- The question. -/
def call : Accessor → Call
  | raw => .askScan .raw
  | metrics => .askScan .metrics
  | isolation => .askScan .isolation
  | operationId => .ask .operationId

/-- The call is the typed setter of what the accessor reads, with the argument given. -/
inductive Sets : Accessor → Call → Answer → Prop where
  | raw (flag : Bool) : Sets raw (.setScan (.raw flag)) (.truth flag)
  | metrics (flag : Bool) : Sets metrics (.setScan (.metrics flag)) (.truth flag)
  | isolation (level : Isolation) :
    Sets isolation (.setScan (.isolation level)) (.isolation level)
  | operationId (id : String) : Sets operationId (.set (.operationId id)) (.text? (some id))

/-- A typed setter stores what stands for its argument. -/
theorem Sets.gives {accessor : Accessor} {call : Call} {argument : Answer}
    (h : accessor.Sets call argument) :
    ∃ value, call.gives = some (.write accessor.name (some value)) ∧
      accessor.Decodes value argument := by
  cases h with
  | raw flag | metrics flag =>
    refine ⟨encodeFlag flag, rfl, Accessor.decode_eq_ok_iff.1 ?_⟩
    cases flag <;> rfl
  | isolation level => exact ⟨level.encode, rfl, .isolation level⟩
  | operationId id =>
    refine ⟨Utf8.encode id, ?_, .operationId id⟩
    rw [Call.gives, Setting.gives, Attributes.encodeId_ofString]
    rfl

end Accessor

/-- The call gave the last write of the attribute. -/
def History.LastWrittenBy (history : History) (name : String) (call : Call) : Prop :=
  ∃ value? later earlier, call.gives = some (.write name value?) ∧
    history = later ++ .write name value? :: earlier ∧
    ∀ given ∈ later, given.written? name = none

theorem History.LastWrittenBy.attribute?_eq {name : String} {call : Call}
    (h : history.LastWrittenBy name call) {value? : Option Bytes}
    (hgives : call.gives = some (.write name value?)) : history.attribute? name = value? := by
  rcases h with ⟨found?, later, earlier, hfound, rfl, hlater⟩
  cases hfound.symm.trans hgives
  induction later with
  | nil =>
    show History.attribute? (.write name value? :: earlier) name = value?
    rw [attribute?_cons, if_pos rfl]
  | cons given rest ih =>
    have hgiven := hlater given List.mem_cons_self
    rw [List.cons_append, attribute?_cons_of_not_written hgiven]
    exact ih fun other hother => hlater other (List.mem_cons_of_mem _ hother)

/-- What is to be said of the answer to a typed question. -/
structure Accessor.Verdict (accessor : Accessor) (history : History)
    (result : Except Failure Answer) : Prop where
  /-- Where the attribute is absent, the answer is the default. -/
  absent : ¬ history.Live accessor.name → result = .ok accessor.default
  /-- What the typed setter stored last is given back. -/
  set : ∀ call argument, accessor.Sets call argument →
    history.LastWrittenBy accessor.name call → result = .ok argument
  /-- Whatever was stored last is decoded on its own, or rejected. -/
  stored : ∀ value, history.attribute? accessor.name = some value →
    ∀ answer, result = .ok answer ↔ accessor.Decodes value answer

theorem Accessor.verdict_read (accessor : Accessor) (history : History) :
    accessor.Verdict history (accessor.read (history.attribute? accessor.name)) := by
  have hstored : ∀ value, history.attribute? accessor.name = some value → ∀ answer,
      accessor.read (history.attribute? accessor.name) = .ok answer ↔
        accessor.Decodes value answer := by
    intro value hvalue answer
    rw [hvalue]
    exact decode_eq_ok_iff
  refine ⟨?_, ?_, hstored⟩
  · intro habsent
    cases hvalue : history.attribute? accessor.name with
    | none => rfl
    | some value => exact absurd ⟨value, hvalue⟩ habsent
  · intro call argument hsets hlast
    rcases hsets.gives with ⟨value, hgives, hdecodes⟩
    exact (hstored value (hlast.attribute?_eq hgives) argument).2 hdecodes

namespace Session

variable {session next last : Session} {name : String} {scan : Scan MapId FilterId}
  {outcome : Outcome Answer}

/-- The id of a request is read from its attribute. -/
theorem step?_operationId (hname : session.request? name = some request) :
    session.step? (.call name (.ask .operationId)) = some (session,
      .ofExcept (Accessor.operationId.read
        (request.criteria.attributes.get? Attributes.idName))) := by
  have hanswer : (session.pool.resolve request).answer .operationId =
      Answer.text? <$> request.criteria.attributes.operationId := by
    cases request <;> rfl
  rw [step?_ask hname, hanswer, Accessor.operationId_eq_read]

theorem step?_attribute (hname : session.request? name = some request) (key : String) :
    session.step? (.call name (.ask (.attribute key))) =
      some (session, .ok (.bytes? (request.criteria.attributes.get? key))) := by
  rw [step?_ask hname]
  cases request <;> rfl

/-- A typed question is answered from the attribute of its name. -/
theorem step?_accessor (hscan : session.scan? name = some scan) (accessor : Accessor) :
    session.step? (.call name accessor.call) =
      some (session, .ofExcept (accessor.read (scan.attributes.get? accessor.name))) := by
  have hname := request?_of_scan? hscan
  cases accessor with
  | raw | metrics =>
    rw [Accessor.call, step?_askScan hscan]
    exact congrArg (fun result => some (session, Outcome.ofExcept result))
      (Accessor.flag_eq_read scan.attributes _)
  | isolation =>
    rw [Accessor.call, step?_askScan hscan]
    exact congrArg (fun result => some (session, Outcome.ofExcept result))
      (Accessor.isolation_eq_read scan.attributes)
  | operationId => exact step?_operationId hname

/-- Size, values and map as they are asked for agree with the history. -/
structure AttributesShown (session : Session) (name : String) (attributes : Attributes)
    (history : History) : Prop where
  decided : attributes.DecidedBy history
  size : session.step? (.call name (.ask .attributeCount)) =
    some (session, .ok (.count attributes.size))
  value : ∀ key, session.step? (.call name (.ask (.attribute key))) =
    some (session, .ok (.bytes? (history.attribute? key)))
  map : session.step? (.call name (.ask .attributes)) =
    some (session, .ok (.attributes attributes))

/-- A call that does not write the attribute leaves the answer that is read from it. -/
theorem step?_accessor_undisturbed (hscan : session.scan? name = some scan) {accessor : Accessor}
    {call : Call} (hcall : call.part? ≠ some (.attribute accessor.name))
    (hstep : session.step? (.call name call) = some (next, outcome)) :
    next.step? (.call name accessor.call) =
      some (next, .ofExcept (accessor.read (scan.attributes.get? accessor.name))) := by
  have hname := request?_of_scan? hscan
  rcases (step?_transition hstep).becomes hname id with ⟨changed, hchanged, hbecomes⟩
  rcases hbecomes.scan with ⟨after, rfl, -⟩
  have hattributes : after.attributes = scan.attributes.give call.gives :=
    attributes_of_step? hname hstep hchanged
  rw [step?_accessor (scan?_of_request? hchanged), hattributes,
    Call.get?_give hcall]

/-- **The attributes of a scan and its typed accessors follow the history.** After any run the
attributes of a scan are those that its history tells: which, with which values and in which order;
and their number, each of them and all of them are shown so when asked for. Each accessor answers by
the last write of its own name: with the default, the argument of the typed setter, or what any
other value stands for, and with a failure where it stands for nothing. The names are distinct, and
whatever else is called on the scan leaves the answer as it is. -/
theorem attributes_decided {steps : List Step} {outcomes : List (Outcome Answer)}
    (hrun : initial.run? steps = some (last, outcomes)) (hscan : last.scan? name = some scan) :
    last.AttributesShown name scan.attributes (histories steps name) ∧
      Function.Injective Accessor.name ∧
      ∀ accessor : Accessor, ∃ result,
        last.step? (.call name accessor.call) = some (last, .ofExcept result) ∧
        accessor.Verdict (histories steps name) result ∧
        ∀ call next outcome, call.part? ≠ some (.attribute accessor.name) →
          last.step? (.call name call) = some (next, outcome) →
          next.step? (.call name accessor.call) = some (next, .ofExcept result) := by
  have hname := request?_eq_some.2 (scan?_eq_some.1 hscan)
  have hkept := historyLedger_decides.kept_run_initial hrun
  rw [historyLedger_after _ (length_of_run? hrun)] at hkept
  have hdecided : scan.attributes.DecidedBy (histories steps name) := hkept name _ hname
  refine ⟨⟨hdecided, step?_ask hname _, ?_, step?_ask hname _⟩, Accessor.name_injective, ?_⟩
  · intro key
    rw [← hdecided.values]
    exact step?_attribute hname key
  · intro accessor
    refine ⟨_, step?_accessor hscan accessor, ?_, ?_⟩
    · rw [hdecided.values]
      exact accessor.verdict_read _
    · intro call next outcome hcall hstep
      exact step?_accessor_undisturbed hscan hcall hstep

/-- An attribute is removed and set again, and so comes after the isolation level; the flag is
overwritten by a byte, and the level by one that stands for none. A copy answers so too, whatever
its source is given afterwards. -/
theorem attributes_decided_through_copy :
    let steps : List Step := [.make "scan" .scan, .call "scan" (.set (.attribute "note" (some [1]))),
      .call "scan" (.setScan (.isolation .readUncommitted)), .call "scan" (.setScan (.raw false)),
      .call "scan" (.set (.attribute "note" none)),
      .call "scan" (.set (.attribute "note" (some [2]))),
      .call "scan" (.set (.attribute Attributes.rawName (some [7]))),
      .call "scan" (.set (.attribute Attributes.isolationName (some [9]))),
      .make "copy" (.copy "scan"), .call "scan" (.set (.operationId "id"))]
    ∃ last outcomes scan, initial.run? steps = some (last, outcomes) ∧
      last.scan? "copy" = some scan ∧
      last.AttributesShown "copy" scan.attributes (histories steps "copy") ∧
      scan.attributes.keys = [Attributes.isolationName, Attributes.rawName, "note"] ∧
      (histories steps "copy").StoredBefore Attributes.isolationName "note" ∧
      last.step? (.call "copy" Accessor.raw.call) = some (last, .ok (.truth true)) ∧
      last.step? (.call "copy" Accessor.operationId.call) = some (last, .ok (.text? none)) ∧
      ∃ result, last.step? (.call "copy" Accessor.isolation.call) =
        some (last, .ofExcept result) ∧ ∀ answer, result ≠ .ok answer := by
  intro steps
  obtain ⟨last, outcomes, scan, hrun, hscan, hkeys⟩ :
      ∃ last outcomes scan, initial.run? steps = some (last, outcomes) ∧
        last.scan? "copy" = some scan ∧
        scan.attributes.keys = [Attributes.isolationName, Attributes.rawName, "note"] :=
    ⟨_, _, _, rfl, rfl, rfl⟩
  rcases attributes_decided hrun hscan with ⟨hshown, -, haccessors⟩
  have hbefore : (histories steps "copy").StoredBefore Attributes.isolationName "note" := by
    have horder := hshown.decided.order
    rw [hkeys, List.pairwise_cons] at horder
    exact horder.1 "note" (by simp)
  refine ⟨last, outcomes, scan, hrun, hscan, hshown, hkeys, hbefore, ?_, ?_, ?_⟩
  · rcases haccessors .raw with ⟨result, hstep, hverdict, -⟩
    rw [hstep, (hverdict.stored [7] rfl (.truth true)).2 (.raw 7)]
    rfl
  · rcases haccessors .operationId with ⟨result, hstep, hverdict, -⟩
    have habsent : ¬ (histories steps "copy").Live Attributes.idName := by
      rintro ⟨value, hvalue⟩
      cases hvalue
    rw [hstep, hverdict.absent habsent]
    rfl
  · rcases haccessors .isolation with ⟨result, hstep, hverdict, -⟩
    refine ⟨result, hstep, ?_⟩
    intro answer hresult
    have hdecodes := (hverdict.stored [9] rfl answer).1 hresult
    generalize hvalue : ([9] : Bytes) = value at hdecodes
    cases hdecodes with
    | isolation level => cases level <;> cases hvalue

end Session

end ReadPlan
