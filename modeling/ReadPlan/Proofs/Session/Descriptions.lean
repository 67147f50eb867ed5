import ReadPlan.Proofs.Request.Descriptions
import ReadPlan.Proofs.Session.Requests
import ReadPlan.Proofs.Session.Writes

/-!
# ReadPlan.Proofs.Session.Descriptions — what one learns from descriptions

Two scans that describe themselves alike, be it in two sessions, have the same rows and the same
settings, but for the limit and the offset of cells: whatever they are set to, no description shows it
(`Session.description_tells`). A copy describes itself like its original, or fails on the same malformed
id; only a family without columns makes a difference, since it is whole in the copy
(`Session.copy_described`). A lookup and the scan lifted from it describe themselves alike for as long as
both are only selected through, since they share their families (`Session.lift_described`).
-/

namespace ReadPlan

/-- The step leaves the request of the name with its settings and references: it names another object,
calls another one, or only selects or asks. -/
def Step.KeepsRequest (name : String) : Step → Prop
  | .make target _ => target ≠ name
  | .call target made => target = name → made.IsSelection ∨ made.IsQuestion

theorem Answer.description_injective {first second : Except Failure Description}
    (h : Answer.description <$> first = Answer.description <$> second) : first = second := by
  cases first <;> cases second <;> cases h <;> rfl

namespace Session

variable {session next : Session} {name : String} {request : Request MapId FilterId}
  {scan : Scan MapId FilterId} {maxColumns : Int} {result : Except Failure Description}

/-! ## Asking for a description -/

/-- Asked for a description, the request of the name gives it or fails, and the session stays as it
is. -/
def Describes (session : Session) (name : String) (maxColumns : Int)
    (result : Except Failure Description) : Prop :=
  session.step? (.call name (.ask (.describe maxColumns))) =
    some (session, .ofExcept (Answer.description <$> result))

/-- There is only one answer. -/
theorem Describes.unique {other : Except Failure Description}
    (h : session.Describes name maxColumns result) (h' : session.Describes name maxColumns other) :
    result = other := by
  have houtcome := congrArg Prod.snd (Option.some.inj (h.symm.trans h'))
  have hanswer := congrArg Outcome.result houtcome
  exact Answer.description_injective hanswer

theorem describes (hname : session.request? name = some request) (maxColumns : Int) :
    session.Describes name maxColumns ((session.pool.resolve request).describe maxColumns) :=
  step?_ask hname (.describe maxColumns)

theorem describes_iff (hname : session.request? name = some request) :
    session.Describes name maxColumns result ↔
      (session.pool.resolve request).describe maxColumns = result := by
  constructor
  · intro h
    exact (describes hname maxColumns).unique h
  · intro h
    rw [← h]
    exact describes hname maxColumns

/-- What looks the same describes itself the same. -/
theorem Describes.of_snapshot (h : session.Describes name maxColumns result)
    (hname : session.request? name = some request)
    (hobject : next.objects.get? name = session.objects.get? name)
    (hsnapshot : next.snapshot? name = session.snapshot? name) :
    next.Describes name maxColumns result := by
  have hget := request?_eq_some.1 hname
  have hnext : next.request? name = some request := request?_eq_some.2 (hobject.trans hget)
  -- the same request is the same by value in both pools
  have hvalue : next.pool.resolve request = session.pool.resolve request := by
    rw [snapshot?, snapshot?, hobject, hget] at hsnapshot
    exact Snapshot.request.inj (Option.some.inj hsnapshot)
  rw [describes_iff hnext, hvalue]
  exact (describes_iff hname).1 h

/-! ## Settings -/

/-- Whatever limit and offset of cells a scan is given, it takes them, and it describes itself as
before. -/
theorem describes_after_cells (hscan : session.scan? name = some scan) (limit offset : Int) :
    ∃ next changed, session.run? [.call name (.set (.cellLimit limit)),
        .call name (.set (.cellOffset offset))] = some (next, [.ok .itself, .ok .itself]) ∧
      next.scan? name = some changed ∧ changed.cellLimit = limit ∧ changed.cellOffset = offset ∧
      ∀ maxColumns result,
        next.Describes name maxColumns result ↔ session.Describes name maxColumns result := by
  have hname := request?_of_scan? hscan
  let limited := { scan with cellLimit := limit }
  let changed := { scan with cellLimit := limit, cellOffset := offset }
  let middle := session.bind name (.request (.scan limited))
  have hmiddle : middle.request? name = some (.scan limited) := request?_bind_self _ _ _
  have hchanged : (middle.bind name (.request (.scan changed))).scan? name = some changed :=
    scan?_bind_self _ _ _
  have hlimit : session.step? (.call name (.set (.cellLimit limit))) =
      some (middle, .ok .itself) := step?_set hname (.cellLimit limit)
  have hoffset : middle.step? (.call name (.set (.cellOffset offset))) =
      some (middle.bind name (.request (.scan changed)), .ok .itself) :=
    step?_set hmiddle (.cellOffset offset)
  have hrest : middle.run? [.call name (.set (.cellOffset offset))] =
      some (middle.bind name (.request (.scan changed)), [.ok .itself]) :=
    run?_cons_eq_some.2 ⟨_, _, _, hoffset, rfl, rfl⟩
  refine ⟨_, changed, run?_cons_eq_some.2 ⟨_, _, _, hlimit, hrest, rfl⟩, hchanged, rfl, rfl, ?_⟩
  intro maxColumns result
  have hsame := (scan.map session.pool.contents session.pool.filter).describe_cells limit offset
    maxColumns
  rw [describes_iff (request?_of_scan? hchanged), describes_iff hname]
  exact Eq.congr_left hsame

/-- **A description tells the settings, but for the limit and the offset.** Scans that describe
themselves with the same entries, in whatever sessions and for whatever numbers of columns, have the
same rows, versions, sizes of round trips, caching of blocks and time range. They have the same settings
altogether just if their limits and offsets of cells are the same too, and these show in no description:
the scan takes any, and describes itself for every number of columns as it did before. -/
theorem description_tells {other : Session} {otherName : String} {first second : Scan MapId FilterId}
    {maxColumns' : Int} {d e : Description} (hfirst : session.scan? name = some first)
    (hsecond : other.scan? otherName = some second)
    (hd : session.Describes name maxColumns (.ok d))
    (he : other.Describes otherName maxColumns' (.ok e)) (hsame : d.SameEntries e) :
    first.SameReported second ∧
      (first.SameScalars second ↔
        first.cellLimit = second.cellLimit ∧ first.cellOffset = second.cellOffset) ∧
      ∀ limit offset, ∃ next changed, session.run? [.call name (.set (.cellLimit limit)),
          .call name (.set (.cellOffset offset))] = some (next, [.ok .itself, .ok .itself]) ∧
        next.scan? name = some changed ∧ changed.cellLimit = limit ∧ changed.cellOffset = offset ∧
        ∀ maxColumns result,
          next.Describes name maxColumns result ↔ session.Describes name maxColumns result := by
  have hvalue := (describes_iff (request?_of_scan? hfirst)).1 hd
  have hvalue' := (describes_iff (request?_of_scan? hsecond)).1 he
  have htold := Scan.sameReported_of_describe hvalue hvalue' hsame
  -- the settings are the same by value as by reference
  have hreported : first.SameReported second :=
    ⟨htold.startRow, htold.stopRow, htold.maxVersions, htold.batch, htold.caching,
      htold.maxResultSize, htold.cacheBlocks, htold.timeRange⟩
  refine ⟨hreported, ?_, ?_⟩
  · constructor
    · intro h
      exact ⟨h.cellLimit, h.cellOffset⟩
    · intro h
      exact ⟨hreported, h.1, h.2⟩
  · intro limit offset
    exact describes_after_cells hfirst limit offset

/-- Two scans of one session, with the same settings given in another order, describe themselves alike;
then the one is given a limit and an offset, and nobody can tell. -/
theorem description_tells_after_settings :
    let session := after [.make "scan" (.scan [0x72]), .make "other" (.scan [0x72]),
      .call "scan" (.setScan (.caching 7)), .call "scan" (.set (.timeStamp 3)),
      .call "other" (.set (.timeRange 3 4)), .call "other" (.setScan (.caching 7))]
    ∃ first second d, session.scan? "scan" = some first ∧ session.scan? "other" = some second ∧
      session.Describes "scan" 5 (.ok d) ∧ session.Describes "other" 0 (.ok d) ∧
      d.SameEntries d ∧ first.SameScalars second ∧
      ∃ (next : Session) (changed : Scan MapId FilterId), next.scan? "scan" = some changed ∧
        changed.cellLimit = 2 ∧ changed.cellOffset = 1 ∧ next.Describes "scan" 5 (.ok d) := by
  intro session
  have hfirst : session.scan? "scan" = some _ := rfl
  have hsecond : session.scan? "other" = some _ := rfl
  have hd : session.Describes "scan" 5 (.ok _) := rfl
  have he : session.Describes "other" 0 (.ok _) := rfl
  obtain ⟨-, hsettings, hcells⟩ := description_tells hfirst hsecond hd he (.refl _)
  obtain ⟨next, changed, -, hnext, hlimit, hoffset, hsame⟩ := hcells 2 1
  refine ⟨_, _, _, hfirst, hsecond, hd, he, .refl _, ?_, next, changed, hnext, hlimit, hoffset, ?_⟩
  · exact hsettings.2 ⟨rfl, rfl⟩
  · exact (hsame 5 _).2 hd

/-- Two scans that differ in how many cells they read describe themselves alike, whatever number of
columns is listed. -/
theorem description_hides_cells :
    let session := after [.make "scan" .scan, .make "limited" .scan,
      .call "limited" (.set (.cellLimit 3)), .call "limited" (.set (.cellOffset 7))]
    Reachable session ∧ ∃ first second, session.scan? "scan" = some first ∧
      session.scan? "limited" = some second ∧
      (∀ maxColumns, ∃ d, session.Describes "scan" maxColumns (.ok d) ∧
        session.Describes "limited" maxColumns (.ok d)) ∧
      ¬ first.SameScalars second := by
  intro session
  refine ⟨reachable_after _, _, _, rfl, rfl, ?_, ?_⟩
  · intro maxColumns
    exact ⟨_, rfl, rfl⟩
  · intro hsame
    have hlimit : unset = 3 := hsame.cellLimit
    cases hlimit

/-! ## Copies -/

/-- A scan of a sound session can be copied. The copy is by value the scan with its selection rebuilt,
and nothing else has changed. -/
theorem exists_copy (hsound : session.Sound) (hscan : session.scan? name = some scan)
    (copyName : String) :
    ∃ start copy, session.step? (.make copyName (.copy name)) = some (start, .ok .created) ∧
      start.Sound ∧ start.scan? copyName = some copy ∧
      copy.map start.pool.contents start.pool.filter =
        (scan.map session.pool.contents session.pool.filter).withRebuilt ∧
      SameElsewhere copyName session start := by
  have hheld := hsound.scan hscan
  have hstep := step?_copy hscan hheld.window copyName
  have hgrows := session.pool.grows_newMap (session.pool.contents scan.families).rebuild
  refine ⟨_, _, hstep, hsound.step hstep, scan?_bind_self _ _ _, ?_, ?_⟩
  · have hfilter := filter_eq_of_grows hgrows hheld
    have hcontents := session.pool.contents_newMap (session.pool.contents scan.families).rebuild
    simp only [Scan.map, Scan.withCriteria, Criteria.map, Scan.withRebuilt, Option.map_id_fun, id_eq,
      afterCopy, bind]
    rw [hcontents, hfilter]
  · have hmade : session.Constructs (.copy name) _ _ := .copy hscan hheld.window
    exact hmade.sameElsewhere hsound copyName

/-- **A copy describes itself like its original.** A scan can be copied, and so can the copy. Whatever
number of columns is asked for, the scan describes itself after the copy as before. If its id is
malformed, the scan and the copies fail with the same fault. Otherwise they all describe themselves, the
copies with the same entries as the scan just if it has no family without columns; in general the total
of a copy is greater by the number of these families, the columns listed may differ, and nothing else
does. A copy of a copy describes itself as the copy does. -/
theorem copy_described (hreach : Reachable session) (hscan : session.scan? name = some scan)
    (copyName secondName : String) :
    ∃ start last, session.step? (.make copyName (.copy name)) = some (start, .ok .created) ∧
      start.step? (.make secondName (.copy copyName)) = some (last, .ok .created) ∧
      ∀ maxColumns, ∃ original copied,
        session.Describes name maxColumns original ∧
        (copyName ≠ name → start.Describes name maxColumns original) ∧
        start.Describes copyName maxColumns copied ∧ last.Describes secondName maxColumns copied ∧
        (scan.map session.pool.contents session.pool.filter).CopyDescribes original copied := by
  have hname := request?_of_scan? hscan
  obtain ⟨start, copy, hstart, hsound, hcopy, hvalue, hsame⟩ :=
    exists_copy hreach.sound hscan copyName
  obtain ⟨last, second, hlast, -, hsecond, hvalue', -⟩ := exists_copy hsound hcopy secondName
  rw [hvalue, Scan.withRebuilt_withRebuilt] at hvalue'
  refine ⟨start, last, hstart, hlast, ?_⟩
  intro maxColumns
  have horiginal := describes hname maxColumns
  refine ⟨_, _, horiginal, ?_, ?_, ?_, Scan.copyDescribes _ maxColumns⟩
  · intro hne
    obtain ⟨hobject, hsnapshot⟩ := hsame name hne.symm
    exact horiginal.of_snapshot hname hobject hsnapshot
  · rw [describes_iff (request?_of_scan? hcopy), ← hvalue]
    rfl
  · rw [describes_iff (request?_of_scan? hsecond), ← hvalue']
    rfl

/-- One column is listed. The family without columns comes first, and in the copy it is whole and takes
the place of the column of the next family. -/
theorem copy_described_without_columns :
    let session := after [.make "scan" .scan, .call "scan" (.select (.column [0x66] none)),
      .call "scan" (.select (.column [0x67] (some [0x61])))]
    session.scan? "scan" = some { families := ⟨0⟩ } ∧ ∃ start last d e,
      session.step? (.make "copy" (.copy "scan")) = some (start, .ok .created) ∧
      start.step? (.make "second" (.copy "copy")) = some (last, .ok .created) ∧
      session.Describes "scan" 1 (.ok d) ∧ d.families = [("f", []), ("g", ["a"])] ∧
      start.Describes "copy" 1 (.ok e) ∧ e.families = [("f", ["ALL"]), ("g", [])] ∧
      last.Describes "second" 1 (.ok e) ∧ e.totalColumns = d.totalColumns + 1 ∧
      ¬ e.SameEntries d := by
  intro session
  have hscan : session.scan? "scan" = some { families := ⟨0⟩ } := rfl
  have hreadable : ¬ Attributes.MalformedId ∅ := by
    intro hmalformed
    obtain ⟨value, hvalue, -⟩ := hmalformed
    cases hvalue
  obtain ⟨start, last, hstart, hlast, hdescribed⟩ :=
    copy_described (reachable_after _) hscan "copy" "second"
  obtain ⟨_, _, horiginal, -, hcopy, hsecond, hcopies⟩ := hdescribed 1
  obtain ⟨d, e, rfl, rfl, htotal, hsame⟩ := hcopies.readable hreadable
  have hd := (describes_iff (request?_of_scan? hscan)).1 horiginal
  refine ⟨hscan, start, last, d, e, hstart, hlast, horiginal, ?_, hcopy, ?_, hsecond, ?_, ?_⟩
  · cases hd
    rfl
  · cases hstart
    cases hcopy
    rfl
  · exact htotal.totalColumns
  · intro h
    exact hsame.1 h [0x66] rfl

/-! ## Lifted scans -/

variable {last : Session} {steps : List Step} {outcomes : List (Outcome Answer)}

/-- Only settings change a request; what one selects through it changes in the pool. -/
theorem Transition.keeps_request? {step : Step} (hstep : session.Transition step next)
    (hname : session.request? name = some request) (hkeeps : step.KeepsRequest name) :
    next.request? name = some request := by
  have hrebinds : ¬ step.Rebinds name := by
    intro h
    cases step with
    | make => exact hkeeps h
    | call => exact h
  obtain ⟨changed, hchanged, hbecomes⟩ := hstep.becomes hname hrebinds
  cases hbecomes with
  | same => exact hchanged
  | set | setScan | useMap | useFilter =>
    have hcall := hkeeps rfl
    exact hcall.elim False.elim False.elim

theorem run?_request (hname : session.request? name = some request)
    (hkeeps : ∀ step ∈ steps, step.KeepsRequest name)
    (hrun : session.run? steps = some (last, outcomes)) : last.request? name = some request := by
  refine run?_invariant (P := fun s => s.request? name = some request) ?_ hrun hname
  intro s t step outcome hmem hstep hs
  exact (step?_transition hstep).keeps_request? hs (hkeeps step hmem)

/-- **A lookup and the scan lifted from it describe themselves alike.** Lifting always succeeds. After
any steps that leave both with their settings and references, such as selections through the one, the
other, or any map, they have the same fingerprint, and for every number of columns the scan describes
itself without an id, like the lookup if this does not fail on a malformed id. -/
theorem lift_described {lookupName scanName : String} {lookup : Lookup MapId FilterId}
    (hlookup : session.lookup? lookupName = some lookup) (hne : scanName ≠ lookupName) :
    ∃ start, session.step? (.make scanName (.lift lookupName)) =
        some (start, ⟨.ok .created, [.lifted lookup.row]⟩) ∧
      ∀ steps last outcomes,
        (∀ step ∈ steps, step.KeepsRequest scanName ∧ step.KeepsRequest lookupName) →
        start.run? steps = some (last, outcomes) →
        (∃ fingerprint, last.step? (.call lookupName (.ask .fingerprint)) =
            some (last, .ok (.fingerprint fingerprint)) ∧
          last.step? (.call scanName (.ask .fingerprint)) =
            some (last, .ok (.fingerprint fingerprint))) ∧
        ∀ maxColumns, ∃ described lifted, last.Describes lookupName maxColumns described ∧
          last.Describes scanName maxColumns lifted ∧
          (lookup.map last.pool.contents last.pool.filter).LiftDescribes described lifted := by
  have hlift := step?_lift hlookup scanName
  refine ⟨_, hlift, ?_⟩
  intro steps last outcomes hsteps hrun
  -- the lift leaves the lookup under its name
  have hkept : (session.bind scanName (.request (.scan lookup.toScan))).request? lookupName =
      some (.lookup lookup) := by
    rw [request?_eq_some, get?_bind_of_ne hne.symm]
    exact lookup?_eq_some.1 hlookup
  have hlast := run?_request hkept (fun step hmem => (hsteps step hmem).2) hrun
  have hscan := run?_request (session.request?_bind_self scanName (.scan lookup.toScan))
    (fun step hmem => (hsteps step hmem).1) hrun
  constructor
  · -- both read their families in the same map
    exact ⟨_, step?_ask hlast .fingerprint, step?_ask hscan .fingerprint⟩
  · intro maxColumns
    have hdescribed := describes hlast maxColumns
    have hlifted := describes hscan maxColumns
    exact ⟨_, _, hdescribed, hlifted, Lookup.liftDescribes _ maxColumns⟩

/-- A lookup with an id is lifted. Then columns are selected through a map taken of it, through the scan
and through the lookup, so that one is named and two are not. -/
theorem lift_described_through_map :
    let session := after [.make "lookup" (.lookup [0x72]), .call "lookup" (.set (.operationId "id"))]
    let steps : List Step := [.make "map" (.mapOf "lookup"),
      .call "map" (.select (.column [0x66] (some [0x62]))),
      .call "scan" (.select (.column [0x66] (some [0x61]))),
      .call "lookup" (.select (.wholeFamily [0x67]))]
    "scan" ≠ "lookup" ∧ ∃ start last outcomes d e,
      session.step? (.make "scan" (.lift "lookup")) =
          some (start, ⟨.ok .created, [.lifted [0x72]]⟩) ∧
        start.run? steps = some (last, outcomes) ∧ last.Describes "lookup" 1 (.ok e) ∧
        e.id? = some "id" ∧ e.families = [("f", ["a"]), ("g", [])] ∧ e.totalColumns = 3 ∧
        last.Describes "scan" 1 (.ok d) ∧ d.id? = none ∧ d.LiftedFrom e [0x72] := by
  intro session steps
  have hne : "scan" ≠ "lookup" := by decide
  have hlookup : session.lookup? "lookup" = some {
      families := ⟨0⟩, row := [0x72]
      attributes := OrderedMap.put ∅ Attributes.idName (Utf8.encode "id") } := rfl
  obtain ⟨start, hstep, hruns⟩ := lift_described hlookup hne
  have hsteps : ∀ step ∈ steps, step.KeepsRequest "scan" ∧ step.KeepsRequest "lookup" := by
    simp [steps, Step.KeepsRequest, Call.IsSelection]
  obtain ⟨last, outcomes, e, hrun, he, hentries⟩ : ∃ last outcomes e,
      start.run? steps = some (last, outcomes) ∧ last.Describes "lookup" 1 (.ok e) ∧
        e.id? = some "id" ∧ e.families = [("f", ["a"]), ("g", [])] ∧ e.totalColumns = 3 := by
    cases hstep
    refine ⟨_, _, _, rfl, rfl, ?_, ?_, ?_⟩
    all_goals decide +kernel
  obtain ⟨hid, hfamilies, htotal⟩ := hentries
  obtain ⟨-, hdescribed⟩ := hruns steps last outcomes hsteps hrun
  obtain ⟨described, lifted, hdescribes, hd, hlift⟩ := hdescribed 1
  obtain ⟨d, rfl, hnone, hlike⟩ := hlift.scan
  have hsame : described = .ok e := hdescribes.unique he
  exact ⟨hne, start, last, outcomes, d, e, hstep, hrun, he, hid, hfamilies, htotal, hd, hnone,
    hlike e hsame⟩

end Session

end ReadPlan
