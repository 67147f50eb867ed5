import ReadPlan.Proofs.Json.RoundTrip
import ReadPlan.Proofs.Request.Descriptions

/-!
# ReadPlan.Proofs.Request.Text — the text of a request says all that its description says

The text in the log is read back as the description it was written from, with no name given twice
(`Request.toText_reads_back`). Two facts carry this beyond the round trip of JSON texts: the
display of byte strings loses nothing, so that different families stay different names, and the
names of the fields tell a scan from a lookup and a filter from an id.
-/

namespace ReadPlan

/-! ## The fields of a description -/

theorem Json.texts_injective {as bs : List String} (h : texts as = texts bs) : as = bs := by
  refine List.map_inj_right (fun _ _ hstr => ?_) |>.1 (Json.arr.inj h)
  exact Json.str.inj hstr

namespace Description

theorem nodup_map_fst_fields (d : Description) : (d.fields.map Prod.fst).Nodup := by
  obtain ⟨target, families, maxVersions, cacheBlocks, timeRange, totalColumns, filter?, id?⟩ := d
  cases target <;> cases filter? <;> cases id? <;>
    simp [fields, Target.rowFields, Target.tripFields, optionalField]

/-- The fields at the end tell a filter from an id. -/
theorem optionalFields_injective {filter? filter?' id? id?' : Option String}
    (h : optionalField "filter" filter? ++ optionalField "id" id? =
      optionalField "filter" filter?' ++ optionalField "id" id?') :
    filter? = filter?' ∧ id? = id?' := by
  cases filter? <;> cases id? <;> cases filter?' <;> cases id?' <;>
    simp_all [optionalField]

/-- The listed families are in their JSON object as a whole. -/
theorem families_injective {families families' : List (String × List String)}
    (h : families.map (fun entry => (entry.1, Json.texts entry.2)) =
      families'.map (fun entry => (entry.1, Json.texts entry.2))) : families = families' := by
  refine List.map_inj_right (fun entry entry' heq => ?_) |>.1 h
  have hparts := Prod.mk.inj heq
  exact Prod.ext hparts.1 (Json.texts_injective hparts.2)

/-- **A description is determined by its fields.** -/
theorem toJson_injective {d e : Description} (h : d.toJson = e.toJson) : d = e := by
  have hfields : d.fields = e.fields := Json.obj.inj h
  obtain ⟨target, families, maxVersions, cacheBlocks, ⟨min, max⟩, total, filter?, id?⟩ := d
  obtain ⟨target', families', maxVersions', cacheBlocks', ⟨min', max'⟩, total', filter?',
    id?'⟩ := e
  cases target <;> cases target'
  case scan.lookup | lookup.scan =>
    -- the name of the second field is that of a scan or that of a lookup
    simp [fields, Target.rowFields] at hfields
  all_goals simp only [fields, Target.rowFields, Target.tripFields, Json.int, List.cons_append,
    List.nil_append, List.cons.injEq, Prod.mk.injEq, Json.obj.injEq, Json.arr.injEq,
    Json.str.injEq, Json.num.injEq, Json.bool.injEq, true_and, and_true] at hfields
  case scan.scan =>
    obtain ⟨hfamilies, rfl, rfl, rfl, rfl, rfl, rfl, rfl, ⟨rfl, rfl⟩, htotal, hlast⟩ := hfields
    obtain ⟨rfl, rfl⟩ := optionalFields_injective hlast
    rw [families_injective hfamilies, Int.ofNat.inj htotal]
  case lookup.lookup =>
    obtain ⟨hfamilies, rfl, rfl, rfl, ⟨rfl, rfl⟩, htotal, hlast⟩ := hfields
    obtain ⟨rfl, rfl⟩ := optionalFields_injective hlast
    rw [families_injective hfamilies, Int.ofNat.inj htotal]

/-- What makes a text the line of a description: it is printable ASCII, and a reader of JSON gets
the description back from it, its fields and its families in their order and none twice. -/
structure IsLine (d : Description) (line : String) : Prop where
  printable : ∀ c ∈ line.toList, Json.IsPrintable c
  read : Json.read? line = some d.toJson
  nodup_fields : (d.fields.map Prod.fst).Nodup
  nodup_families : (d.families.map Prod.fst).Nodup

end Description

namespace Request

variable {request : Request Selection Filter} {maxColumns : Int} {d : Description}

/-- The text is that of the description. -/
theorem toText_of_describe (hd : request.describe maxColumns = .ok d) :
    request.toText maxColumns = .ok d.toJson.text := by
  rw [toText, hd]
  rfl

/-- The families of a description are those of the listing. -/
theorem families_of_describe (hd : request.describe maxColumns = .ok d) :
    d.families = request.criteria.families.listing maxColumns := by
  obtain ⟨id?, -, hwith⟩ := eq_descriptionWith hd
  rw [hwith]
  rfl

/-- **The text of a request is read back as its description.** Wherever a request describes itself
there is a text, printable ASCII that is read as the description; so two texts are the same only
for the same description. -/
theorem toText_reads_back (hd : request.describe maxColumns = .ok d) :
    ∃ line, request.toText maxColumns = .ok line ∧ d.IsLine line ∧
      ∀ (other : Request Selection Filter) (maxColumns' : Int) (e : Description) (line' : String),
        other.describe maxColumns' = .ok e → other.toText maxColumns' = .ok line' →
        (line = line' ↔ d = e) := by
  refine ⟨d.toJson.text, toText_of_describe hd, ⟨?_, ?_, ?_, ?_⟩, ?_⟩
  · intro c hc
    rw [Json.text, String.toList_ofList] at hc
    exact Json.printable_render d.toJson c hc
  · exact Json.read?_text d.toJson
  · exact d.nodup_map_fst_fields
  · rw [families_of_describe hd]
    exact request.criteria.families.nodup_map_fst_listing maxColumns
  · intro other maxColumns' e line' he hline'
    rw [toText_of_describe he] at hline'
    cases hline'
    constructor
    · intro hline
      exact Description.toJson_injective (Json.text_injective hline)
    · intro heq
      rw [heq]

/-- A lookup of a row that is escaped twice, with a filter whose label needs every kind of escape
and an id. With one of its two columns listed it has another text than with both. -/
theorem toText_reads_back_escaped :
    let request : Request Selection Filter := .lookup {
      row := [0x5c, 0xff]
      families := Selection.ofEntries [([0x66], some [[0x22], [0x71]])]
      filter? := some { name := "Any", label? := some "\"\\\n\x01\x7f𝄞" }
      attributes := OrderedMap.put ∅ Attributes.idName (Utf8.encode "é") }
    let d : Description := {
      target := .lookup "\\x5C\\xFF", families := [("f", ["\""])], maxVersions := 1
      cacheBlocks := true, timeRange := {}, totalColumns := 2
      filter? := some "\"\\\n\x01\x7f𝄞", id? := some "é" }
    request.describe 1 = .ok d ∧
      ∃ line, request.toText 1 = .ok line ∧ d.IsLine line ∧
        ∃ line', request.toText 2 = .ok line' ∧ line ≠ line' := by
  intro request d
  have hd : request.describe 1 = .ok d := rfl
  have hboth : request.describe 2 = .ok { d with families := [("f", ["\"", "q"])] } := rfl
  rcases toText_reads_back hd with ⟨line, hline, hisLine, hiff⟩
  refine ⟨hd, line, hline, hisLine, _, toText_of_describe hboth, ?_⟩
  intro heq
  have hsame := (hiff request 2 _ _ hboth (toText_of_describe hboth)).1 heq
  have hfamilies := congrArg Description.families hsame
  simp [d] at hfamilies

end Request

end ReadPlan
