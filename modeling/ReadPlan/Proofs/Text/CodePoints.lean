import ReadPlan.Text.Utf8

/-!
# ReadPlan.Proofs.Text.CodePoints — which texts have an encoding

A text is encoded just if no surrogate is in it, and then as the string that it is
(`Utf8.encodeStrict_eq_ok_iff`). Otherwise the writer stops at a fault, which tells the first run of
surrogates (`Utf8.encodeStrict_eq_error_iff`): before it there are only characters, and it goes as
far as surrogates follow one another (`Utf8.Unencodable.Locates`).
-/

namespace ReadPlan

namespace CodePoints

theorem not_hasSurrogate_ofString (text : String) : ¬ (ofString text).HasSurrogate := by
  rintro ⟨point, hpoint, hsurrogate⟩
  rcases List.mem_map.1 hpoint with ⟨c, -, rfl⟩
  cases hsurrogate

/-- Whatever a text begins with, it is a run of surrogates, perhaps an empty one, and then none. -/
theorem exists_run (text : CodePoints) :
    ∃ (run : List Surrogate) (rest : CodePoints), text = run.map .surrogate ++ rest ∧
      ∀ s, rest.head? ≠ some (.surrogate s) := by
  induction text with
  | nil => exact ⟨[], [], rfl, fun s h => by cases h⟩
  | cons point later ih =>
    cases point with
    | char c => exact ⟨[], .char c :: later, rfl, fun s h => by cases h⟩
    | surrogate s =>
      rcases ih with ⟨run, rest, rfl, hrest⟩
      exact ⟨s :: run, rest, rfl, hrest⟩

theorem takeWhile_run (run : List Surrogate) {rest : CodePoints}
    (hrest : ∀ s, rest.head? ≠ some (.surrogate s)) :
    (run.map CodePoint.surrogate ++ rest).takeWhile CodePoint.isSurrogate =
      run.map .surrogate := by
  have hnone : rest.takeWhile CodePoint.isSurrogate = [] := by
    match rest with
    | [] | .char _ :: _ => rfl
    | .surrogate s :: _ => exact absurd rfl (hrest s)
  rw [List.takeWhile_append_of_pos, hnone, List.append_nil]
  intro point hpoint
  rcases List.mem_map.1 hpoint with ⟨s, -, rfl⟩
  rfl

end CodePoints

namespace Utf8

/-- The fault tells the first run of surrogates in the text. -/
inductive Unencodable.Locates : Unencodable → CodePoints → Prop where
  | run (before : List Char) (first : Surrogate) (later : List Surrogate) {rest : CodePoints}
    (hrest : ∀ s, rest.head? ≠ some (.surrogate s)) :
    Locates ⟨before.length, before.length + (first :: later).length, first⟩
      (before.map .char ++ ((first :: later).map .surrogate ++ rest))

variable {text : CodePoints} {bytes : Bytes} {fault : Unencodable}

theorem Unencodable.Locates.hasSurrogate (h : fault.Locates text) : text.HasSurrogate := by
  cases h with
  | run before first later => exact ⟨.surrogate first, by simp, rfl⟩

theorem Unencodable.Locates.cons (h : fault.Locates text) (c : Char) :
    ∃ fault : Unencodable, fault.Locates (.char c :: text) := by
  cases h with
  | run before first later hrest => exact ⟨_, .run (c :: before) first later hrest⟩

/-- A text is a string, or there is a first run of surrogates in it. -/
theorem exists_ofString_or_locates (text : CodePoints) :
    (∃ string, text = .ofString string) ∨ ∃ fault : Unencodable, fault.Locates text := by
  induction text with
  | nil => exact .inl ⟨"", rfl⟩
  | cons point rest ih =>
    cases point with
    | surrogate first =>
      rcases CodePoints.exists_run rest with ⟨later, rest, rfl, hrest⟩
      exact .inr ⟨_, .run [] first later hrest⟩
    | char c =>
      rcases ih with ⟨string, rfl⟩ | ⟨fault, hfault⟩
      · refine .inl ⟨String.ofList (c :: string.toList), ?_⟩
        rw [CodePoints.ofString, CodePoints.ofString, String.toList_ofList, List.map_cons]
      · exact .inr (hfault.cons c)

/-- Wherever there is a surrogate, there is a first run of them. -/
theorem exists_locates_iff :
    (∃ fault : Unencodable, fault.Locates text) ↔ text.HasSurrogate := by
  constructor
  · rintro ⟨fault, hfault⟩
    exact hfault.hasSurrogate
  · intro h
    rcases exists_ofString_or_locates text with ⟨string, rfl⟩ | hlocated
    · exact absurd h (CodePoints.not_hasSurrogate_ofString string)
    · exact hlocated

/-! ## The writer -/

/-- Characters are written one after the other, and then what follows them. -/
theorem encodeFrom_append (pos : Nat) (chars : List Char) (rest : CodePoints) :
    encodeFrom pos (chars.map .char ++ rest) =
      (encodeFrom (pos + chars.length) rest).map (chars.flatMap String.utf8EncodeChar ++ ·) := by
  induction chars generalizing pos with
  | nil => exact (congrFun Except.map_id _).symm
  | cons c later ih =>
    rw [List.map_cons, List.cons_append, encodeFrom, ih, List.length_cons,
      Nat.add_right_comm, Nat.add_assoc]
    cases encodeFrom _ rest with
    | error fault => rfl
    | ok bytes => simp [Except.map]

@[simp] theorem encodeStrict_ofString (string : String) :
    encodeStrict (.ofString string) = .ok (encode string) := by
  have hwritten := encodeFrom_append 0 string.toList []
  rw [List.append_nil, encodeFrom, Except.map, List.append_nil] at hwritten
  exact hwritten

theorem Unencodable.Locates.encodeStrict_eq (h : fault.Locates text) :
    encodeStrict text = .error fault := by
  cases h with
  | run before first later hrest =>
    rw [encodeStrict, encodeFrom_append, List.map_cons, List.cons_append, encodeFrom,
      CodePoints.takeWhile_run later hrest]
    simp [Except.map, Nat.add_comm, Nat.add_left_comm]

/-- A text is encoded just if it is a string, and then as the string. -/
theorem encodeStrict_eq_ok_iff :
    encodeStrict text = .ok bytes ↔ ∃ string, text = .ofString string ∧ encode string = bytes := by
  constructor
  · intro h
    rcases exists_ofString_or_locates text with ⟨string, rfl⟩ | ⟨fault, hfault⟩
    · rw [encodeStrict_ofString] at h
      exact ⟨string, rfl, Except.ok.inj h⟩
    · rw [hfault.encodeStrict_eq] at h
      cases h
  · rintro ⟨string, rfl, rfl⟩
    exact encodeStrict_ofString string

/-- A text is refused just with the first run of surrogates in it. -/
theorem encodeStrict_eq_error_iff : encodeStrict text = .error fault ↔ fault.Locates text := by
  constructor
  · intro h
    rcases exists_ofString_or_locates text with ⟨string, rfl⟩ | ⟨found, hfound⟩
    · rw [encodeStrict_ofString] at h
      cases h
    · rw [hfound.encodeStrict_eq] at h
      exact Except.error.inj h ▸ hfound
  · exact Unencodable.Locates.encodeStrict_eq

/-- The two halves of a pair are no character where they stand as code points. -/
example : encodeStrict [.char 'a', .surrogate { code := 0xd83d }, .surrogate { code := 0xde00 },
    .char 'b'] = .error ⟨1, 3, { code := 0xd83d }⟩ :=
  rfl

end Utf8

end ReadPlan
