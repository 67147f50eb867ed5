import ReadPlan.Json.Printer

/-!
# ReadPlan.Proofs.Json.Rendered — what a written JSON value looks like

The elements of a list and the members of an object are written alike, with a comma and a space
between two of them (`Json.joined`). So a property of written values follows from one case for each
kind of value (`Json.induction`). The text is printable ASCII throughout
(`Json.printable_render`).
-/

namespace ReadPlan.Json

/-! ## Values and what is in them -/

/-- What holds of every value if it holds of a list and of an object whose values all have it. -/
theorem induction {P : Json → Prop} (null : P .null) (bool : ∀ flag, P (.bool flag))
    (num : ∀ mantissa exponent, P (.num mantissa exponent)) (str : ∀ text, P (.str text))
    (arr : ∀ items, (∀ item ∈ items, P item) → P (.arr items))
    (obj : ∀ members : List (String × Json), (∀ entry ∈ members, P entry.2) → P (.obj members))
    (value : Json) : P value := by
  refine @Json.rec P (fun items => ∀ item ∈ items, P item)
    (fun members => ∀ entry ∈ members, P entry.2) (fun entry => P entry.2)
    null bool num str arr obj ?_ ?_ ?_ ?_ ?_ value
  · intro item hitem
    exact absurd hitem List.not_mem_nil
  · intro first rest hfirst hrest item hitem
    rcases List.mem_cons.1 hitem with rfl | hmem
    · exact hfirst
    · exact hrest item hmem
  · intro entry hentry
    exact absurd hentry List.not_mem_nil
  · intro first rest hfirst hrest entry hentry
    rcases List.mem_cons.1 hentry with rfl | hmem
    · exact hfirst
    · exact hrest entry hmem
  · intro name found hfound
    exact hfound

/-! ## Elements and members -/

section

variable {α : Type} {write : α → List Char}

/-- What is written of a list, the first element behind the separator given. -/
def joined (write : α → List Char) (separator : List Char) : List α → List Char
  | [] => []
  | first :: rest => separator ++ write first ++ joined write [',', ' '] rest

/-- The written form of a member. -/
def renderMember (entry : String × Json) : List Char :=
  quoted entry.1 ++ ':' :: ' ' :: render entry.2

theorem renderItems_eq (separator : List Char) (items : List Json) :
    renderItems separator items = joined render separator items := by
  induction items generalizing separator with
  | nil => rfl
  | cons item rest ih => rw [renderItems, joined, ih]

theorem renderMembers_eq (separator : List Char) (members : List (String × Json)) :
    renderMembers separator members = joined renderMember separator members := by
  induction members generalizing separator with
  | nil => rfl
  | cons entry rest ih =>
    obtain ⟨name, value⟩ := entry
    rw [renderMembers, joined, ih, renderMember]
    simp

theorem render_arr (items : List Json) :
    render (.arr items) = '[' :: (joined render [] items ++ [']']) := by
  rw [render, renderItems_eq]
  rfl

theorem render_obj (members : List (String × Json)) :
    render (.obj members) = '{' :: (joined renderMember [] members ++ ['}']) := by
  rw [render, renderMembers_eq]
  rfl

/-- Each element is written in full. -/
theorem length_le_joined {element : α} {elements : List α} (hmem : element ∈ elements)
    (separator : List Char) :
    (write element).length ≤ (joined write separator elements).length := by
  induction elements generalizing separator with
  | nil => exact absurd hmem List.not_mem_nil
  | cons first rest ih =>
    rw [joined, List.length_append, List.length_append]
    rcases List.mem_cons.1 hmem with rfl | hrest
    · omega
    · have hle := ih hrest [',', ' ']
      omega

/-- Each element but the first stands behind a comma. -/
theorem length_le_joined_comma (elements : List α) :
    elements.length ≤ (joined write [',', ' '] elements).length := by
  induction elements with
  | nil => exact Nat.zero_le _
  | cons first rest ih =>
    rw [joined, List.length_append, List.length_append, List.length_cons]
    have hcomma : [',', ' '].length = 2 := rfl
    omega

/-- What holds of the characters of the elements and of the separators holds of all characters. -/
theorem forall_mem_joined {P : Char → Prop} (hcomma : P ',') (hspace : P ' ') {elements : List α}
    (helements : ∀ element ∈ elements, ∀ c ∈ write element, P c) {separator : List Char}
    (hseparator : ∀ c ∈ separator, P c) : ∀ c ∈ joined write separator elements, P c := by
  induction elements generalizing separator with
  | nil =>
    intro c hc
    exact absurd hc List.not_mem_nil
  | cons first rest ih =>
    intro c hc
    rw [joined, List.append_assoc, List.mem_append, List.mem_append] at hc
    rcases hc with hc | hc | hc
    · exact hseparator c hc
    · exact helements first List.mem_cons_self c hc
    · refine ih (fun element hmem => helements element (List.mem_cons_of_mem _ hmem)) ?_ c hc
      simp [hcomma, hspace]

end

/-! ## Printable ASCII -/

/-- A character of printable ASCII. -/
def IsPrintable (c : Char) : Prop :=
  0x20 ≤ c.toNat ∧ c.toNat < 0x7f

instance (c : Char) : Decidable (IsPrintable c) :=
  inferInstanceAs (Decidable (_ ∧ _))

theorem printable_of_all {cs : List Char} (h : cs.all (IsPrintable ·) = true) :
    ∀ c ∈ cs, IsPrintable c := by
  intro c hc
  exact of_decide_eq_true (List.all_eq_true.1 h c hc)

theorem printable_of_isDigit {c : Char} (h : c.isDigit = true) : IsPrintable c := by
  rw [Char.isDigit, Bool.and_eq_true, decide_eq_true_iff, decide_eq_true_iff] at h
  have hlow : 48 ≤ c.toNat := h.1
  have hhigh : c.toNat ≤ 57 := h.2
  exact ⟨by omega, by omega⟩

theorem printable_hexDigit : ∀ n, n < 16 → IsPrintable (Hex.digit .lower n) := by
  decide

theorem printable_escapeUnit (unit : Nat) : ∀ c ∈ escapeUnit unit, IsPrintable c := by
  have hdigit : ∀ n, IsPrintable (Hex.digit .lower (n % 16)) :=
    fun n => printable_hexDigit _ (Nat.mod_lt _ (by decide))
  intro c hc
  simp only [escapeUnit, Hex.ofUnit, List.mem_cons, List.not_mem_nil, or_false] at hc
  rcases hc with rfl | rfl | rfl | rfl | rfl | rfl
  · decide
  · decide
  · exact hdigit _
  · exact hdigit _
  · exact hdigit _
  · exact hdigit _

/-- The characters with a short escape, each with its letter. -/
def shortEscapes : List (Char × Char) :=
  [('"', '"'), ('\\', '\\'), ('\n', 'n'), ('\r', 'r'), ('\t', 't'), ('\x08', 'b'), ('\x0c', 'f')]

theorem mem_shortEscapes {c letter : Char} (h : shortEscape? c = some letter) :
    (c, letter) ∈ shortEscapes := by
  grind [shortEscape?, shortEscapes]

theorem printable_shortEscape : ∀ entry ∈ shortEscapes, IsPrintable entry.2 := by
  decide

theorem printable_escape (c : Char) : ∀ d ∈ escape c, IsPrintable d := by
  intro d hd
  rw [escape] at hd
  split at hd
  · rename_i letter hletter
    rcases List.mem_cons.1 hd with rfl | hd
    · decide
    · rw [List.mem_singleton.1 hd]
      exact printable_shortEscape _ (mem_shortEscapes hletter)
  · split at hd
    · rename_i hplain
      rw [List.mem_singleton.1 hd]
      exact hplain
    · rcases List.mem_flatMap.1 hd with ⟨unit, -, hunit⟩
      exact printable_escapeUnit unit d hunit

theorem printable_quoted (value : String) : ∀ c ∈ quoted value, IsPrintable c := by
  intro c hc
  rw [quoted, List.cons_append, List.mem_cons, List.mem_append, List.mem_flatMap] at hc
  rcases hc with rfl | ⟨d, -, hd⟩ | hc
  · decide
  · exact printable_escape d c hd
  · rw [List.mem_singleton.1 hc]
    decide

theorem printable_integer (n : Int) : ∀ c ∈ integer n, IsPrintable c := by
  have hdigits : ∀ c ∈ Nat.toDigits 10 n.natAbs, IsPrintable c := fun c hc =>
    printable_of_isDigit (Nat.isDigit_of_mem_toDigits (by decide) (by decide) hc)
  intro c hc
  rw [integer] at hc
  split at hc
  · rcases List.mem_cons.1 hc with rfl | hc
    · decide
    · exact hdigits c hc
  · exact hdigits c hc

theorem printable_number (mantissa exponent : Int) :
    ∀ c ∈ number mantissa exponent, IsPrintable c := by
  intro c hc
  rw [number] at hc
  split at hc
  · exact printable_integer mantissa c hc
  · rcases List.mem_append.1 hc with hc | hc
    · exact printable_integer mantissa c hc
    · rcases List.mem_cons.1 hc with rfl | hc
      · decide
      · exact printable_integer exponent c hc

/-- A value is written in printable ASCII. -/
theorem printable_render (value : Json) : ∀ c ∈ render value, IsPrintable c := by
  induction value using Json.induction with
  | null => exact printable_of_all rfl
  | bool flag => cases flag <;> exact printable_of_all rfl
  | num mantissa exponent =>
    rw [render]
    exact printable_number mantissa exponent
  | str text =>
    rw [render]
    exact printable_quoted text
  | arr items ih =>
    intro c hc
    rw [render_arr, List.mem_cons, List.mem_append, List.mem_singleton] at hc
    rcases hc with rfl | hc | rfl
    · decide
    · exact forall_mem_joined (by decide) (by decide) ih (by simp) c hc
    · decide
  | obj members ih =>
    have hmember : ∀ entry ∈ members, ∀ c ∈ renderMember entry, IsPrintable c := by
      intro entry hentry c hc
      rw [renderMember, List.mem_append, List.mem_cons, List.mem_cons] at hc
      rcases hc with hc | rfl | rfl | hc
      · exact printable_quoted entry.1 c hc
      · decide
      · decide
      · exact ih entry hentry c hc
    intro c hc
    rw [render_obj, List.mem_cons, List.mem_append, List.mem_singleton] at hc
    rcases hc with rfl | hc | rfl
    · decide
    · exact forall_mem_joined (by decide) (by decide) hmember (by simp) c hc
    · decide

end ReadPlan.Json
