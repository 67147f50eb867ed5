import ReadPlan.Json.Reader
import ReadPlan.Proofs.Json.Rendered

/-!
# ReadPlan.Proofs.Json.RoundTrip — the reader undoes the printer

Every written value is read back as it was, whatever text comes after it, as long as that text does
not go on with a number (`Json.value_render`). So the text of a value is read as this value and as
no other (`Json.read?_text`, `Json.text_injective`).

Each part of the printer has its own case: a character and its code units, a string, the digits of
an integer, a number, and the elements of a list or an object.
-/

namespace ReadPlan.Json

/-! ## Strings -/

theorem hexValue?_digit {n : Nat} (h : n < 16) : hexValue? (Hex.digit .lower n) = some n := by
  rw [hexValue?, Hex.value?_digit .lower n h]
  rfl

theorem unit?_ofUnit {n : Nat} (h : n < 0x10000) :
    unit? (Hex.digit .lower (n / 4096 % 16)) (Hex.digit .lower (n / 256 % 16))
      (Hex.digit .lower (n / 16 % 16)) (Hex.digit .lower (n % 16)) = some n := by
  have hdigit : ∀ k, hexValue? (Hex.digit .lower (k % 16)) = some (k % 16) :=
    fun k => hexValue?_digit (Nat.mod_lt _ (by decide))
  have hvalue : n / 4096 % 16 * 4096 + n / 256 % 16 * 256 + n / 16 % 16 * 16 + n % 16 = n := by
    omega
  simp [unit?, hdigit, hvalue]

theorem codes_quote (rest : List Char) : codes ('"' :: rest) = some ([], rest) := by
  rw [codes.eq_def]
  rfl

/-- A letter behind a backslash is read as its code. -/
theorem codes_letter {letter : Char} {code : Nat} (hu : letter ≠ 'u')
    (hcode : escapeCode? letter = some code) {cs tail : List Char} {more : List Nat}
    (hcodes : codes cs = some (more, tail)) :
    codes ('\\' :: letter :: cs) = some (code :: more, tail) := by
  rw [codes.eq_def]
  simp [hu, hcode, hcodes]

/-- Any other character is read as its code point. -/
theorem codes_plain {c : Char} (hquote : c ≠ '"') (hbackslash : c ≠ '\\') (hlow : 0x20 ≤ c.toNat)
    {cs tail : List Char} {more : List Nat} (hcodes : codes cs = some (more, tail)) :
    codes (c :: cs) = some (c.toNat :: more, tail) := by
  rw [codes.eq_def]
  simp [hquote, hbackslash, Nat.not_lt.2 hlow, hcodes]

/-- An escaped code unit is read as this unit. -/
theorem codes_escapeUnit {unit : Nat} (hunit : unit < 0x10000) {cs tail : List Char}
    {more : List Nat} (hcodes : codes cs = some (more, tail)) :
    codes (escapeUnit unit ++ cs) = some (unit :: more, tail) := by
  simp [escapeUnit, Hex.ofUnit, codes, unit?_ofUnit hunit, hcodes]

theorem units_lt (c : Char) : ∀ unit ∈ units c, unit < 0x10000 := by
  have hvalid : c.toNat < 0xd800 ∨ 0xdfff < c.toNat ∧ c.toNat < 0x110000 := c.valid
  intro unit hunit
  rw [units] at hunit
  split at hunit
  · simp at hunit
    omega
  · simp at hunit
    omega

theorem codes_escapeUnits {found : List Nat} (hfound : ∀ unit ∈ found, unit < 0x10000)
    {cs tail : List Char} {more : List Nat} (hcodes : codes cs = some (more, tail)) :
    codes (found.flatMap escapeUnit ++ cs) = some (found ++ more, tail) := by
  induction found with
  | nil => exact hcodes
  | cons unit rest ih =>
    rw [List.flatMap_cons, List.append_assoc]
    exact codes_escapeUnit (hfound unit List.mem_cons_self)
      (ih fun u hu => hfound u (List.mem_cons_of_mem _ hu))

/-- A short escape is read as the one code unit of its character. -/
theorem escapeCode?_shortEscape : ∀ entry ∈ shortEscapes,
    entry.2 ≠ 'u' ∧ escapeCode? entry.2 = some entry.1.toNat ∧ units entry.1 = [entry.1.toNat] := by
  decide

/-- The written form of a character is read as its code units. -/
theorem codes_escape (c : Char) {cs tail : List Char} {more : List Nat}
    (hcodes : codes cs = some (more, tail)) :
    codes (escape c ++ cs) = some (units c ++ more, tail) := by
  rw [escape]
  split
  · rename_i letter hletter
    rcases escapeCode?_shortEscape _ (mem_shortEscapes hletter) with ⟨hu, hcode, hunits⟩
    have hunits' : units c = [c.toNat] := hunits
    rw [hunits']
    exact codes_letter hu hcode hcodes
  · rename_i hnone
    split
    · -- a plain character is neither the quote nor the backslash, as these have short escapes
      rename_i hplain
      have hquote : c ≠ '"' := by
        rintro rfl
        cases hnone
      have hbackslash : c ≠ '\\' := by
        rintro rfl
        cases hnone
      have hunits : units c = [c.toNat] := if_pos (by omega)
      rw [hunits]
      exact codes_plain hquote hbackslash hplain.1 hcodes
    · exact codes_escapeUnits (units_lt c) hcodes

/-- Code units are joined to the character that they were made of. -/
theorem join_units (c : Char) {more : List Nat} {cs : List Char} (hjoin : join more = some cs) :
    join (units c ++ more) = some (c :: cs) := by
  have hvalid : c.toNat < 0xd800 ∨ 0xdfff < c.toNat ∧ c.toNat < 0x110000 := c.valid
  by_cases hsmall : c.toNat < 0x10000
  · -- a code unit of its own is no surrogate
    have hunits : units c = [c.toNat] := if_pos hsmall
    have hhigh : ¬ (0xd800 ≤ c.toNat ∧ c.toNat < 0xdc00) := by omega
    have hlow : ¬ (0xdc00 ≤ c.toNat ∧ c.toNat < 0xe000) := by omega
    rw [hunits, List.singleton_append, join.eq_def]
    simp [hhigh, hlow, hjoin]
  · have hunits : units c =
        [0xd800 + (c.toNat - 0x10000) / 0x400, 0xdc00 + (c.toNat - 0x10000) % 0x400] :=
      if_neg hsmall
    have hhigh : 0xd800 ≤ 0xd800 + (c.toNat - 0x10000) / 0x400 ∧
        0xd800 + (c.toNat - 0x10000) / 0x400 < 0xdc00 := by omega
    have hlow : 0xdc00 ≤ 0xdc00 + (c.toNat - 0x10000) % 0x400 ∧
        0xdc00 + (c.toNat - 0x10000) % 0x400 < 0xe000 := by omega
    have hvalue : 0x10000 + (0xd800 + (c.toNat - 0x10000) / 0x400 - 0xd800) * 0x400 +
        (0xdc00 + (c.toNat - 0x10000) % 0x400 - 0xdc00) = c.toNat := by omega
    rw [hunits, List.cons_append, List.singleton_append, join, if_pos hhigh, if_pos hlow, hvalue,
      hjoin, Option.map_some, Char.ofNat_toNat]

theorem codes_quoted (cs rest : List Char) :
    codes (cs.flatMap escape ++ '"' :: rest) = some (cs.flatMap units, rest) := by
  induction cs with
  | nil => exact codes_quote rest
  | cons c cs ih =>
    rw [List.flatMap_cons, List.flatMap_cons, List.append_assoc]
    exact codes_escape c ih

theorem join_flatMap_units (cs : List Char) : join (cs.flatMap units) = some cs := by
  induction cs with
  | nil => rfl
  | cons c cs ih =>
    rw [List.flatMap_cons]
    exact join_units c ih

/-- A written string is read back. -/
theorem string_quoted (value : String) (rest : List Char) :
    string (quoted value ++ rest) = some (value, rest) := by
  have hcodes := codes_quoted value.toList rest
  simp [quoted, string, hcodes, join_flatMap_units]

/-! ## Numbers -/

/-- A text that does not go on with a number. -/
def EndsNumber (rest : List Char) : Prop :=
  ∀ c ∈ rest.head?, c.isDigit = false ∧ c ≠ '.' ∧ c ≠ 'e' ∧ c ≠ 'E'

theorem endsNumber_nil : EndsNumber [] := by
  intro c hc
  cases hc

theorem endsNumber_cons {c : Char} (hdigit : c.isDigit = false) (hpoint : c ≠ '.') (he : c ≠ 'e')
    (hE : c ≠ 'E') (rest : List Char) : EndsNumber (c :: rest) := by
  intro d hd
  cases hd
  exact ⟨hdigit, hpoint, he, hE⟩

/-- The digits of a number are read up to what is no digit. -/
theorem digits_toDigits (n : Nat) {rest : List Char}
    (hrest : ∀ c ∈ rest.head?, c.isDigit = false) :
    digits (Nat.toDigits 10 n ++ rest) = some (Nat.toDigits 10 n, rest) := by
  have hall : ∀ c ∈ Nat.toDigits 10 n, c.isDigit = true := fun _ hc =>
    Nat.isDigit_of_mem_toDigits (by decide) (by decide) hc
  have hnone : rest.takeWhile Char.isDigit = [] ∧ rest.dropWhile Char.isDigit = rest := by
    cases rest with
    | nil => exact ⟨rfl, rfl⟩
    | cons c tail =>
      have hc : c.isDigit = false := hrest c rfl
      simp [hc]
  have hne : Nat.toDigits 10 n ≠ [] := Nat.toDigits_ne_nil
  rw [digits, List.takeWhile_append_of_pos hall, List.dropWhile_append_of_pos hall, hnone.1,
    hnone.2, List.append_nil]
  simp [hne]

/-- A positive number does not begin with a zero. -/
theorem head?_toDigits {n : Nat} (hn : 0 < n) : (Nat.toDigits 10 n).head? ≠ some '0' := by
  induction n using Nat.strongRecOn with
  | ind n ih =>
    by_cases hsmall : n < 10
    · have hall : ∀ k, k < 10 → 0 < k → [Nat.digitChar k].head? ≠ some '0' := by decide
      rw [Nat.toDigits_of_lt_base hsmall]
      exact hall n hsmall hn
    · -- the last digit aside, the digits are those of a smaller number
      have hdiv : 0 < n / 10 := by omega
      rw [Nat.toDigits_of_base_le (by decide) (Nat.not_lt.1 hsmall), List.head?_append]
      cases hdigits : Nat.toDigits 10 (n / 10) with
      | nil => exact absurd hdigits Nat.toDigits_ne_nil
      | cons first tail =>
        have hfirst := ih (n / 10) (by omega) hdiv
        rw [hdigits] at hfirst
        exact hfirst

theorem exists_toDigits_eq_cons (n : Nat) :
    ∃ c tail, Nat.toDigits 10 n = c :: tail ∧ c.isDigit = true := by
  cases hdigits : Nat.toDigits 10 n with
  | nil => exact absurd hdigits Nat.toDigits_ne_nil
  | cons c tail =>
    have hmem : c ∈ Nat.toDigits 10 n := hdigits ▸ List.mem_cons_self
    exact ⟨c, tail, rfl, Nat.isDigit_of_mem_toDigits (by decide) (by decide) hmem⟩

theorem minus_of_ne {c : Char} (hc : c ≠ '-') (cs : List Char) :
    minus (c :: cs) = (false, c :: cs) := by
  unfold minus
  split
  · rename_i heq
    exact absurd (List.cons.inj heq).1 hc
  · rfl

/-- An integer is read as its sign and its digits. -/
theorem minus_integer (n : Int) (rest : List Char) :
    minus (integer n ++ rest) = (decide (n < 0), Nat.toDigits 10 n.natAbs ++ rest) := by
  rw [integer]
  by_cases hneg : n < 0
  · rw [if_pos hneg, decide_eq_true hneg]
    rfl
  · rw [if_neg hneg, decide_eq_false hneg]
    rcases exists_toDigits_eq_cons n.natAbs with ⟨c, tail, hdigits, hc⟩
    rw [hdigits]
    refine minus_of_ne ?_ (tail ++ rest)
    rintro rfl
    cases hc

theorem signed_decimal (n : Int) :
    signed (decide (n < 0)) (decimal (Nat.toDigits 10 n.natAbs)) = n := by
  rw [decimal, Nat.ofDigitChars_ten_toDigits, signed]
  by_cases hneg : n < 0
  · rw [decide_eq_true hneg, if_pos rfl]
    omega
  · rw [decide_eq_false hneg, if_neg Bool.false_ne_true]
    omega

theorem fraction_of_ne {rest : List Char} (h : ∀ c ∈ rest.head?, c ≠ '.') :
    fraction rest = some ([], rest) := by
  unfold fraction
  split
  · exact absurd rfl (h '.' rfl)
  · rfl

/-- No letter for an exponent follows. -/
theorem exponent_of_ne {rest : List Char} (h : ∀ c ∈ rest.head?, c ≠ 'e' ∧ c ≠ 'E') :
    exponent rest = some (0, rest) := by
  cases rest with
  | nil => rfl
  | cons c tail =>
    have hc := h c rfl
    simp [exponent, hc.1, hc.2]

/-- An integer begins with a minus sign or a digit. -/
theorem exists_integer_eq_cons (n : Int) :
    ∃ c tail, integer n = c :: tail ∧ (c = '-' ∨ c.isDigit = true) := by
  rw [integer]
  split
  · exact ⟨'-', _, rfl, Or.inl rfl⟩
  · rcases exists_toDigits_eq_cons n.natAbs with ⟨c, tail, hdigits, hc⟩
    exact ⟨c, tail, hdigits, Or.inr hc⟩

/-- A written exponent is read back. -/
theorem exponent_integer (n : Int) {rest : List Char} (hrest : EndsNumber rest) :
    exponent ('e' :: (integer n ++ rest)) = some (n, rest) := by
  have hdigits := digits_toDigits n.natAbs fun c hc => (hrest c hc).1
  -- an integer is written without a plus sign, so only a minus sign is looked for
  have hplus : ∀ after, integer n ++ rest = '+' :: after → False := by
    intro after heq
    rcases exists_integer_eq_cons n with ⟨c, tail, hinteger, hc⟩
    rw [hinteger] at heq
    rw [(List.cons.inj heq).1] at hc
    rcases hc with hc | hc <;> cases hc
  simp [exponent, minus_integer, hdigits, signed_decimal]

/-- A written number is read back. -/
theorem numberStep_number (mantissa power : Int) {rest : List Char} (hrest : EndsNumber rest) :
    numberStep (number mantissa power ++ rest) = some (.num mantissa power, rest) := by
  -- behind the digits stands the exponent, or what follows the number
  have hwritten : ∃ after, number mantissa power ++ rest = integer mantissa ++ after ∧
      (∀ c ∈ after.head?, c.isDigit = false) ∧ (∀ c ∈ after.head?, c ≠ '.') ∧
      exponent after = some (power, rest) := by
    rw [number]
    by_cases hzero : power = 0
    · rw [if_pos hzero, hzero]
      exact ⟨rest, rfl, fun c hc => (hrest c hc).1, fun c hc => (hrest c hc).2.1,
        exponent_of_ne fun c hc => (hrest c hc).2.2⟩
    · rw [if_neg hzero, List.append_assoc]
      refine ⟨'e' :: (integer power ++ rest), rfl, ?_, ?_, exponent_integer power hrest⟩
      · intro c hc
        cases hc
        rfl
      · intro c hc
        cases hc
        decide
  rcases hwritten with ⟨after, hwritten, hdigit, hpoint, hexponent⟩
  have hminus := minus_integer mantissa after
  have hdigits := digits_toDigits mantissa.natAbs hdigit
  have hlead : ¬ ((Nat.toDigits 10 mantissa.natAbs).head? = some '0' ∧
      (Nat.toDigits 10 mantissa.natAbs).length ≠ 1) := by
    rintro ⟨hhead, hlength⟩
    by_cases hzero : mantissa.natAbs = 0
    · rw [hzero] at hlength
      exact hlength rfl
    · exact head?_toDigits (Nat.pos_of_ne_zero hzero) hhead
  rw [hwritten, numberStep]
  simp [hminus, hdigits, hlead, fraction_of_ne hpoint, hexponent, signed_decimal]

/-! ## Lists and objects -/

theorem skipBlanks_of_not_blank {c : Char} (hc : ¬ IsBlank c) (cs : List Char) :
    skipBlanks (c :: cs) = c :: cs := by
  simp [skipBlanks, hc]

theorem skipBlanks_space (cs : List Char) : skipBlanks (' ' :: cs) = skipBlanks cs := by
  simp [skipBlanks, IsBlank]

/-- What closes a list or an object. -/
def IsClosing (close : Char) : Prop :=
  close = ']' ∨ close = '}'

theorem IsClosing.skipBlanks {close : Char} (hclose : IsClosing close) (rest : List Char) :
    skipBlanks (close :: rest) = close :: rest := by
  refine skipBlanks_of_not_blank ?_ rest
  rcases hclose with rfl | rfl <;> decide

/-- What follows an element is a comma or what closes. -/
theorem endsNumber_joined {α : Type} (write : α → List Char) {close : Char}
    (hclose : IsClosing close) (elements : List α) (rest : List Char) :
    EndsNumber (joined write [',', ' '] elements ++ close :: rest) := by
  cases elements with
  | nil =>
    rcases hclose with rfl | rfl
    · exact endsNumber_cons rfl (by decide) (by decide) (by decide) rest
    · exact endsNumber_cons rfl (by decide) (by decide) (by decide) rest
  | cons first tail =>
    exact endsNumber_cons rfl (by decide) (by decide) (by decide) _

section

variable {α : Type} {item : Step α} {write : α → List Char} {close : Char}

theorem separated_space (hspace : ∀ cs, item (' ' :: cs) = item cs) (bound : Nat)
    (cs : List Char) : separated item close bound (' ' :: cs) = separated item close bound cs := by
  cases bound with
  | zero => rfl
  | succ bound => rw [separated, separated, hspace]

/-- Elements with commas between them are read back, if each of them is. -/
theorem separated_joined (hclose : IsClosing close)
    (hspace : ∀ cs, item (' ' :: cs) = item cs) {first : α} {others : List α}
    (hread : ∀ element ∈ first :: others, ∀ rest, EndsNumber rest →
      item (write element ++ rest) = some (element, rest))
    {bound : Nat} (hbound : others.length < bound) (rest : List Char) :
    separated item close bound
        (write first ++ (joined write [',', ' '] others ++ close :: rest)) =
      some (first :: others, rest) := by
  have hfirst := hread first List.mem_cons_self _ (endsNumber_joined write hclose others rest)
  obtain ⟨bound, rfl⟩ : ∃ b, bound = b + 1 := ⟨bound - 1, by omega⟩
  have hcomma : ',' ≠ close := by rcases hclose with rfl | rfl <;> decide
  induction others generalizing first bound with
  | nil =>
    rw [separated, hfirst]
    simp [joined, hclose.skipBlanks rest]
  | cons second others ih =>
    have hrest : separated item close bound
        (write second ++ (joined write [',', ' '] others ++ close :: rest)) =
          some (second :: others, rest) := by
      have hsecond := hread second (by simp) _ (endsNumber_joined write hclose others rest)
      rw [List.length_cons] at hbound
      obtain ⟨bound, rfl⟩ : ∃ b, bound = b + 1 := ⟨bound - 1, by omega⟩
      exact ih (fun element hmem => hread element (List.mem_cons_of_mem _ hmem)) hsecond bound
        (by omega)
    have hafter : joined write [',', ' '] (second :: others) ++ close :: rest =
        ',' :: ' ' :: (write second ++ (joined write [',', ' '] others ++ close :: rest)) := by
      simp [joined]
    have hskip := skipBlanks_of_not_blank (c := ',') (by decide)
      (' ' :: (write second ++ (joined write [',', ' '] others ++ close :: rest)))
    rw [separated, hfirst, hafter]
    simp [hskip, hcomma, separated_space hspace, hrest]

/-- So is what stands between brackets. No element begins with a blank or with what closes. -/
theorem bracketed_joined (hclose : IsClosing close)
    (hspace : ∀ cs, item (' ' :: cs) = item cs) {elements : List α}
    (hread : ∀ element ∈ elements, ∀ rest, EndsNumber rest →
      item (write element ++ rest) = some (element, rest))
    (hhead : ∀ element ∈ elements, ∃ c tail, write element = c :: tail ∧ ¬ IsBlank c ∧ c ≠ close)
    (rest : List Char) :
    bracketed item close (joined write [] elements ++ close :: rest) = some (elements, rest) := by
  cases elements with
  | nil =>
    simp [joined, bracketed, hclose.skipBlanks rest]
  | cons first others =>
    rcases hhead first List.mem_cons_self with ⟨c, tail, hwrite, hblank, hne⟩
    have htext : joined write [] (first :: others) ++ close :: rest =
        write first ++ (joined write [',', ' '] others ++ close :: rest) := by
      simp [joined]
    -- each element but the first has a comma of its own, so the length is bound enough
    have hbound : others.length <
        (write first ++ (joined write [',', ' '] others ++ close :: rest)).length := by
      have hcommas : others.length ≤ (joined write [',', ' '] others).length :=
        length_le_joined_comma others
      rw [List.length_append, List.length_append, List.length_cons]
      omega
    have hseparated := separated_joined hclose hspace hread hbound rest
    rw [htext, bracketed]
    rw [hwrite, List.cons_append] at hseparated ⊢
    rw [skipBlanks_of_not_blank hblank]
    exact (if_neg hne).trans hseparated

end

/-! ## Values -/

theorem value_space (depth : Nat) (cs : List Char) : value depth (' ' :: cs) = value depth cs := by
  cases depth with
  | zero => rfl
  | succ depth => rw [value, value, skipBlanks_space]

theorem member_space (read : Step Json) (cs : List Char) :
    member read (' ' :: cs) = member read cs := by
  rw [member, member, skipBlanks_space]

/-- A written member is read back, if its value is. -/
theorem member_renderMember {depth : Nat} {entry : String × Json} {rest : List Char}
    (hvalue : value depth (render entry.2 ++ rest) = some (entry.2, rest)) :
    member (value depth) (renderMember entry ++ rest) = some (entry, rest) := by
  have htext : renderMember entry ++ rest =
      quoted entry.1 ++ ':' :: ' ' :: (render entry.2 ++ rest) := by
    simp [renderMember]
  have hquote : skipBlanks (quoted entry.1 ++ ':' :: ' ' :: (render entry.2 ++ rest)) =
      quoted entry.1 ++ ':' :: ' ' :: (render entry.2 ++ rest) :=
    skipBlanks_of_not_blank (c := '"') (by decide) _
  have hcolon : skipBlanks (':' :: ' ' :: (render entry.2 ++ rest)) =
      ':' :: ' ' :: (render entry.2 ++ rest) :=
    skipBlanks_of_not_blank (by decide) _
  have hread : value depth (' ' :: (render entry.2 ++ rest)) = some (entry.2, rest) :=
    (value_space depth _).trans hvalue
  rw [htext, member, hquote, string_quoted]
  simp [hcolon, hread]

/-- A number begins with a minus sign or a digit. -/
theorem exists_number_eq_cons (mantissa exponent : Int) :
    ∃ c tail, number mantissa exponent = c :: tail ∧ (c = '-' ∨ c.isDigit = true) := by
  rcases exists_integer_eq_cons mantissa with ⟨c, tail, hinteger, hc⟩
  rw [number, hinteger]
  split
  · exact ⟨c, tail, rfl, hc⟩
  · exact ⟨c, _, rfl, hc⟩

/-- A written value begins with no blank and with nothing that closes a list. -/
theorem exists_render_eq_cons (v : Json) :
    ∃ c tail, render v = c :: tail ∧ ¬ IsBlank c ∧ c ≠ ']' := by
  cases v with
  | null => exact ⟨'n', _, rfl, by decide, by decide⟩
  | bool flag => cases flag <;> exact ⟨_, _, rfl, by decide, by decide⟩
  | num mantissa exponent =>
    rcases exists_number_eq_cons mantissa exponent with ⟨c, tail, hnumber, hc⟩
    rw [render]
    refine ⟨c, tail, hnumber, ?_, ?_⟩
    · rintro (rfl | rfl | rfl | rfl)
      all_goals rcases hc with hc | hc <;> cases hc
    · rintro rfl
      rcases hc with hc | hc <;> cases hc
  | str text => exact ⟨'"', _, rfl, by decide, by decide⟩
  | arr items => exact ⟨'[', _, rfl, by decide, by decide⟩
  | obj members => exact ⟨'{', _, rfl, by decide, by decide⟩

theorem exists_depth {v : Json} {depth : Nat} (h : (render v).length ≤ depth) :
    ∃ below, depth = below + 1 := by
  rcases exists_render_eq_cons v with ⟨c, tail, hrender, -⟩
  rw [hrender, List.length_cons] at h
  exact ⟨depth - 1, by omega⟩

/-- What begins like a number is read as a number. -/
theorem value_of_number {c : Char} (hc : c = '-' ∨ c.isDigit = true) (depth : Nat)
    (cs : List Char) : value (depth + 1) (c :: cs) = numberStep (c :: cs) := by
  have hne : ∀ d, d.isDigit = false → d ≠ '-' → c ≠ d := by
    rintro d hdigit hminus rfl
    rcases hc with hc | hc
    · exact hminus hc
    · rw [hdigit] at hc
      cases hc
  have hblank : ¬ IsBlank c := by
    rintro (h | h | h | h)
    all_goals exact absurd h (hne _ rfl (by decide))
  rw [value, skipBlanks_of_not_blank hblank]
  split
  · rename_i heq
    exact absurd (List.cons.inj heq).1 (hne 'n' rfl (by decide))
  · rename_i heq
    exact absurd (List.cons.inj heq).1 (hne 't' rfl (by decide))
  · rename_i heq
    exact absurd (List.cons.inj heq).1 (hne 'f' rfl (by decide))
  · rename_i heq
    exact absurd (List.cons.inj heq).1 (hne '"' rfl (by decide))
  · rename_i heq
    exact absurd (List.cons.inj heq).1 (hne '[' rfl (by decide))
  · rename_i heq
    exact absurd (List.cons.inj heq).1 (hne '{' rfl (by decide))
  · rfl

/-- **A written value is read back**, before any text that does not go on with a number. The depth
that the reader may go to is at least the length of what is written. -/
theorem value_render (v : Json) : ∀ depth, (render v).length ≤ depth → ∀ rest, EndsNumber rest →
    value depth (render v ++ rest) = some (v, rest) := by
  induction v using Json.induction with
  | null =>
    intro depth hdepth rest hrest
    obtain ⟨depth, rfl⟩ := exists_depth hdepth
    simp [render, value, skipBlanks, IsBlank]
  | bool flag =>
    intro depth hdepth rest hrest
    obtain ⟨depth, rfl⟩ := exists_depth hdepth
    cases flag <;> simp [render, value, skipBlanks, IsBlank]
  | num mantissa exponent =>
    intro depth hdepth rest hrest
    obtain ⟨depth, rfl⟩ := exists_depth hdepth
    have hread := numberStep_number mantissa exponent hrest
    rcases exists_number_eq_cons mantissa exponent with ⟨c, tail, hnumber, hc⟩
    rw [render]
    rw [hnumber, List.cons_append] at hread ⊢
    rw [value_of_number hc, hread]
  | str text =>
    intro depth hdepth rest hrest
    obtain ⟨depth, rfl⟩ := exists_depth hdepth
    have hread := string_quoted text rest
    have hquoted : quoted text ++ rest = '"' :: (text.toList.flatMap escape ++ '"' :: rest) := by
      simp [quoted]
    rw [render]
    rw [hquoted] at hread ⊢
    rw [value, skipBlanks_of_not_blank (by decide)]
    simp [hread]
  | arr items ih =>
    intro depth hdepth rest hrest
    obtain ⟨depth, rfl⟩ := exists_depth hdepth
    rw [render_arr, List.length_cons, List.length_append, List.length_singleton] at hdepth
    -- each item is shorter than the list
    have hitems : ∀ item ∈ items, ∀ after, EndsNumber after →
        value depth (render item ++ after) = some (item, after) := by
      intro item hitem
      have hle : (render item).length ≤ (joined render [] items).length :=
        length_le_joined hitem []
      exact ih item hitem depth (by omega)
    have hread := bracketed_joined (Or.inl rfl) (value_space depth) hitems
      (fun item _ => exists_render_eq_cons item) rest
    have htext : render (.arr items) ++ rest = '[' :: (joined render [] items ++ ']' :: rest) := by
      simp [render_arr]
    rw [htext, value, skipBlanks_of_not_blank (by decide)]
    simp [hread]
  | obj members ih =>
    intro depth hdepth rest hrest
    obtain ⟨depth, rfl⟩ := exists_depth hdepth
    rw [render_obj, List.length_cons, List.length_append, List.length_singleton] at hdepth
    have hmembers : ∀ entry ∈ members, ∀ after, EndsNumber after →
        member (value depth) (renderMember entry ++ after) = some (entry, after) := by
      intro entry hentry after hafter
      have hle : (renderMember entry).length ≤ (joined renderMember [] members).length :=
        length_le_joined hentry []
      have hlength : (render entry.2).length ≤ (renderMember entry).length := by
        rw [renderMember, List.length_append, List.length_cons, List.length_cons]
        omega
      have hvalue := ih entry hentry depth (by omega) after hafter
      exact member_renderMember hvalue
    have hhead : ∀ entry ∈ members,
        ∃ c tail, renderMember entry = c :: tail ∧ ¬ IsBlank c ∧ c ≠ '}' :=
      fun entry _ => ⟨'"', _, rfl, by decide, by decide⟩
    have hread := bracketed_joined (Or.inr rfl) (member_space (value depth)) hmembers hhead rest
    have htext : render (.obj members) ++ rest =
        '{' :: (joined renderMember [] members ++ '}' :: rest) := by
      simp [render_obj]
    rw [htext, value, skipBlanks_of_not_blank (by decide)]
    simp [hread]

/-- **The text of a value is read as this value.** -/
theorem read?_text (v : Json) : read? (text v) = some v := by
  have hread := value_render v ((render v).length + 1) (Nat.le_succ _) [] endsNumber_nil
  rw [List.append_nil] at hread
  have hlist : (text v).toList = render v := String.toList_ofList
  simp only [read?, hlist, hread, Option.bind_eq_bind, Option.bind_some]
  rfl

theorem text_injective {v w : Json} (h : text v = text w) : v = w := by
  have hread := read?_text v
  rw [h, read?_text w] at hread
  exact (Option.some.inj hread).symm

end ReadPlan.Json
