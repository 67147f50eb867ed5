import ReadPlan.Bytes.Escaped

/-!
# ReadPlan.Proofs.Text.Displays — what can be read off the display of a byte string

A display is read without a word about how it was made (`Escaped.read`): a backslash, the letter `x`
and two upper-case digits are one byte, and any other character is itself. This recovers every byte
string (`Escaped.read_encode`), since a backslash stands in a display only where the escape of a byte
begins (`Escaped.exists_split_of_backslash`).
-/

namespace ReadPlan.Escaped

/-- The digits of an escape, in their order. -/
def digits : List Char :=
  ['0', '1', '2', '3', '4', '5', '6', '7', '8', '9', 'A', 'B', 'C', 'D', 'E', 'F']

/-- Reads any text as the codes of its characters, but for escapes: each of these is one byte. -/
def read : List Char → List Nat
  | [] => []
  | '\\' :: 'x' :: high :: low :: rest =>
    match digits.idxOf? high, digits.idxOf? low with
    | some h, some l => (16 * h + l) :: read rest
    | _, _ => '\\'.toNat :: read ('x' :: high :: low :: rest)
  | c :: rest => c.toNat :: read rest

variable {b : UInt8} {before after rest : List Char}

/-! ## One byte -/

theorem encodeByte_of_plain (h : IsPlain b) : encodeByte b = [Char.ofUInt8 b] :=
  if_pos h

theorem encodeByte_of_not_plain (h : ¬ IsPlain b) :
    encodeByte b = '\\' :: 'x' :: Hex.ofByte .upper b :=
  if_neg h

/-- The digits of a byte, and what they stand for. -/
theorem exists_digits (b : UInt8) :
    ∃ high low, Hex.ofByte .upper b = [high, low] ∧ high ∈ digits ∧ low ∈ digits ∧
      digits.idxOf? high = some (b.toNat / 16) ∧ digits.idxOf? low = some (b.toNat % 16) := by
  have hall : ∀ n < 16, Hex.digit .upper n ∈ digits ∧
      digits.idxOf? (Hex.digit .upper n) = some n := by decide
  have hb : b.toNat < 256 := b.toNat_lt
  have hhigh := hall (b.toNat / 16) (by omega)
  have hlow := hall (b.toNat % 16) (by omega)
  exact ⟨_, _, rfl, hhigh.1, hlow.1, hhigh.2, hlow.2⟩

/-- A character that begins no escape is itself. -/
theorem read_cons {c : Char} (h : c ≠ '\\') (rest : List Char) :
    read (c :: rest) = c.toNat :: read rest := by
  rw [read.eq_3]
  intro high low others hc
  exact absurd hc h

theorem read_encodeByte_append (b : UInt8) (rest : List Char) :
    read (encodeByte b ++ rest) = b.toNat :: read rest := by
  by_cases hplain : IsPlain b
  · rw [encodeByte_of_plain hplain, List.singleton_append, read_cons (ofUInt8_ne_backslash hplain)]
    rfl
  · obtain ⟨high, low, hdigits, -, -, hhigh, hlow⟩ := exists_digits b
    have hvalue : 16 * (b.toNat / 16) + b.toNat % 16 = b.toNat := by omega
    rw [encodeByte_of_not_plain hplain, hdigits]
    show read ('\\' :: 'x' :: high :: low :: rest) = _
    rw [read, hhigh, hlow]
    simp only [hvalue]

theorem printable_of_mem_encodeByte {c : Char} (h : c ∈ encodeByte b) :
    0x20 ≤ c.toNat ∧ c.toNat ≤ 0x7e := by
  by_cases hplain : IsPlain b
  · rw [encodeByte_of_plain hplain, List.mem_singleton] at h
    rw [h]
    exact ⟨UInt8.le_iff_toNat_le.1 hplain.1, UInt8.le_iff_toNat_le.1 hplain.2.1⟩
  · obtain ⟨high, low, hdigits, hhigh, hlow, -, -⟩ := exists_digits b
    have hescape : (('\\' :: 'x' :: digits).all fun d => 0x20 ≤ d.toNat ∧ d.toNat ≤ 0x7e) = true := by
      decide
    rw [encodeByte_of_not_plain hplain, hdigits] at h
    have hmem : c ∈ '\\' :: 'x' :: digits := by
      simp only [List.mem_cons, List.not_mem_nil, or_false] at h ⊢
      rcases h with rfl | rfl | rfl | rfl
      · exact .inl rfl
      · exact .inr (.inl rfl)
      · exact .inr (.inr hhigh)
      · exact .inr (.inr hlow)
    exact of_decide_eq_true (List.all_eq_true.1 hescape c hmem)

/-- After its first character, what shows one byte has no backslash. -/
theorem backslash_not_mem_tail (b : UInt8) : '\\' ∉ (encodeByte b).tail := by
  by_cases hplain : IsPlain b
  · rw [encodeByte_of_plain hplain]
    exact List.not_mem_nil
  · obtain ⟨high, low, hdigits, hhigh, hlow, -, -⟩ := exists_digits b
    have hbackslash : '\\' ∉ digits := by decide
    rw [encodeByte_of_not_plain hplain, hdigits]
    intro hmem
    simp only [List.tail_cons, List.mem_cons, List.not_mem_nil, or_false] at hmem
    rcases hmem with hx | rfl | rfl
    · cases hx
    · exact hbackslash hhigh
    · exact hbackslash hlow

theorem eq_nil_of_encodeByte_eq_append (h : encodeByte b = before ++ '\\' :: after) :
    before = [] ∧ ¬ IsPlain b := by
  have hbefore : before = [] := by
    cases before with
    | nil => rfl
    | cons c others =>
      have hmem : '\\' ∈ (encodeByte b).tail := by
        rw [h]
        exact List.mem_append_right others List.mem_cons_self
      exact absurd hmem (backslash_not_mem_tail b)
  refine ⟨hbefore, ?_⟩
  intro hplain
  rw [hbefore, encodeByte_of_plain hplain] at h
  exact ofUInt8_ne_backslash hplain (List.head_eq_of_cons_eq h)

/-! ## Byte strings -/

/-- Every display is read as the bytes that it shows. -/
theorem read_encode (bytes : Bytes) : read (encode bytes) = bytes.map UInt8.toNat := by
  induction bytes with
  | nil => rfl
  | cons b rest ih => rw [encode_cons, read_encodeByte_append, ih, List.map_cons]

/-- Where a backslash stands in a display, the display of a byte that is escaped begins, and what stands
before and behind it are displays again. -/
theorem exists_split_of_backslash {bytes : Bytes} (h : encode bytes = before ++ '\\' :: after) :
    ∃ first b last, bytes = first ++ b :: last ∧ before = encode first ∧ ¬ IsPlain b ∧
      '\\' :: after = encodeByte b ++ encode last := by
  induction bytes generalizing before with
  | nil => exact absurd h.symm (List.append_ne_nil_of_right_ne_nil before (List.cons_ne_nil _ _))
  | cons b rest ih =>
    -- the backslash is in the display of the rest, unless it is in that of the first byte
    have hrest : ∀ between, before = encodeByte b ++ between →
        encode rest = between ++ '\\' :: after →
        ∃ first c last, b :: rest = first ++ c :: last ∧ before = encode first ∧ ¬ IsPlain c ∧
          '\\' :: after = encodeByte c ++ encode last := by
      intro between hbefore hbetween
      obtain ⟨first, c, last, rfl, rfl, hescaped, hafter⟩ := ih hbetween
      exact ⟨b :: first, c, last, rfl, hbefore, hescaped, hafter⟩
    rw [encode_cons] at h
    rcases List.append_eq_append_iff.1 h with ⟨between, hbefore, hbetween⟩ | ⟨shown, hshown, hafter⟩
    · exact hrest between hbefore hbetween
    · cases shown with
      | nil =>
        rw [List.append_nil] at hshown
        refine hrest [] ?_ hafter.symm
        rw [hshown, List.append_nil]
      | cons c others =>
        obtain rfl : '\\' = c := List.head_eq_of_cons_eq hafter
        obtain ⟨rfl, hescaped⟩ := eq_nil_of_encodeByte_eq_append hshown
        refine ⟨[], b, rest, rfl, rfl, hescaped, ?_⟩
        rw [hafter, hshown]
        rfl

/-- **A display loses nothing.** Read as it stands, it gives back the bytes, so displays of different
byte strings differ. Byte strings are displayed one after the other by displaying them as one. All
characters are printable ASCII. A backslash begins an escape, with two upper-case digits, and what
stands before and behind the escape are the displays of the bytes before and behind the one that is
escaped. -/
theorem text_lossless (as bs : Bytes) :
    read (text as).toList = as.map UInt8.toNat ∧
    (text as = text bs ↔ as = bs) ∧
    text (as ++ bs) = text as ++ text bs ∧
    (∀ c ∈ (text as).toList, 0x20 ≤ c.toNat ∧ c.toNat ≤ 0x7e) ∧
    ∀ before after, (text as).toList = before ++ '\\' :: after →
      ∃ first b last high low, as = first ++ b :: last ∧ before = encode first ∧
        after = 'x' :: high :: low :: encode last ∧ high ∈ digits ∧ low ∈ digits := by
  have htoList : (text as).toList = encode as := String.toList_ofList
  refine ⟨?_, ⟨text_injective, congrArg text⟩, ?_, ?_, ?_⟩
  · rw [htoList, read_encode]
  · rw [text, encode_append, String.ofList_append]
    rfl
  · intro c hmem
    rw [htoList] at hmem
    obtain ⟨b, -, hb⟩ := List.mem_flatMap.1 hmem
    exact printable_of_mem_encodeByte hb
  · intro before after hsplit
    rw [htoList] at hsplit
    obtain ⟨first, b, last, hbytes, hbefore, hescaped, hafter⟩ := exists_split_of_backslash hsplit
    obtain ⟨high, low, hdigits, hhigh, hlow, -, -⟩ := exists_digits b
    rw [encodeByte_of_not_plain hescaped, hdigits] at hafter
    exact ⟨first, b, last, high, low, hbytes, hbefore, (List.cons.inj hafter).2, hhigh, hlow⟩

/-- The four characters of an escape, and then the byte that they would be the escape of. The backslash
of the former is escaped itself; the second backslash of the display belongs to the latter. -/
theorem text_lossless_of_lookalike :
    let lookalike : Bytes := [0x5c, 0x78, 0x30, 0x30]
    let bytes := lookalike ++ [0x00]
    text bytes = "\\x5Cx00\\x00" ∧ read (text bytes).toList = [0x5c, 0x78, 0x30, 0x30, 0x00] ∧
      text lookalike ≠ text [0x00] ∧
      ('C' ∈ (text bytes).toList ∧ 0x20 ≤ 'C'.toNat ∧ 'C'.toNat ≤ 0x7e) ∧
      (text bytes).toList = "\\x5Cx00".toList ++ '\\' :: "x00".toList ∧
      ∃ first b last high low, bytes = first ++ b :: last ∧ "\\x5Cx00".toList = encode first ∧
        "x00".toList = 'x' :: high :: low :: encode last ∧ high ∈ digits ∧ low ∈ digits := by
  intro lookalike bytes
  have htext : text bytes = "\\x5Cx00\\x00" := by decide
  have hsplit : (text bytes).toList = "\\x5Cx00".toList ++ '\\' :: "x00".toList := by decide
  have hmem : 'C' ∈ (text bytes).toList := by decide
  obtain ⟨-, hinjective, -⟩ := text_lossless lookalike [0x00]
  obtain ⟨hread, -, -, hprintable, hescapes⟩ := text_lossless bytes bytes
  have hne : text lookalike ≠ text [0x00] := by
    intro heq
    have hbytes : lookalike ≠ [0x00] := by decide
    exact hbytes (hinjective.1 heq)
  exact ⟨htext, hread, hne, ⟨hmem, hprintable 'C' hmem⟩, hsplit, hescapes _ _ hsplit⟩

end ReadPlan.Escaped
