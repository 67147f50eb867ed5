import ReadPlan.Text.Quoted

/-!
# ReadPlan.Proofs.Text.Literals — reading quoted byte strings

A quoted byte string is a literal: it tells where it ends, and which bytes stand in it
(`Quoted.bytes?`). What is written is read as the bytes that were quoted (`Quoted.bytes?_bytes`),
since the quote that was chosen never stands in a literal without a backslash before it: an
apostrophe is escaped between apostrophes, and between double quotes there is no double quote.
-/

namespace ReadPlan

/-- A byte is determined by its character. -/
theorem Bytes.eq_of_ofUInt8_eq {b : UInt8} {c : Char} (h : Char.ofUInt8 b = c) :
    b = UInt8.ofNat c.toNat := by
  rw [← h]
  exact UInt8.ofNat_toNat.symm

namespace Quoted

/-! ## Literals -/

/-- The byte that a character after a backslash stands for, but for the letter `x`. -/
def escaped? : Char → Option UInt8
  | '\\' => some 0x5c
  | 't' => some 0x09
  | 'n' => some 0x0a
  | 'r' => some 0x0d
  | '\'' => some 0x27
  | _ => none

/-- Reads up to the closing quote: the bytes before it, and what comes after it. -/
def body? (quote : Char) : List Char → Option (Bytes × List Char)
  | [] => none
  | '\\' :: 'x' :: high :: low :: rest => do
    let b ← Hex.byte? .lower high low
    let (value, left) ← body? quote rest
    return (b :: value, left)
  | '\\' :: c :: rest => do
    let b ← escaped? c
    let (value, left) ← body? quote rest
    return (b :: value, left)
  | c :: rest =>
    if c = quote then some ([], rest)
    else if c.toNat < 0x80 then do
      let (value, left) ← body? quote rest
      return (UInt8.ofNat c.toNat :: value, left)
    else none

/-- Reads a literal: the letter `b`, a quote of either kind, and the bytes up to the same quote. -/
def bytes? : List Char → Option Bytes
  | 'b' :: quote :: rest =>
    if quote = apostrophe ∨ quote = '"' then
      match body? quote rest with
      | some (value, []) => some value
      | _ => none
    else none
  | _ => none

variable {quote : Char} {b : UInt8} {value : Bytes} {rest left : List Char}

/-! ## One byte -/

/-- A character that begins no escape is itself. -/
theorem body?_cons {c : Char} (h : c ≠ '\\') (hquote : c ≠ quote) (hlt : c.toNat < 0x80)
    (hrest : body? quote rest = some (value, left)) :
    body? quote (c :: rest) = some (UInt8.ofNat c.toNat :: value, left) := by
  rw [body?.eq_4]
  · rw [if_neg hquote, if_pos hlt, hrest]
    rfl
  · intro high low others hc
    exact absurd hc h
  · intro d others hc
    exact absurd hc h

theorem body?_short {c : Char} (h : escaped? c = some b)
    (hrest : body? quote rest = some (value, left)) :
    body? quote ('\\' :: c :: rest) = some (b :: value, left) := by
  rw [body?.eq_3]
  · rw [h, hrest]
    rfl
  · rintro high low others rfl
    cases h

theorem body?_hex (b : UInt8) (hrest : body? quote rest = some (value, left)) :
    body? quote ('\\' :: 'x' :: Hex.ofByte .lower b ++ rest) = some (b :: value, left) := by
  show body? quote ('\\' :: 'x' :: Hex.digit .lower (b.toNat / 16) ::
    Hex.digit .lower (b.toNat % 16) :: rest) = _
  rw [body?, Hex.byte?_ofByte, hrest]
  rfl

/-- A byte is itself, or a backslash and one character, or its digits; it is itself only if it is
neither the backslash nor the quote. -/
theorem escape_cases (hquote : Char.ofUInt8 b = quote → quote = apostrophe) :
    (escape quote b = [Char.ofUInt8 b] ∧ Char.ofUInt8 b ≠ '\\' ∧ Char.ofUInt8 b ≠ quote ∧
      b.toNat < 0x80) ∨
    (∃ c, escape quote b = ['\\', c] ∧ escaped? c = some b) ∨
    escape quote b = '\\' :: 'x' :: Hex.ofByte .lower b := by
  by_cases hbackslash : Char.ofUInt8 b = '\\'
  · obtain rfl : b = 0x5c := Bytes.eq_of_ofUInt8_eq hbackslash
    exact .inr (.inl ⟨'\\', rfl, rfl⟩)
  by_cases htab : Char.ofUInt8 b = '\t'
  · obtain rfl : b = 0x09 := Bytes.eq_of_ofUInt8_eq htab
    exact .inr (.inl ⟨'t', rfl, rfl⟩)
  by_cases hfeed : Char.ofUInt8 b = '\n'
  · obtain rfl : b = 0x0a := Bytes.eq_of_ofUInt8_eq hfeed
    exact .inr (.inl ⟨'n', rfl, rfl⟩)
  by_cases hreturn : Char.ofUInt8 b = '\r'
  · obtain rfl : b = 0x0d := Bytes.eq_of_ofUInt8_eq hreturn
    exact .inr (.inl ⟨'r', rfl, rfl⟩)
  by_cases hapostrophe : Char.ofUInt8 b = apostrophe ∧ quote = apostrophe
  · obtain ⟨hb, rfl⟩ := hapostrophe
    obtain rfl : b = 0x27 := Bytes.eq_of_ofUInt8_eq hb
    exact .inr (.inl ⟨'\'', rfl, rfl⟩)
  have hlong : escape quote b =
      if 0x20 ≤ b ∧ b ≤ 0x7e then [Char.ofUInt8 b] else '\\' :: 'x' :: Hex.ofByte .lower b := by
    simp only [escape, hbackslash, htab, hfeed, hreturn, hapostrophe, if_false]
  by_cases hplain : 0x20 ≤ b ∧ b ≤ 0x7e
  · rw [hlong, if_pos hplain]
    have hle : b.toNat ≤ 0x7e := UInt8.le_iff_toNat_le.1 hplain.2
    refine .inl ⟨rfl, hbackslash, ?_, Nat.lt_succ_of_le (Nat.le_succ_of_le hle)⟩
    intro heq
    have happly : quote = apostrophe := hquote heq
    exact hapostrophe ⟨heq.trans happly, happly⟩
  · rw [hlong, if_neg hplain]
    exact .inr (.inr rfl)

theorem body?_escape_append (hquote : Char.ofUInt8 b = quote → quote = apostrophe)
    (hrest : body? quote rest = some (value, left)) :
    body? quote (escape quote b ++ rest) = some (b :: value, left) := by
  rcases escape_cases hquote with ⟨hescape, hne, hnequote, hlt⟩ | ⟨c, hescape, hc⟩ | hescape
  · have hcode : (Char.ofUInt8 b).toNat = b.toNat := rfl
    have hbody := body?_cons hne hnequote (hcode ▸ hlt) hrest
    rw [hcode, UInt8.ofNat_toNat] at hbody
    rw [hescape]
    exact hbody
  · rw [hescape]
    exact body?_short hc hrest
  · rw [hescape]
    exact body?_hex b hrest

/-! ## Byte strings -/

/-- What is escaped is read up to the quote. -/
theorem body?_escaped (hne : quote ≠ '\\') (value : Bytes)
    (hquote : ∀ b ∈ value, Char.ofUInt8 b = quote → quote = apostrophe) (rest : List Char) :
    body? quote (value.flatMap (escape quote) ++ quote :: rest) = some (value, rest) := by
  induction value with
  | nil =>
    show body? quote (quote :: rest) = some ([], rest)
    rw [body?.eq_4, if_pos rfl]
    · intro high low others hc
      exact absurd hc hne
    · intro d others hc
      exact absurd hc hne
  | cons b value ih =>
    have hbody := ih fun other hmem => hquote other (List.mem_cons_of_mem _ hmem)
    rw [List.flatMap_cons, List.append_assoc]
    exact body?_escape_append (hquote b List.mem_cons_self) hbody

/-- The quote around a value is an apostrophe, or a double quote that the value does not hold. -/
theorem quoteFor_cases (characters : List Char) :
    quoteFor characters = apostrophe ∨ quoteFor characters = '"' ∧ '"' ∉ characters := by
  unfold quoteFor
  split
  · rename_i h
    exact .inr ⟨rfl, h.2⟩
  · exact .inl rfl

/-- A literal is read as the byte string that was quoted. -/
theorem bytes?_bytes (value : Bytes) : bytes? (bytes value) = some value := by
  have hcases := quoteFor_cases (value.map Char.ofUInt8)
  generalize hchosen : quoteFor (value.map Char.ofUInt8) = quote at hcases
  have hkind : quote = apostrophe ∨ quote = '"' := hcases.imp_right And.left
  have hne : quote ≠ '\\' := by
    rcases hkind with rfl | rfl
    · decide
    · decide
  have hquote : ∀ b ∈ value, Char.ofUInt8 b = quote → quote = apostrophe := by
    intro b hmem hb
    rcases hcases with heq | ⟨heq, habsent⟩
    · exact heq
    · have hin : '"' ∈ value.map Char.ofUInt8 := List.mem_map.2 ⟨b, hmem, hb.trans heq⟩
      exact absurd hin habsent
  have hbody := body?_escaped hne value hquote []
  have hbytes : bytes value = 'b' :: quote :: (value.flatMap (escape quote) ++ [quote]) := by
    rw [← hchosen]
    rfl
  rw [hbytes, bytes?, if_pos hkind, hbody]

end Quoted

end ReadPlan
