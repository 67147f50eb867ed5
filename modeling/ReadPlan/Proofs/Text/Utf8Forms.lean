import Mathlib.Order.Monotone.Basic
import ReadPlan.Proofs.Text.Utf8

/-!
# ReadPlan.Proofs.Text.Utf8Forms — which byte strings are UTF-8

One to four bytes can be laid out for a code, and several layouts may stand for the same code
(`Utf8.Form`). UTF-8 takes the shortest of them, and none for a surrogate or for what lies above the
last code point (`Utf8.Encodes`); a byte string is UTF-8 if it is made of such pieces
(`Utf8.Spells`). None of this mentions the reader, its first bytes or the ranges of the bytes due.
That these leave just the right sequences is proved (`Utf8.encodes_iff_sequence`), and so a byte
string is UTF-8 just if some text is written as it (`Utf8.isUtf8_iff`).
-/

namespace ReadPlan.Utf8

/-! ## Layouts -/

/-- The byte goes on with a code: its leading bits are `10`. -/
def Continues (b : UInt8) : Prop :=
  b.toNat / 64 = 0b10

/-- The bytes are laid out for the code. The leading bits of the first byte tell how many bytes there
are, and the bits that are left, taken together, are the code. -/
inductive Form : Bytes → Nat → Prop where
  | one {a : UInt8} (ha : a.toNat / 128 = 0b0) : Form [a] (a.toNat % 128)
  | two {a b : UInt8} (ha : a.toNat / 32 = 0b110) (hb : Continues b) :
    Form [a, b] (a.toNat % 32 * 64 + b.toNat % 64)
  | three {a b c : UInt8} (ha : a.toNat / 16 = 0b1110) (hb : Continues b) (hc : Continues c) :
    Form [a, b, c] ((a.toNat % 16 * 64 + b.toNat % 64) * 64 + c.toNat % 64)
  | four {a b c d : UInt8} (ha : a.toNat / 8 = 0b11110) (hb : Continues b) (hc : Continues c)
    (hd : Continues d) :
    Form [a, b, c, d] (((a.toNat % 8 * 64 + b.toNat % 64) * 64 + c.toNat % 64) * 64 + d.toNat % 64)

/-- The bytes encode the code point. -/
structure Encodes (bytes : Bytes) (code : Nat) : Prop where
  form : Form bytes code
  /-- No other layout of the code is shorter. -/
  shortest : ∀ other, Form other code → bytes.length ≤ other.length
  notSurrogate : ¬ (0xd800 ≤ code ∧ code ≤ 0xdfff)
  inRange : code ≤ 0x10ffff

/-- The bytes encode the code points, one after the other. -/
inductive Spells : Bytes → List Nat → Prop where
  | nil : Spells [] []
  | append {bytes rest : Bytes} {code : Nat} {codes : List Nat} (h : Encodes bytes code)
    (hrest : Spells rest codes) : Spells (bytes ++ rest) (code :: codes)

/-- The bytes are well-formed UTF-8. -/
def IsUtf8 (bytes : Bytes) : Prop :=
  ∃ codes, Spells bytes codes

/-! ## Lengths -/

variable {bytes rest : Bytes} {b : UInt8} {code : Nat}

/-- The first code that is too great for a layout of so many bytes. -/
def capacity : Nat → Nat
  | 0 => 0
  | 1 => 0x80
  | 2 => 0x800
  | 3 => 0x10000
  | _ => 0x200000

theorem Form.length_le (h : Form bytes code) : bytes.length ≤ 4 := by
  cases h <;> simp

theorem Form.lt_capacity (h : Form bytes code) : code < capacity bytes.length := by
  cases h with
  | one ha =>
    show _ < 0x80
    omega
  | two ha hb =>
    show _ < 0x800
    omega
  | three ha hb hc =>
    show _ < 0x10000
    omega
  | four ha hb hc hd =>
    show _ < 0x200000
    omega

theorem capacity_mono : Monotone capacity := by
  refine monotone_nat_of_le_succ ?_
  intro length
  match length with
  | 0 | 1 | 2 | 3 => decide
  | _ + 4 => exact Nat.le_refl _

theorem exists_byte {n : Nat} (h : n < 256) : ∃ b : UInt8, b.toNat = n :=
  ⟨UInt8.ofNat n, UInt8.toNat_ofNat_of_lt' h⟩

/-- A byte can go on with any bits. -/
theorem exists_continuing (n : Nat) : ∃ b, Continues b ∧ b.toNat % 64 = n % 64 := by
  rcases exists_byte (n := 128 + n % 64) (by omega) with ⟨b, hb⟩
  refine ⟨b, ?_, by omega⟩
  unfold Continues
  omega

/-- Any code that is not too great can be laid out in so many bytes. -/
theorem exists_form {length : Nat} (hpos : 0 < length) (hle : length ≤ 4)
    (hcode : code < capacity length) : ∃ bytes, Form bytes code ∧ bytes.length = length := by
  rcases exists_continuing code with ⟨last, hlast, hlastBits⟩
  rcases exists_continuing (code / 64) with ⟨third, hthird, hthirdBits⟩
  rcases exists_continuing (code / 4096) with ⟨second, hsecond, hsecondBits⟩
  match length, hpos, hle with
  | 1, _, _ =>
    have hcode : code < 0x80 := hcode
    rcases exists_byte (n := code) (by omega) with ⟨a, ha⟩
    have hbits : code = a.toNat % 128 := by omega
    refine ⟨[a], ?_, rfl⟩
    rw [hbits]
    exact .one (by omega)
  | 2, _, _ =>
    have hcode : code < 0x800 := hcode
    rcases exists_byte (n := 192 + code / 64) (by omega) with ⟨a, ha⟩
    have hbits : code = a.toNat % 32 * 64 + last.toNat % 64 := by omega
    refine ⟨[a, last], ?_, rfl⟩
    rw [hbits]
    exact .two (by omega) hlast
  | 3, _, _ =>
    have hcode : code < 0x10000 := hcode
    rcases exists_byte (n := 224 + code / 4096) (by omega) with ⟨a, ha⟩
    have hbits : code = (a.toNat % 16 * 64 + third.toNat % 64) * 64 + last.toNat % 64 := by omega
    refine ⟨[a, third, last], ?_, rfl⟩
    rw [hbits]
    exact .three (by omega) hthird hlast
  | 4, _, _ =>
    have hcode : code < 0x200000 := hcode
    rcases exists_byte (n := 240 + code / 262144) (by omega) with ⟨a, ha⟩
    have hbits : code = ((a.toNat % 8 * 64 + second.toNat % 64) * 64 + third.toNat % 64) * 64 +
        last.toNat % 64 := by omega
    refine ⟨[a, second, third, last], ?_, rfl⟩
    rw [hbits]
    exact .four (by omega) hsecond hthird hlast

/-- A layout is the shortest one if its code is too great for a byte less. -/
theorem Form.shortest_iff (h : Form bytes code) :
    (∀ other, Form other code → bytes.length ≤ other.length) ↔
      capacity (bytes.length - 1) ≤ code := by
  have hle := h.length_le
  constructor
  · intro hshortest
    by_contra hlt
    have hpos : 0 < bytes.length - 1 := by
      by_contra hzero
      rw [Nat.eq_zero_of_not_pos hzero] at hlt
      exact hlt (Nat.zero_le code)
    rcases exists_form hpos (by omega) (Nat.lt_of_not_le hlt) with ⟨other, hother, hlength⟩
    have hshort := hshortest other hother
    omega
  · intro hcode other hother
    by_contra hlt
    have hless : other.length ≤ bytes.length - 1 := by omega
    exact Nat.lt_irrefl code <|
      Nat.lt_of_lt_of_le hother.lt_capacity ((capacity_mono hless).trans hcode)

/-! ## Code points -/

/-- The bytes that the reader takes as one sequence are laid out for its code. -/
theorem Sequence.form (h : Sequence b rest code) : Form (b :: rest) code := by
  cases h with
  | one ha =>
    have hform : Form [b] (b.toNat % 128) := .one (by omega)
    rwa [Nat.mod_eq_of_lt ha] at hform
  | two ha hb =>
    rw [holds_second] at hb
    refine .two (by omega) ?_
    unfold Continues
    omega
  | three ha hb hc =>
    rw [holds_second] at hb
    rw [holds_tail] at hc
    refine .three (by omega) ?_ ?_ <;> unfold Continues <;> omega
  | four ha hb hc hd =>
    rw [holds_second] at hb
    rw [holds_tail] at hc hd
    refine .four (by omega) ?_ ?_ ?_ <;> unfold Continues <;> omega

/-- And its code is too great for a byte less. -/
theorem Sequence.capacity_le (h : Sequence b rest code) : capacity rest.length ≤ code := by
  cases h with
  | one ha => exact Nat.zero_le _
  | two ha hb =>
    show 0x80 ≤ _
    omega
  | three ha hb hc =>
    rw [holds_second] at hb
    show 0x800 ≤ _
    omega
  | four ha hb hc hd =>
    rw [holds_second] at hb
    show 0x10000 ≤ _
    omega

/-- What encodes a code point is what the first bytes and the ranges after them leave. -/
theorem encodes_iff_sequence : Encodes (b :: rest) code ↔ Sequence b rest code := by
  constructor
  · rintro ⟨hform, hshortest, hsurrogate, hrange⟩
    rw [hform.shortest_iff] at hshortest
    cases hform with
    | one ha =>
      rw [Nat.mod_eq_of_lt (by omega)]
      exact .one (by omega)
    | two ha hb =>
      have hshortest : 0x80 ≤ _ := hshortest
      unfold Continues at hb
      refine .two (by omega) (holds_second.2 ?_)
      omega
    | three ha hb hc =>
      have hshortest : 0x800 ≤ _ := hshortest
      unfold Continues at hb hc
      refine .three (by omega) (holds_second.2 ?_) (holds_tail.2 ?_) <;> omega
    | four ha hb hc hd =>
      have hshortest : 0x10000 ≤ _ := hshortest
      unfold Continues at hb hc hd
      refine .four (by omega) (holds_second.2 ?_) (holds_tail.2 ?_) (holds_tail.2 ?_) <;> omega
  · intro h
    have hvalid := h.isValidChar
    unfold Nat.isValidChar at hvalid
    exact ⟨h.form, h.form.shortest_iff.2 h.capacity_le, by omega, by omega⟩

theorem Encodes.utf8EncodeChar_eq (h : Encodes bytes code) :
    code.isValidChar ∧ String.utf8EncodeChar (Char.ofNat code) = bytes := by
  cases bytes with
  | nil => cases h.form
  | cons b rest =>
    have hsequence := encodes_iff_sequence.1 h
    exact ⟨hsequence.isValidChar, hsequence.utf8EncodeChar_eq⟩

/-- Every character is written as what encodes it. -/
theorem encodes_utf8EncodeChar (c : Char) : Encodes (String.utf8EncodeChar c) c.toNat := by
  rcases sequence_utf8EncodeChar c with ⟨b, rest, hwritten, hsequence⟩
  rw [hwritten]
  exact encodes_iff_sequence.2 hsequence

/-! ## Byte strings -/

/-- The code points of a text. -/
def codes (text : String) : List Nat :=
  text.toList.map Char.toNat

/-- What a text is written as spells its code points. -/
theorem spells_encode (text : String) : Spells (encode text) (codes text) := by
  unfold encode codes
  induction text.toList with
  | nil => exact .nil
  | cons c rest ih => exact .append (encodes_utf8EncodeChar c) ih

/-- What spells code points is what the text of their characters is written as. -/
theorem Spells.exists_text {points : List Nat} (h : Spells bytes points) :
    ∃ text, encode text = bytes ∧ codes text = points := by
  induction h with
  | nil => exact ⟨"", rfl, rfl⟩
  | @append bytes rest code points hencodes hrest ih =>
    rcases ih with ⟨text, rfl, rfl⟩
    rcases hencodes.utf8EncodeChar_eq with ⟨hvalid, hwritten⟩
    obtain ⟨c, rfl⟩ : ∃ c : Char, c.toNat = code := ⟨.ofNatAux code hvalid, rfl⟩
    rw [Char.ofNat_toNat] at hwritten
    refine ⟨String.ofList (c :: text.toList), ?_, ?_⟩
    · rw [encode, String.toList_ofList, List.flatMap_cons, hwritten, encode]
    · rw [codes, String.toList_ofList, List.map_cons, codes]

/-- A text is told by its code points. -/
theorem codes_injective : Function.Injective codes := by
  intro first second h
  have hchars : first.toList = second.toList :=
    List.map_injective_iff.2 (Function.LeftInverse.injective Char.ofNat_toNat) h
  exact String.toList_inj.1 hchars

/-- A text is written as what spells its code points, and as nothing else. -/
theorem spells_codes_iff {text : String} : Spells bytes (codes text) ↔ encode text = bytes := by
  constructor
  · intro h
    rcases h.exists_text with ⟨found, hwritten, hcodes⟩
    rw [← codes_injective hcodes]
    exact hwritten
  · rintro rfl
    exact spells_encode text

/-- Some text is written as the bytes just if they are well-formed UTF-8. -/
theorem isUtf8_iff : IsUtf8 bytes ↔ WellFormed bytes := by
  constructor
  · rintro ⟨points, h⟩
    rcases h.exists_text with ⟨text, hwritten, -⟩
    exact ⟨text, hwritten⟩
  · rintro ⟨text, rfl⟩
    exact ⟨_, spells_encode text⟩

end ReadPlan.Utf8
