import ReadPlan.Text.Utf8
import Mathlib.Data.List.Forall2
import Mathlib.Tactic.SplitIfs

/-!
# ReadPlan.Proofs.Text.Utf8 — reading UTF-8 undoes writing it

The reader accepts a byte string exactly if some text is written as it, and gives this text
(`Utf8.decode_eq_ok_iff`). The sequences of bytes that stand for a character are given by their
length and in numbers (`Utf8.Sequence`); the first bytes and ranges that the reader goes by derive
these, and they are what the characters are written as.
-/

namespace ReadPlan.Utf8

/-- Some text is written as the byte string. -/
def WellFormed (bytes : Bytes) : Prop :=
  ∃ text, encode text = bytes

/-! ## Sequences -/

/-- The range of the byte after a first one. It is narrower than that of later bytes after four
first bytes, which keeps out longer forms, surrogates and codes that are too great. -/
def second (first : Nat) : ByteRange :=
  if first = 0xe0 then ⟨0xa0, 0xbf⟩
  else if first = 0xed then ⟨0x80, 0x9f⟩
  else if first = 0xf0 then ⟨0x90, 0xbf⟩
  else if first = 0xf4 then ⟨0x80, 0x8f⟩
  else tail

/-- A first byte with the bytes after it, and the code that they stand for. -/
inductive Sequence : UInt8 → Bytes → Nat → Prop where
  | one {a : UInt8} (ha : a.toNat < 0x80) : Sequence a [] a.toNat
  | two {a b : UInt8} (ha : 0xc2 ≤ a.toNat ∧ a.toNat < 0xe0) (hb : (second a.toNat).Holds b) :
    Sequence a [b] (a.toNat % 0x20 * 64 + b.toNat % 64)
  | three {a b c : UInt8} (ha : 0xe0 ≤ a.toNat ∧ a.toNat < 0xf0)
    (hb : (second a.toNat).Holds b) (hc : tail.Holds c) :
    Sequence a [b, c] ((a.toNat % 0x10 * 64 + b.toNat % 64) * 64 + c.toNat % 64)
  | four {a b c d : UInt8} (ha : 0xf0 ≤ a.toNat ∧ a.toNat < 0xf5)
    (hb : (second a.toNat).Holds b) (hc : tail.Holds c) (hd : tail.Holds d) :
    Sequence a [b, c, d]
      (((a.toNat % 8 * 64 + b.toNat % 64) * 64 + c.toNat % 64) * 64 + d.toNat % 64)

theorem holds_iff {low high b : UInt8} :
    (⟨low, high⟩ : ByteRange).Holds b ↔ low.toNat ≤ b.toNat ∧ b.toNat ≤ high.toNat :=
  Iff.rfl

theorem holds_tail {b : UInt8} : tail.Holds b ↔ 0x80 ≤ b.toNat ∧ b.toNat ≤ 0xbf :=
  Iff.rfl

theorem holds_second {first : Nat} {b : UInt8} :
    (second first).Holds b ↔ 0x80 ≤ b.toNat ∧ b.toNat ≤ 0xbf ∧ (first = 0xe0 → 0xa0 ≤ b.toNat) ∧
      (first = 0xed → b.toNat ≤ 0x9f) ∧ (first = 0xf0 → 0x90 ≤ b.toNat) ∧
      (first = 0xf4 → b.toNat ≤ 0x8f) := by
  unfold second tail
  split_ifs <;> rw [holds_iff] <;> simp <;> omega

/-! ## What the reader goes by -/

/-- The value of a sequence, from the bits of its first byte and the bytes after it. -/
def assemble (value : Nat) (rest : Bytes) : Nat :=
  rest.foldl (fun value b => value * 64 + b.toNat % 64) value

/-- The first bytes by the number of bytes due after them. -/
theorem lead?_eq (b : UInt8) :
    lead? b =
      if b.toNat < 0x80 then some ⟨b.toNat, []⟩
      else if b.toNat < 0xc2 then none
      else if b.toNat < 0xe0 then some ⟨b.toNat % 0x20, [second b.toNat]⟩
      else if b.toNat < 0xf0 then some ⟨b.toNat % 0x10, [second b.toNat, tail]⟩
      else if b.toNat < 0xf5 then some ⟨b.toNat % 8, [second b.toNat, tail, tail]⟩
      else none := by
  unfold lead? second
  generalize b.toNat = n
  grind

/-- A first byte with bytes in the ranges due is a sequence. -/
theorem sequence_of_lead? {b : UInt8} {lead : Lead} {rest : Bytes} (hlead : lead? b = some lead)
    (hrest : List.Forall₂ ByteRange.Holds lead.due rest) :
    Sequence b rest (assemble lead.value rest) := by
  rw [lead?_eq] at hlead
  split_ifs at hlead with h₁ h₂ h₃ h₄ h₅
  · cases hlead
    cases hrest
    exact .one h₁
  · cases hlead
    rcases hrest with _ | ⟨hb, ⟨⟩⟩
    exact .two ⟨by omega, h₃⟩ hb
  · cases hlead
    rcases hrest with _ | ⟨hb, _ | ⟨hc, ⟨⟩⟩⟩
    exact .three ⟨by omega, h₄⟩ hb hc
  · cases hlead
    rcases hrest with _ | ⟨hb, _ | ⟨hc, _ | ⟨hd, ⟨⟩⟩⟩⟩
    exact .four ⟨by omega, h₅⟩ hb hc hd

/-- And every sequence is such. -/
theorem Sequence.exists_lead? {b : UInt8} {rest : Bytes} {code : Nat} (h : Sequence b rest code) :
    ∃ lead, lead? b = some lead ∧ List.Forall₂ ByteRange.Holds lead.due rest ∧
      assemble lead.value rest = code := by
  cases h with
  | one ha =>
    refine ⟨⟨b.toNat, []⟩, ?_, .nil, rfl⟩
    rw [lead?_eq, if_pos ha]
  | two ha hb =>
    refine ⟨⟨b.toNat % 0x20, [second b.toNat]⟩, ?_, .cons hb .nil, rfl⟩
    rw [lead?_eq, if_neg (by omega), if_neg (by omega), if_pos ha.2]
  | three ha hb hc =>
    refine ⟨⟨b.toNat % 0x10, [second b.toNat, tail]⟩, ?_, .cons hb (.cons hc .nil), rfl⟩
    rw [lead?_eq, if_neg (by omega), if_neg (by omega), if_neg (by omega), if_pos ha.2]
  | four ha hb hc hd =>
    refine ⟨⟨b.toNat % 8, [second b.toNat, tail, tail]⟩, ?_, .cons hb (.cons hc (.cons hd .nil)),
      rfl⟩
    rw [lead?_eq, if_neg (by omega), if_neg (by omega), if_neg (by omega), if_neg (by omega),
      if_pos ha.2]

/-! ## What characters are written as -/

/-- A sequence stands for a character. -/
theorem Sequence.isValidChar {b : UInt8} {rest : Bytes} {code : Nat} (h : Sequence b rest code) :
    code.isValidChar := by
  unfold Nat.isValidChar
  cases h with
  | one ha => omega
  | two ha hb => omega
  | three ha hb hc =>
    rw [holds_second] at hb
    omega
  | four ha hb hc hd =>
    rw [holds_second] at hb
    omega

/-- The character is written as the sequence that stands for it. -/
theorem Sequence.utf8EncodeChar_eq {b : UInt8} {rest : Bytes} {code : Nat}
    (h : Sequence b rest code) : String.utf8EncodeChar (Char.ofNat code) = b :: rest := by
  obtain ⟨c, hcode⟩ : ∃ c : Char, c.val.toNat = code := ⟨.ofNatAux code h.isValidChar, rfl⟩
  have hchar : Char.ofNat code = c := hcode ▸ Char.ofNat_toNat c
  rw [hchar, String.utf8EncodeChar, hcode]
  cases h with
  | one ha =>
    rw [if_pos (by omega), UInt8.ofNat_toNat]
  | two ha hc =>
    rw [holds_second] at hc
    rw [if_neg (by omega), if_pos (by omega)]
    simp only [List.cons.injEq, and_true, ← UInt8.toNat_inj, UInt8.toNat_ofNat']
    omega
  | three ha hc hd =>
    rw [holds_second] at hc
    rw [holds_tail] at hd
    rw [if_neg (by omega), if_neg (by omega), if_pos (by omega)]
    simp only [List.cons.injEq, and_true, ← UInt8.toNat_inj, UInt8.toNat_ofNat']
    omega
  | four ha hc hd he =>
    rw [holds_second] at hc
    rw [holds_tail] at hd he
    rw [if_neg (by omega), if_neg (by omega), if_neg (by omega)]
    simp only [List.cons.injEq, and_true, ← UInt8.toNat_inj, UInt8.toNat_ofNat']
    omega

/-- Every character is written as a sequence that stands for it. -/
theorem sequence_utf8EncodeChar (c : Char) :
    ∃ b rest, String.utf8EncodeChar c = b :: rest ∧ Sequence b rest c.toNat := by
  have hvalid : c.toNat < 0xd800 ∨ 0xdfff < c.toNat ∧ c.toNat < 0x110000 := c.valid
  have hval : c.val.toNat = c.toNat := rfl
  rw [String.utf8EncodeChar, hval]
  generalize c.toNat = n at *
  -- the value of the last byte, of those between, and of the first one
  have hlast : (UInt8.ofNat (n % 64 + 128)).toNat = n % 64 + 128 :=
    UInt8.toNat_ofNat_of_lt' (by rw [UInt8.size]; omega)
  have hthird : (UInt8.ofNat (n / 64 % 64 + 128)).toNat = n / 64 % 64 + 128 :=
    UInt8.toNat_ofNat_of_lt' (by rw [UInt8.size]; omega)
  have hsecond : (UInt8.ofNat (n / 4096 % 64 + 128)).toNat = n / 4096 % 64 + 128 :=
    UInt8.toNat_ofNat_of_lt' (by rw [UInt8.size]; omega)
  split_ifs with h₁ h₂ h₃
  · have hfirst : (UInt8.ofNat n).toNat = n := UInt8.toNat_ofNat_of_lt' (by rw [UInt8.size]; omega)
    have hone : Sequence (UInt8.ofNat n) [] (UInt8.ofNat n).toNat := .one (by omega)
    rw [hfirst] at hone
    exact ⟨_, _, rfl, hone⟩
  · have hfirst : (UInt8.ofNat (n / 64 % 32 + 192)).toNat = n / 64 % 32 + 192 :=
      UInt8.toNat_ofNat_of_lt' (by rw [UInt8.size]; omega)
    refine ⟨_, _, rfl, ?_⟩
    convert Sequence.two (a := UInt8.ofNat (n / 64 % 32 + 192))
      (b := UInt8.ofNat (n % 64 + 128)) ?_ ?_ using 1
    · rw [hfirst, hlast]
      omega
    · omega
    · rw [holds_second]
      omega
  · have hfirst : (UInt8.ofNat (n / 4096 % 16 + 224)).toNat = n / 4096 % 16 + 224 :=
      UInt8.toNat_ofNat_of_lt' (by rw [UInt8.size]; omega)
    refine ⟨_, _, rfl, ?_⟩
    convert Sequence.three (a := UInt8.ofNat (n / 4096 % 16 + 224))
      (b := UInt8.ofNat (n / 64 % 64 + 128)) (c := UInt8.ofNat (n % 64 + 128)) ?_ ?_ ?_ using 1
    · rw [hfirst, hthird, hlast]
      omega
    · omega
    · rw [holds_second]
      omega
    · rw [holds_tail]
      omega
  · have hfirst : (UInt8.ofNat (n / 262144 % 8 + 240)).toNat = n / 262144 % 8 + 240 :=
      UInt8.toNat_ofNat_of_lt' (by rw [UInt8.size]; omega)
    refine ⟨_, _, rfl, ?_⟩
    convert Sequence.four (a := UInt8.ofNat (n / 262144 % 8 + 240))
      (b := UInt8.ofNat (n / 4096 % 64 + 128)) (c := UInt8.ofNat (n / 64 % 64 + 128))
      (d := UInt8.ofNat (n % 64 + 128)) ?_ ?_ ?_ ?_ using 1
    · rw [hfirst, hsecond, hthird, hlast]
      omega
    · omega
    · rw [holds_second]
      omega
    · rw [holds_tail]
      omega
    · rw [holds_tail]
      omega

/-! ## The reader -/

/-- A sequence under way is read to its end if the bytes due follow. -/
theorem decodeFrom_pending (pos : Nat) (p : Pending) {bytes : Bytes}
    (hbytes : List.Forall₂ ByteRange.Holds (p.next :: p.later) bytes) (rest : Bytes) :
    decodeFrom pos (some p) (bytes ++ rest) =
      (decodeFrom (pos + bytes.length) none rest).map
        (Char.ofNat (assemble p.value bytes) :: ·) := by
  obtain ⟨start, byte, value, next, later⟩ := p
  induction later generalizing pos value next bytes with
  | nil =>
    rcases hbytes with _ | ⟨hb, ⟨⟩⟩
    rw [List.singleton_append, decodeFrom, if_pos hb]
    rfl
  | cons following later ih =>
    rcases hbytes with _ | ⟨hb, hlater⟩
    rename_i b bytes
    rw [List.cons_append, decodeFrom, if_pos hb]
    dsimp only
    rw [ih (pos + 1) (value * 64 + b.toNat % 64) following hlater, List.length_cons,
      Nat.add_right_comm, Nat.add_assoc]
    rfl

/-- A sequence is read as its character. -/
theorem decodeFrom_sequence {b : UInt8} {seq : Bytes} {code : Nat} (h : Sequence b seq code)
    (pos : Nat) (rest : Bytes) :
    decodeFrom pos none (b :: (seq ++ rest)) =
      (decodeFrom (pos + 1 + seq.length) none rest).map (Char.ofNat code :: ·) := by
  rcases h.exists_lead? with ⟨⟨value, due⟩, hlead, hdue, rfl⟩
  rw [decodeFrom, hlead]
  cases due with
  | nil =>
    cases hdue
    rfl
  | cons next later => exact decodeFrom_pending (pos + 1) ⟨pos, b, value, next, later⟩ hdue rest

/-- What is written is read back, character by character, and then what follows. -/
theorem decodeFrom_append (pos : Nat) (chars : List Char) (rest : Bytes) :
    decodeFrom pos none (chars.flatMap String.utf8EncodeChar ++ rest) =
      (decodeFrom (pos + (chars.flatMap String.utf8EncodeChar).length) none rest).map
        (chars ++ ·) := by
  induction chars generalizing pos with
  | nil => exact (congrFun Except.map_id _).symm
  | cons c later ih =>
    rcases sequence_utf8EncodeChar c with ⟨b, seq, hwritten, hseq⟩
    have hpos : pos + (b :: seq ++ later.flatMap String.utf8EncodeChar).length =
        pos + 1 + seq.length + (later.flatMap String.utf8EncodeChar).length := by
      rw [List.length_append, List.length_cons]
      omega
    rw [List.flatMap_cons, hwritten, hpos, List.append_assoc, List.cons_append,
      decodeFrom_sequence hseq, ih, Char.ofNat_toNat]
    cases decodeFrom _ none rest <;> rfl

theorem decodeFrom_flatMap (pos : Nat) (chars : List Char) :
    decodeFrom pos none (chars.flatMap String.utf8EncodeChar) = .ok chars := by
  have hread := decodeFrom_append pos chars []
  rw [List.append_nil] at hread
  rw [hread, decodeFrom, Except.map, List.append_nil]

/-- What a text was read from, from between two sequences or from within one. -/
def Written (chars : List Char) (bytes : Bytes) : Option Pending → Prop
  | none => chars.flatMap String.utf8EncodeChar = bytes
  | some p => ∃ seq rest later, bytes = seq ++ rest ∧
      List.Forall₂ ByteRange.Holds (p.next :: p.later) seq ∧
      chars = Char.ofNat (assemble p.value seq) :: later ∧
      later.flatMap String.utf8EncodeChar = rest

theorem written_sequence {b : UInt8} {seq rest : Bytes} {code : Nat} (h : Sequence b seq code)
    {later : List Char} (hlater : later.flatMap String.utf8EncodeChar = rest) :
    Written (Char.ofNat code :: later) (b :: (seq ++ rest)) none := by
  show (Char.ofNat code :: later).flatMap String.utf8EncodeChar = b :: (seq ++ rest)
  rw [List.flatMap_cons, h.utf8EncodeChar_eq, hlater, List.cons_append]

theorem map_eq_ok {ε α β : Type} {f : α → β} {result : Except ε α} {value : β}
    (h : result.map f = .ok value) : ∃ a, result = .ok a ∧ f a = value := by
  cases result with
  | error failure => cases h
  | ok a => exact ⟨a, rfl, Except.ok.inj h⟩

theorem map_eq_error {ε α β : Type} {f : α → β} {result : Except ε α} {failure : ε}
    (h : result.map f = .error failure) : result = .error failure := by
  cases result with
  | error found =>
    cases h
    rfl
  | ok a => cases h

/-- What is read was written so. -/
theorem written_of_decodeFrom {pos : Nat} {pending? : Option Pending} {bytes : Bytes}
    {chars : List Char} (h : decodeFrom pos pending? bytes = .ok chars) :
    Written chars bytes pending? := by
  fun_induction decodeFrom pos pending? bytes generalizing chars with
  | case1 =>
    cases h
    rfl
  | case3 pos b rest value hlead ih =>
    -- a byte that is a sequence by itself
    rcases map_eq_ok h with ⟨later, hlater, rfl⟩
    exact written_sequence (sequence_of_lead? hlead .nil) (ih hlater)
  | case4 pos b rest value next due hlead ih =>
    -- a first byte: the sequence goes on with the bytes due
    rcases ih h with ⟨seq, rest, later, rfl, hseq, rfl, hlater⟩
    exact written_sequence (sequence_of_lead? hlead hseq) hlater
  | case6 =>
    -- the last byte of a sequence
    rename_i pos p b rest hb value hdue ih
    rcases map_eq_ok h with ⟨later, hlater, rfl⟩
    refine ⟨[b], rest, later, rfl, ?_, rfl, ih hlater⟩
    rw [hdue]
    exact .cons hb .nil
  | case7 =>
    rename_i pos p b rest hb value next due hdue ih
    rcases ih h with ⟨seq, rest, later, rfl, hseq, rfl, hlater⟩
    refine ⟨b :: seq, rest, later, rfl, ?_, rfl, hlater⟩
    rw [hdue]
    exact .cons hb hseq
  | case2 | case5 | case8 => cases h

/-- Reading accepts just what some text is written as, and gives this text. -/
theorem decode_eq_ok_iff {bytes : Bytes} {text : String} :
    decode bytes = .ok text ↔ encode text = bytes := by
  constructor
  · intro h
    rcases map_eq_ok h with ⟨chars, hchars, rfl⟩
    rw [encode, String.toList_ofList]
    exact written_of_decodeFrom hchars
  · rintro rfl
    rw [decode, encode, decodeFrom_flatMap]
    exact congrArg Except.ok String.ofList_toList

/-- Reading fails just on what no text is written as. -/
theorem exists_decode_eq_error_iff {bytes : Bytes} :
    (∃ fault, decode bytes = .error fault) ↔ ¬ WellFormed bytes := by
  constructor
  · rintro ⟨fault, hfault⟩ ⟨text, htext⟩
    rw [decode_eq_ok_iff.2 htext] at hfault
    cases hfault
  · intro h
    cases hdecode : decode bytes with
    | error fault => exact ⟨fault, rfl⟩
    | ok text => exact absurd ⟨text, decode_eq_ok_iff.1 hdecode⟩ h

end ReadPlan.Utf8
