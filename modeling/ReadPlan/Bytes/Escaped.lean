import ReadPlan.Bytes
import ReadPlan.Text.Hex

/-!
# ReadPlan.Bytes.Escaped — byte strings for display

Byte strings that may hold anything are shown as printable ASCII: a printable character other
than the backslash stands for itself, every other byte is written as a backslash, the letter `x`
and two upper-case hexadecimal digits. Since the backslash is always escaped, nothing is lost:
`decode` reads every display back (`decode_encode`).
-/

namespace ReadPlan.Escaped

/-- A byte that is shown as its own character. -/
def IsPlain (b : UInt8) : Prop :=
  0x20 ≤ b ∧ b ≤ 0x7e ∧ b ≠ 0x5c

instance (b : UInt8) : Decidable (IsPlain b) :=
  inferInstanceAs (Decidable (_ ∧ _ ∧ _))

/-- The characters that show one byte. -/
def encodeByte (b : UInt8) : List Char :=
  if IsPlain b then [Char.ofUInt8 b]
  else '\\' :: 'x' :: Hex.ofByte .upper b

/-- The characters that show a byte string. -/
def encode (bytes : Bytes) : List Char :=
  bytes.flatMap encodeByte

/-- Reads a display: a backslash, an `x` and two digits are one byte, any other character of the
plain set is itself, and nothing else is accepted. -/
def decode : List Char → Option Bytes
  | [] => some []
  | '\\' :: 'x' :: high :: low :: rest => do
    let b ← Hex.byte? .upper high low
    (decode rest).map (b :: ·)
  | c :: rest =>
    if c.toNat < 0x80 ∧ IsPlain (UInt8.ofNat c.toNat) then
      (decode rest).map (UInt8.ofNat c.toNat :: ·)
    else none

/-- The display of a byte string as text. -/
def text (bytes : Bytes) : String :=
  String.ofList (encode bytes)

/-- The display of a byte string that may be missing. -/
def textOrNull : Option Bytes → String
  | none => "null"
  | some bytes => text bytes

/-! ## Lemmas -/

@[simp] theorem encode_nil : encode [] = [] :=
  rfl

@[simp] theorem encode_cons (b : UInt8) (bytes : Bytes) :
    encode (b :: bytes) = encodeByte b ++ encode bytes :=
  rfl

theorem encode_append (as bs : Bytes) : encode (as ++ bs) = encode as ++ encode bs :=
  List.flatMap_append

/-- The backslash never stands for itself. -/
theorem ofUInt8_ne_backslash {b : UInt8} (h : IsPlain b) : Char.ofUInt8 b ≠ '\\' := by
  intro heq
  have hcode : b.toNat = 0x5c := congrArg Char.toNat heq
  exact h.2.2 (UInt8.toNat_inj.1 hcode)

theorem decode_of_plain {b : UInt8} (h : IsPlain b) (rest : List Char) :
    decode (Char.ofUInt8 b :: rest) = (decode rest).map (b :: ·) := by
  have hne := ofUInt8_ne_backslash h
  have hlt : b.toNat < 0x80 := Nat.lt_of_le_of_lt (UInt8.le_iff_toNat_le.1 h.2.1) (by decide)
  have hcode : (Char.ofUInt8 b).toNat = b.toNat := rfl
  rw [decode.eq_3 _ _ (by intros; simp_all)]
  simp [hcode, h, hlt]

theorem decode_encodeByte_append (b : UInt8) (rest : List Char) :
    decode (encodeByte b ++ rest) = (decode rest).map (b :: ·) := by
  unfold encodeByte
  split
  · rename_i h
    exact decode_of_plain h rest
  · simp [Hex.ofByte, decode, Hex.byte?_ofByte]

/-- Every display is read back as the byte string it shows. -/
theorem decode_encode (bytes : Bytes) : decode (encode bytes) = some bytes := by
  induction bytes with
  | nil => rfl
  | cons b rest ih =>
    rw [encode_cons, decode_encodeByte_append, ih]
    rfl

theorem text_injective {as bs : Bytes} (h : text as = text bs) : as = bs := by
  have hencode : encode as = encode bs := String.ofList_injective h
  have hdecode := decode_encode as
  rw [hencode, decode_encode bs] at hdecode
  exact (Option.some.inj hdecode).symm

end ReadPlan.Escaped
