import ReadPlan.Bytes
import ReadPlan.Text.CodePoint
import ReadPlan.Text.Hex

/-!
# ReadPlan.Text.Utf8 — strict UTF-8

Texts are stored as UTF-8 and read back strictly: only shortest forms, no surrogate code points,
nothing above U+10FFFF, and a byte order mark is kept as a character. A refusal says where the
first undecodable part lies and why, so the reader goes one byte at a time and remembers where
the sequence under way began. The writer is strict as well: a text that holds a surrogate is
refused, with the first run of surrogates in it.

The table `lead?` is the grammar: for each first byte the value it carries and the ranges of the
bytes that have to follow. Only the second byte of a sequence is ever restricted further than
`tail`.
-/

namespace ReadPlan.Utf8

/-! ## The writer -/

/-- The bytes of a text whose code points are all Unicode scalar values, as those of a `String` are.
A text that may hold surrogates is encoded by `encodeStrict`. -/
def encode (text : String) : Bytes :=
  text.toList.flatMap String.utf8EncodeChar

/-- The first part of a text that has no encoding: the surrogates at positions `start` to `stop`,
the latter excluded, of which `first` is the first one. -/
structure Unencodable where
  start : Nat
  stop : Nat
  first : Surrogate
deriving DecidableEq, Repr

/-- Writes the code points from position `pos` on. -/
def encodeFrom : Nat → CodePoints → Except Unencodable Bytes
  | _, [] => .ok []
  | pos, .char c :: rest => (encodeFrom (pos + 1) rest).map (String.utf8EncodeChar c ++ ·)
  | pos, .surrogate s :: rest =>
    .error ⟨pos, pos + 1 + (rest.takeWhile CodePoint.isSurrogate).length, s⟩

/-- The bytes of a text; none if there is a surrogate in it. -/
def encodeStrict (text : CodePoints) : Except Unencodable Bytes :=
  encodeFrom 0 text

/-! ## What is undecodable -/

/-- Why a byte string is no text. -/
inductive Reason where
  | invalidStart
  | invalidContinuation
  | unexpectedEnd
deriving DecidableEq, Repr

def Reason.message : Reason → String
  | .invalidStart => "invalid start byte"
  | .invalidContinuation => "invalid continuation byte"
  | .unexpectedEnd => "unexpected end of data"

/-- The first undecodable part of a byte string: positions `start` to `stop`, the latter
excluded, beginning with `byte`. -/
structure Malformed where
  start : Nat
  stop : Nat
  byte : UInt8
  reason : Reason
deriving DecidableEq, Repr

/-! ## The grammar -/

/-- A closed range of bytes. -/
structure ByteRange where
  low : UInt8
  high : UInt8
deriving DecidableEq, Repr

/-- A byte within a range. -/
def ByteRange.Holds (range : ByteRange) (b : UInt8) : Prop :=
  range.low ≤ b ∧ b ≤ range.high

instance (range : ByteRange) (b : UInt8) : Decidable (range.Holds b) :=
  inferInstanceAs (Decidable (_ ∧ _))

/-- The continuation bytes. -/
def tail : ByteRange := ⟨0x80, 0xbf⟩

/-- What a first byte says: the value bits it carries and the ranges of the bytes due. -/
structure Lead where
  value : Nat
  due : List ByteRange
deriving DecidableEq, Repr

/-- The value and the bytes due after a first byte; none for a byte that begins no character. -/
def lead? (b : UInt8) : Option Lead :=
  let n := b.toNat
  if n < 0x80 then some ⟨n, []⟩
  else if n < 0xc2 then none
  else if n < 0xe0 then some ⟨n % 0x20, [tail]⟩
  else if n = 0xe0 then some ⟨0, [⟨0xa0, 0xbf⟩, tail]⟩
  else if n = 0xed then some ⟨0xd, [⟨0x80, 0x9f⟩, tail]⟩
  else if n < 0xf0 then some ⟨n % 0x10, [tail, tail]⟩
  else if n = 0xf0 then some ⟨0, [⟨0x90, 0xbf⟩, tail, tail]⟩
  else if n < 0xf4 then some ⟨n % 8, [tail, tail, tail]⟩
  else if n = 0xf4 then some ⟨4, [⟨0x80, 0x8f⟩, tail, tail]⟩
  else none

/-! ## The reader -/

/-- A sequence under way: where it began and with which byte, the value so far, the range of the
next byte and the ranges of those after it. -/
structure Pending where
  start : Nat
  byte : UInt8
  value : Nat
  next : ByteRange
  later : List ByteRange
deriving DecidableEq, Repr

/-- Reads on from position `pos`, within a sequence or between two. -/
def decodeFrom : Nat → Option Pending → Bytes → Except Malformed (List Char)
  | _, none, [] => .ok []
  | pos, none, b :: rest =>
    match lead? b with
    | none => .error ⟨pos, pos + 1, b, .invalidStart⟩
    | some ⟨value, []⟩ => (decodeFrom (pos + 1) none rest).map (Char.ofNat value :: ·)
    | some ⟨value, next :: later⟩ => decodeFrom (pos + 1) (some ⟨pos, b, value, next, later⟩) rest
  | pos, some p, [] => .error ⟨p.start, pos, p.byte, .unexpectedEnd⟩
  | pos, some p, b :: rest =>
    if p.next.Holds b then
      let value := p.value * 64 + b.toNat % 64
      match p.later with
      | [] => (decodeFrom (pos + 1) none rest).map (Char.ofNat value :: ·)
      | next :: later => decodeFrom (pos + 1) (some ⟨p.start, p.byte, value, next, later⟩) rest
    else .error ⟨p.start, pos, p.byte, .invalidContinuation⟩

/-- The text that a byte string encodes. -/
def decode (bytes : Bytes) : Except Malformed String :=
  (decodeFrom 0 none bytes).map String.ofList

/-! ## The messages of refusals -/

/-- The message names a single surrogate, or the positions of the first and the last of several. -/
def Unencodable.message (fault : Unencodable) : String :=
  let place :=
    if fault.stop = fault.start + 1 then
      s!"character '\\u{String.ofList (Hex.ofUnit .lower fault.first.code)}' in position {fault.start}"
    else
      s!"characters in position {fault.start}-{fault.stop - 1}"
  s!"'utf-8' codec can't encode {place}: surrogates not allowed"

/-- The message names a single byte, or the positions of the first and the last of several. -/
def Malformed.message (fault : Malformed) : String :=
  let place :=
    if fault.stop = fault.start + 1 then
      s!"byte 0x{String.ofList (Hex.ofByte .lower fault.byte)} in position {fault.start}"
    else
      s!"bytes in position {fault.start}-{fault.stop - 1}"
  s!"'utf-8' codec can't decode {place}: {fault.reason.message}"

end ReadPlan.Utf8
