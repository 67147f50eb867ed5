import ReadPlan.Bytes
import ReadPlan.Text.Hex

/-!
# ReadPlan.Text.Quoted — values inside messages

Error messages quote the value that was refused. The quote is the apostrophe, except around a
value that holds an apostrophe and no double quote. Inside, the backslash, tab, line feed and
carriage return are written with a backslash and a letter, an apostrophe between apostrophes with
a backslash before it, printable ASCII as it is, and every other byte as a backslash, the letter
`x` and two lower-case hexadecimal digits. A byte string has the letter `b` in front.
-/

namespace ReadPlan.Quoted

/-- The apostrophe. -/
def apostrophe : Char := '\''

/-- The quote to put around a value that holds these characters. -/
def quoteFor (value : List Char) : Char :=
  if apostrophe ∈ value ∧ '"' ∉ value then '"' else apostrophe

/-- How a byte is written between two quotes of the given kind. -/
def escape (quote : Char) (b : UInt8) : List Char :=
  let c := Char.ofUInt8 b
  if c = '\\' then ['\\', '\\']
  else if c = '\t' then ['\\', 't']
  else if c = '\n' then ['\\', 'n']
  else if c = '\r' then ['\\', 'r']
  else if c = apostrophe ∧ quote = apostrophe then ['\\', c]
  else if 0x20 ≤ b ∧ b ≤ 0x7e then [c]
  else '\\' :: 'x' :: Hex.ofByte .lower b

/-- A byte string, quoted, behind the letter `b`. -/
def bytes (value : Bytes) : List Char :=
  let quote := quoteFor (value.map Char.ofUInt8)
  'b' :: quote :: value.flatMap (escape quote) ++ [quote]

/-- A text, quoted. Characters beyond ASCII stand as they are: the texts that reach a message
are names of settings, which are ASCII. -/
def text (value : String) : List Char :=
  let quote := quoteFor value.toList
  quote :: value.toList.flatMap (fun c =>
    if c.toNat < 0x80 then escape quote (UInt8.ofNat c.toNat) else [c]) ++ [quote]

end ReadPlan.Quoted
