import ReadPlan.Json.Basic
import ReadPlan.Text.Hex

/-!
# ReadPlan.Json.Printer — the written form of a JSON value

One line of ASCII: a comma and a space between elements, a colon and a space after a name.
Inside a string the quote, the backslash and the five control characters with a letter of their
own have short escapes, the rest of printable ASCII stands for itself, and every other character
is written as its UTF-16 code units, four lower-case digits each.
-/

namespace ReadPlan.Json

/-- The UTF-16 code units of a character. -/
def units (c : Char) : List Nat :=
  let n := c.toNat
  if n < 0x10000 then [n]
  else [0xd800 + (n - 0x10000) / 0x400, 0xdc00 + (n - 0x10000) % 0x400]

/-- A code unit as an escape. -/
def escapeUnit (unit : Nat) : List Char :=
  '\\' :: 'u' :: Hex.ofUnit .lower unit

/-- The letter of a short escape. -/
def shortEscape? (c : Char) : Option Char :=
  if c = '"' then some '"'
  else if c = '\\' then some '\\'
  else if c = '\n' then some 'n'
  else if c = '\r' then some 'r'
  else if c = '\t' then some 't'
  else if c = '\x08' then some 'b'
  else if c = '\x0c' then some 'f'
  else none

/-- The written form of one character of a string. -/
def escape (c : Char) : List Char :=
  match shortEscape? c with
  | some letter => ['\\', letter]
  | none =>
    if 0x20 ≤ c.toNat ∧ c.toNat < 0x7f then [c]
    else (units c).flatMap escapeUnit

/-- A string between its quotes. -/
def quoted (value : String) : List Char :=
  '"' :: value.toList.flatMap escape ++ ['"']

/-- The decimal digits of an integer. -/
def integer (n : Int) : List Char :=
  if n < 0 then '-' :: Nat.toDigits 10 n.natAbs else Nat.toDigits 10 n.natAbs

/-- A number; the exponent is written unless it is zero. -/
def number (mantissa exponent : Int) : List Char :=
  if exponent = 0 then integer mantissa
  else integer mantissa ++ 'e' :: integer exponent

mutual

/-- The written form of a value. -/
def render : Json → List Char
  | .null => ['n', 'u', 'l', 'l']
  | .bool true => ['t', 'r', 'u', 'e']
  | .bool false => ['f', 'a', 'l', 's', 'e']
  | .num mantissa exponent => number mantissa exponent
  | .str value => quoted value
  | .arr items => '[' :: renderItems [] items ++ [']']
  | .obj members => '{' :: renderMembers [] members ++ ['}']

/-- Elements in their order, the first one behind the separator given. -/
def renderItems (separator : List Char) : List Json → List Char
  | [] => []
  | item :: rest => separator ++ render item ++ renderItems [',', ' '] rest

/-- Members in their order, the first one behind the separator given. -/
def renderMembers (separator : List Char) : List (String × Json) → List Char
  | [] => []
  | (name, value) :: rest =>
    separator ++ quoted name ++ ':' :: ' ' :: render value ++ renderMembers [',', ' '] rest

end

/-- The written form as text. -/
def text (value : Json) : String :=
  String.ofList (render value)

end ReadPlan.Json
