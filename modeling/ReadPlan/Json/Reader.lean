import ReadPlan.Json.Basic
import ReadPlan.Text.Hex

/-!
# ReadPlan.Json.Reader — reading JSON texts

A reader for RFC 8259: blanks between tokens, every escape, surrogate escapes joined in pairs and
refused alone, numbers with fraction and exponent. A text is read only as a whole.

A step reader takes the characters still to read and gives a value with the characters after it.
The nesting of values is bounded by the length of the text, and so is the number of elements on
one level; both bounds are hidden behind `read?`.
-/

namespace ReadPlan.Json

/-- Reads from the front of a text. -/
abbrev Step (α : Type) := List Char → Option (α × List Char)

/-- A blank between tokens. -/
def IsBlank (c : Char) : Prop :=
  c = ' ' ∨ c = '\t' ∨ c = '\n' ∨ c = '\r'

instance (c : Char) : Decidable (IsBlank c) :=
  inferInstanceAs (Decidable (_ ∨ _ ∨ _ ∨ _))

/-- The text from its first token on. -/
def skipBlanks (cs : List Char) : List Char :=
  cs.dropWhile (IsBlank ·)

/-! ## Strings -/

/-- The code that a single-letter escape stands for. -/
def escapeCode? (letter : Char) : Option Nat :=
  if letter = '"' ∨ letter = '\\' ∨ letter = '/' then some letter.toNat
  else if letter = 'b' then some 0x08
  else if letter = 'f' then some 0x0c
  else if letter = 'n' then some 0x0a
  else if letter = 'r' then some 0x0d
  else if letter = 't' then some 0x09
  else none

/-- A hexadecimal digit, its letter in either case. -/
def hexValue? (c : Char) : Option Nat :=
  (Hex.value? .lower c).or (Hex.value? .upper c)

/-- The code unit that four digits stand for. -/
def unit? (a b c d : Char) : Option Nat := do
  let a ← hexValue? a
  let b ← hexValue? b
  let c ← hexValue? c
  let d ← hexValue? d
  return a * 4096 + b * 256 + c * 16 + d

/-- The codes of a string, from behind its opening quote to behind its closing one. A character
gives its code point and an escape its code unit, so only escapes give surrogates. -/
def codes : Step (List Nat)
  | [] => none
  | head :: rest =>
    if head = '"' then some ([], rest)
    else if head = '\\' then
      match rest with
      | [] => none
      | letter :: rest =>
        if letter = 'u' then
          match rest with
          | a :: b :: c :: d :: rest => do
            let unit ← unit? a b c d
            let (more, rest) ← codes rest
            return (unit :: more, rest)
          | _ => none
        else do
          let code ← escapeCode? letter
          let (more, rest) ← codes rest
          return (code :: more, rest)
    else if head.toNat < 0x20 then none
    else do
      let (more, rest) ← codes rest
      return (head.toNat :: more, rest)

/-- The characters of a list of codes: two surrogates in the right order are one character, and
a surrogate alone is refused. -/
def join : List Nat → Option (List Char)
  | [] => some []
  | code :: rest =>
    if 0xd800 ≤ code ∧ code < 0xdc00 then
      match rest with
      | low :: rest =>
        if 0xdc00 ≤ low ∧ low < 0xe000 then
          (join rest).map (Char.ofNat (0x10000 + (code - 0xd800) * 0x400 + (low - 0xdc00)) :: ·)
        else none
      | [] => none
    else if 0xdc00 ≤ code ∧ code < 0xe000 then none
    else (join rest).map (Char.ofNat code :: ·)

/-- A string, from its opening quote on. -/
def string : Step String
  | '"' :: rest => do
    let (found, rest) ← codes rest
    let value ← join found
    return (String.ofList value, rest)
  | _ => none

/-! ## Numbers -/

/-- One digit or more, with their value and number. -/
def digits (cs : List Char) : Option (List Char × List Char) :=
  let found := cs.takeWhile Char.isDigit
  if found.isEmpty then none else some (found, cs.dropWhile Char.isDigit)

/-- The number that decimal digits stand for. -/
def decimal (found : List Char) : Nat :=
  Nat.ofDigitChars 10 found 0

/-- A minus sign in front, or none. -/
def minus : List Char → Bool × List Char
  | '-' :: rest => (true, rest)
  | cs => (false, cs)

/-- A number under a sign. -/
def signed (negative : Bool) (n : Nat) : Int :=
  if negative then -(n : Int) else n

/-- The digits after a point, or none. -/
def fraction : Step (List Char)
  | '.' :: rest => digits rest
  | cs => some ([], cs)

/-- The exponent after its letter, or zero. -/
def exponent : Step Int
  | [] => some (0, [])
  | c :: rest =>
    if c = 'e' ∨ c = 'E' then do
      let (negative, rest) :=
        match rest with
        | '+' :: rest => (false, rest)
        | rest => minus rest
      let (found, rest) ← digits rest
      return (signed negative (decimal found), rest)
    else some (0, c :: rest)

/-- A number; more digits after a leading zero are refused. -/
def numberStep : Step Json := fun cs => do
  let (negative, cs) := minus cs
  let (whole, cs) ← digits cs
  if whole.head? = some '0' ∧ whole.length ≠ 1 then none
  else
    let (part, cs) ← fraction cs
    let (power, cs) ← exponent cs
    return (.num (signed negative (decimal (whole ++ part))) (power - part.length), cs)

/-! ## Values -/

/-- Elements with commas between them, to behind the closing bracket. The bound is on their
number. -/
def separated {α : Type} (item : Step α) (close : Char) : Nat → Step (List α)
  | 0, _ => none
  | bound + 1, cs => do
    let (first, cs) ← item cs
    match skipBlanks cs with
    | c :: rest =>
      if c = close then some ([first], rest)
      else if c = ',' then do
        let (more, rest) ← separated item close bound rest
        return (first :: more, rest)
      else none
    | [] => none

/-- What stands between brackets: nothing, or elements with commas between them. -/
def bracketed {α : Type} (item : Step α) (close : Char) : Step (List α) := fun cs =>
  match skipBlanks cs with
  | c :: rest =>
    if c = close then some ([], rest) else separated item close cs.length (c :: rest)
  | [] => none

/-- A name, a colon and a value. -/
def member (value : Step Json) : Step (String × Json) := fun cs => do
  let (name, cs) ← string (skipBlanks cs)
  match skipBlanks cs with
  | ':' :: rest => do
    let (found, rest) ← value rest
    return ((name, found), rest)
  | _ => none

/-- A value with the blanks before it. The bound is on the depth of nesting. -/
def value : Nat → Step Json
  | 0, _ => none
  | depth + 1, cs =>
    match skipBlanks cs with
    | 'n' :: 'u' :: 'l' :: 'l' :: rest => some (.null, rest)
    | 't' :: 'r' :: 'u' :: 'e' :: rest => some (.bool true, rest)
    | 'f' :: 'a' :: 'l' :: 's' :: 'e' :: rest => some (.bool false, rest)
    | '"' :: rest => (string ('"' :: rest)).map fun (found, rest) => (.str found, rest)
    | '[' :: rest =>
      (bracketed (value depth) ']' rest).map fun (found, rest) => (.arr found, rest)
    | '{' :: rest =>
      (bracketed (member (value depth)) '}' rest).map fun (found, rest) => (.obj found, rest)
    | cs => numberStep cs

/-- The value of a text that holds one value and nothing else. -/
def read? (text : String) : Option Json := do
  let cs := text.toList
  let (found, rest) ← value (cs.length + 1) cs
  if (skipBlanks rest).isEmpty then some found else none

end ReadPlan.Json
