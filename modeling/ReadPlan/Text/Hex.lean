/-!
# ReadPlan.Text.Hex — hexadecimal digits

A byte is written as two digits, high half first, and a code unit as four. The letters come in
either case, which is the caller's choice: rows and columns are displayed with upper-case digits,
quoted literals and JSON escapes use lower-case ones.
-/

namespace ReadPlan.Hex

/-- The case of the digits above nine. -/
inductive Letters where
  | lower
  | upper
deriving DecidableEq, Repr

/-- The digit for a number below sixteen. -/
def digit : Letters → Nat → Char
  | .lower, n => Nat.digitChar n
  | .upper, n => (Nat.digitChar n).toUpper

/-- The number below sixteen that a digit stands for. -/
def value? (letters : Letters) (c : Char) : Option Nat :=
  (List.range 16).find? fun n => digit letters n == c

/-- The two digits of a byte. -/
def ofByte (letters : Letters) (b : UInt8) : List Char :=
  [digit letters (b.toNat / 16), digit letters (b.toNat % 16)]

/-- The byte that two digits stand for. -/
def byte? (letters : Letters) (high low : Char) : Option UInt8 :=
  match value? letters high, value? letters low with
  | some h, some l => some (UInt8.ofNat (16 * h + l))
  | _, _ => none

/-- The four digits of a number below `2 ^ 16`. -/
def ofUnit (letters : Letters) (n : Nat) : List Char :=
  [digit letters (n / 4096 % 16), digit letters (n / 256 % 16),
    digit letters (n / 16 % 16), digit letters (n % 16)]

theorem value?_digit (letters : Letters) : ∀ n : Nat, n < 16 →
    value? letters (digit letters n) = some n := by
  cases letters <;> decide

theorem byte?_ofByte (letters : Letters) (b : UInt8) :
    byte? letters (digit letters (b.toNat / 16)) (digit letters (b.toNat % 16)) = some b := by
  have hb : b.toNat < 256 := b.toNat_lt
  rw [byte?, value?_digit letters _ (by omega), value?_digit letters _ (by omega)]
  have : 16 * (b.toNat / 16) + b.toNat % 16 = b.toNat := by omega
  simp [this]

end ReadPlan.Hex
