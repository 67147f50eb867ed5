/-!
# ReadPlan.Json.Basic — JSON values

The values of RFC 8259. A number is a decimal, `mantissa · 10 ^ exponent`, so that integers of
any size are exact. An object keeps its members in the order of the text.
-/

namespace ReadPlan

inductive Json where
  | null
  | bool (value : Bool)
  | num (mantissa : Int) (exponent : Int)
  | str (value : String)
  | arr (items : List Json)
  | obj (members : List (String × Json))
deriving Repr

namespace Json

/-- An integer. -/
def int (n : Int) : Json :=
  .num n 0

/-- A list of texts. -/
def texts (values : List String) : Json :=
  .arr (values.map .str)

end Json

end ReadPlan
