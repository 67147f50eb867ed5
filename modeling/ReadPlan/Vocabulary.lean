import ReadPlan.Filter
import ReadPlan.Isolation
import ReadPlan.Text.Quoted
import ReadPlan.WireVersion

/-!
# ReadPlan.Vocabulary — fixed vocabularies of settings

Three settings range over a fixed list of named values. A value from outside is looked up by
what stands for it, a number or a word.
-/

namespace ReadPlan

/-- A value as it comes from outside. -/
inductive Literal where
  | int (value : Int)
  | text (value : String)
deriving DecidableEq, Repr

/-- The value as it stands in a message. -/
def Literal.display : Literal → String
  | .int value => toString value
  | .text value => String.ofList (Quoted.text value)

inductive Vocabulary where
  | decision
  | wireVersion
  | isolation
deriving DecidableEq, Repr

namespace Vocabulary

def name : Vocabulary → String
  | decision => "FilterDecision"
  | wireVersion => "WireVersion"
  | isolation => "IsolationLevel"

/-- The members in their order, each with the value that stands for it. -/
def members : Vocabulary → List (String × Literal)
  | decision => Decision.all.map fun d => (d.name, .text d.word)
  | wireVersion => WireVersion.all.map fun v => (v.name, .int v.number)
  | isolation => Isolation.all.map fun l => (l.name, .int l.code.toNat)

/-- The name of the member that a value stands for. -/
def member? (vocabulary : Vocabulary) (value : Literal) : Option String :=
  (vocabulary.members.find? fun entry => entry.2 = value).map Prod.fst

end Vocabulary

end ReadPlan
