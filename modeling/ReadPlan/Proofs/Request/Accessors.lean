import ReadPlan.Proofs.Request.History
import ReadPlan.Proofs.Text.Utf8
import ReadPlan.Request.Query

/-!
# ReadPlan.Proofs.Request.Accessors — what is read from reserved attributes

Four questions are answered from attributes with reserved names (`Accessor`). Each looks up its own
name alone (`Accessor.read`): where the attribute is absent the answer is a default, and where it is
there, the answer is what the value stands for, or the value is rejected
(`Accessor.decode_eq_ok_iff`).
-/

namespace ReadPlan

/-- A question that is answered from a reserved attribute. -/
inductive Accessor where
  | raw
  | metrics
  | isolation
  | operationId
deriving DecidableEq, Repr

namespace Accessor

/-- The reserved name. -/
def name : Accessor → String
  | raw => Attributes.rawName
  | metrics => Attributes.metricsName
  | isolation => Attributes.isolationName
  | operationId => Attributes.idName

/-- The answer where the attribute is absent. -/
def default : Accessor → Answer
  | raw | metrics => .truth false
  | isolation => .isolation .readCommitted
  | operationId => .text? none

/-- The value stands for the answer: a flag is a single byte and false only if the byte is zero, an
isolation level is the single byte of the level, and an id is what it is written as. -/
inductive Decodes : Accessor → Bytes → Answer → Prop where
  | raw (b : UInt8) : Decodes raw [b] (.truth (b ≠ 0))
  | metrics (b : UInt8) : Decodes metrics [b] (.truth (b ≠ 0))
  | isolation (level : Isolation) : Decodes isolation [level.code] (.isolation level)
  | operationId (id : String) : Decodes operationId (Utf8.encode id) (.text? (some id))

/-- What is made of a value. -/
def decode : Accessor → Bytes → Except Failure Answer
  | raw, value | metrics, value => Answer.truth <$> decodeFlag value
  | isolation, value => Answer.isolation <$> Isolation.decode value
  | operationId, value =>
    match Utf8.decode value with
    | .ok id => .ok (.text? (some id))
    | .error fault => .error (.malformedText fault)

/-- The answer, given the value of the attribute if there is one. -/
def read (accessor : Accessor) : Option Bytes → Except Failure Answer
  | none => .ok accessor.default
  | some value => accessor.decode value

/-- No two accessors share a name. -/
theorem name_injective : Function.Injective name := by
  intro first second h
  cases first <;> cases second <;> first
    | rfl
    | exact absurd h (by decide)

variable {accessor : Accessor} {value : Bytes} {answer : Answer}

/-! ## Values -/

theorem decodeFlag_eq_ok_iff {flag : Bool} :
    decodeFlag value = .ok flag ↔ ∃ b : UInt8, value = [b] ∧ flag = decide (b ≠ 0) := by
  match value with
  | [b] => simp [decodeFlag, eq_comm]
  | [] | _ :: _ :: _ => simp [decodeFlag]

theorem isolation_decode_eq_ok_iff {level : Isolation} :
    Isolation.decode value = .ok level ↔ value = [level.code] := by
  match value with
  | [code] =>
    constructor
    · intro h
      rw [Isolation.decode] at h
      cases hcode : Isolation.ofCode? code with
      | none =>
        rw [hcode] at h
        cases h
      | some found =>
        rw [hcode] at h
        cases h
        rw [Isolation.code_of_ofCode? hcode]
    · intro h
      rw [Isolation.decode, List.head_eq_of_cons_eq h, Isolation.ofCode?_code]
  | [] | _ :: _ :: _ => simp [Isolation.decode]

/-- A mapped result is a value just if the result is one that is mapped to it. -/
theorem map_eq_ok_iff {α : Type} {f : α → Answer} {result : Except Failure α} :
    f <$> result = .ok answer ↔ ∃ a, result = .ok a ∧ f a = answer := by
  cases result with
  | ok a => simp
  | error failure => simp

/-- What is made of a value is what it stands for; any other value is rejected. -/
theorem decode_eq_ok_iff : accessor.decode value = .ok answer ↔ accessor.Decodes value answer := by
  cases accessor with
  | raw | metrics =>
    rw [decode, map_eq_ok_iff]
    constructor
    · rintro ⟨flag, hflag, rfl⟩
      rcases decodeFlag_eq_ok_iff.1 hflag with ⟨b, rfl, rfl⟩
      constructor
    · rintro ⟨b⟩
      exact ⟨_, rfl, rfl⟩
  | isolation =>
    rw [decode, map_eq_ok_iff]
    constructor
    · rintro ⟨level, hlevel, rfl⟩
      rw [isolation_decode_eq_ok_iff.1 hlevel]
      exact .isolation level
    · intro h
      cases h with
      | isolation level => exact ⟨level, isolation_decode_eq_ok_iff.2 rfl, rfl⟩
  | operationId =>
    constructor
    · intro h
      rw [decode] at h
      cases hdecode : Utf8.decode value with
      | error fault =>
        rw [hdecode] at h
        cases h
      | ok id =>
        rw [hdecode] at h
        cases h
        rw [← Utf8.decode_eq_ok_iff.1 hdecode]
        exact .operationId id
    · rintro ⟨id⟩
      rw [decode, Utf8.decode_eq_ok_iff.2 rfl]

/-! ## Questions -/

/-- A flag is read alike under every name. -/
theorem flag_eq_read (attributes : Attributes) (name : String) :
    Answer.truth <$> attributes.flag name = Accessor.raw.read (attributes.get? name) := by
  unfold Attributes.flag
  cases attributes.get? name <;> rfl

theorem isolation_eq_read (attributes : Attributes) :
    Answer.isolation <$> attributes.isolation =
      Accessor.isolation.read (attributes.get? Attributes.isolationName) := by
  unfold Attributes.isolation
  cases attributes.get? Attributes.isolationName <;> rfl

theorem operationId_eq_read (attributes : Attributes) :
    Answer.text? <$> attributes.operationId =
      Accessor.operationId.read (attributes.get? Attributes.idName) := by
  unfold Attributes.operationId
  cases attributes.get? Attributes.idName with
  | none => rfl
  | some value =>
    rw [read, decode]
    dsimp only
    cases Utf8.decode value <;> rfl

end Accessor

end ReadPlan
