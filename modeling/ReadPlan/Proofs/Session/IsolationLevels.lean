import ReadPlan.Proofs.Request.Failures
import ReadPlan.Proofs.Session.AttributeRuns
import ReadPlan.Proofs.Text.Literals

/-!
# ReadPlan.Proofs.Session.IsolationLevels — what is said of bytes that are no isolation level

An isolation level is read from its encoding and from nothing else. The message for anything else
names the bytes that were read (`Isolation.Names`): a single byte by its number, and any other byte
string by a literal. No message names two byte strings (`Isolation.Names.unique`), so messages are
the same only where the bytes are (`Session.isolation_decoded`).
-/

namespace ReadPlan

/-- A number is determined by its digits. -/
theorem toString_nat_injective {n m : Nat} (h : toString n = toString m) : n = m := by
  have hdigits : Nat.toDigits 10 n = Nat.toDigits 10 m := String.ofList_injective h
  have hnumber : Nat.ofDigitChars 10 (Nat.toDigits 10 n) 0 = n := Nat.ofDigitChars_ten_toDigits
  rw [hdigits, Nat.ofDigitChars_ten_toDigits] at hnumber
  exact hnumber.symm

namespace Isolation

/-- The message names the bytes. -/
inductive Names : String → Bytes → Prop where
  | number (code : UInt8) : Names ("Unknown isolation level: " ++ toString code.toNat) [code]
  | literal {value : Bytes} {literal : List Char} (hlength : value.length ≠ 1)
    (hreads : Quoted.bytes? literal = some value) :
    Names ("Invalid isolation level encoding: " ++ String.ofList literal) value

variable {value other : Bytes} {failure : Failure}

/-- A number and a literal stand in different messages. -/
theorem unknown_ne_invalid (number literal : String) :
    "Unknown isolation level: " ++ number ≠ "Invalid isolation level encoding: " ++ literal := by
  intro heq
  have hunknown : "Unknown isolation level: ".toList.head? = some 'U' := by decide
  have hinvalid : "Invalid isolation level encoding: ".toList.head? = some 'I' := by decide
  have hfirst := congrArg (fun message : String => message.toList.head?) heq
  simp only [String.toList_append, List.head?_append, hunknown, hinvalid, Option.some_or] at hfirst
  exact absurd (Option.some.inj hfirst) (by decide)

theorem Names.unique {message : String} (h : Names message value) (h' : Names message other) :
    value = other := by
  cases h with
  | number code =>
    generalize hmessage : "Unknown isolation level: " ++ toString code.toNat = message at h'
    cases h' with
    | number otherCode =>
      have hnumber := (String.append_right_inj _).1 hmessage
      have hcode : code = otherCode := UInt8.toNat_inj.1 (toString_nat_injective hnumber)
      rw [hcode]
    | literal => exact absurd hmessage (unknown_ne_invalid _ _)
  | @literal _ literal hlength hreads =>
    generalize hmessage : "Invalid isolation level encoding: " ++ String.ofList literal = message at h'
    cases h' with
    | number => exact absurd hmessage.symm (unknown_ne_invalid _ _)
    | literal hlength' hreads' =>
      have hliteral := String.ofList_injective ((String.append_right_inj _).1 hmessage)
      rw [hliteral, hreads'] at hreads
      exact (Option.some.inj hreads).symm

/-- Bytes that cannot be read are named in the message. -/
theorem names_of_decode (h : decode value = .error failure) : Names failure.message value := by
  match value with
  | [code] =>
    rw [decode] at h
    cases hcode : ofCode? code with
    | some level =>
      rw [hcode] at h
      cases h
    | none =>
      rw [hcode] at h
      cases h
      exact .number code
  | [] =>
    cases h
    exact .literal (by decide) (Quoted.bytes?_bytes [])
  | first :: second :: rest =>
    cases h
    have hlength : (first :: second :: rest).length ≠ 1 := by simp
    exact .literal hlength (Quoted.bytes?_bytes _)

end Isolation

namespace Session

/-- **An isolation level is read from its encoding, and a failure names the bytes.** A byte string is read
as a level just if it is the encoding of this level. If it is the encoding of none, reading fails with a
bad value, and the message names the byte string. Two byte strings that cannot be read have the same
message just if they are the same. A scan whose isolation level is set to a byte string, whatever it is,
answers with what is read from it. -/
theorem isolation_decoded (value : Bytes) :
    (∀ level, Isolation.decode value = .ok level ↔ value = level.encode) ∧
    ((∀ level : Isolation, value ≠ level.encode) → ∃ failure,
      Isolation.decode value = .error failure ∧ failure.kind = .badValue ∧
        Isolation.Names failure.message value) ∧
    (∀ other failure otherFailure, Isolation.decode value = .error failure →
      Isolation.decode other = .error otherFailure →
        (failure.message = otherFailure.message ↔ value = other)) ∧
    ∀ (session : Session) name scan, session.scan? name = some scan → ∃ next,
      session.run? [.call name (.set (.attribute Attributes.isolationName (some value))),
          .call name (.askScan .isolation)] =
        some (next, [.ok .itself, .ofExcept (Answer.isolation <$> Isolation.decode value)]) := by
  refine ⟨?_, ?_, ?_, ?_⟩
  · intro level
    exact Accessor.isolation_decode_eq_ok_iff
  · intro hnone
    have hfails : FailsWith (Isolation.decode value) .badValue :=
      Attributes.isolation_decode_failsWith.2 ⟨rfl, fun level heq => hnone level heq.symm⟩
    obtain ⟨failure, hfailure, hkind⟩ := hfails
    exact ⟨failure, hfailure, hkind, Isolation.names_of_decode hfailure⟩
  · intro other failure otherFailure hfailure hother
    constructor
    · intro hmessage
      have hnames := Isolation.names_of_decode hfailure
      rw [hmessage] at hnames
      exact hnames.unique (Isolation.names_of_decode hother)
    · rintro rfl
      rw [hfailure] at hother
      rw [Except.error.inj hother]
  · intro session name scan hscan
    let stored := { scan with
      attributes := OrderedMap.put scan.attributes Attributes.isolationName value }
    let next := session.bind name (.request (.scan stored))
    have hstored : next.scan? name = some stored := scan?_bind_self _ _ _
    have hset : session.step? (.call name (.set (.attribute Attributes.isolationName (some value)))) =
        some (next, .ok .itself) := step?_set (request?_of_scan? hscan) _
    have hask := step?_accessor hstored .isolation
    have hvalue : stored.attributes.get? Attributes.isolationName = some value :=
      OrderedMap.get?_put_self _ _ _
    rw [Accessor.name, hvalue] at hask
    have hrest : next.run? [.call name (.askScan .isolation)] =
        some (next, [.ofExcept (Answer.isolation <$> Isolation.decode value)]) :=
      run?_cons_eq_some.2 ⟨_, _, _, hask, rfl, rfl⟩
    exact ⟨next, run?_cons_eq_some.2 ⟨_, _, _, hset, hrest, rfl⟩⟩

/-- An apostrophe and a backslash are quoted in double quotes, an apostrophe and a double quote in
apostrophes. A byte that stands for no level is named by its number when a scan is asked for it. -/
theorem isolation_decoded_quotes :
    let value : Bytes := [0x27, 0x5c]
    let other : Bytes := [0x27, 0x22]
    let session := after [.make "scan" .scan]
    Isolation.decode [2] = .ok .readUncommitted ∧
    (∀ level : Isolation, value ≠ level.encode) ∧
    ∃ failure otherFailure scan next, Isolation.decode value = .error failure ∧
      failure.kind = .badValue ∧ Isolation.Names failure.message value ∧
      failure.message = "Invalid isolation level encoding: b\"'\\\\\"" ∧
      Isolation.decode other = .error otherFailure ∧
      otherFailure.message = "Invalid isolation level encoding: b'\\'\"'" ∧
      failure.message ≠ otherFailure.message ∧ session.scan? "scan" = some scan ∧
      session.run? [.call "scan" (.set (.attribute Attributes.isolationName (some [7]))),
          .call "scan" (.askScan .isolation)] =
        some (next, [.ok .itself, .ofExcept (.error (.unknownIsolation 7))]) ∧
      (Failure.unknownIsolation 7).message = "Unknown isolation level: 7" := by
  intro value other session
  have hnone : ∀ level : Isolation, value ≠ level.encode := by
    intro level
    cases level <;> decide
  have hscan : session.scan? "scan" = some _ := rfl
  obtain ⟨hread, -, -, -⟩ := isolation_decoded [2]
  obtain ⟨-, hfails, hmessages, -⟩ := isolation_decoded value
  obtain ⟨-, -, -, hruns⟩ := isolation_decoded [7]
  obtain ⟨failure, hfailure, hkind, hnames⟩ := hfails hnone
  obtain ⟨next, hrun⟩ := hruns session "scan" _ hscan
  have hother : Isolation.decode other = .error (.isolationSize other) := rfl
  have hne : failure.message ≠ (Failure.isolationSize other).message := by
    intro heq
    have hbytes : value ≠ other := by decide
    exact hbytes ((hmessages other failure _ hfailure hother).1 heq)
  have hmessage : failure.message = "Invalid isolation level encoding: b\"'\\\\\"" := by
    have hvalue : Isolation.decode value = .error (.isolationSize value) := rfl
    rw [hvalue] at hfailure
    rw [← Except.error.inj hfailure]
    decide
  exact ⟨(hread .readUncommitted).2 rfl, hnone, failure, _, _, next, hfailure, hkind, hnames, hmessage,
    hother, by decide, hne, hscan, hrun, by decide⟩

end Session

end ReadPlan
