import Mathlib.Order.Bounds.Basic
import ReadPlan.Proofs.Text.Utf8Forms

/-!
# ReadPlan.Proofs.Text.Utf8Faults — where a byte string stops being UTF-8

Reading stops at a fault, which tells the first undecodable part of the bytes and a reason. The part
begins where the longest well-formed beginning of the bytes ends, and it goes as far as a code point
may still be under way, but over one byte at least (`Utf8.Malformed.Locates`). None of this mentions
the reader. It finds this part and this reason (`Utf8.decode_eq_error_iff`), since it stops at the
first byte that no sequence goes on with.
-/

namespace ReadPlan.Utf8

/-! ## Faults -/

/-- So many bytes are the longest beginning of the bytes that has the property. -/
def IsLongestPrefix (P : Bytes → Prop) (bytes : Bytes) (length : Nat) : Prop :=
  IsGreatest {n | n ≤ bytes.length ∧ P (bytes.take n)} length

/-- Some code point is encoded by the byte and others after it, if any. -/
def Starts (b : UInt8) : Prop :=
  ∃ rest code, Encodes (b :: rest) code

/-- The bytes are a beginning of what encodes some code point, and not the whole of it. -/
def Begins (bytes : Bytes) : Prop :=
  ∃ more code, more ≠ [] ∧ Encodes (bytes ++ more) code

/-- The fault tells the first undecodable part of the bytes, and why it is undecodable. -/
structure Malformed.Locates (fault : Malformed) (bytes : Bytes) : Prop where
  start : IsLongestPrefix IsUtf8 bytes fault.start
  stop : ∃ length, IsLongestPrefix Begins (bytes.drop fault.start) length ∧
    fault.stop = fault.start + max 1 length
  byte : bytes[fault.start]? = some fault.byte
  invalidStart : fault.reason = .invalidStart ↔ ¬ Starts fault.byte
  unexpectedEnd : fault.reason = .unexpectedEnd ↔ Begins (bytes.drop fault.start)
  invalidContinuation : fault.reason = .invalidContinuation ↔
    Starts fault.byte ∧ ¬ Begins (bytes.drop fault.start)

variable {bytes rest bad : Bytes} {b : UInt8} {fault : Malformed} {due : List ByteRange}
  {read pos : Nat} {reason : Reason}

/-- What begins a code point is shorter than the longest layout. -/
theorem Begins.length_le (h : Begins bytes) : bytes.length ≤ 3 := by
  rcases h with ⟨more, code, hmore, hencodes⟩
  have hpos : 0 < more.length := List.length_pos_iff.2 hmore
  have hle := hencodes.form.length_le
  rw [List.length_append] at hle
  omega

namespace Malformed.Locates

/-- The part is not empty, lies within the bytes and is at most three bytes long. -/
theorem bounds (h : fault.Locates bytes) :
    fault.start < fault.stop ∧ fault.stop ≤ bytes.length ∧ fault.stop - fault.start ≤ 3 := by
  rcases h.stop with ⟨length, ⟨⟨hle, hbegins⟩, -⟩, hstop⟩
  have hlt : fault.start < bytes.length := (List.getElem?_eq_some_iff.1 h.byte).1
  have hshort := hbegins.length_le
  rw [List.length_drop] at hle
  rw [List.length_take, List.length_drop] at hshort
  omega

/-- What is well-formed has no undecodable part. -/
theorem not_isUtf8 (h : fault.Locates bytes) : ¬ IsUtf8 bytes := by
  intro hgood
  have hlt : fault.start < bytes.length := (List.getElem?_eq_some_iff.1 h.byte).1
  have hle : bytes.length ≤ fault.start := by
    refine h.start.2 ⟨Nat.le_refl _, ?_⟩
    rwa [List.take_length]
  exact Nat.not_lt_of_le hle hlt

/-- The first undecodable part and the reason are determined by the bytes. -/
theorem unique {other : Malformed} (h : fault.Locates bytes) (h' : other.Locates bytes) :
    fault = other := by
  obtain ⟨start, stop, byte, reason⟩ := fault
  obtain ⟨otherStart, otherStop, otherByte, otherReason⟩ := other
  obtain rfl : start = otherStart := h.start.unique h'.start
  obtain rfl : byte = otherByte := Option.some.inj (h.byte.symm.trans h'.byte)
  obtain rfl : stop = otherStop := by
    rcases h.stop with ⟨length, hlength, hstop⟩
    rcases h'.stop with ⟨otherLength, hotherLength, hotherStop⟩
    rw [hlength.unique hotherLength] at hstop
    exact hstop.trans hotherStop.symm
  obtain rfl : reason = otherReason := by
    cases reason with
    | invalidStart => exact (h'.invalidStart.2 (h.invalidStart.1 rfl)).symm
    | invalidContinuation =>
      exact (h'.invalidContinuation.2 (h.invalidContinuation.1 rfl)).symm
    | unexpectedEnd => exact (h'.unexpectedEnd.2 (h.unexpectedEnd.1 rfl)).symm
  rfl

end Malformed.Locates

/-! ## Bytes that are due -/

/-- The bytes are in the first of the ranges due, and more bytes are due after them. -/
def Partial (due : List ByteRange) (bytes : Bytes) : Prop :=
  ∃ more, more ≠ [] ∧ List.Forall₂ ByteRange.Holds due (bytes ++ more)

theorem partial_cons_iff {range : ByteRange} :
    Partial (range :: due) (b :: rest) ↔ range.Holds b ∧ Partial due rest := by
  constructor
  · rintro ⟨more, hmore, hall⟩
    rcases List.forall₂_cons.1 hall with ⟨hb, hrest⟩
    exact ⟨hb, more, hmore, hrest⟩
  · rintro ⟨hb, more, hmore, hrest⟩
    exact ⟨more, hmore, .cons hb hrest⟩

/-- Bytes that could follow. -/
theorem exists_due (hdue : ∀ range ∈ due, ∃ b, range.Holds b) :
    ∃ seq, List.Forall₂ ByteRange.Holds due seq := by
  induction due with
  | nil => exact ⟨[], .nil⟩
  | cons range later ih =>
    rcases hdue range List.mem_cons_self with ⟨b, hb⟩
    rcases ih fun range hrange => hdue range (List.mem_cons_of_mem _ hrange) with ⟨seq, hseq⟩
    exact ⟨b :: seq, .cons hb hseq⟩

theorem partial_nil {range : ByteRange} (hdue : ∀ found ∈ range :: due, ∃ b, found.Holds b) :
    Partial (range :: due) [] := by
  rcases exists_due hdue with ⟨seq, hseq⟩
  refine ⟨seq, ?_, hseq⟩
  rintro rfl
  cases hseq

/-- There is a byte in every range due after a first byte. -/
theorem exists_holds_of_lead? {lead : Lead} (hlead : lead? b = some lead) :
    ∀ range ∈ lead.due, ∃ b, range.Holds b := by
  have htail : ∃ b, tail.Holds b := ⟨0x80, by decide⟩
  have hsecond : ∃ c, (second b.toNat).Holds c := by
    refine ⟨(second b.toNat).low, ?_⟩
    unfold second
    split_ifs <;> decide
  rw [lead?_eq] at hlead
  split_ifs at hlead <;> cases hlead <;> simp [htail, hsecond]

theorem starts_iff : Starts b ↔ ∃ lead, lead? b = some lead := by
  constructor
  · rintro ⟨rest, code, hencodes⟩
    rcases (encodes_iff_sequence.1 hencodes).exists_lead? with ⟨lead, hlead, -⟩
    exact ⟨lead, hlead⟩
  · rintro ⟨lead, hlead⟩
    rcases exists_due (exists_holds_of_lead? hlead) with ⟨seq, hseq⟩
    exact ⟨seq, _, encodes_iff_sequence.2 (sequence_of_lead? hlead hseq)⟩

theorem not_starts (hlead : lead? b = none) : ¬ Starts b := by
  rw [starts_iff, hlead]
  exact nofun

theorem begins_nil : Begins [] :=
  ⟨[0x00], _, List.cons_ne_nil _ _, encodes_iff_sequence.2 (.one (by decide))⟩

theorem Begins.starts (h : Begins (b :: rest)) : Starts b := by
  rcases h with ⟨more, code, -, hencodes⟩
  exact ⟨rest ++ more, code, hencodes⟩

/-- What begins a code point is a first byte with some of the bytes due after it. -/
theorem begins_cons_iff {lead : Lead} (hlead : lead? b = some lead) :
    Begins (b :: rest) ↔ Partial lead.due rest := by
  constructor
  · rintro ⟨more, code, hmore, hencodes⟩
    rcases (encodes_iff_sequence.1 hencodes).exists_lead? with ⟨found, hfound, hall, -⟩
    obtain rfl := Option.some.inj (hlead.symm.trans hfound)
    exact ⟨more, hmore, hall⟩
  · rintro ⟨more, hmore, hall⟩
    exact ⟨more, _, hmore, encodes_iff_sequence.2 (sequence_of_lead? hlead hall)⟩

/-! ## Sequences that are not read to their end -/

/-- So many bytes are read of those due, and then there is none, or one that is not in its range. -/
inductive Stops : List ByteRange → Bytes → Nat → Reason → Prop where
  | ended {range : ByteRange} {later : List ByteRange} :
    Stops (range :: later) [] 0 .unexpectedEnd
  | broken {range : ByteRange} {later : List ByteRange} {b : UInt8} {rest : Bytes}
    (hb : ¬ range.Holds b) : Stops (range :: later) (b :: rest) 0 .invalidContinuation
  | next {range : ByteRange} {later : List ByteRange} {b : UInt8} {rest : Bytes} {read : Nat}
    {reason : Reason} (hb : range.Holds b) (hrest : Stops later rest read reason) :
    Stops (range :: later) (b :: rest) (read + 1) reason

namespace Stops

theorem read_le (h : Stops due bytes read reason) : read ≤ bytes.length := by
  induction h with
  | ended | broken => exact Nat.zero_le _
  | next _ _ ih => exact Nat.succ_le_succ ih

/-- The bytes that are read are the longest beginning that can be gone on with. -/
theorem partial_take_iff (h : Stops due bytes read reason)
    (hdue : ∀ range ∈ due, ∃ b, range.Holds b) {n : Nat} (hn : n ≤ bytes.length) :
    Partial due (bytes.take n) ↔ n ≤ read := by
  induction h generalizing n with
  | ended =>
    obtain rfl : n = 0 := Nat.le_zero.1 hn
    exact iff_of_true (partial_nil hdue) (Nat.le_refl 0)
  | broken hb =>
    cases n with
    | zero => exact iff_of_true (partial_nil hdue) (Nat.le_refl 0)
    | succ n =>
      rw [List.take_succ_cons, partial_cons_iff]
      exact iff_of_false (fun h => hb h.1) (Nat.not_succ_le_zero n)
  | next hb hrest ih =>
    cases n with
    | zero => exact iff_of_true (partial_nil hdue) (Nat.zero_le _)
    | succ n =>
      have hlater := ih (fun range hrange => hdue range (List.mem_cons_of_mem _ hrange))
        (Nat.le_of_succ_le_succ hn)
      rw [List.take_succ_cons, partial_cons_iff, hlater, Nat.succ_le_succ_iff]
      exact and_iff_right hb

theorem reason_ne (h : Stops due bytes read reason) : reason ≠ .invalidStart := by
  induction h with
  | ended | broken => exact nofun
  | next _ _ ih => exact ih

/-- The bytes end too early if all of them are read. -/
theorem unexpectedEnd_iff (h : Stops due bytes read reason) :
    reason = .unexpectedEnd ↔ bytes.length ≤ read := by
  induction h with
  | ended => exact iff_of_true rfl (Nat.le_refl 0)
  | broken => exact iff_of_false nofun (Nat.not_succ_le_zero _)
  | next _ _ ih => rw [ih, List.length_cons, Nat.succ_le_succ_iff]

end Stops

/-- The part that the fault tells is at the front of the bytes: no sequence begins there, or one that
is not read to its end. -/
inductive Malformed.Opens : Malformed → Bytes → Prop where
  | start {pos : Nat} {b : UInt8} {rest : Bytes} (hlead : lead? b = none) :
    Opens ⟨pos, pos + 1, b, .invalidStart⟩ (b :: rest)
  | sequence {pos : Nat} {b : UInt8} {rest : Bytes} {lead : Lead} {read : Nat} {reason : Reason}
    (hlead : lead? b = some lead) (hstops : Stops lead.due rest read reason) :
    Opens ⟨pos, pos + 1 + read, b, reason⟩ (b :: rest)

namespace Malformed.Opens

theorem head? (h : fault.Opens bad) : bad.head? = some fault.byte := by
  cases h <;> rfl

theorem invalidStart_iff (h : fault.Opens bad) :
    fault.reason = .invalidStart ↔ ¬ Starts fault.byte := by
  cases h with
  | start hlead => exact iff_of_true rfl (not_starts hlead)
  | sequence hlead hstops =>
    exact iff_of_false hstops.reason_ne (not_not_intro (starts_iff.2 ⟨_, hlead⟩))

theorem unexpectedEnd_iff (h : fault.Opens bad) : fault.reason = .unexpectedEnd ↔ Begins bad := by
  cases h with
  | start hlead => exact iff_of_false nofun fun hbegins => not_starts hlead hbegins.starts
  | @sequence _ b rest lead read reason hlead hstops =>
    have hwhole := hstops.partial_take_iff (exists_holds_of_lead? hlead) (Nat.le_refl rest.length)
    rw [List.take_length] at hwhole
    rw [begins_cons_iff hlead, hwhole]
    exact hstops.unexpectedEnd_iff

theorem invalidContinuation_iff (h : fault.Opens bad) :
    fault.reason = .invalidContinuation ↔ Starts fault.byte ∧ ¬ Begins bad := by
  have hstarts : Starts fault.byte ↔ fault.reason ≠ .invalidStart := by
    rw [Ne, h.invalidStart_iff, not_not]
  rw [hstarts, ← h.unexpectedEnd_iff]
  cases fault.reason <;> simp

/-- The part goes as far as a code point is under way, but over the first byte at least. -/
theorem exists_longest (h : fault.Opens bad) :
    ∃ length, IsLongestPrefix Begins bad length ∧ fault.stop = fault.start + max 1 length := by
  cases h with
  | start hlead =>
    refine ⟨0, ⟨⟨Nat.zero_le _, begins_nil⟩, ?_⟩, rfl⟩
    rintro n ⟨-, hbegins⟩
    cases n with
    | zero => exact Nat.le_refl 0
    | succ n => exact absurd hbegins.starts (not_starts hlead)
  | @sequence pos b rest lead read reason hlead hstops =>
    have htake : ∀ n ≤ rest.length, Begins ((b :: rest).take (n + 1)) ↔ n ≤ read := by
      intro n hn
      rw [List.take_succ_cons, begins_cons_iff hlead]
      exact hstops.partial_take_iff (exists_holds_of_lead? hlead) hn
    refine ⟨read + 1, ⟨⟨Nat.succ_le_succ hstops.read_le, ?_⟩, ?_⟩, ?_⟩
    · exact (htake read hstops.read_le).2 (Nat.le_refl read)
    · rintro n ⟨hn, hbegins⟩
      cases n with
      | zero => exact Nat.zero_le _
      | succ n => exact Nat.succ_le_succ ((htake n (Nat.le_of_succ_le_succ hn)).1 hbegins)
    · show pos + 1 + read = pos + max 1 (read + 1)
      omega

end Malformed.Opens

/-! ## The reader -/

/-- The fault lies behind a well-formed part of the bytes, the first of which is at the position. -/
def FailsAt (pos : Nat) (bytes : Bytes) (fault : Malformed) : Prop :=
  ∃ good bad, bytes = good ++ bad ∧ IsUtf8 good ∧ fault.start = pos + good.length ∧
    fault.Opens bad

theorem FailsAt.sequence {seq : Bytes} {code : Nat} (h : Sequence b seq code)
    (hrest : FailsAt (pos + 1 + seq.length) rest fault) :
    FailsAt pos (b :: (seq ++ rest)) fault := by
  rcases hrest with ⟨good, bad, rfl, ⟨codes, hgood⟩, hstart, hopens⟩
  refine ⟨b :: seq ++ good, bad, ?_, ⟨_, .append (encodes_iff_sequence.2 h) hgood⟩, ?_, hopens⟩
  · rw [List.append_assoc, List.cons_append]
  · rw [hstart, List.length_append, List.length_cons]
    omega

/-- How reading ends in the fault, from between two sequences or from within one: it may be this one
that is not read to its end. -/
def Failed (pos : Nat) (bytes : Bytes) (fault : Malformed) : Option Pending → Prop
  | none => FailsAt pos bytes fault
  | some p =>
    (∃ read reason, Stops (p.next :: p.later) bytes read reason ∧
      fault = ⟨p.start, pos + read, p.byte, reason⟩) ∨
    ∃ seq rest, bytes = seq ++ rest ∧ List.Forall₂ ByteRange.Holds (p.next :: p.later) seq ∧
      FailsAt (pos + seq.length) rest fault

/-- Reading ends in a fault only where the bytes are undecodable. -/
theorem failed_of_decodeFrom {pending? : Option Pending}
    (h : decodeFrom pos pending? bytes = .error fault) : Failed pos bytes fault pending? := by
  fun_induction decodeFrom pos pending? bytes with
  | case1 => cases h
  | case2 pos b rest hlead =>
    cases h
    exact ⟨[], b :: rest, rfl, ⟨[], .nil⟩, rfl, .start hlead⟩
  | case3 pos b rest value hlead ih =>
    -- a byte that is a sequence by itself
    exact FailsAt.sequence (sequence_of_lead? hlead .nil) (ih (map_eq_error h))
  | case4 pos b rest value next due hlead ih =>
    -- a first byte: either the bytes due do not follow, or reading fails after them
    rcases ih h with ⟨read, reason, hstops, rfl⟩ | ⟨seq, rest, rfl, hseq, hrest⟩
    · exact ⟨[], b :: rest, rfl, ⟨[], .nil⟩, rfl, .sequence hlead hstops⟩
    · exact FailsAt.sequence (sequence_of_lead? hlead hseq) hrest
  | case5 pos p =>
    cases h
    exact .inl ⟨0, _, .ended, rfl⟩
  | case6 =>
    -- the last byte of a sequence
    rename_i pos p b rest hb value hdue ih
    refine .inr ⟨[b], rest, rfl, ?_, ih (map_eq_error h)⟩
    rw [hdue]
    exact .cons hb .nil
  | case7 =>
    rename_i pos p b rest hb value next due hdue ih
    rcases ih h with ⟨read, reason, hstops, rfl⟩ | ⟨seq, rest, rfl, hseq, hrest⟩
    · refine .inl ⟨read + 1, reason, ?_, ?_⟩
      · rw [hdue]
        exact .next hb hstops
      · rw [Nat.add_right_comm, Nat.add_assoc]
    · refine .inr ⟨b :: seq, rest, rfl, ?_, ?_⟩
      · rw [hdue]
        exact .cons hb hseq
      · rw [List.length_cons, Nat.add_comm seq.length, ← Nat.add_assoc]
        exact hrest
  | case8 pos p b rest hb =>
    cases h
    exact .inl ⟨0, _, .broken hb, rfl⟩

/-- Reading fails behind what is well-formed. -/
theorem decodeFrom_drop {n : Nat} (hn : n ≤ bytes.length) (hgood : IsUtf8 (bytes.take n))
    (h : decode bytes = .error fault) : decodeFrom n none (bytes.drop n) = .error fault := by
  rcases isUtf8_iff.1 hgood with ⟨text, htext⟩
  have hlength : (encode text).length = n := by
    rw [htext, List.length_take_of_le hn]
  have hread := map_eq_error h
  rw [← List.take_append_drop n bytes, ← htext, encode, decodeFrom_append, ← encode, hlength,
    Nat.zero_add] at hread
  exact map_eq_error hread

theorem Malformed.locates (h : decode bytes = .error fault) : fault.Locates bytes := by
  rcases failed_of_decodeFrom (map_eq_error h) with ⟨good, bad, rfl, hgood, hstart, hopens⟩
  rw [Nat.zero_add] at hstart
  have hdrop : (good ++ bad).drop fault.start = bad := by rw [hstart, List.drop_left]
  refine ⟨⟨?_, ?_⟩, ?_, ?_, hopens.invalidStart_iff, ?_, ?_⟩
  · show _ ≤ _ ∧ IsUtf8 _
    rw [hstart, List.take_left, List.length_append]
    exact ⟨Nat.le_add_right _ _, hgood⟩
  · rintro n ⟨hn, hprefix⟩
    rcases failed_of_decodeFrom (decodeFrom_drop hn hprefix h) with ⟨later, -, -, -, hlater, -⟩
    rw [hlater]
    exact Nat.le_add_right _ _
  · rw [hdrop]
    exact hopens.exists_longest
  · rw [hstart, List.getElem?_append_right (Nat.le_refl _), Nat.sub_self, ← List.head?_eq_getElem?]
    exact hopens.head?
  · rw [hdrop]
    exact hopens.unexpectedEnd_iff
  · rw [hdrop]
    exact hopens.invalidContinuation_iff

/-- **Reading fails just with the fault that the bytes have.** -/
theorem decode_eq_error_iff : decode bytes = .error fault ↔ fault.Locates bytes := by
  constructor
  · exact Malformed.locates
  · intro h
    have hmalformed : ¬ WellFormed bytes := fun hgood => h.not_isUtf8 (isUtf8_iff.2 hgood)
    rcases exists_decode_eq_error_iff.2 hmalformed with ⟨found, hfound⟩
    rw [hfound, (Malformed.locates hfound).unique h]

end ReadPlan.Utf8
