import Mathlib.Data.List.Perm.Basic
import ReadPlan.Proofs.Request.History

/-!
# ReadPlan.Proofs.Request.AttributeHistory — attributes are decided by their history

Which attributes a request carries, with which values and in which order is told by the values that
were written to it (`Attributes.DecidedBy`). An attribute is there if its last write stored a value,
has that value, and stands by the time since when it has been there: that of the first write after
it was last removed (`History.StoredSince`).

One more write keeps this (`DecidedBy.set`), and no two bags of attributes are told by one history
(`DecidedBy.eq`).
-/

namespace ReadPlan

namespace History

variable {history later earlier : History} {name other : String}

/-! ## Since when an attribute has been there -/

/-- The attribute has been there since the time: a value was stored then, under a name that had
none, and the attribute was not removed later. The time counts what was given before. -/
def StoredSince (history : History) (name : String) (time : Nat) : Prop :=
  ∃ later value, ∃ earlier : History, history = later ++ .write name (some value) :: earlier ∧
    .write name none ∉ later ∧ ¬ earlier.Live name ∧ earlier.length = time

/-- The one attribute has been there longer than the other. -/
def StoredBefore (history : History) (first second : String) : Prop :=
  ∃ i j, history.StoredSince first i ∧ history.StoredSince second j ∧ i < j

/-- Whatever is no write of the name leaves the last write as it was. -/
theorem attribute?_cons_of_not_written {given : Given} (h : given.written? name = none) :
    attribute? (given :: history) name = history.attribute? name := by
  rw [attribute?, List.findSome?_cons, h]
  rfl

theorem live_write {value? : Option Bytes} :
    Live (.write name value? :: history) name ↔ value?.isSome := by
  rw [Live, attribute?_cons, if_pos rfl, Option.isSome_iff_exists]

theorem live_store (name : String) (value : Bytes) (history : History) :
    Live (.write name (some value) :: history) name :=
  live_write.2 rfl

theorem live_cons_of_not_written {given : Given} (h : given.written? name = none) :
    Live (given :: history) name ↔ history.Live name := by
  rw [Live, Live, attribute?_cons_of_not_written h]

/-- What is given to a request is a write of the name or none. -/
theorem write_or_not_written (given : Given) (name : String) :
    (∃ value?, given = .write name value?) ∨ given.written? name = none := by
  cases given with
  | write written value? =>
    by_cases h : written = name
    · exact Or.inl ⟨value?, h ▸ rfl⟩
    · exact Or.inr (if_neg h)
  | cellLimit | cellOffset | maxResultSize => exact Or.inr rfl

/-- An attribute stays until it is removed. -/
theorem Live.append (h : earlier.Live name) (hkept : .write name none ∉ later) :
    Live (later ++ earlier) name := by
  induction later with
  | nil => exact h
  | cons given rest ih =>
    rw [List.mem_cons, not_or] at hkept
    rcases write_or_not_written given name with ⟨value?, rfl⟩ | hnot
    · rw [List.cons_append, live_write]
      cases value? with
      | none => exact absurd rfl hkept.1
      | some value => rfl
    · rw [List.cons_append, live_cons_of_not_written hnot]
      exact ih hkept.2

theorem StoredSince.lt_length {time : Nat} (h : history.StoredSince name time) :
    time < history.length := by
  rcases h with ⟨later, value, earlier, rfl, -, -, rfl⟩
  rw [List.length_append, List.length_cons]
  omega

/-- The time stays as long as the attribute is not removed. -/
theorem StoredSince.cons {time : Nat} (h : history.StoredSince name time) {given : Given}
    (hgiven : given ≠ .write name none) : StoredSince (given :: history) name time := by
  rcases h with ⟨later, value, earlier, rfl, hkept, hnew, htime⟩
  refine ⟨given :: later, value, earlier, rfl, ?_, hnew, htime⟩
  rw [List.mem_cons, not_or]
  exact ⟨hgiven.symm, hkept⟩

/-- An attribute that was not there is there from now on. -/
theorem storedSince_new (h : ¬ history.Live name) (value : Bytes) :
    StoredSince (.write name (some value) :: history) name history.length :=
  ⟨[], value, history, rfl, List.not_mem_nil, h, rfl⟩

/-- What is there has been there since some time. -/
theorem exists_storedSince (h : history.Live name) : ∃ time, history.StoredSince name time := by
  induction history with
  | nil =>
    rcases h with ⟨value, hvalue⟩
    cases hvalue
  | cons given rest ih =>
    by_cases hrest : History.Live rest name
    · -- it was there before, and the last value given has not removed it
      rcases ih hrest with ⟨time, htime⟩
      refine ⟨time, htime.cons ?_⟩
      rintro rfl
      exact absurd (live_write.1 h) Bool.false_ne_true
    · rcases write_or_not_written given name with ⟨value?, rfl⟩ | hnot
      · rcases Option.isSome_iff_exists.1 (live_write.1 h) with ⟨value, rfl⟩
        exact ⟨rest.length, storedSince_new hrest value⟩
      · exact absurd ((live_cons_of_not_written hnot).1 h) hrest

/-- There is one such time. -/
theorem StoredSince.unique {i j : Nat} (hi : history.StoredSince name i)
    (hj : history.StoredSince name j) : i = j := by
  rcases hi with ⟨later, value, earlier, rfl, hkept, hnew, rfl⟩
  rcases hj with ⟨later', value', earlier', heq, hkept', hnew', rfl⟩
  -- were the one write before the other, the attribute would have been there already
  rcases List.append_eq_append_iff.1 heq with ⟨middle, hlater, hmiddle⟩ | ⟨middle, hlater, hmiddle⟩
  · cases middle with
    | nil => rw [(List.cons.inj hmiddle).2]
    | cons given rest =>
      have hrest : .write name none ∉ rest := fun hmem =>
        hkept' (hlater ▸ List.mem_append_right _ (List.mem_cons_of_mem _ hmem))
      rw [(List.cons.inj hmiddle).2] at hnew
      exact absurd (Live.append (live_store name value' earlier') hrest) hnew
  · cases middle with
    | nil => rw [(List.cons.inj hmiddle).2]
    | cons given rest =>
      have hrest : .write name none ∉ rest := fun hmem =>
        hkept (hlater ▸ List.mem_append_right _ (List.mem_cons_of_mem _ hmem))
      rw [(List.cons.inj hmiddle).2] at hnew'
      exact absurd (Live.append (live_store name value earlier) hrest) hnew'

theorem StoredBefore.asymm {first second : String} (h : history.StoredBefore first second) :
    ¬ history.StoredBefore second first := by
  rintro ⟨i, j, hi, hj, hlt⟩
  rcases h with ⟨i', j', hi', hj', hlt'⟩
  have h₁ := hi.unique hj'
  have h₂ := hj.unique hi'
  omega

/-- Two attributes keep their order as long as neither is removed. -/
theorem StoredBefore.cons {first second : String} (h : history.StoredBefore first second)
    {given : Given} (hfirst : given ≠ .write first none) (hsecond : given ≠ .write second none) :
    StoredBefore (given :: history) first second := by
  rcases h with ⟨i, j, hi, hj, hlt⟩
  exact ⟨i, j, hi.cons hfirst, hj.cons hsecond, hlt⟩

end History

/-! ## Attributes and their history -/

namespace Attributes

/-- The attributes that are there, their values and their order are told by the history. -/
structure DecidedBy (attributes : Attributes) (history : History) : Prop where
  /-- The names present are those whose last write stored a value. -/
  present : ∀ name, name ∈ attributes.keys ↔ history.Live name
  /-- Each has the value of its last write. -/
  values : ∀ name, attributes.get? name = history.attribute? name
  /-- They stand in the order in which they were first stored after their last removal. -/
  order : attributes.keys.Pairwise history.StoredBefore

variable {attributes : Attributes} {history : History}

/-- **A history tells one bag of attributes only.** -/
theorem DecidedBy.eq {other : Attributes} (h : attributes.DecidedBy history)
    (h' : other.DecidedBy history) : attributes = other := by
  have hkeys : attributes.keys = other.keys := by
    refine List.Perm.eq_of_pairwise ?_ h.order h'.order ?_
    · intro first second _ _ hbefore hafter
      exact absurd hafter hbefore.asymm
    · refine (List.perm_ext_iff_of_nodup attributes.distinct other.distinct).2 ?_
      intro name
      exact (h.present name).trans (h'.present name).symm
  refine OrderedMap.ext_get? hkeys ?_
  intro name
  rw [h.values, h'.values]

/-- What is there is told by the values alone. -/
theorem present_of_values (h : ∀ name, attributes.get? name = history.attribute? name)
    (name : String) : name ∈ attributes.keys ↔ history.Live name := by
  rw [OrderedMap.mem_keys_iff, h, Option.isSome_iff_exists]
  rfl

/-- A history without stored values tells no attributes. -/
theorem decidedBy_empty (h : ∀ name, history.attribute? name = none) : DecidedBy ∅ history := by
  have hvalues : ∀ name, OrderedMap.get? (∅ : Attributes) name = history.attribute? name := by
    intro name
    rw [h]
    rfl
  exact ⟨present_of_values hvalues, hvalues, .nil⟩

/-- What is no write leaves the attributes. -/
theorem DecidedBy.cons_of_not_write (h : attributes.DecidedBy history) {given : Given}
    (hgiven : given.isWrite = false) : attributes.DecidedBy (given :: history) := by
  have hnot : ∀ name value?, given ≠ .write name value? := by
    rintro name value? rfl
    cases hgiven
  have hvalues : ∀ name, attributes.get? name = History.attribute? (given :: history) name := by
    intro name
    rcases History.write_or_not_written given name with ⟨value?, heq⟩ | hwritten
    · exact absurd heq (hnot name value?)
    · rw [History.attribute?_cons_of_not_written hwritten, h.values]
  refine ⟨present_of_values hvalues, hvalues, h.order.imp ?_⟩
  intro first second hbefore
  exact hbefore.cons (hnot _ _) (hnot _ _)

/-- A write changes the attributes as it changes the history. -/
theorem DecidedBy.set (h : attributes.DecidedBy history) (name : String) (value? : Option Bytes) :
    (attributes.set name value?).DecidedBy (.write name value? :: history) := by
  have hvalues : ∀ other, (attributes.set name value?).get? other =
      History.attribute? (.write name value? :: history) other := by
    intro other
    rw [get?_set, History.attribute?_cons, h.values]
  refine ⟨present_of_values hvalues, hvalues, ?_⟩
  cases value? with
  | none =>
    -- the others stay in their order
    show (OrderedMap.erase attributes name).keys.Pairwise _
    rw [OrderedMap.keys_erase]
    refine List.Pairwise.imp_of_mem ?_ (h.order.filter _)
    intro first second hfirst hsecond hbefore
    have hne : ∀ key ∈ attributes.keys.filter (· ≠ name),
        Given.write name none ≠ .write key none := by
      intro key hkey heq
      cases heq
      simpa using (List.mem_filter.1 hkey).2
    exact hbefore.cons (hne first hfirst) (hne second hsecond)
  | some value =>
    have hkept : ∀ key, Given.write name (some value) ≠ .write key none := by
      intro key heq
      cases heq
    have hold : attributes.keys.Pairwise
        (History.StoredBefore (.write name (some value) :: history)) :=
      h.order.imp fun hbefore => hbefore.cons (hkept _) (hkept _)
    show (OrderedMap.put attributes name value).keys.Pairwise _
    rw [OrderedMap.keys_put]
    by_cases hmem : name ∈ attributes.keys
    · rw [if_pos hmem]
      exact hold
    · rw [if_neg hmem]
      -- a new attribute comes after all that are there
      refine List.pairwise_append.2 ⟨hold, List.pairwise_singleton _ _, ?_⟩
      intro first hfirst second hsecond
      obtain rfl := List.mem_singleton.1 hsecond
      rcases History.exists_storedSince ((h.present first).1 hfirst) with ⟨time, htime⟩
      have hnew := History.storedSince_new (fun hlive => hmem ((h.present second).2 hlive)) value
      exact ⟨time, history.length, htime.cons (hkept _), hnew, htime.lt_length⟩

end Attributes

end ReadPlan
