import ReadPlan.Proofs.Selection.Rebuild

/-!
# ReadPlan.Proofs.Selection.History — a selection is decided by its history

A selection that was built from nothing is told by the selectors it was built with, and by their
order (`Selection.DecidedBy`). Of the selectors that name a family, the last one says whether the
family is whole; if not, its columns are those named since it was last whole. The family stands
where the last selector that names it as a whole has put it, or, if there is none, the first that
names it at all.

One more selector keeps this (`DecidedBy.select`), and so does a list of them. Nothing is left open:
no two selections are told by one history (`DecidedBy.eq`).
-/

namespace ReadPlan

/-! ## Histories -/

/-- The selector was called, and each later one is such. -/
def CalledThen (history : List Selector) (selector : Selector) (later : Selector → Prop) : Prop :=
  ∃ before after, history = before ++ selector :: after ∧ ∀ next ∈ after, later next

/-- The time that places a family among the others: that of the last selector that names it as a
whole, or, if none does, that of the first that names it. -/
def PlacedAt (history : List Selector) (family : Bytes) (time : Nat) : Prop :=
  (∃ before after, history = before ++ .wholeFamily family :: after ∧
    .wholeFamily family ∉ after ∧ before.length = time) ∨
  (.wholeFamily family ∉ history ∧
    ∃ before selector after, history = before ++ selector :: after ∧ selector.family = family ∧
      (∀ earlier ∈ before, earlier.family ≠ family) ∧ before.length = time)

/-- The one family was placed earlier than the other. -/
def PlacedBefore (history : List Selector) (first second : Bytes) : Prop :=
  ∃ i j, PlacedAt history first i ∧ PlacedAt history second j ∧ i < j

theorem calledThen_concat {history : List Selector} {last selector : Selector}
    {later : Selector → Prop} :
    CalledThen (history ++ [last]) selector later ↔
      selector = last ∨ CalledThen history selector later ∧ later last := by
  constructor
  · rintro ⟨before, after, heq, hlater⟩
    -- either nothing came after the selector, or the last one did
    rcases List.eq_nil_or_concat after with rfl | ⟨init, final, rfl⟩
    · have hsplit := List.append_inj_right' heq rfl
      exact Or.inl (List.cons.inj hsplit).1.symm
    · have hassoc : history ++ [last] = (before ++ selector :: init) ++ [final] := by
        rw [heq]
        simp
      have hinit := List.append_inj_left' hassoc rfl
      have hfinal := (List.cons.inj (List.append_inj_right' hassoc rfl)).1
      refine Or.inr ⟨⟨before, init, hinit, fun next hnext => hlater next (by simp [hnext])⟩, ?_⟩
      rw [hfinal]
      exact hlater final (by simp)
  · rintro (rfl | ⟨⟨before, after, rfl, hlater⟩, hlast⟩)
    · exact ⟨history, [], rfl, fun next hnext => absurd hnext List.not_mem_nil⟩
    · refine ⟨before, after ++ [last], by simp, ?_⟩
      intro next hnext
      rcases List.mem_append.1 hnext with hold | hnew
      · exact hlater next hold
      · rw [List.mem_singleton.1 hnew]
        exact hlast

theorem CalledThen.mem {history : List Selector} {selector : Selector} {later : Selector → Prop}
    (h : CalledThen history selector later) : selector ∈ history := by
  rcases h with ⟨before, after, rfl, -⟩
  simp

/-- Once the family was named as a whole and not at all since, no column counts. -/
theorem CalledThen.not_column {history : List Selector} {family : Bytes}
    (h : CalledThen history (.wholeFamily family) (·.family ≠ family)) (qualifier? : Option Bytes) :
    ¬ CalledThen history (.column family qualifier?) (· ≠ .wholeFamily family) := by
  rcases h with ⟨before, after, rfl, hwhole⟩
  rintro ⟨before', after', heq, hcolumn⟩
  rcases List.append_eq_append_iff.1 heq with ⟨middle, -, hmiddle⟩ | ⟨middle, -, hmiddle⟩
  · -- the column came after the whole family, but nothing after that names the family
    cases middle with
    | nil => cases hmiddle
    | cons head rest =>
      have hmem : .column family qualifier? ∈ after := by
        rw [(List.cons.inj hmiddle).2]
        simp
      exact hwhole _ hmem rfl
  · -- the whole family came after the column
    cases middle with
    | nil => cases hmiddle
    | cons head rest =>
      have hmem : .wholeFamily family ∈ after' := by
        rw [(List.cons.inj hmiddle).2]
        simp
      exact hcolumn _ hmem rfl

/-- A family is placed at a time of the history. -/
theorem PlacedAt.lt_length {history : List Selector} {family : Bytes} {time : Nat}
    (h : PlacedAt history family time) : time < history.length := by
  rcases h with ⟨before, after, rfl, -, rfl⟩ | ⟨-, before, selector, after, rfl, -, -, rfl⟩
  · simp
  · simp

/-- A selector leaves a family at its place, unless it names it as a whole. -/
theorem PlacedAt.concat {history : List Selector} {family : Bytes} {time : Nat}
    (h : PlacedAt history family time) {last : Selector} (hlast : last ≠ .wholeFamily family) :
    PlacedAt (history ++ [last]) family time := by
  rcases h with ⟨before, after, rfl, hafter, hlength⟩ |
    ⟨hnone, before, selector, after, rfl, hfamily, hbefore, hlength⟩
  · refine Or.inl ⟨before, after ++ [last], by simp, ?_, hlength⟩
    simp [hafter, hlast.symm]
  · refine Or.inr ⟨?_, before, selector, after ++ [last], by simp, hfamily, hbefore, hlength⟩
    rw [List.mem_append, List.mem_singleton, not_or]
    exact ⟨hnone, hlast.symm⟩

/-- Two places in a history are the same if at neither of them the other lies ahead. -/
theorem length_eq_of_split {before before' after after' : List Selector}
    {selector selector' : Selector}
    (heq : before ++ selector :: after = before' ++ selector' :: after')
    (hafter : selector' ∉ after ∨ selector ∉ before') (hafter' : selector ∉ after' ∨
      selector' ∉ before) : before.length = before'.length := by
  rcases List.append_eq_append_iff.1 heq with ⟨middle, hbefore, hmiddle⟩ |
    ⟨middle, hbefore, hmiddle⟩
  · cases middle with
    | nil => simp [hbefore]
    | cons head rest =>
      obtain ⟨rfl, hrest⟩ := List.cons.inj hmiddle
      rcases hafter with hnot | hnot
      · exact absurd (by simp [hrest]) hnot
      · exact absurd (by simp [hbefore]) hnot
  · cases middle with
    | nil => simp [hbefore]
    | cons head rest =>
      obtain ⟨rfl, hrest⟩ := List.cons.inj hmiddle
      rcases hafter' with hnot | hnot
      · exact absurd (by simp [hrest]) hnot
      · exact absurd (by simp [hbefore]) hnot

/-- A family is placed at one time only. -/
theorem PlacedAt.unique {history : List Selector} {family : Bytes} {time time' : Nat}
    (h : PlacedAt history family time) (h' : PlacedAt history family time') : time = time' := by
  rcases h with ⟨before, after, rfl, hafter, rfl⟩ |
    ⟨hnone, before, selector, after, rfl, hfamily, hbefore, rfl⟩
  · rcases h' with ⟨before', after', heq, hafter', rfl⟩ | ⟨hnone, -⟩
    · exact length_eq_of_split heq (Or.inl hafter) (Or.inl hafter')
    · exact absurd (by simp) hnone
  · rcases h' with ⟨before', after', heq, -, -⟩ |
      ⟨-, before', selector', after', heq, hfamily', hbefore', rfl⟩
    · rw [heq] at hnone
      exact absurd (by simp) hnone
    · refine length_eq_of_split heq (Or.inr ?_) (Or.inr ?_)
      · exact fun hmem => hbefore' selector hmem hfamily
      · exact fun hmem => hbefore selector' hmem hfamily'

/-- So of two families only one comes before the other. -/
theorem PlacedBefore.asymm {history : List Selector} {first second : Bytes}
    (h : PlacedBefore history first second) : ¬ PlacedBefore history second first := by
  rcases h with ⟨i, j, hi, hj, hlt⟩
  rintro ⟨j', i', hj', hi', hlt'⟩
  have hfirst := hi.unique hi'
  have hsecond := hj.unique hj'
  omega

/-- A selector that names the family as a whole places it last. -/
theorem placedAt_whole (history : List Selector) (family : Bytes) :
    PlacedAt (history ++ [.wholeFamily family]) family history.length :=
  Or.inl ⟨history, [], rfl, List.not_mem_nil, rfl⟩

/-- So does a column of a family that was not named before. -/
theorem placedAt_new {history : List Selector} {family : Bytes} (qualifier? : Option Bytes)
    (hnew : ∀ selector ∈ history, selector.family ≠ family) :
    PlacedAt (history ++ [.column family qualifier?]) family history.length := by
  refine Or.inr ⟨?_, history, .column family qualifier?, [], rfl, rfl, hnew, rfl⟩
  intro hmem
  rcases List.mem_append.1 hmem with hold | hlast
  · exact hnew _ hold rfl
  · simp at hlast

namespace Selection

/-- What the history of a selection says of it. -/
structure DecidedBy (selection : Selection) (history : List Selector) : Prop where
  /-- The families are those that some selector names. -/
  named : ∀ family, family ∈ selection.keys ↔ ∃ selector ∈ history, selector.family = family
  /-- A family is whole if the last selector that names it says so. -/
  whole : ∀ family, selection.get? family = some .all ↔
    CalledThen history (.wholeFamily family) fun later => later.family ≠ family
  /-- Otherwise it has the columns that were named since it was last whole. -/
  columns : ∀ family set, selection.get? family = some (.only set) → ∀ qualifier,
    qualifier ∈ set ↔
      CalledThen history (.column family (some qualifier)) (· ≠ .wholeFamily family)
  /-- Every family was placed at some time. -/
  placed : ∀ family ∈ selection.keys, ∃ time, PlacedAt history family time
  /-- The families stand in the order of these times. -/
  order : selection.keys.Pairwise (PlacedBefore history)

/-- **A history tells one selection only.** -/
theorem DecidedBy.eq {s t : Selection} {history : List Selector} (hs : s.DecidedBy history)
    (ht : t.DecidedBy history) : s = t := by
  have hmem : ∀ family, family ∈ s.keys ↔ family ∈ t.keys := fun family =>
    (hs.named family).trans (ht.named family).symm
  have hwhole : ∀ family, s.get? family = some .all ↔ t.get? family = some .all := fun family =>
    (hs.whole family).trans (ht.whole family).symm
  have hkeys : s.keys = t.keys := by
    refine List.Perm.eq_of_pairwise ?_ hs.order ht.order ?_
    · intro first second _ _ hbefore hafter
      exact absurd hafter hbefore.asymm
    · exact (List.perm_ext_iff_of_nodup s.distinct t.distinct).2 hmem
  refine OrderedMap.ext_get? hkeys fun family => ?_
  cases hsome : s.get? family with
  | none =>
    have hnot := OrderedMap.get?_eq_none_iff.1 hsome
    rw [hmem] at hnot
    exact (OrderedMap.get?_eq_none_iff.2 hnot).symm
  | some columns =>
    have hin : family ∈ t.keys := by
      rw [← hmem, OrderedMap.mem_keys_iff, hsome]
      rfl
    obtain ⟨columns', hsome'⟩ := Option.isSome_iff_exists.1 (OrderedMap.mem_keys_iff.1 hin)
    cases columns with
    | all => exact ((hwhole family).1 hsome).symm
    | only set =>
      cases columns' with
      | all =>
        rw [(hwhole family).2 hsome'] at hsome
        cases hsome
      | only set' =>
        have hset : set = set' := KeySet.ext_mem fun qualifier =>
          (hs.columns family set hsome qualifier).trans
            (ht.columns family set' hsome' qualifier).symm
        rw [hsome', hset]

theorem decidedBy_nil : DecidedBy ∅ [] where
  named := fun family => iff_of_false List.not_mem_nil (by simp)
  whole := by
    intro family
    refine iff_of_false (fun hget => by cases hget) ?_
    exact fun hcalled => List.not_mem_nil hcalled.mem
  columns := fun family set hget => by cases hget
  placed := fun family hmem => absurd hmem List.not_mem_nil
  order := .nil

theorem mem_keys_select {selection : Selection} {selector : Selector} {family : Bytes} :
    family ∈ (selection.select selector).keys ↔
      family ∈ selection.keys ∨ family = selector.family := by
  rw [OrderedMap.mem_keys_iff, OrderedMap.mem_keys_iff, get?_select]
  by_cases h : family = selector.family
  · simp [h]
  · simp [h]

namespace DecidedBy

variable {selection : Selection} {history : List Selector}

/-- A family that no set stands for has no column that was named since it was last whole. -/
theorem not_calledThen_column (h : selection.DecidedBy history) {family : Bytes}
    (hnone : ∀ set, selection.get? family ≠ some (.only set)) (qualifier? : Option Bytes) :
    ¬ CalledThen history (.column family qualifier?) (· ≠ .wholeFamily family) := by
  intro hcolumn
  cases hget : selection.get? family with
  | none =>
    have hnamed : family ∈ selection.keys := (h.named family).2 ⟨_, hcolumn.mem, rfl⟩
    exact OrderedMap.get?_eq_none_iff.1 hget hnamed
  | some columns =>
    cases columns with
    | only set => exact hnone set hget
    | all => exact ((h.whole family).1 hget).not_column qualifier? hcolumn

theorem mem_setOrEmpty (h : selection.DecidedBy history) (family qualifier : Bytes) :
    qualifier ∈ Columns.setOrEmpty (selection.get? family) ↔
      CalledThen history (.column family (some qualifier)) (· ≠ .wholeFamily family) := by
  by_cases hheld : ∃ set, selection.get? family = some (.only set)
  · rcases hheld with ⟨set, hset⟩
    rw [hset]
    exact h.columns family set hset qualifier
  · have hnone : ∀ set, selection.get? family ≠ some (.only set) := fun set hset =>
      hheld ⟨set, hset⟩
    have hempty : Columns.setOrEmpty (selection.get? family) = ∅ := by
      cases hget : selection.get? family with
      | none => rfl
      | some columns =>
        cases columns with
        | all => rfl
        | only set => exact absurd hget (hnone set)
    rw [hempty]
    exact iff_of_false (KeySet.not_mem_empty qualifier) (h.not_calledThen_column hnone _)

theorem not_named (h : selection.DecidedBy history) {family : Bytes}
    (hnew : family ∉ selection.keys) : ∀ selector ∈ history, selector.family ≠ family :=
  fun selector hmem heq => hnew ((h.named family).2 ⟨selector, hmem, heq⟩)

/-! ## One more selector -/

theorem named_select (h : selection.DecidedBy history) (selector : Selector) (family : Bytes) :
    family ∈ (selection.select selector).keys ↔
      ∃ earlier ∈ history ++ [selector], earlier.family = family := by
  rw [mem_keys_select, h.named]
  constructor
  · rintro (⟨earlier, hmem, hfamily⟩ | rfl)
    · exact ⟨earlier, List.mem_append_left _ hmem, hfamily⟩
    · exact ⟨selector, by simp, rfl⟩
  · rintro ⟨earlier, hmem, rfl⟩
    rcases List.mem_append.1 hmem with hold | hlast
    · exact Or.inl ⟨earlier, hold, rfl⟩
    · exact Or.inr (congrArg Selector.family (List.mem_singleton.1 hlast))

theorem whole_select (h : selection.DecidedBy history) (selector : Selector) (family : Bytes) :
    (selection.select selector).get? family = some .all ↔
      CalledThen (history ++ [selector]) (.wholeFamily family) (·.family ≠ family) := by
  rw [get?_select, calledThen_concat]
  by_cases hfamily : family = selector.family
  · -- the selector names the family, so it alone decides
    subst hfamily
    cases selector <;> simp [columnsAfter, Selector.family]
  · rw [if_neg hfamily, h.whole]
    constructor
    · exact fun hcalled => Or.inr ⟨hcalled, fun heq => hfamily heq.symm⟩
    · rintro (hlast | hcalled)
      · exact absurd (congrArg Selector.family hlast) hfamily
      · exact hcalled.1

theorem columns_select (h : selection.DecidedBy history) (selector : Selector) {family : Bytes}
    {set : KeySet} (hset : (selection.select selector).get? family = some (.only set))
    (qualifier : Bytes) :
    qualifier ∈ set ↔ CalledThen (history ++ [selector]) (.column family (some qualifier))
      (· ≠ .wholeFamily family) := by
  rw [get?_select] at hset
  rw [calledThen_concat]
  by_cases hfamily : family = selector.family
  · rw [if_pos hfamily] at hset
    subst hfamily
    cases selector with
    | wholeFamily name => cases hset
    | column name qualifier? =>
      -- the set is the one before with the qualifier in it
      cases hset
      rw [KeySet.mem_insert?, h.mem_setOrEmpty]
      simp [Selector.family, eq_comm]
  · rw [if_neg hfamily] at hset
    rw [h.columns family set hset]
    constructor
    · intro hcalled
      refine Or.inr ⟨hcalled, ?_⟩
      rintro rfl
      exact hfamily rfl
    · rintro (hlast | hcalled)
      · exact absurd (congrArg Selector.family hlast) hfamily
      · exact hcalled.1

theorem placed_select (h : selection.DecidedBy history) (selector : Selector) {family : Bytes}
    (hmem : family ∈ (selection.select selector).keys) :
    ∃ time, PlacedAt (history ++ [selector]) family time := by
  by_cases hwhole : selector = .wholeFamily family
  · rw [hwhole]
    exact ⟨_, placedAt_whole history family⟩
  · by_cases hold : family ∈ selection.keys
    · rcases h.placed family hold with ⟨time, htime⟩
      exact ⟨time, htime.concat hwhole⟩
    · -- a family that is new and not whole is named by a column
      have hfamily := (mem_keys_select.1 hmem).resolve_left hold
      cases selector with
      | wholeFamily name => exact absurd (congrArg Selector.wholeFamily hfamily.symm) hwhole
      | column name qualifier? =>
        cases hfamily
        exact ⟨_, placedAt_new qualifier? (h.not_named hold)⟩

/-- Families that the selector leaves at their places keep their order. -/
theorem order_kept (h : selection.DecidedBy history) {selector : Selector} {kept : List Bytes}
    (hkept : kept.Sublist selection.keys) (hleaves : ∀ f ∈ kept, selector ≠ .wholeFamily f) :
    kept.Pairwise (PlacedBefore (history ++ [selector])) := by
  refine (h.order.sublist hkept).imp_of_mem ?_
  rintro first second hfirst hsecond ⟨i, j, hi, hj, hlt⟩
  exact ⟨i, j, hi.concat (hleaves first hfirst), hj.concat (hleaves second hsecond), hlt⟩

/-- A family that the selector places now comes after them. -/
theorem order_concat (h : selection.DecidedBy history) {selector : Selector} {kept : List Bytes}
    {last : Bytes} (hkept : kept.Sublist selection.keys)
    (hleaves : ∀ f ∈ kept, selector ≠ .wholeFamily f)
    (hlast : PlacedAt (history ++ [selector]) last history.length) :
    (kept ++ [last]).Pairwise (PlacedBefore (history ++ [selector])) := by
  refine List.pairwise_append.2 ⟨h.order_kept hkept hleaves, List.pairwise_singleton _ _, ?_⟩
  intro first hfirst second hsecond
  rw [List.mem_singleton.1 hsecond]
  rcases h.placed first (hkept.subset hfirst) with ⟨time, htime⟩
  exact ⟨time, history.length, htime.concat (hleaves first hfirst), hlast, htime.lt_length⟩

theorem order_select (h : selection.DecidedBy history) (selector : Selector) :
    (selection.select selector).keys.Pairwise (PlacedBefore (history ++ [selector])) := by
  have hkeys := keys_select selection selector
  cases selector with
  | wholeFamily name =>
    rw [hkeys]
    refine h.order_concat List.filter_sublist ?_ (placedAt_whole history name)
    intro family hmem heq
    cases heq
    simp at hmem
  | column name qualifier? =>
    have hleaves : ∀ family, Selector.column name qualifier? ≠ .wholeFamily family :=
      fun family heq => by cases heq
    by_cases hmem : name ∈ selection.keys
    · rw [hkeys.trans (if_pos hmem)]
      exact h.order_kept (List.Sublist.refl _) fun family _ => hleaves family
    · rw [hkeys.trans (if_neg hmem)]
      exact h.order_concat (List.Sublist.refl _) (fun family _ => hleaves family)
        (placedAt_new qualifier? (h.not_named hmem))

/-- One more selector, called last. -/
theorem select (h : selection.DecidedBy history) (selector : Selector) :
    (selection.select selector).DecidedBy (history ++ [selector]) where
  named := h.named_select selector
  whole := h.whole_select selector
  columns := fun _ _ hset => h.columns_select selector hset
  placed := fun _ hmem => h.placed_select selector hmem
  order := h.order_select selector

/-- More selectors, called one after the other. -/
theorem selectAll (h : selection.DecidedBy history) (selectors : List Selector) :
    (selection.selectAll selectors).DecidedBy (history ++ selectors) := by
  induction selectors generalizing selection history with
  | nil =>
    rw [List.append_nil]
    exact h
  | cons selector rest ih =>
    have hrest := ih (h.select selector)
    rw [List.append_assoc] at hrest
    exact hrest

end DecidedBy

end Selection

end ReadPlan
