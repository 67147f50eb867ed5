/-!
# ReadPlan.OrderedMap — maps that remember insertion order

A map is the list of its entries, each key once. Putting a value under a key that is there
already keeps the key's place; a new key goes to the end, and so does a key that was removed
before. The lemmas give every operation through two views: `get?`, which ignores order, and
`keys`, which is the order.
-/

namespace ReadPlan

/-- A map with its entries in insertion order. -/
structure OrderedMap (κ ν : Type) where
  entries : List (κ × ν)
  distinct : (entries.map Prod.fst).Nodup := by exact .nil
deriving DecidableEq, Repr

namespace OrderedMap

variable {κ ν μ : Type}

/-! ## Operations -/

def empty : OrderedMap κ ν where
  entries := []

instance : EmptyCollection (OrderedMap κ ν) := ⟨empty⟩

instance : Inhabited (OrderedMap κ ν) := ⟨empty⟩

/-- The keys in insertion order. -/
def keys (map : OrderedMap κ ν) : List κ :=
  map.entries.map Prod.fst

def size (map : OrderedMap κ ν) : Nat :=
  map.entries.length

def isEmpty (map : OrderedMap κ ν) : Bool :=
  map.entries.isEmpty

/-- Changes every value by a function of its key and itself; keys and order stay. -/
def mapWithKey (f : κ → ν → μ) (map : OrderedMap κ ν) : OrderedMap κ μ where
  entries := map.entries.map fun entry => (entry.1, f entry.1 entry.2)
  distinct := by
    have h : (map.entries.map fun entry => (entry.1, f entry.1 entry.2)).map Prod.fst
        = map.entries.map Prod.fst := by simp
    exact h ▸ map.distinct

/-- Changes every value; keys and order stay. -/
def mapValues (f : ν → μ) (map : OrderedMap κ ν) : OrderedMap κ μ :=
  map.mapWithKey fun _ => f

variable [DecidableEq κ]

/-- The value under a key. -/
def get? (map : OrderedMap κ ν) (key : κ) : Option ν :=
  map.entries.lookup key

/-- Overwrites the entry of a key where it stands, or appends one. -/
def putEntry (key : κ) (value : ν) : List (κ × ν) → List (κ × ν)
  | [] => [(key, value)]
  | entry :: rest =>
    if entry.1 = key then (key, value) :: rest else entry :: putEntry key value rest

theorem map_fst_putEntry (key : κ) (value : ν) (entries : List (κ × ν)) :
    (putEntry key value entries).map Prod.fst =
      if key ∈ entries.map Prod.fst then entries.map Prod.fst
      else entries.map Prod.fst ++ [key] := by
  induction entries with
  | nil => simp [putEntry]
  | cons entry rest ih =>
    by_cases h : entry.1 = key
    · simp [putEntry, h]
    · have h' : ¬ key = entry.1 := fun heq => h heq.symm
      simp only [putEntry, h, if_false, List.map_cons, List.mem_cons, h', false_or, ih]
      split <;> rfl

/-- Puts a value under a key. -/
def put (map : OrderedMap κ ν) (key : κ) (value : ν) : OrderedMap κ ν where
  entries := putEntry key value map.entries
  distinct := by
    rw [map_fst_putEntry]
    split
    · exact map.distinct
    · rename_i h
      refine List.nodup_append.2 ⟨map.distinct, List.nodup_cons.2 ⟨List.not_mem_nil, .nil⟩, ?_⟩
      rintro a ha b hb rfl
      exact h (List.mem_singleton.1 hb ▸ ha)

/-- Removes a key. -/
def erase (map : OrderedMap κ ν) (key : κ) : OrderedMap κ ν where
  entries := map.entries.filter fun entry => entry.1 ≠ key
  distinct := (List.filter_sublist.map Prod.fst).nodup map.distinct

/-- Puts the entries of a list one after the other. -/
def ofList (entries : List (κ × ν)) : OrderedMap κ ν :=
  entries.foldl (fun map entry => map.put entry.1 entry.2) empty

/-! ## Lemmas -/

@[simp] theorem get?_empty (key : κ) : (empty : OrderedMap κ ν).get? key = none :=
  rfl

omit [DecidableEq κ] in
@[simp] theorem keys_empty : (empty : OrderedMap κ ν).keys = [] :=
  rfl

theorem lookup_cons_eq (k : κ) (entry : κ × ν) (rest : List (κ × ν)) :
    (entry :: rest).lookup k = if k = entry.1 then some entry.2 else rest.lookup k := by
  obtain ⟨key, value⟩ := entry
  by_cases h : k = key
  · subst h
    simp
  · have hne : (k == key) = false := beq_false_of_ne h
    simp [List.lookup_cons, hne, h]

theorem lookup_putEntry (key : κ) (value : ν) (entries : List (κ × ν)) (k : κ) :
    (putEntry key value entries).lookup k =
      if k = key then some value else entries.lookup k := by
  induction entries with
  | nil => rw [putEntry, lookup_cons_eq]
  | cons entry rest ih =>
    unfold putEntry
    split
    · rename_i h
      subst h
      rw [lookup_cons_eq, lookup_cons_eq]
      split <;> simp_all
    · rename_i h
      rw [lookup_cons_eq, lookup_cons_eq, ih]
      split
      · rename_i hk
        subst hk
        rw [if_neg h]
      · rfl

theorem get?_put (map : OrderedMap κ ν) (key : κ) (value : ν) (k : κ) :
    (map.put key value).get? k = if k = key then some value else map.get? k :=
  lookup_putEntry key value map.entries k

@[simp] theorem get?_put_self (map : OrderedMap κ ν) (key : κ) (value : ν) :
    (map.put key value).get? key = some value := by
  simp [get?_put]

theorem get?_put_of_ne (map : OrderedMap κ ν) {key k : κ} (value : ν) (h : k ≠ key) :
    (map.put key value).get? k = map.get? k := by
  simp [get?_put, h]

theorem get?_erase (map : OrderedMap κ ν) (key k : κ) :
    (map.erase key).get? k = if k = key then none else map.get? k := by
  obtain ⟨entries, _⟩ := map
  simp only [get?, erase]
  induction entries with
  | nil => simp
  | cons entry rest ih =>
    have ih := ih (by simp_all)
    by_cases h : entry.1 = key
    · rw [List.filter_cons_of_neg (by simp [h]), ih, lookup_cons_eq, h]
      split <;> simp_all
    · rw [List.filter_cons_of_pos (by simp [h]), lookup_cons_eq, lookup_cons_eq, ih]
      split
      · rename_i hk
        subst hk
        rw [if_neg h]
      · rfl

theorem keys_put (map : OrderedMap κ ν) (key : κ) (value : ν) :
    (map.put key value).keys = if key ∈ map.keys then map.keys else map.keys ++ [key] :=
  map_fst_putEntry key value map.entries

theorem keys_erase (map : OrderedMap κ ν) (key : κ) :
    (map.erase key).keys = map.keys.filter (· ≠ key) := by
  simp only [keys, erase]
  rw [List.filter_map]
  rfl

omit [DecidableEq κ] in
@[simp] theorem keys_mapWithKey (f : κ → ν → μ) (map : OrderedMap κ ν) :
    (map.mapWithKey f).keys = map.keys := by
  simp [keys, mapWithKey]

omit [DecidableEq κ] in
@[simp] theorem keys_mapValues (f : ν → μ) (map : OrderedMap κ ν) :
    (map.mapValues f).keys = map.keys :=
  keys_mapWithKey _ map

theorem get?_mapWithKey (f : κ → ν → μ) (map : OrderedMap κ ν) (key : κ) :
    (map.mapWithKey f).get? key = (map.get? key).map (f key) := by
  obtain ⟨entries, _⟩ := map
  simp only [get?, mapWithKey]
  induction entries with
  | nil => rfl
  | cons entry rest ih =>
    rw [List.map_cons, lookup_cons_eq, lookup_cons_eq, ih (by simp_all)]
    split
    · rename_i h
      subst h
      rfl
    · rfl

theorem get?_mapValues (f : ν → μ) (map : OrderedMap κ ν) (key : κ) :
    (map.mapValues f).get? key = (map.get? key).map f :=
  get?_mapWithKey _ map key

theorem mem_keys_iff {map : OrderedMap κ ν} {key : κ} :
    key ∈ map.keys ↔ (map.get? key).isSome := by
  obtain ⟨entries, _⟩ := map
  simp only [get?, keys]
  induction entries with
  | nil => simp
  | cons entry rest ih =>
    rw [List.map_cons, List.mem_cons, lookup_cons_eq, ih (by simp_all)]
    split
    · rename_i h
      simp [h]
    · rename_i h
      simp [h]

theorem get?_of_mem {map : OrderedMap κ ν} {key : κ} {value : ν}
    (h : (key, value) ∈ map.entries) : map.get? key = some value := by
  obtain ⟨entries, hnodup⟩ := map
  simp only [get?] at h ⊢
  induction entries with
  | nil => exact absurd h List.not_mem_nil
  | cons entry rest ih =>
    rw [List.map_cons, List.nodup_cons] at hnodup
    rw [lookup_cons_eq]
    rcases List.mem_cons.1 h with heq | hmem
    · subst heq
      simp
    · have hne : key ≠ entry.1 := fun heq =>
        hnodup.1 (heq ▸ List.mem_map_of_mem hmem)
      rw [if_neg hne, ih hnodup.2 hmem]

theorem mem_of_get? {map : OrderedMap κ ν} {key : κ} {value : ν} (h : map.get? key = some value) :
    (key, value) ∈ map.entries := by
  -- the look-up stops at the first entry of the key, and that entry is the member
  obtain ⟨entries, _⟩ := map
  simp only [get?] at h ⊢
  induction entries with
  | nil => cases h
  | cons entry rest ih =>
    rw [lookup_cons_eq] at h
    split at h
    · rename_i heq
      rw [heq, ← Option.some.inj h]
      exact List.mem_cons_self
    · exact List.mem_cons_of_mem _ (ih (by simp_all) h)

omit [DecidableEq κ] in
/-- Maps with the same entries in the same order are the same. -/
theorem ext_entries {m n : OrderedMap κ ν} (h : m.entries = n.entries) : m = n := by
  obtain ⟨_, _⟩ := m
  obtain ⟨_, _⟩ := n
  cases h
  rfl

/-- The entries are read off the keys and the values under them. -/
theorem map_some_entries (map : OrderedMap κ ν) :
    map.entries.map some = map.keys.map fun key => (map.get? key).map (Prod.mk key) := by
  rw [keys, List.map_map]
  refine List.map_congr_left fun entry hmem => ?_
  simp [get?_of_mem hmem]

/-- Maps with the same keys in the same order and the same values under them are the same. -/
theorem ext_get? {m n : OrderedMap κ ν} (hkeys : m.keys = n.keys)
    (hget : ∀ key, m.get? key = n.get? key) : m = n := by
  apply ext_entries
  -- both lists of entries are read off the same keys by the same look-up
  have h : m.entries.map some = n.entries.map some := by
    simp only [map_some_entries, hkeys, hget]
  exact (List.map_inj_right fun _ _ => Option.some.inj).1 h

theorem get?_eq_none_iff {map : OrderedMap κ ν} {key : κ} :
    map.get? key = none ↔ key ∉ map.keys := by
  rw [mem_keys_iff, Bool.not_eq_true, Option.isSome_eq_false_iff, Option.isNone_iff_eq_none]

/-- Only the last of two values put under one key counts. -/
theorem put_put (map : OrderedMap κ ν) (key : κ) (v w : ν) :
    (map.put key v).put key w = map.put key w := by
  apply ext_get?
  · simp only [keys_put]
    split <;> simp_all
  · intro k
    simp only [get?_put]
    split <;> rfl

/-- Putting the value that is there changes nothing. -/
theorem put_of_get? {map : OrderedMap κ ν} {key : κ} {value : ν} (h : map.get? key = some value) :
    map.put key value = map := by
  have hmem : key ∈ map.keys := by
    rw [mem_keys_iff, h]
    rfl
  apply ext_get?
  · rw [keys_put, if_pos hmem]
  · intro k
    rw [get?_put]
    by_cases heq : k = key
    · rw [if_pos heq, heq, h]
    · rw [if_neg heq]

theorem erase_of_not_mem {map : OrderedMap κ ν} {key : κ} (h : key ∉ map.keys) :
    map.erase key = map := by
  apply ext_get?
  · rw [keys_erase, List.filter_eq_self]
    intro k hk
    have hne : k ≠ key := fun heq => h (heq ▸ hk)
    simpa using hne
  · intro k
    rw [get?_erase]
    split
    · rename_i heq
      rw [heq, get?_eq_none_iff.2 h]
    · rfl

theorem putEntry_of_not_mem {key : κ} {value : ν} {entries : List (κ × ν)}
    (h : key ∉ entries.map Prod.fst) : putEntry key value entries = entries ++ [(key, value)] := by
  induction entries with
  | nil => rfl
  | cons entry rest ih =>
    rw [List.map_cons, List.mem_cons, not_or] at h
    rw [putEntry, if_neg fun heq => h.1 heq.symm, ih h.2, List.cons_append]

/-- Putting new keys one after the other appends their entries. -/
theorem entries_foldl_put (map : OrderedMap κ ν) (entries : List (κ × ν))
    (h : ((map.entries ++ entries).map Prod.fst).Nodup) :
    (entries.foldl (fun map entry => map.put entry.1 entry.2) map).entries
      = map.entries ++ entries := by
  induction entries generalizing map with
  | nil => simp
  | cons entry rest ih =>
    have hnew : entry.1 ∉ map.entries.map Prod.fst := by
      intro hmem
      rw [List.map_append, List.nodup_append] at h
      exact h.2.2 entry.1 hmem entry.1 (by simp) rfl
    -- the first entry goes to the end, and the keys of the rest are still new
    have hput : (map.put entry.1 entry.2).entries = map.entries ++ [entry] :=
      putEntry_of_not_mem hnew
    rw [List.foldl_cons, ih, hput, List.append_assoc]
    · rfl
    · rw [hput, List.append_assoc]
      exact h

/-- Putting the entries of a map again, in their order, makes the same map. -/
@[simp] theorem ofList_entries (map : OrderedMap κ ν) : ofList map.entries = map :=
  ext_entries (entries_foldl_put empty map.entries map.distinct)

end OrderedMap

end ReadPlan
