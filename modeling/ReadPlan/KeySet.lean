import ReadPlan.Bytes

/-!
# ReadPlan.KeySet — finite sets of byte strings

A set of families or of qualifiers is its list of members in strictly ascending order. The order
is part of the type, so two sets with the same members are the same set, and listing a set never
depends on how it was filled.
-/

namespace ReadPlan

/-- A finite set of byte strings, held in strictly ascending order. -/
structure KeySet where
  toList : List Bytes
  ascending : toList.Pairwise (· < ·) := by exact .nil
deriving DecidableEq, Repr

namespace KeySet

/-! ## Insertion into an ascending list -/

/-- Puts a key at its place in an ascending list, once. -/
def place (key : Bytes) : List Bytes → List Bytes
  | [] => [key]
  | head :: rest =>
    if key < head then key :: head :: rest
    else if key = head then head :: rest
    else head :: place key rest

theorem mem_place {key k : Bytes} {keys : List Bytes} :
    k ∈ place key keys ↔ k = key ∨ k ∈ keys := by
  induction keys with
  | nil => simp [place]
  | cons head rest ih =>
    unfold place
    split
    · simp
    · split
      · rename_i _ heq
        simp [heq]
      · simp only [List.mem_cons, ih]
        constructor
        · rintro (h | h | h) <;> simp [h]
        · rintro (h | h | h) <;> simp [h]

theorem pairwise_place (key : Bytes) {keys : List Bytes} (h : keys.Pairwise (· < ·)) :
    (place key keys).Pairwise (· < ·) := by
  induction keys with
  | nil => simp [place]
  | cons head rest ih =>
    rw [List.pairwise_cons] at h
    unfold place
    split
    · rename_i hlt
      refine List.pairwise_cons.2 ⟨fun k hk => ?_, List.pairwise_cons.2 h⟩
      rcases List.mem_cons.1 hk with rfl | hk
      · exact hlt
      · exact List.lt_trans hlt (h.1 k hk)
    · split
      · exact List.pairwise_cons.2 h
      · rename_i hlt hne
        refine List.pairwise_cons.2 ⟨fun k hk => ?_, ih h.2⟩
        rcases mem_place.1 hk with rfl | hk
        · exact Bytes.lt_of_not_lt_of_ne hlt hne
        · exact h.1 k hk

/-! ## Operations -/

/-- The set without members. -/
def empty : KeySet where
  toList := []

instance : EmptyCollection KeySet := ⟨empty⟩

instance : Inhabited KeySet := ⟨empty⟩

instance : Membership Bytes KeySet := ⟨fun set key => key ∈ set.toList⟩

instance (key : Bytes) (set : KeySet) : Decidable (key ∈ set) :=
  inferInstanceAs (Decidable (key ∈ set.toList))

/-- Adds a key; a member already there stays as it is. -/
def insert (set : KeySet) (key : Bytes) : KeySet where
  toList := place key set.toList
  ascending := pairwise_place key set.ascending

/-- The set of the keys of a list, whatever their order and repetitions. -/
def ofList : List Bytes → KeySet
  | [] => empty
  | key :: rest => (ofList rest).insert key

def isEmpty (set : KeySet) : Bool :=
  set.toList.isEmpty

def size (set : KeySet) : Nat :=
  set.toList.length

/-! ## Membership -/

@[simp] theorem mem_toList {set : KeySet} {key : Bytes} : key ∈ set.toList ↔ key ∈ set :=
  Iff.rfl

@[simp] theorem not_mem_empty (key : Bytes) : ¬ key ∈ empty :=
  List.not_mem_nil

@[simp] theorem mem_insert {set : KeySet} {key k : Bytes} :
    k ∈ set.insert key ↔ k = key ∨ k ∈ set :=
  mem_place

@[simp] theorem mem_ofList {keys : List Bytes} {k : Bytes} : k ∈ ofList keys ↔ k ∈ keys := by
  induction keys with
  | nil => simp [ofList]
  | cons key rest ih => simp [ofList, ih]

@[simp] theorem isEmpty_empty : isEmpty empty = true :=
  rfl

theorem isEmpty_iff {set : KeySet} : set.isEmpty = true ↔ set = empty := by
  obtain ⟨keys, h⟩ := set
  cases keys <;> simp [isEmpty, empty]

end KeySet

end ReadPlan
