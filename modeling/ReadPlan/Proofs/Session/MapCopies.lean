import ReadPlan.Proofs.Pool.Copies
import ReadPlan.Proofs.Session.Sound

/-!
# ReadPlan.Proofs.Session.MapCopies — the copy of a family map

A copy of a map has the families of the map in their order, a whole family in place of each empty set,
and sets of its own (`Session.copyMap_normal_and_deep`). This holds of every map whose sets are there,
even of one with a set under several families, and for every order in which the sets are gone through;
a session that copies a map does the same.
-/

namespace ReadPlan

namespace Session

/-- Every map that is named in a session is there with its sets. -/
theorem Sound.hasWhole {session : Session} (hsound : session.Sound) {name : String} {id : MapId}
    (hname : session.mapOf? name = some id) : session.pool.HasWhole id :=
  hsound.pool.hasWhole (hsound.hasMap hname)

/-- In a session the copy is made entry by entry, in any order. -/
theorem step?_copyMap {session : Session} {name : String} {source : MapId}
    (hmap : session.map? name = some source) (hsource : session.pool.HasWhole source)
    (enumerator : Enumerator) (copyName : String) :
    session.step? (.make copyName (.copyMap name)) =
      some ({ session with pool := (session.pool.copyMap source enumerator).2 }.bind copyName
        (.familyMap (session.pool.copyMap source enumerator).1), .ok .created) := by
  rw [Pool.copyMap_eq hsource, step?_eq]
  simp only [effect?, construct?, hmap, Option.bind_eq_bind, Option.bind_some]
  rfl

/-- **The copy of a family map is normal and deep.** Made entry by entry, with each set in any order, it
has the families of the map in their order: as a whole where the map has all columns or an empty set,
else with an equal set. So it has no empty set, and a copy of it, in any order again, is equal to it.
The copy and its sets are new, no set stands in it twice, and the map is what it was. A session that
copies a map under a name makes just this copy. -/
theorem copyMap_normal_and_deep {pool : Pool} {source : MapId} (hsource : pool.HasWhole source)
    (enumerator : Enumerator) :
    ∃ copy later, pool.copyMap source enumerator = (copy, later) ∧
      (pool.contents source).Normalizes (later.contents copy) ∧
      (∀ family, (later.contents copy).get? family ≠ some (.only ∅)) ∧
      pool.DeepCopy source later copy ∧
      (∀ again : Enumerator, ∃ twice last, later.copyMap copy again = (twice, last) ∧
        last.contents twice = later.contents copy ∧ later.DeepCopy copy last twice) ∧
      ∀ (session : Session) (name copyName : String), session.pool = pool →
        session.map? name = some source →
          session.step? (.make copyName (.copyMap name)) =
            some ({ session with pool := later }.bind copyName (.familyMap copy), .ok .created) := by
  obtain ⟨copy, later, hcopy⟩ : ∃ copy later, pool.copyMap source enumerator = (copy, later) :=
    ⟨_, _, rfl⟩
  obtain ⟨hcontents, hdeep, hwhole⟩ := Pool.made_by_copyMap hsource hcopy
  have hnormal : (pool.contents source).Normalizes (later.contents copy) := by
    rw [hcontents]
    exact Selection.normalizes_rebuild _
  refine ⟨copy, later, hcopy, hnormal, hnormal.get?_ne_empty, hdeep, ?_, ?_⟩
  · intro again
    obtain ⟨twice, last, hagain⟩ : ∃ twice last, later.copyMap copy again = (twice, last) :=
      ⟨_, _, rfl⟩
    obtain ⟨hcontents', hdeep', -⟩ := Pool.made_by_copyMap hwhole hagain
    refine ⟨twice, last, hagain, ?_, hdeep'⟩
    rw [hcontents', hcontents, Selection.rebuild_rebuild]
  · intro session name copyName hpool hmap
    subst hpool
    have hstep := step?_copyMap hmap hsource enumerator copyName
    rw [hcopy] at hstep
    exact hstep

/-- A map with two columns of one family, none of another and all of a third; its sets are gone through
backwards. -/
theorem copyMap_normal_and_deep_backwards :
    let session := after [.make "map" (.familyMap (.ofEntries
      [([0x68], some [[0x61], [0x62]]), ([0x67], some []), ([0x66], none)]))]
    session.map? "map" = some ⟨0⟩ ∧ session.pool.HasWhole ⟨0⟩ ∧
      Enumerator.descending.order [0x68] (.ofList [[0x61], [0x62]]) = [[0x62], [0x61]] ∧
      ∃ copy later, session.pool.copyMap ⟨0⟩ .descending = (copy, later) ∧
        later.contents copy =
          .ofEntries [([0x68], some [[0x61], [0x62]]), ([0x67], none), ([0x66], none)] ∧
        session.pool.DeepCopy ⟨0⟩ later copy ∧
        session.step? (.make "copy" (.copyMap "map")) =
          some ({ session with pool := later }.bind "copy" (.familyMap copy), .ok .created) := by
  intro session
  have hmap : session.map? "map" = some ⟨0⟩ := rfl
  have hwhole : session.pool.HasWhole ⟨0⟩ :=
    (reachable_after _).sound.hasWhole (mapOf?_of_map? hmap)
  obtain ⟨copy, later, hcopy, -, -, hdeep, -, hstep⟩ := copyMap_normal_and_deep hwhole .descending
  have hcontents : later.contents copy =
      .ofEntries [([0x68], some [[0x61], [0x62]]), ([0x67], none), ([0x66], none)] := by
    have hlater : (session.pool.copyMap ⟨0⟩ .descending).2 = later := congrArg Prod.snd hcopy
    have hnew : (session.pool.copyMap ⟨0⟩ .descending).1 = copy := congrArg Prod.fst hcopy
    rw [← hlater, ← hnew]
    simp only [session]
    decide +kernel
  exact ⟨hmap, hwhole, rfl, copy, later, hcopy, hcontents, hdeep,
    hstep session "map" "copy" rfl hmap⟩

end Session

end ReadPlan
