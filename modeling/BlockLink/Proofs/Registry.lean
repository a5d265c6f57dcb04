import BlockLink.Session.Compile
import BlockLink.Proofs.SortedMap

/-!
# `BlockLink/Proofs/Registry.lean` — ids and scripts are tied one to one

The registry keeps a table for each direction, and every operation finds its entry in one of them.
Two invariants tie the tables together, and they are not equally cheap. `Valid` says that the script
under an id has that id in the other table: every operation keeps it, whatever the ids. `Exact` is
the way back, that the id of a script resolves to the script. It needs ids that have not wrapped,
because ids are words and one more than the largest word is zero: a fresh id that is held already
takes the place of another script in the first table, and leaves that script's entry in the second.
While the ids given out are counted (`Below`) this cannot happen, and the two tables are inverse.
-/

set_option autoImplicit false

namespace BlockLink.Registry

variable {Origin : Type}

@[simp]
theorem clear_eq (r : Registry Origin) : r.clear = empty := rfl

theorem resolve_empty (id : UnitId) : (empty : Registry Origin).resolve id = none := rfl

/-- Every id that is held is below a number. -/
def Below (r : Registry Origin) (n : Nat) : Prop :=
  ∀ id o, r.resolve id = some o → id.toNat < n

theorem below_empty : (empty : Registry Origin).Below 0 := by
  intro id o hid
  cases hid

theorem Below.mono {r : Registry Origin} {m n : Nat} (h : r.Below m) (hmn : m ≤ n) : r.Below n :=
  fun id o hid => Nat.lt_of_lt_of_le (h id o hid) hmn

variable [DecidableEq Origin]

theorem idOf_empty (o : Origin) : (empty : Registry Origin).idOf o = none := rfl

/-- Ids ascend in their table, and the script under an id holds that id. -/
structure Valid (r : Registry Origin) : Prop where
  sorted : r.bindings.Sorted
  held : ∀ id o, r.resolve id = some o → r.idOf o = some id

/-- The id that a script holds is its own. -/
def Exact (r : Registry Origin) : Prop :=
  ∀ o id, r.idOf o = some id → r.resolve id = some o

theorem valid_empty : (empty : Registry Origin).Valid where
  sorted := SortedMap.sorted_empty
  held := fun id _ h => absurd h (by simp [resolve_empty])

theorem exact_empty : (empty : Registry Origin).Exact :=
  fun o _ h => absurd h (by simp [idOf_empty])

/-- No script stands under two ids. -/
theorem Valid.unique {r : Registry Origin} (h : r.Valid) (i j : UnitId) (o : Origin)
    (hi : r.resolve i = some o) (hj : r.resolve j = some o) : i = j :=
  Option.some.inj ((h.held i o hi).symm.trans (h.held j o hj))

theorem Valid.mem_iff {r : Registry Origin} (h : r.Valid) {id : UnitId} {o : Origin} :
    (id, o) ∈ r.bindings.entries ↔ r.resolve id = some o :=
  (SortedMap.get?_eq_some_iff h.sorted).symm

/-- With both invariants the tables are inverse to each other. -/
theorem Valid.idOf_eq_some_iff {r : Registry Origin} (h : r.Valid) (he : r.Exact) {o : Origin}
    {id : UnitId} : r.idOf o = some id ↔ r.resolve id = some o :=
  ⟨he o id, h.held id o⟩

/-- A script without an id stands under none. -/
theorem Valid.resolve_ne_of_idOf {r : Registry Origin} (h : r.Valid) {o : Origin}
    (ho : r.idOf o = none) (id : UnitId) : r.resolve id ≠ some o :=
  fun hid => absurd (ho.symm.trans (h.held id o hid)) (by simp)

/-! ## Fresh ids -/

/-- The last key is the largest. -/
theorem Valid.le_last {r : Registry Origin} (h : r.Valid) {last : UnitId}
    (hlast : r.bindings.lastKey? = some last) {id : UnitId} {o : Origin}
    (hid : r.resolve id = some o) : id.toNat ≤ last.toNat := by
  have hmem : id ∈ r.bindings.keys := List.mem_map_of_mem (h.mem_iff.mpr hid)
  have hle := (h.sorted.lastKey?_eq_some_iff.mp hlast).2 id hmem
  rwa [Std.isLE_compare, UInt32.le_iff_toNat_le] at hle

theorem Valid.exists_resolve_last {r : Registry Origin} (h : r.Valid) {last : UnitId}
    (hlast : r.bindings.lastKey? = some last) : ∃ o, r.resolve last = some o := by
  obtain ⟨⟨id, o⟩, hmem, rfl⟩ := List.mem_map.mp (List.mem_of_getLast? hlast)
  exact ⟨o, h.mem_iff.mp hmem⟩

/-- While ids are counted, one more than the largest is no overflow. -/
theorem Valid.toNat_freshId {r : Registry Origin} (h : r.Valid) {n : Nat} (hb : r.Below n)
    (hn : n < UInt32.size) {last : UnitId} (hlast : r.bindings.lastKey? = some last) :
    r.freshId.toNat = last.toNat + 1 := by
  obtain ⟨o, ho⟩ := h.exists_resolve_last hlast
  have hlt : last.toNat < n := hb last o ho
  have hfresh : r.freshId = last + 1 := by simp only [freshId, hlast]
  have hsize : UInt32.size = 4294967296 := rfl
  rw [hfresh, UInt32.toNat_add, UInt32.toNat_one]
  exact Nat.mod_eq_of_lt (by omega)

/-- While ids are counted, a fresh one is above all that are held. -/
theorem Valid.lt_freshId {r : Registry Origin} (h : r.Valid) {n : Nat} (hb : r.Below n)
    (hn : n < UInt32.size) :
    r.freshId.toNat ≤ n ∧ ∀ id o, r.resolve id = some o → id.toNat < r.freshId.toNat := by
  cases hlast : r.bindings.lastKey? with
  | none =>
    have hnil : r.bindings.entries = [] := by
      simpa [SortedMap.lastKey?, SortedMap.keys] using hlast
    have hfresh : r.freshId = 0 := by simp only [freshId, hlast]
    rw [hfresh]
    refine ⟨Nat.zero_le n, fun id o hid => ?_⟩
    have hmem := h.mem_iff.mpr hid
    rw [hnil] at hmem
    exact absurd hmem List.not_mem_nil
  | some last =>
    have hsucc := h.toNat_freshId hb hn hlast
    obtain ⟨o, ho⟩ := h.exists_resolve_last hlast
    have hlt : last.toNat < n := hb last o ho
    refine ⟨by omega, fun id o' hid => ?_⟩
    have hle := h.le_last hlast hid
    omega

/-- While ids are counted, a fresh one is held by no script. -/
theorem Valid.resolve_freshId {r : Registry Origin} (h : r.Valid) {n : Nat} (hb : r.Below n)
    (hn : n < UInt32.size) : r.resolve r.freshId = none := by
  cases hf : r.resolve r.freshId with
  | none => rfl
  | some o => exact absurd ((h.lt_freshId hb hn).2 _ o hf) (Nat.lt_irrefl _)

/-! ## Assigning

Assigning answers with the id of the script and the registry afterwards. -/

theorem assign_of_some {r : Registry Origin} {o : Origin} {id : UnitId} (ho : r.idOf o = some id) :
    r.assign o = (id, r) := by
  unfold idOf at ho
  simp only [assign, ho]

theorem assign_of_none {r : Registry Origin} {o : Origin} (ho : r.idOf o = none) :
    r.assign o = (r.freshId, ⟨r.bindings.insert r.freshId o, r.ids.insert o r.freshId⟩) := by
  unfold idOf at ho
  simp only [assign, ho]

theorem Valid.resolve_assign_of_none {r : Registry Origin} (h : r.Valid) {o : Origin}
    (ho : r.idOf o = none) (j : UnitId) :
    (r.assign o).2.resolve j = if j = r.freshId then some o else r.resolve j := by
  rw [assign_of_none ho]
  exact SortedMap.get?_insert h.sorted _ _ _

theorem idOf_assign_of_none {r : Registry Origin} {o : Origin} (ho : r.idOf o = none)
    (o' : Origin) :
    (r.assign o).2.idOf o' = if o' = o then some r.freshId else r.idOf o' := by
  rw [assign_of_none ho]
  exact Table.get?_insert _ _ _ _

theorem idOf_assign_self (r : Registry Origin) (o : Origin) :
    (r.assign o).2.idOf o = some (r.assign o).1 := by
  cases ho : r.idOf o with
  | some id => rw [assign_of_some ho, ho]
  | none => rw [idOf_assign_of_none ho, if_pos rfl, assign_of_none ho]

theorem idOf_assign_of_some {r : Registry Origin} (o : Origin) {o' : Origin} {id : UnitId}
    (ho' : r.idOf o' = some id) : (r.assign o).2.idOf o' = some id := by
  cases ho : r.idOf o with
  | some id' => rw [assign_of_some ho, ho']
  | none =>
    have hne : o' ≠ o := by
      rintro rfl
      exact absurd (ho.symm.trans ho') (by simp)
    rw [idOf_assign_of_none ho, if_neg hne, ho']

/-- Assigning keeps the first invariant, even when the fresh id takes the place of another
script. -/
theorem Valid.assign {r : Registry Origin} (h : r.Valid) (o : Origin) : (r.assign o).2.Valid := by
  cases ho : r.idOf o with
  | some id =>
    rw [assign_of_some ho]
    exact h
  | none =>
    refine ⟨?_, fun j o' hj => ?_⟩
    · rw [assign_of_none ho]
      exact h.sorted.insert _ _
    · -- Only the new entry and those under other ids are left, and no other id has the script.
      rw [h.resolve_assign_of_none ho] at hj
      rw [idOf_assign_of_none ho]
      by_cases hjf : j = r.freshId
      · rw [if_pos hjf] at hj
        rw [if_pos (Option.some.inj hj).symm, hjf]
      · rw [if_neg hjf] at hj
        have hne : o' ≠ o := by
          rintro rfl
          exact h.resolve_ne_of_idOf ho j hj
        rw [if_neg hne]
        exact h.held j o' hj

/-- The script that is assigned an id stands under it. -/
theorem Valid.resolve_assign_self {r : Registry Origin} (h : r.Valid) (he : r.Exact) (o : Origin) :
    (r.assign o).2.resolve (r.assign o).1 = some o := by
  cases ho : r.idOf o with
  | some id =>
    rw [assign_of_some ho]
    exact he o id ho
  | none =>
    rw [h.resolve_assign_of_none ho, assign_of_none ho, if_pos rfl]

/-- A binding after assigning was there before, or is the one made. -/
theorem Valid.resolve_assign_cases {r : Registry Origin} (h : r.Valid) {o o' : Origin} {j : UnitId}
    (hj : (r.assign o).2.resolve j = some o') :
    r.resolve j = some o' ∨ (r.idOf o = none ∧ j = (r.assign o).1 ∧ o' = o) := by
  cases ho : r.idOf o with
  | some id =>
    rw [assign_of_some ho] at hj
    exact Or.inl hj
  | none =>
    rw [h.resolve_assign_of_none ho] at hj
    by_cases hjf : j = r.freshId
    · rw [if_pos hjf] at hj
      exact Or.inr ⟨rfl, by rw [assign_of_none ho]; exact hjf, (Option.some.inj hj).symm⟩
    · rw [if_neg hjf] at hj
      exact Or.inl hj

/-- While ids are counted, assigning keeps every binding. -/
theorem Valid.resolve_assign_of_some {r : Registry Origin} (h : r.Valid) {n : Nat} (hb : r.Below n)
    (hn : n < UInt32.size) (o : Origin) {o' : Origin} {j : UnitId} (hj : r.resolve j = some o') :
    (r.assign o).2.resolve j = some o' := by
  cases ho : r.idOf o with
  | some id =>
    rw [assign_of_some ho]
    exact hj
  | none =>
    have hne : j ≠ r.freshId := by
      rintro rfl
      exact absurd (hj.symm.trans (h.resolve_freshId hb hn)) (by simp)
    rw [h.resolve_assign_of_none ho, if_neg hne]
    exact hj

/-- While ids are counted, assigning keeps the tables inverse: the fresh id takes no one's place. -/
theorem Valid.exact_assign {r : Registry Origin} (h : r.Valid) (he : r.Exact) {n : Nat}
    (hb : r.Below n) (hn : n < UInt32.size) (o : Origin) : (r.assign o).2.Exact := by
  intro o' id hid
  cases ho : r.idOf o with
  | some id' =>
    rw [assign_of_some ho] at hid ⊢
    exact he o' id hid
  | none =>
    rw [idOf_assign_of_none ho] at hid
    by_cases hoo : o' = o
    · rw [if_pos hoo] at hid
      rw [h.resolve_assign_of_none ho, if_pos (Option.some.inj hid).symm, hoo]
    · rw [if_neg hoo] at hid
      exact h.resolve_assign_of_some hb hn o (he o' id hid)

theorem Valid.below_assign {r : Registry Origin} (h : r.Valid) {n : Nat} (hb : r.Below n)
    (hn : n < UInt32.size) (o : Origin) : (r.assign o).2.Below (n + 1) := by
  intro id o' hid
  rcases h.resolve_assign_cases hid with hold | ⟨ho, hfresh, -⟩
  · exact Nat.lt_succ_of_lt (hb id o' hold)
  · rw [assign_of_none ho] at hfresh
    rw [hfresh]
    exact Nat.lt_succ_of_le (h.lt_freshId hb hn).1

/-! ## Releasing

Releasing a script takes its id out of the one table and the script out of the other. Whose binding
that id is plays no part in the first of these, so beyond `Exact` another script can lose its
binding: that is why the two readings below differ in their direction. -/

theorem freeOrigin_of_some {r : Registry Origin} {o : Origin} {id : UnitId}
    (ho : r.idOf o = some id) :
    r.freeOrigin o = (some id, ⟨r.bindings.erase id, r.ids.erase o⟩) := by
  unfold idOf at ho
  simp only [freeOrigin, ho]

theorem freeOrigin_of_none {r : Registry Origin} {o : Origin} (ho : r.idOf o = none) :
    r.freeOrigin o = (none, r) := by
  unfold idOf at ho
  simp only [freeOrigin, ho]

/-- Whether the script had an id or not, it is in the table of scripts no longer. -/
theorem ids_freeOrigin (r : Registry Origin) (o : Origin) :
    (r.freeOrigin o).2.ids = r.ids.erase o := by
  cases ho : r.idOf o with
  | some id => rw [freeOrigin_of_some ho]
  | none => rw [freeOrigin_of_none ho, Table.erase_of_get?_eq_none ho]

theorem idOf_freeOrigin (r : Registry Origin) (o o' : Origin) :
    (r.freeOrigin o).2.idOf o' = if o' = o then none else r.idOf o' := by
  unfold idOf
  rw [ids_freeOrigin]
  exact Table.get?_erase _ _ _

/-- The binding that goes is the one under the id of the script. -/
theorem Valid.resolve_freeOrigin_iff {r : Registry Origin} (h : r.Valid) {o o' : Origin}
    {j : UnitId} :
    (r.freeOrigin o).2.resolve j = some o' ↔ r.resolve j = some o' ∧ r.idOf o ≠ some j := by
  cases ho : r.idOf o with
  | none =>
    rw [freeOrigin_of_none ho]
    exact ⟨fun hj => ⟨hj, by simp⟩, fun hj => hj.1⟩
  | some id =>
    have hres : (r.freeOrigin o).2.resolve j = if j = id then none else r.resolve j := by
      rw [freeOrigin_of_some ho]
      exact SortedMap.get?_erase h.sorted _ _
    rw [hres]
    by_cases hji : j = id
    · rw [if_pos hji, hji]
      exact ⟨fun hf => absurd hf (by simp), fun hf => absurd rfl hf.2⟩
    · rw [if_neg hji]
      exact ⟨fun hj => ⟨hj, fun hid => hji (Option.some.inj hid).symm⟩, fun hj => hj.1⟩

/-- What is bound after a release was bound before, and to another script. -/
theorem Valid.of_resolve_freeOrigin {r : Registry Origin} (h : r.Valid) {o o' : Origin} {j : UnitId}
    (hj : (r.freeOrigin o).2.resolve j = some o') : r.resolve j = some o' ∧ o' ≠ o := by
  obtain ⟨hold, hne⟩ := h.resolve_freeOrigin_iff.mp hj
  refine ⟨hold, ?_⟩
  rintro rfl
  exact hne (h.held j o' hold)

/-- While the tables are inverse, exactly the script's own binding goes. -/
theorem Valid.resolve_freeOrigin {r : Registry Origin} (h : r.Valid) (he : r.Exact) {o o' : Origin}
    {j : UnitId} :
    (r.freeOrigin o).2.resolve j = some o' ↔ r.resolve j = some o' ∧ o' ≠ o := by
  refine ⟨h.of_resolve_freeOrigin, fun hj => h.resolve_freeOrigin_iff.mpr ⟨hj.1, fun hid => ?_⟩⟩
  exact hj.2 (Option.some.inj (hj.1.symm.trans (he o j hid)))

/-- Releasing keeps the first invariant. -/
theorem Valid.freeOrigin {r : Registry Origin} (h : r.Valid) (o : Origin) :
    (r.freeOrigin o).2.Valid := by
  refine ⟨?_, fun j o' hj => ?_⟩
  · cases ho : r.idOf o with
    | some id =>
      rw [freeOrigin_of_some ho]
      exact h.sorted.erase _
    | none =>
      rw [freeOrigin_of_none ho]
      exact h.sorted
  · obtain ⟨hold, hne⟩ := h.of_resolve_freeOrigin hj
    rw [idOf_freeOrigin, if_neg hne]
    exact h.held j o' hold

theorem Valid.exact_freeOrigin {r : Registry Origin} (h : r.Valid) (he : r.Exact) (o : Origin) :
    (r.freeOrigin o).2.Exact := by
  intro o' id hid
  rw [idOf_freeOrigin] at hid
  by_cases hoo : o' = o
  · rw [if_pos hoo] at hid
    cases hid
  · rw [if_neg hoo] at hid
    exact (h.resolve_freeOrigin he).mpr ⟨he o' id hid, hoo⟩

/-! ## Releasing several scripts -/

theorem freeOrigins_cons (r : Registry Origin) (o : Origin) (origins : List Origin) :
    r.freeOrigins (o :: origins) = (r.freeOrigin o).2.freeOrigins origins := rfl

theorem Valid.freeOrigins {r : Registry Origin} (h : r.Valid) (origins : List Origin) :
    (r.freeOrigins origins).Valid := by
  induction origins generalizing r with
  | nil => exact h
  | cons o origins ih => exact ih (h.freeOrigin o)

/-- What is bound after several were released was bound before, and to none of them. -/
theorem Valid.of_resolve_freeOrigins {r : Registry Origin} (h : r.Valid) {origins : List Origin}
    {o : Origin} {j : UnitId} (hj : (r.freeOrigins origins).resolve j = some o) :
    r.resolve j = some o ∧ o ∉ origins := by
  induction origins generalizing r with
  | nil => exact ⟨hj, List.not_mem_nil⟩
  | cons o' origins ih =>
    obtain ⟨hmid, hnew⟩ := ih (h.freeOrigin o') hj
    obtain ⟨hold, hne⟩ := h.of_resolve_freeOrigin hmid
    exact ⟨hold, fun hmem => (List.mem_cons.mp hmem).elim hne hnew⟩

theorem Valid.resolve_freeOrigins {r : Registry Origin} (h : r.Valid) (he : r.Exact)
    {origins : List Origin} {o : Origin} {j : UnitId} :
    (r.freeOrigins origins).resolve j = some o ↔ r.resolve j = some o ∧ o ∉ origins := by
  induction origins generalizing r with
  | nil => exact ⟨fun hj => ⟨hj, List.not_mem_nil⟩, fun hj => hj.1⟩
  | cons o' origins ih =>
    rw [freeOrigins_cons, ih (h.freeOrigin o') (h.exact_freeOrigin he o'),
      h.resolve_freeOrigin he, List.mem_cons, not_or, and_assoc]

/-- The scripts that were released are in the table of scripts no longer, and all others as
before. -/
theorem ids_freeOrigins (r : Registry Origin) (origins : List Origin) :
    (r.freeOrigins origins).ids = origins.foldl Table.erase r.ids := by
  induction origins generalizing r with
  | nil => rfl
  | cons o origins ih => rw [freeOrigins_cons, ih, ids_freeOrigin, List.foldl_cons]

end BlockLink.Registry
