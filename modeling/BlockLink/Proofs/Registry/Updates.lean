import BlockLink.Proofs.Registry

/-!
# `BlockLink/Proofs/Registry/Updates.lean` — the registry through any run of updates

Four updates change a registry: a script is given an id, an id or the id of a script is released, or
all are. After any of them a binding was there before or is the one that was just assigned
(`Valid.resolve_update_cases`), and as long as a fresh id is no overflow each of them changes the
two tables of the registry alike (`Valid.exact_update`). From these a run of updates inherits that
ids are counted, that the tables stay inverse, and that what was released stays so until it is
assigned again.

Ids can climb although few scripts hold one, so the bound is on the updates made and not on the size
of the registry.
-/

set_option autoImplicit false

namespace BlockLink.Registry

/-- A change of a registry. -/
inductive Update (Origin : Type) where
  | assign (o : Origin)
  | free (id : UnitId)
  | freeOrigin (o : Origin)
  | clear

variable {Origin : Type} [DecidableEq Origin]

/-- The registry after an update. -/
def update (r : Registry Origin) : Update Origin → Registry Origin
  | .assign o => (r.assign o).2
  | .free id => (r.free id).2
  | .freeOrigin o => (r.freeOrigin o).2
  | .clear => r.clear

/-- The registry after updates in order. -/
def after (r : Registry Origin) (us : List (Update Origin)) : Registry Origin :=
  us.foldl update r

/-- The ids that updates in order assign, the ones that were held already included. -/
def assigned (r : Registry Origin) : List (Update Origin) → List UnitId
  | [] => []
  | .assign o :: us => (r.assign o).1 :: (r.assign o).2.assigned us
  | u :: us => (r.update u).assigned us

/-- The update releases an id: it says so, or names the script that holds it, or releases all. -/
def Update.FreesId (r : Registry Origin) (id : UnitId) : Update Origin → Prop
  | .assign _ => False
  | .free id' => id' = id
  | .freeOrigin o => r.idOf o = some id
  | .clear => True

/-- The update releases a script: it says so, or names the id that the script holds, or releases
all. -/
def Update.FreesOrigin (r : Registry Origin) (o : Origin) : Update Origin → Prop
  | .assign _ => False
  | .free id => r.resolve id = some o
  | .freeOrigin o' => o' = o
  | .clear => True

/-! ## One update -/

section Step

variable {r : Registry Origin}

theorem free_of_some {id : UnitId} {o : Origin} (hid : r.resolve id = some o) :
    r.free id = (some o, ⟨r.bindings.erase id, r.ids.erase o⟩) := by
  unfold resolve at hid
  simp only [free, SortedMap.take_eq, hid]

theorem free_of_none {id : UnitId} (hid : r.resolve id = none) : r.free id = (none, r) := by
  unfold resolve at hid
  simp only [free, SortedMap.take_eq, hid]

/-- Releasing an id takes out its binding and no other, whether it is held or not. -/
theorem Valid.resolve_free (h : r.Valid) {id j : UnitId} {o : Origin} :
    (r.free id).2.resolve j = some o ↔ j ≠ id ∧ r.resolve j = some o := by
  cases hid : r.resolve id with
  | some o' =>
    rw [free_of_some hid]
    exact SortedMap.get?_erase_eq_some_iff h.sorted
  | none =>
    rw [free_of_none hid]
    refine ⟨fun hj => ⟨?_, hj⟩, fun hj => hj.2⟩
    rintro rfl
    exact absurd (hid.symm.trans hj) (by simp)

/-- The script that is released is the one under the id. -/
theorem idOf_free (id : UnitId) (o : Origin) :
    (r.free id).2.idOf o = if r.resolve id = some o then none else r.idOf o := by
  cases hid : r.resolve id with
  | some o' =>
    rw [free_of_some hid, idOf, Table.get?_erase]
    by_cases ho : o = o'
    · rw [if_pos ho, if_pos (congrArg some ho.symm)]
    · rw [if_neg ho, if_neg fun hs => ho (Option.some.inj hs).symm]
      rfl
  | none => rw [free_of_none hid, if_neg (by simp)]

/-- Releasing an id keeps the first invariant. -/
theorem Valid.free (h : r.Valid) (id : UnitId) : (r.free id).2.Valid := by
  refine ⟨?_, fun j o hj => ?_⟩
  · cases hid : r.resolve id with
    | some o =>
      rw [free_of_some hid]
      exact h.sorted.erase id
    | none =>
      rw [free_of_none hid]
      exact h.sorted
  · obtain ⟨hne, hold⟩ := h.resolve_free.mp hj
    rw [idOf_free, if_neg fun hid => hne (h.unique j id o hold hid)]
    exact h.held j o hold

theorem Valid.exact_free (h : r.Valid) (he : r.Exact) (id : UnitId) : (r.free id).2.Exact := by
  intro o j hj
  rw [idOf_free] at hj
  by_cases hid : r.resolve id = some o
  · rw [if_pos hid] at hj
    cases hj
  · rw [if_neg hid] at hj
    refine h.resolve_free.mpr ⟨?_, he o j hj⟩
    rintro rfl
    exact hid (he o j hj)

theorem Valid.update (h : r.Valid) (u : Update Origin) : (r.update u).Valid := by
  cases u with
  | assign o => exact h.assign o
  | free id => exact h.free id
  | freeOrigin o => exact h.freeOrigin o
  | clear => exact valid_empty

/-- A binding after an update was there before, or is the one that was assigned. -/
theorem Valid.resolve_update_cases (h : r.Valid) {u : Update Origin} {id : UnitId} {o : Origin}
    (hid : (r.update u).resolve id = some o) :
    r.resolve id = some o ∨ (u = .assign o ∧ id = (r.assign o).1) := by
  cases u with
  | assign o' =>
    rcases h.resolve_assign_cases hid with hold | ⟨-, hnew, rfl⟩
    · exact Or.inl hold
    · exact Or.inr ⟨rfl, hnew⟩
  | free id' => exact Or.inl (h.resolve_free.mp hid).2
  | freeOrigin o' => exact Or.inl (h.of_resolve_freeOrigin hid).1
  | clear => cases hid

/-- While ids are counted, an update keeps the two tables inverse. -/
theorem Valid.exact_update (h : r.Valid) (he : r.Exact) {n : Nat} (hb : r.Below n)
    (hn : n < UInt32.size) (u : Update Origin) : (r.update u).Exact := by
  cases u with
  | assign o => exact h.exact_assign he hb hn o
  | free id => exact h.exact_free he id
  | freeOrigin o => exact h.exact_freeOrigin he o
  | clear => exact exact_empty

theorem Valid.below_update (h : r.Valid) {n : Nat} (hb : r.Below n) (hn : n < UInt32.size)
    (u : Update Origin) : (r.update u).Below (n + 1) := by
  intro id o hid
  rcases h.resolve_update_cases hid with hold | ⟨rfl, -⟩
  · exact Nat.lt_succ_of_lt (hb id o hold)
  · exact h.below_assign hb hn o id o hid

theorem Valid.resolve_of_freesId (h : r.Valid) {u : Update Origin} {id : UnitId}
    (hu : u.FreesId r id) : (r.update u).resolve id = none := by
  rw [Option.eq_none_iff_forall_ne_some]
  intro o hid
  cases u with
  | assign o' => exact hu
  | free id' => exact (h.resolve_free.mp hid).1 hu.symm
  | freeOrigin o' => exact (h.resolve_freeOrigin_iff.mp hid).2 hu
  | clear => cases hid

theorem idOf_of_freesOrigin {u : Update Origin} {o : Origin} (hu : u.FreesOrigin r o) :
    (r.update u).idOf o = none := by
  cases u with
  | assign o' => exact absurd hu id
  | free id =>
    have hid : r.resolve id = some o := hu
    rw [update, idOf_free, if_pos hid]
  | freeOrigin o' =>
    have ho : o' = o := hu
    rw [update, idOf_freeOrigin, if_pos ho.symm]
  | clear => rfl

/-- An update binds a script only by assigning it an id. -/
theorem idOf_update_of_none {u : Update Origin} {o : Origin} (ho : r.idOf o = none)
    (hu : u ≠ .assign o) : (r.update u).idOf o = none := by
  cases u with
  | assign o' =>
    have hne : o ≠ o' := fun h => hu (congrArg Update.assign h.symm)
    cases ho' : r.idOf o' with
    | some id =>
      rw [update, assign_of_some ho']
      exact ho
    | none => rw [update, idOf_assign_of_none ho', if_neg hne, ho]
  | free id => rw [update, idOf_free, ho, ite_self]
  | freeOrigin o' => rw [update, idOf_freeOrigin, ho, ite_self]
  | clear => rfl

end Step

/-! ## A run of updates -/

section Run

variable {r : Registry Origin}

theorem after_append (r : Registry Origin) (us us' : List (Update Origin)) :
    r.after (us ++ us') = (r.after us).after us' :=
  List.foldl_append

theorem Valid.after (h : r.Valid) (us : List (Update Origin)) : (r.after us).Valid := by
  induction us generalizing r with
  | nil => exact h
  | cons u us ih => exact ih (h.update u)

/-- Every update can raise the largest id by one. -/
theorem Valid.below_after (h : r.Valid) {n : Nat} (hb : r.Below n) (us : List (Update Origin))
    (hn : n + us.length ≤ UInt32.size) : (r.after us).Below (n + us.length) := by
  induction us generalizing r n with
  | nil => exact hb
  | cons u us ih =>
    rw [List.length_cons] at hn ⊢
    have hlater := ih (h.update u) (h.below_update hb (by omega) u) (by omega)
    rwa [Nat.add_right_comm, Nat.add_assoc] at hlater

/-- As long as there are ids for all updates, the tables stay inverse. -/
theorem Valid.exact_after (h : r.Valid) (he : r.Exact) {n : Nat} (hb : r.Below n)
    (us : List (Update Origin)) (hn : n + us.length ≤ UInt32.size) : (r.after us).Exact := by
  induction us generalizing r n with
  | nil => exact he
  | cons u us ih =>
    rw [List.length_cons] at hn
    have hlt : n < UInt32.size := by omega
    exact ih (h.update u) (h.exact_update he hb hlt u) (h.below_update hb hlt u) (by omega)

theorem mem_assigned_cons {u : Update Origin} {us : List (Update Origin)} {id : UnitId}
    (hid : id ∈ (r.update u).assigned us) : id ∈ r.assigned (u :: us) := by
  cases u with
  | assign o => exact List.mem_cons_of_mem _ hid
  | free _ | freeOrigin _ | clear => exact hid

/-- A binding after a run of updates was there before, or its script was assigned and its id too. -/
theorem Valid.resolve_after_cases (h : r.Valid) {us : List (Update Origin)}
    {id : UnitId} {o : Origin} (hid : (r.after us).resolve id = some o) :
    r.resolve id = some o ∨ (.assign o ∈ us ∧ id ∈ r.assigned us) := by
  induction us generalizing r with
  | nil => exact Or.inl hid
  | cons u us ih =>
    rcases ih (h.update u) hid with hmid | ⟨ho, hassigned⟩
    · rcases h.resolve_update_cases hmid with hold | ⟨rfl, rfl⟩
      · exact Or.inl hold
      · exact Or.inr ⟨List.mem_cons_self, List.mem_cons_self⟩
    · exact Or.inr ⟨List.mem_cons_of_mem u ho, mem_assigned_cons hassigned⟩

theorem Valid.resolve_after_eq_none (h : r.Valid) {us : List (Update Origin)} {id : UnitId}
    (hid : r.resolve id = none) (hus : id ∉ r.assigned us) : (r.after us).resolve id = none := by
  rw [Option.eq_none_iff_forall_ne_some]
  intro o hlater
  rcases h.resolve_after_cases hlater with hold | ⟨-, hmem⟩
  · exact absurd (hid.symm.trans hold) (by simp)
  · exact hus hmem

/-- A script without an id stays without one until it is assigned one. -/
theorem idOf_after_eq_none {us : List (Update Origin)} {o : Origin} (ho : r.idOf o = none)
    (hus : .assign o ∉ us) : (r.after us).idOf o = none := by
  induction us generalizing r with
  | nil => exact ho
  | cons u us ih =>
    rw [List.mem_cons, not_or] at hus
    exact ih (idOf_update_of_none ho (Ne.symm hus.1)) hus.2

end Run

/-! ## Assigning and releasing at once -/

/-- A script that is assigned an id and released leaves no trace, in either table. -/
theorem Valid.freeOrigin_assign {r : Registry Origin} (h : r.Valid) {n : Nat} (hb : r.Below n)
    (hn : n < UInt32.size) {o : Origin} (ho : r.idOf o = none) :
    (r.assign o).2.freeOrigin o = (some (r.assign o).1, r) := by
  have hbindings : (r.bindings.insert r.freshId o).erase r.freshId = r.bindings :=
    SortedMap.erase_insert h.sorted (h.resolve_freshId hb hn) o
  have hids : (r.ids.insert o r.freshId).erase o = r.ids := Table.erase_insert ho r.freshId
  rw [freeOrigin_of_some (r.idOf_assign_self o), assign_of_none ho]
  simp only [hbindings, hids]

/-- After every run of fewer updates than there are ids, the table of ids and the table of scripts
are inverse. A script that holds an id keeps it when it is assigned one; any other gets an id that
is free and above all that are held, the successor of the largest without overflow, and releasing it
at once restores both tables. What an update of the run released, id or script, is held by nobody at
the end unless it was assigned again. -/
theorem updates_keep_one_to_one (us : List (Update Origin)) (hus : us.length < UInt32.size) :
    let r := (empty : Registry Origin).after us
    (∀ o id, r.ids.get? o = some id ↔ r.bindings.get? id = some o)
      ∧ (∀ o id, r.idOf o = some id → r.assign o = (id, r))
      ∧ (∀ o, r.idOf o = none →
          r.resolve (r.assign o).1 = none
            ∧ (∀ o', r.idOf o' ≠ some (r.assign o).1)
            ∧ (∀ id o', r.resolve id = some o' → id < (r.assign o).1)
            ∧ (∀ last, r.bindings.lastKey? = some last → (r.assign o).1.toNat = last.toNat + 1)
            ∧ (r.assign o).2.resolve (r.assign o).1 = some o
            ∧ (r.assign o).2.idOf o = some (r.assign o).1
            ∧ (r.assign o).2.freeOrigin o = (some (r.assign o).1, r))
      ∧ ∀ before u later, us = before ++ u :: later →
          let s := (empty : Registry Origin).after before
          (∀ id, u.FreesId s id → id ∉ (s.update u).assigned later → r.resolve id = none)
            ∧ ∀ o, u.FreesOrigin s o → .assign o ∉ later → r.idOf o = none := by
  intro r
  have hr : r.Valid := valid_empty.after us
  have hexact : r.Exact := valid_empty.exact_after exact_empty below_empty us (by omega)
  have hbelow : r.Below us.length := by
    have hcount := valid_empty.below_after below_empty us (by omega)
    rwa [Nat.zero_add] at hcount
  refine ⟨fun o id => hr.idOf_eq_some_iff hexact, fun o id => assign_of_some, fun o ho => ?_, ?_⟩
  -- A script without an id: everything about the fresh one.
  · have hfresh : (r.assign o).1 = r.freshId := by rw [assign_of_none ho]
    have hfree : r.resolve (r.assign o).1 = none := by
      rw [hfresh]
      exact hr.resolve_freshId hbelow hus
    refine ⟨hfree, fun o' hid => ?_, fun id o' hid => ?_, fun last hlast => ?_,
      hr.resolve_assign_self hexact o, r.idOf_assign_self o, hr.freeOrigin_assign hbelow hus ho⟩
    · exact absurd (hfree.symm.trans (hexact o' _ hid)) (by simp)
    · rw [hfresh, UInt32.lt_iff_toNat_lt]
      exact (hr.lt_freshId hbelow hus).2 id o' hid
    · rw [hfresh]
      exact hr.toNat_freshId hbelow hus hlast
  · intro before u later hsplit s
    -- What an update in the middle of the run released, through the rest of the run.
    have hs : s.Valid := valid_empty.after before
    have hend : r = (s.update u).after later := by
      simp only [r, hsplit, after_append]
      rfl
    rw [hend]
    exact ⟨fun id hu => (hs.update u).resolve_after_eq_none (hs.resolve_of_freesId hu),
      fun o hu => idOf_after_eq_none (idOf_of_freesOrigin hu)⟩

/-- The second of three ids is released, and a fourth script gets a new one above them; then the two
largest are released, and the released one is the next to be assigned. -/
theorem updates_keep_one_to_one_seven :
    let before : List (Update Nat) := [.assign 7, .assign 9, .assign 5]
    let later : List (Update Nat) := [.assign 8, .freeOrigin 5, .freeOrigin 8]
    let us := before ++ .free 1 :: later
    let r := (empty : Registry Nat).after us
    us.length < UInt32.size
      ∧ r.ids.get? 7 = some 0 ∧ r.bindings.get? 0 = some 7
      ∧ r.resolve 1 = none ∧ r.idOf 9 = none
      ∧ r.idOf 4 = none ∧ (r.assign 4).1 = 1 ∧ (∀ id o, r.resolve id = some o → id < 1)
      ∧ (r.assign 4).2.freeOrigin 4 = (some 1, r) := by
  intro before later us r
  have hus : us.length < UInt32.size := by decide
  have hseven : r.bindings.get? 0 = some 7 := by decide
  obtain ⟨hinverse, -, hfresh, hfreed⟩ := updates_keep_one_to_one us hus
  obtain ⟨hid, horigin⟩ := hfreed before (.free 1) later rfl
  obtain ⟨-, -, hbelow, -, -, -, hrestored⟩ := hfresh 4 (by decide)
  exact ⟨hus, (hinverse 7 0).mpr hseven, hseven, hid 1 rfl (by decide),
    horigin 9 rfl (by simp [later]), by decide, by decide, hbelow, hrestored⟩

end BlockLink.Registry
