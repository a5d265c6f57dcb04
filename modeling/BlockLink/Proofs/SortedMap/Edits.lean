import Mathlib.Data.Set.Card
import BlockLink.Proofs.SortedMap

/-!
# `BlockLink/Proofs/SortedMap/Edits.lean` — edits of a map and of its look-up

What a finite map is does not need lists or orders: every key has a value or none. The five edits of
a `SortedMap` have plain counterparts on such functions, which is `Edit.apply`. A map *realises* a
function when its keys ascend and it is looked up as that function. One edit keeps that and gives
the same answer on both sides (`Realises.edit`), hence so does a run of edits.

The rest reads off a map what it realises: membership, size, the listing and the largest key are
those of the function, and the listing is the only ascending one.
-/

set_option autoImplicit false

namespace BlockLink.SortedMap

/-- A change of a map. -/
inductive Edit (K V : Type) where
  | insert (k : K) (v : V)
  /-- Changes the value under a key, if there is one. -/
  | modify (k : K) (f : V → V)
  /-- Changes every value, each by what its key asks for. -/
  | modifyEach (f : K → V → V)
  | remove (k : K)
  | clear

variable {K V : Type}

section Functions

variable [DecidableEq K]

/-- An edit of a map that is given as a function: the value that the edit found, and the map after
it. -/
def Edit.apply (a : K → Option V) : Edit K V → Option V × (K → Option V)
  | .insert k v => (a k, Function.update a k (some v))
  | .modify k f => (a k, Function.update a k ((a k).map f))
  | .modifyEach f => (none, fun k => (a k).map (f k))
  | .remove k => (a k, Function.update a k none)
  | .clear => (none, fun _ => none)

/-- Edits in order: the values they found, and the map at the end. -/
def Edit.applyAll (a : K → Option V) : List (Edit K V) → List (Option V) × (K → Option V)
  | [] => ([], a)
  | e :: es =>
    let found := Edit.apply a e
    let later := Edit.applyAll found.2 es
    (found.1 :: later.1, later.2)

end Functions

variable [Ord K]

/-- An edit of a map: the value that the edit found, and the map after it. -/
def edit (m : SortedMap K V) : Edit K V → Option V × SortedMap K V
  | .insert k v => m.exchange k v
  | .modify k f => (m.get? k, m.modify k f)
  | .modifyEach f => (none, m.modifyEach f)
  | .remove k => m.take k
  | .clear => (none, empty)

/-- Edits in order: the values they found, and the map at the end. -/
def editAll (m : SortedMap K V) : List (Edit K V) → List (Option V) × SortedMap K V
  | [] => ([], m)
  | e :: es =>
    let found := m.edit e
    let later := found.2.editAll es
    (found.1 :: later.1, later.2)

/-! ## Changing values in place -/

theorem Sorted.modifyEach {m : SortedMap K V} (hm : m.Sorted) (f : K → V → V) :
    (m.modifyEach f).Sorted := by
  refine ascending_of_keys (l := m.entries) ?_ hm
  rw [SortedMap.modifyEach, List.map_map]
  rfl

/-- Only the values change, so the search stops where it stopped before; that keys ascend plays no
part. -/
theorem lookup_map [Std.LawfulEqOrd K] (f : K → V → V) (k : K) (l : List (K × V)) :
    lookup k (l.map fun p => (p.1, f p.1 p.2)) = (lookup k l).map (f k) := by
  induction l with
  | nil => rfl
  | cons p rest ih =>
    rw [List.map_cons, lookup, lookup]
    cases hc : compare k p.1 with
    | lt => rfl
    | eq =>
      obtain rfl : k = p.1 := Std.compare_eq_iff_eq.mp hc
      rfl
    | gt => exact ih

variable [Std.TransOrd K] [Std.LawfulEqOrd K]

omit [Std.TransOrd K] in
theorem get?_modifyEach (m : SortedMap K V) (f : K → V → V) (k : K) :
    (m.modifyEach f).get? k = (m.get? k).map (f k) :=
  lookup_map f k m.entries

theorem Sorted.modify {m : SortedMap K V} (hm : m.Sorted) (k : K) (f : V → V) :
    (m.modify k f).Sorted := by
  unfold SortedMap.modify
  split
  · exact hm.insert k _
  · exact hm

theorem get?_modify [DecidableEq K] {m : SortedMap K V} (hm : m.Sorted) (k j : K) (f : V → V) :
    (m.modify k f).get? j = if j = k then (m.get? k).map f else m.get? j := by
  unfold SortedMap.modify
  cases hk : m.get? k with
  | some v => exact get?_insert hm k j (f v)
  | none =>
    by_cases hjk : j = k
    · rw [if_pos hjk, hjk]
      exact hk
    · rw [if_neg hjk]

/-! ## Maps and functions -/

omit [Std.TransOrd K] [Std.LawfulEqOrd K] in
/-- The map is looked up as a function, and its keys ascend. -/
structure Realises (m : SortedMap K V) (a : K → Option V) : Prop where
  sorted : m.Sorted
  get? : ∀ k, m.get? k = a k

omit [Std.TransOrd K] [Std.LawfulEqOrd K] in
theorem realises_empty : (empty : SortedMap K V).Realises fun _ => none :=
  ⟨sorted_empty, get?_empty⟩

section Runs

variable [DecidableEq K] {m : SortedMap K V} {a : K → Option V}

/-- One edit finds the same value on both sides, and leaves a map that realises what it leaves of
the function. -/
theorem Realises.edit (h : m.Realises a) (e : Edit K V) :
    (m.edit e).1 = (Edit.apply a e).1 ∧ (m.edit e).2.Realises (Edit.apply a e).2 := by
  cases e with
  | insert k v =>
    rw [SortedMap.edit, exchange_eq]
    refine ⟨h.get? k, h.sorted.insert k v, fun j => ?_⟩
    calc (m.insert k v).get? j
        = if j = k then some v else m.get? j := get?_insert h.sorted k j v
      _ = Function.update a k (some v) j := by rw [Function.update_apply, h.get?]
  | modify k f =>
    refine ⟨h.get? k, h.sorted.modify k f, fun j => ?_⟩
    calc (m.modify k f).get? j
        = if j = k then (m.get? k).map f else m.get? j := get?_modify h.sorted k j f
      _ = Function.update a k ((a k).map f) j := by rw [Function.update_apply, h.get?, h.get?]
  | modifyEach f =>
    refine ⟨rfl, h.sorted.modifyEach f, fun j => ?_⟩
    calc (m.modifyEach f).get? j
        = (m.get? j).map (f j) := get?_modifyEach m f j
      _ = (a j).map (f j) := by rw [h.get?]
  | remove k =>
    rw [SortedMap.edit, take_eq]
    refine ⟨h.get? k, h.sorted.erase k, fun j => ?_⟩
    calc (m.erase k).get? j
        = if j = k then none else m.get? j := get?_erase h.sorted k j
      _ = Function.update a k none j := by rw [Function.update_apply, h.get?]
  | clear => exact ⟨rfl, realises_empty⟩

theorem Realises.editAll (h : m.Realises a) (es : List (Edit K V)) :
    (m.editAll es).1 = (Edit.applyAll a es).1 ∧ (m.editAll es).2.Realises
      (Edit.applyAll a es).2 := by
  induction es generalizing m a with
  | nil => exact ⟨rfl, h⟩
  | cons e es ih =>
    obtain ⟨hfound, hafter⟩ := h.edit e
    obtain ⟨hlater, hend⟩ := ih hafter
    refine ⟨?_, hend⟩
    rw [SortedMap.editAll, Edit.applyAll, hfound, hlater]

end Runs

/-! ## What a map shows of the function -/

section Reading

variable {m : SortedMap K V} {a : K → Option V}

theorem Realises.mem_entries_iff (h : m.Realises a) {k : K} {v : V} :
    (k, v) ∈ m.entries ↔ a k = some v := by
  rw [← h.get?, get?_eq_some_iff h.sorted]

theorem Realises.mem_keys_iff (h : m.Realises a) {k : K} : k ∈ m.keys ↔ (a k).isSome = true := by
  rw [← contains_iff_mem_keys h.sorted, contains, h.get?]

theorem Realises.encard_eq_size (h : m.Realises a) :
    {k | (a k).isSome = true}.encard = m.size := by
  classical
  have hkeys : {k | (a k).isSome = true} = (m.keys.toFinset : Set K) := by
    ext k
    rw [Set.mem_ofPred_eq, Finset.mem_coe, List.mem_toFinset, h.mem_keys_iff]
  have hlength : m.keys.length = m.size := List.length_map _
  rw [hkeys, Set.encard_coe_eq_coe_finsetCard, List.toFinset_card_of_nodup
    h.sorted.nodup_keys, hlength]

/-- The listing is the only one with ascending keys. -/
theorem Realises.entries_eq_iff (h : m.Realises a) {pairs : List (K × V)} :
    m.entries = pairs ↔
      Ascending pairs ∧ ∀ k v, (k, v) ∈ pairs ↔ a k = some v := by
  constructor
  · rintro rfl
    exact ⟨h.sorted, fun k v => h.mem_entries_iff⟩
  · rintro ⟨hpairs, hmem⟩
    have hsame : m = ⟨pairs⟩ := by
      refine ext_get? h.sorted hpairs fun k => Option.ext fun v => ?_
      rw [h.get?, get?_eq_some_iff (m := ⟨pairs⟩) hpairs, hmem]
    rw [hsame]

end Reading

/-- Whatever edits are made of the empty map, it stays the finite map that the same edits make of
the empty function: every edit finds the same value, and the look-up, the membership test, the size,
the listing and the largest key are those of the function, with keys strictly ascending. -/
theorem edits_refine_functions [DecidableEq K] (es : List (Edit K V)) :
    let found := (editAll empty es).1
    let m := (editAll empty es).2
    let a := (Edit.applyAll (fun _ => none) es).2
    found = (Edit.applyAll (fun _ => none) es).1
      ∧ m.keys.Pairwise (fun j k => compare j k = .lt)
      ∧ (∀ k, m.get? k = a k)
      ∧ (∀ k, m.contains k = (a k).isSome)
      ∧ {k | (a k).isSome = true}.encard = m.size
      ∧ (∀ pairs, m.entries = pairs ↔
          pairs.Pairwise (fun p q => compare p.1 q.1 = .lt) ∧ ∀ k v, (k, v) ∈ pairs ↔ a k = some v)
      ∧ ∀ k, m.lastKey? = some k ↔
          (a k).isSome = true ∧ ∀ j, (a j).isSome = true → (compare j k).isLE = true := by
  intro found m a
  obtain ⟨hfound, h⟩ : found = (Edit.applyAll (fun _ => none) es).1 ∧ m.Realises a :=
    realises_empty.editAll es
  refine ⟨hfound, h.sorted.keys, h.get?, fun k => congrArg Option.isSome (h.get? k),
    h.encard_eq_size, fun pairs => h.entries_eq_iff, fun k => ?_⟩
  simp only [h.sorted.lastKey?_eq_some_iff, h.mem_keys_iff]

/-- Three keys are inserted, the middle one twice, and one is removed twice; then all values are
changed, and the last one once more. -/
theorem edits_refine_functions_units :
    let es : List (Edit UInt32 String) :=
      [.insert 7 "blink", .insert 2 "button", .insert 4 "mqtt", .insert 4 "mqtt v2", .remove 2,
        .remove 2, .modifyEach fun _ _ => "stopped", .modify 7 fun old => old ++ "?"]
    let a := (Edit.applyAll (fun _ => none) es).2
    (editAll empty es).1
        = [none, none, none, some "mqtt", some "button", none, none, some "stopped"]
      ∧ {k | (a k).isSome = true}.encard = 2
      ∧ ∀ k v, (k, v) ∈ [(4, "stopped"), (7, "stopped?")] ↔ a k = some v := by
  intro es a
  obtain ⟨hfound, -, -, -, hsize, hentries, -⟩ := edits_refine_functions es
  exact ⟨hfound, hsize, ((hentries _).mp rfl).2⟩

end BlockLink.SortedMap
