import Mathlib.Data.List.Sort
import BlockLink.SortedMap

/-!
# `BlockLink/Proofs/SortedMap.lean` — the map operations through their look-up

The recursions of `SortedMap` stop at the first key that is not below the one they look for, so what
they do is only right on a list with ascending keys. `Ascending` is that condition, every operation
keeps it, and under it a map is its look-up: `get?_insert` and `get?_erase` are all that the
registry and the table of units are reasoned with.
-/

set_option autoImplicit false

namespace BlockLink.SortedMap

variable {K V : Type} [Ord K]

/-- The keys of a list of entries strictly ascend. -/
def Ascending (l : List (K × V)) : Prop :=
  l.Pairwise fun a b => compare a.1 b.1 = .lt

/-- The keys of a map strictly ascend. -/
def Sorted (m : SortedMap K V) : Prop :=
  Ascending m.entries

theorem sorted_empty : (empty : SortedMap K V).Sorted :=
  List.Pairwise.nil

theorem get?_empty (k : K) : (empty : SortedMap K V).get? k = none := rfl

/-- What is found is in the map, in whatever order its entries are. -/
theorem exists_mem_of_lookup {k : K} {v : V} {l : List (K × V)} (h : lookup k l = some v) :
    ∃ k', (k', v) ∈ l := by
  induction l with
  | nil => cases h
  | cons e rest ih =>
    obtain ⟨k', v'⟩ := e
    rw [lookup] at h
    cases hcompare : compare k k' with
    | lt => simp [hcompare] at h
    | eq =>
      rw [hcompare] at h
      cases h
      exact ⟨k', List.mem_cons_self⟩
    | gt =>
      rw [hcompare] at h
      obtain ⟨j, hj⟩ := ih h
      exact ⟨j, List.mem_cons_of_mem _ hj⟩

/-! ## Working at the place of a key

The search for a place stops where the look-up stops, and the list is changed there as the
recursions change it. No order of the keys is needed for that: both sides make the same
comparisons. -/

/-- At the place where a key stands is the value that is looked up, storing replaces it there, and
discarding takes it out there. -/
theorem of_position_ok {k : K} {l : List (K × V)} {i : Nat} (h : position k l = .ok i) :
    l[i]?.map (·.2) = lookup k l ∧ (∀ v, l.modify i (fun e => (e.1, v)) = store k v l) ∧
      l.eraseIdx i = discard k l := by
  induction l generalizing i with
  | nil => cases h
  | cons e rest ih =>
    obtain ⟨k', v'⟩ := e
    rw [position] at h
    cases hcompare : compare k k' with
    | lt => simp [hcompare] at h
    | eq =>
      obtain rfl : 0 = i := by simpa [hcompare] using h
      simp [lookup, store, discard, hcompare]
    | gt =>
      -- The place is one further than in the rest, and the first entry stays.
      cases hrest : position k rest with
      | error j => simp [hcompare, hrest] at h
      | ok j =>
        obtain rfl : j + 1 = i := by simpa [hcompare, hrest] using h
        obtain ⟨hfound, hstored, hremoved⟩ := ih hrest
        simp [lookup, store, discard, hcompare, hfound, hstored, hremoved]

/-- A key that only has a place it belongs at has no value; storing puts it there, and there is
nothing to discard. -/
theorem of_position_error {k : K} {l : List (K × V)} {i : Nat} (h : position k l = .error i) :
    lookup k l = none ∧ (∀ v, l.insertIdx i (k, v) = store k v l) ∧ discard k l = l := by
  induction l generalizing i with
  | nil =>
    obtain rfl : 0 = i := by simpa [position] using h
    exact ⟨rfl, fun v => rfl, rfl⟩
  | cons e rest ih =>
    obtain ⟨k', v'⟩ := e
    rw [position] at h
    cases hcompare : compare k k' with
    -- The search stops here, and so do the three recursions.
    | lt =>
      obtain rfl : 0 = i := by simpa [hcompare] using h
      simp [lookup, store, discard, hcompare]
    | eq => simp [hcompare] at h
    | gt =>
      cases hrest : position k rest with
      | ok j => simp [hcompare, hrest] at h
      | error j =>
        obtain rfl : j + 1 = i := by simpa [hcompare, hrest] using h
        obtain ⟨hfound, hstored, hremoved⟩ := ih hrest
        simp [lookup, store, discard, hcompare, hfound, hstored, hremoved]

/-- Storing at the place of a key gives what was looked up before. -/
theorem exchange_eq (m : SortedMap K V) (k : K) (v : V) :
    m.exchange k v = (m.get? k, m.insert k v) := by
  unfold exchange
  cases h : position k m.entries with
  | ok i =>
    obtain ⟨hfound, hstored, -⟩ := of_position_ok h
    simp only [hfound, hstored, get?, insert]
  | error i =>
    obtain ⟨hfound, hstored, -⟩ := of_position_error h
    simp only [hfound, hstored, get?, insert]

/-- Removing at the place of a key gives what was looked up before. -/
theorem take_eq (m : SortedMap K V) (k : K) : m.take k = (m.get? k, m.erase k) := by
  unfold take
  cases h : position k m.entries with
  | ok i =>
    obtain ⟨hfound, -, hremoved⟩ := of_position_ok h
    simp only [hfound, hremoved, get?, erase]
  | error i =>
    obtain ⟨hfound, -, hremoved⟩ := of_position_error h
    simp only [hfound, hremoved, get?, erase]

variable [Std.TransOrd K] [Std.LawfulEqOrd K]

/-! ## Membership

Each of the recursions once, along its comparisons; everything later cites these. -/

omit [Std.TransOrd K] in
theorem ne_of_compare {k k' : K} (h : compare k k' ≠ .eq) : k ≠ k' :=
  fun heq => h (Std.compare_eq_iff_eq.mpr heq)

/-- A key below the first one is not in the list. -/
theorem ne_of_lt_head {k k' : K} {v' : V} {rest : List (K × V)}
    (hl : Ascending ((k', v') :: rest)) (hlt : compare k k' = .lt) :
    ∀ e ∈ (k', v') :: rest, k ≠ e.1 := by
  intro e he
  have hke : compare k e.1 = .lt := by
    rcases List.mem_cons.mp he with rfl | hmem
    · exact hlt
    · exact Std.TransCmp.lt_trans hlt (List.rel_of_pairwise_cons hl hmem)
  exact ne_of_compare (by simp [hke])

omit [Std.TransOrd K] in
/-- The first key is not in the list a second time. -/
theorem head_notMem {k : K} {v w : V} {rest : List (K × V)} (hl : Ascending ((k, v) :: rest)) :
    (k, w) ∉ rest := by
  intro hmem
  have hlt : compare k k = .lt := List.rel_of_pairwise_cons hl hmem
  have hne : k ≠ k := ne_of_compare (by rw [hlt]; decide)
  exact hne rfl

/-- What is looked up is what stands in the list. -/
theorem lookup_eq_some_iff {k : K} {v : V} {l : List (K × V)} (hl : Ascending l) :
    lookup k l = some v ↔ (k, v) ∈ l := by
  induction l with
  | nil => simp [lookup]
  | cons e rest ih =>
    obtain ⟨k', v'⟩ := e
    have hrest : Ascending rest := List.Pairwise.of_cons hl
    cases hc : compare k k' with
    -- The look-up stops, and what it has not seen is larger still.
    | lt =>
      have hne := ne_of_lt_head hl hc
      simp only [lookup, hc, reduceCtorEq, false_iff]
      exact fun hmem => hne _ hmem rfl
    | eq =>
      obtain rfl := Std.compare_eq_iff_eq.mp hc
      simp only [lookup, hc, Option.some.injEq, List.mem_cons, Prod.mk.injEq, true_and]
      constructor
      · exact fun h => Or.inl h.symm
      · rintro (h | hmem)
        · exact h.symm
        · exact absurd hmem (head_notMem hl)
    | gt =>
      have hne : k ≠ k' := ne_of_compare (by simp [hc])
      simp only [lookup, hc, ih hrest, List.mem_cons, Prod.mk.injEq, hne, false_and, false_or]

/-- Storing adds one entry in the place of any other with its key. -/
theorem mem_store {k j : K} {v w : V} {l : List (K × V)} (hl : Ascending l) :
    (j, w) ∈ store k v l ↔ (j = k ∧ w = v) ∨ (j ≠ k ∧ (j, w) ∈ l) := by
  induction l with
  | nil => simp [store]
  | cons e rest ih =>
    obtain ⟨k', v'⟩ := e
    have hrest : Ascending rest := List.Pairwise.of_cons hl
    cases hc : compare k k' with
    -- The entry goes in front: the key is below all others.
    | lt =>
      have hne := ne_of_lt_head hl hc
      simp only [store, hc, List.mem_cons (a := (j, w)) (b := (k, v)), Prod.mk.injEq]
      refine or_congr_right ⟨fun hmem => ⟨fun h => hne _ hmem h.symm, hmem⟩, fun h => h.2⟩
    | eq =>
      obtain rfl := Std.compare_eq_iff_eq.mp hc
      simp only [store, hc, List.mem_cons, Prod.mk.injEq]
      constructor
      · rintro (h | hmem)
        · exact Or.inl h
        · refine Or.inr ⟨?_, Or.inr hmem⟩
          rintro rfl
          exact head_notMem hl hmem
      · rintro (h | ⟨hjk, h | hmem⟩)
        · exact Or.inl h
        · exact absurd h.1 hjk
        · exact Or.inr hmem
    -- The entry goes further back, behind a key that is another one.
    | gt =>
      have hne : k' ≠ k := (ne_of_compare (by simp [hc])).symm
      simp only [store, hc, List.mem_cons, Prod.mk.injEq, ih hrest]
      constructor
      · rintro (⟨rfl, rfl⟩ | h | h)
        · exact Or.inr ⟨hne, Or.inl ⟨rfl, rfl⟩⟩
        · exact Or.inl h
        · exact Or.inr ⟨h.1, Or.inr h.2⟩
      · rintro (h | ⟨hjk, h | hmem⟩)
        · exact Or.inr (Or.inl h)
        · exact Or.inl h
        · exact Or.inr (Or.inr ⟨hjk, hmem⟩)

/-- Discarding takes out what stands under the key. -/
theorem mem_discard {k j : K} {w : V} {l : List (K × V)} (hl : Ascending l) :
    (j, w) ∈ discard k l ↔ j ≠ k ∧ (j, w) ∈ l := by
  induction l with
  | nil => simp [discard]
  | cons e rest ih =>
    obtain ⟨k', v'⟩ := e
    have hrest : Ascending rest := List.Pairwise.of_cons hl
    cases hc : compare k k' with
    -- The search stops here, and rightly so: the key is below all that follow.
    | lt =>
      have hne := ne_of_lt_head hl hc
      simp only [discard, hc]
      exact ⟨fun hmem => ⟨fun h => hne _ hmem h.symm, hmem⟩, fun h => h.2⟩
    | eq =>
      obtain rfl := Std.compare_eq_iff_eq.mp hc
      simp only [discard, hc, List.mem_cons, Prod.mk.injEq]
      constructor
      · intro hmem
        refine ⟨?_, Or.inr hmem⟩
        rintro rfl
        exact head_notMem hl hmem
      · rintro ⟨hjk, h | hmem⟩
        · exact absurd h.1 hjk
        · exact hmem
    | gt =>
      have hne : k' ≠ k := (ne_of_compare (by simp [hc])).symm
      simp only [discard, hc, List.mem_cons, Prod.mk.injEq, ih hrest]
      constructor
      · rintro (⟨rfl, rfl⟩ | h)
        · exact ⟨hne, Or.inl ⟨rfl, rfl⟩⟩
        · exact ⟨h.1, Or.inr h.2⟩
      · rintro ⟨hjk, h | hmem⟩
        · exact Or.inl h
        · exact Or.inr ⟨hjk, hmem⟩

/-! ## Order is kept -/

theorem ascending_store {k : K} {v : V} {l : List (K × V)} (hl : Ascending l) :
    Ascending (store k v l) := by
  induction l with
  | nil => exact List.pairwise_singleton _ _
  | cons e rest ih =>
    obtain ⟨k', v'⟩ := e
    have hrest : Ascending rest := List.Pairwise.of_cons hl
    cases hc : compare k k' with
    | lt =>
      simp only [store, hc]
      refine List.Pairwise.cons (fun e he => ?_) hl
      rcases List.mem_cons.mp he with rfl | hmem
      · exact hc
      · exact Std.TransCmp.lt_trans hc (List.rel_of_pairwise_cons hl hmem)
    | eq =>
      simp only [store, hc]
      exact List.Pairwise.cons (fun e he => List.rel_of_pairwise_cons hl he) hrest
    | gt =>
      simp only [store, hc]
      refine List.Pairwise.cons (fun e he => ?_) (ih hrest)
      rcases (mem_store hrest).mp he with ⟨hek, -⟩ | ⟨-, hmem⟩
      · show compare k' e.1 = .lt
        rw [hek]
        exact Std.OrientedCmp.gt_iff_lt.mp hc
      · exact List.rel_of_pairwise_cons hl hmem

theorem ascending_discard {k : K} {l : List (K × V)} (hl : Ascending l) :
    Ascending (discard k l) := by
  induction l with
  | nil => exact List.Pairwise.nil
  | cons e rest ih =>
    obtain ⟨k', v'⟩ := e
    have hrest : Ascending rest := List.Pairwise.of_cons hl
    cases hc : compare k k' with
    | lt => simpa only [discard, hc] using hl
    | eq => simpa only [discard, hc] using hrest
    | gt =>
      simp only [discard, hc]
      refine List.Pairwise.cons (fun e he => ?_) (ih hrest)
      exact List.rel_of_pairwise_cons hl ((mem_discard hrest).mp he).2

theorem Sorted.insert {m : SortedMap K V} (hm : m.Sorted) (k : K) (v : V) : (m.insert k v).Sorted :=
  ascending_store hm

theorem Sorted.erase {m : SortedMap K V} (hm : m.Sorted) (k : K) : (m.erase k).Sorted :=
  ascending_discard hm

/-! ## The keys of a map -/

omit [Std.TransOrd K] [Std.LawfulEqOrd K] in
theorem Sorted.keys {m : SortedMap K V} (hm : m.Sorted) :
    m.keys.Pairwise fun j k => compare j k = .lt :=
  List.pairwise_map.mpr hm

omit [Std.TransOrd K] in
theorem Sorted.nodup_keys {m : SortedMap K V} (hm : m.Sorted) : m.keys.Nodup :=
  hm.keys.imp fun hlt => ne_of_compare (by rw [hlt]; decide)

/-- The last key is the largest one. -/
theorem Sorted.lastKey?_eq_some_iff {m : SortedMap K V} (hm : m.Sorted) {k : K} :
    m.lastKey? = some k ↔ k ∈ m.keys ∧ ∀ j ∈ m.keys, (compare j k).isLE = true := by
  rw [lastKey?, List.getLast?_eq_some_iff]
  constructor
  · rintro ⟨front, hfront⟩
    have hbelow : ∀ j ∈ front, compare j k = .lt := by
      have hkeys := hm.keys
      rw [hfront] at hkeys
      exact fun j hj => (List.pairwise_append.mp hkeys).2.2 j hj k List.mem_cons_self
    rw [hfront]
    refine ⟨List.mem_append_right front List.mem_cons_self, fun j hj => ?_⟩
    rcases List.mem_append.mp hj with hj | hj
    · rw [hbelow j hj]
      rfl
    · rw [List.mem_singleton.mp hj, Std.compare_self]
      rfl
  · rintro ⟨hmem, hle⟩
    obtain ⟨front, rest, hsplit⟩ := List.append_of_mem hmem
    -- A key behind the largest one would be above it.
    have hrest : rest = [] := by
      rw [List.eq_nil_iff_forall_not_mem]
      intro j hj
      have hkeys := hm.keys
      rw [hsplit] at hkeys
      have hlt : compare k j = .lt :=
        List.rel_of_pairwise_cons (List.pairwise_append.mp hkeys).2.1 hj
      have hgt : compare j k = .gt := Std.OrientedCmp.gt_iff_lt.mpr hlt
      have hjk := hle j (by rw [hsplit]; exact List.mem_append_right _ (List.mem_cons_of_mem k hj))
      rw [hgt] at hjk
      cases hjk
    exact ⟨front, by rw [hsplit, hrest]⟩

/-! ## The look-up after each operation -/

theorem get?_eq_some_iff {m : SortedMap K V} (hm : m.Sorted) {k : K} {v : V} :
    m.get? k = some v ↔ (k, v) ∈ m.entries :=
  lookup_eq_some_iff hm

/-- The key has its new value, and all others keep theirs. -/
theorem get?_insert [DecidableEq K] {m : SortedMap K V} (hm : m.Sorted) (k j : K) (v : V) :
    (m.insert k v).get? j = if j = k then some v else m.get? j := by
  apply Option.ext
  intro w
  rw [get?_eq_some_iff (hm.insert k v)]
  by_cases hjk : j = k
  · rw [if_pos hjk, Option.some.injEq]
    exact (mem_store hm).trans (by simp [hjk, eq_comm])
  · rw [if_neg hjk, get?_eq_some_iff hm]
    exact (mem_store hm).trans (by simp [hjk])

/-- The key has no value any more, and all others keep theirs. -/
theorem get?_erase [DecidableEq K] {m : SortedMap K V} (hm : m.Sorted) (k j : K) :
    (m.erase k).get? j = if j = k then none else m.get? j := by
  apply Option.ext
  intro w
  rw [get?_eq_some_iff (hm.erase k)]
  by_cases hjk : j = k
  · rw [if_pos hjk]
    exact (mem_discard hm).trans (by simp [hjk])
  · rw [if_neg hjk, get?_eq_some_iff hm]
    exact (mem_discard hm).trans (by simp [hjk])

theorem get?_erase_eq_some_iff [DecidableEq K] {m : SortedMap K V} (hm : m.Sorted) {k j : K}
    {v : V} :
    (m.erase k).get? j = some v ↔ j ≠ k ∧ m.get? j = some v := by
  rw [get?_erase hm]
  by_cases hjk : j = k <;> simp [hjk]

theorem contains_insert [DecidableEq K] {m : SortedMap K V} (hm : m.Sorted) {k j : K} {v : V} :
    (m.insert k v).contains j = true ↔ m.contains j = true ∨ j = k := by
  rw [contains, get?_insert hm]
  by_cases hjk : j = k <;> simp [hjk, contains]

theorem contains_erase [DecidableEq K] {m : SortedMap K V} (hm : m.Sorted) {k j : K} :
    (m.erase k).contains j = true ↔ j ≠ k ∧ m.contains j = true := by
  rw [contains, get?_erase hm]
  by_cases hjk : j = k <;> simp [hjk, contains]

/-! ## The entries after each operation -/

omit [Std.TransOrd K] [Std.LawfulEqOrd K] in
/-- Whether keys ascend is seen from the keys. -/
theorem ascending_of_keys {W : Type} {l : List (K × V)} {l' : List (K × W)}
    (hkeys : l.map (·.1) = l'.map (·.1)) (hl : Ascending l) : Ascending l' := by
  have hpairs : (l.map (·.1)).Pairwise fun a b => compare a b = .lt := List.pairwise_map.mpr hl
  rw [hkeys] at hpairs
  exact List.pairwise_map.mp hpairs

/-- Discarding keeps the other entries, in their order. -/
theorem discard_eq_filter [DecidableEq K] {k : K} {l : List (K × V)} (hl : Ascending l) :
    discard k l = l.filter fun e => e.1 ≠ k := by
  induction l with
  | nil => rfl
  | cons e rest ih =>
    obtain ⟨k', v'⟩ := e
    -- No key further back is the one that is discarded, unless it is above the first.
    have hrest : ∀ j, compare j k' ≠ .gt → ∀ e ∈ rest, e.1 ≠ j := by
      intro j hj e he heq
      have hlt : compare k' e.1 = .lt := List.rel_of_pairwise_cons hl he
      rw [heq] at hlt
      exact hj (Std.OrientedCmp.gt_iff_lt.mpr hlt)
    rw [discard]
    cases hc : compare k k' with
    | lt =>
      have hne : k' ≠ k := fun heq => ne_of_compare (by rw [hc]; decide) heq.symm
      dsimp only
      rw [eq_comm, List.filter_eq_self]
      intro e he
      rcases List.mem_cons.mp he with rfl | he
      · simpa using hne
      · simpa using hrest k (by rw [hc]; decide) e he
    | eq =>
      obtain rfl : k = k' := Std.compare_eq_iff_eq.mp hc
      rw [List.filter_cons_of_neg (by simp), eq_comm, List.filter_eq_self]
      intro e he
      simpa using hrest k (by rw [hc]; decide) e he
    | gt =>
      have hne : k' ≠ k := fun heq => ne_of_compare (by rw [hc]; decide) heq.symm
      rw [List.filter_cons_of_pos (by simpa using hne), ← ih (List.Pairwise.of_cons hl)]

theorem foldl_erase [DecidableEq K] {m : SortedMap K V} (hm : m.Sorted) (ks : List K) :
    ks.foldl (fun m k => m.erase k) m = ⟨m.entries.filter fun e => e.1 ∉ ks⟩ := by
  induction ks generalizing m with
  | nil => simp
  | cons k ks ih =>
    have hentries : (m.erase k).entries = _ := discard_eq_filter hm
    rw [List.foldl_cons, ih (hm.erase k), hentries, List.filter_filter]
    simp only [List.mem_cons, not_or, ne_eq, Bool.decide_and, Bool.and_comm]

theorem mem_keys_insert {m : SortedMap K V} (hm : m.Sorted) {k j : K} {v : V} :
    j ∈ (m.insert k v).keys ↔ j = k ∨ j ∈ m.keys := by
  simp only [keys, List.mem_map, Prod.exists, exists_and_right, exists_eq_right]
  constructor
  · rintro ⟨w, hw⟩
    rcases (mem_store hm).mp hw with ⟨rfl, -⟩ | ⟨-, hmem⟩
    · exact .inl rfl
    · exact .inr ⟨w, hmem⟩
  · intro h
    by_cases hjk : j = k
    · exact ⟨v, (mem_store hm).mpr (.inl ⟨hjk, rfl⟩)⟩
    · obtain ⟨w, hw⟩ := h.resolve_left hjk
      exact ⟨w, (mem_store hm).mpr (.inr ⟨hjk, hw⟩)⟩

theorem contains_iff_mem_keys {m : SortedMap K V} (hm : m.Sorted) {k : K} :
    m.contains k = true ↔ k ∈ m.keys := by
  rw [contains, Option.isSome_iff_exists]
  simp only [get?_eq_some_iff hm, keys, List.mem_map, Prod.exists, exists_and_right,
    exists_eq_right]

omit [Std.TransOrd K] in
theorem length_store {k : K} {v : V} {l : List (K × V)} (h : k ∉ l.map (·.1)) :
    (store k v l).length = l.length + 1 := by
  induction l with
  | nil => rfl
  | cons e rest ih =>
    obtain ⟨k', v'⟩ := e
    rw [List.map_cons, List.mem_cons, not_or] at h
    cases hc : compare k k' with
    | lt => simp only [store, hc, List.length_cons]
    | eq => exact absurd (Std.compare_eq_iff_eq.mp hc) h.1
    | gt => simp only [store, hc, List.length_cons, ih h.2]

theorem length_store_of_mem {k : K} {v : V} {l : List (K × V)} (hl : Ascending l)
    (h : k ∈ l.map (·.1)) : (store k v l).length = l.length := by
  induction l with
  | nil => cases h
  | cons e rest ih =>
    obtain ⟨k', v'⟩ := e
    cases hc : compare k k' with
    | lt =>
      obtain ⟨e, he, hkey⟩ := List.mem_map.mp h
      exact absurd hkey.symm (ne_of_lt_head hl hc e he)
    | eq => simp only [store, hc, List.length_cons]
    | gt =>
      have hne : k ≠ k' := ne_of_compare (by simp [hc])
      have hmem : k ∈ rest.map (·.1) := (List.mem_cons.mp h).resolve_left hne
      simp only [store, hc, List.length_cons, ih (List.Pairwise.of_cons hl) hmem]

theorem size_insert {m : SortedMap K V} (hm : m.Sorted) (k : K) (v : V) :
    (m.insert k v).size = if m.contains k then m.size else m.size + 1 := by
  by_cases hk : m.contains k = true
  · rw [if_pos hk]
    exact length_store_of_mem hm ((contains_iff_mem_keys hm).mp hk)
  · rw [if_neg hk]
    exact length_store fun hmem => hk ((contains_iff_mem_keys hm).mpr hmem)

/-- A map is its look-up. -/
theorem ext_get? {m m' : SortedMap K V} (hm : m.Sorted) (hm' : m'.Sorted)
    (h : ∀ k, m.get? k = m'.get? k) : m = m' := by
  have hirrefl : Std.Irrefl fun a b : K × V => compare a.1 b.1 = .lt :=
    ⟨fun a hlt => ne_of_compare (by rw [hlt]; decide) (Eq.refl a.1)⟩
  have hantisymm : Std.Antisymm fun a b : K × V => compare a.1 b.1 = .lt :=
    ⟨fun a b hab hba => absurd (Std.TransCmp.lt_trans hab hba) (hirrefl.irrefl a)⟩
  have hentries : m.entries = m'.entries := by
    refine List.Pairwise.eq_of_mem_iff hm hm' fun e => ?_
    rw [← get?_eq_some_iff (k := e.1) hm, ← get?_eq_some_iff (k := e.1) hm', h]
  cases m
  cases m'
  exact congrArg SortedMap.mk hentries

/-- A key that was not in the map is inserted and erased without a trace. -/
theorem erase_insert {m : SortedMap K V} (hm : m.Sorted) {k : K} (hk : m.get? k = none) (v : V) :
    (m.insert k v).erase k = m := by
  classical
  refine ext_get? ((hm.insert k v).erase k) hm fun j => ?_
  rw [get?_erase (hm.insert k v), get?_insert hm]
  by_cases hjk : j = k
  · rw [if_pos hjk, hjk, hk]
  · rw [if_neg hjk, if_neg hjk]

end BlockLink.SortedMap
