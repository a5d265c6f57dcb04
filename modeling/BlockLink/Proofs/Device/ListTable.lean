import BlockLink.Device.List
import BlockLink.Proofs.Lua.Semantics

/-!
# `BlockLink/Proofs/Device/ListTable.lean` — lists in tables of a program

A program keeps a list in a table: the items at the keys from one on, and their number in a field.
`Represents` says that a table holds a list so. A deletion moves the items behind the place one key
down, the nearest first, and an insertion moves them one key up, the last first.

`repeatFrom_move` is the argument about both loops: each turn copies to a key what its neighbour
holds, and since the neighbour lies ahead of the loop, it is still what it was at the start.
-/

set_option autoImplicit false

namespace BlockLink.ListTable

open BlockLink.Lua

variable {α : Type}

/-! ## Lists in tables

`Represents` looks at the keys of the items and at the length, and asks nothing of the rest of a
table. `Changed` says what a change of a list may touch: its own table and, in that, the items and
the length. -/

/-- A table with a list in it: the items from one on, nothing behind them, and their number. -/
structure Represents (items : List (Value α)) (t : Value α → Value α) : Prop where
  length : t (.string "length") = .integer (Int64.ofNat items.length)
  fits : items.length < 9223372036854775808
  held : ∀ v ∈ items, v ≠ .nil
  item : ∀ (k : Int64) (p : Nat), k.toInt = p + 1 → t (.integer k) = (items[p]?).getD .nil

/-- The table of a list, with nothing else in it. -/
def tableOf (items : List (Value α)) : Value α → Value α
  | .string s => if s = "length" then .integer (Int64.ofNat items.length) else .nil
  | .integer k => if 1 ≤ k.toInt then (items[k.toInt.toNat - 1]?).getD .nil else .nil
  | _ => .nil

theorem represents_tableOf {items : List (Value α)} (hfits : items.length < 9223372036854775808)
    (hheld : ∀ v ∈ items, v ≠ .nil) : Represents items (tableOf items) := by
  refine ⟨by simp [tableOf], hfits, hheld, ?_⟩
  intro k p hk
  have hp : k.toInt.toNat - 1 = p := by omega
  rw [tableOf, if_pos (by omega), hp]

/-- The tables after the list at an address changed, and nothing else. -/
structure Changed (heap : Heap α) (ref : Nat) (items : List (Value α)) (heap' : Heap α) : Prop where
  list : Represents items (heap' ref)
  elsewhere : ∀ other, other ≠ ref → heap' other = heap other
  besides : ∀ key, key ≠ .string "length" → (∀ k : Int64, 1 ≤ k.toInt → key ≠ .integer k) →
    heap' ref key = heap ref key

/-- Two keys are the same if they have the items at the same place. -/
theorem key_eq_iff {k i : Int64} {q p : Nat} (hk : k.toInt = q + 1) (hi : i.toInt = p + 1) :
    k = i ↔ q = p := by
  rw [← Int64.toInt_inj]
  omega

section

variable {items : List (Value α)} {t : Value α → Value α}

theorem Represents.toInt_length (h : Represents items t) :
    (Int64.ofNat items.length).toInt = items.length :=
  Int64.toInt_ofNat_of_lt h.fits

/-- The key behind the last item, while there is one. -/
theorem Represents.toInt_behind (h : Represents items t)
    (hroom : items.length < 9223372036854775807) :
    (Int64.ofNat items.length + 1).toInt = items.length + 1 := by
  have hn := h.toInt_length
  rw [toInt_succ (by omega), hn]

end

section

variable {heap : Heap α} {ref : Nat} {items : List (Value α)}

theorem Changed.refl (h : Represents items (heap ref)) : Changed heap ref items heap :=
  ⟨h, fun _ _ => rfl, fun _ _ _ => rfl⟩

/-- A store into the table of the list touches no other table. -/
theorem Changed.of_update {t : Value α → Value α} (h : Represents items t)
    (hbesides : ∀ key, key ≠ .string "length" → (∀ k : Int64, 1 ≤ k.toInt → key ≠ .integer k) →
      t key = heap ref key) :
    Changed heap ref items (Function.update heap ref t) := by
  refine ⟨?_, ?_, ?_⟩
  · rwa [Function.update_self]
  · intro other hother
    exact Function.update_of_ne hother ..
  · intro key hlength hplace
    rw [Function.update_self]
    exact hbesides key hlength hplace

end

/-- An index points to an item or outside the list. -/
theorem slot?_cases (l : DeviceList (Value α)) (i : Int) :
    ((i < 1 ∨ l.items.length < i) ∧ l.slot? i = none)
      ∨ ∃ p, l.slot? i = some p ∧ i = p + 1 ∧ p < l.items.length := by
  by_cases hin : 1 ≤ i ∧ i ≤ (l.items.length : Int)
  · refine .inr ⟨i.toNat - 1, if_pos hin, ?_, ?_⟩ <;> omega
  · exact .inl ⟨by omega, if_neg hin⟩

/-! ## Moving items by one

The loops of deletion and insertion differ only in their direction. Distances are counted in the
direction of the loop, so that one statement covers both. -/

/-- A table after each of so many keys, from the given one on, took over what its neighbour held. -/
def moved (way : Direction) (t : Value α → Value α) (first : Int64) (turns : Nat) :
    Value α → Value α
  | .integer k =>
    if 0 ≤ way.distance first k ∧ way.distance first k < turns then t (.integer (way.next k))
    else t (.integer k)
  | key => t key

section
variable {way : Direction} {first k : Int64} {turns : Nat} (t : Value α → Value α)

theorem moved_of_reached (hlow : 0 ≤ way.distance first k) (hhigh : way.distance first k < turns) :
    moved way t first turns (.integer k) = t (.integer (way.next k)) :=
  if_pos ⟨hlow, hhigh⟩

theorem moved_of_not_reached (h : way.distance first k < 0 ∨ turns ≤ way.distance first k) :
    moved way t first turns (.integer k) = t (.integer k) :=
  if_neg (by omega)

end

theorem moved_zero (way : Direction) (t : Value α → Value α) (first : Int64) :
    moved way t first 0 = t := by
  funext key
  cases key with
  | integer k => exact moved_of_not_reached t (by omega)
  | _ => rfl

/-- What is not at a place of the list stays where it is. -/
theorem moved_besides {way : Direction} {t : Value α → Value α} {first : Int64} {turns : Nat}
    (hfirst : ∀ k : Int64, k.toInt < 1 → way.distance first k < 0 ∨ turns ≤ way.distance first k)
    {key : Value α} (hplace : ∀ k : Int64, 1 ≤ k.toInt → key ≠ .integer k) :
    moved way t first turns key = t key := by
  cases key with
  | integer k =>
    apply moved_of_not_reached
    apply hfirst
    by_contra hk
    exact hplace k (by omega) rfl
  | _ => rfl

variable [DecidableEq α]

/-- Copying from the neighbour and then moving the rest. -/
theorem moved_succ {way : Direction} {first last : Int64} {turns : Nat}
    (h : turns < way.distance first last) (t : Value α → Value α) :
    moved way (Function.update t (.integer first) (t (.integer (way.next first))))
      (way.next first) turns
      = moved way t first (turns + 1) := by
  have hroom : 0 < way.distance first last := by omega
  have hnext := Direction.distance_next hroom
  funext key
  cases key with
  | integer k =>
    -- The key that was written is behind the loop now. Any other one is reached or not as before.
    by_cases hk : k = first
    · have hzero : way.distance first k = 0 := Direction.distance_eq_zero_iff.2 hk
      rw [moved_of_reached t (by omega) (by omega),
        moved_of_not_reached _ (by rw [hnext]; omega), hk, Function.update_self]
    · have hne : way.distance first k ≠ 0 := fun h => hk (Direction.distance_eq_zero_iff.1 h)
      by_cases hin : 0 ≤ way.distance first k ∧ way.distance first k < (turns + 1 : Nat)
      · -- The neighbour lies ahead of the key that was written, so it holds what it held.
        have hahead := Direction.distance_add way first k last
        have hback := Direction.distance_add way first k first
        have hself : way.distance first first = 0 := Direction.distance_eq_zero_iff.2 rfl
        have hlast : 0 < way.distance k last := by omega
        have hfar := Direction.distance_next hlast first
        have hkept : way.next k ≠ first := by
          intro heq
          have hzero : way.distance (way.next k) first = 0 :=
            Direction.distance_eq_zero_iff.2 heq.symm
          omega
        rw [moved_of_reached t hin.1 hin.2,
          moved_of_reached _ (by rw [hnext]; omega) (by rw [hnext]; omega),
          Function.update_of_ne (by simpa using hkept)]
      · rw [moved_of_not_reached t (by omega), moved_of_not_reached _ (by rw [hnext]; omega),
          Function.update_of_ne (by simpa using hk)]
  | _ => simp [moved]

/-- A loop that copies to each key what its neighbour holds moves the items by one. The keys need
not be the numbers that the loop counts, but go along with them. -/
theorem repeatFrom_move {body : Int64 → Locals α → Heap α → Option (Flow α)} {way : Direction}
    {env : Locals α} {ref : Nat} {last : Int64} (key : Int64 → Int64)
    (hkey : ∀ n, key (way.next n) = way.next (key n))
    (hbody : ∀ n heap, body n env heap = some (.next env (Function.update heap ref
      (Function.update (heap ref) (.integer (key n)) (heap ref (.integer (way.next (key n))))))))
    (turns : Nat) :
    ∀ (n : Int64) (heap : Heap α), turns ≤ way.distance (key n) last →
      repeatFrom body way turns n env heap
        = some (.next env (Function.update heap ref (moved way (heap ref) (key n) turns))) := by
  induction turns with
  | zero =>
    intro n heap _
    simp [repeatFrom, moved_zero]
  | succ turns ih =>
    intro n heap h
    have hroom : turns < way.distance (key n) last := by omega
    have hlast : 0 < way.distance (key n) last := by omega
    have hrest : turns ≤ way.distance (key (way.next n)) last := by
      rw [hkey, Direction.distance_next hlast]
      omega
    rw [repeatFrom, hbody, Option.bind_some, Flow.bind_next, ih _ _ hrest, hkey,
      Function.update_self, moved_succ hroom, Function.update_idem]

/-! ## Going through the items

A search goes up and returns at the item it looks for, so by induction it tells whether the item is
among those still ahead. -/

variable {items : List (Value α)}

/-- The loop finds what stands at one of the places from `p` on. -/
theorem repeatFrom_search {body : Int64 → Locals α → Heap α → Option (Flow α)} {env : Locals α}
    {heap : Heap α} {ref : Nat} {v : Value α} (h : Represents items (heap ref))
    (hbody : ∀ n, body n env heap
      = some (if heap ref (.integer n) = v then .returned (.boolean true) heap else .next env heap))
    (turns : Nat) :
    ∀ (n : Int64) (p : Nat), items.length = p + turns → (0 < turns → n.toInt = p + 1) →
      repeatFrom body .up turns n env heap
        = some (if v ∈ items.drop p then .returned (.boolean true) heap else .next env heap) := by
  induction turns with
  | zero =>
    intro n p hlength _
    have hnil : items.drop p = [] := List.drop_eq_nil_of_le (by omega)
    simp [repeatFrom, hnil]
  | succ turns ih =>
    intro n p hlength hn
    have hfits := h.fits
    have hp : p < items.length := by omega
    have hat : n.toInt = p + 1 := hn (Nat.succ_pos turns)
    -- This turn looks at the item at `p`, and the others at those behind it.
    have hitem : heap ref (.integer n) = items[p] := by
      rw [h.item n p hat, List.getElem?_eq_getElem hp, Option.getD_some]
    have hnext : 0 < turns → (Direction.up.next n).toInt = (p + 1 : Nat) + 1 := by
      intro hpos
      rw [Direction.next, toInt_succ (by omega), hat]
      rfl
    have hmem : v ∈ items.drop p ↔ v = items[p] ∨ v ∈ items.drop (p + 1) := by
      rw [List.drop_eq_getElem_cons hp, List.mem_cons]
    rw [repeatFrom, hbody, Option.bind_some, hitem]
    by_cases hfound : items[p] = v
    · rw [if_pos hfound, if_pos (hmem.2 (.inl hfound.symm)), Flow.bind_returned]
    · have hlater : v ∈ items.drop p ↔ v ∈ items.drop (p + 1) := by
        rw [hmem, or_iff_right (Ne.symm hfound)]
      rw [if_neg hfound, Flow.bind_next, ih _ (p + 1) (by omega) hnext, if_congr hlater rfl rfl]

/-! ## What the operations leave in a table

Each table is the one that a function of the program stores, in the order of its stores, and each
list the one that the operation of the same name gives. -/

variable {t : Value α → Value α}

/-- The new length is stored first, and the value goes to the key that is the length. -/
theorem Represents.add (h : Represents items t) (hroom : items.length < 9223372036854775807)
    {v : Value α} (hv : v ≠ .nil) :
    Represents (items ++ [v])
      (Function.update (Function.update t (.string "length")
        (.integer (Int64.ofNat items.length + 1)))
        (.integer (Int64.ofNat items.length + 1)) v) := by
  have hlength : (items ++ [v]).length = items.length + 1 := List.length_append
  refine ⟨?_, by omega, ?_, ?_⟩
  · rw [hlength, Int64.ofNat_add]
    simp
  · intro w hw
    rcases List.mem_append.1 hw with hw | hw
    · exact h.held w hw
    · rwa [List.mem_singleton.1 hw]
  · intro k p hk
    -- The one new key is that behind the last item.
    have hkey := key_eq_iff hk (h.toInt_behind hroom)
    by_cases hp : p = items.length
    · simp [hkey.2 hp, hp]
    · rw [Function.update_of_ne (by simpa [hkey] using hp), Function.update_of_ne (by simp),
        h.item k p hk, List.getElem?_append]
      split
      · rfl
      · rw [List.getElem?_eq_none (by omega), List.getElem?_eq_none (by simp; omega)]

/-- Only one place is stored over, so the number of the items stays. -/
theorem Represents.replace (h : Represents items t) {i : Int64} {p : Nat} (hi : i.toInt = p + 1)
    (hp : p < items.length) {v : Value α} (hv : v ≠ .nil) :
    Represents (items.set p v) (Function.update t (.integer i) v) := by
  refine ⟨?_, ?_, ?_, ?_⟩
  · simpa using h.length
  · simpa using h.fits
  · intro w hw
    rcases List.mem_or_eq_of_mem_set hw with hw | rfl
    · exact h.held w hw
    · exact hv
  · intro k q hk
    have hkey := key_eq_iff hk hi
    rw [List.getElem?_set]
    by_cases hq : q = p
    · simp [hkey.2 hq, hq, hp]
    · rw [Function.update_of_ne (by simpa [hkey] using hq), h.item k q hk, if_neg (Ne.symm hq)]

/-- The item at the index is gone, and the last place is empty. -/
theorem Represents.delete (h : Represents items t) {i : Int64} {p : Nat} (hi : i.toInt = p + 1)
    (hp : p < items.length) :
    Represents (items.eraseIdx p)
      (Function.update
        (Function.update (moved .up t i (items.length - (p + 1)))
          (.integer (Int64.ofNat items.length)) .nil)
        (.string "length") (.integer (Int64.ofNat items.length - 1))) := by
  have hfits := h.fits
  have hlength : (items.eraseIdx p).length = items.length - 1 := List.length_eraseIdx_of_lt hp
  refine ⟨?_, by omega, ?_, ?_⟩
  · rw [hlength, Int64.ofNat_sub _ _ (by omega)]
    simp
  · intro w hw
    exact h.held w (List.mem_of_mem_eraseIdx hw)
  · intro k q hk
    have hkey : k = Int64.ofNat items.length ↔ q = items.length - 1 :=
      key_eq_iff hk (by rw [h.toInt_length]; omega)
    have hdistance : Direction.up.distance i k = q - p := by
      simp only [Direction.distance]
      omega
    rw [Function.update_of_ne (by simp), List.getElem?_eraseIdx]
    -- The last place was cleared; the places from `p` up to it hold what stood one further.
    by_cases hlast : q = items.length - 1
    · rw [hkey.2 hlast, Function.update_self, if_neg (by omega), List.getElem?_eq_none (by omega)]
      rfl
    · rw [Function.update_of_ne (by simpa [hkey] using hlast)]
      by_cases hin : p ≤ q ∧ q + 1 < items.length
      · rw [moved_of_reached t (by omega) (by omega), if_neg (by omega)]
        apply h.item
        rw [Direction.next, toInt_succ (by omega), hk]
        rfl
      · rw [moved_of_not_reached t (by omega), h.item k q hk]
        split
        · rfl
        · rw [List.getElem?_eq_none (by omega), List.getElem?_eq_none (by omega)]

/-- The items from the index on are one further, and the new one is in front of them. -/
theorem Represents.insert (h : Represents items t) (hroom : items.length < 9223372036854775807)
    {i : Int64} {p : Nat} (hi : i.toInt = p + 1) (hp : p < items.length) {v : Value α}
    (hv : v ≠ .nil) :
    Represents (items.take p ++ v :: items.drop p)
      (Function.update
        (Function.update (moved .down t (Int64.ofNat items.length + 1) (items.length - p))
          (.integer i) v)
        (.string "length") (.integer (Int64.ofNat items.length + 1))) := by
  have hbehind := h.toInt_behind hroom
  have hlength : (items.take p ++ v :: items.drop p).length = items.length + 1 := by
    simp
    omega
  refine ⟨?_, by omega, ?_, ?_⟩
  · rw [hlength, Int64.ofNat_add]
    simp
  · intro w hw
    rcases List.mem_append.1 hw with hw | hw
    · exact h.held w (List.mem_of_mem_take hw)
    · rcases List.mem_cons.1 hw with rfl | hw
      · exact hv
      · exact h.held w (List.mem_of_mem_drop hw)
  · intro k q hk
    have hkey := key_eq_iff hk hi
    have hdistance : Direction.down.distance (Int64.ofNat items.length + 1) k
        = items.length - q := by
      simp only [Direction.distance]
      omega
    rw [Function.update_of_ne (by simp), List.getElem?_append, List.length_take,
      Nat.min_eq_left (by omega)]
    -- The place itself holds the value. Those before it were not reached by the loop, and those
    -- behind it hold what stood one place before.
    by_cases hq : q = p
    · simp [hkey.2 hq, hq]
    · rw [Function.update_of_ne (by simpa [hkey] using hq)]
      by_cases hbefore : q < p
      · rw [moved_of_not_reached t (by omega), if_pos hbefore, h.item k q hk,
          List.getElem?_take_of_lt hbefore]
      · obtain ⟨r, rfl⟩ : ∃ r, q = p + r + 1 := ⟨q - p - 1, by omega⟩
        rw [if_neg hbefore, show p + r + 1 - p = r + 1 by omega, List.getElem?_cons_succ,
          List.getElem?_drop]
        by_cases hin : p + r + 1 ≤ items.length
        · rw [moved_of_reached t (by omega) (by omega)]
          apply h.item
          rw [Direction.next, toInt_pred (by omega), hk]
          push_cast
          omega
        · rw [moved_of_not_reached t (by omega), h.item k _ hk, List.getElem?_eq_none (by omega),
            List.getElem?_eq_none (by omega)]

end BlockLink.ListTable
