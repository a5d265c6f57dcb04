import BlockLink.Program
import BlockLink.Proofs.Device.ListTable
import BlockLink.Proofs.Lua.Pause

/-!
# `BlockLink/Proofs/Device/ListFunctions.lean` — the list functions of a program do what lists do

Here the functions are syntax trees whose text is a part of every program. Each of them first checks
that it was given a list and an index in it, and what the rest does is that of the operation of the
same name, for every list whose length an integer can hold.
-/

set_option autoImplicit false

namespace BlockLink.ListFunctions

open BlockLink.Lua BlockLink.ListTable

/-! ## The functions

The trees are read as they stand in the source. That they are its text is `helpers_eq`; nothing else
about the source is used. -/

/-- `l.length`. -/
def listLength : Expr :=
  .index (.name "l") (.string "length")

/-- `l[key]`. -/
def itemAt (key : Expr) : Expr :=
  .index (.name "l") key

/-- Gives up if there is no list. -/
def unlessTable (e : Option Expr) : Stat :=
  .cond (.binary .differs (.call .type (.name "l")) (.string "table")) [.ret e]

/-- Makes a number of the index. -/
def resolveIndex : Stat :=
  .assignCall "i" "_ix" [.name "l", .name "i"]

/-- The index is none, or before the first item or behind the last. -/
def outOfRange : Expr :=
  .either
    (.either (.binary .equal (.name "i") .nil) (.binary .less (.name "i") (.numeral 1)))
    (.binary .greater (.name "i") listLength)

/-- Moves the items behind the index towards the front. -/
def moveToFront : Stat :=
  .loop "k" (.name "i") (.binary .minus listLength (.numeral 1)) .up
    [.store (.name "l") (.name "k") (itemAt (.binary .plus (.name "k") (.numeral 1)))]

/-- Moves the items from the index on towards the end, the last one first. -/
def moveToEnd : Stat :=
  .loop "k" listLength (.name "i") .down
    [.store (.name "l") (.binary .plus (.name "k") (.numeral 1)) (itemAt (.name "k"))]

/-- Empties the list if it is asked to. -/
def deleteAllIfAsked : Stat :=
  .cond (.binary .equal (.name "i") (.string "all"))
    [.loop "k" (.numeral 1) listLength .up [.store (.name "l") (.name "k") .nil],
     .store (.name "l") (.string "length") (.numeral 0),
     .ret none]

/-- Goes through the list until an item is found. -/
def search : Stat :=
  .loop "i" (.numeral 1) listLength .up
    [.cond (.binary .equal (itemAt (.name "i")) (.name "x")) [.ret (some (.boolean true))]]

/-- `_ix(l, i)`: the number of an item, which may be given as the last one or as any. -/
def index : Definition where
  name := "_ix"
  params := ["l", "i"]
  body :=
    [.cond (.binary .equal (.name "i") (.string "last")) [.ret (some listLength)],
     .cond
       (.either
         (.binary .equal (.name "i") (.string "any"))
         (.binary .equal (.name "i") (.string "random")))
       [.cond (.binary .less listLength (.numeral 1)) [.ret (some .nil)],
        .ret (some (.call .random listLength))],
     .declare "n" (.call .tonumber (.name "i")),
     .cond (.binary .equal (.name "n") .nil) [.ret (some .nil)],
     .ret (some (.call .floor (.name "n")))]

/-- `_lg(l, i)`: an item. -/
def get : Definition where
  name := "_lg"
  params := ["l", "i"]
  body :=
    [unlessTable (some .nil),
     resolveIndex,
     .cond outOfRange [.ret (some .nil)],
     .ret (some (itemAt (.name "i")))]

/-- `_ll(l)`: the number of items. -/
def count : Definition where
  name := "_ll"
  params := ["l"]
  body := [unlessTable (some (.numeral 0)), .ret (some listLength)]

/-- `_lh(l, x)`: whether a value is an item. -/
def has : Definition where
  name := "_lh"
  params := ["l", "x"]
  body :=
    [unlessTable (some (.boolean false)),
     search,
     .ret (some (.boolean false))]

/-- `_la(l, x)`: a value behind the last item. -/
def add : Definition where
  name := "_la"
  params := ["l", "x"]
  body :=
    [unlessTable none,
     .store (.name "l") (.string "length") (.binary .plus listLength (.numeral 1)),
     .store (.name "l") listLength (.name "x")]

/-- `_ld(l, i)`: an item taken out, or all of them. -/
def delete : Definition where
  name := "_ld"
  params := ["l", "i"]
  body :=
    [unlessTable none,
     deleteAllIfAsked,
     resolveIndex,
     .cond outOfRange [.ret none],
     moveToFront,
     .store (.name "l") listLength .nil,
     .store (.name "l") (.string "length") (.binary .minus listLength (.numeral 1))]

/-- `_li(l, i, x)`: a value in front of an item. -/
def insert : Definition where
  name := "_li"
  params := ["l", "i", "x"]
  body :=
    [unlessTable none,
     resolveIndex,
     .cond outOfRange [.ret none],
     moveToEnd,
     .store (.name "l") (.name "i") (.name "x"),
     .store (.name "l") (.string "length") (.binary .plus listLength (.numeral 1))]

/-- `_lr(l, i, x)`: a value in place of an item. -/
def replace : Definition where
  name := "_lr"
  params := ["l", "i", "x"]
  body :=
    [unlessTable none,
     resolveIndex,
     .cond outOfRange [.ret none],
     .store (.name "l") (.name "i") (.name "x")]

/-- The functions in the order in which a program defines them. -/
def all : List Definition :=
  [index, get, count, has, add, delete, insert, replace]

/-- What calling one of them does. -/
def call {α : Type} [DecidableEq α] : Calls α :=
  callIn all.reverse

theorem helpers_eq :
    ∃ front back, Program.helpers = String.join (front ++ all.map Definition.text ++ back) := by
  -- Line by line, so that only the texts of these functions are worked out.
  exact ⟨[_, _, _], [_], congrArg String.join
    (congrArg₂ List.cons rfl (congrArg₂ List.cons rfl (congrArg₂ List.cons rfl
      (congrArg₂ List.cons (by decide +kernel) (congrArg₂ List.cons (by decide +kernel)
      (congrArg₂ List.cons (by decide +kernel) (congrArg₂ List.cons (by decide +kernel)
      (congrArg₂ List.cons (by decide +kernel) (congrArg₂ List.cons (by decide +kernel)
      (congrArg₂ List.cons (by decide +kernel) (congrArg₂ List.cons (by decide +kernel)
      rfl)))))))))))⟩

/-- Every program has the text of the functions in it. -/
theorem within_preamble (mark : String) :
    Within (String.join (all.map Definition.text)) (Program.preamble mark) := by
  obtain ⟨front, back, h⟩ := helpers_eq
  unfold Program.preamble
  rw [h]
  apply Within.append_left
  exact ⟨String.join front, String.join back, by simp [String.append_assoc]⟩

variable {α : Type} [DecidableEq α]

/-! ## Running the functions

One lemma for each part of a body: what the check lets through, what a loop leaves, and then what
the whole body does, with the call of `_ix` given as a hypothesis. -/

section

variable {calls : Calls α} {heap : Heap α} {ref : Nat} {items : List (Value α)} {i : Int64}
  {more : Locals α}

theorem execAll_unlessTable (e : Option Expr) (rest : List Stat) :
    Stat.execAll calls (unlessTable e :: rest) (("l", .table ref) :: more) heap
      = Stat.execAll calls rest (("l", .table ref) :: more) heap := by
  simp [unlessTable, Expr.eval, Library.apply, Operator.apply]

theorem execAll_deleteAllIfAsked (rest : List Stat) :
    Stat.execAll calls (deleteAllIfAsked :: rest) (("l", .table ref) :: ("i", .integer i) :: more)
      heap
      = Stat.execAll calls rest (("l", .table ref) :: ("i", .integer i) :: more) heap := by
  simp [deleteAllIfAsked, Expr.eval, List.lookup_cons, Operator.apply]

theorem eval_listLength :
    listLength.eval (("l", .table ref) :: more) heap = some (heap ref (.string "length")) := by
  simp [listLength, Expr.eval, Value.index]

theorem bound_listLength (h : Represents items (heap ref)) :
    (listLength.eval (("l", .table ref) :: more) heap).bind Value.integer?
      = some (Int64.ofNat items.length) := by
  simp [eval_listLength, h.length, Value.integer?]

theorem bound_index :
    ((Expr.name "i").eval (("l", .table ref) :: ("i", .integer i) :: more) heap).bind Value.integer?
      = some i := by
  simp [Expr.eval, List.lookup_cons, Value.integer?]

theorem call_index (v : Value α) (i : Int64) (heap : Heap α) :
    callIn [index] "_ix" [v, .integer i] heap = some (.integer i, heap) := by
  show (Stat.execAll (callIn []) index.body [("l", v), ("i", .integer i)] heap).map Flow.result = _
  simp [index, Expr.eval, Library.apply, Operator.apply, List.lookup_cons, Flow.result]

/-- The comparisons of the source are on integers of 64 bits. The length is one of them, so they
come to comparisons of numbers. -/
theorem eval_outOfRange (h : Represents items (heap ref)) :
    outOfRange.eval (("l", .table ref) :: ("i", .integer i) :: more) heap
      = some (.boolean (i.toInt < 1 ∨ items.length < i.toInt)) := by
  have hn := h.toInt_length
  by_cases hlow : i.toInt < 1 <;>
    simp [outOfRange, Expr.eval, eval_listLength, h.length, Operator.apply, List.lookup_cons,
      Int64.lt_iff_toInt_lt, hn, hlow]

theorem exec_resolveIndex
    (hcalls : calls "_ix" [.table ref, .integer i] heap = some (.integer i, heap)) :
    resolveIndex.exec calls (("l", .table ref) :: ("i", .integer i) :: more) heap
      = some (.next (("l", .table ref) :: ("i", .integer i) :: more) heap) := by
  simp [resolveIndex, Expr.eval, List.lookup_cons, hcalls, Locals.assign]

/-- The checks of an index, by which a function goes on only with one of the list. -/
theorem execAll_checks
    (hcalls : calls "_ix" [.table ref, .integer i] heap = some (.integer i, heap))
    (h : Represents items (heap ref)) {e : Option Expr} (he : e = none ∨ e = some .nil)
    (rest : List Stat) :
    Stat.execAll calls (resolveIndex :: .cond outOfRange [.ret e] :: rest)
        (("l", .table ref) :: ("i", .integer i) :: more) heap
      = if i.toInt < 1 ∨ items.length < i.toInt then some (.returned .nil heap)
        else Stat.execAll calls rest (("l", .table ref) :: ("i", .integer i) :: more) heap := by
  rw [Stat.execAll_cons, exec_resolveIndex hcalls, Option.bind_some, Flow.bind_next,
    Stat.execAll_cons, Stat.exec_cond, eval_outOfRange h]
  by_cases hout : i.toInt < 1 ∨ items.length < i.toInt
  · rcases he with rfl | rfl <;> simp [hout, Expr.eval]
  · simp [hout]

/-- The loop stores each item one place further in front. It runs up, so that no item is stored over
before it has been read. -/
theorem exec_moveToFront (h : Represents items (heap ref)) {p : Nat} (hi : i.toInt = p + 1)
    (hp : p < items.length) :
    moveToFront.exec calls (("l", .table ref) :: ("i", .integer i) :: more) heap
      = some (.next (("l", .table ref) :: ("i", .integer i) :: more)
          (Function.update heap ref (moved .up (heap ref) i (items.length - (p + 1))))) := by
  have hn := h.toInt_length
  have hend : (Int64.ofNat items.length - 1).toInt = items.length - 1 := by
    rw [toInt_pred (by omega), hn]
  -- From the place to the last but one: each of these is overwritten by the one behind it.
  have hturns : Direction.up.turns i (Int64.ofNat items.length - 1) = items.length - (p + 1) := by
    simp only [Direction.turns, Direction.distance, hend, hi]
    omega
  have hroom : ((items.length - (p + 1) : Nat) : Int)
      ≤ Direction.up.distance i (Int64.ofNat items.length) := by
    simp only [Direction.distance, hn, hi]
    omega
  rw [← hturns] at hroom ⊢
  have hlast : ((Expr.binary .minus listLength (.numeral 1)).eval
      (("l", .table ref) :: ("i", .integer i) :: more) heap).bind Value.integer?
      = some (Int64.ofNat items.length - 1) := by
    simp [Expr.eval, eval_listLength, h.length, Operator.apply, Value.integer?]
  rw [moveToFront, Stat.exec_loop, bound_index, Option.bind_some, hlast, Option.bind_some]
  refine repeatFrom_move (fun n => n) (fun n => rfl) ?_ _ i heap hroom
  intro n heap
  simp [Expr.eval, List.lookup_cons, itemAt, Operator.apply, Value.index,
    Direction.next, Flow.leave]

/-- The loop runs down from the last item, for the same reason, and writes one place behind it. That
place must still have an integer for a key. -/
theorem exec_moveToEnd (h : Represents items (heap ref))
    (hroom : items.length < 9223372036854775807) {p : Nat} (hi : i.toInt = p + 1)
    (hp : p < items.length) :
    moveToEnd.exec calls (("l", .table ref) :: ("i", .integer i) :: more) heap
      = some (.next (("l", .table ref) :: ("i", .integer i) :: more)
          (Function.update heap ref
            (moved .down (heap ref) (Int64.ofNat items.length + 1) (items.length - p)))) := by
  have hn := h.toInt_length
  have hbehind := h.toInt_behind hroom
  have hturns : Direction.down.turns (Int64.ofNat items.length) i = items.length - p := by
    simp only [Direction.turns, Direction.distance, hn, hi]
    omega
  have hahead : ((items.length - p : Nat) : Int)
      ≤ Direction.down.distance (Int64.ofNat items.length + 1) i := by
    simp only [Direction.distance, hbehind, hi]
    omega
  rw [← hturns] at hahead ⊢
  rw [moveToEnd, Stat.exec_loop, bound_listLength h, Option.bind_some, bound_index,
    Option.bind_some]
  refine repeatFrom_move (fun n => n + 1) ?_ ?_ _ (Int64.ofNat items.length) heap hahead
  · intro n
    simp only [Direction.next]
    grind
  · intro n heap
    simp [Expr.eval, List.lookup_cons, itemAt, Operator.apply, Value.index,
      Direction.next, Flow.leave]

/-- The search ends at the first item that is equal, and goes on behind the loop if there is
none. -/
theorem exec_search (h : Represents items (heap ref)) (v : Value α) :
    search.exec calls [("l", .table ref), ("x", v)] heap
      = some (if v ∈ items then .returned (.boolean true) heap
          else .next [("l", .table ref), ("x", v)] heap) := by
  have hfits := h.fits
  have hn := h.toInt_length
  have hturns : Direction.up.turns 1 (Int64.ofNat items.length) = items.length := by
    simp only [Direction.turns, Direction.distance, hn, Int64.toInt_one]
    omega
  have hone : ((Expr.numeral 1).eval [("l", .table ref), ("x", v)] heap).bind
      Value.integer? = some 1 := by
    simp [Expr.eval, Value.integer?]
  rw [search, Stat.exec_loop, hone, Option.bind_some, bound_listLength h, Option.bind_some, hturns]
  refine repeatFrom_search h ?_ items.length 1 0 (by omega) (fun _ => by simp)
  intro n
  by_cases heq : heap ref (.integer n) = v <;>
    simp [Expr.eval, List.lookup_cons, itemAt, Operator.apply, Value.index, Flow.leave, heq]

section

variable (hcalls : calls "_ix" [.table ref, .integer i] heap = some (.integer i, heap))
  (h : Represents items (heap ref)) (hout : i.toInt < 1 ∨ items.length < i.toInt)
include hcalls h hout

theorem execAll_delete_outside :
    Stat.execAll calls delete.body [("l", .table ref), ("i", .integer i)] heap
      = some (.returned .nil heap) := by
  rw [delete, execAll_unlessTable, execAll_deleteAllIfAsked, execAll_checks hcalls h
    (.inl rfl), if_pos hout]

theorem execAll_insert_outside (v : Value α) :
    Stat.execAll calls insert.body [("l", .table ref), ("i", .integer i), ("x", v)] heap
      = some (.returned .nil heap) := by
  rw [insert, execAll_unlessTable, execAll_checks hcalls h (.inl rfl), if_pos hout]

theorem execAll_replace_outside (v : Value α) :
    Stat.execAll calls replace.body [("l", .table ref), ("i", .integer i), ("x", v)] heap
      = some (.returned .nil heap) := by
  rw [replace, execAll_unlessTable, execAll_checks hcalls h (.inl rfl), if_pos hout]

end

theorem execAll_get (hcalls : calls "_ix" [.table ref, .integer i] heap = some (.integer i, heap))
    (h : Represents items (heap ref)) :
    Stat.execAll calls get.body [("l", .table ref), ("i", .integer i)] heap
      = some (.returned
          (if i.toInt < 1 ∨ items.length < i.toInt then .nil else heap ref (.integer i)) heap) := by
  rw [get, execAll_unlessTable, execAll_checks hcalls h (.inr rfl)]
  split <;> simp [itemAt, Expr.eval, List.lookup_cons, Value.index]

theorem execAll_count (calls : Calls α) (h : Represents items (heap ref)) :
    Stat.execAll calls count.body [("l", .table ref)] heap
      = some (.returned (.integer (Int64.ofNat items.length)) heap) := by
  rw [count, execAll_unlessTable]
  simp [eval_listLength, h.length]

theorem execAll_has (h : Represents items (heap ref)) (v : Value α) :
    Stat.execAll calls has.body [("l", .table ref), ("x", v)] heap
      = some (.returned (.boolean (v ∈ items)) heap) := by
  rw [has, execAll_unlessTable, Stat.execAll_cons, exec_search h]
  by_cases hv : v ∈ items <;> simp [hv, Expr.eval]

theorem execAll_add (h : Represents items (heap ref)) (v : Value α) :
    Stat.execAll calls add.body [("l", .table ref), ("x", v)] heap
      = some (.next [("l", .table ref), ("x", v)] (Function.update heap ref
          (Function.update
            (Function.update (heap ref) (.string "length")
              (.integer (Int64.ofNat items.length + 1)))
            (.integer (Int64.ofNat items.length + 1)) v))) := by
  rw [add, execAll_unlessTable]
  simp [eval_listLength, h.length, Expr.eval, List.lookup_cons, Operator.apply]

theorem execAll_replace
    (hcalls : calls "_ix" [.table ref, .integer i] heap = some (.integer i, heap))
    (h : Represents items (heap ref)) {p : Nat} (hi : i.toInt = p + 1) (hp : p < items.length)
    (v : Value α) :
    Stat.execAll calls replace.body [("l", .table ref), ("i", .integer i), ("x", v)] heap
      = some (.next [("l", .table ref), ("i", .integer i), ("x", v)]
          (Function.update heap ref (Function.update (heap ref) (.integer i) v))) := by
  rw [replace, execAll_unlessTable, execAll_checks hcalls h (.inl rfl), if_neg (by omega)]
  simp [Expr.eval, List.lookup_cons]

/-- The body of `_ld` closes the gap, clears the last place and then stores the length. -/
theorem execAll_delete
    (hcalls : calls "_ix" [.table ref, .integer i] heap = some (.integer i, heap))
    (h : Represents items (heap ref)) {p : Nat} (hi : i.toInt = p + 1) (hp : p < items.length) :
    Stat.execAll calls delete.body [("l", .table ref), ("i", .integer i)] heap
      = some (.next [("l", .table ref), ("i", .integer i)] (Function.update heap ref
          (Function.update
            (Function.update (moved .up (heap ref) i (items.length - (p + 1)))
              (.integer (Int64.ofNat items.length)) .nil)
            (.string "length") (.integer (Int64.ofNat items.length - 1))))) := by
  rw [delete, execAll_unlessTable, execAll_deleteAllIfAsked, execAll_checks hcalls h (.inl rfl),
    if_neg (by omega), Stat.execAll_cons, exec_moveToFront h hi hp, Option.bind_some,
    Flow.bind_next]
  simp [eval_listLength, h.length, Expr.eval, Operator.apply, moved]

/-- The body of `_li` opens a gap, stores the value in it and then the length. -/
theorem execAll_insert
    (hcalls : calls "_ix" [.table ref, .integer i] heap = some (.integer i, heap))
    (h : Represents items (heap ref)) (hroom : items.length < 9223372036854775807) {p : Nat}
    (hi : i.toInt = p + 1) (hp : p < items.length) (v : Value α) :
    Stat.execAll calls insert.body [("l", .table ref), ("i", .integer i), ("x", v)] heap
      = some (.next [("l", .table ref), ("i", .integer i), ("x", v)] (Function.update heap ref
          (Function.update
            (Function.update (moved .down (heap ref) (Int64.ofNat items.length + 1)
              (items.length - p)) (.integer i) v)
            (.string "length") (.integer (Int64.ofNat items.length + 1))))) := by
  rw [insert, execAll_unlessTable, execAll_checks hcalls h (.inl rfl), if_neg (by omega),
    Stat.execAll_cons, exec_moveToEnd h hroom hi hp, Option.bind_some, Flow.bind_next]
  simp [eval_listLength, h.length, Expr.eval, List.lookup_cons, Operator.apply, moved]

end

/-! ## Calls

The environment of a function holds the ones that were defined before it, and `_ix` is the first of
them. -/

section

variable {heap : Heap α} {ref : Nat} {items : List (Value α)}

/-- A call that gives nothing back and leaves the table with these items. -/
def Leaves (name : String) (args : List (Value α)) (heap : Heap α) (ref : Nat)
    (items : List (Value α)) : Prop :=
  ∃ heap', call name args heap = some (.nil, heap') ∧ Changed heap ref items heap'

/-- Outside the list nothing happens, to this table or another. -/
theorem call_outside {i : Int64} (h : Represents items (heap ref))
    (hout : i.toInt < 1 ∨ items.length < i.toInt) (v : Value α) :
    call "_ld" [.table ref, .integer i] heap = some (.nil, heap)
      ∧ call "_li" [.table ref, .integer i, v] heap = some (.nil, heap)
      ∧ call "_lr" [.table ref, .integer i, v] heap = some (.nil, heap) :=
  ⟨congrArg (Option.map Flow.result) (execAll_delete_outside (call_index ..) h hout),
    congrArg (Option.map Flow.result) (execAll_insert_outside (call_index ..) h hout v),
    congrArg (Option.map Flow.result) (execAll_replace_outside (call_index ..) h hout v)⟩

/-- A table with the new length and the value under it is that of the longer list. -/
theorem leaves_add (l : DeviceList (Value α)) (h : Represents l.items (heap ref)) {v : Value α}
    (hv : v ≠ .nil) (hroom : (l.add v).length < 9223372036854775808) :
    Leaves "_la" [.table ref, v] heap ref (l.add v).items := by
  have hroom : l.items.length < 9223372036854775807 := by
    simp only [DeviceList.length, DeviceList.add, List.length_append,
      List.length_singleton] at hroom
    omega
  have hbehind := h.toInt_behind hroom
  refine ⟨_, congrArg (Option.map Flow.result) (execAll_add h v), Changed.of_update
    (h.add hroom hv) ?_⟩
  intro key hlength hplace
  rw [Function.update_of_ne (hplace _ (by omega)), Function.update_of_ne hlength]

theorem leaves_replace (l : DeviceList (Value α)) (h : Represents l.items (heap ref)) (i : Int64)
    {v : Value α} (hv : v ≠ .nil) :
    Leaves "_lr" [.table ref, .integer i, v] heap ref (l.replace i.toInt v).2.items := by
  rcases slot?_cases l i.toInt with ⟨hout, hslot⟩ | ⟨p, hslot, hi, hp⟩
  · rw [DeviceList.replace, hslot]
    exact ⟨heap, (call_outside h hout v).2.2, Changed.refl h⟩
  · rw [DeviceList.replace, hslot]
    refine ⟨_, congrArg (Option.map Flow.result) (execAll_replace (call_index ..) h hi hp v),
      Changed.of_update (h.replace hi hp hv) ?_⟩
    intro key _ hplace
    exact Function.update_of_ne (hplace i (by omega)) ..

/-- An index outside the list leaves everything, and one in it takes out its item. -/
theorem leaves_delete (l : DeviceList (Value α)) (h : Represents l.items (heap ref)) (i : Int64) :
    Leaves "_ld" [.table ref, .integer i] heap ref (l.delete i.toInt).2.items := by
  rcases slot?_cases l i.toInt with ⟨hout, hslot⟩ | ⟨p, hslot, hi, hp⟩
  · rw [DeviceList.delete, hslot]
    exact ⟨heap, (call_outside h hout .nil).1, Changed.refl h⟩
  · have hn := h.toInt_length
    rw [DeviceList.delete, hslot]
    refine ⟨_, congrArg (Option.map Flow.result) (execAll_delete (call_index ..) h hi hp),
      Changed.of_update (h.delete hi hp) ?_⟩
    intro key hlength hplace
    rw [Function.update_of_ne hlength, Function.update_of_ne (hplace _ (by omega))]
    apply moved_besides _ hplace
    intro k hk
    simp only [Direction.distance]
    omega

/-- An index outside the list leaves everything, and one in it puts the value in front of its
item. -/
theorem leaves_insert (l : DeviceList (Value α)) (h : Represents l.items (heap ref)) (i : Int64)
    {v : Value α} (hv : v ≠ .nil) (hroom : (l.insert i.toInt v).2.length < 9223372036854775808) :
    Leaves "_li" [.table ref, .integer i, v] heap ref (l.insert i.toInt v).2.items := by
  rcases slot?_cases l i.toInt with ⟨hout, hslot⟩ | ⟨p, hslot, hi, hp⟩
  · rw [DeviceList.insert, hslot]
    exact ⟨heap, (call_outside h hout v).2.1, Changed.refl h⟩
  · have hn := h.toInt_length
    rw [DeviceList.insert, hslot] at hroom ⊢
    have hroom : l.items.length < 9223372036854775807 := by
      simp [DeviceList.length] at hroom
      omega
    have hbehind := h.toInt_behind hroom
    refine ⟨_, congrArg (Option.map Flow.result) (execAll_insert (call_index ..) h hroom hi hp v),
      Changed.of_update (h.insert hroom hi hp hv) ?_⟩
    intro key hlength hplace
    rw [Function.update_of_ne hlength, Function.update_of_ne (hplace i (by omega))]
    apply moved_besides _ hplace
    intro k hk
    simp only [Direction.distance, hbehind]
    omega

theorem call_get (l : DeviceList (Value α)) (h : Represents l.items (heap ref)) (i : Int64) :
    call "_lg" [.table ref, .integer i] heap = some ((l.item? i.toInt).getD .nil, heap) := by
  have hcall : call "_lg" [.table ref, .integer i] heap = _ :=
    congrArg (Option.map Flow.result) (execAll_get (call_index ..) h)
  rw [hcall, Option.map_some, Flow.result, DeviceList.item?]
  rcases slot?_cases l i.toInt with ⟨hout, hslot⟩ | ⟨p, hslot, hi, hp⟩
  · rw [if_pos hout, hslot, Option.bind_none, Option.getD_none]
  · rw [if_neg (by omega), hslot, Option.bind_some, h.item i p hi]

/-- The functions that a program defines do to the table of a list what the operations do to the
list. A list gets longer only as far as an integer can count its items. -/
theorem refine_operations (l : DeviceList (Value α)) (heap : Heap α) (ref : Nat)
    (h : Represents l.items (heap ref)) (i : Int64) (v : Value α) (hv : v ≠ .nil) :
    (∀ mark, Within (String.join (all.map Definition.text)) (Program.preamble mark))
      ∧ ((l.add v).length < 9223372036854775808 →
          Leaves "_la" [.table ref, v] heap ref (l.add v).items)
      ∧ ((l.insert i.toInt v).2.length < 9223372036854775808 →
          Leaves "_li" [.table ref, .integer i, v] heap ref (l.insert i.toInt v).2.items)
      ∧ Leaves "_ld" [.table ref, .integer i] heap ref (l.delete i.toInt).2.items
      ∧ Leaves "_lr" [.table ref, .integer i, v] heap ref (l.replace i.toInt v).2.items
      ∧ ((i.toInt < 1 ∨ l.length < i.toInt) →
          call "_ld" [.table ref, .integer i] heap = some (.nil, heap)
            ∧ call "_li" [.table ref, .integer i, v] heap = some (.nil, heap)
            ∧ call "_lr" [.table ref, .integer i, v] heap = some (.nil, heap))
      ∧ call "_lg" [.table ref, .integer i] heap = some ((l.item? i.toInt).getD .nil, heap)
      ∧ call "_lh" [.table ref, v] heap = some (.boolean (l.contains v), heap)
      ∧ call "_ll" [.table ref] heap = some (.integer (Int64.ofNat l.length), heap) :=
  ⟨within_preamble, leaves_add l h hv, leaves_insert l h i hv, leaves_delete l h i,
  leaves_replace l h i hv,
    fun hout => call_outside h hout v, call_get l h i,
    congrArg (Option.map Flow.result) (execAll_has h v),
    congrArg (Option.map Flow.result) (execAll_count (callIn [get, index]) h)⟩

end

/-- In a list of three the second item is deleted, replaced, or gets a new one in front of it. -/
theorem refine_operations_three :
    let heap : Heap Empty := fun _ => tableOf [.integer 5, .string "a", .integer 7]
    Represents [.integer 5, .string "a", .integer 7] (heap 0)
      ∧ Leaves "_ld" [.table 0, .integer 2] heap 0 [.integer 5, .integer 7]
      ∧ Leaves "_lr" [.table 0, .integer 2, .boolean true] heap 0
          [.integer 5, .boolean true, .integer 7]
      ∧ Leaves "_li" [.table 0, .integer 2, .boolean true] heap 0
          [.integer 5, .boolean true, .string "a", .integer 7] := by
  intro heap
  have h : Represents [.integer 5, .string "a", .integer 7] (heap 0) :=
    represents_tableOf (by decide) (by simp)
  obtain ⟨_, _, hinsert, hdelete, hreplace, _⟩ :=
    refine_operations ⟨[.integer 5, .string "a", .integer 7]⟩ heap 0 h 2 (.boolean true) (by simp)
  exact ⟨h, hdelete, hreplace, hinsert (by decide)⟩

end BlockLink.ListFunctions
