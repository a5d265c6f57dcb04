/-!
# `BlockLink/SortedMap.lean` — a finite map as a list of pairs in key order

Pin tables, unit tables and the pin memory are all small maps whose order shows: units are declared
in id order, pins are listed in pin order. The map is a list of pairs with ascending keys, and every
operation is a recursion that stops at the first key not below the one it looks for. The two
operations that also give back what they found, `exchange` and `take`, search once and then work at
the place where the search ended.

`get?` is the view the operations are described by; the order of `entries` is the order every
listing has.
-/

set_option autoImplicit false

namespace BlockLink

/-- A finite map whose entries are listed by ascending key. -/
structure SortedMap (K V : Type) where
  entries : List (K × V)
  deriving DecidableEq, Repr

namespace SortedMap

variable {K V : Type}

/-- The map without entries. -/
def empty : SortedMap K V := ⟨[]⟩

instance : Inhabited (SortedMap K V) := ⟨empty⟩

variable [Ord K]

/-- The value stored under a key in a list of entries. -/
def lookup (k : K) : List (K × V) → Option V
  | [] => none
  | (k', v) :: rest =>
    match compare k k' with
    | .lt => none
    | .eq => some v
    | .gt => lookup k rest

/-- The entries with a value stored under a key, in place of the one already there. -/
def store (k : K) (v : V) : List (K × V) → List (K × V)
  | [] => [(k, v)]
  | (k', v') :: rest =>
    match compare k k' with
    | .lt => (k, v) :: (k', v') :: rest
    | .eq => (k', v) :: rest
    | .gt => (k', v') :: store k v rest

/-- The entries without the one under a key. -/
def discard (k : K) : List (K × V) → List (K × V)
  | [] => []
  | (k', v') :: rest =>
    match compare k k' with
    | .lt => (k', v') :: rest
    | .eq => rest
    | .gt => (k', v') :: discard k rest

/-- Where a key stands in a list of entries, or else the place it belongs at. -/
def position (k : K) : List (K × V) → Except Nat Nat
  | [] => .error 0
  | (k', _) :: rest =>
    match compare k k' with
    | .lt => .error 0
    | .eq => .ok 0
    | .gt =>
      match position k rest with
      | .ok i => .ok (i + 1)
      | .error i => .error (i + 1)

/-- The value stored under a key. -/
def get? (m : SortedMap K V) (k : K) : Option V :=
  lookup k m.entries

/-- Whether a key has a value. -/
def contains (m : SortedMap K V) (k : K) : Bool :=
  (m.get? k).isSome

/-- The map with a value stored under a key. -/
def insert (m : SortedMap K V) (k : K) (v : V) : SortedMap K V :=
  ⟨store k v m.entries⟩

/-- The map without a key. -/
def erase (m : SortedMap K V) (k : K) : SortedMap K V :=
  ⟨discard k m.entries⟩

/-- Stores a value at the place of its key, and gives the one that was there before. -/
def exchange (m : SortedMap K V) (k : K) (v : V) : Option V × SortedMap K V :=
  match position k m.entries with
  | .ok i => (m.entries[i]?.map (·.2), ⟨m.entries.modify i fun e => (e.1, v)⟩)
  | .error i => (none, ⟨m.entries.insertIdx i (k, v)⟩)

/-- Removes the entry at the place of a key, and gives the value it had. -/
def take (m : SortedMap K V) (k : K) : Option V × SortedMap K V :=
  match position k m.entries with
  | .ok i => (m.entries[i]?.map (·.2), ⟨m.entries.eraseIdx i⟩)
  | .error _ => (none, m)

/-- Changes the value under a key, if there is one. -/
def modify (m : SortedMap K V) (k : K) (f : V → V) : SortedMap K V :=
  match m.get? k with
  | some v => m.insert k (f v)
  | none => m

/-- The map with the given pairs stored one after another: a repeated key keeps its last value. -/
def ofList (pairs : List (K × V)) : SortedMap K V :=
  pairs.foldl (fun m p => m.insert p.1 p.2) empty

omit [Ord K]

/-- Changes every value, by a function that sees its key. -/
def modifyEach (m : SortedMap K V) (f : K → V → V) : SortedMap K V :=
  ⟨m.entries.map fun p => (p.1, f p.1 p.2)⟩

/-- Changes every value. -/
def mapValues (m : SortedMap K V) (f : V → V) : SortedMap K V :=
  m.modifyEach fun _ => f

/-- The keys, ascending. -/
def keys (m : SortedMap K V) : List K :=
  m.entries.map (·.1)

/-- The values, by ascending key. -/
def values (m : SortedMap K V) : List V :=
  m.entries.map (·.2)

/-- The largest key. -/
def lastKey? (m : SortedMap K V) : Option K :=
  m.keys.getLast?

/-- The number of entries. -/
def size (m : SortedMap K V) : Nat :=
  m.entries.length

/-- Whether there are no entries. -/
def isEmpty (m : SortedMap K V) : Bool :=
  m.entries.isEmpty

end SortedMap

end BlockLink
