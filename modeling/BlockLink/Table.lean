/-!
# `BlockLink/Table.lean` — a finite map whose order does not show

A table is looked up, written and cleared by key, and never listed. So its keys only have to be told
apart, and its entries stand in the order they were written, the latest first. A key that is written
again loses its older entry, so that removing it leaves nothing behind.
-/

set_option autoImplicit false

namespace BlockLink

/-- A finite map that is only ever looked up. -/
structure Table (K V : Type) where
  entries : List (K × V)
  deriving DecidableEq, Repr

namespace Table

variable {K V : Type}

/-- The table without entries. -/
def empty : Table K V := ⟨[]⟩

instance : Inhabited (Table K V) := ⟨empty⟩

variable [DecidableEq K]

/-- The value of the first entry under a key. -/
def lookup (k : K) : List (K × V) → Option V
  | [] => none
  | (k', v) :: rest => if k = k' then some v else lookup k rest

/-- The entries that are not under a key. -/
def discard (k : K) : List (K × V) → List (K × V)
  | [] => []
  | (k', v) :: rest => if k = k' then discard k rest else (k', v) :: discard k rest

/-- The value stored under a key. -/
def get? (t : Table K V) (k : K) : Option V :=
  lookup k t.entries

/-- The table without a key. -/
def erase (t : Table K V) (k : K) : Table K V :=
  ⟨discard k t.entries⟩

/-- The table with a value stored under a key. -/
def insert (t : Table K V) (k : K) (v : V) : Table K V :=
  ⟨(k, v) :: discard k t.entries⟩

theorem lookup_discard (k j : K) (l : List (K × V)) :
    lookup j (discard k l) = if j = k then none else lookup j l := by
  induction l with
  | nil => simp [discard, lookup]
  | cons e rest ih =>
    obtain ⟨k', v⟩ := e
    by_cases hk : k = k'
    · -- The first entry goes; it is the one that is looked for exactly if `j` is the key.
      rw [discard, if_pos hk, ih, lookup, ← hk]
      by_cases hj : j = k
      · rw [if_pos hj, if_pos hj]
      · rw [if_neg hj, if_neg hj, if_neg hj]
    · rw [discard, if_neg hk, lookup, lookup, ih]
      by_cases hj : j = k'
      · have hne : j ≠ k := fun h => hk (h.symm.trans hj)
        rw [if_pos hj, if_neg hne, if_pos hj]
      · rw [if_neg hj, if_neg hj]

/-- A key without a value has no entry to discard. -/
theorem discard_of_lookup_eq_none {k : K} {l : List (K × V)} (h : lookup k l = none) :
    discard k l = l := by
  induction l with
  | nil => rfl
  | cons e rest ih =>
    obtain ⟨k', v⟩ := e
    rw [lookup] at h
    by_cases hk : k = k'
    · rw [if_pos hk] at h
      cases h
    · rw [if_neg hk] at h
      rw [discard, if_neg hk, ih h]

theorem discard_discard (k j : K) (l : List (K × V)) :
    discard k (discard j l) = discard j (discard k l) := by
  induction l with
  | nil => rfl
  | cons e rest ih =>
    obtain ⟨k', v⟩ := e
    by_cases hk : k = k'
    · subst hk
      by_cases hj : j = k
      · rw [hj]
      · simp [discard, hj, ih]
    · by_cases hj : j = k'
      · subst hj
        simp [discard, hk, ih]
      · simp [discard, hk, hj, ih]

theorem get?_erase (t : Table K V) (k j : K) :
    (t.erase k).get? j = if j = k then none else t.get? j :=
  lookup_discard k j t.entries

theorem get?_insert (t : Table K V) (k j : K) (v : V) :
    (t.insert k v).get? j = if j = k then some v else t.get? j := by
  unfold insert get?
  rw [lookup, lookup_discard]
  by_cases hj : j = k
  · rw [if_pos hj, if_pos hj]
  · rw [if_neg hj, if_neg hj, if_neg hj]

theorem erase_of_get?_eq_none {t : Table K V} {k : K} (h : t.get? k = none) : t.erase k = t :=
  congrArg mk (discard_of_lookup_eq_none h)

/-- In which order keys are removed does not matter. -/
theorem erase_foldl (t : Table K V) (ks : List K) (k : K) :
    (ks.foldl erase t).erase k = ks.foldl erase (t.erase k) := by
  induction ks generalizing t with
  | nil => rfl
  | cons j ks ih =>
    have hcomm : (t.erase j).erase k = (t.erase k).erase j :=
      congrArg mk (discard_discard k j t.entries)
    rw [List.foldl_cons, List.foldl_cons, ih, hcomm]

/-- Writing a new key and removing it leaves no trace. -/
theorem erase_insert {t : Table K V} {k : K} (h : t.get? k = none) (v : V) :
    (t.insert k v).erase k = t := by
  have hsame : discard k t.entries = t.entries := discard_of_lookup_eq_none h
  unfold insert erase
  rw [discard, if_pos rfl, hsame, hsame]

end Table

end BlockLink
