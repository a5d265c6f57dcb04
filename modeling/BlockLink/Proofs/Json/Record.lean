import Mathlib.Data.List.Forall2
import BlockLink.Json.Record

/-!
# `BlockLink/Proofs/Json/Record.lean` — what a value says about the fields of a record

`Json.HasFields` is the rule for records without the reader: the fields stand in their order in an
array that may stop early, or by name in an object that may hold others. `fields?_eq_some_iff` says
that the reader follows the rule.

The depth of a value is how far arrays and objects nest in it. A field is less deep than the record
it stands in, which is what lets readers that count nesting recurse on a record.
-/

set_option autoImplicit false

namespace BlockLink

/-- Reading a list succeeds if each of its items can be read. -/
theorem mapM_eq_some_iff {α β : Type} {f : α → Option β} {xs : List α} {ys : List β} :
    xs.mapM f = some ys ↔ List.Forall₂ (fun x y => f x = some y) xs ys := by
  induction xs generalizing ys with
  | nil => simp [eq_comm]
  | cons x xs ih =>
    rw [List.mapM_cons, List.forall₂_cons_left_iff]
    constructor
    · intro h
      obtain ⟨y, hy, h⟩ := Option.bind_eq_some_iff.mp h
      obtain ⟨rest, hrest, h⟩ := Option.bind_eq_some_iff.mp h
      cases h
      exact ⟨y, rest, hy, ih.mp hrest, rfl⟩
    · rintro ⟨y, rest, hy, hrest, rfl⟩
      rw [hy, ih.mpr hrest]
      rfl

theorem exists_mem_of_forall₂ {α β : Type} {R : α → β → Prop} {xs : List α} {ys : List β}
    (h : List.Forall₂ R xs ys) {y : β} (hy : y ∈ ys) : ∃ x ∈ xs, R x y := by
  induction h with
  | nil => cases hy
  | cons hxy _ ih =>
    rcases List.mem_cons.mp hy with rfl | hy
    · exact ⟨_, List.mem_cons_self, hxy⟩
    · obtain ⟨x, hx, hR⟩ := ih hy
      exact ⟨x, List.mem_cons_of_mem _ hx, hR⟩

namespace Json

/-! ## Fields

The rule first, and then that the reader follows it. In an object a field may stand once only, by
whichever of its names. -/

/-- The key spells one of the given names. -/
def Key.Spells (key : Key) (names : List String) : Prop :=
  ∃ name ∈ names, key.text = some name

/-- What the fields of an object say about the field that goes by one of the given names: it is
missing, or it is there once. -/
def HasField (fields : List (Key × Json)) (names : List String) : Option Json → Prop
  | none => ∀ f ∈ fields, ¬ f.1.Spells names
  | some value => ∃ front key back, fields = front ++ (key, value) :: back ∧ key.Spells names ∧
      ∀ f ∈ front ++ back, ¬ f.1.Spells names

/-- What a value says about the fields of a record, each given by the names it goes by. -/
inductive HasFields (names : List (List String)) : Json → List (Option Json) → Prop where
  /-- The fields in their order; those that are not there are the last ones. -/
  | inOrder {items : List Json} {missing : Nat} (hcount : items.length + missing = names.length) :
      HasFields names (.array items) (items.map some ++ List.replicate missing none)
  /-- The fields by name, with any others between them. -/
  | byName {fields : List (Key × Json)} {values : List (Option Json)}
      (hkeys : ∀ f ∈ fields, f.1.text ≠ none)
      (hvalues : List.Forall₂ (HasField fields) names values) :
      HasFields names (.object fields) values

theorem any_eq_true_iff_spells {key : Key} {names : List String} :
    (names.any fun name => key.text == some name) = true ↔ key.Spells names := by
  simp [Key.Spells]

/-- A field is looked up by filtering. What is left by the filter is nothing, the one field, or too
much. -/
theorem field?_eq_some_iff {fields : List (Key × Json)} {names : List String}
    {value : Option Json} :
    field? fields names = some value ↔ HasField fields names value := by
  have hnone : fields.filter (fun f => names.any fun name => f.1.text == some name) = [] ↔
      HasField fields names none := by
    simp only [List.filter_eq_nil_iff, any_eq_true_iff_spells, HasField]
  have hone : ∀ f : Key × Json,
      fields.filter (fun f => names.any fun name => f.1.text == some name) = [f] →
        HasField fields names (some f.2) := by
    intro f hf
    -- One field is left: it was dropped nowhere, and everything before and behind it was.
    obtain ⟨front, back, hfields, hfront, hkey, hback⟩ := List.filter_eq_cons_iff.mp hf
    rw [List.filter_eq_nil_iff] at hback
    simp only [any_eq_true_iff_spells] at hfront hkey hback
    refine ⟨front, f.1, back, hfields, hkey, ?_⟩
    intro g hg
    rcases List.mem_append.mp hg with hg | hg
    · exact hfront g hg
    · exact hback g hg
  constructor
  · intro h
    rw [field?] at h
    split at h
    · rename_i hfilter
      cases h
      exact hnone.mp hfilter
    · rename_i f hfilter
      cases h
      exact hone f hfilter
    · cases h
  · intro h
    cases value with
    | none => rw [field?, hnone.mpr h]
    | some value =>
      obtain ⟨front, key, back, hfields, hkey, hothers⟩ := h
      have hfilter : fields.filter (fun f => names.any fun name => f.1.text == some name)
          = [(key, value)] := by
        rw [List.filter_eq_cons_iff]
        refine ⟨front, back, hfields, ?_, any_eq_true_iff_spells.mpr hkey, ?_⟩
        · intro f hf
          rw [any_eq_true_iff_spells]
          exact hothers f (List.mem_append_left back hf)
        · rw [List.filter_eq_nil_iff]
          intro f hf
          rw [any_eq_true_iff_spells]
          exact hothers f (List.mem_append_right front hf)
      rw [field?, hfilter]

/-- The reader of records follows the rule for records. -/
theorem fields?_eq_some_iff {names : List (List String)} {j : Json} {values : List (Option Json)} :
    j.fields? names = some values ↔ HasFields names j values := by
  constructor
  · intro h
    cases j with
    | array items =>
      rw [fields?] at h
      split at h
      · rename_i hlength
        cases h
        exact .inOrder (by omega)
      · cases h
    | object fields =>
      rw [fields?] at h
      split at h
      · rename_i hkeys
        refine .byName ?_ ((mapM_eq_some_iff.mp h).imp fun names value => field?_eq_some_iff.mp)
        intro f hf
        exact Option.isSome_iff_ne_none.mp (List.all_eq_true.mp hkeys f hf)
      · cases h
    | null | bool | number | string => cases h
  · intro h
    cases h with
    -- The fields that are missing at the end are as many as the array is too short.
    | @inOrder items missing hcount =>
      have hmissing : names.length - items.length = missing := by omega
      rw [fields?, if_pos (by omega), hmissing]
    | byName hkeys hvalues =>
      rw [fields?, if_pos]
      · exact mapM_eq_some_iff.mpr (hvalues.imp fun names value => field?_eq_some_iff.mpr)
      · exact List.all_eq_true.mpr fun f hf => Option.isSome_iff_ne_none.mpr (hkeys f hf)

/-! ## Reading a field

A field can be demanded, left out for its default, or null. -/

theorem text?_eq_some_iff {j : Json} {s : String} : j.text? = some s ↔ j = .str s := by
  cases j with
  | string text => simp [text?, str]
  | null | bool | number | array | object => simp [text?, str]

theorem required?_eq_some_iff {α : Type} {read : Json → Option α} {field : Option Json} {a : α} :
    required? read field = some a ↔ ∃ v, field = some v ∧ read v = some a := by
  cases field with
  | none => simp [required?]
  | some v => simp [required?]

/-- A field that is missing is its default. One that is there must be read: the default is no excuse
for a wrong value. -/
theorem optional?_eq_some_iff {α : Type} {default : α} {read : Json → Option α}
    {field : Option Json} {a : α} : optional? default read field = some a ↔
      field = none ∧ a = default ∨ ∃ v, field = some v ∧ read v = some a := by
  cases field with
  | none => simp [optional?, eq_comm]
  | some v => simp [optional?]

theorem nullable?_eq_some_none_iff {α : Type} {read : Json → Option α} {j : Json} :
    nullable? read j = some none ↔ j = .null := by
  cases j with
  | null => simp [nullable?]
  | bool | number | string | array | object => simp [nullable?]

/-- A reader that does not take a null itself is not changed on other values. -/
theorem nullable?_eq_some_some_iff {α : Type} {read : Json → Option α} (hnull : read .null = none)
    {j : Json} {a : α} : nullable? read j = some (some a) ↔ read j = some a := by
  cases j with
  | null => simp [nullable?, hnull]
  | bool | number | string | array | object => simp [nullable?]

/-! ## Depth

Readers of nested values count the depth that is left to them. These lemmas say how much of it a
record uses up. -/

mutual

/-- How deep arrays and objects nest in a value. -/
def depth : Json → Nat
  | .null | .bool _ | .number _ | .string _ => 0
  | .array items => depthOfItems items + 1
  | .object fields => depthOfFields fields + 1

/-- The greatest depth of values. -/
def depthOfItems : List Json → Nat
  | [] => 0
  | item :: rest => max item.depth (depthOfItems rest)

/-- The greatest depth of the values of fields. -/
def depthOfFields : List (Key × Json) → Nat
  | [] => 0
  | (_, value) :: rest => max value.depth (depthOfFields rest)

end

theorem depthOfItems_le_iff {items : List Json} {n : Nat} :
    depthOfItems items ≤ n ↔ ∀ item ∈ items, item.depth ≤ n := by
  induction items with
  | nil => simp [depthOfItems]
  | cons item items ih => rw [depthOfItems, Nat.max_le, ih, List.forall_mem_cons]

theorem depthOfFields_le_iff {fields : List (Key × Json)} {n : Nat} :
    depthOfFields fields ≤ n ↔ ∀ f ∈ fields, f.2.depth ≤ n := by
  induction fields with
  | nil => simp [depthOfFields]
  | cons f fields ih => rw [depthOfFields, Nat.max_le, ih, List.forall_mem_cons]

theorem depth_record_le_iff {fields : List (String × Json)} {n : Nat} :
    (record fields).depth ≤ n + 1 ↔ ∀ f ∈ fields, f.2.depth ≤ n := by
  rw [record, depth, Nat.add_le_add_iff_right, depthOfFields_le_iff, List.forall_mem_map]

theorem depth_le_of_singleton {key : Key} {value : Json} {n : Nat}
    (h : (Json.object [(key, value)]).depth ≤ n + 1) : value.depth ≤ n := by
  rw [depth, Nat.add_le_add_iff_right] at h
  exact depthOfFields_le_iff.mp h (key, value) List.mem_cons_self

theorem depth_le_of_hasField {fields : List (Key × Json)} {names : List String} {value : Json}
    (h : HasField fields names (some value)) : value.depth ≤ depthOfFields fields := by
  obtain ⟨front, key, back, hfields, -, -⟩ := h
  refine depthOfFields_le_iff.mp (Nat.le_refl _) (key, value) ?_
  rw [hfields]
  exact List.mem_append_right front List.mem_cons_self

/-- A field is less deep than its record. -/
theorem depth_lt_of_hasFields {names : List (List String)} {j : Json} {values : List (Option Json)}
    (h : HasFields names j values) {value : Json} (hvalue : some value ∈ values) :
    value.depth < j.depth := by
  cases h with
  | @inOrder items missing hcount =>
    have hitem : value ∈ items := by simpa using hvalue
    exact Nat.lt_succ_of_le (depthOfItems_le_iff.mp (Nat.le_refl _) value hitem)
  | byName hkeys hvalues =>
    obtain ⟨_, -, hfield⟩ := exists_mem_of_forall₂ hvalues hvalue
    exact Nat.lt_succ_of_le (depth_le_of_hasField hfield)

theorem depth_pos_of_hasFields {names : List (List String)} {j : Json} {values : List (Option Json)}
    (h : HasFields names j values) : 0 < j.depth := by
  cases h with
  | inOrder => exact Nat.succ_pos _
  | byName => exact Nat.succ_pos _

end Json

end BlockLink
