import BlockLink.Block.Json
import BlockLink.Proofs.Json.Record

/-!
# `BlockLink/Proofs/Block/RoundTrip.lean` — project files read back what was written

A project has one written form and many that are read. `Project.WrittenAs` says which, without the
reader: records by name or in order, missing fields for what they default to, fields nobody asked
for, null for no successor. Reading is exactly this relation (`ofJson?_of_writtenAs` and
`writtenAs_of_ofJson?`), and the form that `toJson` gives is one of it (`writtenAs_toJson`), so
reading undoes writing.

The reader enters only so many arrays and objects. One that is as deep as the value is always
enough. A project that was read from some value may nest one level deeper when it is written,
because a block whose inputs were left out is written with an empty array of them, and never more
than that.
-/

set_option autoImplicit false

namespace BlockLink

/-! ## The ways to write a project

A field is looked for under its name in an object and by its place in an array; `Json.HasFields`
says that a value has given fields either way, with `none` for one that is missing. A key knows
whether it was written without escapes, and for a project that does not matter. -/

/-- The value is a way to write the shape of a block. -/
def BlockKind.WrittenAs (kind : BlockKind) (j : Json) : Prop :=
  j = .str kind.name ∨ ∃ plain, j = .object [(⟨some kind.name, plain⟩, .null)]

mutual

/-- The value is a way to write a block and the chain below it. -/
def Block.WrittenAs : Block → Json → Prop
  | .mk selector kind inputs next, j => ∃ kindField inputsField nextField,
      j.HasFields [["selector"], ["kind"], ["inputs"], ["next"]]
        [some (.str selector), kindField, inputsField, nextField] ∧
      (kindField = none ∧ kind = .command ∨ ∃ v, kindField = some v ∧ kind.WrittenAs v) ∧
      (inputsField = none ∧ inputs = [] ∨
        ∃ items, inputsField = some (.array items) ∧ Slot.AllWrittenAs inputs items) ∧
      Block.NextWrittenAs next nextField

/-- The field is a way to write a successor or that there is none. -/
def Block.NextWrittenAs : Option Block → Option Json → Prop
  | none, field => field = none ∨ field = some .null
  | some b, field => ∃ v, field = some v ∧ b.WrittenAs v

/-- The value is a way to write the chain of a C-shaped slot. -/
def Block.ScriptWrittenAs : Option Block → Json → Prop
  | none, j => j = .null
  | some b, j => b.WrittenAs j

/-- The value is a way to write a slot: an object with one field that is named for the kind of
slot. -/
def Slot.WrittenAs : Slot → Json → Prop
  | .literal text, j => ∃ plain, j = .object [(⟨some "literal", plain⟩, .str text)]
  | .upvar name, j => ∃ plain, j = .object [(⟨some "upvarName", plain⟩, .str name)]
  | .script body, j =>
    ∃ plain v, j = .object [(⟨some "nestedStatement", plain⟩, v)] ∧ Block.ScriptWrittenAs body v
  | .reporter block, j =>
    ∃ plain v, j = .object [(⟨some "nestedReporter", plain⟩, v)] ∧ block.WrittenAs v
  | .variadic slots, j =>
    ∃ plain items, j = .object [(⟨some "variadic", plain⟩, .array items)] ∧
      Slot.AllWrittenAs slots items

/-- The values are ways to write slots, one after another. -/
def Slot.AllWrittenAs : List Slot → List Json → Prop
  | [], items => items = []
  | slot :: rest, items => ∃ v vs, items = v :: vs ∧ slot.WrittenAs v ∧ Slot.AllWrittenAs rest vs

end

/-- The value is a way to write a project. -/
def Project.WrittenAs (p : Project) (j : Json) : Prop :=
  ∃ nameField scripts, j.HasFields [["name"], ["scripts"]] [nameField, some (.array scripts)] ∧
    (nameField = none ∧ p.name = "" ∨ nameField = some (.str p.name)) ∧
    List.Forall₂ Block.WrittenAs p.scripts scripts

/-! ## What is written is one of them

By recursion on the tree, one function of the writer after another. The writer has one form for
everything, so there is nothing to choose. -/

mutual

/-- The form that the writer gives a block has all four fields, the successor as null if there is
none. -/
theorem Block.writtenAs_toJson : ∀ b : Block, b.WrittenAs b.toJson
  | .mk selector kind inputs next => by
    refine ⟨some (.str kind.name), some (.array (Slot.listToJson inputs)),
      (Block.nextToJson next).head?.map (·.2), ?_, .inr ⟨_, rfl, .inl rfl⟩,
      .inr ⟨_, rfl, Slot.allWrittenAs_listToJson inputs⟩, Block.nextWrittenAs_nextToJson next⟩
    rw [← Json.fields?_eq_some_iff]
    cases next with
    | none => rfl
    | some b => rfl

theorem Block.nextWrittenAs_nextToJson : ∀ next : Option Block,
    Block.NextWrittenAs next ((Block.nextToJson next).head?.map (·.2))
  | none => .inl rfl
  | some b => ⟨b.toJson, rfl, Block.writtenAs_toJson b⟩

theorem Block.scriptWrittenAs_scriptToJson : ∀ body : Option Block,
    Block.ScriptWrittenAs body (Block.scriptToJson body)
  | none => rfl
  | some b => Block.writtenAs_toJson b

theorem Slot.writtenAs_toJson : ∀ slot : Slot, slot.WrittenAs slot.toJson
  | .literal _ => ⟨true, rfl⟩
  | .upvar _ => ⟨true, rfl⟩
  | .script body => ⟨true, Block.scriptToJson body, rfl, Block.scriptWrittenAs_scriptToJson body⟩
  | .reporter block => ⟨true, block.toJson, rfl, Block.writtenAs_toJson block⟩
  | .variadic slots => ⟨true, Slot.listToJson slots, rfl, Slot.allWrittenAs_listToJson slots⟩

theorem Slot.allWrittenAs_listToJson : ∀ slots : List Slot,
    Slot.AllWrittenAs slots (Slot.listToJson slots)
  | [] => rfl
  | slot :: rest =>
    ⟨slot.toJson, Slot.listToJson rest, rfl, Slot.writtenAs_toJson slot,
      Slot.allWrittenAs_listToJson rest⟩

end

/-- The form that the writer gives a project is a way to write it. -/
theorem Project.writtenAs_toJson (p : Project) : p.WrittenAs p.toJson := by
  refine ⟨some (.str p.name), p.scripts.map Block.toJson, ?_, .inr rfl, ?_⟩
  · rw [← Json.fields?_eq_some_iff]
    rfl
  · rw [List.forall₂_map_right_iff, List.forall₂_same]
    exact fun b _ => b.writtenAs_toJson

/-! ## Reading them

The reader may enter `room` arrays and objects one inside another. A way to write something is read
whenever that is at least its depth: every field is less deep than the record that it is in. -/

namespace BlockKind

theorem ofName?_eq_some_iff {s : String} {kind : BlockKind} :
    ofName? s = some kind ↔ s = kind.name := by
  constructor
  · intro h
    have hname := List.find?_some h
    exact (beq_iff_eq.mp hname).symm
  · rintro rfl
    cases kind <;> rfl

/-- A shape is read off a string, or off an object with one field that is null. -/
theorem writtenAs_of_ofJson? {room : Nat} {j : Json} {kind : BlockKind}
    (h : ofJson? room j = some kind) : kind.WrittenAs j := by
  rw [ofJson?.eq_def] at h
  split at h
  · rw [ofName?_eq_some_iff] at h
    exact .inl (by rw [h]; rfl)
  · rw [ofName?_eq_some_iff] at h
    exact .inr ⟨_, by rw [h]⟩
  · cases h

theorem ofJson?_of_writtenAs {room : Nat} {j : Json} {kind : BlockKind} (h : kind.WrittenAs j)
    (hroom : j.depth ≤ room) : ofJson? room j = some kind := by
  rcases h with rfl | ⟨plain, rfl⟩
  · rw [Json.str, ofJson?, ofName?_eq_some_iff]
  · obtain _ | room := room
    · cases hroom
    · rw [ofJson?, ofName?_eq_some_iff]

end BlockKind

theorem Block.ofJson?_null (room : Nat) : Block.ofJson? room .null = none := by
  cases room with
  | zero => rw [Block.ofJson?]
  | succ room => rw [Block.ofJson?]; rfl

/-- A block is read field by field, with one array or object less to enter. -/
theorem Block.ofJson?_succ_eq_some_iff {room : Nat} {j : Json} {selector : String}
    {kind : BlockKind} {inputs : List Slot} {next : Option Block} :
    Block.ofJson? (room + 1) j = some (.mk selector kind inputs next) ↔
      ∃ kindField inputsField nextField,
        j.HasFields [["selector"], ["kind"], ["inputs"], ["next"]]
          [some (.str selector), kindField, inputsField, nextField] ∧
        Json.optional? .command (BlockKind.ofJson? room) kindField = some kind ∧
        Json.optional? [] (Slot.listOfJson? room) inputsField = some inputs ∧
        Json.optional? none (Json.nullable? (Block.ofJson? room)) nextField = some next := by
  rw [Block.ofJson?]
  constructor
  · intro h
    split at h
    · rename_i selectorField kindField inputsField nextField hfields
      obtain ⟨s, hs, h⟩ := Option.bind_eq_some_iff.mp h
      obtain ⟨k, hk, h⟩ := Option.bind_eq_some_iff.mp h
      obtain ⟨i, hi, h⟩ := Option.bind_eq_some_iff.mp h
      obtain ⟨n, hn, h⟩ := Option.bind_eq_some_iff.mp h
      cases h
      obtain ⟨v, rfl, hv⟩ := Json.required?_eq_some_iff.mp hs
      rw [Json.text?_eq_some_iff] at hv
      rw [hv] at hfields
      exact ⟨kindField, inputsField, nextField, Json.fields?_eq_some_iff.mp hfields, hk, hi, hn⟩
    · cases h
  · rintro ⟨kindField, inputsField, nextField, hfields, hkind, hinputs, hnext⟩
    rw [Json.fields?_eq_some_iff.mpr hfields]
    dsimp only
    rw [hkind, hinputs, hnext]
    rfl

/-- Every way to write a slot is an object, so the reader needs room for one. -/
theorem Slot.depth_pos_of_writtenAs (slot : Slot) {j : Json} (h : slot.WrittenAs j) :
    0 < j.depth := by
  cases slot with
  | literal | upvar =>
    obtain ⟨_, rfl⟩ := h
    exact Nat.succ_pos _
  | script | reporter | variadic =>
    obtain ⟨_, _, rfl, -⟩ := h
    exact Nat.succ_pos _

mutual

/-- Every way to write a block is read as that block. -/
theorem Block.ofJson?_of_writtenAs : ∀ (b : Block) {j : Json} {room : Nat}, b.WrittenAs j →
    j.depth ≤ room → Block.ofJson? room j = some b
  | .mk selector kind inputs next, j, 0, h, hroom => by
    obtain ⟨_, _, _, hfields, -⟩ := h
    exact absurd (Json.depth_pos_of_hasFields hfields) (by omega)
  | .mk selector kind inputs next, j, room + 1, h, hroom => by
    obtain ⟨kindField, inputsField, nextField, hfields, hkind, hinputs, hnext⟩ := h
    -- What is in a field is less deep than the record, so it fits into the room that is left.
    have hdepth : ∀ v, some v ∈ [some (.str selector), kindField, inputsField, nextField] →
        v.depth ≤ room := by
      intro v hv
      have hlt := Json.depth_lt_of_hasFields hfields hv
      omega
    refine Block.ofJson?_succ_eq_some_iff.mpr ⟨kindField, inputsField, nextField,
      hfields, ?_, ?_, ?_⟩
    · rw [Json.optional?_eq_some_iff]
      rcases hkind with hmissing | ⟨v, rfl, hv⟩
      · exact .inl hmissing
      · exact .inr ⟨v, rfl, BlockKind.ofJson?_of_writtenAs hv (hdepth v (by simp))⟩
    · rw [Json.optional?_eq_some_iff]
      rcases hinputs with hmissing | ⟨items, rfl, hitems⟩
      · exact .inl hmissing
      · exact .inr ⟨_, rfl, Slot.listOfJson?_of_allWrittenAs inputs hitems (hdepth _ (by simp))⟩
    · exact Block.next_of_nextWrittenAs next hnext fun v hv => hdepth v (by simp [hv])

theorem Block.next_of_nextWrittenAs : ∀ (next : Option Block) {field : Option Json} {room : Nat},
    Block.NextWrittenAs next field → (∀ v, field = some v → v.depth ≤ room) →
    Json.optional? none (Json.nullable? (Block.ofJson? room)) field = some next
  | none, field, room, h, _ => by
    rcases h with rfl | rfl
    · rfl
    · rfl
  | some b, field, room, h, hroom => by
    obtain ⟨v, rfl, hv⟩ := h
    rw [Json.optional?, Json.nullable?_eq_some_some_iff (Block.ofJson?_null room)]
    exact Block.ofJson?_of_writtenAs b hv (hroom v rfl)

/-- Every way to write a slot is read as that slot. -/
theorem Slot.ofJson?_of_writtenAs : ∀ (slot : Slot) {j : Json} {room : Nat}, slot.WrittenAs j →
    j.depth ≤ room → Slot.ofJson? room j = some slot
  | slot, j, 0, h, hroom => absurd (slot.depth_pos_of_writtenAs h) (by omega)
  | .literal text, j, room + 1, h, hroom => by
    obtain ⟨plain, rfl⟩ := h
    rw [Slot.ofJson?]
    rfl
  | .upvar name, j, room + 1, h, hroom => by
    obtain ⟨plain, rfl⟩ := h
    rw [Slot.ofJson?]
    rfl
  | .script none, j, room + 1, h, hroom => by
    obtain ⟨plain, v, rfl, rfl⟩ := h
    rw [Slot.ofJson?]
    rfl
  | .script (some b), j, room + 1, h, hroom => by
    obtain ⟨plain, v, rfl, hv⟩ := h
    have hread := Block.ofJson?_of_writtenAs b hv (Json.depth_le_of_singleton hroom)
    -- Null is tried first, and a block is never null.
    rw [← Json.nullable?_eq_some_some_iff (Block.ofJson?_null room)] at hread
    rw [Slot.ofJson?]
    exact Option.map_eq_some_iff.mpr ⟨some b, hread, rfl⟩
  | .reporter block, j, room + 1, h, hroom => by
    obtain ⟨plain, v, rfl, hv⟩ := h
    have hread := Block.ofJson?_of_writtenAs block hv (Json.depth_le_of_singleton hroom)
    rw [Slot.ofJson?]
    exact Option.map_eq_some_iff.mpr ⟨block, hread, rfl⟩
  | .variadic slots, j, room + 1, h, hroom => by
    obtain ⟨plain, items, rfl, hitems⟩ := h
    have hread := Slot.listOfJson?_of_allWrittenAs slots hitems (Json.depth_le_of_singleton hroom)
    rw [Slot.ofJson?]
    exact Option.map_eq_some_iff.mpr ⟨slots, hread, rfl⟩

theorem Slot.listOfJson?_of_allWrittenAs : ∀ (slots : List Slot) {items : List Json} {room : Nat},
    Slot.AllWrittenAs slots items → (Json.array items).depth ≤ room →
    Slot.listOfJson? room (.array items) = some slots
  | slots, items, 0, _, hroom => by cases hroom
  | [], items, room + 1, h, hroom => by
    obtain rfl := h
    rfl
  | slot :: rest, items, room + 1, h, hroom => by
    obtain ⟨v, vs, rfl, hv, hvs⟩ := h
    rw [Json.depth, Nat.add_le_add_iff_right, Json.depthOfItems, Nat.max_le] at hroom
    have hslot := Slot.ofJson?_of_writtenAs slot hv hroom.1
    have hrest : Slot.listOfJson? (room + 1) (.array vs) = some rest :=
      Slot.listOfJson?_of_allWrittenAs rest hvs (Nat.add_le_add_right hroom.2 1)
    rw [Slot.listOfJson?] at hrest ⊢
    rw [List.mapM_cons, hslot, hrest]
    rfl

end

/-! ## Nothing else is read

The other direction takes the readers apart. Each of them is inverted once, into the fields that it
found and what was read from them, and `writtenAs_of_ofJson?` puts the pieces together. -/

/-- A list of slots is read off an array, item by item, with one array or object less to enter. -/
theorem Slot.exists_of_listOfJson? {room : Nat} {j : Json} {slots : List Slot}
    (h : Slot.listOfJson? room j = some slots) : ∃ items, j = .array items ∧ ∃ inner,
      room = inner + 1 ∧ List.Forall₂ (fun item slot => Slot.ofJson? inner item = some slot)
        items slots := by
  rw [Slot.listOfJson?.eq_def] at h
  split at h
  · exact ⟨_, rfl, _, rfl, mapM_eq_some_iff.mp h⟩
  · cases h

/-- A slot is read off the one field of an object, with one array or object less to enter. -/
theorem Slot.exists_of_ofJson? {room : Nat} {j : Json} {slot : Slot}
    (h : Slot.ofJson? room j = some slot) :
    ∃ inner, room = inner + 1 ∧ ∃ kind plain value, j = .object [(⟨some kind, plain⟩, value)] ∧
      ((kind = "literal" ∧ ∃ text, value = .str text ∧ slot = .literal text) ∨
       (kind = "upvarName" ∧ ∃ name, value = .str name ∧ slot = .upvar name) ∨
       (kind = "nestedStatement" ∧
         ∃ body, Json.nullable? (Block.ofJson? inner) value = some body ∧ slot = .script body) ∨
       (kind = "nestedReporter" ∧
         ∃ block, Block.ofJson? inner value = some block ∧ slot = .reporter block) ∨
       (kind = "variadic" ∧
         ∃ slots, Slot.listOfJson? inner value = some slots ∧ slot = .variadic slots)) := by
  rw [Slot.ofJson?.eq_def] at h
  -- The names of the five kinds of slot are tried in turn.
  split at h
  · rename_i inner kind plain value
    refine ⟨inner, rfl, kind, plain, value, rfl, ?_⟩
    split at h
    · obtain ⟨text, htext, rfl⟩ := Option.map_eq_some_iff.mp h
      exact .inl ⟨‹_›, text, Json.text?_eq_some_iff.mp htext, rfl⟩
    split at h
    · obtain ⟨name, hname, rfl⟩ := Option.map_eq_some_iff.mp h
      exact .inr (.inl ⟨‹_›, name, Json.text?_eq_some_iff.mp hname, rfl⟩)
    split at h
    · obtain ⟨body, hbody, rfl⟩ := Option.map_eq_some_iff.mp h
      exact .inr (.inr (.inl ⟨‹_›, body, hbody, rfl⟩))
    split at h
    · obtain ⟨block, hblock, rfl⟩ := Option.map_eq_some_iff.mp h
      exact .inr (.inr (.inr (.inl ⟨‹_›, block, hblock, rfl⟩)))
    split at h
    · obtain ⟨slots, hslots, rfl⟩ := Option.map_eq_some_iff.mp h
      exact .inr (.inr (.inr (.inr ⟨‹_›, slots, hslots, rfl⟩)))
    · cases h
  · cases h

theorem Slot.allWrittenAs_of_forall₂ {items : List Json} {slots : List Slot}
    (h : List.Forall₂ (fun item slot => slot.WrittenAs item) items slots) :
    Slot.AllWrittenAs slots items := by
  induction h with
  | nil => rfl
  | cons hslot _ ih => exact ⟨_, _, rfl, hslot, ih⟩

/-- What is read is written so. Every reader calls the others with less room, which is what the
induction is on. -/
theorem writtenAs_of_ofJson? (room : Nat) :
    (∀ j b, Block.ofJson? room j = some b → b.WrittenAs j) ∧
      (∀ j slot, Slot.ofJson? room j = some slot → slot.WrittenAs j) ∧
      ∀ j slots, Slot.listOfJson? room j = some slots →
        ∃ items, j = .array items ∧ Slot.AllWrittenAs slots items := by
  induction room with
  | zero =>
    refine ⟨?_, ?_, ?_⟩
    · intro j b h
      rw [Block.ofJson?] at h
      cases h
    · intro j slot h
      obtain ⟨inner, hinner, -⟩ := Slot.exists_of_ofJson? h
      cases hinner
    · intro j slots h
      obtain ⟨-, -, inner, hinner, -⟩ := Slot.exists_of_listOfJson? h
      cases hinner
  | succ room ih =>
    obtain ⟨ihBlock, ihSlot, ihSlots⟩ := ih
    -- A successor and the body of a slot are read in one way: null is none, and anything else a
    -- block.
    have hnullable : ∀ v (body : Option Block), Json.nullable? (Block.ofJson? room) v = some body →
        Block.ScriptWrittenAs body v := by
      intro v body h
      cases body with
      | none => exact Json.nullable?_eq_some_none_iff.mp h
      | some b =>
        exact ihBlock v b ((Json.nullable?_eq_some_some_iff (Block.ofJson?_null room)).mp h)
    refine ⟨?_, ?_, ?_⟩
    · intro j b h
      obtain ⟨selector, kind, inputs, next⟩ := b
      obtain ⟨kindField, inputsField, nextField, hfields, hkind, hinputs, hnext⟩ :=
        Block.ofJson?_succ_eq_some_iff.mp h
      refine ⟨kindField, inputsField, nextField, hfields, ?_, ?_, ?_⟩
      · rcases Json.optional?_eq_some_iff.mp hkind with hmissing | ⟨v, rfl, hv⟩
        · exact .inl hmissing
        · exact .inr ⟨v, rfl, BlockKind.writtenAs_of_ofJson? hv⟩
      · rcases Json.optional?_eq_some_iff.mp hinputs with hmissing | ⟨v, rfl, hv⟩
        · exact .inl hmissing
        · obtain ⟨items, rfl, hitems⟩ := ihSlots v inputs hv
          exact .inr ⟨items, rfl, hitems⟩
      · rcases Json.optional?_eq_some_iff.mp hnext with ⟨rfl, rfl⟩ | ⟨v, rfl, hv⟩
        · exact .inl rfl
        · have hscript := hnullable v next hv
          cases next with
          | none => exact .inr (congrArg some hscript)
          | some b => exact ⟨v, rfl, hscript⟩
    · intro j slot h
      obtain ⟨_, hinner, kind, plain, value, rfl, hslot⟩ := Slot.exists_of_ofJson? h
      cases hinner
      rcases hslot with ⟨rfl, text, rfl, rfl⟩ | ⟨rfl, name, rfl, rfl⟩ | ⟨rfl, body, hbody, rfl⟩ |
        ⟨rfl, block, hblock, rfl⟩ | ⟨rfl, slots, hslots, rfl⟩
      · exact ⟨plain, rfl⟩
      · exact ⟨plain, rfl⟩
      · exact ⟨plain, value, rfl, hnullable value body hbody⟩
      · exact ⟨plain, value, rfl, ihBlock value block hblock⟩
      · obtain ⟨items, rfl, hitems⟩ := ihSlots value slots hslots
        exact ⟨plain, items, rfl, hitems⟩
    · intro j slots h
      obtain ⟨items, rfl, _, hinner, hitems⟩ := Slot.exists_of_listOfJson? h
      cases hinner
      exact ⟨items, rfl, Slot.allWrittenAs_of_forall₂ (hitems.imp ihSlot)⟩

/-! ## How deep a project nests that was read

A bound on the room that is needed to read something again. Reading and writing pass through the
same tree, so the depth of the written form is bounded by the room that the first reading had, one
level more for the inputs that it did not find. -/

theorem Slot.depth_listToJson_le_iff {slots : List Slot} {n : Nat} :
    (Json.array (Slot.listToJson slots)).depth ≤ n + 1 ↔ ∀ slot ∈ slots, slot.toJson.depth ≤ n := by
  rw [Json.depth, Nat.add_le_add_iff_right]
  induction slots with
  | nil => simp [Slot.listToJson, Json.depthOfItems]
  | cons slot slots ih =>
    rw [Slot.listToJson, Json.depthOfItems, Nat.max_le, ih, List.forall_mem_cons]

/-- The depth of a block is one more than that of its inputs and of its successor. -/
theorem Block.depth_toJson_le_iff {selector : String} {kind : BlockKind} {inputs : List Slot}
    {next : Option Block} {n : Nat} : (Block.mk selector kind inputs next).toJson.depth ≤ n + 1 ↔
      (Json.array (Slot.listToJson inputs)).depth ≤ n ∧ ∀ b, next = some b →
      b.toJson.depth ≤ n := by
  rw [Block.toJson, Json.depth_record_le_iff]
  cases next with
  | none => simp [Block.nextToJson, Json.str, Json.depth]
  | some b => simp [Block.nextToJson, Json.str, Json.depth]

theorem Slot.depth_field_le {name : String} {value : Json} {n : Nat} (h : value.depth ≤ n) :
    (Json.record [(name, value)]).depth ≤ n + 1 :=
  Json.depth_record_le_iff.mpr fun _ hf => by rwa [List.mem_singleton.mp hf]

/-- A block that was left without inputs is written with an empty array of them: that is the one
level that the written form may go deeper. -/
theorem depth_toJson_le_of_ofJson? (room : Nat) :
    (∀ j b, Block.ofJson? room j = some b → b.toJson.depth ≤ room + 1) ∧
      (∀ j slot, Slot.ofJson? room j = some slot → slot.toJson.depth ≤ room + 1) ∧
      ∀ j slots, Slot.listOfJson? room j = some slots →
        (Json.array (Slot.listToJson slots)).depth ≤ room + 1 := by
  induction room with
  | zero =>
    refine ⟨?_, ?_, ?_⟩
    · intro j b h
      rw [Block.ofJson?] at h
      cases h
    · intro j slot h
      obtain ⟨inner, hinner, -⟩ := Slot.exists_of_ofJson? h
      cases hinner
    · intro j slots h
      obtain ⟨-, -, inner, hinner, -⟩ := Slot.exists_of_listOfJson? h
      cases hinner
  | succ room ih =>
    obtain ⟨ihBlock, ihSlot, ihSlots⟩ := ih
    have hnullable : ∀ v b, Json.nullable? (Block.ofJson? room) v = some (some b) →
        b.toJson.depth ≤ room + 1 :=
      fun v b h => ihBlock v b ((Json.nullable?_eq_some_some_iff (Block.ofJson?_null room)).mp h)
    refine ⟨?_, ?_, ?_⟩
    · intro j b h
      obtain ⟨selector, kind, inputs, next⟩ := b
      obtain ⟨kindField, inputsField, nextField, -, -, hinputs, hnext⟩ :=
        Block.ofJson?_succ_eq_some_iff.mp h
      refine Block.depth_toJson_le_iff.mpr ⟨?_, ?_⟩
      · rcases Json.optional?_eq_some_iff.mp hinputs with ⟨-, rfl⟩ | ⟨v, -, hv⟩
        -- The inputs were left out: here the written form has a level that was not read.
        · exact Slot.depth_listToJson_le_iff.mpr nofun
        · exact ihSlots v inputs hv
      · rintro b rfl
        rcases Json.optional?_eq_some_iff.mp hnext with ⟨-, hnone⟩ | ⟨v, -, hv⟩
        · cases hnone
        · exact hnullable v b hv
    · intro j slot h
      obtain ⟨_, hinner, kind, plain, value, -, hslot⟩ := Slot.exists_of_ofJson? h
      cases hinner
      rcases hslot with ⟨-, text, -, rfl⟩ | ⟨-, name, -, rfl⟩ | ⟨-, body, hbody, rfl⟩ |
        ⟨-, block, hblock, rfl⟩ | ⟨-, slots, hslots, rfl⟩
      · exact Slot.depth_field_le (Nat.zero_le _)
      · exact Slot.depth_field_le (Nat.zero_le _)
      · cases body with
        | none => exact Slot.depth_field_le (Nat.zero_le _)
        | some b => exact Slot.depth_field_le (hnullable value b hbody)
      · exact Slot.depth_field_le (ihBlock value block hblock)
      · exact Slot.depth_field_le (ihSlots value slots hslots)
    · intro j slots h
      obtain ⟨items, -, _, hinner, hitems⟩ := Slot.exists_of_listOfJson? h
      cases hinner
      rw [Slot.depth_listToJson_le_iff]
      intro slot hslot
      obtain ⟨item, -, hitem⟩ := exists_mem_of_forall₂ hitems hslot
      exact ihSlot item slot hitem

/-! ## Projects

A project is a record with a list of blocks in it, so both directions of the reading are put
together from those for blocks. The depth that the reader needs is counted on the way. -/

namespace Project

/-- The scripts of a project are read off an array, each with one array or object less to enter. -/
theorem exists_of_blocks? {room : Nat} {j : Json} {scripts : List Block}
    (h : Project.ofJson?.blocks? room j = some scripts) : ∃ items, j = .array items ∧ ∃ inner,
      room = inner + 1 ∧ List.Forall₂ (fun item b => Block.ofJson? inner item = some b)
        items scripts := by
  rw [Project.ofJson?.blocks?.eq_def] at h
  split at h
  · exact ⟨_, rfl, _, rfl, mapM_eq_some_iff.mp h⟩
  · cases h

/-- A project is read off two fields, and its scripts off the array in one of them. -/
theorem exists_of_ofJson? {room : Nat} {j : Json} {p : Project}
    (h : Project.ofJson? room j = some p) :
    ∃ inner, room = inner + 2 ∧ ∃ nameField scripts,
      j.HasFields [["name"], ["scripts"]] [nameField, some (.array scripts)] ∧
      Json.optional? "" Json.text? nameField = some p.name ∧
      List.Forall₂ (fun item b => Block.ofJson? inner item = some b) scripts p.scripts := by
  rw [Project.ofJson?.eq_def] at h
  split at h
  · cases h
  · split at h
    · rename_i nameField scriptsField hfields
      obtain ⟨name, hname, h⟩ := Option.bind_eq_some_iff.mp h
      obtain ⟨scripts, hscripts, h⟩ := Option.bind_eq_some_iff.mp h
      cases h
      obtain ⟨v, rfl, hv⟩ := Json.required?_eq_some_iff.mp hscripts
      obtain ⟨items, rfl, inner, rfl, hitems⟩ := exists_of_blocks? hv
      exact ⟨inner, rfl, nameField, items, Json.fields?_eq_some_iff.mp hfields, hname, hitems⟩
    · cases h

/-- A project that was read was written in one of the ways to write it. -/
theorem writtenAs_of_ofJson? {room : Nat} {j : Json} {p : Project}
    (h : Project.ofJson? room j = some p) : p.WrittenAs j := by
  obtain ⟨inner, -, nameField, scripts, hfields, hname, hscripts⟩ := exists_of_ofJson? h
  refine ⟨nameField, scripts, hfields, ?_, ?_⟩
  · rcases Json.optional?_eq_some_iff.mp hname with hmissing | ⟨v, rfl, hv⟩
    · exact .inl hmissing
    · exact .inr (congrArg some (Json.text?_eq_some_iff.mp hv))
  · exact (hscripts.imp fun item b => (BlockLink.writtenAs_of_ofJson? inner).1 item b).flip

theorem ofJson?_of_writtenAs {p : Project} {j : Json} {room : Nat} (h : p.WrittenAs j)
    (hroom : j.depth ≤ room) : Project.ofJson? room j = some p := by
  obtain ⟨nameField, scripts, hfields, hname, hscripts⟩ := h
  -- Two levels are entered at least: the project, and the array of its scripts.
  have harray := Json.depth_lt_of_hasFields hfields (by simp : some (.array scripts) ∈ _)
  have hitems : ∀ item ∈ scripts, item.depth + 2 ≤ room := by
    intro item hitem
    have hitem := Json.depthOfItems_le_iff.mp (Nat.le_refl _) item hitem
    rw [Json.depth] at harray
    omega
  obtain ⟨inner, rfl⟩ : ∃ inner, room = inner + 2 := ⟨room - 2, by rw [Json.depth] at harray; omega⟩
  have hblocks : Project.ofJson?.blocks? (inner + 1) (.array scripts) = some p.scripts := by
    rw [Project.ofJson?.blocks?, mapM_eq_some_iff]
    refine ((List.forall₂_and_left _ _).mpr ⟨hitems, hscripts.flip⟩).imp ?_
    rintro item b ⟨hitem, hb⟩
    exact Block.ofJson?_of_writtenAs b hb (by omega)
  have hread : Json.optional? "" Json.text? nameField = some p.name := by
    rw [Json.optional?_eq_some_iff]
    rcases hname with hmissing | rfl
    · exact .inl hmissing
    · exact .inr ⟨_, rfl, rfl⟩
  rw [Project.ofJson?, Json.fields?_eq_some_iff.mpr hfields]
  dsimp only
  rw [hread, Json.required?, hblocks]
  rfl

/-- The written form of a project that was read goes at most one level deeper than the reader
did. -/
theorem depth_toJson_le_of_ofJson? {room : Nat} {j : Json} {p : Project}
    (h : Project.ofJson? room j = some p) : p.toJson.depth ≤ room + 1 := by
  obtain ⟨inner, rfl, nameField, scripts, -, -, hscripts⟩ := exists_of_ofJson? h
  rw [toJson, Json.depth_record_le_iff, List.forall_mem_cons, List.forall_mem_singleton, Json.depth,
    Nat.add_le_add_iff_right, Json.depthOfItems_le_iff, List.forall_mem_map]
  refine ⟨Nat.zero_le _, ?_⟩
  intro b hb
  obtain ⟨item, -, hitem⟩ := exists_mem_of_forall₂ hscripts hb
  exact (BlockLink.depth_toJson_le_of_ofJson? inner).1 item b hitem

/-- Project files read back what was written. Reading the written form of a project gives the
project, whenever the reader may go as deep as the form does. What can be read are the ways to write
a project, whatever they leave out, add or order as they like; and a project that was read in any of
these ways, is the same after it has been written and read again, with one more level to enter. -/
theorem read_back :
    (∀ (p : Project) (room : Nat), p.toJson.depth ≤ room → Project.ofJson? room p.toJson = some p) ∧
      (∀ (j : Json) (p : Project), (∃ room, Project.ofJson? room j = some p) ↔ p.WrittenAs j) ∧
      ∀ (j : Json) (p : Project) (room : Nat), Project.ofJson? room j = some p →
        ∀ again, room + 1 ≤ again → Project.ofJson? again p.toJson = some p := by
  refine ⟨?_, ?_, ?_⟩
  · intro p room hroom
    exact ofJson?_of_writtenAs p.writtenAs_toJson hroom
  · intro j p
    constructor
    · rintro ⟨room, h⟩
      exact writtenAs_of_ofJson? h
    · intro h
      exact ⟨j.depth, ofJson?_of_writtenAs h (Nat.le_refl _)⟩
  · intro j p room h again hagain
    have hdepth := depth_toJson_le_of_ofJson? h
    exact ofJson?_of_writtenAs p.writtenAs_toJson (by omega)

/-- Two scripts, the first in the array form with its shape as an object and its inputs left out,
the second with a field nobody asked for, its fields out of order and null for its successor. -/
theorem read_back_loose :
    let j : Json := .array [.str "demo", .array [
      .array [.str "receiveGo", .object [(⟨some "hat", true⟩, .null)]],
      .record [("inputs", .array [.record [("nestedStatement", .null)]]), ("x", .number "1e999"),
        ("next", .null), ("selector", .str "doForever")]]]
    let p : Project :=
      ⟨"demo", [.mk "receiveGo" .hat [] none, .mk "doForever" .command [.script none] none]⟩
    Project.ofJson? 5 j = some p ∧ p.WrittenAs j ∧ Project.ofJson? 6 p.toJson = some p := by
  intro j p
  have h : Project.ofJson? 5 j = some p := rfl
  exact ⟨h, (read_back.2.1 j p).mp ⟨5, h⟩, read_back.2.2 j p 5 h 6 (Nat.le_refl 6)⟩

end Project

end BlockLink
