import Mathlib.Data.List.Induction
import BlockLink.Proofs.Compile.Source
import BlockLink.Proofs.Pins.Computed

/-!
# `BlockLink/Proofs/Pins/Change.lean` — what a block does to the pins that are known

What compiling a block leaves of the memory of pins does not depend on the memory it starts from:
the block forgets everything or nothing, and then there are the modes that it records.
`Block.pinChange` reads both off the block, and `Block.pins_of_source?` says that this is what the
compiler does.

The operators *and* and *or* go back to the memory after their first operand. That is right if the
second operand is skipped. If it is run, it is right exactly as long as the second operand keeps
what is known: `shortCircuit_valid_iff`.
-/

set_option autoImplicit false

namespace BlockLink

/-! ## Changes

A change is given in a normal form, so that it can be compared: whether everything is forgotten, and
what is recorded after that. -/

/-- What code does to the pins that are known: it may forget them all, and it records modes. -/
structure PinChange where
  forgets : Bool
  /-- The pins recorded after that, in order. -/
  records : List (Pin × PinMode)
  deriving DecidableEq, Repr

namespace PinChange

/-- Nothing is forgotten and nothing recorded. -/
def nothing : PinChange := ⟨false, []⟩

/-- All is forgotten. -/
def forget : PinChange := ⟨true, []⟩

/-- One pin is recorded. -/
def record (use : Pin × PinMode) : PinChange := ⟨false, [use]⟩

/-- One change and then another. -/
def andThen (c d : PinChange) : PinChange :=
  ⟨c.forgets || d.forgets, if d.forgets then d.records else c.records ++ d.records⟩

/-- The pins known after a change. -/
def apply (c : PinChange) (m : PinMemory) : PinMemory :=
  c.records.foldl (fun m use => m.insert use.1 use.2) (m.forgetIf c.forgets)

/-- The mode in which a pin is recorded last. -/
def last? (c : PinChange) (pin : Pin) : Option PinMode :=
  c.records.reverse.lookup pin

/-- Whether a pin that is known to be in a mode is still known to be in it after the change. -/
def keeps (c : PinChange) (use : Pin × PinMode) : Bool :=
  match c.last? use.1 with
  | some mode => mode == use.2
  | none => !c.forgets

variable {m : PinMemory}

@[simp]
theorem apply_nothing (m : PinMemory) : nothing.apply m = m := rfl

@[simp]
theorem apply_forget (m : PinMemory) : forget.apply m = .empty := rfl

@[simp]
theorem apply_record (use : Pin × PinMode) (m : PinMemory) :
    (record use).apply m = m.insert use.1 use.2 := rfl

@[simp]
theorem apply_andThen (c d : PinChange) (m : PinMemory) :
    (c.andThen d).apply m = d.apply (c.apply m) := by
  cases hd : d.forgets <;> simp [andThen, apply, PinMemory.forgetIf, hd]

theorem sorted_apply (hm : m.Sorted) (c : PinChange) : (c.apply m).Sorted := by
  have hfold : ∀ (l : List (Pin × PinMode)) {m : PinMemory}, m.Sorted →
      (l.foldl (fun m use => m.insert use.1 use.2) m).Sorted := by
    intro l
    induction l with
    | nil => exact fun hm => hm
    | cons use l ih => exact fun hm => ih (hm.insert use.1 use.2)
  refine hfold c.records ?_
  unfold PinMemory.forgetIf
  split
  · exact SortedMap.sorted_empty
  · exact hm

/-- After a change a pin is known as it was recorded last or, if it was not recorded, as before,
unless all was forgotten. -/
theorem get?_apply (hm : m.Sorted) (c : PinChange) (pin : Pin) :
    (c.apply m).get? pin = (c.last? pin).or ((m.forgetIf c.forgets).get? pin) := by
  unfold apply last?
  induction c.records using List.reverseRecOn with
  | nil => rfl
  | append_singleton l use ih =>
    have hfold : (l.foldl (fun m use => m.insert use.1 use.2) (m.forgetIf c.forgets)).Sorted :=
      sorted_apply hm ⟨c.forgets, l⟩
    rw [List.foldl_append, List.foldl_cons, List.foldl_nil, SortedMap.get?_insert hfold,
      List.reverse_append, List.reverse_singleton, List.singleton_append, List.lookup_cons, ih]
    by_cases hpin : pin = use.1
    · simp [hpin]
    · have hne : (pin == use.1) = false := by simp [hpin]
      rw [if_neg hpin, hne]

/-- Of what is known, a change leaves exactly what it keeps. -/
theorem knows_apply_iff (hm : m.Sorted) {c : PinChange} {use : Pin × PinMode} (h : m.knows use) :
    (c.apply m).knows use ↔ c.keeps use := by
  have hknown : m.get? use.1 = some use.2 := by simpa [PinMemory.knows] using h
  unfold PinMemory.knows keeps
  rw [get?_apply hm]
  cases c.last? use.1 with
  | some mode => simp
  | none => cases hforgets : c.forgets <;> simp [PinMemory.forgetIf, hknown, SortedMap.get?_empty]

end PinChange

/-! ## Blocks

A change is put together along the tree: what comes later forgets or overwrites what came before. -/

/-- What a block itself does to the pins that are known. -/
def Selector.pinChange (selector : Selector) (board : Board) (shapes : List Operand) : PinChange :=
  match selector with
  | .doRun | .evaluate | .runLua => .forget
  | selector => (Layout.use? board selector shapes).elim .nothing .record

theorem Selector.apply_pinChange (selector : Selector) (board : Board) (shapes : List Operand)
    (m : PinMemory) :
    (selector.pinChange board shapes).apply m = Layout.pinsAfter board selector shapes m := by
  have huse : ((Layout.use? board selector shapes).elim PinChange.nothing .record).apply m
      = (Layout.use? board selector shapes).elim m fun use => m.insert use.1 use.2 := by
    cases Layout.use? board selector shapes <;> rfl
  cases selector <;> first | rfl | exact huse

/-- The memory after a block depends on its operands only by what they are, not by their code. -/
theorem Layout.pins_of_outcome? {board : Board} {ctx : Context} {selector : Selector}
    {items : List Operand} {m m' : PinMemory} {x : String}
    (h : Layout.outcome? board ctx ⟨selector, items⟩ m = some (x, m')) :
    m' = (selector.pinChange board (items.map Operand.blank)).apply m := by
  obtain ⟨_, -, heq⟩ := Option.map_eq_some_iff.1 h
  cases heq
  rw [Selector.apply_pinChange]
  rfl

/-- A point where other scripts may run. -/
def PinChange.forgetIf (b : Bool) : PinChange := ⟨b, []⟩

@[simp]
theorem PinChange.apply_forgetIf (b : Bool) (m : PinMemory) :
    (PinChange.forgetIf b).apply m = m.forgetIf b := rfl

/-- The change that is left of an operand, which may be skipped. -/
def PinChange.ofOperand (selector : Selector) (index : Nat) (c : PinChange) : PinChange :=
  if Slot.mayBeSkipped selector index then .nothing else c

theorem PinChange.apply_ofOperand (selector : Selector) (index : Nat) (c : PinChange)
    (m : PinMemory) :
    (c.ofOperand selector index).apply m = m.afterOperand selector index (c.apply m) := by
  unfold PinChange.ofOperand PinMemory.afterOperand
  split <;> rfl

mutual

/-- What a block and those below it do to the pins that are known. -/
def Block.pinChange (board : Board) : Block → PinChange
  | .mk name _ inputs next =>
    match Selector.ofName? name with
    | none => .nothing
    | some .subscribeToMqttMessage =>
      (Slot.pinChangeOf board .subscribeToMqttMessage 0 inputs).andThen
        (.forgetIf board.broker.isSome)
    | some selector =>
      (PinChange.forgetIf selector.yields).andThen <|
        (Slot.pinChangeOf board selector 0 inputs).andThen <|
          (PinChange.forgetIf selector.yields).andThen <|
            (selector.pinChange board (Slot.shapesOf inputs)).andThen
              (Block.pinChangeBelow board next)

/-- What a chain does to the pins that are known, if there is one. -/
def Block.pinChangeBelow (board : Board) : Option Block → PinChange
  | none => .nothing
  | some b => b.pinChange board

/-- What the operands of a slot do to the pins that are known. -/
def Slot.pinChange (board : Board) (selector : Selector) (index : Nat) : Slot → PinChange
  | .literal _ => .nothing
  | .upvar _ => .nothing
  | .script _ => PinChange.forget.ofOperand selector index
  | .reporter block => (block.pinChange board).ofOperand selector index
  | .variadic slots => Slot.pinChangeOf board selector index slots

/-- What the operands of slots do to the pins that are known. -/
def Slot.pinChangeOf (board : Board) (selector : Selector) (index : Nat) : List Slot → PinChange
  | [] => .nothing
  | slot :: rest =>
    (slot.pinChange board selector index).andThen
      (Slot.pinChangeOf board selector (index + slot.shapes.length) rest)

end

variable {board : Board}

theorem Block.pinChange_of_ne {name : String} {kind : BlockKind} {inputs : List Slot}
    {next : Option Block} {selector : Selector} (hname : Selector.ofName? name = some selector)
    (hsel : selector ≠ .subscribeToMqttMessage) :
    (Block.mk name kind inputs next).pinChange board
      = ((PinChange.forgetIf selector.yields).andThen <|
          (Slot.pinChangeOf board selector 0 inputs).andThen <|
            (PinChange.forgetIf selector.yields).andThen <|
              (selector.pinChange board (Slot.shapesOf inputs)).andThen
                (Block.pinChangeBelow board next)) := by
  rw [Block.pinChange, hname]
  cases selector <;> first | rfl | exact absurd rfl hsel

mutual

/-- The compiler does to the memory what is read off the block. The lemmas of this group follow its
recursion. -/
theorem Block.pins_of_source? : ∀ (b : Block) {ctx : Context} {m m' : PinMemory} {x : String},
    b.source? board ctx m = some (x, m') → m' = (b.pinChange board).apply m
  | .mk name kind inputs next, ctx, m, m', x, h => by
    obtain ⟨selector, hname⟩ := Block.exists_ofName?_of_source? h
    by_cases hsel : selector = .subscribeToMqttMessage
    · subst hsel
      rw [Block.source?_subscribe hname] at h
      obtain ⟨⟨items, m₁⟩, hitems, h⟩ := Option.bind_eq_some_iff.1 h
      have hm₁ := Slot.pins_of_sources? inputs hitems
      rw [Block.pinChange, hname]
      dsimp only
      rw [PinChange.apply_andThen, PinChange.apply_forgetIf, ← hm₁]
      -- Whatever the callback does happens later. With a broker everything is forgotten behind it.
      cases hbroker : board.broker with
      | none =>
        rw [hbroker] at h
        cases h
        rfl
      | some broker =>
        rw [hbroker] at h
        obtain ⟨_, -, h⟩ := Option.bind_eq_some_iff.1 h
        obtain ⟨_, -, heq⟩ := Option.map_eq_some_iff.1 h
        cases heq
        rfl
    · rw [Block.source?_of_ne hname hsel] at h
      obtain ⟨⟨items, m₁⟩, hitems, h⟩ := Option.bind_eq_some_iff.1 h
      obtain ⟨⟨own, m₂⟩, hown, h⟩ := Option.bind_eq_some_iff.1 h
      obtain ⟨⟨rest, m₃⟩, hrest, heq⟩ := Option.map_eq_some_iff.1 h
      cases heq
      rw [Block.pinChange_of_ne hname hsel]
      simp only [PinChange.apply_andThen, PinChange.apply_forgetIf]
      rw [← Slot.pins_of_sources? inputs hitems, ← Slot.map_blank_of_sources? inputs hitems,
        ← Layout.pins_of_outcome? hown]
      exact Block.pins_of_sourceBelow? next hrest

theorem Block.pins_of_sourceBelow? :
    ∀ (next : Option Block) {ctx : Context} {m m' : PinMemory} {x : String},
    Block.sourceBelow? board ctx next m = some (x, m') →
    m' = (Block.pinChangeBelow board next).apply m
  | none, _, _, _, _, h => by
    cases h
    rfl
  | some b, _, _, _, _, h => Block.pins_of_source? b h

theorem Slot.pins_of_source? : ∀ (slot : Slot) {ctx : Context} {selector : Selector} {index : Nat}
    {m m' : PinMemory} {items : List Operand},
    slot.source? board ctx selector index m = some (items, m') →
      m' = (slot.pinChange board selector index).apply m
  | .literal _, _, _, _, _, _, _, h => by
    cases h
    rfl
  | .upvar _, _, _, _, _, _, _, h => by
    cases h
    rfl
  | .script _, _, _, _, _, _, _, h => by
    obtain ⟨_, -, heq⟩ := Option.map_eq_some_iff.1 h
    cases heq
    rw [Slot.pinChange, PinChange.apply_ofOperand, PinChange.apply_forget]
  | .reporter block, _, _, _, _, _, _, h => by
    obtain ⟨⟨code, after⟩, hsource, heq⟩ := Option.map_eq_some_iff.1 h
    cases heq
    rw [Slot.pinChange, PinChange.apply_ofOperand, ← Block.pins_of_source? block hsource]
  | .variadic slots, _, _, _, _, _, _, h => Slot.pins_of_sources? slots h

theorem Slot.pins_of_sources? :
    ∀ (slots : List Slot) {ctx : Context} {selector : Selector} {index : Nat}
    {m m' : PinMemory} {items : List Operand},
    Slot.sources? board ctx selector index slots m = some (items, m') →
      m' = (Slot.pinChangeOf board selector index slots).apply m
  | [], _, _, _, _, _, _, h => by
    cases h
    rfl
  | slot :: rest, _, _, _, _, _, _, h => by
    rw [Slot.sources?] at h
    obtain ⟨⟨first, m₁⟩, hfirst, h⟩ := Option.bind_eq_some_iff.1 h
    obtain ⟨⟨others, m₂⟩, hothers, heq⟩ := Option.map_eq_some_iff.1 h
    cases heq
    have hlength : first.length = slot.shapes.length := by
      rw [← Slot.map_blank_of_source? slot hfirst, List.length_map]
    rw [Slot.pinChangeOf, PinChange.apply_andThen, ← Slot.pins_of_source? slot hfirst, ← hlength]
    exact Slot.pins_of_sources? rest hothers

end

/-! ## Operators that may skip an operand -/

mutual

/-- What an expandable slot holds in the end are slots with one operand each. -/
theorem Slot.isSingle_of_mem_operands : ∀ (slot : Slot) {a : Slot}, a ∈ slot.operands →
    a.isSingle = true
  | .literal _, _, h => by
    rw [List.mem_singleton.1 h]
    rfl
  | .upvar _, _, h => by
    rw [List.mem_singleton.1 h]
    rfl
  | .script _, _, h => by
    rw [List.mem_singleton.1 h]
    rfl
  | .reporter _, _, h => by
    rw [List.mem_singleton.1 h]
    rfl
  | .variadic slots, _, h => Slot.isSingle_of_mem_operandsOf slots h

theorem Slot.isSingle_of_mem_operandsOf :
    ∀ (slots : List Slot) {a : Slot}, a ∈ Slot.operandsOf slots →
    a.isSingle = true
  | [], _, h => by cases h
  | slot :: rest, _, h => by
    rcases List.mem_append.1 h with h | h
    · exact Slot.isSingle_of_mem_operands slot h
    · exact Slot.isSingle_of_mem_operandsOf rest h

end

/-- The number of an operand only decides whether the pins known before it come back. -/
theorem Slot.exists_source?_eq {slot : Slot} (h : slot.isSingle = true) (board : Board)
    (ctx : Context) (selector : Selector) (m : PinMemory) :
    ∃ r : Option (Operand × PinMemory), ∀ index, slot.source? board ctx selector index m
      = r.map fun x => ([x.1], m.afterOperand selector index x.2) := by
  cases slot with
  | literal text =>
    exact ⟨some (.literal text, m), fun index => by simp [Slot.source?, PinMemory.afterOperand]⟩
  | upvar name =>
    exact ⟨some (.name name, m), fun index => by simp [Slot.source?, PinMemory.afterOperand]⟩
  | script body =>
    refine ⟨(Block.sourceBelow? board ctx body .empty).map fun r => (.script (.text r.1), .empty),
      fun index => ?_⟩
    rw [Slot.source?, Option.map_map]
    rfl
  | reporter block =>
    refine ⟨(block.source? board ctx m).map fun r => (.expression (.text r.1), r.2),
      fun index => ?_⟩
    rw [Slot.source?, Option.map_map]
    rfl
  | variadic slots => cases h

/-- The slot that an operand comes from. The first operand starts with the pins that all of them
start with. -/
theorem Slot.exists_source?_of_getElem? {ctx : Context} {selector : Selector} {slots : List Slot}
    (hsingle : ∀ slot ∈ slots, slot.isSingle = true) {index : Nat} {m m' : PinMemory}
    {items : List Operand} (h : Slot.sources? board ctx selector index slots m = some (items, m'))
    {i : Nat} {x : Operand} (hx : items[i]? = some x) :
    ∃ slot m₀ m₁, slots[i]? = some slot ∧
      slot.source? board ctx selector (index + i) m₀ = some ([x], m₁) ∧ (i = 0 → m₀ = m) := by
  induction slots generalizing index m items i with
  | nil =>
    cases h
    cases hx
  | cons slot slots ih =>
    rw [Slot.sources?] at h
    obtain ⟨⟨first, m₁⟩, hfirst, h⟩ := Option.bind_eq_some_iff.1 h
    obtain ⟨⟨others, m₂⟩, hothers, heq⟩ := Option.map_eq_some_iff.1 h
    cases heq
    -- A slot with one operand gives one, so operands and slots are counted alike.
    obtain ⟨r, hr⟩ := Slot.exists_source?_eq (hsingle slot List.mem_cons_self) board ctx selector m
    rw [hr] at hfirst
    obtain ⟨y, rfl, heq⟩ := Option.map_eq_some_iff.1 hfirst
    cases heq
    cases i with
    | zero =>
      cases hx
      exact ⟨slot, m, _, rfl, hr index, fun _ => rfl⟩
    | succ i =>
      obtain ⟨slot', m₀, m₃, hslot, hsource, -⟩ :=
        ih (fun s hs => hsingle s (List.mem_cons_of_mem _ hs)) hothers hx
      refine ⟨slot', m₀, m₃, hslot, ?_, fun h => by cases h⟩
      rw [← hsource, List.length_singleton]
      congr 1
      omega

/-- A block that is not a pin block, not a call and not a point where others may run leaves the pins
as its operands leave them. -/
theorem Block.source?_shortCircuit {ctx : Context} {name : String} {kind : BlockKind}
    {inputs : List Slot} {selector : Selector} (hname : Selector.ofName? name = some selector)
    (hsel : selector = .reportAnd ∨ selector = .reportOr) {m m' : PinMemory} {x : String}
    (h : (Block.mk name kind inputs none).source? board ctx m = some (x, m')) :
    ∃ items, Slot.sources? board ctx selector 0 inputs m = some (items, m') := by
  have hne : selector ≠ .subscribeToMqttMessage := by
    rcases hsel with rfl | rfl <;> decide
  have hyields : selector.yields = false := by
    rcases hsel with rfl | rfl <;> rfl
  rw [Block.source?_of_ne hname hne, hyields] at h
  obtain ⟨⟨items, m₁⟩, hitems, h⟩ := Option.bind_eq_some_iff.1 h
  obtain ⟨⟨own, m₂⟩, hown, h⟩ := Option.bind_eq_some_iff.1 h
  obtain ⟨_, hrest, heq⟩ := Option.map_eq_some_iff.1 h
  obtain ⟨_, -, hafter⟩ := Option.map_eq_some_iff.1 hown
  cases hrest
  cases heq
  cases hafter
  refine ⟨items, hitems.trans ?_⟩
  rcases hsel with rfl | rfl <;> rfl

/-- The two operands of *and* and *or*: the pins known after both are those known after the
first. -/
theorem Slot.exists_of_sources?_pair {ctx : Context} {selector : Selector}
    (hsel : selector = .reportAnd ∨ selector = .reportOr) {a b : Slot} (ha : a.isSingle = true)
    (hb : b.isSingle = true) {m m' : PinMemory} {items : List Operand}
    (h : Slot.sources? board ctx selector 0 [a, b] m = some (items, m')) :
    ∃ first second u, a.source? board ctx selector 0 m = some (first, m') ∧
      b.source? board ctx selector 0 m' = some (second, u) := by
  rw [Slot.sources?] at h
  obtain ⟨⟨first, m₁⟩, hfirst, h⟩ := Option.bind_eq_some_iff.1 h
  dsimp only at h
  rw [Slot.sources?_singleton] at h
  obtain ⟨⟨second, m₂⟩, hsecond, heq⟩ := Option.map_eq_some_iff.1 h
  cases heq
  obtain ⟨r, hr⟩ := Slot.exists_source?_eq ha board ctx selector m
  obtain ⟨r', hr'⟩ := Slot.exists_source?_eq hb board ctx selector m₁
  have hlength : first.length = 1 := by
    rw [hr] at hfirst
    obtain ⟨x, -, heq⟩ := Option.map_eq_some_iff.1 hfirst
    cases heq
    rfl
  -- Under the number 1 the second operand is not relied upon, under the number 0 nothing comes
  -- back.
  rw [hlength, hr'] at hsecond
  obtain ⟨y, hy, heq⟩ := Option.map_eq_some_iff.1 hsecond
  have hback : m₁ = m₂ := by
    cases heq
    rcases hsel with rfl | rfl <;> rfl
  subst hback
  exact ⟨first, [y.1], y.2, hfirst, by rw [hr', hy]; rcases hsel with rfl | rfl <;> rfl⟩

/-- After *and* and *or* the compiler knows the pins that it knew after the first operand. This is
valid whether or not the second operand is run exactly if the second operand keeps every one of
them: what it records last of a pin is the mode that is known, or it records nothing of the pin and
forgets nothing. -/
theorem shortCircuit_valid_iff {ctx : Context} {name : String} {kind : BlockKind}
    {inputs : List Slot} {selector : Selector} {a b : Slot} {s s' : CompileState} {code : Code}
    (hname : Selector.ofName? name = some selector)
    (hsel : selector = .reportAnd ∨ selector = .reportOr)
    (hinputs : Slot.operandsOf inputs = [a, b]) (hs : s.pins.Sorted)
    (h : ((Block.mk name kind inputs none).compile board ctx).Gives s code s') :
    ∃ first t second u,
      (a.compile board ctx selector 0).Gives s first t ∧
      (b.compile board ctx selector 0).Gives t second u ∧
      s'.pins = t.pins ∧
      ((∀ use, s'.pins.knows use → t.pins.knows use ∧ u.pins.knows use) ↔
        ∀ use, t.pins.knows use → (b.pinChange board selector 0).keeps use) := by
  have hsingle : ∀ slot ∈ [a, b], slot.isSingle = true := fun slot hslot =>
    Slot.isSingle_of_mem_operandsOf inputs (hinputs ▸ hslot)
  obtain ⟨items, hitems⟩ := Block.source?_shortCircuit hname hsel (Block.source?_of_gives _ h)
  rw [← Slot.sources?_operandsOf, hinputs] at hitems
  obtain ⟨_, _, _, hfirst, hsecond⟩ :=
    Slot.exists_of_sources?_pair hsel (hsingle a (by simp)) (hsingle b (by simp)) hitems
  obtain ⟨first, t, ha, -, ht⟩ := Slot.exists_gives_of_source? a hfirst
  rw [← ht] at hsecond
  obtain ⟨second, u, hb, -, rfl⟩ := Slot.exists_gives_of_source? b hsecond
  -- Between the operands the memory is the one that the operator goes back to.
  have hsorted : t.pins.Sorted := by
    rw [ht, Slot.pins_of_source? a hfirst]
    exact PinChange.sorted_apply hs _
  refine ⟨first, t, second, u, ha, hb, ht.symm, ?_⟩
  rw [← ht, Slot.pins_of_source? b hsecond]
  constructor
  · intro hvalid use huse
    exact (PinChange.knows_apply_iff hsorted huse).1 (hvalid use huse).2
  · intro hkeeps use huse
    exact ⟨huse, (PinChange.knows_apply_iff hsorted huse).2 (hkeeps use huse)⟩

/-- Two pins are read, the second one in the operand that may be skipped: what is known of the first
pin is valid on both paths. -/
theorem shortCircuit_valid_two_pins :
    ∃ code s', ((Block.mk "reportAnd" .predicate [pinReading "2", pinReading "3"] none).compile
        twoPinBoard ⟨.adhoc, true⟩).Gives .initial code s' ∧
      ∃ first t second u,
        ((pinReading "2").compile twoPinBoard ⟨.adhoc, true⟩ .reportAnd 0).Gives .initial first t ∧
        ((pinReading "3").compile twoPinBoard ⟨.adhoc, true⟩ .reportAnd 0).Gives t second u ∧
        s'.pins.knows (2, .input) = true ∧
        ∀ use, s'.pins.knows use → t.pins.knows use ∧ u.pins.knows use := by
  obtain ⟨code, s', hcode, -⟩ := exists_of_toOption_any (q := fun _ => true)
    (r := ((Block.mk "reportAnd" .predicate [pinReading "2", pinReading "3"] none).compile
      twoPinBoard ⟨.adhoc, true⟩).run.run .initial) (by decide +kernel)
  have hpins : (((Block.mk "reportAnd" .predicate [pinReading "2", pinReading "3"] none).compile
      twoPinBoard ⟨.adhoc, true⟩).run.run .initial).2.pins = ⟨[(2, .input)]⟩ := by decide +kernel
  rw [hcode] at hpins
  obtain ⟨first, t, second, u, ha, hb, ht, hiff⟩ := shortCircuit_valid_iff
    (Selector.ofName?_name .reportAnd) (.inl rfl) rfl SortedMap.sorted_empty hcode
  refine ⟨code, s', hcode, first, t, second, u, ha, hb, by rw [hpins]; rfl,
    hiff.2 fun use huse => ?_⟩
  have hsorted : (⟨[(2, .input)]⟩ : PinMemory).Sorted := List.pairwise_singleton ..
  rw [← ht, hpins, PinMemory.knows, beq_iff_eq, SortedMap.get?_eq_some_iff hsorted] at huse
  have hreading : use = (2, .input) := List.mem_singleton.1 huse
  subst hreading
  decide +kernel

/-- A pin is read, and the operand that may be skipped calls a function: after the block the pin
counts as known, which it is not if the function was called. -/
theorem shortCircuit_outlives_call :
    let reading : Block := .mk "getPinDigital" .reporter [.literal "2"] none
    let call : Block :=
      .mk "evaluate" .reporter [.reporter (.mk "reportGetVar" .reporter [.literal "f"] none)] none
    let compile (b : Block) := b.compileFrom onePinBoard ⟨.adhoc, true⟩
    let both := compile (.mk "reportAnd" .predicate [.reporter reading, .reporter call] none)
      .initial
    let first := compile reading .initial
    let second := compile call first.2
    both.1.isOk = true ∧ first.1.isOk = true ∧ second.1.isOk = true ∧
      both.2.pins.knows (2, .input) = true ∧ second.2.pins.knows (2, .input) = false := by
  decide +kernel

end BlockLink
