import BlockLink.Proofs.Pins.Straight

/-!
# `BlockLink/Proofs/Pins/Operands.lean` — operands that read pins

The compiler goes through the operands of a block in the order in which they stand, and remembers
the modes that each of them leaves. The template of the block runs them in an order of its own, and
may leave some out. `Selector.order` is that order.

As long as the operands that use the same pin are all run, and in the order in which they stand,
this makes no difference: on each pin the marks are the same (`Fit.on_order`), so code that runs the
operands leads from what is remembered before them to what is remembered after them (`Fit.reads`).
-/

set_option autoImplicit false

namespace BlockLink

open BlockLink.Text PinMark

/-! ## What a block uses -/

/-- What matters of an operand: its text if it was typed in, and the pins that it uses. -/
inductive OperandForm where
  | typed (text : String)
  | computed (pins : List Pin)
  deriving DecidableEq, Repr

/-- The pins that an operand uses. -/
def OperandForm.pins : OperandForm → List Pin
  | .typed _ => []
  | .computed pins => pins

namespace Selector

/-- The mode in which a block itself uses a pin. -/
def pinMode? : Selector → Option PinMode
  | .setPinDigital => some .output
  | .setPinAnalog => some .pwm
  | .getPinDigital => some .input
  | .getPinAnalog => some .analog
  | _ => none

/-- The pin that a block itself uses, if the board has it. -/
def ownPin? (selector : Selector) (board : Board) : List OperandForm → Option Pin
  | .typed text :: _ =>
    selector.pinMode?.bind fun mode => (board.pinNamed? mode text).map (·.1)
  | _ => none

/-- The operands that the code of a block runs, in that order. -/
def order (selector : Selector) (board : Board) (forms : List OperandForm) : List Nat :=
  match selector with
  | .doWait | .doWaitUntil | .doRepeat | .doIf | .doIfElse | .doReport | .reportNot
  | .reportListLength => [0]
  | .doSetVar | .doChangeVar | .reportMonadic => [1]
  | .reportSum | .reportDifference | .reportProduct | .reportQuotient | .reportModulus
  | .reportRandom | .reportLessThan | .reportEquals | .reportGreaterThan
  | .reportListContainsItem => [0, 1]
  | .reportListItem | .addListItem | .deleteListItem => [1, 0]
  | .insertListItem => [2, 1, 0]
  | .replaceListItem => [1, 0, 2]
  | .reportJoinWords | .reportNewList => List.range forms.length
  | .setPinDigital | .setPinAnalog => if (selector.ownPin? board forms).isSome then [1] else []
  | .publishMqttMessage => if board.broker.isSome then [1, 0] else []
  | _ => []

/-- A reporter that computes all its operands before its value. -/
def isEager : Selector → Bool
  | .reportSum | .reportDifference | .reportProduct | .reportQuotient | .reportModulus
  | .reportMonadic | .reportRandom | .reportLessThan | .reportEquals | .reportGreaterThan
  | .reportNot | .reportTrue | .reportFalse | .reportJoinWords | .reportGetVar | .reportNewList
  | .reportListItem | .reportListLength | .reportListContainsItem | .getPinDigital
  | .getPinAnalog => true
  | _ => false

end Selector

mutual

/-- The pins that the code of a reporter uses. -/
def Block.pins (board : Board) : Block → List Pin
  | .mk name _ inputs _ =>
    (Slot.formsOf board inputs).flatMap OperandForm.pins
      ++ ((Selector.ofName? name).bind (·.ownPin? board (Slot.formsOf board inputs))).toList

/-- What matters of the operands of a slot. -/
def Slot.forms (board : Board) : Slot → List OperandForm
  | .literal text => [.typed text]
  | .upvar _ => [.computed []]
  | .script _ => [.computed []]
  | .reporter block => [.computed (block.pins board)]
  | .variadic slots => Slot.formsOf board slots

/-- What matters of the operands of slots. -/
def Slot.formsOf (board : Board) : List Slot → List OperandForm
  | [] => []
  | slot :: rest => slot.forms board ++ Slot.formsOf board rest

end

mutual

/-- The block and every block in it and below it. -/
def Block.parts : Block → List Block
  | .mk name kind inputs next =>
    .mk name kind inputs next :: (Slot.partsOf inputs ++ Block.partsBelow next)

/-- The blocks of a chain, if there is one. -/
def Block.partsBelow : Option Block → List Block
  | none => []
  | some b => b.parts

/-- The blocks in a slot. -/
def Slot.parts : Slot → List Block
  | .literal _ => []
  | .upvar _ => []
  | .script body => Block.partsBelow body
  | .reporter block => block.parts
  | .variadic slots => Slot.partsOf slots

/-- The blocks in slots. -/
def Slot.partsOf : List Slot → List Block
  | [] => []
  | slot :: rest => slot.parts ++ Slot.partsOf rest

end

mutual

/-- A reporter that computes all its operands first, all of them such reporters or typed in. -/
def Block.isEager : Block → Bool
  | .mk name _ inputs next =>
    (Selector.ofName? name).any (·.isEager) && Slot.areEager inputs && next.isNone

/-- A slot in which everything is computed. -/
def Slot.isEager : Slot → Bool
  | .literal _ => true
  | .upvar _ => true
  | .script _ => false
  | .reporter block => block.isEager
  | .variadic slots => Slot.areEager slots

def Slot.areEager : List Slot → Bool
  | [] => true
  | slot :: rest => slot.isEager && Slot.areEager rest

end

/-- Whether the operand with a number uses a pin. -/
def usesPin (forms : List OperandForm) (p : Pin) (i : Nat) : Bool :=
  forms[i]?.any (·.pins.contains p)

/-- Whether the operands that use a pin are all run, in the order in which they stand. -/
def inOrder (forms : List OperandForm) (order : List Nat) : Bool :=
  (forms.flatMap OperandForm.pins).all fun p =>
    order.filter (usesPin forms p) == (List.range forms.length).filter (usesPin forms p)

/-- Whether the code of a block runs the operands that use a pin, for each pin, in the order in
which they stand. -/
def Block.runsInOrder (board : Board) : Block → Bool
  | .mk name _ inputs _ =>
    (Selector.ofName? name).all fun selector =>
      inOrder (Slot.formsOf board inputs) (selector.order board (Slot.formsOf board inputs))

/-! ## What operands do

Operands are straight code: they have no loops and no branches, so what they do to a pin is the list
of their marks on it. -/

/-- The marks in the code of an operand that is run for its value. -/
def Operand.marks : Operand → List PinMark
  | .expression c => c.marks
  | _ => []

/-- An operand with a value, whose code is straight. -/
def Operand.Straight : Operand → Prop
  | .expression c => c.Straight
  | .script _ => False
  | _ => True

/-- The marks of the operand with a number. -/
def marksAt (items : List Operand) (i : Nat) : List PinMark :=
  items[i]?.elim [] Operand.marks

/-- The modes in which pins are read. -/
def PinMode.isReading : PinMode → Bool
  | .input | .analog => true
  | _ => false

/-- Straight code that reads the given pins and no others, and what is remembered before and
after. -/
structure Reads (code : Code) (pins : List Pin) (m m' : PinMemory) : Prop where
  straight : code.Straight
  sorted : m.Sorted → m'.Sorted
  keeps : ∀ p, KeepsAt p code.marks (m.get? p) (m'.get? p)
  off : ∀ p, p ∉ pins → on p code.marks = [] ∧ m'.get? p = m.get? p
  uses : ∀ p ∈ pins, ∃ mode, .access p mode ∈ code.marks
  reading : ∀ mark ∈ code.marks, mark.mode.isReading = true

/-- Operands that were compiled one after another. -/
inductive Fit : PinMemory → List OperandForm → List Operand → PinMemory → Prop where
  | nil (m : PinMemory) : Fit m [] [] m
  | typed (text : String) {m m' : PinMemory} {forms : List OperandForm} {items : List Operand}
      (rest : Fit m forms items m') : Fit m (.typed text :: forms) (.literal text :: items) m'
  | name (text : String) {m m' : PinMemory} {forms : List OperandForm} {items : List Operand}
      (rest : Fit m forms items m') : Fit m (.computed [] :: forms) (.name text :: items) m'
  | expression {code : Code} {pins : List Pin} {m m₁ m' : PinMemory} {forms : List OperandForm}
      {items : List Operand} (first : Reads code pins m m₁) (rest : Fit m₁ forms items m') :
      Fit m (.computed pins :: forms) (.expression code :: items) m'

namespace Fit

variable {m m' m'' : PinMemory} {forms forms' : List OperandForm} {items items' : List Operand}

theorem append (h : Fit m forms items m') (h' : Fit m' forms' items' m'') :
    Fit m (forms ++ forms') (items ++ items') m'' := by
  induction h with
  | nil m => exact h'
  | typed text rest ih => exact .typed text (ih h')
  | name text rest ih => exact .name text (ih h')
  | expression first rest ih => exact .expression first (ih h')

theorem length_eq (h : Fit m forms items m') : forms.length = items.length := by
  induction h with
  | nil m => rfl
  | typed _ _ ih | name _ _ ih | expression _ _ ih => rw [List.length_cons, List.length_cons, ih]

theorem straight (h : Fit m forms items m') : ∀ x ∈ items, x.Straight := by
  induction h with
  | nil m => simp
  | typed _ _ ih | name _ _ ih =>
    intro x hx
    rcases List.mem_cons.mp hx with rfl | hx
    · trivial
    · exact ih x hx
  | expression first _ ih =>
    intro x hx
    rcases List.mem_cons.mp hx with rfl | hx
    · exact first.straight
    · exact ih x hx

theorem sorted (h : Fit m forms items m') (hm : m.Sorted) : m'.Sorted := by
  induction h with
  | nil m => exact hm
  | typed _ _ ih | name _ _ ih => exact ih hm
  | expression first _ ih => exact ih (first.sorted hm)

/-- On each pin the operands, run in the order in which they stand, lead from what is remembered
before them to what is remembered after them. -/
theorem keepsAt (h : Fit m forms items m') (p : Pin) :
    KeepsAt p (items.flatMap Operand.marks) (m.get? p) (m'.get? p) := by
  induction h with
  | nil m => exact keepsAt_nil p _
  | typed _ _ ih | name _ _ ih => exact ih
  | expression first _ ih => exact (first.keeps p).append ih

theorem get?_eq (h : Fit m forms items m') {p : Pin} (hp : p ∉ forms.flatMap OperandForm.pins) :
    m'.get? p = m.get? p := by
  induction h with
  | nil m => rfl
  | typed _ _ ih | name _ _ ih => exact ih (by simpa [OperandForm.pins] using hp)
  | expression first _ ih =>
    rw [List.flatMap_cons, List.mem_append, not_or] at hp
    exact (ih hp.2).trans (first.off p hp.1).2

/-- An operand that does not use a pin has no marks on it. -/
theorem on_marksAt (h : Fit m forms items m') {p : Pin} {i : Nat} (hi : usesPin forms p i = false) :
    on p (marksAt items i) = [] := by
  induction h generalizing i with
  | nil m => rfl
  | typed _ _ ih | name _ _ ih =>
    cases i with
    | zero => rfl
    | succ i => exact ih hi
  | expression first _ ih =>
    cases i with
    | zero => exact (first.off p (by simpa [usesPin, OperandForm.pins] using hi)).1
    | succ i => exact ih hi

/-- Whatever pins the operands are said to use are used in their code. -/
theorem uses (h : Fit m forms items m') {p : Pin} (hp : p ∈ forms.flatMap OperandForm.pins) :
    ∃ mode, .access p mode ∈ items.flatMap Operand.marks := by
  induction h with
  | nil m => simp at hp
  | typed _ _ ih | name _ _ ih => exact ih (by simpa [OperandForm.pins] using hp)
  | expression first _ ih =>
    rw [List.flatMap_cons, List.mem_append] at hp
    rcases hp with hp | hp
    · obtain ⟨mode, hmode⟩ := first.uses p hp
      exact ⟨mode, List.mem_append_left _ hmode⟩
    · obtain ⟨mode, hmode⟩ := ih hp
      exact ⟨mode, List.mem_append_right _ hmode⟩

theorem reading (h : Fit m forms items m') :
    ∀ mark ∈ items.flatMap Operand.marks, mark.mode.isReading = true := by
  induction h with
  | nil m => simp
  | typed _ _ ih | name _ _ ih => exact ih
  | expression first _ ih =>
    intro mark hmark
    rcases List.mem_append.mp hmark with hmark | hmark
    · exact first.reading mark hmark
    · exact ih mark hmark

end Fit

/-! ## Operands in an order

Only operands that use a pin need to stand in the order in which they are run. The others have no
marks, and may be run anywhere. -/

/-- Straight code that runs operands in an order. -/
structure Runs (items : List Operand) (order : List Nat) (c : Code) : Prop where
  straight : c.Straight
  marks : c.marks = order.flatMap (marksAt items)

namespace Runs

variable {items : List Operand} {order order' : List Nat} {c d : Code}

theorem text (s : String) : Runs items [] (.text s) := ⟨trivial, rfl⟩

theorem append (hc : Runs items order c) (hd : Runs items order' d) :
    Runs items (order ++ order') (c ++ d) where
  straight := ⟨hc.straight, hd.straight⟩
  marks := by rw [Code.marks_append, hc.marks, hd.marks, List.flatMap_append]

/-- Operands with a text between them are run in the order in which they are written. -/
theorem join (between : String) {is : List Nat} {cs : List Code}
    (h : List.Forall₂ (fun i c => Runs items [i] c) is cs) :
    Runs items is (Code.join between cs) := by
  induction h with
  | nil => exact text ""
  | @cons i c is cs hc hcs ih =>
    cases hcs with
    | nil => exact hc
    | cons hd hds => exact (hc.append (text between)).append ih

theorem call (f : String) {is : List Nat} {cs : List Code}
    (h : List.Forall₂ (fun i c => Runs items [i] c) is cs) :
    Runs items is (Template.call f cs) := by
  have hcall := (((text f).append (text "(")).append (join ", " h)).append (text ")")
  rw [List.append_nil] at hcall
  exact hcall

end Runs

theorem flatMap_filter {α β : Type} {f : α → List β} {q : α → Bool}
    (h : ∀ a, q a = false → f a = []) (l : List α) : (l.filter q).flatMap f = l.flatMap f := by
  induction l with
  | nil => rfl
  | cons a l ih =>
    cases hq : q a with
    | true => rw [List.filter_cons_of_pos hq, List.flatMap_cons, List.flatMap_cons, ih]
    | false =>
      have hneg : ¬ q a = true := by simp [hq]
      rw [List.filter_cons_of_neg hneg, List.flatMap_cons, h a hq, ih, List.nil_append]

theorem flatMap_marksAt (items : List Operand) :
    (List.range items.length).flatMap (marksAt items) = items.flatMap Operand.marks := by
  induction items with
  | nil => rfl
  | cons x items ih =>
    rw [List.length_cons, List.range_succ_eq_map, List.flatMap_cons, List.flatMap_map,
      List.flatMap_cons, ← ih]
    rfl

/-- A pin is used if some operand uses it. -/
theorem exists_usesPin {forms : List OperandForm} {p : Pin} :
    p ∈ forms.flatMap OperandForm.pins ↔ ∃ i, usesPin forms p i = true := by
  constructor
  · intro hp
    obtain ⟨form, hform, hpin⟩ := List.mem_flatMap.mp hp
    obtain ⟨i, hi⟩ := List.mem_iff_getElem?.mp hform
    exact ⟨i, by simp [usesPin, hi, hpin]⟩
  · rintro ⟨i, hi⟩
    cases hform : forms[i]? with
    | none => simp [usesPin, hform] at hi
    | some form =>
      have hpin : p ∈ form.pins := by simpa [usesPin, hform] using hi
      exact List.mem_flatMap.mpr ⟨form, List.mem_of_getElem? hform, hpin⟩

/-- Of the operands that use a pin, those that are run are all of them, in the order in which they
stand. -/
theorem filter_of_inOrder {forms : List OperandForm} {order : List Nat}
    (h : inOrder forms order = true) (p : Pin) :
    order.filter (usesPin forms p) = (List.range forms.length).filter (usesPin forms p) := by
  by_cases hp : p ∈ forms.flatMap OperandForm.pins
  · exact beq_iff_eq.mp (List.all_eq_true.mp h p hp)
  · -- No operand uses the pin, so there is nothing in either list.
    have hnone : ∀ i, ¬ usesPin forms p i = true := fun i hi => hp (exists_usesPin.mpr ⟨i, hi⟩)
    rw [List.filter_eq_nil_iff.mpr fun i _ => hnone i, List.filter_eq_nil_iff.mpr
      fun i _ => hnone i]

/-- An operand that uses a pin is run. -/
theorem mem_of_inOrder {forms : List OperandForm} {order : List Nat}
    (h : inOrder forms order = true) {p : Pin} {i : Nat} (hi : usesPin forms p i = true) :
    i ∈ order := by
  have hlt : i < forms.length := by
    by_contra hge
    simp [usesPin, List.getElem?_eq_none (Nat.le_of_not_lt hge)] at hi
  have hmem : i ∈ (List.range forms.length).filter (usesPin forms p) :=
    List.mem_filter.mpr ⟨List.mem_range.mpr hlt, hi⟩
  rw [← filter_of_inOrder h p] at hmem
  exact (List.mem_filter.mp hmem).1

namespace Fit

variable {m m' : PinMemory} {forms : List OperandForm} {items : List Operand} {order : List Nat}
  {code : Code}

/-- On each pin the marks are those of the operands in the order in which they stand. -/
theorem on_order (h : Fit m forms items m') (horder : inOrder forms order = true) (p : Pin) :
    on p (order.flatMap (marksAt items)) = on p (items.flatMap Operand.marks) := by
  have hnil : ∀ i, usesPin forms p i = false → on p (marksAt items i) = [] :=
    fun i hi => h.on_marksAt hi
  calc on p (order.flatMap (marksAt items))
      = order.flatMap fun i => on p (marksAt items i) := List.filter_flatMap
    _ = (order.filter (usesPin forms p)).flatMap fun i => on p (marksAt items i) :=
        (flatMap_filter hnil order).symm
    _ = (List.range items.length).flatMap fun i => on p (marksAt items i) := by
        rw [filter_of_inOrder horder, h.length_eq, flatMap_filter hnil]
    _ = on p ((List.range items.length).flatMap (marksAt items)) := List.filter_flatMap.symm
    _ = on p (items.flatMap Operand.marks) := by rw [flatMap_marksAt]

/-- Code that runs the operands reads the pins that they read. -/
theorem reads (h : Fit m forms items m') (hruns : Runs items order code)
    (horder : inOrder forms order = true) : Reads code (forms.flatMap OperandForm.pins) m m' := by
  -- On each pin the marks are those of the operands as they stand, though all of them together may
  -- be in another order.
  have hon : ∀ p, on p code.marks = on p (items.flatMap Operand.marks) := by
    intro p
    rw [hruns.marks]
    exact h.on_order horder p
  have hmem : ∀ mark, mark ∈ code.marks ↔ mark ∈ items.flatMap Operand.marks := by
    intro mark
    have hiff : ∀ marks : List PinMark, mark ∈ on mark.pin marks ↔ mark ∈ marks := by simp [on]
    rw [← hiff code.marks, hon, hiff]
  refine ⟨hruns.straight, h.sorted, fun p => (h.keepsAt p).congr (hon p), ?_, ?_, ?_⟩
  · intro p hp
    refine ⟨?_, h.get?_eq hp⟩
    rw [hruns.marks]
    refine List.filter_flatMap.trans (List.flatMap_eq_nil_iff.mpr fun i _ => h.on_marksAt ?_)
    exact Bool.eq_false_iff.mpr fun hi => hp (exists_usesPin.mpr ⟨i, hi⟩)
  · intro p hp
    obtain ⟨mode, hmode⟩ := h.uses hp
    exact ⟨mode, (hmem _).mpr hmode⟩
  · exact fun mark hmark => h.reading mark ((hmem mark).mp hmark)

end Fit

end BlockLink
