import BlockLink.Proofs.Pins.Change

/-!
# `BlockLink/Proofs/Pins/Deferred.lean` — what code makes of the pins that are known

The source of a block depends on the pins known before it through its guards alone. `Block.asks`
lists the pins that a block asks for before it has set them itself or forgotten them. Two memories
that agree on them give the same source, and a memory that knows more of them gives a shorter one
(`Block.tells_source?`).

A function that is made here and called elsewhere should not share the pins with the code around it.
That is so exactly if the block asks for no pin and records none (`deferred_isolated_iff`): for
every script, but for a reporter only if it uses no pin of its own.
-/

set_option autoImplicit false

namespace BlockLink

open Operands

/-! ## Asking

The comparison by length is there for the other direction: a source that asks for a pin is not the
same from all memories, as it is shorter where the pin is known. -/

namespace PinChange

/-- Whether what is known of a pin after the change is what was known of it before. -/
def passes (c : PinChange) (pin : Pin) : Bool :=
  !c.forgets && (c.last? pin).isNone

/-- What is asked after a change, as far as the answer depends on the pins known before it. -/
def pass (c : PinChange) (asks : List (Pin × PinMode)) : List (Pin × PinMode) :=
  asks.filter fun use => c.passes use.1

theorem mem_pass {c : PinChange} {asks : List (Pin × PinMode)} {use : Pin × PinMode} :
    use ∈ c.pass asks ↔ use ∈ asks ∧ c.passes use.1 = true :=
  List.mem_filter

/-- Where a change lets a pin pass, the answer is that of the memory before it. -/
theorem knows_apply_of_passes {c : PinChange} {use : Pin × PinMode} (h : c.passes use.1 = true)
    {m : PinMemory} (hm : m.Sorted) : (c.apply m).knows use = m.knows use := by
  obtain ⟨hforgets, hlast⟩ : c.forgets = false ∧ c.last? use.1 = none := by simpa [passes] using h
  unfold PinMemory.knows
  rw [get?_apply hm, hlast, hforgets]
  rfl

/-- Where it does not, the answer is the same whatever was known before. -/
theorem knows_apply_of_not_passes {c : PinChange} {use : Pin × PinMode}
    (h : ¬ c.passes use.1 = true) {m m' : PinMemory} (hm : m.Sorted) (hm' : m'.Sorted) :
    (c.apply m).knows use = (c.apply m').knows use := by
  unfold PinMemory.knows
  rw [get?_apply hm, get?_apply hm']
  cases hlast : c.last? use.1 with
  | some mode => rfl
  | none =>
    have hforgets : c.forgets = true := by simpa [passes, hlast] using h
    rw [hforgets]
    rfl

end PinChange

/-- How texts written from two memories compare: they are the same if the memories agree on what is
asked, and the second is shorter if the second memory knows more of it. -/
structure Tells (asks : List (Pin × PinMode)) (m m' : PinMemory) (x x' : String) : Prop where
  same : (∀ use ∈ asks, m.knows use = m'.knows use) → x = x'
  le : (∀ use ∈ asks, m.knows use → m'.knows use) → x'.length ≤ x.length
  lt : (∀ use ∈ asks, m.knows use → m'.knows use) →
    (∃ use ∈ asks, m'.knows use = true ∧ m.knows use = false) → x'.length < x.length

namespace Tells

variable {as bs : List (Pin × PinMode)} {m m' : PinMemory} {x x' y y' : String}

theorem refl (m m' : PinMemory) (x : String) : Tells [] m m' x x where
  same _ := rfl
  le _ := le_rfl
  lt _ h := by
    obtain ⟨use, huse, -⟩ := h
    cases huse

/-- The order in which pins are asked for does not matter, nor how often. -/
theorem congr (h : Tells as m m' x x') (heq : ∀ use, use ∈ as ↔ use ∈ bs) : Tells bs m m' x x' where
  same hb := h.same fun use huse => hb use ((heq use).1 huse)
  le hb := h.le fun use huse => hb use ((heq use).1 huse)
  lt hb hnew := by
    obtain ⟨use, huse, hknown⟩ := hnew
    exact h.lt (fun use huse => hb use ((heq use).1 huse)) ⟨use, (heq use).2 huse, hknown⟩

/-- Two texts in a row ask for what either asks. -/
theorem append (hx : Tells as m m' x x') (hy : Tells bs m m' y y') :
    Tells (as ++ bs) m m' (x ++ y) (x' ++ y') where
  same h := by
    rw [hx.same fun use huse => h use (List.mem_append_left _ huse),
      hy.same fun use huse => h use (List.mem_append_right _ huse)]
  le h := by
    have hlex := hx.le fun use huse => h use (List.mem_append_left _ huse)
    have hley := hy.le fun use huse => h use (List.mem_append_right _ huse)
    rw [String.length_append, String.length_append]
    omega
  -- Whichever part asks for the new pin is shorter, and the other is not longer.
  lt h hnew := by
    have hleft := fun use huse => h use (List.mem_append_left bs huse)
    have hright := fun use huse => h use (List.mem_append_right as huse)
    have hlex := hx.le hleft
    have hley := hy.le hright
    rw [String.length_append, String.length_append]
    obtain ⟨use, huse, hknown⟩ := hnew
    rcases List.mem_append.1 huse with huse | huse
    · have hlt := hx.lt hleft ⟨use, huse, hknown⟩
      omega
    · have hlt := hy.lt hright ⟨use, huse, hknown⟩
      omega

theorem between (h : Tells as m m' x x') (front back : String) :
    Tells as m m' (front ++ x ++ back) (front ++ x' ++ back) :=
  (((refl m m' front).append h).append (refl m m' back)).congr (by simp)

/-- Seen from before a change. -/
theorem pass {c : PinChange} (hm : m.Sorted) (hm' : m'.Sorted)
    (h : Tells as (c.apply m) (c.apply m') x x') : Tells (c.pass as) m m' x x' := by
  -- A pin that passes the change is known behind it exactly if it was before, and any other is
  -- known there or not whatever the memory.
  have hle : (∀ use ∈ c.pass as, m.knows use → m'.knows use) →
      ∀ use ∈ as, (c.apply m).knows use → (c.apply m').knows use := by
    intro hpass use huse
    by_cases hpasses : c.passes use.1 = true
    · rw [PinChange.knows_apply_of_passes hpasses hm, PinChange.knows_apply_of_passes hpasses hm']
      exact hpass use (PinChange.mem_pass.2 ⟨huse, hpasses⟩)
    · rw [PinChange.knows_apply_of_not_passes hpasses hm hm']
      exact id
  refine ⟨fun hsame => h.same fun use huse => ?_, fun hpass => h.le (hle hpass),
    fun hpass hnew => h.lt (hle hpass) ?_⟩
  · by_cases hpasses : c.passes use.1 = true
    · rw [PinChange.knows_apply_of_passes hpasses hm, PinChange.knows_apply_of_passes hpasses hm']
      exact hsame use (PinChange.mem_pass.2 ⟨huse, hpasses⟩)
    · exact PinChange.knows_apply_of_not_passes hpasses hm hm'
  · obtain ⟨use, huse, hknown⟩ := hnew
    obtain ⟨huse, hpasses⟩ := PinChange.mem_pass.1 huse
    refine ⟨use, huse, ?_⟩
    rw [PinChange.knows_apply_of_passes hpasses hm, PinChange.knows_apply_of_passes hpasses hm']
    exact hknown

/-- Asking for something on which the memories agree. -/
theorem ask (h : Tells as m m' x x') {use : Pin × PinMode} (huse : m.knows use = m'.knows use) :
    Tells (as ++ [use]) m m' x x' where
  same hb := h.same fun use huse => hb use (List.mem_append_left _ huse)
  le hb := h.le fun use huse => hb use (List.mem_append_left _ huse)
  lt hb hnew := by
    obtain ⟨new, hmem, hknown, hunknown⟩ := hnew
    rcases List.mem_append.1 hmem with hmem | hmem
    · exact h.lt (fun use huse => hb use (List.mem_append_left _ huse))
        ⟨new, hmem, hknown, hunknown⟩
    · rw [List.mem_singleton.1 hmem, huse] at hunknown
      rw [List.mem_singleton.1 hmem, hunknown] at hknown
      cases hknown

/-- A text that is put around another unless a pin is known to be in a mode. -/
theorem guarded (h : Tells as m m' x x') (use : Pin × PinMode) {front : String}
    (hfront : front ≠ "") (back : String) :
    Tells (as ++ [use]) m m' (if m.knows use then x else front ++ x ++ back)
      (if m'.knows use then x' else front ++ x' ++ back) := by
  cases hm : m.knows use with
  | true =>
    cases hm' : m'.knows use with
    | true => exact h.ask (hm.trans hm'.symm)
    | false =>
      -- The second memory knows less, which the fields exclude.
      have hless : ¬ ∀ a ∈ as ++ [use], m.knows a → m'.knows a := by
        intro hall
        have hknown := hall use (by simp) hm
        rw [hm'] at hknown
        cases hknown
      refine ⟨fun hsame => ?_, fun hall => absurd hall hless, fun hall => absurd hall hless⟩
      have hagree := hsame use (by simp)
      rw [hm, hm'] at hagree
      cases hagree
  | false =>
    cases hm' : m'.knows use with
    | false => exact (h.between front back).ask (hm.trans hm'.symm)
    | true =>
      have hlength : 0 < front.length := by
        rcases Nat.eq_zero_or_pos front.length with hzero | hpos
        · exact absurd (String.length_eq_zero_iff.1 hzero) hfront
        · exact hpos
      have hlt : (∀ a ∈ as ++ [use], m.knows a → m'.knows a) →
          x'.length < (front ++ x ++ back).length := by
        intro hall
        have hle := h.le fun use huse => hall use (List.mem_append_left _ huse)
        rw [String.length_append, String.length_append]
        omega
      refine ⟨fun hsame => ?_, fun hall => (hlt hall).le, fun hall _ => hlt hall⟩
      have hagree := hsame use (by simp)
      rw [hm, hm'] at hagree
      cases hagree

/-- A text that is guarded by a pin, where the pin is asked for after a change: the guard counts
as one of the pins asked for only if the change passes it on. -/
theorem guarded_pass {c : PinChange} (hm : m.Sorted) (hm' : m'.Sorted) (h : Tells as m m' x x')
    (use : Pin × PinMode) {front : String} (hfront : front ≠ "") (back : String) :
    Tells (as ++ c.pass [use]) m m' (if (c.apply m).knows use then x else front ++ x ++ back)
      (if (c.apply m').knows use then x' else front ++ x' ++ back) := by
  by_cases hpasses : c.passes use.1 = true
  · rw [PinChange.knows_apply_of_passes hpasses hm, PinChange.knows_apply_of_passes hpasses hm']
    have hpass : c.pass [use] = [use] := by simp [PinChange.pass, hpasses]
    rw [hpass]
    exact h.guarded use hfront back
  · rw [PinChange.knows_apply_of_not_passes hpasses hm hm']
    have hpass : c.pass [use] = [] := by simp [PinChange.pass, hpasses]
    rw [hpass, List.append_nil]
    split
    · exact h
    · exact h.between front back

end Tells

/-! ## Operands -/

/-- The text of the operand's code. -/
def Operand.code : Operand → String
  | .expression c | .script c => c.render
  | _ => ""

/-- Operands written from two memories, with what the code of each asks. -/
inductive TellEach (m m' : PinMemory) :
    List (List (Pin × PinMode)) → List Operand → List Operand → Prop where
  | nil : TellEach m m' [] [] []
  | cons {as : List (Pin × PinMode)} {x y : Operand} {each : List (List (Pin × PinMode))}
      {xs ys : List Operand} (hblank : x.blank = y.blank) (hcode : Tells as m m' x.code y.code)
      (hrest : TellEach m m' each xs ys) : TellEach m m' (as :: each) (x :: xs) (y :: ys)

/-- What is asked by the operands that stand in a layout. -/
def Layout.asked (each : List (List (Pin × PinMode))) (ps : List Piece) : List (Pin × PinMode) :=
  ps.flatMap fun p => (p.place?.bind (each[·]?)).getD []

/-- An operand behind the others that asks for nothing. -/
theorem Layout.asked_append_nil (each : List (List (Pin × PinMode))) (ps : List Piece) :
    asked (each ++ [[]]) ps = asked each ps := by
  unfold asked
  congr 1
  funext p
  cases p.place? with
  | none => rfl
  | some i =>
    rw [Option.bind_some, Option.bind_some]
    rcases lt_trichotomy i each.length with hlt | rfl | hgt
    · rw [List.getElem?_append_left hlt]
    · simp
    · rw [List.getElem?_eq_none (by simp; omega), List.getElem?_eq_none (by omega)]

section

variable {as : List (Pin × PinMode)} {m m' : PinMemory} {each : List (List (Pin × PinMode))}
  {xs ys : List Operand}

/-- Two texts of which nothing is known but that they are the same compare as any two such texts. -/
theorem Tells.of_same {x : String} (h : Tells as m m' x x) (y : String) : Tells as m m' y y where
  same _ := rfl
  le _ := le_rfl
  lt hall hnew := absurd (h.lt hall hnew) (lt_irrefl _)

/-- Operands that differ in their code alone are read alike. -/
theorem Tells.value? {x y : Operand} (hblank : x.blank = y.blank)
    (h : Tells as m m' x.code y.code) :
    Option.Rel (Tells as m m') x.value? y.value? := by
  cases x <;> cases y <;> cases hblank
  · exact .some (h.of_same _)
  · exact .some (h.of_same _)
  · exact .some h
  · exact .none

theorem Tells.number? {x y : Operand} (hblank : x.blank = y.blank)
    (h : Tells as m m' x.code y.code) :
    Option.Rel (Tells as m m') x.number? y.number? := by
  have hvalue := h.value? hblank
  cases x <;> cases y <;> cases hblank
  · exact .some (h.of_same _)
  all_goals exact hvalue

theorem Tells.string? {x y : Operand} (hblank : x.blank = y.blank)
    (h : Tells as m m' x.code y.code) :
    Option.Rel (Tells as m m') x.string? y.string? := by
  cases x <;> cases y <;> cases hblank
  · exact .some (h.of_same _)
  · exact .some (h.of_same _)
  · exact .some (h.between "_s(" ")")
  · exact .none

theorem Tells.script? {x y : Operand} (hblank : x.blank = y.blank)
    (h : Tells as m m' x.code y.code) :
    Option.Rel (Tells as m m') x.script? y.script? := by
  cases x <;> cases y <;> cases hblank
  · rename_i s
    show Option.Rel _ (if s = "" then some "" else none) (if s = "" then some "" else none)
    split
    · exact .some (h.of_same _)
    · exact .none
  · exact .none
  · exact .none
  · exact .some h

/-- What the operands are apart from their code is the same from any memory. -/
theorem TellEach.map_blank (h : TellEach m m' each xs ys) :
    xs.map Operand.blank = ys.map Operand.blank := by
  induction h with
  | nil => rfl
  | cons hblank _ _ ih => rw [List.map_cons, List.map_cons, hblank, ih]

theorem TellEach.append {each' : List (List (Pin × PinMode))} {xs' ys' : List Operand}
    (h : TellEach m m' each xs ys) (h' : TellEach m m' each' xs' ys') :
    TellEach m m' (each ++ each') (xs ++ xs') (ys ++ ys') := by
  induction h with
  | nil => exact h'
  | cons hblank hcode _ ih => exact .cons hblank hcode ih

theorem TellEach.pass {c : PinChange} (hm : m.Sorted) (hm' : m'.Sorted)
    (h : TellEach (c.apply m) (c.apply m') each xs ys) : TellEach m m' (each.map c.pass) xs ys := by
  induction h with
  | nil => exact .nil
  | cons hblank hcode _ ih => exact .cons hblank (hcode.pass hm hm') ih

/-- The operand at a place, read in some way. -/
theorem TellEach.read (h : TellEach m m' each xs ys) {read : Operand → Option String}
    (hread : ∀ {as : List (Pin × PinMode)} {x y : Operand}, x.blank = y.blank →
      Tells as m m' x.code y.code → Option.Rel (Tells as m m') (read x) (read y)) (i : Nat) :
    Option.Rel (Tells ((each[i]?).getD []) m m') (xs[i]?.bind read) (ys[i]?.bind read) := by
  induction h generalizing i with
  | nil => exact .none
  | cons hblank hcode _ ih =>
    cases i with
    | zero => exact hread hblank hcode
    | succ i => exact ih i

/-- What is written for a piece of a layout asks for what its operand asks. -/
theorem TellEach.written? (h : TellEach m m' each xs ys) (selector : Selector) (p : Piece) :
    Option.Rel (Tells ((p.place?.bind (each[·]?)).getD []) m m')
      (Operands.written? ⟨selector, xs⟩ p) (Operands.written? ⟨selector, ys⟩ p) := by
  cases p with
  | value i => exact h.read Tells.value? i
  | number i => exact h.read Tells.number? i
  | string i => exact h.read Tells.string? i
  | script i => exact h.read Tells.script? i
  | text | quoted | numeral | pinName | typed => exact .some (Tells.refl m m' _)

/-- One text and then another, if there are both. -/
theorem Tells.option_append {bs : List (Pin × PinMode)} {u u' v v' : Option String}
    (hu : Option.Rel (Tells as m m') u u') (hv : Option.Rel (Tells bs m m') v v') :
    Option.Rel (Tells (as ++ bs) m m') (u.bind fun front => v.map (front ++ ·))
      (u'.bind fun front => v'.map (front ++ ·)) := by
  cases hu with
  | none => exact .none
  | some hu =>
    cases hv with
    | none => exact .none
    | some hv => exact .some (hu.append hv)

theorem TellEach.fill (h : TellEach m m' each xs ys) (selector : Selector) (ps : List Piece) :
    Option.Rel (Tells (Layout.asked each ps) m m') (Operands.fill ⟨selector, xs⟩ ps)
      (Operands.fill ⟨selector, ys⟩ ps) := by
  induction ps with
  | nil => exact .some (Tells.refl m m' "")
  | cons p ps ih => exact Tells.option_append (h.written? selector p) ih

end

/-! ## Layouts -/

namespace Layout

variable {board : Board} {selector : Selector} {shapes : List Operand}

theorem exists_pin?_of_use? {mode : PinMode} (hmode : selector.pinMode? = some mode)
    {use : Pin × PinMode} (h : use? board selector shapes = some use) :
    ∃ name, pin? board mode shapes = some (some (use.1, name)) := by
  unfold use? at h
  rw [hmode, Option.bind_some] at h
  obtain ⟨named, hnamed, rfl⟩ := Option.map_eq_some_iff.1 h
  exact ⟨named.2, Option.join_eq_some_iff.1 hnamed⟩

/-- What stands around a block unless its pin is known to be in its mode does not depend on
operands, and is not empty. -/
def IsGuard (front back : List Piece) : Prop :=
  ∃ u v, u ≠ "" ∧ ∀ ops : Operands, ops.fill front = some u ∧ ops.fill back = some v

theorem isGuard_write (pin : Pin) (name : String) (mode : PinMode) :
    IsGuard (guard pin name mode) [] := by
  refine ⟨_, "", fun hempty => ?_, fun ops => ⟨Template.fills_guard ops pin name mode, rfl⟩⟩
  simp [String.append_eq_empty_iff] at hempty

/-- Around a reading stands a function with the guard in it. -/
theorem isGuard_read (pin : Pin) (name : String) (mode : PinMode) :
    IsGuard (.text "(function()" :: .text " " :: (guard pin name mode ++ [Piece.text "return "]))
      [.text " ", .text "end)()"] := by
  have hfront : ∀ ops : Operands, ops.Fills
      ([.text "(function()"] ++ ([.text " "] ++ (guard pin name mode ++ [Piece.text "return "])))
      ("(function()"
        ++ (" " ++ (Code.guard pin mode (Template.setup pin name mode) ++ "return "))) := fun ops =>
    (Fills.text ops _).append ((Fills.text ops _).append
      ((Template.fills_guard ops pin name mode).append (Fills.text ops _)))
  refine ⟨_, _, fun hempty => ?_, fun ops =>
    ⟨hfront ops, (Fills.text ops " ").append (Fills.text ops _)⟩⟩
  rw [Code.render_append, String.append_eq_empty_iff, Code.render_text] at hempty
  exact absurd hempty.1 (by decide)

/-- The layout of a block with a pin of its own has the guard of the pin around it unless the pin is
known to be in its mode. -/
theorem exists_block_of_use? {use : Pin × PinMode} (h : use? board selector shapes = some use)
    (ctx : Context) :
    ∃ ps front back, (∀ known, block board ctx known selector shapes
        = some (if known then ps else front ++ ps ++ back)) ∧ IsGuard front back := by
  -- The guard of a write stands in front of it.
  have hwrite : ∀ {mode : PinMode}, selector.pinMode? = some mode → ∀ level : List Piece,
      ∃ ps front back,
      (∀ known, (pin? board mode shapes).map (fun named => named.elim [] fun named =>
        writePin known named.1 named.2 mode level) = some (if known then ps else front
          ++ ps ++ back)) ∧
      IsGuard front back := by
    intro mode hmode level
    obtain ⟨name, hpin⟩ := exists_pin?_of_use? hmode h
    refine ⟨writePin true use.1 name mode level, _, [], fun known => ?_,
      isGuard_write use.1 name mode⟩
    rw [hpin]
    cases known <;> simp [writePin]
  -- The guard of a reading is in the function around it.
  have hread : ∀ {mode : PinMode}, selector.pinMode? = some mode →
      ∃ ps front back, (∀ known, (pin? board mode shapes).map (fun named => named.elim [.text "nil"]
        fun named => readPin known named.1 named.2 mode) = some (if known then ps else front
          ++ ps ++ back)) ∧
      IsGuard front back := by
    intro mode hmode
    obtain ⟨name, hpin⟩ := exists_pin?_of_use? hmode h
    refine ⟨readPin true use.1 name mode, _, _, fun known => ?_, isGuard_read use.1 name mode⟩
    rw [hpin]
    cases known <;> simp [readPin, runNow]
  cases selector with
  | setPinDigital => exact hwrite rfl _
  | setPinAnalog => exact hwrite rfl _
  | getPinDigital => exact hread rfl
  | getPinAnalog => exact hread rfl
  | _ => cases h

end Layout

/-! ## Blocks

The induction over blocks and slots compares two runs of the compiler from two memories, side by
side. -/

/-- Computations that are related step by step. -/
theorem rel_bind {α α' β β' : Type} {R : α → α' → Prop} {S : β → β' → Prop} {u : Option α}
    {u' : Option α'} {f : α → Option β} {f' : α' → Option β'} (hu : Option.Rel R u u')
    (hf : ∀ a a', u = some a → u' = some a' → R a a' → Option.Rel S (f a) (f' a')) :
    Option.Rel S (u.bind f) (u'.bind f') := by
  cases hu with
  | none => exact .none
  | some h => exact hf _ _ rfl rfl h

theorem rel_mono {α α' : Type} {R S : α → α' → Prop} {u : Option α} {u' : Option α'}
    (hu : Option.Rel R u u') (h : ∀ a a', R a a' → S a a') : Option.Rel S u u' := by
  cases hu with
  | none => exact .none
  | some hr => exact .some (h _ _ hr)

theorem rel_map {α α' β β' : Type} {R : α → α' → Prop} {S : β → β' → Prop} {u : Option α}
    {u' : Option α'} {f : α → β} {f' : α' → β'} (hu : Option.Rel R u u')
    (hf : ∀ a a', R a a' → S (f a) (f' a')) :
    Option.Rel S (u.map f) (u'.map f') := by
  cases hu with
  | none => exact .none
  | some h => exact .some (hf _ _ h)

/-- Operands written into a layout with a guard around it. -/
theorem Operands.fill_guarded {front back : List Piece} {u v : String} {ops : Operands}
    (hfront : ops.fill front = some u) (hback : ops.fill back = some v) (known : Bool)
    (ps : List Piece) :
    ops.fill (if known then ps else front ++ ps ++ back)
      = (ops.fill ps).map fun x => if known then x else u ++ x ++ v := by
  cases known with
  | true => simp
  | false =>
    cases hps : ops.fill ps <;> simp [fill_append, hfront, hback, hps, String.append_assoc]

/-- A block asks for what its operands ask for and, behind them, for its own pin. -/
theorem TellEach.outcome? {m m' : PinMemory} {each : List (List (Pin × PinMode))}
    {xs ys : List Operand} (h : TellEach m m' each xs ys) (hm : m.Sorted) (hm' : m'.Sorted)
    (c : PinChange) (board : Board) (ctx : Context) (selector : Selector) :
    Option.Rel (fun r r' => Tells
        (Layout.asked each ((Layout.block board ctx true selector (xs.map Operand.blank)).getD [])
          ++ c.pass (Layout.use? board selector (xs.map Operand.blank)).toList) m m' r.1 r'.1)
      (Layout.outcome? board ctx ⟨selector, xs⟩ (c.apply m))
      (Layout.outcome? board ctx ⟨selector, ys⟩ (c.apply m')) := by
  unfold Layout.outcome?
  simp only [shapes_mk, ← h.map_blank]
  cases huse : Layout.use? board selector (xs.map Operand.blank) with
  | none =>
    cases hblock : Layout.block board ctx true selector (xs.map Operand.blank) with
    | none => simp [hblock]
    | some ps =>
      simp only [Option.all_none, hblock, Option.bind_some, Option.getD_some]
      refine rel_map (h.fill selector ps) fun x x' hx => ?_
      exact hx.congr (by simp [PinChange.pass])
  | some use =>
    obtain ⟨ps, front, back, hblock, u, v, hu, hfill⟩ := Layout.exists_block_of_use? huse ctx
    simp only [hblock, Option.all_some, Option.bind_some, Option.getD_some, if_true]
    rw [fill_guarded (hfill _).1 (hfill _).2, fill_guarded (hfill _).1 (hfill _).2, Option.map_map,
      Option.map_map]
    exact rel_map (h.fill selector ps) fun x x' hx => hx.guarded_pass hm hm' use hu v

mutual

/-- The pins that a block and those below it ask for before they have set or forgotten them. -/
def Block.asks (board : Board) (ctx : Context) : Block → List (Pin × PinMode)
  | .mk name _ inputs next =>
    match Selector.ofName? name with
    | none => []
    | some .subscribeToMqttMessage =>
      board.broker.elim [] fun broker =>
        Layout.asked (Slot.asksOf board ctx .subscribeToMqttMessage 0 inputs)
          (Layout.subscribe broker ctx (Slot.shapesOf inputs))
    | some selector =>
      let shapes := Slot.shapesOf inputs
      let operands := (Slot.pinChangeOf board selector 0 inputs).andThen (.forgetIf selector.yields)
      (PinChange.forgetIf selector.yields).pass <|
        Layout.asked (Slot.asksOf board ctx selector 0 inputs)
            ((Layout.block board ctx true selector shapes).getD [])
          ++ operands.pass (Layout.use? board selector shapes).toList
          ++ (operands.andThen (selector.pinChange board shapes)).pass
            (Block.asksBelow board ctx next)

/-- The pins that a chain asks for, if there is one. -/
def Block.asksBelow (board : Board) (ctx : Context) : Option Block → List (Pin × PinMode)
  | none => []
  | some b => b.asks board ctx

/-- The pins that the code of each operand of a slot asks for. -/
def Slot.asks (board : Board) (ctx : Context) (selector : Selector) (index : Nat) :
    Slot → List (List (Pin × PinMode))
  | .literal _ => [[]]
  | .upvar _ => [[]]
  | .script _ => [[]]
  | .reporter block => [block.asks board ctx]
  | .variadic slots => Slot.asksOf board ctx selector index slots

/-- The pins that the code of each operand of slots asks for. -/
def Slot.asksOf (board : Board) (ctx : Context) (selector : Selector) (index : Nat) :
    List Slot → List (List (Pin × PinMode))
  | [] => []
  | slot :: rest =>
    slot.asks board ctx selector index
      ++ (Slot.asksOf board ctx selector (index + slot.shapes.length) rest).map
          (slot.pinChange board selector index).pass

end

variable {board : Board}

/-- What the recursion does at every block but a subscription. -/
theorem Block.asks_of_ne {ctx : Context} {name : String} {kind : BlockKind} {inputs : List Slot}
    {next : Option Block} {selector : Selector} (hname : Selector.ofName? name = some selector)
    (hsel : selector ≠ .subscribeToMqttMessage) :
    (Block.mk name kind inputs next).asks board ctx
      = (let shapes := Slot.shapesOf inputs
        let operands := (Slot.pinChangeOf board selector 0 inputs).andThen
          (.forgetIf selector.yields)
        (PinChange.forgetIf selector.yields).pass <|
          Layout.asked (Slot.asksOf board ctx selector 0 inputs)
              ((Layout.block board ctx true selector shapes).getD [])
            ++ operands.pass (Layout.use? board selector shapes).toList
            ++ (operands.andThen (selector.pinChange board shapes)).pass
              (Block.asksBelow board ctx next)) := by
  rw [Block.asks, hname]
  cases selector <;> first | rfl | exact absurd rfl hsel

mutual

/-- The sources of a block from two memories. The lemmas of this group follow the recursion of
`Block.source?`, with what was asked behind a change seen from before it. -/
theorem Block.tells_source? : ∀ (b : Block) (ctx : Context) {m m' : PinMemory},
    m.Sorted → m'.Sorted →
    Option.Rel (fun r r' => Tells (b.asks board ctx) m m' r.1 r'.1) (b.source? board ctx m)
      (b.source? board ctx m')
  | .mk name kind inputs next, ctx, m, m', hm, hm' => by
    cases hname : Selector.ofName? name with
    | none =>
      rw [Block.source?, Block.source?, hname]
      exact .none
    | some selector =>
      by_cases hsel : selector = .subscribeToMqttMessage
      · subst hsel
        rw [Block.source?_subscribe hname, Block.source?_subscribe hname, Block.asks, hname]
        refine rel_bind (Slot.tells_sources? inputs ctx _ 0 hm hm') fun r r' hr hr' heach => ?_
        cases board.broker with
        | none => exact .some (Tells.refl m m' "")
        | some broker =>
          cases Block.sourceBelow? board { ctx with yields := false } next .empty with
          | none => exact .none
          | some body =>
            have hbody : TellEach m m' [[]] [.script (.text body.1)] [.script (.text body.1)] :=
              .cons rfl (Tells.refl m m' _) .nil
            dsimp only [Option.bind_some, Option.elim_some]
            rw [Slot.map_blank_of_sources? inputs hr, Slot.map_blank_of_sources? inputs hr']
            refine rel_map ((heach.append hbody).fill _ _) fun x x' hx => ?_
            rw [← Layout.asked_append_nil]
            exact hx
      · rw [Block.source?_of_ne hname hsel, Block.source?_of_ne hname hsel,
          Block.asks_of_ne hname hsel]
        have hm₀ := PinChange.sorted_apply hm (.forgetIf selector.yields)
        have hm₀' := PinChange.sorted_apply hm' (.forgetIf selector.yields)
        refine rel_mono ?_ fun r r' => Tells.pass hm hm'
        refine rel_bind (Slot.tells_sources? inputs ctx selector 0 hm₀ hm₀')
          fun r r' hr hr' heach => ?_
        -- The pins known where the block itself is written, seen from the start of the block.
        have hpins : r.2.forgetIf selector.yields = _ :=
          (congrArg (PinMemory.forgetIf · selector.yields) (Slot.pins_of_sources? inputs hr)).trans
            (PinChange.apply_andThen _ (.forgetIf selector.yields) _).symm
        have hpins' : r'.2.forgetIf selector.yields = _ :=
          (congrArg (PinMemory.forgetIf · selector.yields) (Slot.pins_of_sources? inputs hr')).trans
            (PinChange.apply_andThen _ (.forgetIf selector.yields) _).symm
        dsimp only
        rw [hpins, hpins', ← Slot.map_blank_of_sources? inputs hr]
        refine rel_bind (heach.outcome? hm₀ hm₀' _ board ctx selector) fun q q' hq hq' hown => ?_
        rw [Layout.pins_of_outcome? hq, Layout.pins_of_outcome? hq', ← heach.map_blank,
          ← PinChange.apply_andThen, ← PinChange.apply_andThen]
        refine rel_map (Block.tells_sourceBelow? next ctx (PinChange.sorted_apply hm₀ _)
          (PinChange.sorted_apply hm₀' _)) fun rest rest' hrest => ?_
        exact hown.append (hrest.pass hm₀ hm₀')

theorem Block.tells_sourceBelow? :
    ∀ (next : Option Block) (ctx : Context) {m m' : PinMemory}, m.Sorted →
    m'.Sorted → Option.Rel (fun r r' => Tells (Block.asksBelow board ctx next) m m' r.1 r'.1)
      (Block.sourceBelow? board ctx next m) (Block.sourceBelow? board ctx next m')
  | none, _, m, m', _, _ => .some (Tells.refl m m' "")
  | some b, ctx, _, _, hm, hm' => Block.tells_source? b ctx hm hm'

theorem Slot.tells_source? : ∀ (slot : Slot) (ctx : Context) (selector : Selector) (index : Nat)
    {m m' : PinMemory}, m.Sorted → m'.Sorted →
    Option.Rel (fun r r' => TellEach m m' (slot.asks board ctx selector index) r.1 r'.1)
      (slot.source? board ctx selector index m) (slot.source? board ctx selector index m')
  | .literal _, _, _, _, m, m', _, _ => .some (.cons rfl (Tells.refl m m' _) .nil)
  | .upvar _, _, _, _, m, m', _, _ => .some (.cons rfl (Tells.refl m m' _) .nil)
  | .script body, ctx, selector, index, m, m', _, _ => by
    rw [Slot.source?, Slot.source?]
    cases Block.sourceBelow? board ctx body .empty with
    | none => exact .none
    | some r => exact .some (.cons rfl (Tells.refl m m' _) .nil)
  | .reporter block, ctx, selector, index, m, m', hm, hm' => by
    rw [Slot.source?, Slot.source?]
    exact rel_map (Block.tells_source? block ctx hm hm') fun r r' h => .cons rfl h .nil
  | .variadic slots, ctx, selector, index, _, _, hm, hm' => by
    rw [Slot.source?, Slot.source?, Slot.asks]
    exact Slot.tells_sources? slots ctx selector index hm hm'

theorem Slot.tells_sources? :
    ∀ (slots : List Slot) (ctx : Context) (selector : Selector) (index : Nat)
    {m m' : PinMemory}, m.Sorted → m'.Sorted →
    Option.Rel (fun r r' => TellEach m m' (Slot.asksOf board ctx selector index slots) r.1 r'.1)
      (Slot.sources? board ctx selector index slots m) (Slot.sources? board ctx selector
        index slots m')
  | [], _, _, _, _, _, _, _ => .some .nil
  | slot :: rest, ctx, selector, index, m, m', hm, hm' => by
    rw [Slot.sources?, Slot.sources?, Slot.asksOf]
    refine rel_bind (Slot.tells_source? slot ctx selector index hm hm') fun r r' hr hr' hfirst => ?_
    have hlength : r.1.length = slot.shapes.length := by
      rw [← Slot.map_blank_of_source? slot hr, List.length_map]
    have hlength' : r'.1.length = slot.shapes.length := by
      rw [← Slot.map_blank_of_source? slot hr', List.length_map]
    dsimp only
    rw [hlength, hlength', Slot.pins_of_source? slot hr, Slot.pins_of_source? slot hr']
    refine rel_map (Slot.tells_sources? rest ctx selector _ (PinChange.sorted_apply hm _)
      (PinChange.sorted_apply hm' _)) fun q q' hq => ?_
    exact hfirst.append (hq.pass hm hm')

end

/-! ## Functions -/

/-- Compiling the block gives the same source whatever pins are known, and after it no pin is known
that was not known before. -/
def Block.Isolated (board : Board) (ctx : Context) (b : Block) : Prop :=
  ∃ source, ∀ s : CompileState, s.pins.Sorted →
    (b.compileFrom board ctx s).1 = .ok source ∧
      ∀ use, (b.compileFrom board ctx s).2.pins.knows use → s.pins.knows use

variable {ctx : Context} {b : Block}

theorem PinMemory.knows_insert {m : PinMemory} (hm : m.Sorted) (use : Pin × PinMode) :
    PinMemory.knows (m.insert use.1 use.2) use = true := by
  unfold PinMemory.knows
  rw [SortedMap.get?_insert hm, if_pos rfl, beq_self_eq_true]

/-- What is recorded last is known. -/
theorem PinChange.knows_apply_last {c : PinChange} {l : List (Pin × PinMode)} {use : Pin × PinMode}
    (h : c.records = l ++ [use]) {m : PinMemory} (hm : m.Sorted) :
    (c.apply m).knows use = true := by
  unfold PinChange.apply
  rw [h, List.foldl_append]
  exact PinMemory.knows_insert (PinChange.sorted_apply hm ⟨c.forgets, l⟩) use

/-- A block that compiles compiles from every memory, and its sources compare as its asks say. -/
theorem Block.exists_source? {m m' n : PinMemory} {x : String} (hm : m.Sorted) (hm' : m'.Sorted)
    (h : b.source? board ctx m = some (x, n)) :
    ∃ x' n', b.source? board ctx m' = some (x', n') ∧ Tells (b.asks board ctx) m m' x x' := by
  have htells : Option.Rel (fun (r r' : String × PinMemory) =>
      Tells (b.asks board ctx) m m' r.1 r'.1)
      (b.source? board ctx m) (b.source? board ctx m') := Block.tells_source? b ctx hm hm'
  rw [h] at htells
  cases hsource : b.source? board ctx m' with
  | none =>
    rw [hsource] at htells
    cases htells
  | some r =>
    rw [hsource] at htells
    cases htells with
    | some htells => exact ⟨r.1, r.2, rfl, htells⟩

/-- A block that compiles is isolated exactly if it asks for nothing and records nothing. If it asks
for a pin, its source is shorter from a memory that knows the pin. -/
theorem Block.isolated_iff {s : CompileState} (hs : s.pins.Sorted)
    (hok : (b.compileFrom board ctx s).1.isOk = true) :
    b.Isolated board ctx ↔ b.asks board ctx = [] ∧ (b.pinChange board).records = [] := by
  have hempty : CompileState.initial.pins.Sorted := SortedMap.sorted_empty
  constructor
  · rintro ⟨source, h⟩
    have hsource : ∀ t : CompileState, t.pins.Sorted →
        b.source? board ctx t.pins = some (source, (b.compileFrom board ctx t).2.pins) :=
      fun t ht => Block.source?_eq_some_iff.2 ⟨(h t ht).1, rfl⟩
    constructor
    · by_contra hasks
      obtain ⟨use, huse⟩ := List.exists_mem_of_ne_nil _ hasks
      -- A memory that knows the answer gives a shorter source than one that knows nothing.
      have hone : (SortedMap.empty.insert use.1 use.2 : PinMemory).Sorted := hempty.insert ..
      obtain ⟨source', m, hsource', htells⟩ := Block.exists_source? hempty hone
        (hsource .initial hempty)
      have hsame := hsource'.symm.trans (hsource ⟨_, []⟩ hone)
      cases hsame
      exact lt_irrefl _ (htells.lt (fun use huse hknown => by cases hknown)
        ⟨use, huse, PinMemory.knows_insert hempty use, rfl⟩)
    · rcases List.eq_nil_or_concat' (b.pinChange board).records with hrecords | ⟨l, use, hrecords⟩
      · exact hrecords
      · have hknown := (h .initial hempty).2 use
        rw [Block.pins_of_source? b (hsource .initial hempty),
          PinChange.knows_apply_last hrecords hempty] at hknown
        cases hknown rfl
  · rintro ⟨hasks, hrecords⟩
    obtain ⟨source, hresult⟩ : ∃ source, (b.compileFrom board ctx s).1 = .ok source := by
      cases hcompile : (b.compileFrom board ctx s).1 with
      | error e =>
        rw [hcompile] at hok
        cases hok
      | ok source => exact ⟨source, rfl⟩
    refine ⟨source, fun t ht => ?_⟩
    obtain ⟨source', m, hsource, htells⟩ :=
      Block.exists_source? hs ht (Block.source?_eq_some_iff.2 ⟨hresult, rfl⟩)
    rw [hasks] at htells
    obtain ⟨hcompile, hpins⟩ := Block.source?_eq_some_iff.1 hsource
    refine ⟨by rw [hcompile, htells.same nofun], fun use huse => ?_⟩
    rw [hpins, Block.pins_of_source? b hsource, PinChange.apply, hrecords, List.foldl_nil,
      PinMemory.forgetIf] at huse
    split at huse
    · cases huse
    · exact huse

/-- The block that makes a function of its one operand asks what the operand asks. -/
theorem Layout.asked_reify {selector : Selector}
    (hsel : selector = .reifyScript ∨ selector = .reifyReporter)
    (as : List (Pin × PinMode)) (x : Operand) :
    asked [as] ((block board ctx true selector [x]).getD []) = as := by
  have hscript : block board ctx true .reifyScript [x]
      = some (function [.text "\n", .script 0]) := rfl
  have hreporter : block board ctx true .reifyReporter [x]
      = some (function [.text " return ", .value 0, .text " "]) := rfl
  rcases hsel with rfl | rfl
  · simp [hscript, asked, function, Piece.place?]
  · simp [hreporter, asked, function, Piece.place?]

section

variable {name : String} {kind : BlockKind} {selector : Selector}

/-- A function made of an operand asks what the operand asks. -/
theorem Block.asks_reify (hname : Selector.ofName? name = some selector)
    (hsel : selector = .reifyScript ∨ selector = .reifyReporter) {slot : Slot}
    {as : List (Pin × PinMode)} {x : Operand} (hasks : slot.asks board ctx selector 0 = [as])
    (hshapes : slot.shapes = [x]) :
    (Block.mk name kind [slot] none).asks board ctx = as := by
  have hne : selector ≠ .subscribeToMqttMessage := by
    rcases hsel with rfl | rfl <;> decide
  have hyields : selector.yields = false := by
    rcases hsel with rfl | rfl <;> rfl
  have huse : ∀ shapes, Layout.use? board selector shapes = none := by
    rcases hsel with rfl | rfl <;> exact fun _ => rfl
  have hpass : ∀ as, (PinChange.forgetIf false).pass as = as := fun as =>
    List.filter_eq_self.2 fun _ _ => rfl
  rw [Block.asks_of_ne hname hne, hyields, hpass, huse]
  simp only [Slot.asksOf, Slot.shapesOf, hasks, hshapes, List.map_nil, List.append_nil]
  rw [Layout.asked_reify hsel]
  simp [PinChange.pass, Block.asksBelow]

theorem Block.records_reify (hname : Selector.ofName? name = some selector)
    (hsel : selector = .reifyScript ∨ selector = .reifyReporter) (slot : Slot) :
    ((Block.mk name kind [slot] none).pinChange board).records
      = (slot.pinChange board selector 0).records := by
  have hne : selector ≠ .subscribeToMqttMessage := by
    rcases hsel with rfl | rfl <;> decide
  have hyields : selector.yields = false := by
    rcases hsel with rfl | rfl <;> rfl
  have hown : ∀ shapes, selector.pinChange board shapes = .nothing := by
    rcases hsel with rfl | rfl <;> exact fun _ => rfl
  rw [Block.pinChange_of_ne hname hne, hyields, hown]
  simp [PinChange.andThen, PinChange.forgetIf, PinChange.nothing, Slot.pinChangeOf,
    Block.pinChangeBelow]

/-- A block that makes a function shares no pins with the code around it exactly if it asks for no
pin and records none. The function of a script never does. The function of a reporter does if the
reporter asks for a pin or records one, because it is compiled as if it ran in its place. -/
theorem deferred_isolated_iff {inputs : List Slot} (hname : Selector.ofName? name = some selector)
    (hsel : selector = .reifyScript ∨ selector = .reifyReporter) {s : CompileState}
    (hs : s.pins.Sorted)
    (hok : ((Block.mk name kind inputs none).compileFrom board ctx s).1.isOk = true) :
    ((Block.mk name kind inputs none).Isolated board ctx ↔
      (Block.mk name kind inputs none).asks board ctx = [] ∧
      ((Block.mk name kind inputs none).pinChange board).records = []) ∧
    (∀ body, inputs = [.script body] → (Block.mk name kind inputs none).Isolated board ctx) ∧
    ∀ b, inputs = [.reporter b] → ((Block.mk name kind inputs none).Isolated board ctx ↔
      b.asks board ctx = [] ∧ (b.pinChange board).records = []) := by
  have hiff := Block.isolated_iff hs hok
  have htaken : ∀ c : PinChange, c.ofOperand selector 0 = c := by
    rcases hsel with rfl | rfl <;> exact fun _ => rfl
  refine ⟨hiff, ?_, ?_⟩
  · rintro body rfl
    rw [hiff, Block.asks_reify hname hsel rfl rfl, Block.records_reify hname hsel,
      Slot.pinChange, htaken]
    exact ⟨rfl, rfl⟩
  · rintro b rfl
    rw [hiff, Block.asks_reify hname hsel rfl rfl, Block.records_reify hname hsel,
      Slot.pinChange, htaken]

/-- A script that writes a pin, made into a function. -/
theorem deferred_isolated_script :
    let b : Block := .mk "reifyScript" .reporter
      [.script (some (.mk "setPinDigital" .command [.literal "2", .literal "1"] none))] none
    (b.compileFrom onePinBoard ⟨.adhoc, true⟩ .initial).1.isOk = true ∧
      b.Isolated onePinBoard ⟨.adhoc, true⟩ :=
  ⟨by decide +kernel, (deferred_isolated_iff (Selector.ofName?_name .reifyScript) (.inl rfl)
    (s := .initial) SortedMap.sorted_empty (by decide +kernel)).2.1 _ rfl⟩

/-- A reading of a pin, made into a function, is not isolated: after it the pin counts as known, and
if it was known before, the function does not set its mode. -/
theorem deferred_reading_shares_pins :
    let b : Block := .mk "reifyReporter" .reporter [pinReading "2"] none
    let known : CompileState := ⟨⟨[(2, .input)]⟩, []⟩
    ¬ b.Isolated onePinBoard ⟨.adhoc, true⟩ ∧
      (b.compileFrom onePinBoard ⟨.adhoc, true⟩ .initial).2.pins = ⟨[(2, .input)]⟩ ∧
      (b.compileFrom onePinBoard ⟨.adhoc, true⟩ known).1.toOption
        = some "(function() return pio.pin.getval(pio.P2) end)" := by
  refine ⟨fun hisolated => ?_, by decide +kernel, by decide +kernel⟩
  obtain ⟨hasks, -⟩ :=
    (Block.isolated_iff (s := .initial) SortedMap.sorted_empty (by decide +kernel)).1 hisolated
  exact absurd hasks (by decide +kernel)

end

end BlockLink
