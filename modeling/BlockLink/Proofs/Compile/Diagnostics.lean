import BlockLink.Proofs.Compile.Run

/-!
# `BlockLink/Proofs/Compile/Diagnostics.lean` — diagnostics are only written

The compiler adds diagnostics to its state and never looks at them, except to leave out one that is
there. So the code of a script depends on the pins that are known and on nothing that was reported
for the scripts in front of it, and what is reported has no repetitions. `CompileM.OnlyReports` says
both of a computation. It is kept by `>>=`, so it holds of every computation of the compiler because
it holds of the few operations on the state.
-/

set_option autoImplicit false

namespace BlockLink

/-- A diagnostic that is there is not added again. -/
theorem CompileState.nodup_report {s : CompileState} (d : Diagnostic) (h : s.diagnostics.Nodup) :
    (s.report d).diagnostics.Nodup := by
  unfold report
  split
  · exact h
  · rename_i hnew
    rw [List.nodup_append]
    refine ⟨h, by simp, ?_⟩
    intro a ha b hb
    rw [List.mem_singleton.1 hb]
    rintro rfl
    exact hnew ha

namespace CompileM

variable {α β : Type}

/-- The computation does not look at the diagnostics, and adds none that is there. -/
structure OnlyReports (act : CompileM α) : Prop where
  blind : ∀ {s s' : CompileState} {a : α}, act.Gives s a s' → ∀ t : CompileState, t.pins = s.pins →
    ∃ t', act.Gives t a t' ∧ t'.pins = s'.pins
  nodup : ∀ {s s' : CompileState} {a : α}, act.Gives s a s' → s.diagnostics.Nodup →
    s'.diagnostics.Nodup

namespace OnlyReports

theorem pure (a : α) : OnlyReports (Pure.pure a) where
  blind := by
    intro s s' b h t ht
    obtain ⟨rfl, rfl⟩ := gives_pure.1 h
    exact ⟨t, gives_pure.2 ⟨rfl, rfl⟩, ht⟩
  nodup := by
    intro s s' b h hs
    obtain ⟨rfl, rfl⟩ := gives_pure.1 h
    exact hs

theorem throw (e : CompileError) : OnlyReports (MonadExcept.throw e : CompileM α) where
  blind := fun h => absurd h gives_throw
  nodup := fun h => absurd h gives_throw

theorem lift (x : Except CompileError α) : OnlyReports (liftM x) where
  blind := by
    intro s s' a h t ht
    obtain ⟨hx, rfl⟩ := gives_lift.1 h
    exact ⟨t, gives_lift.2 ⟨hx, rfl⟩, ht⟩
  nodup := by
    intro s s' a h hs
    obtain ⟨-, rfl⟩ := gives_lift.1 h
    exact hs

/-- Two computations that only report do so one after the other. -/
theorem bind {act : CompileM α} {f : α → CompileM β} (hact : OnlyReports act)
    (hf : ∀ a, OnlyReports (f a)) : OnlyReports (act >>= f) where
  blind := by
    intro s s' b h t ht
    obtain ⟨a, u, ha, hb⟩ := gives_bind.1 h
    obtain ⟨v, hv, hpins⟩ := hact.blind ha t ht
    obtain ⟨t', ht', hpins'⟩ := (hf a).blind hb v hpins
    exact ⟨t', gives_bind.2 ⟨a, v, hv, ht'⟩, hpins'⟩
  nodup := by
    intro s s' b h hs
    obtain ⟨a, u, ha, hb⟩ := gives_bind.1 h
    exact (hf a).nodup hb (hact.nodup ha hs)

/-- A change of the state only reports if what it makes of the pins depends on the pins alone. -/
theorem modify {f : CompileState → CompileState}
    (hpins : ∀ s t : CompileState, t.pins = s.pins → (f t).pins = (f s).pins)
    (hnodup : ∀ s : CompileState, s.diagnostics.Nodup → (f s).diagnostics.Nodup) :
    OnlyReports (MonadStateOf.modifyGet (fun s => ((), f s)) : CompileM Unit) where
  blind := by
    intro s s' u h t ht
    obtain rfl := gives_modify.1 h
    exact ⟨f t, gives_modify.2 rfl, hpins s t ht⟩
  nodup := by
    intro s s' u h hs
    obtain rfl := gives_modify.1 h
    exact hnodup s hs

/-! ## The operations on the state

These are all the operations through which the compiler touches its state. Each of them reads and
writes the pins, or adds a diagnostic; none does both. -/

theorem forgetPins : OnlyReports CompileM.forgetPins :=
  modify (fun _ _ _ => rfl) fun _ hs => hs

theorem forgetPinsIf (b : Bool) : OnlyReports (CompileM.forgetPinsIf b) := by
  cases b with
  | true => exact forgetPins
  | false => exact pure ()

theorem inert (selector : Selector) (reason : InertReason) :
    OnlyReports (CompileM.inert selector reason) := by
  refine modify (fun s t ht => ?_) fun s hs => CompileState.nodup_report _ hs
  rw [CompileState.pins_report, CompileState.pins_report, ht]

/-- Whether a guard is written depends on the pins. -/
theorem requireMode (pin : Pin) (mode : PinMode) (setup : String) :
    OnlyReports (CompileM.requireMode pin mode setup) where
  blind := by
    intro s s' g h t ht
    obtain ⟨hg, rfl⟩ := gives_requireMode.1 h
    rw [← ht] at hg
    refine ⟨_, gives_requireMode.2 ⟨hg, rfl⟩, ?_⟩
    simp only [ht]
  nodup := by
    intro s s' g h hs
    obtain ⟨-, rfl⟩ := gives_requireMode.1 h
    exact hs

/-- What is put back is what was known before, which the diagnostics have no part in. -/
theorem restoringPins {act : CompileM α} (hact : OnlyReports act) :
    OnlyReports (CompileM.restoringPins act) where
  blind := by
    intro s s' a h t ht
    obtain ⟨u, hu, rfl⟩ := gives_restoringPins.1 h
    obtain ⟨v, hv, -⟩ := hact.blind hu t ht
    exact ⟨_, gives_restoringPins.2 ⟨v, hv, rfl⟩, ht⟩
  nodup := by
    intro s s' a h hs
    obtain ⟨u, hu, rfl⟩ := gives_restoringPins.1 h
    have hkept : u.diagnostics.Nodup := hact.nodup hu hs
    exact hkept

theorem isolated {act : CompileM α} (hact : OnlyReports act) :
    OnlyReports (CompileM.isolated act) :=
  forgetPins.bind fun _ => hact.bind fun a => forgetPins.bind fun _ => pure a

theorem operandAt {act : CompileM α} (hact : OnlyReports act) (selector : Selector) (index : Nat) :
    OnlyReports (CompileM.operandAt selector index act) := by
  unfold CompileM.operandAt
  split
  · exact hact.restoringPins
  · exact hact

end OnlyReports

end CompileM

open CompileM

/-! ## Templates

Only the templates that look for a pin report anything. All others are computations without a
state. -/

namespace Template

variable (board : Board) (ctx : Context) (ops : Operands)

/-- Looking for a pin reports at most that it is not there. -/
theorem onlyReports_resolvePin (mode : PinMode) : OnlyReports (resolvePin board ops mode) := by
  unfold resolvePin
  split
  · exact (OnlyReports.inert _ _).bind fun _ => .pure _
  · refine (OnlyReports.lift _).bind fun pin => ?_
    cases pin with
    | none => exact (OnlyReports.inert _ _).bind fun _ => .pure _
    | some pin =>
      dsimp only
      split
      · exact .pure _
      · exact (OnlyReports.inert _ _).bind fun _ => .pure _

theorem onlyReports_readBlock (mode : PinMode) : OnlyReports (readBlock board ops mode) := by
  refine (onlyReports_resolvePin board ops mode).bind fun named => ?_
  cases named with
  | none => exact .pure _
  | some named => exact (OnlyReports.requireMode _ _ _).bind fun _ => .pure _

/-- What a block writes does not depend on what was reported before it. -/
theorem onlyReports_emit : OnlyReports (emit board ctx ops) := by
  unfold emit
  split
  -- One case for each template that touches the state; all others are plain functions of the
  -- operands.
  · exact .pure _
  · refine OnlyReports.forgetPins.bind fun _ => (OnlyReports.lift _).bind fun call => ?_
    cases call with
    | none => exact .pure _
    | some call => exact .pure _
  · exact OnlyReports.forgetPins.bind fun _ => (OnlyReports.lift _).bind fun _ => .pure _
  · exact (OnlyReports.lift _).bind fun _ => OnlyReports.forgetPins.bind fun _ => .pure _
  · refine (onlyReports_resolvePin board ops .output).bind fun named => ?_
    cases named with
    | none => exact .pure _
    | some named =>
      exact (OnlyReports.lift _).bind fun _ => (OnlyReports.requireMode _ _ _).bind fun _ => .pure _
  · refine (onlyReports_resolvePin board ops .pwm).bind fun named => ?_
    cases named with
    | none => exact .pure _
    | some named =>
      exact (OnlyReports.requireMode _ _ _).bind fun _ => (OnlyReports.lift _).bind fun _ => .pure _
  · exact onlyReports_readBlock board ops .input
  · exact onlyReports_readBlock board ops .analog
  · split
    · exact (OnlyReports.inert _ _).bind fun _ => .pure _
    · exact (OnlyReports.lift _).bind fun _ => (OnlyReports.lift _).bind fun _ => .pure _
  · exact .pure _
  · exact .lift _

end Template

/-! ## Chains

By recursion on the tree, with one step for each equation of the compiler. -/

variable {board : Board}

mutual

/-- Compiling a chain does not look at the diagnostics, and adds none that is there. -/
theorem Block.onlyReports_compile : ∀ (ctx : Context) (b : Block), OnlyReports (b.compile board ctx)
  | ctx, .mk name kind inputs next => by
    rw [Block.compile]
    split
    · exact .throw _
    · refine (Slot.onlyReports_compileList ctx _ 0 inputs).bind fun items => ?_
      split
      · exact (OnlyReports.inert _ _).bind fun _ => .pure _
      · exact (Block.onlyReports_compileBelow _ next).isolated.bind fun _ => .lift _
    · exact (OnlyReports.forgetPinsIf _).bind fun _ =>
        (Slot.onlyReports_compileList ctx _ 0 inputs).bind fun items =>
        (OnlyReports.forgetPinsIf _).bind fun _ =>
        (Template.onlyReports_emit board ctx _).bind fun _ =>
        (Block.onlyReports_compileBelow ctx next).bind fun _ => .pure _

theorem Block.onlyReports_compileBelow :
    ∀ (ctx : Context) (b : Option Block), OnlyReports (Block.compileBelow board ctx b)
  | ctx, none => by
    rw [Block.compileBelow]
    exact .pure _
  | ctx, some b => by
    rw [Block.compileBelow]
    exact Block.onlyReports_compile ctx b

theorem Slot.onlyReports_compile :
    ∀ (ctx : Context) (selector : Selector) (index : Nat) (slot : Slot),
    OnlyReports (slot.compile board ctx selector index)
  | ctx, selector, index, .literal text => by
    rw [Slot.compile]
    exact .pure _
  | ctx, selector, index, .upvar name => by
    rw [Slot.compile]
    exact .pure _
  | ctx, selector, index, .script body => by
    rw [Slot.compile]
    exact ((Block.onlyReports_compileBelow ctx body).isolated.bind fun _ => .pure _).operandAt _ _
  | ctx, selector, index, .reporter block => by
    rw [Slot.compile]
    exact ((Block.onlyReports_compile ctx block).bind fun _ => .pure _).operandAt _ _
  | ctx, selector, index, .variadic slots => by
    rw [Slot.compile]
    exact Slot.onlyReports_compileList ctx selector index slots

theorem Slot.onlyReports_compileList :
    ∀ (ctx : Context) (selector : Selector) (index : Nat) (slots : List Slot),
      OnlyReports (Slot.compileList board ctx selector index slots)
  | ctx, selector, index, [] => by
    rw [Slot.compileList]
    exact .pure _
  | ctx, selector, index, slot :: rest => by
    rw [Slot.compileList]
    exact (Slot.onlyReports_compile ctx selector index slot).bind fun first =>
      (Slot.onlyReports_compileList ctx selector (index + first.length) rest).bind fun _ => .pure _

end

end BlockLink
