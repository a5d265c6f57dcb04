import BlockLink.Device.Script
import BlockLink.Proofs.Event

/-!
# `BlockLink/Proofs/Device/Marks.lean` — beginnings and ends among printed lines

`marks` is what is left of the lines of a board for one who only looks at the beginnings and ends of
units, and `lifeOf` what is left of that for one unit. The actions of a script print no mark unless
they print one as a line of their own, whatever the variables and values are that they report. A
body that never does so is `Quiet`, and leaves every mark to the trampoline.
-/

set_option autoImplicit false

namespace BlockLink

/-! ## Marks

The lines of beginnings and ends are read back with the event reader, so that a mark is what the
other side takes for one and not what the trampoline meant to print. -/

/-- The beginnings and ends of units that lines report, in order. -/
def marks (lines : List String) : List (UnitId × Bool) :=
  lines.filterMap fun line => (Event.ofLine line).mark?

/-- The beginnings and ends of one unit. -/
def lifeOf (id : UnitId) (lines : List String) : List Bool :=
  ((marks lines).filter fun m => m.1 = id).map (·.2)

theorem marks_append (xs ys : List String) : marks (xs ++ ys) = marks xs ++ marks ys :=
  List.filterMap_append

theorem lifeOf_append (id : UnitId) (xs ys : List String) :
    lifeOf id (xs ++ ys) = lifeOf id xs ++ lifeOf id ys := by
  simp only [lifeOf, marks_append, List.filter_append, List.map_append]

theorem lifeOf_of_quiet {line : String} (h : (Event.ofLine line).mark? = none) (id : UnitId) :
    lifeOf id [line] = [] := by
  simp [lifeOf, marks, h]

theorem lifeOf_of_mark {line : String} {j : UnitId} {on : Bool}
    (h : (Event.ofLine line).mark? = some (j, on)) (id : UnitId) :
    lifeOf id [line] = if id = j then [on] else [] := by
  by_cases hj : j = id
  · simp [lifeOf, marks, h, hj]
  · simp [lifeOf, marks, h, hj, Ne.symm hj]

theorem mark?_startedLine (id : UnitId) :
    (Event.ofLine (Trampoline.startedLine id)).mark? = some (id, true) := by
  have hline := Event.ofLine_started id ""
  rw [String.append_empty] at hline
  rw [Trampoline.startedLine, hline]
  rfl

theorem mark?_endedLine (id : UnitId) :
    (Event.ofLine (Trampoline.endedLine id)).mark? = some (id, false) := by
  have hline := Event.ofLine_ended id ""
  rw [String.append_empty] at hline
  rw [Trampoline.endedLine, hline]
  rfl

/-! ## Bodies that leave the marks alone

Quietness is asked of every state that a body may come to, since it is resumed on devices that
others have changed. -/

/-- From one device to the other no beginning or end is printed. -/
def Device.QuietTo (d d' : Device) : Prop :=
  ∃ lines, d'.output = d.output ++ lines ∧ marks lines = []

namespace Device.QuietTo

theorem of_eq {d d' : Device} (h : d'.output = d.output) : d.QuietTo d' :=
  ⟨[], by rw [h, List.append_nil], rfl⟩

theorem of_line {d d' : Device} (line : String) (hline : (Event.ofLine line).mark? = none)
    (h : d'.output = d.output ++ [line]) : d.QuietTo d' :=
  ⟨[line], h, by simp [marks, hline]⟩

theorem trans {d d' d'' : Device} (h : d.QuietTo d') (h' : d'.QuietTo d'') : d.QuietTo d'' := by
  obtain ⟨lines, hout, hmarks⟩ := h
  obtain ⟨lines', hout', hmarks'⟩ := h'
  refine ⟨lines ++ lines', ?_, ?_⟩
  · rw [hout', hout, List.append_assoc]
  · rw [marks_append, hmarks, hmarks', List.append_nil]

theorem lifeOf {d d' : Device} (h : d.QuietTo d') (id : UnitId) :
    lifeOf id d'.output = BlockLink.lifeOf id d.output := by
  obtain ⟨lines, hout, hmarks⟩ := h
  have hnone : BlockLink.lifeOf id lines = [] := by rw [BlockLink.lifeOf, hmarks]; rfl
  rw [hout, lifeOf_append, hnone, List.append_nil]

end Device.QuietTo

theorem Device.output_configurePin (d : Device) (pin : Pin) (code : Nat) :
    (d.configurePin pin code).2.output = d.output := by
  unfold Device.configurePin
  split <;> rfl

/-- The line about a variable has a tag of its own, so whatever the name and the value are, it is no
mark. -/
theorem Device.quietTo_setVar (d : Device) (name value : String) :
    d.QuietTo (d.setVar name value) := by
  refine .of_line (Device.variableLine name value) ?_ rfl
  refine Event.mark?_of_tag ['v', 'v'] (name.toList ++ ':' :: value.toList) ?_
    (by decide) (by decide) (by decide)
  simp [Device.variableLine]

namespace DeviceAction

/-- Whether the action prints no beginning or end of a unit. -/
def isQuiet : DeviceAction → Bool
  | .print line => (Event.ofLine line).mark?.isNone
  | _ => true

/-- An action prints a line about a variable, a line that was given, or nothing. -/
theorem quietTo_perform {a : DeviceAction} (ha : a.isQuiet = true) (d : Device) :
    d.QuietTo (a.perform d).2 := by
  cases a with
  | print line => exact .of_line line (Option.isNone_iff_eq_none.mp ha) rfl
  | configure pin code => exact .of_eq (d.output_configurePin pin code)
  | write pin level =>
    refine Device.QuietTo.trans (.of_eq (d.output_configurePin pin PinMode.output.code)) ?_
    let text := toString (if level = 1 then (1 : Int) else 0)
    refine .of_line ("pv:" ++ wordText pin ++ ":" ++ text) ?_ rfl
    refine Event.mark?_of_tag ['p', 'v'] ((wordText pin).toList ++ ':' :: text.toList) ?_
      (by decide) (by decide) (by decide)
    simp
  | read pin => exact .of_eq (d.output_configurePin pin PinMode.input.code)
  | readInto pin name =>
    refine Device.QuietTo.trans (.of_eq (d.output_configurePin pin PinMode.input.code)) ?_
    exact Device.quietTo_setVar _ _ _
  | set name value => exact d.quietTo_setVar name value
  | poke pin level => exact .of_eq rfl

theorem quietTo_performAll {actions : List DeviceAction}
    (h : actions.all isQuiet = true) (d : Device) :
    d.QuietTo (performAll d actions) := by
  induction actions generalizing d with
  | nil => exact .of_eq rfl
  | cons a actions ih =>
    rw [List.all_cons, Bool.and_eq_true] at h
    exact (quietTo_perform h.1 d).trans (ih h.2 _)

end DeviceAction

section

variable {Body : Type} [Coroutine Body]

/-- What is left of a body after turns in which it did not return. -/
inductive Leads : Body → Body → Prop where
  | refl (b : Body) : Leads b b
  | step {b c : Body} (d : Device) (hwaits : (Coroutine.resume b d).returned = false)
      (hlater : Leads (Coroutine.resume b d).body c) : Leads b c

/-- In each of its turns the body acts on the device, and prints no beginning or end of a unit. -/
def Quiet (b : Body) : Prop :=
  ∀ c, Leads b c → ∀ d, ∃ actions : List DeviceAction, actions.all DeviceAction.isQuiet = true ∧
    (Coroutine.resume c d).device = DeviceAction.performAll d actions

/-- The body returns after finitely many turns, whatever the others do to the device between
them. -/
inductive Finishes : Body → Prop where
  | intro (b : Body) (hlater : ∀ d, (Coroutine.resume b d).returned = false →
      Finishes (Coroutine.resume b d).body) : Finishes b

theorem Quiet.resume {b : Body} (hb : Quiet b) (d : Device) :
    d.QuietTo (Coroutine.resume b d).device := by
  obtain ⟨actions, hactions, hdevice⟩ := hb b (.refl b) d
  rw [hdevice]
  exact DeviceAction.quietTo_performAll hactions d

end

/-! Bodies that are lists of turns always return. -/

theorem mem_of_leads {turns later : List Turn} (h : Leads turns later) {turn : Turn}
    (hturn : turn ∈ later) : turn ∈ turns := by
  induction h with
  | refl => exact hturn
  | @step turns later d _ _ ih =>
    cases turns with
    | nil => exact ih hturn
    | cons first rest => exact List.mem_cons_of_mem first (ih hturn)

/-- A list of turns is quiet if none of their actions prints a mark. -/
theorem quiet_turns {turns : List Turn}
    (h : (turns.all fun turn => turn.actions.all DeviceAction.isQuiet) = true) : Quiet turns := by
  intro later hleads d
  cases later with
  | nil => exact ⟨[], rfl, rfl⟩
  | cons turn rest =>
    have hturn := mem_of_leads hleads List.mem_cons_self
    exact ⟨turn.actions, List.all_eq_true.mp h turn hturn, rfl⟩

theorem finishes_turns (turns : List Turn) : Finishes turns := by
  induction turns with
  | nil => exact .intro _ fun d hwaits => Bool.noConfusion hwaits
  | cons turn rest ih => exact .intro _ fun d _ => ih

end BlockLink
