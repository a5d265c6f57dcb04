import BlockLink.Proofs.Pins.Reporters

/-!
# `BlockLink/Proofs/Pins/Computed.lean` — statements with computed operands

A write sets its pin's mode in front of the code that computes the level. If that code reads the
same pin, it sets the mode for reading, and the write behind it goes wrong. This is the only way in
which a script of eager blocks that run their operands in order can go wrong: its code is safe
exactly if no write reads its own pin.

Every piece of code either leads from what is remembered before it to what is remembered after it,
or goes wrong from every table (`Outcome`), and both get through loops and branches
(`EagerChain.safe_iff`).
-/

set_option autoImplicit false

namespace BlockLink

open PinMark

/-! ## Scripts of eager blocks -/

namespace Selector

/-- A statement that takes values only, and computes all of them. -/
def isCommand : Selector → Bool
  | .receiveGo | .doWait | .doWaitUntil | .doStopThis | .doStopAll | .doReport | .doSetVar
  | .doChangeVar | .addListItem | .deleteListItem | .insertListItem | .replaceListItem
  | .setPinDigital | .setPinAnalog | .publishMqttMessage => true
  | _ => false

/-- A statement that writes to a pin. -/
def isWrite : Selector → Bool
  | .setPinDigital | .setPinAnalog => true
  | _ => false

/-- Whether a write does not read its own pin for the level. -/
def sparesOwnPin (selector : Selector) (board : Board) (forms : List OperandForm) : Bool :=
  !(selector.isWrite && (selector.ownPin? board forms).any fun pin => usesPin forms pin 1)

theorem sparesOwnPin_of_not_isWrite {selector : Selector} (h : selector.isWrite = false)
    (board : Board) (forms : List OperandForm) : selector.sparesOwnPin board forms = true := by
  rw [sparesOwnPin, h, Bool.false_and, Bool.not_false]

end Selector

/-- Whether a block, if it is a write, does not read its own pin for the level. -/
def Block.sparesOwnPin (board : Board) : Block → Bool
  | .mk name _ inputs _ =>
    (Selector.ofName? name).all fun selector => selector.sparesOwnPin board
      (Slot.formsOf board inputs)

/-- A slot with exactly one operand. -/
def Slot.isSingle : Slot → Bool
  | .variadic _ => false
  | _ => true

/-- A script of statements with eager operands, and of loops and branches around such scripts. -/
inductive EagerChain : Option Block → Prop where
  | done : EagerChain none
  | command {name : String} {selector : Selector} (hname : Selector.ofName? name = some selector)
      (hsel : selector.isCommand = true) (kind : BlockKind) {inputs : List Slot}
      (hinputs : Slot.areEager inputs = true) {next : Option Block} (hnext : EagerChain next) :
      EagerChain (some (.mk name kind inputs next))
  | forever {name : String} (hname : Selector.ofName? name = some .doForever) (kind : BlockKind)
      {body next : Option Block} (hbody : EagerChain body) (hnext : EagerChain next) :
      EagerChain (some (.mk name kind [.script body] next))
  | repeated {name : String} (hname : Selector.ofName? name = some .doRepeat) (kind : BlockKind)
      {count : Slot} (hcount : count.isEager = true) (hsingle : count.isSingle = true)
      {body next : Option Block} (hbody : EagerChain body) (hnext : EagerChain next) :
      EagerChain (some (.mk name kind [count, .script body] next))
  | ifThen {name : String} (hname : Selector.ofName? name = some .doIf) (kind : BlockKind)
      {condition : Slot} (hcondition : condition.isEager = true)
      (hsingle : condition.isSingle = true)
      {yes next : Option Block} (hyes : EagerChain yes) (hnext : EagerChain next) :
      EagerChain (some (.mk name kind [condition, .script yes] next))
  | ifElse {name : String} (hname : Selector.ofName? name = some .doIfElse) (kind : BlockKind)
      {condition : Slot} (hcondition : condition.isEager = true)
      (hsingle : condition.isSingle = true)
      {yes no next : Option Block} (hyes : EagerChain yes) (hno : EagerChain no)
      (hnext : EagerChain next) :
      EagerChain (some (.mk name kind [condition, .script yes, .script no] next))

section Spares

variable {board : Board}

theorem Selector.isWrite_of_isEager {selector : Selector} (h : selector.isEager = true) :
    selector.isWrite = false := by
  cases selector <;> first | rfl | exact absurd h (by decide)

mutual

/-- Nothing is written in an eager reporter. -/
theorem Block.spares_of_isEager : ∀ (b : Block), b.isEager = true →
    b.parts.all (·.sparesOwnPin board) = true
  | .mk name kind inputs next, hb => by
    rw [Block.isEager, Bool.and_eq_true, Bool.and_eq_true, Option.any_eq_true] at hb
    obtain ⟨⟨⟨selector, hname, hsel⟩, hinputs⟩, hnext⟩ := hb
    obtain rfl := Option.isNone_iff_eq_none.mp hnext
    have hself : (Block.mk name kind inputs none).sparesOwnPin board = true := by
      rw [Block.sparesOwnPin, hname]
      exact Selector.sparesOwnPin_of_not_isWrite (Selector.isWrite_of_isEager hsel) board _
    rw [Block.parts, List.all_cons, List.all_append, hself, Slot.spares_of_areEager inputs hinputs]
    rfl

theorem Slot.spares_of_isEager : ∀ (slot : Slot), slot.isEager = true →
    slot.parts.all (·.sparesOwnPin board) = true
  | .literal _, _ => rfl
  | .upvar _, _ => rfl
  | .script body, h => absurd h (by simp [Slot.isEager])
  | .reporter block, h => by
    rw [Slot.isEager] at h
    rw [Slot.parts]
    exact Block.spares_of_isEager block h
  | .variadic slots, h => by
    rw [Slot.isEager] at h
    rw [Slot.parts]
    exact Slot.spares_of_areEager slots h

theorem Slot.spares_of_areEager : ∀ (slots : List Slot), Slot.areEager slots = true →
    (Slot.partsOf slots).all (·.sparesOwnPin board) = true
  | [], _ => rfl
  | slot :: rest, h => by
    rw [Slot.areEager, Bool.and_eq_true] at h
    rw [Slot.partsOf, List.all_append, Slot.spares_of_isEager slot h.1,
      Slot.spares_of_areEager rest h.2]
    rfl

end

end Spares

/-! ## Right or wrong

Safety of a script is decided block by block. Keeping what is remembered is enough to go on, and
going wrong is final, so each block is one or the other. -/

/-- Code that keeps what is remembered if it is spared, and goes wrong if it is not. -/
structure Outcome (spared : Bool) (code : Code) (m m' : PinMemory) : Prop where
  keeps : spared = true → code.Keeps m m'
  fails : spared = false → code.Fails

theorem Code.Keeps.outcome {code : Code} {m m' : PinMemory} (h : code.Keeps m m') :
    Outcome true code m m' :=
  ⟨fun _ => h, fun hfalse => by cases hfalse⟩

theorem Code.Keeps.toEmpty {code : Code} {m m' : PinMemory} (h : code.Keeps m m') :
    code.Keeps m .empty :=
  fun t ht => code.wp_mono (fun t' _ => t'.agrees_empty) (h t ht)

theorem Reads.codeKeeps {code : Code} {pins : List Pin} {m m' : PinMemory}
    (h : Reads code pins m m') :
    code.Keeps m m' :=
  Code.Keeps.of_straight h.straight h.keeps

namespace Outcome

variable {a b : Bool} {c d : Code} {m m₁ m₂ : PinMemory} {ctx : Context}

/-- Two pieces in a row: both must be spared, and the first that is not goes wrong. -/
theorem append (hc : Outcome a c m m₁) (hd : Outcome b d m₁ m₂) :
    Outcome (a && b) (c ++ d) m m₂ := by
  constructor
  · intro h
    rw [Bool.and_eq_true] at h
    exact (hc.keeps h.1).append (hd.keeps h.2)
  · intro h
    rcases Bool.and_eq_false_iff.mp h with h | h
    · exact (hc.fails h).append_left d
    · exact (hd.fails h).append_right c

/-- Text behind code changes nothing. -/
theorem behind (hc : Outcome a c m m₁) (s : String) : Outcome a (c ++ .text s) m m₁ := by
  have h := hc.append (Code.keeps_text s m₁).outcome
  rwa [Bool.and_true] at h

/-- The body of a loop starts and ends with nothing remembered, since it may run again. -/
theorem loopBody (h : Outcome a c .empty m) :
    Outcome a (.text "\n" ++ c ++ Template.yieldPoint ctx) .empty .empty :=
  ⟨fun ha => keeps_loopBody (h.keeps ha), fun ha => ((h.fails ha).append_right _).append_left _⟩

theorem branch (h : Outcome a c .empty m) : Outcome a (.text "\n" ++ c) .empty .empty :=
  ⟨fun ha => keeps_branch (h.keeps ha), fun ha => (h.fails ha).append_right _⟩

theorem whileLoop (hc : c.Keeps .empty .empty) (hd : Outcome a d .empty .empty) :
    Outcome a (.whileLoop c d) m .empty :=
  ⟨fun ha => hc.whileLoop (hd.keeps ha) m, fun ha => (hd.fails ha).whileLoop c⟩

theorem forLoop (hc : c.Keeps m .empty) (hd : Outcome a d .empty .empty) :
    Outcome a (.forLoop c d) m .empty :=
  ⟨fun ha => hc.forLoop (hd.keeps ha), fun ha => (hd.fails ha).forLoop c⟩

theorem ifThen (hc : c.Keeps m .empty) (hd : Outcome a d .empty .empty) :
    Outcome a (.ifThen c d) m .empty :=
  ⟨fun ha => hc.ifThen (hd.keeps ha), fun ha => (hd.fails ha).ifThen c⟩

/-- A condition goes wrong if either branch does. -/
theorem ifElse {e : Code} (hc : c.Keeps m .empty) (hd : Outcome a d .empty .empty)
    (he : Outcome b e .empty .empty) : Outcome (a && b) (.ifElse c d e) m .empty := by
  constructor
  · intro h
    rw [Bool.and_eq_true] at h
    exact hc.ifElse (hd.keeps h.1) (he.keeps h.2)
  · intro h
    rcases Bool.and_eq_false_iff.mp h with h | h
    · exact .ifElse (.inl (hd.fails h))
    · exact .ifElse (.inr (he.fails h))

end Outcome

/-! ## Writes

A write guards its pin, runs the code of the level, and uses the pin. What that code leaves of the
pin's entry decides whether the use is right. -/

/-- Behind marks that only read, a pin that was in a reading mode still is in one. -/
theorem entry_of_reading {p : Pin} {marks : List PinMark}
    (h : ∀ mark ∈ marks, mark.mode.isReading = true) {x : Option Nat}
    (hx : ∃ mode : PinMode, mode.isReading = true ∧ x = some mode.code) :
    ∃ mode : PinMode, mode.isReading = true ∧ entry p marks x = some mode.code := by
  induction marks generalizing x with
  | nil => exact hx
  | cons mark marks ih =>
    have hrest := fun other hother => h other (List.mem_cons_of_mem _ hother)
    cases mark with
    | guard pin mode =>
      apply ih hrest
      by_cases hp : p = pin
      · exact ⟨mode, h _ List.mem_cons_self, if_pos hp⟩
      · rw [if_neg hp]
        exact hx
    | access pin mode => exact ih hrest hx

/-- Behind code that reads a pin, the pin is in a reading mode. -/
theorem Reads.entry_eq {code : Code} {pins : List Pin} {m m' : PinMemory} (h : Reads code pins m m')
    {p : Pin} (hp : p ∈ pins) {x : Option Nat} (hcovers : Covers p code.marks x) :
    ∃ mode : PinMode, mode.isReading = true ∧ entry p code.marks x = some mode.code := by
  obtain ⟨mode, hmode⟩ := h.uses p hp
  have hreading := h.reading _ hmode
  obtain ⟨before, later, hsplit⟩ := List.append_of_mem hmode
  have hlater : ∀ mark ∈ later, mark.mode.isReading = true :=
    fun mark hmark => h.reading mark (by simp [hsplit, hmark])
  rw [hsplit, covers_append] at hcovers
  rw [hsplit, entry_append]
  exact entry_of_reading hlater ⟨mode, hreading, hcovers.2.1 rfl⟩

section Write

variable {m m' : PinMemory} {pins : List Pin} {level : Code} {pin : Pin} {name : String}
  {mode : PinMode}

theorem marks_writePin (m : PinMemory) (pin : Pin) (name : String) (mode : PinMode) (level : Code) :
    (Template.writePin (Code.guard? m pin mode (Template.setup pin name mode)) pin name
      mode level).marks
      = ((Code.guard? m pin mode (Template.setup pin name mode)).getD .empty).marks
        ++ (level.marks ++ [.access pin mode]) := by
  simp [Template.writePin, Code.marks]

/-- A write has no loops or branches of its own, whatever the level is. -/
theorem straight_writePin (m : PinMemory) (pin : Pin) (name : String) (mode : PinMode)
    (hlevel : level.Straight) :
    (Template.writePin (Code.guard? m pin mode (Template.setup pin name mode)) pin name mode
      level).Straight := by
  have hguard : ((Code.guard? m pin mode (Template.setup pin name mode)).getD .empty).Straight := by
    unfold Code.guard?
    split <;> trivial
  exact ⟨⟨⟨⟨⟨hguard, trivial⟩, hlevel⟩, trivial⟩, trivial⟩, trivial⟩

/-- The marks of the guard are on the pin that is written. -/
theorem on_guard?_of_ne {p : Pin} (hp : p ≠ pin) (m : PinMemory) (setup : String) :
    on p ((Code.guard? m pin mode setup).getD .empty).marks = [] := by
  rw [on_eq_nil]
  unfold Code.guard?
  split
  · simp
  · intro mark hmark
    rw [List.mem_singleton.mp hmark]
    exact hp.symm

/-- A write whose level does not read the pin: the guard in front of the level still holds behind
it. -/
theorem keeps_writePin (hlevel : Reads level pins m m') (hm' : m'.Sorted) (hpin : pin ∉ pins) :
    (Template.writePin (Code.guard? m' pin mode (Template.setup pin name mode)) pin name
      mode level).Keeps m
      (m'.insert pin mode) := by
  refine Code.Keeps.of_straight (straight_writePin m' pin name mode hlevel.straight) fun p => ?_
  refine ((hlevel.keeps p).append (keepsAt_marksOf hm' pin mode p)).congr ?_
  -- The guard stands in front of the level and not behind it. No pin has marks of both.
  rw [marks_writePin, ← Code.marks_guard? m' pin mode (Template.setup pin name mode)]
  simp only [on_append]
  by_cases hp : p = pin
  · rw [hp, (hlevel.off pin hpin).1, List.nil_append, List.nil_append]
  · rw [on_guard?_of_ne hp, List.nil_append, List.nil_append]

/-- A write whose level reads the pin: behind the level the pin is in a reading mode, and the write
finds it so. -/
theorem fails_writePin (hlevel : Reads level pins m m') (hmode : mode.isReading = false)
    (hpin : pin ∈ pins) :
    (Template.writePin (Code.guard? m' pin mode (Template.setup pin name mode)) pin name mode
      level).Fails := by
  apply Code.fails_of_straight (straight_writePin m' pin name mode hlevel.straight) (p := pin)
  intro x hcovers
  rw [marks_writePin, covers_append, covers_append] at hcovers
  obtain ⟨-, hcovers, huse⟩ := hcovers
  obtain ⟨reading, hreading, hentry⟩ := hlevel.entry_eq hpin hcovers
  have hcode : some reading.code = some mode.code := hentry.symm.trans (huse.1 rfl)
  have hsame : some reading = some mode := by
    rw [← PinMode.ofCode?_code, ← PinMode.ofCode?_code, Option.some.inj hcode]
  rw [Option.some.inj hsame, hmode] at hreading
  cases hreading

end Write

/-! ## Statements -/

section Statements

variable {board : Board} {ctx : Context} {m : PinMemory} {forms : List OperandForm}
  {items : List Operand} {t u : CompileState} {own : Code}

theorem Fit.outcome {m' : PinMemory} {order : List Nat} (h : Fit m forms items m')
    (hruns : Runs items order own) (horder : inOrder forms order = true) : Outcome true own m m' :=
  (h.reads hruns horder).codeKeeps.outcome

/-- The parts that both writes have: the pin is looked for, and the level is the second operand. -/
theorem outcome_write {selector : Selector} {mode : PinMode} (hsel : selector.isWrite = true)
    (hmode : selector.pinMode? = some mode) (hwrites : mode.isReading = false)
    (hfit : Fit m forms items t.pins) (ht : t.pins.Sorted)
    (horder : inOrder forms (selector.order board forms) = true)
    {k : Option (Pin × String) → CompileM Code}
    (hnone : ∀ {v}, (k none).Gives v own u → own = .empty ∧ u.pins = v.pins)
    (hsome : ∀ {v pin name}, (k (some (pin, name))).Gives v own u → ∃ level, Runs items [1] level ∧
      own = Template.writePin (Code.guard? v.pins pin mode (Template.setup pin name mode)) pin
        name mode level ∧
      u.pins = v.pins.insert pin mode)
    (hown : (Template.resolvePin board ⟨selector, items⟩ mode >>= k).Gives t own u) :
    u.pins.Sorted ∧ Outcome (selector.sparesOwnPin board forms) own m u.pins := by
  -- A write runs its second operand, if the board has the pin.
  have hruns : selector.order board forms = if (selector.ownPin? board forms).isSome then
      [1] else [] := by
    cases selector <;> first | rfl | exact absurd hsel (by decide)
  obtain ⟨r, v, hr, hown⟩ := CompileM.gives_bind.mp hown
  obtain ⟨hpin, hpins⟩ := Template.ownPin?_of_resolvePin hmode hfit hr
  rw [hruns, hpin] at horder
  rw [Selector.sparesOwnPin, hsel, hpin, Bool.true_and]
  cases r with
  | none =>
    obtain ⟨rfl, hu⟩ := hnone hown
    rw [hu, hpins]
    exact ⟨ht, hfit.outcome (.text "") horder⟩
  | some named =>
    obtain ⟨level, hlevel, rfl, hu⟩ := hsome hown
    have hreads := hfit.reads hlevel horder
    rw [hu, hpins]
    refine ⟨ht.insert named.1 mode, ?_, ?_⟩
    -- No operand that is run uses the pin.
    · intro hspared
      refine keeps_writePin hreads ht fun hmem => ?_
      obtain ⟨i, hi⟩ := exists_usesPin.mp hmem
      obtain rfl := List.mem_singleton.mp (mem_of_inOrder horder hi)
      simp [hi] at hspared
    · intro hspared
      -- The level uses it, and leaves it in a mode for reading.
      have huses : usesPin forms named.1 1 = true := by simpa using hspared
      exact fails_writePin hreads hwrites (exists_usesPin.mpr ⟨1, huses⟩)

/-- A digital write has its level as a digit or as what `_d` makes of a value. -/
theorem outcome_setPinDigital (hfit : Fit m forms items t.pins) (ht : t.pins.Sorted)
    (horder : inOrder forms (Selector.setPinDigital.order board forms) = true)
    (hown : (Template.emit board ctx ⟨.setPinDigital, items⟩).Gives t own u) :
    u.pins.Sorted ∧ Outcome (Selector.setPinDigital.sparesOwnPin board forms) own m u.pins := by
  refine outcome_write rfl rfl rfl hfit ht horder ?_ ?_ hown
  · intro v h
    obtain ⟨rfl, rfl⟩ := CompileM.gives_pure.mp h
    exact ⟨rfl, rfl⟩
  · intro v pin name h
    obtain ⟨level, w, hread, hafter⟩ := CompileM.gives_bind.mp h
    obtain ⟨hlevel, rfl⟩ := CompileM.gives_lift.mp hread
    obtain ⟨guard, w', hguard, hcode⟩ := CompileM.gives_bind.mp hafter
    obtain ⟨rfl, rfl⟩ := CompileM.gives_requireMode.mp hguard
    obtain ⟨rfl, rfl⟩ := CompileM.gives_pure.mp hcode
    exact ⟨level, Operands.runs_level hfit.straight hlevel, rfl, rfl⟩

theorem outcome_setPinAnalog (hfit : Fit m forms items t.pins) (ht : t.pins.Sorted)
    (horder : inOrder forms (Selector.setPinAnalog.order board forms) = true)
    (hown : (Template.emit board ctx ⟨.setPinAnalog, items⟩).Gives t own u) :
    u.pins.Sorted ∧ Outcome (Selector.setPinAnalog.sparesOwnPin board forms) own m u.pins := by
  refine outcome_write rfl rfl rfl hfit ht horder ?_ ?_ hown
  · intro v h
    obtain ⟨rfl, rfl⟩ := CompileM.gives_pure.mp h
    exact ⟨rfl, rfl⟩
  · intro v pin name h
    obtain ⟨guard, w, hguard, hafter⟩ := CompileM.gives_bind.mp h
    obtain ⟨rfl, rfl⟩ := CompileM.gives_requireMode.mp hguard
    obtain ⟨duty, w', hread, hcode⟩ := CompileM.gives_bind.mp hafter
    obtain ⟨hduty, rfl⟩ := CompileM.gives_lift.mp hread
    obtain ⟨rfl, rfl⟩ := CompileM.gives_pure.mp hcode
    exact ⟨duty, Operands.runs_number hfit.straight hduty, rfl, rfl⟩

/-- Publishing computes both operands in order and touches no pin. -/
theorem outcome_publish (hfit : Fit m forms items t.pins)
    (horder : inOrder forms (Selector.publishMqttMessage.order board forms) = true)
    (hown : (Template.emit board ctx ⟨.publishMqttMessage, items⟩).Gives t own u) :
    u.pins = t.pins ∧ Outcome true own m t.pins := by
  unfold Template.emit at hown
  cases hbroker : board.broker with
  | none =>
    simp only [hbroker, CompileM.gives_bind, CompileM.gives_inert, CompileM.gives_pure] at hown
    obtain ⟨-, v, rfl, rfl, rfl⟩ := hown
    simp only [Selector.order, hbroker] at horder
    exact ⟨CompileState.pins_report _ _, hfit.outcome (.text "") horder⟩
  | some broker =>
    simp only [hbroker, CompileM.gives_bind, CompileM.gives_lift, CompileM.gives_pure] at hown
    obtain ⟨topic, _, ⟨htopic, rfl⟩, message, _, ⟨hmessage, rfl⟩, rfl, rfl⟩ := hown
    simp only [Selector.order, hbroker] at horder
    have hruns := ((((Runs.text (broker.connect ++ " cfg.m:publish(")).append
      (Operands.runs_string hfit.straight htopic)).append (.text ", ")).append
      (Operands.runs_string hfit.straight hmessage)).append (.text ", mqtt.QOS0)\n")
    exact ⟨rfl, hfit.outcome hruns horder⟩

/-- A wait lets the others run behind its operand, so nothing is remembered. -/
theorem keeps_computedWait {seconds : Code} (h : ∃ after, seconds.Keeps .empty after)
    (m : PinMemory) :
    (Template.wait ctx seconds).Keeps m .empty := by
  obtain ⟨after, h⟩ := h
  unfold Template.wait
  cases ctx.yields with
  | false =>
    exact .forget ⟨_, ((Code.keeps_text _ _).append h).append (Code.keeps_text _ _)⟩
  | true =>
    have hcondition := ((Code.keeps_text "tmr.getdiffnow(nil, t) < " .empty).append h).append
      (Code.keeps_text " * 1000000" _)
    have hround := ((Code.keeps_text " " .empty).append (Code.keeps_pause _)).append
      (Code.keeps_text " " _)
    exact ((Code.keeps_text _ m).append (hcondition.toEmpty.whileLoop hround m)).append
      (Code.keeps_text _ _)

theorem keeps_waitUntil {condition : Code} (h : ∃ after, condition.Keeps .empty after)
    (m : PinMemory) :
    (Template.waitUntil ctx condition).Keeps m .empty := by
  obtain ⟨after, h⟩ := h
  have hcondition := ((Code.keeps_text "not " .empty).append h).toEmpty
  refine (hcondition.whileLoop ?_ m).append (Code.keeps_text _ _)
  cases ctx.yields with
  | false => exact Code.keeps_text _ _
  | true => exact ((Code.keeps_text _ _).append (Code.keeps_pause _)).append (Code.keeps_text _ _)

/-- A statement keeps what is remembered unless it is a write that reads its own pin. -/
theorem outcome_command {selector : Selector} (hsel : selector.isCommand = true) {s : CompileState}
    (hs : s.pins.Sorted) (hfit : Fit (s.forgetPinsIf selector.yields).pins forms items t.pins)
    (horder : inOrder forms (selector.order board forms) = true)
    (hown : (Template.emit board ctx ⟨selector, items⟩).Gives
      (t.forgetPinsIf selector.yields) own u) :
    u.pins.Sorted ∧ Outcome (selector.sparesOwnPin board forms) own s.pins u.pins := by
  have hempty : (SortedMap.empty : PinMemory).Sorted := SortedMap.sorted_empty
  by_cases hdirect : selector.isDirect = true
  · have hyields : selector.yields = false := by
      cases selector <;> first | rfl | exact absurd hdirect (by decide)
    have hwrite : selector.isWrite = false := by
      cases selector <;> first | rfl | exact absurd hdirect (by decide)
    rw [hyields] at hfit hown
    rw [Template.emit_of_isDirect hdirect] at hown
    obtain ⟨hplain, rfl⟩ := CompileM.gives_lift.mp hown
    rw [Selector.sparesOwnPin_of_not_isWrite hwrite]
    exact ⟨hfit.sorted hs,
      hfit.outcome (Template.runs_plain hdirect hfit.straight hfit.length_eq hplain) horder⟩
  · cases selector with
    | receiveGo =>
      obtain ⟨rfl, rfl⟩ := CompileM.gives_pure.mp hown
      exact ⟨hfit.sorted hs, hfit.outcome (.text "") horder⟩
    | doWait =>
      -- Nothing is remembered on either side of a wait.
      obtain ⟨hplain, rfl⟩ := CompileM.gives_lift.mp hown
      obtain ⟨seconds, hseconds, hplain⟩ := exists_of_bind_eq_ok hplain
      cases hplain
      have hreads := hfit.reads (Operands.runs_number hfit.straight hseconds) horder
      exact ⟨hempty, (keeps_computedWait ⟨_, hreads.codeKeeps⟩ _).outcome⟩
    | doWaitUntil =>
      obtain ⟨hplain, rfl⟩ := CompileM.gives_lift.mp hown
      obtain ⟨condition, hcondition, hplain⟩ := exists_of_bind_eq_ok hplain
      cases hplain
      have hreads := hfit.reads (Operands.runs_value hfit.straight hcondition) horder
      exact ⟨hempty, (keeps_waitUntil ⟨_, hreads.codeKeeps⟩ _).outcome⟩
    | setPinDigital => exact outcome_setPinDigital hfit (hfit.sorted hs) horder hown
    | setPinAnalog => exact outcome_setPinAnalog hfit (hfit.sorted hs) horder hown
    | publishMqttMessage =>
      obtain ⟨hpins, houtcome⟩ := outcome_publish hfit horder hown
      rw [hpins]
      exact ⟨hfit.sorted hs, houtcome⟩
    | _ => first | exact absurd hsel (by decide) | exact absurd rfl hdirect

end Statements

/-! ## Loops and branches

What goes wrong in a body goes wrong in the loop, because the body may be run. What is safe starts
and ends with nothing remembered, so it may be run any number of times. -/

section Chains

variable {board : Board} {ctx : Context} {m m' : PinMemory} {form : OperandForm}
  {x : Operand} {c : Code} {selector : Selector}

theorem inOrder_single (form : OperandForm) : inOrder [form] [0] = true :=
  List.all_eq_true.mpr fun _ _ => beq_self_eq_true _

theorem Fit.keeps_value (h : Fit m [form] [x] m') (hc : Operands.value ⟨selector, [x]⟩ 0 = .ok c) :
    c.Keeps m m' :=
  (h.reads (Operands.runs_value h.straight hc) (inOrder_single form)).codeKeeps

theorem Fit.keeps_number (h : Fit m [form] [x] m')
    (hc : Operands.number ⟨selector, [x]⟩ 0 = .ok c) :
    c.Keeps m m' :=
  (h.reads (Operands.runs_number h.straight hc) (inOrder_single form)).codeKeeps

/-- The condition of a branch or the count of a loop is one operand. -/
theorem exists_of_cons_single {slot : Slot} (heager : slot.isEager = true)
    (hsingle : slot.isSingle = true) (horder : slot.parts.all (·.runsInOrder board) = true)
    (hskip : ∀ index, Slot.mayBeSkipped selector index = false) {index : Nat} {rest : List Slot}
    {items : List Operand} {s s' : CompileState} (hs : s.pins.Sorted)
    (hgives : (Slot.compileList board ctx selector index (slot :: rest)).Gives s items s') :
    ∃ x form t others, Fit s.pins [form] [x] t.pins ∧
      (Slot.compileList board ctx selector (index + 1) rest).Gives t others s' ∧
      items = x :: others := by
  obtain ⟨first, t, others, hfirst, hothers, rfl⟩ := Slot.gives_cons.mp hgives
  have hfit := Slot.fit_of_gives slot heager horder hskip hs hfirst
  have hone : (slot.forms board).length = 1 := by
    cases slot <;> first | rfl | exact absurd hsingle (by simp [Slot.isSingle])
  obtain ⟨form, hform⟩ := List.length_eq_one_iff.mp hone
  obtain ⟨x, rfl⟩ := List.length_eq_one_iff.mp (hfit.length_eq.symm.trans hone)
  rw [hform] at hfit
  exact ⟨x, form, t, others, hfit, hothers, rfl⟩

/-- A script in a slot is compiled with nothing remembered, and leaves nothing. -/
theorem exists_of_cons_script (hskip : ∀ index, Slot.mayBeSkipped selector index = false)
    {index : Nat} {body : Option Block} {rest : List Slot} {items : List Operand}
    {s s' : CompileState}
    (hgives : (Slot.compileList board ctx selector index (.script body :: rest)).Gives s items s') :
    ∃ code t others, (Block.compileBelow board ctx body).Gives s.forgetPins code t ∧
      (Slot.compileList board ctx selector (index + 1) rest).Gives t.forgetPins others s' ∧
      items = .script code :: others := by
  obtain ⟨first, t, others, hfirst, hothers, rfl⟩ := Slot.gives_cons.mp hgives
  obtain ⟨code, t', hcode, rfl, rfl⟩ := (Slot.gives_script (hskip index)).mp hfirst
  exact ⟨code, t', others, hcode, hothers, rfl⟩

theorem Slot.all_partsOf_cons (q : Block → Bool) (slot : Slot) (rest : List Slot) :
    (Slot.partsOf (slot :: rest)).all q = (slot.parts.all q && (Slot.partsOf rest).all q) := by
  rw [Slot.partsOf, List.all_append]

theorem Slot.all_partsOf_body (q : Block → Bool) (body : Option Block) :
    (Slot.partsOf [.script body]).all q = (Block.partsBelow body).all q := by
  rw [Slot.partsOf, Slot.parts, Slot.partsOf, List.append_nil]

theorem Block.all_partsBelow (q : Block → Bool) (name : String) (kind : BlockKind)
    (inputs : List Slot) (next : Option Block) :
    (Block.partsBelow (some (.mk name kind inputs next))).all q =
      (q (.mk name kind inputs next) && (Slot.partsOf inputs).all q
        && (Block.partsBelow next).all q) := by
  rw [Block.partsBelow, Block.parts, List.all_cons, List.all_append, Bool.and_assoc]

/-- What is known of the code of a script, from any state: it keeps what is remembered, or goes
wrong if one of the writes reads its own pin. -/
def Settled (board : Board) (ctx : Context) (b : Option Block) : Prop :=
  ∀ (s s' : CompileState) (code : Code), s.pins.Sorted →
    (Block.compileBelow board ctx b).Gives s code s' →
      s'.pins.Sorted ∧ Outcome ((Block.partsBelow b).all (·.sparesOwnPin board)) code s.pins s'.pins

section Shapes

variable {slot : Slot} {body other : Option Block} {items : List Operand}
  {s t u : CompileState} {own : Code}

theorem outcome_forever (hbody : Settled board ctx body)
    (hitems : (Slot.compileList board ctx .doForever 0 [.script body]).Gives s.forgetPins items t)
    (hemit : (Template.emit board ctx ⟨.doForever, items⟩).Gives t.forgetPins own u) :
    u.pins.Sorted ∧ Outcome ((Slot.partsOf [.script body]).all (·.sparesOwnPin board)) own
      s.pins u.pins := by
  obtain ⟨inner, t₁, others, hinner, hothers, rfl⟩ := exists_of_cons_script (fun _ => rfl) hitems
  obtain ⟨rfl, rfl⟩ := Slot.gives_nil.mp hothers
  obtain ⟨hplain, rfl⟩ := CompileM.gives_lift.mp hemit
  cases hplain
  obtain ⟨-, hround⟩ := hbody _ _ _ SortedMap.sorted_empty hinner
  rw [Slot.all_partsOf_body]
  exact ⟨SortedMap.sorted_empty, (Outcome.whileLoop (Code.keeps_text _ _) hround.loopBody).behind _⟩

variable (heager : slot.isEager = true) (hsingle : slot.isSingle = true)
  (horder : slot.parts.all (·.runsInOrder board) = true)

include heager hsingle horder

/-- A loop that counts: the count is computed once, in front of it. -/
theorem outcome_repeated (hbody : Settled board ctx body)
    (hitems : (Slot.compileList board ctx .doRepeat 0 [slot, .script body]).Gives
      s.forgetPins items t)
    (hemit : (Template.emit board ctx ⟨.doRepeat, items⟩).Gives t.forgetPins own u) :
    u.pins.Sorted ∧
      Outcome ((Slot.partsOf [slot, .script body]).all (·.sparesOwnPin board)) own
        s.pins u.pins := by
  obtain ⟨x, form, t₁, others, hfit, hothers, rfl⟩ :=
    exists_of_cons_single heager hsingle horder (fun _ => rfl) SortedMap.sorted_empty hitems
  obtain ⟨inner, t₂, more, hinner, hmore, rfl⟩ := exists_of_cons_script (fun _ => rfl) hothers
  obtain ⟨rfl, rfl⟩ := Slot.gives_nil.mp hmore
  obtain ⟨hplain, rfl⟩ := CompileM.gives_lift.mp hemit
  obtain ⟨count, hcount, hplain⟩ := exists_of_bind_eq_ok hplain
  cases hplain
  -- The count is computed from an empty memory, because the loop lets other scripts run.
  have hkeeps : count.Keeps s.pins .empty := .forget ⟨_, hfit.keeps_number hcount⟩
  obtain ⟨-, hround⟩ := hbody _ _ _ SortedMap.sorted_empty hinner
  rw [Slot.all_partsOf_cons, Slot.all_partsOf_body, Slot.spares_of_isEager slot heager]
  exact ⟨SortedMap.sorted_empty, (Outcome.forLoop hkeeps hround.loopBody).behind _⟩

/-- A branch: the condition is computed in front of it. -/
theorem outcome_ifThen (hs : s.pins.Sorted) (hbody : Settled board ctx body)
    (hitems : (Slot.compileList board ctx .doIf 0 [slot, .script body]).Gives s items t)
    (hemit : (Template.emit board ctx ⟨.doIf, items⟩).Gives t own u) :
    u.pins.Sorted ∧
      Outcome ((Slot.partsOf [slot, .script body]).all (·.sparesOwnPin board)) own
        s.pins u.pins := by
  obtain ⟨x, form, t₁, others, hfit, hothers, rfl⟩ :=
    exists_of_cons_single heager hsingle horder (fun _ => rfl) hs hitems
  obtain ⟨inner, t₂, more, hinner, hmore, rfl⟩ := exists_of_cons_script (fun _ => rfl) hothers
  obtain ⟨rfl, rfl⟩ := Slot.gives_nil.mp hmore
  obtain ⟨hplain, rfl⟩ := CompileM.gives_lift.mp hemit
  obtain ⟨condition, hcondition, hplain⟩ := exists_of_bind_eq_ok hplain
  cases hplain
  obtain ⟨-, hyes⟩ := hbody _ _ _ SortedMap.sorted_empty hinner
  rw [Slot.all_partsOf_cons, Slot.all_partsOf_body, Slot.spares_of_isEager slot heager]
  exact ⟨SortedMap.sorted_empty,
    (Outcome.ifThen (hfit.keeps_value hcondition).toEmpty hyes.branch).behind _⟩

theorem outcome_ifElse (hs : s.pins.Sorted) (hbody : Settled board ctx body)
    (hother : Settled board ctx other)
    (hitems : (Slot.compileList board ctx .doIfElse 0 [slot, .script body, .script other]).Gives s
      items t)
    (hemit : (Template.emit board ctx ⟨.doIfElse, items⟩).Gives t own u) :
    u.pins.Sorted ∧ Outcome ((Slot.partsOf [slot, .script body, .script other]).all
      (·.sparesOwnPin board)) own s.pins u.pins := by
  obtain ⟨x, form, t₁, others, hfit, hothers, rfl⟩ :=
    exists_of_cons_single heager hsingle horder (fun _ => rfl) hs hitems
  obtain ⟨inner, t₂, more, hinner, hmore, rfl⟩ := exists_of_cons_script (fun _ => rfl) hothers
  obtain ⟨inner', t₃, last, hinner', hlast, rfl⟩ := exists_of_cons_script (fun _ => rfl) hmore
  obtain ⟨rfl, rfl⟩ := Slot.gives_nil.mp hlast
  obtain ⟨hplain, rfl⟩ := CompileM.gives_lift.mp hemit
  obtain ⟨condition, hcondition, hplain⟩ := exists_of_bind_eq_ok hplain
  cases hplain
  obtain ⟨-, hyes⟩ := hbody _ _ _ SortedMap.sorted_empty hinner
  obtain ⟨-, hno⟩ := hother _ _ _ SortedMap.sorted_empty hinner'
  rw [Slot.all_partsOf_cons, Slot.all_partsOf_cons, Slot.all_partsOf_body,
    Slot.spares_of_isEager slot heager, Slot.parts]
  exact ⟨SortedMap.sorted_empty,
    (Outcome.ifElse (hfit.keeps_value hcondition).toEmpty hyes.branch hno.branch).behind _⟩

end Shapes

/-- A block in front of a script, when it is known what the code of the block itself does. -/
theorem Settled.cons {next : Option Block} (hnext : Settled board ctx next) {name : String}
    (hname : Selector.ofName? name = some selector) (hsub : selector ≠ .subscribeToMqttMessage)
    {kind : BlockKind} {inputs : List Slot}
    (hown : ∀ {s : CompileState} {items t own u}, s.pins.Sorted →
      (Slot.compileList board ctx selector 0 inputs).Gives
        (s.forgetPinsIf selector.yields) items t →
      (Template.emit board ctx ⟨selector, items⟩).Gives (t.forgetPinsIf selector.yields) own u →
        u.pins.Sorted ∧ Outcome (selector.sparesOwnPin board (Slot.formsOf board inputs)
          && (Slot.partsOf inputs).all (·.sparesOwnPin board)) own s.pins u.pins) :
    Settled board ctx (some (.mk name kind inputs next)) := by
  intro s s' code hs hgives
  rw [Block.compileBelow_some] at hgives
  obtain ⟨items, t, own, u, rest, hitems, hemit, hrest, rfl⟩ :=
    (Block.gives_compile hname hsub).mp hgives
  obtain ⟨hu, hfirst⟩ := hown hs hitems hemit
  obtain ⟨hs', hafter⟩ := hnext _ _ _ hu hrest
  rw [Block.all_partsBelow, Block.sparesOwnPin, hname]
  exact ⟨hs', hfirst.append hafter⟩

/-- A statement in front of a script. -/
theorem settled_command {name : String} (hname : Selector.ofName? name = some selector)
    (hsel : selector.isCommand = true) {kind : BlockKind} {inputs : List Slot}
    (hinputs : Slot.areEager inputs = true) {next : Option Block} (hnext : Settled board ctx next)
    (hself : (Block.mk name kind inputs next).runsInOrder board = true)
    (hparts : (Slot.partsOf inputs).all (·.runsInOrder board) = true) :
    Settled board ctx (some (.mk name kind inputs next)) := by
  have hsub : selector ≠ .subscribeToMqttMessage := by rintro rfl; cases hsel
  have hskip : ∀ index, Slot.mayBeSkipped selector index = false := by
    cases selector <;> first | exact fun _ => rfl | exact absurd hsel (by decide)
  rw [Block.runsInOrder, hname] at hself
  apply hnext.cons hname hsub
  intro s items t own u hs hitems hemit
  have hstart : (s.forgetPinsIf selector.yields).pins.Sorted := by
    cases selector.yields with
    | false => exact hs
    | true => exact SortedMap.sorted_empty
  have hfit := Slot.fits_of_gives inputs hinputs hparts hskip hstart hitems
  rw [Slot.spares_of_areEager inputs hinputs, Bool.and_true]
  exact outcome_command hsel hs hfit hself hemit

/-- The induction follows the script; each block adds what its own code does. -/
theorem EagerChain.settled {b : Option Block} (h : EagerChain b)
    (horder : (Block.partsBelow b).all (·.runsInOrder board) = true) : Settled board ctx b := by
  induction h with
  | done =>
    intro s s' code hs hgives
    obtain ⟨rfl, rfl⟩ := Block.gives_compileBelow_none.mp hgives
    exact ⟨hs, (Code.keeps_text "" _).outcome⟩
  | command hname hsel kind hinputs hnext ih =>
    rw [Block.all_partsBelow, Bool.and_eq_true, Bool.and_eq_true] at horder
    exact settled_command hname hsel hinputs (ih horder.2) horder.1.1 horder.1.2
  -- Loops and branches have two hypotheses, one for the script inside and one for the chain below.
  | forever hname kind hbody hnext ihbody ih =>
    rw [Block.all_partsBelow, Bool.and_eq_true, Bool.and_eq_true, Slot.all_partsOf_body] at horder
    obtain ⟨⟨-, hparts⟩, hbelow⟩ := horder
    apply (ih hbelow).cons hname (by decide)
    exact fun _ hitems hemit => outcome_forever (ihbody hparts) hitems hemit
  | repeated hname kind hcount hsingle hbody hnext ihbody ih =>
    rw [Block.all_partsBelow, Bool.and_eq_true, Bool.and_eq_true, Slot.all_partsOf_cons,
      Slot.all_partsOf_body, Bool.and_eq_true] at horder
    obtain ⟨⟨-, hslot, hparts⟩, hbelow⟩ := horder
    apply (ih hbelow).cons hname (by decide)
    exact fun _ hitems hemit => outcome_repeated hcount hsingle hslot (ihbody hparts) hitems hemit
  | ifThen hname kind hcondition hsingle hyes hnext ihyes ih =>
    rw [Block.all_partsBelow, Bool.and_eq_true, Bool.and_eq_true, Slot.all_partsOf_cons,
      Slot.all_partsOf_body, Bool.and_eq_true] at horder
    obtain ⟨⟨-, hslot, hparts⟩, hbelow⟩ := horder
    apply (ih hbelow).cons hname (by decide)
    exact fun hs hitems hemit => outcome_ifThen hcondition hsingle hslot hs
      (ihyes hparts) hitems hemit
  | ifElse hname kind hcondition hsingle hyes hno hnext ihyes ihno ih =>
    rw [Block.all_partsBelow, Bool.and_eq_true, Bool.and_eq_true, Slot.all_partsOf_cons,
      Slot.all_partsOf_cons, Slot.all_partsOf_body, Bool.and_eq_true, Bool.and_eq_true,
      Slot.parts] at horder
    obtain ⟨⟨-, hslot, hparts, hparts'⟩, hbelow⟩ := horder
    apply (ih hbelow).cons hname (by decide)
    exact fun hs hitems hemit =>
      outcome_ifElse hcondition hsingle hslot hs (ihyes hparts) (ihno hparts') hitems hemit

/-- The code of such a script is safe exactly if none of its writes reads its own pin for the
level. -/
theorem EagerChain.safe_iff {b : Option Block} (h : EagerChain b)
    (horder : (Block.partsBelow b).all (·.runsInOrder board) = true) {reported : List Diagnostic}
    {code : Code} {s' : CompileState}
    (hgives : (Block.compileBelow board ctx b).Gives ⟨.empty, reported⟩ code s') :
    code.Safe ↔ (Block.partsBelow b).all (·.sparesOwnPin board) = true := by
  obtain ⟨-, houtcome⟩ := h.settled horder _ _ _ SortedMap.sorted_empty hgives
  constructor
  · intro hsafe
    by_contra hspared
    exact (houtcome.fails (Bool.eq_false_iff.mpr hspared)).not_safe hsafe
  · exact fun hspared => (houtcome.keeps hspared).safe

end Chains

/-! ## On a board -/

/-- A board with two pins that are digital both ways. -/
def twoPinBoard : Board :=
  ⟨"", some { Pinout.empty with
    digitalOutput := ⟨[(2, "P2"), (3, "P3")]⟩, digitalInput := ⟨[(2, "P2"), (3, "P3")]⟩ }, none⟩

/-- An operand that reads a pin. -/
def pinReading (pin : String) : Slot :=
  .reporter (.mk "getPinDigital" .reporter [.literal pin] none)

theorem exists_of_toOption_any {q : Code → Bool} {r : Except CompileError Code × CompileState}
    (h : r.1.toOption.any q = true) : ∃ code s', r = (.ok code, s') ∧ q code = true := by
  obtain ⟨result, s'⟩ := r
  cases result with
  | error e => cases h
  | ok code => exact ⟨code, s', rfl, h⟩

/-- A block compiles to code that is not safe, if the code is straight and one of its uses goes
wrong from the empty table. -/
theorem exists_not_safe {b : Block} {board : Board} {ctx : Context} {p : Pin}
    (h : (((b.compile board ctx).run.run .initial).1.toOption.any fun c =>
      decide (c.Straight ∧ ¬ Covers p c.marks none)) = true) :
    ∃ code s', (b.compile board ctx).run.run .initial = (.ok code, s') ∧ ¬ code.Safe := by
  obtain ⟨code, s', hcode, hwrong⟩ := exists_of_toOption_any h
  obtain ⟨hstraight, hcovers⟩ := of_decide_eq_true hwrong
  refine ⟨code, s', hcode, fun hsafe => ?_⟩
  obtain ⟨m, hrun, hmode⟩ := Code.exists_wrong hstraight (t := fun _ => none) hcovers []
  exact hmode (hsafe _ m hrun)

end BlockLink
