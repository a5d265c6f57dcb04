import BlockLink.Proofs.Compile.Layout

/-!
# `BlockLink/Proofs/Compile/Outcome.lean` — what a block comes to

Every template does what its layout says. `Template.outcome?_emit` says so of the whole palette: a
block compiles exactly if its layout can be filled, its text is what the layout is filled to, and
the pins known after it can be read off the layout too. `Template.writes_subscribe` is the same for
a subscription, whose body counts as one more operand.

After this no proof about the text of a script has to look at a template again: what has to be known
about all blocks at once is checked on the table of layouts.
-/

set_option autoImplicit false

namespace BlockLink

open BlockLink.Text

namespace Template

open Operands

/-- The function is picked by a literal, and there is none for anything else. -/
theorem writes_monadic (ops : Operands) :
    ops.Writes (monadic ops) (Layout.monadic ops.shapes) := by
  obtain ⟨selector, items⟩ := ops
  cases items with
  | nil => rfl
  | cons x items =>
    cases x with
    | name s => rfl
    | expression c => rfl
    | script c => rfl
    | literal s =>
      let ops : Operands := ⟨selector, .literal s :: items⟩
      show ops.Writes (ops.number 1 >>= _) ((monadic? (String.ofList (trim s.toList))).map _)
      cases monadic? (String.ofList (trim s.toList)) with
      | none => cases ops.number 1 <;> rfl
      | some menu =>
        refine Writes.read (written?_number _ 1) (by simp) fun a ha => Writes.pure ?_
        simp [Fills, fill_cons ha, String.append_assoc]

/-- Every block that depends on its operands alone does what its layout says, and fails where it
cannot be filled. -/
theorem writes_plain (ctx : Context) (ops : Operands) :
    ops.Writes (plain ctx ops) (Layout.plain ctx ops.selector ops.shapes) := by
  obtain ⟨selector, items⟩ := ops
  -- One case for each block. The operands are read in the order of the template, which for lists is
  -- not that of the text; the layout does not care, since a reading that fails is a piece that
  -- cannot be filled.
  cases selector with
  | doWait =>
    refine Writes.read (written?_number _ 0) ?_ fun a ha => Writes.pure ?_
    · cases ctx.yields <;> simp [Layout.whileLoop]
    · unfold wait
      cases ctx.yields with
      | false => exact ((Fills.text _ _).append (Fills.operand ha)).append (Fills.text _ _)
      | true =>
        have hloop := fills_whileLoop
          (((Fills.text _ "tmr.getdiffnow(nil, t) < ").append (Fills.operand ha)).append
            (Fills.text _ " * 1000000"))
          (fills_pause _)
        exact ((Fills.text _ "do local t = tmr.read() ").append hloop).append
          (Fills.text _ " end\n")
  | doWaitUntil =>
    refine Writes.read (written?_value _ 0) (by simp [Layout.whileLoop]) fun a ha => Writes.pure ?_
    have hcondition := (Fills.text _ "not ").append (Fills.operand ha)
    unfold waitUntil
    cases ctx.yields with
    | false => exact (fills_whileLoop hcondition (Fills.text _ " ")).append (Fills.text _ "\n")
    | true => exact (fills_whileLoop hcondition (fills_pause _)).append (Fills.text _ "\n")
  | doForever =>
    refine Writes.read (written?_script _ 0) (by simp [Layout.whileLoop]) fun a ha => Writes.pure ?_
    have hbody := ((Fills.text _ "\n").append (Fills.operand ha)).append (fills_yieldPoint _ ctx)
    exact (fills_whileLoop (Fills.text _ "true") hbody).append (Fills.text _ "\n")
  | doRepeat =>
    refine Writes.read (written?_number _ 0) (by simp) fun a ha =>
      Writes.read (written?_script _ 1) (by simp) fun b hb => Writes.pure ?_
    have hyield := fills_yieldPoint ⟨.doRepeat, items⟩ ctx
    unfold Fills at hyield ⊢
    simp [fill_append, fill_cons ha, fill_cons hb, hyield, String.append_assoc]
  | doIf =>
    refine Writes.read (written?_value _ 0) (by simp) fun a ha =>
      Writes.read (written?_script _ 1) (by simp) fun b hb => Writes.pure ?_
    simp [Fills, fill_cons ha, fill_cons hb, String.append_assoc]
  | doIfElse =>
    refine Writes.read (written?_value _ 0) (by simp) fun a ha =>
      Writes.read (written?_script _ 1) (by simp) fun b hb =>
        Writes.read (written?_script _ 2) (by simp) fun c hc => Writes.pure ?_
    simp [Fills, fill_cons ha, fill_cons hb, fill_cons hc, String.append_assoc]
  | doStopThis => exact Writes.pure (Fills.text _ _)
  | doStopAll => exact Writes.pure (Fills.text _ _)
  | reifyScript =>
    refine Writes.read (written?_script _ 0) (by simp [Layout.function]) fun a ha => Writes.pure ?_
    exact fills_function ((Fills.text _ "\n").append (Fills.operand ha))
  | reifyReporter =>
    cases items with
    | nil => exact Writes.pure (fills_function (Fills.text _ " "))
    | cons x items =>
      refine Writes.read (written?_value _ 0) (by simp [Layout.function]) fun a ha => Writes.pure ?_
      exact fills_function (((Fills.text _ " return ").append (Fills.operand ha)).append
        (Fills.text _ " "))
  | doReport =>
    refine Writes.read (written?_value _ 0) (by simp) fun a ha => Writes.pure ?_
    simp [Fills, fill_cons ha, Layout.unitTag, unitTag, String.append_assoc]
  | reportSum | reportDifference | reportProduct | reportQuotient | reportModulus =>
    refine Writes.read (written?_number _ 0) (by simp [Layout.binary]) fun a ha =>
      Writes.read (written?_number _ 1) (by simp [Layout.binary]) fun b hb => Writes.pure ?_
    exact fills_binary _ ha hb
  | reportRandom =>
    refine Writes.read (written?_number _ 0) (by simp [Layout.call, Layout.join]) fun a ha =>
      Writes.read (written?_number _ 1) (by simp [Layout.call, Layout.join])
        fun b hb => Writes.pure ?_
    exact fills_call _ (.cons ha (.cons hb .nil))
  | reportLessThan | reportEquals | reportGreaterThan | reportAnd | reportOr =>
    refine Writes.read (written?_value _ 0) (by simp [Layout.binary]) fun a ha =>
      Writes.read (written?_value _ 1) (by simp [Layout.binary]) fun b hb => Writes.pure ?_
    exact fills_binary _ ha hb
  | reportNot =>
    refine Writes.read (written?_value _ 0) (by simp) fun a ha => Writes.pure ?_
    exact ((Fills.text _ "(not ").append (Fills.operand ha)).append (Fills.text _ ")")
  | reportTrue => exact Writes.pure (Fills.text _ _)
  | reportFalse => exact Writes.pure (Fills.text _ _)
  | reportGetVar => exact Writes.name fun name => Writes.pure (fills_global _ name)
  | doSetVar =>
    refine Writes.name fun name => Writes.read (written?_value _ 1) (by simp)
      fun a ha => Writes.pure ?_
    have hglobal := fills_global ⟨.doSetVar, items⟩ name
    have hreport := fills_reportVariable ⟨.doSetVar, items⟩ name
    unfold Fills at hglobal hreport ⊢
    simp [fill_append, fill_cons ha, hglobal, hreport, String.append_assoc]
  | doChangeVar =>
    refine Writes.name fun name => Writes.read (written?_number _ 1) (by simp)
      fun a ha => Writes.pure ?_
    have hglobal := fills_global ⟨.doChangeVar, items⟩ name
    have hreport := fills_reportVariable ⟨.doChangeVar, items⟩ name
    unfold Fills at hglobal hreport ⊢
    simp [fill_append, fill_cons ha, hglobal, hreport, String.append_assoc]
  | reportMonadic => exact writes_monadic ⟨.reportMonadic, items⟩
  | reportJoinWords =>
    cases items with
    | nil => exact Writes.pure (Fills.text _ _)
    | cons x items =>
      refine Writes.readAll (written?_string _)
        (fun i hi => ?_) fun cs hcs => Writes.pure ?_
      -- All operands are read before any of them is joined to the others.
      · have hmem := Layout.mem_join " .. " (List.mem_map_of_mem (f := Piece.string) hi)
        simpa using hmem
      · have hjoin := fills_join " .. " hcs
        have hlength := hcs.length_eq
        cases cs with
        | nil => simp at hlength
        | cons c cs =>
          have hfills := ((Fills.text _ "(").append hjoin).append (Fills.text _ ")")
          simpa [joinWords] using hfills
  | reportNewList =>
    cases items with
    | nil => exact Writes.pure (Fills.text _ _)
    | cons x items =>
      refine Writes.readAll (written?_value _)
        (fun i hi => ?_) fun cs hcs => Writes.pure ?_
      · have hmem := Layout.mem_join ", " (List.mem_map_of_mem (f := Piece.value) hi)
        simpa using hmem
      · have hjoin := fills_join ", " hcs
        have hlength := hcs.length_eq
        cases cs with
        | nil => simp at hlength
        | cons c cs =>
          replace hlength : items.length = cs.length := by simpa using hlength
          unfold Fills at hjoin ⊢
          simp only [Nat.sub_zero, List.length_cons, hlength] at hjoin
          simp [fill_append, newList, hjoin, hlength, String.append_assoc]
  | reportListLength =>
    refine Writes.read (written?_value _ 0) (by simp [Layout.call, Layout.join])
      fun a ha => Writes.pure ?_
    exact fills_call _ (.cons ha .nil)
  | reportListContainsItem =>
    refine Writes.read (written?_value _ 0) (by simp [Layout.call, Layout.join]) fun a ha =>
      Writes.read (written?_value _ 1) (by simp [Layout.call, Layout.join])
        fun b hb => Writes.pure ?_
    exact fills_call _ (.cons ha (.cons hb .nil))
  | addListItem | deleteListItem =>
    refine Writes.read (written?_value _ 1) (by simp [Layout.call, Layout.join]) fun a ha =>
      Writes.read (written?_value _ 0) (by simp [Layout.call, Layout.join])
        fun b hb => Writes.pure ?_
    exact (fills_call _ (.cons ha (.cons hb .nil))).append (Fills.text _ "\n")
  | insertListItem =>
    refine Writes.read (written?_value _ 2) (by simp [Layout.call, Layout.join]) fun a ha =>
      Writes.read (written?_value _ 1) (by simp [Layout.call, Layout.join]) fun b hb =>
        Writes.read (written?_value _ 0) (by simp [Layout.call, Layout.join])
          fun c hc => Writes.pure ?_
    exact (fills_call _ (.cons ha (.cons hb (.cons hc .nil)))).append (Fills.text _ "\n")
  | replaceListItem =>
    refine Writes.read (written?_value _ 1) (by simp [Layout.call, Layout.join]) fun a ha =>
      Writes.read (written?_value _ 0) (by simp [Layout.call, Layout.join]) fun b hb =>
        Writes.read (written?_value _ 2) (by simp [Layout.call, Layout.join])
          fun c hc => Writes.pure ?_
    exact (fills_call _ (.cons ha (.cons hb (.cons hc .nil)))).append (Fills.text _ "\n")
  | reportListItem =>
    refine Writes.read (written?_value _ 1) (by simp [Layout.call, Layout.join]) fun a ha =>
      Writes.read (written?_value _ 0) (by simp [Layout.call, Layout.join])
        fun b hb => Writes.pure ?_
    exact fills_call _ (.cons ha (.cons hb .nil))
  | receiveGo | doRun | evaluate | runLua | setPinDigital | setPinAnalog | getPinDigital
  | getPinAnalog
  | subscribeToMqttMessage | publishMqttMessage => rfl

/-! ## Pins

Whether there is a guard depends on the pins that are known. The layouts have this as a parameter,
so one lemma is about both cases. -/

/-- Putting a pin into a mode is written with the name and the number of the pin. -/
theorem fills_setup (ops : Operands) (pin : Pin) (name : String) (mode : PinMode) :
    ops.Fills (Layout.setup pin name mode) (setup pin name mode) := by
  have hname := Fills.pinName ops name
  have hpin := Fills.numeral ops pin.toNat
  cases mode with
  | output => exact ((Fills.text ops _).append hname).append (Fills.text ops _)
  | input => exact ((Fills.text ops _).append hname).append (Fills.text ops _)
  | pwm =>
    exact ((((((Fills.text ops _).append hpin).append (Fills.text ops _)).append hname).append
      (Fills.text ops _)).append hpin).append (Fills.text ops _)
  | analog =>
    exact ((((Fills.text ops _).append hpin).append (Fills.text ops _)).append hname).append
      (Fills.text ops _)

theorem fills_operation (ops : Operands) (pin : Pin) (name : String) (mode : PinMode) :
    ops.Fills (Layout.operation pin name mode) (.access pin mode (operation pin name mode)) := by
  have hname := Fills.pinName ops name
  have hpin := Fills.numeral ops pin.toNat
  cases mode with
  | output => exact ((Fills.text ops _).append hname).append (Fills.text ops _)
  | input => exact ((Fills.text ops _).append hname).append (Fills.text ops _)
  | pwm => exact ((Fills.text ops _).append hpin).append (Fills.text ops _)
  | analog => exact ((Fills.text ops _).append hpin).append (Fills.text ops _)

/-- A guard is written around it, with the number of the mode on both sides. -/
theorem fills_guard (ops : Operands) (pin : Pin) (name : String) (mode : PinMode) :
    ops.Fills (Layout.guard pin name mode) (.guard pin mode (setup pin name mode)) := by
  have hsetup := fills_setup ops pin name mode
  unfold Fills at hsetup ⊢
  simp [Layout.guard, fill_append, hsetup, wordText, String.append_assoc]

/-- The guard of a pin unless it is known to be in its mode. -/
def guardUnless (known : Bool) (pin : Pin) (name : String) (mode : PinMode) : Option Code :=
  if known then none else some (.guard pin mode (setup pin name mode))

/-- A reading is the use alone if the mode is known, and a function around guard and use if not. -/
theorem fills_readPin (ops : Operands) (known : Bool) (pin : Pin) (name : String) (mode : PinMode) :
    ops.Fills (Layout.readPin known pin name mode)
      (readPin (guardUnless known pin name mode) pin name mode) := by
  have hoperation := fills_operation ops pin name mode
  cases known with
  | true => exact hoperation
  | false =>
    have hguard := fills_guard ops pin name mode
    unfold Fills at hguard hoperation
    refine fills_runNow ?_
    simp [Fills, fill_append, hguard, hoperation, String.append_assoc, -String.reduceAppend]

/-- A write is a guard unless the mode is known, and then the level and the use. -/
theorem fills_writePin {ops : Operands} {ps : List Piece} {level : Code}
    (hlevel : ops.Fills ps level) (known : Bool) (pin : Pin) (name : String) (mode : PinMode) :
    ops.Fills (Layout.writePin known pin name mode ps)
      (writePin (guardUnless known pin name mode) pin name mode level) := by
  have hoperation := fills_operation ops pin name mode
  have hguard := fills_guard ops pin name mode
  unfold Fills at hlevel hguard hoperation
  cases known <;>
    simp [Fills, Layout.writePin, writePin, guardUnless, fill_append, hlevel, hguard, hoperation,
      wordText, String.append_assoc, -String.reduceAppend]

theorem fill_writePin_of_none {ops : Operands} {ps : List Piece}
    (h : ops.fill ps = none) (known : Bool) (pin : Pin) (name : String) (mode : PinMode) :
    ops.fill (Layout.writePin known pin name mode ps) = none := by
  refine fill_eq_none_of_subset (fun p hp => ?_) h
  simp [Layout.writePin, hp]

/-- A literal level is written as the digit it stands for, and anything else is turned into one when
the code runs. -/
theorem writes_level (ops : Operands) :
    ops.Writes (level ops) (some (Layout.level ops.shapes)) := by
  obtain ⟨selector, items⟩ := ops
  -- Unless the level was typed in, it is converted when the code runs.
  have hcall : Operands.Writes ⟨selector, items⟩
      (do return call "_d" [← Operands.value ⟨selector, items⟩ 1])
        (some (Layout.call "_d" [.value 1])) :=
    Writes.read (written?_value _ 1) (by simp [Layout.call, Layout.join]) fun a ha =>
      Writes.pure (fills_call _ (.cons ha .nil))
  rcases items with _ | ⟨x, _ | ⟨y, items⟩⟩
  · exact hcall
  · exact hcall
  · cases y with
    | literal s =>
      have hdigit : Operands.Fills ⟨selector, x :: .literal s :: items⟩
          [.text (if (Literal.classify s).isHigh then "1" else "0")]
          (if (Literal.classify s).isHigh then "1" else "0") := by
        split <;> exact Fills.text _ _
      exact Writes.pure hdigit
    | name s => exact hcall
    | expression c => exact hcall
    | script c => exact hcall

/-! ## Unknown code and messages

Two blocks call what an operand computes, and one splices in Lua as it was typed. Nothing is known
of what they run; for their texts that makes no difference. -/

/-- A call of the first operand, made into the code of a block in one way or another. -/
theorem writes_callOperand {ops : Operands} {f : Option Code → Code}
    {layout : Option (List Piece) → List Piece} (hnone : ops.Fills (layout none) (f none))
    (hsome : ∀ {ps c}, ops.Fills ps c → ops.Fills (layout (some ps)) (f (some c)))
    (hmem : ∀ {ps p}, p ∈ ps → p ∈ layout (some ps)) :
    ops.Writes (callOperand ops >>= fun c => pure (f c))
      ((Layout.callOperand ops.shapes).map layout) := by
  obtain ⟨selector, items⟩ := ops
  cases items with
  | nil => rfl
  | cons x args =>
    cases x with
    | literal s => exact Writes.pure hnone
    | name s => exact Writes.pure hnone
    | script c => exact Writes.pure hnone
    | expression c =>
      have hargs : (Layout.callOperand (shapes ⟨selector, .expression c :: args⟩)).map layout
          = some (layout (some (.value 0 :: .text "(" ::
              (Layout.join ", " ((List.range' 1 args.length).map .value)
                ++ [Piece.text ")"])))) := by
        simp [Layout.callOperand, Operand.blank]
      rw [hargs]
      show Operands.Writes _ ((Operands.valuesFrom ⟨selector, .expression c :: args⟩ 1 >>= fun cs =>
        pure (some (c ++ "(" ++ Code.join ", " cs ++ ")"))) >>= fun c => pure (f c)) _
      -- Behind the function come its arguments, all read as values.
      rw [bind_assoc]
      refine Writes.readAll (written?_value _)
        (fun i hi => hmem ?_) fun cs hcs => Writes.pure (hsome ?_)
      · have hjoin := Layout.mem_join ", " (List.mem_map_of_mem (f := Piece.value) hi)
        simp at hjoin ⊢
        exact .inr hjoin
      · have hjoin := fills_join ", " hcs
        have hfunction : Operands.written? ⟨selector, .expression c :: args⟩ (.value 0)
            = some c.render := rfl
        unfold Fills at hjoin ⊢
        simp at hjoin
        simp [fill_append, fill_cons hfunction, hjoin, String.append_assoc]

theorem writes_luaCall (ops : Operands) :
    ops.Writes (luaCall ops) (some (Layout.luaCall ops.shapes)) := by
  obtain ⟨selector, items⟩ := ops
  -- Code that was not typed in is a string that is loaded when the code runs.
  have hload : Operands.Writes ⟨selector, items⟩
      (do return call "load" [← Operands.string ⟨selector, items⟩ 0] ++ "()")
      (some (Layout.call "load" [.string 0] ++ [Piece.text "()"])) :=
    Writes.read (written?_string _ 0) (by simp [Layout.call, Layout.join]) fun a ha =>
      Writes.pure ((fills_call _ (.cons ha .nil)).append (Fills.text _ "()"))
  cases items with
  | nil => exact hload
  | cons x items =>
    cases x with
    | literal code =>
      have hcode : Operands.Fills ⟨selector, .literal code :: items⟩
          [.text " ", .typed code, .text " "]
          (Code.text (" " ++ code ++ " ")) := by
        simp [Fills, String.append_assoc]
      exact Writes.pure (fills_runNow hcode)
    | name s => exact hload
    | expression c => exact hload
    | script c => exact hload

theorem fills_connect (ops : Operands) (broker : Broker) :
    ops.Fills (Layout.connect broker) broker.connect := by
  have hconnect : broker.connect = "if cfg.m == nil then cfg.m = mqtt.client(" ++ quote
      broker.deviceId
      ++ ", " ++ quote broker.url ++ ", " ++ Nat.repr broker.port.toNat ++ ", false) cfg.m:connect("
      ++ quote broker.username ++ ", " ++ quote broker.password ++ ") end" := rfl
  simp [Fills, Layout.connect, hconnect, String.append_assoc]

end Template

/-! ## Every block

The templates that look at the pins or report something are not functions of their operands alone.
`CompileM.outcome?` is what is left of a computation when diagnostics and the kind of error are
forgotten: the text, and the pins known behind it. -/

/-- What a block comes to, from the pins known after its operands: its text, and the pins known
after it. -/
def Layout.outcome? (board : Board) (ctx : Context) (ops : Operands) (m : PinMemory) :
    Option (String × PinMemory) :=
  ((block board ctx ((use? board ops.selector ops.shapes).all m.knows) ops.selector ops.shapes).bind
    ops.fill).map (·, pinsAfter board ops.selector ops.shapes m)

namespace CompileM

/-- What a computation of code comes to: its text, and the pins known after it. -/
def outcome? (act : CompileM Code) (s : CompileState) : Option (String × PinMemory) :=
  match act.run.run s with
  | (.ok c, t) => some (c.render, t.pins)
  | (.error _, _) => none

variable {s t : CompileState}

/-- An outcome is the text of the code that the computation gives, and the pins behind it. -/
theorem outcome?_eq_some {act : CompileM Code} {x : String} {m : PinMemory} :
    act.outcome? s = some (x, m) ↔ ∃ c t, act.Gives s c t ∧ c.render = x ∧ t.pins = m := by
  unfold outcome? Gives
  cases h : act.run.run s with
  | mk r t =>
    cases r with
    | error e =>
      refine iff_of_false nofun ?_
      rintro ⟨c, t', hrun, -⟩
      cases hrun
    | ok c =>
      constructor
      · intro heq
        cases heq
        exact ⟨c, t, rfl, rfl, rfl⟩
      · rintro ⟨c', t', hrun, rfl, rfl⟩
        cases hrun
        rfl

theorem Gives.outcome? {act : CompileM Code} {c : Code} (h : act.Gives s c t) :
    act.outcome? s = some (c.render, t.pins) :=
  outcome?_eq_some.2 ⟨c, t, h, rfl, rfl⟩

theorem outcome?_pure {ops : Operands} {ps : List Piece} {c : Code} (h : ops.Fills ps c)
    (s : CompileState) : (pure c : CompileM Code).outcome? s = (ops.fill ps).map (·, s.pins) := by
  unfold Operands.Fills at h
  rw [h]
  rfl

theorem outcome?_lift (x : Except CompileError Code) (s : CompileState) :
    (liftM x : CompileM Code).outcome? s = x.toOption.map fun c => (c.render, s.pins) := by
  cases x <;> rfl

theorem outcome?_lift_bind {α : Type} (x : Except CompileError α) (k : α → CompileM Code)
    (s : CompileState) :
    ((liftM x : CompileM α) >>= k).outcome? s = x.toOption.bind fun a => (k a).outcome? s := by
  cases x <;> rfl

/-- What comes behind a computation that goes through starts from where that ends. -/
theorem Gives.outcome?_bind {α : Type} {act : CompileM α} {a : α} (h : act.Gives s a t)
    (k : α → CompileM Code) : (act >>= k).outcome? s = (k a).outcome? t := by
  unfold CompileM.outcome?
  rw [ExceptT.run_bind, StateT.run_bind, h]
  rfl

/-- A pin is asked for in a mode: the guard stands there unless it is known to be in it. -/
theorem outcome?_requireMode_bind (pin : Pin) (name : String) (mode : PinMode)
    (k : Option Code → CompileM Code) (s : CompileState) :
    (requireMode pin mode (Template.setup pin name mode) >>= k).outcome? s
      = (k (Template.guardUnless (s.pins.get? pin == some mode) pin name mode)).outcome?
          { s with pins := s.pins.insert pin mode } := by
  rw [(gives_requireMode.2 ⟨rfl, rfl⟩).outcome?_bind]
  unfold Template.guardUnless
  simp only [beq_iff_eq]

end CompileM

namespace Template

open CompileM Operands

variable (board : Board) (ctx : Context) (ops : Operands) (s : CompileState)

/-- Looking for a pin finds the one that the layout names, or reports why there is none; either way
the known pins stay. -/
theorem gives_resolvePin_of_pin? {mode : PinMode} {named : Option (Pin × String)}
    (h : Layout.pin? board mode ops.shapes = some named) :
    ∃ t, (resolvePin board ops mode).Gives s named t ∧ t.pins = s.pins := by
  obtain ⟨selector, items⟩ := ops
  cases hpinout : board.pinout with
  | none =>
    have hnamed : named = none := by
      unfold Layout.pin? at h
      rw [hpinout] at h
      exact (Option.some.inj h).symm
    refine ⟨s.report ⟨selector, .noPinout⟩, ?_, by simp⟩
    unfold resolvePin
    simp [hpinout, hnamed]
  | some pinout =>
    unfold Layout.pin? at h
    rw [hpinout] at h
    -- A pin that is computed is not looked for, whatever computes it.
    have hdynamic : ∀ (x : Operand) (more : List Operand),
        Operands.pin ⟨selector, x :: more⟩ 0 = .ok none → ∃ t,
          (resolvePin board ⟨selector, x :: more⟩ mode).Gives s none t ∧ t.pins = s.pins := by
      intro x more hpin
      refine ⟨s.report ⟨selector, .dynamicPin⟩, ?_, by simp⟩
      unfold resolvePin
      simp [hpinout, hpin]
    cases items with
    | nil => cases h
    | cons x more =>
      cases x with
      | literal text =>
        cases h
        exact gives_resolvePin board s selector text more mode
      | name text => cases h; exact hdynamic _ _ rfl
      | expression c => cases h; exact hdynamic _ _ rfl
      | script c => cases h; exact hdynamic _ _ rfl

/-- With pins on the board and no operand at all, there is nothing to look for. -/
theorem outcome?_resolvePin_bind_of_none {mode : PinMode}
    (h : Layout.pin? board mode ops.shapes = none) (k : Option (Pin × String) → CompileM Code) :
    (resolvePin board ops mode >>= k).outcome? s = none := by
  obtain ⟨selector, items⟩ := ops
  unfold Layout.pin? at h
  cases hpinout : board.pinout with
  | none =>
    rw [hpinout] at h
    cases h
  | some pinout =>
    rw [hpinout] at h
    rcases items with _ | ⟨_ | _ | _ | _, more⟩ <;> try cases h
    unfold resolvePin
    rw [hpinout]
    rfl

/-- A block that looks for its pin first, and writes something without one. -/
theorem outcome?_resolvePin_bind {mode : PinMode} (hmode : ops.selector.pinMode? = some mode)
    {k : Option (Pin × String) → CompileM Code} {without : List Piece}
    (layout : Bool → Pin × String → List Piece)
    (hnone : ∀ t, t.pins = s.pins → (k none).outcome? t = (ops.fill without).map (·, s.pins))
    (hsome : ∀ named t, t.pins = s.pins →
      (k (some named)).outcome? t
        = (ops.fill (layout (s.pins.knows (named.1, mode)) named)).map
          (·, s.pins.insert named.1 mode)) :
    (resolvePin board ops mode >>= k).outcome? s
      = (((Layout.pin? board mode ops.shapes).map fun named =>
            named.elim without (layout
              ((Layout.use? board ops.selector ops.shapes).all s.pins.knows))).bind
          ops.fill).map
        (·, (Layout.use? board ops.selector ops.shapes).elim s.pins fun (pin, mode) =>
          s.pins.insert pin mode) := by
  unfold Layout.use?
  rw [hmode, Option.bind_some]
  cases hpin : Layout.pin? board mode ops.shapes with
  | none => exact outcome?_resolvePin_bind_of_none board ops s hpin k
  | some named =>
    obtain ⟨t, hgives, hpins⟩ := gives_resolvePin_of_pin? board ops s hpin
    rw [hgives.outcome?_bind]
    cases named with
    | none => exact hnone t hpins
    | some named => exact hsome named t hpins

theorem outcome?_readBlock {mode : PinMode} (hmode : ops.selector.pinMode? = some mode) :
    (readBlock board ops mode).outcome? s
      = (((Layout.pin? board mode ops.shapes).map fun named =>
            named.elim [.text "nil"] fun (pin, name) => Layout.readPin
              ((Layout.use? board ops.selector ops.shapes).all s.pins.knows)
              pin name mode).bind ops.fill).map
        (·, (Layout.use? board ops.selector ops.shapes).elim s.pins fun (pin, mode) =>
          s.pins.insert pin mode) := by
  refine outcome?_resolvePin_bind board ops s hmode (fun known named =>
    Layout.readPin known named.1 named.2 mode) (fun t hpins => ?_) fun (pin, name) t hpins => ?_
  · rw [outcome?_pure (Fills.text ops "nil"), hpins]
  · rw [outcome?_requireMode_bind, hpins]
    exact outcome?_pure (fills_readPin ops _ pin name mode) _

theorem outcome?_setPinDigital (items : List Operand) :
    (emit board ctx ⟨.setPinDigital, items⟩).outcome? s
      = Layout.outcome? board ctx ⟨.setPinDigital, items⟩ s.pins := by
  refine outcome?_resolvePin_bind board ⟨.setPinDigital, items⟩ s rfl (fun known named =>
    Layout.writePin known named.1 named.2 .output (Layout.level (items.map Operand.blank)))
    (fun t hpins => ?_) fun (pin, name) t hpins => ?_
  · rw [← hpins]
    rfl
  · have hlevel := writes_level ⟨.setPinDigital, items⟩
    rw [outcome?_lift_bind]
    unfold Writes at hlevel
    cases hread : level ⟨.setPinDigital, items⟩ with
    -- If the level cannot be written, the layout cannot be filled either, whether the mode is known
    -- or not.
    | error e =>
      rw [hread] at hlevel
      have hnone := fill_writePin_of_none hlevel.symm (s.pins.knows (pin, .output)) pin name .output
      rw [shapes_mk] at hnone
      rw [hnone]
      rfl
    | ok c =>
      rw [hread] at hlevel
      simp only [Except.toOption, Option.bind_some]
      rw [outcome?_requireMode_bind, hpins]
      exact outcome?_pure (fills_writePin hlevel.symm _ pin name .output) _

theorem outcome?_setPinAnalog (items : List Operand) :
    (emit board ctx ⟨.setPinAnalog, items⟩).outcome? s
      = Layout.outcome? board ctx ⟨.setPinAnalog, items⟩ s.pins := by
  refine outcome?_resolvePin_bind board ⟨.setPinAnalog, items⟩ s rfl (fun known named =>
    Layout.writePin known named.1 named.2 .pwm [.number 1]) (fun t hpins => ?_)
    fun (pin, name) t hpins => ?_
  · rw [← hpins]
    rfl
  · rw [outcome?_requireMode_bind, outcome?_lift_bind, hpins]
    cases hread : Operands.number ⟨.setPinAnalog, items⟩ 1 with
    | error e =>
      have hduty : Operands.written? ⟨.setPinAnalog, items⟩ (.number 1) = none := by
        rw [written?_number, hread]
        rfl
      rw [fill_writePin_of_none (fill_eq_none (List.mem_singleton_self _) hduty)]
      rfl
    | ok c =>
      have hduty : Operands.written? ⟨.setPinAnalog, items⟩ (.number 1) = some c.render := by
        rw [written?_number, hread]
        rfl
      exact outcome?_pure (fills_writePin (Fills.operand hduty) _ pin name .pwm) _

theorem outcome?_lift_of_writes {ops : Operands} {x : Except CompileError Code}
    {layout : Option (List Piece)} (h : ops.Writes x layout) :
    (liftM x : CompileM Code).outcome? s = (layout.bind ops.fill).map (·, s.pins) := by
  unfold Writes at h
  rw [outcome?_lift, ← h, Option.map_map]
  rfl

theorem outcome?_callOperand {ops : Operands} (f : Option Code → Code)
    (layout : Option (List Piece) → List Piece) (hnone : ops.Fills (layout none) (f none))
    (hsome : ∀ {ps c}, ops.Fills ps c → ops.Fills (layout (some ps)) (f (some c)))
    (hmem : ∀ {ps p}, p ∈ ps → p ∈ layout (some ps)) :
    (forgetPins >>= fun _ => (liftM (callOperand ops) : CompileM (Option Code)) >>= fun c =>
        pure (f c)).outcome? s
      = (((Layout.callOperand ops.shapes).map layout).bind ops.fill).map (·, .empty) := by
  have hcall := outcome?_lift_of_writes s.forgetPins (writes_callOperand hnone hsome hmem)
  rw [(gives_forgetPins (u := ()).2 rfl).outcome?_bind, outcome?_lift_bind]
  refine Eq.trans ?_ hcall
  cases callOperand ops <;> rfl

/-- Without a broker nothing is written; with one the topic is read before the message. -/
theorem outcome?_publish (items : List Operand) :
    (emit board ctx ⟨.publishMqttMessage, items⟩).outcome? s
      = Layout.outcome? board ctx ⟨.publishMqttMessage, items⟩ s.pins := by
  obtain ⟨boardName, pinout, broker⟩ := board
  cases broker with
  -- Without a broker there is a diagnostic, and no code.
  | none =>
    show (inert .publishMqttMessage .noBroker >>= fun _ => pure Code.empty).outcome? s = _
    rw [(gives_inert (u := ()).2 rfl).outcome?_bind]
    exact congrArg (fun m => some ("", m)) (CompileState.pins_report ..)
  | some broker =>
    let ops : Operands := ⟨.publishMqttMessage, items⟩
    -- The topic is the second operand and is written first.
    have hpublish : ops.Writes (do
          let topic ← ops.string 1
          let message ← ops.string 0
          pure (Code.text (broker.connect ++ " cfg.m:publish(") ++ topic ++ ", " ++ message
            ++ ", mqtt.QOS0)\n"))
        (Layout.block ⟨boardName, pinout, some broker⟩ ctx true .publishMqttMessage
          ops.shapes) := by
      refine Writes.read (written?_string _ 1) (by simp) fun a ha =>
        Writes.read (written?_string _ 0) (by simp) fun b hb => Writes.pure ?_
      have hconnect := fills_connect ops broker
      unfold Fills at hconnect ⊢
      simp [fill_append, hconnect, fill_cons ha, fill_cons hb, String.append_assoc]
    refine Eq.trans ?_ (outcome?_lift_of_writes s hpublish)
    show CompileM.outcome?
      (liftM (ops.string 1) >>= fun topic => liftM (ops.string 0) >>= fun message => pure _) s = _
    -- Lifted, the computation fails at the same operand.
    cases ops.string 1 with
    | error e => rfl
    | ok topic => cases ops.string 0 <;> rfl

/-- A block compiles exactly if its layout can be filled, and its text is what it is filled to. -/
theorem outcome?_emit : (emit board ctx ops).outcome? s = Layout.outcome? board ctx ops s.pins := by
  obtain ⟨selector, items⟩ := ops
  cases selector with
  -- Seven blocks touch the state or call unknown code. All others are plain functions of their
  -- operands.
  | doRun =>
    have hcode : emit board ctx ⟨.doRun, items⟩ = forgetPins >>= fun _ =>
        (liftM (callOperand ⟨.doRun, items⟩) : CompileM (Option Code)) >>= fun c =>
          pure (c.elim .empty (· ++ "\n")) := by
      refine congrArg (forgetPins >>= ·) (funext fun _ => congrArg (liftM _ >>= ·)
        (funext fun c => ?_))
      cases c <;> rfl
    rw [hcode]
    exact outcome?_callOperand s _ _ rfl (fun h => h.append (Fills.text _ "\n"))
      fun h => List.mem_append_left _ h
  | evaluate =>
    exact outcome?_callOperand s (fun c => c.getD "nil") (fun ps => ps.getD [.text "nil"])
      (Fills.text _ "nil") id id
  | runLua =>
    have hrun : Operands.Writes ⟨.runLua, items⟩ (luaCall ⟨.runLua, items⟩ >>= fun f =>
          pure ("do local f = " ++ f
            ++ Code.text (" if f ~= nil then print(" ++ unitTag "pb" ctx.unit
            ++ " .. _s(f)) end end\n")))
        (Layout.block board ctx true .runLua (items.map Operand.blank)) := by
      refine Writes.part (writes_luaCall ⟨.runLua, items⟩) (fun h => ?_) fun f hf => Writes.pure ?_
      · refine fill_eq_none_of_subset (fun p hp => ?_) h
        simp_all
      · unfold Fills at hf ⊢
        rw [shapes_mk] at hf
        simp [fill_append, hf, Layout.unitTag, unitTag, String.append_assoc]
    refine Eq.trans ?_ (outcome?_lift_of_writes s.forgetPins hrun)
    show (liftM (luaCall ⟨.runLua, items⟩) >>= fun f => forgetPins >>= fun _ => pure _).outcome? s
      = _
    rw [outcome?_lift_bind]
    cases luaCall ⟨.runLua, items⟩ <;> rfl
  | setPinDigital => exact outcome?_setPinDigital board ctx s items
  | setPinAnalog => exact outcome?_setPinAnalog board ctx s items
  | getPinDigital => exact outcome?_readBlock board ⟨.getPinDigital, items⟩ s rfl
  | getPinAnalog => exact outcome?_readBlock board ⟨.getPinAnalog, items⟩ s rfl
  | publishMqttMessage => exact outcome?_publish board ctx s items
  | receiveGo => rfl
  | subscribeToMqttMessage => rfl
  | _ => exact outcome?_lift_of_writes s (writes_plain ctx ⟨_, items⟩)

/-- The reading of an operand as a string does not see the body that stands behind the operands. -/
theorem written?_string_body (selector : Selector) (items : List Operand) (body : Code) (i : Nat) :
    written? ⟨selector, items ++ [Operand.script body]⟩ (.string i) =
      written? ⟨selector, items⟩ (.string i) := by
  show (items ++ [Operand.script body])[i]?.bind Operand.string? = items[i]?.bind Operand.string?
  rcases lt_trichotomy i items.length with hlt | rfl | hgt
  · rw [List.getElem?_append_left hlt]
  · simp [Operand.string?, Operand.value?]
  · rw [List.getElem?_eq_none (by simp; omega), List.getElem?_eq_none (by omega)]

/-- A filter that is an empty literal lets every message through. -/
theorem writes_messageFilter (selector : Selector) (items : List Operand) (body : Code) :
    Operands.Writes ⟨selector, items ++ [Operand.script body]⟩ (messageFilter ⟨selector, items⟩)
      (some (Layout.messageFilter (items.map Operand.blank))) := by
  -- The body of the subscription is the last operand, which the filter does not look at.
  have hfilter : Operands.Writes ⟨selector, items ++ [Operand.script body]⟩
      (do return "p == " ++ (← Operands.string ⟨selector, items⟩ 0))
      (some [.text "p == ", .string 0]) := by
    refine Writes.read ((written?_string_body ..).trans (written?_string _ 0)) (by simp) fun a ha =>
      Writes.pure ?_
    exact (Fills.text _ "p == ").append (Fills.operand ha)
  cases items with
  | nil => rfl
  | cons x items =>
    cases x with
    | literal s =>
      show Operands.Writes _ (if s = "" then pure ↑"true"
          else do return "p == " ++ (← Operands.string ⟨selector, .literal s :: items⟩ 0))
        (some (if s = "" then [.text "true"] else [.text "p == ", .string 0]))
      split
      · exact Writes.pure (Fills.text _ "true")
      · exact hfilter
    | name s => exact hfilter
    | expression c => exact hfilter
    | script c => exact hfilter

/-- A subscription does what its layout says, with the body as the operand behind the last. -/
theorem writes_subscribe (broker : Broker) (selector : Selector) (items : List Operand)
    (body : Code) :
    Operands.Writes ⟨selector, items ++ [Operand.script body]⟩
      (subscribe broker ctx ⟨selector, items⟩ body)
      (some (Layout.subscribe broker ctx (items.map Operand.blank))) := by
  refine Writes.part (writes_messageFilter selector items body) (fun h => ?_)
    fun accepts haccepts => ?_
  · refine fill_eq_none_of_subset (fun p hp => ?_) h
    simp [Layout.subscribe, hp]
  refine Writes.read ((written?_string_body ..).trans (written?_string _ 1))
    (by simp [Layout.subscribe])
    fun topic htopic => Writes.pure ?_
  have hbody : written? ⟨selector, items ++ [Operand.script body]⟩ (.script items.length) =
      some body.render := by
    simp [written?, Operand.script?]
  have hconnect := fills_connect ⟨selector, items ++ [Operand.script body]⟩ broker
  unfold Fills at haccepts hconnect ⊢
  simp [Layout.subscribe, fill_append, haccepts, hconnect, fill_cons htopic, fill_cons hbody,
    Layout.unitTag, unitTag, String.append_assoc, -String.reduceAppend]

end Template

end BlockLink
