import Mathlib.Data.List.Induction
import BlockLink.Proofs.Session.Invariant

/-!
# `BlockLink/Proofs/Session/Highlight.lean` — what stays lit when everything is stopped

A script is lit by the line that says its unit runs and by being evaluated. Clearing a session puts
out the scripts of live units and the one that is evaluated, and nothing else. An evaluated script
is always remembered as such, and while ids have not wrapped a live unit does not leave without its
script being put out. So what stays lit is what a line lit whose unit was not alive any more: a unit
that has ended may still speak up, and its script still holds the id. The main statement is that
this is the only way, and a run in which it happens shows that it is one.
-/

set_option autoImplicit false

namespace BlockLink

variable {Origin : Type}

namespace Session

/-! ## Replies that light nothing -/

/-- Clearing puts out the scripts of live units and the one that is evaluated. -/
theorem mem_clear {s : Session Origin} {o : Origin} {on : Bool} :
    .highlight o on ∈ s.clear.1 ↔
      on = false ∧ ((∃ u ∈ s.units.values, u.origin = o) ∨ s.adhoc = some o) := by
  have hunits : .highlight o on ∈ s.units.values.map (fun u => Feedback.highlight u.origin false) ↔
      on = false ∧ ∃ u ∈ s.units.values, u.origin = o := by
    rw [List.mem_map]
    constructor
    · rintro ⟨u, hu, heq⟩
      obtain ⟨ho, hon⟩ := Feedback.highlight.inj heq
      exact ⟨hon.symm, u, hu, ho⟩
    · rintro ⟨rfl, u, hu, rfl⟩
      exact ⟨u, hu, rfl⟩
  have hadhoc : .highlight o on ∈ lowlight s.adhoc ↔ on = false ∧ s.adhoc = some o := by
    cases s.adhoc <;> simp [lowlight, eq_comm, and_comm]
  rw [clear, List.mem_append, hunits, hadhoc, and_or_left]

/-- The reply does not light a script, and puts it out if it is evaluated no longer. -/
def Dark (s : Session Origin) (o : Origin) (r : Reply Origin (Option Frame)) : Prop :=
  .highlight o true ∉ r.shown ∧
    (s.adhoc = some o → .highlight o false ∈ r.shown ∨ r.session.adhoc = some o)

/-- Only the beginning of a unit lights its script, and an evaluation ends by putting its script
out. -/
theorem handleEvent_dark (s : Session Origin) (o : Origin) (line : String) {event : Event}
    (h : ∀ id data, event = .threadStarted id data → s.registry.resolve id ≠ some o) :
    s.Dark o (s.handleEvent line event) := by
  cases event with
  | chunkReady =>
    simp only [handleEvent]
    exact ⟨by split <;> simp, fun ha => Or.inr ha⟩
  | reporterResult unit value =>
    cases unit with
    | adhoc =>
      cases ha : s.adhoc with
      | none => simp [handleEvent, Dark, ha]
      | some o' => simp [handleEvent, Dark, ha, eq_comm]
    | id n => cases hid : s.registry.resolve n <;> simp [handleEvent, Dark, hid]
  | threadStarted id data =>
    -- The script that is lit is another one.
    have hne := h id data rfl
    cases hid : s.registry.resolve id with
    | none => simp [handleEvent, Dark, hid]
    | some o' =>
      have ho : o ≠ o' := fun heq => hne (by rw [hid, heq])
      simp [handleEvent, Dark, hid, ho]
  | threadEnded id data =>
    cases hid : s.registry.resolve id with
    | none => simp [handleEvent, Dark, hid]
    | some o' =>
      simp only [handleEvent, hid, unitEnded]
      exact ⟨by simp, fun ha => Or.inr (by split <;> exact ha)⟩
  | pinValue pin value => simp [handleEvent, Dark]
  | variableValue name value => simp [handleEvent, Dark]
  -- All others show nothing about any script.
  | deviceReady => cases hb : s.booting <;> simp [handleEvent, Dark, hb]
  | unrecognized text => simp [handleEvent, Dark]

/-- The unit with an id is alive and belongs to a script. -/
structure Runs (s : Session Origin) (id : UnitId) (o : Origin) : Prop where
  alive : s.units.contains id = true
  held : s.registry.resolve id = some o

theorem Runs.origin_mem [DecidableEq Origin] {s : Session Origin} {n : Nat} (hs : s.Bound n)
    {id : UnitId} {o : Origin} (h : s.Runs id o) : ∃ u ∈ s.units.values, u.origin = o := by
  obtain ⟨u, hu⟩ := Option.isSome_iff_exists.mp h.alive
  refine ⟨u, List.mem_map_of_mem ((SortedMap.get?_eq_some_iff hs.units).mp hu), ?_⟩
  exact Option.some.inj ((hs.bound id u hu).2.symm.trans h.held)

end Session

variable [DecidableEq Origin]

/-! ## The calls about one script -/

/-- Whether a script is lit or put out, if the feedback is about that. -/
def Feedback.highlight? (o : Origin) : Feedback Origin → Option Bool
  | .highlight o' on => if o' = o then some on else none
  | _ => none

/-- How a script is lit and put out, in order. -/
def calls (o : Origin) (shown : List (Feedback Origin)) : List Bool :=
  shown.filterMap (Feedback.highlight? o)

/-- The script is lit by the last call about it. -/
def Lit (o : Origin) (shown : List (Feedback Origin)) : Prop :=
  (calls o shown).getLast? = some true

instance (o : Origin) (shown : List (Feedback Origin)) : Decidable (Lit o shown) :=
  inferInstanceAs (Decidable ((calls o shown).getLast? = some true))

theorem calls_append (o : Origin) (xs ys : List (Feedback Origin)) :
    calls o (xs ++ ys) = calls o xs ++ calls o ys :=
  List.filterMap_append

/-- The calls about a script are the feedback about its light. -/
theorem mem_calls {o : Origin} {shown : List (Feedback Origin)} {on : Bool} :
    on ∈ calls o shown ↔ .highlight o on ∈ shown := by
  unfold calls
  rw [List.mem_filterMap]
  constructor
  · rintro ⟨f, hf, hon⟩
    cases f with
    | highlight o' on' =>
      by_cases ho : o' = o
      · simp only [Feedback.highlight?, ho, if_true, Option.some.injEq] at hon
        rw [← ho, ← hon]
        exact hf
      · simp [Feedback.highlight?, ho] at hon
    | bubble _ _ | pin _ _ | watcher _ _ | output _ | status _ =>
      exact absurd hon (by simp [Feedback.highlight?])
  · exact fun hf => ⟨_, hf, by simp [Feedback.highlight?]⟩

theorem calls_eq_nil_iff {o : Origin} {shown : List (Feedback Origin)} :
    calls o shown = [] ↔ ∀ on, .highlight o on ∉ shown := by
  rw [List.eq_nil_iff_forall_not_mem]
  exact forall_congr' fun on => not_congr mem_calls

theorem lit_append_of_silent {o : Origin} {xs ys : List (Feedback Origin)} (h : calls o ys = []) :
    Lit o (xs ++ ys) ↔ Lit o xs := by
  unfold Lit
  rw [calls_append, h, List.append_nil]

theorem lit_append_of_calls {o : Origin} {xs ys : List (Feedback Origin)} (h : calls o ys ≠ []) :
    Lit o (xs ++ ys) ↔ Lit o ys := by
  unfold Lit
  rw [calls_append, List.getLast?_append]
  cases hlast : (calls o ys).getLast? with
  | none => exact absurd (List.getLast?_eq_none_iff.mp hlast) h
  | some on => simp

namespace Session

/-! ## Clearing -/

/-- Clearing says nothing about a script without live units that is not evaluated. -/
theorem calls_clear_eq_nil_iff {s : Session Origin} {o : Origin} :
    calls o s.clear.1 = [] ↔ (∀ u ∈ s.units.values, u.origin ≠ o) ∧ s.adhoc ≠ some o := by
  rw [calls_eq_nil_iff]
  constructor
  · intro h
    refine ⟨fun u hu ho => h false (mem_clear.mpr ⟨rfl, Or.inl ⟨u, hu, ho⟩⟩), fun ha => ?_⟩
    exact h false (mem_clear.mpr ⟨rfl, Or.inr ha⟩)
  · rintro ⟨hunits, hadhoc⟩ on hmem
    obtain ⟨-, ⟨u, hu, ho⟩ | ha⟩ := mem_clear.mp hmem
    · exact hunits u hu ho
    · exact hadhoc ha

/-- Clearing lights nothing. -/
theorem not_lit_clear (s : Session Origin) (o : Origin) : ¬ Lit o s.clear.1 := by
  intro h
  have hmem := mem_calls.mp (List.mem_of_getLast? h)
  exact absurd (mem_clear.mp hmem).1 (by simp)

/-! ## One operation -/

/-- What an operation can do to the light of a script. -/
inductive LightStep (s : Session Origin) (o : Origin) (op : Operation Origin) : Prop where
  | silent (hcalls : calls o (s.perform op).shown = [])
      (hadhoc : s.adhoc = some o → (s.perform op).session.adhoc = some o)
  | putOut (hcalls : calls o (s.perform op).shown ≠ []) (hdark : ¬ Lit o (s.perform op).shown)
  | evaluated (hadhoc : (s.perform op).session.adhoc = some o)
  | started {text data : String} {id : UnitId} (hop : op = .line text)
      (hline : Event.ofLine text = .threadStarted id data) (hid : s.registry.resolve id = some o)

theorem Dark.lightStep {s : Session Origin} {o : Origin} {op : Operation Origin}
    (h : s.Dark o (s.perform op)) : s.LightStep o op := by
  by_cases hcalls : calls o (s.perform op).shown = []
  · refine .silent hcalls fun ha => (h.2 ha).resolve_left ?_
    exact calls_eq_nil_iff.mp hcalls false
  · exact .putOut hcalls fun hlit => h.1 (mem_calls.mp (List.mem_of_getLast? hlit))

/-- A line lights a script only by the beginning of a unit. -/
theorem lightStep_line (s : Session Origin) (o : Origin) (text : String) :
    s.LightStep o (.line text) := by
  by_cases h : ∃ id data, Event.ofLine text = .threadStarted id data ∧
      s.registry.resolve id = some o
  · obtain ⟨id, data, hline, hid⟩ := h
    exact .started rfl hline hid
  · refine Dark.lightStep (s.handleEvent_dark o text ?_)
    exact fun id data hline hid => h ⟨id, data, hline, hid⟩

/-- Evaluating lights the script that is evaluated, and puts out the one before it. -/
theorem lightStep_evaluate (s : Session Origin) (o origin : Origin) (block : Block) :
    s.LightStep o (.evaluate origin block) := by
  rcases s.evaluate_cases origin block with ⟨e, he⟩ | ⟨line, ds, he⟩
  · refine Dark.lightStep ?_
    simp [perform, he, Dark]
  · by_cases ho : origin = o
    · refine .evaluated ?_
      simp only [perform, he]
      exact congrArg some ho
    · -- The script that was evaluated before is put out for the new one.
      refine Dark.lightStep ?_
      simp only [perform, he, Dark]
      cases ha : s.adhoc with
      | none => simp [showReports, lowlight, Ne.symm ho]
      | some o' => simp [showReports, lowlight, Ne.symm ho, eq_comm]

theorem lightStep_clears (s : Session Origin) (o : Origin) {op : Operation Origin}
    (hop : op.Clears) : s.LightStep o op := by
  obtain ⟨-, status, hshown⟩ := s.perform_of_clears hop
  refine Dark.lightStep ⟨?_, fun ha => Or.inl ?_⟩
  · rw [hshown]
    simp [mem_clear]
  · rw [hshown]
    simp [mem_clear, ha]

/-- Every operation does one of these. -/
theorem lightStep (s : Session Origin) (o : Origin) (op : Operation Origin) : s.LightStep o op := by
  cases op with
  -- Compiling shows no lights.
  | run scripts =>
    refine Dark.lightStep ?_
    cases hc : (s.compiled scripts).result with
    | error err => simp [perform, run_of_error hc, Dark]
    | ok units => simp [perform, run_of_ok hc, Dark, loaded, markReported, showReports]
  | evaluate origin block => exact s.lightStep_evaluate o origin block
  | stopAll => exact s.lightStep_clears o trivial
  | suspendAll | resumeAll | wakeUp =>
    refine Dark.lightStep ?_
    simp [perform, suspendAll, resumeAll, wakeUp, Dark]
  | removeChain origin =>
    refine Dark.lightStep ?_
    cases hid : s.registry.idOf origin with
    | none => simp [perform, removeChain_of_none hid, Dark]
    | some id =>
      simp only [perform, removeChain_of_some hid]
      exact ⟨by split <;> simp, fun ha => Or.inr ha⟩
  | linkFailed e =>
    cases e with
    | closed => exact s.lightStep_clears o trivial
    | writeContention _ | io _ | deviceUnresponsive =>
      refine Dark.lightStep ?_
      simp [perform, linkFailed, Dark]
  | line text => exact s.lightStep_line o text

/-! ## Whole runs -/

/-- The script was lit by a line about an id that it held, and nothing has been shown about its
light since. -/
structure LitBy (s : Session Origin) (o : Origin) (before : List (Operation Origin)) (text : String)
    (id : UnitId) (later : List (Operation Origin)) : Prop where
  line : ∃ data, Event.ofLine text = .threadStarted id data
  held : (s.after before).registry.resolve id = some o
  silent : ∀ on, .highlight o on ∉ ((s.after (before ++ [.line text])).shown later)

/-- The line itself changes nothing in the session. -/
theorem LitBy.after_line {s : Session Origin} {o : Origin} {before later : List (Operation Origin)}
    {text : String} {id : UnitId} (h : s.LitBy o before text id later) :
    s.after (before ++ [.line text]) = s.after before := by
  obtain ⟨data, hline⟩ := h.line
  rw [after_concat]
  exact congrArg Reply.session (handleLine_started hline h.held)

/-- A script that a line lit, with nothing said about it since, is lit. -/
theorem LitBy.lit {s : Session Origin} {o : Origin} {before later : List (Operation Origin)}
    {text : String} {id : UnitId} (h : s.LitBy o before text id later) :
    Lit o (s.shown (before ++ .line text :: later)) := by
  obtain ⟨data, hline⟩ := h.line
  have hsplit : before ++ .line text :: later = before ++ [.line text] ++ later := by simp
  rw [hsplit, shown_append, lit_append_of_silent (calls_eq_nil_iff.mpr h.silent), shown_concat]
  have hshown : ((s.after before).perform (.line text)).shown = [.highlight o true] :=
    congrArg Reply.shown (handleLine_started hline h.held)
  have hcalls : calls o [.highlight o true] = [true] := by simp [calls, Feedback.highlight?]
  rw [hshown, lit_append_of_calls (by simp [hcalls]), Lit, hcalls]
  rfl

/-- A script that is lit is evaluated, or was lit by a line. -/
theorem exists_litBy {s : Session Origin} {o : Origin} {ops : List (Operation Origin)}
    (h : Lit o (s.shown ops)) :
    (s.after ops).adhoc = some o ∨
      ∃ before text id later, ops = before ++ .line text :: later ∧
        s.LitBy o before text id later := by
  induction ops using List.reverseRecOn with
  | nil => exact absurd h (by simp [shown, Lit, calls])
  | append_singleton ops op ih =>
    rw [shown_concat] at h
    rw [after_concat]
    cases (s.after ops).lightStep o op with
    -- The operation says nothing about the script: what lit it before does so still.
    | silent hcalls hadhoc =>
      rcases ih ((lit_append_of_silent hcalls).mp h) with ha | ⟨before, text, id, later, rfl, hby⟩
      · exact Or.inl (hadhoc ha)
      · refine Or.inr ⟨before, text, id, later ++ [op], by simp, hby.line, hby.held, ?_⟩
        intro on hmem
        rw [shown_concat, ← after_append, List.append_assoc, List.mem_append] at hmem
        exact hmem.elim (hby.silent on) (calls_eq_nil_iff.mp hcalls on)
    | putOut hcalls hdark => exact absurd ((lit_append_of_calls hcalls).mp h) hdark
    | evaluated hadhoc => exact Or.inl hadhoc
    | @started text data id hop hline hid =>
      subst hop
      exact Or.inr ⟨ops, text, id, [], rfl, ⟨data, hline⟩, hid, by simp [shown]⟩

/-! ## Live units -/

/-- A live unit stays while nothing is shown about the light of its script. -/
theorem Runs.perform {s : Session Origin} {n : Nat} (hs : s.Bound n) {op : Operation Origin}
    (hn : n + op.chains ≤ UInt32.size) {id : UnitId} {o : Origin} (h : s.Runs id o)
    (hsilent : ∀ on, .highlight o on ∉ (s.perform op).shown) :
    (s.perform op).session.Runs id o := by
  have heff := s.perform_effect op
  generalize (s.perform op).session = s' at heff ⊢
  cases heff with
  | kept registry units upload =>
    refine ⟨?_, ?_⟩
    · rw [units]
      exact h.alive
    · rw [registry]
      exact h.held
  | failed hc =>
    exact ⟨h.alive, resolve_of_compileScripts_error hc hs.registry hs.exact hs.below hn h.held⟩
  | sent hc =>
    refine ⟨(contains_addUnits hs.units).mpr (Or.inl h.alive), ?_⟩
    exact (compileScripts_ok hc).resolve_of_some hs.registry hs.below
      (by rw [List.length_map]; exact hn) h.held
  | cleared hop =>
    obtain ⟨-, status, hshown⟩ := s.perform_of_clears hop
    refine absurd ?_ (hsilent false)
    rw [hshown, List.mem_append]
    exact Or.inl (mem_clear.mpr ⟨rfl, Or.inl (h.origin_mem hs)⟩)
  | cancelled => exact ⟨h.alive, h.held⟩
  | @released origin freed hfreed =>
    -- Had it been this script, its live unit would have made it show that it is put out.
    have hshown : (s.perform (.removeChain origin)).shown
        = if s.units.contains freed then [.highlight origin false] else [] := by
      simp only [Session.perform, removeChain_of_some hfreed]
    have hne : o ≠ origin := by
      rintro rfl
      obtain rfl := hs.registry.unique _ _ _ h.held (hs.exact _ _ hfreed)
      refine hsilent false ?_
      rw [hshown, if_pos h.alive]
      exact List.mem_cons_self
    refine ⟨(SortedMap.contains_erase hs.units).mpr ⟨?_, h.alive⟩,
      (hs.registry.resolve_freeOrigin hs.exact).mpr ⟨h.held, hne⟩⟩
    rintro rfl
    have hheld := hs.exact _ _ hfreed
    exact hne (Option.some.inj (h.held.symm.trans hheld))
  | stepped => exact ⟨h.alive, h.held⟩
  | @ended text data gone hline halive =>
    refine ⟨(SortedMap.contains_erase hs.units).mpr ⟨?_, h.alive⟩, h.held⟩
    rintro rfl
    refine hsilent false ?_
    have hshown := congrArg Reply.shown (handleLine_ended hline h.held)
    exact hshown ▸ List.mem_cons_self

theorem Runs.after {s : Session Origin} {n : Nat} (hs : s.Bound n) {ops : List (Operation Origin)}
    (hn : n + chainsRun ops ≤ UInt32.size) {id : UnitId} {o : Origin} (h : s.Runs id o)
    (hsilent : ∀ on, .highlight o on ∉ s.shown ops) : (s.after ops).Runs id o := by
  induction ops generalizing s n with
  | nil => exact h
  | cons op ops ih =>
    rw [chainsRun] at hn
    have hop : n + op.chains ≤ UInt32.size := by omega
    have hnow : ∀ on, .highlight o on ∉ (s.perform op).shown :=
      fun on hmem => hsilent on (List.mem_append_left _ hmem)
    have hlater : ∀ on, .highlight o on ∉ (s.perform op).session.shown ops :=
      fun on hmem => hsilent on (List.mem_append_right _ hmem)
    exact ih (hs.effect hop (s.perform_effect op)) (by omega) (h.perform hs hop hnow) hlater

/-- While ids have not wrapped, the script of a unit that was alive when a line lit it has a live
unit still. -/
theorem LitBy.origin_mem (board : Board) (settings : Settings) {o : Origin}
    {before later : List (Operation Origin)} {text : String} {id : UnitId}
    (h : (new board settings).LitBy o before text id later)
    (hn : chainsRun (before ++ .line text :: later) ≤ UInt32.size)
    (halive : ((new board settings).after before).units.contains id = true) :
    ∃ u ∈ ((new board settings).after (before ++ .line text :: later)).units.values,
      u.origin = o := by
  have hsum : chainsRun (before ++ .line text :: later) = chainsRun before + chainsRun later := by
    simp [chainsRun_append, chainsRun, Operation.chains]
  have hbound : ((new board settings).after before).Bound (0 + chainsRun before) :=
    (bound_new board settings).after (by omega)
  have hruns : ((new board settings).after before).Runs id o := ⟨halive, h.held⟩
  have hsplit : before ++ .line text :: later = before ++ [.line text] ++ later := by simp
  rw [hsplit, after_append, h.after_line]
  have hsilent := h.silent
  rw [h.after_line] at hsilent
  exact (hruns.after hbound (by omega) hsilent).origin_mem (hbound.after (by omega))

end Session

/-- Whatever was done in a session, after it has been cleared a script is still lit exactly if a
line lit it last, it has no live unit and is not being evaluated; and as long as ids have not
wrapped, the unit that the line was about was not alive then. -/
theorem lit_after_clearing_iff (board : Board) (settings : Settings) (ops : List (Operation Origin))
    (stop : Operation Origin) (hstop : stop.Clears) (o : Origin) :
    let s : Session Origin := Session.new board settings
    Lit o (s.shown (ops ++ [stop])) ↔
      (∃ before text id later, ops = before ++ .line text :: later ∧
        s.LitBy o before text id later ∧
        (chainsRun ops < UInt32.size → (s.after before).units.contains id = false)) ∧
      (∀ u ∈ (s.after ops).units.values, u.origin ≠ o) ∧ (s.after ops).adhoc ≠ some o := by
  intro s
  obtain ⟨-, status, hshown⟩ := (s.after ops).perform_of_clears hstop
  have hcalls : calls o ((s.after ops).perform stop).shown = calls o (s.after ops).clear.1 := by
    rw [hshown, calls_append]
    exact List.append_nil _
  rw [Session.shown_concat, ← Session.calls_clear_eq_nil_iff, ← hcalls]
  constructor
  · intro hlit
    -- Clearing only puts out, so a script that is lit afterwards was lit before and left alone.
    have hsilent : calls o ((s.after ops).perform stop).shown = [] := by
      by_cases hnil : calls o ((s.after ops).perform stop).shown = []
      · exact hnil
      · rw [lit_append_of_calls hnil, Lit, hcalls] at hlit
        exact absurd hlit (Session.not_lit_clear _ o)
    rw [lit_append_of_silent hsilent] at hlit
    have hgone := Session.calls_clear_eq_nil_iff.mp (hcalls.symm.trans hsilent)
    rcases Session.exists_litBy hlit with ha | ⟨before, text, id, later, rfl, hby⟩
    · exact absurd ha hgone.2
    · refine ⟨⟨before, text, id, later, rfl, hby, fun hn => ?_⟩, hsilent⟩
      cases halive : (s.after before).units.contains id with
      | false => rfl
      | true =>
        obtain ⟨u, hu, ho⟩ := hby.origin_mem board settings (Nat.le_of_lt hn) halive
        exact absurd ho (hgone.1 u hu)
  · rintro ⟨⟨before, text, id, later, rfl, hby, -⟩, hsilent⟩
    exact (lit_append_of_silent hsilent).mpr hby.lit

/-- A live unit is lit when its line comes, and put out when all is stopped. -/
theorem not_lit_after_stopping_alive :
    let s : Session Nat := Session.new .blank {}
    let ops : List (Operation Nat) :=
      [.run [(1, .mk "doStopThis" .command [] none)], .line "rc:0:"]
    (Operation.stopAll : Operation Nat).Clears ∧ Lit 1 (s.shown ops) ∧
      ¬ Lit 1 (s.shown (ops ++ [.stopAll])) := by
  intro s ops
  have hlit : Lit 1 (s.shown ops) := by decide +kernel
  have halive : ∃ u ∈ (s.after ops).units.values, u.origin = 1 := by decide +kernel
  refine ⟨trivial, hlit, ?_⟩
  intro hstill
  obtain ⟨-, hgone, -⟩ := (lit_after_clearing_iff .blank {} ops .stopAll trivial 1).mp hstill
  obtain ⟨u, hu, ho⟩ := halive
  exact hgone u hu ho

/-- A unit that has ended speaks up again, as the handler of a message does: its script is lit, and
stopping everything leaves it so. -/
theorem lit_after_stopping_ended :
    Lit 1 ((Session.new .blank {} : Session Nat).shown
      [.run [(1, .mk "doStopThis" .command [] none)], .line "rc:0:", .line "dc:0:",
        .line "rc:0:hello", .stopAll]) := by
  decide +kernel

end BlockLink
