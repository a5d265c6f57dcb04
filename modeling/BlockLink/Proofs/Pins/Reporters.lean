import BlockLink.Proofs.Lua.Template
import BlockLink.Proofs.Pins.Operands

/-!
# `BlockLink/Proofs/Pins/Reporters.lean` — eager reporters and the pins that they read

Each template runs its operands in the order that `Selector.order` gives for it
(`Template.runs_plain`); a block that reads a pin runs none of them, and then reads the pin. From
this the reading of a whole reporter follows over its syntax: its code reads the pins of
`Block.pins` and no others, and leads from what is remembered before it to what is remembered after
it (`Block.reads_of_gives`).
-/

set_option autoImplicit false

namespace BlockLink

open PinMark

/-! ## Templates -/

namespace Operands

variable {ops : Operands} {i : Nat} {c : Code}

variable (h : ∀ x ∈ ops.items, x.Straight)

include h

theorem runs_value (hc : ops.value i = .ok c) : Runs ops.items [i] c := by
  refine value_rec ?_ ?_ ?_ hc
  · intro s hs
    exact ⟨trivial, by simp [marksAt, hs, Operand.marks]⟩
  · intro s hs
    exact ⟨trivial, by simp [marksAt, hs, Operand.marks]⟩
  · intro d hd
    exact ⟨h _ (List.mem_of_getElem? hd), by simp [marksAt, hd, Operand.marks]⟩

theorem runs_number (hc : ops.number i = .ok c) : Runs ops.items [i] c := by
  refine number_rec ?_ (fun _ => runs_value h) hc
  intro s hs
  exact ⟨trivial, by simp [marksAt, hs, Operand.marks]⟩

theorem runs_string (hc : ops.string i = .ok c) : Runs ops.items [i] c := by
  refine string_rec ?_ ?_ hc
  · intro s hs
    exact ⟨trivial, by simp [marksAt, hs, Operand.marks]⟩
  · intro v hv
    exact ((Runs.text _).append (runs_value h hv)).append (.text _)

theorem runs_level (hc : Template.level ops = .ok c) : Runs ops.items [1] c := by
  refine level_rec ?_ ?_ hc
  · intro s hs
    split
    all_goals exact ⟨trivial, by simp [marksAt, hs, Operand.marks]⟩
  · intro v hv
    exact Runs.call "_d" (.cons (runs_value h hv) .nil)

end Operands

/-- A block whose code is straight and depends on nothing but its operands. -/
def Selector.isDirect : Selector → Bool
  | .doStopThis | .doStopAll | .doReport | .doSetVar | .doChangeVar | .addListItem | .deleteListItem
  | .insertListItem | .replaceListItem => true
  | .getPinDigital | .getPinAnalog => false
  | selector => selector.isEager

namespace Template

variable {board : Board} {ctx : Context} {items : List Operand}
  {forms : List OperandForm} {c : Code}

theorem runs_joinWords {is : List Nat} {cs : List Code}
    (h : List.Forall₂ (fun i c => Runs items [i] c) is cs) : Runs items is (joinWords cs) := by
  cases h with
  | nil => exact .text _
  | cons hc hcs =>
    have hwords := ((Runs.text "(").append (Runs.join " .. " (.cons hc hcs))).append (.text ")")
    rw [List.append_nil] at hwords
    exact hwords

theorem runs_newList {is : List Nat} {cs : List Code}
    (h : List.Forall₂ (fun i c => Runs items [i] c) is cs) : Runs items is (newList cs) := by
  cases h with
  | nil => exact .text _
  | @cons i c is cs hc hcs =>
    have hlist := (((Runs.text "\x7b").append (Runs.join ", " (.cons hc hcs))).append
      (.text ", length = ")).append (.text (Nat.repr (c :: cs).length)) |>.append (.text "\x7d")
    simp only [List.append_nil] at hlist
    exact hlist

/-- The function is picked from a menu, and its argument is the second operand. -/
theorem runs_monadic {ops : Operands} (h : ∀ x ∈ ops.items, x.Straight) (hc : monadic ops = .ok c) :
    Runs ops.items [1] c := by
  obtain ⟨x, -, hc⟩ := exists_of_bind_eq_ok hc
  cases x with
  | literal s =>
    obtain ⟨operand, hoperand, hc⟩ := exists_of_bind_eq_ok hc
    split at hc
    · cases hc
      exact ((((Runs.text _).append (.text _)).append (Operands.runs_number h hoperand)).append
        (.text _)).append
        (.text _)
    · cases hc
  | name s | expression code | script code => cases hc

theorem runs_binary {i j : Nat} {a b : Code} (ha : Runs items [i] a) (operator : String)
    (hb : Runs items [j] b) : Runs items [i, j] (binary a operator b) :=
  ((((((Runs.text _).append ha).append (.text _)).append (.text _)).append (.text _)).append
    hb).append (.text _)

/-- The code of a block runs the operands in the order of its template. -/
theorem runs_plain {selector : Selector} (hsel : selector.isDirect = true)
    (h : ∀ x ∈ items, x.Straight) (hlength : forms.length = items.length)
    (hc : plain ctx ⟨selector, items⟩ = .ok c) : Runs items (selector.order board forms) c := by
  have hvalue : ∀ {i c}, Operands.value ⟨selector, items⟩ i = .ok c → Runs items [i] c :=
    Operands.runs_value h
  have hnumber : ∀ {i c}, Operands.number ⟨selector, items⟩ i = .ok c → Runs items [i] c :=
    Operands.runs_number h
  have hstring : ∀ {i c}, Operands.string ⟨selector, items⟩ i = .ok c → Runs items [i] c :=
    Operands.runs_string h
  -- One case for each template: its pieces in order, and what each of them runs.
  cases selector with
  | doStopThis | doStopAll | reportTrue | reportFalse =>
    cases hc
    exact .text _
  | doReport =>
    obtain ⟨value, hv, hc⟩ := exists_of_bind_eq_ok hc
    cases hc
    exact ((Runs.text _).append (hvalue hv)).append (.text _)
  | doSetVar =>
    obtain ⟨name, -, hc⟩ := exists_of_bind_eq_ok hc
    obtain ⟨value, hv, hc⟩ := exists_of_bind_eq_ok hc
    cases hc
    exact ((Runs.text _).append (hvalue hv)).append (.text _)
  | doChangeVar =>
    obtain ⟨name, -, hc⟩ := exists_of_bind_eq_ok hc
    obtain ⟨change, hv, hc⟩ := exists_of_bind_eq_ok hc
    cases hc
    exact ((Runs.text _).append (hnumber hv)).append (.text _)
  | reportSum | reportDifference | reportProduct | reportQuotient | reportModulus =>
    obtain ⟨a, ha, hc⟩ := exists_of_bind_eq_ok hc
    obtain ⟨b, hb, hc⟩ := exists_of_bind_eq_ok hc
    cases hc
    exact runs_binary (hnumber ha) _ (hnumber hb)
  | reportLessThan | reportEquals | reportGreaterThan =>
    obtain ⟨a, ha, hc⟩ := exists_of_bind_eq_ok hc
    obtain ⟨b, hb, hc⟩ := exists_of_bind_eq_ok hc
    cases hc
    exact runs_binary (hvalue ha) _ (hvalue hb)
  | reportMonadic => exact runs_monadic h hc
  | reportRandom =>
    obtain ⟨a, ha, hc⟩ := exists_of_bind_eq_ok hc
    obtain ⟨b, hb, hc⟩ := exists_of_bind_eq_ok hc
    cases hc
    exact .call _ (.cons (hnumber ha) (.cons (hnumber hb) .nil))
  | reportNot =>
    obtain ⟨a, ha, hc⟩ := exists_of_bind_eq_ok hc
    cases hc
    exact ((Runs.text _).append (hvalue ha)).append (.text _)
  | reportJoinWords =>
    obtain ⟨words, hwords, hc⟩ := exists_of_bind_eq_ok hc
    cases hc
    show Runs items (List.range forms.length) _
    rw [hlength]
    exact runs_joinWords ((Operands.forall₂_of_mapM hwords).imp fun _ _ => hstring)
  | reportGetVar =>
    obtain ⟨name, -, hc⟩ := exists_of_bind_eq_ok hc
    cases hc
    exact .text _
  | reportNewList =>
    obtain ⟨values, hvalues, hc⟩ := exists_of_bind_eq_ok hc
    cases hc
    show Runs items (List.range forms.length) _
    rw [hlength, List.range_eq_range']
    exact runs_newList ((Operands.forall₂_of_mapM hvalues).imp fun _ _ => hvalue)
  | reportListLength =>
    obtain ⟨a, ha, hc⟩ := exists_of_bind_eq_ok hc
    cases hc
    exact .call _ (.cons (hvalue ha) .nil)
  | reportListItem | reportListContainsItem =>
    obtain ⟨a, ha, hc⟩ := exists_of_bind_eq_ok hc
    obtain ⟨b, hb, hc⟩ := exists_of_bind_eq_ok hc
    cases hc
    exact .call _ (.cons (hvalue ha) (.cons (hvalue hb) .nil))
  | addListItem | deleteListItem =>
    obtain ⟨a, ha, hc⟩ := exists_of_bind_eq_ok hc
    obtain ⟨b, hb, hc⟩ := exists_of_bind_eq_ok hc
    cases hc
    exact (Runs.call _ (.cons (hvalue ha) (.cons (hvalue hb) .nil))).append (.text _)
  | insertListItem | replaceListItem =>
    obtain ⟨a, ha, hc⟩ := exists_of_bind_eq_ok hc
    obtain ⟨b, hb, hc⟩ := exists_of_bind_eq_ok hc
    obtain ⟨d, hd, hc⟩ := exists_of_bind_eq_ok hc
    cases hc
    exact (Runs.call _ (.cons (hvalue ha) (.cons (hvalue hb) (.cons (hvalue hd) .nil)))).append
      (.text _)
  | _ => exact absurd hsel (by decide)

theorem emit_of_isDirect {selector : Selector} (hsel : selector.isDirect = true) :
    emit board ctx ⟨selector, items⟩ = liftM (plain ctx ⟨selector, items⟩) := by
  cases selector <;> first | rfl | exact absurd hsel (by decide)

/-- A block looks for the pin that its first operand names. -/
theorem ownPin?_of_resolvePin {selector : Selector} {mode : PinMode}
    (hmode : selector.pinMode? = some mode) {m m' : PinMemory} (hfit : Fit m forms items m')
    {s t : CompileState} {r : Option (Pin × String)}
    (h : (resolvePin board ⟨selector, items⟩ mode).Gives s r t) :
    selector.ownPin? board forms = r.map (·.1) ∧ t.pins = s.pins := by
  cases hfit with
  | typed text rest =>
    obtain ⟨u, hgives, hpins⟩ := gives_resolvePin board s selector text _ mode
    obtain ⟨rfl, rfl⟩ : r = board.pinNamed? mode text ∧ t = u := by
      have hboth := h.symm.trans hgives
      exact ⟨Except.ok.inj (Prod.mk.inj hboth).1, (Prod.mk.inj hboth).2⟩
    exact ⟨by simp [Selector.ownPin?, hmode], hpins⟩
  | nil m | name text rest | expression first rest =>
    -- Without a typed first operand there is no pin to be found.
    unfold resolvePin at h
    cases hpinout : board.pinout <;>
      simp [hpinout, Operands.pin, Operands.get] at h
    all_goals
      try obtain ⟨rfl, rfl⟩ := h
      simp [Selector.ownPin?]

end Template

/-! ## Reporters -/

namespace Reads

variable {c d : Code} {pins more : List Pin} {m m₁ m₂ : PinMemory}

theorem congr (h : Reads c pins m m₁) (hstraight : d.Straight) (hmarks : d.marks = c.marks) :
    Reads d pins m m₁ where
  straight := hstraight
  sorted := h.sorted
  keeps := by rw [hmarks]; exact h.keeps
  off := by rw [hmarks]; exact h.off
  uses := by rw [hmarks]; exact h.uses
  reading := by rw [hmarks]; exact h.reading

/-- Code that reads and then reads more. -/
theorem append (hc : Reads c pins m m₁) (hd : Reads d more m₁ m₂) :
    Reads (c ++ d) (pins ++ more) m m₂ where
  straight := ⟨hc.straight, hd.straight⟩
  sorted := fun hm => hd.sorted (hc.sorted hm)
  keeps := fun p => (hc.keeps p).append (hd.keeps p)
  off := by
    intro p hp
    rw [List.mem_append, not_or] at hp
    obtain ⟨hon, hget⟩ := hc.off p hp.1
    obtain ⟨hon', hget'⟩ := hd.off p hp.2
    rw [Code.marks_append, on_append, hon, hon', hget', hget]
    exact ⟨rfl, rfl⟩
  uses := by
    intro p hp
    rcases List.mem_append.mp hp with hp | hp
    · obtain ⟨mode, hmode⟩ := hc.uses p hp
      exact ⟨mode, List.mem_append_left _ hmode⟩
    · obtain ⟨mode, hmode⟩ := hd.uses p hp
      exact ⟨mode, List.mem_append_right _ hmode⟩
  reading := by
    intro mark hmark
    rcases List.mem_append.mp hmark with hmark | hmark
    · exact hc.reading mark hmark
    · exact hd.reading mark hmark

end Reads

theorem straight_readPin (m : PinMemory) (pin : Pin) (name : String) (mode : PinMode) :
    (Template.readPin (Code.guard? m pin mode (Template.setup pin name mode)) pin name
      mode).Straight := by
  unfold Code.guard?
  split
  · trivial
  · exact ⟨⟨⟨⟨trivial, trivial⟩, trivial⟩, trivial⟩, trivial⟩

/-- A reading reads its pin, which is then remembered. -/
theorem reads_readPin {m : PinMemory} (hm : m.Sorted) (pin : Pin) (name : String) {mode : PinMode}
    (hmode : mode.isReading = true) :
    Reads (Template.readPin (Code.guard? m pin mode (Template.setup pin name mode)) pin name mode)
      [pin] m (m.insert pin mode) := by
  have hmarks := (used_readPin hm pin name mode).marks
  -- All marks are on the pin, and in the one mode.
  have hon : ∀ mark ∈ marksOf m.get? (some (pin, mode)), mark.pin = pin ∧ mark.mode = mode := by
    intro mark hmark
    rw [marksOf, List.mem_append, List.mem_singleton] at hmark
    rcases hmark with hmark | rfl
    · split at hmark
      · cases hmark
      · rw [List.mem_singleton.mp hmark]
        exact ⟨rfl, rfl⟩
    · exact ⟨rfl, rfl⟩
  refine ⟨straight_readPin m pin name mode, fun hm => hm.insert pin mode, ?_, ?_, ?_, ?_⟩
  · intro p
    rw [hmarks]
    exact keepsAt_marksOf hm pin mode p
  · intro p hp
    have hne : p ≠ pin := by simpa using hp
    rw [hmarks, SortedMap.get?_insert hm, if_neg hne]
    exact ⟨on_eq_nil.mpr fun mark hmark heq => hne (heq.symm.trans (hon mark hmark).1), rfl⟩
  · intro p hp
    rw [List.mem_singleton] at hp
    rw [hmarks, hp]
    exact ⟨mode, List.mem_append_right _ (List.mem_singleton.mpr rfl)⟩
  · intro mark hmark
    rw [hmarks] at hmark
    rw [(hon mark hmark).2]
    exact hmode

section Recursion

variable {board : Board} {ctx : Context}

/-- A block that reads a pin reads those of its operands, which it does not run, and its own. -/
theorem reads_readBlock {selector : Selector} {mode : PinMode}
    (hsel : selector.pinMode? = some mode) (hmode : mode.isReading = true) {m : PinMemory}
    {forms : List OperandForm} {items : List Operand} {t u : CompileState}
    (hfit : Fit m forms items t.pins) (ht : t.pins.Sorted) (horder : inOrder forms [] = true)
    {own : Code} (hown : (Template.readBlock board ⟨selector, items⟩ mode).Gives t own u) :
    Reads own (forms.flatMap OperandForm.pins ++ (selector.ownPin? board forms).toList) m
      u.pins := by
  -- The operands are not run, so they must not use a pin.
  have hnone : Reads (.text "") (forms.flatMap OperandForm.pins) m t.pins :=
    hfit.reads (.text "") horder
  unfold Template.readBlock at hown
  obtain ⟨r, v, hr, hown⟩ := CompileM.gives_bind.mp hown
  obtain ⟨hpin, hpins⟩ := Template.ownPin?_of_resolvePin hsel hfit hr
  rw [hpin]
  cases r with
  | none =>
    obtain ⟨rfl, rfl⟩ := CompileM.gives_pure.mp hown
    rw [hpins, Option.map_none, Option.toList_none, List.append_nil]
    exact hnone.congr trivial rfl
  | some named =>
    obtain ⟨guard, w, hguard, hown⟩ := CompileM.gives_bind.mp hown
    obtain ⟨rfl, rfl⟩ := CompileM.gives_requireMode.mp hguard
    obtain ⟨rfl, rfl⟩ := CompileM.gives_pure.mp hown
    rw [← hpins] at hnone ht
    have hread := reads_readPin ht named.1 named.2 hmode
    exact (hnone.append hread).congr hread.straight rfl

theorem Selector.isDirect_of_isEager {selector : Selector} (h : selector.isEager = true) :
    selector.isDirect = true ∨ selector = .getPinDigital ∨ selector = .getPinAnalog := by
  cases selector with
  | getPinDigital => exact .inr (.inl rfl)
  | getPinAnalog => exact .inr (.inr rfl)
  | _ => exact .inl (by first | exact h | exact absurd h (by decide))

theorem Selector.ownPin?_of_isDirect {selector : Selector} (h : selector.isDirect = true)
    (forms : List OperandForm) : selector.ownPin? board forms = none := by
  have hmode : selector.pinMode? = none := by
    cases selector <;> first | rfl | exact absurd h (by decide)
  unfold Selector.ownPin?
  split
  · rw [hmode, Option.bind_none]
  · rfl

/-- An eager reporter waits for nothing, and none of its operands may be skipped. -/
theorem Selector.isEager_spec {selector : Selector} (h : selector.isEager = true) :
    selector.yields = false ∧ selector ≠ .subscribeToMqttMessage ∧
      ∀ index, Slot.mayBeSkipped selector index = false := by
  cases selector <;> first | exact absurd h (by decide) | exact ⟨rfl, by decide, fun _ => rfl⟩

/-- Any eager reporter reads what its operands read and, if it reads a pin itself, that pin behind
them. -/
theorem reads_emit {selector : Selector} (hsel : selector.isEager = true) {m : PinMemory}
    {forms : List OperandForm} {items : List Operand} {t u : CompileState}
    (hfit : Fit m forms items t.pins) (ht : t.pins.Sorted)
    (horder : inOrder forms (selector.order board forms) = true) {own : Code}
    (hown : (Template.emit board ctx ⟨selector, items⟩).Gives t own u) :
    Reads own (forms.flatMap OperandForm.pins ++ (selector.ownPin? board forms).toList) m
      u.pins := by
  rcases Selector.isDirect_of_isEager hsel with hdirect | rfl | rfl
  · rw [Template.emit_of_isDirect hdirect] at hown
    obtain ⟨hplain, rfl⟩ := CompileM.gives_lift.mp hown
    rw [Selector.ownPin?_of_isDirect hdirect, Option.toList_none, List.append_nil]
    exact hfit.reads (Template.runs_plain hdirect hfit.straight hfit.length_eq hplain) horder
  · exact reads_readBlock rfl rfl hfit ht horder hown
  · exact reads_readBlock rfl rfl hfit ht horder hown

mutual

/-- The code of an eager reporter leads from what is remembered before it to what is remembered
after it. -/
theorem Block.reads_of_gives : ∀ (b : Block), b.isEager = true →
    b.parts.all (·.runsInOrder board) = true → ∀ {s s' : CompileState} {code : Code},
    s.pins.Sorted →
      (b.compile board ctx).Gives s code s' → Reads code (b.pins board) s.pins s'.pins
  | .mk name kind inputs next, hb, horder, s, s', code, hs, hgives => by
    rw [Block.isEager, Bool.and_eq_true, Bool.and_eq_true, Option.any_eq_true] at hb
    obtain ⟨⟨⟨selector, hname, hsel⟩, hinputs⟩, hnext⟩ := hb
    obtain rfl := Option.isNone_iff_eq_none.mp hnext
    rw [Block.parts, List.all_cons, List.all_append, Bool.and_eq_true, Bool.and_eq_true] at horder
    obtain ⟨hown, hparts, -⟩ := horder
    obtain ⟨hyields, hsub, hskip⟩ := Selector.isEager_spec hsel
    obtain ⟨items, t, own, u, rest, hitems, hemit, hrest, rfl⟩ :=
      (Block.gives_compile hname hsub).mp hgives
    rw [hyields] at hitems hemit
    obtain ⟨rfl, rfl⟩ := Block.gives_compileBelow_none.mp hrest
    have hfit := Slot.fits_of_gives inputs hinputs hparts hskip hs hitems
    rw [Block.runsInOrder, hname] at hown
    have hreads := reads_emit hsel hfit (hfit.sorted hs) hown hemit
    rw [Block.pins, hname]
    exact hreads.congr ⟨hreads.straight, trivial⟩ (List.append_nil _)

/-- A slot of eager reporters fits what is remembered before and after it. -/
theorem Slot.fit_of_gives : ∀ (slot : Slot), slot.isEager = true →
    slot.parts.all (·.runsInOrder board) = true → ∀ {selector : Selector} {index : Nat}
      {items : List Operand} {s s' : CompileState},
      (∀ index, Slot.mayBeSkipped selector index = false) → s.pins.Sorted →
        (slot.compile board ctx selector index).Gives s items s' →
          Fit s.pins (slot.forms board) items s'.pins
  | .literal text, _, _, _, _, _, _, _, _, _, hgives => by
    obtain ⟨rfl, rfl⟩ := Slot.gives_literal.mp hgives
    exact .typed text (.nil _)
  | .upvar name, _, _, _, _, _, _, _, _, _, hgives => by
    obtain ⟨rfl, rfl⟩ := Slot.gives_upvar.mp hgives
    exact .name name (.nil _)
  | .script body, heager, _, _, _, _, _, _, _, _, _ => absurd heager (by simp [Slot.isEager])
  | .reporter block, heager, horder, _, _, _, _, _, hskip, hs, hgives => by
    obtain ⟨code, hcode, rfl⟩ := (Slot.gives_reporter (hskip _)).mp hgives
    rw [Slot.isEager] at heager
    rw [Slot.parts] at horder
    exact .expression (Block.reads_of_gives block heager horder hs hcode) (.nil _)
  | .variadic slots, heager, horder, _, _, _, _, _, hskip, hs, hgives => by
    rw [Slot.isEager] at heager
    rw [Slot.parts] at horder
    rw [Slot.compile] at hgives
    rw [Slot.forms]
    exact Slot.fits_of_gives slots heager horder hskip hs hgives

theorem Slot.fits_of_gives : ∀ (slots : List Slot), Slot.areEager slots = true →
    (Slot.partsOf slots).all (·.runsInOrder board) = true → ∀ {selector : Selector} {index : Nat}
      {items : List Operand} {s s' : CompileState},
      (∀ index, Slot.mayBeSkipped selector index = false) → s.pins.Sorted →
        (Slot.compileList board ctx selector index slots).Gives s items s' →
          Fit s.pins (Slot.formsOf board slots) items s'.pins
  | [], _, _, _, _, _, _, _, _, _, hgives => by
    obtain ⟨rfl, rfl⟩ := Slot.gives_nil.mp hgives
    exact .nil _
  | slot :: rest, heager, horder, _, _, _, _, _, hskip, hs, hgives => by
    rw [Slot.areEager, Bool.and_eq_true] at heager
    rw [Slot.partsOf, List.all_append, Bool.and_eq_true] at horder
    obtain ⟨first, t, others, hfirst, hothers, rfl⟩ := Slot.gives_cons.mp hgives
    have hfit := Slot.fit_of_gives slot heager.1 horder.1 hskip hs hfirst
    rw [Slot.formsOf]
    exact hfit.append (Slot.fits_of_gives rest heager.2 horder.2 hskip (hfit.sorted hs) hothers)

end

end Recursion

end BlockLink
