import BlockLink.Proofs.Pins.Text

/-!
# `BlockLink/Proofs/Pins/Safety.lean` — the guards in a script are enough

Two families of scripts compile to code that never uses a pin in a mode that the board's table does
not have for it (`Code.Safe`): scripts whose operands are typed in (`PinTree`), always, and scripts
whose operands are computed (`EagerChain`), exactly if no write reads its own pin for the level.

Safety is about the labels of the code. What runs on a board is the text, and on a board that was
checked the two are the same: what is read off the text is what the labels say (`Code.MatchesText`).
On a board that was not checked they need not be. The name of a pin is written into the code as it
is, so it can close the call that it stands in, and let other scripts run where the compiler
remembers a mode.
-/

set_option autoImplicit false

namespace BlockLink

open BlockLink.Text BlockLink.Lua

/-! ## The text of a script -/

/-- One use of a pin, in front of what follows it. -/
theorem PinUse.eagerChain (u : PinUse) {next : Option Block} (hnext : EagerChain next) :
    EagerChain (some (u.block next)) := by
  cases u with
  | write kind analog pin level =>
    cases analog with
    | false => exact .command (Selector.ofName?_name .setPinDigital) rfl kind rfl hnext
    | true => exact .command (Selector.ofName?_name .setPinAnalog) rfl kind rfl hnext
  | read kind inner analog bound target pin =>
    refine .command (Selector.ofName?_name .doSetVar) rfl kind ?_ hnext
    have hreading : (Selector.ofName? (if analog then "getPinAnalog" else "getPinDigital")).any
        (·.isEager) = true := by cases analog <;> decide
    cases bound <;> simpa [Slot.areEager, Slot.isEager, Block.isEager] using hreading

/-- A script with typed operands is one with computed operands. -/
theorem PinTree.eagerChain (tree : PinTree) : EagerChain tree.block := by
  induction tree with
  | done => exact .done
  | use u next ih => exact u.eagerChain ih
  | wait kind seconds next ih =>
    exact .command (Selector.ofName?_name .doWait) rfl kind
      (by simp [Slot.areEager, Slot.isEager]) ih
  | forever kind body next ihbody ih =>
    exact .forever (Selector.ofName?_name .doForever) kind ihbody ih
  | repeated kind count body next ihbody ih =>
    exact .repeated (Selector.ofName?_name .doRepeat) kind (by simp [Slot.isEager]) rfl ihbody ih
  | ifThen kind condition yes next ihyes ih =>
    exact .ifThen (Selector.ofName?_name .doIf) kind (by simp [Slot.isEager]) rfl ihyes ih
  | ifElse kind condition yes no next ihyes ihno ih =>
    exact .ifElse (Selector.ofName?_name .doIfElse) kind (by simp [Slot.isEager]) rfl ihyes ihno ih

/-- On a checked board the text of a script has the signs of its labels. -/
theorem EagerChain.matchesText {board : Board} {ctx : Context} {b : Option Block} (h : EagerChain b)
    {s s' : CompileState} {code : Code} (hgives : (Block.compileBelow board ctx b).Gives s code s')
    (hcheck : board.check = .ok board) : code.MatchesText board := by
  obtain ⟨hproper, hplain⟩ := h.proper
  have hreads := Block.readsScript_of_gives_below (Board.namesTold hcheck) b hproper hplain hgives
  exact hreads.matchesText

/-! ## Typed operands -/

/-- A script that uses pins compiles from an empty memory to code that uses the same pins, and each
only in the mode that the board's table then has for it, whatever the table is at the start,
whichever way the branches and loops go and whatever other scripts do at the pauses. On a checked
board this is what the text of the code does. In a chain without nesting exactly those uses are
guarded whose pin was not used before or was last used in another mode. -/
theorem guards_sufficient (board : Board) (ctx : Context) (reported : List Diagnostic)
    (tree : PinTree) (b : Block) (hb : tree.block = some b) :
    ∃ code s', (b.compile board ctx).run.run ⟨.empty, reported⟩ = (.ok code, s') ∧ code.Safe ∧
      (board.check = .ok board → code.MatchesText board) ∧
      code.accesses = tree.accesses board ∧
      ∀ uses, tree = .flat uses →
        code.marks = guardMarks [] (uses.filterMap (·.access? board)) := by
  have hempty : (SortedMap.empty : PinMemory).Sorted := SortedMap.sorted_empty
  obtain ⟨code, s', hgives, hcode⟩ :=
    tree.exists_compiled board ctx ⟨.empty, reported⟩ hempty
  refine ⟨code, s', ?_, hcode.keeps.safe, tree.eagerChain.matchesText hgives, hcode.accesses, ?_⟩
  · rw [hb, Block.compileBelow_some] at hgives
    exact hgives
  · rintro uses rfl
    obtain ⟨code', s'', hgives', hmarks⟩ :=
      PinTree.exists_marks_flat board ctx uses ⟨.empty, reported⟩ hempty [] fun _ => rfl
    rw [hgives.unique hgives', hmarks]

/-- A pin is written twice, read in a branch and written again behind a wait, round and round; and
in a chain it is written twice, read, and written again, where only the second write needs no guard.
Both texts can be read. -/
theorem guards_sufficient_onePin :
    (∃ b code s', (PinTree.forever .command (.use (.write .command false "2" "1") (.use
        (.write .command false " 2 " "0") (.ifThen .command "true" (.use
          (.read .command .reporter false true "x" "2") .done) (.wait .command "1" (.use
            (.write .command false "2" "1") .done))))) .done).block = some b ∧
      (b.compile onePinBoard ⟨.adhoc, true⟩).run.run .initial = (.ok code, s') ∧ code.Safe ∧
      signs? code.render = some (code.signs onePinBoard) ∧
      code.accesses = [(2, .output), (2, .output), (2, .input), (2, .output)]) ∧
    ∃ b code s', (PinTree.flat [.write .command false "2" "1", .write .command false "2" "0",
        .read .command .reporter false true "x" "2", .write .command false "2" "1"]).block
          = some b ∧
      (b.compile onePinBoard ⟨.adhoc, true⟩).run.run .initial = (.ok code, s') ∧
      signs? code.render = some (code.signs onePinBoard) ∧
      code.marks = [.guard 2 .output, .access 2 .output, .access 2 .output, .guard 2 .input,
        .access 2 .input, .guard 2 .output, .access 2 .output] := by
  have hcheck : onePinBoard.check = .ok onePinBoard := by decide +kernel
  have hnames : onePinBoard.hasReadableNames = true := by decide +kernel
  constructor
  · obtain ⟨code, s', hrun, hsafe, htext, huses, -⟩ := guards_sufficient onePinBoard
      ⟨.adhoc, true⟩ []
      (.forever .command (.use (.write .command false "2" "1") (.use
        (.write .command false " 2 " "0") (.ifThen .command "true" (.use
          (.read .command .reporter false true "x" "2") .done) (.wait .command "1" (.use
            (.write .command false "2" "1") .done))))) .done) _ rfl
    exact ⟨_, code, s', rfl, hrun, hsafe, (htext hcheck).2 hnames, huses.trans (by decide +kernel)⟩
  · obtain ⟨code, s', hrun, -, htext, -, hmarks⟩ := guards_sufficient onePinBoard ⟨.adhoc, true⟩ []
      (.flat [.write .command false "2" "1", .write .command false "2" "0",
        .read .command .reporter false true "x" "2", .write .command false "2" "1"]) _ rfl
    exact ⟨_, code, s', rfl, hrun, (htext hcheck).2 hnames, (hmarks _ rfl).trans
      (by decide +kernel)⟩

/-- A board on which the name of the second pin closes the call that it is written into, and the
guard around that, lets other scripts run, and hides the rest of its line. -/
def pausingBoard : Board :=
  ⟨"", some { Pinout.empty with
    digitalOutput := ⟨[(2, "P2"), (3, "P3) cfg.p[3] = 0 end c.yield() --")]⟩ }, none⟩

/-- What the text of the script below does on that board. -/
def pausedWrites : Code :=
  .guard 2 .output "" ++ .access 2 .output "" ++ .guard 3 .output ""
    ++ (.pause ++ .access 2 .output "")

/-- Behind a pause a pin may be in no mode. -/
theorem Code.fails_pause_access (pin : Pin) (mode : PinMode) (s : String) :
    (Code.pause ++ Code.access pin mode s).Fails := by
  intro k t
  refine ⟨⟨.access pin mode s :: k, fun _ => none⟩, .head .seq (.single (.pause _)),
    fun hmode => ?_⟩
  cases hmode pin mode s k rfl

/-- On a board that was not checked the labels of code are not what its text does. Between two
writes of one pin another one is written, whose name lets other scripts run there. The second write
has no guard: the labels are safe, and the text is not. -/
theorem pin_name_pauses_script :
    pausingBoard.check ≠ .ok pausingBoard ∧
    ∃ b code s', (PinTree.flat [.write .command false "2" "1", .write .command false "3" "1",
        .write .command false "2" "0"]).block = some b ∧
      (b.compile pausingBoard ⟨.adhoc, true⟩).run.run .initial = (.ok code, s') ∧ code.Safe ∧
      signs? code.render = some (pausedWrites.signs pausingBoard) ∧ ¬ pausedWrites.Safe := by
  refine ⟨by decide +kernel, ?_⟩
  obtain ⟨code, s', hgives, hcode⟩ := PinTree.exists_compiled pausingBoard ⟨.adhoc, true⟩
    (.flat [.write .command false "2" "1", .write .command false "3" "1",
      .write .command false "2" "0"]) .initial SortedMap.sorted_empty
  obtain ⟨code', s'', hrun, hsigns⟩ := exists_of_toOption_any
    (q := fun c => decide (signs? c.render = some (pausedWrites.signs pausingBoard)))
    (r := (Block.compileBelow pausingBoard ⟨.adhoc, true⟩ (PinTree.flat
      [.write .command false "2" "1", .write .command false "3" "1",
        .write .command false "2" "0"]).block).run.run .initial) (by decide +kernel)
  obtain rfl : code' = code := CompileM.Gives.unique hrun hgives
  exact ⟨_, code', s'', rfl, hrun, hcode.keeps.safe, of_decide_eq_true hsigns,
    ((Code.fails_pause_access 2 .output "").append_right _).not_safe⟩

/-! ## Computed operands -/

/-- The code of a script of eager blocks that run the operands using a pin in the order in which
they stand is safe exactly if none of its writes reads its own pin for the level. On a checked board
this is what the text of the code does. -/
theorem safe_iff_writes_spare_own_pin (board : Board) (ctx : Context) (reported : List Diagnostic)
    (b : Block) (hb : EagerChain (some b)) (horder : b.parts.all (·.runsInOrder board) = true)
    (code : Code) (s' : CompileState)
    (hcode : (b.compile board ctx).run.run ⟨.empty, reported⟩ = (.ok code, s')) :
    (code.Safe ↔ b.parts.all (·.sparesOwnPin board) = true) ∧
      (board.check = .ok board → code.MatchesText board) := by
  have hgives : (Block.compileBelow board ctx (some b)).Gives ⟨.empty, reported⟩ code s' := by
    rw [Block.compileBelow_some]
    exact hcode
  rw [← Block.partsBelow] at horder ⊢
  exact ⟨hb.safe_iff horder hgives, hb.matchesText hgives⟩

/-- Whenever two pins agree, one of them is set to what the other is not, over and over. -/
theorem safe_iff_writes_spare_own_pin_twoPins :
    ∃ code s', ((Block.mk "doForever" .command [.script (some (.mk "doIf" .command
        [.reporter (.mk "reportEquals" .reporter [pinReading "2", pinReading "3"] none),
          .script (some (.mk "setPinDigital" .command [.literal "3",
            .reporter (.mk "reportNot" .reporter [pinReading "2"] none)] none))] none))]
              none).compile
        twoPinBoard ⟨.adhoc, true⟩).run.run .initial = (.ok code, s') ∧ code.Safe ∧
      signs? code.render = some (code.signs twoPinBoard) := by
  obtain ⟨code, s', hcode, -⟩ := exists_of_toOption_any (q := fun _ => true)
    (r := ((Block.mk "doForever" .command [.script (some (.mk "doIf" .command
        [.reporter (.mk "reportEquals" .reporter [pinReading "2", pinReading "3"] none),
          .script (some (.mk "setPinDigital" .command [.literal "3",
            .reporter (.mk "reportNot" .reporter [pinReading "2"] none)] none))] none))]
              none).compile
        twoPinBoard ⟨.adhoc, true⟩).run.run .initial) (by decide +kernel)
  have hwrite : EagerChain (some (.mk "setPinDigital" .command [.literal "3",
      .reporter (.mk "reportNot" .reporter [pinReading "2"] none)] none)) :=
    .command (Selector.ofName?_name .setPinDigital) rfl _ (by decide +kernel) .done
  have hequal : (Slot.reporter (.mk "reportEquals" .reporter
      [pinReading "2", pinReading "3"] none)).isEager = true := by decide +kernel
  have hchain := EagerChain.forever (Selector.ofName?_name .doForever) .command
    (.ifThen (Selector.ofName?_name .doIf) .command hequal rfl hwrite .done) .done
  obtain ⟨hsafe, htext⟩ := safe_iff_writes_spare_own_pin twoPinBoard ⟨.adhoc, true⟩ [] _ hchain
    (by decide +kernel) code s' hcode
  exact ⟨code, s', hcode, hsafe.mpr (by decide +kernel),
    (htext (by decide +kernel)).2 (by decide +kernel)⟩

/-- A write that reads its own pin goes wrong. So does a block that runs two readings of a pin the
other way round, and a reading behind a write that was left out with the reading in it. -/
theorem write_reading_own_pin_not_safe :
    (∃ code s', ((Block.mk "setPinDigital" .command [.literal "2", pinReading "2"] none).compile
        onePinBoard ⟨.adhoc, true⟩).run.run .initial = (.ok code, s') ∧ ¬ code.Safe) ∧
    (∃ code s', ((Block.mk "addListItem" .command [pinReading "2", pinReading "2"] none).compile
        onePinBoard ⟨.adhoc, true⟩).run.run .initial = (.ok code, s') ∧ ¬ code.Safe) ∧
    ∃ code s', ((Block.mk "setPinDigital" .command [.literal "9", pinReading "2"]
        (some (.mk "doSetVar" .command [.literal "x", pinReading "2"] none))).compile
        onePinBoard ⟨.adhoc, true⟩).run.run .initial = (.ok code, s') ∧ ¬ code.Safe := by
  refine ⟨exists_not_safe (p := 2) ?_, exists_not_safe (p := 2) ?_, exists_not_safe (p := 2) ?_⟩
  all_goals decide +kernel

end BlockLink
