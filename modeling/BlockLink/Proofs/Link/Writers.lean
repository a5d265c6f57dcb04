import BlockLink.Proofs.Link.Move
import BlockLink.Proofs.WriteGate

/-!
# `BlockLink/Proofs/Link/Writers.lean` — the tasks of a link as writers

The loop and the waker write by the rules of `Proofs/WriteGate.lean`: `Link.writers` forgets what
else they do, and every run of a link becomes a run of two writers. A link puts a frame on the port
in one piece, when it is through.

The main statement is about any number of writers, and says last that the two tasks are such
writers.
-/

set_option autoImplicit false

namespace BlockLink

/-! ## What goes through the port -/

/-- The frame that an effect puts on the port. -/
def LinkEffect.frame? {Origin : Type} : LinkEffect Origin → Option Frame
  | .write frame => some frame
  | .feedback _ => none

namespace Link

variable {Origin : Type}

/-- The frames that go through the port, in order. -/
def sent (effects : List (LinkEffect Origin)) : List Frame :=
  effects.filterMap LinkEffect.frame?

theorem sent_append (xs ys : List (LinkEffect Origin)) : sent (xs ++ ys) = sent xs ++ sent ys :=
  List.filterMap_append

@[simp]
theorem sent_showing (shown : List (Feedback Origin)) : sent (showing shown) = [] := by
  simp [sent, showing, LinkEffect.frame?]

end Link

/-! ## A link seen by the gate

What a move of the link comes to at the gate is a list of moves of the writers, so that the runs of
a link are among those of its writers. -/

/-- The tasks of a link. -/
inductive LinkTask where
  | loop
  | waker
  deriving DecidableEq, Repr

/-- The loop as a writer: it tries to pass the gate with a frame, or is past it with all the bytes
still to put. -/
def LoopState.writer : LoopState → WriterState
  | .retrying frame _ => .trying frame
  | .holding frame => .holding frame frame.toBytes
  | .listening | .done _ => .idle

/-- The waker as a writer, whose only frame is the poke. -/
def WakerState.writer : WakerState → WriterState
  | .retrying _ => .trying .wakeUp
  | .holding => .holding .wakeUp Frame.wakeUp.toBytes
  | .sleeping | .stopped => .idle

namespace Link

variable {Origin : Type}

/-- Both tasks as writers. -/
def taskWriter (loop : LoopState) (waker : WakerState) : LinkTask → WriterState
  | .loop => loop.writer
  | .waker => waker.writer

/-- The link as two writers that have put some bytes on the wire. -/
def writers (l : Link Origin) (wire : List UInt8) : Writers LinkTask :=
  ⟨l.gate, wire, taskWriter l.loop l.waker⟩

/-- The loop has moved. -/
theorem writers_of_loop (l l' : Link Origin) (h : l'.waker = l.waker) (wire wire' : List UInt8) :
    { l.writers wire with gate := l'.gate, wire := wire' }.set .loop l'.loop.writer
      = l'.writers wire' := by
  have hwriter : Function.update (taskWriter l.loop l.waker) .loop l'.loop.writer
      = taskWriter l'.loop l'.waker := by
    funext t
    cases t with
    | loop => rfl
    | waker => exact congrArg WakerState.writer h.symm
  simp only [Writers.set, writers, hwriter]

/-- The waker has moved. -/
theorem writers_of_waker (l l' : Link Origin) (h : l'.loop = l.loop) (wire wire' : List UInt8) :
    { l.writers wire with gate := l'.gate, wire := wire' }.set .waker l'.waker.writer
      = l'.writers wire' := by
  have hwriter : Function.update (taskWriter l.loop l.waker) .waker l'.waker.writer
      = taskWriter l'.loop l'.waker := by
    funext t
    cases t with
    | loop => exact congrArg LoopState.writer h.symm
    | waker => rfl
  simp only [Writers.set, writers, hwriter]

/-- The bytes of frames in order. -/
def wireOf (frames : List Frame) : List UInt8 :=
  frames.flatMap Frame.toBytes

/-- What a link does is what its writers do, by moves that fail only on a broken port. -/
def Simulated (l : Link Origin) (r : Link Origin × List (LinkEffect Origin)) : Prop :=
  ∀ wire, ∃ moves, (l.writers wire).after moves = r.1.writers (wire ++ wireOf (sent r.2)) ∧
    (l.port ≠ .broken → ∀ m ∈ moves, ¬ m.Fails)

/-- Nothing happens at the gate. -/
theorem simulated_of_idle {l : Link Origin} {r : Link Origin × List (LinkEffect Origin)}
    (hgate : r.1.gate = l.gate) (hloop : r.1.loop.writer = l.loop.writer)
    (hwaker : r.1.waker.writer = l.waker.writer) (hsent : sent r.2 = []) : l.Simulated r := by
  intro wire
  refine ⟨[], ?_, fun _ m hm => absurd hm List.not_mem_nil⟩
  have hwriter : taskWriter r.1.loop r.1.waker = taskWriter l.loop l.waker := by
    funext t
    cases t with
    | loop => exact hloop
    | waker => exact hwaker
  show l.writers wire = _
  rw [hsent, show wireOf [] = [] from rfl, List.append_nil, writers, writers, hgate, hwriter]

theorem tryWrite_seen (l : Link Origin) (frame : Frame) :
    (l.tryWrite frame).1.gate = l.gate.acquire.2 ∧ (l.tryWrite frame).1.waker = l.waker ∧
      (l.tryWrite frame).1.loop.writer = .attempted frame l.gate.acquire.1 ∧
      sent (l.tryWrite frame).2 = [] := by
  unfold tryWrite
  cases l.gate.acquire with
  | mk passage gate =>
    cases passage with
    | granted | busy => exact ⟨rfl, rfl, rfl, rfl⟩
    | refused e => exact ⟨rfl, rfl, rfl, sent_showing _⟩

theorem tryWake_seen (l : Link Origin) :
    l.tryWake.gate = l.gate.acquire.2 ∧ l.tryWake.loop = l.loop ∧
      l.tryWake.waker.writer = .attempted .wakeUp l.gate.acquire.1 := by
  unfold tryWake
  cases l.gate.acquire with
  | mk passage gate => cases passage <;> exact ⟨rfl, rfl, rfl⟩

/-- The loop tries to pass the gate with a frame that it already tries or is given now. -/
theorem simulated_tryWrite {l : Link Origin} {frame : Frame}
    (h : l.loop.writer = .idle ∨ l.loop.writer = .trying frame) :
    l.Simulated (l.tryWrite frame) := by
  intro wire
  obtain ⟨hgate, hwaker, hloop, hsent⟩ := l.tryWrite_seen frame
  obtain ⟨moves, hafter, hmoves⟩ := (l.writers wire).exists_attempt (w := .loop) h
  refine ⟨moves, ?_, fun _ => hmoves⟩
  rw [hafter, hsent, ← writers_of_loop l _ hwaker wire, hgate, hloop]
  simp [writers, wireOf]

theorem simulated_tryWake {l : Link Origin}
    (h : l.waker.writer = .idle ∨ l.waker.writer = .trying .wakeUp) :
    l.Simulated (l.tryWake, []) := by
  intro wire
  obtain ⟨hgate, hloop, hwaker⟩ := l.tryWake_seen
  obtain ⟨moves, hafter, hmoves⟩ := (l.writers wire).exists_attempt (w := .waker) h
  refine ⟨moves, ?_, fun _ => hmoves⟩
  rw [hafter, ← writers_of_waker l _ hloop wire, hgate, hwaker]
  simp [writers, wireOf, sent]

/-- What comes before a frame is written is no matter of the gate. -/
theorem Simulated.of_same {l l' : Link Origin} {r : Link Origin × List (LinkEffect Origin)}
    (h : l'.Simulated r) (hgate : l'.gate = l.gate) (hloop : l'.loop = l.loop)
    (hwaker : l'.waker = l.waker) (hport : l'.port = l.port) : l.Simulated r := by
  intro wire
  have hwriters : l'.writers wire = l.writers wire := by
    simp only [writers, hgate, hloop, hwaker]
  obtain ⟨moves, hafter, hmoves⟩ := h wire
  exact ⟨moves, hwriters ▸ hafter, hport ▸ hmoves⟩

/-- An answer with a frame is an attempt, and one without is nothing to the gate. -/
theorem simulated_answer {l : Link Origin} (h : l.loop = .listening)
    (r : Reply Origin (Option Frame)) : l.Simulated (l.answer r) := by
  cases hr : r.result with
  | none =>
    rw [answer_of_none hr]
    exact simulated_of_idle rfl rfl rfl (sent_showing _)
  | some frame =>
    rw [answer_of_some hr]
    intro wire
    have htry : { l with session := r.session }.Simulated
        ({ l with session := r.session }.tryWrite frame) :=
      simulated_tryWrite (Or.inl (by rw [h]; rfl))
    obtain ⟨moves, hafter, hmoves⟩ := htry.of_same (l := l) rfl rfl rfl rfl wire
    refine ⟨moves, ?_, hmoves⟩
    rw [sent_append, sent_showing, List.nil_append]
    exact hafter

/-- The loop ends in the state that a failure leaves, and nothing goes through the port. -/
theorem fail_seen (l : Link Origin) (e : LinkError) :
    (l.fail e).1.gate = l.gate ∧ (l.fail e).1.waker = l.waker ∧
      (l.fail e).1.loop.writer = .idle ∧ sent (l.fail e).2 = [] :=
  ⟨rfl, rfl, rfl, sent_showing _⟩

theorem simulated_fail {l : Link Origin} (h : l.loop = .listening) (e : LinkError) :
    l.Simulated (l.fail e) := by
  obtain ⟨hgate, hwaker, hloop, hsent⟩ := l.fail_seen e
  apply simulated_of_idle hgate _ (congrArg _ hwaker) hsent
  rw [hloop, h]
  rfl

theorem wireOf_singleton (frame : Frame) : wireOf [frame] = frame.toBytes :=
  List.append_nil _

variable [DecidableEq Origin]

/-- One step of the loop is moves of its writer: none, an attempt, a failure, or all the bytes and
the end of the write. -/
theorem LoopStep.simulated {l : Link Origin} {r : Link Origin × List (LinkEffect Origin)}
    (h : l.LoopStep r) : l.Simulated r := by
  have hholding : ∀ {frame wire}, l.loop = .holding frame →
      (l.writers wire).writer .loop = .holding frame frame.toBytes := by
    intro frame wire h
    show l.loop.writer = _
    rw [h]
    rfl
  cases h with
  | attempts h => exact simulated_tryWrite (Or.inr (by rw [h]; rfl))
  | @writes frame h hport =>
    intro wire
    -- The link puts a frame on the port in one piece, which is two moves of the writer.
    refine ⟨[.put .loop frame.toBytes.length, .finish .loop], ?_, by simp [Writers.Move.Fails]⟩
    rw [Writers.after_written (hholding h), show sent (l.written frame).2 = [frame] from rfl,
      wireOf_singleton]
    exact writers_of_loop l (l.written frame).1 rfl wire _
  | @breaks frame h hport =>
    intro wire
    refine ⟨[.fail .loop], ?_, fun hno => absurd hport hno⟩
    rw [Writers.after_fail (hholding h), (fail_seen _ _).2.2.2]
    rw [show wireOf [] = [] from rfl, List.append_nil]
    exact writers_of_loop l ({ l with gate := l.gate.release }.fail brokenPort).1 rfl wire _
  | @hears bytes inbox text h hline htext =>
    exact (simulated_answer (l := l.hearing inbox text) h _).of_same rfl rfl rfl rfl
  | @asked r requests h hr =>
    exact (simulated_answer (l := { l with requests }) h _).of_same rfl rfl rfl rfl
  | @garbles bytes inbox h hline htext =>
    exact (simulated_fail (l := { l with inbox }) h _).of_same rfl rfl rfl rfl
  | loses h hend => exact simulated_fail h _
  | expires h hdue => exact simulated_of_idle rfl rfl rfl rfl
  | stops h hend => exact simulated_of_idle rfl (by rw [h]; rfl) rfl rfl

omit [DecidableEq Origin] in
/-- One step of the waker is moves of its writer in the same way. -/
theorem WakerStep.simulated {l : Link Origin} {r : Link Origin × List (LinkEffect Origin)}
    (h : l.WakerStep r) : l.Simulated r := by
  have hholding : ∀ {wire}, l.waker = .holding →
      (l.writers wire).writer .waker = .holding .wakeUp Frame.wakeUp.toBytes := by
    intro wire h
    show l.waker.writer = _
    rw [h]
    rfl
  cases h with
  | stops h hready => exact simulated_of_idle rfl rfl (by rw [h]; rfl) rfl
  -- A tick is the first attempt of a course, and an attempt that was blocked is made again.
  | ticks nextTick h hready =>
    have htry : { l with nextTick }.Simulated ({ l with nextTick }.tryWake, []) :=
      simulated_tryWake (Or.inl (by rw [h]; rfl))
    exact htry.of_same rfl rfl rfl rfl
  | attempts h => exact simulated_tryWake (Or.inr (by rw [h]; rfl))
  -- The whole frame goes out at once.
  | pokes h =>
    intro wire
    refine ⟨[.put .waker Frame.wakeUp.toBytes.length, .finish .waker], ?_,
      by simp [Writers.Move.Fails]⟩
    rw [Writers.after_written (hholding h)]
    exact writers_of_waker l { l with gate := l.gate.release, waker := .sleeping } rfl wire _
  | breaks h hport =>
    intro wire
    refine ⟨[.fail .waker], ?_, fun hno => absurd hport hno⟩
    rw [Writers.after_fail (hholding h), show wireOf (sent []) = [] from rfl, List.append_nil]
    exact writers_of_waker l { l with gate := l.gate.release, waker := .sleeping } rfl wire _

/-- Every move of a link is moves of its writers. -/
theorem simulated_perform (l : Link Origin) (m : Move Origin) : l.Simulated (l.perform m) := by
  have hrefl : l.Simulated (l, []) := simulated_of_idle rfl rfl rfl rfl
  cases m with
  | loop =>
    rcases l.perform_loop with hrest | hstep
    · rw [hrest]
      exact hrefl
    · exact hstep.simulated
  | waker =>
    rcases l.perform_waker with hrest | hstep
    · rw [hrest]
      exact hrefl
    · exact hstep.simulated
  | receive bytes =>
    simp only [perform]
    split
    · exact hrefl
    · exact simulated_of_idle rfl rfl rfl rfl
  | request r =>
    simp only [perform]
    split
    · exact hrefl
    · exact simulated_of_idle rfl rfl rfl rfl
  | endInput | endRequests | port p | wait ms => exact simulated_of_idle rfl rfl rfl rfl

/-! ## Runs

Each move of the link is at most one course of a writer through the gate, made in one go. -/

omit [DecidableEq Origin] in
theorem port_tryWrite (l : Link Origin) (frame : Frame) : (l.tryWrite frame).1.port = l.port := by
  rcases l.tryWrite_cases frame with ⟨gate, loop, -, h⟩ | ⟨gate, h⟩ <;> rw [h]

omit [DecidableEq Origin] in
theorem port_answer (l : Link Origin) (r : Reply Origin (Option Frame)) :
    (l.answer r).1.port = l.port := by
  cases h : r.result with
  | none => rw [answer_of_none h]
  | some frame =>
    rw [answer_of_some h]
    exact port_tryWrite _ frame

theorem LoopStep.port {l : Link Origin} {r : Link Origin × List (LinkEffect Origin)}
    (h : l.LoopStep r) : r.1.port = l.port := by
  cases h with
  | attempts _ => exact port_tryWrite l _
  | hears _ _ _ => exact port_answer _ _
  | asked _ _ => exact port_answer _ _
  | writes _ _ | breaks _ _ | garbles _ _ _ | loses _ _ | expires _ _ | stops _ _ => rfl

omit [DecidableEq Origin] in
theorem WakerStep.port {l : Link Origin} {r : Link Origin × List (LinkEffect Origin)}
    (h : l.WakerStep r) : r.1.port = l.port := by
  have htry : ∀ l : Link Origin, l.tryWake.port = l.port := by
    intro l
    unfold tryWake
    split <;> rfl
  cases h with
  | ticks _ _ _ | attempts _ => exact htry _
  | stops _ _ | pokes _ | breaks _ _ => rfl

/-- A port that is not broken never was. -/
theorem port_perform {l : Link Origin} {m : Move Origin} (h : (l.perform m).1.port ≠ .broken) :
    l.port ≠ .broken := by
  intro hbroken
  apply h
  cases m with
  | loop =>
    rcases l.perform_loop with hrest | hstep
    · rw [hrest]
      exact hbroken
    · exact hstep.port.trans hbroken
  | waker =>
    rcases l.perform_waker with hrest | hstep
    · rw [hrest]
      exact hbroken
    · exact hstep.port.trans hbroken
  | receive bytes =>
    simp only [perform]
    split <;> exact hbroken
  | request r =>
    simp only [perform]
    split <;> exact hbroken
  | port p =>
    simp only [perform, hbroken]
    rfl
  | endInput | endRequests | wait ms => exact hbroken

/-- Every run of a link is a run of its writers, in which no write fails unless the port breaks. -/
theorem exists_writers_after (l : Link Origin) (wire : List UInt8) (moves : List (Move Origin)) :
    ∃ turns, (l.writers wire).after turns
        = (l.after moves).writers (wire ++ wireOf (sent (l.effects moves))) ∧
      ((l.after moves).port ≠ .broken → ∀ m ∈ turns, ¬ m.Fails) := by
  induction moves using List.reverseRecOn with
  | nil =>
    refine ⟨[], ?_, fun _ m hm => absurd hm List.not_mem_nil⟩
    show l.writers wire = l.writers (wire ++ [])
    rw [List.append_nil]
  | append_singleton moves m ih =>
    obtain ⟨turns, hturns, hcalm⟩ := ih
    obtain ⟨more, hmore, hcalm'⟩ := (l.after moves).simulated_perform m
      (wire ++ wireOf (sent (l.effects moves)))
    rw [after_concat, effects_concat, sent_append]
    refine ⟨turns ++ more, ?_, fun hport m' hm' => ?_⟩
    · rw [Writers.after_append, hturns, hmore, wireOf, wireOf, wireOf, List.flatMap_append,
        List.append_assoc]
    · have hbefore := port_perform hport
      rcases List.mem_append.mp hm' with hm' | hm'
      · exact hcalm hbefore m' hm'
      · exact hcalm' hbefore m' hm'

omit [DecidableEq Origin] in
/-- A new link is a set of new writers with the limit of its settings. -/
theorem writers_initial (board : Board) (settings : Settings) (port : Port) :
    (initial board settings port : Link Origin).writers [] = .new settings.maxWriteAttempts := by
  have hwriter : taskWriter .listening (if settings.wakeIntervalMs = 0 then .stopped else .sleeping)
      = fun _ => .idle := by
    funext t
    cases t with
    | loop => rfl
    | waker =>
      show WakerState.writer (if _ then _ else _) = _
      split <;> rfl
  exact congrArg (Writers.mk _ []) hwriter

end Link

/-! ## One write at a time -/

namespace Writers

variable {ι : Type} [DecidableEq ι]

/-- Writers at a gate write one at a time and whole frames. Whatever they do, in any order:

* the gate is taken exactly while a writer is past it, and at most one is;
* as long as no write fails, the wire has the bytes of the frames that passed, in the order in which
  they passed, but for the rest of the last one that its holder still has to put there;
* an attempt is refused exactly if it is blocked and the attempts blocked since the gate was passed,
  by whomever, have reached the limit with it; the error has their number.

The tasks of a link are two such writers, in every run, and their writes fail only on a broken
port. -/
theorem writes_one_at_a_time (maxAttempts : UInt32) (moves : List (Move ι))
    (hfew : blocked ((new maxAttempts).log moves) < UInt32.size) :
    let start : Writers ι := new maxAttempts
    let s := start.after moves
    let frames := passed (start.log moves)
    ((s.gate.writing = true ↔ ∃ w, (s.writer w).Holds) ∧
      ∀ w v, (s.writer w).Holds → (s.writer v).Holds → w = v) ∧
    ((∀ m ∈ moves, ¬ m.Fails) →
      ∃ left, s.wire ++ left = frames.flatMap Frame.toBytes ∧
        ((∀ w, ¬ (s.writer w).Holds) → left = []) ∧
        ∀ w frame rest, s.writer w = .holding frame rest →
          left = rest ∧ frames.getLast? = some frame ∧ rest <:+ frame.toBytes) ∧
    (∀ before w later, moves = before ++ .attempt w :: later →
      ∀ e, (start.after before).Refused w e ↔
        (∃ frame, (start.after before).writer w = .trying frame) ∧
          (∃ v, ((start.after before).writer v).Holds) ∧
          ∃ n : UInt32, e = .writeContention n ∧
            n.toNat = blockedSince (start.log before) + 1 ∧ maxAttempts.toNat ≤ n.toNat) ∧
    ∀ {Origin : Type} [DecidableEq Origin] (board : Board) (settings : Settings) (port : Port)
      (run : List (Link.Move Origin)),
      let link := Link.initial board settings port
      ∃ turns, (new settings.maxWriteAttempts).after turns
          = (link.after run).writers (Link.wireOf (Link.sent (link.effects run))) ∧
        ((link.after run).port ≠ .broken → ∀ m ∈ turns, ¬ m.Fails) := by
  intro start s frames
  obtain ⟨holder, htracked, hdelivered⟩ := tracked_after maxAttempts moves
  refine ⟨⟨?_, fun w v => htracked.held.exclusive⟩, fun hcalm => ?_, ?_, ?_⟩
  · rw [htracked.held.gate, Option.isSome_iff_exists]
    exact exists_congr fun w => (htracked.held.holds w).symm
  -- The wire: nobody is past the gate and all is there, or the holder has the rest.
  · cases hdelivered hcalm with
    | whole hwire =>
      refine ⟨[], by rw [List.append_nil]; exact hwire, fun _ => rfl, fun w frame rest hw => ?_⟩
      cases htracked.held.eq_some hw
    | @underway v frame left hv hlast hleft hwire =>
      refine ⟨left, hwire, fun hnone => absurd ((htracked.held.holds v).mpr rfl) (hnone v),
        fun w frame' rest hw => ?_⟩
      obtain rfl : v = w := Option.some.inj (htracked.held.eq_some hw)
      obtain ⟨rfl, rfl⟩ := WriterState.holding.inj (hv.symm.trans hw)
      exact ⟨rfl, hlast, hleft⟩
  · intro before w later hmoves
    apply refused_iff_blockedSince
    -- The counter of the gate does not wrap around, as there are few blocked attempts in the whole
    -- run.
    have hle : blocked (start.log (before ++ [.attempt w])) ≤ blocked (start.log moves) := by
      have hsplit : moves = (before ++ [.attempt w]) ++ later := by simp [hmoves]
      rw [hsplit, log_append _ _ later, blocked_append]
      exact Nat.le_add_right _ _
    exact Nat.lt_of_le_of_lt hle hfew
  · intro Origin _ board settings port run link
    obtain ⟨turns, hturns, hcalm⟩ := link.exists_writers_after [] run
    rw [Link.writers_initial, List.nil_append] at hturns
    exact ⟨turns, hturns, hcalm⟩

/-- A writer has put one byte of its frame on the wire; the other gives up at its second attempt. -/
theorem second_attempt_refused :
    let turns : List (Move Bool) :=
      [.begin false .uploadStart, .attempt false, .begin true .wakeUp, .attempt true, .put false 1]
    blocked ((new 2).log (turns ++ [.attempt true])) = 2 ∧
      ((new 2).after turns).Refused true (.writeContention 2) ∧
      ∃ left, ((new 2).after (turns ++ [.attempt true])).wire ++ left
        = Frame.uploadStart.toBytes := by
  intro turns
  have hblocked : blocked ((new 2).log (turns ++ [.attempt true])) = 2 := by decide +kernel
  have hwrites := writes_one_at_a_time 2 (turns ++ [.attempt true]) (by rw [hblocked]; decide)
  obtain ⟨-, hwire, hrefused, -⟩ := hwrites
  refine ⟨hblocked, ?_, ?_⟩
  · apply (hrefused turns true [] rfl _).mpr
    exact ⟨⟨.wakeUp, by decide +kernel⟩, ⟨false, trivial⟩, 2, rfl, by decide +kernel, by decide⟩
  · obtain ⟨left, hleft, -, -⟩ := hwire (by simp [turns, Move.Fails])
    refine ⟨left, hleft.trans ?_⟩
    decide +kernel

end Writers

end BlockLink
