import BlockLink.Proofs.Link.Answer
import BlockLink.Proofs.Link.Writers

/-!
# `BlockLink/Proofs/Link/WakeUp.lean` — pokes during an upload

While the board receives a file it takes the first byte of whatever it gets for a length, so a poke
spoils the upload. The waker does not look at the upload: it stops at the first tick after the
prompt has come. A script that is run before the prompt is uploaded nevertheless.

`Heard` ties what the waker looks at to what the session knows; `Resting` is the state from which
the waker never pokes again. The main statement says that an upload is safe exactly if it starts in
that state.
-/

set_option autoImplicit false

namespace BlockLink

variable {Origin : Type}

/-! ## The prompt

The waker sees a flag that the loop sets, not the session itself. The two agree in every run, since
the loop sets the flag whenever it hands a line to the session. -/

namespace Session

/-- Once the prompt has come, no line makes the session wait for it again. -/
theorem booting_handleLine {s : Session Origin} (h : s.booting = false) (text : String) :
    (s.handleLine text).session.booting = false := by
  unfold handleLine
  cases Event.ofLine text with
  | reporterResult unit value => cases unit <;> (simp only [handleEvent]; split <;> exact h)
  | threadEnded id data =>
    simp only [handleEvent, unitEnded]
    split
    · split <;> exact h
    · exact h
  | threadStarted id data => simp only [handleEvent]; split <;> exact h
  | deviceReady =>
    simp only [handleEvent, h]
    exact h
  | chunkReady | pinValue _ _ | variableValue _ _ | unrecognized _ => exact h

theorem handleLine_ne_wakeUp (s : Session Origin) (text : String) :
    (s.handleLine text).result ≠ some .wakeUp := by
  intro hresult
  exact (s.handleLine_window text).1 _ hresult

variable [DecidableEq Origin]

/-- No request changes whether the prompt is awaited, and none is answered with a poke. -/
theorem handleRequest_boots (s : Session Origin) (r : Request Origin) :
    (s.handleRequest r).session.booting = s.booting ∧
      (s.handleRequest r).result ≠ some .wakeUp := by
  cases r with
  | run scripts =>
    cases hc : (s.compiled scripts).result with
    | error err =>
      simp only [handleRequest, run_of_error hc]
      exact ⟨trivial, by simp [Except.toOption]⟩
    | ok units =>
      simp only [handleRequest, run_of_ok hc]
      refine ⟨rfl, ?_⟩
      -- What is sent is the start of an upload, if anything.
      cases (s.upload.send (s.programOf scripts units)).1 <;>
        simp [SendStatus.frame?, Except.toOption]
  | evaluate origin block =>
    rcases s.evaluate_cases origin block with ⟨e, he⟩ | ⟨line, ds, he⟩
    · simp only [handleRequest, he]
      exact ⟨trivial, by simp [Except.toOption]⟩
    · simp only [handleRequest, he]
      exact ⟨rfl, by simp [Except.toOption]⟩
  | removeChain origin =>
    cases hid : s.registry.idOf origin with
    | none =>
      simp only [handleRequest, removeChain_of_none hid]
      exact ⟨trivial, by simp⟩
    | some id =>
      simp only [handleRequest, removeChain_of_some hid]
      exact ⟨trivial, by simp⟩
  | stopAll | suspendAll | resumeAll | raw _ =>
    exact ⟨rfl, by simp [handleRequest, stopAll, suspendAll, resumeAll]⟩

end Session

namespace Link

/-- The waker is told to stop as soon as the prompt has come, and the loop does not poke. -/
structure Heard (l : Link Origin) : Prop where
  ready : l.isDone = false → l.ready = !l.session.booting
  frame : l.loop.frame? ≠ some .wakeUp

theorem heard_of_done {l : Link Origin} {result : Except LinkError Unit}
    (h : l.loop = .done result) : l.Heard where
  ready hdone := by simp [isDone, h] at hdone
  frame := by simp [h, LoopState.frame?]

/-- Trying to pass the gate changes neither what the waker is told nor the frame. -/
theorem heard_tryWrite {l : Link Origin} {frame : Frame} (hready : l.ready = !l.session.booting)
    (hframe : frame ≠ .wakeUp) : (l.tryWrite frame).1.Heard := by
  rcases l.tryWrite_cases frame with ⟨gate, loop, hloop, heq⟩ | ⟨gate, heq⟩
  · rw [heq]
    exact ⟨fun _ => hready, by simpa [hloop] using hframe⟩
  · rw [heq]
    exact ⟨fun _ => hready, by simp [LoopState.frame?]⟩

/-- The answer sets both sides to what the session now knows. -/
theorem heard_answer {l : Link Origin} {r : Reply Origin (Option Frame)}
    (hloop : l.loop = .listening) (hready : l.ready = !r.session.booting)
    (hresult : r.result ≠ some .wakeUp) : (l.answer r).1.Heard := by
  cases hr : r.result with
  | none =>
    rw [answer_of_none hr]
    exact ⟨fun _ => hready, by simp [hloop, LoopState.frame?]⟩
  | some frame =>
    rw [answer_of_some hr]
    apply heard_tryWrite hready
    rintro rfl
    exact hresult hr

theorem Heard.of_listening {l : Link Origin} (h : l.Heard) (hloop : l.loop = .listening) :
    l.ready = !l.session.booting :=
  h.ready (by simp [isDone, hloop])

variable [DecidableEq Origin]

/-- The loop tells the waker about the prompt in the same step in which the session hears it. -/
theorem Heard.loopStep {l : Link Origin} (h : l.Heard)
    {r : Link Origin × List (LinkEffect Origin)} (hstep : l.LoopStep r) : r.1.Heard := by
  cases hstep with
  | @attempts frame due hloop =>
    apply heard_tryWrite (h.ready (by simp [isDone, hloop]))
    rintro rfl
    exact h.frame (by simp [hloop, LoopState.frame?])
  | @writes frame hloop hport =>
    exact ⟨fun _ => h.ready (by simp [isDone, hloop]), by simp [written, LoopState.frame?]⟩
  | @hears bytes inbox text hloop hline htext =>
    refine heard_answer hloop ?_ (l.session.handleLine_ne_wakeUp text)
    -- The flag is raised with the line after which the prompt is no longer awaited.
    show (l.ready || !(l.session.handleLine text).session.booting) = _
    rw [h.of_listening hloop]
    cases hboot : l.session.booting with
    | true => rfl
    | false =>
      rw [Session.booting_handleLine hboot]
      rfl
  | expires hloop hdue => exact ⟨fun _ => h.of_listening hloop, by simp [hloop, LoopState.frame?]⟩
  | @asked request requests hloop hr =>
    obtain ⟨hboot, hresult⟩ := l.session.handleRequest_boots request
    refine heard_answer hloop ?_ hresult
    rw [hboot]
    exact h.of_listening hloop
  | breaks _ _ | garbles _ _ _ | loses _ _ | stops _ _ => exact heard_of_done rfl

omit [DecidableEq Origin] in
theorem WakerStep.ready {l : Link Origin} {r : Link Origin × List (LinkEffect Origin)}
    (h : l.WakerStep r) : r.1.ready = l.ready := by
  have htry : ∀ l : Link Origin, l.tryWake.ready = l.ready := by
    intro l
    unfold tryWake
    split <;> rfl
  cases h with
  | ticks _ _ _ | attempts _ => exact htry _
  | stops _ _ | pokes _ | breaks _ _ => rfl

/-- Only the loop tells the waker anything. -/
theorem ready_perform (l : Link Origin) {m : Move Origin} (hm : m ≠ .loop) :
    (l.perform m).1.ready = l.ready := by
  cases m with
  | loop => exact absurd rfl hm
  | waker =>
    rcases l.perform_waker with hrest | hstep
    · rw [hrest]
    · exact hstep.ready
  | receive bytes =>
    simp only [perform]
    split <;> rfl
  | request r =>
    simp only [perform]
    split <;> rfl
  | endInput | endRequests | port p | wait ms => rfl

theorem Heard.perform {l : Link Origin} (h : l.Heard) (m : Move Origin) :
    (l.perform m).1.Heard := by
  by_cases hm : m = .loop
  · subst hm
    rcases l.perform_loop with hrest | hstep
    · rw [hrest]
      exact h
    · exact h.loopStep hstep
  · obtain ⟨⟨hsession, hloop, -⟩, -⟩ := l.perform_frame hm
    refine ⟨?_, ?_⟩
    · unfold isDone
      rw [l.ready_perform hm, hsession, hloop]
      exact h.ready
    · rw [hloop]
      exact h.frame

/-- In every run the waker is told exactly what the session has heard. -/
theorem heard_after (board : Board) (settings : Settings) (port : Port)
    (moves : List (Move Origin)) : ((initial board settings port).after moves).Heard := by
  induction moves using List.reverseRecOn with
  | nil => exact ⟨fun _ => rfl, by simp [after, initial, LoopState.frame?]⟩
  | append_singleton moves m ih =>
    rw [after_concat]
    exact ih.perform m

/-! ## The loop writes what it holds -/

omit [DecidableEq Origin] in
/-- Answering writes nothing: the frame is held first, and written in a step of its own. -/
theorem sent_answer (l : Link Origin) (r : Reply Origin (Option Frame)) :
    sent (l.answer r).2 = [] := by
  cases hr : r.result with
  | none =>
    rw [answer_of_none hr]
    exact sent_showing _
  | some frame =>
    rw [answer_of_some hr, sent_append, sent_showing, (tryWrite_seen _ frame).2.2.2]
    rfl

/-- The loop writes one frame in a step, the one that it holds, or none. -/
theorem LoopStep.sent {l : Link Origin} {r : Link Origin × List (LinkEffect Origin)}
    (h : l.LoopStep r) :
    sent r.2 = [] ∨
      ∃ frame, l.loop = .holding frame ∧ l.port = .flowing ∧ r = l.written frame := by
  cases h with
  | attempts hloop => exact Or.inl (l.tryWrite_seen _).2.2.2
  | writes hloop hport => exact Or.inr ⟨_, hloop, hport, rfl⟩
  | hears hloop hline htext => exact Or.inl (sent_answer _ _)
  | asked hloop hr => exact Or.inl (sent_answer _ _)
  | breaks _ _ | garbles _ _ _ | loses _ _ => exact Or.inl (fail_seen _ _).2.2.2
  | expires _ _ | stops _ _ => exact Or.inl rfl

/-- A frame other than a poke goes through the port when the loop, past the gate, does its next
thing. -/
theorem holding_of_write {l : Link Origin} {m : Move Origin} {frame : Frame}
    (hframe : frame ≠ .wakeUp) (h : .write frame ∈ (l.perform m).2) :
    l.loop = .holding frame ∧ l.port = .flowing ∧ l.perform m = l.written frame := by
  have hsent : frame ∈ Link.sent (l.perform m).2 := List.mem_filterMap.mpr ⟨_, h, rfl⟩
  by_cases hm : m = .loop
  · subst hm
    rcases l.perform_loop with hrest | hstep
    · rw [hrest] at h
      cases h
    · rcases hstep.sent with hnone | ⟨frame', hloop, hport, heq⟩
      · rw [hnone] at hsent
        cases hsent
      · rw [heq] at hsent
        obtain rfl : frame = frame' := List.mem_singleton.mp hsent
        exact ⟨hloop, hport, heq⟩
  · rcases (l.perform_frame hm).2 with heffects | heffects
    · rw [heffects] at h
      cases h
    · rw [heffects] at hsent
      exact absurd (List.mem_singleton.mp hsent) hframe

/-! ## A waker at rest

It has stopped, or sleeps and will see the prompt when it wakes. Nothing that the loop or the world
does brings it back. -/

/-- The waker has stopped, or will at its next tick. -/
def Resting (l : Link Origin) : Prop :=
  l.waker = .stopped ∨ l.waker = .sleeping ∧ l.ready = true

omit [DecidableEq Origin] in
theorem Resting.of_same {l l' : Link Origin} (h : l.Resting) (hwaker : l'.waker = l.waker)
    (hready : l.ready = true → l'.ready = true) : l'.Resting := by
  rcases h with hstopped | ⟨hsleeping, htold⟩
  · exact Or.inl (hwaker.trans hstopped)
  · exact Or.inr ⟨hwaker.trans hsleeping, hready htold⟩

omit [DecidableEq Origin] in
theorem resting_tryWrite {l : Link Origin} (h : l.Resting) (frame : Frame) :
    (l.tryWrite frame).1.Resting := by
  rcases l.tryWrite_cases frame with ⟨gate, loop, -, heq⟩ | ⟨gate, heq⟩
  · rw [heq]
    exact h
  · rw [heq]
    exact h

omit [DecidableEq Origin] in
theorem resting_answer {l : Link Origin} (h : l.Resting) (r : Reply Origin (Option Frame)) :
    (l.answer r).1.Resting := by
  cases hr : r.result with
  | none =>
    rw [answer_of_none hr]
    exact h
  | some frame =>
    rw [answer_of_some hr]
    apply resting_tryWrite
    exact h

/-- The loop never takes back what it told the waker. -/
theorem Resting.loopStep {l : Link Origin} (h : l.Resting)
    {r : Link Origin × List (LinkEffect Origin)} (hstep : l.LoopStep r) : r.1.Resting := by
  cases hstep with
  | attempts hloop => exact resting_tryWrite h _
  | hears hloop hline htext =>
    apply resting_answer
    refine Resting.of_same h ?_ ?_
    · rfl
    · intro htold
      simp [hearing, htold]
  | asked hloop hr =>
    apply resting_answer
    exact h
  | writes _ _ | expires _ _ => exact h
  | breaks _ _ | garbles _ _ _ | loses _ _ | stops _ _ => exact h.of_same rfl fun _ => rfl

omit [DecidableEq Origin] in
theorem Resting.wakerStep {l : Link Origin} (h : l.Resting)
    {r : Link Origin × List (LinkEffect Origin)} (hstep : l.WakerStep r) :
    r = ({ l with waker := .stopped }, []) := by
  unfold Resting at h
  cases hstep with
  | stops _ _ => rfl
  | ticks _ hsleeping hready => simp [hsleeping, hready] at h
  | attempts hretrying => simp [hretrying] at h
  | pokes hholding => simp [hholding] at h
  | breaks hholding _ => simp [hholding] at h

/-- A waker at rest stays there, and the port sees no poke. -/
theorem Resting.perform {l : Link Origin} (h : l.Resting) (hheard : l.Heard) (m : Move Origin) :
    (l.perform m).1.Resting ∧ .wakeUp ∉ Link.sent (l.perform m).2 := by
  cases m with
  | loop =>
    rcases l.perform_loop with hrest | hstep
    · rw [hrest]
      exact ⟨h, List.not_mem_nil⟩
    · refine ⟨h.loopStep hstep, ?_⟩
      -- What the loop writes is the frame it holds, and that is no poke.
      rcases hstep.sent with hnone | ⟨frame, hloop, -, heq⟩
      · rw [hnone]
        exact List.not_mem_nil
      · rw [heq]
        intro hpoke
        obtain rfl : Frame.wakeUp = frame := List.mem_singleton.mp hpoke
        exact hheard.frame (by simp [hloop, LoopState.frame?])
  | waker =>
    rcases l.perform_waker with hrest | hstep
    · rw [hrest]
      exact ⟨h, List.not_mem_nil⟩
    · rw [h.wakerStep hstep]
      exact ⟨Or.inl rfl, List.not_mem_nil⟩
  | receive bytes =>
    refine ⟨?_, List.not_mem_nil⟩
    simp only [Link.perform]
    split <;> exact h
  | request r =>
    refine ⟨?_, List.not_mem_nil⟩
    simp only [Link.perform]
    split <;> exact h
  | endInput | endRequests | port p | wait ms => exact ⟨h, List.not_mem_nil⟩

theorem Resting.effects {l : Link Origin} (h : l.Resting) (hheard : l.Heard)
    (moves : List (Move Origin)) : .wakeUp ∉ Link.sent (l.effects moves) := by
  induction moves generalizing l with
  | nil => exact List.not_mem_nil
  | cons m moves ih =>
    obtain ⟨hnext, hnone⟩ := h.perform hheard m
    rw [Link.effects, sent_append, List.mem_append, not_or]
    exact ⟨hnone, ih hnext (hheard.perform m)⟩

/-! ## A waker that is not

If the waker is not at rest when an upload begins, there is a run in which it pokes the board before
anything else happens. -/

theorem perform_waker_of_holding {l : Link Origin} (h : l.waker = .holding)
    (hport : l.port = .flowing) : (l.perform .waker).2 = [.write .wakeUp] := by
  simp [Link.perform, stepWaker?, h, hport]

/-- A free gate lets the waker through when its time has come. -/
theorem exists_poke {l : Link Origin} (hgate : l.gate.writing = false) (hport : l.port = .flowing)
    (h : l.waker = .sleeping ∧ l.ready = false ∨ ∃ due, l.waker = .retrying due) :
    ∃ later, Link.sent (l.effects later) = [.wakeUp] := by
  -- However long it takes until the attempt is due, it is made, and the poke follows it.
  have hpoke : ∀ ms : Nat, ((l.perform (.wait ms)).1.perform .waker).1.waker = .holding ∧
      ((l.perform (.wait ms)).1.perform .waker).1.port = .flowing ∧
      ((l.perform (.wait ms)).1.perform .waker).2 = [] →
      Link.sent (l.effects [.wait ms, .waker, .waker]) = [.wakeUp] := by
    rintro ms ⟨hholding, hflowing, hnone⟩
    simp only [Link.effects]
    rw [hnone, perform_waker_of_holding hholding hflowing]
    rfl
  rcases h with ⟨hsleeping, hready⟩ | ⟨due, hretrying⟩
  · refine ⟨_, hpoke l.nextTick ?_⟩
    simp [Link.perform, stepWaker?, hsleeping, hready, tryWake, WriteGate.acquire, hgate, hport]
  · refine ⟨_, hpoke due ?_⟩
    simp [Link.perform, stepWaker?, hretrying, tryWake, WriteGate.acquire, hgate, hport]

/-- The loop and the waker are never past the gate at once. -/
theorem waker_ne_holding {board : Board} {settings : Settings} {port : Port}
    {moves : List (Move Origin)} {frame : Frame}
    (h : ((initial board settings port).after moves).loop = .holding frame) :
    ((initial board settings port).after moves).waker ≠ .holding := by
  intro hwaker
  obtain ⟨turns, hturns, -⟩ := (initial board settings port).exists_writers_after [] moves
  rw [writers_initial] at hturns
  obtain ⟨holder, htracked, -⟩ := Writers.tracked_after settings.maxWriteAttempts turns
  rw [hturns] at htracked
  have hsame : LinkTask.loop = LinkTask.waker := by
    apply htracked.held.exclusive
    · show (LoopState.writer _).Holds
      rw [h]
      trivial
    · show (WakerState.writer _).Holds
      rw [hwaker]
      trivial
  cases hsame

end Link

variable [DecidableEq Origin]

/-- Over every run of a link: no poke comes between the start of an upload and the trailer that ends
it, whatever happens later, exactly if at the start the waker has stopped, or waits for its next
tick and the prompt has come. -/
theorem upload_undisturbed_iff (board : Board) (settings : Settings) (port : Port)
    (before : List (Link.Move Origin)) (m : Link.Move Origin) :
    let start : Link Origin := Link.initial board settings port
    let l := start.after before
    .write .uploadStart ∈ (l.perform m).2 →
      ((∀ later frames rest,
          Link.sent ((l.perform m).1.effects later) = frames ++ .wakeUp :: rest →
          .trailer ∈ frames) ↔
        l.waker = .stopped ∨ l.waker = .sleeping ∧ l.session.booting = false) := by
  intro start l hstart
  obtain ⟨hloop, hport, hwritten⟩ := Link.holding_of_write (by simp) hstart
  have hheard : l.Heard := Link.heard_after board settings port before
  have hready : l.ready = !l.session.booting := hheard.ready (by simp [Link.isDone, hloop])
  constructor
  · intro hsafe
    by_contra hrest
    -- The gate is free behind the frame, so nothing keeps the waker from poking at once.
    have hpoke : ∃ later, Link.sent ((l.written .uploadStart).1.effects later) = [.wakeUp] := by
      apply Link.exists_poke (l := (l.written .uploadStart).1) rfl hport
      cases hwaker : l.waker with
      | stopped => exact absurd (Or.inl hwaker) hrest
      | holding => exact absurd hwaker (Link.waker_ne_holding hloop)
      | retrying due => exact Or.inr ⟨due, hwaker⟩
      | sleeping =>
        refine Or.inl ⟨hwaker, ?_⟩
        cases hboot : l.session.booting with
        | false => exact absurd (Or.inr ⟨hwaker, hboot⟩) hrest
        | true =>
          show l.ready = false
          rw [hready, hboot]
          rfl
    obtain ⟨later, hlater⟩ := hpoke
    rw [hwritten] at hsafe
    cases hsafe later [] [] hlater
  · intro hrest later frames rest hsent
    have hresting : l.Resting := by
      rcases hrest with hstopped | ⟨hsleeping, hboot⟩
      · exact Or.inl hstopped
      · refine Or.inr ⟨hsleeping, ?_⟩
        rw [hready, hboot]
        rfl
    have hnone := (hresting.perform hheard m).1.effects (hheard.perform m) later
    rw [hsent] at hnone
    exact absurd (by simp) hnone

/-- The prompt comes before a script is run: the upload is safe. -/
theorem upload_after_prompt_undisturbed :
    let moves : List (Link.Move Nat) := [.waker, .waker, .receive (textBytes "/ > \n"), .loop,
      .request (.run [(1, .mk "receiveGo" .hat [] none)]), .loop]
    let l : Link Nat := (Link.initial .blank {} .flowing).after moves
    .write .uploadStart ∈ (l.perform .loop).2 ∧
      ∀ later frames rest, Link.sent ((l.perform .loop).1.effects later)
        = frames ++ .wakeUp :: rest → .trailer ∈ frames := by
  intro moves l
  have hstart : .write .uploadStart ∈ (l.perform .loop).2 := by decide +kernel
  refine ⟨hstart, (upload_undisturbed_iff .blank {} .flowing moves .loop hstart).mpr (Or.inr ?_)⟩
  exact ⟨by decide +kernel, by decide +kernel⟩

/-- A script is run before the prompt comes: the next poke falls into the upload. -/
theorem upload_before_prompt_poked :
    let start : Link Nat := Link.initial .blank {} .flowing
    let moves : List (Link.Move Nat) := [.waker, .waker,
      .request (.run [(1, .mk "receiveGo" .hat [] none)]), .loop, .loop, .wait 2000, .waker, .waker]
    Link.sent (start.effects moves) = [.wakeUp, .uploadStart, .wakeUp] ∧
      (start.after moves).session.isUploading = true := by
  intro start moves
  exact ⟨by decide +kernel, by decide +kernel⟩

end BlockLink
