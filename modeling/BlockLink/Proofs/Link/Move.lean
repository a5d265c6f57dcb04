import BlockLink.Link.Run
import BlockLink.Proofs.Session.Operation

/-!
# `BlockLink/Proofs/Link/Move.lean` — runs of a link

A link has two tasks and a world around it. A run is a list of moves: a task does what it can do
now, bytes or requests come in, the port changes, time passes. Nothing says in which order they
come, so a statement about all runs is about all interleavings, and lines and requests may come at
any moment. The ways in which links are driven (`settle`, `sleep` and what is built on them) are
such runs.

`LoopStep` and `WakerStep` say once what the loop and the waker can do, guards included, and
`tryWrite_cases` what comes of the attempts of the loop to pass the gate.
-/

set_option autoImplicit false

namespace BlockLink

/-- The frame that the loop has not got through. -/
def LoopState.frame? : LoopState → Option Frame
  | .retrying frame _ | .holding frame => some frame
  | .listening | .done _ => none

namespace Link

/-- Something that happens to a link. -/
inductive Move (Origin : Type) where
  /-- The loop does one thing, if it can. -/
  | loop
  /-- The waker does one thing, if it can. -/
  | waker
  | receive (bytes : List UInt8)
  | endInput
  | request (r : Request Origin)
  | endRequests
  | port (p : Port)
  | wait (ms : Nat)

variable {Origin : Type} [DecidableEq Origin]

/-- The link after a move, and what the move does to the world. -/
def perform (l : Link Origin) : Move Origin → Link Origin × List (LinkEffect Origin)
  | .loop => l.stepLoop?.getD (l, [])
  | .waker => l.stepWaker?.getD (l, [])
  | .receive bytes => (if l.inputEnded then l else { l with inbox := l.inbox ++ bytes }, [])
  | .endInput => ({ l with inputEnded := true }, [])
  | .request r => (if l.requestsEnded then l else { l with requests := l.requests ++ [r] }, [])
  | .endRequests => ({ l with requestsEnded := true }, [])
  | .port p => ({ l with port := l.port.become p }, [])
  | .wait ms => ({ l with now := l.now + ms }, [])

/-- The link after moves in order. -/
def after (l : Link Origin) (moves : List (Move Origin)) : Link Origin :=
  moves.foldl (fun l m => (l.perform m).1) l

/-- What moves in order do to the world. -/
def effects (l : Link Origin) : List (Move Origin) → List (LinkEffect Origin)
  | [] => []
  | m :: moves => (l.perform m).2 ++ (l.perform m).1.effects moves

theorem after_append (l : Link Origin) (xs ys : List (Move Origin)) :
    l.after (xs ++ ys) = (l.after xs).after ys :=
  List.foldl_append

theorem after_concat (l : Link Origin) (moves : List (Move Origin)) (m : Move Origin) :
    l.after (moves ++ [m]) = ((l.after moves).perform m).1 :=
  l.after_append moves [m]

theorem effects_append (l : Link Origin) (xs ys : List (Move Origin)) :
    l.effects (xs ++ ys) = l.effects xs ++ (l.after xs).effects ys := by
  induction xs generalizing l with
  | nil => rfl
  | cons m xs ih => simp only [List.cons_append, effects, ih, List.append_assoc]; rfl

theorem effects_concat (l : Link Origin) (moves : List (Move Origin)) (m : Move Origin) :
    l.effects (moves ++ [m]) = l.effects moves ++ ((l.after moves).perform m).2 := by
  rw [effects_append]
  simp [effects]

/-! ## What the loop can do

The loop is opened here and nowhere else. Every later statement about a step of it goes through the
cases of `LoopStep`. -/

omit [DecidableEq Origin] in
/-- An attempt to pass the gate leaves the loop busy with the frame, or abandons the upload. -/
theorem tryWrite_cases (l : Link Origin) (frame : Frame) :
    (∃ gate loop, loop.frame? = some frame ∧ l.tryWrite frame = ({ l with gate, loop }, [])) ∨
      ∃ gate, l.tryWrite frame
        = ({ l with
              gate
              session := { l.session with upload := l.session.upload.cancel }
              loop := .listening },
            [.feedback (.status .resetRequired)]) := by
  unfold tryWrite WriteGate.acquire
  cases l.gate.writing with
  | false => exact Or.inl ⟨_, .holding frame, rfl, rfl⟩
  | true =>
    by_cases hmax : l.gate.maxAttempts ≤ l.gate.attempts + 1
    · simp only [if_true, if_pos hmax]
      exact Or.inr ⟨_, rfl⟩
    · simp only [if_true, if_neg hmax]
      exact Or.inl ⟨_, .retrying frame _, rfl, rfl⟩

omit [DecidableEq Origin] in
theorem answer_of_none {r : Reply Origin (Option Frame)} (h : r.result = none) (l : Link Origin) :
    l.answer r = ({ l with session := r.session }, showing r.shown) := by
  unfold answer
  rw [h]

omit [DecidableEq Origin] in
theorem answer_of_some {r : Reply Origin (Option Frame)} {frame : Frame} (h : r.result = some frame)
    (l : Link Origin) :
    l.answer r = (({ l with session := r.session }.tryWrite frame).1,
      showing r.shown ++ ({ l with session := r.session }.tryWrite frame).2) := by
  unfold answer
  rw [h]

/-- The link when the loop has taken a line and has not answered it. -/
def hearing (l : Link Origin) (inbox : List UInt8) (text : String) : Link Origin :=
  { l with
    inbox
    ackDeadline := if Text.trimEnd text.toList = ['C'] then none else l.ackDeadline
    ready := l.ready || !(l.session.handleLine text).session.booting }

/-- One thing the loop does. -/
inductive LoopStep (l : Link Origin) : Link Origin × List (LinkEffect Origin) → Prop where
  | attempts {frame : Frame} {due : Nat} (h : l.loop = .retrying frame due) :
      LoopStep l (l.tryWrite frame)
  | writes {frame : Frame} (h : l.loop = .holding frame) (hport : l.port = .flowing) :
      LoopStep l (l.written frame)
  | breaks {frame : Frame} (h : l.loop = .holding frame) (hport : l.port = .broken) :
      LoopStep l ({ l with gate := l.gate.release }.fail brokenPort)
  | hears {bytes inbox : List UInt8} {text : String} (h : l.loop = .listening)
      (hline : l.takeLine? = some (bytes, inbox)) (htext : bytesText? bytes = some text) :
      LoopStep l ((l.hearing inbox text).answer (l.session.handleLine text))
  | garbles {bytes inbox : List UInt8} (h : l.loop = .listening)
      (hline : l.takeLine? = some (bytes, inbox)) (htext : bytesText? bytes = none) :
      LoopStep l ({ l with inbox }.fail notText)
  | loses (h : l.loop = .listening) (hend : l.inputEnded = true) : LoopStep l (l.fail .closed)
  | expires (h : l.loop = .listening) (hdue : l.ackDeadline.any (· ≤ l.now) = true) :
      LoopStep l
        ({ l with session := (l.session.linkFailed .deviceUnresponsive).2, ackDeadline := none },
          [.feedback (.status .unresponsive)])
  | asked {r : Request Origin} {requests : List (Request Origin)} (h : l.loop = .listening)
      (hr : l.requests = r :: requests) :
      LoopStep l ({ l with requests }.answer (l.session.handleRequest r))
  | stops (h : l.loop = .listening) (hend : l.requestsEnded = true) :
      LoopStep l (l.finish (.ok ()), [])

omit [DecidableEq Origin] in
/-- A line that is text goes to the session, after the deadline was lifted if it is the
acknowledgement. -/
theorem takeLine_of_text {l : Link Origin} {bytes : List UInt8} {text : String}
    (h : bytesText? bytes = some text) (inbox : List UInt8) :
    { l with inbox }.takeLine bytes
      = (l.hearing inbox text).answer (l.session.handleLine text) := by
  unfold takeLine
  rw [h]
  rfl

omit [DecidableEq Origin] in
theorem takeLine_of_garbled (l : Link Origin) {bytes : List UInt8} (h : bytesText? bytes = none) :
    l.takeLine bytes = l.fail notText := by
  unfold takeLine
  rw [h]

/-- All that the loop does is one of the steps, with the guard under which it is taken. -/
theorem loopStep_of_stepLoop {l : Link Origin} {r : Link Origin × List (LinkEffect Origin)}
    (h : l.stepLoop? = some r) : l.LoopStep r := by
  unfold stepLoop? at h
  split at h
  · cases h
  · rename_i frame due hloop
    split at h
    · obtain rfl := Option.some.inj h
      exact .attempts hloop
    · cases h
  · rename_i frame hloop
    split at h
    · obtain rfl := Option.some.inj h
      exact .writes hloop ‹_›
    · cases h
    · obtain rfl := Option.some.inj h
      exact .breaks hloop ‹_›
  · -- The loop listens: a line comes first, then the end of the input, the deadline, a request.
    rename_i hloop
    split at h
    · rename_i bytes inbox hline
      obtain rfl := Option.some.inj h
      cases htext : bytesText? bytes with
      | none =>
        rw [takeLine_of_garbled _ htext]
        exact .garbles hloop hline htext
      | some text =>
        rw [takeLine_of_text htext]
        exact .hears hloop hline htext
    · split at h
      · obtain rfl := Option.some.inj h
        exact .loses hloop ‹_›
      · split at h
        · obtain rfl := Option.some.inj h
          exact .expires hloop ‹_›
        · split at h
          · obtain rfl := Option.some.inj h
            exact .asked hloop ‹_›
          · split at h
            · obtain rfl := Option.some.inj h
              exact .stops hloop ‹_›
            · cases h

/-- The loop can do nothing, or it does one thing. -/
theorem perform_loop (l : Link Origin) : l.perform .loop = (l, []) ∨
    l.LoopStep (l.perform .loop) := by
  simp only [perform]
  cases h : l.stepLoop? with
  | none => exact Or.inl rfl
  | some r => exact Or.inr (loopStep_of_stepLoop h)

/-! ## What the waker can do -/

/-- One thing the waker does. -/
inductive WakerStep (l : Link Origin) : Link Origin × List (LinkEffect Origin) → Prop where
  | stops (h : l.waker = .sleeping) (hready : l.ready = true) :
      WakerStep l ({ l with waker := .stopped }, [])
  | ticks (nextTick : Nat) (h : l.waker = .sleeping) (hready : l.ready = false) :
      WakerStep l ({ l with nextTick }.tryWake, [])
  | attempts {due : Nat} (h : l.waker = .retrying due) : WakerStep l (l.tryWake, [])
  | pokes (h : l.waker = .holding) :
      WakerStep l ({ l with gate := l.gate.release, waker := .sleeping }, [.write .wakeUp])
  | breaks (h : l.waker = .holding) (hport : l.port = .broken) :
      WakerStep l ({ l with gate := l.gate.release, waker := .sleeping }, [])

omit [DecidableEq Origin] in
/-- All that the waker does is one of the steps, with the guard under which it is taken. -/
theorem wakerStep_of_stepWaker {l : Link Origin} {r : Link Origin × List (LinkEffect Origin)}
    (h : l.stepWaker? = some r) : l.WakerStep r := by
  unfold stepWaker? at h
  cases hw : l.waker with
  | stopped =>
    rw [hw] at h
    cases h
  | sleeping =>
    simp only [hw] at h
    split at h
    · split at h
      · obtain rfl := Option.some.inj h
        exact .stops hw ‹_›
      · obtain rfl := Option.some.inj h
        exact .ticks _ hw (Bool.eq_false_iff.mpr ‹_›)
    · cases h
  | retrying due =>
    simp only [hw] at h
    split at h
    · obtain rfl := Option.some.inj h
      exact .attempts hw
    · cases h
  | holding =>
    simp only [hw] at h
    split at h
    · obtain rfl := Option.some.inj h
      exact .pokes hw
    · cases h
    · obtain rfl := Option.some.inj h
      exact .breaks hw ‹_›

/-- The waker can do nothing, or it does one thing. -/
theorem perform_waker (l : Link Origin) :
    l.perform .waker = (l, []) ∨ l.WakerStep (l.perform .waker) := by
  simp only [perform]
  cases h : l.stepWaker? with
  | none => exact Or.inl rfl
  | some r => exact Or.inr (wakerStep_of_stepWaker h)

omit [DecidableEq Origin] in
theorem tryWake_frame (l : Link Origin) :
    l.tryWake.session = l.session ∧ l.tryWake.loop = l.loop ∧
      l.tryWake.ackDeadline = l.ackDeadline ∧ l.tryWake.now = l.now := by
  unfold tryWake
  split <;> exact ⟨rfl, rfl, rfl, rfl⟩

omit [DecidableEq Origin] in
/-- The waker shares with the loop nothing but the gate. -/
theorem WakerStep.frame {l : Link Origin} {r : Link Origin × List (LinkEffect Origin)}
    (h : l.WakerStep r) :
    (r.1.session = l.session ∧ r.1.loop = l.loop ∧ r.1.ackDeadline = l.ackDeadline ∧
        r.1.now = l.now) ∧
      (r.2 = [] ∨ r.2 = [.write .wakeUp]) := by
  cases h with
  | ticks nextTick _ _ => exact ⟨tryWake_frame _, Or.inl rfl⟩
  | attempts _ => exact ⟨tryWake_frame _, Or.inl rfl⟩
  | pokes _ => exact ⟨⟨rfl, rfl, rfl, rfl⟩, Or.inr rfl⟩
  | stops _ _ | breaks _ _ => exact ⟨⟨rfl, rfl, rfl, rfl⟩, Or.inl rfl⟩

/-! ## What the others can do

Bytes, requests and time come in from outside. They change what the loop will find, and nothing of
what it is doing. -/

/-- Only the loop changes the session, the deadline and itself. -/
theorem perform_frame (l : Link Origin) {m : Move Origin} (hm : m ≠ .loop) :
    ((l.perform m).1.session = l.session ∧ (l.perform m).1.loop = l.loop ∧
        (l.perform m).1.ackDeadline = l.ackDeadline) ∧
      ((l.perform m).2 = [] ∨ (l.perform m).2 = [.write .wakeUp]) := by
  cases m with
  | loop => exact absurd rfl hm
  | waker =>
    rcases l.perform_waker with h | h
    · rw [h]
      exact ⟨⟨rfl, rfl, rfl⟩, Or.inl rfl⟩
    · obtain ⟨⟨hsession, hloop, hdeadline, -⟩, heffects⟩ := h.frame
      exact ⟨⟨hsession, hloop, hdeadline⟩, heffects⟩
  | receive bytes =>
    refine ⟨?_, Or.inl rfl⟩
    simp only [perform]
    split <;> exact ⟨rfl, rfl, rfl⟩
  | request r =>
    refine ⟨?_, Or.inl rfl⟩
    simp only [perform]
    split <;> exact ⟨rfl, rfl, rfl⟩
  | endInput | endRequests | port p | wait ms => exact ⟨⟨rfl, rfl, rfl⟩, Or.inl rfl⟩

/-! ## Links that are driven

Driving a link is making moves and letting time pass, in an order that the driver picks. So whatever
holds of all runs holds of what a driver does. -/

omit [DecidableEq Origin] in
theorem now_tryWrite (l : Link Origin) (frame : Frame) : (l.tryWrite frame).1.now = l.now := by
  rcases l.tryWrite_cases frame with ⟨gate, loop, -, h⟩ | ⟨gate, h⟩ <;> rw [h]

omit [DecidableEq Origin] in
theorem now_answer (l : Link Origin) (r : Reply Origin (Option Frame)) :
    (l.answer r).1.now = l.now := by
  cases h : r.result with
  | none => rw [answer_of_none h]
  | some frame =>
    rw [answer_of_some h]
    exact now_tryWrite _ frame

/-- No task makes time pass. -/
theorem LoopStep.now {l : Link Origin} {r : Link Origin × List (LinkEffect Origin)}
    (h : l.LoopStep r) : r.1.now = l.now := by
  cases h with
  | attempts _ => exact now_tryWrite l _
  | hears _ _ _ => exact now_answer _ _
  | asked _ _ => exact now_answer _ _
  | writes _ _ | breaks _ _ | garbles _ _ _ | loses _ _ | expires _ _ | stops _ _ => rfl

theorem now_of_step {l : Link Origin} {r : Link Origin × List (LinkEffect Origin)}
    (h : l.step? = some r) : r.1.now = l.now := by
  unfold step? at h
  cases hloop : l.stepLoop? with
  | some r' =>
    rw [hloop] at h
    obtain rfl : r' = r := by simpa using h
    exact (loopStep_of_stepLoop hloop).now
  | none =>
    rw [hloop, Option.none_or] at h
    exact (wakerStep_of_stepWaker h).frame.1.2.2.2

/-- The link and the effects are those of some run. -/
def Runs (l : Link Origin) (r : Link Origin × List (LinkEffect Origin)) : Prop :=
  ∃ moves, r = (l.after moves, l.effects moves)

theorem Runs.refl (l : Link Origin) : l.Runs (l, []) :=
  ⟨[], rfl⟩

theorem Runs.append {l : Link Origin} {r r' : Link Origin × List (LinkEffect Origin)}
    (h : l.Runs r) (h' : r.1.Runs r') : l.Runs (r'.1, r.2 ++ r'.2) := by
  obtain ⟨xs, rfl⟩ := h
  obtain ⟨ys, rfl⟩ := h'
  exact ⟨xs ++ ys, by rw [after_append, effects_append]⟩

theorem runs_perform (l : Link Origin) (m : Move Origin) : l.Runs (l.perform m) :=
  ⟨[m], by simp [after, effects]⟩

/-- A step of either task is a run of one move. -/
theorem runs_step {l : Link Origin} {r : Link Origin × List (LinkEffect Origin)}
    (h : l.step? = some r) : l.Runs r := by
  unfold step? at h
  cases hloop : l.stepLoop? with
  | some r' =>
    rw [hloop] at h
    obtain rfl : r' = r := by simpa using h
    simpa [perform, hloop] using l.runs_perform .loop
  | none =>
    rw [hloop, Option.none_or] at h
    simpa [perform, h] using l.runs_perform .waker

/-- Letting the tasks do what they can is a run, in which no time passes. -/
theorem runs_settleFor (n : Nat) (l : Link Origin) :
    l.Runs (l.settleFor n) ∧ (l.settleFor n).1.now = l.now := by
  induction n generalizing l with
  | zero => exact ⟨.refl l, rfl⟩
  | succ n ih =>
    rw [settleFor]
    cases hstep : l.step? with
    | none => exact ⟨.refl l, rfl⟩
    | some r =>
      obtain ⟨hruns, hnow⟩ := ih r.1
      exact ⟨(runs_step hstep).append hruns, hnow.trans (now_of_step hstep)⟩

theorem runs_until {l : Link Origin} {moment : Nat} (h : l.now ≤ moment) :
    l.Runs ({ l with now := moment }, []) := by
  have hwait := l.runs_perform (.wait (moment - l.now))
  simpa only [perform, Nat.add_sub_cancel' h] using hwait

/-- What is due on the way happens when it is due, and time passes in between. -/
theorem runs_passUntil {moment : Nat} (n : Nat) {l : Link Origin} (h : l.now ≤ moment) :
    l.Runs (passUntil moment n l) := by
  induction n generalizing l with
  | zero => exact runs_until h
  | succ n ih =>
    rw [passUntil]
    cases hdue : (l.dueTimes.filter (· ≤ moment)).min? with
    | none => exact runs_until h
    | some due =>
      have hle : due ≤ moment := by
        have hmem := List.min?_mem hdue
        simpa using (List.mem_filter.mp hmem).2
      have hmax : max l.now due ≤ moment := Nat.max_le.mpr ⟨h, hle⟩
      obtain ⟨hruns, hnow⟩ := runs_settleFor { l with now := max l.now due }.stepBound
        { l with now := max l.now due }
      have hfirst := (runs_until (Nat.le_max_left l.now due)).append hruns
      exact hfirst.append (ih (Nat.le_trans (Nat.le_of_eq hnow) hmax))

/-- Everything that can be done with a link makes a run: starting it, letting something come in, and
letting time pass. -/
theorem runs_of_driven (l : Link Origin) :
    l.Runs l.settle ∧ (∀ bytes, l.Runs (l.receive bytes)) ∧ l.Runs l.endInput ∧
      (∀ r, l.Runs (l.request r)) ∧ l.Runs l.endRequests ∧ (∀ p, l.Runs (l.setPort p)) ∧
      ∀ ms, l.Runs (l.sleep ms) := by
  have hsettle : ∀ l : Link Origin, l.Runs l.settle := fun l => (runs_settleFor l.stepBound l).1
  -- Whatever comes in is a move without effects, and the steps that follow are a run.
  have hreact : ∀ m : Move Origin, (l.perform m).2 = [] → l.Runs (l.perform m).1.settle := by
    intro m hm
    have hruns := (l.runs_perform m).append (hsettle (l.perform m).1)
    rwa [hm, List.nil_append] at hruns
  exact ⟨hsettle l, fun bytes => hreact (.receive bytes) rfl, hreact .endInput rfl,
    fun r => hreact (.request r) rfl, hreact .endRequests rfl, fun p => hreact (.port p) rfl,
    fun ms => runs_passUntil ms (Nat.le_add_right _ _)⟩

end Link

end BlockLink
