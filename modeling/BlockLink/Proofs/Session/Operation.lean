import BlockLink.Proofs.Registry
import BlockLink.Proofs.Upload.Step
import BlockLink.Session.Basic

/-!
# `BlockLink/Proofs/Session/Operation.lean` — runs of a session

Whatever happens to a session is one of nine operations: the editor asks for something, the link
fails, or the board prints a line. A run is a list of them, and three views of a run are what the
theorems speak of: the session after it (`after`), the frames that were handed out (`frames`) and
what was shown (`shown`), both in order.

What sending, evaluating and running come to is said here once, so that no later proof opens them: a
request fails or goes through, and the session it leaves is given in each case.
-/

set_option autoImplicit false

namespace BlockLink

/-- Something that happens to a session. -/
inductive Operation (Origin : Type) where
  | run (scripts : List (Origin × Block))
  | evaluate (origin : Origin) (block : Block)
  | stopAll
  | suspendAll
  | resumeAll
  | wakeUp
  | removeChain (origin : Origin)
  | linkFailed (e : LinkError)
  /-- The board printed a line. -/
  | line (text : String)

/-- How many scripts an operation runs. -/
def Operation.chains {Origin : Type} : Operation Origin → Nat
  | .run scripts => scripts.length
  | _ => 0

/-- How many scripts operations in order run. -/
def chainsRun {Origin : Type} : List (Operation Origin) → Nat
  | [] => 0
  | op :: ops => op.chains + chainsRun ops

theorem chainsRun_append {Origin : Type} (xs ys : List (Operation Origin)) :
    chainsRun (xs ++ ys) = chainsRun xs + chainsRun ys := by
  induction xs with
  | nil => simp [chainsRun]
  | cons op xs ih => simp only [List.cons_append, chainsRun, ih, Nat.add_assoc]

/-- The operation makes the session forget all that was running. -/
def Operation.Clears {Origin : Type} : Operation Origin → Prop
  | .stopAll | .linkFailed .closed => True
  | _ => False

/-- The frame to write when a program was sent: only the beginning of an upload has one. -/
def SendStatus.frame? : SendStatus → Option Frame
  | .started _ => some .uploadStart
  | .skipped | .queued _ => none

/-- What the user is told when a program was sent. -/
def SendStatus.notice : SendStatus → Status
  | .skipped => .unchanged
  | .started chunks | .queued chunks => .uploading chunks

namespace Session

variable {Origin : Type}

/-! ## Sending a program -/

/-- Sending a program says what the channel did with it. -/
theorem sendProgram_eq (s : Session Origin) (toStart : List UnitId) :
    let sent := s.upload.send (Program.build s.units.values toStart s.settings.mark)
    s.sendProgram toStart
      = ⟨sent.1.frame?, [.status sent.1.notice], { s with upload := sent.2 }⟩ := by
  intro sent
  cases hs : s.upload.send (Program.build s.units.values toStart s.settings.mark) with
  | mk status upload =>
    have hsent : sent = (status, upload) := hs
    rw [hsent]
    simp only [sendProgram, hs]
    cases status <;> rfl

/-! ## Evaluating a reporter -/

/-- Evaluating fails and changes nothing, or writes a console line and awaits the value. -/
theorem evaluate_cases (s : Session Origin) (origin : Origin) (block : Block) :
    (∃ e, s.evaluate origin block = ⟨.error e, [.status (.compileFailed e.message)], s⟩) ∨
      ∃ line ds, s.evaluate origin block = ⟨.ok (.command line),
        s.showReports ds ++ lowlight s.adhoc ++ [.highlight origin true],
        { s.markReported ds with adhoc := some origin }⟩ := by
  unfold evaluate
  dsimp only
  split
  · rename_i e _
    exact Or.inl ⟨e, rfl⟩
  · exact Or.inr ⟨_, _, rfl⟩

/-! ## The beginning and the end of units -/

theorem handleLine_started {s : Session Origin} {text data : String} {id : UnitId} {o : Origin}
    (hline : Event.ofLine text = .threadStarted id data) (hid : s.registry.resolve id = some o) :
    s.handleLine text = ⟨none, [.highlight o true], s⟩ := by
  simp only [handleLine, hline, handleEvent, hid]

theorem handleLine_ended {s : Session Origin} {text data : String} {id : UnitId} {o : Origin}
    (hline : Event.ofLine text = .threadEnded id data) (hid : s.registry.resolve id = some o) :
    s.handleLine text = ⟨none, [.highlight o false], s.unitEnded id⟩ := by
  simp only [handleLine, hline, handleEvent, hid]

theorem unitEnded_of_alive {s : Session Origin} {id : UnitId} (h : s.units.contains id = true) :
    s.unitEnded id = { s with units := s.units.erase id, upload := s.upload.forgetSent } :=
  if_pos h

theorem unitEnded_of_gone {s : Session Origin} {id : UnitId} (h : s.units.contains id = false) :
    s.unitEnded id = s :=
  if_neg (by simp [h])

variable [DecidableEq Origin]

/-! ## Removing a script -/

theorem removeChain_of_none {s : Session Origin} {origin : Origin}
    (h : s.registry.idOf origin = none) : s.removeChain origin = ([], s) := by
  unfold removeChain
  rw [Registry.freeOrigin_of_none h]

/-- A script that is removed is put out if its unit is alive, and takes its id with it. -/
theorem removeChain_of_some {s : Session Origin} {origin : Origin} {id : UnitId}
    (h : s.registry.idOf origin = some id) :
    s.removeChain origin = (if s.units.contains id then [.highlight origin false] else [],
      { s with registry := (s.registry.freeOrigin origin).2, units := s.units.erase id }) := by
  unfold removeChain
  rw [Registry.freeOrigin_of_some h]

/-! ## Runs -/

/-- Performs an operation. One that fails, or has nothing to write, gives no frame. -/
def perform (s : Session Origin) : Operation Origin → Reply Origin (Option Frame)
  | .run scripts =>
    let r := s.run scripts
    ⟨r.result.toOption.join, r.shown, r.session⟩
  | .evaluate origin block =>
    let r := s.evaluate origin block
    ⟨r.result.toOption, r.shown, r.session⟩
  | .stopAll => ⟨some s.stopAll.result, s.stopAll.shown, s.stopAll.session⟩
  | .suspendAll => ⟨some s.suspendAll.result, s.suspendAll.shown, s.suspendAll.session⟩
  | .resumeAll => ⟨some s.resumeAll.result, s.resumeAll.shown, s.resumeAll.session⟩
  | .wakeUp => ⟨some s.wakeUp.result, s.wakeUp.shown, s.wakeUp.session⟩
  | .removeChain origin => ⟨none, (s.removeChain origin).1, (s.removeChain origin).2⟩
  | .linkFailed e => ⟨none, (s.linkFailed e).1, (s.linkFailed e).2⟩
  | .line text => s.handleLine text

theorem perform_of_clears (s : Session Origin) {op : Operation Origin} (h : op.Clears) :
    (s.perform op).session = s.clear.2 ∧
      ∃ status, (s.perform op).shown = s.clear.1 ++ [.status status] := by
  cases op with
  | stopAll => exact ⟨rfl, _, rfl⟩
  | linkFailed e =>
    cases e with
    | closed => exact ⟨rfl, _, rfl⟩
    | writeContention _ | io _ | deviceUnresponsive => exact absurd h (fun hf => hf)
  | run _ | evaluate _ _ | suspendAll | resumeAll | wakeUp | removeChain _ | line _ =>
    exact absurd h (fun hf => hf)

/-- The session after operations in order. -/
def after (s : Session Origin) (ops : List (Operation Origin)) : Session Origin :=
  ops.foldl (fun s op => (s.perform op).session) s

/-- The frames that operations in order hand out. -/
def frames (s : Session Origin) : List (Operation Origin) → List Frame
  | [] => []
  | op :: ops => (s.perform op).result.toList ++ (s.perform op).session.frames ops

/-- What operations in order show. -/
def shown (s : Session Origin) : List (Operation Origin) → List (Feedback Origin)
  | [] => []
  | op :: ops => (s.perform op).shown ++ (s.perform op).session.shown ops

theorem after_append (s : Session Origin) (xs ys : List (Operation Origin)) :
    s.after (xs ++ ys) = (s.after xs).after ys :=
  List.foldl_append

theorem after_concat (s : Session Origin) (ops : List (Operation Origin)) (op : Operation Origin) :
    s.after (ops ++ [op]) = ((s.after ops).perform op).session :=
  s.after_append ops [op]

theorem frames_append (s : Session Origin) (xs ys : List (Operation Origin)) :
    s.frames (xs ++ ys) = s.frames xs ++ (s.after xs).frames ys := by
  induction xs generalizing s with
  | nil => rfl
  | cons op xs ih => simp only [List.cons_append, frames, ih, List.append_assoc]; rfl

theorem frames_concat (s : Session Origin) (ops : List (Operation Origin))
    (op : Operation Origin) :
    s.frames (ops ++ [op]) = s.frames ops ++ ((s.after ops).perform op).result.toList := by
  rw [frames_append]
  simp [frames]

theorem shown_append (s : Session Origin) (xs ys : List (Operation Origin)) :
    s.shown (xs ++ ys) = s.shown xs ++ (s.after xs).shown ys := by
  induction xs generalizing s with
  | nil => rfl
  | cons op xs ih => simp only [List.cons_append, shown, ih, List.append_assoc]; rfl

theorem shown_concat (s : Session Origin) (ops : List (Operation Origin))
    (op : Operation Origin) :
    s.shown (ops ++ [op]) = s.shown ops ++ ((s.after ops).perform op).shown := by
  rw [shown_append]
  simp [shown]

theorem after_induction {P : Session Origin → Prop} {s : Session Origin} (hs : P s)
    (hstep : ∀ s op, P s → P (s.perform op).session) (ops : List (Operation Origin)) :
    P (s.after ops) := by
  induction ops generalizing s with
  | nil => exact hs
  | cons op ops ih => exact ih (hstep s op hs)

/-! ## Running scripts -/

/-- What compiling scripts in a session comes to. -/
def compiled (s : Session Origin) (scripts : List (Origin × Block)) : CompiledScripts Origin :=
  compileScripts s.board s.settings.shouldYield scripts [] s.registry .initial

/-- The session that has the units of scripts and has not sent them. -/
def loaded (s : Session Origin) (scripts : List (Origin × Block))
    (units : List (CompiledUnit Origin)) : Session Origin :=
  { s.markReported (s.compiled scripts).state.diagnostics with
    registry := (s.compiled scripts).registry, units := addUnits s.units units }

/-- The program that running scripts sends. -/
def programOf (s : Session Origin) (scripts : List (Origin × Block))
    (units : List (CompiledUnit Origin)) : String :=
  Program.build (s.loaded scripts units).units.values (units.map (·.id)) s.settings.mark

theorem run_of_error {s : Session Origin} {scripts : List (Origin × Block)} {o : Origin}
    {e : CompileError} (h : (s.compiled scripts).result = .error (o, e)) :
    s.run scripts = ⟨.error e, [.status (.compileFailed e.message)],
      { s with registry := (s.compiled scripts).registry }⟩ := by
  unfold compiled at h ⊢
  simp only [run, h]

/-- A run that goes through leaves the units of the scripts, and their program with the channel. -/
theorem run_of_ok {s : Session Origin} {scripts : List (Origin × Block)}
    {units : List (CompiledUnit Origin)} (h : (s.compiled scripts).result = .ok units) :
    let sent := s.upload.send (s.programOf scripts units)
    s.run scripts = ⟨.ok sent.1.frame?,
      s.showReports (s.compiled scripts).state.diagnostics ++ [.status sent.1.notice],
      { s.loaded scripts units with upload := sent.2 }⟩ := by
  intro sent
  have hrun : s.run scripts
      = ⟨.ok ((s.loaded scripts units).sendProgram (units.map (·.id))).result,
        s.showReports (s.compiled scripts).state.diagnostics
          ++ ((s.loaded scripts units).sendProgram (units.map (·.id))).shown,
        ((s.loaded scripts units).sendProgram (units.map (·.id))).session⟩ := by
    unfold loaded compiled at *
    simp only [run, h]
  rw [hrun, sendProgram_eq]
  rfl

/-- A run goes through exactly if all scripts compile. -/
theorem run_isOk (s : Session Origin) (scripts : List (Origin × Block)) :
    (s.run scripts).result.isOk = (s.compiled scripts).result.isOk := by
  cases hc : (s.compiled scripts).result with
  | error err =>
    rw [run_of_error hc]
    rfl
  | ok units =>
    rw [run_of_ok hc]
    rfl

theorem exists_compiled {s : Session Origin} {scripts : List (Origin × Block)}
    (hok : (s.run scripts).result.isOk = true) :
    ∃ units, (s.compiled scripts).result = .ok units := by
  rw [run_isOk] at hok
  cases hc : (s.compiled scripts).result with
  | error err =>
    rw [hc] at hok
    exact absurd hok (by simp [Except.isOk, Except.toBool])
  | ok units => exact ⟨units, rfl⟩

/-! ## Acknowledging an upload to its end -/

/-- The board asks until the upload is over. -/
def acknowledgements (s : Session Origin) : List (Operation Origin) :=
  List.replicate s.upload.stepsLeft (.line "C")

/-- An acknowledgement takes the next step of the upload, and the last one is told. -/
theorem perform_ack (s : Session Origin) :
    s.perform (.line "C") = ⟨s.upload.chunkReady.1,
      if s.upload.chunkReady.1 = some .trailer then [.status .uploaded] else [],
      { s with upload := s.upload.chunkReady.2 }⟩ := by
  have hline : Event.ofLine "C" = .chunkReady := by decide
  simp only [perform, handleLine, hline, handleEvent]

theorem after_acks (s : Session Origin) (n : Nat) :
    s.after (List.replicate n (.line "C"))
      = { s with upload := (Upload.drainFor n s.upload).2 } := by
  induction n generalizing s with
  | zero => rfl
  | succ n ih =>
    rw [List.replicate_succ, after, List.foldl_cons, perform_ack]
    refine (ih _).trans ?_
    rw [Upload.drainFor_chunkReady]

/-- At the end the program that was on its way is the one last sent. -/
theorem after_acknowledgements {s : Session Origin} {t : Transfer} (hc : s.upload.current = some t)
    (hq : s.upload.queued = none) :
    s.after s.acknowledgements
      = { s with upload := { s.upload with current := none, lastSent := some t.program } } := by
  have hdrain := Upload.drain_of_current hc hq
  rw [Upload.drain] at hdrain
  rw [acknowledgements, after_acks, hdrain]

end Session

end BlockLink
