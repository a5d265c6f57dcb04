import Mathlib.Data.List.Induction
import BlockLink.Proofs.Session.Operation

/-!
# `BlockLink/Proofs/Session/Window.lean` — what is handed out while the board receives

From the frame that starts an upload to the trailer that ends it the board reads records, and would
take the first byte of anything else for a length. The channel respects that window, and so do
running scripts, removing them and handling lines. The operations that answer with a console line do
not look at the channel at all. So a run keeps the window clean exactly when none of those is
performed inside it: that is the main statement, and an upload that is suspended half way shows that
it says something.
-/

set_option autoImplicit false

namespace BlockLink

/-- A step of an upload that has begun. -/
def Frame.IsStep : Frame → Prop
  | .chunk _ | .restart | .trailer => True
  | _ => False

/-- Whether the board receives after a frame; `opened` says whether it did before. -/
def Frame.window (opened : Bool) : Frame → Bool
  | .uploadStart => true
  | .trailer => false
  | _ => opened

/-- Whether the board receives after frames in order. -/
def windowAfter (frames : List Frame) : Bool :=
  frames.foldl Frame.window false

/-! ## The channel -/

namespace Upload

theorem send_window (u : Upload) (program : String) :
    (u.isUploading = true → (u.send program).1.frame? = none) ∧
      (u.send program).2.isUploading
        = (u.send program).1.frame?.toList.foldl Frame.window u.isUploading := by
  have h := u.sends program
  generalize u.send program = r at h ⊢
  cases h with
  | current hu hp | other hu hp | unchanged hu hp | idle hu hp =>
    simp [SendStatus.frame?, isUploading, Frame.window, hu]

/-- What an acknowledgement is answered with belongs to the upload. -/
theorem chunkReady_window (u : Upload) :
    (∀ f, u.chunkReady.1 = some f → f.IsStep) ∧
      u.chunkReady.2.isUploading = u.chunkReady.1.toList.foldl Frame.window u.isUploading := by
  have h := u.answers
  generalize u.chunkReady = r at h ⊢
  cases h with
  | idle hu | queued hu hq | pending hu hq hp | done hu hq hp =>
    simp [isUploading, Frame.IsStep, Frame.window, hu]

end Upload

/-! ## One operation -/

variable {Origin : Type}

namespace Session

/-- A line from the board is answered with a step of the upload or with nothing. -/
theorem handleLine_window (s : Session Origin) (text : String) :
    (∀ f, (s.handleLine text).result = some f → f.IsStep) ∧
      (s.handleLine text).session.isUploading
        = (s.handleLine text).result.toList.foldl Frame.window s.isUploading := by
  unfold handleLine
  cases Event.ofLine text with
  | chunkReady => exact s.upload.chunkReady_window
  | reporterResult unit value =>
    cases unit with
    | adhoc => simp only [handleEvent]; split <;> exact ⟨by simp, rfl⟩
    | id n => simp only [handleEvent]; split <;> exact ⟨by simp, rfl⟩
  | threadStarted id data => simp only [handleEvent]; split <;> exact ⟨by simp, rfl⟩
  | threadEnded id data =>
    simp only [handleEvent]
    split
    · -- The end of a unit makes the channel forget what was sent, and leaves an upload alone.
      refine ⟨by simp, ?_⟩
      unfold unitEnded
      split <;> rfl
    · exact ⟨by simp, rfl⟩
  | pinValue pin value => exact ⟨by simp [handleEvent], rfl⟩
  | variableValue name value => exact ⟨by simp [handleEvent], rfl⟩
  | deviceReady => simp only [handleEvent]; split <;> exact ⟨by simp, rfl⟩
  | unrecognized line => exact ⟨by simp [handleEvent], rfl⟩

end Session

variable [DecidableEq Origin]

/-- The operation answers with a console line, whatever the board is doing. -/
def Operation.WritesConsole (s : Session Origin) : Operation Origin → Prop
  | .wakeUp | .stopAll | .suspendAll | .resumeAll => True
  | .evaluate origin block => ∃ f, (s.evaluate origin block).result = .ok f
  | _ => False

/-- The operation tells of a failure of the link. -/
def Operation.IsFailure : Operation Origin → Prop
  | .linkFailed _ => True
  | _ => False

namespace Session

/-- A console line is no step of an upload. -/
theorem writesConsole_result {s : Session Origin} {op : Operation Origin}
    (h : op.WritesConsole s) : ∃ f, (s.perform op).result = some f ∧ ¬ f.IsStep := by
  cases op with
  | wakeUp => exact ⟨_, rfl, fun hf => hf⟩
  | stopAll => exact ⟨_, rfl, fun hf => hf⟩
  | suspendAll => exact ⟨_, rfl, fun hf => hf⟩
  | resumeAll => exact ⟨_, rfl, fun hf => hf⟩
  | evaluate origin block =>
    obtain ⟨f, hf⟩ := h
    rcases s.evaluate_cases origin block with ⟨e, he⟩ | ⟨line, ds, he⟩
    · rw [he] at hf
      exact absurd hf (by simp)
    · refine ⟨.command line, ?_, fun hf => hf⟩
      simp only [perform, he]
      rfl
  | run _ | removeChain _ | linkFailed _ | line _ => exact absurd h (fun hf => hf)

theorem removeChain_upload (s : Session Origin) (origin : Origin) :
    (s.removeChain origin).2.upload = s.upload := by
  cases hid : s.registry.idOf origin with
  | none => rw [removeChain_of_none hid]
  | some id => rw [removeChain_of_some hid]

/-- An operation that writes no console line into an upload hands out only its steps there, and the
channel goes on telling whether the board receives. -/
theorem perform_window (s : Session Origin) (op : Operation Origin) (hfail : ¬ op.IsFailure)
    (hop : s.isUploading = true → ¬ op.WritesConsole s) :
    (s.isUploading = true → ∀ f, (s.perform op).result = some f → f.IsStep) ∧
      (s.perform op).session.isUploading
        = (s.perform op).result.toList.foldl Frame.window s.isUploading := by
  cases op with
  | run scripts =>
    cases hc : (s.compiled scripts).result with
    | error err =>
      simp only [perform, run_of_error hc]
      exact ⟨fun _ => by simp [Except.toOption], rfl⟩
    | ok units =>
      obtain ⟨hnone, hwindow⟩ := s.upload.send_window (s.programOf scripts units)
      simp only [perform, run_of_ok hc]
      refine ⟨fun hup f hf => ?_, hwindow⟩
      rw [hnone hup] at hf
      exact absurd hf (by simp [Except.toOption])
  -- An evaluation that goes through writes to the console, so there is no upload.
  | evaluate origin block =>
    rcases s.evaluate_cases origin block with ⟨e, he⟩ | ⟨line, ds, he⟩
    · simp only [perform, he]
      exact ⟨fun _ => by simp [Except.toOption], rfl⟩
    · have hno : ¬ s.isUploading = true := fun hup => hop hup ⟨.command line, by rw [he]⟩
      simp only [perform, he]
      exact ⟨fun hup => absurd hup hno, rfl⟩
  | stopAll =>
    have hno : s.isUploading = false := by
      cases hup : s.isUploading with
      | false => rfl
      | true => exact absurd trivial (hop hup)
    refine ⟨fun hup => absurd hup (by simp [hno]), ?_⟩
    rw [hno]
    rfl
  | suspendAll | resumeAll | wakeUp => exact ⟨fun hup => absurd trivial (hop hup), rfl⟩
  | removeChain origin =>
    refine ⟨fun _ => by simp [perform], ?_⟩
    simp only [perform, isUploading, removeChain_upload]
    rfl
  | linkFailed e => exact absurd trivial hfail
  | line text =>
    obtain ⟨hstep, hwindow⟩ := s.handleLine_window text
    exact ⟨fun _ => hstep, hwindow⟩

/-! ## Whole runs -/

/-- Every frame of a run was handed out by one of its operations. -/
theorem frames_split {s : Session Origin} {ops : List (Operation Origin)} {pre post : List Frame}
    {f : Frame} (h : s.frames ops = pre ++ f :: post) :
    ∃ before op later, ops = before ++ op :: later ∧ s.frames before = pre ∧
      ((s.after before).perform op).result = some f := by
  -- An operation without a frame is skipped; one with a frame is the one, or its frame is in `pre`.
  induction ops generalizing s pre with
  | nil => exact absurd h (by simp [frames])
  | cons op ops ih =>
    rw [frames] at h
    cases hr : (s.perform op).result with
    | none =>
      rw [hr] at h
      obtain ⟨before, op', later, rfl, hpre, hf⟩ := ih h
      refine ⟨op :: before, op', later, rfl, ?_, hf⟩
      rw [frames, hr]
      exact hpre
    | some g =>
      rw [hr] at h
      cases pre with
      | nil =>
        obtain ⟨rfl, -⟩ := List.cons.inj h
        exact ⟨[], op, ops, rfl, rfl, hr⟩
      | cons g' pre =>
        obtain ⟨rfl, hrest⟩ := List.cons.inj h
        obtain ⟨before, op', later, rfl, hpre, hf⟩ := ih hrest
        refine ⟨op :: before, op', later, rfl, ?_, hf⟩
        rw [frames, hr, hpre]
        rfl

theorem windowAfter_append (xs ys : List Frame) :
    windowAfter (xs ++ ys) = ys.foldl Frame.window (windowAfter xs) :=
  List.foldl_append

/-- No console line is written while the board receives, over a whole run. -/
def KeepsWindow (s : Session Origin) (ops : List (Operation Origin)) : Prop :=
  ∀ before op later, ops = before ++ op :: later → windowAfter (s.frames before) = true →
    ¬ op.WritesConsole (s.after before)

theorem KeepsWindow.of_append {s : Session Origin} {xs ys : List (Operation Origin)}
    (h : s.KeepsWindow (xs ++ ys)) : s.KeepsWindow xs := by
  intro before op later hops
  exact h before op (later ++ ys) (by rw [hops, List.append_assoc, List.cons_append])

/-- As long as the window is kept, it is open exactly while the channel uploads. -/
theorem windowAfter_frames {s : Session Origin} (hs : s.isUploading = false)
    {ops : List (Operation Origin)} (hfail : ∀ op ∈ ops, ¬ op.IsFailure)
    (hkeep : s.KeepsWindow ops) :
    windowAfter (s.frames ops) = (s.after ops).isUploading := by
  induction ops using List.reverseRecOn with
  | nil => exact hs.symm
  | append_singleton ops op ih =>
    have hopen : windowAfter (s.frames ops) = (s.after ops).isUploading :=
      ih (fun op' hop' => hfail op' (List.mem_append_left _ hop')) hkeep.of_append
    have hop : (s.after ops).isUploading = true → ¬ op.WritesConsole (s.after ops) := by
      intro hup
      exact hkeep ops op [] rfl (hopen.trans hup)
    rw [frames_concat, windowAfter_append, hopen, after_concat]
    exact ((s.after ops).perform_window op (hfail op (by simp)) hop).2.symm

end Session

/-- Over every run of a new session in which the link does not fail, all frames handed out while the
board receives are steps of the upload exactly if no operation that answers with a console line is
performed there. -/
theorem only_steps_in_window_iff (board : Board) (settings : Settings)
    (ops : List (Operation Origin)) (hfail : ∀ op ∈ ops, ¬ op.IsFailure) :
    let s : Session Origin := Session.new board settings
    (∀ pre f post, s.frames ops = pre ++ f :: post → windowAfter pre = true → f.IsStep) ↔
      s.KeepsWindow ops := by
  intro s
  constructor
  · intro hsteps before op later hops hopen hop
    obtain ⟨f, hf, hno⟩ := Session.writesConsole_result hop
    -- The console line stands among the frames where the window is open.
    have hframes : s.frames ops
        = s.frames before ++ f :: ((s.after before).perform op).session.frames later := by
      rw [hops, Session.frames_append, Session.frames, hf]
      rfl
    exact hno (hsteps _ f _ hframes hopen)
  · intro hkeep pre f post hframes hopen
    obtain ⟨before, op, later, rfl, rfl, hf⟩ := Session.frames_split hframes
    have hop : ¬ op.WritesConsole (s.after before) := hkeep before op later rfl hopen
    have hbefore : ∀ op' ∈ before, ¬ op'.IsFailure :=
      fun op' hop' => hfail op' (List.mem_append_left _ hop')
    -- So far the window was kept, and so it is open only if there is an upload.
    have hup : (s.after before).isUploading = true := by
      rw [← Session.windowAfter_frames rfl hbefore hkeep.of_append]
      exact hopen
    exact ((s.after before).perform_window op (hfail op (by simp)) (fun _ => hop)).1 hup f hf

/-- Suspending before the upload and handling an acknowledgement during it keep the window. -/
theorem only_steps_in_window_suspended_before :
    let s : Session Nat := Session.new .blank {}
    let ops : List (Operation Nat) :=
      [.suspendAll, .run [(1, .mk "receiveGo" .hat [] none)], .line "C"]
    (∀ op ∈ ops, ¬ op.IsFailure) ∧ windowAfter (s.frames (ops.take 2)) = true ∧
      ∀ pre f post, s.frames ops = pre ++ f :: post → windowAfter pre = true → f.IsStep := by
  intro s ops
  have hfail : ∀ op ∈ ops, ¬ op.IsFailure := by simp [ops, Operation.IsFailure]
  have hkeep : s.KeepsWindow ops := by
    intro before op later hops hopen
    rcases before with _ | ⟨a, _ | ⟨b, _ | ⟨c, rest⟩⟩⟩
    · exact absurd hopen (by decide)
    · obtain ⟨-, rfl, -⟩ : _ ∧ _ := by simpa [ops] using hops
      exact fun hop => hop
    · obtain ⟨-, -, rfl, -⟩ : _ ∧ _ := by simpa [ops] using hops
      exact fun hop => hop
    · exact absurd hops (by simp [ops])
  exact ⟨hfail, by decide +kernel, (only_steps_in_window_iff .blank {} ops hfail).mpr hkeep⟩

/-- Suspending during an upload hands out a console line that the board reads as a record. -/
theorem suspend_breaks_window :
    let s : Session Nat := Session.new .blank {}
    let ops : List (Operation Nat) := [.run [(1, .mk "receiveGo" .hat [] none)], .suspendAll]
    ¬ ∀ pre f post, s.frames ops = pre ++ f :: post → windowAfter pre = true → f.IsStep := by
  intro s ops hsteps
  have hframes : s.frames ops = [.uploadStart] ++ .suspendAll :: [] := by decide +kernel
  exact hsteps [.uploadStart] .suspendAll [] hframes rfl

end BlockLink
