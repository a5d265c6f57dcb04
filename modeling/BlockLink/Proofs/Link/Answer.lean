import BlockLink.Link.Request
import BlockLink.Proofs.Session.Window

/-!
# `BlockLink/Proofs/Link/Answer.lean` — what a session answers to a link

A link hands lines and requests to its session, and writes the frame that comes back. What it has to
know of the answer is little: whether the frame is to be acknowledged, whether an upload is in
progress afterwards, and whether the user was told of a failure. `Requested` says it for requests; a
line has a frame only if it is the acknowledgement.
-/

set_option autoImplicit false

namespace BlockLink

variable {Origin : Type}

/-- The feedback tells neither of an upload that was abandoned nor of a board that is silent. -/
def Feedback.Calm (f : Feedback Origin) : Prop :=
  f ≠ .status .stopped ∧ f ≠ .status .resetRequired ∧ f ≠ .status .unresponsive

namespace Session

/-- Whatever the board says, the user is not told of an upload that failed. That is only for the
link to find out. -/
theorem calm_handleLine (s : Session Origin) (text : String) :
    ∀ f ∈ (s.handleLine text).shown, f.Calm := by
  unfold handleLine
  cases Event.ofLine text with
  | chunkReady => simp only [handleEvent]; split <;> simp [Feedback.Calm]
  | reporterResult unit value =>
    cases unit with
    | adhoc => simp only [handleEvent]; split <;> simp [Feedback.Calm]
    | id n => simp only [handleEvent]; split <;> simp [Feedback.Calm]
  | threadStarted id data => simp only [handleEvent]; split <;> simp [Feedback.Calm]
  | threadEnded id data => simp only [handleEvent]; split <;> simp [Feedback.Calm]
  | deviceReady => simp only [handleEvent]; split <;> simp [Feedback.Calm]
  | pinValue _ _ | variableValue _ _ | unrecognized _ => simp [handleEvent, Feedback.Calm]

/-- A frame answers only the acknowledgement, and is to be acknowledged unless it ends the
upload. -/
theorem handleLine_some {s : Session Origin} {text : String} {frame : Frame}
    (h : (s.handleLine text).result = some frame) :
    Event.ofLine text = .chunkReady ∧
      (s.handleLine text).session.isUploading = frame.expectsAck := by
  unfold handleLine at h ⊢
  cases he : Event.ofLine text with
  | chunkReady =>
    rw [he] at h
    simp only [handleEvent] at h ⊢
    refine ⟨trivial, ?_⟩
    -- The transmitter answers with the next chunk or with the end of the upload, and nothing if it
    -- is idle.
    have hans := s.upload.answers
    generalize s.upload.chunkReady = r at hans h ⊢
    cases hans with
    | idle hu => simp at h
    | queued hu hq | pending hu hq hp | done hu hq hp =>
      obtain rfl := Option.some.inj h
      rfl
  | reporterResult unit value =>
    rw [he] at h
    cases unit with
    | adhoc => simp only [handleEvent] at h; split at h <;> simp at h
    | id n => simp only [handleEvent] at h; split at h <;> simp at h
  | threadStarted id data | threadEnded id data | deviceReady =>
    rw [he] at h
    simp only [handleEvent] at h
    split at h <;> simp at h
  | pinValue _ _ | variableValue _ _ | unrecognized _ =>
    rw [he] at h
    simp [handleEvent] at h

/-- While there is an upload, its acknowledgement is always answered. -/
theorem handleLine_ack {s : Session Origin} {text : String}
    (hack : Event.ofLine text = .chunkReady) (hup : s.isUploading = true) :
    (s.handleLine text).result ≠ none := by
  unfold handleLine
  rw [hack]
  simp only [handleEvent]
  have hans := s.upload.answers
  generalize s.upload.chunkReady = r at hans ⊢
  cases hans with
  | idle hu => simp [isUploading, Upload.isUploading, hu] at hup
  | queued hu hq | pending hu hq hp | done hu hq hp => simp

theorem handleLine_none {s : Session Origin} {text : String}
    (h : (s.handleLine text).result = none) :
    (s.handleLine text).session.isUploading = s.isUploading := by
  have hwindow := (s.handleLine_window text).2
  rwa [h] at hwindow

theorem calm_showReports (s : Session Origin) (ds : List Diagnostic) :
    ∀ f ∈ s.showReports ds, f.Calm := by
  intro f hf
  obtain ⟨d, -, rfl⟩ := List.mem_map.mp hf
  simp [Feedback.Calm]

theorem calm_clear (s : Session Origin) : ∀ f ∈ s.clear.1, f.Calm := by
  intro f hf
  rcases List.mem_append.mp hf with hf | hf
  · obtain ⟨u, -, rfl⟩ := List.mem_map.mp hf
    simp [Feedback.Calm]
  · cases hadhoc : s.adhoc with
    | none => simp [hadhoc, lowlight] at hf
    | some o =>
      obtain rfl : f = .highlight o false := by simpa [hadhoc, lowlight] using hf
      simp [Feedback.Calm]

variable [DecidableEq Origin]

/-- What a request can do to an upload: begin it, abandon it, or leave it alone. -/
inductive Requested (s : Session Origin) (r : Reply Origin (Option Frame)) : Prop where
  | begun (hframe : r.result = some .uploadStart) (hup : r.session.isUploading = true)
      (hcalm : ∀ f ∈ r.shown, f.Calm)
  | stopped (hframe : r.result = some .stopAll) (hup : r.session.isUploading = false)
      {shown : List (Feedback Origin)} (hshown : r.shown = shown ++ [.status .stopped])
      (hcalm : ∀ f ∈ shown, f.Calm)
  | other (hframe : ∀ f, r.result = some f → f.expectsAck = false)
      (hup : r.session.isUploading = s.isUploading) (hcalm : ∀ f ∈ r.shown, f.Calm)

/-- A run that fails leaves the upload alone, and one that succeeds begins a new one. -/
theorem requested_run (s : Session Origin) (scripts : List (Origin × Block)) :
    s.Requested (s.handleRequest (.run scripts)) := by
  cases hc : (s.compiled scripts).result with
  | error err =>
    simp only [handleRequest, run_of_error hc]
    exact .other (by simp [Except.toOption]) rfl (by simp [Feedback.Calm])
  | ok units =>
    simp only [handleRequest, run_of_ok hc]
    have hsent := s.upload.sends (s.programOf scripts units)
    -- From here on only the outcome of the sending matters.
    generalize s.upload.send (s.programOf scripts units) = sent at hsent ⊢
    have hcalm : ∀ f ∈ s.showReports (s.compiled scripts).state.diagnostics
        ++ [.status sent.1.notice], f.Calm := by
      intro f hf
      rcases List.mem_append.mp hf with hf | hf
      · exact calm_showReports s _ f hf
      · obtain rfl := List.mem_singleton.mp hf
        cases hsent <;> simp [Feedback.Calm, SendStatus.notice]
    cases hsent with
    | idle hu hp => exact .begun rfl rfl hcalm
    | current hu hp | other hu hp | unchanged hu hp =>
      refine .other (by simp [SendStatus.frame?, Except.toOption]) ?_ hcalm
      simp [isUploading, Upload.isUploading, hu]

/-- What a link has to know of the answer to any request. -/
theorem requested_handleRequest (s : Session Origin) (r : Request Origin) :
    s.Requested (s.handleRequest r) := by
  cases r with
  | run scripts => exact requested_run s scripts
  | evaluate origin block =>
    rcases s.evaluate_cases origin block with ⟨e, he⟩ | ⟨line, ds, he⟩
    · simp only [handleRequest, he]
      exact .other (by simp [Except.toOption]) rfl (by simp [Feedback.Calm])
    · simp only [handleRequest, he]
      refine .other (by simp [Except.toOption, Frame.expectsAck]) rfl fun f hf => ?_
      simp only [List.append_assoc, List.mem_append, List.mem_singleton] at hf
      rcases hf with hf | hf | rfl
      · exact calm_showReports s ds f hf
      · exact calm_clear s f (List.mem_append_right _ hf)
      · simp [Feedback.Calm]
  -- Stopping is the one request that abandons an upload, and it says so last.
  | stopAll => exact .stopped rfl rfl rfl s.calm_clear
  | suspendAll =>
    refine .other ?_ rfl ?_
    · simp [handleRequest, suspendAll, Frame.expectsAck]
    · simp [handleRequest, suspendAll, Feedback.Calm]
  | resumeAll =>
    refine .other ?_ rfl ?_
    · simp [handleRequest, resumeAll, Frame.expectsAck]
    · simp [handleRequest, resumeAll, Feedback.Calm]
  | removeChain origin =>
    -- A chain is removed from the registry, which has nothing to do with the upload.
    have hup := congrArg Upload.isUploading (s.removeChain_upload origin)
    refine .other (by simp [handleRequest]) hup fun f hf => ?_
    simp only [handleRequest] at hf
    cases hid : s.registry.idOf origin with
    | none => simp [removeChain_of_none hid] at hf
    | some id =>
      rw [removeChain_of_some hid] at hf
      split at hf
      · obtain rfl := List.mem_singleton.mp hf
        simp [Feedback.Calm]
      · cases hf
  | raw line =>
    exact .other (by simp [handleRequest, Frame.expectsAck]) rfl (by simp [handleRequest])

/-! ## Settings

What was configured when the session began stays as it is, whatever comes in. -/

omit [DecidableEq Origin] in
theorem settings_handleLine (s : Session Origin) (text : String) :
    (s.handleLine text).session.settings = s.settings := by
  unfold handleLine
  cases Event.ofLine text with
  | reporterResult unit value => cases unit <;> (simp only [handleEvent]; split <;> rfl)
  | threadEnded id data =>
    simp only [handleEvent, unitEnded]
    split
    · split <;> rfl
    · rfl
  | threadStarted id data | deviceReady => simp only [handleEvent]; split <;> rfl
  | chunkReady | pinValue _ _ | variableValue _ _ | unrecognized _ => rfl

theorem settings_handleRequest (s : Session Origin) (r : Request Origin) :
    (s.handleRequest r).session.settings = s.settings := by
  cases r with
  | run scripts =>
    cases hc : (s.compiled scripts).result with
    | error err => simp only [handleRequest, run_of_error hc]
    | ok units =>
      simp only [handleRequest, run_of_ok hc]
      rfl
  | evaluate origin block =>
    rcases s.evaluate_cases origin block with ⟨e, he⟩ | ⟨line, ds, he⟩
    · simp only [handleRequest, he]
    · simp only [handleRequest, he]
      rfl
  | removeChain origin =>
    cases hid : s.registry.idOf origin with
    | none => simp only [handleRequest, removeChain_of_none hid]
    | some id => simp only [handleRequest, removeChain_of_some hid]
  | stopAll | suspendAll | resumeAll | raw _ => rfl

end Session

end BlockLink
