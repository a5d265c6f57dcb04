import BlockLink.Proofs.Event
import BlockLink.Proofs.Link.Answer
import BlockLink.Proofs.Link.Move

/-!
# `BlockLink/Proofs/Link/Watchdog.lean` — the deadline and the upload

The session knows whether an upload is in progress; the loop keeps the deadline for the board's next
acknowledgement. They are meant to go together: while the loop waits, a deadline is set exactly if
something is on its way. Neither half holds in every run, and the two main statements say when it
does.

*An upload has a deadline.* The loop clears the deadline at a line that reads `C` when all blanks
behind it are dropped; the session takes only a line that reads `C` when its line ends are dropped.
A line between the two (`SpoiltAck`) clears the deadline and leaves the upload where it is. Nothing
else does so.

*A deadline has an upload.* Stopping everything and a write that is refused abandon the upload, and
leave the deadline. So what an expiry finds is told by what was last written and shown
(`awaitedAfter`): an upload, if a frame to be acknowledged was written since the last abandonment.
-/

set_option autoImplicit false

namespace BlockLink

open BlockLink.Text

variable {Origin : Type}

/-! ## Acknowledgements

The loop and the session each read the line on their own, and they do not drop the same characters
at its end. -/

/-- The letter `C` with blanks behind it that are not all line ends. -/
def SpoiltAck (line : String) : Prop :=
  ∃ blanks, line.toList = 'C' :: blanks ∧ (∀ c ∈ blanks, isBlank c = true) ∧
    ∃ c ∈ blanks, Event.isLineEnd c = false

/-- Line ends are blanks, so what the session takes for an acknowledgement the loop does too. -/
theorem isBlank_of_isLineEnd {c : Char} (h : Event.isLineEnd c = true) : isBlank c = true := by
  simp only [Event.isLineEnd, Bool.or_eq_true, beq_iff_eq] at h
  rcases h with rfl | rfl <;> decide

theorem ofLine_ack_iff {line : String} :
    Event.ofLine line = .chunkReady ↔
      ∃ ends, line.toList = 'C' :: ends ∧ ∀ c ∈ ends, Event.isLineEnd c = true :=
  Event.ofLine_eq_chunkReady_iff.trans (dropEnd_eq_singleton_iff (by decide))

theorem trimEnd_ack_iff {line : String} :
    trimEnd line.toList = ['C'] ↔
      ∃ blanks, line.toList = 'C' :: blanks ∧ ∀ c ∈ blanks, isBlank c = true :=
  dropEnd_eq_singleton_iff (by decide)

theorem trimEnd_of_ofLine_ack {line : String} (h : Event.ofLine line = .chunkReady) :
    trimEnd line.toList = ['C'] := by
  obtain ⟨ends, hline, hends⟩ := ofLine_ack_iff.mp h
  exact trimEnd_ack_iff.mpr ⟨ends, hline, fun c hc => isBlank_of_isLineEnd (hends c hc)⟩

/-- The two readings of a line differ exactly on spoilt acknowledgements. -/
theorem spoiltAck_iff {line : String} :
    SpoiltAck line ↔ trimEnd line.toList = ['C'] ∧ Event.ofLine line ≠ .chunkReady := by
  constructor
  · rintro ⟨blanks, hline, hblanks, c, hc, hend⟩
    refine ⟨trimEnd_ack_iff.mpr ⟨blanks, hline, hblanks⟩, fun hack => ?_⟩
    obtain ⟨ends, hline', hends⟩ := ofLine_ack_iff.mp hack
    rw [hline] at hline'
    obtain rfl := (List.cons.inj hline').2
    rw [hends c hc] at hend
    cases hend
  · rintro ⟨htrim, hack⟩
    obtain ⟨blanks, hline, hblanks⟩ := trimEnd_ack_iff.mp htrim
    refine ⟨blanks, hline, hblanks, ?_⟩
    by_contra hends
    refine hack (ofLine_ack_iff.mpr ⟨blanks, hline, fun c hc => ?_⟩)
    by_contra hend
    exact hends ⟨c, hc, by simpa using hend⟩

/-! ## An upload has a deadline

The invariant is kept by everything but one kind of line, and a run in which no such line comes
keeps it throughout. -/

/-- Whether the loop is busy with a frame that will set the deadline. -/
def LoopState.setsDeadline (s : LoopState) : Bool :=
  s.frame?.any Frame.expectsAck

namespace Link

theorem isDone_of_listening {l : Link Origin} (h : l.loop = .listening) : l.isDone = false := by
  simp [isDone, h]

theorem setsDeadline_of_listening {l : Link Origin} (h : l.loop = .listening) :
    l.loop.setsDeadline = false := by
  simp [LoopState.setsDeadline, LoopState.frame?, h]

theorem isUploading_cancel (s : Session Origin) :
    ({ s with upload := s.upload.cancel } : Session Origin).isUploading = false := rfl

/-- While an upload is in progress a deadline is set, or is about to be. -/
def Watched (l : Link Origin) : Prop :=
  l.isDone = false → l.session.isUploading = true →
    l.ackDeadline.isSome = true ∨ l.loop.setsDeadline = true

/-- While the loop listens nothing is about to be written, so the deadline itself is set. -/
theorem Watched.deadline {l : Link Origin} (h : l.Watched) (hloop : l.loop = .listening)
    (hup : l.session.isUploading = true) : l.ackDeadline.isSome = true := by
  rcases h (isDone_of_listening hloop) hup with hset | hpending
  · exact hset
  · rw [setsDeadline_of_listening hloop] at hpending
    cases hpending

/-- An attempt that is refused abandons the upload, and any other leaves the loop busy with the
frame. -/
theorem watched_tryWrite {l : Link Origin} {frame : Frame}
    (h : l.session.isUploading = true →
      l.ackDeadline.isSome = true ∨ frame.expectsAck = true) :
    (l.tryWrite frame).1.Watched := by
  rcases l.tryWrite_cases frame with ⟨gate, loop, hloop, heq⟩ | ⟨gate, heq⟩
  · rw [heq]
    intro _ hup
    rcases h hup with hset | hack
    · exact Or.inl hset
    · exact Or.inr (by simp [LoopState.setsDeadline, hloop, hack])
  · rw [heq]
    intro _ hup
    rw [isUploading_cancel] at hup
    cases hup

/-- An answer is watched if the deadline is set already, or will be by the frame of the answer. -/
theorem watched_answer {l : Link Origin} {r : Reply Origin (Option Frame)}
    (h : r.session.isUploading = true →
      l.ackDeadline.isSome = true ∨ ∃ f, r.result = some f ∧ f.expectsAck = true) :
    (l.answer r).1.Watched := by
  cases hr : r.result with
  | none =>
    rw [answer_of_none hr]
    intro _ hup
    rcases h hup with hset | ⟨f, hf, -⟩
    · exact Or.inl hset
    · rw [hr] at hf
      cases hf
  | some frame =>
    rw [answer_of_some hr]
    apply watched_tryWrite
    intro hup
    rcases h hup with hset | ⟨f, hf, hack⟩
    · exact Or.inl hset
    · rw [hr] at hf
      obtain rfl := Option.some.inj hf
      exact Or.inr hack

/-- The line that the loop takes next. -/
def taken? (l : Link Origin) : Option String :=
  match l.loop with
  | .listening => l.takeLine?.bind fun split => bytesText? split.1
  | _ => none

theorem taken?_of_text {l : Link Origin} {bytes inbox : List UInt8} {text : String}
    (h : l.loop = .listening) (hline : l.takeLine? = some (bytes, inbox))
    (htext : bytesText? bytes = some text) : l.taken? = some text := by
  simp [taken?, h, hline, htext]

/-- A line that clears the deadline is the acknowledgement, unless it is spoilt, and the frame that
answers it sets the deadline again. -/
theorem Watched.hearing {l : Link Origin} (h : l.Watched) (hloop : l.loop = .listening)
    {text : String} (hspoilt : l.session.isUploading = true → ¬ SpoiltAck text)
    (inbox : List UInt8) :
    ((l.hearing inbox text).answer (l.session.handleLine text)).1.Watched := by
  apply watched_answer
  intro hup
  cases hr : (l.session.handleLine text).result with
  | some frame =>
    obtain ⟨-, hack⟩ := Session.handleLine_some hr
    exact Or.inr ⟨frame, rfl, hack.symm.trans hup⟩
  | none =>
    rw [Session.handleLine_none hr] at hup
    have hset := h.deadline hloop hup
    -- The line has no answer during an upload, so it is not the acknowledgement.
    have hno : Event.ofLine text ≠ .chunkReady := fun hack => Session.handleLine_ack hack hup hr
    have hkept : ¬ trimEnd text.toList = ['C'] := fun htrim =>
      hspoilt hup (spoiltAck_iff.mpr ⟨htrim, hno⟩)
    exact Or.inl (by simp [Link.hearing, hkept, hset])

variable [DecidableEq Origin]

/-- One step of the loop keeps the upload watched, if no spoilt acknowledgement is taken in it. -/
theorem Watched.loopStep {l : Link Origin} (h : l.Watched)
    (htimeout : l.session.settings.ackTimeoutMs.isSome = true)
    (hspoilt : ∀ text, l.taken? = some text → l.session.isUploading = true → ¬ SpoiltAck text)
    {r : Link Origin × List (LinkEffect Origin)} (hstep : l.LoopStep r) : r.1.Watched := by
  cases hstep with
  | @attempts frame due hloop =>
    apply watched_tryWrite
    intro hup
    rcases h (by simp [isDone, hloop]) hup with hset | hack
    · exact Or.inl hset
    · exact Or.inr (by simpa [LoopState.setsDeadline, LoopState.frame?, hloop] using hack)
  | @writes frame hloop hport =>
    intro _ hup
    rcases h (by simp [isDone, hloop]) hup with hset | hack
    -- The deadline was set before. The frame sets it anew or leaves it.
    · refine Or.inl ?_
      simp only [written]
      split
      · simpa using htimeout
      · exact hset
    · have hack' : frame.expectsAck = true := by
        simpa [LoopState.setsDeadline, LoopState.frame?, hloop] using hack
      exact Or.inl (by simpa [written, hack'] using htimeout)
  | hears hloop hline htext =>
    exact h.hearing hloop (hspoilt _ (taken?_of_text hloop hline htext)) _
  -- An expiry cancels the upload, so there is none to watch.
  | expires hloop hdue =>
    intro _ hup
    cases hup
  | asked hloop hr =>
    apply watched_answer
    intro hup
    cases l.session.requested_handleRequest _ with
    | begun hframe _ _ => exact Or.inr ⟨_, hframe, rfl⟩
    | stopped _ hno _ _ =>
      rw [hno] at hup
      cases hup
    | other _ hsame _ =>
      rw [hsame] at hup
      exact Or.inl (h.deadline hloop hup)
  | breaks _ _ | garbles _ _ _ | loses _ _ | stops _ _ =>
    intro hdone
    cases hdone

/-! The deadline is set only if there is a timeout, and settings do not change. -/

omit [DecidableEq Origin] in
theorem settings_tryWrite (l : Link Origin) (frame : Frame) :
    (l.tryWrite frame).1.session.settings = l.session.settings := by
  rcases l.tryWrite_cases frame with ⟨gate, loop, -, h⟩ | ⟨gate, h⟩ <;> rw [h]

omit [DecidableEq Origin] in
theorem settings_answer (l : Link Origin) (r : Reply Origin (Option Frame)) :
    (l.answer r).1.session.settings = r.session.settings := by
  cases h : r.result with
  | none => rw [answer_of_none h]
  | some frame =>
    rw [answer_of_some h]
    exact settings_tryWrite _ frame

theorem LoopStep.settings {l : Link Origin} {r : Link Origin × List (LinkEffect Origin)}
    (h : l.LoopStep r) : r.1.session.settings = l.session.settings := by
  cases h with
  | attempts _ => exact settings_tryWrite l _
  | hears _ _ _ => exact (settings_answer _ _).trans (l.session.settings_handleLine _)
  | asked _ _ => exact (settings_answer _ _).trans (l.session.settings_handleRequest _)
  | writes _ _ | breaks _ _ | garbles _ _ _ | loses _ _ | expires _ _ | stops _ _ => rfl

theorem settings_perform (l : Link Origin) (m : Move Origin) :
    (l.perform m).1.session.settings = l.session.settings := by
  by_cases hm : m = .loop
  · subst hm
    rcases l.perform_loop with hidle | hstep
    · rw [hidle]
    · exact hstep.settings
  · rw [(l.perform_frame hm).1.1]

theorem settings_after (l : Link Origin) (moves : List (Move Origin)) :
    (l.after moves).session.settings = l.session.settings := by
  induction moves generalizing l with
  | nil => rfl
  | cons m moves ih => exact (ih _).trans (l.settings_perform m)

/-- Only the loop touches the deadline and the upload, so the other moves keep everything. -/
theorem Watched.perform {l : Link Origin} (h : l.Watched)
    (htimeout : l.session.settings.ackTimeoutMs.isSome = true) {m : Move Origin}
    (hspoilt : m = .loop → ∀ text, l.taken? = some text → l.session.isUploading = true →
      ¬ SpoiltAck text) : (l.perform m).1.Watched := by
  by_cases hm : m = .loop
  · subst hm
    rcases l.perform_loop with hidle | hstep
    · rw [hidle]
      exact h
    · exact h.loopStep htimeout (hspoilt rfl) hstep
  · obtain ⟨⟨hsession, hloop, hdeadline⟩, -⟩ := l.perform_frame hm
    unfold Watched isDone
    rw [hsession, hloop, hdeadline]
    exact h

omit [DecidableEq Origin] in
theorem ackDeadline_tryWrite (l : Link Origin) (frame : Frame) :
    (l.tryWrite frame).1.ackDeadline = l.ackDeadline := by
  rcases l.tryWrite_cases frame with ⟨gate, loop, -, h⟩ | ⟨gate, h⟩ <;> rw [h]

omit [DecidableEq Origin] in
/-- A line clears the deadline by its text alone, whatever its answer is. -/
theorem ackDeadline_takeLine (l : Link Origin) {bytes : List UInt8} {text : String}
    (htext : bytesText? bytes = some text) :
    (l.takeLine bytes).1.ackDeadline
      = if trimEnd text.toList = ['C'] then none else l.ackDeadline := by
  have htake : l.takeLine bytes = (l.hearing l.inbox text).answer (l.session.handleLine text) :=
    takeLine_of_text htext l.inbox
  rw [htake]
  cases hr : (l.session.handleLine text).result with
  | none =>
    rw [answer_of_none hr]
    rfl
  | some frame =>
    rw [answer_of_some hr]
    exact ackDeadline_tryWrite _ frame

theorem stepLoop_of_line {l : Link Origin} {bytes inbox : List UInt8} (hloop : l.loop = .listening)
    (hline : l.takeLine? = some (bytes, inbox)) :
    l.stepLoop? = some ({ l with inbox }.takeLine bytes) := by
  unfold stepLoop?
  split
  · simp_all
  · simp_all
  · simp_all
  · rw [hline]

/-- A spoilt acknowledgement leaves the upload without a deadline. -/
theorem unwatched_of_spoilt {l : Link Origin} {text : String} (htaken : l.taken? = some text)
    (hup : l.session.isUploading = true) (hspoilt : SpoiltAck text) :
    (l.perform .loop).1.loop = .listening ∧ (l.perform .loop).1.session.isUploading = true ∧
      (l.perform .loop).1.ackDeadline = none := by
  obtain ⟨htrim, hno⟩ := spoiltAck_iff.mp hspoilt
  have hloop : l.loop = .listening := by
    unfold taken? at htaken
    split at htaken
    · assumption
    · cases htaken
  simp only [taken?, hloop, Option.bind_eq_some_iff] at htaken
  obtain ⟨⟨bytes, inbox⟩, hline, htext⟩ := htaken
  have hnone : (l.session.handleLine text).result = none := by
    cases hr : (l.session.handleLine text).result with
    | none => rfl
    | some frame => exact absurd (Session.handleLine_some hr).1 hno
  simp only [Link.perform, stepLoop_of_line hloop hline, takeLine_of_text htext, Option.getD_some,
    answer_of_none hnone]
  refine ⟨hloop, (Session.handleLine_none hnone).trans hup, ?_⟩
  simp [hearing, htrim]

end Link

variable [DecidableEq Origin]

/-- With a timeout, over every run of a link: each time the loop waits during an upload the deadline
is set, exactly if no spoilt acknowledgement is taken during an upload. A line clears a deadline and
is not the acknowledgement exactly if it is a spoilt one. -/
theorem deadline_during_upload_iff (board : Board) (settings : Settings) (port : Port)
    (htimeout : settings.ackTimeoutMs.isSome = true) (moves : List (Link.Move Origin)) :
    let start : Link Origin := Link.initial board settings port
    ((∀ before later, moves = before ++ later → (start.after before).loop = .listening →
        (start.after before).session.isUploading = true →
        (start.after before).ackDeadline.isSome = true) ↔
      ∀ before text later, moves = before ++ .loop :: later →
        (start.after before).taken? = some text →
        (start.after before).session.isUploading = true → ¬ SpoiltAck text) ∧
    ∀ (l : Link Origin) (bytes : List UInt8) (text : String), bytesText? bytes = some text →
      l.ackDeadline.isSome = true →
      ((l.takeLine bytes).1.ackDeadline = none ∧ Event.ofLine text ≠ .chunkReady ↔
        SpoiltAck text) := by
  intro start
  refine ⟨⟨fun hset before text later hmoves htaken hup hspoilt => ?_, fun hclean => ?_⟩, ?_⟩
  -- After a spoilt acknowledgement the loop listens, and there is no deadline.
  · obtain ⟨hloop, hstill, hnone⟩ := Link.unwatched_of_spoilt htaken hup hspoilt
    have hmoves' : moves = (before ++ [.loop]) ++ later := by simp [hmoves]
    have hsome := hset (before ++ [.loop]) later hmoves'
    rw [Link.after_concat] at hsome
    have hsome := hsome hloop hstill
    rw [hnone] at hsome
    cases hsome
  -- Without one, every prefix of the run is watched, by induction over its moves.
  · have hwatched : ∀ before later, moves = before ++ later → (start.after before).Watched := by
      intro before
      induction before using List.reverseRecOn with
      | nil =>
        intro later _ _ hup
        cases hup
      | append_singleton before m ih =>
        intro later hmoves
        have hmoves' : moves = before ++ m :: later := by simp [hmoves]
        rw [Link.after_concat]
        refine (ih (m :: later) hmoves').perform ?_ ?_
        · rw [Link.settings_after]
          exact htimeout
        · rintro rfl text htaken hup
          exact hclean before text later hmoves' htaken hup
    intro before later hmoves hloop hup
    exact (hwatched before later hmoves).deadline hloop hup
  · intro l bytes text htext hset
    rw [spoiltAck_iff, l.ackDeadline_takeLine htext]
    refine and_congr_left fun _ => ?_
    split
    · simp [*]
    · rename_i htrim
      simp only [htrim, iff_false]
      intro hnone
      rw [hnone] at hset
      cases hset

/-- A line that is not an acknowledgement comes in during an upload: the deadline stays set. -/
theorem deadline_during_upload_chatter :
    let start : Link Nat := Link.initial .blank {} .flowing
    let moves : List (Link.Move Nat) := [.request (.run [(1, .mk "receiveGo" .hat [] none)]),
      .loop, .loop, .receive (textBytes " C\n"), .loop]
    ({} : Settings).ackTimeoutMs.isSome = true ∧ (start.after moves).session.isUploading = true ∧
      ∀ before later, moves = before ++ later → (start.after before).loop = .listening →
        (start.after before).session.isUploading = true →
        (start.after before).ackDeadline.isSome = true := by
  intro start moves
  refine ⟨rfl, by decide +kernel,
    (deadline_during_upload_iff .blank {} .flowing rfl moves).1.mpr ?_⟩
  intro before text later hmoves htaken _ hspoilt
  -- The only line that is taken in the run is the one that came in.
  have hlines : (List.range 5).all
      (fun n => (start.after (moves.take n)).taken?.all (· == " C")) = true := by decide +kernel
  have hlen : before.length < 5 := by
    have hlength := congrArg List.length hmoves
    simp only [List.length_append, List.length_cons] at hlength
    have hfive : moves.length = 5 := rfl
    omega
  have hbefore : moves.take before.length = before := by
    rw [hmoves, List.take_left']
    rfl
  have htext := List.all_eq_true.mp hlines before.length (List.mem_range.mpr hlen)
  rw [hbefore, htaken] at htext
  obtain rfl : text = " C" := by simpa using htext
  obtain ⟨blanks, hline, -⟩ := hspoilt
  have hletters : " C".toList = [' ', 'C'] := rfl
  rw [hletters] at hline
  cases hline

/-- The board answers the start of an upload with `C` and a blank. -/
theorem spoilt_ack_clears_deadline :
    let start : Link Nat := Link.initial .blank {} .flowing
    let moves : List (Link.Move Nat) := [.request (.run [(1, .mk "receiveGo" .hat [] none)]),
      .loop, .loop, .receive (textBytes "C \n"), .loop]
    ¬ ∀ before later, moves = before ++ later → (start.after before).loop = .listening →
      (start.after before).session.isUploading = true →
      (start.after before).ackDeadline.isSome = true := by
  intro start moves hset
  have hup : (start.after moves).session.isUploading = true := by decide +kernel
  have hnone : (start.after moves).ackDeadline = none := by decide +kernel
  have hsome := hset moves [] (by simp) rfl hup
  rw [hnone] at hsome
  cases hsome

/-! ## A deadline has an upload

What was written and shown decides whether an acknowledgement is awaited, and an expired deadline is
judged by that. -/

omit [DecidableEq Origin]

/-- Whether an acknowledgement is awaited after an effect; `before` says whether one was before
it. -/
def LinkEffect.awaits (before : Bool) : LinkEffect Origin → Bool
  | .write frame => frame.expectsAck || before
  | .feedback (.status .stopped) | .feedback (.status .resetRequired) => false
  | .feedback _ => before

/-- Whether a frame to be acknowledged was written since an upload was last abandoned. -/
def awaitedAfter (effects : List (LinkEffect Origin)) : Bool :=
  effects.foldl LinkEffect.awaits false

/-- What is shown to the user otherwise does not say that an upload was abandoned. -/
theorem foldl_awaits_calm {shown : List (Feedback Origin)} (h : ∀ f ∈ shown, f.Calm) (w : Bool) :
    (Link.showing shown).foldl LinkEffect.awaits w = w := by
  induction shown with
  | nil => rfl
  | cons f shown ih =>
    obtain ⟨hstopped, hreset, -⟩ := h f List.mem_cons_self
    have hf : LinkEffect.awaits w (.feedback f) = w := by
      unfold LinkEffect.awaits
      split <;> simp_all
    simp only [Link.showing, List.map_cons, List.foldl_cons, hf]
    exact ih fun g hg => h g (List.mem_cons_of_mem _ hg)

namespace Link

/-- What the loop and the deadline say of the upload: it is in progress while a frame is on its way
that will set the deadline, and otherwise a deadline stands for one that is awaited. -/
structure Tracked (l : Link Origin) (awaited : Bool) : Prop where
  pending : l.loop.setsDeadline = true → l.session.isUploading = true
  waiting : l.isDone = false → l.loop.setsDeadline = false → l.ackDeadline.isSome = true →
    l.session.isUploading = awaited

theorem tracked_of_done {l : Link Origin} (h : l.isDone = true) (w : Bool) : l.Tracked w := by
  refine ⟨fun hack => ?_, fun hno => ?_⟩
  · unfold isDone at h
    split at h
    · rename_i hloop
      simp [LoopState.setsDeadline, LoopState.frame?, hloop] at hack
    · cases h
  · rw [h] at hno
    cases hno

/-- An attempt keeps the frame or, if it is refused, abandons the upload and says so. -/
theorem tracked_tryWrite {l : Link Origin} {frame : Frame} {w : Bool}
    (hack : frame.expectsAck = true → l.session.isUploading = true)
    (hother : frame.expectsAck = false → l.ackDeadline.isSome = true →
      l.session.isUploading = w) :
    (l.tryWrite frame).1.Tracked ((l.tryWrite frame).2.foldl LinkEffect.awaits w) := by
  rcases l.tryWrite_cases frame with ⟨gate, loop, hloop, heq⟩ | ⟨gate, heq⟩
  · rw [heq]
    have hsets : loop.setsDeadline = frame.expectsAck := by
      simp [LoopState.setsDeadline, hloop]
    exact ⟨fun h => hack (hsets.symm.trans h), fun _ h => hother (hsets.symm.trans h)⟩
  · rw [heq]
    refine ⟨fun h => ?_, fun _ _ _ => rfl⟩
    cases h

/-- After an answer with a frame to be acknowledged the upload is in progress; after any other the
deadline is as it was. -/
theorem tracked_answer {l : Link Origin} (hloop : l.loop = .listening)
    {r : Reply Origin (Option Frame)} {w : Bool}
    (hack : ∀ f, r.result = some f → f.expectsAck = true → r.session.isUploading = true)
    (hother : (∀ f, r.result = some f → f.expectsAck = false) → l.ackDeadline.isSome = true →
      r.session.isUploading = (showing r.shown).foldl LinkEffect.awaits w) :
    (l.answer r).1.Tracked ((l.answer r).2.foldl LinkEffect.awaits w) := by
  cases hr : r.result with
  | none =>
    rw [answer_of_none hr]
    refine ⟨fun h => ?_, fun _ _ hset => hother (by simp [hr]) hset⟩
    rw [setsDeadline_of_listening (l := { l with session := r.session }) hloop] at h
    cases h
  | some frame =>
    rw [answer_of_some hr, List.foldl_append]
    apply tracked_tryWrite
    · exact hack frame hr
    · intro hno hset
      refine hother (fun f hf => ?_) hset
      rw [hr] at hf
      obtain rfl := Option.some.inj hf
      exact hno

/-- A line that is answered is the acknowledgement. It cleared the deadline, and its answer says
whether the upload goes on. -/
theorem Tracked.hearing {l : Link Origin} {w : Bool} (h : l.Tracked w)
    (hloop : l.loop = .listening) (inbox : List UInt8) (text : String) :
    let r := (l.hearing inbox text).answer (l.session.handleLine text)
    r.1.Tracked (r.2.foldl LinkEffect.awaits w) := by
  apply tracked_answer (l := l.hearing inbox text) hloop
  · intro frame hr hack
    exact (Session.handleLine_some hr).2.trans hack
  · intro hno hset
    rw [foldl_awaits_calm (l.session.calm_handleLine text)]
    -- A deadline that is still set was not cleared, so the line is not the acknowledgement.
    have htrim : ¬ trimEnd text.toList = ['C'] := by
      intro htrim
      simp [Link.hearing, htrim] at hset
    have hnone : (l.session.handleLine text).result = none := by
      cases hr : (l.session.handleLine text).result with
      | none => rfl
      | some frame => exact absurd (trimEnd_of_ofLine_ack (Session.handleLine_some hr).1) htrim
    rw [Session.handleLine_none hnone]
    apply h.waiting (isDone_of_listening hloop) (setsDeadline_of_listening hloop)
    simpa [Link.hearing, htrim] using hset

variable [DecidableEq Origin]

/-- One step of the loop keeps the books, with what was awaited changed by the effects of the
step. -/
theorem Tracked.loopStep {l : Link Origin} {w : Bool} (h : l.Tracked w)
    {r : Link Origin × List (LinkEffect Origin)} (hstep : l.LoopStep r) :
    r.1.Tracked (r.2.foldl LinkEffect.awaits w) := by
  cases hstep with
  | @attempts frame due hloop =>
    have hsets : l.loop.setsDeadline = frame.expectsAck := by
      simp [LoopState.setsDeadline, LoopState.frame?, hloop]
    apply tracked_tryWrite
    · exact fun hack => h.pending (hsets.trans hack)
    · exact fun hno => h.waiting (by simp [isDone, hloop]) (hsets.trans hno)
  | @writes frame hloop hport =>
    have hsets : l.loop.setsDeadline = frame.expectsAck := by
      simp [LoopState.setsDeadline, LoopState.frame?, hloop]
    refine ⟨fun hack => ?_, fun _ _ hset => ?_⟩
    · cases hack
    -- A frame that is to be acknowledged begins to be awaited when it is written. Any other leaves
    -- the deadline and what is awaited.
    cases hack : frame.expectsAck with
    | true =>
      have hup := h.pending (hsets.trans hack)
      simpa [written, LinkEffect.awaits, hack] using hup
    | false =>
      have hset' : l.ackDeadline.isSome = true := by simpa [written, hack] using hset
      have hup := h.waiting (by simp [isDone, hloop]) (hsets.trans hack) hset'
      simpa [written, LinkEffect.awaits, hack] using hup
  | hears hloop hline htext => exact h.hearing hloop _ _
  | expires hloop hdue =>
    refine ⟨fun hack => ?_, fun _ _ hset => ?_⟩
    · rw [setsDeadline_of_listening hloop] at hack
      cases hack
    · cases hset
  | @asked asked requests hloop hr =>
    have hwait := h.waiting (isDone_of_listening hloop) (setsDeadline_of_listening hloop)
    cases l.session.requested_handleRequest asked with
    | begun hframe hup hcalm =>
      apply tracked_answer (l := { l with requests }) hloop
      · exact fun _ _ _ => hup
      · intro hno
        cases hno _ hframe
    -- Stopping abandons the upload and leaves the deadline. The user is told, so nothing is
    -- awaited.
    | stopped hframe hup hshown hcalm =>
      apply tracked_answer (l := { l with requests }) hloop
      · intro f hf hack
        rw [hframe] at hf
        obtain rfl := Option.some.inj hf
        cases hack
      · intro _ _
        rw [hup, hshown]
        simp [showing, LinkEffect.awaits]
    | other hframe hup hcalm =>
      apply tracked_answer (l := { l with requests }) hloop
      · intro f hf hack
        rw [hframe f hf] at hack
        cases hack
      · intro _ hset
        rw [hup, foldl_awaits_calm hcalm]
        exact hwait hset
  | breaks _ _ | garbles _ _ _ | loses _ _ | stops _ _ => exact tracked_of_done rfl _

/-- The other moves have no part in it: they may write a poke, which is not acknowledged. -/
theorem Tracked.perform {l : Link Origin} {w : Bool} (h : l.Tracked w) (m : Move Origin) :
    (l.perform m).1.Tracked ((l.perform m).2.foldl LinkEffect.awaits w) := by
  by_cases hm : m = .loop
  · subst hm
    rcases l.perform_loop with hidle | hstep
    · rw [hidle]
      exact h
    · exact h.loopStep hstep
  · obtain ⟨⟨hsession, hloop, hdeadline⟩, heffects⟩ := l.perform_frame hm
    -- A poke is not acknowledged.
    have hw : (l.perform m).2.foldl LinkEffect.awaits w = w := by
      rcases heffects with heffects | heffects
      · rw [heffects]
        rfl
      · rw [heffects]
        simp [LinkEffect.awaits, Frame.expectsAck]
    rw [hw]
    refine ⟨?_, ?_⟩
    · rw [hloop, hsession]
      exact h.pending
    · unfold isDone
      rw [hloop, hsession, hdeadline]
      exact h.waiting

/-- The books of every run, by induction over its moves. -/
theorem tracked_after (board : Board) (settings : Settings) (port : Port)
    (moves : List (Move Origin)) :
    let start : Link Origin := Link.initial board settings port
    (start.after moves).Tracked (awaitedAfter (start.effects moves)) := by
  intro start
  induction moves using List.reverseRecOn with
  | nil =>
    refine ⟨fun hack => ?_, fun _ _ hset => ?_⟩
    · cases hack
    · cases hset
  | append_singleton moves m ih =>
    rw [after_concat, effects_concat, awaitedAfter, List.foldl_append]
    exact ih.perform m

omit [DecidableEq Origin] in
theorem calm_tryWrite (l : Link Origin) (frame : Frame) :
    .feedback (.status .unresponsive) ∉ (l.tryWrite frame).2 := by
  rcases l.tryWrite_cases frame with ⟨gate, loop, -, h⟩ | ⟨gate, h⟩ <;> simp [h]

omit [DecidableEq Origin] in
theorem calm_answer {r : Reply Origin (Option Frame)}
    (h : .status .unresponsive ∉ r.shown) (l : Link Origin) :
    .feedback (.status .unresponsive) ∉ (l.answer r).2 := by
  have hshown : .feedback (.status .unresponsive) ∉ showing r.shown := by simpa [showing] using h
  cases hr : r.result with
  | none =>
    rw [answer_of_none hr]
    exact hshown
  | some frame =>
    rw [answer_of_some hr, List.mem_append, not_or]
    exact ⟨hshown, calm_tryWrite _ frame⟩

/-- The board is said to be silent in one place only. -/
theorem LoopStep.unresponsive {l : Link Origin} {r : Link Origin × List (LinkEffect Origin)}
    (hstep : l.LoopStep r) (h : .feedback (.status .unresponsive) ∈ r.2) :
    l.loop = .listening ∧ l.ackDeadline.isSome = true := by
  cases hstep with
  | expires hloop hdue =>
    refine ⟨hloop, ?_⟩
    cases hset : l.ackDeadline with
    | none => simp [hset] at hdue
    | some due => rfl
  | attempts hloop => exact absurd h (calm_tryWrite l _)
  -- Answers to lines and requests never say it.
  | hears hloop hline htext =>
    refine absurd h (calm_answer (fun hmem => ?_) _)
    exact (l.session.calm_handleLine _ _ hmem).2.2 rfl
  | @asked asked requests hloop hr =>
    refine absurd h (calm_answer (fun hmem => ?_) _)
    cases l.session.requested_handleRequest asked with
    | begun _ _ hcalm => exact (hcalm _ hmem).2.2 rfl
    | other _ _ hcalm => exact (hcalm _ hmem).2.2 rfl
    | stopped _ _ hshown hcalm =>
      rw [hshown] at hmem
      rcases List.mem_append.mp hmem with hmem | hmem
      · exact (hcalm _ hmem).2.2 rfl
      · simp at hmem
  | loses hloop hend =>
    simp only [fail, showing, Session.linkFailed, List.map_append, List.mem_append, List.mem_map,
      LinkEffect.feedback.injEq, exists_eq_right] at h
    rcases h with h | h
    · exact absurd rfl (Session.calm_clear _ _ h).2.2
    · simp at h
  | writes _ _ | breaks _ _ | garbles _ _ _ | stops _ _ =>
    simp [written, fail, showing, Session.linkFailed, brokenPort, notText] at h

/-- Only the loop, when it waits and its deadline has passed, says that the board is silent. -/
theorem expired_of_unresponsive {l : Link Origin} {m : Move Origin}
    (h : .feedback (.status .unresponsive) ∈ (l.perform m).2) :
    l.loop = .listening ∧ l.ackDeadline.isSome = true := by
  by_cases hm : m = .loop
  · subst hm
    rcases l.perform_loop with hidle | hstep
    · rw [hidle] at h
      cases h
    · exact hstep.unresponsive h
  · rcases (l.perform_frame hm).2 with heffects | heffects
    · simp [heffects] at h
    · simp [heffects] at h

end Link

variable [DecidableEq Origin]

/-- Over every run of a link: whenever the user is told that the board is silent, an upload is in
progress exactly if a frame to be acknowledged was written after the last time that everything was
stopped or a write was refused. -/
theorem unresponsive_during_upload_iff (board : Board) (settings : Settings) (port : Port)
    (before : List (Link.Move Origin)) (m : Link.Move Origin) :
    let start : Link Origin := Link.initial board settings port
    .feedback (.status .unresponsive) ∈ ((start.after before).perform m).2 →
      ((start.after before).session.isUploading = true ↔
        awaitedAfter (start.effects before) = true) := by
  intro start hshown
  obtain ⟨hloop, hset⟩ := Link.expired_of_unresponsive hshown
  have htracked := Link.tracked_after board settings port before
  rw [htracked.waiting (Link.isDone_of_listening hloop) (Link.setsDeadline_of_listening hloop) hset]

/-- A board that does not answer the start of an upload is found silent during it. -/
theorem unresponsive_during_upload_silent :
    let start : Link Nat := Link.initial .blank {} .flowing
    let moves : List (Link.Move Nat) := [.request (.run [(1, .mk "receiveGo" .hat [] none)]),
      .loop, .loop, .wait 5000]
    .feedback (.status .unresponsive) ∈ ((start.after moves).perform .loop).2 ∧
      awaitedAfter (start.effects moves) = true ∧
      (start.after moves).session.isUploading = true := by
  intro start moves
  have hshown : .feedback (.status .unresponsive) ∈ ((start.after moves).perform .loop).2 := by
    decide +kernel
  have hawaited : awaitedAfter (start.effects moves) = true := by decide +kernel
  exact ⟨hshown, hawaited,
    (unresponsive_during_upload_iff .blank {} .flowing moves .loop hshown).mpr hawaited⟩

/-- Everything is stopped during an upload, and later the board is said to be silent. -/
theorem unresponsive_after_stopping :
    let start : Link Nat := Link.initial .blank {} .flowing
    let moves : List (Link.Move Nat) := [.request (.run [(1, .mk "receiveGo" .hat [] none)]),
      .loop, .loop, .request .stopAll, .loop, .loop, .wait 5000]
    .feedback (.status .unresponsive) ∈ ((start.after moves).perform .loop).2 ∧
      (start.after moves).session.isUploading = false := by
  intro start moves
  exact ⟨by decide +kernel, by decide +kernel⟩

end BlockLink
