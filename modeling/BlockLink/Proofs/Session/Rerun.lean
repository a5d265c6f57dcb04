import Mathlib.Data.List.Induction
import BlockLink.Proofs.Event
import BlockLink.Proofs.Program
import BlockLink.Proofs.Session.Invariant

/-!
# `BlockLink/Proofs/Session/Rerun.lean` — running again what has ended

A program that was sent last is not sent again, so a script that has ended could not be restarted if
the end of its unit did not make the session forget what was sent. It does so for a unit that is
alive when its end is told. The main statement is the exact condition: running it again uploads if
the unit was alive, or if the program differs from the one last sent.

Where can it fail, then? Every program the channel remembers starts only units that are alive or
whose script is gone (`Covered`), and one thing alone breaks this: the end of a live unit in the
middle of an upload. The unit is dropped at once, but the program on its way still starts it and is
remembered when the upload is over, so that the true end of the unit finds nothing to forget.
-/

set_option autoImplicit false

namespace BlockLink

/-! ## What the channel remembers -/

namespace Upload

/-- The program was sent last, is on its way, or waits. -/
def Remembers (u : Upload) (program : String) : Prop :=
  u.lastSent = some program ∨ u.current.map (·.program) = some program ∨
    u.queued.map (·.program) = some program

/-- Sending adds one program to what is remembered. -/
theorem Remembers.of_send {u : Upload} {program sent : String}
    (h : (u.send sent).2.Remembers program) : program = sent ∨ u.Remembers program := by
  have hs := u.sends sent
  generalize u.send sent = r at hs h
  cases hs with
  | current hu hp =>
    rcases h with hl | hc | hq
    · exact Or.inr (Or.inl hl)
    · exact Or.inr (Or.inr (Or.inl hc))
    · exact absurd hq (by simp)
  | other hu hp =>
    rcases h with hl | hc | hq
    · exact Or.inr (Or.inl hl)
    · exact Or.inr (Or.inr (Or.inl hc))
    · exact Or.inl (Option.some.inj hq).symm
  | unchanged hu hp => exact Or.inr h
  | idle hu hp =>
    rcases h with hl | hc | hq
    · exact Or.inr (Or.inl hl)
    · exact Or.inl (Option.some.inj hc).symm
    · exact Or.inr (Or.inr (Or.inr hq))

/-- A step of an upload adds none: it only moves programs on. -/
theorem Remembers.of_chunkReady {u : Upload} {program : String}
    (h : u.chunkReady.2.Remembers program) : u.Remembers program := by
  have hs := u.answers
  generalize u.chunkReady = r at hs h
  unfold Remembers
  cases hs with
  | idle hu => exact h
  | queued hu hq =>
    rw [hq]
    rcases h with hl | hc | hn
    · exact Or.inl hl
    · exact Or.inr (Or.inr hc)
    · exact absurd hn (by simp)
  | pending hu hq hp =>
    rw [hu]
    exact h
  | done hu hq hp =>
    rw [hu]
    rcases h with hl | hn | hq'
    · exact Or.inr (Or.inl hl)
    · exact absurd hn (by simp)
    · exact Or.inr (Or.inr hq')

theorem Remembers.of_cancel {u : Upload} {program : String} (h : u.cancel.Remembers program) :
    u.Remembers program := by
  rcases h with hl | hn | hn
  · exact Or.inl hl
  · exact absurd hn (by simp [cancel])
  · exact absurd hn (by simp [cancel])

/-- What is still remembered when the last one sent is forgotten is on its way. -/
theorem Remembers.of_forgetSent {u : Upload} {program : String}
    (h : u.forgetSent.Remembers program) :
    u.Remembers program ∧ (u.Settled → u.isUploading = true) := by
  rcases h with hn | hc | hq
  · exact absurd hn (by simp [forgetSent])
  · refine ⟨Or.inr (Or.inl hc), fun _ => ?_⟩
    cases hu : u.current with
    | none => exact absurd hc (by simp [forgetSent, hu])
    | some t => simp [isUploading, hu]
  · refine ⟨Or.inr (Or.inr hq), fun hs => ?_⟩
    cases hu : u.current with
    | none => exact absurd hq (by simp [forgetSent, hs hu])
    | some t => simp [isUploading, hu]

theorem not_remembers_forget (u : Upload) (program : String) : ¬ u.forget.Remembers program := by
  rintro (hn | hn | hn) <;> exact absurd hn (by simp [forget])

end Upload

namespace Session

variable {Origin : Type}

theorem unchanged_notMem_showReports (s : Session Origin) (ds : List Diagnostic) :
    .status .unchanged ∉ s.showReports ds := by
  simp [showReports]

variable [DecidableEq Origin]

/-! ## What can go wrong -/

/-- At some point the end of a unit was told while it was alive and an upload was in progress. -/
def EndsInUpload (s : Session Origin) (ops : List (Operation Origin)) (id : UnitId) : Prop :=
  ∃ before text data later, ops = before ++ .line text :: later ∧
    Event.ofLine text = .threadEnded id data ∧ (s.after before).isUploading = true ∧
    (s.after before).units.contains id = true

theorem EndsInUpload.append {s : Session Origin} {ops : List (Operation Origin)} {id : UnitId}
    (h : s.EndsInUpload ops id) (rest : List (Operation Origin)) :
    s.EndsInUpload (ops ++ rest) id := by
  obtain ⟨before, text, data, later, rfl, hend⟩ := h
  exact ⟨before, text, data, later ++ rest, by simp, hend⟩

/-- A remembered program that starts a unit whose script holds its id starts one that is alive. -/
def Covered (s : Session Origin) (id : UnitId) : Prop :=
  ∀ program, s.upload.Remembers program → Program.Starts s.settings.mark program id →
    (s.registry.resolve id).isSome = true → s.units.contains id = true

/-- A request puts all units that it starts among the live ones. -/
theorem Covered.sent {s : Session Origin} {id : UnitId} (h : s.Covered id) (hs : s.Valid)
    {scripts : List (Origin × Block)} {units : List (CompiledUnit Origin)}
    (hc : (s.compiled scripts).result = .ok units) :
    Covered { s.loaded scripts units with
      upload := (s.upload.send (s.programOf scripts units)).2 } id := by
  intro program hmem hstarts hheld
  refine (contains_addUnits hs.units).mpr ?_
  obtain ⟨o, ho⟩ := Option.isSome_iff_exists.mp hheld
  rcases Upload.Remembers.of_send hmem with rfl | hold
  · exact Or.inr (Program.starts_build_iff.mp hstarts)
  · rcases (compileScripts_ok hc).resolve_cases hs.registry ho with hres | hnew
    · exact Or.inl (h program hold hstarts (by rw [hres]; rfl))
    · exact Or.inr hnew

/-- Removing a script takes its id away, and with it what is asked of the program. -/
theorem Covered.released {s : Session Origin} {id : UnitId} (h : s.Covered id) (hs : s.Valid)
    {o : Origin} {freed : UnitId} (hid : s.registry.idOf o = some freed) :
    Covered { s with
      registry := (s.registry.freeOrigin o).2, units := s.units.erase freed } id := by
  intro program hmem hstarts hheld
  obtain ⟨o', ho'⟩ := Option.isSome_iff_exists.mp hheld
  obtain ⟨hres, hne⟩ := hs.registry.resolve_freeOrigin_iff.mp ho'
  refine (SortedMap.contains_erase hs.units).mpr ⟨?_, h program hmem hstarts (by rw [hres]; rfl)⟩
  -- The freed id is the one that the removed script held, and this one is still bound.
  rintro rfl
  exact hne hid

/-- Only the end of a live unit in the middle of an upload uncovers it. -/
theorem Covered.effect {s s' : Session Origin} {op : Operation Origin} {id : UnitId}
    (h : s.Covered id) (hs : s.Valid) (heff : Effect s op s')
    (hend : ∀ text data, op = .line text → Event.ofLine text = .threadEnded id data →
      s.isUploading = true → s.units.contains id = true → False) : s'.Covered id := by
  cases heff with
  | kept registry units upload settings =>
    unfold Covered
    rw [registry, units, upload, settings]
    exact h
  | failed hc =>
    intro program hmem hstarts hheld
    obtain ⟨o, ho⟩ := Option.isSome_iff_exists.mp hheld
    have hres := ((compileScripts_error hc hs.registry).2.1 id o ho).1
    exact h program hmem hstarts (by rw [hres]; rfl)
  | sent hc => exact h.sent hs hc
  | cleared hop => exact fun program hmem => absurd hmem (s.upload.not_remembers_forget program)
  | cancelled => exact fun program hmem => h program hmem.of_cancel
  | released hid => exact h.released hs hid
  | stepped => exact fun program hmem => h program hmem.of_chunkReady
  -- The end of a unit makes the channel forget, unless an upload is on its way.
  | @ended text data ended hline halive =>
    intro program hmem hstarts hheld
    obtain ⟨hold, hup⟩ := Upload.Remembers.of_forgetSent hmem
    refine (SortedMap.contains_erase hs.units).mpr ⟨?_, h program hold hstarts hheld⟩
    rintro rfl
    exact hend text data rfl hline (hup hs.upload) halive

theorem covered_after (board : Board) (settings : Settings) {ops : List (Operation Origin)}
    {id : UnitId} (h : ¬ (new board settings : Session Origin).EndsInUpload ops id) :
    ((new board settings).after ops).Covered id := by
  induction ops using List.reverseRecOn with
  | nil =>
    exact fun program hmem =>
      absurd hmem ((Upload.new settings.chunkSize).not_remembers_forget program)
  | append_singleton ops op ih =>
    rw [after_concat]
    refine (ih fun hops => h (hops.append [op])).effect (valid_after board settings ops)
      (perform_effect _ op) ?_
    rintro text data rfl hline hup halive
    exact h ⟨ops, text, data, [], rfl, hline, hup, halive⟩

/-! ## Running again -/

/-- The program that running scripts sends, if they compile. -/
def wanted? (s : Session Origin) (scripts : List (Origin × Block)) : Option String :=
  match (s.compiled scripts).result with
  | .ok units => some (s.programOf scripts units)
  | .error _ => none

end Session

/-- A request to run scripts was answered with the beginning of an upload, and the user is not told
that nothing changed. -/
def Reply.Uploads {Origin : Type} (r : Reply Origin (Except CompileError (Option Frame))) : Prop :=
  r.result = .ok (some .uploadStart) ∧ .status .unchanged ∉ r.shown

namespace Session

variable {Origin : Type} [DecidableEq Origin]

theorem wanted?_of_ok {s : Session Origin} {scripts : List (Origin × Block)}
    {units : List (CompiledUnit Origin)} (hc : (s.compiled scripts).result = .ok units) :
    s.wanted? scripts = some (s.programOf scripts units) := by
  simp only [wanted?, hc]

/-- While nothing is on its way, scripts that compile are uploaded unless their program was sent
last. -/
theorem run_uploads_iff {s : Session Origin} {scripts : List (Origin × Block)}
    (hidle : s.isUploading = false) (hok : (s.run scripts).result.isOk = true) :
    (s.run scripts).Uploads ↔ s.upload.lastSent ≠ s.wanted? scripts := by
  have hcurrent : s.upload.current = none := by simpa [isUploading, Upload.isUploading] using hidle
  obtain ⟨units, hc⟩ := exists_compiled hok
  rw [run_of_ok hc, wanted?_of_ok hc]
  by_cases hp : s.upload.lastSent = some (s.programOf scripts units)
  · rw [Upload.send_of_unchanged hcurrent hp]
    simp [Reply.Uploads, SendStatus.frame?, hp]
  · rw [Upload.send_of_idle hcurrent hp]
    refine iff_of_true ⟨rfl, ?_⟩ hp
    rw [List.mem_append, not_or]
    exact ⟨s.unchanged_notMem_showReports _, by simp [SendStatus.notice]⟩

/-- The program of a request starts the ids that its scripts hold. -/
theorem starts_programOf {s : Session Origin} (hs : s.Valid) {scripts : List (Origin × Block)}
    {units : List (CompiledUnit Origin)} (hc : (s.compiled scripts).result = .ok units)
    {id : UnitId} {o : Origin} (hid : s.registry.resolve id = some o)
    (ho : o ∈ scripts.map (·.1)) : Program.Starts s.settings.mark (s.programOf scripts units) id :=
  Program.starts_build_iff.mpr ((compileScripts_ok hc).mem_ids hs.registry hid ho)

end Session

variable {Origin : Type} [DecidableEq Origin]

/-- In every session without an upload, running a script again right after the end of its unit was
told uploads exactly if the unit was alive until then or the program is not the one last sent. It
can fail to do so only if the end of a live unit with that id was told during an earlier upload. -/
theorem rerun_uploads_iff (board : Board) (settings : Settings) (ops : List (Operation Origin))
    (id : UnitId) (o : Origin) (data : String) (scripts : List (Origin × Block)) :
    let s : Session Origin := (Session.new board settings).after ops
    let ended := (s.handleLine ("dc:" ++ wordText id ++ ":" ++ data)).session
    s.isUploading = false → s.registry.resolve id = some o → o ∈ scripts.map (·.1) →
    (ended.run scripts).result.isOk = true →
    ((ended.run scripts).Uploads ↔
        s.units.contains id = true ∨ s.upload.lastSent ≠ ended.wanted? scripts) ∧
      ((ended.run scripts).Uploads ∨ (Session.new board settings).EndsInUpload ops id) := by
  intro s ended hidle hid ho hok
  have hended : ended = s.unitEnded id :=
    congrArg Reply.session (Session.handleLine_ended (Event.ofLine_ended id data) hid)
  obtain ⟨units, hc⟩ := Session.exists_compiled hok
  cases halive : s.units.contains id with
  | true =>
    -- The end of a live unit makes the session forget what was sent, so any program is new.
    rw [Session.unitEnded_of_alive halive] at hended
    have hidle' : ended.isUploading = false := by
      rw [hended]
      exact hidle
    have hforgot : ended.upload.lastSent = none := by
      rw [hended]
      rfl
    have huploads : (ended.run scripts).Uploads := by
      rw [Session.run_uploads_iff hidle' hok, hforgot, Session.wanted?_of_ok hc]
      simp
    exact ⟨iff_of_true huploads (Or.inl rfl), Or.inl huploads⟩
  | false =>
    rw [Session.unitEnded_of_gone halive] at hended
    rw [hended] at hok hc ⊢
    have hiff := Session.run_uploads_iff hidle hok
    refine ⟨by rw [hiff]; simp, ?_⟩
    by_cases hend : (Session.new board settings).EndsInUpload ops id
    · exact Or.inr hend
    · -- The program would start the unit, which is not alive: so it is not a remembered one.
      refine Or.inl (hiff.mpr fun hlast => ?_)
      have hstarts : Program.Starts s.settings.mark (s.programOf scripts units) id :=
        Session.starts_programOf (Session.valid_after board settings ops) hc hid ho
      have hheld : (s.registry.resolve id).isSome = true := by rw [hid]; rfl
      have hcovered := Session.covered_after board settings hend (s.programOf scripts units)
        (Or.inl (hlast.trans (Session.wanted?_of_ok hc))) hstarts hheld
      exact absurd (halive.symm.trans hcovered) (by simp)

/-- The ordinary case: a program was sent, its unit ends, and the same program is sent again. -/
theorem rerun_uploads_after_end :
    let scripts : List (Nat × Block) := [(1, .mk "doStopThis" .command [] none)]
    let sending : Session Nat := (Session.new .blank {}).after [.run scripts]
    let s := (Session.new .blank {}).after ([.run scripts] ++ sending.acknowledgements)
    let ended := (s.handleLine ("dc:" ++ wordText 0 ++ ":" ++ "done")).session
    s.isUploading = false ∧ s.registry.resolve 0 = some 1 ∧ 1 ∈ scripts.map (·.1) ∧
      (ended.run scripts).result.isOk = true ∧ s.upload.lastSent = ended.wanted? scripts ∧
      (ended.run scripts).Uploads := by
  intro scripts sending s ended
  have hkept : sending.registry.resolve 0 = some 1 ∧ sending.units.contains 0 = true ∧
      (sending.compiled scripts).result.isOk = true := by decide +kernel
  obtain ⟨t, ht⟩ : ∃ t, sending.upload.current = some t :=
    Option.isSome_iff_exists.mp (by decide +kernel)
  -- The upload is taken to its end by a lemma, not by evaluating it.
  have hs : s = { sending with
      upload := { sending.upload with current := none, lastSent := some t.program } } :=
    (Session.after_append _ _ _).trans (Session.after_acknowledgements ht (by decide +kernel))
  have hid : s.registry.resolve 0 = some 1 := by rw [hs]; exact hkept.1
  have halive : s.units.contains 0 = true := by rw [hs]; exact hkept.2.1
  have hended : ended = { s with units := s.units.erase 0, upload := s.upload.forgetSent } :=
    (congrArg Reply.session (Session.handleLine_ended (Event.ofLine_ended 0 "done") hid)).trans
      (Session.unitEnded_of_alive halive)
  have hidle : s.isUploading = false := by rw [hs]; rfl
  have hmem : 1 ∈ scripts.map (·.1) := by simp [scripts]
  have hok : (ended.run scripts).result.isOk = true := by
    rw [Session.run_isOk, hended, hs]
    exact hkept.2.2
  have hlast : s.upload.lastSent = ended.wanted? scripts := by
    rw [hended, hs]
    exact (congrArg (Option.map Transfer.program) ht).symm.trans rfl
  exact ⟨hidle, hid, hmem, hok, hlast,
    (rerun_uploads_iff .blank {} _ 0 1 "done" scripts hidle hid hmem hok).1.mpr (Or.inl halive)⟩

/-- The end of the unit is told while its program is on its way, and again when it has run: then
running it again sends nothing. -/
theorem rerun_skipped_after_end_in_upload :
    let scripts : List (Nat × Block) := [(1, .mk "doStopThis" .command [] none)]
    let sending : Session Nat := (Session.new .blank {}).after [.run scripts, .line "dc:0:"]
    let s := sending.after sending.acknowledgements
    let ended := (s.handleLine "dc:0:").session
    s.isUploading = false ∧ s.registry.resolve 0 = some 1 ∧ 1 ∈ scripts.map (·.1) ∧
      (ended.run scripts).result.isOk = true ∧ ¬ (ended.run scripts).Uploads := by
  intro scripts sending s ended
  have hkept : sending.registry.resolve 0 = some 1 ∧ sending.units.contains 0 = false ∧
      (sending.compiled scripts).result.isOk = true := by decide +kernel
  obtain ⟨t, ht⟩ : ∃ t, sending.upload.current = some t :=
    Option.isSome_iff_exists.mp (by decide +kernel)
  have hs : s = { sending with
      upload := { sending.upload with current := none, lastSent := some t.program } } :=
    Session.after_acknowledgements ht (by decide +kernel)
  have hid : s.registry.resolve 0 = some 1 := by rw [hs]; exact hkept.1
  have hended : ended = s :=
    (congrArg Reply.session (Session.handleLine_ended (Event.ofLine_ended 0 "") hid)).trans
      (Session.unitEnded_of_gone (by rw [hs]; exact hkept.2.1))
  have hidle : s.isUploading = false := by rw [hs]; rfl
  have hok : (ended.run scripts).result.isOk = true := by
    rw [Session.run_isOk, hended, hs]
    exact hkept.2.2
  refine ⟨hidle, hid, by simp [scripts], hok, ?_⟩
  -- The program on its way is remembered, and it is the one that running again would send.
  rw [hended] at hok ⊢
  rw [Session.run_uploads_iff hidle hok, not_not, hs]
  exact (congrArg (Option.map Transfer.program) ht).symm.trans rfl

end BlockLink
